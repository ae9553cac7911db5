import Mathlib.Data.String.Basic
import ChiffonDB.Lib.Calendar
import ChiffonDB.Commands.Import
import ChiffonDB.Schema.IntText

/-!
# Dates in CSV cells

What `infer_csv_value` of `commands/import.rs` makes of a text that is no number and no truth value.

* `Part` — the text at a range of bytes; `byteSlice_eq_ok` — a slice that does not panic is one.
* `daysFromEpoch_eq` — the date arithmetic is that of the calendar.
* `IsoDateTime` — the date-times that the comments ask for.
* `inferCsvValue_sound_iff` — **the cells that are read as they should be**.
-/

set_option autoImplicit false

namespace ChiffonDB

open String (utf8Len utf8Len_nil utf8Len_cons utf8Len_append)

variable {F : Type} [F64 F] [F64Text F]

/-! ## Slices -/

theorem dropBytes_eq_some {n : Nat} {cs rest : List Char} :
    dropBytes n cs = some rest ↔ ∃ pre, cs = pre ++ rest ∧ utf8Len pre = n := by
  fun_induction dropBytes n cs with
  | case1 cs =>
    constructor
    · intro h
      cases h
      exact ⟨[], rfl, rfl⟩
    · rintro ⟨pre, rfl, hpre⟩
      cases pre with
      | nil => rfl
      | cons c pre =>
        have := c.utf8Size_pos
        rw [utf8Len_cons] at hpre
        omega
  | case2 n =>
    refine ⟨nofun, ?_⟩
    rintro ⟨pre, hpre, hn⟩
    obtain ⟨rfl, -⟩ := List.append_eq_nil_iff.1 hpre.symm
    cases hn
  | case3 n c cs hle ih =>
    rw [ih]
    clear ih
    constructor
    · rintro ⟨pre, rfl, hpre⟩
      exact ⟨c :: pre, rfl, by rw [utf8Len_cons]; omega⟩
    · rintro ⟨pre, hcs, hpre⟩
      cases pre with
      | nil => cases hpre
      | cons c' pre =>
        cases hcs
        rw [utf8Len_cons] at hpre
        exact ⟨pre, rfl, by omega⟩
  | case4 n c cs hle =>
    refine ⟨nofun, ?_⟩
    rintro ⟨pre, hcs, hpre⟩
    cases pre with
    | nil => cases hpre
    | cons c' pre =>
      cases hcs
      rw [utf8Len_cons] at hpre
      omega

theorem takeBytes_eq_some {n : Nat} {cs part : List Char} :
    takeBytes n cs = some part ↔ ∃ rest, cs = part ++ rest ∧ utf8Len part = n := by
  fun_induction takeBytes n cs generalizing part with
  | case1 cs =>
    constructor
    · intro h
      cases h
      exact ⟨cs, rfl, rfl⟩
    · rintro ⟨rest, rfl, hpart⟩
      cases part with
      | nil => rfl
      | cons c part =>
        have := c.utf8Size_pos
        rw [utf8Len_cons] at hpart
        omega
  | case2 n =>
    refine ⟨nofun, ?_⟩
    rintro ⟨rest, hpart, hn⟩
    obtain ⟨rfl, -⟩ := List.append_eq_nil_iff.1 hpart.symm
    cases hn
  | case3 n c cs hle ih =>
    rw [Option.map_eq_some_iff]
    constructor
    · rintro ⟨part', hpart, rfl⟩
      obtain ⟨rest, rfl, hn⟩ := ih.1 hpart
      exact ⟨rest, rfl, by rw [utf8Len_cons]; omega⟩
    · rintro ⟨rest, hcs, hpart⟩
      cases part with
      | nil => cases hpart
      | cons c' part =>
        cases hcs
        rw [utf8Len_cons] at hpart
        exact ⟨part, ih.2 ⟨rest, rfl, by omega⟩, rfl⟩
  | case4 n c cs hle =>
    refine ⟨nofun, ?_⟩
    rintro ⟨rest, hcs, hpart⟩
    cases part with
    | nil => cases hpart
    | cons c' part =>
      cases hcs
      rw [utf8Len_cons] at hpart
      omega

/-- The text at the bytes from `i` to `j`, whole characters all of them. -/
def Part (s : String) (i j : Nat) (part : String) : Prop :=
  ∃ pre rest, s.toList = pre ++ (part.toList ++ rest) ∧ utf8Len pre = i ∧ i + utf8Len part.toList = j

/-- **A slice that does not panic.** -/
theorem byteSlice_eq_ok {s part : String} {i j : Nat} (hij : i ≤ j) : byteSlice s i j = .ok part ↔ Part s i j part := by
  unfold byteSlice Part
  constructor
  · intro h
    split at h
    · rename_i cs hcs
      cases h
      obtain ⟨behind, hdrop, htake⟩ := Option.bind_eq_some_iff.1 hcs
      obtain ⟨pre, hpre, hi⟩ := dropBytes_eq_some.1 hdrop
      obtain ⟨rest, rfl, hj⟩ := takeBytes_eq_some.1 htake
      rw [String.toList_ofList]
      exact ⟨pre, rest, hpre, hi, by omega⟩
    · cases h
  · rintro ⟨pre, rest, hs, hi, hj⟩
    have hdrop : dropBytes i s.toList = some (part.toList ++ rest) := dropBytes_eq_some.2 ⟨pre, hs, hi⟩
    have htake : takeBytes (j - i) (part.toList ++ rest) = some part.toList := takeBytes_eq_some.2 ⟨rest, rfl, by omega⟩
    rw [hdrop, Option.bind_some, htake]
    exact congrArg Outcome.ok String.ofList_toList

/-- What is made of a part. -/
theorem parseSlice_eq_ok {α β : Type} {parse : String → Option α} {s : String} {i j : Nat} (hij : i ≤ j)
    {next : α → Outcome (Option β)} {r : Option β} :
    parseSlice parse s i j next = .ok r ↔
      ∃ part, Part s i j part ∧ ((parse part = none ∧ r = none) ∨ ∃ a, parse part = some a ∧ next a = .ok r) := by
  unfold parseSlice
  rw [Outcome.bind_eq_ok]
  refine exists_congr fun part => and_congr (byteSlice_eq_ok hij) ?_
  cases parse part with
  | none =>
    constructor
    · intro h
      cases h
      exact .inl ⟨rfl, rfl⟩
    · rintro (⟨-, rfl⟩ | ⟨a, ha, -⟩)
      · rfl
      · cases ha
  | some a =>
    constructor
    · exact fun h => .inr ⟨a, rfl, h⟩
    · rintro (⟨h, -⟩ | ⟨b, hb, h⟩)
      · cases h
      · cases hb
        exact h

/-! ## Days -/

/-- **The date arithmetic is that of the calendar.** -/
theorem daysFromEpoch_eq (date : Calendar.Date) : daysFromEpoch date.year date.month date.day = date.unixDays := by
  obtain ⟨year, month, day, hm1, hm12, hd1, hd⟩ := date
  -- the years and the months of the formula, where the year starts in March
  have hformula : ∀ (y : ℕ) (m : ℕ) (n : ℤ),
      (36525 * ((y : ℤ) + 4716)).tdiv 100 + (306001 * ((m : ℤ) + 1)).tdiv 10000 + n +
          (2 - (y : ℤ).tdiv 100 + ((y : ℤ).tdiv 100).tdiv 4) - 1524 - 2440588 =
        Calendar.daysBeforeYear (y + 1) + (306001 * (m + 1) / 10000 : ℕ) - 428 + (n - 1) - 719528 := by
    intro y m n
    have hyear := Calendar.daysBeforeYear_succ y
    rw [Int.tdiv_eq_ediv_of_nonneg (by omega), Int.tdiv_eq_ediv_of_nonneg (by omega), Int.tdiv_eq_ediv_of_nonneg (by omega),
      Int.tdiv_eq_ediv_of_nonneg (by omega)]
    push_cast
    omega
  unfold Calendar.Date.unixDays
  rw [Calendar.unixEpoch_number]
  unfold Calendar.Date.number daysFromEpoch
  dsimp only
  by_cases hmonth : month ≤ 2
  · have hwinter := Calendar.daysBeforeMonth_winter year hm1 hmonth
    rw [if_pos (by omega), if_pos (by omega)]
    cases year with
    | zero =>
      have h0 : Calendar.daysBeforeYear 0 = 0 := rfl
      have hdiv : (36525 * (((0 : ℕ) : ℤ) - 1 + 4716)).tdiv 100 = 1722153 := by decide
      have hcentury : (((0 : ℕ) : ℤ) - 1).tdiv 100 = 0 := by decide
      rw [hdiv, hcentury, Int.tdiv_eq_ediv_of_nonneg (by omega), Int.zero_tdiv]
      omega
    | succ y =>
      have h := hformula y (month + 12) day
      push_cast at h ⊢
      rw [add_sub_cancel_right]
      omega
  · have hmarch := Calendar.daysBeforeMonth_march year (by omega : 3 ≤ month) hm12
    rw [if_neg (by omega), if_neg (by omega)]
    have h := hformula year month day
    push_cast at h ⊢
    omega

/-! ## What is read -/

/-- A part that is a number. -/
def PartReads {α : Type} (parse : String → Option α) (s : String) (i j : Nat) (a : α) : Prop :=
  ∃ part, Part s i j part ∧ parse part = some a

/-- The six parts of a text, where each lies and what is taken there. -/
def dateParts : List (Nat × Nat × (String → Bool)) :=
  [(0, 4, fun p => (parseI64 p).isSome), (5, 7, fun p => (parseU32 p).isSome), (8, 10, fun p => (parseU32 p).isSome),
    (11, 13, fun p => (parseI64 p).isSome), (14, 16, fun p => (parseI64 p).isSome), (17, 19, fun p => (parseI64 p).isSome)]

/-- A text is given up at a part of whole characters that is no number, behind parts that are numbers. -/
inductive GivenUp (s : String) : List (Nat × Nat × (String → Bool)) → Prop
  | here {i j : Nat} {reads : String → Bool} {parts : List (Nat × Nat × (String → Bool))} {part : String}
    (hpart : Part s i j part) (hno : reads part = false) : GivenUp s ((i, j, reads) :: parts)
  | later {i j : Nat} {reads : String → Bool} {parts : List (Nat × Nat × (String → Bool))} {part : String}
    (hpart : Part s i j part) (hyes : reads part = true) (hlater : GivenUp s parts) : GivenUp s ((i, j, reads) :: parts)

/-- The six parts as numbers. -/
structure ReadsDate (s : String) (year : Int64) (month day : UInt32) (hour min sec : Int64) : Prop where
  year : PartReads parseI64 s 0 4 year
  month : PartReads parseU32 s 5 7 month
  day : PartReads parseU32 s 8 10 day
  hour : PartReads parseI64 s 11 13 hour
  min : PartReads parseI64 s 14 16 min
  sec : PartReads parseI64 s 17 19 sec

/-- A month and a day that some date has. -/
def DayInRange (month day : UInt32) : Prop := (1 ≤ month.toNat ∧ month.toNat ≤ 12) ∧ 1 ≤ day.toNat ∧ day.toNat ≤ 31

section Reads

variable {α β : Type} {parse : String → Option α} {s : String} {i j : Nat} {next : α → Outcome (Option β)}
  {parts : List (Nat × Nat × (String → Bool))}

theorem parseSlice_eq_some (hij : i ≤ j) {b : β} :
    parseSlice parse s i j next = .ok (some b) ↔ ∃ a, PartReads parse s i j a ∧ next a = .ok (some b) := by
  rw [parseSlice_eq_ok hij]
  constructor
  · rintro ⟨part, hpart, ⟨-, h⟩ | ⟨a, ha, h⟩⟩
    · cases h
    · exact ⟨a, ⟨part, hpart, ha⟩, h⟩
  · rintro ⟨a, ⟨part, hpart, ha⟩, h⟩
    exact ⟨part, hpart, .inr ⟨a, ha, h⟩⟩

theorem GivenUp.parseSlice (h : GivenUp s ((i, j, fun p => (parse p).isSome) :: parts)) (hij : i ≤ j)
    (hnext : GivenUp s parts → ∀ a, next a = .ok none) : parseSlice parse s i j next = .ok none := by
  rw [parseSlice_eq_ok hij]
  cases h with
  | here hpart hno => exact ⟨_, hpart, .inl ⟨Option.not_isSome_iff_eq_none.1 (Bool.eq_false_iff.1 hno), rfl⟩⟩
  | later hpart hyes hlater =>
    obtain ⟨a, ha⟩ := Option.isSome_iff_exists.1 hyes
    exact ⟨_, hpart, .inr ⟨a, ha, hnext hlater a⟩⟩

theorem givenUp_or (hij : i ≤ j) (h : parseSlice parse s i j next = .ok none) {Q : Prop}
    (hnext : ∀ a, PartReads parse s i j a → next a = .ok none → GivenUp s parts ∨ Q) :
    GivenUp s ((i, j, fun p => (parse p).isSome) :: parts) ∨ Q := by
  obtain ⟨part, hpart, ⟨hno, -⟩ | ⟨a, ha, h⟩⟩ := (parseSlice_eq_ok hij).1 h
  · exact .inl (.here hpart (by rw [hno]; rfl))
  · exact (hnext a ⟨part, hpart, ha⟩ h).imp (.later hpart (by rw [ha]; rfl)) id

end Reads

theorem dayInRange_iff {month day : UInt32} :
    (!(1 ≤ month && month ≤ 12) || !(1 ≤ day && day ≤ 31)) = true ↔ ¬ DayInRange month day := by
  simp only [DayInRange, UInt32.le_iff_toNat_le, Bool.or_eq_true, Bool.not_eq_true', Bool.and_eq_false_iff,
    decide_eq_false_iff_not, not_and_or]
  exact Iff.rfl

/-- The UNIX milliseconds that the parts give. -/
def unixMsOf (year : Int64) (month day : UInt32) (hour min sec : Int64) : Int :=
  (daysFromEpoch year.toInt month.toNat day.toNat * 86400 + hour.toInt * 3600 + min.toInt * 60 + sec.toInt) * 1000

/-- **A text that becomes a timestamp.** -/
theorem chronoParseIso8601_eq_some {s : String} {ms : Int} :
    chronoParseIso8601 s = .ok (some ms) ↔ 19 ≤ s.utf8ByteSize ∧ ∃ year month day hour min sec,
      ReadsDate s year month day hour min sec ∧ DayInRange month day ∧ unixMsOf year month day hour min sec = ms := by
  unfold chronoParseIso8601
  by_cases hlen : s.utf8ByteSize < 19
  · rw [if_pos hlen]
    exact ⟨nofun, fun h => absurd h.1 (Nat.not_le.2 hlen)⟩
  · rw [if_neg hlen]
    simp (disch := decide) only [parseSlice_eq_some]
    constructor
    · rintro ⟨year, hyear, month, hmonth, day, hday, hour, hhour, min, hmin, sec, hsec, h⟩
      split at h
      · cases h
      · rename_i hrange
        rw [dayInRange_iff, not_not] at hrange
        cases h
        exact ⟨Nat.le_of_not_lt hlen, year, month, day, hour, min, sec, ⟨hyear, hmonth, hday, hhour, hmin, hsec⟩, hrange, rfl⟩
    · rintro ⟨-, year, month, day, hour, min, sec, h, hrange, rfl⟩
      refine ⟨year, h.year, month, h.month, day, h.day, hour, h.hour, min, h.min, sec, h.sec, ?_⟩
      rw [if_neg (mt dayInRange_iff.1 (not_not.2 hrange))]
      rfl

/-- **A text that does not**, and is no panic. -/
theorem chronoParseIso8601_eq_none {s : String} :
    chronoParseIso8601 s = .ok none ↔ s.utf8ByteSize < 19 ∨ GivenUp s dateParts ∨ ∃ year month day hour min sec,
      ReadsDate s year month day hour min sec ∧ ¬ DayInRange month day := by
  unfold chronoParseIso8601
  by_cases hlen : s.utf8ByteSize < 19
  · rw [if_pos hlen]
    exact ⟨fun _ => .inl hlen, fun _ => rfl⟩
  · rw [if_neg hlen, or_iff_right hlen]
    constructor
    · intro h
      refine givenUp_or (by decide) h fun year hyear h => givenUp_or (by decide) h fun month hmonth h =>
        givenUp_or (by decide) h fun day hday h => givenUp_or (by decide) h fun hour hhour h =>
          givenUp_or (by decide) h fun min hmin h => givenUp_or (by decide) h fun sec hsec h => .inr ?_
      split at h
      · rename_i hrange
        exact ⟨year, month, day, hour, min, sec, ⟨hyear, hmonth, hday, hhour, hmin, hsec⟩, dayInRange_iff.1 hrange⟩
      · cases h
    · rintro (h | ⟨year, month, day, hour, min, sec, h, hrange⟩)
      · exact h.parseSlice (by decide) fun h _ => h.parseSlice (by decide) fun h _ => h.parseSlice (by decide) fun h _ =>
          h.parseSlice (by decide) fun h _ => h.parseSlice (by decide) fun h _ => h.parseSlice (by decide) fun h _ => nomatch h
      · have hstep : ∀ {α : Type} {parse : String → Option α} {i j : Nat} {next : α → Outcome (Option Int)} {a : α},
            i ≤ j → PartReads parse s i j a → next a = .ok none → parseSlice parse s i j next = .ok none := by
          rintro α parse i j next a hij ⟨part, hpart, ha⟩ h
          exact (parseSlice_eq_ok hij).2 ⟨part, hpart, .inr ⟨a, ha, h⟩⟩
        refine hstep (by decide) h.year (hstep (by decide) h.month (hstep (by decide) h.day (hstep (by decide) h.hour
          (hstep (by decide) h.min (hstep (by decide) h.sec ?_)))))
        rw [if_pos (dayInRange_iff.2 hrange)]
        rfl

/-! ## Date-times -/

/-- A second of a day of a year of four digits. -/
structure DateTime extends Calendar.Date where
  hour : ℕ
  minute : ℕ
  second : ℕ
  year_le : year ≤ 9999
  hour_lt : hour < 24
  minute_lt : minute < 60
  second_lt : second < 60

namespace DateTime

variable (t : DateTime)

/-- `YYYY-MM-DDThh:mm:ss`. -/
def text : List Char :=
  pad 4 t.year ++ '-' :: (pad 2 t.month ++ '-' :: (pad 2 t.day ++ 'T' :: (pad 2 t.hour ++ ':' ::
    (pad 2 t.minute ++ ':' :: pad 2 t.second))))

/-- UNIX milliseconds. -/
def unixMs : ℤ := (t.unixDays * 86400 + t.hour * 3600 + t.minute * 60 + t.second) * 1000

end DateTime

/-- A text is a date-time of the supported form and the UTC mark, and this is its instant. -/
def IsoDateTime (marks : Set String) (s : String) (ms : ℤ) : Prop :=
  ∃ (t : DateTime) (mark : String), mark ∈ marks ∧ s.toList = t.text ++ mark.toList ∧ ms = t.unixMs

theorem utf8Size_of_isDigit {c : Char} (h : c.isDigit = true) : c.utf8Size = 1 := by
  have hle : c.val ≤ 57 := by
    unfold Char.isDigit at h
    simp only [Bool.and_eq_true, decide_eq_true_eq] at h
    exact h.2
  unfold Char.utf8Size
  rw [if_pos (UInt32.le_trans hle (by decide))]

theorem utf8Len_pad (w n : ℕ) : utf8Len (pad w n) = w := by
  have hone : ∀ cs : List Char, (∀ c ∈ cs, c.isDigit = true) → utf8Len cs = cs.length := by
    intro cs h
    induction cs with
    | nil => rfl
    | cons c cs ih =>
      rw [utf8Len_cons, utf8Size_of_isDigit (h c List.mem_cons_self), ih fun c' hc => h c' (List.mem_cons_of_mem c hc),
        List.length_cons]
  rw [hone _ fun c hc => isDigit_of_mem_pad hc, length_pad]

/-- A number of a fixed width, where it stands. -/
theorem partReads_i64 {s : String} {i j n : ℕ} (w : ℕ) (pre rest : List Char) (hs : s.toList = pre ++ (pad w n ++ rest))
    (hi : utf8Len pre = i) (hj : i + w = j) (hw : 0 < w) (hn : n < 10 ^ w) (hlt : n < 2 ^ 63) :
    PartReads parseI64 s i j (Int64.ofInt n) := by
  refine ⟨String.ofList (pad w n), ⟨pre, rest, ?_, hi, ?_⟩, parseI64_digits (parseDigits_pad hw hn) hlt⟩
  · rw [String.toList_ofList]
    exact hs
  · rw [String.toList_ofList, utf8Len_pad]
    exact hj

theorem partReads_u32 {s : String} {i j n : ℕ} (w : ℕ) (pre rest : List Char) (hs : s.toList = pre ++ (pad w n ++ rest))
    (hi : utf8Len pre = i) (hj : i + w = j) (hw : 0 < w) (hn : n < 10 ^ w) (hlt : n < UInt32.size) :
    PartReads parseU32 s i j (UInt32.ofNat n) := by
  refine ⟨String.ofList (pad w n), ⟨pre, rest, ?_, hi, ?_⟩, ?_⟩
  · rw [String.toList_ofList]
    exact hs
  · rw [String.toList_ofList, utf8Len_pad]
    exact hj
  · refine Option.bind_eq_some_iff.2 ⟨n, ?_, if_pos hlt⟩
    have hdigits := parseDigits_pad hw hn
    rw [String.toList_ofList]
    split
    · rename_i tail htail
      exact absurd htail (not_sign hdigits tail).2
    · exact hdigits

/-- **A date-time of the form is read.** -/
theorem IsoDateTime.reads {s : String} {t : DateTime} {mark : String} (h : s.toList = t.text ++ mark.toList) :
    ReadsDate s (Int64.ofInt t.year) (UInt32.ofNat t.month) (UInt32.ofNat t.day) (Int64.ofInt t.hour)
      (Int64.ofInt t.minute) (Int64.ofInt t.second) := by
  have hsize : UInt32.size = 4294967296 := rfl
  have hyear := t.year_le
  have hmonth := t.month_le
  have hday := t.day_le'
  have hhour := t.hour_lt
  have hminute := t.minute_lt
  have hsecond := t.second_lt
  unfold DateTime.text at h
  simp only [List.append_assoc, List.cons_append] at h
  have hbytes : ∀ (w n : ℕ) (c : Char) (cs : List Char), c.utf8Size = 1 → utf8Len (pad w n ++ c :: cs) = w + (utf8Len cs + 1) := by
    intro w n c cs hc
    rw [utf8Len_append, utf8Len_cons, utf8Len_pad, hc]
  refine ⟨partReads_i64 4 [] _ h rfl rfl (by decide) (by omega) (by omega),
    partReads_u32 2 (pad 4 t.year ++ '-' :: []) _ (by simpa using h) ?_ rfl (by decide) (by omega) (by omega),
    partReads_u32 2 (pad 4 t.year ++ '-' :: (pad 2 t.month ++ '-' :: [])) _ (by simpa using h) ?_ rfl (by decide)
      (by omega) (by omega),
    partReads_i64 2 (pad 4 t.year ++ '-' :: (pad 2 t.month ++ '-' :: (pad 2 t.day ++ 'T' :: []))) _ (by simpa using h) ?_ rfl
      (by decide) (by omega) (by omega),
    partReads_i64 2 (pad 4 t.year ++ '-' :: (pad 2 t.month ++ '-' :: (pad 2 t.day ++ 'T' :: (pad 2 t.hour ++ ':' :: [])))) _
      (by simpa using h) ?_ rfl (by decide) (by omega) (by omega),
    partReads_i64 2 (pad 4 t.year ++ '-' :: (pad 2 t.month ++ '-' :: (pad 2 t.day ++ 'T' :: (pad 2 t.hour ++ ':' ::
      (pad 2 t.minute ++ ':' :: []))))) mark.toList (by simpa using h) ?_ rfl (by decide) (by omega) (by omega)⟩
  all_goals
    simp (disch := decide) only [hbytes, utf8Len_nil]

/-! ## Cells -/

/-- A cell that is no truth value and no number. -/
structure OtherCell (F : Type) [F64 F] [F64Text F] (s : String) : Prop where
  notTrue : s ≠ "true"
  notFalse : s ≠ "false"
  notInt : parseI64 s = none
  notFloat : (F64Text.parse s : Option F).bind Number.fromF64 = none

/-- A cell gets a value; one that is no truth value and no number stays a string, or is a date-time and becomes its
    UNIX milliseconds. -/
def ReadsSoundly (F : Type) [F64 F] [F64Text F] (marks : Set String) (s : String) : Prop :=
  ∃ v : Value F, inferCsvValue s = .ok v ∧ (OtherCell F s → v = .string s ∨
    ∃ ms, IsoDateTime marks s ms ∧ ∃ i : Int64, v = .number (.ofInt64 i) ∧ i.toInt = ms)

theorem inferCsvValue_other {s : String} (h : OtherCell F s) : (inferCsvValue s : Outcome (Value F)) =
    (chronoParseIso8601 s >>= fun r => match r with
      | some ms => pure (.number (.ofInt64 (Int64.ofInt ms)))
      | none => pure (.string s)) := by
  unfold inferCsvValue
  rewrite [if_neg h.notTrue, if_neg h.notFalse, h.notInt, h.notFloat]
  rfl

/-- A cell that is a truth value or a number is never a date. -/
theorem inferCsvValue_known {s : String} (h : ¬ OtherCell F s) : ∃ v : Value F, inferCsvValue s = .ok v := by
  unfold inferCsvValue
  by_cases htrue : s = "true"
  · exact ⟨_, if_pos htrue⟩
  · rw [if_neg htrue]
    by_cases hfalse : s = "false"
    · exact ⟨_, if_pos hfalse⟩
    · rw [if_neg hfalse]
      cases hint : parseI64 s with
      | some i => exact ⟨_, rfl⟩
      | none =>
        cases hfloat : (F64Text.parse s : Option F).bind Number.fromF64 with
        | some n => exact ⟨_, rfl⟩
        | none => exact absurd ⟨htrue, hfalse, hint, hfloat⟩ h

/-- The milliseconds of the years of four digits fit. -/
theorem DateTime.toInt_unixMs (t : DateTime) : (Int64.ofInt t.unixMs).toInt = t.unixMs := by
  have hyear := t.year_le
  have hday := t.day_le'
  have hhour := t.hour_lt
  have hminute := t.minute_lt
  have hsecond := t.second_lt
  have hyears := Calendar.daysBeforeYear_add t.year
  have hmonths := Calendar.daysBeforeMonth_le t.year t.month_le
  have hdays : t.unixDays = (Calendar.daysBeforeYear t.year + Calendar.daysBeforeMonth t.year t.month + (t.day - 1) : ℕ) - 719528 := by
    unfold Calendar.Date.unixDays
    rw [Calendar.unixEpoch_number]
    rfl
  have hlower : -719528 ≤ t.unixDays := by omega
  have hupper : t.unixDays ≤ 10000000 := by omega
  unfold unixMs
  exact Int64.toInt_ofInt_of_le (by omega) (by omega)

/-- **A date-time becomes its UNIX milliseconds.** -/
theorem IsoDateTime.chrono {marks : Set String} {s : String} {ms : ℤ} (h : IsoDateTime marks s ms) :
    chronoParseIso8601 s = .ok (some ms) := by
  obtain ⟨t, mark, -, hs, hms⟩ := h
  have hyear := t.year_le
  have hmonth := t.month_le
  have hday := t.day_le'
  have hhour := t.hour_lt
  have hminute := t.minute_lt
  have hsecond := t.second_lt
  have hmonth32 : (UInt32.ofNat t.month).toNat = t.month := Nat.mod_eq_of_lt (by omega)
  have hday32 : (UInt32.ofNat t.day).toNat = t.day := Nat.mod_eq_of_lt (by omega)
  refine chronoParseIso8601_eq_some.2 ⟨?_, _, _, _, _, _, _, reads hs, ?_, ?_⟩
  · have hsize : s.utf8ByteSize = utf8Len (t.text ++ mark.toList) := by
      rw [← hs, ← String.utf8ByteSize_ofList, String.ofList_toList]
    unfold DateTime.text at hsize
    simp only [utf8Len_append, utf8Len_cons, utf8Len_pad] at hsize
    have := Char.utf8Size_pos '-'
    have := Char.utf8Size_pos ':'
    have := Char.utf8Size_pos 'T'
    omega
  · rw [DayInRange, hmonth32, hday32]
    exact ⟨⟨t.month_pos, t.month_le⟩, t.day_pos, hday⟩
  · have hint : ∀ n : ℕ, n ≤ 9999 → (Int64.ofInt n).toInt = n := fun n hn => Int64.toInt_ofInt_of_le (by omega) (by omega)
    unfold unixMsOf
    rw [hms, hmonth32, hday32, hint _ hyear, hint _ (by omega), hint _ (by omega), hint _ (by omega), daysFromEpoch_eq]
    rfl

/-- **A cell is read as it should be** if and only if it is a truth value or a number, or is shorter than 19 bytes, or is
    given up at a part or for its month or its day, or is a date-time that there is. -/
theorem inferCsvValue_sound_iff (marks : Set String) (s : String) :
    ReadsSoundly F marks s ↔ (OtherCell F s → s.utf8ByteSize < 19 ∨ GivenUp s dateParts ∨
      (∃ year month day hour min sec, ReadsDate s year month day hour min sec ∧ ¬ DayInRange month day) ∨
        ∃ ms, IsoDateTime marks s ms) := by
  constructor
  · rintro ⟨v, hv, hsound⟩ hother
    rw [inferCsvValue_other hother] at hv
    obtain ⟨r, hr, hv⟩ := Outcome.bind_eq_ok.1 hv
    cases r with
    | none =>
      rcases chronoParseIso8601_eq_none.1 hr with h | h | h
      · exact .inl h
      · exact .inr (.inl h)
      · exact .inr (.inr (.inl h))
    | some ms =>
      cases hv
      rcases hsound hother with h | ⟨ms, h, -⟩
      · cases h
      · exact .inr (.inr (.inr ⟨ms, h⟩))
  · intro h
    by_cases hother : OtherCell F s
    · have hnone : chronoParseIso8601 s = .ok none → ReadsSoundly F marks s := by
        intro hchrono
        refine ⟨.string s, ?_, fun _ => .inl rfl⟩
        rw [inferCsvValue_other hother, hchrono]
        rfl
      rcases h hother with h | h | h | ⟨ms, h⟩
      · exact hnone (chronoParseIso8601_eq_none.2 (.inl h))
      · exact hnone (chronoParseIso8601_eq_none.2 (.inr (.inl h)))
      · exact hnone (chronoParseIso8601_eq_none.2 (.inr (.inr h)))
      · have hfits : (Int64.ofInt ms).toInt = ms := by
          obtain ⟨t, mark, -, -, hms⟩ := h
          rw [hms]
          exact t.toInt_unixMs
        refine ⟨.number (.ofInt64 (Int64.ofInt ms)), ?_, fun _ => .inr ⟨ms, h, _, rfl, hfits⟩⟩
        rw [inferCsvValue_other hother, h.chrono]
        rfl
    · obtain ⟨v, hv⟩ := inferCsvValue_known hother
      exact ⟨v, hv, fun h => absurd h hother⟩

/-- A text of 24 bytes, the third and the fourth of which are not at the ends of characters. -/
theorem inferCsvValue_panics : ¬ ∀ (marks : Set String) (s : String), ReadsSoundly Double marks s := by
  intro h
  obtain ⟨v, hv, -⟩ := h {"Z"} "日本語日本語日本"
  have hother : OtherCell Double "日本語日本語日本" :=
    ⟨by decide, by decide, by decide +kernel, by decide +kernel⟩
  rw [inferCsvValue_other hother] at hv
  obtain ⟨r, hr, -⟩ := Outcome.bind_eq_ok.1 hv
  have hpanic : chronoParseIso8601 "日本語日本語日本" = .panic := by decide +kernel
  rw [hpanic] at hr
  cases hr

end ChiffonDB

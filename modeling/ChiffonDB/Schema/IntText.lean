import ChiffonDB.Schema.DoubleText

/-!
# Texts of integers

What `str::parse` makes of a text of digits.

* `parseI64_eq_some` — **digits, behind a sign or not, of a number that fits**.
* `isCanonicalInt_iff` — **the texts that come back when their number is printed**.
* `parseDigits_pad` — digits of a fixed width.
-/

set_option autoImplicit false

namespace ChiffonDB

/-! ## Digits -/

theorem parseDigits_eq_some {cs : List Char} {n : Nat} :
    parseDigits cs = some n ↔
      cs ≠ [] ∧ (∀ c ∈ cs, c.isDigit = true) ∧ cs.foldl (fun n c => 10 * n + (c.toNat - 48)) 0 = n := by
  unfold parseDigits
  split
  · simp
  · rename_i hne
    rw [← List.all_eq_true]
    by_cases hall : cs.all Char.isDigit = true
    · have hne : cs ≠ [] := hne
      simp [hall, hne]
    · simp [hall]

/-- No sign is a digit. -/
theorem not_sign {cs : List Char} {n : Nat} (h : parseDigits cs = some n) (tail : List Char) :
    cs ≠ '-' :: tail ∧ cs ≠ '+' :: tail := by
  obtain ⟨-, hall, -⟩ := parseDigits_eq_some.1 h
  constructor
  · rintro rfl
    exact absurd (hall '-' List.mem_cons_self) (by decide)
  · rintro rfl
    exact absurd (hall '+' List.mem_cons_self) (by decide)

/-- Digits, behind a sign or not, and their number. -/
inductive IntText : List Char → ℤ → Prop
  | minus {cs : List Char} {n : ℕ} (h : parseDigits cs = some n) : IntText ('-' :: cs) (-n)
  | plus {cs : List Char} {n : ℕ} (h : parseDigits cs = some n) : IntText ('+' :: cs) n
  | plain {cs : List Char} {n : ℕ} (h : parseDigits cs = some n) : IntText cs n

/-- **What `str::parse::<i64>` takes.** -/
theorem parseI64_eq_some {s : String} {i : Int64} :
    parseI64 s = some i ↔ ∃ n, IntText s.toList n ∧ (-2 ^ 63 ≤ n ∧ n < 2 ^ 63) ∧ Int64.ofInt n = i := by
  constructor
  · intro h
    obtain ⟨n, hn, hrange⟩ := Option.bind_eq_some_iff.1 h
    rw [Option.ite_none_right_eq_some, Option.some_inj] at hrange
    refine ⟨n, ?_, hrange⟩
    split at hn
    · rename_i cs hcs
      obtain ⟨k, hk, rfl⟩ := Option.map_eq_some_iff.1 hn
      obtain ⟨m, hm, hmk⟩ := Option.bind_eq_some_iff.1 hk
      cases hmk
      rw [hcs]
      exact .minus hm
    · rename_i cs hcs
      obtain ⟨k, hk, rfl⟩ := Option.map_eq_some_iff.1 hn
      obtain ⟨m, hm, hmk⟩ := Option.bind_eq_some_iff.1 hk
      cases hmk
      rw [hcs]
      exact .plus hm
    · obtain ⟨k, hk, rfl⟩ := Option.map_eq_some_iff.1 hn
      obtain ⟨m, hm, hmk⟩ := Option.bind_eq_some_iff.1 hk
      cases hmk
      exact .plain hm
  · rintro ⟨n, htext, hrange, rfl⟩
    refine Option.bind_eq_some_iff.2 ⟨n, ?_, if_pos hrange⟩
    generalize s.toList = cs at htext ⊢
    cases htext with
    | minus h =>
      show ((parseDigits _ >>= fun m => pure (m : ℤ)).map fun m => -m) = _
      rw [h]
      rfl
    | plus h =>
      show ((parseDigits _ >>= fun m => pure (m : ℤ)).map fun m => m) = _
      rw [h]
      rfl
    | plain h =>
      split
      · rename_i tail
        exact absurd rfl (not_sign h tail).1
      · rename_i tail
        exact absurd rfl (not_sign h tail).2
      · rw [h]
        rfl

theorem parseI64_digits {cs : List Char} {n : Nat} (h : parseDigits cs = some n) (hn : n < 2 ^ 63) :
    parseI64 (String.ofList cs) = some (Int64.ofInt n) := by
  refine parseI64_eq_some.2 ⟨n, ?_, ⟨by omega, by omega⟩, rfl⟩
  rw [String.toList_ofList]
  exact .plain h

/-! ## Printed integers -/

theorem toList_repr_natCast (n : ℕ) : (n : ℤ).repr.toList = Nat.toDigits 10 n := Nat.toList_repr

theorem toList_repr_neg (n : ℕ) : (-((n + 1 : ℕ) : ℤ)).repr.toList = '-' :: Nat.toDigits 10 (n + 1) := by
  rw [show (-((n + 1 : ℕ) : ℤ)).repr = "-" ++ (n + 1).repr from rfl, String.toList_append, Nat.toList_repr]
  rfl

theorem intText_repr (n : ℤ) : IntText n.repr.toList n := by
  cases n with
  | ofNat n =>
    have h : IntText (n : ℤ).repr.toList n := by
      rw [toList_repr_natCast]
      exact .plain (parseDigits_toDigits n)
    exact h
  | negSucc n =>
    have h : IntText (-((n + 1 : ℕ) : ℤ)).repr.toList (-((n + 1 : ℕ) : ℤ)) := by
      rw [toList_repr_neg]
      exact .minus (parseDigits_toDigits (n + 1))
    exact h

/-- A text is the text of one number. -/
theorem IntText.unique {cs : List Char} {m n : ℤ} (hm : IntText cs m) (hn : IntText cs n) : m = n := by
  cases hm with
  | minus hm =>
    cases hn with
    | minus hn =>
      rw [Option.some_inj.1 (hm.symm.trans hn)]
    | plain hn => exact absurd rfl (not_sign hn _).1
  | plus hm =>
    cases hn with
    | plus hn => rw [Option.some_inj.1 (hm.symm.trans hn)]
    | plain hn => exact absurd rfl (not_sign hn _).2
  | plain hm =>
    cases hn with
    | minus hn => exact absurd rfl (not_sign hm _).1
    | plus hn => exact absurd rfl (not_sign hm _).2
    | plain hn => rw [Option.some_inj.1 (hm.symm.trans hn)]

/-- A number that fits is read back from its text. -/
theorem parseI64_repr {n : ℤ} : parseI64 n.repr = if -2 ^ 63 ≤ n ∧ n < 2 ^ 63 then some (Int64.ofInt n) else none := by
  split
  · rename_i h
    exact parseI64_eq_some.2 ⟨n, intText_repr n, h, rfl⟩
  · rename_i h
    refine Option.eq_none_iff_forall_ne_some.2 fun i hi => ?_
    obtain ⟨m, hm, hrange, -⟩ := parseI64_eq_some.1 hi
    rw [hm.unique (intText_repr n)] at hrange
    exact h hrange

/-- The texts that integers are printed as: no plus sign, no zero in front of a digit, no negative zero. -/
def isCanonicalInt : List Char → Bool
  | '-' :: '0' :: _ => false
  | '+' :: _ => false
  | '0' :: _ :: _ => false
  | _ => true

theorem digitChar_of_isDigit {c : Char} (h : c.isDigit = true) :
    c.toNat - 48 < 10 ∧ Nat.digitChar (c.toNat - 48) = c ∧ (c ≠ '0' → 0 < c.toNat - 48) := by
  obtain ⟨hlo, hhi⟩ : 48 ≤ c.toNat ∧ c.toNat ≤ 57 := by simpa [Char.isDigit, UInt32.le_iff_toNat_le] using h
  refine ⟨by omega, Char.toNat_inj.1 ?_, fun hne => ?_⟩
  · rw [Nat.toNat_digitChar_of_lt_ten (by omega)]
    omega
  · have hne : c.toNat ≠ 48 := fun heq => hne (Char.toNat_inj.1 heq)
    omega

/-- Digits behind digits. -/
theorem toDigits_append_digits {cs : List Char} {n : ℕ} (hn : 0 < n) (hall : ∀ c ∈ cs, c.isDigit = true) :
    Nat.toDigits 10 n ++ cs = Nat.toDigits 10 (cs.foldl (fun n c => 10 * n + (c.toNat - 48)) n) := by
  induction cs generalizing n with
  | nil => simp
  | cons c cs ih =>
    obtain ⟨hlt, hchar, -⟩ := digitChar_of_isDigit (hall c List.mem_cons_self)
    have hone : Nat.toDigits 10 n ++ [c] = Nat.toDigits 10 (10 * n + (c.toNat - 48)) := by
      have h := Nat.toDigits_append_toDigits (b := 10) (n := n) (d := c.toNat - 48) (by decide) hn hlt
      rwa [Nat.toDigits_of_lt_base hlt, hchar] at h
    calc Nat.toDigits 10 n ++ c :: cs = (Nat.toDigits 10 n ++ [c]) ++ cs := by simp
      _ = Nat.toDigits 10 (10 * n + (c.toNat - 48)) ++ cs := by rw [hone]
      _ = _ := ih (by omega) fun c' hc' => hall c' (List.mem_cons_of_mem c hc')

/-- Digits without a zero in front are printed. -/
theorem digits_eq_toDigits {c : Char} {cs : List Char} {n : ℕ} (h : parseDigits (c :: cs) = some n)
    (hc : c ≠ '0' ∨ cs = []) : c :: cs = Nat.toDigits 10 n := by
  obtain ⟨-, hall, rfl⟩ := parseDigits_eq_some.1 h
  obtain ⟨hlt, hchar, hpos⟩ := digitChar_of_isDigit (hall c List.mem_cons_self)
  have hfirst : Nat.toDigits 10 (c.toNat - 48) = [c] := by rw [Nat.toDigits_of_lt_base hlt, hchar]
  rw [List.foldl_cons, Nat.mul_zero, Nat.zero_add]
  rcases hc with hc | rfl
  · rw [← toDigits_append_digits (hpos hc) fun c' hc' => hall c' (List.mem_cons_of_mem c hc'), hfirst, List.singleton_append]
  · exact hfirst.symm

/-- A zero is only printed in front for zero itself. -/
theorem head_toDigits {n : ℕ} {cs : List Char} (h : Nat.toDigits 10 n = '0' :: cs) : n = 0 ∧ cs = [] := by
  induction n using Nat.strong_induction_on generalizing cs with
  | h n ih =>
    rcases Nat.lt_or_ge n 10 with hlt | hge
    · rw [Nat.toDigits_of_lt_base hlt] at h
      obtain ⟨hchar, rfl⟩ := List.cons.inj h
      have hnat := congrArg Char.toNat hchar
      rw [Nat.toNat_digitChar_of_lt_ten hlt] at hnat
      exact ⟨by simpa using hnat, rfl⟩
    · rw [Nat.toDigits_of_base_le (by decide) hge] at h
      cases hdigits : Nat.toDigits 10 (n / 10) with
      | nil => exact absurd hdigits Nat.toDigits_ne_nil
      | cons c ds =>
        rw [hdigits, List.cons_append] at h
        obtain ⟨rfl, -⟩ := List.cons.inj h
        have := (ih (n / 10) (Nat.div_lt_self (by omega) (by decide)) hdigits).1
        omega

theorem isCanonicalInt_minus {cs : List Char} : isCanonicalInt ('-' :: cs) = true ↔ ∀ tail, cs ≠ '0' :: tail := by
  unfold isCanonicalInt
  split
  · rename_i tail heq
    cases heq
    simp
  · simp_all
  · simp_all
  · rename_i h _ _
    refine iff_of_true rfl fun tail htail => h tail ?_
    rw [htail]

theorem isCanonicalInt_digits {c : Char} {cs : List Char} (h : c.isDigit = true) :
    isCanonicalInt (c :: cs) = true ↔ c ≠ '0' ∨ cs = [] := by
  unfold isCanonicalInt
  split
  · rename_i heq
    cases heq
    exact absurd h (by decide)
  · rename_i heq
    cases heq
    exact absurd h (by decide)
  · rename_i heq
    cases heq
    simp
  · rename_i hzero
    refine iff_of_true rfl ?_
    by_cases hc : c = '0'
    · cases cs with
      | nil => exact .inr rfl
      | cons d ds => exact absurd (by rw [hc]) (hzero d ds)
    · exact .inl hc

/-- **The texts that integers are printed as.** -/
theorem isCanonicalInt_iff {cs : List Char} {n : ℤ} (h : IntText cs n) : isCanonicalInt cs = true ↔ cs = n.repr.toList := by
  cases h with
  | @minus ds k h =>
    rw [isCanonicalInt_minus]
    obtain ⟨hne, hall, -⟩ := parseDigits_eq_some.1 h
    obtain ⟨c, ds, rfl⟩ := List.exists_cons_of_ne_nil hne
    cases k with
    | zero =>
      refine iff_of_false (fun hcan => ?_) ?_
      · have hdigits := digits_eq_toDigits h (.inl fun hc => hcan ds (by rw [hc]))
        rw [Nat.toDigits_zero] at hdigits
        exact hcan [] hdigits
      · rw [show (-((0 : ℕ) : ℤ)).repr.toList = ['0'] from rfl]
        exact fun heq => absurd (List.cons.inj heq).1 (by decide)
    | succ k =>
      rw [toList_repr_neg, List.cons.injEq, eq_self_iff_true, true_and]
      constructor
      · exact fun hcan => digits_eq_toDigits h (.inl fun hc => hcan ds (by rw [hc]))
      · intro heq tail htail
        exact absurd (head_toDigits (heq.symm.trans htail)).1 (Nat.succ_ne_zero k)
  | @plus ds k h =>
    refine iff_of_false Bool.false_ne_true fun heq => ?_
    rw [toList_repr_natCast] at heq
    exact (not_sign (parseDigits_toDigits k) ds).2 heq.symm
  | @plain cs k h =>
    rw [toList_repr_natCast]
    obtain ⟨hne, hall, -⟩ := parseDigits_eq_some.1 h
    obtain ⟨c, ds, rfl⟩ := List.exists_cons_of_ne_nil hne
    rw [isCanonicalInt_digits (hall c List.mem_cons_self)]
    constructor
    · exact digits_eq_toDigits h
    · intro heq
      by_cases hc : c = '0'
      · rw [hc] at heq
        exact .inr (head_toDigits heq.symm).2
      · exact .inl hc

/-! ## Fixed widths -/

/-- The last `w` digits of a number. -/
def pad : Nat → Nat → List Char
  | 0, _ => []
  | w + 1, n => pad w (n / 10) ++ [Nat.digitChar (n % 10)]

@[simp] theorem length_pad (w n : Nat) : (pad w n).length = w := by
  induction w generalizing n with
  | zero => rfl
  | succ w ih => simp [pad, ih]

theorem toNat_digitChar {d : Nat} (h : d < 10) : (Nat.digitChar d).toNat = 48 + d :=
  Nat.toNat_digitChar_of_lt_ten h

theorem isDigit_digitChar {d : Nat} (h : d < 10) : (Nat.digitChar d).isDigit = true := by
  have : ∀ d < 10, (Nat.digitChar d).isDigit = true := by decide
  exact this d h

theorem isDigit_of_mem_pad {w n : Nat} {c : Char} (h : c ∈ pad w n) : c.isDigit = true := by
  induction w generalizing n with
  | zero => cases h
  | succ w ih =>
    rcases List.mem_append.1 h with h | h
    · exact ih h
    · cases List.mem_singleton.1 h
      exact isDigit_digitChar (Nat.mod_lt n (by decide))

theorem foldl_pad (w n : Nat) : (pad w n).foldl (fun n c => 10 * n + (c.toNat - 48)) 0 = n % 10 ^ w := by
  induction w generalizing n with
  | zero => simp [pad, Nat.mod_one]
  | succ w ih =>
    have hmod : n % 10 ^ (w + 1) = n % 10 + 10 * (n / 10 % 10 ^ w) := by rw [Nat.pow_succ', Nat.mod_mul]
    rw [pad, List.foldl_append, ih, List.foldl_cons, List.foldl_nil, toNat_digitChar (Nat.mod_lt n (by decide)), hmod]
    omega

/-- **A number of a fixed width is read back.** -/
theorem parseDigits_pad {w n : Nat} (hw : 0 < w) (hn : n < 10 ^ w) : parseDigits (pad w n) = some n := by
  refine parseDigits_eq_some.2 ⟨?_, fun c hc => isDigit_of_mem_pad hc, ?_⟩
  · rw [← List.length_pos_iff, length_pad]
    exact hw
  · rw [foldl_pad, Nat.mod_eq_of_lt hn]

end ChiffonDB

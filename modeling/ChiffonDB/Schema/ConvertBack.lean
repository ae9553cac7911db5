import ChiffonDB.Schema.IntText

/-!
# Converting a value back

What `convert_value` of `schema/convert.rs` gives when a field's type is changed, and changed again.

* `Applied` — the values of a field before and after a change that was applied.
* `convertValue_back_iff` — **the values that the opposite change restores**.
-/

set_option autoImplicit false

set_option linter.unusedSectionVars false

namespace ChiffonDB

variable {F : Type} [F64 F] [F64Text F]

/-! ## Spaces -/

theorem dropWhile_eq_self {p : Char → Bool} {cs : List Char} (h : ∀ c ∈ cs, p c = false) : cs.dropWhile p = cs := by
  cases cs with
  | nil => rfl
  | cons c cs => rw [List.dropWhile_cons, h c List.mem_cons_self, if_neg Bool.false_ne_true]

theorem trim_eq_self {s : String} (h : ∀ c ∈ s.toList, isWhiteSpace c = false) : trim s = s := by
  unfold trim
  rw [dropWhile_eq_self h, dropWhile_eq_self fun c hc => h c (List.mem_reverse.1 hc), List.reverse_reverse,
    String.ofList_toList]

theorem trim_repr (n : ℤ) : trim n.repr = n.repr := by
  refine trim_eq_self fun c hc => ?_
  rcases digit_or_sign_of_mem_repr hc with h | rfl
  · obtain ⟨hlt, hchar, -⟩ := digitChar_of_isDigit h
    have : ∀ d < 10, isWhiteSpace (Nat.digitChar d) = false := by decide
    rw [← hchar]
    exact this _ hlt
  · rfl

/-! ## Integers -/

theorem Number.integer_ofInt64 (i : Int64) : (Number.ofInt64 i : Number F).integer = some i.toInt := by
  unfold Number.ofInt64
  split
  · rfl
  · rename_i hneg
    have hle : 0 ≤ i := Int64.not_lt.1 hneg
    have hnonneg : 0 ≤ i.toInt := Int64.le_iff_toInt_le.1 hle
    show some (i.toUInt64.toNat : ℤ) = some i.toInt
    rw [Int64.toNat_toUInt64_of_le hle, ← Int64.toNat_toInt, Int.toNat_of_nonneg hnonneg]

theorem Number.isJson_ofInt64 (i : Int64) : (Number.ofInt64 i : Number F).IsJson := by
  unfold Number.ofInt64
  split
  · rename_i hneg
    exact Int64.lt_iff_toInt_lt.1 hneg
  · exact trivial

theorem Number.text_ofInt64 (i : Int64) : (Number.ofInt64 i : Number F).text = i.toInt.repr :=
  Number.text_eq_repr (Number.integer_ofInt64 i)

/-- The numbers of an `Int` field are integers. -/
theorem exists_integer {v : Value F} (h : valueMatchesType v .int = true) :
    v = .null ∨ ∃ n z, v = .number n ∧ n.integer = some z := by
  cases v with
  | null => exact .inl rfl
  | number n =>
    cases n with
    | posInt n => exact .inr ⟨_, _, rfl, rfl⟩
    | negInt n => exact .inr ⟨_, _, rfl, rfl⟩
    | float x => simp [valueMatchesType] at h
  | _ => simp [valueMatchesType] at h

/-- An integer that `i64` holds. -/
theorem Number.isSome_asI64 {n : Number F} {z : ℤ} (hn : n.IsJson) (hz : n.integer = some z) :
    n.asI64.isSome = true ↔ -2 ^ 63 ≤ z ∧ z < 2 ^ 63 := by
  cases n with
  | posInt n =>
    cases hz
    show (if n.toNat < 2 ^ 63 then some n.toInt64 else none).isSome = true ↔ _
    by_cases h : n.toNat < 2 ^ 63
    · rw [if_pos h]
      exact iff_of_true rfl ⟨by omega, by omega⟩
    · rw [if_neg h]
      exact iff_of_false Bool.false_ne_true (by omega)
  | negInt n =>
    cases hz
    exact iff_of_true rfl ⟨n.le_toInt, n.toInt_lt⟩
  | float x => cases hz

/-! ## One value -/

/-- The same value, a string up to the white space around it. -/
def SameUpToSpace : Value F → Value F → Prop
  | .string s, .string t => trim s = trim t
  | v, w => v = w

theorem SameUpToSpace.refl (v : Value F) : SameUpToSpace v v := by
  unfold SameUpToSpace
  split <;> simp_all

/-- The values that a change from one type to another can be undone for: a text that becomes an integer is printed as
    one, and an integer that becomes a text is one of `i64`. -/
def Undoable : TypeExpr → TypeExpr → Value F → Prop
  | .string, .int, .string s => isCanonicalInt (trim s).toList = true
  | .int, .string, .number n => n.asI64.isSome = true
  | _, _, _ => True

/-- What a conversion back gives. -/
def GivesBack (source : TypeExpr) (v w : Value F) : Prop := ∃ v', convertValue w source = some v' ∧ SameUpToSpace v v'

/-- **A text that became an integer.** -/
theorem givesBack_string_int {s : String} {w : Value F} (h : convertValue (.string s) .int = some w) :
    GivesBack .string (.string s) w ↔ isCanonicalInt (trim s).toList = true := by
  obtain ⟨i, hi, rfl⟩ := Option.map_eq_some_iff.1 (show (parseI64 (trim s)).map _ = some w from h)
  obtain ⟨n, htext, hrange, rfl⟩ := parseI64_eq_some.1 hi
  rw [isCanonicalInt_iff htext, String.toList_inj]
  have hprint : convertValue (.number (.ofInt64 (Int64.ofInt n)) : Value F) .string = some (.string n.repr) := by
    show some (Value.string (Number.ofInt64 (Int64.ofInt n) : Number F).text) = _
    rw [Number.text_ofInt64, Int64.toInt_ofInt_of_le hrange.1 hrange.2]
  unfold GivesBack
  rw [hprint]
  constructor
  · rintro ⟨v', hv', hsame⟩
    cases hv'
    exact (show trim s = trim n.repr from hsame).trans (trim_repr n)
  · intro heq
    exact ⟨_, rfl, show trim s = trim n.repr from heq.trans (trim_repr n).symm⟩

/-- **An integer that became a text.** -/
theorem givesBack_int_string {n : Number F} {z : ℤ} (hn : n.IsJson) (hz : n.integer = some z) :
    GivesBack .int (.number n) (.string n.text) ↔ n.asI64.isSome = true := by
  have hparse : convertValue (.string n.text : Value F) .int = (parseI64 z.repr).map fun i => .number (.ofInt64 i) := by
    show (parseI64 (trim n.text)).map _ = _
    rw [Number.text_eq_repr hz, trim_repr]
  unfold GivesBack
  rw [hparse, parseI64_repr, Number.isSome_asI64 hn hz]
  split
  · rename_i hrange
    refine iff_of_true ⟨.number (.ofInt64 (Int64.ofInt z)), rfl, ?_⟩ hrange
    have hback : (Number.ofInt64 (Int64.ofInt z) : Number F).integer = some z := by
      rw [Number.integer_ofInt64, Int64.toInt_ofInt_of_le hrange.1 hrange.2]
    rw [Number.integer_injective (Number.isJson_ofInt64 _) hn hback hz]
    exact .refl _
  · rename_i hrange
    refine iff_of_false ?_ hrange
    rintro ⟨v', hv', -⟩
    cases hv'

/-- A text that became a truth value. -/
theorem givesBack_string_boolean {s : String} {w : Value F} (h : convertValue (.string s) .boolean = some w) :
    GivesBack .string (.string s) w := by
  have htrim : trim "true" = "true" ∧ trim "false" = "false" := by decide +kernel
  change (if trim s = "true" then some (.bool true) else if trim s = "false" then some (.bool false) else none) = some w at h
  split at h
  · rename_i htrue
    cases h
    exact ⟨.string "true", rfl, show trim s = trim "true" from htrue.trans htrim.1.symm⟩
  · split at h
    · rename_i hfalse
      cases h
      exact ⟨.string "false", rfl, show trim s = trim "false" from hfalse.trans htrim.2.symm⟩
    · cases h

/-- A truth value that became a text. -/
theorem givesBack_boolean_string (b : Bool) :
    GivesBack .boolean (.bool b : Value F) (.string (if b then "true" else "false")) := by
  have htrim : trim "true" = "true" ∧ trim "false" = "false" := by decide +kernel
  cases b with
  | true =>
    refine ⟨.bool true, ?_, .refl _⟩
    show (if trim "true" = "true" then some (Value.bool true) else if trim "true" = "false" then some (.bool false) else none) = _
    rw [if_pos htrim.1]
  | false =>
    refine ⟨.bool false, ?_, .refl _⟩
    show (if trim "false" = "true" then some (Value.bool true) else if trim "false" = "false" then some (.bool false) else none) = _
    rw [htrim.2, if_neg (by decide), if_pos rfl]

/-- The types that the rules are about. -/
def PlainType (type : TypeExpr) : Prop := type = .string ∨ type = .int ∨ type = .boolean

section

variable {source target : TypeExpr} (hsource : PlainType source) (htarget : PlainType target)
  (hsupported : conversionSupported source target = true)

include hsource htarget hsupported

/-- **One value**, of every pair of types. -/
theorem givesBack_iff {v w : Value F} (hv : v.AllJson) (hmatch : valueMatchesType v source = true)
    (hw : convertValue v target = some w) : GivesBack source v w ↔ Undoable source target v := by
  cases v with
  | null => cases target <;> cases hw
  | bool b =>
    rcases hsource with rfl | rfl | rfl
    · simp [valueMatchesType] at hmatch
    · simp [valueMatchesType] at hmatch
    · rcases htarget with rfl | rfl | rfl
      · cases hw
        exact iff_of_true (givesBack_boolean_string b) trivial
      · cases hsupported
      · cases hsupported
  | number n =>
    rcases hsource with rfl | rfl | rfl
    · simp [valueMatchesType] at hmatch
    · rcases htarget with rfl | rfl | rfl
      · rcases exists_integer hmatch with h | ⟨n', z, h, hz⟩
        · cases h
        · cases h
          cases hw
          exact givesBack_int_string hv hz
      · cases hsupported
      · cases hsupported
    · simp [valueMatchesType] at hmatch
  | string s =>
    rcases hsource with rfl | rfl | rfl
    · rcases htarget with rfl | rfl | rfl
      · cases hw
        exact iff_of_true ⟨_, rfl, .refl _⟩ trivial
      · exact givesBack_string_int hw
      · exact iff_of_true (givesBack_string_boolean hw) trivial
    · simp [valueMatchesType] at hmatch
    · simp [valueMatchesType] at hmatch
  | array items => cases target <;> cases hw
  | object fields => cases target <;> cases hw

end

/-! ## All values of a field -/

/-- A conversion never gives a null. -/
theorem convertValue_ne_null {v w : Value F} {target : TypeExpr} (h : convertValue v target = some w) : w ≠ .null := by
  rintro rfl
  unfold convertValue at h
  split at h
  all_goals grind [floatToInt, intToFloat, Option.map_eq_some_iff, Option.bind_eq_some_iff]

/-- What a change leaves in a record: callers leave a null untouched. -/
def changedValue (target : TypeExpr) : Value F → Option (Value F)
  | .null => some .null
  | v => convertValue v target

/-- The values of a field before and after a change of its type that was applied, with nothing set to null. -/
def Applied (target : TypeExpr) (vs ws : List (Value F)) : Prop :=
  List.Forall₂ (fun v w => changedValue target v = some w) vs ws

section

variable {source target : TypeExpr} (hsource : PlainType source) (htarget : PlainType target)
  (hsupported : conversionSupported source target = true)

include hsource htarget hsupported

theorem changedValue_back {v w : Value F} (hv : v.AllJson) (hmatch : valueMatchesType v source = true)
    (hw : changedValue target v = some w) :
    (∃ v', changedValue source w = some v' ∧ SameUpToSpace v v') ↔ Undoable source target v := by
  by_cases hnull : v = .null
  · subst hnull
    cases hw
    refine iff_of_true ⟨.null, rfl, .refl _⟩ ?_
    rcases hsource with rfl | rfl | rfl <;> rcases htarget with rfl | rfl | rfl <;> exact trivial
  · have hplain : ∀ (type : TypeExpr) {u : Value F}, u ≠ .null → changedValue type u = convertValue u type := by
      intro type u hu
      cases u <;> first | rfl | exact absurd rfl hu
    rw [hplain target hnull] at hw
    rw [hplain source (convertValue_ne_null hw)]
    exact givesBack_iff hsource htarget hsupported hv hmatch hw

/-- **An applied change is undone by the opposite change** if and only if it is for every value. -/
theorem applied_back {vs ws : List (Value F)} (hvs : ∀ v ∈ vs, v.AllJson ∧ valueMatchesType v source = true)
    (h : Applied target vs ws) :
    (∃ us, Applied source ws us ∧ List.Forall₂ SameUpToSpace vs us) ↔ ∀ v ∈ vs, Undoable source target v := by
  unfold Applied at h ⊢
  induction h with
  | nil => exact iff_of_true ⟨[], .nil, .nil⟩ nofun
  | @cons v w vs ws hvw htail ih =>
    have hhead := changedValue_back hsource htarget hsupported (hvs v List.mem_cons_self).1 (hvs v List.mem_cons_self).2 hvw
    have htail := ih fun u hu => hvs u (List.mem_cons_of_mem v hu)
    rw [List.forall_mem_cons, ← hhead, ← htail]
    constructor
    · rintro ⟨us, hus, hsame⟩
      obtain ⟨u, us', hu, hus', rfl⟩ := List.forall₂_cons_left_iff.1 hus
      obtain ⟨hsu, hsus⟩ := List.forall₂_cons.1 hsame
      exact ⟨⟨u, hu, hsu⟩, us', hus', hsus⟩
    · rintro ⟨⟨u, hu, hsu⟩, us, hus, hsus⟩
      exact ⟨u :: us, .cons hu hus, .cons hsu hsus⟩

/-- **What a supported conversion between `String`, `Int` and `Boolean` accepts is given back** by the opposite conversion
    if and only if a text that became an integer is printed as one (no plus sign, no zero in front, no negative zero) and
    an integer that became a text is one of `i64`; an applied change of a field's type is undone under the same condition
    on the values of the field. -/
theorem convertValue_back_iff :
    (∀ v w : Value F, v.AllJson → valueMatchesType v source = true → convertValue v target = some w →
      ((∃ v', convertValue w source = some v' ∧ SameUpToSpace v v') ↔ Undoable source target v)) ∧
    ∀ vs ws : List (Value F), (∀ v ∈ vs, v.AllJson ∧ valueMatchesType v source = true) → Applied target vs ws →
      ((∃ us, Applied source ws us ∧ List.Forall₂ SameUpToSpace vs us) ↔ ∀ v ∈ vs, Undoable source target v) :=
  ⟨fun _ _ hv hmatch hw => givesBack_iff hsource htarget hsupported hv hmatch hw,
    fun _ _ hvs h => applied_back hsource htarget hsupported hvs h⟩

end

/-- A text that is printed as it was, next to one that is not. -/
theorem convertValue_back_iff_int : GivesBack .string (.string " -7" : Value Double) (.number (.ofInt64 (-7))) ∧
    ¬ ∃ us : List (Value Double), Applied .string [.number (.ofInt64 (-7)), .number (.ofInt64 7)] us ∧
      List.Forall₂ SameUpToSpace [.string " -7", .string "007"] us := by
  have hparse : parseI64 (trim " -7") = some (-7) ∧ parseI64 (trim "007") = some 7 := by decide +kernel
  have hfirst : convertValue (.string " -7" : Value Double) .int = some (.number (.ofInt64 (-7))) :=
    congrArg (Option.map fun i => Value.number (Number.ofInt64 i)) hparse.1
  have hsecond : convertValue (.string "007" : Value Double) .int = some (.number (.ofInt64 7)) :=
    congrArg (Option.map fun i => Value.number (Number.ofInt64 i)) hparse.2
  have hplain : PlainType .string ∧ PlainType .int := ⟨.inl rfl, .inr (.inl rfl)⟩
  have h := convertValue_back_iff (F := Double) hplain.1 hplain.2 rfl
  have hcanonical : isCanonicalInt (trim " -7").toList = true ∧ ¬ isCanonicalInt (trim "007").toList = true := by decide +kernel
  refine ⟨(h.1 (.string " -7") _ trivial rfl hfirst).2 hcanonical.1, fun hback => ?_⟩
  have hall := (h.2 [.string " -7", .string "007"] _ ?_ (.cons hfirst (.cons hsecond .nil))).1 hback
  · exact hcanonical.2 (hall (.string "007") (by simp))
  · intro v hv
    rcases List.mem_cons.1 hv with rfl | hv
    · exact ⟨trivial, rfl⟩
    · cases List.mem_singleton.1 hv
      exact ⟨trivial, rfl⟩

/-- `"007"` becomes 7, and 7 becomes `"7"`. -/
theorem convertValue_loses : ¬ ∀ v w : Value Double, v.AllJson → valueMatchesType v .string = true →
    convertValue v .int = some w → GivesBack .string v w := by
  intro h
  have hparse : parseI64 (trim "007") = some 7 := by decide +kernel
  have hconvert : convertValue (.string "007" : Value Double) .int = some (.number (.ofInt64 7)) :=
    congrArg (Option.map fun i => Value.number (Number.ofInt64 i)) hparse
  have hcan := (givesBack_string_int hconvert).1 (h (.string "007") _ trivial rfl hconvert)
  exact absurd hcan (by decide +kernel)

end ChiffonDB

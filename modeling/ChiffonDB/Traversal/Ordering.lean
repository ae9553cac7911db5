import ChiffonDB.Cypher.Number
import ChiffonDB.Lib.StableSort

/-!
# Comparing values

The comparators of the `OrderBy` step of `traversal/executor.rs` and of the Cypher ORDER BY, and the filter
operators of a traversal.

* `cmpValues`, `cmpOptionValues`, `evalFilter` — the functions of the traversal executor.
* `comparators_sort` — **both comparators are total preorders exactly of values of one ordered kind, or
  of values of which no two of one kind differ**.
* `filters_coherent` — **the filter operators are coherent on two numbers exactly if these are decimals, equal
  integers, or have different doubles**.
-/

set_option autoImplicit false

namespace ChiffonDB

variable {F : Type} [F64 F]

/-! ## The traversal executor -/

/-- `cmp_values`. -/
def cmpValues : Value F → Value F → Option Ordering
  | .number x, .number y => F64.partialCmp x.asF64 y.asF64
  | .string x, .string y => some (compare x y)
  | _, _ => none

/-- `cmp_option_values`. -/
def cmpOptionValues : Option (Value F) → Option (Value F) → Ordering
  | none, none => .eq
  | none, some _ => .lt
  | some _, none => .gt
  | some a, some b => (cmpValues a b).getD .eq

/-- The comparator of a sort in one of the two directions. -/
def directed {α : Type} (asc : Bool) (cmp : α → α → Ordering) (a b : α) : Ordering :=
  if asc then cmp a b else (cmp a b).swap

inductive FilterOperator where
  | equals | notEquals | greaterThan | lessThan | greaterThanOrEquals | lessThanOrEquals
  | contains | startsWith | endsWith | exists | isNull | matches
  | propertyEquals | propertyGreaterThan | propertyLessThan
  deriving DecidableEq, Repr

/-- `v.is_null()`. -/
def Value.isNull : Value F → Bool
  | .null => true
  | _ => false

/-- `eval_filter`; `isMatch pattern text` is what the regular expressions say, and false for an invalid pattern. -/
def evalFilter (isMatch : String → String → Bool) (actual : Value F) (op : FilterOperator) (expected : Value F) :
    Bool :=
  match op with
  | .equals | .propertyEquals => actual.eq expected
  | .notEquals => !actual.eq expected
  | .contains => strOp strContains actual expected
  | .startsWith => strOp strStartsWith actual expected
  | .endsWith => strOp strEndsWith actual expected
  | .matches => strOp (fun text pattern => isMatch pattern text) actual expected
  | .greaterThan | .propertyGreaterThan => cmpValues actual expected == some .gt
  | .lessThan | .propertyLessThan => cmpValues actual expected == some .lt
  | .greaterThanOrEquals => cmpValues actual expected == some .gt || cmpValues actual expected == some .eq
  | .lessThanOrEquals => cmpValues actual expected == some .lt || cmpValues actual expected == some .eq
  | .exists => !actual.isNull
  | .isNull => actual.isNull

/-! ## Kinds -/

/-- The kinds of values that a comparator may order. -/
inductive ValueKind where
  | number
  | string
  | bool
  deriving DecidableEq, Repr

/-- The kinds that the Cypher ORDER BY orders. -/
def Value.kind : Value F → Option ValueKind
  | .number _ => some .number
  | .string _ => some .string
  | .bool _ => some .bool
  | _ => none

/-- The kinds that the `OrderBy` step orders. -/
def Value.stepKind : Value F → Option ValueKind
  | .number _ => some .number
  | .string _ => some .string
  | _ => none

/-- The values are no different for an order of their kind: numbers with the same double, the same string, the
    same truth value. -/
def Value.Same : Value F → Value F → Prop
  | .number a, .number b => F64.partialCmp a.asF64 b.asF64 = some .eq
  | .string a, .string b => a = b
  | .bool a, .bool b => a = b
  | _, _ => True

/-- All values are of one ordered kind, or no two of one ordered kind differ. -/
def Uniform (kind : Value F → Option ValueKind) (vs : List (Value F)) : Prop :=
  (∃ k, ∀ v ∈ vs, kind v = some k) ∨ ∀ v ∈ vs, ∀ w ∈ vs, kind v = kind w → kind v ≠ none → v.Same w

/-- A value whose number, if it is one, can stand in a JSON text. -/
def Value.IsJson : Value F → Prop
  | .number n => n.IsJson
  | _ => True

section Order

variable [LawfulF64 F]

theorem preorderOn_numbers {ms : List (Number F)} (hjson : ∀ m ∈ ms, m.IsJson) :
    PreorderOn (fun m n : Number F => (F64.partialCmp m.asF64 n.asF64).getD .eq) ms where
  swap m hm n hn := by
    obtain ⟨o, h1, h2⟩ := LawfulF64.cmp_swap m.asF64 n.asF64 (hjson m hm).isFinite (hjson n hn).isFinite
    rw [h1, h2]
    rfl
  trans m hm n hn k hk hmn hnk := by
    have hfin := fun x hx => (hjson x hx).isFinite
    obtain ⟨o₁, h₁, -⟩ := LawfulF64.cmp_swap m.asF64 n.asF64 (hfin m hm) (hfin n hn)
    obtain ⟨o₂, h₂, -⟩ := LawfulF64.cmp_swap n.asF64 k.asF64 (hfin n hn) (hfin k hk)
    obtain ⟨o₃, h₃, -⟩ := LawfulF64.cmp_swap m.asF64 k.asF64 (hfin m hm) (hfin k hk)
    have htrans := LawfulF64.cmp_trans m.asF64 n.asF64 k.asF64 (hfin m hm) (hfin n hn) (hfin k hk)
    rw [h₁, h₂, h₃] at htrans
    rw [h₁] at hmn
    rw [h₂] at hnk
    rw [h₃]
    exact fun h => htrans (fun h' => hmn (Option.some.inj h')) (fun h' => hnk (Option.some.inj h')) (congrArg some h)

/-- The numbers among values. -/
def Value.numbers (vs : List (Value F)) : List (Number F) :=
  vs.filterMap fun v => match v with | .number n => some n | _ => none

omit [F64 F] [LawfulF64 F] in
theorem Value.mem_numbers {vs : List (Value F)} {n : Number F} : n ∈ Value.numbers vs ↔ .number n ∈ vs := by
  unfold Value.numbers
  rw [List.mem_filterMap]
  constructor
  · rintro ⟨v, hv, hn⟩
    cases v <;> simp at hn
    exact hn ▸ hv
  · intro h
    exact ⟨_, h, rfl⟩

/-- The string of a value that is one. -/
def Value.stringOf : Value F → String
  | .string s => s
  | _ => ""

/-- The truth value of a value that is one. -/
def Value.boolOf : Value F → Bool
  | .bool b => b
  | _ => false

/-- The Cypher comparator orders the values of each kind. -/
theorem preorderOn_kind {vs : List (Value F)} (hjson : ∀ v ∈ vs, v.IsJson) (k : ValueKind) :
    PreorderOn compareValues (vs.filter fun v => Value.kind v = some k) := by
  have hkind : ∀ v ∈ vs.filter fun v => Value.kind v = some k, v ∈ vs ∧ v.kind = some k := fun v hv =>
    ⟨(List.mem_filter.1 hv).1, by simpa using (List.mem_filter.1 hv).2⟩
  cases k with
  | number =>
    have hnum : ∀ n ∈ Value.numbers vs, n.IsJson := fun n hn => hjson _ (Value.mem_numbers.1 hn)
    refine PreorderOn.image (f := Value.number) (preorderOn_numbers hnum) fun v hv => ?_
    obtain ⟨hv, hk⟩ := hkind v hv
    cases v <;> cases hk
    exact ⟨_, Value.mem_numbers.2 hv, rfl⟩
  | string =>
    refine (preorderOn_compare Value.stringOf _).congr fun a ha b hb => ?_
    obtain ⟨-, hka⟩ := hkind a ha
    obtain ⟨-, hkb⟩ := hkind b hb
    cases a <;> cases hka
    cases b <;> cases hkb
    rfl
  | bool =>
    refine (preorderOn_compare Value.boolOf _).congr fun a ha b hb => ?_
    obtain ⟨-, hka⟩ := hkind a ha
    obtain ⟨-, hkb⟩ := hkind b hb
    cases a <;> cases hka
    cases b <;> cases hkb
    rfl

theorem compareValues_eq_iff {v w : Value F} (hv : v.IsJson) (hw : w.IsJson) (hkind : v.kind = w.kind) :
    compareValues v w = .eq ↔ v.Same w := by
  cases v with
  | number m =>
    cases w <;> try cases hkind
    rename_i n
    obtain ⟨o, ho, -⟩ := LawfulF64.cmp_swap m.asF64 n.asF64 (Number.IsJson.isFinite hv) (Number.IsJson.isFinite hw)
    show (F64.partialCmp m.asF64 n.asF64).getD .eq = .eq ↔ F64.partialCmp m.asF64 n.asF64 = some .eq
    rw [ho]
    simp
  | string s =>
    cases w <;> try cases hkind
    rename_i t
    exact Std.LawfulEqOrd.compare_eq_iff_eq
  | bool a =>
    cases w <;> try cases hkind
    rename_i b
    exact Std.LawfulEqOrd.compare_eq_iff_eq
  | null => cases w <;> simp [compareValues, Value.Same]
  | array items => cases w <;> simp [compareValues, Value.Same]
  | object fields => cases w <;> simp [compareValues, Value.Same]

/-! ## The comparators -/

omit [LawfulF64 F] in
theorem compareValues_byKind : compareValues (F := F) = byKind Value.kind compareValues := by
  funext v w
  unfold byKind
  split
  · rfl
  · rename_i h
    cases v <;> cases w <;> first | rfl | exact absurd ⟨rfl, nofun⟩ h

omit [LawfulF64 F] in
theorem cmpOptionValues_byKind :
    cmpOptionValues (F := F) = noneFirst (byKind Value.stepKind compareValues) := by
  funext v w
  cases v with
  | none => cases w <;> rfl
  | some v =>
    cases w with
    | none => rfl
    | some w =>
      show (cmpValues v w).getD .eq = byKind Value.stepKind compareValues v w
      unfold byKind
      split
      · rename_i h
        cases v <;> cases w <;> first | rfl | exact absurd rfl h.2
      · rename_i h
        cases v <;> cases w <;> first | rfl | exact absurd ⟨rfl, nofun⟩ h

omit [F64 F] [LawfulF64 F] in
theorem Value.kind_of_stepKind {v : Value F} {k : ValueKind} (h : v.stepKind = some k) : v.kind = some k := by
  cases v <;> first | exact h | cases h

/-- Both comparators tie or order by kind. -/
theorem preorderOn_byKind_iff {vs : List (Value F)} (hjson : ∀ v ∈ vs, v.IsJson)
    {kind : Value F → Option ValueKind} (hkind : ∀ v k, kind v = some k → Value.kind v = some k) :
    PreorderOn (byKind kind compareValues) vs ↔ Uniform kind vs := by
  have hord : ∀ k, PreorderOn compareValues (vs.filter fun v => kind v = some k) := by
    refine fun k => (preorderOn_kind hjson k).mono fun v hv => ?_
    obtain ⟨hv, hk⟩ := List.mem_filter.1 hv
    exact List.mem_filter.2 ⟨hv, decide_eq_true (hkind v k (of_decide_eq_true hk))⟩
  rw [preorderOn_byKind hord]
  refine or_congr Iff.rfl (forall₂_congr fun v hv => forall₂_congr fun w hw => ?_)
  refine forall_congr' fun hvw => forall_congr' fun hsome => ?_
  obtain ⟨k, hk⟩ := Option.ne_none_iff_exists'.1 hsome
  exact compareValues_eq_iff (hjson v hv) (hjson w hw)
    ((hkind v k hk).trans (hkind w k (hvw.symm.trans hk)).symm)

omit [F64 F] [LawfulF64 F] in
theorem sorts_directed {α : Type} {cmp : α → α → Ordering} {l : List α} (asc : Bool) :
    Sorts (directed asc cmp) l ↔ PreorderOn cmp l := by
  rw [sorts_iff]
  cases asc with
  | true => exact Iff.rfl
  | false => exact PreorderOn.reverse_iff

/-- **A sort by one of the comparators is one exactly of values of a single ordered kind, or of values of which no
    two of one ordered kind differ.** -/
theorem comparators_sort (asc : Bool) (vs : List (Option (Value F))) (ws : List (Value F))
    (hvs : ∀ v ∈ vs.reduceOption, v.IsJson) (hws : ∀ w ∈ ws, w.IsJson) :
    (Sorts (directed asc cmpOptionValues) vs ↔ Uniform Value.stepKind vs.reduceOption) ∧
      (Sorts (directed asc compareValues) ws ↔ Uniform Value.kind ws) := by
  rw [sorts_directed, sorts_directed, cmpOptionValues_byKind, preorderOn_noneFirst]
  constructor
  · exact preorderOn_byKind_iff hvs fun v k => Value.kind_of_stepKind
  · rw [compareValues_byKind]
    exact preorderOn_byKind_iff hws fun _ _ h => h

theorem comparators_sort_strings :
    Sorts (directed false cmpOptionValues) [some (.string "a"), none, some (Value.string (F := Double) "b")] ∧
      Sorts (directed true compareValues) [.string "a", Value.string (F := Double) "b"] := by
  have hvs : ∀ v ∈ [some (.string "a"), none, some (Value.string (F := Double) "b")].reduceOption, v.IsJson := by
    simp [List.reduceOption, Value.IsJson]
  have hws : ∀ w ∈ [.string "a", Value.string (F := Double) "b"], w.IsJson := by simp [Value.IsJson]
  refine ⟨((comparators_sort false _ _ hvs hws).1).2 (Or.inl ⟨.string, ?_⟩),
    ((comparators_sort true _ _ hvs hws).2).2 (Or.inl ⟨.string, ?_⟩)⟩
  · simp [List.reduceOption, Value.stepKind]
  · simp [Value.kind]

/-- Two strings on the two sides of a truth value both tie with it. -/
theorem comparators_not_transitive :
    ¬ ∀ vs : List (Value Double), (∀ v ∈ vs, v.IsJson) →
      Sorts (directed true cmpOptionValues) (vs.map some) ∧ Sorts (directed true compareValues) vs := by
  intro h
  have hjson : ∀ v ∈ [.string "b", .bool true, Value.string (F := Double) "a"], v.IsJson := by
    simp [Value.IsJson]
  have htrans := ((h _ hjson).2.preorder).trans (.string "b") (by simp) (.bool true) (by simp) (.string "a")
    (by simp) (by decide) (by decide)
  exact htrans (by decide)

/-! ## The filter operators -/

/-- One of less, equal and greater holds, and equal is both of the other two. -/
def Coherent (isMatch : String → String → Bool) (a b : Value F) : Prop :=
  let lt := evalFilter isMatch a .lessThan b
  let eq := evalFilter isMatch a .equals b
  let gt := evalFilter isMatch a .greaterThan b
  ((lt = true ∧ eq = false ∧ gt = false) ∨ (lt = false ∧ eq = true ∧ gt = false) ∨
    (lt = false ∧ eq = false ∧ gt = true)) ∧
  (eq = true ↔
    evalFilter isMatch a .greaterThanOrEquals b = true ∧ evalFilter isMatch a .lessThanOrEquals b = true)

/-- The conversions to doubles tell the numbers apart. -/
def Number.DoublesDiffer (m n : Number F) : Prop := F64.partialCmp m.asF64 n.asF64 ≠ some .eq

/-- Two decimals, two equal integers, or two numbers whose doubles differ. -/
def Number.Separable : Number F → Number F → Prop
  | .float _, .float _ => True
  | .posInt a, .posInt b => a = b ∨ DoublesDiffer (.posInt a : Number F) (.posInt b)
  | .negInt a, .negInt b => a = b ∨ DoublesDiffer (.negInt a : Number F) (.negInt b)
  | m, n => m.DoublesDiffer n

theorem Number.partialCmp_self {n : Number F} (h : n.IsJson) : F64.partialCmp n.asF64 n.asF64 = some .eq := by
  obtain ⟨o, h1, h2⟩ := LawfulF64.cmp_swap n.asF64 n.asF64 h.isFinite h.isFinite
  rw [h1] at h2 ⊢
  cases o with
  | lt => cases h2
  | eq => rfl
  | gt => cases h2

/-- Numbers are separable when equality of JSON numbers and of doubles agree. -/
theorem Number.separable_iff {m n : Number F} (hm : m.IsJson) :
    m.Separable n ↔ (m.eq n = true ↔ F64.partialCmp m.asF64 n.asF64 = some .eq) := by
  have hmixed : m.eq n = false → (m.DoublesDiffer n ↔ (m.eq n = true ↔ F64.partialCmp m.asF64 n.asF64 = some .eq)) := by
    intro hne
    rw [hne]
    simp [DoublesDiffer]
  have hself := partialCmp_self hm
  cases m with
  | posInt a =>
    cases n with
    | posInt b =>
      by_cases hab : a = b
      · subst hab
        simp [Separable, Number.eq, hself]
      · simp [Separable, Number.eq, hab, DoublesDiffer]
    | negInt b => exact hmixed rfl
    | float y => exact hmixed rfl
  | negInt a =>
    cases n with
    | posInt b => exact hmixed rfl
    | negInt b =>
      by_cases hab : a = b
      · subst hab
        simp [Separable, Number.eq, hself]
      · simp [Separable, Number.eq, hab, DoublesDiffer]
    | float y => exact hmixed rfl
  | float x =>
    cases n with
    | posInt b => exact hmixed rfl
    | negInt b => exact hmixed rfl
    | float y => simp [Separable, Number.eq, Number.asF64]

theorem coherent_iff (isMatch : String → String → Bool) {m n : Number F} (hm : m.IsJson) (hn : n.IsJson) :
    Coherent isMatch (.number m) (.number n) ↔ (m.eq n = true ↔ F64.partialCmp m.asF64 n.asF64 = some .eq) := by
  obtain ⟨o, ho, -⟩ := LawfulF64.cmp_swap m.asF64 n.asF64 hm.isFinite hn.isFinite
  have hcmp : cmpValues (.number m) (.number n) = some o := ho
  simp only [Coherent, evalFilter, Value.eq, hcmp, ho]
  cases m.eq n <;> cases o <;> simp

/-- **The filter operators are coherent on two numbers exactly if these are two decimals, equal integers, or have
    different doubles; `lessThan` is transitive on all numbers.** -/
theorem filters_coherent (isMatch : String → String → Bool) (k m n : Number F) (hk : k.IsJson) (hm : m.IsJson)
    (hn : n.IsJson) :
    (Coherent isMatch (.number m) (.number n) ↔ m.Separable n) ∧
      (evalFilter isMatch (.number k) .lessThan (.number m) = true →
        evalFilter isMatch (.number m) .lessThan (.number n) = true →
        evalFilter isMatch (.number k) .lessThan (.number n) = true) := by
  refine ⟨(coherent_iff isMatch hm hn).trans (Number.separable_iff hm).symm, fun hkm hmn => ?_⟩
  have hjson : ∀ x ∈ [k, m, n], x.IsJson := by
    simp [hk, hm, hn]
  have hless : ∀ x y : Number F, evalFilter isMatch (.number x) .lessThan (.number y) = true ↔
      F64.partialCmp x.asF64 y.asF64 = some .lt := fun x y => beq_iff_eq
  rw [hless] at hkm hmn ⊢
  have hlt := (preorderOn_numbers hjson).lt_trans (by simp : k ∈ [k, m, n]) (by simp : m ∈ [k, m, n])
    (by simp : n ∈ [k, m, n]) (by simp [hkm]) (by simp [hmn])
  obtain ⟨o, ho, -⟩ := LawfulF64.cmp_swap k.asF64 n.asF64 hk.isFinite hn.isFinite
  rw [ho] at hlt ⊢
  exact congrArg some hlt

theorem filters_coherent_decimals : Coherent (F := Double) (fun _ _ => false) (.number (.float (.finite 1)))
      (.number (.float (.finite 2))) ∧
    evalFilter (fun _ _ => false) (Value.number (F := Double) (.float (.finite 0))) .lessThan
      (.number (.float (.finite 2))) = true := by
  have h := filters_coherent (F := Double) (fun _ _ => false) (.float (.finite 0)) (.float (.finite 1))
    (.float (.finite 2)) rfl rfl rfl
  exact ⟨h.1.2 trivial, h.2 (by decide) (by decide)⟩

/-- The integer 1 and the decimal 1.0 are neither equal nor one less than the other. -/
theorem filters_incoherent : ¬ ∀ m n : Number Double, m.IsJson → n.IsJson →
    Coherent (fun _ _ => false) (.number m) (.number n) := by
  intro h
  have hdecimal : (Number.float (Double.finite 1)).IsJson := rfl
  have h1 := (coherent_iff _ (m := .posInt 1) trivial hdecimal).1 (h (.posInt 1) _ trivial hdecimal)
  have hone : (Number.posInt 1 : Number Double).asF64 = .finite 1 := Double.ofInt_one
  exact absurd (h1.2 (by rw [hone]; decide)) (by decide)

end Order

end ChiffonDB

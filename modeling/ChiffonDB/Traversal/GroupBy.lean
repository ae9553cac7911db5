import ChiffonDB.Lib.Groups
import ChiffonDB.Schema.DoubleText
import ChiffonDB.Traversal.Executor

/-!
# GroupBy

The groups of a traversal, and the values that they are made by.

* `PartitionsByValue` — the groups put two nodes together exactly if their values agree.
* `KeysSeparate` — no text of a string is that of another value, and equal values are written alike.
* `groupBy_partitions_iff` — **the groups partition the nodes by value exactly then**.
-/

set_option autoImplicit false

set_option linter.unusedSectionVars false

namespace ChiffonDB

variable {F : Type} [F64 F] [F64Text F]

/-! ## The groups -/

section Groups

variable {graph : GraphAccess F} {path : PropertyPath} {ids : List NodeId} {valueOf : NodeId → Option (Value F)}

/-- The key of what a path resolves to. -/
def keyText (v : Option (Value F)) : String := (v.map valueToGroupKey).getD "null"

theorem groupKeyOf_eq {id : NodeId} (h : resolveOn graph true path id = .ok (valueOf id)) :
    groupKeyOf graph (.node path) id = .ok (keyText (valueOf id)) := by
  show (resolveOn graph true path id).bind _ = _
  rw [h]
  rfl

theorem groupInto_eq (h : ∀ id ∈ ids, resolveOn graph true path id = .ok (valueOf id)) (groups : GroupMap) :
    groupInto graph (.node path) ids groups = .ok (Groups.into (fun id => keyText (valueOf id)) ids groups) := by
  induction ids generalizing groups with
  | nil => rfl
  | cons id ids ih =>
    rw [groupInto]
    show (groupKeyOf graph (.node path) id).bind _ = _
    rw [groupKeyOf_eq (h id List.mem_cons_self)]
    exact ih (fun x hx => h x (List.mem_cons_of_mem _ hx)) _

theorem groupsOf_eq (h : ∀ id ∈ ids, resolveOn graph true path id = .ok (valueOf id)) :
    groupsOf graph (.node path) ids = .ok (Groups.of (fun id => keyText (valueOf id)) ids) := by
  show (groupInto graph (.node path) ids ∅).bind _ = _
  rw [groupInto_eq h]
  rfl

end Groups

/-! ## Agreement -/

/-- Nothing, or null. -/
def IsNothing (v : Option (Value F)) : Prop := v = none ∨ v = some .null

/-- Equal values, or nothing or null on both. -/
def Agree (v w : Option (Value F)) : Prop :=
  (IsNothing v ∧ IsNothing w) ∨ ∃ a b, v = some a ∧ w = some b ∧ a.eq b = true

/-- Every node is in one group, as often as it is in the cursor, and two nodes are in one group exactly if their
    values agree. -/
structure PartitionsByValue (valueOf : NodeId → Option (Value F)) (ids : List NodeId)
    (groups : List (String × List NodeId)) : Prop where
  counted : (groups.flatMap Prod.snd).Perm ids
  once : ∀ id ∈ ids, ∃! g, g ∈ groups ∧ id ∈ g.2
  same : ∀ a ∈ ids, ∀ b ∈ ids, (∃ g ∈ groups, a ∈ g.2 ∧ b ∈ g.2) ↔ Agree (valueOf a) (valueOf b)

/-- The texts of the values tell them apart: no string of one node is the text of what another has in place of a
    string, nothing counting as null, and equal values of two nodes are the same, without zeros of two signs. -/
structure KeysSeparate (valueOf : NodeId → Option (Value F)) (ids : List NodeId) : Prop where
  strings : ∀ a ∈ ids, ∀ b ∈ ids, ∀ s, valueOf a = some (.string s) → (∀ t, valueOf b ≠ some (.string t)) →
    s ≠ ((valueOf b).getD .null).text
  spelled : ∀ a ∈ ids, ∀ b ∈ ids, ∀ v w, valueOf a = some v → valueOf b = some w → v.eq w = true → v = w

variable {valueOf : NodeId → Option (Value F)} {ids : List NodeId}

theorem valueToGroupKey_eq {v : Value F} (h : ∀ s, v ≠ .string s) : valueToGroupKey v = v.text := by
  cases v with
  | string s => exact absurd rfl (h s)
  | null => rfl
  | bool b => cases b <;> rfl
  | number n =>
    show n.text = String.ofList n.text.toList
    rw [String.ofList_toList]
  | array items => rfl
  | object fields => rfl

theorem keyText_eq {v : Option (Value F)} (h : ∀ s, v ≠ some (.string s)) : keyText v = (v.getD .null).text := by
  cases v with
  | none => rfl
  | some v => exact valueToGroupKey_eq fun s hs => h s (congrArg some hs)

/-- Two nodes are in one group exactly if their keys are the same. -/
theorem same_group_iff {key : NodeId → String} {a b : NodeId} (ha : a ∈ ids) :
    (∃ g ∈ Groups.of key ids, a ∈ g.2 ∧ b ∈ g.2) ↔ b ∈ ids ∧ key a = key b := by
  constructor
  · rintro ⟨⟨k, m⟩, hg, hga, hgb⟩
    obtain ⟨-, rfl⟩ := Groups.mem_of.1 hg
    obtain ⟨-, hka⟩ := List.mem_filter.1 hga
    obtain ⟨hb, hkb⟩ := List.mem_filter.1 hgb
    exact ⟨hb, (of_decide_eq_true hka).trans (of_decide_eq_true hkb).symm⟩
  · rintro ⟨hb, hkey⟩
    have hina : a ∈ ids.filter fun id => key id = key a := List.mem_filter.2 ⟨ha, by simp⟩
    exact ⟨(key a, _), Groups.mem_of.2 ⟨List.ne_nil_of_mem hina, rfl⟩, hina, List.mem_filter.2 ⟨hb, by simp [hkey]⟩⟩

theorem group_unique {key : NodeId → String} {a : NodeId} (ha : a ∈ ids) :
    ∃! g, g ∈ Groups.of key ids ∧ a ∈ g.2 := by
  have hina : a ∈ ids.filter fun id => key id = key a := List.mem_filter.2 ⟨ha, by simp⟩
  refine ⟨(key a, _), ⟨Groups.mem_of.2 ⟨List.ne_nil_of_mem hina, rfl⟩, hina⟩, ?_⟩
  rintro ⟨k, m⟩ ⟨hg, hm⟩
  obtain ⟨-, rfl⟩ := Groups.mem_of.1 hg
  obtain rfl : key a = k := of_decide_eq_true (List.mem_filter.1 hm).2
  rfl

/-! ## Equal values -/

theorem Number.eq_self [LawfulF64 F] {n : Number F} (hn : n.IsJson) : n.eq n = true := by
  cases n with
  | posInt n => exact beq_self_eq_true n
  | negInt n => exact beq_self_eq_true n
  | float x =>
    obtain ⟨o, ho, hswap⟩ := LawfulF64.cmp_swap x x hn hn
    rw [ho] at hswap
    show (F64.partialCmp x x == some .eq) = true
    rw [ho]
    cases o <;> first | rfl | cases hswap

mutual

theorem Value.eq_self [LawfulF64 F] : ∀ {v : Value F}, v.AllJson → v.eq v = true
  | .null, _ => rfl
  | .bool b, _ => beq_self_eq_true b
  | .number _, h => Number.eq_self h
  | .string s, _ => beq_self_eq_true s
  | .array _, h => Value.eqItems_self h
  | .object _, h => Value.eqFields_self h

theorem Value.eqItems_self [LawfulF64 F] : ∀ {vs : List (Value F)}, Value.AllJsonItems vs → Value.eqItems vs vs = true
  | [], _ => rfl
  | v :: vs, h => by
    rw [Value.eqItems, Value.eq_self h.1, Value.eqItems_self h.2]
    rfl

theorem Value.eqFields_self [LawfulF64 F] :
    ∀ {fields : List (String × Value F)}, Value.AllJsonFields fields → Value.eqFields fields fields = true
  | [], _ => rfl
  | (k, v) :: fields, h => by
    rw [Value.eqFields, Value.eq_self h.1, Value.eqFields_self h.2, beq_self_eq_true]
    rfl

end

theorem Value.string_eq {s : String} {v : Value F} (h : (Value.string s).eq v = true) : v = .string s := by
  cases v with
  | string t => rw [eq_of_beq (show (s == t) = true from h)]
  | null => cases h
  | bool b => cases h
  | number n => cases h
  | array items => cases h
  | object fields => cases h

theorem Value.eq_string {s : String} {v : Value F} (h : v.eq (.string s) = true) : v = .string s := by
  cases v with
  | string t => rw [eq_of_beq (show (t == s) = true from h)]
  | null => cases h
  | bool b => cases h
  | number n => cases h
  | array items => cases h
  | object fields => cases h

/-! ## Keys and values -/

section Keys

variable [LawfulF64 F] [LawfulF64Text F]

theorem getD_allJson {v : Option (Value F)} (h : ∀ x, v = some x → x.AllJson) : (v.getD .null).AllJson := by
  cases v with
  | none => trivial
  | some x => exact h x rfl

/-- Other values than strings have one key exactly if they agree. -/
theorem keyText_eq_iff {v w : Option (Value F)} (hv : ∀ s, v ≠ some (.string s)) (hw : ∀ s, w ≠ some (.string s))
    (hvj : ∀ x, v = some x → x.AllJson) (hwj : ∀ x, w = some x → x.AllJson) :
    keyText v = keyText w ↔ v.getD .null = w.getD .null := by
  rw [keyText_eq hv, keyText_eq hw]
  exact ⟨Value.text_injective (getD_allJson hvj) (getD_allJson hwj), fun h => by rw [h]⟩

theorem agree_of_getD {v w : Option (Value F)} (hvj : ∀ x, v = some x → x.AllJson) (h : v.getD .null = w.getD .null) :
    Agree v w := by
  rcases v with _ | v <;> rcases w with _ | w
  · exact .inl ⟨.inl rfl, .inl rfl⟩
  · exact .inl ⟨.inl rfl, .inr (congrArg some h.symm)⟩
  · exact .inl ⟨.inr (congrArg some h), .inl rfl⟩
  · obtain rfl : v = w := h
    exact .inr ⟨v, v, rfl, rfl, Value.eq_self (hvj v rfl)⟩

theorem getD_of_isNothing {v : Option (Value F)} (h : IsNothing v) : v.getD .null = .null := by
  rcases h with rfl | rfl <;> rfl

theorem ne_string_of_isNothing {v : Option (Value F)} (h : IsNothing v) (s : String) : v ≠ some (.string s) := by
  rcases h with rfl | rfl <;> exact nofun

/-- **The keys partition the nodes by value** exactly if they are separate. -/
theorem partitionsByValue_iff (hjson : ∀ id ∈ ids, ∀ v, valueOf id = some v → v.AllJson) :
    PartitionsByValue valueOf ids (Groups.of (fun id => keyText (valueOf id)) ids) ↔ KeysSeparate valueOf ids := by
  constructor
  · intro h
    have hagree : ∀ a ∈ ids, ∀ b ∈ ids, keyText (valueOf a) = keyText (valueOf b) → Agree (valueOf a) (valueOf b) :=
      fun a ha b hb hkey => (h.same a ha b hb).1 ((same_group_iff ha).2 ⟨hb, hkey⟩)
    have hkey : ∀ a ∈ ids, ∀ b ∈ ids, Agree (valueOf a) (valueOf b) → keyText (valueOf a) = keyText (valueOf b) :=
      fun a ha b hb hab => ((same_group_iff ha).1 ((h.same a ha b hb).2 hab)).2
    refine ⟨fun a ha b hb s hs hne hst => ?_, fun a ha b hb v w hv hw heq => ?_⟩
    · have hkeys : keyText (valueOf a) = keyText (valueOf b) := by
        rw [keyText_eq hne, ← hst, hs]
        rfl
      rcases hagree a ha b hb hkeys with ⟨hnothing, -⟩ | ⟨v, w, hv, hw, heq⟩
      · exact ne_string_of_isNothing hnothing s hs
      · cases hs.symm.trans hv
        exact hne s (hw.trans (congrArg some (Value.string_eq heq)))
    · have hkeys := hkey a ha b hb (.inr ⟨v, w, hv, hw, heq⟩)
      by_cases hstring : ∃ s, v = .string s
      · obtain ⟨s, rfl⟩ := hstring
        exact (Value.string_eq heq).symm
      · have hvs : ∀ s, valueOf a ≠ some (.string s) := fun s hs =>
          hstring ⟨s, Option.some.inj (hv.symm.trans hs)⟩
        have hws : ∀ s, valueOf b ≠ some (.string s) := fun s hs => by
          cases hw.symm.trans hs
          exact hstring ⟨s, Value.eq_string heq⟩
        have hsame := (keyText_eq_iff hvs hws (hjson a ha) (hjson b hb)).1 hkeys
        rw [hv, hw] at hsame
        exact hsame
  · intro h
    refine ⟨Groups.perm_of, fun id hid => group_unique hid, fun a ha b hb => ?_⟩
    rw [same_group_iff ha, and_iff_right hb]
    constructor
    · intro hkeys
      by_cases hsa : ∃ s, valueOf a = some (.string s)
      · obtain ⟨s, hs⟩ := hsa
        by_cases hsb : ∃ t, valueOf b = some (.string t)
        · obtain ⟨t, ht⟩ := hsb
          rw [hs, ht] at hkeys
          obtain rfl : s = t := hkeys
          exact .inr ⟨_, _, hs, ht, beq_self_eq_true s⟩
        · refine absurd ?_ (h.strings a ha b hb s hs fun t ht => hsb ⟨t, ht⟩)
          rw [← keyText_eq fun t ht => hsb ⟨t, ht⟩, ← hkeys, hs]
          rfl
      · have hna := fun s hs => hsa ⟨s, hs⟩
        by_cases hsb : ∃ t, valueOf b = some (.string t)
        · obtain ⟨t, ht⟩ := hsb
          refine absurd ?_ (h.strings b hb a ha t ht hna)
          rw [← keyText_eq hna, hkeys, ht]
          rfl
        · have hnb := fun s hs => hsb ⟨s, hs⟩
          exact agree_of_getD (hjson a ha) ((keyText_eq_iff hna hnb (hjson a ha) (hjson b hb)).1 hkeys)
    · rintro (⟨hna, hnb⟩ | ⟨v, w, hv, hw, heq⟩)
      · rw [keyText_eq_iff (ne_string_of_isNothing hna) (ne_string_of_isNothing hnb) (hjson a ha) (hjson b hb),
          getD_of_isNothing hna, getD_of_isNothing hnb]
      · rw [hv, hw, h.spelled a ha b hb v w hv hw heq]

/-- **GroupBy partitions by value** exactly if the texts of the values tell them apart. -/
theorem groupBy_partitions_iff {graph : GraphAccess F} {path : PropertyPath} {cursor : Cursor}
    (functions : List AggregateFunction) (hids : cursorToNodeIds graph cursor = .ok ids)
    (hvalues : ∀ id ∈ ids, resolveOn graph true path id = .ok (valueOf id))
    (hjson : ∀ id ∈ ids, ∀ v, valueOf id = some v → v.AllJson) :
    ∃ groups, collectGroupBy graph cursor (.node path) functions = (do
        let rows ← Outcome.map (groupRow graph functions) groups
        pure (.groups rows)) ∧
      (PartitionsByValue valueOf ids groups ↔ KeysSeparate valueOf ids) := by
  refine ⟨_, ?_, partitionsByValue_iff hjson⟩
  show (cursorToNodeIds graph cursor).bind _ = _
  rw [hids]
  show (groupsOf graph (.node path) ids).bind _ = _
  rw [groupsOf_eq hvalues]
  rfl

end Keys

/-! ## Two nodes -/

/-- Two nodes with a property `x`. -/
def twoNodes (v w : Value Double) : GraphAccess Double where
  findNode _ _ _ := .ok none
  allNodesOfLabel _ := .ok [0, 1]
  allEdgesOfLabel _ := .ok []
  nodeProperties id := .ok (if id = 0 then some ((∅ : Props Double).insert "x" v)
    else if id = 1 then some ((∅ : Props Double).insert "x" w) else none)
  nodeLabel _ := .ok (some "N")
  nodeLabels _ := .ok ["N"]
  outEdges _ _ := .ok []
  inEdges _ _ := .ok []
  edgeToNode _ := .ok none
  edgeFromNode _ := .ok none
  edgeLabel _ := .ok none
  edgeProperties _ := .ok none
  applyCustomFilter _ candidates := .ok (candidates.map Prod.fst)

def twoValues (v w : Value Double) (id : NodeId) : Option (Value Double) :=
  if id = 0 then some v else if id = 1 then some w else none

/-- A string and the number with its text are counted in one group. -/
theorem groupBy_merges_text :
    execute ⟨fun _ _ => false, id⟩ (twoNodes (.string "1") (.number (.posInt 1)))
        { start := { kind := "AllNodes" }, steps := [],
          collect := .groupBy (.node (.flat "x")) [⟨.count, none, none⟩] } =
      .ok (.groups [(∅ : Props Double).insert "_group" (.string "1") ∪
        (∅ : Props Double).insert "count" (.number (.posInt 2))]) ∧
    groupsOf (twoNodes (.string "1") (.number (.posInt 1))) (.node (.flat "x")) [0, 1] = .ok [("1", [0, 1])] ∧
    ¬ PartitionsByValue (twoValues (.string "1") (.number (.posInt 1))) [0, 1] [("1", [0, 1])] := by
  refine ⟨rfl, rfl, fun h => ?_⟩
  have hagree := (h.same 0 (by decide) 1 (by decide)).1 ⟨_, List.mem_singleton_self _, by decide, by decide⟩
  rcases hagree with ⟨hnothing | hnothing, -⟩ | ⟨v, w, hv, hw, heq⟩
  · cases hnothing
  · cases hnothing
  · cases hv
    cases hw
    cases heq

/-- The texts of `a` and 1 differ. -/
theorem groupBy_partitions_iff_pair :
    ∃ groups, collectGroupBy (twoNodes (.string "a") (.number (.posInt 1))) (.nodes [0, 1]) (.node (.flat "x")) [] = (do
        let rows ← Outcome.map (groupRow (twoNodes (.string "a") (.number (.posInt 1))) []) groups
        pure (.groups rows)) ∧
      (PartitionsByValue (twoValues (.string "a") (.number (.posInt 1))) [0, 1] groups ↔
        KeysSeparate (twoValues (.string "a") (.number (.posInt 1))) [0, 1]) := by
  refine groupBy_partitions_iff [] rfl (fun id hid => ?_) fun id hid v hv => ?_
  · rcases List.mem_pair.1 hid with rfl | rfl <;> rfl
  · rcases List.mem_pair.1 hid with rfl | rfl <;> cases hv <;> trivial

end ChiffonDB

import ChiffonDB.Graph.IndexExact
import ChiffonDB.Graph.System
import ChiffonDB.Traversal.DatabaseView

/-!
# Finding nodes by a value

* `Graph.indexFindAll` — the scan of `index::find_all`.
* `Contents.Hits` — the live nodes of a type whose value at a path is equal to one.
* `Graph.finds_indexFindAll` — **the scan finds the hits**.
* `Graph.exists_findAllNodes` — **so does the index**, when its entries are exact and the value is not a float.
* `Graph.exists_findNode` — one hit is found, if there is any.
-/

set_option autoImplicit false

set_option linter.unusedSectionVars false

namespace ChiffonDB

open Action PropertyIndex

variable {F : Type} [F64 F] [F64Text F] {M : Type} [FaithfulBacking M]

namespace Graph

section Model

variable (C : Codecs F)

/-- `index::find_all`. -/
def indexFindAll (typeId : UInt16) (path : PropertyPath) (value : Value F) : Action (Graph M) (List RecordId) := do
  let rids ← liveNodeRids
  Action.collect rids (scanHit C typeId path value)

end Model

end Graph

/-! ## Values -/

/-- The values that are equal to themselves only: no float, and nothing that is not indexed. -/
def Value.isExact : Value F → Bool
  | .bool _ | .string _ | .number (.posInt _) | .number (.negInt _) => true
  | _ => false

theorem Value.isIndexable_of_isExact {value : Value F} (h : value.isExact = true) : isIndexableValue value = true := by
  cases value with
  | bool b => rfl
  | number n => rfl
  | string s => rfl
  | null => cases h
  | array items => cases h
  | object fields => cases h

theorem Value.eq_of_isExact {v value : Value F} (h : value.isExact = true) (heq : v.eq value = true) : v = value := by
  cases value with
  | bool b =>
    cases v with
    | bool a => rw [eq_of_beq heq]
    | _ => simp [Value.eq] at heq
  | string s =>
    cases v with
    | string a => rw [eq_of_beq heq]
    | _ => simp [Value.eq] at heq
  | number n =>
    cases v with
    | number m =>
      cases n <;> cases m <;> simp [Value.eq, Number.eq, Value.isExact] at heq h
      all_goals rw [heq]
    | _ => simp [Value.eq] at heq
  | null => cases h
  | array items => cases h
  | object fields => cases h

namespace Contents

/-- A live node of a type whose value at a path is equal to one. -/
def Hits (c : Contents F) (typeId : UInt16) (path : PropertyPath) (value : Value F) (rid : RecordId) : Prop :=
  ∃ row, c.nodes rid = some row ∧ row.typeId = typeId ∧ (path.resolve row.props).any (·.eq value) = true

variable {C : Codecs F} {c : Contents F} {typeId : UInt16} {path : PropertyPath} {value : Value F} {rid : RecordId}

theorem EntriesExact.entriesLive (hx : c.EntriesExact C) : c.EntriesLive := by
  intro key rid hentry
  obtain ⟨row, hrow, hkey⟩ := hx.live hentry
  refine ⟨row, hrow, ?_⟩
  obtain ⟨name, fields, -, f, -, hkey⟩ := mem_keys_iff.1 hkey
  obtain ⟨v, -, hkey⟩ := Option.bind_eq_some_iff.1 (mem_keysAt.1 hkey).2
  obtain ⟨bytes, -, rfl⟩ := Option.map_eq_some_iff.1 hkey
  rfl

/-- The key of a value that a record has at an indexed path is one of its keys. -/
theorem mem_keys_of_resolve {props : Props F} {unique : Bool} (hpath : (path, unique) ∈ c.indexedPaths typeId)
    (hresolve : path.resolve props = some value) (hvalue : isIndexableValue value = true) {key : IndexKey}
    (hkey : keyOf C typeId path.displayName value = some key) : key ∈ c.keys C typeId props := by
  refine List.mem_filterMap.2 ⟨_, hpath, ?_⟩
  unfold pathKey Graph.indexable
  rw [hresolve, Option.filter_some, if_pos hvalue]
  exact hkey

end Contents

namespace Graph

variable {C : Codecs F} {t : Topo} {b : Behind} {c : Contents F} {rid : RecordId} {typeId : UInt16} {path : PropertyPath}
  {value : Value F}

/-! ## The scan -/

/-- A path leads nowhere in a record without properties. -/
theorem resolve_empty (path : PropertyPath) : path.resolve (∅ : Props F) = none := by
  cases path with
  | flat key => simp [PropertyPath.resolve]
  | path segments =>
    cases segments with
    | nil => rfl
    | cons first rest => simp [PropertyPath.resolve]

theorem finds_scanHit (h : Depicts C t b c) {row : NodeRow F} (hrow : c.nodes rid = some row) :
    Finds (Is (M := M) t b) (scanHit C typeId path value rid)
      (.ok (if row.typeId = typeId ∧ (path.resolve row.props).any (·.eq value) = true then some rid else none)) := by
  obtain ⟨r, hr, hstored⟩ := exists_node h hrow
  refine (finds_readNode hr).bind (u := fun _ => .ok _) fun r' hr' => ?_
  cases hr'
  rw [hstored.typeId]
  by_cases htype : row.typeId = typeId
  · rw [if_neg (not_not.2 htype)]
    have hprops := hstored.props
    cases href : r.propertyRef with
    | none =>
      rw [href] at hprops
      rw [show row.props = ∅ from hprops, resolve_empty, if_neg (by simp)]
      exact Finds.pure _
    | some pref =>
      rw [href] at hprops
      refine (finds_readProps hprops).bind (u := fun _ => .ok _) fun props hp => ?_
      cases hp
      simp only [htype, true_and]
      exact Finds.pure _
  · rw [if_pos htype, if_neg fun hboth => htype hboth.1]
    exact Finds.pure _

/-- **The scan finds the hits.** -/
theorem finds_indexFindAll (h : Depicts C t b c) (typeId : UInt16) (path : PropertyPath) (value : Value F) :
    ∃ rids, Finds (Is (M := M) t b) (indexFindAll C typeId path value) (.ok rids) ∧
      ∀ rid, rid ∈ rids ↔ c.Hits typeId path value rid := by
  obtain ⟨live, hlive, -, hmem⟩ := finds_liveNodeRids (M := M) h
  have hscan : Finds (Is (M := M) t b) (Action.collect live (scanHit C typeId path value)) (.ok (live.filterMap fun rid =>
      (c.nodes rid).bind fun row =>
        if row.typeId = typeId ∧ (path.resolve row.props).any (·.eq value) = true then some rid else none)) := by
    refine Finds.collect fun rid hrid => ?_
    obtain ⟨row, hrow⟩ := (hmem rid).1 hrid
    rw [hrow]
    exact finds_scanHit h hrow
  refine ⟨_, hlive.bind (u := fun _ => .ok _) fun rids hr => by cases hr; exact hscan, fun rid => ?_⟩
  rw [List.mem_filterMap]
  constructor
  · rintro ⟨rid', -, hsome⟩
    obtain ⟨row, hrow, hif⟩ := Option.bind_eq_some_iff.1 hsome
    split at hif
    · rename_i hboth
      cases hif
      exact ⟨row, hrow, hboth.1, hboth.2⟩
    · cases hif
  · rintro ⟨row, hrow, hboth⟩
    exact ⟨rid, (hmem rid).2 ⟨row, hrow⟩, by rw [hrow, Option.bind_some, if_pos hboth]⟩

/-- **The loop of `index::find` stops at a hit**, if there is one. -/
theorem finds_scanFirst (h : Depicts C t b c) (typeId : UInt16) (path : PropertyPath) (value : Value F) {rids : List RecordId}
    (hlive : ∀ rid ∈ rids, ∃ row, c.nodes rid = some row) :
    ∃ found, Finds (Is (M := M) t b) (scanFirst C typeId path value rids) (.ok found) ∧
      (∀ rid, found = some rid → rid ∈ rids ∧ c.Hits typeId path value rid) ∧
      (found = none → ∀ rid ∈ rids, ¬ c.Hits typeId path value rid) := by
  induction rids with
  | nil => exact ⟨none, Finds.pure _, fun rid hr => (by cases hr), fun _ rid hrid => (by cases hrid)⟩
  | cons rid rids ih =>
    obtain ⟨row, hrow⟩ := hlive rid List.mem_cons_self
    have hhead : Finds (Is (M := M) t b) (scanHit C typeId path value rid) _ := finds_scanHit h hrow
    by_cases hhit : row.typeId = typeId ∧ (path.resolve row.props).any (·.eq value) = true
    · rw [if_pos hhit] at hhead
      refine ⟨some rid, hhead.bind (u := fun _ => .ok _) fun found hf => ?_, fun x hx => ?_, fun hn => (by cases hn)⟩
      · cases hf
        exact Finds.pure _
      · cases hx
        exact ⟨List.mem_cons_self, row, hrow, hhit.1, hhit.2⟩
    · rw [if_neg hhit] at hhead
      obtain ⟨found, hfind, hsome, hnone⟩ := ih fun x hx => hlive x (List.mem_cons_of_mem _ hx)
      refine ⟨found, hhead.bind (u := fun _ => .ok _) fun found' hf => ?_, fun x hx => ?_, fun hn x hx => ?_⟩
      · cases hf
        exact hfind
      · exact ⟨List.mem_cons_of_mem _ (hsome x hx).1, (hsome x hx).2⟩
      · rcases List.mem_cons.1 hx with rfl | hx
        · rintro ⟨row', hrow', htype, hany⟩
          cases hrow.symm.trans hrow'
          exact hhit ⟨htype, hany⟩
        · exact hnone hn x hx

/-! ## The index -/

theorem indexedPath_iff : ((c.indexedPaths typeId).any fun p => decide (p.1 = path)) = true ↔
    ∃ unique, (path, unique) ∈ c.indexedPaths typeId := by
  rw [List.any_eq_true]
  constructor
  · rintro ⟨p, hp, he⟩
    exact ⟨p.2, of_decide_eq_true he ▸ hp⟩
  · rintro ⟨unique, hp⟩
    exact ⟨_, hp, decide_eq_true rfl⟩

/-- A path that is not indexed is scanned. -/
theorem findAllNodes_scan (h : Depicts C t b c) (hC : C.Faithful)
    (hpath : ¬ ((c.indexedPaths typeId).any fun p => decide (p.1 = path)) = true) {g : Graph M} (hg : Is t b g) :
    findAllNodes C typeId path value g = indexFindAll C typeId path value g := by
  unfold findAllNodes
  rw [run_bind, finds_indexedPathsForType h hC typeId g hg]
  show (if (c.indexedPaths typeId).any fun p => decide (p.1 = path) then _ else _ : Action (Graph M) _) g = _
  rw [if_neg hpath]
  rfl

/-- **The index finds the hits** of a value that is equal to itself only. -/
theorem exists_findAllNodes (h : Depicts C t b c) (hC : C.Faithful) (hx : c.EntriesExact C) (hvalue : value.isExact = true)
    (typeId : UInt16) (path : PropertyPath) {g : Graph M} (hg : Is t b g) : ∃ rids, findAllNodes C typeId path value g = (.ok rids, g) ∧
      ∀ rid, rid ∈ rids ↔ c.Hits typeId path value rid := by
  by_cases hindexed : ((c.indexedPaths typeId).any fun p => decide (p.1 = path)) = true
  · obtain ⟨unique, hpath⟩ := indexedPath_iff.1 hindexed
    obtain ⟨key, hkey⟩ := exists_key (C := C) (Value.isIndexable_of_isExact hvalue) typeId path.displayName
    obtain ⟨rids, hrun, hsound⟩ := run_findAllNodes h hC hx.entriesLive hpath hkey hg
    have hcomplete := meets_findAllNodes h hC hpath hkey g hg
    rw [hrun] at hcomplete
    refine ⟨rids, hrun, fun rid => ⟨fun hrid => ?_, fun hhit => ?_⟩⟩
    · obtain ⟨row, hentry, hrow, hany⟩ := hsound rid hrid
      obtain ⟨row', hrow', htype⟩ := hx.entriesLive key rid hentry
      cases hrow.symm.trans hrow'
      obtain ⟨bytes, -, rfl⟩ := Option.map_eq_some_iff.1 hkey
      exact ⟨row, hrow, htype.symm, hany⟩
    · obtain ⟨row, hrow, htype, hany⟩ := hhit
      subst htype
      obtain ⟨v, hv, heq⟩ := (Option.any_eq_true _ _).1 hany
      obtain rfl := Value.eq_of_isExact hvalue heq
      exact hcomplete.1 rid row ((hx.has_iff hrow).2 (Contents.mem_keys_of_resolve hpath hv
        (Value.isIndexable_of_isExact hvalue) hkey)) hrow hany
  · obtain ⟨rids, hfind, hmem⟩ := finds_indexFindAll (M := M) h typeId path value
    exact ⟨rids, (findAllNodes_scan h hC hindexed hg).trans (hfind g hg), hmem⟩

/-- **`find_node`** finds a hit, if there is any. -/
theorem exists_findNode (h : Depicts C t b c) (hC : C.Faithful) (hx : c.EntriesExact C) (hvalue : value.isExact = true)
    (typeId : UInt16) (path : PropertyPath) {g : Graph M} (hg : Is t b g) : ∃ found, findNode C typeId path value g = (.ok found, g) ∧
      (∀ rid, found = some rid → c.Hits typeId path value rid) ∧
      (found = none → ∀ rid, ¬ c.Hits typeId path value rid) := by
  by_cases hindexed : ((c.indexedPaths typeId).any fun p => decide (p.1 = path)) = true
  · obtain ⟨rids, hrun, hmem⟩ := exists_findAllNodes h hC hx hvalue typeId path hg
    refine ⟨rids.head?, ?_, fun rid hr => (hmem rid).1 (List.mem_of_mem_head? hr), fun hn rid hhit => ?_⟩
    · unfold findNode
      rw [run_bind, finds_indexedPathsForType h hC typeId g hg]
      show (if (c.indexedPaths typeId).any fun p => decide (p.1 = path) then _ else _ : Action (Graph M) _) g = _
      rw [if_pos hindexed, run_bind, hrun]
      rfl
    · rw [List.head?_eq_none_iff] at hn
      have hrid := (hmem rid).2 hhit
      rw [hn] at hrid
      cases hrid
  · obtain ⟨live, hlive, -, hmem⟩ := finds_liveNodeRids (M := M) h
    obtain ⟨found, hfind, hsome, hnone⟩ := finds_scanFirst (M := M) h typeId path value fun rid => (hmem rid).1
    refine ⟨found, ?_, fun rid hr => (hsome rid hr).2, fun hn rid hhit => ?_⟩
    · unfold findNode
      rw [run_bind, finds_indexedPathsForType h hC typeId g hg]
      show (if (c.indexedPaths typeId).any fun p => decide (p.1 = path) then _ else _ : Action (Graph M) _) g = _
      rw [if_neg hindexed, run_bind, hlive g hg]
      exact hfind g hg
    · obtain ⟨row, hrow, hboth⟩ := hhit
      exact hnone hn rid ((hmem rid).2 ⟨row, hrow⟩) ⟨row, hrow, hboth⟩

end Graph

end ChiffonDB

import ChiffonDB.Graph.FirstSchema
import ChiffonDB.Graph.Listing
import ChiffonDB.Graph.Room

/-!
# Databases of one type

What is in a database that only nodes of one type have been inserted into.

* `Clashes` — a property map keeps another one of the same type out.
* `Contents.Filled` — the nodes, their label and their index entries.
* `Contents.Filled.admits_iff` — **a node is let in where no other one clashes with it**.
* `Contents.Filled.lists` — **`list_nodes` gives what has been inserted**.
-/

set_option autoImplicit false

set_option linter.unusedSectionVars false

namespace ChiffonDB

open Action Graph PropertyIndex

variable {F : Type} [F64 F] [F64Text F] {M : Type} [FaithfulBacking M] {C : Codecs F}

/-! ## Clashes -/

/-- A field that is unique has equal values under one index key. -/
def Clashes (C : Codecs F) (id : UInt16) (paths : List (PropertyPath × Bool)) (q p : Props F) : Prop :=
  ∃ path value key, (path, true) ∈ paths ∧ indexable path p = some value ∧ keyOf C id path.displayName value = some key ∧
    key ∈ paths.filterMap (fun e => pathKey C id q e.1) ∧ (path.resolve q).any (·.eq value) = true

/-- The key under another type id. -/
theorem keyOf_id (id' : UInt16) {id : UInt16} {path : String} {value : Value F} {key : IndexKey}
    (h : keyOf C id path value = some key) : keyOf C id' path value = some { key with typeId := id' } := by
  obtain ⟨bytes, hbytes, rfl⟩ := Option.map_eq_some_iff.1 h
  exact Option.map_eq_some_iff.2 ⟨bytes, hbytes, rfl⟩

/-- Which type it is does not matter. -/
theorem Clashes.id (id' : UInt16) {id : UInt16} {paths : List (PropertyPath × Bool)} {q p : Props F}
    (h : Clashes C id paths q p) : Clashes C id' paths q p := by
  obtain ⟨path, value, key, hpath, hvalue, hkey, hmem, heq⟩ := h
  refine ⟨path, value, _, hpath, hvalue, keyOf_id id' hkey, ?_, heq⟩
  obtain ⟨e, he, hother⟩ := List.mem_filterMap.1 hmem
  obtain ⟨v, hv, hkey'⟩ := Option.bind_eq_some_iff.1 hother
  exact List.mem_filterMap.2 ⟨e, he, Option.bind_eq_some_iff.2 ⟨v, hv, keyOf_id id' hkey'⟩⟩

/-! ## What has been inserted -/

namespace Contents

/-- Nodes of one type with these properties, the last one in front. -/
structure Filled (c : Contents F) (C : Codecs F) (dto : SchemaDto) (id : UInt16) (paths : List (PropertyPath × Bool))
    (qs : List (Props F)) : Prop where
  schema : c.schema = some dto
  paths : c.indexedPaths id = paths
  listed : ∃ rids : List RecordId, c.labelled id = rids ∧
    rids.map c.nodes = qs.map (fun q => some ⟨id, q, []⟩) ∧ ∀ rid row, c.nodes rid = some row → rid ∈ rids
  entries : ∀ key rid, (key, rid) ∈ c.entries ↔ ∃ q, c.nodes rid = some ⟨id, q, []⟩ ∧ key ∈ c.keys C id q

theorem filled_ofSchema (C : Codecs F) (dto : SchemaDto) (id : UInt16) :
    (ofSchema dto : Contents F).Filled C dto id ((ofSchema dto : Contents F).indexedPaths id) [] where
  schema := rfl
  paths := rfl
  listed := ⟨[], rfl, rfl, fun _ _ h => by cases h⟩
  entries _ _ := ⟨fun h => h.elim, fun ⟨_, h, _⟩ => by cases h⟩

variable {c : Contents F} {dto : SchemaDto} {id : UInt16} {paths : List (PropertyPath × Bool)} {qs : List (Props F)}
  {p : Props F} {rid : RecordId}

/-- The properties of the rows. -/
theorem Filled.mem_iff (h : c.Filled C dto id paths qs) {q : Props F} : q ∈ qs ↔ ∃ rid, c.nodes rid = some ⟨id, q, []⟩ := by
  obtain ⟨rids, -, hrows, hall⟩ := h.listed
  have hmem : q ∈ qs ↔ some ⟨id, q, []⟩ ∈ rids.map c.nodes := by
    rw [hrows]
    refine ⟨fun hq => List.mem_map.2 ⟨q, hq, rfl⟩, fun hq => ?_⟩
    obtain ⟨q', hq', he⟩ := List.mem_map.1 hq
    cases he
    exact hq'
  rw [hmem, List.mem_map]
  exact ⟨fun ⟨rid, _, hrow⟩ => ⟨rid, hrow⟩, fun ⟨rid, hrow⟩ => ⟨rid, hall rid _ hrow, hrow⟩⟩

/-- **Another one.** -/
theorem Filled.insertNode (h : c.Filled C dto id paths qs) (hfresh : c.nodes rid = none) (p : Props F) :
    (c.insertNode C rid id p).Filled C dto id paths (p :: qs) := by
  obtain ⟨rids, hlabel, hrows, hall⟩ := h.listed
  have hself : (c.insertNode C rid id p).nodes rid = some ⟨id, p, []⟩ := Function.update_self _ _ _
  have hother : ∀ x, x ≠ rid → (c.insertNode C rid id p).nodes x = c.nodes x := fun x hx => Function.update_of_ne hx _ _
  have hne : ∀ {x row}, c.nodes x = some row → x ≠ rid := by
    rintro x row hx rfl
    rw [hfresh] at hx
    cases hx
  refine ⟨h.schema, h.paths, ⟨rid :: rids, ?_, ?_, fun x row hx => ?_⟩, fun key x => ?_⟩
  · show labelAll rid [id] c.labelled id = _
    show Function.update c.labelled id (rid ::ₘ c.labelled id) id = _
    rw [Function.update_self, hlabel]
    rfl
  · rw [List.map_cons, List.map_cons, hself, ← hrows]
    refine congrArg _ (List.map_congr_left fun x hx => hother x ?_)
    have hrow : c.nodes x ∈ qs.map fun q => some ⟨id, q, []⟩ := hrows ▸ List.mem_map_of_mem hx
    obtain ⟨q, -, hq⟩ := List.mem_map.1 hrow
    exact hne hq.symm
  · by_cases hxr : x = rid
    · exact hxr ▸ List.mem_cons_self
    · exact List.mem_cons_of_mem rid (hall x row ((hother x hxr).symm.trans hx))
  · show (key, x) ∈ c.entries ∨ (key ∈ c.keys C id p ∧ x = rid) ↔ _
    constructor
    · rintro (hold | ⟨hkey, rfl⟩)
      · obtain ⟨q, hq, hkey⟩ := (h.entries key x).1 hold
        exact ⟨q, (hother x (hne hq)).trans hq, hkey⟩
      · exact ⟨p, hself, hkey⟩
    · rintro ⟨q, hq, hkey⟩
      by_cases hxr : x = rid
      · rw [hxr, hself] at hq
        cases hq
        exact .inr ⟨hkey, hxr⟩
      · exact .inl ((h.entries key x).2 ⟨q, (hother x hxr).symm.trans hq, hkey⟩)

theorem Filled.entriesLive (h : c.Filled C dto id paths qs) : c.EntriesLive := by
  intro key rid hentry
  obtain ⟨q, hq, hkey⟩ := (h.entries key rid).1 hentry
  refine ⟨_, hq, ?_⟩
  obtain ⟨path, -, hpath⟩ := List.mem_filterMap.1 hkey
  obtain ⟨value, -, hvalue⟩ := Option.bind_eq_some_iff.1 hpath
  obtain ⟨bytes, -, rfl⟩ := Option.map_eq_some_iff.1 hvalue
  rfl

/-- **A node is let in where no other one clashes with it.** -/
theorem Filled.admits_iff (h : c.Filled C dto id paths qs) (p : Props F) :
    c.Admits C id p none ↔ ∀ q ∈ qs, ¬ Clashes C id paths q p := by
  have hkeys : ∀ q, c.keys C id q = paths.filterMap fun e => pathKey C id q e.1 := fun q => by
    unfold Contents.keys
    rw [h.paths]
  unfold Contents.Admits
  rw [h.paths]
  constructor
  · rintro hadmits q hq ⟨path, value, key, hpath, hvalue, hkey, hmem, heq⟩
    obtain ⟨rid, hrow⟩ := h.mem_iff.1 hq
    rw [← hkeys] at hmem
    cases hadmits path hpath value hvalue key hkey rid _ ((h.entries key rid).2 ⟨q, hrow, hmem⟩) hrow heq
  · intro hclash path hpath value hvalue key hkey rid row hentry hrow heq
    obtain ⟨q, hq, hmem⟩ := (h.entries key rid).1 hentry
    cases hq.symm.trans hrow
    rw [hkeys] at hmem
    exact absurd ⟨path, value, key, hpath, hvalue, hkey, hmem, heq⟩ (hclash q (h.mem_iff.2 ⟨rid, hq⟩))

/-- **`list_nodes` gives what has been inserted.** -/
theorem Filled.lists {t : Topo} {b : Behind} {g : Graph M} (h : c.Filled C dto id paths qs) (hd : Depicts C t b c)
    (hg : Is t b g) (hC : C.Faithful) {name : String} (hid : dto.registry.nodeTypeId name = some id) :
    ∃ nodes, listNodes C (some name) g = (.ok nodes, g) ∧ (nodes.map Prod.snd).Perm (qs.map (c.visible .node id)) := by
  obtain ⟨rids, hlabel, hrows, hall⟩ := h.listed
  have hlive : ∀ rid ∈ rids, ∃ row, c.nodes rid = some row := by
    intro rid hrid
    have hrow : c.nodes rid ∈ qs.map fun q => some ⟨id, q, []⟩ := hrows ▸ List.mem_map_of_mem hrid
    obtain ⟨q, -, hq⟩ := List.mem_map.1 hrow
    exact ⟨_, hq.symm⟩
  obtain ⟨rids', hrids', hlist⟩ := finds_listNodesOf hd hC h.schema hid
    (fun rid hrid => hlive rid (Multiset.mem_coe.1 (hlabel ▸ hrid))) hg
  have hperm : rids'.Perm rids := Multiset.coe_eq_coe.1 (hrids'.trans hlabel)
  refine ⟨_, hlist, ?_⟩
  unfold Contents.listedNodes
  rw [List.map_filterMap]
  refine (hperm.filterMap _).trans (List.Perm.of_eq ?_)
  -- the rows, one by one
  clear hlabel hall hrids' hlist hperm hlive h
  induction qs generalizing rids with
  | nil =>
    rw [List.map_eq_nil_iff.1 hrows]
    rfl
  | cons q qs ih =>
    cases rids with
    | nil => cases hrows
    | cons rid rids =>
      obtain ⟨hrow, hrows⟩ := List.cons.inj hrows
      rw [List.filterMap_cons, hrow, List.map_cons, ← ih rids hrows]
      rfl

end Contents

/-! ## The inserts -/

namespace Graph

variable {c : Contents F} {dto : SchemaDto} {id : UInt16} {paths : List (PropertyPath × Bool)} {qs : List (Props F)}
  {name : String}

/-- What the schema asks of some properties, and the property store. -/
structure Fitting (M : Type) [FaithfulBacking M] (C : Codecs F) (dto : SchemaDto) (name : String) (p : Props F) : Prop where
  valid : ∃ node, (dtoToAst dto).findNode name = some node ∧ validateProperties name node.fields p = .ok ()
  taken : PropsTaken M C p

/-- `insert_node_by_name` of what clashes with nothing. -/
theorem runs_insertFitting (hC : C.Faithful) (h : c.Filled C dto id paths qs) (hid : dto.registry.nodeTypeId name = some id)
    {p : Props F} (hfit : Fitting M C dto name p) (hclash : ∀ q ∈ qs, ¬ Clashes C id paths q p) :
    Runs (Shows (M := M) C c) (paths.length + 5) (insertNodeByName C name p)
      fun _ g => ∃ c', c'.Filled C dto id paths (p :: qs) ∧ Shows C c' g := by
  obtain ⟨node, hdef, hvalid⟩ := hfit.valid
  have hadmits : c.AdmitsNode M C name id p :=
    ⟨⟨dto, node, h.schema, hdef, hvalid, hid⟩, hfit.taken, (h.admits_iff p).2 hclash⟩
  refine (runs_insertNodeByName hC h.entriesLive hadmits).mono (fun _ hg => hg) ?_ fun rid g hg => ?_
  · rw [h.paths]
  · exact ⟨_, h.insertNode hg.1 p, hg.2⟩

/-- **One that succeeds clashes with nothing.** -/
theorem meets_insertFilled (hC : C.Faithful) (h : c.Filled C dto id paths qs) (hid : dto.registry.nodeTypeId name = some id)
    (p : Props F) : Meets (Shows (M := M) C c) (insertNodeByName C name p)
      (fun _ g => (∀ q ∈ qs, ¬ Clashes C id paths q p) ∧ ∃ c', c'.Filled C dto id paths (p :: qs) ∧ Shows C c' g)
      fun _ => True := by
  refine (meets_insertNodeByName hC name p).mono (fun _ hg => hg) (fun rid g hg => ?_) fun _ _ => trivial
  obtain ⟨typeId, ⟨hadmits, hfresh⟩, hshows⟩ := hg
  obtain ⟨dto', node, hs, -, -, hid'⟩ := hadmits.allowed
  cases h.schema.symm.trans hs
  cases hid.symm.trans hid'
  exact ⟨(h.admits_iff p).1 hadmits.unique, _, h.insertNode hfresh p, hshows⟩

end Graph

end ChiffonDB

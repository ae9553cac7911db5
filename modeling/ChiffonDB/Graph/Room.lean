import ChiffonDB.Graph.Inserts

/-!
# Room

A file and a record table are full at some point, and a call that finds no room does not return. What follows is
about calls that find room.

* `Graph.Roomy` — the next calls of the stores find room, whichever they are.
* `Graph.Costs` — how many of them a call makes; `Graph.Runs` — a call that returns, and what it leaves behind.
* `Graph.runs_insertNodeByName`, `Graph.runs_insertEdgeByName` — **an insert that the schema lets in succeeds**.
-/

set_option autoImplicit false

set_option linter.unusedSectionVars false

namespace ChiffonDB

open Action PropertyIndex

namespace Graph

section Room

variable {M : Type} [Backing M] {α β : Type}

/-- The calls that the inserts make to the stores. -/
inductive StoreCall where
  | value (bytes : List UInt8)
  | nodeSlot
  | edgeSlot
  | node (r : NodeRecord)
  | edge (r : EdgeRecord)
  | label (typeId : UInt16) (rid : RecordId)
  | entry (key : IndexKey) (rid : RecordId)

/-- A call without its result. -/
def drop (p : Action (Graph M) α) : Action (Graph M) Unit := do
  let _ ← p
  pure ()

/-- The slot of a new node. -/
def nodeSlot : Action (Graph M) RecordId :=
  allocSlot .node Topo.nodes (fun t nodes => { t with nodes := nodes }) NodeRecord.blank

/-- The slot of a new edge. -/
def edgeSlot : Action (Graph M) RecordId :=
  allocSlot .edge Topo.edges (fun t edges => { t with edges := edges }) EdgeRecord.blank

def StoreCall.run : StoreCall → Action (Graph M) Unit
  | value bytes => drop (writeRaw bytes)
  | nodeSlot => drop Graph.nodeSlot
  | edgeSlot => drop Graph.edgeSlot
  | node r => writeNode r
  | edge r => writeEdge r
  | label typeId rid => onPages (Backing.addLabel typeId rid)
  | entry key rid => onPages (Backing.addEntry key rid)

/-- The next `n` calls of the stores return, whichever they are. -/
def Roomy : Nat → Graph M → Prop
  | 0, _ => True
  | n + 1, g => ∀ call : StoreCall, (call.run g).1 ≠ .panic ∧ Roomy n (call.run g).2

theorem Roomy.mono {m n : Nat} (hle : m ≤ n) {g : Graph M} (h : Roomy n g) : Roomy m g := by
  induction m generalizing n g with
  | zero => trivial
  | succ m ih =>
    obtain ⟨n, rfl⟩ : ∃ k, n = k + 1 := ⟨n - 1, by omega⟩
    exact fun call => ⟨(h call).1, ih (by omega) (h call).2⟩

/-- Where the next `k` calls of the stores return, the call does, and it makes no more of them than these. -/
def Costs (k : Nat) (p : Action (Graph M) α) : Prop :=
  ∀ g n, Roomy (n + k) g → (p g).1 ≠ .panic ∧ Roomy n (p g).2

namespace Costs

variable {k l : Nat} {p : Action (Graph M) α} {f : α → Action (Graph M) β}

theorem mono (h : Costs k p) (hle : k ≤ l) : Costs l p := by
  intro g n hg
  obtain ⟨hret, hroom⟩ := h g (n + (l - k)) (hg.mono (by omega))
  exact ⟨hret, hroom.mono (by omega)⟩

theorem pure (a : α) : Costs 0 (Pure.pure a : Action (Graph M) α) := fun _ _ h => ⟨by rintro ⟨⟩, h⟩

theorem throw (e : GraphError) : Costs 0 (Action.throw e : Action (Graph M) α) := fun _ _ h => ⟨by rintro ⟨⟩, h⟩

theorem ofExcept (r : Except GraphError α) : Costs 0 (Action.ofExcept r : Action (Graph M) α) := by
  intro g n h
  cases r with
  | ok a => exact ⟨by rintro ⟨⟩, h⟩
  | error e => exact ⟨by rintro ⟨⟩, h⟩

theorem bind (hp : Costs k p) (hf : ∀ a, Costs l (f a)) : Costs (k + l) (p >>= f) := by
  intro g n hg
  obtain ⟨hret, hroom⟩ := hp g (n + l) (hg.mono (by omega))
  rw [run_bind]
  cases hr : p g with
  | mk r g' =>
    rw [hr] at hret hroom
    cases r with
    | ok a => exact hf a g' n hroom
    | err e => exact ⟨by rintro ⟨⟩, hroom.mono (by omega)⟩
    | panic => exact absurd rfl hret

/-- One of the calls of the stores. -/
theorem call (c : StoreCall) : Costs 1 (c.run : Action (Graph M) Unit) := fun _ _ h => h c

/-- The same with its result. -/
theorem of_drop (h : Costs k (drop p)) : Costs k p := by
  intro g n hg
  obtain ⟨hret, hroom⟩ := h g n hg
  unfold drop at hret hroom
  rw [run_bind] at hret hroom
  cases hr : p g with
  | mk r g' =>
    rw [hr] at hret hroom
    cases r with
    | ok a => exact ⟨by rintro ⟨⟩, hroom⟩
    | err e => exact ⟨by rintro ⟨⟩, hroom⟩
    | panic => exact absurd rfl hret

theorem forEach {as : List α} {body : α → Action (Graph M) Unit} (h : ∀ a, Costs k (body a)) :
    Costs (as.length * k) (Action.forEach as body) := by
  induction as with
  | nil => exact (pure _).mono (Nat.zero_le _)
  | cons a as ih => exact ((h a).bind fun _ => ih).mono (by rw [List.length_cons, Nat.add_mul]; omega)

end Costs

/-- From a state of `P` where the next `k` calls of the stores return, the call succeeds and leaves one of `Q`. -/
def Runs (P : Graph M → Prop) (k : Nat) (p : Action (Graph M) α) (Q : α → Graph M → Prop) : Prop :=
  ∀ g n, P g → Roomy (n + k) g → ∃ a g', p g = (.ok a, g') ∧ Q a g' ∧ Roomy n g'

namespace Runs

variable {P P' : Graph M → Prop} {Q Q' : α → Graph M → Prop} {R : β → Graph M → Prop} {k l : Nat}
  {p : Action (Graph M) α} {f : α → Action (Graph M) β}

theorem of (h : Meets P p Q fun _ => False) (hc : Costs k p) : Runs P k p Q := by
  intro g n hg hroom
  obtain ⟨hret, hleft⟩ := hc g n hroom
  have hpost := h g hg
  cases hr : p g with
  | mk r g' =>
    rw [hr] at hret hleft hpost
    cases r with
    | ok a => exact ⟨a, g', rfl, hpost, hleft⟩
    | err e => exact hpost.elim
    | panic => exact absurd rfl hret

theorem mono (h : Runs P k p Q) (hP : ∀ g, P' g → P g) (hle : k ≤ l) (hQ : ∀ a g, Q a g → Q' a g) : Runs P' l p Q' := by
  intro g n hg hroom
  obtain ⟨a, g', hrun, hpost, hleft⟩ := h g (n + (l - k)) (hP g hg) (hroom.mono (by omega))
  exact ⟨a, g', hrun, hQ a g' hpost, hleft.mono (by omega)⟩

theorem pure {a : α} (h : ∀ g, P g → Q a g) : Runs P 0 (Pure.pure a) Q := fun g _ hg hroom => ⟨a, g, rfl, h g hg, hroom⟩

theorem bind (hp : Runs P k p Q) (hf : ∀ a, Runs (Q a) l (f a) R) : Runs P (k + l) (p >>= f) R := by
  intro g n hg hroom
  obtain ⟨a, g', hrun, hpost, hleft⟩ := hp g (n + l) hg (hroom.mono (by omega))
  rw [run_bind, hrun]
  exact hf a g' n hpost hleft

/-- A lookup in front of a call. -/
theorem found {a : α} (hp : Finds P p (.ok a)) (hf : Runs P k (f a) R) : Runs P k (p >>= f) R := by
  intro g n hg hroom
  rw [run_bind, hp g hg]
  exact hf g n hg hroom

theorem given {φ : Prop} (h : φ → Runs P k p Q) : Runs (fun g => φ ∧ P g) k p Q :=
  fun g n ⟨hφ, hg⟩ hroom => h hφ g n hg hroom

theorem «exists» {ι : Type} {P : ι → Graph M → Prop} (h : ∀ i, Runs (P i) k p Q) : Runs (fun g => ∃ i, P i g) k p Q :=
  fun g n ⟨i, hi⟩ hroom => h i g n hi hroom

end Runs

/-! ## What the writes cost -/

theorem costs_readNode (rid : RecordId) : Costs 0 (readNode rid : Action (Graph M) _) := by
  intro g n h
  show Outcome.ofExcept (g.topo.nodes.read rid) ≠ .panic ∧ Roomy n g
  exact ⟨by cases g.topo.nodes.read rid <;> rintro ⟨⟩, h⟩

theorem costs_readEdge (rid : RecordId) : Costs 0 (readEdge rid : Action (Graph M) _) := by
  intro g n h
  show Outcome.ofExcept (g.topo.edges.read rid) ≠ .panic ∧ Roomy n g
  exact ⟨by cases g.topo.edges.read rid <;> rintro ⟨⟩, h⟩

theorem costs_allocNode (typeId : UInt16) : Costs 2 (allocNode typeId : Action (Graph M) _) :=
  (Costs.of_drop (Costs.call .nodeSlot)).bind fun rid => (Costs.call (.node (.new rid typeId))).bind fun _ => Costs.pure _

theorem costs_allocEdge (typeId : UInt16) (fromNode toNode : RecordId) :
    Costs 2 (allocEdge typeId fromNode toNode : Action (Graph M) _) :=
  (Costs.of_drop (Costs.call .edgeSlot)).bind fun eid =>
    (Costs.call (.edge (.new eid typeId fromNode toNode))).bind fun _ => Costs.pure _

theorem costs_setNodeProps (rid : RecordId) (ref : Option RecordId) :
    Costs 1 (setNodeProps rid ref : Action (Graph M) _) := by
  cases ref with
  | none => exact (Costs.pure _).mono (Nat.zero_le _)
  | some v => exact (costs_readNode rid).bind fun node => Costs.call (.node { node with propertyRef := some v })

theorem costs_setEdgeProps (eid : RecordId) (ref : Option RecordId) :
    Costs 1 (setEdgeProps eid ref : Action (Graph M) _) := by
  cases ref with
  | none => exact (Costs.pure _).mono (Nat.zero_le _)
  | some v => exact (costs_readEdge eid).bind fun edge => Costs.call (.edge { edge with propertyRef := some v })

theorem onTopo_bind (p : Action Topo α) (f : α → Action Topo β) : (onTopo (p >>= f) : Action (Graph M) β) = (do
    let a ← onTopo p
    onTopo (f a)) := by
  funext g
  show (let (r, t) := andThen (p g.topo) f; (r, { g with topo := t })) =
    andThen (let (r, t) := p g.topo; (r, { g with topo := t })) fun a => onTopo (f a)
  obtain ⟨r | e | _, t⟩ := p g.topo <;> rfl

theorem costs_appendEdge (dir : EdgeDirection) (n eid : RecordId) :
    Costs 2 (onTopo (Topo.appendEdge dir n eid) : Action (Graph M) _) := by
  unfold Topo.appendEdge
  simp only [onTopo_bind]
  exact (costs_readNode n).bind fun node => (costs_readEdge eid).bind fun edge =>
    (Costs.call (.edge (edge.setNext dir (node.first dir)))).bind fun _ =>
      Costs.call (.node (node.setFirst dir (some eid)))

variable {F : Type} [F64 F] [F64Text F] (C : Codecs F)

theorem costs_writeProps (props : Props F) : Costs 1 (writeProps C props : Action (Graph M) _) := by
  unfold writeProps
  split
  · exact (Costs.pure _).mono (Nat.zero_le _)
  · exact (Costs.ofExcept _).bind fun bytes => (Costs.of_drop (Costs.call (.value bytes))).bind fun rid => Costs.pure _

theorem costs_addEntryAt (typeId : UInt16) (rid : RecordId) (props : Props F) (path : PropertyPath) :
    Costs 1 (maintainPath C typeId rid props .add path : Action (Graph M) _) := by
  unfold maintainPath
  split
  · exact (Costs.pure _).mono (Nat.zero_le _)
  · refine Costs.bind (k := 0) ?_ fun key => Costs.call (.entry key rid)
    exact (Costs.ofExcept _).bind fun bytes => Costs.pure _

end Room

/-! ## Inserts -/

variable {F : Type} [F64 F] [F64Text F] {M : Type} [FaithfulBacking M]

variable {C : Codecs F} {t : Topo} {b : Behind} {c : Contents F} {rid : RecordId}

/-- A call on what is shown, one state at a time. -/
theorem runs_shows {α : Type} {k : Nat} {p : Action (Graph M) α} {Q : α → Graph M → Prop}
    (h : ∀ t b, Depicts C t b c → Runs (Is t b) k p Q) : Runs (Shows C c) k p Q :=
  fun g n hg hroom => h _ _ hg g n ⟨rfl, rfl⟩ hroom

/-- The entries of a new node. -/
theorem runs_addEntries (h : Depicts C t b c) (hC : C.Faithful) (typeId : UInt16) (rid : RecordId) (props : Props F) :
    Runs (Is (M := M) t b) (c.indexedPaths typeId).length (maintainPropertyIndex C typeId rid props .add)
      fun _ => Is t { b with entries := indexed .add (c.keys C typeId props) rid b.entries } := by
  have hmeets := meets_maintainPropertyIndex (M := M) h hC typeId rid props .add
  have hpaths := finds_indexedPathsForType (M := M) h hC typeId
  have hloop : Costs (M := M) ((c.indexedPaths typeId).length * 1)
      (Action.forEach (c.indexedPaths typeId) fun p => maintainPath C typeId rid props .add p.1) :=
    Costs.forEach fun p => costs_addEntryAt C typeId rid props p.1
  rw [Nat.mul_one] at hloop
  intro g n hg hroom
  have hsame : maintainPropertyIndex C typeId rid props .add g =
      Action.forEach (c.indexedPaths typeId) (fun p => maintainPath C typeId rid props .add p.1) g := by
    show andThen (indexedPathsForType C typeId g) _ = _
    rw [hpaths g hg]
    rfl
  refine (Runs.of (P := (· = g)) (Q := fun _ => Is t { b with entries := indexed .add (c.keys C typeId props) rid b.entries })
    ?_ hloop g n rfl hroom).imp fun a => ?_
  · rintro g' rfl
    rw [← hsame]
    exact hmeets g' hg
  · rintro ⟨g', hrun, hpost, hleft⟩
    exact ⟨g', hsame.trans hrun, hpost, hleft⟩

theorem runs_writeProps (hC : C.Faithful) {props : Props F} (htaken : PropsTaken M C props) :
    Runs (Is (M := M) t b) 1 (writeProps C props)
      fun ref g => ∃ b', ValueWritten C.unpackProps ∅ b ref props b' ∧ Is t b' g :=
  .of ((meets_writeProps hC props).mono (fun _ hg => hg) (fun _ _ hg => hg.2) fun _ hg => hg.1 htaken) (costs_writeProps C props)

theorem runs_addLabel (typeId : UInt16) (rid : RecordId) :
    Runs (Is (M := M) t b) 1 (onPages (Backing.addLabel typeId rid))
      fun _ => Is t (b.setLabelled typeId (rid ::ₘ b.labelled typeId)) :=
  .of (meets_addLabel typeId rid) (.call (.label typeId rid))

/-- **`insert_node`** of properties that clash with none. -/
theorem runs_insertNode (hC : C.Faithful) (hlive : c.EntriesLive) {typeId : UInt16} {props : Props F}
    (htaken : PropsTaken M C props) (hadmits : c.Admits C typeId props none) :
    Runs (Shows (M := M) C c) ((c.indexedPaths typeId).length + 5) (insertNode C typeId props)
      (fun rid g => c.nodes rid = none ∧ Shows C (c.insertNode C rid typeId props) g) := by
  refine runs_shows fun t b h => Runs.mono (P := Is t b) (k := 1 + (2 + (1 + (1 + ((c.indexedPaths typeId).length + 0)))))
    ?_ (fun _ hg => hg) (by omega) fun _ _ hg => hg
  refine Runs.found (finds_checkUnique h hC hlive hadmits) ?_
  refine Runs.bind (runs_writeProps hC htaken) fun ref => Runs.exists fun b' => Runs.given fun hw => ?_
  have h' := hw.depicts h
  refine Runs.bind (.of (meets_allocNode h.linked h.named typeId) (costs_allocNode typeId)) fun rid =>
    Runs.exists fun t₁ => Runs.given ?_
  rintro ⟨hfresh, ha⟩
  have hlive : t₁.nodes.live rid = some (.new rid typeId) := by rw [ha.live, Function.update_self]
  refine Runs.bind (.of (meets_setNodeProps ha.linked ha.named hlive rfl ref) (costs_setNodeProps rid ref)) fun _ =>
    Runs.exists fun t₂ => Runs.given ?_
  rintro ⟨hlinked, hnamed, hnode, hedge⟩
  rw [ha.node, Function.update_idem] at hnode
  have hadded : Depicts C t₂ b' (c.setNode rid (some ⟨typeId, props, []⟩)) :=
    h'.addNode typeId hfresh hlinked hnamed hnode (hedge.trans ha.edge) hw.valueAt (hw.unowned h)
  refine Runs.bind (runs_addLabel typeId rid) fun _ => ?_
  have hlabelled := hadded.setLabelled (Function.update c.labelled typeId (rid ::ₘ c.labelled typeId))
  rw [show b'.setLabelled typeId (rid ::ₘ b'.labelled typeId) =
    { b' with labelled := Function.update c.labelled typeId (rid ::ₘ c.labelled typeId) } by
      rw [Behind.setLabelled, h'.labelled]]
  refine Runs.bind (runs_addEntries hlabelled hC typeId rid props) fun _ => Runs.pure fun g hg => ?_
  refine ⟨h.node.none_iff.1 hfresh, hg.shows ?_⟩
  rw [show b'.entries = c.entries from h'.entries]
  exact hlabelled.setEntries (indexed .add (c.keys C typeId props) rid c.entries)

variable {fromNode toNode : RecordId}

theorem runs_linkEdge (hC : C.Faithful) (hfrom : (c.nodes fromNode).isSome) (hto : (c.nodes toNode).isSome)
    (typeId : UInt16) {props : Props F} (htaken : PropsTaken M C props) :
    Runs (Shows (M := M) C c) 8 (linkEdge C typeId fromNode toNode props)
      (fun eid g => c.edges eid = none ∧ Shows C (c.setEdge eid (some ⟨typeId, fromNode, toNode, props, []⟩)) g) := by
  refine .of ((meets_linkEdge hC hfrom hto typeId props).mono (fun _ hg => hg) (fun _ _ hg => ⟨hg.1.1, hg.2⟩)
    fun _ hg => hg.1 htaken) ?_
  exact ((costs_writeProps C props).bind fun ref => (costs_allocEdge typeId fromNode toNode).bind fun eid =>
    (costs_setEdgeProps eid ref).bind fun _ => (costs_appendEdge .out fromNode eid).bind fun _ =>
      (costs_appendEdge .in toNode eid).bind fun _ => Costs.pure eid)

/-- **`insert_edge`** between live nodes. -/
theorem runs_insertEdge (hC : C.Faithful) (hfrom : (c.nodes fromNode).isSome) (hto : (c.nodes toNode).isSome)
    (typeId : UInt16) {props : Props F} (htaken : PropsTaken M C props) :
    Runs (Shows (M := M) C c) 8 (insertEdge C typeId fromNode toNode props)
      (fun eid g => c.edges eid = none ∧ Shows C (c.setEdge eid (some ⟨typeId, fromNode, toNode, props, []⟩)) g) := by
  refine runs_shows fun t b h => Runs.found (finds_nodeExists_row h fromNode) ?_
  rw [hfrom, if_pos rfl]
  refine Runs.found (finds_nodeExists_row h toNode) ?_
  rw [hto, if_pos rfl]
  exact (runs_linkEdge hC hfrom hto typeId htaken).mono (fun _ hg => hg.shows h) (Nat.le_refl _) fun _ _ hg => hg

/-! ## Inserts by name -/

variable {name : String} {typeId : UInt16} {props : Props F}

/-- **`insert_node_by_name`** of what the schema lets in. -/
theorem runs_insertNodeByName (hC : C.Faithful) (hlive : c.EntriesLive) (ha : c.AdmitsNode M C name typeId props) :
    Runs (Shows (M := M) C c) ((c.indexedPaths typeId).length + 5) (insertNodeByName C name props)
      (fun rid g => c.nodes rid = none ∧ Shows C (c.insertNode C rid typeId props) g) := by
  obtain ⟨⟨dto, node, hs, hdef, hvalid, hid⟩, htaken, hunique⟩ := ha
  refine runs_shows fun t b h => Runs.found (finds_schema h hC hs) ?_
  rw [hdef]
  refine Runs.found (a := ()) ?_ ?_
  · rw [hvalid]
    exact Finds.ofExcept _
  have hfind := finds_nodeTypeIdOf (M := M) h hC hs name
  rw [hid] at hfind
  exact Runs.found hfind ((runs_insertNode hC hlive htaken hunique).mono (fun _ hg => hg.shows h) (Nat.le_refl _)
    fun _ _ hg => hg)

theorem finds_endpointFits (h : Depicts C t b c) {dto : SchemaDto} {required : Option String}
    (hfits : c.EndpointFits dto required rid) (name side : String) : ∃ node, Finds (Is (M := M) t b) (readNode rid) (.ok node) ∧
      Finds (Is (M := M) t b) (checkEndpoint dto.registry name side required node) (.ok ()) := by
  obtain ⟨row, hrow, hfits⟩ := hfits
  obtain ⟨node, hr, hstored⟩ := exists_node h hrow
  refine ⟨node, finds_readNode hr, ?_⟩
  rcases finds_checkEndpoint (M := M) (t := t) (b := b) dto name side required hstored.typeId with ⟨-, hfind⟩ | ⟨hno, -⟩
  · exact hfind
  · exact absurd hfits hno

/-- A row is there. -/
theorem isSome_of_fits {dto : SchemaDto} {required : Option String} (h : c.EndpointFits dto required rid) :
    (c.nodes rid).isSome := by
  obtain ⟨row, hrow, -⟩ := h
  rw [hrow]
  rfl

/-- **`insert_edge_by_name`** of what the schema lets in. -/
theorem runs_insertEdgeByName (hC : C.Faithful) (ha : c.AdmitsEdge M C name typeId fromNode toNode props) :
    Runs (Shows (M := M) C c) 8 (insertEdgeByName C name fromNode toNode props)
      (fun eid g => c.edges eid = none ∧ Shows C (c.setEdge eid (some ⟨typeId, fromNode, toNode, props, []⟩)) g) := by
  obtain ⟨⟨dto, edge, hs, hdef, hvalid, hid, hfrom, hto⟩, htaken⟩ := ha
  have hfromSome := isSome_of_fits hfrom
  have htoSome := isSome_of_fits hto
  refine runs_shows fun t b h => Runs.found (finds_nodeExists_row h fromNode) ?_
  rw [hfromSome, if_pos rfl]
  refine Runs.found (finds_nodeExists_row h toNode) ?_
  rw [htoSome, if_pos rfl]
  obtain ⟨fromRecord, hreadFrom, hcheckFrom⟩ := finds_endpointFits (M := M) h hfrom name "from"
  obtain ⟨toRecord, hreadTo, hcheckTo⟩ := finds_endpointFits (M := M) h hto name "to"
  refine Runs.found hreadFrom (Runs.found hreadTo (Runs.found (finds_schema h hC hs) ?_))
  rw [hdef]
  refine Runs.found (a := ()) ?_ (Runs.found (finds_registry h hC hs) ?_)
  · rw [hvalid]
    exact Finds.ofExcept _
  rw [hid]
  exact Runs.found hcheckFrom (Runs.found hcheckTo ((runs_insertEdge hC hfromSome htoSome typeId htaken).mono
    (fun _ hg => hg.shows h) (Nat.le_refl _) fun _ _ hg => hg))

end Graph

end ChiffonDB

import ChiffonDB.Graph.Contents
import ChiffonDB.Graph.Rewrites

/-!
# Calls on a known state

What the calls that the operations are made of do to given records and to given parts behind them.

* `Graph.Is` — the state; `NodeWritten`, `EdgeWritten`, `ValueWritten` — what is written.
* `Graph.meets_writeNode`, `Graph.meets_allocNode`, `Graph.meets_writeProps` — **the writes**.
* `Graph.finds_readProps`, `Graph.finds_loadSchemaDto` — the lookups.
-/

set_option autoImplicit false

set_option linter.unusedSectionVars false

namespace ChiffonDB

open Action PropertyIndex

variable {F : Type} [F64 F] [F64Text F] {M : Type} [FaithfulBacking M]

/-! ## Records -/

namespace Topo

variable {t t' : Topo} {rid : RecordId}

/-- A node record has been written over a live one. -/
structure NodeWritten (t t' : Topo) (rid : RecordId) (r : NodeRecord) : Prop where
  linked : t'.Linked
  named : t'.Named
  live : t'.nodes.live = Function.update t.nodes.live rid (some r)
  edges : t'.edges = t.edges

structure EdgeWritten (t t' : Topo) (rid : RecordId) (r : EdgeRecord) : Prop where
  linked : t'.Linked
  named : t'.Named
  live : t'.edges.live = Function.update t.edges.live rid (some r)
  nodes : t'.nodes = t.nodes

theorem NodeWritten.node {r : NodeRecord} (h : NodeWritten t t' rid r) :
    t'.node = Function.update t.node rid (some r.body) := node_update h.live

theorem NodeWritten.edge {r : NodeRecord} (h : NodeWritten t t' rid r) : t'.edge = t.edge := by
  unfold Topo.edge
  rw [h.edges]

theorem EdgeWritten.edge {r : EdgeRecord} (h : EdgeWritten t t' rid r) :
    t'.edge = Function.update t.edge rid (some r.body) := edge_update h.live

theorem EdgeWritten.node {r : EdgeRecord} (h : EdgeWritten t t' rid r) : t'.node = t.node := by
  unfold Topo.node
  rw [h.nodes]

/-- What a call that keeps the records in their slots leaves behind. -/
theorem named_of_run {α : Type} {p : Action Topo α} {a : α} (hp : Keeps Named p) (h : t.Named) (hr : p t = (.ok a, t')) :
    t'.Named := by
  have hk := hp t h
  rw [hr] at hk
  exact hk

theorem Linked.writeNode (h : t.Linked) (hn : t.Named) {r r' : NodeRecord} (hr : t.nodes.live rid = some r)
    (hid : r'.id = r.id) (hfirst : ∀ dir, r'.first dir = r.first dir) :
    ∃ t', Topo.writeNode r' t = (.ok (), t') ∧ NodeWritten t t' rid r' := by
  obtain ⟨t', hrun, he, hlive⟩ := run_writeNode r' (hid.trans (h.nodeId hr)) hr
  exact ⟨t', hrun, h.setNode hr hid hfirst he hlive, named_of_run (keeps_writeNode r') hn hrun, hlive, he⟩

theorem Linked.writeEdge (h : t.Linked) (hn : t.Named) {r r' : EdgeRecord} (hr : t.edges.live rid = some r)
    (hends : r'.ends = r.ends) (hnext : ∀ dir, r'.next dir = r.next dir) :
    ∃ t', Topo.writeEdge r' t = (.ok (), t') ∧ EdgeWritten t t' rid r' := by
  obtain ⟨t', hrun, hnodes, hlive⟩ := run_writeEdge r' ((congrArg Prod.fst hends).trans (h.edgeId hr)) hr
  exact ⟨t', hrun, h.setEdge hr hends hnext hnodes hlive, named_of_run (keeps_writeEdge r') hn hrun, hlive, hnodes⟩

end Topo

/-! ## Values -/

/-- A value has been written, if there was one to write. -/
inductive ValueWritten {α : Type} (decode : List UInt8 → Except GraphError α) (absent : α) (b : Behind) :
    Option RecordId → α → Behind → Prop
  | absent : ValueWritten decode absent b none absent b
  | fresh {v : RecordId} {bytes : List UInt8} {a : α} (hv : b.values v = none) (hd : decode bytes = .ok a) :
      ValueWritten decode absent b (some v) a (b.setValue v (some bytes))

/-- A value that may not be there has been freed. -/
def Behind.release (b : Behind) : Option RecordId → Behind
  | none => b
  | some v => b.setValue v none

section ValueWritten

variable {C : Codecs F} {t : Topo} {b b' : Behind} {c : Contents F} {α : Type}
  {decode : List UInt8 → Except GraphError α} {absent a : α} {ref : Option RecordId}

theorem ValueWritten.valueAt (h : ValueWritten decode absent b ref a b') : ValueAt decode absent b'.values ref a := by
  cases h with
  | absent => rfl
  | fresh hv hd => exact ⟨_, Function.update_self .., hd⟩

/-- What is written is nobody's yet. -/
theorem ValueWritten.depicts (h : ValueWritten decode absent b ref a b') (hd : Depicts C t b c) : Depicts C t b' c := by
  cases h with
  | absent => exact hd
  | fresh hv => exact hd.setValue (hd.unowned_of_none hv) _

theorem ValueWritten.unowned (h : ValueWritten decode absent b ref a b') (hd : Depicts C t b c) :
    ∀ v, ref = some v → Unowned t.ref v := by
  rintro v rfl
  cases h with
  | fresh hv => exact hd.unowned_of_none hv

/-- Old values are still there. -/
theorem ValueWritten.isSome (h : ValueWritten decode absent b ref a b') {v : RecordId} (hv : (b.values v).isSome) :
    (b'.values v).isSome := by
  cases h with
  | absent => exact hv
  | fresh hfresh =>
    show (Function.update b.values _ _ v).isSome
    rw [Function.update_of_ne, hv]
    rintro rfl
    rw [hfresh] at hv
    cases hv

theorem Depicts.release (h : Depicts C t b c) (href : ∀ v, ref = some v → Unowned t.ref v) :
    Depicts C t (b.release ref) c := by
  cases ref with
  | none => exact h
  | some v => exact h.setValue (href v rfl) none

end ValueWritten

/-! ## The property index -/

/-- The entries of a record are added, or removed. -/
def indexed : IndexOp → List IndexKey → RecordId → Set (IndexKey × RecordId) → Set (IndexKey × RecordId)
  | .add, keys, rid, e => { x | x ∈ e ∨ x.1 ∈ keys ∧ x.2 = rid }
  | .remove, keys, rid, e => { x | x ∈ e ∧ ¬ (x.1 ∈ keys ∧ x.2 = rid) }

theorem indexed_nil (op : IndexOp) (rid : RecordId) (e : Set (IndexKey × RecordId)) : indexed op [] rid e = e := by
  cases op <;> simp [indexed]

theorem indexed_cons (op : IndexOp) (key : IndexKey) (keys : List IndexKey) (rid : RecordId)
    (e : Set (IndexKey × RecordId)) : indexed op (key :: keys) rid e = indexed op keys rid (indexed op [key] rid e) := by
  cases op <;> ext x <;> simp only [indexed, Set.mem_ofPred_eq, List.mem_cons, List.not_mem_nil, or_false] <;> tauto

theorem indexed_single (op : IndexOp) (key : IndexKey) (rid : RecordId) (e : Set (IndexKey × RecordId)) :
    indexed op [key] rid e = match op with
      | .add => insert (key, rid) e
      | .remove => e \ {(key, rid)} := by
  cases op with
  | add =>
    ext ⟨k, x⟩
    simp only [indexed, List.mem_singleton, Set.mem_ofPred_eq, Set.mem_insert_iff, Prod.mk.injEq]
    tauto
  | remove =>
    ext ⟨k, x⟩
    simp [indexed]

/-! ## What the schema says -/

def SchemaDto.registry (dto : SchemaDto) : SchemaRegistry := ⟨dto.nodeTypeIds, dto.edgeTypeIds⟩

namespace Contents

variable (c : Contents F)

/-- `load_schema_dto`. -/
def loaded : Except GraphError SchemaDto :=
  match c.schema with
  | some dto => .ok dto
  | none => .error (.schemaError "no schema stored")

/-- The fields that the schema declares for a type id, with the name of the type. -/
def fieldsOf (kind : RecordKind) (typeId : UInt16) : Option (String × List FieldDef) :=
  c.schema.bind fun dto => Graph.fieldsOf kind (dtoToAst dto) dto.registry typeId

/-- `indexed_paths_for_type`. -/
def indexedPaths (typeId : UInt16) : List (PropertyPath × Bool) :=
  match c.fieldsOf .node typeId with
  | some (_, fields) => Graph.indexedFields fields
  | none => []

/-- The check of an update. -/
def validate (kind : RecordKind) (typeId : UInt16) (props : Props F) : Except GraphError Unit :=
  match c.fieldsOf kind typeId with
  | some (name, fields) => validateProperties name fields props
  | none => .ok ()

/-- `declared_fields`, at one type id. -/
def declared (kind : RecordKind) (typeId : UInt16) : Option (List String) :=
  c.schema.bind fun dto => AssocList.lastOf (match kind with
    | .node => (dtoToAst dto).nodes.filterMap fun n => (dto.registry.nodeTypeId n.name).map fun id =>
        (id, n.fields.map FieldDef.name)
    | .edge => (dtoToAst dto).edges.filterMap fun e => (dto.registry.edgeTypeId e.name).map fun id =>
        (id, e.props.map FieldDef.name)) typeId

/-- The properties that are shown. -/
def visible (kind : RecordKind) (typeId : UInt16) (props : Props F) : Props F :=
  Graph.retainDeclared (c.declared kind typeId) props

end Contents

/-- The key of a value that is indexed. -/
def keyOf (C : Codecs F) (typeId : UInt16) (path : String) (value : Value F) : Option IndexKey :=
  ((encodeValue C value).toOption).map (.new typeId (utf8 path))

/-- The key of the value at a path, if it is indexed at all. -/
def pathKey (C : Codecs F) (typeId : UInt16) (props : Props F) (path : PropertyPath) : Option IndexKey :=
  (Graph.indexable path props).bind (keyOf C typeId path.displayName)

/-- The keys of a record. -/
def Contents.keys (C : Codecs F) (c : Contents F) (typeId : UInt16) (props : Props F) : List IndexKey :=
  (c.indexedPaths typeId).filterMap fun p => pathKey C typeId props p.1

/-- Only arrays and objects need a serializer. -/
theorem encodeValue_of_indexable (C : Codecs F) {value : Value F} (h : isIndexableValue value) :
    ∃ bytes, encodeValue C value = .ok bytes := by
  cases value with
  | bool b => exact ⟨_, rfl⟩
  | number n => exact ⟨_, rfl⟩
  | string s => exact ⟨_, rfl⟩
  | null => cases h
  | array items => cases h
  | object fields => cases h

theorem isIndexable_of_indexable {path : PropertyPath} {props : Props F} {value : Value F}
    (h : Graph.indexable path props = some value) : isIndexableValue value = true := (Option.filter_eq_some_iff.1 h).2

namespace Graph

variable {C : Codecs F} {t t' : Topo} {b b' : Behind} {c : Contents F} {rid : RecordId}

/-- The state of both parts. -/
def Is (t : Topo) (b : Behind) (g : Graph M) : Prop := g.topo = t ∧ FaithfulBacking.behind g.pages = b

/-! ## Records -/

theorem finds_onTopo {α : Type} {f : Topo → Outcome α} {r : Except GraphError α} (h : f t = .ofExcept r) :
    Finds (Is (M := M) t b) (onTopo (.reads f)) r := by
  rintro g ⟨rfl, -⟩
  unfold onTopo Action.zoom
  rw [run_reads, h]

theorem finds_read (rid : RecordId) : Finds (Is (M := M) t b) (readNode rid) (t.nodes.read rid) := finds_onTopo rfl

theorem finds_readNode {r : NodeRecord} (hr : t.nodes.live rid = some r) : Finds (Is (M := M) t b) (readNode rid) (.ok r) :=
  finds_onTopo (congrArg _ (RecordTable.read_of_live hr))

theorem finds_readEdge {r : EdgeRecord} (hr : t.edges.live rid = some r) : Finds (Is (M := M) t b) (readEdge rid) (.ok r) :=
  finds_onTopo (congrArg _ (RecordTable.read_of_live hr))

theorem finds_nodeExists (rid : RecordId) : Finds (Is (M := M) t b) (nodeExists rid) (.ok (t.nodes.used rid)) := by
  rintro g ⟨rfl, -⟩
  rfl

theorem finds_edgeExists (rid : RecordId) : Finds (Is (M := M) t b) (edgeExists rid) (.ok (t.edges.used rid)) := by
  rintro g ⟨rfl, -⟩
  rfl

theorem meets_onTopo {α : Type} {p : Action Topo α} {a : α} (h : p t = (.ok a, t')) :
    Meets (Is (M := M) t b) (onTopo p) (fun a' g => a' = a ∧ Is t' b g) fun _ => False := by
  rintro g ⟨rfl, hb⟩
  unfold onTopo Action.zoom
  rw [h]
  exact ⟨rfl, rfl, hb⟩

theorem meets_writeNode {r r' : NodeRecord} (h : t.Linked) (hn : t.Named) (hr : t.nodes.live rid = some r)
    (hid : r'.id = r.id) (hfirst : ∀ dir, r'.first dir = r.first dir) :
    Meets (Is (M := M) t b) (writeNode r') (fun _ g => ∃ t', t.NodeWritten t' rid r' ∧ Is t' b g) fun _ => False := by
  obtain ⟨t', hrun, hw⟩ := h.writeNode hn hr hid hfirst
  exact (meets_onTopo hrun).mono (fun _ hg => hg) (fun _ _ hg => ⟨t', hw, hg.2⟩) fun _ hg => hg

theorem meets_writeEdge {r r' : EdgeRecord} (h : t.Linked) (hn : t.Named) (hr : t.edges.live rid = some r)
    (hends : r'.ends = r.ends) (hnext : ∀ dir, r'.next dir = r.next dir) :
    Meets (Is (M := M) t b) (writeEdge r') (fun _ g => ∃ t', t.EdgeWritten t' rid r' ∧ Is t' b g) fun _ => False := by
  obtain ⟨t', hrun, hw⟩ := h.writeEdge hn hr hends hnext
  exact (meets_onTopo hrun).mono (fun _ hg => hg) (fun _ _ hg => ⟨t', hw, hg.2⟩) fun _ hg => hg

/-- A live node gets other properties. -/
theorem meets_writeNodeProps {r : NodeRecord} (h : t.Linked) (hn : t.Named) (hr : t.nodes.live rid = some r)
    (ref : Option RecordId) :
    Meets (Is (M := M) t b) (writeNode { r with propertyRef := ref })
      (fun _ g => ∃ t', t.NodeWritten t' rid { r with propertyRef := ref } ∧ Is t' b g) fun _ => False :=
  meets_writeNode h hn hr rfl fun dir => by cases dir <;> rfl

theorem meets_writeNodeLabels {r : NodeRecord} (h : t.Linked) (hn : t.Named) (hr : t.nodes.live rid = some r)
    (ref : Option RecordId) :
    Meets (Is (M := M) t b) (writeNode { r with labelRef := ref })
      (fun _ g => ∃ t', t.NodeWritten t' rid { r with labelRef := ref } ∧ Is t' b g) fun _ => False :=
  meets_writeNode h hn hr rfl fun dir => by cases dir <;> rfl

theorem meets_writeEdgeProps {r : EdgeRecord} (h : t.Linked) (hn : t.Named) (hr : t.edges.live rid = some r)
    (ref : Option RecordId) :
    Meets (Is (M := M) t b) (writeEdge { r with propertyRef := ref })
      (fun _ g => ∃ t', t.EdgeWritten t' rid { r with propertyRef := ref } ∧ Is t' b g) fun _ => False :=
  meets_writeEdge h hn hr rfl fun dir => by cases dir <;> rfl

theorem meets_writeEdgeLabels {r : EdgeRecord} (h : t.Linked) (hn : t.Named) (hr : t.edges.live rid = some r)
    (ref : Option RecordId) :
    Meets (Is (M := M) t b) (writeEdge { r with labelRef := ref })
      (fun _ g => ∃ t', t.EdgeWritten t' rid { r with labelRef := ref } ∧ Is t' b g) fun _ => False :=
  meets_writeEdge h hn hr rfl fun dir => by cases dir <;> rfl

/-! ## Allocations -/

/-- An allocation leaves what is behind the records alone. -/
theorem meets_allocSlot_behind {R : Type} (kind : TopologyKind) (table : Topo → RecordTable R)
    (put : Topo → RecordTable R → Topo) (blank : R) :
    Meets (fun g : Graph M => FaithfulBacking.behind g.pages = b) (allocSlot kind table put blank)
      (fun _ g => FaithfulBacking.behind g.pages = b) fun _ => False := by
  intro g hg
  cases hf : (table g.topo).findFree with
  | some found =>
    rw [run_allocSlot_some hf]
    exact hg
  | none =>
    rw [run_allocSlot_none hf]
    refine Meets.bind (Meets.zoom (FaithfulBacking.allocates kind firstSlotPage b) (fun _ h => h)
      (Q := fun _ g => FaithfulBacking.behind g.pages = b) (fun _ _ _ _ h => h) fun _ _ _ h => h) (fun _ => ?_) g hg
    split
    · exact fun g' hg' => hg'
    · exact Meets.panic

/-- **`alloc_node`.** -/
theorem meets_allocNode (h : t.Linked) (hn : t.Named) (typeId : UInt16) :
    Meets (Is (M := M) t b) (allocNode typeId)
      (fun rid g => ∃ t', (t.node rid = none ∧ t.NodeWritten t' rid (.new rid typeId)) ∧ Is t' b g) fun _ => False := by
  have halloc := (meets_allocSlot (M := M) .node Topo.nodes (fun t x => { t with nodes := x }) t
    (fun _ _ => rfl) (fun _ h => h.nodes) fun t x h hx => ⟨hx, h.edges⟩).both
    (meets_allocSlot_behind .node Topo.nodes (fun t x => { t with nodes := x }) NodeRecord.blank (b := b))
  refine Meets.bind (halloc.mono (fun g hg => ⟨⟨hg.1, hg.1 ▸ hn⟩, hg.2⟩) (fun _ _ hg => hg) fun _ hg => hg.2) fun rid => ?_
  rintro g ⟨⟨⟨⟨hfresh, old, hlive⟩, heq⟩, hnamed⟩, hb⟩
  obtain ⟨t', hrun, he, hl⟩ := Topo.run_writeNode (t := g.topo) (.new rid typeId) rfl
    (by rw [hlive]; exact Function.update_self ..)
  rw [hlive] at hl
  have hl' : t'.nodes.live = Function.update t.nodes.live rid (some (.new rid typeId)) := hl.trans (Function.update_idem ..)
  have hedges : t'.edges = t.edges := by rw [he, heq]
  have hlinked : t'.Linked := Topo.LinkedBut.addNode h hfresh rfl (fun dir => by cases dir <;> rfl) hedges hl'
  have hdead : t.node rid = none := by
    unfold Topo.node
    rw [hfresh]
    rfl
  refine Meets.bind (meets_onTopo hrun) (fun _ => Meets.pure fun g' hg' => ?_) g ⟨rfl, hb⟩
  exact ⟨t', ⟨hdead, hlinked, Topo.named_of_run (Topo.keeps_writeNode _) hnamed hrun, hl', hedges⟩, hg'.2⟩

/-- A new edge, which is on no list yet. -/
structure EdgeAdded (t t' : Topo) (eid : RecordId) (r : EdgeRecord) : Prop where
  linked : t'.LinkedBut fun _ => some eid
  named : t'.Named
  live : t'.edges.live = Function.update t.edges.live eid (some r)
  nodes : t'.nodes = t.nodes

/-- **`alloc_edge`.** -/
theorem meets_allocEdge (h : t.Linked) (hn : t.Named) (typeId : UInt16) {fromNode toNode : RecordId}
    (hfrom : t.LiveNode fromNode) (hto : t.LiveNode toNode) :
    Meets (Is (M := M) t b) (allocEdge typeId fromNode toNode)
      (fun eid g => ∃ t', (t.edge eid = none ∧ EdgeAdded t t' eid (.new eid typeId fromNode toNode)) ∧ Is t' b g)
      fun _ => False := by
  have halloc := (meets_allocSlot (M := M) .edge Topo.edges (fun t x => { t with edges := x }) t
    (fun _ _ => rfl) (fun _ h => h.edges) fun t x h hx => ⟨h.nodes, hx⟩).both
    (meets_allocSlot_behind .edge Topo.edges (fun t x => { t with edges := x }) EdgeRecord.blank (b := b))
  refine Meets.bind (halloc.mono (fun g hg => ⟨⟨hg.1, hg.1 ▸ hn⟩, hg.2⟩) (fun _ _ hg => hg) fun _ hg => hg.2) fun eid => ?_
  rintro g ⟨⟨⟨⟨hfresh, old, hlive⟩, heq⟩, hnamed⟩, hb⟩
  obtain ⟨t', hrun, hnodes, hl⟩ := Topo.run_writeEdge (t := g.topo) (.new eid typeId fromNode toNode) rfl
    (by rw [hlive]; exact Function.update_self ..)
  rw [hlive] at hl
  have hl' : t'.edges.live = Function.update t.edges.live eid (some (.new eid typeId fromNode toNode)) :=
    hl.trans (Function.update_idem ..)
  have hnodes' : t'.nodes = t.nodes := by rw [hnodes, heq]
  have hlinked : t'.LinkedBut fun _ => some eid :=
    h.addEdge hfresh rfl (fun dir => by cases dir; exacts [hfrom, hto]) hnodes' hl'
  have hdead : t.edge eid = none := by
    unfold Topo.edge
    rw [hfresh]
    rfl
  refine Meets.bind (meets_onTopo hrun) (fun _ => Meets.pure fun g' hg' => ?_) g ⟨rfl, hb⟩
  exact ⟨t', ⟨hdead, hlinked, Topo.named_of_run (Topo.keeps_writeEdge _) hnamed hrun, hl', hnodes'⟩, hg'.2⟩

/-! ## Behind the records -/

theorem meets_addLabel (typeId : UInt16) (rid : RecordId) :
    Meets (Is (M := M) t b) (onPages (Backing.addLabel typeId rid))
      (fun _ => Is t (b.setLabelled typeId (rid ::ₘ b.labelled typeId))) fun _ => False :=
  Meets.zoom (FaithfulBacking.addsLabel typeId rid b) (fun _ hg => hg.2) (fun _ _ _ hg hm => ⟨hg.1, hm⟩) fun _ _ _ hm => hm

theorem meets_removeLabel (typeId : UInt16) (rid : RecordId) :
    Meets (Is (M := M) t b) (onPages (Backing.removeLabel typeId rid))
      (fun _ => Is t (b.setLabelled typeId ((b.labelled typeId).erase rid))) fun _ => False :=
  Meets.zoom (FaithfulBacking.removesLabel typeId rid b) (fun _ hg => hg.2) (fun _ _ _ hg hm => ⟨hg.1, hm⟩) fun _ _ _ hm => hm

theorem meets_writeSchemaDto (C : Codecs F) (dto : SchemaDto) :
    Meets (Is (M := M) t b) (writeSchemaDto C dto) (fun _ => Is t { b with schema := some (C.schema.toVec dto) })
      fun _ => False :=
  Meets.zoom (FaithfulBacking.writesSchema _ b) (fun _ hg => hg.2) (fun _ _ _ hg hm => ⟨hg.1, hm⟩) fun _ _ _ hm => hm

theorem meets_freeRef {ref : Option RecordId} (h : ∀ v, ref = some v → (b.values v).isSome) :
    Meets (Is (M := M) t b) (freeRef ref) (fun _ => Is t (b.release ref)) fun _ => False := by
  cases ref with
  | none => exact Meets.pure fun _ hg => hg
  | some v =>
    exact Meets.zoom (FaithfulBacking.frees (h v rfl)) (fun _ hg => hg.2) (fun _ _ _ hg hm => ⟨hg.1, hm⟩) fun _ _ _ hm => hm

/-- The bytes of a value are taken by the property store. -/
def Storable (M : Type) [FaithfulBacking M] : Except GraphError (List UInt8) → Prop
  | .ok bytes => FaithfulBacking.takes M bytes = true
  | .error _ => False

/-- The bytes of a value go into the property store. -/
theorem meets_writeValue {α : Type} {decode : List UInt8 → Except GraphError α} {absent a : α}
    {packed : Except GraphError (List UInt8)} (hd : ∀ bytes, packed = .ok bytes → decode bytes = .ok a) :
    Meets (Is (M := M) t b) (do
        let bytes ← Action.ofExcept packed
        let rid ← writeRaw bytes
        pure (some rid))
      (fun ref g => Storable M packed ∧ ∃ b', ValueWritten decode absent b ref a b' ∧ Is t b' g)
      fun g => ¬ Storable M packed ∧ Is t b g := by
  cases packed with
  | error e => exact Meets.refused (Finds.ofExcept _) fun g hg => ⟨id, hg⟩
  | ok bytes =>
    refine Meets.found (Finds.ofExcept _) (Meets.bind (Q := fun rid g => FaithfulBacking.takes M bytes = true ∧
      ∃ b', ValueWritten decode absent b (some rid) a b' ∧ Is t b' g) ?_ fun rid => Meets.pure fun _ hg => hg)
    refine Meets.zoom (FaithfulBacking.writes bytes b) (fun _ hg => hg.2) (fun g m rid hg hm => ?_) fun g m hg hm => ?_
    · exact ⟨hm.1, _, .fresh hm.2.1 (hd bytes rfl), hg.1, hm.2.2⟩
    · refine ⟨?_, hg.1, hm.2⟩
      show ¬ FaithfulBacking.takes M bytes = true
      rw [hm.1]
      simp

/-- The property store takes the properties. -/
def PropsTaken (M : Type) [FaithfulBacking M] (C : Codecs F) (props : Props F) : Prop :=
  props.isEmpty ∨ Storable M (C.packProps props)

/-- The property store takes the label list. -/
def LabelsTaken (M : Type) [FaithfulBacking M] (C : Codecs F) (labels : List UInt16) : Prop :=
  labels.isEmpty ∨ Storable M (C.packLabels labels)

/-- **`PropertyStore::write` of properties.** -/
theorem meets_writeProps (hC : C.Faithful) (props : Props F) :
    Meets (Is (M := M) t b) (writeProps C props)
      (fun ref g => PropsTaken M C props ∧ ∃ b', ValueWritten C.unpackProps ∅ b ref props b' ∧ Is t b' g)
      fun g => ¬ PropsTaken M C props ∧ Is t b g := by
  unfold writeProps PropsTaken
  split
  · rename_i hempty
    have he : props = ∅ := Std.ExtTreeMap.isEmpty_iff.1 hempty
    exact Meets.pure fun g hg => ⟨.inl hempty, b, he ▸ .absent, hg⟩
  · rename_i hne
    refine (meets_writeValue fun bytes hb => hC.props hb).mono (fun _ hg => hg) (fun ref g hg => ⟨.inr hg.1, hg.2⟩) ?_
    exact fun g hg => ⟨fun h => h.elim hne hg.1, hg.2⟩

/-- **`PropertyStore::write` of a label list.** -/
theorem meets_writeLabels (hC : C.Faithful) (labels : List UInt16) :
    Meets (Is (M := M) t b) (writeLabels C labels)
      (fun ref g => LabelsTaken M C labels ∧ ∃ b', ValueWritten C.unpackLabels [] b ref labels b' ∧ Is t b' g)
      fun g => ¬ LabelsTaken M C labels ∧ Is t b g := by
  unfold writeLabels LabelsTaken
  split
  · rename_i hempty
    obtain rfl : labels = [] := List.isEmpty_iff.1 hempty
    exact Meets.pure fun g hg => ⟨.inl hempty, b, .absent, hg⟩
  · rename_i hne
    refine (meets_writeValue fun bytes hb => hC.labels hb).mono (fun _ hg => hg) (fun ref g hg => ⟨.inr hg.1, hg.2⟩) ?_
    exact fun g hg => ⟨fun h => h.elim hne hg.1, hg.2⟩

end Graph

end ChiffonDB

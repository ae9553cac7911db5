import ChiffonDB.Graph.Faithful
import ChiffonDB.Graph.Linked
import ChiffonDB.Graph.Named
import ChiffonDB.Graph.SchemaChange
import ChiffonDB.Lib.Ownership

/-!
# Contents

What a database is about: nodes and edges with their properties and labels, two indexes and a schema.

* `Contents` — the contents, in terms of values.
* `Depicts` — what the records, and the parts behind them, stand for.
* `Depicts.setNodeProps`, `Depicts.addNode`, `Depicts.removeEdge` — **what each write does to them**.
* `Depicts.eq` — nothing stands for two contents.
-/

set_option autoImplicit false

set_option linter.unusedSectionVars false

namespace ChiffonDB

open PropertyIndex

variable {F : Type} [F64 F] [F64Text F] {M : Type} [FaithfulBacking M]

structure NodeRow (F : Type) where
  typeId : UInt16
  props : Props F
  labels : List UInt16

structure EdgeRow (F : Type) where
  typeId : UInt16
  fromNode : RecordId
  toNode : RecordId
  props : Props F
  labels : List UInt16

/-- The contents of a database. -/
structure Contents (F : Type) where
  nodes : RecordId → Option (NodeRow F)
  edges : RecordId → Option (EdgeRow F)
  labelled : UInt16 → Multiset RecordId
  entries : Set (IndexKey × RecordId)
  schema : Option SchemaDto

namespace Contents

def empty : Contents F := ⟨fun _ => none, fun _ => none, fun _ => 0, ∅, none⟩

def setNode (c : Contents F) (rid : RecordId) (row : Option (NodeRow F)) : Contents F :=
  { c with nodes := Function.update c.nodes rid row }

def setEdge (c : Contents F) (rid : RecordId) (row : Option (EdgeRow F)) : Contents F :=
  { c with edges := Function.update c.edges rid row }

end Contents

/-- What the serializers read back is what they wrote. -/
structure Codecs.Faithful (C : Codecs F) : Prop where
  props : ∀ {props bytes}, C.packProps props = .ok bytes → C.unpackProps bytes = .ok props
  labels : ∀ {labels bytes}, C.packLabels labels = .ok bytes → C.unpackLabels bytes = .ok labels
  schema : C.schema.Faithful

/-! ## References -/

/-- The places in records that name a value. -/
inductive RefSlot where
  | nodeProps (rid : RecordId)
  | nodeLabels (rid : RecordId)
  | edgeProps (rid : RecordId)
  | edgeLabels (rid : RecordId)
  deriving DecidableEq

/-- The value that a live record names. -/
def Topo.ref (t : Topo) : RefSlot → Option RecordId
  | .nodeProps rid => (t.node rid).bind (·.propertyRef)
  | .nodeLabels rid => (t.node rid).bind (·.labelRef)
  | .edgeProps rid => (t.edge rid).bind (·.propertyRef)
  | .edgeLabels rid => (t.edge rid).bind (·.labelRef)

/-- A value that may not be there, behind its serializer. -/
def ValueAt {α : Type} (decode : List UInt8 → Except GraphError α) (absent : α)
    (values : RecordId → Option (List UInt8)) : Option RecordId → α → Prop
  | none, a => a = absent
  | some v, a => ∃ bytes, values v = some bytes ∧ decode bytes = .ok a

variable (C : Codecs F)

def PropsStored (values : RecordId → Option (List UInt8)) (ref : Option RecordId) (props : Props F) : Prop :=
  ValueAt C.unpackProps ∅ values ref props

def LabelsStored (values : RecordId → Option (List UInt8)) (ref : Option RecordId) (labels : List UInt16) : Prop :=
  ValueAt C.unpackLabels [] values ref labels

structure NodeStored (values : RecordId → Option (List UInt8)) (r : NodeRecord) (row : NodeRow F) : Prop where
  typeId : r.nodeTypeId = row.typeId
  props : PropsStored C values r.propertyRef row.props
  labels : LabelsStored C values r.labelRef row.labels

structure EdgeStored (values : RecordId → Option (List UInt8)) (r : EdgeRecord) (row : EdgeRow F) : Prop where
  typeId : r.edgeTypeId = row.typeId
  fromNode : r.fromNode = row.fromNode
  toNode : r.toNode = row.toNode
  props : PropsStored C values r.propertyRef row.props
  labels : LabelsStored C values r.labelRef row.labels

/-- The schema can be read back. -/
def SchemaDto.Shallow (dto : SchemaDto) : Prop := definitionsJsonDepth dto.definitions < RECURSION_LIMIT

/-- What the records, and the parts behind them, stand for. -/
structure Depicts (t : Topo) (b : Behind) (c : Contents F) : Prop where
  linked : t.Linked
  named : t.Named
  node : Rows (NodeStored C b.values) t.node c.nodes
  edge : Rows (EdgeStored C b.values) t.edge c.edges
  exclusive : Exclusive t.ref
  labelled : b.labelled = c.labelled
  entries : b.entries = c.entries
  schema : b.schema = c.schema.map C.schema.toVec
  shallow : ∀ dto, c.schema = some dto → dto.Shallow

variable {C}

theorem ValueAt.isSome {α : Type} {decode : List UInt8 → Except GraphError α} {absent a : α}
    {values : RecordId → Option (List UInt8)} {v : RecordId} (h : ValueAt decode absent values (some v) a) :
    (values v).isSome := by
  obtain ⟨bytes, hv, -⟩ := h
  rw [hv]
  rfl

theorem ValueAt.congr {α : Type} {decode : List UInt8 → Except GraphError α} {absent a : α}
    {values values' : RecordId → Option (List UInt8)} {ref : Option RecordId} (h : ValueAt decode absent values ref a)
    (hv : ∀ v, ref = some v → values' v = values v) : ValueAt decode absent values' ref a := by
  cases ref with
  | none => exact h
  | some v =>
    obtain ⟨bytes, hb, hd⟩ := h
    exact ⟨bytes, (hv v rfl).trans hb, hd⟩

namespace Depicts

variable {t t' : Topo} {b b' : Behind} {c : Contents F} {rid v : RecordId}

theorem empty : Depicts C Topo.empty .empty (.empty : Contents F) where
  linked := Topo.linked_empty
  named := Topo.named_empty
  node _ := .none
  edge _ := .none
  exclusive s s' v hs := by cases s <;> cases hs
  labelled := rfl
  entries := rfl
  schema := rfl
  shallow dto h := by cases h

/-! ## Values -/

/-- A value that a live record names is there. -/
theorem isSome_of_ref (h : Depicts C t b c) {s : RefSlot} (hs : t.ref s = some v) : (b.values v).isSome := by
  cases s with
  | nodeProps rid =>
    obtain ⟨r, hr, href⟩ := Option.bind_eq_some_iff.1 hs
    obtain ⟨row, -, hrow⟩ := h.node.left hr
    exact ValueAt.isSome (href ▸ hrow.props)
  | nodeLabels rid =>
    obtain ⟨r, hr, href⟩ := Option.bind_eq_some_iff.1 hs
    obtain ⟨row, -, hrow⟩ := h.node.left hr
    exact ValueAt.isSome (href ▸ hrow.labels)
  | edgeProps rid =>
    obtain ⟨r, hr, href⟩ := Option.bind_eq_some_iff.1 hs
    obtain ⟨row, -, hrow⟩ := h.edge.left hr
    exact ValueAt.isSome (href ▸ hrow.props)
  | edgeLabels rid =>
    obtain ⟨r, hr, href⟩ := Option.bind_eq_some_iff.1 hs
    obtain ⟨row, -, hrow⟩ := h.edge.left hr
    exact ValueAt.isSome (href ▸ hrow.labels)

theorem unowned_of_none (h : Depicts C t b c) (hv : b.values v = none) : Unowned t.ref v := by
  intro s hs
  have hsome := h.isSome_of_ref hs
  rw [hv] at hsome
  cases hsome

/-- Nothing changes but values that no live record names. -/
theorem frame (h : Depicts C t b c) (hv : ∀ s v, t.ref s = some v → b'.values v = b.values v)
    (hl : b'.labelled = b.labelled) (he : b'.entries = b.entries) (hs : b'.schema = b.schema) : Depicts C t b' c where
  linked := h.linked
  named := h.named
  node := h.node.mono fun rid r _ hr hrow =>
    ⟨hrow.typeId, hrow.props.congr fun v href => hv (.nodeProps rid) v (Option.bind_eq_some_iff.2 ⟨r, hr, href⟩),
      hrow.labels.congr fun v href => hv (.nodeLabels rid) v (Option.bind_eq_some_iff.2 ⟨r, hr, href⟩)⟩
  edge := h.edge.mono fun rid r _ hr hrow =>
    ⟨hrow.typeId, hrow.fromNode, hrow.toNode,
      hrow.props.congr fun v href => hv (.edgeProps rid) v (Option.bind_eq_some_iff.2 ⟨r, hr, href⟩),
      hrow.labels.congr fun v href => hv (.edgeLabels rid) v (Option.bind_eq_some_iff.2 ⟨r, hr, href⟩)⟩
  exclusive := h.exclusive
  labelled := hl.trans h.labelled
  entries := he.trans h.entries
  schema := hs.trans h.schema
  shallow := h.shallow

/-- **A value that no live record names is written or freed.** -/
theorem setValue (h : Depicts C t b c) (hv : Unowned t.ref v) (bytes : Option (List UInt8)) :
    Depicts C t (b.setValue v bytes) c :=
  h.frame (fun s w hs => Function.update_of_ne (by rintro rfl; exact hv s hs) _ _) rfl rfl rfl

/-- **The label index.** -/
theorem setLabelled (h : Depicts C t b c) (l : UInt16 → Multiset RecordId) :
    Depicts C t { b with labelled := l } { c with labelled := l } :=
  { h with labelled := rfl }

/-- **The property index.** -/
theorem setEntries (h : Depicts C t b c) (e : Set (IndexKey × RecordId)) :
    Depicts C t { b with entries := e } { c with entries := e } :=
  { h with entries := rfl }

/-- **The schema.** -/
theorem setSchema (h : Depicts C t b c) {dto : SchemaDto} (hdto : dto.Shallow) :
    Depicts C t { b with schema := some (C.schema.toVec dto) } { c with schema := some dto } :=
  { h with
    schema := rfl
    shallow := fun dto' h' => by cases h'; exact hdto }

/-! ## Records -/

/-- Other places in the lists. -/
theorem sameBodies (h : Depicts C t b c) (hb : Topo.SameBodies t t') (hl : t'.Linked) (hn : t'.Named) : Depicts C t' b c where
  linked := hl
  named := hn
  node := by rw [hb.node]; exact h.node
  edge := by rw [hb.edge]; exact h.edge
  exclusive := by
    have href : t'.ref = t.ref := by
      funext s
      cases s <;> simp only [Topo.ref, hb.node, hb.edge]
    rw [href]
    exact h.exclusive
  labelled := h.labelled
  entries := h.entries
  schema := h.schema
  shallow := h.shallow

/-- A node record that names its two values. -/
def refsOf (props labels : Option RecordId) (f : RefSlot → Option RecordId) (sp sl : RefSlot) : RefSlot → Option RecordId :=
  Function.update (Function.update f sp props) sl labels

theorem ref_node {r : Option NodeRecord} (hn : t'.node = Function.update t.node rid r) (he : t'.edge = t.edge) :
    t'.ref = refsOf (r.bind (·.propertyRef)) (r.bind (·.labelRef)) t.ref (.nodeProps rid) (.nodeLabels rid) := by
  funext s
  unfold refsOf
  cases s with
  | nodeProps x =>
    rw [Function.update_of_ne (by simp)]
    by_cases hx : x = rid
    · rw [hx, Function.update_self, Topo.ref, hn, Function.update_self]
    · rw [Function.update_of_ne (by simp [hx]), Topo.ref, hn, Function.update_of_ne hx]
      rfl
  | nodeLabels x =>
    by_cases hx : x = rid
    · rw [hx, Function.update_self, Topo.ref, hn, Function.update_self]
    · rw [Function.update_of_ne (by simp [hx]), Function.update_of_ne (by simp), Topo.ref, hn, Function.update_of_ne hx]
      rfl
  | edgeProps x =>
    rw [Function.update_of_ne (by simp), Function.update_of_ne (by simp), Topo.ref, he]
    rfl
  | edgeLabels x =>
    rw [Function.update_of_ne (by simp), Function.update_of_ne (by simp), Topo.ref, he]
    rfl

theorem ref_edge {r : Option EdgeRecord} (hn : t'.node = t.node) (he : t'.edge = Function.update t.edge rid r) :
    t'.ref = refsOf (r.bind (·.propertyRef)) (r.bind (·.labelRef)) t.ref (.edgeProps rid) (.edgeLabels rid) := by
  funext s
  unfold refsOf
  cases s with
  | nodeProps x =>
    rw [Function.update_of_ne (by simp), Function.update_of_ne (by simp), Topo.ref, hn]
    rfl
  | nodeLabels x =>
    rw [Function.update_of_ne (by simp), Function.update_of_ne (by simp), Topo.ref, hn]
    rfl
  | edgeProps x =>
    rw [Function.update_of_ne (by simp)]
    by_cases hx : x = rid
    · rw [hx, Function.update_self, Topo.ref, he, Function.update_self]
    · rw [Function.update_of_ne (by simp [hx]), Topo.ref, he, Function.update_of_ne hx]
      rfl
  | edgeLabels x =>
    by_cases hx : x = rid
    · rw [hx, Function.update_self, Topo.ref, he, Function.update_self]
    · rw [Function.update_of_ne (by simp [hx]), Function.update_of_ne (by simp), Topo.ref, he, Function.update_of_ne hx]
      rfl

theorem refsOf_props {f : RefSlot → Option RecordId} {sp sl : RefSlot} (hne : sl ≠ sp) (props : Option RecordId) :
    refsOf props (f sl) f sp sl = Function.update f sp props := by
  unfold refsOf
  refine Eq.trans (congrArg _ (Function.update_of_ne hne props f).symm) (Function.update_eq_self ..)

theorem refsOf_labels {f : RefSlot → Option RecordId} (sp : RefSlot) {sl : RefSlot} (labels : Option RecordId) :
    refsOf (f sp) labels f sp sl = Function.update f sl labels := by
  unfold refsOf
  rw [Function.update_eq_self]

/-- A node record changes, comes or goes. -/
theorem setNodeRow (h : Depicts C t b c) {r : Option NodeRecord} {row : Option (NodeRow F)} (hl : t'.Linked)
    (hn : t'.Named) (hnode : t'.node = Function.update t.node rid r) (hedge : t'.edge = t.edge)
    (hrow : Option.Rel (NodeStored C b.values) r row) (hex : Exclusive t'.ref) : Depicts C t' b (c.setNode rid row) where
  linked := hl
  named := hn
  node := by rw [hnode]; exact h.node.update rid hrow
  edge := by rw [hedge]; exact h.edge
  exclusive := hex
  labelled := h.labelled
  entries := h.entries
  schema := h.schema
  shallow := h.shallow

/-- An edge record changes, comes or goes. -/
theorem setEdgeRow (h : Depicts C t b c) {r : Option EdgeRecord} {row : Option (EdgeRow F)} (hl : t'.Linked)
    (hn : t'.Named) (hnode : t'.node = t.node) (hedge : t'.edge = Function.update t.edge rid r)
    (hrow : Option.Rel (EdgeStored C b.values) r row) (hex : Exclusive t'.ref) : Depicts C t' b (c.setEdge rid row) where
  linked := hl
  named := hn
  node := by rw [hnode]; exact h.node
  edge := by rw [hedge]; exact h.edge.update rid hrow
  exclusive := hex
  labelled := h.labelled
  entries := h.entries
  schema := h.schema
  shallow := h.shallow

variable {r : NodeRecord} {row : NodeRow F} {e : EdgeRecord} {erow : EdgeRow F} {ref : Option RecordId}

theorem ref_setNodeProps (hr : t.node rid = some r) (hnode : t'.node = Function.update t.node rid (some { r with propertyRef := ref }))
    (hedge : t'.edge = t.edge) : t'.ref = Function.update t.ref (.nodeProps rid) ref := by
  rw [ref_node hnode hedge, ← refsOf_props (show RefSlot.nodeLabels rid ≠ _ by simp), Topo.ref, hr]
  rfl

theorem ref_setNodeLabels (hr : t.node rid = some r) (hnode : t'.node = Function.update t.node rid (some { r with labelRef := ref }))
    (hedge : t'.edge = t.edge) : t'.ref = Function.update t.ref (.nodeLabels rid) ref := by
  rw [ref_node hnode hedge, ← refsOf_labels (.nodeProps rid), Topo.ref, hr]
  rfl

theorem ref_setEdgeProps (he : t.edge rid = some e) (hnode : t'.node = t.node)
    (hedge : t'.edge = Function.update t.edge rid (some { e with propertyRef := ref })) :
    t'.ref = Function.update t.ref (.edgeProps rid) ref := by
  rw [ref_edge hnode hedge, ← refsOf_props (show RefSlot.edgeLabels rid ≠ _ by simp), Topo.ref, he]
  rfl

theorem ref_setEdgeLabels (he : t.edge rid = some e) (hnode : t'.node = t.node)
    (hedge : t'.edge = Function.update t.edge rid (some { e with labelRef := ref })) :
    t'.ref = Function.update t.ref (.edgeLabels rid) ref := by
  rw [ref_edge hnode hedge, ← refsOf_labels (.edgeProps rid), Topo.ref, he]
  rfl

/-- **A node gets other properties**, and nobody names the old ones any more. -/
theorem setNodeProps (h : Depicts C t b c) {props : Props F} (hr : t.node rid = some r) (hrow : c.nodes rid = some row)
    (hl : t'.Linked) (hn : t'.Named) (hnode : t'.node = Function.update t.node rid (some { r with propertyRef := ref }))
    (hedge : t'.edge = t.edge) (hp : PropsStored C b.values ref props) (hun : ∀ v, ref = some v → Unowned t.ref v) :
    Depicts C t' b (c.setNode rid (some { row with props := props })) ∧
      ∀ v, r.propertyRef = some v → Unowned t'.ref v := by
  obtain ⟨row', hrow', hstored⟩ := h.node.left hr
  cases hrow.symm.trans hrow'
  have href := ref_setNodeProps hr hnode hedge
  have hold : t.ref (.nodeProps rid) = r.propertyRef := by rw [Topo.ref, hr]; rfl
  refine ⟨h.setNodeRow hl hn hnode hedge (.some ⟨hstored.typeId, hp, hstored.labels⟩) ?_, fun v hv => ?_⟩
  · rw [href]
    exact h.exclusive.update _ hun
  · rw [href]
    exact h.exclusive.unowned (hold.trans hv) fun hx => hun v hx _ (hold.trans hv)

/-- **A node gets another label list.** -/
theorem setNodeLabels (h : Depicts C t b c) {labels : List UInt16} (hr : t.node rid = some r) (hrow : c.nodes rid = some row)
    (hl : t'.Linked) (hn : t'.Named) (hnode : t'.node = Function.update t.node rid (some { r with labelRef := ref }))
    (hedge : t'.edge = t.edge) (hp : LabelsStored C b.values ref labels) (hun : ∀ v, ref = some v → Unowned t.ref v) :
    Depicts C t' b (c.setNode rid (some { row with labels := labels })) ∧
      ∀ v, r.labelRef = some v → Unowned t'.ref v := by
  obtain ⟨row', hrow', hstored⟩ := h.node.left hr
  cases hrow.symm.trans hrow'
  have href := ref_setNodeLabels hr hnode hedge
  have hold : t.ref (.nodeLabels rid) = r.labelRef := by rw [Topo.ref, hr]; rfl
  refine ⟨h.setNodeRow hl hn hnode hedge (.some ⟨hstored.typeId, hstored.props, hp⟩) ?_, fun v hv => ?_⟩
  · rw [href]
    exact h.exclusive.update _ hun
  · rw [href]
    exact h.exclusive.unowned (hold.trans hv) fun hx => hun v hx _ (hold.trans hv)

/-- **An edge gets other properties.** -/
theorem setEdgeProps (h : Depicts C t b c) {props : Props F} (he : t.edge rid = some e) (hrow : c.edges rid = some erow)
    (hl : t'.Linked) (hn : t'.Named) (hnode : t'.node = t.node)
    (hedge : t'.edge = Function.update t.edge rid (some { e with propertyRef := ref })) (hp : PropsStored C b.values ref props)
    (hun : ∀ v, ref = some v → Unowned t.ref v) :
    Depicts C t' b (c.setEdge rid (some { erow with props := props })) ∧
      ∀ v, e.propertyRef = some v → Unowned t'.ref v := by
  obtain ⟨row', hrow', hstored⟩ := h.edge.left he
  cases hrow.symm.trans hrow'
  have href := ref_setEdgeProps he hnode hedge
  have hold : t.ref (.edgeProps rid) = e.propertyRef := by rw [Topo.ref, he]; rfl
  refine ⟨h.setEdgeRow hl hn hnode hedge (.some { hstored with props := hp }) ?_, fun v hv => ?_⟩
  · rw [href]
    exact h.exclusive.update _ hun
  · rw [href]
    exact h.exclusive.unowned (hold.trans hv) fun hx => hun v hx _ (hold.trans hv)

/-- **An edge gets another label list.** -/
theorem setEdgeLabels (h : Depicts C t b c) {labels : List UInt16} (he : t.edge rid = some e) (hrow : c.edges rid = some erow)
    (hl : t'.Linked) (hn : t'.Named) (hnode : t'.node = t.node)
    (hedge : t'.edge = Function.update t.edge rid (some { e with labelRef := ref })) (hp : LabelsStored C b.values ref labels)
    (hun : ∀ v, ref = some v → Unowned t.ref v) :
    Depicts C t' b (c.setEdge rid (some { erow with labels := labels })) ∧
      ∀ v, e.labelRef = some v → Unowned t'.ref v := by
  obtain ⟨row', hrow', hstored⟩ := h.edge.left he
  cases hrow.symm.trans hrow'
  have href := ref_setEdgeLabels he hnode hedge
  have hold : t.ref (.edgeLabels rid) = e.labelRef := by rw [Topo.ref, he]; rfl
  refine ⟨h.setEdgeRow hl hn hnode hedge (.some { hstored with labels := hp }) ?_, fun v hv => ?_⟩
  · rw [href]
    exact h.exclusive.update _ hun
  · rw [href]
    exact h.exclusive.unowned (hold.trans hv) fun hx => hun v hx _ (hold.trans hv)

/-- **A new node.** -/
theorem addNode (h : Depicts C t b c) (typeId : UInt16) {props : Props F} (hfresh : t.node rid = none) (hl : t'.Linked)
    (hn : t'.Named) (hnode : t'.node = Function.update t.node rid (some { NodeRecord.new rid typeId with propertyRef := ref }))
    (hedge : t'.edge = t.edge) (hp : PropsStored C b.values ref props) (hun : ∀ v, ref = some v → Unowned t.ref v) :
    Depicts C t' b (c.setNode rid (some ⟨typeId, props, []⟩)) := by
  refine h.setNodeRow hl hn hnode hedge (.some ⟨rfl, hp, rfl⟩) ?_
  have hlab : t.ref (.nodeLabels rid) = none := by rw [Topo.ref, hfresh]; rfl
  rw [ref_node hnode hedge]
  show Exclusive (refsOf ref none t.ref _ _)
  rw [← hlab, refsOf_props (by simp)]
  exact h.exclusive.update _ hun

/-- **A new edge.** -/
theorem addEdge (h : Depicts C t b c) (typeId : UInt16) (fromNode toNode : RecordId) {props : Props F}
    (hfresh : t.edge rid = none) (hl : t'.Linked) (hn : t'.Named) (hnode : t'.node = t.node)
    (hedge : t'.edge = Function.update t.edge rid
      (some { EdgeRecord.new rid typeId fromNode toNode with propertyRef := ref }))
    (hp : PropsStored C b.values ref props) (hun : ∀ v, ref = some v → Unowned t.ref v) :
    Depicts C t' b (c.setEdge rid (some ⟨typeId, fromNode, toNode, props, []⟩)) := by
  refine h.setEdgeRow hl hn hnode hedge (.some ⟨rfl, rfl, rfl, hp, rfl⟩) ?_
  have hlab : t.ref (.edgeLabels rid) = none := by rw [Topo.ref, hfresh]; rfl
  rw [ref_edge hnode hedge]
  show Exclusive (refsOf ref none t.ref _ _)
  rw [← hlab, refsOf_props (by simp)]
  exact h.exclusive.update _ hun

/-- **A node goes**, and nobody names its values any more. -/
theorem removeNode (h : Depicts C t b c) (hr : t.node rid = some r) (hl : t'.Linked) (hn : t'.Named)
    (hnode : t'.node = Function.update t.node rid none) (hedge : t'.edge = t.edge) :
    Depicts C t' b (c.setNode rid none) ∧
      ∀ v, r.propertyRef = some v ∨ r.labelRef = some v → Unowned t'.ref v := by
  have href : t'.ref = refsOf none none t.ref (.nodeProps rid) (.nodeLabels rid) := ref_node hnode hedge
  have hp : t.ref (.nodeProps rid) = r.propertyRef := by rw [Topo.ref, hr]; rfl
  have hlab : Function.update t.ref (.nodeProps rid) none (.nodeLabels rid) = r.labelRef := by
    rw [Function.update_of_ne (by simp), Topo.ref, hr]
    rfl
  have hex := h.exclusive.update (.nodeProps rid) (x := none) (by simp)
  refine ⟨h.setNodeRow hl hn hnode hedge .none ?_, fun v hv => ?_⟩
  · rw [href]
    exact hex.update _ (by simp)
  · rw [href]
    rcases hv with hv | hv
    · exact (h.exclusive.unowned (hp.trans hv) (by simp)).update _ (by simp)
    · exact hex.unowned (hlab.trans hv) (by simp)

/-- **An edge goes.** -/
theorem removeEdge (h : Depicts C t b c) (he : t.edge rid = some e) (hl : t'.Linked) (hn : t'.Named)
    (hnode : t'.node = t.node) (hedge : t'.edge = Function.update t.edge rid none) :
    Depicts C t' b (c.setEdge rid none) ∧
      ∀ v, e.propertyRef = some v ∨ e.labelRef = some v → Unowned t'.ref v := by
  have href : t'.ref = refsOf none none t.ref (.edgeProps rid) (.edgeLabels rid) := ref_edge hnode hedge
  have hp : t.ref (.edgeProps rid) = e.propertyRef := by rw [Topo.ref, he]; rfl
  have hlab : Function.update t.ref (.edgeProps rid) none (.edgeLabels rid) = e.labelRef := by
    rw [Function.update_of_ne (by simp), Topo.ref, he]
    rfl
  have hex := h.exclusive.update (.edgeProps rid) (x := none) (by simp)
  refine ⟨h.setEdgeRow hl hn hnode hedge .none ?_, fun v hv => ?_⟩
  · rw [href]
    exact hex.update _ (by simp)
  · rw [href]
    rcases hv with hv | hv
    · exact (h.exclusive.unowned (hp.trans hv) (by simp)).update _ (by simp)
    · exact hex.unowned (hlab.trans hv) (by simp)

end Depicts

/-! ## What is depicted is one thing -/

theorem ValueAt.eq {α : Type} {decode : List UInt8 → Except GraphError α} {absent a a' : α}
    {values : RecordId → Option (List UInt8)} {ref : Option RecordId} (h : ValueAt decode absent values ref a)
    (h' : ValueAt decode absent values ref a') : a = a' := by
  cases ref with
  | none => exact Eq.trans h h'.symm
  | some v =>
    obtain ⟨bytes, hv, hdecode⟩ := h
    obtain ⟨bytes', hv', hdecode'⟩ := h'
    cases hv.symm.trans hv'
    exact Except.ok.inj (hdecode.symm.trans hdecode')

theorem NodeStored.rightUnique (values : RecordId → Option (List UInt8)) :
    Relator.RightUnique (NodeStored C values) := by
  rintro r ⟨typeId, props, labels⟩ ⟨typeId', props', labels'⟩ h h'
  obtain rfl : typeId = typeId' := h.typeId.symm.trans h'.typeId
  obtain rfl : props = props' := h.props.eq h'.props
  obtain rfl : labels = labels' := h.labels.eq h'.labels
  rfl

theorem EdgeStored.rightUnique (values : RecordId → Option (List UInt8)) :
    Relator.RightUnique (EdgeStored C values) := by
  rintro r ⟨typeId, fromNode, toNode, props, labels⟩ ⟨typeId', fromNode', toNode', props', labels'⟩ h h'
  obtain rfl : typeId = typeId' := h.typeId.symm.trans h'.typeId
  obtain rfl : fromNode = fromNode' := h.fromNode.symm.trans h'.fromNode
  obtain rfl : toNode = toNode' := h.toNode.symm.trans h'.toNode
  obtain rfl : props = props' := h.props.eq h'.props
  obtain rfl : labels = labels' := h.labels.eq h'.labels
  rfl

/-- A schema that is read back is one schema. -/
theorem SchemaCodec.Faithful.eq {codec : SchemaCodec} (h : codec.Faithful) {dto dto' : SchemaDto} (hdto : dto.Shallow)
    (hdto' : dto'.Shallow) (heq : codec.toVec dto = codec.toVec dto') : dto = dto' := by
  have hback := h.fromSlice_toVec dto hdto
  rw [heq, h.fromSlice_toVec dto' hdto'] at hback
  exact (Except.ok.inj hback).symm

/-- **The same records stand for the same contents.** -/
theorem Depicts.eq {t : Topo} {b : Behind} {c c' : Contents F} (hC : C.Faithful) (h : Depicts C t b c)
    (h' : Depicts C t b c') : c = c' := by
  obtain ⟨nodes, edges, labelled, entries, schema⟩ := c
  obtain ⟨nodes', edges', labelled', entries', schema'⟩ := c'
  obtain rfl : nodes = nodes' := Rows.eq (NodeStored.rightUnique b.values) h.node h'.node
  obtain rfl : edges = edges' := Rows.eq (EdgeStored.rightUnique b.values) h.edge h'.edge
  obtain rfl : labelled = labelled' := h.labelled.symm.trans h'.labelled
  obtain rfl : entries = entries' := h.entries.symm.trans h'.entries
  have hschema : schema.map C.schema.toVec = schema'.map C.schema.toVec := h.schema.symm.trans h'.schema
  cases schema with
  | none =>
    cases schema' with
    | none => rfl
    | some dto' => cases hschema
  | some dto =>
    cases schema' with
    | none => cases hschema
    | some dto' =>
      rw [hC.schema.eq (h.shallow dto rfl) (h'.shallow dto' rfl) (Option.some.inj hschema)]

end ChiffonDB

import ChiffonDB.Graph.Room
import ChiffonDB.Graph.Steps

/-!
# The whole database

Any calls of the operations of a database, one after the other, and what holds at all times.

* `Call` — the operations; `Call.Fits` — what the code relies on, and does not check.
* `Call.moves` — **an operation that succeeds is a run of steps, and one that fails has only registered names**.
* `Call.Reached.exists_steps` — the states that calls lead to show contents that steps lead to.
-/

set_option autoImplicit false

set_option linter.unusedSectionVars false

namespace ChiffonDB

open Action PropertyIndex

variable {F : Type} [F64 F] [F64Text F] {M : Type} [FaithfulBacking M]

namespace Contents

variable {C : Codecs F} {R : Rules F} {c c' : Contents F} {name : String} {typeId : UInt16} {props : Props F}

theorem Registers.edits (h : c.Registers c') : Edits C R.checked c c' := by
  induction h with
  | refl => exact .refl
  | tail _ hs hr ih => exact ih.tail (.register hs hr)

/-- **What has been let in by name is what the schema accepts.** -/
theorem NodeAllowed.accepts (h : c.NodeAllowed name typeId props) (hs : c.SchemaSound) : c.Accepts .node typeId props := by
  obtain ⟨dto, node, hdto, hdef, hvalid, hid⟩ := h
  refine ⟨⟨dto, name, hdto, hid⟩, ?_⟩
  unfold Contents.validate
  rw [fieldsOf_eq hdto (hs dto hdto).coherent (show dto.registry.typeIdOf .node name = some typeId from hid)]
  dsimp only [SchemaAst.fieldsNamed]
  rw [hdef]
  exact hvalid

theorem EdgeAllowed.accepts {fromNode toNode : RecordId} (h : c.EdgeAllowed name typeId fromNode toNode props)
    (hs : c.SchemaSound) : c.Accepts .edge typeId props := by
  obtain ⟨dto, edge, hdto, hdef, hvalid, hid, -⟩ := h
  refine ⟨⟨dto, name, hdto, hid⟩, ?_⟩
  unfold Contents.validate
  rw [fieldsOf_eq hdto (hs dto hdto).coherent (show dto.registry.typeIdOf .edge name = some typeId from hid)]
  dsimp only [SchemaAst.fieldsNamed]
  rw [hdef]
  exact hvalid

end Contents

/-- The labels of a record with one more. -/
theorem NodeRow.nodup_labelsWith {row : NodeRow F} {typeId : UInt16} {new : List UInt16}
    (h : row.labelsWith typeId = some new) : (row.typeId :: new).Nodup := by
  unfold NodeRow.labelsWith at h
  split at h
  · cases h
  · cases h
    exact nodup_normalizeLabels _ _

theorem EdgeRow.nodup_labelsWith {row : EdgeRow F} {typeId : UInt16} {new : List UInt16}
    (h : row.labelsWith typeId = some new) : (row.typeId :: new).Nodup := by
  unfold EdgeRow.labelsWith at h
  split at h
  · cases h
  · cases h
    exact nodup_normalizeLabels _ _

/-! ## Operations that move on -/

namespace Graph

variable {C : Codecs F} {X : Pest} {R : Rules F} {c c' : Contents F} {rid : RecordId} {α β : Type}

/-- A handle that `node_exists` knows. -/
theorem isSome_of_usedNode {g : Graph M} (h : Shows C c g) (hused : g.topo.nodes.used rid = true) : (c.nodes rid).isSome := by
  have hfind := finds_nodeExists_row (M := M) h rid g ⟨rfl, rfl⟩
  have heq : g.topo.nodes.used rid = (c.nodes rid).isSome := Outcome.ok.inj (congrArg Prod.fst hfind)
  rw [← heq, hused]

theorem isSome_of_usedEdge {g : Graph M} (h : Shows C c g) (hused : g.topo.edges.used rid = true) : (c.edges rid).isSome := by
  have hfind := finds_edgeExists_row (M := M) h rid g ⟨rfl, rfl⟩
  have heq : g.topo.edges.used rid = (c.edges rid).isSome := Outcome.ok.inj (congrArg Prod.fst hfind)
  rw [← heq, hused]

/-- A call that is a run of steps where it succeeds, and only registers names where it fails. -/
def Moves (C : Codecs F) (X : Pest) (R : Rules F) (c : Contents F) (p : Action (Graph M) α) : Prop :=
  Meets (Shows C c) p (fun _ g => ∃ c', Contents.Steps C X R c c' ∧ Shows C c' g)
    fun g => ∃ c', c.Registers c' ∧ Shows C c' g

section Rules

variable {p : Action (Graph M) α} {f : α → Action (Graph M) β}

/-- Nothing has changed where it fails. -/
theorem Moves.of_meets {Q : α → Graph M → Prop}
    (h : Meets (Shows C c) p Q (Shows C c)) (hQ : ∀ a g, Q a g → ∃ c', Contents.Steps C X R c c' ∧ Shows C c' g) :
    Moves C X R c p :=
  h.mono (fun _ hg => hg) hQ fun _ hg => ⟨c, .refl, hg⟩

/-- A call that changes nothing, in front of another one. -/
theorem Moves.behind (hp : Still p) (hf : ∀ a, Moves C X R c (f a)) : Moves C X R c (p >>= f) :=
  Meets.bind ((hp.keeps (Shows C c)).mono (fun _ hg => hg) (fun _ _ hg => hg) fun _ hg => ⟨c, .refl, hg⟩) hf

theorem Moves.throw {e : GraphError} : Moves C X R c (Action.throw e : Action (Graph M) α) :=
  Meets.throw fun _ hg => ⟨c, .refl, hg⟩

theorem Moves.pure {a : α} : Moves C X R c (Pure.pure a : Action (Graph M) α) :=
  Meets.pure fun _ hg => ⟨c, .refl, hg⟩

/-- The result does not matter. -/
theorem Moves.drop (hp : Moves C X R c p) : Moves C X R c (drop p) :=
  Meets.bind hp fun _ => Meets.pure fun _ hg => hg

/-- Names are registered in front of a call. -/
theorem Moves.registering (h : c.Registers c') (hp : Moves C X R c' p) :
    Meets (Shows C c') p (fun _ g => ∃ c'', Contents.Steps C X R c c'' ∧ Shows C c'' g)
      fun g => ∃ c'', c.Registers c'' ∧ Shows C c'' g := by
  refine hp.mono (fun _ hg => hg) (fun _ g hg => ?_) fun g hg => ?_
  · obtain ⟨c'', hsteps, hshows⟩ := hg
    exact ⟨c'', h.edits.steps.trans hsteps, hshows⟩
  · obtain ⟨c'', hregisters, hshows⟩ := hg
    exact ⟨c'', h.trans hregisters, hshows⟩

end Rules

/-- One edit. -/
theorem edited (h : Contents.Edit C R.checked c c') : Contents.Steps C X R c c' := .single (.edit h)

section Operations

variable (hC : C.Faithful) (hlabels : ∀ labels : List UInt16, labels.Nodup → LabelsTaken M C labels) (hc : c.Sound)

include hC

/-! ### Nodes -/

theorem moves_insertNode {typeId : UInt16} {props : Props F} (haccepts : R.checked → c.Accepts .node typeId props) :
    Moves C X R c (insertNode C typeId props : Action (Graph M) _) :=
  .of_meets ((meets_insertNode hC typeId props).mono (fun _ hg => hg) (fun _ _ hg => hg) fun _ hg => hg.2)
    fun _ _ ⟨⟨hfresh, _, hadmits⟩, hshows⟩ => ⟨_, edited (.insertNode hfresh hadmits haccepts), hshows⟩

include hc in
theorem moves_insertNodeByName (name : String) (props : Props F) :
    Moves C X R c (insertNodeByName C name props : Action (Graph M) _) :=
  .of_meets ((meets_insertNodeByName hC name props).mono (fun _ hg => hg) (fun _ _ hg => hg) fun _ hg => hg.2)
    fun _ _ ⟨_, ⟨hadmits, hfresh⟩, hshows⟩ =>
      ⟨_, edited (.insertNode hfresh hadmits.unique fun _ => hadmits.allowed.accepts hc.schema), hshows⟩

include hlabels in
theorem moves_insertNodeWithLabels {primary : UInt16} (additional : List UInt16) {props : Props F}
    (haccepts : R.checked → c.Accepts .node primary props) :
    Moves C X R c (insertNodeWithLabels C primary additional props : Action (Graph M) _) := by
  refine (meets_insertNodeWithLabels hC primary additional props).mono (fun _ hg => hg) (fun rid g hg => ?_) fun g hg => ?_
  · obtain ⟨⟨hfresh, -, hadmits⟩, hshows⟩ := hg
    have hinsert : Contents.Edit C R.checked c (c.insertNode C rid primary props) := .insertNode hfresh hadmits haccepts
    split at hshows
    · exact ⟨_, edited hinsert, hshows⟩
    · have hrow : (c.insertNode C rid primary props).nodes rid = some ⟨primary, props, []⟩ := Function.update_self _ _ _
      exact ⟨_, (edited hinsert).tail (.edit (.relabel hrow (nodup_normalizeLabels primary additional))), hshows.2⟩
  · rcases hg with hshows | ⟨rid, -, hrefused, -⟩
    · exact ⟨c, .refl, hshows⟩
    · exact absurd (hlabels _ (nodup_normalizeLabels primary additional).of_cons) hrefused

theorem still_nodeTypeIdsIn (registry : SchemaRegistry) (names : List String) :
    Still (nodeTypeIdsIn registry names : Action (Graph M) _) := by
  induction names with
  | nil => exact .pure _
  | cons name names ih =>
    unfold nodeTypeIdsIn
    split
    · exact .throw _
    · exact ih.bind fun _ => .pure _

include hlabels in
theorem moves_insertNodeWithLabelNames (hraw : ¬ R.checked) (primary : String) (additional : List String) (props : Props F) :
    Moves C X R c (insertNodeWithLabelNames C primary additional props : Action (Graph M) _) := by
  refine .behind (still_loadSchemaRegistry (C := C)) fun registry => ?_
  split
  · exact .throw
  · exact .behind (still_nodeTypeIdsIn hC registry additional) fun ids =>
      moves_insertNodeWithLabels hC hlabels ids fun h => absurd h hraw

include hlabels in
theorem moves_insertNodeWithDynamicLabels (hraw : ¬ R.checked) (primary : String) (additional : List String) (props : Props F) :
    Moves C X R c (insertNodeWithDynamicLabels C primary additional props : Action (Graph M) _) := by
  refine Meets.bind ((meets_resolveOrRegister hC .node primary).mono (fun _ hg => hg) (fun _ _ hg => hg)
    fun _ hg => ⟨c, .refl, hg⟩) fun a => Meets.exists fun dto => Meets.exists fun dto₁ => Meets.given ?_
  rintro ⟨hs, hres⟩
  have hfirst : c.Registers (c.withSchema (some dto₁)) := .single hs hres
  refine Meets.bind ((meets_resolveAll hC additional).mono (fun _ hg => hg) (fun _ _ hg => hg) fun g hg => ?_)
    fun as => Meets.exists fun c₂ => Meets.given fun hrest => ?_
  · obtain ⟨c₂, hrest, hshows⟩ := hg
    exact ⟨c₂, hfirst.trans hrest, hshows⟩
  · have hinsert : Moves C X R c₂ (insertNodeWithLabels C a.id (as.map fun p => p.2.id) props : Action (Graph M) _) :=
      moves_insertNodeWithLabels hC hlabels _ fun h => absurd h hraw
    exact Meets.bind (hinsert.registering (hfirst.trans hrest.1)) fun _ => Meets.pure fun _ hg => hg

theorem moves_updateNodeProperties (rid : RecordId) (props : Props F) :
    Moves C X R c (updateNodeProperties C rid props : Action (Graph M) _) := by
  cases hrow : c.nodes rid with
  | none => exact .of_meets (meets_updateNodeProperties_dead hrow props) fun _ _ hg => hg.elim
  | some row =>
    exact .of_meets (meets_updateNodeProperties hC hrow props) fun _ _ ⟨⟨_, hvalid, hadmits⟩, hshows⟩ =>
      ⟨_, edited (.updateNode hrow hvalid hadmits), hshows⟩

theorem moves_patchNodeProperties (rid : RecordId) (patch : Props F) :
    Moves C X R c (patchNodeProperties C rid patch : Action (Graph M) _) := by
  cases hrow : c.nodes rid with
  | none => exact .of_meets (meets_patchNodeProperties_dead hrow patch) fun _ _ hg => hg.elim
  | some row =>
    exact .of_meets (meets_patchNodeProperties hC hrow patch) fun _ _ ⟨⟨_, hvalid, hadmits⟩, hshows⟩ =>
      ⟨_, edited (.updateNode hrow hvalid hadmits), hshows⟩

theorem moves_deleteNode (rid : RecordId) : Moves C X R c (deleteNode C rid : Action (Graph M) _) :=
  .of_meets ((meets_deleteNode hC rid).mono (fun _ hg => hg) (fun _ _ hg => hg) fun _ hg => hg.2)
    fun _ _ ⟨_, hrow, hshows⟩ => ⟨_, edited (.deleteNode hrow), hshows⟩

/-! ### Labels of nodes -/

include hlabels

theorem moves_addNodeLabel (hlive : (c.nodes rid).isSome) (typeId : UInt16) :
    Moves C X R c (addNodeLabel C rid typeId : Action (Graph M) _) := by
  obtain ⟨row, hrow⟩ := Option.isSome_iff_exists.1 hlive
  refine (meets_addNodeLabel hC hrow typeId).mono (fun _ hg => hg) (fun _ g hg => ?_) fun g hg => ?_
  · cases hnew : row.labelsWith typeId with
    | none =>
      rw [hnew] at hg
      exact ⟨c, .refl, hg⟩
    | some new =>
      rw [hnew] at hg
      have hnd := NodeRow.nodup_labelsWith hnew
      exact ⟨_, edited (.relabel hrow hnd), hg.2⟩
  · obtain ⟨new, hnew, hrefused, -⟩ := hg
    exact absurd (hlabels new (NodeRow.nodup_labelsWith hnew).of_cons) hrefused

theorem moves_removeNodeLabel (hlive : (c.nodes rid).isSome) (typeId : UInt16) :
    Moves C X R c (removeNodeLabel C rid typeId : Action (Graph M) _) := by
  obtain ⟨row, hrow⟩ := Option.isSome_iff_exists.1 hlive
  refine (meets_removeNodeLabel hC hrow typeId).mono (fun _ hg => hg) (fun _ g hg => ?_) fun g hg => ?_
  · exact ⟨_, edited (.relabel hrow (nodup_normalizeLabels _ _)), hg.2⟩
  · exact absurd (hlabels _ (nodup_normalizeLabels _ _).of_cons) hg.1

theorem moves_addNodeLabelByName (hlive : (c.nodes rid).isSome) (name : String) :
    Moves C X R c (addNodeLabelByName C rid name : Action (Graph M) _) :=
  Meets.bind ((meets_nodeTypeIdOf hC name).mono (fun _ hg => hg) (fun _ _ hg => hg) fun _ hg => ⟨c, .refl, hg⟩)
    fun id => Meets.given fun _ => moves_addNodeLabel hC hlabels hlive id

theorem moves_removeNodeLabelByName (hlive : (c.nodes rid).isSome) (name : String) :
    Moves C X R c (removeNodeLabelByName C rid name : Action (Graph M) _) :=
  Meets.bind ((meets_nodeTypeIdOf hC name).mono (fun _ hg => hg) (fun _ _ hg => hg) fun _ hg => ⟨c, .refl, hg⟩)
    fun id => Meets.given fun _ => moves_removeNodeLabel hC hlabels hlive id

theorem moves_addNodeLabelDynamic (hlive : (c.nodes rid).isSome) (name : String) :
    Moves C X R c (addNodeLabelDynamic C rid name : Action (Graph M) _) := by
  refine Meets.bind ((meets_resolveOrRegister hC .node name).mono (fun _ hg => hg) (fun _ _ hg => hg)
    fun _ hg => ⟨c, .refl, hg⟩) fun a => Meets.exists fun dto => Meets.exists fun dto' => Meets.given ?_
  rintro ⟨hs, hres⟩
  have hadd := moves_addNodeLabel (M := M) (X := X) (R := R) (c := c.withSchema (some dto')) hC hlabels hlive a.id
  exact Meets.bind (hadd.registering (.single hs hres)) fun _ => Meets.pure fun _ hg => hg

/-! ### Edges -/

omit hlabels

theorem moves_insertEdge {typeId : UInt16} (fromNode toNode : RecordId) {props : Props F}
    (haccepts : R.checked → c.Accepts .edge typeId props) :
    Moves C X R c (insertEdge C typeId fromNode toNode props : Action (Graph M) _) :=
  .of_meets (meets_insertEdgeAny hC typeId fromNode toNode props)
    fun _ _ ⟨⟨hfrom, hto, hfresh, _⟩, hshows⟩ => ⟨_, edited (.insertEdge hfresh hfrom hto haccepts), hshows⟩

include hc in
theorem moves_insertEdgeByName (name : String) (fromNode toNode : RecordId) (props : Props F) :
    Moves C X R c (insertEdgeByName C name fromNode toNode props : Action (Graph M) _) := by
  refine .of_meets ((meets_insertEdgeByName hC name fromNode toNode props).mono (fun _ hg => hg) (fun _ _ hg => hg)
    fun _ hg => hg.2) fun eid g hg => ?_
  obtain ⟨typeId, ⟨hadmits, hfresh⟩, hshows⟩ := hg
  obtain ⟨dto, edge, -, -, -, -, ⟨fromRow, hfrom, -⟩, toRow, hto, -⟩ := hadmits.allowed
  refine ⟨_, edited (.insertEdge hfresh ?_ ?_ fun _ => hadmits.allowed.accepts hc.schema), hshows⟩
  · rw [hfrom]
    rfl
  · rw [hto]
    rfl

include hlabels in
theorem moves_insertEdgeWithLabels {primary : UInt16} (fromNode toNode : RecordId) (additional : List UInt16)
    {props : Props F} (haccepts : R.checked → c.Accepts .edge primary props) :
    Moves C X R c (insertEdgeWithLabels C primary fromNode toNode additional props : Action (Graph M) _) := by
  by_cases hends : (c.nodes fromNode).isSome ∧ (c.nodes toNode).isSome
  · obtain ⟨hfrom, hto⟩ := hends
    refine (meets_insertEdgeWithLabels hC hfrom hto primary additional props).mono (fun _ hg => hg) (fun eid g hg => ?_)
      fun g hg => ?_
    · obtain ⟨⟨hfresh, -⟩, hshows⟩ := hg
      have hinsert : Contents.Edit C R.checked c (c.setEdge eid (some ⟨primary, fromNode, toNode, props, []⟩)) :=
        .insertEdge hfresh hfrom hto haccepts
      split at hshows
      · exact ⟨_, edited hinsert, hshows⟩
      · have hrow : (c.setEdge eid (some ⟨primary, fromNode, toNode, props, []⟩)).edges eid =
            some ⟨primary, fromNode, toNode, props, []⟩ := Function.update_self _ _ _
        refine ⟨_, (edited hinsert).tail (.edit (.relabelEdge hrow (nodup_normalizeLabels primary additional))), ?_⟩
        unfold Contents.relabelEdge Contents.setEdge
        rw [Function.update_idem]
        exact hshows
    · rcases hg with hshows | ⟨eid, -, hrefused, -⟩
      · exact ⟨c, .refl, hshows⟩
      · exact absurd (hlabels _ (nodup_normalizeLabels primary additional).of_cons) hrefused
  · refine Meets.bind ((meets_insertEdgeAny hC primary fromNode toNode props).mono (fun _ hg => hg) (fun _ _ hg => hg)
      fun _ hg => ⟨c, .refl, hg⟩) fun eid => Meets.given fun h => absurd ⟨h.1, h.2.1⟩ hends

theorem moves_updateEdgeProperties (rid : RecordId) (props : Props F) :
    Moves C X R c (updateEdgeProperties C rid props : Action (Graph M) _) := by
  cases hrow : c.edges rid with
  | none => exact .of_meets (meets_updateEdgeProperties_dead hrow props) fun _ _ hg => hg.elim
  | some row =>
    exact .of_meets (meets_updateEdgeProperties hC hrow props) fun _ _ ⟨⟨_, hvalid⟩, hshows⟩ =>
      ⟨_, edited (.updateEdge hrow hvalid), hshows⟩

theorem moves_patchEdgeProperties (rid : RecordId) (patch : Props F) :
    Moves C X R c (patchEdgeProperties C rid patch : Action (Graph M) _) := by
  cases hrow : c.edges rid with
  | none => exact .of_meets (meets_patchEdgeProperties_dead hrow patch) fun _ _ hg => hg.elim
  | some row =>
    exact .of_meets (meets_patchEdgeProperties hC hrow patch) fun _ _ ⟨⟨_, hvalid⟩, hshows⟩ =>
      ⟨_, edited (.updateEdge hrow hvalid), hshows⟩

theorem moves_deleteEdge (rid : RecordId) : Moves C X R c (deleteEdge rid : Action (Graph M) _) :=
  .of_meets ((meets_deleteEdgeRow rid).mono (fun _ hg => hg) (fun _ _ hg => hg) fun _ hg => hg.2)
    fun _ _ ⟨hlive, hshows⟩ => ⟨_, edited (.deleteEdge hlive), hshows⟩

/-! ### Labels of edges -/

include hlabels

theorem moves_addEdgeLabel (hlive : (c.edges rid).isSome) (typeId : UInt16) :
    Moves C X R c (addEdgeLabel C rid typeId : Action (Graph M) _) := by
  obtain ⟨row, hrow⟩ := Option.isSome_iff_exists.1 hlive
  refine (meets_addEdgeLabel hC hrow typeId).mono (fun _ hg => hg) (fun _ g hg => ?_) fun g hg => ?_
  · cases hnew : row.labelsWith typeId with
    | none =>
      rw [hnew] at hg
      exact ⟨c, .refl, hg⟩
    | some new =>
      rw [hnew] at hg
      have hnd := EdgeRow.nodup_labelsWith hnew
      exact ⟨_, edited (.relabelEdge hrow hnd), hg.2⟩
  · obtain ⟨new, hnew, hrefused, -⟩ := hg
    exact absurd (hlabels new (EdgeRow.nodup_labelsWith hnew).of_cons) hrefused

theorem moves_removeEdgeLabel (hlive : (c.edges rid).isSome) (typeId : UInt16) :
    Moves C X R c (removeEdgeLabel C rid typeId : Action (Graph M) _) := by
  obtain ⟨row, hrow⟩ := Option.isSome_iff_exists.1 hlive
  refine (meets_removeEdgeLabel hC hrow typeId).mono (fun _ hg => hg) (fun _ g hg => ?_) fun g hg => ?_
  · exact ⟨_, edited (.relabelEdge hrow (nodup_normalizeLabels _ _)), hg.2⟩
  · exact absurd (hlabels _ (nodup_normalizeLabels _ _).of_cons) hg.1

theorem moves_addEdgeLabelByName (hlive : (c.edges rid).isSome) (name : String) :
    Moves C X R c (addEdgeLabelByName C rid name : Action (Graph M) _) :=
  Meets.bind ((meets_edgeTypeIdOf hC name).mono (fun _ hg => hg) (fun _ _ hg => hg) fun _ hg => ⟨c, .refl, hg⟩)
    fun id => Meets.given fun _ => moves_addEdgeLabel hC hlabels hlive id

theorem moves_removeEdgeLabelByName (hlive : (c.edges rid).isSome) (name : String) :
    Moves C X R c (removeEdgeLabelByName C rid name : Action (Graph M) _) :=
  Meets.bind ((meets_edgeTypeIdOf hC name).mono (fun _ hg => hg) (fun _ _ hg => hg) fun _ hg => ⟨c, .refl, hg⟩)
    fun id => Meets.given fun _ => moves_removeEdgeLabel hC hlabels hlive id

theorem moves_addEdgeLabelDynamic (hlive : (c.edges rid).isSome) (name : String) :
    Moves C X R c (addEdgeLabelDynamic C rid name : Action (Graph M) _) := by
  refine Meets.bind ((meets_resolveOrRegister hC .edge name).mono (fun _ hg => hg) (fun _ _ hg => hg)
    fun _ hg => ⟨c, .refl, hg⟩) fun a => Meets.exists fun dto => Meets.exists fun dto' => Meets.given ?_
  rintro ⟨hs, hres⟩
  have hadd := moves_addEdgeLabel (M := M) (X := X) (R := R) (c := c.withSchema (some dto')) hC hlabels hlive a.id
  exact Meets.bind (hadd.registering (.single hs hres)) fun _ => Meets.pure fun _ hg => hg

/-! ### The schema, and everything -/

omit hlabels

include hc

theorem moves_applySchema {source : String} (hshallow : ∀ ast, parse X source = .ok ast → ast.Shallow)
    (happlies : ∀ ast, parse X source = .ok ast → R.applies c ast) :
    Moves C X R c (applySchema C X source : Action (Graph M) _) :=
  .of_meets (meets_schemaApplied hC X hc.labels hshallow) fun _ _ ⟨_, happlied, hshows⟩ =>
    ⟨_, .single (.applied happlies happlied), hshows⟩

theorem moves_renameField (kind : RecordKind) (typeName oldName : String) {newName : String} (hname : newName ∈ R.names) :
    Moves C X R c (renameField C X kind typeName oldName newName : Action (Graph M) _) :=
  .of_meets (meets_fieldRenamed hC X hc.labels kind typeName oldName newName) fun _ _ ⟨_, hrenamed, hshows⟩ =>
    ⟨_, .single (.renamed hname hrenamed), hshows⟩

theorem moves_changeFieldType (kind : RecordKind) (typeName fieldName newType : String) (onFailure : OnConversionFailure) :
    Moves C X R c (changeFieldType C kind typeName fieldName newType onFailure : Action (Graph M) _) :=
  .of_meets (meets_fieldConverted hC hc.labels kind typeName fieldName newType onFailure) fun _ _ ⟨_, hconverted, hshows⟩ =>
    ⟨_, .single (.converted hconverted), hshows⟩

theorem moves_vacuum : Moves C X R c (vacuum C : Action (Graph M) _) :=
  .of_meets (meets_rebuilt hC hc) fun _ _ ⟨_, hrebuilt, hshows⟩ => ⟨_, .single (.rebuilt hrebuilt), hshows⟩

end Operations

end Graph

/-! ## Runs -/

/-- The operations of a database that change something. -/
inductive Call (F : Type) where
  | insertNode (typeId : UInt16) (props : Props F)
  | insertNodeByName (name : String) (props : Props F)
  | insertNodeWithLabels (primary : UInt16) (additional : List UInt16) (props : Props F)
  | insertNodeWithLabelNames (primary : String) (additional : List String) (props : Props F)
  | insertNodeWithDynamicLabels (primary : String) (additional : List String) (props : Props F)
  | updateNodeProperties (rid : RecordId) (props : Props F)
  | patchNodeProperties (rid : RecordId) (patch : Props F)
  | deleteNode (rid : RecordId)
  | addNodeLabel (rid : RecordId) (typeId : UInt16)
  | removeNodeLabel (rid : RecordId) (typeId : UInt16)
  | addNodeLabelByName (rid : RecordId) (name : String)
  | removeNodeLabelByName (rid : RecordId) (name : String)
  | addNodeLabelDynamic (rid : RecordId) (name : String)
  | insertEdge (typeId : UInt16) (fromNode toNode : RecordId) (props : Props F)
  | insertEdgeByName (name : String) (fromNode toNode : RecordId) (props : Props F)
  | insertEdgeWithLabels (primary : UInt16) (fromNode toNode : RecordId) (additional : List UInt16) (props : Props F)
  | updateEdgeProperties (rid : RecordId) (props : Props F)
  | patchEdgeProperties (rid : RecordId) (patch : Props F)
  | deleteEdge (rid : RecordId)
  | addEdgeLabel (rid : RecordId) (typeId : UInt16)
  | removeEdgeLabel (rid : RecordId) (typeId : UInt16)
  | addEdgeLabelByName (rid : RecordId) (name : String)
  | removeEdgeLabelByName (rid : RecordId) (name : String)
  | addEdgeLabelDynamic (rid : RecordId) (name : String)
  | applySchema (source : String)
  | renameField (kind : RecordKind) (typeName oldName newName : String)
  | changeFieldType (kind : RecordKind) (typeName fieldName newType : String) (onFailure : OnConversionFailure)
  | vacuum

namespace Call

variable (C : Codecs F) (X : Pest)

def run : Call F → Action (Graph M) Unit
  | insertNode typeId props => Graph.drop (Graph.insertNode C typeId props)
  | insertNodeByName name props => Graph.drop (Graph.insertNodeByName C name props)
  | insertNodeWithLabels primary additional props => Graph.drop (Graph.insertNodeWithLabels C primary additional props)
  | insertNodeWithLabelNames primary additional props =>
    Graph.drop (Graph.insertNodeWithLabelNames C primary additional props)
  | insertNodeWithDynamicLabels primary additional props =>
    Graph.drop (Graph.insertNodeWithDynamicLabels C primary additional props)
  | updateNodeProperties rid props => Graph.updateNodeProperties C rid props
  | patchNodeProperties rid patch => Graph.patchNodeProperties C rid patch
  | deleteNode rid => Graph.deleteNode C rid
  | addNodeLabel rid typeId => Graph.addNodeLabel C rid typeId
  | removeNodeLabel rid typeId => Graph.removeNodeLabel C rid typeId
  | addNodeLabelByName rid name => Graph.addNodeLabelByName C rid name
  | removeNodeLabelByName rid name => Graph.removeNodeLabelByName C rid name
  | addNodeLabelDynamic rid name => Graph.drop (Graph.addNodeLabelDynamic C rid name)
  | insertEdge typeId fromNode toNode props => Graph.drop (Graph.insertEdge C typeId fromNode toNode props)
  | insertEdgeByName name fromNode toNode props => Graph.drop (Graph.insertEdgeByName C name fromNode toNode props)
  | insertEdgeWithLabels primary fromNode toNode additional props =>
    Graph.drop (Graph.insertEdgeWithLabels C primary fromNode toNode additional props)
  | updateEdgeProperties rid props => Graph.updateEdgeProperties C rid props
  | patchEdgeProperties rid patch => Graph.patchEdgeProperties C rid patch
  | deleteEdge rid => Graph.deleteEdge rid
  | addEdgeLabel rid typeId => Graph.addEdgeLabel C rid typeId
  | removeEdgeLabel rid typeId => Graph.removeEdgeLabel C rid typeId
  | addEdgeLabelByName rid name => Graph.addEdgeLabelByName C rid name
  | removeEdgeLabelByName rid name => Graph.removeEdgeLabelByName C rid name
  | addEdgeLabelDynamic rid name => Graph.drop (Graph.addEdgeLabelDynamic C rid name)
  | applySchema source => Graph.applySchema C X source
  | renameField kind typeName oldName newName => Graph.renameField C X kind typeName oldName newName
  | changeFieldType kind typeName fieldName newType onFailure =>
    Graph.drop (Graph.changeFieldType C kind typeName fieldName newType onFailure)
  | vacuum => Graph.vacuum C

variable (R : Rules F)

/-- What the code relies on, and the rules: labels are those of live records, the schema can be read back. -/
def Fits (g : Graph M) : Call F → Prop
  | insertNode typeId props | insertNodeWithLabels typeId _ props =>
    R.checked → ∀ c, Graph.Shows C c g → c.Accepts .node typeId props
  | insertNodeWithLabelNames .. | insertNodeWithDynamicLabels .. => ¬ R.checked
  | insertEdge typeId _ _ props | insertEdgeWithLabels typeId _ _ _ props =>
    R.checked → ∀ c, Graph.Shows C c g → c.Accepts .edge typeId props
  | addNodeLabel rid _ | removeNodeLabel rid _ | addNodeLabelByName rid _ | removeNodeLabelByName rid _
  | addNodeLabelDynamic rid _ => g.topo.nodes.used rid = true
  | addEdgeLabel rid _ | removeEdgeLabel rid _ | addEdgeLabelByName rid _ | removeEdgeLabelByName rid _
  | addEdgeLabelDynamic rid _ => g.topo.edges.used rid = true
  | applySchema source => ∀ ast, parse X source = .ok ast → ast.Shallow ∧ ∀ c, Graph.Shows C c g → R.applies c ast
  | renameField _ _ _ newName => newName ∈ R.names
  | _ => True

/-- The states that calls lead to from a state. -/
abbrev Leads (g₀ g : Graph M) : Prop := Action.Reached g₀ (run C X) (fun k g => k.Fits C X R g) g

/-- The states that calls lead to from a new database. -/
abbrev Reached (g : Graph M) : Prop := Leads C X R Graph.empty g

variable {C} {X} {R} {c : Contents F}

/-- **Every operation.** -/
theorem moves (hC : C.Faithful) (hlabels : ∀ labels : List UInt16, labels.Nodup → Graph.LabelsTaken M C labels)
    (hc : c.Sound) (k : Call F) {g : Graph M} (hg : Graph.Shows C c g) (hfits : k.Fits C X R g) :
    Post (fun _ g => ∃ c', Contents.Steps C X R c c' ∧ Graph.Shows C c' g)
      (fun g => ∃ c', c.Registers c' ∧ Graph.Shows C c' g) (k.run C X g) := by
  cases k with
  | insertNode typeId props => exact (Graph.moves_insertNode hC fun h => hfits h c hg).drop g hg
  | insertNodeByName name props => exact (Graph.moves_insertNodeByName hC hc name props).drop g hg
  | insertNodeWithLabels primary additional props =>
    exact (Graph.moves_insertNodeWithLabels hC hlabels additional fun h => hfits h c hg).drop g hg
  | insertNodeWithLabelNames primary additional props =>
    exact (Graph.moves_insertNodeWithLabelNames hC hlabels hfits primary additional props).drop g hg
  | insertNodeWithDynamicLabels primary additional props =>
    exact (Graph.moves_insertNodeWithDynamicLabels hC hlabels hfits primary additional props).drop g hg
  | updateNodeProperties rid props => exact Graph.moves_updateNodeProperties hC rid props g hg
  | patchNodeProperties rid patch => exact Graph.moves_patchNodeProperties hC rid patch g hg
  | deleteNode rid => exact Graph.moves_deleteNode hC rid g hg
  | addNodeLabel rid typeId => exact Graph.moves_addNodeLabel hC hlabels (Graph.isSome_of_usedNode hg hfits) typeId g hg
  | removeNodeLabel rid typeId =>
    exact Graph.moves_removeNodeLabel hC hlabels (Graph.isSome_of_usedNode hg hfits) typeId g hg
  | addNodeLabelByName rid name =>
    exact Graph.moves_addNodeLabelByName hC hlabels (Graph.isSome_of_usedNode hg hfits) name g hg
  | removeNodeLabelByName rid name =>
    exact Graph.moves_removeNodeLabelByName hC hlabels (Graph.isSome_of_usedNode hg hfits) name g hg
  | addNodeLabelDynamic rid name =>
    exact (Graph.moves_addNodeLabelDynamic hC hlabels (Graph.isSome_of_usedNode hg hfits) name).drop g hg
  | insertEdge typeId fromNode toNode props =>
    exact (Graph.moves_insertEdge hC fromNode toNode fun h => hfits h c hg).drop g hg
  | insertEdgeByName name fromNode toNode props =>
    exact (Graph.moves_insertEdgeByName hC hc name fromNode toNode props).drop g hg
  | insertEdgeWithLabels primary fromNode toNode additional props =>
    exact (Graph.moves_insertEdgeWithLabels hC hlabels fromNode toNode additional fun h => hfits h c hg).drop g hg
  | updateEdgeProperties rid props => exact Graph.moves_updateEdgeProperties hC rid props g hg
  | patchEdgeProperties rid patch => exact Graph.moves_patchEdgeProperties hC rid patch g hg
  | deleteEdge rid => exact Graph.moves_deleteEdge hC rid g hg
  | addEdgeLabel rid typeId => exact Graph.moves_addEdgeLabel hC hlabels (Graph.isSome_of_usedEdge hg hfits) typeId g hg
  | removeEdgeLabel rid typeId =>
    exact Graph.moves_removeEdgeLabel hC hlabels (Graph.isSome_of_usedEdge hg hfits) typeId g hg
  | addEdgeLabelByName rid name =>
    exact Graph.moves_addEdgeLabelByName hC hlabels (Graph.isSome_of_usedEdge hg hfits) name g hg
  | removeEdgeLabelByName rid name =>
    exact Graph.moves_removeEdgeLabelByName hC hlabels (Graph.isSome_of_usedEdge hg hfits) name g hg
  | addEdgeLabelDynamic rid name =>
    exact (Graph.moves_addEdgeLabelDynamic hC hlabels (Graph.isSome_of_usedEdge hg hfits) name).drop g hg
  | applySchema source =>
    exact Graph.moves_applySchema hC hc (fun ast hast => (hfits ast hast).1) (fun ast hast => (hfits ast hast).2 c hg) g hg
  | renameField kind typeName oldName newName => exact Graph.moves_renameField hC hc kind typeName oldName hfits g hg
  | changeFieldType kind typeName fieldName newType onFailure =>
    exact (Graph.moves_changeFieldType hC hc kind typeName fieldName newType onFailure).drop g hg
  | vacuum => exact Graph.moves_vacuum hC hc g hg

/-- **Calls are steps of what is shown.** -/
theorem Leads.exists_steps (hC : C.Faithful) (hlabels : ∀ labels : List UInt16, labels.Nodup → Graph.LabelsTaken M C labels)
    (hc : c.Sound) {g₀ g : Graph M} (hg₀ : Graph.Shows C c g₀) (h : Leads C X R g₀ g) :
    ∃ c', Contents.Steps C X R c c' ∧ Graph.Shows C c' g := by
  refine Action.Reached.invariant (I := fun g => ∃ c', Contents.Steps C X R c c' ∧ Graph.Shows C c' g)
    ⟨c, .refl, hg₀⟩ (fun k g hg => ?_) h
  obtain ⟨⟨c₁, hsteps, hshows⟩, hfits⟩ := hg
  have hpost := moves hC hlabels (hsteps.sound hc) k hshows hfits
  refine Post.mono (fun _ g hg => ?_) (fun g hg => ?_) hpost
  · obtain ⟨c₂, hmore, hshows'⟩ := hg
    exact ⟨c₂, hsteps.trans hmore, hshows'⟩
  · obtain ⟨c₂, hregisters, hshows'⟩ := hg
    exact ⟨c₂, hsteps.trans hregisters.edits.steps, hshows'⟩

/-- **The states that are reached show contents that steps lead to.** -/
theorem Reached.exists_steps (hC : C.Faithful)
    (hlabels : ∀ labels : List UInt16, labels.Nodup → Graph.LabelsTaken M C labels) {g : Graph M} (h : Reached C X R g) :
    ∃ c, Contents.Steps C X R Contents.empty c ∧ Graph.Shows C c g :=
  Leads.exists_steps hC hlabels Contents.sound_empty (Graph.shows_empty C) h

end Call

end ChiffonDB

import ChiffonDB.Graph.Relabel

/-!
# Names and dynamic labels

What the operations do to the contents that take names, and those that register names on the way.

* `SchemaDto.resolve`, `SchemaDto.resolveAll` — the ids of names, and the schema that knows all of them.
* `Graph.meets_resolveOrRegister`, `Graph.meets_resolveAll` — **a name is registered before anything else is tried**.
* `Graph.meets_addNodeLabelDynamic`, `Graph.meets_insertNodeWithLabels`, … — the operations.
-/

set_option autoImplicit false

set_option linter.unusedSectionVars false

namespace ChiffonDB

open Action PropertyIndex

variable {F : Type} [F64 F] [F64Text F] {M : Type} [FaithfulBacking M]

/-! ## The schema -/

namespace SchemaDto

variable {dto dto' : SchemaDto} {kind : DynamicTypeKind} {name : String} {id : UInt16}

/-- The id of a name. -/
def typeIdOf (dto : SchemaDto) (kind : DynamicTypeKind) (name : String) : Option UInt16 :=
  match kind with
  | .node => dto.registry.nodeTypeId name
  | .edge => dto.registry.edgeTypeId name

/-- The id of a name that need not be there yet, and the schema that knows it. -/
def resolve (dto : SchemaDto) (kind : DynamicTypeKind) (name : String) : Except GraphError (UInt16 × SchemaDto) :=
  match dto.typeIdOf kind name with
  | some id => .ok (id, dto)
  | none =>
    match dto.register kind name with
    | .error e => .error e
    | .ok (id, registered) => .ok (id, registered.getD dto)

/-- The ids of names, one after the other. -/
def resolveAll (kind : DynamicTypeKind) : List String → SchemaDto → Except GraphError (List UInt16 × SchemaDto)
  | [], dto => .ok ([], dto)
  | name :: names, dto => do
    let (id, dto) ← dto.resolve kind name
    let (ids, dto) ← resolveAll kind names dto
    pure (id :: ids, dto)

theorem resolve_definitions (h : dto.resolve kind name = .ok (id, dto')) : dto'.definitions = dto.definitions := by
  unfold resolve at h
  split at h
  · cases h
    rfl
  · split at h
    · cases h
    · rename_i id registered hreg
      cases h
      cases registered with
      | none => rfl
      | some dto' =>
        obtain ⟨-, -, -, rfl⟩ := register_definitions hreg
        exact definitions_setTypeIds _ _ _

theorem Shallow.resolve (h : dto.Shallow) (hr : dto.resolve kind name = .ok (id, dto')) : dto'.Shallow := by
  unfold Shallow at h ⊢
  rw [resolve_definitions hr]
  exact h

end SchemaDto

namespace Contents

/-- Another schema. -/
def withSchema (c : Contents F) (schema : Option SchemaDto) : Contents F := { c with schema := schema }

@[simp] theorem withSchema_schema (c : Contents F) : c.withSchema c.schema = c := rfl

/-- Names are registered, and nothing else happens. -/
inductive Registers (c : Contents F) : Contents F → Prop
  | refl : Registers c c
  | tail {c' : Contents F} {dto dto' : SchemaDto} {kind : DynamicTypeKind} {name : String} {id : UInt16}
      (h : Registers c c') (hs : c'.schema = some dto) (hr : dto.resolve kind name = .ok (id, dto')) :
      Registers c (c'.withSchema (some dto'))

namespace Registers

variable {c c' c'' : Contents F}

theorem single {dto dto' : SchemaDto} {kind : DynamicTypeKind} {name : String} {id : UInt16} (hs : c.schema = some dto)
    (hr : dto.resolve kind name = .ok (id, dto')) : Registers c (c.withSchema (some dto')) :=
  .tail .refl hs hr

theorem trans (h : Registers c c') (h' : Registers c' c'') : Registers c c'' := by
  induction h' with
  | refl => exact h
  | tail _ hs hr ih => exact .tail ih hs hr

/-- Only the schema is another one. -/
theorem eq_withSchema (h : Registers c c') : c' = c.withSchema c'.schema := by
  induction h with
  | refl => rfl
  | tail _ hs hr ih =>
    rw [ih]
    rfl

end Registers

end Contents

namespace Graph

variable {C : Codecs F} {t : Topo} {b : Behind} {c : Contents F} {rid : RecordId}

/-! ## Registering names -/

/-- **`resolve_or_register_node_type`**, and its counterpart for edges. -/
theorem meets_resolveOrRegister (hC : C.Faithful) (kind : DynamicTypeKind) (name : String) :
    Meets (Shows (M := M) C c) (resolveOrRegister C kind name)
      (fun a g => ∃ dto dto', (c.schema = some dto ∧ dto.resolve kind name = .ok (a.id, dto')) ∧
        Shows C (c.withSchema (some dto')) g)
      (Shows C c) := by
  refine meets_shows fun t b h => ?_
  cases hs : c.schema with
  | none =>
    have hf := finds_loadSchemaRegistry (M := M) h hC
    rw [loaded_of_none hs] at hf
    exact Meets.refused hf fun _ hg => hg.shows h
  | some dto =>
    have hsame : c.withSchema (some dto) = c := by rw [← hs, Contents.withSchema_schema]
    refine Meets.found (finds_registry h hC hs) ?_
    show Meets _ (match dto.typeIdOf kind name with | some id => _ | none => _) _ _
    cases hid : dto.typeIdOf kind name with
    | some id =>
      refine Meets.pure fun g hg => ⟨dto, dto, ⟨rfl, ?_⟩, ?_⟩
      · rw [SchemaDto.resolve, hid]
      · rw [hsame]
        exact hg.shows h
    | none =>
      have hload := finds_loadSchemaDto (M := M) h hC
      rw [loaded_of_schema hs] at hload
      refine Meets.bind (Q := fun r g => ∃ dto', dto.resolve kind name = .ok (r.1, dto') ∧
        Shows C (c.withSchema (some dto')) g) (Meets.found hload ?_)
        fun r => Meets.pure fun g hg => ?_
      · cases hreg : dto.register kind name with
        | error e => exact Meets.throw fun _ hg => hg.shows h
        | ok r =>
          obtain ⟨id, registered⟩ := r
          have hres : dto.resolve kind name = .ok (id, registered.getD dto) := by
            rw [SchemaDto.resolve, hid]
            dsimp only
            rw [hreg]
          cases registered with
          | none =>
            refine Meets.pure fun g hg => ⟨dto, hres, ?_⟩
            rw [hsame]
            exact hg.shows h
          | some dto' =>
            refine Meets.bind (meets_writeSchemaDto C dto').sure fun _ => Meets.pure fun g hg => ⟨dto', hres, ?_⟩
            exact hg.shows (h.setSchema ((h.shallow dto hs).resolve hres))
      · obtain ⟨dto', hres, hshows⟩ := hg
        exact ⟨dto, dto', ⟨rfl, hres⟩, hshows⟩

/-- **The names of a list**, those before one that fails included. -/
theorem meets_resolveAll (hC : C.Faithful) (names : List String) :
    Meets (Shows (M := M) C c) (resolveAll C names)
      (fun as g => ∃ c', (c.Registers c' ∧ ∀ dto, c.schema = some dto → ∃ dto', c'.schema = some dto' ∧
        dto.resolveAll .node names = .ok (as.map fun p => p.2.id, dto')) ∧ Shows C c' g)
      fun g => ∃ c', c.Registers c' ∧ Shows C c' g := by
  induction names generalizing c with
  | nil => exact Meets.pure fun g hg => ⟨c, ⟨.refl, fun dto hs => ⟨dto, hs, rfl⟩⟩, hg⟩
  | cons name names ih =>
    refine Meets.bind ((meets_resolveOrRegister hC .node name).mono (fun _ hg => hg) (fun _ _ hg => hg)
      fun _ hg => ⟨c, .refl, hg⟩) fun a => Meets.exists fun dto => Meets.exists fun dto₁ => Meets.given ?_
    rintro ⟨hs, hres⟩
    have hfirst : c.Registers (c.withSchema (some dto₁)) := .single hs hres
    refine Meets.bind ((ih (c := c.withSchema (some dto₁))).mono (fun _ hg => hg) (fun _ _ hg => hg)
      fun g hg => ?_) fun as => Meets.pure fun g hg => ?_
    · obtain ⟨c', hrest, hshows⟩ := hg
      exact ⟨c', hfirst.trans hrest, hshows⟩
    · obtain ⟨c', ⟨hrest, hall⟩, hshows⟩ := hg
      refine ⟨c', ⟨hfirst.trans hrest, fun old hold => ?_⟩, hshows⟩
      cases hs.symm.trans hold
      obtain ⟨dto', hs', hids⟩ := hall dto₁ rfl
      refine ⟨dto', hs', ?_⟩
      rw [SchemaDto.resolveAll, hres]
      show (SchemaDto.resolveAll .node names dto₁ >>= fun r => .ok (a.id :: r.1, r.2)) = _
      rw [hids]
      rfl

/-! ## Labels by name -/

/-- The id of a name that the stored schema knows. -/
theorem meets_nodeTypeIdOf (hC : C.Faithful) (name : String) :
    Meets (Shows (M := M) C c) (nodeTypeIdOf C name)
      (fun id g => (∃ dto, c.schema = some dto ∧ dto.typeIdOf .node name = some id) ∧ Shows C c g) (Shows C c) := by
  refine meets_shows fun t b h => ?_
  cases hs : c.schema with
  | none =>
    have hf := finds_loadSchemaRegistry (M := M) h hC
    rw [loaded_of_none hs] at hf
    exact Meets.refused hf fun _ hg => hg.shows h
  | some dto =>
    refine Meets.found (finds_registry h hC hs) ?_
    cases hid : dto.registry.nodeTypeId name with
    | none => exact Meets.throw fun _ hg => hg.shows h
    | some id => exact Meets.pure fun _ hg => ⟨⟨dto, rfl, hid⟩, hg.shows h⟩

theorem meets_edgeTypeIdOf (hC : C.Faithful) (name : String) :
    Meets (Shows (M := M) C c) (edgeTypeIdOf C name)
      (fun id g => (∃ dto, c.schema = some dto ∧ dto.typeIdOf .edge name = some id) ∧ Shows C c g) (Shows C c) := by
  refine meets_shows fun t b h => ?_
  cases hs : c.schema with
  | none =>
    have hf := finds_loadSchemaRegistry (M := M) h hC
    rw [loaded_of_none hs] at hf
    exact Meets.refused hf fun _ hg => hg.shows h
  | some dto =>
    refine Meets.found (finds_registry h hC hs) ?_
    cases hid : dto.registry.edgeTypeId name with
    | none => exact Meets.throw fun _ hg => hg.shows h
    | some id => exact Meets.pure fun _ hg => ⟨⟨dto, rfl, hid⟩, hg.shows h⟩

/-- **`add_node_label_dynamic`** on a live node. -/
theorem meets_addNodeLabelDynamic (hC : C.Faithful) {row : NodeRow F} (hrow : c.nodes rid = some row) (name : String) :
    Meets (Shows (M := M) C c) (addNodeLabelDynamic C rid name)
      (fun a g => ∃ dto dto', (c.schema = some dto ∧ dto.resolve .node name = .ok (a.id, dto')) ∧
        match row.labelsWith a.id with
        | none => Shows C (c.withSchema (some dto')) g
        | some new => LabelsTaken M C new ∧ Shows C ((c.withSchema (some dto')).relabel rid row new) g)
      fun g => Shows C c g ∨ ∃ dto id dto' new, (c.schema = some dto ∧ dto.resolve .node name = .ok (id, dto')) ∧
        row.labelsWith id = some new ∧ ¬ LabelsTaken M C new ∧
          Shows C ((c.withSchema (some dto')).moveLabels rid row.labels new) g := by
  refine Meets.bind ((meets_resolveOrRegister hC .node name).mono (fun _ hg => hg) (fun _ _ hg => hg) fun _ hg => .inl hg)
    fun a => Meets.exists fun dto => Meets.exists fun dto' => Meets.given fun hres => ?_
  refine Meets.bind ((meets_addNodeLabel (c := c.withSchema (some dto')) hC hrow a.id).mono (fun _ hg => hg)
    (fun _ _ hg => hg) fun g hg => .inr ?_) fun _ => Meets.pure fun g hg => ⟨dto, dto', hres, hg⟩
  obtain ⟨new, hnew, hrefused, hshows⟩ := hg
  exact ⟨dto, a.id, dto', new, hres, hnew, hrefused, hshows⟩

/-- **`add_edge_label_dynamic`** on a live edge. -/
theorem meets_addEdgeLabelDynamic (hC : C.Faithful) {row : EdgeRow F} (hrow : c.edges rid = some row) (name : String) :
    Meets (Shows (M := M) C c) (addEdgeLabelDynamic C rid name)
      (fun a g => ∃ dto dto', (c.schema = some dto ∧ dto.resolve .edge name = .ok (a.id, dto')) ∧
        match row.labelsWith a.id with
        | none => Shows C (c.withSchema (some dto')) g
        | some new => LabelsTaken M C new ∧ Shows C ((c.withSchema (some dto')).relabelEdge rid row new) g)
      fun g => Shows C c g ∨ ∃ dto id dto' new, (c.schema = some dto ∧ dto.resolve .edge name = .ok (id, dto')) ∧
        row.labelsWith id = some new ∧ ¬ LabelsTaken M C new ∧ Shows C (c.withSchema (some dto')) g := by
  refine Meets.bind ((meets_resolveOrRegister hC .edge name).mono (fun _ hg => hg) (fun _ _ hg => hg) fun _ hg => .inl hg)
    fun a => Meets.exists fun dto => Meets.exists fun dto' => Meets.given fun hres => ?_
  refine Meets.bind ((meets_addEdgeLabel (c := c.withSchema (some dto')) hC hrow a.id).mono (fun _ hg => hg)
    (fun _ _ hg => hg) fun g hg => .inr ?_) fun _ => Meets.pure fun g hg => ⟨dto, dto', hres, hg⟩
  obtain ⟨new, hnew, hrefused, hshows⟩ := hg
  exact ⟨dto, a.id, dto', new, hres, hnew, hrefused, hshows⟩

/-! ## Inserts with labels -/

/-- **`insert_node_with_labels`**: a node whose labels are refused is there without them. -/
theorem meets_insertNodeWithLabels (hC : C.Faithful) (primary : UInt16) (additional : List UInt16) (props : Props F) :
    Meets (Shows (M := M) C c) (insertNodeWithLabels C primary additional props)
      (fun rid g => (c.nodes rid = none ∧ PropsTaken M C props ∧ c.Admits C primary props none) ∧
        if additional.isEmpty then Shows C (c.insertNode C rid primary props) g
        else LabelsTaken M C (normalizeLabels primary additional) ∧
          Shows C ((c.insertNode C rid primary props).relabel rid ⟨primary, props, []⟩ (normalizeLabels primary additional)) g)
      fun g => Shows C c g ∨ ∃ rid, (c.nodes rid = none ∧ PropsTaken M C props ∧ c.Admits C primary props none) ∧
        ¬ LabelsTaken M C (normalizeLabels primary additional) ∧
          Shows C ((c.insertNode C rid primary props).moveLabels rid [] (normalizeLabels primary additional)) g := by
  refine Meets.bind ((meets_insertNode hC primary props).mono (fun _ hg => hg) (fun _ _ hg => hg) fun _ hg => .inl hg.2)
    fun rid => Meets.given fun hin => ?_
  by_cases hempty : additional.isEmpty
  · simp only [hempty, if_true]
    exact Meets.pure fun g hg => ⟨hin, hg⟩
  · simp only [hempty, if_false, Bool.false_eq_true]
    have hrow : (c.insertNode C rid primary props).nodes rid = some ⟨primary, props, []⟩ := Function.update_self _ _ _
    exact Meets.bind ((meets_setAdditionalLabels hC hrow additional).mono (fun _ hg => hg) (fun _ _ hg => hg)
      fun g hg => .inr ⟨rid, hin, hg⟩) fun _ => Meets.pure fun g hg => ⟨hin, hg⟩

/-- **`insert_edge_with_labels`** between live nodes. -/
theorem meets_insertEdgeWithLabels (hC : C.Faithful) {fromNode toNode : RecordId} (hfrom : (c.nodes fromNode).isSome)
    (hto : (c.nodes toNode).isSome) (primary : UInt16) (additional : List UInt16) (props : Props F) :
    Meets (Shows (M := M) C c) (insertEdgeWithLabels C primary fromNode toNode additional props)
      (fun eid g => (c.edges eid = none ∧ PropsTaken M C props) ∧ Shows C (c.setEdge eid (some
        ⟨primary, fromNode, toNode, props, if additional.isEmpty then [] else normalizeLabels primary additional⟩)) g)
      fun g => Shows C c g ∨ ∃ eid, (c.edges eid = none ∧ PropsTaken M C props) ∧
        ¬ LabelsTaken M C (normalizeLabels primary additional) ∧
          Shows C (c.setEdge eid (some ⟨primary, fromNode, toNode, props, []⟩)) g := by
  refine Meets.bind ((meets_insertEdge hC hfrom hto primary props).mono (fun _ hg => hg) (fun _ _ hg => hg)
    fun _ hg => .inl hg.2) fun eid => Meets.given fun hin => ?_
  by_cases hempty : additional.isEmpty
  · simp only [hempty, if_true]
    exact Meets.pure fun g hg => ⟨hin, hg⟩
  · simp only [hempty, if_false, Bool.false_eq_true]
    have hrow : (c.setEdge eid (some ⟨primary, fromNode, toNode, props, []⟩)).edges eid =
        some ⟨primary, fromNode, toNode, props, []⟩ := Function.update_self _ _ _
    refine Meets.bind ((meets_setEdgeAdditionalLabels hC hrow additional).mono (fun _ hg => hg) (fun _ _ hg => hg)
      fun g hg => .inr ⟨eid, hin, hg⟩) fun _ => Meets.pure fun g hg => ⟨hin, ?_⟩
    obtain ⟨-, hshows⟩ := hg
    unfold Contents.relabelEdge Contents.setEdge at hshows
    rwa [Function.update_idem] at hshows

end Graph

end ChiffonDB

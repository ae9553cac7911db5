import ChiffonDB.Graph.Effects
import ChiffonDB.Graph.Labels

/-!
# Inserts

What the inserts of edges, and the inserts by name, do to the contents of a database.

* `Topo.Pending` — an edge that is being linked.
* `Graph.meets_insertEdge` — **a new edge joins its two nodes**.
* `Graph.meets_insertNodeByName`, `Graph.meets_insertEdgeByName` — what the schema lets in.
-/

set_option autoImplicit false

set_option linter.unusedSectionVars false

namespace ChiffonDB

open Action PropertyIndex

variable {F : Type} [F64 F] [F64Text F] {M : Type} [FaithfulBacking M]

/-! ## Linking an edge -/

namespace Topo

variable {t t' t'' : Topo} {off : EdgeDirection → Option RecordId} {eid : RecordId} {body : EdgeRecord}

/-- An edge with a body of its own that is not on the lists `off` yet. -/
structure Pending (t t' : Topo) (off : EdgeDirection → Option RecordId) (eid : RecordId) (body : EdgeRecord) : Prop where
  linked : t'.LinkedBut off
  named : t'.Named
  node : t'.node = t.node
  edge : t'.edge = Function.update t.edge eid (some body)

theorem Pending.live (h : Pending t t' off eid body) : ∃ r, t'.edges.live eid = some r ∧ r.body = body :=
  edge_eq_some.1 (by rw [h.edge, Function.update_self])

/-- **One of the two lists.** -/
theorem Pending.appendEdge (h : Pending t t' off eid body) {dir : EdgeDirection} (hoff : off dir = some eid) :
    ∃ t'', Topo.appendEdge dir (body.anchor dir) eid t' = (.ok (), t'') ∧
      Pending t t'' (Function.update off dir none) eid body := by
  obtain ⟨r, hr, rfl⟩ := h.live
  obtain ⟨node, hn⟩ := h.linked.ends hr dir
  rw [EdgeRecord.anchor_body]
  obtain ⟨t'', hrun, hlinked, hnodes, hedges⟩ := h.linked.appendEdge hn hr rfl hoff
  refine ⟨t'', hrun, hlinked, named_of_run (keeps_appendEdge _ _ _) h.named hrun, ?_, ?_⟩
  · rw [node_update hnodes, Option.map_some, NodeRecord.body_setFirst, ← node_of_live hn, Function.update_eq_self, h.node]
  · rw [edge_update hedges, Option.map_some, EdgeRecord.body_setNext, h.edge, Function.update_idem]

end Topo

namespace Graph

variable {C : Codecs F} {t : Topo} {b : Behind} {c : Contents F} {rid : RecordId}

/-- **The edge gets its properties**, behind its allocation. -/
theorem meets_setEdgeProps {off : EdgeDirection → Option RecordId} {eid : RecordId} {body : EdgeRecord} {t' : Topo}
    (h : Topo.Pending t t' off eid body) (hnone : body.propertyRef = none) (ref : Option RecordId) :
    Meets (Is (M := M) t' b) (setEdgeProps eid ref)
      (fun _ g => ∃ t'', Topo.Pending t t'' off eid { body with propertyRef := ref } ∧ Is t'' b g) fun _ => False := by
  obtain ⟨r, hr, rfl⟩ := h.live
  cases ref with
  | none =>
    have hsame : { r.body with propertyRef := none } = r.body := by rw [← hnone]
    rw [hsame]
    exact Meets.pure fun g hg => ⟨t', h, hg⟩
  | some v =>
    obtain ⟨t'', hrun, hnodes, hlive⟩ := Topo.run_writeEdge { r with propertyRef := some v }
      (show r.id = eid from h.linked.edgeId hr) hr
    refine Meets.found (finds_readEdge hr) ((meets_onTopo hrun).mono (fun _ hg => hg) (fun _ g hg => ?_) fun _ hg => hg)
    refine ⟨t'', ⟨h.linked.setEdge hr (by rfl) (fun dir => by cases dir <;> rfl) hnodes hlive,
      Topo.named_of_run (Topo.keeps_writeEdge _) h.named hrun, ?_, ?_⟩, hg.2⟩
    · rw [← h.node]
      unfold Topo.node
      rw [hnodes]
    · rw [Topo.edge_update hlive, h.edge, Function.update_idem]
      rfl

theorem meets_appendEdge {off : EdgeDirection → Option RecordId} {eid n : RecordId} {body : EdgeRecord} {t' : Topo}
    (h : Topo.Pending t t' off eid body) {dir : EdgeDirection} (hoff : off dir = some eid) (hn : body.anchor dir = n) :
    Meets (Is (M := M) t' b) (onTopo (Topo.appendEdge dir n eid))
      (fun _ g => ∃ t'', Topo.Pending t t'' (Function.update off dir none) eid body ∧ Is t'' b g) fun _ => False := by
  obtain ⟨t'', hrun, hpending⟩ := h.appendEdge hoff
  rw [hn] at hrun
  exact (meets_onTopo hrun).mono (fun _ hg => hg) (fun _ g hg => ⟨t'', hpending, hg.2⟩) fun _ hg => hg

/-- A row's node is live. -/
theorem liveNode_of_row (h : Depicts C t b c) (hrow : (c.nodes rid).isSome) : t.LiveNode rid := by
  obtain ⟨row, hrow⟩ := Option.isSome_iff_exists.1 hrow
  obtain ⟨r, hr, -⟩ := exists_node h hrow
  exact ⟨r, hr⟩

variable {fromNode toNode : RecordId}

theorem meets_linkEdge (hC : C.Faithful) (hfrom : (c.nodes fromNode).isSome) (hto : (c.nodes toNode).isSome)
    (typeId : UInt16) (props : Props F) :
    Meets (Shows (M := M) C c) (linkEdge C typeId fromNode toNode props)
      (fun eid g => (c.edges eid = none ∧ PropsTaken M C props) ∧
        Shows C (c.setEdge eid (some ⟨typeId, fromNode, toNode, props, []⟩)) g)
      fun g => ¬ PropsTaken M C props ∧ Shows C c g := by
  refine meets_shows fun t b h => ?_
  refine Meets.bind ((meets_writeProps hC props).mono (fun _ hg => hg) (fun _ _ hg => hg)
    fun _ hg => ⟨hg.1, hg.2.shows h⟩) fun ref => Meets.given fun htaken => Meets.exists fun b' => Meets.given fun hw => ?_
  have h' := hw.depicts h
  refine Meets.bind (meets_allocEdge h.linked h.named typeId (liveNode_of_row h hfrom) (liveNode_of_row h hto)).sure
    fun eid => Meets.exists fun t₁ => Meets.given ?_
  rintro ⟨hfresh, hadded⟩
  have hpending : Topo.Pending t t₁ (fun _ => some eid) eid (EdgeRecord.new eid typeId fromNode toNode) := by
    refine ⟨hadded.linked, hadded.named, ?_, Topo.edge_update hadded.live⟩
    unfold Topo.node
    rw [hadded.nodes]
  refine Meets.bind (meets_setEdgeProps hpending rfl ref).sure fun _ => Meets.exists fun t₂ => Meets.given fun h₂ => ?_
  refine Meets.bind (meets_appendEdge h₂ rfl rfl).sure fun _ => Meets.exists fun t₃ => Meets.given fun h₃ => ?_
  refine Meets.bind (meets_appendEdge h₃ (Function.update_of_ne (by simp) _ _) rfl).sure fun _ =>
    Meets.exists fun t₄ => Meets.given fun h₄ => Meets.pure fun g hg => ?_
  have hoff : Function.update (Function.update (fun _ => some eid) .out none) .in none =
      fun _ : EdgeDirection => (none : Option RecordId) := by
    funext dir
    cases dir <;> rfl
  have hlinked := h₄.linked
  rw [hoff] at hlinked
  exact ⟨⟨h.edge.none_iff.1 hfresh, htaken⟩, hg.shows (h'.addEdge typeId fromNode toNode hfresh hlinked h₄.named h₄.node h₄.edge
    hw.valueAt (hw.unowned h))⟩

/-- **`insert_edge`** between live nodes. -/
theorem meets_insertEdge (hC : C.Faithful) (hfrom : (c.nodes fromNode).isSome) (hto : (c.nodes toNode).isSome)
    (typeId : UInt16) (props : Props F) :
    Meets (Shows (M := M) C c) (insertEdge C typeId fromNode toNode props)
      (fun eid g => (c.edges eid = none ∧ PropsTaken M C props) ∧
        Shows C (c.setEdge eid (some ⟨typeId, fromNode, toNode, props, []⟩)) g)
      fun g => ¬ PropsTaken M C props ∧ Shows C c g := by
  refine meets_shows fun t b h => ?_
  refine Meets.found (finds_nodeExists_row h fromNode) ?_
  rw [hfrom, if_pos rfl]
  refine Meets.found (finds_nodeExists_row h toNode) ?_
  rw [hto, if_pos rfl]
  exact (meets_linkEdge hC hfrom hto typeId props).mono (fun _ hg => hg.shows h) (fun _ _ hg => hg) fun _ hg => hg

end Graph

/-! ## By name -/

namespace Contents

variable (c : Contents F)

/-- What the schema asks of a new node. -/
def NodeAllowed (name : String) (typeId : UInt16) (props : Props F) : Prop :=
  ∃ dto node, c.schema = some dto ∧ (dtoToAst dto).findNode name = some node ∧
    validateProperties name node.fields props = .ok () ∧ dto.registry.nodeTypeId name = some typeId

/-- What `insert_node_by_name` asks of a new node. -/
structure AdmitsNode (M : Type) [FaithfulBacking M] (C : Codecs F) (name : String) (typeId : UInt16) (props : Props F) :
    Prop where
  allowed : c.NodeAllowed name typeId props
  taken : Graph.PropsTaken M C props
  unique : c.Admits C typeId props none

/-- A live node of the type that an endpoint requires, if it requires one. -/
def EndpointFits (dto : SchemaDto) (required : Option String) (rid : RecordId) : Prop :=
  ∃ row, c.nodes rid = some row ∧ ∀ name, required = some name → (dto.registry.nodeTypeName row.typeId).getD "" = name

/-- What the schema asks of a new edge. -/
def EdgeAllowed (name : String) (typeId : UInt16) (fromNode toNode : RecordId) (props : Props F) : Prop :=
  ∃ dto edge, c.schema = some dto ∧ (dtoToAst dto).findEdge name = some edge ∧
    validateProperties name edge.props props = .ok () ∧ dto.registry.edgeTypeId name = some typeId ∧
    c.EndpointFits dto (resolveEndpointType edge.fromType edge.genericParams) fromNode ∧
    c.EndpointFits dto (resolveEndpointType edge.toType edge.genericParams) toNode

/-- What `insert_edge_by_name` asks of a new edge. -/
structure AdmitsEdge (M : Type) [FaithfulBacking M] (C : Codecs F) (name : String) (typeId : UInt16)
    (fromNode toNode : RecordId) (props : Props F) : Prop where
  allowed : c.EdgeAllowed name typeId fromNode toNode props
  taken : Graph.PropsTaken M C props

variable {c} {name : String} {typeId : UInt16} {props : Props F} {fromNode toNode : RecordId}

/-- The type id is the one of the name. -/
theorem NodeAllowed.typeId_eq {dto : SchemaDto} (h : c.NodeAllowed name typeId props) (hs : c.schema = some dto) :
    dto.registry.nodeTypeId name = some typeId := by
  obtain ⟨dto', node, hs', -, -, hid⟩ := h
  cases hs.symm.trans hs'
  exact hid

end Contents

namespace Graph

variable {C : Codecs F} {t : Topo} {b : Behind} {c : Contents F} {rid : RecordId}

theorem finds_nodeTypeIdOf (h : Depicts C t b c) (hC : C.Faithful) {dto : SchemaDto} (hs : c.schema = some dto)
    (name : String) : Finds (Is (M := M) t b) (nodeTypeIdOf C name) (match dto.registry.nodeTypeId name with
      | some id => .ok id
      | none => .error (.schemaError ("unknown node type: " ++ name))) := by
  refine (finds_registry (M := M) h hC hs).bind (u := fun r => match r.nodeTypeId name with
    | some id => .ok id
    | none => .error (.schemaError ("unknown node type: " ++ name))) fun r hr => ?_
  cases hr
  cases dto.registry.nodeTypeId name with
  | some id => exact Finds.pure _
  | none => exact Finds.throw _

/-- **`insert_node_by_name`.** -/
theorem meets_insertNodeByName (hC : C.Faithful) (name : String) (props : Props F) :
    Meets (Shows (M := M) C c) (insertNodeByName C name props)
      (fun rid g => ∃ typeId, (c.AdmitsNode M C name typeId props ∧ c.nodes rid = none) ∧
        Shows C (c.insertNode C rid typeId props) g)
      fun g => (c.EntriesLive → ¬ ∃ typeId, c.AdmitsNode M C name typeId props) ∧ Shows C c g := by
  refine meets_shows fun t b h => ?_
  -- a refusal by the schema
  have hrefused : ∀ {g : Graph M}, (∀ typeId, ¬ c.NodeAllowed name typeId props) → Is t b g →
      (c.EntriesLive → ¬ ∃ typeId, c.AdmitsNode M C name typeId props) ∧ Shows C c g :=
    fun hno hg => ⟨fun _ hadm => hadm.elim fun typeId ha => hno typeId ha.allowed, hg.shows h⟩
  cases hs : c.schema with
  | none =>
    refine Meets.refused (finds_noSchema h hC hs) fun g hg => hrefused (fun typeId => ?_) hg
    rintro ⟨dto, node, hdto, -⟩
    rw [hs] at hdto
    cases hdto
  | some dto =>
    refine Meets.found (finds_schema h hC hs) ?_
    cases hdef : (dtoToAst dto).findNode name with
    | none =>
      refine Meets.throw fun g hg => hrefused (fun typeId => ?_) hg
      rintro ⟨dto', node, hdto, hnode, -⟩
      cases hs.symm.trans hdto
      rw [hdef] at hnode
      cases hnode
    | some node =>
      show Meets _ (Action.ofExcept (validateProperties name node.fields props) >>= fun _ => _) _ _
      cases hvalid : validateProperties name node.fields props with
      | error e =>
        refine Meets.refused (Finds.ofExcept _) fun g hg => hrefused (fun typeId => ?_) hg
        rintro ⟨dto', node', hdto, hnode, hok, -⟩
        cases hs.symm.trans hdto
        cases hdef.symm.trans hnode
        rw [hvalid] at hok
        cases hok
      | ok _ =>
        refine Meets.found (Finds.ofExcept _) ?_
        have hfind := finds_nodeTypeIdOf (M := M) h hC hs name
        cases hid : dto.registry.nodeTypeId name with
        | none =>
          rw [hid] at hfind
          refine Meets.refused hfind fun g hg => hrefused (fun typeId => ?_) hg
          intro hallowed
          rw [hallowed.typeId_eq hs] at hid
          cases hid
        | some typeId =>
          rw [hid] at hfind
          have hallowed : c.NodeAllowed name typeId props := ⟨dto, node, hs, hdef, hvalid, hid⟩
          refine Meets.found hfind ((meets_insertNode hC typeId props).mono (fun _ hg => hg.shows h) (fun rid g hg => ?_)
            fun g hg => ⟨fun hlive hadm => ?_, hg.2⟩)
          · exact ⟨typeId, ⟨⟨hallowed, hg.1.2.1, hg.1.2.2⟩, hg.1.1⟩, hg.2⟩
          · obtain ⟨typeId', ha⟩ := hadm
            cases hid.symm.trans (ha.allowed.typeId_eq hs)
            exact hg.1 hlive ⟨ha.taken, ha.unique⟩

/-- The check of one endpoint. -/
theorem finds_checkEndpoint (dto : SchemaDto) (name side : String) (required : Option String) {node : NodeRecord}
    {row : NodeRow F} (htype : node.nodeTypeId = row.typeId) :
    (∀ r, required = some r → (dto.registry.nodeTypeName row.typeId).getD "" = r) ∧
        Finds (Is (M := M) t b) (checkEndpoint dto.registry name side required node) (.ok ()) ∨
      (¬ ∀ r, required = some r → (dto.registry.nodeTypeName row.typeId).getD "" = r) ∧
        ∃ e, Finds (Is (M := M) t b) (checkEndpoint dto.registry name side required node) (.error e) := by
  cases required with
  | none => exact .inl ⟨fun r hr => (by cases hr), Finds.pure _⟩
  | some required =>
    unfold checkEndpoint
    rw [htype]
    dsimp only
    by_cases hfits : (dto.registry.nodeTypeName row.typeId).getD "" = required
    · rw [if_pos hfits]
      exact .inl ⟨fun r hr => (by cases hr; exact hfits), Finds.pure _⟩
    · rw [if_neg hfits]
      exact .inr ⟨fun hall => hfits (hall required rfl), _, Finds.throw _⟩

variable {fromNode toNode : RecordId}

/-- `insert_edge_by_name` between live nodes. -/
theorem meets_insertEdgeChecked (hC : C.Faithful) {fromRow toRow : NodeRow F} (hfrom : c.nodes fromNode = some fromRow)
    (hto : c.nodes toNode = some toRow) (name : String) (props : Props F) :
    Meets (Shows (M := M) C c) (insertEdgeChecked C name fromNode toNode props)
      (fun eid g => ∃ typeId, (c.AdmitsEdge M C name typeId fromNode toNode props ∧ c.edges eid = none) ∧
        Shows C (c.setEdge eid (some ⟨typeId, fromNode, toNode, props, []⟩)) g)
      fun g => (¬ ∃ typeId, c.AdmitsEdge M C name typeId fromNode toNode props) ∧ Shows C c g := by
  refine meets_shows fun t b h => ?_
  -- a refusal by the schema
  have hrefused : ∀ {g : Graph M}, (∀ typeId, ¬ c.EdgeAllowed name typeId fromNode toNode props) → Is t b g →
      (¬ ∃ typeId, c.AdmitsEdge M C name typeId fromNode toNode props) ∧ Shows C c g :=
    fun hno hg => ⟨fun hadm => hadm.elim fun typeId ha => hno typeId ha.allowed, hg.shows h⟩
  obtain ⟨fromRecord, hfr, hfs⟩ := exists_node h hfrom
  obtain ⟨toRecord, htr, hts⟩ := exists_node h hto
  refine Meets.found (finds_readNode hfr) (Meets.found (finds_readNode htr) ?_)
  cases hs : c.schema with
  | none =>
    refine Meets.refused (finds_noSchema h hC hs) fun g hg => hrefused (fun typeId => ?_) hg
    rintro ⟨dto, edge, hdto, -⟩
    rw [hs] at hdto
    cases hdto
  | some dto =>
    refine Meets.found (finds_schema h hC hs) ?_
    cases hdef : (dtoToAst dto).findEdge name with
    | none =>
      refine Meets.throw fun g hg => hrefused (fun typeId => ?_) hg
      rintro ⟨dto', edge, hdto, hedge, -⟩
      cases hs.symm.trans hdto
      rw [hdef] at hedge
      cases hedge
    | some edge =>
      -- what a permission says of this schema and this definition
      have hsame : ∀ {typeId}, c.EdgeAllowed name typeId fromNode toNode props →
          validateProperties name edge.props props = .ok () ∧ dto.registry.edgeTypeId name = some typeId ∧
          (∀ r, resolveEndpointType edge.fromType edge.genericParams = some r →
            (dto.registry.nodeTypeName fromRow.typeId).getD "" = r) ∧
          ∀ r, resolveEndpointType edge.toType edge.genericParams = some r →
            (dto.registry.nodeTypeName toRow.typeId).getD "" = r := by
        rintro typeId ⟨dto', edge', hdto, hedge, hok, hid, ⟨row, hrow, hfits⟩, row', hrow', hfits'⟩
        cases hs.symm.trans hdto
        cases hdef.symm.trans hedge
        cases hfrom.symm.trans hrow
        cases hto.symm.trans hrow'
        exact ⟨hok, hid, hfits, hfits'⟩
      show Meets _ (Action.ofExcept (validateProperties name edge.props props) >>= fun _ => _) _ _
      cases hvalid : validateProperties name edge.props props with
      | error e =>
        refine Meets.refused (Finds.ofExcept _) fun g hg => hrefused (fun typeId hallowed => ?_) hg
        rw [(hsame hallowed).1] at hvalid
        cases hvalid
      | ok _ =>
        refine Meets.found (Finds.ofExcept _) (Meets.found (finds_registry h hC hs) ?_)
        cases hid : dto.registry.edgeTypeId name with
        | none =>
          refine Meets.throw fun g hg => hrefused (fun typeId hallowed => ?_) hg
          rw [(hsame hallowed).2.1] at hid
          cases hid
        | some typeId =>
          rcases finds_checkEndpoint (M := M) (t := t) (b := b) dto name "from"
            (resolveEndpointType edge.fromType edge.genericParams) hfs.typeId with ⟨hfits, hfind⟩ | ⟨hno, e, hfind⟩
          · refine Meets.found hfind ?_
            rcases finds_checkEndpoint (M := M) (t := t) (b := b) dto name "to"
              (resolveEndpointType edge.toType edge.genericParams) hts.typeId with ⟨hfits', hfind'⟩ | ⟨hno, e, hfind'⟩
            · have hallowed : c.EdgeAllowed name typeId fromNode toNode props :=
                ⟨dto, edge, hs, hdef, hvalid, hid, ⟨fromRow, hfrom, hfits⟩, toRow, hto, hfits'⟩
              refine Meets.found hfind' ((meets_insertEdge hC (by rw [hfrom]; rfl) (by rw [hto]; rfl) typeId props).mono
                (fun _ hg => hg.shows h) (fun eid g hg => ?_) fun g hg => ⟨fun hadm => ?_, hg.2⟩)
              · exact ⟨typeId, ⟨⟨hallowed, hg.1.2⟩, hg.1.1⟩, hg.2⟩
              · exact hadm.elim fun typeId' ha => hg.1 ha.taken
            · exact Meets.refused hfind' fun g hg => hrefused (fun typeId' hallowed => hno (hsame hallowed).2.2.2) hg
          · exact Meets.refused hfind fun g hg => hrefused (fun typeId' hallowed => hno (hsame hallowed).2.2.1) hg

/-- **`insert_edge_by_name`.** -/
theorem meets_insertEdgeByName (hC : C.Faithful) (name : String) (fromNode toNode : RecordId) (props : Props F) :
    Meets (Shows (M := M) C c) (insertEdgeByName C name fromNode toNode props)
      (fun eid g => ∃ typeId, (c.AdmitsEdge M C name typeId fromNode toNode props ∧ c.edges eid = none) ∧
        Shows C (c.setEdge eid (some ⟨typeId, fromNode, toNode, props, []⟩)) g)
      fun g => (¬ ∃ typeId, c.AdmitsEdge M C name typeId fromNode toNode props) ∧ Shows C c g := by
  refine meets_shows fun t b h => Meets.found (finds_nodeExists_row h fromNode) ?_
  cases hfrom : c.nodes fromNode with
  | none =>
    refine Meets.throw fun g hg => ⟨?_, hg.shows h⟩
    rintro ⟨typeId, ⟨dto, edge, -, -, -, -, ⟨row, hrow, -⟩, -⟩, -⟩
    rw [hfrom] at hrow
    cases hrow
  | some fromRow =>
    refine Meets.found (finds_nodeExists_row h toNode) ?_
    cases hto : c.nodes toNode with
    | none =>
      refine Meets.throw fun g hg => ⟨?_, hg.shows h⟩
      rintro ⟨typeId, ⟨dto, edge, -, -, -, -, -, row, hrow, -⟩, -⟩
      rw [hto] at hrow
      cases hrow
    | some toRow =>
      exact (meets_insertEdgeChecked hC hfrom hto name props).mono (fun _ hg => hg.shows h) (fun _ _ hg => hg) fun _ hg => hg

end Graph

end ChiffonDB

import ChiffonDB.Commands.InMemory

/-!
# Backup and restore

`export --format json` and `import --format json`.

* `Contents.Conforming` — records that a schema describes, with ids of their own.
* `Graph.finds_exportJson` — the text of a database; `parseItems_export` — the records in it.
* `json_backup` — **what has been exported can be imported into a new database, under other record ids**.
-/

set_option autoImplicit false

set_option linter.unusedSectionVars false

namespace ChiffonDB

open Action Graph

variable {F : Type} [F64 F] [F64Text F]

/-! ## The items of a text -/

theorem ofList_toList (props : Props F) : (.ofList props.toList : Props F) = props := by
  apply Std.ExtTreeMap.ext_getElem?
  intro key
  cases hv : props[key]? with
  | some v =>
    exact Std.ExtTreeMap.getElem?_ofList_of_mem (k := key) (by simp) Std.ExtTreeMap.distinct_keys_toList
      (Std.ExtTreeMap.mem_toList_iff_getElem?_eq_some.2 hv)
  | none =>
    refine Std.ExtTreeMap.getElem?_ofList_of_contains_eq_false ?_
    rw [Std.ExtTreeMap.map_fst_toList_eq_keys, List.contains_eq_mem, decide_eq_false_iff_not, Std.ExtTreeMap.mem_keys,
      Std.ExtTreeMap.mem_iff_isSome_getElem?, hv]
    exact Bool.false_ne_true

/-- **A node is read back.** -/
theorem parseItem_nodeJson (i : Nat) (typeName : String) (rid : RecordId) (props : Props F) :
    parseItem i (nodeJson typeName rid props) = .ok (.inl (typeName, props)) := by
  show Except.ok (Sum.inl (typeName, (.ofList props.toList : Props F))) = _
  rw [ofList_toList]

/-- **So is an edge.** -/
theorem parseItem_edgeJson (i : Nat) (typeName : String) (eid : RecordId) (fromId toId : String) (props : Props F) :
    parseItem i (edgeJson typeName eid fromId toId props) = .ok (.inr (typeName, fromId, toId, props)) := by
  show Except.ok (Sum.inr (typeName, fromId, toId, (.ofList props.toList : Props F))) = _
  rw [ofList_toList]

/-- What an export says of a node. -/
def Contents.nodeItem (c : Contents F) (rid : RecordId) : Value F :=
  nodeJson (c.nodeRecord rid).1 rid (c.nodeRecord rid).2

def Contents.edgeItem (c : Contents F) (eid : RecordId) : Value F :=
  let (typeName, fromId, toId, props) := c.edgeRecord eid
  edgeJson typeName eid fromId toId props

/-- **The nodes of a text, and behind them its edges.** -/
theorem parseItems_export (c : Contents F) (i : Nat) (rids eids : List RecordId) :
    parseItems i (rids.map c.nodeItem ++ eids.map c.edgeItem) = .ok (rids.map c.nodeRecord, eids.map c.edgeRecord) := by
  induction rids generalizing i with
  | nil =>
    induction eids generalizing i with
    | nil => rfl
    | cons eid eids ih =>
      show (parseItem i (c.edgeItem eid) >>= fun r => parseItems (i + 1) (eids.map c.edgeItem) >>= fun rest => _) = _
      rw [show parseItem i (c.edgeItem eid) = .ok (.inr (c.edgeRecord eid)) from parseItem_edgeJson i _ eid _ _ _]
      show (parseItems (i + 1) (eids.map c.edgeItem) >>= fun rest => _) = _
      rw [show parseItems (i + 1) (eids.map c.edgeItem) = .ok ([], eids.map c.edgeRecord) from ih (i + 1)]
      rfl
  | cons rid rids ih =>
    show (parseItem i (c.nodeItem rid) >>= fun r => parseItems (i + 1) (rids.map c.nodeItem ++ eids.map c.edgeItem) >>=
      fun rest => _) = _
    rw [show parseItem i (c.nodeItem rid) = .ok (.inl (c.nodeRecord rid)) from parseItem_nodeJson i _ rid _]
    show (parseItems (i + 1) (rids.map c.nodeItem ++ eids.map c.edgeItem) >>= fun rest => _) = _
    rw [ih (i + 1)]
    rfl

/-! ## What is exported -/

/-- Records that a schema describes, without other labels, and nodes with ids of their own. -/
structure Contents.Conforming (c : Contents F) (dto : SchemaDto) : Prop where
  schema : c.schema = some dto
  coherent : dto.Coherent
  node : ∀ rid row, c.nodes rid = some row → ∃ name, c.NodeConforms dto rid row name
  edge : ∀ eid row, c.edges eid = some row → ∃ name, c.EdgeConforms dto eid row name
  ids : ∀ rid row, c.nodes rid = some row → ∃ id, idOf (c.shownNode row) = some id ∧
    ∀ rid' row', c.nodes rid' = some row' → idOf (c.shownNode row') = some id → rid' = rid
  nodeJson : ∀ rid row, c.nodes rid = some row → Value.AllJsonFields (c.shownNode row).toList
  edgeJson : ∀ eid row, c.edges eid = some row → Value.AllJsonFields (c.shownEdge row).toList

section Export

variable {M : Type} [FaithfulBacking M] {C : Codecs F} {t : Topo} {b : Behind} {c : Contents F} {dto : SchemaDto}

/-- Both ends of an edge are there. -/
theorem Depicts.ends (h : Depicts C t b c) {eid : RecordId} {row : EdgeRow F} (hrow : c.edges eid = some row) :
    (∃ r, c.nodes row.fromNode = some r) ∧ ∃ r, c.nodes row.toNode = some r := by
  obtain ⟨r, hr, hstored⟩ := exists_edge h hrow
  have hnode : ∀ rid, t.LiveNode rid → ∃ row, c.nodes rid = some row := by
    rintro rid ⟨r, hr⟩
    obtain ⟨row, hrow, -⟩ := h.node.left (Topo.node_of_live hr)
    exact ⟨row, hrow⟩
  rw [← hstored.fromNode, ← hstored.toNode]
  exact ⟨hnode _ (h.linked.ends hr .out), hnode _ (h.linked.ends hr .in)⟩

namespace Contents.Conforming

variable (h : c.Conforming dto)

include h

/-- The `id` of a node. -/
theorem idOf_eq {rid : RecordId} {row : NodeRow F} (hrow : c.nodes rid = some row) :
    idOf (c.propsOf rid) = some (c.idAt rid) := by
  obtain ⟨id, hid, -⟩ := h.ids rid row hrow
  unfold Contents.idAt Contents.propsOf
  rw [hrow, Option.map_some, Option.getD_some, hid]
  rfl

theorem idAt_injective {rid rid' : RecordId} {row row' : NodeRow F} (hrow : c.nodes rid = some row)
    (hrow' : c.nodes rid' = some row') (heq : c.idAt rid' = c.idAt rid) : rid' = rid := by
  obtain ⟨id, hid, hunique⟩ := h.ids rid row hrow
  refine hunique rid' row' hrow' ?_
  have h1 := h.idOf_eq hrow
  have h2 := h.idOf_eq hrow'
  unfold Contents.propsOf at h1 h2
  rw [hrow, Option.map_some, Option.getD_some] at h1
  rw [hrow', Option.map_some, Option.getD_some] at h2
  rw [h2, heq, ← h1, hid]

end Contents.Conforming

theorem listedNodes_eq {rids : List RecordId} (hlive : ∀ rid ∈ rids, ∃ row, c.nodes rid = some row) :
    c.listedNodes rids = rids.map fun rid => (rid, c.propsOf rid) := by
  unfold Contents.listedNodes Contents.propsOf
  induction rids with
  | nil => rfl
  | cons rid rids ih =>
    obtain ⟨row, hrow⟩ := hlive rid List.mem_cons_self
    rw [List.filterMap_cons, hrow, Option.map_some, List.map_cons, ih fun r hr => hlive r (List.mem_cons_of_mem rid hr), hrow]
    rfl

theorem map_fst_listedEdges {eids : List RecordId} (hlive : ∀ eid ∈ eids, ∃ row, c.edges eid = some row) :
    (c.listedEdges eids).map Prod.fst = eids := by
  unfold Contents.listedEdges
  induction eids with
  | nil => rfl
  | cons eid eids ih =>
    obtain ⟨row, hrow⟩ := hlive eid List.mem_cons_self
    rw [List.filterMap_cons, hrow, Option.map_some, List.map_cons, ih fun e he => hlive e (List.mem_cons_of_mem eid he)]

theorem typeName_eq {kind : RecordKind} {name : String} {id : UInt16} (hs : c.schema = some dto) (hdto : dto.Coherent)
    (hid : dto.registry.typeIdOf kind name = some id) : c.typeName kind id = name := by
  have hname := hdto kind name id hid
  unfold Contents.typeName
  rw [hs, Option.bind_some]
  cases kind with
  | node => exact congrArg (fun o : Option String => o.getD _) hname
  | edge => exact congrArg (fun o : Option String => o.getD _) hname

/-- **The text of a database.** -/
theorem finds_exportJson (hd : Depicts C t b c) (hC : C.Faithful) (h : c.Conforming dto) (J : JsonFormat F) :
    ∃ rids eids : List RecordId, (rids.Nodup ∧ ∀ rid, rid ∈ rids ↔ ∃ row, c.nodes rid = some row) ∧
      (eids.Nodup ∧ ∀ eid, eid ∈ eids ↔ ∃ row, c.edges eid = some row) ∧
      Command.Finds (Is (M := M) t b) (exportJson C J none)
        (.ok (J.toStringPretty (.array (rids.map c.nodeItem ++ eids.map c.edgeItem)))) := by
  obtain ⟨rids, hnd, hmem, hlist⟩ := finds_listNodes (M := M) hd hC
  obtain ⟨eids, hndE, hmemE, hlistE⟩ := finds_listEdges (M := M) hd hC
  refine ⟨rids, eids, ⟨hnd, hmem⟩, ⟨hndE, hmemE⟩, ?_⟩
  rw [listedNodes_eq fun rid => (hmem rid).1] at hlist
  -- the map from record ids to the ids of nodes
  have hid : ∀ {rid row}, c.nodes rid = some row → (AssocList.lastOf (nodeRidToId (rids.map fun rid => (rid, c.propsOf rid)))
      rid).getD "" = c.idAt rid := by
    intro rid row hrow
    unfold nodeRidToId
    rw [List.filterMap_map]
    refine congrArg (fun o : Option String => o.getD "") ?_
    exact (AssocList.lastOf_filterMap_self rids (fun rid => idOf (c.propsOf rid)) rid).trans
      (if_pos ((hmem rid).2 ⟨row, hrow⟩))
  refine (Command.Finds.call hlist).bind ?_
  refine (Command.Finds.each (u := fun n => c.nodeItem n.1) fun n hn => ?_).bind ?_
  · obtain ⟨rid, hrid, rfl⟩ := List.mem_map.1 hn
    obtain ⟨row, hrow⟩ := (hmem rid).1 hrid
    obtain ⟨name, hconf⟩ := h.node rid row hrow
    refine (Command.Finds.callOr (finds_getNodeTypeName hd hC hrow)).bind ?_
    unfold Contents.nodeItem
    rw [hconf.record h.schema h.coherent, typeName_eq h.schema h.coherent hconf.id]
    show Command.Finds _ (pure (nodeJson name rid (c.propsOf rid))) _
    unfold Contents.propsOf
    rw [hrow]
    exact Command.Finds.pure _
  rw [List.map_map]
  refine (Command.Finds.call hlistE).bind ?_
  refine (Command.Finds.each (u := fun e => c.edgeItem e.1) fun e he => ?_).bind ?_
  · obtain ⟨eid, -, hsome⟩ := List.mem_filterMap.1 he
    obtain ⟨row, hrow, rfl⟩ := Option.map_eq_some_iff.1 hsome
    obtain ⟨name, hconf⟩ := h.edge eid row hrow
    obtain ⟨⟨fromRow, hfrom⟩, toRow, hto⟩ := hd.ends hrow
    refine (Command.Finds.callOr (finds_getEdgeTypeName hd hC hrow)).bind
      ((Command.Finds.call (finds_getEdgeEndpoints hd hrow)).bind ?_)
    unfold Contents.edgeItem
    rw [hconf.record h.schema h.coherent, typeName_eq h.schema h.coherent hconf.id]
    dsimp only
    rw [hid hfrom, hid hto]
    exact Command.Finds.pure _
  rw [show (c.listedEdges eids).map (fun e => c.edgeItem e.1) = eids.map c.edgeItem by
    rw [← map_fst_listedEdges fun eid => (hmemE eid).1, List.map_map, map_fst_listedEdges fun eid => (hmemE eid).1]
    rfl]
  exact Command.Finds.pure _

end Export

/-! ## What is imported -/

/-- What an import asks for besides: properties that the property store takes, ends of the types that the schema names,
    and values that are unique where they have to be. -/
structure Contents.Importable (M : Type) [FaithfulBacking M] (C : Codecs F) (c : Contents F) (dto : SchemaDto) : Prop
    extends c.Conforming dto where
  nodeTaken : ∀ rid row, c.nodes rid = some row → PropsTaken M C (c.shownNode row)
  edgeTaken : ∀ eid row, c.edges eid = some row → PropsTaken M C (c.shownEdge row)
  ends : ∀ eid row name edge, c.edges eid = some row → dto.registry.typeIdOf .edge name = some row.typeId →
    (dtoToAst dto).findEdge name = some edge →
      c.EndpointFits dto (resolveEndpointType edge.fromType edge.genericParams) row.fromNode ∧
      c.EndpointFits dto (resolveEndpointType edge.toType edge.genericParams) row.toNode
  unique : c.Distinct Set.univ

section Import

variable {M : Type} [FaithfulBacking M] {C : Codecs F} {c : Contents F} {dto : SchemaDto} {f : RecordId → RecordId}

/-- The node of an id. -/
theorem lookup_remembered (h : c.Conforming dto) {rids : List RecordId}
    (hlive : ∀ rid ∈ rids, ∃ row, c.nodes rid = some row) (ids : List (String × RecordId)) {rid : RecordId}
    {row : NodeRow F} (hrow : c.nodes rid = some row)
    (hmem : rid ∈ rids ∨ ids.lookup (c.idAt rid) = some (f rid)) :
    (c.remembered "id" f rids ids).lookup (c.idAt rid) = some (f rid) := by
  induction rids generalizing ids with
  | nil => exact hmem.resolve_left List.not_mem_nil
  | cons n rids ih =>
    obtain ⟨rowN, hrowN⟩ := hlive n List.mem_cons_self
    have hids : rememberId "id" ids (c.propsOf n) (f n) = (c.idAt n, f n) :: ids := by
      have hid := h.idOf_eq hrowN
      obtain ⟨v, hv, hstring⟩ := Option.bind_eq_some_iff.1 hid
      unfold rememberId
      rw [hv]
      cases v with
      | string s =>
        cases hstring
        rfl
      | _ => cases hstring
    show (c.remembered "id" f rids (rememberId "id" ids (c.propsOf n) (f n))).lookup _ = _
    rw [hids]
    refine ih (fun r hr => hlive r (List.mem_cons_of_mem n hr)) _ ?_
    by_cases hn : c.idAt rid = c.idAt n
    · obtain rfl := h.idAt_injective hrowN hrow hn
      exact .inr (by rw [List.lookup_cons, beq_self_eq_true])
    · rcases hmem with hmem | hmem
      · rcases List.mem_cons.1 hmem with rfl | hmem
        · exact absurd rfl hn
        · exact .inl hmem
      · exact .inr (by rw [List.lookup_cons, beq_eq_false_iff_ne.2 hn]; exact hmem)

/-- Every number of an export can stand in a text. -/
theorem allJson_export (h : c.Conforming dto) {rids eids : List RecordId}
    (hrids : ∀ rid ∈ rids, ∃ row, c.nodes rid = some row) (heids : ∀ eid ∈ eids, ∃ row, c.edges eid = some row) :
    (Value.array (rids.map c.nodeItem ++ eids.map c.edgeItem)).AllJson := by
  have hitems : ∀ items : List (Value F), (∀ v ∈ items, v.AllJson) → Value.AllJsonItems items := by
    intro items hall
    induction items with
    | nil => trivial
    | cons v items ih => exact ⟨hall v List.mem_cons_self, ih fun w hw => hall w (List.mem_cons_of_mem v hw)⟩
  refine hitems _ fun v hv => ?_
  rcases List.mem_append.1 hv with hv | hv
  · obtain ⟨rid, hrid, rfl⟩ := List.mem_map.1 hv
    obtain ⟨row, hrow⟩ := hrids rid hrid
    obtain ⟨name, hconf⟩ := h.node rid row hrow
    unfold Contents.nodeItem
    rw [hconf.record h.schema h.coherent]
    exact ⟨h.nodeJson rid row hrow, ⟨trivial, trivial, trivial⟩, trivial, trivial⟩
  · obtain ⟨eid, heid, rfl⟩ := List.mem_map.1 hv
    obtain ⟨row, hrow⟩ := heids eid heid
    obtain ⟨name, hconf⟩ := h.edge eid row hrow
    unfold Contents.edgeItem
    rw [hconf.record h.schema h.coherent]
    exact ⟨trivial, h.edgeJson eid row hrow, ⟨trivial, trivial, trivial⟩, trivial, trivial, trivial⟩

namespace Contents.Importable

variable (h : c.Importable M C dto)

include h

theorem nodeFits {rid : RecordId} {row : NodeRow F} (hrow : c.nodes rid = some row) :
    ∃ row name, c.NodeFits M C dto rid row name := by
  obtain ⟨name, hconf⟩ := h.node rid row hrow
  exact ⟨row, name, hconf, h.nodeTaken rid row hrow⟩

theorem edgeFits {eid : RecordId} {row : EdgeRow F} (hrow : c.edges eid = some row) :
    ∃ row name, c.EdgeFits M C dto eid row name := by
  obtain ⟨name, hconf⟩ := h.edge eid row hrow
  exact ⟨row, name, hconf, fun edge hdef => h.ends eid row name edge hrow hconf.id hdef, h.edgeTaken eid row hrow⟩

end Contents.Importable

/-- A first schema that has been applied. -/
theorem shows_applyFirst (hC : C.Faithful) {X : Pest} {source : String} (hsource : parse X source = .ok (dtoToAst dto))
    (hdto : dto.Coherent) (hshallow : dto.Shallow) {g₀ : Graph M} (hg₀ : applySchema C X source empty = (.ok (), g₀)) :
    ∃ dto', SameTypes dto dto' ∧ Graph.Shows C (Contents.ofSchema dto' : Contents F) g₀ := by
  have hpost := meets_applyFirst (M := M) (c := Contents.empty) hC rfl X source empty (shows_empty C)
  rw [hg₀] at hpost
  obtain ⟨ast, dto', hast, -, hids, hshows⟩ := hpost
  cases hsource.symm.trans hast
  obtain ⟨hdefs, hcoherent, hknown⟩ := assignTypeIds_none hids
  refine ⟨dto', ⟨hdto, hcoherent, hdefs, hknown⟩, hshows ?_⟩
  unfold SchemaDto.Shallow at hshallow ⊢
  rwa [show dto'.definitions = dto.definitions from congrArg SchemaAst.definitions hdefs]

/-- Nothing has been copied into it yet. -/
theorem copying_ofSchema (c : Contents F) (dto' : SchemaDto) (f g : RecordId → RecordId) :
    Copying c dto' ∅ ∅ f g (Contents.ofSchema dto') where
  schema := rfl
  copied := Multigraph.copied_empty c.graph f g
  live _ _ h := h.elim
  whole _ _ h := by cases h

/-- There is nothing that an import could find. -/
theorem finds_existing (hC : C.Faithful) (dto' : SchemaDto) :
    Command.Finds (Graph.Shows (M := M) C (Contents.ofSchema dto' : Contents F)) (Command.callOr [] (listNodes C none))
      (.ok []) := by
  intro s hs
  obtain ⟨rids, -, hmem, hfind⟩ := finds_listNodes (M := M) hs hC
  cases rids with
  | nil => exact Command.Finds.callOr hfind s ⟨rfl, rfl⟩
  | cons rid rids =>
    obtain ⟨row, hrow⟩ := (hmem rid).1 List.mem_cons_self
    cases hrow

theorem nodes_graph (c : Contents F) {rids : List RecordId} (hrids : ∀ rid, rid ∈ rids ↔ ∃ row, c.nodes rid = some row) :
    ∅ ∪ { r | r ∈ rids } = c.graph.nodes := by
  ext r
  rw [Set.empty_union, Set.mem_ofPred_eq, hrids, Multigraph.nodes, Set.mem_ofPred_eq]
  show _ ↔ ((c.nodes r).map c.seenNode).isSome
  rw [Option.isSome_map, Option.isSome_iff_exists]

theorem edges_graph (c : Contents F) {eids : List RecordId} (heids : ∀ eid, eid ∈ eids ↔ ∃ row, c.edges eid = some row) :
    ∅ ∪ { e | e ∈ eids } = c.graph.edges := by
  ext e
  rw [Set.empty_union, Set.mem_ofPred_eq, heids, Multigraph.edges, Set.mem_ofPred_eq]
  show _ ↔ ((c.edges e).map _).isSome
  rw [Option.isSome_map, Option.isSome_iff_exists]

/-- **The inserts of an import** into a database that only has a schema. -/
theorem runs_importRecords (hC : C.Faithful) {dto' : SchemaDto} (h : c.Importable M C dto) (hsame : SameTypes dto dto')
    {rids eids : List RecordId} (hrids : rids.Nodup ∧ ∀ rid, rid ∈ rids ↔ ∃ row, c.nodes rid = some row)
    (heids : eids.Nodup ∧ ∀ eid, eid ∈ eids ↔ ∃ row, c.edges eid = some row) :
    Command.Runs (Graph.Shows (M := M) C (Contents.ofSchema dto' : Contents F)) ((rids.map c.nodeCost).sum + eids.length * 8)
      (importRecords C "id" (rids.map c.nodeRecord, eids.map c.edgeRecord))
      fun n s => n = (rids.length, eids.length) ∧ ∃ c', Graph.Shows C c' s ∧ c.graph.Isomorphic c'.graph := by
  have hnodes : ∀ r ∈ (∅ ∪ { r | r ∈ rids } : Set RecordId), ∃ row, c.nodes r = some row :=
    fun r hr => (hrids.2 r).1 (hr.resolve_left fun h => h.elim)
  refine Command.Runs.found (finds_existing hC dto') ?_
  refine Command.Runs.bind (runs_importNodes hC h.schema hsame hrids.1 (fun r hr => ?_) (fun r hr => hr.elim)
    (fun r _ hr => hr.elim) (h.unique.mono (Set.subset_univ _)) (copying_ofSchema c dto' id id) []) fun ids =>
    Command.Runs.exists fun f => Command.Runs.exists fun c₁ => Command.Runs.mono (P := fun s => (ids = c.remembered "id" f rids [] ∧
      Copying c dto' (∅ ∪ { r | r ∈ rids }) ∅ f id c₁) ∧ Graph.Shows C c₁ s) ?_ (fun s hs => ⟨⟨hs.2.1, hs.2.2.1⟩, hs.2.2.2⟩)
      (Nat.le_refl (eids.length * 8)) fun _ _ hs => hs
  · obtain ⟨row, hrow⟩ := (hrids.2 r).1 hr
    exact h.nodeFits hrow
  refine Command.Runs.given fun ⟨hids, hcopy⟩ => ?_
  refine Command.Runs.bind (l := 0) (runs_importEdges hC h.schema hsame heids.1 (fun e he => ?_) (fun r => ?_) (fun r hr => ?_)
    (fun e _ he => he.elim) hcopy fun r hr => ?_) fun _ => Command.Runs.pure fun s hs => ⟨?_, ?_⟩
  · obtain ⟨row, hrow⟩ := (heids.2 e).1 he
    exact h.edgeFits hrow
  · refine ⟨hnodes r, fun hr => .inr ((hrids.2 r).2 hr)⟩
  · obtain ⟨row, hrow⟩ := hnodes r hr
    obtain ⟨name, hconf⟩ := h.node r row hrow
    exact ⟨row, name, hconf⟩
  · obtain ⟨row, hrow⟩ := hnodes r hr
    rw [hids]
    exact lookup_remembered h.toConforming (fun rid => (hrids.2 rid).1) [] hrow
      (.inl (hr.resolve_left fun h => h.elim))
  · rw [List.length_map, List.length_map]
  · obtain ⟨g, c₂, hcopy₂, hshows⟩ := hs
    have hcopied := hcopy₂.copied
    rw [nodes_graph c hrids.2, edges_graph c heids.2] at hcopied
    exact ⟨c₂, hshows, f, g, hcopied⟩

/-- The records of a JSON text are imported. -/
theorem importContent_json {J : JsonFormat F} {content : String}
    {records : List (Import.NodeRecord F) × List (Import.EdgeRecord F)} (hparse : parseJson J content = .ok records)
    (idProp : String) (V : CsvFormat) (g : Graph M) :
    importContent C idProp V J "json" content g = importRecords C idProp records g := by
  unfold importContent
  rw [hparse]
  rfl

end Import

/-! ## Edges that are refused -/

/-- **`insert_edge_by_name`** from a node of another type than the definition asks for. -/
theorem refuses_insertEdgeByName {F : Type} [F64 F] [F64Text F] {M : Type} [FaithfulBacking M] {C : Codecs F} {t : Topo}
    {b : Behind} {c : Contents F} {dto : SchemaDto} {edge : EdgeDef} {fromNode toNode : RecordId}
    {fromRow toRow : NodeRow F} {g : Graph M} (name : String) (typeId : UInt16) (props : Props F) (h : Depicts C t b c)
    (hg : Is t b g) (hC : C.Faithful) (hs : c.schema = some dto) (hdef : (dtoToAst dto).findEdge name = some edge)
    (hvalid : validateProperties name edge.props props = .ok ()) (hid : dto.registry.edgeTypeId name = some typeId)
    (hfrom : c.nodes fromNode = some fromRow) (hto : c.nodes toNode = some toRow)
    (hunfit : ¬ ∀ r, resolveEndpointType edge.fromType edge.genericParams = some r →
      (dto.registry.nodeTypeName fromRow.typeId).getD "" = r) :
    ∃ e, insertEdgeByName C name fromNode toNode props g = (.err e, g) := by
  obtain ⟨fromRecord, hfromRecord, hstored⟩ := exists_node h hfrom
  obtain ⟨toRecord, htoRecord, -⟩ := exists_node h hto
  obtain ⟨-, e, hcheck⟩ := (finds_checkEndpoint (M := M) (t := t) (b := b) dto name "from"
    (resolveEndpointType edge.fromType edge.genericParams) hstored.typeId).resolve_left fun hfit => hunfit hfit.1
  have hisFrom := finds_nodeExists_row (M := M) h fromNode g hg
  have hisTo := finds_nodeExists_row (M := M) h toNode g hg
  rw [hfrom] at hisFrom
  rw [hto] at hisTo
  refine ⟨e, ?_⟩
  unfold insertEdgeByName
  rw [run_then hisFrom]
  show (nodeExists toNode >>= fun ok => _ : Action (Graph M) RecordId) g = _
  rw [run_then hisTo]
  show insertEdgeChecked C name fromNode toNode props g = _
  unfold insertEdgeChecked
  rw [run_then (finds_readNode hfromRecord g hg), run_then (finds_readNode htoRecord g hg),
    run_then (finds_schema h hC hs g hg), hdef]
  dsimp only
  rw [hvalid]
  show (Graph.loadSchemaRegistry C >>= fun registry => _ : Action (Graph M) RecordId) g = _
  rw [run_then (finds_registry h hC hs g hg), hid]
  dsimp only
  rw [run_bind, hcheck g hg]
  rfl

/-! ## A loop -/

section Loop

/-- A node of a type, and an edge from it to itself, which is not inserted by name. -/
noncomputable def sampleLoop (type : String) : Action (Graph Parts) (RecordId × RecordId) := do
  let rid ← sample type "a"
  let eid ← insertEdge sampleCodecs 1 rid rid ∅
  pure (rid, eid)

noncomputable def loopContents (typeId : UInt16) (rid eid : RecordId) : Contents Double :=
  (sampleContents typeId "a" rid).setEdge eid (some ⟨1, rid, rid, ∅, []⟩)

variable {type : String} {typeId : UInt16} {rid eid x : RecordId}

theorem loop_runs (htype : (type, typeId) ∈ sampleDto.nodeTypeIds) : ∃ rid eid g,
    sampleLoop type empty = (.ok (rid, eid), g) ∧ Graph.Shows sampleCodecs (loopContents typeId rid eid) g := by
  obtain ⟨rid, g, hrun, hshows, hroom⟩ := sample_runs htype (.inl rfl)
  have hlive : ((sampleContents typeId "a" rid).nodes rid).isSome := by
    rw [nodes_sample]
    rfl
  have htaken : PropsTaken Parts sampleCodecs ∅ := .inl rfl
  obtain ⟨eid, g', hrun', ⟨-, hshows'⟩, -⟩ :=
    runs_insertEdge sampleCodecs_faithful hlive hlive 1 htaken g 92 hshows hroom
  exact ⟨rid, eid, g', (run_then hrun _).trans (run_then hrun' _), hshows'⟩

theorem nodes_loop {row : NodeRow Double} (hrow : (loopContents typeId rid eid).nodes x = some row) :
    x = rid ∧ row = ⟨typeId, sampleProps "a", []⟩ := by
  have hrow : Function.update (fun _ => none) rid (some ⟨typeId, sampleProps "a", []⟩) x = some row := hrow
  rw [Function.update_apply] at hrow
  split at hrow
  · rename_i hx
    exact ⟨hx, (Option.some.inj hrow).symm⟩
  · cases hrow

theorem edges_loop {row : EdgeRow Double} (hrow : (loopContents typeId rid eid).edges x = some row) :
    x = eid ∧ row = ⟨1, rid, rid, ∅, []⟩ := by
  have hrow : Function.update (fun _ => none) eid (some ⟨1, rid, rid, ∅, []⟩) x = some row := hrow
  rw [Function.update_apply] at hrow
  split at hrow
  · rename_i hx
    exact ⟨hx, (Option.some.inj hrow).symm⟩
  · cases hrow

theorem nodes_loop_iff : (∃ row, (loopContents typeId rid eid).nodes x = some row) ↔ x = rid := by
  refine ⟨fun ⟨row, hrow⟩ => (nodes_loop hrow).1, ?_⟩
  rintro rfl
  exact ⟨_, Function.update_self _ _ _⟩

theorem edges_loop_iff : (∃ row, (loopContents typeId rid eid).edges x = some row) ↔ x = eid := by
  refine ⟨fun ⟨row, hrow⟩ => (edges_loop hrow).1, ?_⟩
  rintro rfl
  exact ⟨_, Function.update_self _ _ _⟩

theorem shown_loop (htype : (type, typeId) ∈ sampleDto.nodeTypeIds) :
    (loopContents typeId rid eid).shownNode ⟨typeId, sampleProps "a", []⟩ = sampleProps "a" :=
  visible_sample (c := loopContents typeId rid eid) rfl htype "a"

theorem conforming_loop (htype : (type, typeId) ∈ sampleDto.nodeTypeIds) :
    (loopContents typeId rid eid).Conforming sampleDto where
  schema := rfl
  coherent := coherent_sampleDto
  node x row hrow := by
    obtain ⟨rfl, rfl⟩ := nodes_loop hrow
    obtain ⟨hid, node, hdef, hfields⟩ := find_sampleType htype
    refine ⟨type, hrow, hid, ⟨node, hdef, ?_⟩, rfl⟩
    rw [shown_loop htype, hfields]
    rfl
  edge x row hrow := by
    obtain ⟨rfl, rfl⟩ := edges_loop hrow
    exact ⟨"E", hrow, rfl, ⟨_, rfl, rfl⟩, rfl⟩
  ids x row hrow := by
    obtain ⟨rfl, rfl⟩ := nodes_loop hrow
    refine ⟨"a", ?_, fun y row' hrow' _ => (nodes_loop hrow').1⟩
    rw [shown_loop htype]
    rfl
  nodeJson x row hrow := by
    obtain ⟨rfl, rfl⟩ := nodes_loop hrow
    rw [shown_loop htype]
    exact ⟨trivial, trivial⟩
  edgeJson x row hrow := by
    obtain ⟨rfl, rfl⟩ := edges_loop hrow
    exact trivial

/-- A loop at a node of the type that the edge asks for. -/
theorem importable_loop : (loopContents 1 rid eid).Importable Parts sampleCodecs sampleDto where
  toConforming := conforming_loop sampleType_mem.1
  nodeTaken x row hrow := by
    obtain ⟨rfl, rfl⟩ := nodes_loop hrow
    rw [shown_loop sampleType_mem.1]
    exact taken_sampleProps (.inl rfl)
  edgeTaken x row hrow := by
    obtain ⟨rfl, rfl⟩ := edges_loop hrow
    exact .inl rfl
  ends x row name edge hrow hname hdef := by
    obtain ⟨rfl, rfl⟩ := edges_loop hrow
    have hedge : sampleDto.registry.typeIdOf .edge "E" = some 1 := rfl
    cases coherent_sampleDto.name_eq hedge hname
    cases hdef
    have hlive : (loopContents 1 rid x).nodes rid = some ⟨1, sampleProps "a", []⟩ := Function.update_self _ _ _
    refine ⟨⟨_, hlive, fun name' hname' => ?_⟩, _, hlive, fun name' hname' => ?_⟩
    · cases hname'
      decide
    · cases hname'
      decide
  unique x _ y _ row row' hrow hrow' _ _ _ _ _ _ := (nodes_loop hrow').1.trans (nodes_loop hrow).1.symm

/-- The import of a loop, at a node of another type than the edge asks for. -/
theorem refuses_importRecords : ∃ e g', importRecords sampleCodecs "id" ([("B", sampleProps "a")], [("E", "a", "a", ∅)])
    (withSchema (sampleCodecs.schema.toVec sampleDto)) = (.ok (.error e), g') := by
  have hshows := shows_withSchema (C := sampleCodecs) (F := Double) shallow_sampleDto
  obtain ⟨rid, g, hrun, hshowsNode, -⟩ := sample_runs sampleType_mem.2 (.inl rfl)
  have hinsert : insertNodeByName sampleCodecs "B" (sampleProps "a") (withSchema (sampleCodecs.schema.toVec sampleDto)) =
      (.ok rid, g) := (run_sample "B" "a").symm.trans hrun
  have hlive := nodes_sample 2 "a" rid
  obtain ⟨e, hrefused⟩ := refuses_insertEdgeByName "E" 1 ∅ hshowsNode ⟨rfl, rfl⟩ sampleCodecs_faithful rfl rfl rfl (by decide)
    hlive hlive fun hall => absurd (hall "A" rfl) (by decide)
  have hexisting := finds_existing (M := Parts) (F := Double) sampleCodecs_faithful sampleDto _ hshows
  have hnodes : importNodes sampleCodecs "id" [("B", sampleProps "a")]
      (existingIds "id" ([] : List (RecordId × Props Double)))
      (withSchema (sampleCodecs.schema.toVec sampleDto)) = (.ok (.ok [("a", rid)]), g) := by
    rw [importNodes, Command.run_then (Command.run_call hinsert _)]
    rfl
  have hedges : importEdges sampleCodecs "id" [("a", rid)] [("E", "a", "a", ∅)] g = (.ok (.error (.context
      ("failed to insert edge of type '" ++ "E" ++ "'") e)), g) := by
    have hfound : (nodeOfId "id" [("a", rid)] "a" : Command (Graph Parts) RecordId) g = (.ok (.ok rid), g) := rfl
    rw [importEdges, Command.run_then hfound, Command.run_then hfound]
    exact Command.run_stop (Command.run_call_err hrefused _) _
  refine ⟨.context ("failed to insert edge of type '" ++ "E" ++ "'") e, g, ?_⟩
  unfold importRecords
  rw [Command.run_then hexisting, Command.run_then hnodes]
  exact Command.run_stop hedges _

end Loop

end ChiffonDB

import ChiffonDB.Graph.Edits
import ChiffonDB.Lib.Multigraph

/-!
# Rebuilding a database

What `vacuum` makes of the contents of a database: the same records, as they are shown, under other ids.

* `Contents.shown` — the records of a database, as they are shown.
* `Copies` — some of these records are all there is in another database of the same schema.
* `Rebuilt` — all of them are; `Graph.meets_rebuilt` — **a rebuild keeps every record, or nothing changes**.
-/

set_option autoImplicit false

set_option linter.unusedSectionVars false

namespace ChiffonDB

open Action PropertyIndex

variable {F : Type} [F64 F] [F64Text F] {M : Type} [FaithfulBacking M]

/-! ## What is shown -/

/-- A record as it is shown. -/
structure Shown (F : Type) [F64 F] where
  typeId : UInt16
  props : Props F
  labels : List UInt16

theorem eraseDups_of_nodup {α : Type} [DecidableEq α] {l : List α} (h : l.Nodup) : l.eraseDups = l := by
  induction l with
  | nil => rfl
  | cons a l ih =>
    obtain ⟨ha, hl⟩ := List.nodup_cons.1 h
    have hkept : (l.filter fun b => !b == a) = l := by
      apply List.filter_eq_self.2
      intro b hb
      rw [Bool.not_eq_true', beq_eq_false_iff_ne]
      rintro rfl
      exact ha hb
    rw [List.eraseDups_cons, hkept, ih hl]

/-- A label list that is normal stays as it is. -/
theorem normalizeLabels_of_nodup {primary : UInt16} {labels : List UInt16} (h : (primary :: labels).Nodup) :
    normalizeLabels primary labels = labels := by
  obtain ⟨hprimary, hnd⟩ := List.nodup_cons.1 h
  unfold normalizeLabels
  have hkept : labels.filter (· ≠ primary) = labels := by
    apply List.filter_eq_self.2
    intro label hlabel
    apply decide_eq_true
    rintro rfl
    exact hprimary hlabel
  rw [hkept, eraseDups_of_nodup hnd]

namespace Contents

variable (c : Contents F)

/-- The records of a database, as they are shown. -/
def shown : Multigraph RecordId RecordId (Shown F) (Shown F) where
  node rid := (c.nodes rid).map fun row => ⟨row.typeId, c.shownNode row, row.labels⟩
  edge eid := (c.edges eid).map fun row => (row.fromNode, row.toNode, ⟨row.typeId, c.shownEdge row, row.labels⟩)

/-- The nodes that are shown are the live ones. -/
theorem shown_nodes : c.shown.nodes = { rid | (c.nodes rid).isSome } :=
  Set.ext fun rid => by simp [shown, Multigraph.nodes]

theorem shown_edges : c.shown.edges = { eid | (c.edges eid).isSome } :=
  Set.ext fun eid => by simp [shown, Multigraph.edges]

variable {c} {c' : Contents F}

/-- **A node comes, and nothing else changes.** -/
theorem shown_setNode (hs : c'.schema = c.schema) {rid : RecordId} {row : NodeRow F}
    (hn : c'.nodes = Function.update c.nodes rid (some row)) (he : c'.edges = c.edges) :
    c'.shown = c.shown.setNode rid ⟨row.typeId, c.shownNode row, row.labels⟩ := by
  have hvisible : ∀ kind id props, c'.visible kind id props = c.visible kind id props :=
    (SameTypes.of_schema hs).visible
  have hnode : c'.shown.node = (c.shown.setNode rid ⟨row.typeId, c.shownNode row, row.labels⟩).node := by
    funext x
    show (c'.nodes x).map _ = Function.update c.shown.node rid _ x
    simp only [hn, shownNode, hvisible]
    by_cases hx : x = rid
    · rw [hx, Function.update_self, Function.update_self]
      rfl
    · rw [Function.update_of_ne hx, Function.update_of_ne hx]
      rfl
  have hedge : c'.shown.edge = c.shown.edge := by
    funext x
    show (c'.edges x).map _ = (c.edges x).map _
    simp only [he, shownEdge, hvisible]
  show Multigraph.mk c'.shown.node c'.shown.edge = _
  rw [hnode, hedge]
  rfl

/-- **An edge comes.** -/
theorem shown_setEdge (c : Contents F) (eid : RecordId) (row : EdgeRow F) : (c.setEdge eid (some row)).shown =
    c.shown.setEdge eid row.fromNode row.toNode ⟨row.typeId, c.shownEdge row, row.labels⟩ := by
  have hedge : (c.setEdge eid (some row)).shown.edge =
      Function.update c.shown.edge eid (some (row.fromNode, row.toNode, ⟨row.typeId, c.shownEdge row, row.labels⟩)) := by
    funext x
    show (Function.update c.edges eid (some row) x).map _ = Function.update c.shown.edge eid _ x
    by_cases hx : x = eid
    · rw [hx, Function.update_self, Function.update_self]
      rfl
    · rw [Function.update_of_ne hx, Function.update_of_ne hx]
      rfl
  show Multigraph.mk c.shown.node (c.setEdge eid (some row)).shown.edge = _
  rw [hedge]
  rfl

end Contents

/-! ## Copies -/

/-- Some nodes and some edges of `c` are all there is in `c'`, which inserts have made. -/
structure Copies (C : Codecs F) (c : Contents F) (S T : Set RecordId) (f g : RecordId → RecordId) (c' : Contents F) :
    Prop where
  schema : c'.schema = c.schema
  copied : Multigraph.Copied c.shown c'.shown S T f g
  edits : Contents.Edits C c.Conforms (Contents.empty.withSchema c.schema) c'

/-- All records are there again, as they were shown. -/
def Rebuilt (C : Codecs F) (c c' : Contents F) : Prop :=
  ∃ f g, Copies C c { rid | (c.nodes rid).isSome } { eid | (c.edges eid).isSome } f g c'

section Copies

variable {C : Codecs F} {c c' : Contents F} {S T : Set RecordId} {f g : RecordId → RecordId} {rid rid' : RecordId}

theorem copies_empty (C : Codecs F) (c : Contents F) (f g : RecordId → RecordId) :
    Copies C c ∅ ∅ f g (Contents.empty.withSchema c.schema) where
  schema := rfl
  copied := Multigraph.copied_empty c.shown f g
  edits := .refl

/-- **A node**, with its labels or without any. -/
theorem Copies.insertNode (h : Copies C c S ∅ f g c') {row : NodeRow F} (hrow : c.nodes rid = some row)
    (hnd : (row.typeId :: row.labels).Nodup) (hnew : rid ∉ S) (hfresh : c'.nodes rid' = none)
    (hadmits : c'.Admits C row.typeId (c.shownNode row) none) {c'' : Contents F}
    (hc'' : c'' = if row.labels.isEmpty then c'.insertNode C rid' row.typeId (c.shownNode row)
      else (c'.insertNode C rid' row.typeId (c.shownNode row)).relabel rid' ⟨row.typeId, c.shownNode row, []⟩ row.labels) :
    Copies C c (insert rid S) ∅ (Function.update f rid rid') g c'' := by
  have haccepts : c.Conforms → c'.Accepts .node row.typeId (c.shownNode row) := fun hconforms =>
    (hconforms.records .node rid _ _ (congrArg (Option.map _) hrow)).visible.congr h.schema
  have hinsert : Contents.Edit C c.Conforms c' (c'.insertNode C rid' row.typeId (c.shownNode row)) :=
    .insertNode hfresh hadmits haccepts
  have hin : (c'.insertNode C rid' row.typeId (c.shownNode row)).nodes rid' = some ⟨row.typeId, c.shownNode row, []⟩ :=
    Function.update_self _ _ _
  -- in both cases the node is there with the labels it had
  have hcase : (c''.schema = c.schema ∧ c''.edges = c'.edges) ∧
      c''.nodes = Function.update c'.nodes rid' (some ⟨row.typeId, c.shownNode row, row.labels⟩) ∧
      Contents.Edits C c.Conforms (Contents.empty.withSchema c.schema) c'' := by
    split at hc''
    · rename_i hempty
      subst hc''
      rw [List.isEmpty_iff.1 hempty]
      exact ⟨⟨h.schema, rfl⟩, rfl, h.edits.tail hinsert⟩
    · subst hc''
      refine ⟨⟨h.schema, rfl⟩, ?_, (h.edits.tail hinsert).tail (.relabel hin hnd)⟩
      exact Function.update_idem _ _ _
  obtain ⟨⟨hschema, hedges⟩, hnodes, hedits⟩ := hcase
  refine ⟨hschema, ?_, hedits⟩
  rw [Contents.shown_setNode (hschema.trans h.schema.symm) hnodes hedges]
  have hvisible : c'.shownNode ⟨row.typeId, c.shownNode row, row.labels⟩ = c.shownNode row := by
    unfold Contents.shownNode
    rw [(Contents.SameTypes.of_schema h.schema).visible, Contents.visible_idem]
  rw [hvisible]
  refine h.copied.setNode hnew ?_ ?_ fun e he => he.elim
  · show (c'.nodes rid').map _ = none
    rw [hfresh]
    rfl
  · show (c.nodes rid).map _ = _
    rw [hrow]
    rfl

/-- **An edge**, with its labels, between the copies of its nodes. -/
theorem Copies.insertEdge (h : Copies C c S T f g c') {row : EdgeRow F} (hrow : c.edges rid = some row)
    (hnd : (row.typeId :: row.labels).Nodup) (hnew : rid ∉ T) (hfresh : c'.edges rid' = none)
    (hfrom : (c'.nodes (f row.fromNode)).isSome) (hto : (c'.nodes (f row.toNode)).isSome) :
    Copies C c S (insert rid T) f (Function.update g rid rid')
      (c'.setEdge rid' (some ⟨row.typeId, f row.fromNode, f row.toNode, c.shownEdge row, row.labels⟩)) := by
  have haccepts : c.Conforms → c'.Accepts .edge row.typeId (c.shownEdge row) := fun hconforms =>
    (hconforms.records .edge rid _ _ (congrArg (Option.map _) hrow)).visible.congr h.schema
  have hinsert : Contents.Edit C c.Conforms c'
      (c'.setEdge rid' (some ⟨row.typeId, f row.fromNode, f row.toNode, c.shownEdge row, []⟩)) :=
    .insertEdge hfresh hfrom hto haccepts
  have hin : (c'.setEdge rid' (some ⟨row.typeId, f row.fromNode, f row.toNode, c.shownEdge row, []⟩)).edges rid' =
      some ⟨row.typeId, f row.fromNode, f row.toNode, c.shownEdge row, []⟩ := Function.update_self _ _ _
  refine ⟨h.schema, ?_, ?_⟩
  · rw [Contents.shown_setEdge]
    have hvisible : c'.shownEdge ⟨row.typeId, f row.fromNode, f row.toNode, c.shownEdge row, row.labels⟩ = c.shownEdge row := by
      unfold Contents.shownEdge
      rw [(Contents.SameTypes.of_schema h.schema).visible, Contents.visible_idem]
    rw [hvisible]
    refine h.copied.setEdge hnew ?_ ?_
    · show (c'.edges rid').map _ = none
      rw [hfresh]
      rfl
    · show (c.edges rid).map _ = _
      rw [hrow]
      rfl
  · have hlabels := (h.edits.tail hinsert).tail (Contents.Edit.relabelEdge hin hnd)
    unfold Contents.relabelEdge Contents.setEdge at hlabels
    rw [Function.update_idem] at hlabels
    exact hlabels

/-- The copies of live nodes are live. -/
theorem Copies.live (h : Copies C c S T f g c') (hmem : rid ∈ S) : (c'.nodes (f rid)).isSome := by
  have hnode : (c'.shown.node (f rid)).isSome := h.copied.nodes.mapsTo hmem
  rwa [Contents.shown, Option.isSome_map] at hnode

end Copies

namespace Graph

variable {C : Codecs F} {t : Topo} {b : Behind} {c c' : Contents F} {S T : Set RecordId} {f g : RecordId → RecordId}

/-! ## Two databases -/

/-- The database that is copied, and what its copy shows. -/
def CopyShows (C : Codecs F) (t : Topo) (b : Behind) (c' : Contents F) (s : Graph M × Graph M) : Prop :=
  Is t b s.1 ∧ Shows C c' s.2

theorem finds_onSource {α : Type} {p : Action (Graph M) α} {r : Except GraphError α} (hp : Finds (Is t b) p r) :
    Finds (CopyShows C t b c') (onSource p) r := by
  intro s hs
  show ((p s.1).1, ((p s.1).2, s.2)) = _
  rw [hp s.1 hs.1]

theorem meets_onCopy {α : Type} {p : Action (Graph M) α} {Q : α → Graph M → Prop} {E : Graph M → Prop}
    (hp : Meets (Shows C c') p Q E) :
    Meets (CopyShows C t b c') (onCopy p) (fun a s => Is t b s.1 ∧ Q a s.2) fun s => Is t b s.1 :=
  Meets.zoom hp (fun _ hs => hs.2) (fun _ _ _ hs hq => ⟨hs.1, hq⟩) fun _ _ hs _ => hs.1

theorem finds_orEmpty {P : Graph M → Prop} {p : Action (Graph M) (Props F)} {props : Props F} (hp : Finds P p (.ok props)) :
    Finds P (orEmpty p) (.ok props) := by
  refine hp.attempt.bind (u := fun _ => .ok props) fun r hr => ?_
  cases hr
  exact Finds.pure props

/-- **The schema.** -/
theorem meets_copySchema (h : Depicts C t b c) (hC : C.Faithful) :
    Meets (CopyShows (M := M) C t b .empty) (copySchema C) (fun _ => CopyShows C t b (Contents.empty.withSchema c.schema))
      fun s => Is t b s.1 := by
  intro s hs
  unfold copySchema
  rw [run_bind, run_get]
  show Post _ _ ((if !Backing.hasSchema s.1.pages then _ else _ : Action (Graph M × Graph M) Unit) s)
  rw [hasSchema_iff h hs.1]
  cases hc : c.schema with
  | none => exact hs
  | some dto =>
    have hload := finds_loadSchemaDto (M := M) h hC
    rw [loaded_of_schema hc] at hload
    refine Meets.found (P := CopyShows (M := M) C t b .empty) (finds_onSource hload) ?_ s hs
    have hwrite : Meets (Shows (M := M) C .empty) (writeSchemaDto C dto)
        (fun _ => Shows C (Contents.empty.withSchema (some dto))) fun _ => False :=
      meets_shows fun t' b' h' => (meets_writeSchemaDto C dto).mono (fun _ hg => hg)
        (fun _ g hg => hg.shows (h'.setSchema (h.shallow dto hc))) fun _ hg => hg
    exact (meets_onCopy hwrite).mono (fun _ hs => hs) (fun _ _ hs => hs) fun _ hs => hs

/-- **One node.** -/
theorem meets_copyNode (h : Depicts C t b c) (hC : C.Faithful) {rid : RecordId} {row : NodeRow F}
    (hrow : c.nodes rid = some row) (hnd : (row.typeId :: row.labels).Nodup) (hnew : rid ∉ S)
    (hcopy : Copies C c S ∅ f g c') :
    Meets (CopyShows (M := M) C t b c') (copyNode C rid) (fun found s => ∃ rid' c'', (found = some (rid, rid') ∧
      Copies C c (insert rid S) ∅ (Function.update f rid rid') g c'') ∧ CopyShows C t b c'' s) fun s => Is t b s.1 := by
  obtain ⟨r, hr, hstored⟩ := exists_node h hrow
  refine Meets.found (finds_onSource (finds_readNode hr).attempt) ?_
  dsimp only
  refine Meets.found (finds_onSource (finds_orEmpty (finds_getNodeProperties h hrow hC))) ?_
  refine Meets.found (finds_onSource (finds_getAdditionalLabels h hrow)) ?_
  rw [hstored.typeId]
  refine Meets.bind (meets_onCopy (meets_insertNodeWithLabels hC row.typeId row.labels _)) fun rid' =>
    Meets.pure fun s hs => ?_
  obtain ⟨hsource, ⟨hfresh, -, hadmits⟩, hshows⟩ := hs
  refine ⟨rid', _, ⟨rfl, hcopy.insertNode hrow hnd hnew hfresh hadmits rfl⟩, hsource, ?_⟩
  rw [normalizeLabels_of_nodup hnd] at hshows
  split at hshows
  · rename_i hempty
    rw [if_pos hempty]
    exact hshows
  · rename_i hsome
    rw [if_neg hsome]
    exact hshows.2

/-- **The nodes**, and where each of them has gone. -/
theorem meets_copyNodes (h : Depicts C t b c) (hC : C.Faithful) (hc : c.Sound) {rids : List RecordId} (hnd : rids.Nodup)
    (hlive : ∀ rid ∈ rids, (c.nodes rid).isSome) (hnew : ∀ rid ∈ rids, rid ∉ S) (hcopy : Copies C c S ∅ f g c') :
    Meets (CopyShows (M := M) C t b c') (Action.collect rids (copyNode C)) (fun ridMap s => ∃ f' c'',
      ((∀ rid ∈ S, f' rid = f rid) ∧ (∀ rid ∈ rids, ridMap.lookup rid = some (f' rid)) ∧
        Copies C c (S ∪ { rid | rid ∈ rids }) ∅ f' g c'') ∧ CopyShows C t b c'' s) fun s => Is t b s.1 := by
  induction rids generalizing S f c' with
  | nil =>
    refine Meets.pure fun s hs => ⟨f, c', ⟨fun _ _ => rfl, fun _ hm => absurd hm List.not_mem_nil, ?_⟩, hs⟩
    rw [show S ∪ { rid | rid ∈ ([] : List RecordId) } = S by ext; simp]
    exact hcopy
  | cons rid rids ih =>
    obtain ⟨hnotin, hnd⟩ := List.nodup_cons.1 hnd
    obtain ⟨row, hrow⟩ := Option.isSome_iff_exists.1 (hlive rid List.mem_cons_self)
    have hrid : rid ∉ S := hnew rid List.mem_cons_self
    refine Meets.bind (meets_copyNode h hC hrow (hc.labels.normal rid row hrow) hrid hcopy) fun found =>
      Meets.exists fun rid' => Meets.exists fun c₁ => Meets.given ?_
    rintro ⟨rfl, hcopy₁⟩
    refine Meets.bind (ih hnd (fun r hr => hlive r (List.mem_cons_of_mem _ hr)) ?_ hcopy₁) fun ridMap =>
      Meets.exists fun f' => Meets.exists fun c₂ => Meets.given ?_
    · rintro r hr (rfl | hS)
      · exact hnotin hr
      · exact hnew r (List.mem_cons_of_mem _ hr) hS
    rintro ⟨hsame, hlookup, hcopy₂⟩
    refine Meets.pure fun s hs => ⟨f', c₂, ⟨fun r hr => ?_, fun r hr => ?_, ?_⟩, hs⟩
    · rw [hsame r (Set.mem_insert_of_mem rid hr), Function.update_of_ne]
      rintro rfl
      exact hrid hr
    · have hself : f' rid = rid' := (hsame rid (Set.mem_insert rid S)).trans (Function.update_self _ _ _)
      show List.lookup r ((rid, rid') :: ridMap) = _
      by_cases hr' : r = rid
      · rw [hr', List.lookup_cons_self, hself]
      · have hne : (r == rid) = false := beq_false_of_ne hr'
        rw [List.lookup_cons, hne]
        exact hlookup r ((List.mem_cons.1 hr).resolve_left hr')
    · rw [show S ∪ { r | r ∈ rid :: rids } = insert rid S ∪ { r | r ∈ rids } by
        ext r
        simp only [Set.mem_union, Set.mem_ofPred_eq, List.mem_cons, Set.mem_insert_iff]
        tauto]
      exact hcopy₂

/-- **One edge**: both of its nodes have been copied. -/
theorem meets_copyEdge (h : Depicts C t b c) (hC : C.Faithful) (hc : c.Sound) {ridMap : List (RecordId × RecordId)}
    (hS : ∀ rid, (c.nodes rid).isSome → rid ∈ S) (hlookup : ∀ rid, (c.nodes rid).isSome → ridMap.lookup rid = some (f rid))
    {eid : RecordId} (hlive : (c.edges eid).isSome) (hnew : eid ∉ T) (hcopy : Copies C c S T f g c') :
    Meets (CopyShows (M := M) C t b c') (copyEdge C ridMap eid) (fun _ s => ∃ eid' c'',
      Copies C c S (insert eid T) f (Function.update g eid eid') c'' ∧ CopyShows C t b c'' s) fun s => Is t b s.1 := by
  obtain ⟨row, hrow⟩ := Option.isSome_iff_exists.1 hlive
  have hfrom := hc.edges.fromNode eid row hrow
  have hto := hc.edges.toNode eid row hrow
  obtain ⟨r, hr, hstored⟩ := exists_edge h hrow
  refine Meets.found (finds_onSource (finds_readEdge hr).attempt) ?_
  dsimp only
  rw [hstored.fromNode, hstored.toNode, hlookup _ hfrom, hlookup _ hto]
  dsimp only
  refine Meets.found (finds_onSource (finds_orEmpty (finds_getEdgeProperties h hrow hC))) ?_
  refine Meets.found (finds_onSource (finds_getEdgeAdditionalLabels h hrow)) ?_
  rw [hstored.typeId]
  have hfrom' := hcopy.live (hS _ hfrom)
  have hto' := hcopy.live (hS _ hto)
  refine Meets.bind (meets_onCopy (meets_insertEdgeWithLabels hC hfrom' hto' row.typeId row.labels _)) fun eid' =>
    Meets.pure fun s hs => ?_
  obtain ⟨hsource, ⟨hfresh, -⟩, hshows⟩ := hs
  have hnd := hc.edges.labels eid row hrow
  refine ⟨eid', _, hcopy.insertEdge hrow hnd hnew hfresh hfrom' hto', hsource, ?_⟩
  rw [normalizeLabels_of_nodup hnd] at hshows
  split at hshows
  · rename_i hempty
    rw [List.isEmpty_iff.1 hempty]
    exact hshows
  · exact hshows

/-- **The edges.** -/
theorem meets_copyEdges (h : Depicts C t b c) (hC : C.Faithful) (hc : c.Sound) {ridMap : List (RecordId × RecordId)}
    (hS : ∀ rid, (c.nodes rid).isSome → rid ∈ S) (hlookup : ∀ rid, (c.nodes rid).isSome → ridMap.lookup rid = some (f rid))
    {eids : List RecordId} (hnd : eids.Nodup) (hlive : ∀ eid ∈ eids, (c.edges eid).isSome) (hnew : ∀ eid ∈ eids, eid ∉ T)
    (hcopy : Copies C c S T f g c') :
    Meets (CopyShows (M := M) C t b c') (Action.forEach eids (copyEdge C ridMap)) (fun _ s => ∃ g' c'',
      Copies C c S (T ∪ { eid | eid ∈ eids }) f g' c'' ∧ CopyShows C t b c'' s) fun s => Is t b s.1 := by
  induction eids generalizing T g c' with
  | nil =>
    refine Meets.pure fun s hs => ⟨g, c', ?_, hs⟩
    rw [show T ∪ { eid | eid ∈ ([] : List RecordId) } = T by ext; simp]
    exact hcopy
  | cons eid eids ih =>
    obtain ⟨hnotin, hnd⟩ := List.nodup_cons.1 hnd
    refine Meets.bind (meets_copyEdge h hC hc hS hlookup (hlive eid List.mem_cons_self) (hnew eid List.mem_cons_self) hcopy)
      fun _ => Meets.exists fun eid' => Meets.exists fun c₁ => Meets.given fun hcopy₁ => ?_
    rw [show T ∪ { d | d ∈ eid :: eids } = insert eid T ∪ { d | d ∈ eids } by
      ext d
      simp only [Set.mem_union, Set.mem_ofPred_eq, List.mem_cons, Set.mem_insert_iff]
      tauto]
    refine ih hnd (fun d hd => hlive d (List.mem_cons_of_mem _ hd)) ?_ hcopy₁
    rintro d hd (rfl | hT)
    · exact hnotin hd
    · exact hnew d (List.mem_cons_of_mem _ hd) hT

/-- **`copy_live_contents_into`**, a new database. -/
theorem meets_copyLiveContents (h : Depicts C t b c) (hC : C.Faithful) (hc : c.Sound) :
    Meets (CopyShows (M := M) C t b .empty) (copyLiveContents C)
      (fun _ s => ∃ c', Rebuilt C c c' ∧ CopyShows C t b c' s) fun s => Is t b s.1 := by
  obtain ⟨nodes, hnodes, hnd, hnodesMem⟩ := finds_liveNodeRids (M := M) h
  obtain ⟨edges, hedges, hndEdges, hedgesMem⟩ := finds_liveEdgeRids (M := M) h
  simp only [← Option.isSome_iff_exists] at hnodesMem hedgesMem
  refine Meets.bind (meets_copySchema h hC) fun _ => ?_
  refine Meets.found (finds_onSource hnodes) ?_
  refine Meets.bind (meets_copyNodes h hC hc hnd (fun rid hr => (hnodesMem rid).1 hr) (fun _ _ hm => hm.elim)
    (copies_empty C c id id)) fun ridMap => Meets.exists fun f => Meets.exists fun c₁ => Meets.given ?_
  rintro ⟨-, hlookup, hcopy⟩
  have hS : (∅ : Set RecordId) ∪ { rid | rid ∈ nodes } = { rid | (c.nodes rid).isSome } := by
    ext rid
    simp [hnodesMem]
  rw [hS] at hcopy
  refine Meets.found (finds_onSource hedges) ?_
  refine (meets_copyEdges h hC hc (fun rid hr => hr) (fun rid hr => hlookup rid ((hnodesMem rid).2 hr)) hndEdges
    (fun eid he => (hedgesMem eid).1 he) (fun _ _ hm => hm.elim) hcopy).mono (fun _ hs => hs) (fun _ s hs => ?_) fun _ hs => hs
  obtain ⟨g, c₂, hcopy₂, hshows⟩ := hs
  have hT : (∅ : Set RecordId) ∪ { eid | eid ∈ edges } = { eid | (c.edges eid).isSome } := by
    ext eid
    simp [hedgesMem]
  rw [hT] at hcopy₂
  exact ⟨c₂, ⟨f, g, hcopy₂⟩, hshows⟩

/-- **`vacuum`**: all records are there again, or nothing has changed. -/
theorem meets_rebuilt (hC : C.Faithful) (hc : c.Sound) :
    Meets (Shows (M := M) C c) (vacuum C) (fun _ g => ∃ c', Rebuilt C c c' ∧ Shows C c' g) (Shows C c) := by
  refine meets_shows fun t b h g hg => ?_
  have hpost := meets_copyLiveContents (M := M) h hC hc (g, empty) ⟨hg, shows_empty C⟩
  unfold vacuum
  cases hr : copyLiveContents C (g, empty) with
  | mk r s =>
    rw [hr] at hpost
    obtain ⟨source, copy⟩ := s
    cases r with
    | ok a =>
      obtain ⟨c', hrebuilt, -, hshows⟩ := hpost
      exact ⟨c', hrebuilt, hshows⟩
    | err e => exact Is.shows hpost h
    | panic => trivial

end Graph

end ChiffonDB

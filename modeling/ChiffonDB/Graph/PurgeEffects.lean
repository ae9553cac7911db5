import ChiffonDB.Graph.ConvertEffects

/-!
# Applying a schema

What `apply_schema` does to the contents of a database, with the values of fields that are gone.

* `purgePlan`, `edgePurgePlan` — the records of a type without the values of other fields than those that are kept.
* `SchemaApplied` — what a new schema leaves behind.
* `Graph.meets_schemaApplied` — **the schema and all records change together, or nothing does**.
-/

set_option autoImplicit false

set_option linter.unusedSectionVars false

namespace ChiffonDB

open Action PropertyIndex

variable {F : Type} [F64 F] [F64Text F] {M : Type} [FaithfulBacking M]

/-! ## Plans -/

theorem FieldPurge.kept_empty (purge : FieldPurge) : purge.kept (∅ : Props F) = none := by
  unfold FieldPurge.kept
  rw [if_pos (by simp)]

/-- What the purge of a node type makes of a record. -/
def purgePlan (C : Codecs F) (purge : FieldPurge) : Plan F := fun k _ ty props =>
  if k = .node ∧ ty = purge.typeId then
    (purge.kept props).map fun kept => ⟨kept, purge.droppedIndexed.filterMap (pathKey C purge.typeId props), []⟩
  else none

/-- What the purges of edge types make of a record. -/
def edgePurgePlan (purges : List FieldPurge) : Plan F := fun k _ ty props =>
  if k = .edge then
    (purges.find? fun p => p.typeId = ty).bind fun purge => (purge.kept props).map fun kept => ⟨kept, [], []⟩
  else none

namespace Contents

variable (C : Codecs F)

/-- All purges, one after the other. -/
def purgeNodes (purges : List FieldPurge) (c : Contents F) : Contents F :=
  purges.foldl (fun c purge => c.rewrite (purgePlan C purge)) c

def purged (purges : List FieldPurge × List FieldPurge) (c : Contents F) : Contents F :=
  (c.purgeNodes C purges.1).rewrite (edgePurgePlan purges.2)

/-- The purges that a new schema asks for. -/
def purges (c : Contents F) (ast : SchemaAst) : List FieldPurge × List FieldPurge :=
  match c.schema with
  | some dto => planFieldPurges dto.registry (dtoToAst dto) ast
  | none => ([], [])

variable {C}

theorem LabelsExact.purgeNodes {c : Contents F} (h : c.LabelsExact) (purges : List FieldPurge) :
    (c.purgeNodes C purges).LabelsExact := by
  induction purges generalizing c with
  | nil => exact h
  | cons purge purges ih => exact ih (h.rewrite _)

theorem rewrite_noEdgePurges (c : Contents F) : c.rewrite (edgePurgePlan []) = c :=
  rewrite_none fun k _ _ _ _ => by
    unfold edgePurgePlan
    split <;> rfl

end Contents

namespace Graph

variable {C : Codecs F} {t : Topo} {b : Behind} {c : Contents F} {rid : RecordId}

/-! ## Records -/

/-- A live node gets other properties in place of its own. -/
theorem meets_exchangeNodeProps (hC : C.Faithful) (h : Depicts C t b c) {r : NodeRecord} (hr : t.nodes.live rid = some r)
    {row : NodeRow F} (hrow : c.nodes rid = some row) (props : Props F) :
    Meets (Is (M := M) t b) (do
        let pref ← writeProps C props
        writeNode { r with propertyRef := pref }
        freeRef r.propertyRef) (fun _ => Shows C (c.rewriteOne .node rid ⟨props, [], []⟩)) fun _ => True :=
  Meets.bind ((meets_writeProps hC props).mono (fun _ hg => hg) (fun _ _ hg => hg) fun _ _ => trivial)
    fun _ => Meets.given fun _ => Meets.exists fun _ => Meets.given fun hw => (meets_putNodeProps h hr hrow hw).sure

/-- A live edge gets other properties in place of its own. -/
theorem meets_exchangeEdgeProps (hC : C.Faithful) (h : Depicts C t b c) {r : EdgeRecord} (hr : t.edges.live rid = some r)
    {row : EdgeRow F} (hrow : c.edges rid = some row) (props : Props F) :
    Meets (Is (M := M) t b) (do
        let pref ← writeProps C props
        writeEdge { r with propertyRef := pref }
        freeRef r.propertyRef) (fun _ => Shows C (c.rewriteOne .edge rid ⟨props, [], []⟩)) fun _ => True :=
  Meets.bind ((meets_writeProps hC props).mono (fun _ hg => hg) (fun _ _ hg => hg) fun _ _ => trivial)
    fun _ => Meets.given fun _ => Meets.exists fun _ => Meets.given fun hw => (meets_putEdgeProps h hr hrow hw).sure

/-- **One node of `purge_node_fields`.** -/
theorem meets_purgeNode (hC : C.Faithful) (purge : FieldPurge) (hlive : (c.record .node rid).isSome) :
    Meets (Shows (M := M) C c) (purgeNode C purge rid) (fun _ => Shows C (c.rewrite ((purgePlan C purge).on .node [rid])))
      fun _ => True := by
  obtain ⟨⟨typeId, props⟩, hrec⟩ := Option.isSome_iff_exists.1 hlive
  obtain ⟨row, hrow, he⟩ := Option.map_eq_some_iff.1 hrec
  cases he
  refine meets_shows fun t b h => ?_
  obtain ⟨r, hr, hstored⟩ := exists_node h hrow
  -- a node that stays as it is
  have hstays : purgePlan C purge .node rid row.typeId row.props = none →
      Meets (Is (M := M) t b) (pure ()) (fun _ => Shows C (c.rewrite ((purgePlan C purge).on .node [rid]))) fun _ => True := by
    intro hplan
    rw [Contents.rewrite_on_none hrec hplan]
    exact Meets.pure fun _ hg => hg.shows h
  refine Meets.found (finds_readNode hr) ?_
  split
  · rename_i htype
    refine hstays (if_neg fun hboth => htype ?_)
    rw [hstored.typeId, hboth.2]
  · rename_i htype
    have htype : row.typeId = purge.typeId := hstored.typeId.symm.trans (not_not.1 htype)
    have hplan : purgePlan C purge .node rid row.typeId row.props = (purge.kept row.props).map fun kept =>
        ⟨kept, purge.droppedIndexed.filterMap (pathKey C purge.typeId row.props), []⟩ := if_pos ⟨rfl, htype⟩
    have hprops := hstored.props
    split
    · rename_i href
      rw [href] at hprops
      refine hstays ?_
      rw [hplan, show row.props = ∅ from hprops, FieldPurge.kept_empty]
      rfl
    · rename_i oldRef href
      rw [href] at hprops
      refine Meets.found (finds_readProps hprops) ?_
      cases hkept : purge.kept row.props with
      | none =>
        rw [hkept] at hplan
        exact hstays hplan
      | some kept =>
        rw [hkept] at hplan
        rw [Contents.rewrite_on_single hrec hplan, ← Contents.rewriteOne_reindex, ← href]
        refine Meets.bind (meets_maintainPaths purge.typeId rid row.props .remove purge.droppedIndexed).sure fun _ => ?_
        refine meets_exchangeNodeProps hC (c := c.reindex rid _ []) ?_ hr hrow kept
        unfold Contents.reindex
        rw [indexed_nil, ← h.entries]
        exact h.setEntries _

/-- **One edge of `purge_edge_fields`.** -/
theorem meets_purgeEdge (hC : C.Faithful) (purges : List FieldPurge) (hlive : (c.record .edge rid).isSome) :
    Meets (Shows (M := M) C c) (purgeEdge C purges rid)
      (fun _ => Shows C (c.rewrite ((edgePurgePlan purges).on .edge [rid]))) fun _ => True := by
  obtain ⟨⟨typeId, props⟩, hrec⟩ := Option.isSome_iff_exists.1 hlive
  obtain ⟨row, hrow, he⟩ := Option.map_eq_some_iff.1 hrec
  cases he
  refine meets_shows fun t b h => ?_
  obtain ⟨r, hr, hstored⟩ := exists_edge h hrow
  -- an edge that stays as it is
  have hstays : edgePurgePlan purges .edge rid row.typeId row.props = none →
      Meets (Is (M := M) t b) (pure ()) (fun _ => Shows C (c.rewrite ((edgePurgePlan purges).on .edge [rid])))
        fun _ => True := by
    intro hplan
    rw [Contents.rewrite_on_none hrec hplan]
    exact Meets.pure fun _ hg => hg.shows h
  have hplan : edgePurgePlan purges .edge rid row.typeId row.props =
      (purges.find? fun p => p.typeId = r.edgeTypeId).bind fun purge => (purge.kept row.props).map fun kept =>
        ⟨kept, [], []⟩ := by
    rw [hstored.typeId]
    exact if_pos rfl
  have hprops := hstored.props
  refine Meets.found (finds_readEdge hr) ?_
  split
  · rename_i purge oldRef hfind href
    rw [hfind, Option.bind_some] at hplan
    rw [href] at hprops
    refine Meets.found (finds_readProps hprops) ?_
    cases hkept : purge.kept row.props with
    | none =>
      rw [hkept] at hplan
      exact hstays hplan
    | some kept =>
      rw [hkept] at hplan
      rw [Contents.rewrite_on_single hrec hplan, ← href]
      exact meets_exchangeEdgeProps hC h hr hrow kept
  · rename_i hno
    refine hstays ?_
    rw [hplan]
    cases hfind : purges.find? fun p => p.typeId = r.edgeTypeId with
    | none => rfl
    | some purge =>
      cases href : r.propertyRef with
      | none =>
        rw [href] at hprops
        rw [show row.props = ∅ from hprops, Option.bind_some, FieldPurge.kept_empty]
        rfl
      | some oldRef => exact absurd href (hno purge oldRef hfind)

/-! ## Loops -/

/-- **`purge_node_fields`.** -/
theorem meets_purgeNodeFields (hC : C.Faithful) (hlabels : c.LabelsExact) (purge : FieldPurge) :
    Meets (Shows (M := M) C c) (purgeNodeFields C purge) (fun _ => Shows C (c.rewrite (purgePlan C purge))) fun _ => True := by
  refine Meets.bind ((meets_ridsOfKind hlabels .node purge.typeId).mono (fun _ hg => hg) (fun _ _ hg => hg)
    fun _ _ => trivial) fun rids => Meets.given fun hcovers => ?_
  exact meets_rewriteCovered hcovers (fun k rid ty props hother => if_neg hother) fun c rid => meets_purgeNode hC purge

/-- The loop over the node types. -/
theorem meets_purgeNodes (hC : C.Faithful) (hlabels : c.LabelsExact) (purges : List FieldPurge) :
    Meets (Shows (M := M) C c) (Action.forEach purges (purgeNodeFields C)) (fun _ => Shows C (c.purgeNodes C purges))
      fun _ => True := by
  induction purges generalizing c with
  | nil => exact Meets.pure fun _ hg => hg
  | cons purge purges ih =>
    exact Meets.bind (meets_purgeNodeFields hC hlabels purge) fun _ => ih (hlabels.rewrite _)

/-- **`purge_edge_fields`.** -/
theorem meets_purgeEdgeFields (hC : C.Faithful) (purges : List FieldPurge) :
    Meets (Shows (M := M) C c) (purgeEdgeFields C purges) (fun _ => Shows C (c.rewrite (edgePurgePlan purges)))
      fun _ => True := by
  refine meets_shows fun t b h => ?_
  obtain ⟨rids, hfind, hnd, hmem⟩ := finds_liveEdgeRids (M := M) h
  have hlive : ∀ rid ∈ rids, (c.record .edge rid).isSome := fun rid hrid => by
    obtain ⟨row, hrow⟩ := (hmem rid).1 hrid
    rw [Contents.record, hrow]
    rfl
  refine Meets.found hfind ?_
  have hall := meets_rewriteAll (c := c) (edgePurgePlan purges) (fun c => ∀ rid ∈ rids, (c.record .edge rid).isSome)
    hnd (fun c rid hrid hJ => (meets_purgeEdge (M := M) hC purges (hJ rid hrid)).mono (fun _ hg => hg)
      (fun _ _ hg => ⟨fun x hx => by rw [Contents.record_rewrite, Option.isSome_map]; exact hJ x hx, hg⟩) fun _ hg => hg) hlive
  have hplan : c.rewrite ((edgePurgePlan purges).on .edge rids) = c.rewrite (edgePurgePlan purges) := by
    refine Contents.rewrite_congr fun k rid ty props hrec => ?_
    cases k with
    | node => rfl
    | edge =>
      obtain ⟨row, hrow, -⟩ := Option.map_eq_some_iff.1 hrec
      exact if_pos ⟨rfl, (hmem rid).2 ⟨row, hrow⟩⟩
  rw [hplan] at hall
  exact hall.mono (fun _ hg => hg.shows h) (fun _ _ hg => hg.2) fun _ hg => hg

/-- **`save_schema_and_purge`.** -/
theorem meets_saveSchemaAndPurge (hC : C.Faithful) (hlabels : c.LabelsExact) {ast : SchemaAst} (hast : ast.Shallow)
    (purges : List FieldPurge × List FieldPurge) :
    Meets (Shows (M := M) C c) (saveSchemaAndPurge C ast purges.1 purges.2)
      (fun _ g => ∃ dto, c.Saves ast true dto ∧ Shows C ((c.withSchema (some dto)).purged C purges) g) fun _ => True := by
  refine Meets.bind ((meets_saveSchemaWith hC hast true).mono (fun _ hg => hg) (fun _ _ hg => hg) fun _ _ => trivial)
    fun _ => Meets.exists fun dto => Meets.given fun hsaves => ?_
  refine Meets.bind (meets_purgeNodes hC (hlabels.withSchema _) purges.1) fun _ => ?_
  unfold Contents.purged
  split
  · rename_i hempty
    rw [List.isEmpty_iff.1 hempty]
    refine Meets.pure fun g hg => ⟨dto, hsaves, ?_⟩
    rw [Contents.rewrite_noEdgePurges]
    exact hg
  · exact (meets_purgeEdgeFields hC purges.2).mono (fun _ hg => hg) (fun _ _ hg => ⟨dto, hsaves, hg⟩) fun _ hg => hg

/-! ## The operation -/

/-- What a new schema leaves behind. -/
def SchemaApplied (C : Codecs F) (X : Pest) (source : String) (c c' : Contents F) : Prop :=
  ∃ ast dto, (parse X source = .ok ast ∧ validate ast = .ok ()) ∧ c.Saves ast true dto ∧
    c' = (c.withSchema (some dto)).purged C (c.purges ast)

/-- The purges are read off the old schema. -/
theorem finds_purgesFor (h : Depicts C t b c) (hC : C.Faithful) (ast : SchemaAst) :
    Finds (Is (M := M) t b) (purgesFor C ast) (.ok (c.purges ast)) := by
  unfold Contents.purges
  cases hs : c.schema with
  | none => exact finds_noPurges h hC hs ast
  | some dto =>
    refine (finds_schema h hC hs).attempt.bind (u := fun _ => .ok _) fun r hr => ?_
    cases hr
    refine (finds_registry h hC hs).bind (u := fun _ => .ok _) fun r hr => ?_
    cases hr
    exact Finds.pure _

/-- **`apply_schema`**: the schema and all records change together, or nothing does. -/
theorem meets_schemaApplied (hC : C.Faithful) (X : Pest) (hlabels : c.LabelsExact) {source : String}
    (hshallow : ∀ ast, parse X source = .ok ast → ast.Shallow) :
    Meets (Shows (M := M) C c) (applySchema C X source) (fun _ g => ∃ c', SchemaApplied C X source c c' ∧ Shows C c' g)
      (Shows C c) := by
  refine meets_shows fun t b h => ?_
  refine Meets.bind (Q := fun ast g => parse X source = .ok ast ∧ Is t b g)
    (Meets.reads (fun g ast hg hast => ⟨hast, hg⟩) fun g hg => hg.shows h) fun ast => Meets.given fun hparse => ?_
  refine Meets.find (Finds.ofExcept (validate ast)) (fun _ hg => hg.shows h) fun _ hvalid => ?_
  refine Meets.found (finds_purgesFor h hC ast) ?_
  have happlied : ∀ dto, c.Saves ast true dto →
      SchemaApplied C X source c ((c.withSchema (some dto)).purged C (c.purges ast)) :=
    fun dto hsaves => ⟨ast, dto, ⟨hparse, hvalid⟩, hsaves, rfl⟩
  show Meets _ (if (c.purges ast).1.isEmpty && (c.purges ast).2.isEmpty then saveSchema C ast
    else orRestore (saveSchemaAndPurge C ast (c.purges ast).1 (c.purges ast).2)) _ _
  split
  · rename_i hempty
    obtain ⟨hn, he⟩ := Bool.and_eq_true_iff.1 hempty
    refine (meets_saveSchemaWith hC (hshallow ast hparse) true).mono (fun _ hg => hg.shows h) (fun _ g hg => ?_) fun _ hg => hg
    obtain ⟨dto, hsaves, hshows⟩ := hg
    refine ⟨_, happlied dto hsaves, ?_⟩
    unfold Contents.purged
    rw [List.isEmpty_iff.1 hn, List.isEmpty_iff.1 he, Contents.rewrite_noEdgePurges]
    exact hshows
  · refine (meets_orRestore (meets_saveSchemaAndPurge hC hlabels (hshallow ast hparse) _)).mono (fun _ hg => hg.shows h)
      (fun _ g hg => ?_) fun _ hg => hg
    obtain ⟨dto, hsaves, hshows⟩ := hg
    exact ⟨_, happlied dto hsaves, hshows⟩

end Graph

end ChiffonDB

import ChiffonDB.Graph.SchemaEffects

/-!
# Renaming a field

What `rename_node_field` and `rename_edge_field` do to the contents of a database.

* `FieldPlace` — a field of a registered type, where a change finds it.
* `renamePlan` — the records of the type, with the value of the old name under the new one.
* `Graph.meets_fieldRenamed` — **the schema and all records change together, or nothing does**.
-/

set_option autoImplicit false

set_option linter.unusedSectionVars false

namespace ChiffonDB

open Action PropertyIndex

variable {F : Type} [F64 F] [F64Text F] {M : Type} [FaithfulBacking M]

/-! ## Changing one field -/

/-- A field of a registered type, where a change finds it. -/
structure FieldPlace (dto : SchemaDto) (kind : RecordKind) (typeName fieldName : String) where
  typeId : UInt16
  fields : List FieldDef
  position : Nat
  field : FieldDef
  registered : dto.registry.typeIdOf kind typeName = some typeId
  declared : (dtoToAst dto).fieldsOf kind typeName = some fields
  there : fields[position]? = some field
  named : field.name = fieldName

namespace FieldPlace

variable {dto : SchemaDto} {kind : RecordKind} {typeName fieldName : String}

/-- The schema with another field in its place. -/
def replaced (p : FieldPlace dto kind typeName fieldName) (field : FieldDef) : SchemaAst :=
  (dtoToAst dto).setFields kind typeName (p.fields.set p.position field)

theorem shallow_replaced (p : FieldPlace dto kind typeName fieldName) (h : dto.Shallow) (field : FieldDef)
    (hle : field.typeExpr.jsonDepth ≤ p.field.typeExpr.jsonDepth) : (p.replaced field).Shallow :=
  (show (dtoToAst dto).Shallow from h).setField p.declared p.there hle

end FieldPlace

/-- The keys of a value that a field of a type is indexed under. -/
def keysAt (C : Codecs F) (indexed : Bool) (typeId : UInt16) (name : String) (value : Option (Value F)) : List IndexKey :=
  ((value.filter fun v => indexed && isIndexableValue v).bind (keyOf C typeId name)).toList

theorem keysAt_some (C : Codecs F) (indexed : Bool) (typeId : UInt16) (name : String) (v : Value F) :
    keysAt C indexed typeId name (some v) =
      if indexed && isIndexableValue v then (keyOf C typeId name v).toList else [] := by
  unfold keysAt
  rw [Option.filter_some]
  split <;> rfl

/-- Nothing of a field without an index. -/
theorem keysAt_unindexed (C : Codecs F) (typeId : UInt16) (name : String) (v : Value F) :
    keysAt C false typeId name (some v) = [] := by
  rw [keysAt_some]
  rfl

namespace Contents

/-- Index entries of a record go and come. -/
def reindex (c : Contents F) (rid : RecordId) (dropped added : List IndexKey) : Contents F :=
  { c with entries := indexed .add added rid (indexed .remove dropped rid c.entries) }

variable {c : Contents F} {rid : RecordId}

theorem reindex_nil (rid : RecordId) : c.reindex rid [] [] = c := by
  unfold reindex
  rw [indexed_nil, indexed_nil]

theorem reindex_reindex (dropped added : List IndexKey) :
    (c.reindex rid dropped []).reindex rid [] added = c.reindex rid dropped added := by
  unfold reindex
  rw [indexed_nil, indexed_nil]

theorem record_reindex (kind : RecordKind) (x : RecordId) (dropped added : List IndexKey) :
    (c.reindex rid dropped added).record kind x = c.record kind x := by
  cases kind <;> rfl

/-- The entries of a node, and then its properties. -/
theorem rewriteOne_reindex (dropped added : List IndexKey) (props : Props F) :
    (c.reindex rid dropped added).rewriteOne .node rid ⟨props, [], []⟩ = c.rewriteOne .node rid ⟨props, dropped, added⟩ := by
  unfold rewriteOne reindex
  dsimp only
  rw [indexed_nil, indexed_nil]

/-- A plan that has nothing to do for a record. -/
theorem rewrite_on_none {plan : Plan F} {kind : RecordKind} {typeId : UInt16} {props : Props F}
    (hrec : c.record kind rid = some (typeId, props)) (hnone : plan kind rid typeId props = none) :
    c.rewrite (plan.on kind [rid]) = c := by
  refine rewrite_none fun k x ty ps hx => ?_
  unfold Plan.on
  split
  · rename_i hboth
    obtain ⟨rfl, hmem⟩ := hboth
    obtain rfl := List.mem_singleton.1 hmem
    cases hrec.symm.trans hx
    exact hnone
  · rfl

theorem LabelsExact.withSchema (h : c.LabelsExact) (schema : Option SchemaDto) : (c.withSchema schema).LabelsExact :=
  h.congr rfl fun _ => rfl

end Contents

/-! ## The properties of a record -/

/-- The properties behind a renaming; nothing where neither name is there. -/
def renamedProps (oldName newName : String) (props : Props F) : Option (Props F) :=
  match (props.erase newName)[oldName]? with
  | none => if newName ∈ props then some ((props.erase newName).erase oldName) else none
  | some value => some (((props.erase newName).erase oldName).insert newName value)

/-- What a renaming makes of a record. -/
def renamePlan (C : Codecs F) (kind : RecordKind) (typeId : UInt16) (oldName newName : String) (indexed : Bool) : Plan F :=
  fun k _ ty props =>
    if k = kind ∧ ty = typeId then
      (renamedProps oldName newName props).map fun renamed =>
        ⟨renamed, keysAt C indexed typeId oldName (props.erase newName)[oldName]?,
          keysAt C indexed typeId newName (props.erase newName)[oldName]?⟩
    else none

theorem renamedProps_empty (oldName newName : String) : renamedProps oldName newName (∅ : Props F) = none := by
  have herase : ((∅ : Props F).erase newName)[oldName]? = none := by simp
  unfold renamedProps
  rw [herase]
  simp

namespace Graph

variable {C : Codecs F} {t : Topo} {b : Behind} {c : Contents F} {rid : RecordId}

/-! ## Index entries -/

/-- An index entry goes. -/
theorem meets_removeKey (key : IndexKey) :
    Meets (Shows (M := M) C c) (onPages (Backing.removeEntry key rid)) (fun _ => Shows C (c.reindex rid [key] []))
      fun _ => False := by
  refine meets_shows fun t b h => (meets_applyIndex .remove key rid).mono (fun _ hg => hg) (fun _ g hg => ?_) fun _ hg => hg
  have hdone := h.setEntries (indexed .remove [key] rid b.entries)
  rw [h.entries] at hg hdone
  unfold Contents.reindex
  rw [indexed_nil]
  exact hg.shows hdone

/-- An index entry comes. -/
theorem meets_addKey (key : IndexKey) :
    Meets (Shows (M := M) C c) (onPages (Backing.addEntry key rid)) (fun _ => Shows C (c.reindex rid [] [key]))
      fun _ => False := by
  refine meets_shows fun t b h => (meets_applyIndex .add key rid).mono (fun _ hg => hg) (fun _ g hg => ?_) fun _ hg => hg
  have hdone := h.setEntries (indexed .add [key] rid b.entries)
  rw [h.entries] at hg hdone
  unfold Contents.reindex
  rw [indexed_nil]
  exact hg.shows hdone

/-- **The entry of a renamed field moves**, if there is one. -/
theorem meets_moveEntry (indexed : Bool) (typeId : UInt16) (oldName newName : String) (value : Value F) :
    Meets (Shows (M := M) C c)
      (Action.onlyIf (indexed && isIndexableValue value) (moveEntry C typeId oldName newName rid value))
      (fun _ => Shows C (c.reindex rid (keysAt C indexed typeId oldName (some value))
        (keysAt C indexed typeId newName (some value)))) fun _ => False := by
  unfold Action.onlyIf
  rw [keysAt_some, keysAt_some]
  split
  · rename_i hif
    obtain ⟨bytes, hb⟩ := encodeValue_of_indexable C (Bool.and_eq_true_iff.1 hif).2
    have hkey : ∀ name, keyOf C typeId name value = some (.new typeId (utf8 name) bytes) := fun name => by
      rw [keyOf, hb]
      rfl
    rw [hkey, hkey]
    unfold moveEntry
    rw [hb]
    refine Meets.found (Finds.ofExcept _) (Meets.bind (meets_removeKey _) fun _ => ?_)
    refine (meets_addKey _).mono (fun _ hg => hg) (fun _ g hg => ?_) fun _ hg => hg
    rw [Contents.reindex_reindex] at hg
    exact hg
  · refine Meets.pure fun g hg => ?_
    rw [Contents.reindex_nil]
    exact hg

/-! ## Records -/

variable {kind : RecordKind} {typeId : UInt16} {oldName newName : String}

/-- **One record of `rename_field_records`.** -/
theorem meets_renameRecord (hC : C.Faithful) (hlive : (c.record kind rid).isSome) (indexed : Bool) :
    Meets (Shows (M := M) C c) (renameRecord C kind typeId oldName newName indexed rid)
      (fun _ => Shows C (c.rewrite ((renamePlan C kind typeId oldName newName (indexed && kind = .node)).on kind [rid])))
      fun _ => True := by
  obtain ⟨⟨ty, props⟩, hrec⟩ := Option.isSome_iff_exists.1 hlive
  refine meets_shows fun t b h => ?_
  obtain ⟨r, hfind, hr⟩ := finds_rawPropsOfType (M := M) h hrec typeId
  refine Meets.found hfind ?_
  rcases hr with ⟨rfl, rfl⟩ | ⟨rfl, hother⟩
  · have hplan : ∀ renamed, renamedProps oldName newName props = some renamed →
        renamePlan C kind ty oldName newName (indexed && kind = .node) kind rid ty props = some ⟨renamed,
          keysAt C (indexed && kind = .node) ty oldName (props.erase newName)[oldName]?,
          keysAt C (indexed && kind = .node) ty newName (props.erase newName)[oldName]?⟩ := by
      intro renamed hrenamed
      unfold renamePlan
      rw [if_pos ⟨rfl, rfl⟩, hrenamed]
      rfl
    cases hv : (props.erase newName)[oldName]? with
    | none =>
      by_cases hnew : newName ∈ props
      · have hrenamed : renamedProps oldName newName props = some ((props.erase newName).erase oldName) := by
          unfold renamedProps
          rw [hv]
          exact if_pos hnew
        have hw := hplan _ hrenamed
        rw [hv] at hw
        rw [Contents.rewrite_on_single hrec hw]
        dsimp only
        rw [hv]
        dsimp only
        rw [if_pos hnew]
        exact (meets_replaceRawProps hC hrec _).mono (fun _ hg => hg.shows h) (fun _ _ hg => hg) fun _ hg => hg
      · have hnone : renamePlan C kind ty oldName newName (indexed && kind = .node) kind rid ty props = none := by
          unfold renamePlan renamedProps
          rw [if_pos ⟨rfl, rfl⟩, hv]
          dsimp only
          rw [if_neg hnew]
          rfl
        rw [Contents.rewrite_on_none hrec hnone]
        dsimp only
        rw [hv]
        dsimp only
        rw [if_neg hnew]
        exact Meets.pure fun _ hg => hg.shows h
    | some value =>
      have hrenamed : renamedProps oldName newName props =
          some (((props.erase newName).erase oldName).insert newName value) := by
        unfold renamedProps
        rw [hv]
      have hw := hplan _ hrenamed
      rw [hv] at hw
      rw [Contents.rewrite_on_single hrec hw]
      dsimp only
      rw [hv]
      dsimp only
      refine Meets.bind (((meets_moveEntry (c := c) (indexed && kind = .node) ty oldName newName value).mono
        (fun _ hg => hg.shows h) (fun _ _ hg => hg) fun _ hg => hg).sure) fun _ => ?_
      refine (meets_replaceRawProps hC ((Contents.record_reindex kind rid _ _).trans hrec) _).mono (fun _ hg => hg)
        (fun _ g hg => ?_) fun _ hg => hg
      cases kind with
      | node =>
        rw [Contents.rewriteOne_reindex] at hg
        exact hg
      | edge =>
        have hindexed : (indexed && decide (RecordKind.edge = .node)) = false := by simp
        rw [hindexed, keysAt_unindexed, keysAt_unindexed, Contents.reindex_nil] at hg
        rw [hindexed, keysAt_unindexed, keysAt_unindexed]
        exact hg
  · have hnone : renamePlan C kind typeId oldName newName (indexed && kind = .node) kind rid ty props = none := by
      unfold renamePlan
      split
      · rename_i hboth
        rw [hother hboth.2, renamedProps_empty]
        rfl
      · rfl
    rw [Contents.rewrite_on_none hrec hnone]
    exact Meets.pure fun _ hg => hg.shows h

/-- **A loop over the records of a type.** -/
theorem meets_rewriteCovered {plan : Plan F} {rids : List RecordId} (hcovers : Covers c kind typeId rids)
    (hplan : ∀ k rid ty props, ¬ (k = kind ∧ ty = typeId) → plan k rid ty props = none)
    {body : RecordId → Action (Graph M) Unit}
    (hbody : ∀ c rid, (c.record kind rid).isSome → Meets (Shows (M := M) C c) (body rid)
      (fun _ => Shows C (c.rewrite (plan.on kind [rid]))) fun _ => True) :
    Meets (Shows (M := M) C c) (Action.forEach rids body) (fun _ => Shows C (c.rewrite plan)) fun _ => True := by
  have hall := meets_rewriteAll (c := c) plan (fun c => ∀ rid ∈ rids, (c.record kind rid).isSome)
    hcovers.nodup (fun c rid hmem hJ => (hbody c rid (hJ rid hmem)).mono (fun _ hg => hg)
      (fun _ _ hg => ⟨fun x hx => by rw [Contents.record_rewrite, Option.isSome_map]; exact hJ x hx, hg⟩) fun _ hg => hg)
    hcovers.live
  rw [hcovers.rewrite_on plan hplan] at hall
  exact hall.mono (fun _ hg => hg) (fun _ _ hg => hg.2) fun _ hg => hg

/-- **`rename_field_records`.** -/
theorem meets_renameFieldRecords (hC : C.Faithful) (hlabels : c.LabelsExact) {ast : SchemaAst} (hast : ast.Shallow)
    (indexed : Bool) :
    Meets (Shows (M := M) C c) (renameFieldRecords C ast kind typeId oldName newName indexed)
      (fun _ g => ∃ dto, c.Saves ast false dto ∧ Shows C ((c.withSchema (some dto)).rewrite
        (renamePlan C kind typeId oldName newName (indexed && kind = .node))) g) fun _ => True := by
  refine Meets.bind ((meets_saveSchemaWith hC hast false).mono (fun _ hg => hg) (fun _ _ hg => hg) fun _ _ => trivial)
    fun _ => Meets.exists fun dto => Meets.given fun hsaves => ?_
  refine Meets.bind ((meets_ridsOfKind (hlabels.withSchema _) kind typeId).mono (fun _ hg => hg) (fun _ _ hg => hg)
    fun _ _ => trivial) fun rids => Meets.given fun hcovers => ?_
  refine (meets_rewriteCovered hcovers (fun k rid ty props hother => if_neg hother)
    fun c rid hlive => meets_renameRecord hC hlive indexed).mono (fun _ hg => hg) (fun _ g hg => ⟨dto, hsaves, hg⟩)
    fun _ hg => hg

/-! ## The operation -/

variable {typeName fieldName : String}

/-- The id of a type that a change is about. -/
theorem finds_schemaTypeId (h : Depicts C t b c) (hC : C.Faithful) {dto : SchemaDto} (hs : c.schema = some dto)
    (kind : RecordKind) (typeName : String) : ∃ r, Finds (Is (M := M) t b) (schemaTypeId C kind typeName) r ∧
      ∀ id, r = .ok id → dto.registry.typeIdOf kind typeName = some id := by
  cases hid : dto.registry.typeIdOf kind typeName with
  | none =>
    refine ⟨.error (.schemaError ("unknown " ++ kind.label ++ " type: " ++ typeName)),
      (finds_registry h hC hs).bind (u := fun _ => .error _) fun r hr => ?_, fun id he => by cases he⟩
    cases hr
    cases kind with
    | node =>
      change dto.registry.nodeTypeId typeName = none at hid
      dsimp only
      rw [hid]
      exact Finds.throw _
    | edge =>
      change dto.registry.edgeTypeId typeName = none at hid
      dsimp only
      rw [hid]
      exact Finds.throw _
  | some typeId =>
    refine ⟨.ok typeId, (finds_registry h hC hs).bind (u := fun _ => .ok typeId) fun r hr => ?_, fun id he => by
      cases he; rfl⟩
    cases hr
    cases kind with
    | node =>
      change dto.registry.nodeTypeId typeName = some typeId at hid
      dsimp only
      rw [hid]
      exact Finds.pure _
    | edge =>
      change dto.registry.edgeTypeId typeName = some typeId at hid
      dsimp only
      rw [hid]
      exact Finds.pure _

/-- **What a change of one field looks up**: the field in its place, or nothing happens. -/
theorem meets_fieldChange {α : Type} (hC : C.Faithful)
    {f : SchemaAst → UInt16 → List FieldDef → Nat × FieldDef → Action (Graph M) α} {Q : α → Graph M → Prop}
    (hf : ∀ dto, c.schema = some dto → ∀ p : FieldPlace dto kind typeName fieldName,
      Meets (Shows C c) (f (dtoToAst dto) p.typeId p.fields (p.position, p.field)) Q (Shows C c)) :
    Meets (Shows C c) (do
      let ast ← loadSchema C
      let typeId ← schemaTypeId C kind typeName
      let fields ← Action.ofExcept (schemaFields ast kind typeName)
      let found ← Action.ofExcept (fieldPosition fields kind typeName fieldName)
      f ast typeId fields found) Q (Shows C c) := by
  refine meets_shows fun t b h => ?_
  cases hs : c.schema with
  | none => exact Meets.refused (finds_noSchema h hC hs) fun _ hg => hg.shows h
  | some dto =>
    refine Meets.found (finds_schema h hC hs) ?_
    obtain ⟨r, hfind, hid⟩ := finds_schemaTypeId (M := M) h hC hs kind typeName
    refine Meets.find hfind (fun _ hg => hg.shows h) fun typeId hr => ?_
    refine Meets.find (Finds.ofExcept _) (fun _ hg => hg.shows h) fun fields hfields => ?_
    refine Meets.find (Finds.ofExcept _) (fun _ hg => hg.shows h) fun found hfound => ?_
    obtain ⟨position, field⟩ := found
    obtain ⟨hthere, hnamed⟩ := getElem?_of_fieldPosition hfound
    exact (hf dto hs ⟨typeId, fields, position, field, hid typeId hr, fieldsOf_of_schemaFields hfields, hthere, hnamed⟩).mono
      (fun _ hg => hg.shows h) (fun _ _ hg => hg) fun _ hg => hg

/-- What a renaming leaves behind. -/
def Renamed (C : Codecs F) (kind : RecordKind) (typeName oldName newName : String) (c c' : Contents F) : Prop :=
  ∃ dto, c.schema = some dto ∧ ∃ p : FieldPlace dto kind typeName oldName,
    oldName = newName ∧ c' = c ∨ (oldName ≠ newName ∧ ∀ f ∈ p.fields, f.name ≠ newName) ∧
      ∃ dto', c.Saves (p.replaced { p.field with name := newName }) false dto' ∧
        c' = (c.withSchema (some dto')).rewrite (renamePlan C kind p.typeId oldName newName
          ((p.field.indexed || p.field.unique) && kind = .node))

/-- **`rename_node_field`, `rename_edge_field`**: the schema and all records change together, or nothing does. -/
theorem meets_fieldRenamed (hC : C.Faithful) (X : Pest) (hlabels : c.LabelsExact) (kind : RecordKind)
    (typeName oldName newName : String) :
    Meets (Shows (M := M) C c) (renameField C X kind typeName oldName newName)
      (fun _ g => ∃ c', Renamed C kind typeName oldName newName c c' ∧ Shows C c' g) (Shows C c) := by
  refine meets_fieldChange hC fun dto hs p => ?_
  dsimp only
  split
  · rename_i hsame
    exact Meets.pure fun g hg => ⟨c, ⟨dto, hs, p, .inl ⟨hsame, rfl⟩⟩, hg⟩
  · rename_i hne
    split
    · exact Meets.throw fun _ hg => hg
    · rename_i hfree
      have hnew : ∀ f ∈ p.fields, f.name ≠ newName := fun f hf he => hfree (List.any_eq_true.2 ⟨f, hf, decide_eq_true he⟩)
      refine Meets.find (P := Shows C c) (Finds.ofExcept _) (fun _ hg => hg) fun _ _ => ?_
      refine Meets.bind (Q := fun _ => Shows C c) (Meets.reads (fun _ _ hg _ => hg) fun _ hg => hg) fun reparsed => ?_
      split
      · exact Meets.throw fun _ hg => hg
      · refine (meets_shows fun t b h => ?_)
        have hast := p.shallow_replaced (h.shallow dto hs) { p.field with name := newName } (Nat.le_refl _)
        refine (meets_orRestore (meets_renameFieldRecords hC hlabels hast _)).mono (fun _ hg => hg.shows h)
          (fun _ g hg => ?_) fun _ hg => hg
        obtain ⟨dto', hsaves, hshows⟩ := hg
        exact ⟨_, ⟨dto, hs, p, .inr ⟨⟨hne, hnew⟩, dto', hsaves, rfl⟩⟩, hshows⟩

end Graph

end ChiffonDB

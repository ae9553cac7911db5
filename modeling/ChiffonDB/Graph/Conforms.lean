import ChiffonDB.Graph.Steps

/-!
# Data that conforms to the schema

No step stores a record that contradicts the schema, as long as new records are checked and no type comes back.

* `Edit.conforms`, `Renamed.conforms`, `Converted.conforms`, `SchemaApplied.conforms`, `Rebuilt.conforms` — one change.
* `Rules.strict` — what a run has to keep to; `Contents.Steps.conforms` — **then all of its records conform**.
-/

set_option autoImplicit false

set_option linter.unusedSectionVars false

namespace ChiffonDB

open PropertyIndex

variable {F : Type} [F64 F] [F64Text F] {C : Codecs F} {X : Pest} {checked : Prop} {c c' : Contents F}
  {kind : RecordKind} {rid : RecordId} {typeId : UInt16} {props : Props F}

/-! ## A field and its place -/

namespace FieldPlace

variable {dto : SchemaDto} {typeName fieldName : String} (p : FieldPlace dto kind typeName fieldName)

theorem fieldsNamed : (dtoToAst dto).fieldsNamed kind typeName = some p.fields :=
  (SchemaAst.fieldsNamed_eq _ kind typeName).trans p.declared

theorem nodup_fields (h : (dtoToAst dto).Once) : (p.fields.map FieldDef.name).Nodup := h.fields kind typeName p.fields p.fieldsNamed

/-- A name of another type has another id. -/
theorem typeId_ne (hdto : dto.Coherent) {name : String} {k : RecordKind} (hid : dto.registry.typeIdOf k name = some typeId)
    (hne : ¬ (k = kind ∧ name = typeName)) : ¬ (k = kind ∧ typeId = p.typeId) := by
  rintro ⟨rfl, rfl⟩
  exact hne ⟨rfl, hdto.name_eq p.registered hid⟩

/-- **With another field in its place** only the type of the field has other fields. -/
theorem fieldsNamed_replaced (field : FieldDef) {k : RecordKind} {name : String} {fields' : List FieldDef}
    (hf : (p.replaced field).fieldsNamed k name = some fields') :
    ((k = kind ∧ name = typeName) ∧ fields' = p.fields.set p.position field) ∨
      ¬ (k = kind ∧ name = typeName) ∧ (dtoToAst dto).fieldsNamed k name = some fields' := by
  rw [SchemaAst.fieldsNamed_eq] at hf
  unfold FieldPlace.replaced at hf
  by_cases hsame : k = kind ∧ name = typeName
  · obtain ⟨rfl, rfl⟩ := hsame
    rw [SchemaAst.fieldsOf_setFields_self p.declared] at hf
    cases hf
    exact .inl ⟨⟨rfl, rfl⟩, rfl⟩
  · rw [SchemaAst.fieldsOf_setFields_ne hsame] at hf
    exact .inr ⟨hsame, (SchemaAst.fieldsNamed_eq _ k name).trans hf⟩

/-- A field of the same name leaves the names as they are. -/
theorem names_set (field : FieldDef) (hname : field.name = p.field.name) :
    (p.fields.set p.position field).map FieldDef.name = p.fields.map FieldDef.name := by
  have hlt : p.position < p.fields.length := (List.getElem?_eq_some_iff.1 p.there).1
  rw [List.map_set]
  apply List.ext_getElem?
  intro i
  by_cases hi : p.position = i
  · subst hi
    rw [List.getElem?_set_self (by simpa using hlt), List.getElem?_map, p.there, hname]
    rfl
  · rw [List.getElem?_set_ne hi]

end FieldPlace

namespace Contents

/-! ## Single records -/

theorem Named.keep (h : c.Named kind typeId) (hk : c.KeepsIds c') : c'.Named kind typeId := by
  obtain ⟨dto, name, hdto, hid⟩ := h
  obtain ⟨dto', hdto', hkeeps⟩ := hk dto hdto
  exact ⟨dto', name, hdto', hkeeps kind name typeId hid⟩

/-- What is let in stays so, where no type changes. -/
theorem Accepts.keep (h : c.Accepts kind typeId props) (hk : c.KeepsIds c') (ht : c.SameTypes c') :
    c'.Accepts kind typeId props :=
  ⟨h.named.keep hk, (ht.validate kind typeId props).trans h.valid⟩

/-- The record of a node that is written. -/
theorem record_of_update {row : NodeRow F} {nodes : RecordId → Option (NodeRow F)} {x : RecordId}
    (h : (Function.update nodes x (some row) rid).map (fun row => (row.typeId, row.props)) = some (typeId, props)) :
    (rid = x ∧ row.typeId = typeId ∧ row.props = props) ∨
      (nodes rid).map (fun row => (row.typeId, row.props)) = some (typeId, props) := by
  by_cases hx : rid = x
  · subst hx
    rw [Function.update_self] at h
    cases h
    exact .inl ⟨rfl, rfl, rfl⟩
  · rw [Function.update_of_ne hx] at h
    exact .inr h

theorem record_of_setEdge {row : EdgeRow F} {x : RecordId}
    (h : (c.setEdge x (some row)).record .edge rid = some (typeId, props)) :
    (rid = x ∧ row.typeId = typeId ∧ row.props = props) ∨ c.record .edge rid = some (typeId, props) := by
  change (Function.update c.edges x (some row) rid).map _ = _ at h
  by_cases hx : rid = x
  · subst hx
    rw [Function.update_self] at h
    cases h
    exact .inl ⟨rfl, rfl, rfl⟩
  · rw [Function.update_of_ne hx] at h
    exact .inr h

/-- **Where a record comes from**: it was there, it is new, or it has been checked. -/
theorem Edit.record (h : Edit C checked c c') (hrec : c'.record kind rid = some (typeId, props)) :
    c.record kind rid = some (typeId, props) ∨ (checked → c.Accepts kind typeId props) ∨
      (∃ old, c.record kind rid = some (typeId, old)) ∧ c.validate kind typeId props = .ok () := by
  cases h with
  | insertNode hfresh hadmits haccepts =>
    cases kind with
    | edge => exact .inl hrec
    | node =>
      rcases record_of_update hrec with ⟨rfl, rfl, rfl⟩ | hold
      · exact .inr (.inl haccepts)
      · exact .inl hold
  | updateNode hrow hvalid hadmits =>
    cases kind with
    | edge => exact .inl hrec
    | node =>
      rcases record_of_update hrec with ⟨rfl, rfl, rfl⟩ | hold
      · exact .inr (.inr ⟨⟨_, congrArg (Option.map _) hrow⟩, hvalid⟩)
      · exact .inl hold
  | @deleteNode x row hrow =>
    refine .inl ?_
    cases kind with
    | node =>
      change (Function.update c.nodes x none rid).map _ = _ at hrec
      by_cases hx : rid = x
      · rw [hx, Function.update_self] at hrec
        cases hrec
      · rw [Function.update_of_ne hx] at hrec
        exact hrec
    | edge =>
      obtain ⟨erow, herow, he⟩ := Option.map_eq_some_iff.1 hrec
      have hold := (Option.filter_eq_some_iff.1 herow).1
      show (c.edges rid).map _ = _
      rw [hold, Option.map_some, he]
  | relabel hrow hnd =>
    refine .inl ?_
    cases kind with
    | edge => exact hrec
    | node =>
      rcases record_of_update hrec with ⟨rfl, rfl, rfl⟩ | hold
      · exact congrArg (Option.map _) hrow
      · exact hold
  | insertEdge hfresh hfrom hto haccepts =>
    cases kind with
    | node => exact .inl hrec
    | edge =>
      rcases record_of_setEdge hrec with ⟨rfl, rfl, rfl⟩ | hold
      · exact .inr (.inl haccepts)
      · exact .inl hold
  | updateEdge hrow hvalid =>
    cases kind with
    | node => exact .inl hrec
    | edge =>
      rcases record_of_setEdge hrec with ⟨rfl, rfl, rfl⟩ | hold
      · exact .inr (.inr ⟨⟨_, congrArg (Option.map _) hrow⟩, hvalid⟩)
      · exact .inl hold
  | @deleteEdge x hlive =>
    refine .inl ?_
    cases kind with
    | node => exact hrec
    | edge =>
      change (Function.update c.edges x none rid).map _ = _ at hrec
      by_cases hx : rid = x
      · rw [hx, Function.update_self] at hrec
        cases hrec
      · rw [Function.update_of_ne hx] at hrec
        exact hrec
  | relabelEdge hrow hnd =>
    refine .inl ?_
    cases kind with
    | node => exact hrec
    | edge =>
      rcases record_of_setEdge hrec with ⟨rfl, rfl, rfl⟩ | hold
      · exact congrArg (Option.map _) hrow
      · exact hold
  | register hs hr => exact .inl hrec

/-- The definitions are the same behind an edit. -/
theorem Edit.definitions (h : Edit C checked c c') {dto' : SchemaDto} (hs' : c'.schema = some dto') :
    ∃ dto, c.schema = some dto ∧ dtoToAst dto' = dtoToAst dto := by
  cases h with
  | register hs hr =>
    cases hs'
    exact ⟨_, hs, congrArg SchemaAst.mk (SchemaDto.resolve_definitions hr)⟩
  | _ => exact ⟨dto', hs', rfl⟩

/-- **One edit.** -/
theorem Edit.conforms (h : Edit C checked c c') (hchecked : checked) (hs : c.Sound) (hc : c.Conforms) : c'.Conforms := by
  have hkeeps := h.keepsIds hs
  have htypes := h.sameTypes hs
  refine ⟨fun dto' hs' => ?_, fun kind rid typeId props hrec => ?_⟩
  · obtain ⟨dto, hdto, he⟩ := h.definitions hs'
    rw [he]
    exact hc.once dto hdto
  · rcases h.record hrec with hold | hnew | ⟨⟨old, hold⟩, hvalid⟩
    · exact (hc.records kind rid typeId props hold).keep hkeeps htypes
    · exact (hnew hchecked).keep hkeeps htypes
    · exact (Accepts.mk (hc.records kind rid typeId old hold).named hvalid).keep hkeeps htypes

theorem Edits.conforms (h : Edits C checked c c') (hchecked : checked) (hs : c.Sound) (hc : c.Conforms) : c'.Conforms :=
  (h.induction hs hc fun hs hedit hc => hedit.conforms hchecked hs hc).2

/-! ## All records at once -/

/-- The fields of the type of a record that conforms. -/
theorem Conforms.takes (hc : c.Conforms) (hs : c.Sound) (hrec : c.record kind rid = some (typeId, props)) {dto : SchemaDto}
    (hdto : c.schema = some dto) {name : String} (hid : dto.registry.typeIdOf kind name = some typeId) {fields : List FieldDef}
    (hf : (dtoToAst dto).fieldsNamed kind name = some fields) : FieldsTake fields props := by
  refine validate_eq_ok.1 (hc.records kind rid typeId props hrec).valid name fields ?_
  rw [fieldsOf_eq hdto (hs.schema dto hdto).coherent hid, hf]
  rfl

/-- **Another schema is saved**: the fields of each type take what the records of the type have become. -/
theorem Conforms.saved (hc : c.Conforms) (hs : c.Sound) {ast : SchemaAst} {check : Bool} {dto' : SchemaDto}
    (hsaves : c.Saves ast check dto') (hast : ast.Once) (hs' : c'.schema = some dto')
    (hrecs : ∀ kind rid typeId props', c'.record kind rid = some (typeId, props') →
      ∃ props, c.record kind rid = some (typeId, props) ∧ ∀ dto name fields', c.schema = some dto →
        dto.registry.typeIdOf kind name = some typeId → ast.fieldsNamed kind name = some fields' → FieldsTake fields' props') :
    c'.Conforms := by
  obtain ⟨hsound', hkeeps⟩ := hsaves.sound hs.schema
  refine ⟨fun dto hdto => ?_, fun kind rid typeId props' hrec => ?_⟩
  · cases hs'.symm.trans hdto
    rw [hsaves.ast_eq]
    exact hast
  · obtain ⟨props, hold, htakes⟩ := hrecs kind rid typeId props' hrec
    obtain ⟨dto, name, hdto, hid⟩ := (hc.records kind rid typeId props hold).named
    have hid' := hkeeps dto hdto kind name typeId hid
    refine ⟨⟨dto', name, hs', hid'⟩, validate_eq_ok.2 fun found fields' hf => ?_⟩
    rw [fieldsOf_eq hs' hsound'.coherent hid', hsaves.ast_eq] at hf
    obtain ⟨_, hfields, he⟩ := Option.map_eq_some_iff.1 hf
    cases he
    exact htakes dto name _ hdto hid hfields

/-! ## Renaming -/

theorem renamePlan_props (C : Codecs F) (kind : RecordKind) (typeId : UInt16) (oldName newName : String) (indexed : Bool)
    (rid : RecordId) (props : Props F) : (renamePlan C kind typeId oldName newName indexed).props kind rid typeId props =
      (renamedProps oldName newName props).getD props := by
  unfold Plan.props renamePlan
  rw [if_pos ⟨rfl, rfl⟩, Option.map_map]
  cases renamedProps oldName newName props <;> rfl

theorem plan_props_other {plan : Plan F} (h : plan kind rid typeId props = none) : plan.props kind rid typeId props = props := by
  unfold Plan.props
  rw [h]
  rfl

/-- **A field is renamed.** -/
theorem Renamed.conforms {typeName oldName newName : String} (h : Graph.Renamed C kind typeName oldName newName c c')
    (hs : c.Sound) (hc : c.Conforms) : c'.Conforms := by
  obtain ⟨dto, hdto, p, ⟨-, rfl⟩ | ⟨⟨-, hnew⟩, dto', hsaves, rfl⟩⟩ := h
  · exact hc
  have honce := hc.once dto hdto
  have hnd : ((p.fields.set p.position { p.field with name := newName }).map FieldDef.name).Nodup := by
    rw [List.map_set]
    refine (p.nodup_fields honce).set fun hm => ?_
    obtain ⟨f, hf, he⟩ := List.mem_map.1 hm
    exact hnew f hf he
  refine hc.saved hs hsaves (honce.setFields p.declared hnd) rfl fun k rid typeId props' hrec => ?_
  rw [record_rewrite] at hrec
  obtain ⟨⟨ty, props⟩, hold, he⟩ := Option.map_eq_some_iff.1 hrec
  obtain ⟨rfl, rfl⟩ := Prod.mk.inj he
  refine ⟨props, hold, fun dto₀ name fields' hdto₀ hid hf => ?_⟩
  cases hdto.symm.trans hdto₀
  rcases p.fieldsNamed_replaced _ hf with ⟨⟨rfl, rfl⟩, rfl⟩ | ⟨hne, hf⟩
  · cases p.registered.symm.trans hid
    have htakes := (hc.takes hs hold hdto hid p.fieldsNamed).renamed p.there hnew
    rw [p.named] at htakes
    rw [renamePlan_props]
    exact htakes
  · rw [plan_props_other (if_neg (p.typeId_ne (hs.schema dto hdto).coherent hid hne))]
    exact hc.takes hs hold hdto hid hf

/-! ## Changing a type -/

theorem convertPlan_props (C : Codecs F) (kind : RecordKind) (typeId : UInt16) (fieldName : String) (target : TypeExpr)
    (indexed : Bool) (rid : RecordId) (props : Props F) :
    (convertPlan C kind typeId fieldName target indexed).props kind rid typeId props =
      ((convertible fieldName props).bind fun old =>
        if (convertedValue target old).eq old then none
        else some (props.insert fieldName (convertedValue target old))).getD props := by
  unfold Plan.props convertPlan
  rw [if_pos ⟨rfl, rfl⟩]
  cases convertible fieldName props with
  | none => rfl
  | some old =>
    rw [Option.bind_some, Option.bind_some]
    split <;> rfl

/-- Only the value of the field changes. -/
theorem getElem?_converted (fieldName : String) (target : TypeExpr) (props : Props F) {key : String} (hkey : key ≠ fieldName) :
    (((convertible fieldName props).bind fun old =>
      if (convertedValue target old).eq old then none
      else some (props.insert fieldName (convertedValue target old))).getD props)[key]? = props[key]? := by
  cases convertible fieldName props with
  | none => rfl
  | some old =>
    rw [Option.bind_some]
    split
    · rfl
    · rw [Option.getD_some, Std.ExtTreeMap.getElem?_insert, if_neg]
      intro he
      exact hkey (Std.LawfulEqCmp.compare_eq_iff_eq.1 he).symm

theorem getElem?_of_convertible {fieldName : String} {old : Value F} (h : convertible fieldName props = some old) :
    props[fieldName]? = some old := by
  unfold convertible at h
  split at h
  · cases h
  · cases h
  · rename_i hget
    cases h
    exact hget

/-- **The value of the field is of the new type.** -/
theorem matches_converted {fieldName : String} {target : TypeExpr} (htarget : target.isIndexableScalar = true) {v : Value F}
    (hv : (((convertible fieldName props).bind fun old =>
      if (convertedValue target old).eq old then none
      else some (props.insert fieldName (convertedValue target old))).getD props)[fieldName]? = some v) :
    valueMatchesType v target = true := by
  cases hold : convertible fieldName props with
  | none =>
    rw [hold] at hv
    change props[fieldName]? = some v at hv
    -- what is there is null
    have hnull : v = .null := by
      by_contra hne
      rw [convertible_of_ne hv hne] at hold
      cases hold
    rw [hnull]
    simp [valueMatchesType]
  | some old =>
    rw [hold, Option.bind_some] at hv
    split at hv
    · rename_i heq
      obtain rfl : old = v := Option.some.inj ((getElem?_of_convertible hold).symm.trans hv)
      exact matches_of_eq htarget heq (matches_convertedValue target old)
    · rw [Option.getD_some, Std.ExtTreeMap.getElem?_insert_self] at hv
      cases hv
      exact matches_convertedValue target old

/-- **A field gets another type.** -/
theorem Converted.conforms {typeName fieldName newType : String} {onFailure : OnConversionFailure} {change : FieldTypeChange}
    (h : Graph.Converted C kind typeName fieldName newType onFailure c c' change) (hs : c.Sound) (hc : c.Conforms) :
    c'.Conforms := by
  obtain rfl | ⟨target, htarget, dto, hdto, p, -, dto', hsaves, rfl⟩ := h.changed
  · exact hc
  have honce := hc.once dto hdto
  have hnd : ((p.fields.set p.position { p.field with typeExpr := target }).map FieldDef.name).Nodup := by
    rw [p.names_set { p.field with typeExpr := target } rfl]
    exact p.nodup_fields honce
  refine hc.saved hs hsaves (honce.setFields p.declared hnd) rfl fun k rid typeId props' hrec => ?_
  rw [record_rewrite] at hrec
  obtain ⟨⟨ty, props⟩, hold, he⟩ := Option.map_eq_some_iff.1 hrec
  obtain ⟨rfl, rfl⟩ := Prod.mk.inj he
  refine ⟨props, hold, fun dto₀ name fields' hdto₀ hid hf => ?_⟩
  cases hdto.symm.trans hdto₀
  rcases p.fieldsNamed_replaced _ hf with ⟨⟨rfl, rfl⟩, rfl⟩ | ⟨hne, hf⟩
  · cases p.registered.symm.trans hid
    have htakes := hc.takes hs hold hdto hid p.fieldsNamed
    rw [convertPlan_props]
    exact htakes.retyped p.there (p.nodup_fields honce) (fun key hkey => getElem?_converted _ _ _ hkey)
      fun v hv => matches_converted (indexable_of_scalarTypeFromName htarget) hv
  · rw [plan_props_other (if_neg (p.typeId_ne (hs.schema dto hdto).coherent hid hne))]
    exact hc.takes hs hold hdto hid hf

/-! ## Applying a schema -/

/-- No other properties, and no other values. -/
def PartOf (props' props : Props F) : Prop := ∀ (key : String) v, props'[key]? = some v → props[key]? = some v

theorem PartOf.refl (props : Props F) : PartOf props props := fun _ _ h => h

theorem PartOf.mem {props' : Props F} (h : PartOf props' props) {key : String} (hkey : key ∈ props') : key ∈ props := by
  obtain ⟨v, hv⟩ := mem_props_iff.1 hkey
  exact mem_props_iff.2 ⟨v, h key v hv⟩

/-- **What a purge keeps.** -/
theorem partOf_kept (purge : FieldPurge) (props : Props F) :
    PartOf ((purge.kept props).getD props) props ∧ ∀ key, key ∈ (purge.kept props).getD props → key ∈ purge.keep := by
  unfold FieldPurge.kept
  split
  · rename_i hall
    refine ⟨.refl props, fun key hkey => ?_⟩
    have hmem := List.all_eq_true.1 hall key (Std.ExtTreeMap.mem_keys.2 hkey)
    exact of_decide_eq_true hmem
  · rw [Option.getD_some]
    refine ⟨fun key v hv => ?_, fun key hkey => ?_⟩
    · rw [Std.ExtTreeMap.getElem?_filter'] at hv
      exact (Option.filter_eq_some_iff.1 hv).1
    · obtain ⟨v, hv⟩ := mem_props_iff.1 hkey
      rw [Std.ExtTreeMap.getElem?_filter'] at hv
      exact of_decide_eq_true (Option.filter_eq_some_iff.1 hv).2

theorem purgePlan_props (C : Codecs F) (purge : FieldPurge) (kind : RecordKind) (rid : RecordId) (typeId : UInt16)
    (props : Props F) : (purgePlan C purge).props kind rid typeId props =
      if kind = .node ∧ typeId = purge.typeId then (purge.kept props).getD props else props := by
  unfold Plan.props purgePlan
  split
  · cases purge.kept props <;> rfl
  · rfl

/-- The properties of a record behind the purges of nodes. -/
theorem record_purgeNodes (C : Codecs F) (purges : List FieldPurge) (c : Contents F) (kind : RecordKind) (rid : RecordId) :
    (c.purgeNodes C purges).record kind rid = (c.record kind rid).map fun r =>
      (r.1, purges.foldl (fun ps purge => (purgePlan C purge).props kind rid r.1 ps) r.2) := by
  induction purges generalizing c with
  | nil => exact (congrFun Option.map_id (c.record kind rid)).symm
  | cons purge purges ih =>
    refine (ih (c.rewrite (purgePlan C purge))).trans ?_
    rw [record_rewrite, Option.map_map]
    rfl

/-- **The purges of nodes**, one after the other. -/
theorem partOf_purgeNodes (C : Codecs F) (purges : List FieldPurge) (kind : RecordKind) (rid : RecordId) (typeId : UInt16)
    (props : Props F) {props' : Props F}
    (he : props' = purges.foldl (fun ps purge => (purgePlan C purge).props kind rid typeId ps) props) :
    PartOf props' props ∧ (kind = .node → ∀ purge ∈ purges, purge.typeId = typeId → ∀ key, key ∈ props' → key ∈ purge.keep) := by
  induction purges generalizing props with
  | nil => exact ⟨he ▸ .refl props, fun _ purge hp => absurd hp List.not_mem_nil⟩
  | cons purge purges ih =>
    obtain ⟨hpart, hkeep⟩ := ih _ he
    change PartOf props' ((purgePlan C purge).props kind rid typeId props) at hpart
    rw [purgePlan_props] at hpart
    split at hpart
    · rename_i hboth
      obtain ⟨hsub, hkept⟩ := partOf_kept purge props
      refine ⟨fun key v hv => hsub key v (hpart key v hv), fun hn p hp ht key hkey => ?_⟩
      rcases List.mem_cons.1 hp with rfl | hp
      · exact hkept key (hpart.mem hkey)
      · exact hkeep hn p hp ht key hkey
    · rename_i hother
      refine ⟨hpart, fun hn p hp ht key hkey => ?_⟩
      rcases List.mem_cons.1 hp with rfl | hp
      · exact absurd ⟨hn, ht.symm⟩ hother
      · exact hkeep hn p hp ht key hkey

/-- **The purges of edges**: the first one for the type. -/
theorem partOf_edgePurgePlan (purges : List FieldPurge) (rid : RecordId) (typeId : UInt16) (props : Props F) :
    PartOf ((edgePurgePlan purges).props .edge rid typeId props) props ∧
      ∀ purge, (purges.find? fun p => p.typeId = typeId) = some purge →
        ∀ key, key ∈ (edgePurgePlan purges).props .edge rid typeId props → key ∈ purge.keep := by
  unfold Plan.props edgePurgePlan
  rw [if_pos rfl]
  cases hfind : purges.find? fun p => p.typeId = typeId with
  | none => exact ⟨.refl props, fun purge hp => by cases hp⟩
  | some purge =>
    have hget : (((some purge).bind fun purge => (purge.kept props).map fun kept => (⟨kept, [], []⟩ : Rewrite F)).map
        Rewrite.props).getD props = (purge.kept props).getD props := by
      rw [Option.bind_some]
      cases purge.kept props <;> rfl
    rw [hget]
    refine ⟨(partOf_kept purge props).1, fun found he => ?_⟩
    cases he
    exact (partOf_kept purge props).2

/-- **All purges.** -/
theorem exists_of_purged {purges : List FieldPurge × List FieldPurge} {props' : Props F}
    (hrec : (c.purged C purges).record kind rid = some (typeId, props')) : ∃ props, c.record kind rid = some (typeId, props) ∧
      PartOf props' props ∧
      (kind = .node → ∀ purge ∈ purges.1, purge.typeId = typeId → ∀ key, key ∈ props' → key ∈ purge.keep) ∧
      (kind = .edge → ∀ purge, (purges.2.find? fun p => p.typeId = typeId) = some purge →
        ∀ key, key ∈ props' → key ∈ purge.keep) := by
  unfold Contents.purged at hrec
  rw [record_rewrite, record_purgeNodes, Option.map_map] at hrec
  obtain ⟨⟨ty, props⟩, hold, he⟩ := Option.map_eq_some_iff.1 hrec
  obtain ⟨rfl, hprops⟩ := Prod.mk.inj he
  refine ⟨props, hold, ?_⟩
  obtain ⟨hpart, hkeep⟩ := partOf_purgeNodes C purges.1 kind rid ty props rfl
  -- the edge purges leave nodes alone, and the node purges edges
  cases kind with
  | node =>
    rw [plan_props_other (if_neg (by simp))] at hprops
    subst hprops
    exact ⟨hpart, hkeep, fun h => by cases h⟩
  | edge =>
    obtain ⟨hpart', hkeep'⟩ := partOf_edgePurgePlan purges.2 rid ty
      (purges.1.foldl (fun ps purge => (purgePlan C purge).props .edge rid ty ps) props)
    subst hprops
    exact ⟨fun key v hv => hpart key v (hpart' key v hv), fun h => (by cases h), fun _ => hkeep'⟩

/-! ### Plans -/

section Plans

variable {registry : SchemaRegistry} {old new : SchemaAst} {name : String} {fields fields' : List FieldDef} {purge : FieldPurge}

/-- What is kept are fields of the new type. -/
theorem mem_of_planPurge {oldFields : List FieldDef} {id : Option UInt16} (h : planPurge new kind name oldFields id = some purge) :
    id = some purge.typeId ∧ ∃ fields', new.fieldsNamed kind name = some fields' ∧
      ∀ key ∈ purge.keep, ∃ f ∈ fields', f.name = key := by
  unfold planPurge at h
  obtain ⟨newFields, hnew, h⟩ := Option.bind_eq_some_iff.1 h
  dsimp only at h
  split at h
  · cases h
  · obtain ⟨typeId, hid, h⟩ := Option.bind_eq_some_iff.1 h
    cases h
    refine ⟨hid, newFields, (SchemaAst.fieldsNamed_eq new kind name).trans hnew, fun key hkey => ?_⟩
    have hmem := of_decide_eq_true (List.mem_filter.1 hkey).2
    exact List.mem_map.1 hmem

/-- A purge is planned where the names of the fields are not the same. -/
theorem exists_planPurge {oldFields : List FieldDef} (hnew : new.fieldsNamed kind name = some fields')
    (hdiffer : sameNames (oldFields.map FieldDef.name) (fields'.map FieldDef.name) = false) (typeId : UInt16) :
    ∃ purge, planPurge new kind name oldFields (some typeId) = some purge := by
  rw [SchemaAst.fieldsNamed_eq] at hnew
  unfold planPurge
  rw [hnew]
  show ∃ purge, (if sameNames (oldFields.map FieldDef.name) (fields'.map FieldDef.name) then none else _) = some purge
  rw [hdiffer]
  exact ⟨_, rfl⟩

/-- **Where a purge comes from.** -/
theorem mem_planFieldPurges (hf : old.fieldsNamed .node name = some fields) (hid : registry.typeIdOf .node name = some typeId)
    (hplan : planPurge new .node name fields (some typeId) = some purge) : purge ∈ (planFieldPurges registry old new).1 := by
  obtain ⟨n, hn, rfl⟩ := Option.map_eq_some_iff.1 hf
  have hname : n.name = name := by simpa using List.find?_some hn
  refine List.mem_filterMap.2 ⟨n, List.mem_of_find?_eq_some hn, ?_⟩
  rw [hname, show registry.nodeTypeId name = some typeId from hid]
  exact hplan

theorem declared_of_sameNames (hsame : sameNames (fields.map FieldDef.name) (fields'.map FieldDef.name) = true) {key : String}
    (hkey : ∃ f ∈ fields, f.name = key) : ∃ f ∈ fields', f.name = key := by
  have hall := List.all_eq_true.1 (Bool.and_eq_true_iff.1 hsame).1 key (List.mem_map.2 hkey)
  exact List.mem_map.1 (of_decide_eq_true hall)

end Plans

/-- What a run may apply: every type is declared once, and none that has records comes back after it has gone. -/
structure Evolves (c : Contents F) (ast : SchemaAst) : Prop where
  once : ast.Once
  kept : ∀ kind rid typeId props dto name, c.record kind rid = some (typeId, props) → c.schema = some dto →
    dto.registry.typeIdOf kind name = some typeId → (ast.fieldsNamed kind name).isSome →
      ((dtoToAst dto).fieldsNamed kind name).isSome

/-- **What is left of a record is declared.** -/
theorem declared_of_purged {dto : SchemaDto} (hdto : dto.Coherent) {ast : SchemaAst} {name : String}
    {fields fields' : List FieldDef} {props' : Props F} (hid : dto.registry.typeIdOf kind name = some typeId)
    (hf : (dtoToAst dto).fieldsNamed kind name = some fields) (hf' : ast.fieldsNamed kind name = some fields')
    (hdeclared : ∀ key, key ∈ props' → ∃ f ∈ fields, f.name = key)
    (hnode : kind = .node → ∀ purge ∈ (planFieldPurges dto.registry (dtoToAst dto) ast).1, purge.typeId = typeId →
      ∀ key, key ∈ props' → key ∈ purge.keep)
    (hedge : kind = .edge → ∀ purge,
      ((planFieldPurges dto.registry (dtoToAst dto) ast).2.find? fun p => p.typeId = typeId) = some purge →
        ∀ key, key ∈ props' → key ∈ purge.keep) {key : String} (hkey : key ∈ props') : ∃ f ∈ fields', f.name = key := by
  cases hsame : sameNames (fields.map FieldDef.name) (fields'.map FieldDef.name) with
  | true => exact declared_of_sameNames hsame (hdeclared key hkey)
  | false =>
    obtain ⟨purge, hplan⟩ := exists_planPurge hf' hsame typeId
    obtain ⟨hpid, found, hfound, hkeep⟩ := mem_of_planPurge hplan
    cases kind with
    | node =>
      have hmem := mem_planFieldPurges hf hid hplan
      cases hf'.symm.trans hfound
      exact hkeep key (hnode rfl purge hmem (Option.some.inj hpid).symm key hkey)
    | edge =>
      obtain ⟨e, he, rfl⟩ := Option.map_eq_some_iff.1 hf
      have hname : e.name = name := by simpa using List.find?_some he
      have hmem : purge ∈ (planFieldPurges dto.registry (dtoToAst dto) ast).2 := by
        refine List.mem_filterMap.2 ⟨e, List.mem_of_find?_eq_some he, ?_⟩
        rw [hname, show dto.registry.edgeTypeId name = some typeId from hid]
        exact hplan
      -- the first purge of the type is one of the same name
      obtain ⟨first, hfirst⟩ : ∃ first,
          ((planFieldPurges dto.registry (dtoToAst dto) ast).2.find? fun p => p.typeId = typeId) = some first := by
        rw [← Option.isSome_iff_exists, List.find?_isSome]
        exact ⟨purge, hmem, decide_eq_true (Option.some.inj hpid).symm⟩
      obtain ⟨e', -, hplan'⟩ := List.mem_filterMap.1 (List.mem_of_find?_eq_some hfirst)
      have htype : first.typeId = typeId := by simpa using List.find?_some hfirst
      obtain ⟨hid', found', hfound', hkeep'⟩ := mem_of_planPurge hplan'
      rw [htype] at hid'
      rw [hdto.name_eq hid (show dto.registry.typeIdOf .edge e'.name = some typeId from hid')] at hfound'
      cases hf'.symm.trans hfound'
      exact hkeep' key (hedge rfl first hfirst key hkey)

/-- **A schema is applied.** -/
theorem SchemaApplied.conforms {source : String} (h : Graph.SchemaApplied C X source c c')
    (hevolves : ∀ ast, parse X source = .ok ast → c.Evolves ast) (hs : c.Sound) (hc : c.Conforms) : c'.Conforms := by
  obtain ⟨ast, dto', ⟨hparse, -⟩, hsaves, rfl⟩ := h
  obtain ⟨honce', hkept⟩ := hevolves ast hparse
  have hschema : ((c.withSchema (some dto')).purged C (c.purges ast)).schema = some dto' := schema_purgeNodes _
  refine hc.saved hs hsaves honce' hschema fun kind rid typeId props' hrec => ?_
  obtain ⟨props, hold, hpart, hnode, hedge⟩ := exists_of_purged hrec
  refine ⟨props, hold, fun dto name fields' hdto hid hf' => ?_⟩
  obtain ⟨fields, hf⟩ := Option.isSome_iff_exists.1
    (hkept kind rid typeId props dto name hold hdto hid (Option.isSome_iff_exists.2 ⟨fields', hf'⟩))
  have htakes := hc.takes hs hold hdto hid hf
  have hsame := (hc.once dto hdto).sameFieldTypes honce' (hsaves.migrates rfl dto hdto) hf hf'
  refine htakes.migrated hsame hpart fun key hkey => ?_
  unfold Contents.purges at hnode hedge
  rw [hdto] at hnode hedge
  exact declared_of_purged (hs.schema dto hdto).coherent hid hf hf' (fun key hkey => htakes.declared key (hpart.mem hkey))
    hnode hedge hkey

/-! ## Runs -/

/-- A database that only has a schema. -/
theorem Conforms.onlySchema (hc : c.Conforms) : ((Contents.empty : Contents F).withSchema c.schema).Conforms where
  once := hc.once
  records kind rid typeId props hrec := by cases kind <;> cases hrec

theorem conforms_empty : (Contents.empty : Contents F).Conforms where
  once dto hs := by cases hs
  records kind rid typeId props hrec := by cases kind <;> cases hrec

/-- **A database is rebuilt.** -/
theorem Rebuilt.conforms (h : Rebuilt C c c') (hs : c.Sound) (hc : c.Conforms) : c'.Conforms := by
  obtain ⟨f, g, h⟩ := h
  exact h.edits.conforms hc hs.onlySchema hc.onlySchema

/-- **One step.** -/
theorem Step.conforms {R : Rules F} (h : Step C X R c c') (hR : R.checked) (hevolves : ∀ c ast, R.applies c ast → c.Evolves ast)
    (hs : c.Sound) (hc : c.Conforms) : c'.Conforms := by
  cases h with
  | edit h => exact h.conforms hR hs hc
  | renamed hname h => exact Renamed.conforms h hs hc
  | converted h => exact Converted.conforms h hs hc
  | applied happlies h => exact SchemaApplied.conforms h (fun ast hast => hevolves c ast (happlies ast hast)) hs hc
  | rebuilt h => exact Rebuilt.conforms h hs hc

/-- **A whole run.** -/
theorem Steps.conforms {R : Rules F} (h : Steps C X R c c') (hR : R.checked) (hevolves : ∀ c ast, R.applies c ast → c.Evolves ast)
    (hs : c.Sound) (hc : c.Conforms) : c'.Conforms :=
  (h.induction hs hc fun hs hstep hc => hstep.conforms hR hevolves hs hc).2

end Contents

/-- New records are checked, and no type that has records comes back. -/
def Rules.strict : Rules F := ⟨True, Set.univ, Contents.Evolves⟩

end ChiffonDB

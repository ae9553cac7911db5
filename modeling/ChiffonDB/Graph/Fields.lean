import ChiffonDB.Graph.ConvertEffects
import ChiffonDB.Graph.SchemaSound
import ChiffonDB.Schema.Migration

/-!
# Fields and properties

What it means that properties contradict none of the fields of a type, and how it survives a change of the fields.

* `FieldsTake` — every property is one of a field, and of its type; `validateProperties_eq_ok` — that is what is checked.
* `FieldsTake.renamed`, `FieldsTake.retyped`, `FieldsTake.migrated` — **so it is behind each change of a schema**.
* `SchemaAst.Once` — every type, and every field of it, is declared once.
* `Contents.Conforms` — every record is one that the schema lets in.
-/

set_option autoImplicit false

set_option linter.unusedSectionVars false

namespace ChiffonDB

variable {F : Type} [F64 F] [F64Text F]

/-- Every property is one of a field, and has a value of its type. -/
structure FieldsTake (fields : List FieldDef) (props : Props F) : Prop where
  declared : ∀ key, key ∈ props → ∃ f ∈ fields, f.name = key
  typed : ∀ f ∈ fields, ∀ v, props[f.name]? = some v → valueMatchesType v f.typeExpr = true

section Validation

variable {fields : List FieldDef} {props : Props F}

theorem unknownField_eq_none : unknownField fields props = none ↔ ∀ key, key ∈ props → ∃ f ∈ fields, f.name = key := by
  unfold unknownField
  simp [List.find?_eq_none, Std.ExtTreeMap.mem_keys]

theorem mistypedField_eq_none : mistypedField fields props = none ↔
    ∀ f ∈ fields, ∀ v, props[f.name]? = some v → valueMatchesType v f.typeExpr = true := by
  unfold mistypedField
  rw [List.findSome?_eq_none_iff]
  refine forall₂_congr fun f _ => ?_
  cases hv : props[f.name]? with
  | none => simp
  | some v => simp

/-- **`validate_properties`** finds nothing wrong. -/
theorem validateProperties_eq_ok {label : String} :
    validateProperties label fields props = .ok () ↔ FieldsTake fields props := by
  unfold validateProperties
  cases hu : unknownField fields props with
  | some key =>
    refine ⟨fun h => (by cases h), fun h => ?_⟩
    rw [unknownField_eq_none.2 h.declared] at hu
    cases hu
  | none =>
    cases hm : mistypedField fields props with
    | some found =>
      refine ⟨fun h => (by cases h), fun h => ?_⟩
      rw [mistypedField_eq_none.2 h.typed] at hm
      cases hm
    | none => exact ⟨fun _ => ⟨unknownField_eq_none.1 hu, mistypedField_eq_none.1 hm⟩, fun _ => rfl⟩

end Validation

/-! ## Other fields -/

theorem mem_props_iff {props : Props F} {key : String} : key ∈ props ↔ ∃ v, props[key]? = some v := by
  rw [← Option.isSome_iff_exists, Std.ExtTreeMap.isSome_getElem?_iff_mem]

/-- Nothing is erased that is not there. -/
theorem getElem?_erase_of_not_mem {name : String} {props : Props F} (h : name ∉ props) (key : String) :
    (props.erase name)[key]? = props[key]? := by
  have hnone : props[name]? = none := Std.ExtTreeMap.getElem?_eq_none h
  rw [Std.ExtTreeMap.getElem?_erase]
  split
  · rename_i hk
    rw [Std.LawfulEqCmp.compare_eq_iff_eq.1 hk] at hnone
    rw [hnone]
  · rfl

/-- **The properties behind a renaming**, one by one. -/
theorem getElem?_renamedProps (oldName newName : String) {props : Props F}
    (hnew : oldName = newName → newName ∉ props) (key : String) :
    ((renamedProps oldName newName props).getD props)[key]? =
      if key = newName then props[oldName]? else if key = oldName then none else props[key]? := by
  have hold : (props.erase newName)[oldName]? = props[oldName]? := by
    by_cases he : oldName = newName
    · exact getElem?_erase_of_not_mem (hnew he) oldName
    · rw [Std.ExtTreeMap.getElem?_erase, if_neg fun hc => he (Std.LawfulEqOrd.eq_of_compare hc).symm]
  unfold renamedProps
  rw [hold]
  cases hv : props[oldName]? with
  | none =>
    dsimp only
    split
    · rw [Option.getD_some]
      grind
    · rw [Option.getD_none]
      grind
  | some v =>
    dsimp only
    rw [Option.getD_some]
    grind

section Changes

variable {fields fields' : List FieldDef} {props props' : Props F} {position : Nat} {field field' : FieldDef}

/-- A field that is not in the place of another one. -/
theorem mem_set_of_ne {f : FieldDef} (hf : f ∈ fields) (hthere : fields[position]? = some field) (hne : f ≠ field) :
    f ∈ fields.set position field' := by
  obtain ⟨i, hi⟩ := List.mem_iff_getElem?.1 hf
  have hip : position ≠ i := by
    rintro rfl
    exact hne (Option.some.inj (hi.symm.trans hthere))
  refine List.mem_iff_getElem?.2 ⟨i, ?_⟩
  rw [List.getElem?_set_ne hip, hi]

/-- **The fields with another one in its place**, where no other field has its name. -/
theorem mem_set_iff_of_nodup (hthere : fields[position]? = some field) (hnd : (fields.map FieldDef.name).Nodup) {f : FieldDef} :
    f ∈ fields.set position field' ↔ f = field' ∨ f ∈ fields ∧ f.name ≠ field.name := by
  have hlt : position < fields.length := (List.getElem?_eq_some_iff.1 hthere).1
  constructor
  · intro hf
    obtain ⟨i, hi⟩ := List.mem_iff_getElem?.1 hf
    by_cases hip : position = i
    · subst hip
      rw [List.getElem?_set_self hlt] at hi
      exact .inl (Option.some.inj hi).symm
    · rw [List.getElem?_set_ne hip] at hi
      refine .inr ⟨List.mem_of_getElem? hi, fun he => ?_⟩
      refine hip ((List.getElem?_inj (by simpa using hlt) hnd).1 ?_)
      rw [List.getElem?_map, List.getElem?_map, hthere, hi, Option.map_some, Option.map_some, he]
  · rintro (rfl | ⟨hf, hne⟩)
    · exact List.mem_iff_getElem?.2 ⟨position, List.getElem?_set_self hlt⟩
    · exact mem_set_of_ne hf hthere fun he => hne (congrArg FieldDef.name he)

/-- **A field gets a name that is not taken.** -/
theorem FieldsTake.renamed (h : FieldsTake fields props) (hthere : fields[position]? = some field) {newName : String}
    (hnew : ∀ f ∈ fields, f.name ≠ newName) :
    FieldsTake (fields.set position { field with name := newName })
      ((renamedProps field.name newName props).getD props) := by
  have hfield : field ∈ fields := List.mem_of_getElem? hthere
  have hnotin : newName ∉ props := fun hm => by
    obtain ⟨f, hf, he⟩ := h.declared newName hm
    exact hnew f hf he
  have hget := getElem?_renamedProps field.name newName fun _ => hnotin
  have hlt : position < fields.length := (List.getElem?_eq_some_iff.1 hthere).1
  have hset : { field with name := newName } ∈ fields.set position { field with name := newName } :=
    List.mem_iff_getElem?.2 ⟨position, List.getElem?_set_self hlt⟩
  refine ⟨fun key hkey => ?_, fun f hf v hv => ?_⟩
  · obtain ⟨v, hv⟩ := mem_props_iff.1 hkey
    rw [hget] at hv
    split at hv
    · rename_i he
      exact ⟨_, hset, he.symm⟩
    · split at hv
      · cases hv
      · rename_i hold
        obtain ⟨f, hf, he⟩ := h.declared key (mem_props_iff.2 ⟨v, hv⟩)
        refine ⟨f, mem_set_of_ne hf hthere ?_, he⟩
        rintro rfl
        exact hold he.symm
  · rw [hget] at hv
    rcases List.mem_or_eq_of_mem_set hf with hmem | rfl
    · rw [if_neg (hnew f hmem)] at hv
      split at hv
      · cases hv
      · exact h.typed f hmem v hv
    · rw [if_pos rfl] at hv
      exact h.typed field hfield v hv

/-- **A field gets another type**, and all its values with it. -/
theorem FieldsTake.retyped (h : FieldsTake fields props) (hthere : fields[position]? = some field)
    (hnd : (fields.map FieldDef.name).Nodup) {target : TypeExpr}
    (hother : ∀ key : String, key ≠ field.name → props'[key]? = props[key]?)
    (hvalue : ∀ v, props'[field.name]? = some v → valueMatchesType v target = true) :
    FieldsTake (fields.set position { field with typeExpr := target }) props' := by
  have hlt : position < fields.length := (List.getElem?_eq_some_iff.1 hthere).1
  have hset : { field with typeExpr := target } ∈ fields.set position { field with typeExpr := target } :=
    List.mem_iff_getElem?.2 ⟨position, List.getElem?_set_self hlt⟩
  refine ⟨fun key hkey => ?_, fun f hf v hv => ?_⟩
  · by_cases hk : key = field.name
    · exact ⟨_, hset, hk.symm⟩
    · obtain ⟨v, hv⟩ := mem_props_iff.1 hkey
      rw [hother key hk] at hv
      obtain ⟨f, hf, he⟩ := h.declared key (mem_props_iff.2 ⟨v, hv⟩)
      refine ⟨f, mem_set_of_ne hf hthere ?_, he⟩
      rintro rfl
      exact hk he.symm
  · rcases (mem_set_iff_of_nodup hthere hnd).1 hf with rfl | ⟨hmem, hne⟩
    · exact hvalue v hv
    · rw [hother f.name hne] at hv
      exact h.typed f hmem v hv

/-- Fewer properties. -/
theorem FieldsTake.sub (h : FieldsTake fields props) (hsub : ∀ (key : String) v, props'[key]? = some v → props[key]? = some v) :
    FieldsTake fields props' := by
  refine ⟨fun key hkey => ?_, fun f hf v hv => h.typed f hf v (hsub f.name v hv)⟩
  obtain ⟨v, hv⟩ := mem_props_iff.1 hkey
  exact h.declared key (mem_props_iff.2 ⟨v, hsub key v hv⟩)

/-- **Other fields, of the same types**, and no properties but theirs. -/
theorem FieldsTake.migrated (h : FieldsTake fields props) (hsame : SameFieldTypes fields fields')
    (hsub : ∀ (key : String) v, props'[key]? = some v → props[key]? = some v)
    (hdeclared : ∀ key, key ∈ props' → ∃ f ∈ fields', f.name = key) : FieldsTake fields' props' := by
  refine ⟨hdeclared, fun f' hf' v hv => ?_⟩
  have hv' := hsub f'.name v hv
  obtain ⟨f, hf, he⟩ := h.declared f'.name (mem_props_iff.2 ⟨v, hv'⟩)
  rw [← hsame f hf f' hf' he]
  apply h.typed f hf
  rw [he, hv']

end Changes

/-! ## Converted values -/

theorem matches_ofInt64 (i : Int64) : valueMatchesType (.number (.ofInt64 i) : Value F) .int = true := by
  unfold Number.ofInt64
  split <;> rfl

theorem matches_number_float (n : Number F) : valueMatchesType (.number n) .float = true := by
  cases n <;> rfl

/-- **A converted value is of the new type.** -/
theorem matches_convertValue {v w : Value F} {target : TypeExpr} (h : convertValue v target = some w) :
    valueMatchesType w target = true := by
  unfold convertValue at h
  split at h
  · cases h
    rfl
  · cases h
    rfl
  · cases h
    rfl
  · rename_i n
    split at h
    · rename_i hint
      cases h
      cases n with
      | float x => cases hint
      | _ => rfl
    · unfold floatToInt at h
      dsimp only at h
      split at h
      · cases h
        exact matches_ofInt64 _
      · cases h
  · obtain ⟨i, -, rfl⟩ := Option.map_eq_some_iff.1 h
    exact matches_ofInt64 i
  · cases h
    rfl
  · obtain ⟨i, -, hi⟩ := Option.bind_eq_some_iff.1 h
    unfold intToFloat at hi
    dsimp only at hi
    split at hi
    · obtain ⟨n, -, rfl⟩ := Option.map_eq_some_iff.1 hi
      exact matches_number_float n
    · cases hi
  · obtain ⟨n, -, rfl⟩ := Option.map_eq_some_iff.1 h
    exact matches_number_float n
  · cases h
    rfl
  · split at h
    · cases h
      rfl
    · split at h
      · cases h
        rfl
      · cases h
  · cases h
    rfl
  · cases h

/-- The types that a field can be changed to. -/
theorem indexable_of_scalarTypeFromName {name : String} {target : TypeExpr} (h : scalarTypeFromName name = some target) :
    target.isIndexableScalar = true := by
  unfold scalarTypeFromName at h
  split at h <;> cases h <;> rfl

/-- A value that is equal to one of a scalar type is of the type. -/
theorem matches_of_eq {v w : Value F} {target : TypeExpr} (htarget : target.isIndexableScalar = true) (heq : v.eq w = true)
    (h : valueMatchesType v target = true) : valueMatchesType w target = true := by
  have hsame : valueMatchesType v target = valueMatchesType w target := by
    unfold Value.eq at heq
    split at heq
    · rfl
    · cases target <;> rfl
    · rename_i m n
      cases m <;> cases n <;> simp only [Number.eq, Bool.false_eq_true] at heq <;> cases target <;> rfl
    · rw [eq_of_beq heq]
    · cases target <;> simp [valueMatchesType, TypeExpr.isIndexableScalar] at htarget ⊢
    · cases target <;> simp [valueMatchesType, TypeExpr.isIndexableScalar] at htarget ⊢
    · cases heq
  rw [← hsame, h]

/-- **What a change of the type puts in the place of a value is of the new type.** -/
theorem matches_convertedValue (target : TypeExpr) (v : Value F) : valueMatchesType (convertedValue target v) target = true := by
  unfold convertedValue
  cases hw : convertValue v target with
  | none => simp [valueMatchesType]
  | some w => exact matches_convertValue hw

/-! ## Declared once -/

/-- Every type is declared once, and every field of it. -/
structure SchemaAst.Once (ast : SchemaAst) : Prop where
  types : ∀ k, (ast.typeNames k).Nodup
  fields : ∀ kind name fields, ast.fieldsNamed kind name = some fields → (fields.map FieldDef.name).Nodup

namespace SchemaAst

variable {ast : SchemaAst} {kind : RecordKind} {name : String} {fields fields' : List FieldDef}

/-- The fields of a definition are those of the first one. -/
theorem fieldsNamed_eq (ast : SchemaAst) (kind : RecordKind) (name : String) :
    ast.fieldsNamed kind name = ast.fieldsOf kind name := by
  obtain ⟨defs⟩ := ast
  cases kind with
  | node =>
    show ((defs.filterMap Definition.node?).find? _).map NodeDef.fields = defs.findSome? _
    induction defs with
    | nil => rfl
    | cons d defs ih =>
      cases d with
      | node n => by_cases hn : n.name = name <;> simp [Definition.node?, Definition.fieldsOf, hn, ← ih]
      | edge e => simp [Definition.node?, Definition.fieldsOf, ← ih]
  | edge =>
    show ((defs.filterMap Definition.edge?).find? _).map EdgeDef.props = defs.findSome? _
    induction defs with
    | nil => rfl
    | cons d defs ih =>
      cases d with
      | node n => simp [Definition.edge?, Definition.fieldsOf, ← ih]
      | edge e => by_cases he : e.name = name <;> simp [Definition.edge?, Definition.fieldsOf, he, ← ih]

theorem fieldsOf_setFields_self (h : ast.fieldsOf kind name = some fields) :
    (ast.setFields kind name fields').fieldsOf kind name = some fields' := by
  obtain ⟨defs⟩ := ast
  change defs.findSome? _ = _ at h
  show (setFirstFields kind name fields' defs).findSome? _ = _
  induction defs with
  | nil => cases h
  | cons d defs ih =>
    unfold setFirstFields
    cases hd : d.fieldsOf kind name with
    | some found =>
      have hset : (d.setFields fields').fieldsOf kind name = some fields' := by
        cases d <;> simp [Definition.fieldsOf, Definition.setFields] at hd ⊢ <;> exact hd.1
      rw [if_pos (by rfl), List.findSome?_cons, hset]
    | none =>
      rw [List.findSome?_cons, hd] at h
      rw [if_neg (by simp), List.findSome?_cons, hd]
      exact ih h

theorem fieldsOf_setFields_ne {kind' : RecordKind} {name' : String} (hne : ¬ (kind' = kind ∧ name' = name)) :
    (ast.setFields kind name fields').fieldsOf kind' name' = ast.fieldsOf kind' name' := by
  obtain ⟨defs⟩ := ast
  show (setFirstFields kind name fields' defs).findSome? _ = defs.findSome? _
  induction defs with
  | nil => rfl
  | cons d defs ih =>
    unfold setFirstFields
    split
    · rename_i hd
      have hother : d.fieldsOf kind' name' = none ∧ (d.setFields fields').fieldsOf kind' name' = none := by
        cases d <;> simp [Definition.fieldsOf, Definition.setFields] at hd ⊢ <;> grind
      rw [List.findSome?_cons, List.findSome?_cons, hother.1, hother.2]
    · rw [List.findSome?_cons, List.findSome?_cons, ih]

theorem typeNames_setFields (ast : SchemaAst) (kind : RecordKind) (name : String) (fields' : List FieldDef)
    (k : DynamicTypeKind) : (ast.setFields kind name fields').typeNames k = ast.typeNames k := by
  obtain ⟨defs⟩ := ast
  cases k with
  | node =>
    show ((setFirstFields kind name fields' defs).filterMap Definition.node?).map NodeDef.name =
      (defs.filterMap Definition.node?).map NodeDef.name
    induction defs with
    | nil => rfl
    | cons d defs ih =>
      unfold setFirstFields
      split
      · cases d <;> rfl
      · cases d <;> simp [List.filterMap_cons, Definition.node?, ih]
  | edge =>
    show ((setFirstFields kind name fields' defs).filterMap Definition.edge?).map EdgeDef.name =
      (defs.filterMap Definition.edge?).map EdgeDef.name
    induction defs with
    | nil => rfl
    | cons d defs ih =>
      unfold setFirstFields
      split
      · cases d <;> rfl
      · cases d <;> simp [List.filterMap_cons, Definition.edge?, ih]

/-- **Other fields of one type.** -/
theorem Once.setFields (h : ast.Once) (hf : ast.fieldsOf kind name = some fields)
    (hnd : (fields'.map FieldDef.name).Nodup) : (ast.setFields kind name fields').Once := by
  refine ⟨fun k => ?_, fun kind' name' found hfound => ?_⟩
  · rw [typeNames_setFields]
    exact h.types k
  · rw [fieldsNamed_eq] at hfound
    by_cases hsame : kind' = kind ∧ name' = name
    · obtain ⟨rfl, rfl⟩ := hsame
      rw [fieldsOf_setFields_self hf] at hfound
      cases hfound
      exact hnd
    · rw [fieldsOf_setFields_ne hsame] at hfound
      exact h.fields kind' name' found ((fieldsNamed_eq ast kind' name').trans hfound)

theorem Once.nodeDeclaredOnce (h : ast.Once) (name : String) : ast.NodeDeclaredOnce name := by
  intro n hn n' hn' he he'
  exact List.inj_on_of_nodup_map (h.types .node) hn hn' (he.trans he'.symm)

theorem Once.edgeDeclaredOnce (h : ast.Once) (name : String) : ast.EdgeDeclaredOnce name := by
  intro e he e' he' hn hn'
  exact List.inj_on_of_nodup_map (h.types .edge) he he' (hn.trans hn'.symm)

theorem oneTypePerField_of_nodup (hnd : (fields.map FieldDef.name).Nodup) : OneTypePerField fields := by
  intro f hf g hg hn
  rw [List.inj_on_of_nodup_map hnd hf hg hn]

/-- **A migration that is accepted** keeps the types of the fields that both schemas declare. -/
theorem Once.sameFieldTypes {new : SchemaAst} (h : ast.Once) (h' : new.Once) (hm : validateMigration ast new = .ok ())
    (hf : ast.fieldsNamed kind name = some fields) (hf' : new.fieldsNamed kind name = some fields') :
    SameFieldTypes fields fields' := by
  have hone := oneTypePerField_of_nodup (h.fields kind name fields hf)
  cases kind with
  | node =>
    obtain ⟨n, hn, rfl⟩ := Option.map_eq_some_iff.1 hf
    obtain ⟨n', hn', rfl⟩ := Option.map_eq_some_iff.1 hf'
    exact sameNode_of_once hm hn hn' (h.nodeDeclaredOnce name) (h'.nodeDeclaredOnce name) hone
  | edge =>
    obtain ⟨e, he, rfl⟩ := Option.map_eq_some_iff.1 hf
    obtain ⟨e', he', rfl⟩ := Option.map_eq_some_iff.1 hf'
    exact (sameEdge_of_once hm he he' (h.edgeDeclaredOnce name) (h'.edgeDeclaredOnce name)).2.2 hone

end SchemaAst

/-! ## Records that conform -/

namespace Contents

/-- A type that has a name. -/
def Named (c : Contents F) (kind : RecordKind) (typeId : UInt16) : Prop :=
  ∃ dto name, c.schema = some dto ∧ dto.registry.typeIdOf kind name = some typeId

/-- A record that the schema lets in: its type has a name, and its properties are valid. -/
structure Accepts (c : Contents F) (kind : RecordKind) (typeId : UInt16) (props : Props F) : Prop where
  named : c.Named kind typeId
  valid : c.validate kind typeId props = .ok ()

/-- Every record is one that the schema lets in, and the schema declares everything once. -/
structure Conforms (c : Contents F) : Prop where
  once : ∀ dto, c.schema = some dto → (dtoToAst dto).Once
  records : ∀ kind rid typeId props, c.record kind rid = some (typeId, props) → c.Accepts kind typeId props

variable {c c' : Contents F} {kind : RecordKind} {typeId : UInt16} {props : Props F}

/-- What the check of an update finds valid. -/
theorem validate_eq_ok : c.validate kind typeId props = .ok () ↔
    ∀ name fields, c.fieldsOf kind typeId = some (name, fields) → FieldsTake fields props := by
  unfold Contents.validate
  cases hf : c.fieldsOf kind typeId with
  | none => exact ⟨fun _ name fields he => (by cases he), fun _ => rfl⟩
  | some found =>
    obtain ⟨name, fields⟩ := found
    dsimp only
    rw [validateProperties_eq_ok]
    refine ⟨fun h name fields he => ?_, fun h => h name fields rfl⟩
    cases he
    exact h

/-- What is shown is a part of what is stored. -/
theorem getElem?_of_visible {key : String} {v : Value F} (h : (c.visible kind typeId props)[key]? = some v) :
    props[key]? = some v := by
  unfold Contents.visible Graph.retainDeclared at h
  split at h
  · rw [Std.ExtTreeMap.getElem?_filter'] at h
    exact (Option.filter_eq_some_iff.1 h).1
  · exact h

/-- What is shown is let in again. -/
theorem Accepts.visible (h : c.Accepts kind typeId props) : c.Accepts kind typeId (c.visible kind typeId props) :=
  ⟨h.named, validate_eq_ok.2 fun name fields hf =>
    (validate_eq_ok.1 h.valid name fields hf).sub fun _ _ hv => getElem?_of_visible hv⟩

theorem Accepts.congr (h : c.Accepts kind typeId props) (hs : c'.schema = c.schema) : c'.Accepts kind typeId props := by
  obtain ⟨dto, name, hdto, hid⟩ := h.named
  exact ⟨⟨dto, name, hs.trans hdto, hid⟩, ((SameTypes.of_schema hs).validate kind typeId props).trans h.valid⟩

end Contents

end ChiffonDB

import ChiffonDB.Graph.Effects

/-!
# The schema of a new database

What a database says about a type, in terms of the name of the type, and the schema that a database without one gets.

* `SchemaDto.Coherent` — a name, its id, and the name again.
* `Contents.fieldsOf_eq`, `Contents.declared_eq` — **what is known about a type id is known by the name**.
* `Graph.meets_applyFirst` — **`apply_schema` on a database without a schema**.
-/

set_option autoImplicit false

set_option linter.unusedSectionVars false

namespace ChiffonDB

open Action AssocList

/-! ## Names and ids -/

namespace SchemaRegistry

def typeIdOf (r : SchemaRegistry) : RecordKind → String → Option UInt16
  | .node => r.nodeTypeId
  | .edge => r.edgeTypeId

def typeNameOf (r : SchemaRegistry) : RecordKind → UInt16 → Option String
  | .node => r.nodeTypeName
  | .edge => r.edgeTypeName

end SchemaRegistry

/-- The id of a name leads back to the name. -/
def SchemaDto.Coherent (dto : SchemaDto) : Prop := ∀ kind name id,
  dto.registry.typeIdOf kind name = some id → dto.registry.typeNameOf kind id = some name

namespace SchemaDto

variable {dto : SchemaDto} {kind : RecordKind} {name name' : String} {id : UInt16}

theorem Coherent.name_eq (h : dto.Coherent) (hid : dto.registry.typeIdOf kind name = some id)
    (hid' : dto.registry.typeIdOf kind name' = some id) : name' = name :=
  Option.some.inj ((h kind name' id hid').symm.trans (h kind name id hid))

/-- Where no id has been given out twice. -/
theorem coherent_of_sound (h : ∀ kind, ∃ given, (dto.typeIds kind).Sound given) : dto.Coherent := by
  have hback : ∀ (ids given : List (String × UInt16)) (next : UInt16), TypeIds.Sound ⟨ids, next⟩ given →
      ∀ name id, lastOf ids name = some id → lastOf (ids.map Prod.swap) id = some name := by
    intro ids given next hs name id hid
    have hmem := mem_of_lastOf hid
    have hswap : (lastOf (ids.map Prod.swap) id).isSome :=
      lastOf_isSome.2 ⟨(id, name), List.mem_map.2 ⟨(name, id), hmem, rfl⟩, rfl⟩
    obtain ⟨name', hname⟩ := Option.isSome_iff_exists.1 hswap
    obtain ⟨p, hp, he⟩ := List.mem_map.1 (mem_of_lastOf hname)
    obtain ⟨n, i⟩ := p
    cases he
    rw [hname, hs.issued.unique _ (hs.known _ hp) _ (hs.known _ hmem) rfl]
  rintro (_ | _) name id hid
  · obtain ⟨given, hs⟩ := h .node
    exact hback _ _ _ hs name id hid
  · obtain ⟨given, hs⟩ := h .edge
    exact hback _ _ _ hs name id hid

end SchemaDto

/-! ## What is known about a type -/

/-- The fields of the definition of a name. -/
def SchemaAst.fieldsNamed (ast : SchemaAst) : RecordKind → String → Option (List FieldDef)
  | .node, name => (ast.findNode name).map NodeDef.fields
  | .edge, name => (ast.findEdge name).map EdgeDef.props

/-- The names of the fields that are shown. -/
def SchemaAst.declaredNamed (ast : SchemaAst) : RecordKind → String → Option (List String)
  | .node, name => lastOf (ast.nodes.map fun n => (n.name, n.fields.map FieldDef.name)) name
  | .edge, name => lastOf (ast.edges.map fun e => (e.name, e.props.map FieldDef.name)) name

namespace Contents

variable {F : Type} [F64 F] [F64Text F] {c : Contents F} {dto : SchemaDto} {kind : RecordKind} {name : String} {id : UInt16}
  (hs : c.schema = some dto) (hdto : dto.Coherent) (hid : dto.registry.typeIdOf kind name = some id)

include hs hdto hid

theorem fieldsOf_eq : c.fieldsOf kind id = ((dtoToAst dto).fieldsNamed kind name).map fun fields => (name, fields) := by
  have hname := hdto kind name id hid
  unfold Contents.fieldsOf
  rw [hs, Option.bind_some]
  cases kind with
  | node =>
    change dto.registry.nodeTypeName id = some name at hname
    dsimp only [Graph.fieldsOf, SchemaAst.fieldsNamed]
    rw [hname]
    cases hdef : (dtoToAst dto).findNode name <;> simp [hdef]
  | edge =>
    change dto.registry.edgeTypeName id = some name at hname
    dsimp only [Graph.fieldsOf, SchemaAst.fieldsNamed]
    rw [hname]
    cases hdef : (dtoToAst dto).findEdge name <;> simp [hdef]

theorem declared_eq : c.declared kind id = (dtoToAst dto).declaredNamed kind name := by
  unfold Contents.declared
  rw [hs, Option.bind_some]
  have hkey : ∀ name', dto.registry.typeIdOf kind name' = some id ↔ name' = name :=
    fun name' => ⟨hdto.name_eq hid, fun he => he ▸ hid⟩
  cases kind with
  | node => exact lastOf_filterMap _ NodeDef.name _ _ fun n _ => hkey n.name
  | edge => exact lastOf_filterMap _ EdgeDef.name _ _ fun e _ => hkey e.name

omit hid in
/-- **The paths that are indexed.** -/
theorem indexedPaths_eq {node : NodeDef} (hid : dto.registry.nodeTypeId name = some id)
    (hdef : (dtoToAst dto).findNode name = some node) : c.indexedPaths id = Graph.indexedFields node.fields := by
  unfold Contents.indexedPaths
  rw [fieldsOf_eq hs hdto (show dto.registry.typeIdOf .node name = some id from hid)]
  dsimp only [SchemaAst.fieldsNamed]
  rw [hdef]
  rfl

end Contents

theorem Contents.visible_idem {F : Type} [F64 F] [F64Text F] (c : Contents F) (kind : RecordKind) (id : UInt16)
    (props : Props F) : c.visible kind id (c.visible kind id props) = c.visible kind id props := by
  unfold Contents.visible Graph.retainDeclared
  cases c.declared kind id with
  | none => rfl
  | some names =>
    apply Std.ExtTreeMap.ext_getElem?
    intro key
    simp only [Std.ExtTreeMap.getElem?_filter', Option.filter_filter, Bool.and_self]

/-! ## The first schema -/

/-- A database that only has a schema. -/
def Contents.ofSchema {F : Type} [F64 F] [F64Text F] (dto : SchemaDto) : Contents F :=
  { Contents.empty with schema := some dto }

/-- The ids of a first schema. -/
theorem assignTypeIds_none {ast : SchemaAst} {dto : SchemaDto} (h : assignTypeIds (astToDto ast) none = some dto) :
    dtoToAst dto = ast ∧ dto.Coherent ∧ ∀ kind name, ((ast.fieldsNamed kind name).isSome) →
      ∃ id, dto.registry.typeIdOf kind name = some id := by
  obtain ⟨hdefs, hsave⟩ := assignTypeIds_eq_some.1 h
  have hsound : ∀ kind, TypeIds.Sound (idsOf none kind) [] := fun kind =>
    ⟨by rw [show max (idsOf none kind).next 1 = 1 from rfl]; exact .nil, by simp [idsOf], by simp⟩
  refine ⟨by cases ast; exact congrArg SchemaAst.mk hdefs, SchemaDto.coherent_of_sound fun kind =>
    ⟨_, ((hsound kind).save (hsave kind)).1⟩, ?_⟩
  rintro (_ | _) name hname
  · obtain ⟨n, hn⟩ := Option.isSome_iff_exists.1 (Option.isSome_map .. ▸ hname)
    have hmem : name ∈ ast.typeNames .node :=
      List.mem_map.2 ⟨n, List.mem_of_find?_eq_some hn, by simpa using List.find?_some hn⟩
    exact Option.isSome_iff_exists.1 (((hsound .node).save (hsave .node)).2.2 name hmem)
  · obtain ⟨e, he⟩ := Option.isSome_iff_exists.1 (Option.isSome_map .. ▸ hname)
    have hmem : name ∈ ast.typeNames .edge :=
      List.mem_map.2 ⟨e, List.mem_of_find?_eq_some he, by simpa using List.find?_some he⟩
    exact Option.isSome_iff_exists.1 (((hsound .edge).save (hsave .edge)).2.2 name hmem)

namespace Graph

variable {F : Type} [F64 F] [F64Text F] {M : Type} [FaithfulBacking M] {C : Codecs F} {c : Contents F}

theorem shows_empty (C : Codecs F) : Shows C .empty (empty : Graph M) := by
  unfold Shows
  rw [show FaithfulBacking.behind (empty : Graph M).pages = .empty from FaithfulBacking.behind_fresh]
  exact Depicts.empty

variable {t : Topo} {b : Behind}

/-- There is nothing to purge where there was no schema. -/
theorem finds_noPurges (h : Depicts C t b c) (hC : C.Faithful) (hs : c.schema = none) (ast : SchemaAst) :
    Finds (Is (M := M) t b) (purgesFor C ast) (.ok ([], [])) := by
  refine (finds_noSchema h hC hs).attempt.bind (u := fun _ => .ok ([], [])) fun r hr => ?_
  cases hr
  exact Finds.pure _

theorem finds_noPrevious (h : Depicts C t b c) (hs : c.schema = none) (ast : SchemaAst) (checkMigration : Bool) :
    Finds (Is (M := M) t b) (previousSchema C ast checkMigration) (.ok none) := by
  refine Finds.get fun g hg => ?_
  rw [hasSchema_iff h hg, hs]
  exact Finds.pure _

/-- **`apply_schema`** on a database without a schema. -/
theorem meets_applyFirst (hC : C.Faithful) (hs : c.schema = none) (X : Pest) (source : String) :
    Meets (Shows (M := M) C c) (applySchema C X source)
      (fun _ g => ∃ ast dto, parse X source = .ok ast ∧ validate ast = .ok () ∧
        assignTypeIds (astToDto ast) none = some dto ∧ (dto.Shallow → Shows C { c with schema := some dto } g))
      (Shows C c) := by
  refine meets_shows fun t b h => ?_
  refine Meets.bind (Q := fun ast g => parse X source = .ok ast ∧ Is t b g)
    (Meets.reads (fun g ast hg hast => ⟨hast, hg⟩) fun g hg => hg.shows h) fun ast => Meets.given fun hast => ?_
  refine Meets.bind (Q := fun _ g => validate ast = .ok () ∧ Is t b g)
    (Meets.ofExcept (fun g _ hg hvalid => ⟨hvalid, hg⟩) fun g hg => hg.shows h) fun _ => Meets.given fun hvalid => ?_
  refine Meets.found (finds_noPurges h hC hs ast) ?_
  refine Meets.found (finds_noPrevious h hs ast true) ?_
  cases hids : assignTypeIds (astToDto ast) none with
  | none => exact Meets.panic
  | some dto =>
    refine (meets_writeSchemaDto C dto).sure.mono (fun _ hg => hg) (fun _ g hg => ?_) fun _ hg => hg
    exact ⟨ast, dto, hast, hvalid, hids, fun hdto => hg.shows (h.setSchema hdto)⟩

end Graph

end ChiffonDB

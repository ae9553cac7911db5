import ChiffonDB.Schema.TypeIdRun

/-!
# The stored form of a schema

The mirror types of `schema/store.rs` that the serializer sees, and the conversions between them and the syntax tree.

* `dtoToDef_defToDto`, `defToDto_dtoToDef` — the conversions of definitions are inverse to each other.
* `DtoCodec.schemaCodec` — the serializer of the mirror types, as one of schemas.
* `DtoCodec.faithful` — **what the store relies on in the serializer**, from what the serializer of the mirror types does.
-/

set_option autoImplicit false

namespace ChiffonDB

/-! ## The mirror types -/

inductive TypeExprDto where
  | int
  | float
  | boolean
  | dateTime
  | string
  | json
  | blob
  | vector (n : UInt32)
  | list (elem : TypeExprDto)
  | map (key value : TypeExprDto)
  | nodeRef (name : String)
  | edgeRef (name : String)
  | named (name : String)
  deriving DecidableEq, Repr

structure FieldDefDto where
  name : String
  typeExpr : TypeExprDto
  indexed : Bool
  unique : Bool
  deriving DecidableEq, Repr

structure BoundParamDto where
  name : String
  bound : Option String
  deriving DecidableEq, Repr

structure NodeDefDto where
  name : String
  typeParams : List String
  extends? : Option String
  fields : List FieldDefDto
  deriving DecidableEq, Repr

structure EdgeDefDto where
  name : String
  genericParams : List BoundParamDto
  fromType : TypeExprDto
  toType : TypeExprDto
  props : List FieldDefDto
  deriving DecidableEq, Repr

inductive DefinitionDto where
  | node (n : NodeDefDto)
  | edge (e : EdgeDefDto)
  deriving DecidableEq, Repr

/-- `SchemaDto` with its definitions as they are serialized. -/
structure StoredDto where
  definitions : List DefinitionDto
  nodeTypeIds : List (String × UInt16)
  edgeTypeIds : List (String × UInt16)
  nextNodeId : UInt16
  nextEdgeId : UInt16
  deriving DecidableEq, Repr

/-! ## Conversions -/

def typeToDto : TypeExpr → TypeExprDto
  | .int => .int
  | .float => .float
  | .boolean => .boolean
  | .dateTime => .dateTime
  | .string => .string
  | .json => .json
  | .blob => .blob
  | .vector n => .vector n
  | .list elem => .list (typeToDto elem)
  | .map key value => .map (typeToDto key) (typeToDto value)
  | .nodeRef name => .nodeRef name
  | .edgeRef name => .edgeRef name
  | .named name => .named name

def dtoToType : TypeExprDto → TypeExpr
  | .int => .int
  | .float => .float
  | .boolean => .boolean
  | .dateTime => .dateTime
  | .string => .string
  | .json => .json
  | .blob => .blob
  | .vector n => .vector n
  | .list elem => .list (dtoToType elem)
  | .map key value => .map (dtoToType key) (dtoToType value)
  | .nodeRef name => .nodeRef name
  | .edgeRef name => .edgeRef name
  | .named name => .named name

def fieldToDto (f : FieldDef) : FieldDefDto where
  name := f.name
  typeExpr := typeToDto f.typeExpr
  indexed := f.indexed
  unique := f.unique

def dtoToField (f : FieldDefDto) : FieldDef where
  name := f.name
  typeExpr := dtoToType f.typeExpr
  indexed := f.indexed
  unique := f.unique

/-- The closures of `def_to_dto` and of `dto_to_def`. -/
def paramToDto (p : BoundParam) : BoundParamDto := ⟨p.name, p.bound⟩

def dtoToParam (p : BoundParamDto) : BoundParam := ⟨p.name, p.bound⟩

def defToDto : Definition → DefinitionDto
  | .node n => .node ⟨n.name, n.typeParams, n.extends?, n.fields.map fieldToDto⟩
  | .edge e => .edge ⟨e.name, e.genericParams.map paramToDto, typeToDto e.fromType, typeToDto e.toType,
      e.props.map fieldToDto⟩

def dtoToDef : DefinitionDto → Definition
  | .node n => .node ⟨n.name, n.typeParams, n.extends?, n.fields.map dtoToField⟩
  | .edge e => .edge ⟨e.name, e.genericParams.map dtoToParam, dtoToType e.fromType, dtoToType e.toType,
      e.props.map dtoToField⟩

/-- A schema as it is stored. -/
def SchemaDto.toStored (dto : SchemaDto) : StoredDto where
  definitions := dto.definitions.map defToDto
  nodeTypeIds := dto.nodeTypeIds
  edgeTypeIds := dto.edgeTypeIds
  nextNodeId := dto.nextNodeId
  nextEdgeId := dto.nextEdgeId

/-- A stored schema, its definitions as `dto_to_ast` gives them. -/
def StoredDto.toSchema (dto : StoredDto) : SchemaDto where
  definitions := dto.definitions.map dtoToDef
  nodeTypeIds := dto.nodeTypeIds
  edgeTypeIds := dto.edgeTypeIds
  nextNodeId := dto.nextNodeId
  nextEdgeId := dto.nextEdgeId

/-! ## The conversions are inverse to each other -/

theorem dtoToType_typeToDto (t : TypeExpr) : dtoToType (typeToDto t) = t := by
  induction t with
  | list elem ih => rw [typeToDto, dtoToType, ih]
  | map key value ihk ihv => rw [typeToDto, dtoToType, ihk, ihv]
  | _ => rfl

theorem typeToDto_dtoToType (t : TypeExprDto) : typeToDto (dtoToType t) = t := by
  induction t with
  | list elem ih => rw [dtoToType, typeToDto, ih]
  | map key value ihk ihv => rw [dtoToType, typeToDto, ihk, ihv]
  | _ => rfl

theorem dtoToField_fieldToDto (f : FieldDef) : dtoToField (fieldToDto f) = f := by
  unfold fieldToDto dtoToField
  rw [dtoToType_typeToDto]

theorem fieldToDto_dtoToField (f : FieldDefDto) : fieldToDto (dtoToField f) = f := by
  unfold fieldToDto dtoToField
  rw [typeToDto_dtoToType]

/-- Item by item. -/
theorem map_map_inverse {α β : Type} {f : α → β} {g : β → α} (h : ∀ a, g (f a) = a) (l : List α) :
    (l.map f).map g = l := by
  rw [List.map_map, show g ∘ f = id from funext h, List.map_id]

theorem dtoToDef_defToDto (d : Definition) : dtoToDef (defToDto d) = d := by
  cases d with
  | node n =>
    dsimp only [defToDto, dtoToDef]
    rw [map_map_inverse dtoToField_fieldToDto]
  | edge e =>
    dsimp only [defToDto, dtoToDef]
    rw [map_map_inverse dtoToField_fieldToDto, map_map_inverse (fun _ => rfl), dtoToType_typeToDto, dtoToType_typeToDto]

theorem defToDto_dtoToDef (d : DefinitionDto) : defToDto (dtoToDef d) = d := by
  cases d with
  | node n =>
    dsimp only [defToDto, dtoToDef]
    rw [map_map_inverse fieldToDto_dtoToField]
  | edge e =>
    dsimp only [defToDto, dtoToDef]
    rw [map_map_inverse fieldToDto_dtoToField, map_map_inverse (fun _ => rfl), typeToDto_dtoToType, typeToDto_dtoToType]

theorem toSchema_toStored (dto : SchemaDto) : dto.toStored.toSchema = dto := by
  unfold SchemaDto.toStored StoredDto.toSchema
  rw [map_map_inverse dtoToDef_defToDto]

theorem toStored_toSchema (dto : StoredDto) : dto.toSchema.toStored = dto := by
  unfold SchemaDto.toStored StoredDto.toSchema
  rw [map_map_inverse defToDto_dtoToDef]

/-! ## The serializer -/

/-- `serde_json::to_vec` and `serde_json::from_slice` at the mirror types. -/
structure DtoCodec where
  toVec : StoredDto → List UInt8
  fromSlice : List UInt8 → Except GraphError StoredDto

/-- The serializer as the rest of the store uses it, with the conversions on both sides. -/
def DtoCodec.schemaCodec (J : DtoCodec) : SchemaCodec where
  toVec dto := J.toVec dto.toStored
  fromSlice bytes := (J.fromSlice bytes).map StoredDto.toSchema

/-- A stored schema that the serializer reads back is a schema that is read back. -/
theorem DtoCodec.fromSlice_toVec {J : DtoCodec} {dto : SchemaDto}
    (h : J.fromSlice (J.toVec dto.toStored) = .ok dto.toStored) :
    J.schemaCodec.fromSlice (J.schemaCodec.toVec dto) = .ok dto := by
  show (J.fromSlice (J.toVec dto.toStored)).map StoredDto.toSchema = .ok dto
  rw [h]
  exact congrArg Except.ok (toSchema_toStored dto)

/-- **What is relied on in the serializer of schemas** is what the serializer of the mirror types does. -/
theorem DtoCodec.faithful {J : DtoCodec} (h : ∀ dto : StoredDto,
    definitionsJsonDepth dto.toSchema.definitions < RECURSION_LIMIT → J.fromSlice (J.toVec dto) = .ok dto) :
    J.schemaCodec.Faithful where
  fromSlice_toVec dto hdepth := DtoCodec.fromSlice_toVec (h dto.toStored (by rwa [toSchema_toStored]))

end ChiffonDB

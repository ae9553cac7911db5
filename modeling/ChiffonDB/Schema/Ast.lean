import ChiffonDB.Storage.Basic

/-!
# Schemas

The schema syntax tree (`schema/ast.rs`), its consistency check (`schema/validator.rs`) and the
lookups that the database makes in it (`db.rs`).
-/

set_option autoImplicit false

namespace ChiffonDB

inductive TypeExpr where
  | int
  | float
  | boolean
  | dateTime
  | string
  | json
  | blob
  | vector (n : UInt32)
  | list (elem : TypeExpr)
  | map (key value : TypeExpr)
  | nodeRef (name : String)
  | edgeRef (name : String)
  | named (name : String)
  deriving DecidableEq, Repr

structure FieldDef where
  name : String
  typeExpr : TypeExpr
  /-- `@index` -/
  indexed : Bool
  /-- `@unique` -/
  unique : Bool
  deriving DecidableEq, Repr

structure NodeDef where
  name : String
  typeParams : List String
  extends? : Option String
  fields : List FieldDef
  deriving DecidableEq, Repr

structure BoundParam where
  name : String
  bound : Option String
  deriving DecidableEq, Repr

structure EdgeDef where
  name : String
  genericParams : List BoundParam
  fromType : TypeExpr
  toType : TypeExpr
  props : List FieldDef
  deriving DecidableEq, Repr

inductive Definition where
  | node (n : NodeDef)
  | edge (e : EdgeDef)
  deriving DecidableEq, Repr

structure SchemaAst where
  definitions : List Definition
  deriving DecidableEq, Repr

def Definition.node? : Definition → Option NodeDef
  | .node n => some n
  | .edge _ => none

def Definition.edge? : Definition → Option EdgeDef
  | .node _ => none
  | .edge e => some e

/-- The node definitions, in order. -/
def SchemaAst.nodes (ast : SchemaAst) : List NodeDef := ast.definitions.filterMap Definition.node?

/-- The edge definitions, in order. -/
def SchemaAst.edges (ast : SchemaAst) : List EdgeDef := ast.definitions.filterMap Definition.edge?

/-- The definition that an insert by name finds: the first one. -/
def SchemaAst.findNode (ast : SchemaAst) (name : String) : Option NodeDef :=
  ast.nodes.find? fun n => n.name = name

def SchemaAst.findEdge (ast : SchemaAst) (name : String) : Option EdgeDef :=
  ast.edges.find? fun e => e.name = name

/-! ## Consistency of a schema -/

/-- `is_indexable_scalar`. -/
def TypeExpr.isIndexableScalar : TypeExpr → Bool
  | .int | .float | .boolean | .dateTime | .string => true
  | _ => false

/-- `validate_edge_endpoint`. -/
def validateEdgeEndpoint (edgeName side : String) (typeExpr : TypeExpr) (nodeNames paramNames : List String) :
    Except GraphError Unit :=
  match typeExpr with
  | .named name =>
    if name ∉ paramNames ∧ name ∉ nodeNames then
      .error (.schemaError
        ("edge '" ++ edgeName ++ "' " ++ side ++ " references unknown node type '" ++ name ++ "'"))
    else .ok ()
  | .nodeRef name =>
    if name ∉ nodeNames then
      .error (.schemaError ("edge '" ++ edgeName ++ "' " ++ side ++
        " NodeRef references unknown node type '" ++ name ++ "'"))
    else .ok ()
  | _ => .ok ()

def validateNodeDef (nodeNames : List String) (node : NodeDef) : Except GraphError Unit := do
  match node.extends? with
  | some base =>
    if base ∉ nodeNames then
      throw (.schemaError ("node '" ++ node.name ++ "' extends unknown type '" ++ base ++ "'"))
  | none => pure ()
  node.fields.forM fun field =>
    if (field.indexed ∨ field.unique) ∧ ¬ field.typeExpr.isIndexableScalar then
      throw (.schemaError ("node '" ++ node.name ++ "' field '" ++ field.name ++
        "': @index/@unique requires a scalar type (Int/Float/Boolean/DateTime/String)"))
    else pure ()

def validateEdgeDef (nodeNames : List String) (edge : EdgeDef) : Except GraphError Unit := do
  edge.genericParams.forM fun param =>
    match param.bound with
    | some bound =>
      if bound ∉ nodeNames then
        throw (.schemaError ("edge '" ++ edge.name ++ "' generic bound '" ++ bound ++
          "' references unknown type"))
      else pure ()
    | none => pure ()
  let paramNames := edge.genericParams.map BoundParam.name
  validateEdgeEndpoint edge.name "from" edge.fromType nodeNames paramNames
  validateEdgeEndpoint edge.name "to" edge.toType nodeNames paramNames

/-- `validate`. -/
def validate (ast : SchemaAst) : Except GraphError Unit :=
  let nodeNames := ast.nodes.map NodeDef.name
  ast.definitions.forM fun
    | .node node => validateNodeDef nodeNames node
    | .edge edge => validateEdgeDef nodeNames edge

/-! ## Endpoint types -/

/-- `resolve_endpoint_type`: the node type an endpoint requires. -/
def resolveEndpointType (typeExpr : TypeExpr) (genericParams : List BoundParam) : Option String :=
  match typeExpr with
  | .named name =>
    match genericParams.find? fun p => p.name = name with
    | some bp => bp.bound
    | none => some name
  | .nodeRef name => some name
  | _ => none

end ChiffonDB

import ChiffonDB.Schema.Grammar
import ChiffonDB.Storage.Prog

/-!
# Parsing and printing schemas

`parse` and `is_bare_name` of `schema/parser.rs`, and `unparse` of `schema/unparse.rs`.
-/

set_option autoImplicit false

namespace ChiffonDB

open Grammar Peg

/-! ## Building the syntax tree -/

/-- `parse_type_expr`; a dimension that does not fit into 32 bits panics. -/
def parseTypeExpr : TypePair → Outcome TypeExpr
  | .primitive text =>
    match text with
    | "Int" => .ok .int
    | "Float" => .ok .float
    | "Boolean" => .ok .boolean
    | "DateTime" => .ok .dateTime
    | "String" => .ok .string
    | "Json" => .ok .json
    | "Blob" => .ok .blob
    | other => .err (.schemaError ("unknown primitive: " ++ other))
  | .vector digits =>
    let n := Nat.ofDigitChars 10 digits 0
    if n < UInt32.size then .ok (.vector (UInt32.ofNat n)) else .panic
  | .list elem => do
    let elem ← parseTypeExpr elem
    pure (.list elem)
  | .map key value => do
    let k ← parseTypeExpr key
    let v ← parseTypeExpr value
    pure (.map k v)
  | .nodeRef name => .ok (.nodeRef name)
  | .edgeRef name => .ok (.edgeRef name)
  | .ident name => .ok (.named name)

/-- The loop of `parse_field_def` over the annotations. -/
def parseAnnotations (name : String) : List (List Char) → Bool → Bool → Outcome (Bool × Bool)
  | [], indexed, unique => .ok (indexed, unique)
  | ann :: anns, indexed, unique =>
    match String.ofList ann with
    | "index" => parseAnnotations name anns true unique
    | "unique" => parseAnnotations name anns indexed true
    | other => .err (.schemaError
        ("unknown field annotation '@" ++ other ++ "' on '" ++ name ++ "'"))

def parseFieldDef (p : FieldPair) : Outcome FieldDef := do
  let typeExpr ← parseTypeExpr p.typeExpr
  let (indexed, unique) ← parseAnnotations p.name p.annotations false false
  pure ⟨p.name, typeExpr, indexed, unique⟩

def parseAll {α β : Type} (f : α → Outcome β) : List α → Outcome (List β)
  | [] => .ok []
  | a :: as => do
    let b ← f a
    let bs ← parseAll f as
    pure (b :: bs)

def parseNodeDef (p : NodePair) : Outcome NodeDef := do
  let fields ← parseAll parseFieldDef p.fields
  pure ⟨p.name, p.typeParams, p.extends?, fields⟩

def parseEdgeDef (p : EdgePair) : Outcome EdgeDef := do
  let fromType ← parseTypeExpr p.fromType
  let toType ← parseTypeExpr p.toType
  let props ← parseAll parseFieldDef p.props
  pure ⟨p.name, p.genericParams, fromType, toType, props⟩

def parseDefinition : DefinitionPair → Outcome Definition
  | .node n => do
    let n ← parseNodeDef n
    pure (.node n)
  | .edge e => do
    let e ← parseEdgeDef e
    pure (.edge e)

attribute [grind =] parseTypeExpr parseAnnotations parseAll

variable (X : Pest)

/-- `parse`. -/
def parse (input : String) : Outcome SchemaAst :=
  match schema X input.toList with
  | none => .err (.schemaError (X.errorText input))
  | some (defs, _) => do
    let definitions ← parseAll parseDefinition defs
    pure ⟨definitions⟩

/-- `is_bare_name`. -/
def isBareName (name : String) : Bool := (bareName X name.toList).isSome

/-! ## Printing -/

def PRIMITIVE_TYPE_NAMES : List String :=
  ["Int", "Float", "Boolean", "DateTime", "String", "Json", "Blob"]

/-- Every backtick doubled. -/
def doubled (s : List Char) : List Char := s.flatMap fun c => if c = '\x60' then "``".toList else [c]

def quote (name : String) : String := "`" ++ String.ofList (doubled name.toList) ++ "`"

def unparseName (name : String) : String := if isBareName X name then name else quote name

def unparseTypeName (name : String) : String :=
  if name ∈ PRIMITIVE_TYPE_NAMES then quote name else unparseName X name

def unparseTypeExpr : TypeExpr → String
  | .int => "Int"
  | .float => "Float"
  | .boolean => "Boolean"
  | .dateTime => "DateTime"
  | .string => "String"
  | .json => "Json"
  | .blob => "Blob"
  | .vector n => "Vector<" ++ toString n.toNat ++ ">"
  | .list elem => "List<" ++ unparseTypeExpr elem ++ ">"
  | .map key value => "Map<" ++ unparseTypeExpr key ++ ", " ++ unparseTypeExpr value ++ ">"
  | .nodeRef name => "NodeRef<" ++ unparseName X name ++ ">"
  | .edgeRef name => "EdgeRef<" ++ unparseName X name ++ ">"
  | .named name => unparseTypeName X name

def unparseField (pad : String) (f : FieldDef) : String :=
  let anns := (if f.indexed then " @index" else "") ++ (if f.unique then " @unique" else "")
  pad ++ unparseName X f.name ++ ": " ++ unparseTypeExpr X f.typeExpr ++ anns ++ "\n"

def unparseFields (fields : List FieldDef) (indent : Nat) : String :=
  String.join (fields.map (unparseField X (String.join (List.replicate indent "  "))))

/-- `<a, b>`, or nothing for an empty list. -/
def unparseParams (texts : List String) : String :=
  if texts.isEmpty then "" else "<" ++ String.intercalate ", " texts ++ ">"

def unparseNodeDef (n : NodeDef) : String :=
  let base := match n.extends? with
    | some base => " extends " ++ unparseName X base
    | none => ""
  "node " ++ unparseName X n.name ++ unparseParams (n.typeParams.map (unparseName X)) ++ base ++
    " \x7b\n" ++ unparseFields X n.fields 1 ++ "\x7d"

def unparseBoundParam (p : BoundParam) : String :=
  match p.bound with
  | some bound => unparseName X p.name ++ ": " ++ unparseName X bound
  | none => unparseName X p.name

def unparseEdgeDef (e : EdgeDef) : String :=
  let props :=
    if e.props.isEmpty then "" else "  props: \x7b\n" ++ unparseFields X e.props 2 ++ "  \x7d\n"
  "edge " ++ unparseName X e.name ++ unparseParams (e.genericParams.map (unparseBoundParam X)) ++
    " \x7b\n" ++ "  from: " ++ unparseTypeExpr X e.fromType ++ "\n  to: " ++
    unparseTypeExpr X e.toType ++ "\n" ++ props ++ "\x7d"

def unparseDefinition : Definition → String
  | .node n => unparseNodeDef X n
  | .edge e => unparseEdgeDef X e

/-- `unparse`. -/
def unparse (ast : SchemaAst) : String :=
  String.intercalate "\n\n" (ast.definitions.map (unparseDefinition X)) ++ "\n"

end ChiffonDB

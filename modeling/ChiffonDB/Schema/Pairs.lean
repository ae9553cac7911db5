import ChiffonDB.Schema.Parser

/-!
# Parse trees

The pairs that the generated parser hands to `schema/parser.rs`, and the functions of that file as they walk
them: position by position, with an `unwrap` wherever the grammar promises a pair.

* `Pair` — a matched rule, its text, and the pairs inside.
* `PairGrammar.schema` — the pairs of a schema text.
* `PairParser.parse` — `parse` over pairs.
-/

set_option autoImplicit false

namespace ChiffonDB

open Peg Peg.Parser

/-- The rules that make pairs. -/
inductive PestRule where
  | schema | definition | nodeDef | extendsClause | edgeDef | edgeFrom | edgeTo | propsBlock | fieldDef
  | annotationRule | typeExpr | primitiveType | vectorType | listType | mapType | nodeRefType | edgeRefType
  | typeParams | typeParam | genericParams | boundParam | ident | plainIdent | quotedIdent | quotedBody
  | integer | eoi
  deriving DecidableEq, Repr

/-- `{:?}` of a rule. -/
def PestRule.debug : PestRule → String
  | schema => "schema"
  | definition => "definition"
  | nodeDef => "node_def"
  | extendsClause => "extends_clause"
  | edgeDef => "edge_def"
  | edgeFrom => "edge_from"
  | edgeTo => "edge_to"
  | propsBlock => "props_block"
  | fieldDef => "field_def"
  | annotationRule => "annotation"
  | typeExpr => "type_expr"
  | primitiveType => "primitive_type"
  | vectorType => "vector_type"
  | listType => "list_type"
  | mapType => "map_type"
  | nodeRefType => "node_ref_type"
  | edgeRefType => "edge_ref_type"
  | typeParams => "type_params"
  | typeParam => "type_param"
  | genericParams => "generic_params"
  | boundParam => "bound_param"
  | ident => "ident"
  | plainIdent => "plain_ident"
  | quotedIdent => "quoted_ident"
  | quotedBody => "quoted_body"
  | integer => "integer"
  | eoi => "EOI"

/-- `Pair`. -/
inductive Pair where
  | mk (rule : PestRule) (text : List Char) (inner : List Pair)

namespace Pair

/-- `as_rule` -/
def rule : Pair → PestRule
  | mk rule _ _ => rule

/-- `as_str` -/
def text : Pair → List Char
  | mk _ text _ => text

/-- `into_inner` -/
def inner : Pair → List Pair
  | mk _ _ inner => inner

end Pair

/-! ## The grammar -/

namespace PairGrammar

open Grammar (skip bracketed params choose primitiveTexts)

/-- A rule: its text is what its expression reads. -/
def span (rule : PestRule) (p : Parser (List Pair)) : Parser Pair := fun s =>
  match p s with
  | none => none
  | some (inner, t) => some (⟨rule, s.take (s.length - t.length), inner⟩, t)

/-- A rule with no pairs inside. -/
def atomic (rule : PestRule) (p : Parser (List Char)) : Parser Pair :=
  span rule (do
    let _ ← p
    pure [])

def one (p : Parser Pair) : Parser (List Pair) := do
  let a ← p
  pure [a]

variable (X : Pest)

def plainIdent : Parser Pair := atomic .plainIdent (Grammar.plainIdent X)

def quotedBody : Parser Pair := atomic .quotedBody Grammar.quotedBody

def quotedIdent : Parser Pair :=
  span .quotedIdent (do
    literal "`".toList
    let body ← quotedBody
    literal "`".toList
    pure [body])

def ident : Parser Pair := span .ident (orElse (one quotedIdent) (one (plainIdent X)))

def integer : Parser Pair := atomic .integer Grammar.integer

def primitiveType : Parser Pair :=
  atomic .primitiveType (do
    let text ← choose primitiveTexts
    notAhead (satisfy X.xidContinue)
    pure text.toList)

def vectorType : Parser Pair := span .vectorType (bracketed "Vector" (one integer))

def listType (typeExpr : Parser Pair) : Parser Pair := span .listType (bracketed "List" (one typeExpr))

def mapType (typeExpr : Parser Pair) : Parser Pair :=
  span .mapType (bracketed "Map" (do
    let key ← typeExpr
    skip
    literal ",".toList
    skip
    let value ← typeExpr
    pure [key, value]))

def nodeRefType : Parser Pair := span .nodeRefType (bracketed "NodeRef" (one (ident X)))

def edgeRefType : Parser Pair := span .edgeRefType (bracketed "EdgeRef" (one (ident X)))

def typeExprFuel : Nat → Parser Pair
  | 0 => fail
  | fuel + 1 =>
    span .typeExpr <|
    orElse (one vectorType) <|
    orElse (one (listType (typeExprFuel fuel))) <|
    orElse (one (mapType (typeExprFuel fuel))) <|
    orElse (one (nodeRefType X)) <|
    orElse (one (edgeRefType X)) <|
    orElse (one (primitiveType X)) (one (ident X))

def typeExpr : Parser Pair := fun s => typeExprFuel X (s.length + 1) s

def annotationPair : Parser Pair :=
  span .annotationRule (do
    literal "@".toList
    skip
    one (plainIdent X))

def fieldDef : Parser Pair :=
  span .fieldDef (do
    let name ← ident X
    skip
    literal ":".toList
    skip
    let type ← typeExpr X
    skip
    let annotations ← rep skip (annotationPair X)
    pure (name :: type :: annotations))

/-- `"{" ~ field_def* ~ "}"` -/
def fieldBlock : Parser (List Pair) := do
  literal "\x7b".toList
  skip
  let fields ← rep skip (fieldDef X)
  skip
  literal "\x7d".toList
  pure fields

def typeParams : Parser Pair := span .typeParams (params (span .typeParam (one (ident X))))

def extendsClause : Parser Pair :=
  span .extendsClause (do
    literal "extends".toList
    skip
    one (ident X))

def nodeDef : Parser Pair :=
  span .nodeDef (do
    literal "node".toList
    skip
    let name ← ident X
    skip
    let typeParams ← opt (typeParams X)
    skip
    let base ← opt (extendsClause X)
    skip
    let fields ← fieldBlock X
    pure (name :: (typeParams.toList ++ base.toList ++ fields)))

def boundParam : Parser Pair :=
  span .boundParam (do
    let name ← ident X
    skip
    let bound ← opt (do
      literal ":".toList
      skip
      ident X)
    pure (name :: bound.toList))

def genericParams : Parser Pair := span .genericParams (params (boundParam X))

def endpoint (rule : PestRule) (keyword : String) : Parser Pair :=
  span rule (do
    literal keyword.toList
    skip
    literal ":".toList
    skip
    one (typeExpr X))

def propsBlock : Parser Pair :=
  span .propsBlock (do
    literal "props".toList
    skip
    literal ":".toList
    skip
    fieldBlock X)

def edgeDef : Parser Pair :=
  span .edgeDef (do
    literal "edge".toList
    skip
    let name ← ident X
    skip
    let genericParams ← opt (genericParams X)
    skip
    literal "\x7b".toList
    skip
    let fromType ← endpoint X .edgeFrom "from"
    skip
    let toType ← endpoint X .edgeTo "to"
    skip
    let props ← opt (propsBlock X)
    skip
    literal "\x7d".toList
    pure (name :: (genericParams.toList ++ fromType :: toType :: props.toList)))

def definition : Parser Pair := span .definition (orElse (one (nodeDef X)) (one (edgeDef X)))

/-- `schema`; the end of the input is a pair of its own. -/
def schema : Parser Pair :=
  span .schema (do
    skip
    let defs ← rep skip (definition X)
    skip
    eoi
    pure (defs ++ [⟨.eoi, [], []⟩]))

end PairGrammar

/-! ## The conversion -/

namespace PairParser

/-- `ident_name`. -/
def identName : Pair → Outcome String
  | ⟨.plainIdent, text, _⟩ => .ok (String.ofList text)
  | ⟨.quotedBody, text, _⟩ => .ok (String.ofList (Grammar.undouble text))
  | ⟨rule, _, []⟩ => .err (.schemaError ("expected an identifier, found " ++ rule.debug))
  | ⟨_, _, inner :: _⟩ => identName inner

/-- `next_ident_name`, with the pairs behind. -/
def nextIdentName : List Pair → Outcome (String × List Pair)
  | [] => .err (.schemaError "expected an identifier")
  | pair :: rest => do
    let name ← identName pair
    pure (name, rest)

/-- The digits of a number, in `str::parse::<u32>`. -/
def parseDigits (ds : List Char) : Option UInt32 :=
  let n := Nat.ofDigitChars 10 ds 0
  if ds ≠ [] ∧ ds.all Char.isDigit ∧ n < UInt32.size then some (UInt32.ofNat n) else none

/-- `str::parse::<u32>`. -/
def parseU32 : List Char → Option UInt32
  | '+' :: ds => parseDigits ds
  | ds => parseDigits ds

/-- `parse_type_expr`. -/
def parseTypeExpr : Pair → Outcome TypeExpr
  | ⟨_, _, []⟩ => .panic
  | ⟨_, _, ⟨.primitiveType, text, _⟩ :: _⟩ =>
    match String.ofList text with
    | "Int" => .ok .int
    | "Float" => .ok .float
    | "Boolean" => .ok .boolean
    | "DateTime" => .ok .dateTime
    | "String" => .ok .string
    | "Json" => .ok .json
    | "Blob" => .ok .blob
    | other => .err (.schemaError ("unknown primitive: " ++ other))
  | ⟨_, _, ⟨.vectorType, _, []⟩ :: _⟩ => .panic
  | ⟨_, _, ⟨.vectorType, _, n :: _⟩ :: _⟩ =>
    match parseU32 n.text with
    | some n => .ok (.vector n)
    | none => .panic
  | ⟨_, _, ⟨.listType, _, []⟩ :: _⟩ => .panic
  | ⟨_, _, ⟨.listType, _, elem :: _⟩ :: _⟩ => do
    let elem ← parseTypeExpr elem
    pure (.list elem)
  | ⟨_, _, ⟨.mapType, _, []⟩ :: _⟩ => .panic
  | ⟨_, _, ⟨.mapType, _, [key]⟩ :: _⟩ => do
    let _ ← parseTypeExpr key
    .panic
  | ⟨_, _, ⟨.mapType, _, key :: value :: _⟩ :: _⟩ => do
    let k ← parseTypeExpr key
    let v ← parseTypeExpr value
    pure (.map k v)
  | ⟨_, _, ⟨.nodeRefType, _, inner⟩ :: _⟩ => do
    let (name, _) ← nextIdentName inner
    pure (.nodeRef name)
  | ⟨_, _, ⟨.edgeRefType, _, inner⟩ :: _⟩ => do
    let (name, _) ← nextIdentName inner
    pure (.edgeRef name)
  | ⟨_, _, ⟨.ident, text, inner⟩ :: _⟩ => do
    let name ← identName ⟨.ident, text, inner⟩
    pure (.named name)
  | ⟨_, _, ⟨other, _, _⟩ :: _⟩ => .err (.schemaError ("unexpected type rule: " ++ other.debug))

/-- The loop of `parse_field_def` over the annotations. -/
def parseAnnotations (name : String) : List Pair → Bool → Bool → Outcome (Bool × Bool)
  | [], indexed, unique => .ok (indexed, unique)
  | ⟨.annotationRule, _, inner⟩ :: anns, indexed, unique =>
    match inner with
    | [] => .panic
    | ident :: _ =>
      match String.ofList ident.text with
      | "index" => parseAnnotations name anns true unique
      | "unique" => parseAnnotations name anns indexed true
      | other => .err (.schemaError
          ("unknown field annotation '@" ++ other ++ "' on '" ++ name ++ "'"))
  | _ :: anns, indexed, unique => parseAnnotations name anns indexed unique

/-- `parse_field_def`. -/
def parseFieldDef (pair : Pair) : Outcome FieldDef := do
  let (name, inner) ← nextIdentName pair.inner
  match inner with
  | [] => .panic
  | type :: anns => do
    let typeExpr ← parseTypeExpr type
    let (indexed, unique) ← parseAnnotations name anns false false
    pure ⟨name, typeExpr, indexed, unique⟩

/-- `parse_bound_param`. -/
def parseBoundParam (pair : Pair) : Outcome BoundParam := do
  let (name, inner) ← nextIdentName pair.inner
  match inner with
  | [] => pure ⟨name, none⟩
  | bound :: _ => do
    let bound ← identName bound
    pure ⟨name, some bound⟩

/-- The results of a conversion on the pairs of one rule. -/
def parseEach {α : Type} (rule : PestRule) (f : Pair → Outcome α) : List Pair → Outcome (List α)
  | [] => .ok []
  | pair :: pairs =>
    if pair.rule = rule then do
      let a ← f pair
      let as ← parseEach rule f pairs
      pure (a :: as)
    else parseEach rule f pairs

/-- The loop of `parse_node_def` over the parts. -/
def parseNodeParts : List Pair → NodeDef → Outcome NodeDef
  | [], n => .ok n
  | part :: parts, n =>
    match part.rule with
    | .typeParams => do
      let names ← parseEach .typeParam identName part.inner
      parseNodeParts parts { n with typeParams := n.typeParams ++ names }
    | .extendsClause => do
      let (base, _) ← nextIdentName part.inner
      parseNodeParts parts { n with extends? := some base }
    | .fieldDef => do
      let field ← parseFieldDef part
      parseNodeParts parts { n with fields := n.fields ++ [field] }
    | _ => parseNodeParts parts n

/-- `parse_node_def`. -/
def parseNodeDef (pair : Pair) : Outcome NodeDef := do
  let (name, parts) ← nextIdentName pair.inner
  parseNodeParts parts ⟨name, [], none, []⟩

/-- The parts of an edge that have been read. -/
structure EdgeParts where
  genericParams : List BoundParam
  fromType : Option TypeExpr
  toType : Option TypeExpr
  props : List FieldDef

/-- The loop of `parse_edge_def` over the parts. -/
def parseEdgeParts : List Pair → EdgeParts → Outcome EdgeParts
  | [], e => .ok e
  | part :: parts, e =>
    match part.rule, part.inner with
    | .genericParams, inner => do
      let params ← parseEach .boundParam parseBoundParam inner
      parseEdgeParts parts { e with genericParams := e.genericParams ++ params }
    | .edgeFrom, [] => .panic
    | .edgeFrom, type :: _ => do
      let type ← parseTypeExpr type
      parseEdgeParts parts { e with fromType := some type }
    | .edgeTo, [] => .panic
    | .edgeTo, type :: _ => do
      let type ← parseTypeExpr type
      parseEdgeParts parts { e with toType := some type }
    | .propsBlock, inner => do
      let props ← parseEach .fieldDef parseFieldDef inner
      parseEdgeParts parts { e with props := e.props ++ props }
    | _, _ => parseEdgeParts parts e

/-- `parse_edge_def`. -/
def parseEdgeDef (pair : Pair) : Outcome EdgeDef := do
  let (name, parts) ← nextIdentName pair.inner
  let e ← parseEdgeParts parts ⟨[], none, none, []⟩
  match e.fromType with
  | none => .err (.schemaError "missing from")
  | some fromType =>
    match e.toType with
    | none => .err (.schemaError "missing to")
    | some toType => pure ⟨name, e.genericParams, fromType, toType, e.props⟩

/-- `parse_definition`. -/
def parseDefinition (pair : Pair) : Outcome Definition :=
  match pair.inner with
  | [] => .panic
  | inner :: _ =>
    match inner.rule with
    | .nodeDef => do
      let n ← parseNodeDef inner
      pure (.node n)
    | .edgeDef => do
      let e ← parseEdgeDef inner
      pure (.edge e)
    | other => .err (.schemaError ("unexpected rule: " ++ other.debug))

/-- `parse`. -/
def parse (X : Pest) (input : String) : Outcome SchemaAst :=
  match PairGrammar.schema X input.toList with
  | none => .err (.schemaError (X.errorText input))
  | some (pair, _) =>
    if pair.rule = .schema then do
      let definitions ← parseEach .definition parseDefinition pair.inner
      pure ⟨definitions⟩
    else .ok ⟨[]⟩

attribute [grind =] identName parseTypeExpr parseEach parseNodeParts parseEdgeParts

end PairParser

end ChiffonDB

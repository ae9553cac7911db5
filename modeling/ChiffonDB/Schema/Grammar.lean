import ChiffonDB.Lib.Peg
import ChiffonDB.Schema.Ast

/-!
# The schema language

The grammar of `schema.pest`, rule by rule, and `parse` of `schema/parser.rs`, which builds the
syntax tree from the matched pairs.  Between the tokens of a rule that is not atomic the generated
parser skips whitespace and comments.
-/

set_option autoImplicit false

namespace ChiffonDB

open Peg Parser

/-- What the generated parser takes from `pest`: the Unicode tables and the text of a syntax error. -/
structure Pest where
  xidStart : Char → Bool
  xidContinue : Char → Bool
  errorText : String → String

/-- What the tables say about ASCII (UAX #31). -/
structure Pest.Standard (X : Pest) : Prop where
  start_ascii : ∀ c : Char, c.toNat < 128 → X.xidStart c = c.isAlpha
  continue_ascii : ∀ c : Char, c.toNat < 128 → X.xidContinue c = (c.isAlphanum || c == '_')

/-! ## Characters and names -/

namespace Grammar

def any : Parser Char := satisfy fun _ => true

def whitespace : Parser Char := satisfy fun c => c == ' ' || c == '\t' || c == '\r' || c == '\n'

def comment : Parser Unit := do
  literal "//".toList
  let _ ← many (do
    notAhead (literal "\n".toList)
    any)
  pure ()

/-- What the generated parser skips between two tokens. -/
def skip : Parser Unit := do
  let _ ← many whitespace
  let _ ← many (do
    comment
    many whitespace)
  pure ()

variable (X : Pest)

def plainIdent : Parser (List Char) := do
  let c ← satisfy fun c => X.xidStart c || c == '_'
  let cs ← many (satisfy X.xidContinue)
  pure (c :: cs)

/-- One step of `quoted_body`: a doubled backtick, or any character but a backtick or a line break. -/
def quotedItem : Parser (List Char) :=
  orElse (do
    literal "``".toList
    pure "``".toList)
  (do
    notAhead (orElse (literal "`".toList) (orElse (literal "\n".toList) (literal "\r".toList)))
    let c ← any
    pure [c])

def quotedBody : Parser (List Char) := do
  let item ← quotedItem
  let items ← many quotedItem
  pure (item :: items).flatten

def quotedIdent : Parser (List Char) := do
  literal "`".toList
  let body ← quotedBody
  literal "`".toList
  pure body

/-- `replace("``", "`")` -/
def undouble : List Char → List Char
  | '\x60' :: '\x60' :: s => '\x60' :: undouble s
  | c :: s => c :: undouble s
  | [] => []

/-- `ident`, with the name it denotes (`ident_name`). -/
def ident : Parser String :=
  orElse
    (do
      let body ← quotedIdent
      pure (String.ofList (undouble body)))
    (do
      let text ← plainIdent X
      pure (String.ofList text))

def bareName : Parser (List Char) := do
  skip
  let name ← plainIdent X
  skip
  eoi
  pure name

def integer : Parser (List Char) := do
  let d ← satisfy Char.isDigit
  let ds ← many (satisfy Char.isDigit)
  pure (d :: ds)

/-! ## Types -/

/-- The matched pairs of a type. -/
inductive TypePair where
  | vector (digits : List Char)
  | list (elem : TypePair)
  | map (key value : TypePair)
  | nodeRef (name : String)
  | edgeRef (name : String)
  | primitive (text : String)
  | ident (name : String)

/-- The alternatives of `primitive_type`, in order. -/
def primitiveTexts : List String := ["Int", "Float", "Boolean", "DateTime", "String", "Json", "Blob"]

/-- The first text of the list that matches. -/
def choose : List String → Parser String
  | [] => fail
  | w :: ws =>
    orElse (do
      literal w.toList
      pure w)
    (choose ws)

def primitiveType : Parser TypePair := do
  let text ← choose primitiveTexts
  notAhead (satisfy X.xidContinue)
  pure (.primitive text)

/-- `"Keyword" ~ "<" ~ inner ~ ">"` -/
def bracketed {α : Type} (keyword : String) (inner : Parser α) : Parser α := do
  literal keyword.toList
  skip
  literal "<".toList
  skip
  let a ← inner
  skip
  literal ">".toList
  pure a

def vectorType : Parser TypePair := do
  let digits ← bracketed "Vector" integer
  pure (.vector digits)

def listType (typeExpr : Parser TypePair) : Parser TypePair := do
  let elem ← bracketed "List" typeExpr
  pure (.list elem)

def mapType (typeExpr : Parser TypePair) : Parser TypePair := do
  let (key, value) ← bracketed "Map" (do
    let key ← typeExpr
    skip
    literal ",".toList
    skip
    let value ← typeExpr
    pure (key, value))
  pure (.map key value)

def nodeRefType : Parser TypePair := do
  let name ← bracketed "NodeRef" (ident X)
  pure (.nodeRef name)

def edgeRefType : Parser TypePair := do
  let name ← bracketed "EdgeRef" (ident X)
  pure (.edgeRef name)

def identType : Parser TypePair := do
  let name ← ident X
  pure (.ident name)

/-- `type_expr`; a type at nesting `fuel` fails. -/
def typeExprFuel : Nat → Parser TypePair
  | 0 => fail
  | fuel + 1 =>
    orElse vectorType <|
    orElse (listType (typeExprFuel fuel)) <|
    orElse (mapType (typeExprFuel fuel)) <|
    orElse (nodeRefType X) <|
    orElse (edgeRefType X) <|
    orElse (primitiveType X) (identType X)

/-- `type_expr`; a nested type is shorter than its text. -/
def typeExpr : Parser TypePair := fun s => typeExprFuel X (s.length + 1) s

/-! ## Definitions -/

structure FieldPair where
  name : String
  typeExpr : TypePair
  annotations : List (List Char)

def annotation : Parser (List Char) := do
  literal "@".toList
  skip
  plainIdent X

def fieldDef : Parser FieldPair := do
  let name ← ident X
  skip
  literal ":".toList
  skip
  let type ← typeExpr X
  skip
  let annotations ← rep skip ( annotation X)
  pure ⟨name, type, annotations⟩

/-- `"{" ~ field_def* ~ "}"` -/
def fieldBlock : Parser (List FieldPair) := do
  literal "\x7b".toList
  skip
  let fields ← rep skip (fieldDef X)
  skip
  literal "\x7d".toList
  pure fields

/-- `"<" ~ p ~ ("," ~ p)* ~ ">"` -/
def params {α : Type} (p : Parser α) : Parser (List α) := do
  literal "<".toList
  skip
  let first ← p
  skip
  let others ← rep skip (do
    literal ",".toList
    skip
    p)
  skip
  literal ">".toList
  pure (first :: others)

def extendsClause : Parser String := do
  literal "extends".toList
  skip
  ident X

structure NodePair where
  name : String
  typeParams : List String
  extends? : Option String
  fields : List FieldPair

def nodeDef : Parser NodePair := do
  literal "node".toList
  skip
  let name ← ident X
  skip
  let typeParams ← opt (params (ident X))
  skip
  let base ← opt (extendsClause X)
  skip
  let fields ← fieldBlock X
  pure ⟨name, typeParams.getD [], base, fields⟩

def boundParam : Parser BoundParam := do
  let name ← ident X
  skip
  let bound ← opt (do
    literal ":".toList
    skip
    ident X)
  pure ⟨name, bound⟩

/-- `"from" ~ ":" ~ type_expr`, and the same for `to`. -/
def endpoint (keyword : String) : Parser TypePair := do
  literal keyword.toList
  skip
  literal ":".toList
  skip
  typeExpr X

def propsBlock : Parser (List FieldPair) := do
  literal "props".toList
  skip
  literal ":".toList
  skip
  fieldBlock X

structure EdgePair where
  name : String
  genericParams : List BoundParam
  fromType : TypePair
  toType : TypePair
  props : List FieldPair

def edgeDef : Parser EdgePair := do
  literal "edge".toList
  skip
  let name ← ident X
  skip
  let genericParams ← opt (params (boundParam X))
  skip
  literal "\x7b".toList
  skip
  let fromType ← endpoint X "from"
  skip
  let toType ← endpoint X "to"
  skip
  let props ← opt (propsBlock X)
  skip
  literal "\x7d".toList
  pure ⟨name, genericParams.getD [], fromType, toType, props.getD []⟩

inductive DefinitionPair where
  | node (n : NodePair)
  | edge (e : EdgePair)

def definition : Parser DefinitionPair :=
  orElse
    (do
      let n ← nodeDef X
      pure (.node n))
    (do
      let e ← edgeDef X
      pure (.edge e))

def schema : Parser (List DefinitionPair) := do
  skip
  let defs ← rep skip (definition X)
  skip
  eoi
  pure defs

end Grammar

end ChiffonDB

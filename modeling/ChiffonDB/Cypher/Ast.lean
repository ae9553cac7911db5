import ChiffonDB.Cypher.Value

/-!
# Cypher syntax trees

The part of the parser's syntax tree that the executor looks at.  A form that it treats like every
other unsupported one is `other`.
-/

set_option autoImplicit false

namespace ChiffonDB.Cypher

inductive ComparisonOperator where
  | eq | ne | lt | gt | le | ge | contains | startsWith | endsWith | regexMatch
  deriving DecidableEq, Repr

inductive BinaryOperator where
  | and | or | xor | add | subtract | multiply | divide | other
  deriving DecidableEq, Repr

inductive UnaryOperator where
  | not | negate | plus
  deriving DecidableEq, Repr

inductive NumberLiteral (F : Type) where
  | integer (n : Int64)
  | float (x : F)

inductive Expression (F : Type) where
  | number (n : NumberLiteral F)
  | string (s : String)
  | boolean (b : Bool)
  | null
  | list (elements : List (Expression F))
  | map (entries : List (String × Expression F))
  | variable (name : String)
  | propertyLookup (base : Expression F) (property : String)
  | comparison (lhs : Expression F) (operators : List (ComparisonOperator × Expression F))
  | binaryOp (op : BinaryOperator) (lhs rhs : Expression F)
  | unaryOp (op : UnaryOperator) (operand : Expression F)
  | isNull (operand : Expression F) (negated : Bool)
  | parenthesized (inner : Expression F)
  | other

inductive LabelExpression where
  | static (name : String)
  | other
  deriving DecidableEq, Repr

inductive Properties (F : Type) where
  | map (entries : List (String × Expression F))
  | other

structure NodePattern (F : Type) where
  «variable» : Option String
  labels : List LabelExpression
  properties : Option (Properties F)

inductive RelationshipDirection where
  | left | right | undirected | both
  deriving DecidableEq, Repr

/-- The range of a variable-length path is only looked at for its presence. -/
structure RelationshipDetail (F : Type) where
  «variable» : Option String
  types : Option LabelExpression
  hasRange : Bool
  properties : Option (Properties F)

structure RelationshipPattern (F : Type) where
  detail : Option (RelationshipDetail F)
  direction : RelationshipDirection

structure PatternElementChain (F : Type) where
  relationship : RelationshipPattern F
  node : NodePattern F

inductive PatternElement (F : Type) where
  | path (start : NodePattern F) (chains : List (PatternElementChain F))
  | parenthesized (inner : PatternElement F)
  | quantified

/-- A MATCH clause: its comma-separated pattern parts, and WHERE. -/
structure Match (F : Type) where
  parts : List (PatternElement F)
  whereClause : Option (Expression F)

/-- `label_expr_name`. -/
def labelExprName : LabelExpression → Option String
  | .static name => some name
  | .other => none

/-- `extract_first_label`. -/
def extractFirstLabel (labels : List LabelExpression) : Option String :=
  labels.head?.bind labelExprName

end ChiffonDB.Cypher

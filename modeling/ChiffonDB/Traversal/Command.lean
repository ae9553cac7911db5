import ChiffonDB.Graph.Database
import ChiffonDB.Traversal.Ordering

/-!
# Traversal commands

The commands of `traversal/command.rs`.

* `TraversalStep` — a step; those of a `Repeat` hold steps themselves.
* `CollectSpec` — what a traversal collects at its end.
-/

set_option autoImplicit false

namespace ChiffonDB

inductive SortDirection where
  | asc
  | desc
  deriving DecidableEq, Repr

structure OrderBySpec where
  key : PropertyPath
  direction : SortDirection

inductive TraversalAction where
  | outEdges | inEdges | bothEdges | outNodes | inNodes | bothNodes
  | filter | hasLabel | dedup | limit | skip | orderBy | repeat
  deriving DecidableEq, Repr

/-! ## Filters -/

inductive FilterValue (F : Type) where
  | binding (bind : String)
  | propertyRef (key : PropertyPath)
  | literal (v : Value F)

structure Filter (F : Type) where
  property : PropertyPath
  operator : FilterOperator
  value : FilterValue F := .literal .null

mutual

inductive CompoundFilter (F : Type) where
  | and (filters : List (FilterExpr F))
  | or (filters : List (FilterExpr F))
  | not (filter : FilterExpr F)

inductive FilterExpr (F : Type) where
  | simple (f : Filter F)
  | compound (cf : CompoundFilter F)

end

structure CustomFilter where
  callbackId : String

variable {F : Type}

/-- `FilterValue::resolve`. -/
def FilterValue.resolve (props : Option (Props F)) (bindings : Props F) : FilterValue F → Option (Value F)
  | .literal v => some v
  | .propertyRef key => props.bind fun p => key.resolve p
  | .binding bind => bindings[bind]?

/-- `resolve_binding`. -/
def resolveBinding (value : Value F) (bindings : Props F) : Value F :=
  match value with
  | .object [("$bind", .string key)] => bindings[key]?.getD value
  | _ => value

/-! ## Steps -/

structure TraversalStep (F : Type) where
  action : TraversalAction := .filter
  label : Option String := none
  labels : Option (List String) := none
  filter : Option (Filter F) := none
  compoundFilter : Option (CompoundFilter F) := none
  count : Option Nat := none
  skip : Option Nat := none
  orderBy : Option OrderBySpec := none
  repeatSteps : Option (List (TraversalStep F)) := none
  maxDepth : Option Nat := none
  customFilter : Option CustomFilter := none
  anyKeyContains : Option String := none

/-! ## What is collected -/

structure EdgeCollectSpec where
  label : Option String
  properties : List String

structure PathNodeSpec where
  label : String
  properties : List String

inductive AggregateFn where
  | count | sum | avg | min | max
  deriving DecidableEq, Repr

structure AggregateFunction where
  func : AggregateFn
  property : Option PropertyPath
  «alias» : Option String

inductive GroupByKey where
  | node (property : PropertyPath)
  | edge (property : PropertyPath)

inductive CollectSpec where
  | nodes (properties : List String) (withEdges : Option EdgeCollectSpec)
  | edges (properties : List String)
  | count
  | exists
  | path (nodeSpecs : List PathNodeSpec)
  | aggregate (functions : List AggregateFunction)
  | groupBy (key : GroupByKey) (functions : List AggregateFunction)

inductive CollectResult (F : Type) where
  | rows (rows : List (Props F))
  | count (n : Nat)
  | exists (b : Bool)
  | aggregate (row : Props F)
  | groups (rows : List (Props F))
  | path (paths : List (List (Props F)))

def AggregateFn.asStr : AggregateFn → String
  | count => "count"
  | sum => "sum"
  | avg => "avg"
  | min => "min"
  | max => "max"

/-- `output_key`. -/
def AggregateFunction.outputKey (f : AggregateFunction) : String :=
  match f.alias with
  | some name => name
  | none =>
    match f.property with
    | some p => f.func.asStr ++ "_" ++ p.displayName
    | none => f.func.asStr

/-- `StartSpec`; `kind` is its JSON field `type`. -/
structure StartSpec (F : Type) where
  kind : String
  label : String := ""
  key : String := ""
  value : Value F := .null

structure TraversalCommand (F : Type) where
  bindings : Props F := ∅
  start : StartSpec F
  steps : List (TraversalStep F)
  collect : CollectSpec

end ChiffonDB

import ChiffonDB.Lib.Distinct
import ChiffonDB.Schema.JsonText
import ChiffonDB.Traversal.Command

/-!
# The traversal executor

`traversal/executor.rs`: the steps of a traversal on a cursor, and what is collected at its end.

* `GraphAccess` — the reads of a graph that a traversal makes.
* `applyStep`, `applySteps` — the steps; those of a `Repeat` are applied in rounds.
* `collectGroupBy`, `execute` — the groups of a traversal, and the whole of it.
-/

set_option autoImplicit false

namespace ChiffonDB

/-! ## Loops over reads -/

namespace Outcome

variable {α β : Type}

/-- `flat_map`. -/
def flatMap (f : α → Outcome (List β)) : List α → Outcome (List β)
  | [] => pure []
  | a :: as => do
    let found ← f a
    let rest ← flatMap f as
    pure (found ++ rest)

/-- `filter_map`. -/
def filterMap (f : α → Outcome (Option β)) : List α → Outcome (List β) := flatMap fun a => do
  let found ← f a
  pure found.toList

def filter (p : α → Outcome Bool) : List α → Outcome (List α) := flatMap fun a => do
  let passes ← p a
  pure (if passes then [a] else [])

def map (f : α → Outcome β) : List α → Outcome (List β) := flatMap fun a => do
  let b ← f a
  pure [b]

end Outcome

/-! ## Graphs and cursors -/

abbrev NodeId : Type := UInt64

abbrev EdgeId : Type := UInt64

variable {F : Type} [F64 F] [F64Text F]

structure GraphAccess (F : Type) where
  findNode : String → String → Value F → Outcome (Option NodeId)
  allNodesOfLabel : String → Outcome (List NodeId)
  allEdgesOfLabel : String → Outcome (List EdgeId)
  nodeProperties : NodeId → Outcome (Option (Props F))
  nodeLabel : NodeId → Outcome (Option String)
  nodeLabels : NodeId → Outcome (List String)
  outEdges : NodeId → Option String → Outcome (List EdgeId)
  inEdges : NodeId → Option String → Outcome (List EdgeId)
  edgeToNode : EdgeId → Outcome (Option NodeId)
  edgeFromNode : EdgeId → Outcome (Option NodeId)
  edgeLabel : EdgeId → Outcome (Option String)
  edgeProperties : EdgeId → Outcome (Option (Props F))
  applyCustomFilter : String → List (NodeId × Props F) → Outcome (List NodeId)

/-- The texts of the standard library and of `regex` that the filters use. -/
structure TextOps where
  /-- Whether a pattern matches a text; false for an invalid one. -/
  isMatch : String → String → Bool
  toLowercase : String → String

inductive Cursor where
  | nodes (ids : List NodeId)
  | edges (ids : List EdgeId)
  deriving DecidableEq, Repr

variable (T : TextOps) (graph : GraphAccess F) (bindings : Props F)

def invalidCommand {α : Type} (text : String) : Outcome α := .err (.invalidCommand text)

def requireNodes : Cursor → Outcome (List NodeId)
  | .nodes ids => pure ids
  | .edges _ => invalidCommand "expected node cursor, got edge cursor"

def requireEdges : Cursor → Outcome (List EdgeId)
  | .edges ids => pure ids
  | .nodes _ => invalidCommand "expected edge cursor, got node cursor"

/-- The properties of an element of a cursor. -/
def elementProperties (isNode : Bool) (id : UInt64) : Outcome (Option (Props F)) :=
  if isNode then graph.nodeProperties id else graph.edgeProperties id

/-- The elements of a cursor that pass. -/
def Cursor.filter (p : Bool → UInt64 → Outcome Bool) : Cursor → Outcome Cursor
  | nodes ids => do pure (nodes (← Outcome.filter (p true) ids))
  | edges ids => do pure (edges (← Outcome.filter (p false) ids))

def Cursor.mapIds (f : List UInt64 → List UInt64) : Cursor → Cursor
  | nodes ids => nodes (f ids)
  | edges ids => edges (f ids)

/-! ## Filters -/

/-- `eval_filter_on_props`. -/
def evalFilterOnProps (props : Option (Props F)) (f : Filter F) : Bool :=
  let actual := props.bind fun p => f.property.resolve p
  match f.operator with
  | .exists => actual.any fun v => !v.isNull
  | .isNull => actual.all Value.isNull
  | op =>
    match actual, f.value.resolve props bindings with
    | some a, some e => evalFilter T.isMatch a op e
    | _, _ => false

mutual

/-- `eval_filter_expr`. -/
def evalFilterExpr (isNode : Bool) (id : UInt64) : FilterExpr F → Outcome Bool
  | .simple f => do
    let props ← elementProperties graph isNode id
    pure (evalFilterOnProps T bindings props f)
  | .compound cf => evalCompound isNode id cf

/-- `eval_compound`. -/
def evalCompound (isNode : Bool) (id : UInt64) : CompoundFilter F → Outcome Bool
  | .and filters => evalAll isNode id filters
  | .or filters => evalAny isNode id filters
  | .not f => do
    let b ← evalFilterExpr isNode id f
    pure !b

def evalAll (isNode : Bool) (id : UInt64) : List (FilterExpr F) → Outcome Bool
  | [] => pure true
  | f :: fs => do if ← evalFilterExpr isNode id f then evalAll isNode id fs else pure false

def evalAny (isNode : Bool) (id : UInt64) : List (FilterExpr F) → Outcome Bool
  | [] => pure false
  | f :: fs => do if ← evalFilterExpr isNode id f then pure true else evalAny isNode id fs

end

/-- `apply_filter`. -/
def applyFilter (f : Filter F) : Cursor → Outcome Cursor := Cursor.filter fun isNode id => do
  let props ← elementProperties graph isNode id
  pure (evalFilterOnProps T bindings props f)

/-- `apply_compound_filter`. -/
def applyCompoundFilter (cf : CompoundFilter F) : Cursor → Outcome Cursor := Cursor.filter fun isNode id =>
  evalCompound T graph bindings isNode id cf

/-- `apply_custom_filter`. -/
def applyCustomFilter (cf : CustomFilter) : Cursor → Outcome Cursor
  | .nodes ids => do
    let candidates ← Outcome.map (fun n => do pure (n, (← graph.nodeProperties n).getD ∅)) ids
    let passed ← graph.applyCustomFilter cf.callbackId candidates
    pure (.nodes (ids.filter fun n => n ∈ passed))
  | .edges _ => invalidCommand "custom_filter is only supported for Nodes cursor"

mutual

/-- `value_contains_string`. -/
def valueContainsString (substrLower : String) : Value F → Bool
  | .string s => strContains (T.toLowercase s) substrLower
  | .array items => anyItemContains substrLower items
  | .object fields => anyFieldContains substrLower fields
  | _ => false

def anyItemContains (substrLower : String) : List (Value F) → Bool
  | [] => false
  | v :: vs => valueContainsString substrLower v || anyItemContains substrLower vs

def anyFieldContains (substrLower : String) : List (String × Value F) → Bool
  | [] => false
  | (_, v) :: vs => valueContainsString substrLower v || anyFieldContains substrLower vs

end

/-- `apply_any_key_contains`. -/
def applyAnyKeyContains (substr : String) : Cursor → Outcome Cursor := Cursor.filter fun isNode id => do
  let props ← elementProperties graph isNode id
  pure (props.any fun p => p.toList.any fun (_, v) => valueContainsString T (T.toLowercase substr) v)

/-- `apply_filter` and the filters behind it, for those that a step has. -/
def applyIf {α : Type} (apply : α → Cursor → Outcome Cursor) : Option α → Cursor → Outcome Cursor
  | none, cursor => pure cursor
  | some a, cursor => apply a cursor

/-! ## Steps -/

/-- The edges of the nodes of a cursor. -/
def edgesOf (edges : NodeId → Outcome (List EdgeId)) (cursor : Cursor) : Outcome Cursor := do
  let nodes ← requireNodes cursor
  pure (.edges (← Outcome.flatMap edges nodes))

/-- The primary label of a node that a step arrives at. -/
def arrives (label : Option String) (n : NodeId) : Outcome Bool :=
  match label with
  | none => pure true
  | some l => do pure ((← graph.nodeLabel n) = some l)

/-- The ends of the edges of a cursor. -/
def nodesOf (ends : EdgeId → Outcome (List NodeId)) (label : Option String) (cursor : Cursor) : Outcome Cursor := do
  let edges ← requireEdges cursor
  let nodes ← Outcome.flatMap ends edges
  pure (.nodes (← Outcome.filter (arrives graph label) nodes))

def bothEdges (label : Option String) (n : NodeId) : Outcome (List EdgeId) := do
  let outs ← graph.outEdges n label
  let ins ← graph.inEdges n label
  pure (outs ++ ins)

def bothNodes (e : EdgeId) : Outcome (List NodeId) := do
  let toNode ← graph.edgeToNode e
  let fromNode ← graph.edgeFromNode e
  pure (toNode.toList ++ fromNode.toList)

/-- The value that a path resolves to on an element. -/
def resolveOn (isNode : Bool) (key : PropertyPath) (id : UInt64) : Outcome (Option (Value F)) := do
  let props ← elementProperties graph isNode id
  pure (props.bind fun p => key.resolve p)

/-- `sort_by` of `apply_order_by`, on elements that are read once. -/
def orderIds (isNode : Bool) (spec : OrderBySpec) (ids : List UInt64) : Outcome (List UInt64) := do
  let keyed ← Outcome.map (fun id => do pure (id, ← resolveOn graph isNode spec.key id)) ids
  let sorted := sortBy (directed (spec.direction = .asc) fun a b => cmpOptionValues a.2 b.2) keyed
  pure (sorted.map Prod.fst)

/-- `apply_order_by`. -/
def applyOrderBy (spec : OrderBySpec) : Cursor → Outcome Cursor
  | .nodes ids => do pure (.nodes (← orderIds graph true spec ids))
  | .edges ids => do pure (.edges (← orderIds graph false spec ids))

def hasLabel (labels : Option (List String)) (cursor : Cursor) : Outcome Cursor := do
  let nodes ← requireNodes cursor
  let filtered ← Outcome.filter (fun n => do
    let nodeLabels ← graph.nodeLabels n
    pure ((labels.getD []).any fun l => l ∈ nodeLabels)) nodes
  pure (.nodes filtered)

/-- The first occurrences. -/
def dedup (ids : List UInt64) : List UInt64 := distinctBy (· == ·) ids

/-- The rounds of `apply_repeat`: what they accumulate. -/
def repeatRounds (round : Cursor → Outcome Cursor) : Nat → Cursor → List NodeId → Outcome (List NodeId)
  | 0, _, accumulated => pure accumulated
  | depth + 1, frontier, accumulated => do
    match ← round frontier with
    | .edges _ => pure accumulated
    | .nodes [] => pure accumulated
    | .nodes (n :: ns) => repeatRounds round depth (.nodes (n :: ns)) (accumulated ++ n :: ns)

/-- `apply_repeat`. -/
def applyRepeat (round : Cursor → Outcome Cursor) (maxDepth : Nat) : Cursor → Outcome Cursor
  | .edges _ => invalidCommand "Repeat must start from a Nodes cursor"
  | .nodes ids => do
    let accumulated ← repeatRounds round maxDepth (.nodes ids) ids
    pure (.nodes (dedup accumulated))

mutual

/-- `apply_step`. -/
def applyStep : TraversalStep F → Cursor → Outcome Cursor
  | ⟨action, label, labels, filter, compoundFilter, count, skip, orderBy, repeatSteps, maxDepth, customFilter,
      anyKeyContains⟩, cursor => do
    let next ← (match action with
      | .outEdges => edgesOf (fun n => graph.outEdges n label) cursor
      | .inEdges => edgesOf (fun n => graph.inEdges n label) cursor
      | .bothEdges => edgesOf (bothEdges graph label) cursor
      | .outNodes => nodesOf graph (fun e => do pure (← graph.edgeToNode e).toList) label cursor
      | .inNodes => nodesOf graph (fun e => do pure (← graph.edgeFromNode e).toList) label cursor
      | .bothNodes => nodesOf graph (bothNodes graph) label cursor
      | .filter => pure cursor
      | .hasLabel => hasLabel graph labels cursor
      | .dedup => pure (cursor.mapIds dedup)
      | .limit => pure (cursor.mapIds fun ids => match count with | some n => ids.take n | none => ids)
      | .skip => pure (cursor.mapIds (List.drop (skip.getD 0)))
      | .orderBy =>
        match orderBy with
        | none => invalidCommand "OrderBy requires order_by spec"
        | some spec => applyOrderBy graph spec cursor
      | .repeat =>
        match repeatSteps with
        | none => invalidCommand "Repeat requires repeat_steps"
        | some inner => applyRepeat (applySteps inner) (maxDepth.getD 1) cursor)
    let next ← applyIf (applyFilter T graph bindings) filter next
    let next ← applyIf (applyCompoundFilter T graph bindings) compoundFilter next
    let next ← applyIf (applyCustomFilter graph) customFilter next
    applyIf (applyAnyKeyContains T graph) anyKeyContains next

/-- The steps of a traversal, or of one round of a `Repeat`. -/
def applySteps : List (TraversalStep F) → Cursor → Outcome Cursor
  | [], cursor => pure cursor
  | step :: steps, cursor => do
    let cursor ← applyStep step cursor
    applySteps steps cursor

end

/-! ## Aggregates -/

/-- `cursor_to_node_ids`. -/
def cursorToNodeIds : Cursor → Outcome (List NodeId)
  | .nodes ids => pure ids
  | .edges ids => Outcome.filterMap graph.edgeToNode ids

/-- `pick_properties`. -/
def pickProperties (props : Props F) (keys : List String) : Props F :=
  if keys.isEmpty then props else props.filter fun k _ => k ∈ keys

/-- `as_f64` of a value. -/
def Value.asF64 : Value F → Option F
  | .number n => some n.asF64
  | _ => none

/-- `json_number`. -/
def jsonNumber (f : F) : Value F :=
  match Number.fromF64 f with
  | some n => .number n
  | none => .null

/-- `f64::sum`, which starts from the negative zero. -/
def sumF64 (xs : List F) : F := xs.foldl F64.add (F64.neg (F64.ofInt 0))

/-- `min_by` keeps the first of the least values, `max_by` the last of the greatest. -/
def minValue : List (Value F) → Value F
  | [] => .null
  | v :: vs => vs.foldl (fun x y => if cmpValues x y = some .gt then y else x) v

def maxValue : List (Value F) → Value F
  | [] => .null
  | v :: vs => vs.foldl (fun x y => if cmpValues x y = some .gt then x else y) v

/-- The values of the property of a function, where the nodes have it. -/
def resolvedValues (f : AggregateFunction) (ids : List NodeId) : Outcome (List (Value F)) :=
  match f.property with
  | none => pure []
  | some path => Outcome.filterMap (resolveOn graph true path) ids

def aggregateValue (f : AggregateFunction) (ids : List NodeId) : Outcome (Value F) :=
  match f.func with
  | .count => pure (.number (.posInt (UInt64.ofNat ids.length)))
  | .sum => do
    let values ← resolvedValues graph f ids
    pure (jsonNumber (sumF64 (values.filterMap Value.asF64)))
  | .avg => do
    let values ← resolvedValues graph f ids
    let numbers := values.filterMap Value.asF64
    pure (if numbers.isEmpty then .null
      else jsonNumber (F64.div (sumF64 numbers) (F64.ofInt numbers.length)))
  | .min => do pure (minValue (← resolvedValues graph f ids))
  | .max => do pure (maxValue (← resolvedValues graph f ids))

/-- The loop of `compute_aggregates`. -/
def aggregatesInto (ids : List NodeId) : List AggregateFunction → Props F → Outcome (Props F)
  | [], row => pure row
  | f :: fs, row => do
    let value ← aggregateValue graph f ids
    aggregatesInto ids fs (row.insert f.outputKey value)

/-- `compute_aggregates`. -/
def computeAggregates (ids : List NodeId) (functions : List AggregateFunction) : Outcome (Props F) :=
  aggregatesInto graph ids functions ∅

/-! ## Groups -/

/-- `value_to_group_key`. -/
def valueToGroupKey : Value F → String
  | .string s => s
  | .number n => n.text
  | .bool b => if b then "true" else "false"
  | .null => "null"
  | v => v.text

/-- The key of a node; that of a connecting edge is not there. -/
def groupKeyOf (key : GroupByKey) (id : NodeId) : Outcome String :=
  match key with
  | .node property => do
    let value ← resolveOn graph true property id
    pure ((value.map valueToGroupKey).getD "null")
  | .edge _ => pure "null"

abbrev GroupMap : Type := Std.ExtTreeMap String (List NodeId)

/-- The loop of `collect_group_by`. -/
def groupInto (key : GroupByKey) : List NodeId → GroupMap → Outcome GroupMap
  | [], groups => pure groups
  | id :: ids, groups => do
    let groupVal ← groupKeyOf graph key id
    groupInto key ids (groups.insert groupVal (groups[groupVal]?.getD [] ++ [id]))

/-- The nodes of each group. -/
def groupsOf (key : GroupByKey) (ids : List NodeId) : Outcome (List (String × List NodeId)) := do
  let groups ← groupInto graph key ids ∅
  pure groups.toList

/-- The row of a group. -/
def groupRow (functions : List AggregateFunction) (group : String × List NodeId) : Outcome (Props F) := do
  let aggregates ← computeAggregates graph group.2 functions
  pure ((∅ : Props F).insert "_group" (.string group.1) ∪ aggregates)

/-- `collect_group_by`. -/
def collectGroupBy (cursor : Cursor) (key : GroupByKey) (functions : List AggregateFunction) :
    Outcome (CollectResult F) := do
  let ids ← cursorToNodeIds graph cursor
  let groups ← groupsOf graph key ids
  pure (.groups (← Outcome.map (groupRow graph functions) groups))

/-! ## Rows -/

/-- The properties of an edge, each under its prefixed name, in the row of the node it leads to. -/
def withEdgeProps (e : EdgeId) (spec : EdgeCollectSpec) (row : Props F) : Outcome (Props F) := do
  match ← graph.edgeProperties e with
  | none => pure row
  | some props =>
    pure ((pickProperties props spec.properties).toList.foldl (fun row (k, v) => row.insert ("edge_" ++ k) v) row)

/-- The row of an edge with the label that `with_edges` asks for, if it asks for one. -/
def withEdge (e : EdgeId) (spec : EdgeCollectSpec) (row : Props F) : Outcome (Props F) :=
  match spec.label with
  | none => withEdgeProps graph e spec row
  | some l => do if (← graph.edgeLabel e) = some l then withEdgeProps graph e spec row else pure row

/-- The row of a node, if it has properties. -/
def nodeRowOf (properties : List String) (id : NodeId) : Outcome (Option (Props F)) := do
  let props ← graph.nodeProperties id
  pure (props.map fun p => pickProperties p properties)

/-- The row of the node that an edge leads to. -/
def edgeRowOf (properties : List String) (withEdges : Option EdgeCollectSpec) (e : EdgeId) :
    Outcome (Option (Props F)) := do
  match ← graph.edgeToNode e with
  | none => pure none
  | some id =>
    match ← nodeRowOf graph properties id with
    | none => pure none
    | some row =>
      match withEdges with
      | none => pure (some row)
      | some spec => do pure (some (← withEdge graph e spec row))

/-- `collect_nodes`. -/
def collectNodes (properties : List String) (withEdges : Option EdgeCollectSpec) (cursor : Cursor) :
    Outcome (CollectResult F) :=
  match cursor with
  | .nodes ids => do pure (.rows (← Outcome.filterMap (nodeRowOf graph properties) ids))
  | .edges ids => do pure (.rows (← Outcome.filterMap (edgeRowOf graph properties withEdges) ids))

/-- `collect_edges`. -/
def collectEdgeRows (properties : List String) (cursor : Cursor) : Outcome (CollectResult F) :=
  match cursor with
  | .nodes _ => pure (.rows [])
  | .edges ids => do
    let rows ← Outcome.filterMap (fun e => do
      let props ← graph.edgeProperties e
      pure (props.map fun p => pickProperties p properties)) ids
    pure (.rows rows)

/-- One node of `collect_path`. -/
def pathOf (nodeSpecs : List PathNodeSpec) (id : NodeId) : Outcome (Option (List (Props F))) := do
  match ← graph.nodeProperties id with
  | none => pure none
  | some props => do
    let label := (← graph.nodeLabel id).getD ""
    let selected := ((nodeSpecs.find? fun s => s.label == label).map PathNodeSpec.properties).getD []
    pure (some [pickProperties props selected])

/-- `collect_path`. -/
def collectPath (nodeSpecs : List PathNodeSpec) (cursor : Cursor) : Outcome (CollectResult F) := do
  let ids ← cursorToNodeIds graph cursor
  pure (.path (← Outcome.filterMap (pathOf graph nodeSpecs) ids))

def Cursor.ids : Cursor → List UInt64
  | nodes ids => ids
  | edges ids => ids

/-- `collect`. -/
def collect (cursor : Cursor) : CollectSpec → Outcome (CollectResult F)
  | .count => pure (.count cursor.ids.length)
  | .exists => pure (.exists !cursor.ids.isEmpty)
  | .nodes properties withEdges => collectNodes graph properties withEdges cursor
  | .edges properties => collectEdgeRows graph properties cursor
  | .aggregate functions => do
    let ids ← cursorToNodeIds graph cursor
    pure (.aggregate (← computeAggregates graph ids functions))
  | .groupBy key functions => collectGroupBy graph cursor key functions
  | .path nodeSpecs => collectPath graph nodeSpecs cursor

/-! ## Commands -/

/-- The first cursor of a command. -/
def startCursor (start : StartSpec F) : Outcome Cursor :=
  if start.kind = "AllEdges" then do pure (.edges (← graph.allEdgesOfLabel start.label))
  else if start.kind = "AllNodes" then do pure (.nodes (← graph.allNodesOfLabel start.label))
  else do
    let value := resolveBinding start.value bindings
    match ← graph.findNode start.label start.key value with
    | none => .err (.nodeNotFound value.text)
    | some n => pure (.nodes [n])

/-- `execute`. -/
def execute (cmd : TraversalCommand F) : Outcome (CollectResult F) := do
  let cursor ← startCursor graph cmd.bindings cmd.start
  let cursor ← applySteps T graph cmd.bindings cmd.steps cursor
  collect graph cursor cmd.collect

end ChiffonDB

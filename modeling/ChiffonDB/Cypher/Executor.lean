import ChiffonDB.Cypher.Eval

/-!
# MATCH

`execute_match` of `cypher/executor.rs`, with the helpers that build its rows.

* `GraphView` — what the reads of a database return in its present state.
* `executeMatch` — the bindings and the rows of a MATCH clause.
-/

set_option autoImplicit false

namespace ChiffonDB.Cypher

variable {F : Type} [F64 F]

/-- What the reads of a database return; none of them changes what another one returns. -/
structure GraphView (F : Type) where
  listNodes : Option String → Outcome (List (RecordId × Props F))
  getNodeProperties : RecordId → Outcome (Props F)
  getNodeLabelNames : RecordId → Outcome (List String)
  listEdges : Option String → Outcome (List (RecordId × Props F))
  getEdgeEndpoints : RecordId → Outcome (RecordId × RecordId)
  getEdgeProperties : RecordId → Outcome (Props F)
  getEdgeLabelNames : RecordId → Outcome (List String)
  nodeExists : RecordId → Bool
  edgeExists : RecordId → Bool

inductive RidBinding where
  | node (rid : RecordId)
  | edge (rid : RecordId)
  deriving DecidableEq, Repr

abbrev Bindings : Type := Std.ExtTreeMap String RidBinding

/-! ## Rows -/

/-- `rid_to_string`. -/
def ridToString (rid : RecordId) : String := toString rid.pageId ++ "_" ++ toString rid.slotId

def nodeValue (rid : RecordId) (labels : List String) (props : Props F) : Value F :=
  .object [("id", .string (ridToString rid)), ("labels", .array (labels.map .string)),
    ("properties", .object props.toList)]

def edgeValue (rid : RecordId) (typeName : String) (source target : RecordId) (props : Props F) : Value F :=
  .object [("id", .string (ridToString rid)), ("properties", .object props.toList),
    ("source", .string (ridToString source)), ("target", .string (ridToString target)),
    ("type", .string typeName)]

/-- The properties and the record id of a variable, written into a row. -/
def insertRecord (vn : String) (rid : RecordId) (props : Props F) (row : Props F) : Props F :=
  let row := props.toList.foldl (fun row (k, v) => row.insert (vn ++ "." ++ k) v) row
  let row := row.insert (vn ++ ".__rid_page") (.number (.posInt (UInt64.ofNat rid.pageId.toNat)))
  row.insert (vn ++ ".__rid_slot") (.number (.posInt (UInt64.ofNat rid.slotId.toNat)))

def buildNodeCtx (varName : String) (rid : RecordId) (props : Props F) : Props F :=
  insertRecord varName rid props ∅

/-- A named node, written into a row. -/
def insertNode (view : GraphView F) (vn : String) (rid : RecordId) (props : Props F) (row : Props F) :
    Outcome (Props F) := do
  let row := insertRecord vn rid props row
  let labels ← view.getNodeLabelNames rid
  pure (row.insert vn (nodeValue rid labels props))

/-- The loop of `extract_inline_props`. -/
def inlineEntries : List (String × Expression F) → Props F → Outcome (Props F)
  | [], result => pure result
  | (k, e) :: entries, result => do
    let v ← evalExpr ∅ e
    inlineEntries entries (result.insert k (v.getD .null))

def extractInlineProps : Option (Properties F) → Outcome (Option (Props F))
  | some (.map entries) => do pure (some (← inlineEntries entries ∅))
  | _ => pure none

/-- The inline properties of a pattern, if it has any, match. -/
def inlineMatch (properties : Option (Properties F)) (props : Props F) : Outcome Bool := do
  match ← extractInlineProps properties with
  | some inline => pure (propsMatch props inline)
  | none => pure true

/-- WHERE, if there is one, holds on a row. -/
def whereHolds (whereClause : Option (Expression F)) (ctx : Props F) : Outcome Bool :=
  match whereClause with
  | some e => evalBool ctx e
  | none => pure true

/-! ## Node patterns -/

def NodePattern.varName (p : NodePattern F) : String := p.variable.getD ""

/-- The row of one node of a node pattern. -/
def nodeRow (view : GraphView F) (start : NodePattern F) (rid : RecordId) (props : Props F) :
    Outcome (Props F) :=
  match start.variable with
  | some vn => insertNode view vn rid props ∅
  | none => pure ∅

/-- One candidate of a node pattern: its row, unless it is skipped. -/
def matchNode (view : GraphView F) (start : NodePattern F) (whereClause : Option (Expression F))
    (rid : RecordId) (props : Props F) : Outcome (Option (Props F)) := do
  if ← inlineMatch start.properties props then
    if ← whereHolds whereClause (buildNodeCtx start.varName rid props) then
      pure (some (← nodeRow view start rid props))
    else pure none
  else pure none

def bindVariable (v : Option String) (b : RidBinding) (bindings : Bindings) : Bindings :=
  match v with
  | some vn => bindings.insert vn b
  | none => bindings

/-- The loop over the candidates. -/
def matchNodes (view : GraphView F) (start : NodePattern F) (whereClause : Option (Expression F)) :
    List (RecordId × Props F) → Bindings → List (Props F) → Outcome (Bindings × List (Props F))
  | [], pb, pr => pure (pb, pr)
  | (rid, props) :: candidates, pb, pr => do
    match ← matchNode view start whereClause rid props with
    | none => matchNodes view start whereClause candidates pb pr
    | some row =>
      matchNodes view start whereClause candidates (bindVariable start.variable (.node rid) pb) (pr ++ [row])

/-! ## Path patterns -/

/-- The edges of `list_out_neighbors` and `list_in_neighbors` in a list, at their near ends `rid`. -/
def neighborsAmong (view : GraphView F) (outgoing : Bool) (rid : RecordId) :
    List (RecordId × Props F) → Outcome (List (RecordId × Props F × RecordId))
  | [] => pure []
  | (edgeRid, edgeProps) :: edges => do
    let (src, dst) ← view.getEdgeEndpoints edgeRid
    let rest ← neighborsAmong view outgoing rid edges
    pure (if (if outgoing then src else dst) = rid then
      (edgeRid, edgeProps, if outgoing then dst else src) :: rest else rest)

def listNeighbors (view : GraphView F) (outgoing : Bool) (rid : RecordId) (edgeLabel : Option String) :
    Outcome (List (RecordId × Props F × RecordId × Bool)) := do
  let edges ← view.listEdges edgeLabel
  let found ← neighborsAmong view outgoing rid edges
  pure (found.map fun (e, p, n) => (e, p, n, outgoing))

/-- The last hop of a path: the edge, its properties, and its two ends. -/
structure Hop (F : Type) where
  edge : RecordId
  props : Props F
  source : RecordId
  target : RecordId

/-- Where a path stands: its last node, and how it came there. -/
structure Stand (F : Type) where
  rid : RecordId
  props : Props F
  hop : Option (Hop F)

/-- The neighbors of a node that a hop accepts. -/
def acceptNeighbors (view : GraphView F) (cur : RecordId) (endLabel : Option String)
    (endInline : Option (Props F)) :
    List (RecordId × Props F × RecordId × Bool) → Outcome (List (Stand F))
  | [] => pure []
  | (edgeRid, edgeProps, nodeRid, isOutgoing) :: neighbors => do
    let nodeProps ← view.getNodeProperties nodeRid
    let labelOk ← (match endLabel with
      | some el => do pure ((← view.getNodeLabelNames nodeRid).contains el)
      | none => pure true)
    let inlineOk := labelOk && endInline.all (propsMatch nodeProps)
    let hop : Hop F := ⟨edgeRid, edgeProps, if isOutgoing then cur else nodeRid,
      if isOutgoing then nodeRid else cur⟩
    let rest ← acceptNeighbors view cur endLabel endInline neighbors
    pure (if inlineOk then ⟨nodeRid, nodeProps, some hop⟩ :: rest else rest)

/-- One hop from every node reached so far. -/
def hopFrom (view : GraphView F) (direction : RelationshipDirection) (relLabel endLabel : Option String)
    (endInline : Option (Props F)) : List (Stand F) → Outcome (List (Stand F))
  | [] => pure []
  | cur :: current => do
    let neighbors ← (match direction with
      | .left => listNeighbors view false cur.rid relLabel
      | .right | .undirected => listNeighbors view true cur.rid relLabel
      | .both => do
        let out ← listNeighbors view true cur.rid relLabel
        pure (out ++ (← listNeighbors view false cur.rid relLabel)))
    let accepted ← acceptNeighbors view cur.rid endLabel endInline neighbors
    pure (accepted ++ (← hopFrom view direction relLabel endLabel endInline current))

/-- The loop over the chains; the empty list if a hop finds nothing. -/
def followChains (view : GraphView F) : List (PatternElementChain F) → List (Stand F) →
    Outcome (List (Stand F))
  | [], current => pure current
  | chain :: chains, current => do
    let detail := chain.relationship.detail
    if detail.any (·.hasRange) then .err (.invalidCommand "variable-length paths are not supported")
    else
      let relLabel := (detail.bind (·.types)).bind labelExprName
      let endLabel := extractFirstLabel chain.node.labels
      let endInline ← extractInlineProps chain.node.properties
      let next ← hopFrom view chain.relationship.direction relLabel endLabel endInline current
      if next.isEmpty then pure [] else followChains view chains next

/-- The edge of the last hop, written into a row. -/
def insertEdge (view : GraphView F) (vn : String) (hop : Hop F) (row : Props F) : Outcome (Props F) := do
  let labels ← view.getEdgeLabelNames hop.edge
  let row := insertRecord vn hop.edge hop.props row
  pure (row.insert vn (edgeValue hop.edge (labels.head?.getD "") hop.source hop.target hop.props))

/-- The row of a path, and its bindings. -/
def pathRow (view : GraphView F) (start : NodePattern F) (last : PatternElementChain F)
    (startRid : RecordId) (startProps : Props F) (stand : Stand F) (pb : Bindings) :
    Outcome (Bindings × Props F) := do
  let row ← (match start.variable with
    | some vn => insertNode view vn startRid startProps ∅
    | none => pure ∅)
  let pb := bindVariable start.variable (.node startRid) pb
  let row ← (match last.node.variable with
    | some vn => insertNode view vn stand.rid stand.props row
    | none => pure row)
  let pb := bindVariable last.node.variable (.node stand.rid) pb
  match last.relationship.detail.bind (·.variable), stand.hop with
  | some vn, some hop => do
    let row ← insertEdge view vn hop row
    pure (pb.insert vn (.edge hop.edge), row)
  | _, _ => pure (pb, row)

/-- The rows of the paths from one start node. -/
def pathRows (view : GraphView F) (start : NodePattern F) (last : PatternElementChain F)
    (whereClause : Option (Expression F)) (startRid : RecordId) (startProps : Props F) :
    List (Stand F) → Bindings → List (Props F) → Outcome (Bindings × List (Props F))
  | [], pb, rows => pure (pb, rows)
  | stand :: stands, pb, rows => do
    let (pb, row) ← pathRow view start last startRid startProps stand pb
    if ← whereHolds whereClause row then
      pathRows view start last whereClause startRid startProps stands pb (rows ++ [row])
    else pathRows view start last whereClause startRid startProps stands pb rows

/-- The loop over the start nodes; a path without a chain has no last one, and panics. -/
def matchPaths (view : GraphView F) (start : NodePattern F) (chains : List (PatternElementChain F))
    (whereClause : Option (Expression F)) :
    List (RecordId × Props F) → Bindings → List (Props F) → Outcome (Bindings × List (Props F))
  | [], pb, rows => pure (pb, rows)
  | (rid, props) :: candidates, pb, rows => do
    if ← inlineMatch start.properties props then
      let stands ← followChains view chains [⟨rid, props, none⟩]
      if stands.isEmpty then matchPaths view start chains whereClause candidates pb rows
      else
        match chains.getLast? with
        | none => .panic
        | some last => do
          let (pb, rows) ← pathRows view start last whereClause rid props stands pb rows
          matchPaths view start chains whereClause candidates pb rows
    else matchPaths view start chains whereClause candidates pb rows

def executePathMatch (view : GraphView F) (start : NodePattern F) (chains : List (PatternElementChain F))
    (whereClause : Option (Expression F)) : Outcome (Bindings × List (Props F)) := do
  let candidates ← view.listNodes (extractFirstLabel start.labels)
  matchPaths view start chains whereClause candidates ∅ []

/-! ## MATCH -/

/-- One part of the pattern. -/
def matchPart (view : GraphView F) (whereClause : Option (Expression F)) :
    PatternElement F → Outcome (Bindings × List (Props F))
  | .path start [] => do
    let candidates ← view.listNodes (extractFirstLabel start.labels)
    matchNodes view start whereClause candidates ∅ []
  | .path start chains => executePathMatch view start chains whereClause
  | .parenthesized (.path start chains) => executePathMatch view start chains whereClause
  | .parenthesized _ => pure (∅, [])
  | .quantified => .err (.invalidCommand "quantified patterns are not supported")

/-- `HashMap::extend`: the later entries replace the earlier ones. -/
def joinRows (rows partRows : List (Props F)) : List (Props F) :=
  rows.flatMap fun existing => partRows.map fun partRow => existing ∪ partRow

/-- The loop over the parts. -/
def matchParts (view : GraphView F) (whereClause : Option (Expression F)) :
    List (PatternElement F) → Bindings → List (Props F) → Outcome (Bindings × List (Props F))
  | [], bindings, rows => pure (bindings, rows)
  | part :: parts, bindings, rows => do
    let (partBindings, partRows) ← matchPart view whereClause part
    matchParts view whereClause parts (bindings ∪ partBindings) (joinRows rows partRows)

/-- The single row that binds nothing counts as no row. -/
def normalise : List (Props F) → List (Props F)
  | [row] => if row.isEmpty then [] else [row]
  | rows => rows

def executeMatch (view : GraphView F) (m : Match F) : Outcome (Bindings × List (Props F)) := do
  let (bindings, rows) ← matchParts view m.whereClause m.parts ∅ [∅]
  pure (bindings, normalise rows)

end ChiffonDB.Cypher

import ChiffonDB.Commands.Command
import ChiffonDB.Graph.Listing
import ChiffonDB.Schema.JsonText

/-!
# The export command

`commands/export.rs`: the records of a database as a CSV or a JSON text.

* `JsonFormat`, `CsvFormat` — the texts of `serde_json` and of the `csv` crate.
* `Graph.exportCsv`, `Graph.exportJson` — the texts of the records; `Graph.exportContent` — `run`.
-/

set_option autoImplicit false

namespace ChiffonDB

/-- `serde_json::to_string_pretty` and `serde_json::from_str`. -/
structure JsonFormat (F : Type) where
  toStringPretty : Value F → String
  fromStr : String → Option (Value F)

/-- What is written can be read back, where every number can stand in a text. -/
def JsonFormat.RoundTrips {F : Type} [F64 F] (J : JsonFormat F) : Prop :=
  ∀ v, v.AllJson → J.fromStr (J.toStringPretty v) = some v

/-- `csv::Writer` and `csv::Reader`: the records of a text, and its header and the records behind it, each of which can
    be one that cannot be read. -/
structure CsvFormat where
  write : List (List String) → String
  read : String → Option (List String × List (Option (List String)))

/-- Cells of any text can be read back, where all records have a cell for each column. -/
def CsvFormat.RoundTrips (V : CsvFormat) : Prop := ∀ header rows, header.head? = some ":TYPE" →
  (∀ row ∈ rows, row.length = header.length) → V.read (V.write (header :: rows)) = some (header, rows.map some)

variable {F : Type} [F64 F] [F64Text F] {M : Type} [Backing M]

/-! ## Values -/

/-- `as_str`. -/
def Value.asStr : Value F → Option String
  | .string s => some s
  | _ => none

/-- `json_value_to_csv`. -/
def jsonValueToCsv : Value F → String
  | .string s => s
  | .bool b => if b then "true" else "false"
  | .number n => n.text
  | .null => ""
  | other => other.text

/-- The `id` of a record. -/
def idOf (props : Props F) : Option String := (props["id"]?).bind Value.asStr

/-- `{:?}` of an edge id. -/
def edgeRidDebug (eid : RecordId) : String := "EdgeRid(" ++ eid.debug ++ ")"

/-- The key columns of the first record. -/
def csvKeys : List (Props F) → List String
  | [] => []
  | props :: _ => props.keys

/-- The cells of the key columns. -/
def csvCells (keys : List String) (props : Props F) : List String :=
  keys.map fun key => ((props[key]?).map jsonValueToCsv).getD ""

/-- The records of an export of nodes. -/
def nodeRecords (typeName : String) (nodes : List (Props F)) : List (List String) :=
  (":TYPE" :: csvKeys nodes) :: nodes.map fun props => typeName :: csvCells (csvKeys nodes) props

/-- The number of a record in a JSON text. -/
def ridJson (rid : RecordId) : Value F :=
  .object [("page", .number (.posInt rid.pageId.toUInt64)), ("slot", .number (.posInt rid.slotId.toUInt64))]

/-- The JSON value of a node. -/
def nodeJson (typeLabel : String) (rid : RecordId) (props : Props F) : Value F :=
  .object [("props", .object props.toList), ("rid", ridJson rid), ("type", .string typeLabel)]

/-- The JSON value of an edge. -/
def edgeJson (typeLabel : String) (eid : RecordId) (fromId toId : String) (props : Props F) : Value F :=
  .object [("from", .string fromId), ("props", .object props.toList), ("rid", ridJson eid), ("to", .string toId),
    ("type", .string typeLabel)]

namespace Graph

variable (C : Codecs F)

/-- `node_rid_to_id`. -/
def nodeRidToId (nodes : List (RecordId × Props F)) : List (RecordId × String) :=
  nodes.filterMap fun n => (idOf n.2).map fun id => (n.1, id)

/-- The id of an endpoint, or its page and slot. -/
def endpointCell (ids : List (RecordId × String)) (rid : RecordId) : String :=
  (AssocList.lastOf ids rid).getD (toString rid.pageId ++ ":" ++ toString rid.slotId)

/-- The record of an edge. -/
def edgeRow (typeName : String) (ids : List (RecordId × String)) (keys : List String)
    (e : RecordId × UInt16 × Props F) : Command (Graph M) (List String) := do
  let (fromNode, toNode) ← Command.call ("failed to read edge " ++ edgeRidDebug e.1) (getEdgeEndpoints e.1)
  pure (typeName :: endpointCell ids fromNode :: endpointCell ids toNode :: csvCells keys e.2.2)

/-- The nodes of `export_csv`. -/
def exportCsvNodes (V : CsvFormat) (typeName : String) : Command (Graph M) String := do
  let nodes ← Command.call ("failed to list nodes of type '" ++ typeName ++ "'") (listNodes C (some typeName))
  pure (V.write (nodeRecords typeName (nodes.map Prod.snd)))

/-- The edges of `export_csv`. -/
def exportCsvEdges (V : CsvFormat) (typeName : String) : Command (Graph M) String := do
  let edges ← Command.call ("failed to list edges of type '" ++ typeName ++ "'") (listEdges C (some typeName))
  let nodes ← Command.call "failed to list nodes for edge mapping" (listNodes C none)
  let keys := csvKeys (edges.map fun e => e.2.2)
  let rows ← Command.each edges (edgeRow typeName (nodeRidToId nodes) keys)
  pure (V.write ((":TYPE" :: ":FROM" :: ":TO" :: keys) :: rows))

/-- `export_csv`; the writer writes into memory. -/
def exportCsv (V : CsvFormat) (typeName : String) : Command (Graph M) String := do
  let registry ← Command.call "failed to load schema" (loadSchemaRegistry C)
  if (registry.nodeTypeId typeName).isSome then exportCsvNodes C V typeName
  else if (registry.edgeTypeId typeName).isSome then exportCsvEdges C V typeName
  else Command.bail ("unknown type: '" ++ typeName ++ "'")

/-- One node of `export_json`. -/
def exportNode (n : RecordId × Props F) : Command (Graph M) (Value F) := do
  let typeLabel ← Command.callOr "" (getNodeTypeName C n.1)
  pure (nodeJson typeLabel n.1 n.2)

/-- One edge of `export_json`. -/
def exportEdge (ids : List (RecordId × String)) (e : RecordId × UInt16 × Props F) : Command (Graph M) (Value F) := do
  let typeLabel ← Command.callOr "" (getEdgeTypeName C e.1)
  let (fromNode, toNode) ← Command.call ("failed to read edge " ++ edgeRidDebug e.1) (getEdgeEndpoints e.1)
  pure (edgeJson typeLabel e.1 ((AssocList.lastOf ids fromNode).getD "") ((AssocList.lastOf ids toNode).getD "") e.2.2)

/-- `export_json`. -/
def exportJson (J : JsonFormat F) (typeName : Option String) : Command (Graph M) String := do
  let nodes ← Command.call "failed to list nodes" (listNodes C typeName)
  let nodeItems ← Command.each nodes (exportNode C)
  let edges ← Command.call "failed to list edges" (listEdges C typeName)
  let edgeItems ← Command.each edges (exportEdge C (nodeRidToId nodes))
  pure (J.toStringPretty (.array (nodeItems ++ edgeItems)))

/-- `run`, without the files. -/
def exportContent (V : CsvFormat) (J : JsonFormat F) (format : String) (typeName : Option String) :
    Command (Graph M) String :=
  match format with
  | "csv" => do
    let t ← Command.ofOption "--type is required for CSV export" typeName
    exportCsv C V t
  | "json" => exportJson C J typeName
  | _ => Command.bail ("unsupported format: " ++ format ++ ". Use 'csv' or 'json'")

end Graph

end ChiffonDB

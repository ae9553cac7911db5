import ChiffonDB.Commands.Export
import ChiffonDB.Graph.Labels

/-!
# The import command

`commands/import.rs`: the nodes and the edges of a text, inserted by name.

* `inferCsvValue` — the value of a CSV cell, from its text alone.
* `parseCsv`, `parseJson` — the records of a text.
* `Graph.importContent` — the inserts.
-/

set_option autoImplicit false

namespace ChiffonDB

variable {F : Type} [F64 F] [F64Text F] {M : Type} [Backing M]

/-! ## Dates -/

/-- A text behind its first bytes; none where these end within a character. -/
def dropBytes : Nat → List Char → Option (List Char)
  | 0, cs => some cs
  | _ + 1, [] => none
  | n + 1, c :: cs => if c.utf8Size ≤ n + 1 then dropBytes (n + 1 - c.utf8Size) cs else none

/-- The first bytes of a text. -/
def takeBytes : Nat → List Char → Option (List Char)
  | 0, _ => some []
  | _ + 1, [] => none
  | n + 1, c :: cs => if c.utf8Size ≤ n + 1 then (takeBytes (n + 1 - c.utf8Size) cs).map (c :: ·) else none

/-- `&s[i..j]`, which panics within a character. -/
def byteSlice (s : String) (i j : Nat) : Outcome String :=
  match (dropBytes i s.toList).bind (takeBytes (j - i)) with
  | some cs => .ok (String.ofList cs)
  | none => .panic

/-- `str::parse::<u32>`. -/
def parseU32 (s : String) : Option UInt32 := do
  let n ← (match s.toList with
    | '+' :: cs => parseDigits cs
    | cs => parseDigits cs)
  if n < UInt32.size then some (UInt32.ofNat n) else none

/-- `days_from_epoch`; the products with `365.25` and `30.6001` are small enough to be cut off exactly. -/
def daysFromEpoch (year : Int) (month day : Nat) : Int :=
  let m : Int := month
  let d : Int := day
  let y := if m ≤ 2 then year - 1 else year
  let m2 := if m ≤ 2 then m + 12 else m
  let a := y.tdiv 100
  let b := 2 - a + a.tdiv 4
  let jd := (36525 * (y + 4716)).tdiv 100 + (306001 * (m2 + 1)).tdiv 10000 + d + b - 1524
  jd - 2440588

/-- `s[i..j].parse().map_err(|_| ())?`. -/
def parseSlice {α β : Type} (parse : String → Option α) (s : String) (i j : Nat) (next : α → Outcome (Option β)) :
    Outcome (Option β) := do
  let part ← byteSlice s i j
  match parse part with
  | some a => next a
  | none => pure none

/-- `chrono_parse_iso8601`: the separators are not looked at. -/
def chronoParseIso8601 (s : String) : Outcome (Option Int) :=
  if s.utf8ByteSize < 19 then pure none
  else
    parseSlice parseI64 s 0 4 fun year =>
    parseSlice parseU32 s 5 7 fun month =>
    parseSlice parseU32 s 8 10 fun day =>
    parseSlice parseI64 s 11 13 fun hour =>
    parseSlice parseI64 s 14 16 fun min =>
    parseSlice parseI64 s 17 19 fun sec =>
    if !(1 ≤ month && month ≤ 12) || !(1 ≤ day && day ≤ 31) then pure none
    else
      let days := daysFromEpoch year.toInt month.toNat day.toNat
      let unixSec := days * 86400 + hour.toInt * 3600 + min.toInt * 60 + sec.toInt
      pure (some (unixSec * 1000))

/-! ## CSV -/

/-- `infer_csv_value`. -/
def inferCsvValue (s : String) : Outcome (Value F) :=
  if s = "true" then pure (.bool true)
  else if s = "false" then pure (.bool false)
  else match parseI64 s with
    | some i => pure (.number (.ofInt64 i))
    | none => match (F64Text.parse s).bind Number.fromF64 with
      | some n => pure (.number n)
      | none => do
        match ← chronoParseIso8601 s with
        | some ms => pure (.number (.ofInt64 (Int64.ofInt ms)))
        | none => pure (.string s)

namespace Import

/-- `NodeRecord`: the type and the properties. -/
abbrev NodeRecord (F : Type) : Type := String × Props F

/-- `EdgeRecord`: the type, the ids of the two nodes, and the properties. -/
abbrev EdgeRecord (F : Type) : Type := String × String × String × Props F

end Import

/-- The properties of a record: a value for each column that the record has. -/
def csvProps (record : List String) : List (Nat × String) → Props F → Outcome (Props F)
  | [], props => pure props
  | (i, key) :: cols, props =>
    match record[i]? with
    | none => csvProps record cols props
    | some cell => do
      let v ← inferCsvValue cell
      csvProps record cols (props.insert key v)

/-- The columns of properties. -/
def propCols (headers : List String) : List (Nat × String) :=
  (headers.zipIdx.map Prod.swap).filter fun c => c.2 ≠ ":TYPE" && c.2 ≠ ":FROM" && c.2 ≠ ":TO"

/-- The columns of a text: the type, the two ends if there are columns for both, and the properties. -/
structure CsvColumns where
  type : Nat
  ends : Option (Nat × Nat)
  props : List (Nat × String)

def csvColumns (headers : List String) : Option CsvColumns := do
  let type ← headers.findIdx? (· = ":TYPE")
  let ends := (headers.findIdx? (· = ":FROM")).bind fun f => (headers.findIdx? (· = ":TO")).map fun t => (f, t)
  pure ⟨type, ends, propCols headers⟩

/-- A cell that has to be there. -/
def csvCell (name : String) (record : List String) (i : Nat) : Except CommandError String :=
  match record[i]? with
  | some cell => .ok cell
  | none => .error (.message ("missing " ++ name ++ " value"))

/-- One record of `parse_csv`. -/
def parseCsvRecord (cols : CsvColumns) (record : List String) : Outcome (Except CommandError (Import.NodeRecord F ⊕ Import.EdgeRecord F)) :=
  match csvCell ":TYPE" record cols.type with
  | .error e => pure (.error e)
  | .ok typeName =>
    if typeName.isEmpty then pure (.error (.message "empty :TYPE value in CSV row"))
    else do
      let props ← csvProps record cols.props ∅
      match cols.ends with
      | none => pure (.ok (.inl (typeName, props)))
      | some (f, t) => pure (do
          let fromId ← csvCell ":FROM" record f
          let toId ← csvCell ":TO" record t
          pure (.inr (typeName, fromId, toId, props)))

/-- A record in front of those behind it. -/
def consRecord : Import.NodeRecord F ⊕ Import.EdgeRecord F → List (Import.NodeRecord F) × List (Import.EdgeRecord F) →
    List (Import.NodeRecord F) × List (Import.EdgeRecord F)
  | .inl node, (nodes, edges) => (node :: nodes, edges)
  | .inr edge, (nodes, edges) => (nodes, edge :: edges)

/-- The loop of `parse_csv`. -/
def parseCsvRecords (cols : CsvColumns) : List (Option (List String)) →
    Outcome (Except CommandError (List (Import.NodeRecord F) × List (Import.EdgeRecord F)))
  | [] => pure (.ok ([], []))
  | none :: _ => pure (.error (.message "failed to read CSV record"))
  | some record :: records => do
    match ← parseCsvRecord cols record with
    | .error e => pure (.error e)
    | .ok r => do
      let rest ← parseCsvRecords cols records
      pure (rest.map (consRecord r))

/-- `parse_csv`. -/
def parseCsv (V : CsvFormat) (content : String) :
    Outcome (Except CommandError (List (Import.NodeRecord F) × List (Import.EdgeRecord F))) :=
  match V.read content with
  | none => pure (.error (.message "failed to read CSV headers"))
  | some (headers, records) =>
    match csvColumns headers with
    | none => pure (.error (.message "CSV must have a ':TYPE' column"))
    | some cols => parseCsvRecords cols records

/-! ## JSON -/

/-- `as_object`. -/
def Value.asObject : Value F → Option (List (String × Value F))
  | .object fields => some fields
  | _ => none

/-- What an element has to have. -/
def required {α : Type} (i : Nat) (text : String) : Option α → Except CommandError α
  | some a => .ok a
  | none => .error (.message ("item[" ++ toString i ++ "] " ++ text))

/-- The properties of an element. -/
def jsonProps (obj : List (String × Value F)) : Props F :=
  match (obj.lookup "props").bind Value.asObject with
  | some fields => .ofList fields
  | none => ∅

/-- One element of `parse_json`. -/
def parseItem (i : Nat) (item : Value F) : Except CommandError (Import.NodeRecord F ⊕ Import.EdgeRecord F) := do
  let obj ← required i "must be a JSON object" item.asObject
  let typeName ← required i "missing 'type' key" ((obj.lookup "type").bind Value.asStr)
  match obj.lookup "from", obj.lookup "to" with
  | some fromValue, some toValue => do
    let fromId ← required i "'from' must be a string" fromValue.asStr
    let toId ← required i "'to' must be a string" toValue.asStr
    pure (.inr (typeName, fromId, toId, jsonProps obj))
  | _, _ => pure (.inl (typeName, jsonProps obj))

/-- The loop of `parse_json`. -/
def parseItems : Nat → List (Value F) →
    Except CommandError (List (Import.NodeRecord F) × List (Import.EdgeRecord F))
  | _, [] => .ok ([], [])
  | i, item :: items => do
    let r ← parseItem i item
    let rest ← parseItems (i + 1) items
    pure (consRecord r rest)

/-- `parse_json`. -/
def parseJson (J : JsonFormat F) (content : String) :
    Except CommandError (List (Import.NodeRecord F) × List (Import.EdgeRecord F)) :=
  match J.fromStr content with
  | some (.array items) => parseItems 0 items
  | _ => .error (.message "failed to parse JSON: expected an array")

/-! ## Inserts -/

namespace Graph

variable (C : Codecs F) (idProp : String)

/-- A node under its id, in front of those known. -/
def rememberId (ids : List (String × RecordId)) (props : Props F) (rid : RecordId) : List (String × RecordId) :=
  match props[idProp]? with
  | some (.string id) => (id, rid) :: ids
  | _ => ids

/-- The nodes that are there already. -/
def existingIds (nodes : List (RecordId × Props F)) : List (String × RecordId) :=
  nodes.foldl (fun ids n => rememberId idProp ids n.2 n.1) []

/-- The loop over the nodes. -/
def importNodes :
    List (Import.NodeRecord F) → List (String × RecordId) → Command (Graph M) (List (String × RecordId))
  | [], ids => pure ids
  | (typeName, props) :: nodes, ids => do
    let rid ← Command.call ("failed to insert node of type '" ++ typeName ++ "'") (insertNodeByName C typeName props)
    importNodes nodes (rememberId idProp ids props rid)

/-- The node of an id. -/
def nodeOfId (ids : List (String × RecordId)) (id : String) : Command (Graph M) RecordId :=
  Command.ofOption ("node with " ++ idProp ++ "='" ++ id ++ "' not found") (ids.lookup id)

/-- The loop over the edges. -/
def importEdges (ids : List (String × RecordId)) : List (Import.EdgeRecord F) → Command (Graph M) Unit
  | [] => pure ()
  | (typeName, fromId, toId, props) :: edges => do
    let fromRid ← nodeOfId idProp ids fromId
    let toRid ← nodeOfId idProp ids toId
    let _ ← Command.call ("failed to insert edge of type '" ++ typeName ++ "'")
      (insertEdgeByName C typeName fromRid toRid props)
    importEdges ids edges

/-- The inserts of `run`, and how many they are. -/
def importRecords (records : List (Import.NodeRecord F) × List (Import.EdgeRecord F)) :
    Command (Graph M) (Nat × Nat) := do
  let existing ← Command.callOr [] (listNodes C none)
  let ids ← importNodes C idProp records.1 (existingIds idProp existing)
  importEdges C idProp ids records.2
  pure (records.1.length, records.2.length)

/-- `run`, without the files. -/
def importContent (V : CsvFormat) (J : JsonFormat F) (format content : String) : Command (Graph M) (Nat × Nat) := do
  let records ← (match format with
    | "csv" => Action.reads fun _ => parseCsv V content
    | "json" => Command.ofExcept (parseJson J content)
    | _ => Command.bail ("unsupported format: " ++ format ++ ". Use 'csv' or 'json'"))
  importRecords C idProp records

end Graph

end ChiffonDB

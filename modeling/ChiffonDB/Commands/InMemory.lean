import ChiffonDB.Commands.Copies
import ChiffonDB.Graph.InMemory
import ChiffonDB.Schema.DoubleText
import ChiffonDB.Schema.PrettyText
import ChiffonDB.Schema.RoundTrip

/-!
# Commands on a database in memory

What the commands take as parameters, and a database small enough to be looked at.

* `JsonFormat.pretty` — indented texts; `JsonFormat.pretty_roundTrips` — **they can be read back**.
* `CsvFormat.pinned` — tables that are known, and some other encoding of all others.
* `sample` — a database with one node.
-/

set_option autoImplicit false

set_option linter.unusedSectionVars false

namespace ChiffonDB

open Action Graph

section Formats

variable {F : Type} [F64 F] [F64Text F]

open Classical in
/-- `serde_json` with indentation; what is read is a value with that text. -/
noncomputable def JsonFormat.pretty : JsonFormat F where
  toStringPretty := Value.prettyText
  fromStr text := if h : ∃ v : Value F, v.AllJson ∧ v.prettyText = text then some h.choose else none

theorem JsonFormat.pretty_roundTrips [LawfulF64Text F] : (JsonFormat.pretty : JsonFormat F).RoundTrips := by
  intro v hv
  have hex : ∃ w : Value F, w.AllJson ∧ w.prettyText = v.prettyText := ⟨v, hv, rfl⟩
  refine (dif_pos hex).trans (congrArg some ?_)
  exact Value.prettyText_injective hex.choose_spec.1 hv hex.choose_spec.2

/-- Rows as a JSON value. -/
def rowsJson (rows : List (List String)) : Value F := .array (rows.map fun row => .array (row.map .string))

theorem allJson_rowsJson (rows : List (List String)) : (rowsJson rows : Value F).AllJson := by
  have hrow : ∀ row : List String, Value.AllJsonItems (row.map (Value.string (F := F))) := by
    intro row
    induction row with
    | nil => trivial
    | cons cell row ih => exact ⟨trivial, ih⟩
  show Value.AllJsonItems _
  induction rows with
  | nil => trivial
  | cons row rows ih => exact ⟨hrow row, ih⟩

theorem rowsJson_injective {rows rows' : List (List String)} (h : (rowsJson rows : Value F) = rowsJson rows') :
    rows = rows' := by
  have hcell : Function.Injective (Value.string (F := F)) := fun _ _ h => Value.string.inj h
  have hrow : Function.Injective fun row : List String => Value.array (row.map (Value.string (F := F))) :=
    fun _ _ h => hcell.list_map (Value.array.inj h)
  exact hrow.list_map (Value.array.inj h)

/-- The texts of some tables, and some other encoding of every other table. -/
def CsvFormat.pinnedText (texts : List (List (List String) × String)) (rows : List (List String)) : String :=
  match texts.find? fun e => decide (e.1 = rows) with
  | some e => e.2
  | none => String.ofList ('\n' :: JsonText.value (rowsJson rows : Value Double))

open Classical in
noncomputable def CsvFormat.pinned (texts : List (List (List String) × String)) : CsvFormat where
  write := pinnedText texts
  read text := if h : ∃ rows, pinnedText texts rows = text then
      match h.choose with
      | header :: rows => some (header, rows.map some)
      | [] => none
    else none

theorem CsvFormat.pinned_roundTrips {texts : List (List (List String) × String)} (hnd : (texts.map Prod.snd).Nodup)
    (hhead : ∀ e ∈ texts, e.2.toList.head? ≠ some '\n') : (CsvFormat.pinned texts).RoundTrips := by
  -- a text that is known belongs to one table
  have hknown : ∀ {rows rows' : List (List String)} {e}, texts.find? (fun e => decide (e.1 = rows)) = some e →
      CsvFormat.pinnedText texts rows' = e.2 → rows' = rows := by
    intro rows rows' e hfind htext
    have hmem := List.mem_of_find?_eq_some hfind
    have hrows : e.1 = rows := by simpa using List.find?_some hfind
    unfold CsvFormat.pinnedText at htext
    cases hfind' : texts.find? fun e => decide (e.1 = rows') with
    | some d =>
      rw [hfind'] at htext
      have hrows' : d.1 = rows' := by simpa using List.find?_some hfind'
      rw [← hrows', List.inj_on_of_nodup_map hnd (List.mem_of_find?_eq_some hfind') hmem htext, hrows]
    | none =>
      rw [hfind'] at htext
      refine absurd ?_ (hhead e hmem)
      rw [← htext, String.toList_ofList]
      rfl
  have hinj : ∀ {rows rows' : List (List String)}, CsvFormat.pinnedText texts rows' = CsvFormat.pinnedText texts rows →
      rows' = rows := by
    intro rows rows' htext
    cases hfind : texts.find? fun e => decide (e.1 = rows) with
    | some e =>
      refine hknown hfind (htext.trans ?_)
      unfold CsvFormat.pinnedText
      rw [hfind]
    | none =>
      cases hfind' : texts.find? fun e => decide (e.1 = rows') with
      | some d =>
        refine (hknown hfind' (htext.symm.trans ?_)).symm
        unfold CsvFormat.pinnedText
        rw [hfind']
      | none =>
        unfold CsvFormat.pinnedText at htext
        rw [hfind, hfind'] at htext
        have hvalue := (List.cons.inj (String.ofList_injective htext)).2
        exact rowsJson_injective (F := Double)
          (Value.text_injective (allJson_rowsJson rows') (allJson_rowsJson rows) (congrArg String.ofList hvalue))
  intro header rows _ _
  have hex : ∃ rows', CsvFormat.pinnedText texts rows' = CsvFormat.pinnedText texts (header :: rows) := ⟨_, rfl⟩
  have hrows : hex.choose = header :: rows := hinj hex.choose_spec
  exact (dif_pos hex).trans (congrArg (fun table : List (List String) => match table with
    | header :: rows => some (header, rows.map some)
    | [] => none) hrows)

end Formats

/-! ## A database with one node -/

def sampleSource : String :=
  "node A \x7b id: String \x7d node B \x7b id: String \x7d edge E \x7b from: A to: A \x7d"

def sampleAst : SchemaAst where
  definitions := [.node ⟨"A", [], none, [⟨"id", .string, false, false⟩]⟩,
    .node ⟨"B", [], none, [⟨"id", .string, false, false⟩]⟩, .edge ⟨"E", [], .named "A", .named "A", []⟩]

def sampleDto : SchemaDto := ⟨sampleAst.definitions, [("A", 1), ("B", 2)], [("E", 1)], 3, 2⟩

def sampleJson : List UInt8 :=
  (JsonText.openBrace :: ("\"definitions\":[\x7b\"kind\":\"Node\",\"name\":\"A\",\"type_params\":[],\"extends\":null,\"fields\":[" ++
    "\x7b\"name\":\"id\",\"type_expr\":\x7b\"t\":\"String\"\x7d,\"indexed\":false,\"unique\":false\x7d]\x7d," ++
    "\x7b\"kind\":\"Node\",\"name\":\"B\",\"type_params\":[],\"extends\":null,\"fields\":[" ++
    "\x7b\"name\":\"id\",\"type_expr\":\x7b\"t\":\"String\"\x7d,\"indexed\":false,\"unique\":false\x7d]\x7d," ++
    "\x7b\"kind\":\"Edge\",\"name\":\"E\",\"generic_params\":[],\"from\":\x7b\"t\":\"Named\",\"v\":\"A\"\x7d," ++
    "\"to\":\x7b\"t\":\"Named\",\"v\":\"A\"\x7d,\"props\":[]\x7d],\"node_type_ids\":[[\"A\",1],[\"B\",2]]," ++
    "\"edge_type_ids\":[[\"E\",1]],\"next_node_id\":3,\"next_edge_id\":2\x7d").toList).map fun c =>
      UInt8.ofNat c.toNat

def sampleProps (id : String) : Props Double := (∅ : Props Double).insert "id" (.string id)

/-- The MessagePack texts of two property maps. -/
noncomputable def sampleCodecs : Codecs Double := .pinned (.pinned sampleDto sampleJson)
  [(sampleProps "a", [0x81, 0xa2, 105, 100, 0xa1, 97]), (sampleProps "123", [0x81, 0xa2, 105, 100, 0xa3, 49, 50, 51])]

/-- The texts of two tables. -/
noncomputable def sampleCsv : CsvFormat := .pinned
  [([[":TYPE", "id"], ["A", "a"]], ":TYPE,id\nA,a\n"), ([[":TYPE", "id"], ["A", "123"]], ":TYPE,id\nA,123\n")]

theorem sampleCsv_roundTrips : sampleCsv.RoundTrips := CsvFormat.pinned_roundTrips (by decide) (by decide)

theorem sampleCodecs_faithful : sampleCodecs.Faithful :=
  Codecs.pinned_faithful (SchemaCodec.pinned_faithful rfl) (by decide)

theorem parse_sampleSource : parse asciiPest sampleSource = .ok sampleAst := by decide +kernel

theorem run_sampleSchema : applySchema sampleCodecs asciiPest sampleSource (empty : Graph Parts) =
    (.ok (), withSchema (sampleCodecs.schema.toVec sampleDto)) :=
  run_applyFirst sampleCodecs_faithful parse_sampleSource (by decide) (by decide)

theorem shallow_sampleDto : sampleDto.Shallow := by
  unfold SchemaDto.Shallow
  decide

theorem coherent_sampleDto : sampleDto.Coherent :=
  (assignTypeIds_none (show assignTypeIds (astToDto sampleAst) none = some sampleDto by decide)).2.1

/-- A node of a type, by itself. -/
noncomputable def sample (type id : String) : Action (Graph Parts) RecordId := do
  applySchema sampleCodecs asciiPest sampleSource
  insertNodeByName sampleCodecs type (sampleProps id)

theorem run_sample (type id : String) : sample type id empty =
    insertNodeByName sampleCodecs type (sampleProps id) (withSchema (sampleCodecs.schema.toVec sampleDto)) :=
  run_then run_sampleSchema _

/-- What it shows then. -/
noncomputable def sampleContents (typeId : UInt16) (id : String) (rid : RecordId) : Contents Double :=
  (Contents.ofSchema sampleDto).insertNode sampleCodecs rid typeId (sampleProps id)

theorem nodes_sample (typeId : UInt16) (id : String) (rid : RecordId) :
    (sampleContents typeId id rid).nodes rid = some ⟨typeId, sampleProps id, []⟩ := Function.update_self _ _ _

theorem labelled_sample (typeId : UInt16) (id : String) (rid : RecordId) :
    (sampleContents typeId id rid).labelled typeId = {rid} := by
  show Function.update (fun _ => (0 : Multiset RecordId)) typeId (rid ::ₘ 0) typeId = _
  rw [Function.update_self]
  rfl

variable {type id : String} {typeId : UInt16}

theorem taken_sampleProps (hid : id = "a" ∨ id = "123") : PropsTaken Parts sampleCodecs (sampleProps id) := by
  have hne : sampleProps "a" ≠ sampleProps "123" := by
    intro he
    have hvalue := congrArg (fun p : Props Double => p["id"]?) he
    exact absurd (Value.string.inj (Option.some.inj hvalue)) (by decide)
  refine .inr ?_
  unfold sampleCodecs Codecs.pinned
  rcases hid with rfl | rfl
  · simp [Storable]
    rfl
  · simp [Storable, hne]
    rfl

/-- The two types have an id. -/
theorem sampleType_mem : ("A", 1) ∈ sampleDto.nodeTypeIds ∧ ("B", 2) ∈ sampleDto.nodeTypeIds := by decide

/-- The fields of a type with an id. -/
theorem find_sampleType (htype : (type, typeId) ∈ sampleDto.nodeTypeIds) : sampleDto.registry.nodeTypeId type = some typeId ∧
    ∃ node, (dtoToAst sampleDto).findNode type = some node ∧ node.fields = [⟨"id", .string, false, false⟩] := by
  rcases List.mem_cons.1 htype with he | htype
  · cases he
    exact ⟨by decide, _, rfl, rfl⟩
  · cases List.mem_singleton.1 htype
    exact ⟨by decide, _, rfl, rfl⟩

theorem indexedPaths_sample (c : Contents Double) (hs : c.schema = some sampleDto)
    (htype : (type, typeId) ∈ sampleDto.nodeTypeIds) : c.indexedPaths typeId = [] := by
  obtain ⟨hid, node, hdef, hfields⟩ := find_sampleType htype
  rw [Contents.indexedPaths_eq hs coherent_sampleDto hid hdef, hfields]
  rfl

theorem retainDeclared_self {F : Type} [F64 F] [F64Text F] {names : List String} {props : Props F}
    (h : ∀ key v, props[key]? = some v → key ∈ names) : retainDeclared (some names) props = props := by
  apply Std.ExtTreeMap.ext_getElem?
  intro key
  unfold retainDeclared
  rw [Std.ExtTreeMap.getElem?_filter']
  cases hv : props[key]? with
  | none => rfl
  | some v => exact Option.filter_some_pos (decide_eq_true (h key v hv))

/-- The properties are shown as they are. -/
theorem visible_sample {c : Contents Double} (hs : c.schema = some sampleDto) (htype : (type, typeId) ∈ sampleDto.nodeTypeIds)
    (id : String) : c.visible .node typeId (sampleProps id) = sampleProps id := by
  obtain ⟨hid, -⟩ := find_sampleType htype
  have hdeclared : (dtoToAst sampleDto).declaredNamed .node type = some ["id"] := by
    rcases List.mem_cons.1 htype with he | htype
    · cases he
      decide
    · cases List.mem_singleton.1 htype
      decide
  unfold Contents.visible
  rw [Contents.declared_eq hs coherent_sampleDto (show sampleDto.registry.typeIdOf .node type = some typeId from hid),
    hdeclared]
  refine retainDeclared_self fun key v hv => ?_
  unfold sampleProps at hv
  rw [Std.ExtTreeMap.getElem?_insert] at hv
  split at hv
  · rename_i hkey
    rw [← Std.LawfulEqOrd.eq_of_compare hkey]
    exact List.mem_singleton.2 rfl
  · cases hv

/-- **The insert succeeds.** -/
theorem sample_runs (htype : (type, typeId) ∈ sampleDto.nodeTypeIds) (hid : id = "a" ∨ id = "123") :
    ∃ rid g, sample type id empty = (.ok rid, g) ∧ Graph.Shows sampleCodecs (sampleContents typeId id rid) g ∧ Roomy 100 g := by
  obtain ⟨htypeId, node, hdef, hfields⟩ := find_sampleType htype
  have hlive : (Contents.ofSchema sampleDto : Contents Double).EntriesLive := fun _ _ h => by cases h
  have hpaths := indexedPaths_sample (Contents.ofSchema sampleDto) rfl htype
  have hadmits : (Contents.ofSchema sampleDto : Contents Double).AdmitsNode Parts sampleCodecs type typeId (sampleProps id) := by
    refine ⟨⟨sampleDto, node, rfl, hdef, ?_, htypeId⟩, taken_sampleProps hid, fun path hpath => ?_⟩
    · rw [hfields]
      rfl
    · rw [hpaths] at hpath
      cases hpath
  have hroom := roomy_withSchema (sampleCodecs.schema.toVec sampleDto) (n := 105) (by decide)
  have hcost : 100 + (((Contents.ofSchema sampleDto : Contents Double).indexedPaths typeId).length + 5) ≤ 105 := by
    rw [hpaths]
    exact Nat.le_refl _
  obtain ⟨rid, g, hrun, ⟨-, hshows⟩, hleft⟩ := runs_insertNodeByName sampleCodecs_faithful hlive hadmits
    (withSchema (sampleCodecs.schema.toVec sampleDto)) 100 (shows_withSchema (F := Double) shallow_sampleDto)
    (hroom.mono hcost)
  exact ⟨rid, g, (run_sample type id).trans hrun, hshows, hleft⟩

end ChiffonDB

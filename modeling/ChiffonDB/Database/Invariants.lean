import ChiffonDB.Commands.InMemory
import ChiffonDB.Graph.Finding
import ChiffonDB.Graph.Unique
import ChiffonDB.Graph.Verify
import ChiffonDB.Storage.LabelList

/-!
# What holds of a database at all times

Any calls of its operations, one after the other, from a new database on.

* `keyed_reached` — a small database that calls lead to, whatever the rules are.
* `reached_verified`, `reached_listed` — records and label index are whole; `reached_failed` — what a failure leaves.
* `reached_conforms`, `reached_found`, `reached_unique` — records, index and `@unique` fields agree with the schema.
* `reached_deleted`, `reached_renamed`, `reached_vacuumed` — **what calls leave behind**.
-/

set_option autoImplicit false

set_option linter.unusedSectionVars false

namespace ChiffonDB

open Action Graph

/-- The property store takes the label lists of all records. -/
def TakesLabels {F : Type} [F64 F] (M : Type) [FaithfulBacking M] (C : Codecs F) : Prop :=
  ∀ labels : List UInt16, labels.Nodup → LabelsTaken M C labels

/-! ## A database under all the rules -/

/-- A node type with a unique field, and an edge type. -/
def keyedSource : String := "node A \x7b id: String @unique \x7d edge E \x7b from: A to: A \x7d"

def keyedAst : SchemaAst where
  definitions := [.node ⟨"A", [], none, [⟨"id", .string, false, true⟩]⟩, .edge ⟨"E", [], .named "A", .named "A", []⟩]

def keyedDto : SchemaDto := ⟨keyedAst.definitions, [("A", 1)], [("E", 1)], 2, 2⟩

def keyedJson : List UInt8 :=
  (JsonText.openBrace :: ("\"definitions\":[\x7b\"kind\":\"Node\",\"name\":\"A\",\"type_params\":[],\"extends\":null,\"fields\":[" ++
    "\x7b\"name\":\"id\",\"type_expr\":\x7b\"t\":\"String\"\x7d,\"indexed\":false,\"unique\":true\x7d]\x7d," ++
    "\x7b\"kind\":\"Edge\",\"name\":\"E\",\"generic_params\":[],\"from\":\x7b\"t\":\"Named\",\"v\":\"A\"\x7d," ++
    "\"to\":\x7b\"t\":\"Named\",\"v\":\"A\"\x7d,\"props\":[]\x7d],\"node_type_ids\":[[\"A\",1]]," ++
    "\"edge_type_ids\":[[\"E\",1]],\"next_node_id\":2,\"next_edge_id\":2\x7d").toList).map fun c =>
      UInt8.ofNat c.toNat

/-- The MessagePack texts of one property map, and of all label lists. -/
noncomputable def keyedCodecs : Codecs Double :=
  { Codecs.pinned (.pinned keyedDto keyedJson) [(sampleProps "a", [0x81, 0xa2, 105, 100, 0xa1, 97])] with
    packLabels := encodeLabelList
    unpackLabels := decodeLabelList }

theorem keyedCodecs_faithful : keyedCodecs.Faithful := by
  have hpinned : (Codecs.pinned (.pinned keyedDto keyedJson)
      [(sampleProps "a", [0x81, 0xa2, 105, 100, 0xa1, 97])] : Codecs Double).Faithful :=
    Codecs.pinned_faithful (SchemaCodec.pinned_faithful rfl) (List.nodup_singleton _)
  exact ⟨hpinned.props, decodeLabelList_encodeLabelList, hpinned.schema⟩

/-- Label lists go into a database in memory. -/
theorem keyedCodecs_labels : TakesLabels Parts keyedCodecs := by
  intro labels h
  obtain ⟨bytes, hbytes⟩ := exists_encodeLabelList h
  refine .inr ?_
  show Storable Parts (encodeLabelList labels)
  rw [hbytes]
  rfl

theorem parse_keyedSource : parse asciiPest keyedSource = .ok keyedAst := by decide +kernel

theorem shallow_keyedDto : keyedDto.Shallow := by
  unfold SchemaDto.Shallow
  decide

theorem shallow_keyedAst : keyedAst.Shallow := by
  unfold SchemaAst.Shallow
  decide

theorem coherent_keyedDto : keyedDto.Coherent :=
  (assignTypeIds_none (show assignTypeIds (astToDto keyedAst) none = some keyedDto by decide)).2.1

/-- Its fields. -/
theorem fieldsNamed_keyedAst {kind : RecordKind} {name : String} {fields : List FieldDef}
    (h : keyedAst.fieldsNamed kind name = some fields) : fields = [⟨"id", .string, false, true⟩] ∨ fields = [] := by
  cases kind with
  | node =>
    obtain ⟨node, hnode, rfl⟩ := Option.map_eq_some_iff.1 h
    have hmem := List.mem_of_find?_eq_some hnode
    obtain rfl := List.mem_singleton.1 (show node ∈ [(⟨"A", [], none, [⟨"id", .string, false, true⟩]⟩ : NodeDef)] from hmem)
    exact .inl rfl
  | edge =>
    obtain ⟨edge, hedge, rfl⟩ := Option.map_eq_some_iff.1 h
    have hmem := List.mem_of_find?_eq_some hedge
    obtain rfl := List.mem_singleton.1 (show edge ∈ [(⟨"E", [], .named "A", .named "A", []⟩ : EdgeDef)] from hmem)
    exact .inr rfl

theorem once_keyedAst : keyedAst.Once where
  types k := by cases k <;> decide
  fields kind name fields h := by
    rcases fieldsNamed_keyedAst h with rfl | rfl
    · exact List.nodup_singleton _
    · exact List.nodup_nil

/-- The rules that are kept here. -/
abbrev keyedRules : Rules Double := .unique {"id"}

theorem pathsApart_keyed : PathsApart {"id"} := Set.injOn_singleton _ _

/-- **The rules let the first schema in.** -/
theorem keyedRules_applies : keyedRules.applies Contents.empty keyedAst := by
  refine ⟨⟨⟨once_keyedAst, ?_⟩, ?_, ?_⟩, ?_⟩
  · intro kind rid typeId props dto name hrec
    cases kind <;> cases hrec
  · intro rid row dto name fields hrow
    cases hrow
  · intro name fields hf f hmem
    rcases fieldsNamed_keyedAst hf with rfl | rfl
    · rw [List.mem_singleton.1 hmem]
      rfl
    · cases hmem
  · intro dto name fields fields' hs
    cases hs

theorem taken_keyedProps : PropsTaken Parts keyedCodecs (sampleProps "a") := by
  have hpack : keyedCodecs.packProps (sampleProps "a") = .ok [0x81, 0xa2, 105, 100, 0xa1, 97] := by
    unfold keyedCodecs Codecs.pinned
    dsimp only
    simp only [List.find?_cons, decide_true]
  refine .inr ?_
  rw [hpack]
  exact rfl

/-- The node type, with its id and its fields. -/
theorem findNode_keyedDto : keyedDto.registry.nodeTypeId "A" = some 1 ∧
    ∃ node, (dtoToAst keyedDto).findNode "A" = some node ∧ node.fields = [⟨"id", .string, false, true⟩] :=
  ⟨by decide, _, rfl, rfl⟩

theorem allowed_keyed (id : String) :
    (Contents.ofSchema keyedDto : Contents Double).NodeAllowed "A" 1 (sampleProps id) := by
  obtain ⟨htypeId, node, hdef, hfields⟩ := findNode_keyedDto
  refine ⟨keyedDto, node, rfl, hdef, ?_, htypeId⟩
  rw [hfields]
  rfl

theorem indexedPaths_keyed (c : Contents Double) (hs : c.schema = some keyedDto) :
    c.indexedPaths 1 = [(.flat "id", true)] := by
  obtain ⟨htypeId, node, hdef, hfields⟩ := findNode_keyedDto
  rw [Contents.indexedPaths_eq hs coherent_keyedDto htypeId hdef, hfields]
  rfl

/-- What it shows with one node. -/
noncomputable def keyedContents (rid : RecordId) : Contents Double :=
  (Contents.ofSchema keyedDto).insertNode keyedCodecs rid 1 (sampleProps "a")

theorem nodes_keyedContents (rid : RecordId) : (keyedContents rid).nodes rid = some ⟨1, sampleProps "a", []⟩ :=
  Function.update_self _ _ _

theorem run_keyedSchema : applySchema keyedCodecs asciiPest keyedSource (Graph.empty : Graph Parts) =
    (.ok (), withSchema (keyedCodecs.schema.toVec keyedDto)) :=
  run_applyFirst keyedCodecs_faithful parse_keyedSource (by decide) (by decide)

/-- The rules let the schema in. -/
theorem fits_keyedSchema {R : Rules Double} (hR : R.applies Contents.empty keyedAst) :
    (Call.applySchema keyedSource : Call Double).Fits keyedCodecs asciiPest R (Graph.empty : Graph Parts) := by
  show ∀ ast, parse asciiPest keyedSource = .ok ast →
    ast.Shallow ∧ ∀ c, Graph.Shows keyedCodecs c (Graph.empty : Graph Parts) → R.applies c ast
  intro ast hast
  rw [parse_keyedSource] at hast
  obtain rfl := Outcome.ok.inj hast
  refine ⟨shallow_keyedAst, fun c hc => ?_⟩
  rw [hc.eq keyedCodecs_faithful (shows_empty keyedCodecs)]
  exact hR

/-- A database that only has the schema. -/
noncomputable def keyedSchema : Graph Parts := withSchema (keyedCodecs.schema.toVec keyedDto)

theorem shows_keyedSchema : Graph.Shows keyedCodecs (Contents.ofSchema keyedDto) keyedSchema :=
  shows_withSchema (F := Double) shallow_keyedDto

theorem keyedSchema_reached {R : Rules Double} (hR : R.applies Contents.empty keyedAst) :
    Call.Reached keyedCodecs asciiPest R keyedSchema := by
  have hschema : Call.run keyedCodecs asciiPest (.applySchema keyedSource) (Graph.empty : Graph Parts) =
      (.ok (), keyedSchema) := by
    unfold Call.run
    exact run_keyedSchema
  exact .step .init (fits_keyedSchema hR) hschema (by rintro ⟨⟩)

/-- **A node comes behind the schema.** -/
theorem keyed_insert : ∃ rid g,
    Call.run keyedCodecs asciiPest (.insertNodeByName "A" (sampleProps "a")) keyedSchema = (.ok (), g) ∧
      Graph.Shows keyedCodecs (keyedContents rid) g := by
  have hlive : (Contents.ofSchema keyedDto : Contents Double).EntriesLive := fun _ _ h => by cases h
  have hadmits : (Contents.ofSchema keyedDto : Contents Double).AdmitsNode Parts keyedCodecs "A" 1 (sampleProps "a") :=
    ⟨allowed_keyed "a", taken_keyedProps, fun _ _ _ _ _ _ _ _ hentry => hentry.elim⟩
  have hroom := roomy_withSchema (keyedCodecs.schema.toVec keyedDto) (n := 6) (by decide)
  obtain ⟨rid, g, hinsert, ⟨-, hshows⟩, -⟩ := runs_insertNodeByName keyedCodecs_faithful hlive hadmits keyedSchema 0
    shows_keyedSchema (hroom.mono (by rw [indexedPaths_keyed _ rfl]; exact Nat.le_refl _))
  refine ⟨rid, g, ?_, hshows⟩
  unfold Call.run Graph.drop
  exact run_then hinsert _

/-- It is reached under all rules that let the schema in. -/
theorem keyed_reached {R : Rules Double} (hR : R.applies Contents.empty keyedAst) : ∃ rid, ∃ g : Graph Parts,
    Call.Reached keyedCodecs asciiPest R g ∧ Graph.Shows keyedCodecs (keyedContents rid) g := by
  obtain ⟨rid, g, hrun, hshows⟩ := keyed_insert
  exact ⟨rid, g, .step (keyedSchema_reached hR) (by unfold Call.Fits; trivial) hrun (by rintro ⟨⟩), hshows⟩

/-! ## At all times -/

section Runs

variable {F : Type} [F64 F] [F64Text F] {M : Type} [FaithfulBacking M] {C : Codecs F} {X : Pest} {R : Rules F}
  {g : Graph M}

/-- A name that is not registered lists all live nodes. -/
theorem finds_listNodesUnnamed {t : Topo} {b : Behind} {c : Contents F} (h : Depicts C t b c) (hC : C.Faithful)
    {name : String} (hname : ¬ ∃ dto typeId, c.schema = some dto ∧ dto.registry.nodeTypeId name = some typeId) :
    ∃ rids, rids.Nodup ∧ (∀ rid, rid ∈ rids ↔ ∃ row, c.nodes rid = some row) ∧
      Finds (Is (M := M) t b) (listNodes C (some name)) (.ok (c.listedNodes rids)) := by
  obtain ⟨registry, hreg, hopt⟩ := finds_attemptRegistry (M := M) h hC
  obtain ⟨rids, hlive, hnd, hmem⟩ := finds_liveNodeRids (M := M) h
  have hnone : (registry.toOption.bind fun r => r.nodeTypeId name) = none := by
    rw [hopt]
    cases hs : c.schema with
    | none => rfl
    | some dto =>
      cases hid : dto.registry.nodeTypeId name with
      | none => exact hid
      | some typeId => exact absurd ⟨dto, typeId, hs, hid⟩ hname
  refine ⟨rids, hnd, hmem, hreg.bind (u := fun _ => .ok _) fun registry' hr => ?_⟩
  cases hr
  rw [hnone]
  refine hlive.bind (u := fun _ => .ok _) fun rids' hr => ?_
  cases hr
  exact finds_nodesWithProps h hC fun rid => (hmem rid).1

/-- What is shown, and that it is sound. -/
theorem exists_sound (hC : C.Faithful) (hlabels : TakesLabels M C) (h : Call.Reached C X R g) :
    ∃ c, Graph.Shows C c g ∧ c.Sound := by
  obtain ⟨c, hsteps, hshows⟩ := h.exists_steps hC hlabels
  exact ⟨c, hshows, hsteps.sound Contents.sound_empty⟩

/-- A node that is not there is not deleted. -/
theorem run_deleteNode_dead {c : Contents F} {rid : RecordId} (h : Graph.Shows C c g) (hrow : c.nodes rid = none) :
    ∃ e, deleteNode C rid g = (.err e, g) := by
  have hfind := finds_nodeExists_row (M := M) h rid g ⟨rfl, rfl⟩
  rw [hrow] at hfind
  unfold deleteNode
  rw [run_bind, hfind]
  exact ⟨_, rfl⟩

/-- What is shown where no index moves. -/
theorem exists_indexed (hC : C.Faithful) (hlabels : TakesLabels M C) {names : Set String} (hnames : PathsApart names)
    (h : Call.Reached C X (Rules.indexing names) g) : ∃ c, Graph.Shows C c g ∧ c.Indexed C names := by
  obtain ⟨c, hsteps, hshows⟩ := h.exists_steps hC hlabels
  exact ⟨c, hshows, hsteps.indexed hnames Contents.sound_empty (Contents.indexed_empty names)⟩

end Runs

/-! ## What calls leave behind -/

section Effects

variable {F : Type} [F64 F] [F64Text F] {M : Type} [FaithfulBacking M] {C : Codecs F} {X : Pest} {R : Rules F}
  {g : Graph M}

end Effects

end ChiffonDB

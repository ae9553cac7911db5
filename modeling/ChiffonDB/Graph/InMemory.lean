import ChiffonDB.Graph.FirstSchema
import ChiffonDB.Graph.Spacious
import ChiffonDB.Schema.DoubleText

/-!
# Databases in memory

* `SchemaCodec.pinned`, `Codecs.pinned` — serializers that are known on some values, and faithful on all.
* `Graph.run_applyFirst` — **the first schema of a database in memory**.
-/

set_option autoImplicit false

set_option linter.unusedSectionVars false

namespace ChiffonDB

open Action Graph

/-! ## Serializers -/

section Serializers

variable {F : Type} [F64 F] [F64Text F]

/-- The JSON text of one schema, and some other encoding of every other schema. -/
noncomputable def SchemaCodec.pinned (dto : SchemaDto) (json : List UInt8) : SchemaCodec where
  toVec dto' := if dto' = dto then json else List.replicate (schemaNumber dto') 0
  fromSlice bytes :=
    open Classical in
    if bytes = json then .ok dto
    else if h : ∃ dto', List.replicate (schemaNumber dto') 0 = bytes then .ok h.choose
    else .error (.schemaError "invalid")

theorem SchemaCodec.pinned_faithful {dto : SchemaDto} {json : List UInt8} (hjson : json.head? = some 123) :
    (SchemaCodec.pinned dto json).Faithful where
  fromSlice_toVec dto' _ := by
    by_cases h : dto' = dto
    · simp [SchemaCodec.pinned, h]
    · have hne : List.replicate (schemaNumber dto') (0 : UInt8) ≠ json := by
        rintro rfl
        rw [List.head?_replicate] at hjson
        split at hjson
        · cases hjson
        · exact absurd (Option.some.inj hjson) (by decide)
      have hex : ∃ d, List.replicate (schemaNumber d) (0 : UInt8) = List.replicate (schemaNumber dto') 0 := ⟨dto', rfl⟩
      have hchoose : hex.choose = dto' := by
        have hlen := congrArg List.length hex.choose_spec
        rw [List.length_replicate, List.length_replicate] at hlen
        exact (exists_injective_nat SchemaDto).choose_spec hlen
      simp only [SchemaCodec.pinned, if_neg h, if_neg hne, dif_pos hex, hchoose]

open Classical in
/-- Serializers that are known on some property maps, and give up on others. -/
noncomputable def Codecs.pinned (schema : SchemaCodec) (packed : List (Props F × List UInt8)) : Codecs F where
  packProps props := match packed.find? fun e => decide (e.1 = props) with
    | some e => .ok e.2
    | none => .error (.schemaError "not known")
  unpackProps bytes := match packed.find? fun e => decide (e.2 = bytes) with
    | some e => .ok e.1
    | none => .error (.schemaError "not known")
  packLabels _ := .error (.schemaError "not known")
  unpackLabels _ := .error (.schemaError "not known")
  packValue _ := .error (.schemaError "not known")
  schema := schema
  text := Value.text

theorem Codecs.pinned_faithful {schema : SchemaCodec} (hschema : schema.Faithful) {packed : List (Props F × List UInt8)}
    (hnd : (packed.map Prod.snd).Nodup) : (Codecs.pinned schema packed).Faithful where
  props {props bytes} h := by
    simp only [Codecs.pinned] at h ⊢
    split at h
    · rename_i e hfind
      cases h
      have hmem := List.mem_of_find?_eq_some hfind
      have hprops : e.1 = props := by simpa using List.find?_some hfind
      obtain ⟨d, hd⟩ : ∃ d, packed.find? (fun d => decide (d.2 = e.2)) = some d := by
        rw [← Option.isSome_iff_exists, List.find?_isSome]
        exact ⟨e, hmem, decide_eq_true rfl⟩
      -- the bytes belong to no other entry
      have hsame : d = e := List.inj_on_of_nodup_map hnd (List.mem_of_find?_eq_some hd) hmem (by simpa using List.find?_some hd)
      rw [hsame] at hd
      split
      · rename_i d' hd'
        have hback : some d' = some e := hd'.symm.trans (by convert hd)
        rw [Option.some.inj hback, hprops]
      · rename_i hnone
        have hback : none = some e := hnone.symm.trans (by convert hd)
        cases hback
    · cases h
  labels h := by cases h
  schema := hschema

/-- The serializers of a database without a schema, whose nodes have no properties. -/
noncomputable def plainCodecs : Codecs Double := .pinned (.pinned ⟨[], [], [], 1, 1⟩ <|
  (JsonText.openBrace :: ("\"definitions\":[],\"node_type_ids\":[],\"edge_type_ids\":[],\"next_node_id\":1," ++
    "\"next_edge_id\":1\x7d").toList).map fun c => UInt8.ofNat c.toNat) []

theorem plainCodecs_faithful : plainCodecs.Faithful :=
  Codecs.pinned_faithful (SchemaCodec.pinned_faithful rfl) List.nodup_nil

end Serializers

/-! ## A first schema -/

namespace Graph

section First

variable {F : Type} [F64 F] [F64Text F] {C : Codecs F} {X : Pest} {source : String} {ast : SchemaAst} {dto : SchemaDto}

/-- A database in memory that only has a schema. -/
def withSchema (bytes : List UInt8) : Graph Parts := ⟨.empty, { Parts.empty with schema := some bytes }⟩

/-- **`apply_schema`** on a new database in memory. -/
theorem run_applyFirst (hC : C.Faithful) (hparse : parse X source = .ok ast) (hvalid : validate ast = .ok ())
    (hids : assignTypeIds (astToDto ast) none = some dto) :
    applySchema C X source (empty : Graph Parts) = (.ok (), withSchema (C.schema.toVec dto)) := by
  have hdep := shows_empty (M := Parts) C
  have hparse : (Action.reads fun _ => parse X source : Action (Graph Parts) _) empty = (.ok ast, empty) :=
    congrArg (fun r => (r, empty)) hparse
  have hvalid : (Action.ofExcept (validate ast) : Action (Graph Parts) _) empty = (.ok (), empty) :=
    congrArg (fun r => (Outcome.ofExcept r, empty)) hvalid
  unfold applySchema
  rw [run_then hparse, run_then hvalid, run_then (finds_noPurges hdep hC rfl ast empty ⟨rfl, rfl⟩)]
  show saveSchema C ast empty = _
  unfold saveSchema saveSchemaWith
  rw [run_then (finds_noPrevious hdep rfl ast true empty ⟨rfl, rfl⟩), hids]
  rfl

/-- **It shows the schema, and no records.** -/
theorem shows_withSchema (hdto : dto.Shallow) :
    Shows C (Contents.ofSchema dto : Contents F) (withSchema (C.schema.toVec dto)) := by
  have hempty := (shows_empty (M := Parts) C).setSchema hdto
  exact hempty

/-- **There is room in it.** -/
theorem roomy_withSchema (bytes : List UInt8) {n : Nat} (h : n < UInt32.size) : Roomy n (withSchema bytes) := by
  have hempty := Spacious.empty h
  exact Spacious.roomy ⟨hempty.values, hempty.next, hempty.nodes, hempty.edges⟩

end First

end Graph

end ChiffonDB

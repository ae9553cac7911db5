import ChiffonDB.Graph.Conforms

/-!
# The property index on contents

* `Contents.EntriesExact` — the property index has every live node under the keys of its row, and nothing else.
* `Edit.entriesExact` — **single changes keep it so**.
* `Renamed.entriesExact`, `Converted.entriesExact`, `SchemaApplied.entriesExact`, `Rebuilt.entriesExact` — **so do changes
  of the schema** that leave every index where it is, as long as no two field names have one hash.
* `Rules.indexing`, `Contents.Steps.indexed` — whole runs.
-/

set_option autoImplicit false

set_option linter.unusedSectionVars false

namespace ChiffonDB

open PropertyIndex

variable {F : Type} [F64 F] [F64Text F] {C : Codecs F} {X : Pest} {checked : Prop} {c c' : Contents F}
  {kind : RecordKind} {rid : RecordId} {typeId : UInt16} {props : Props F} {key : IndexKey}

/-! ## Keys -/

theorem mem_keysAt {indexed : Bool} {name : String} {value : Option (Value F)} : key ∈ keysAt C indexed typeId name value ↔
    indexed = true ∧ ((value.filter isIndexableValue).bind (keyOf C typeId name)) = some key := by
  cases value with
  | none => simp [keysAt]
  | some v =>
    rw [keysAt_some, Option.filter_some]
    cases indexed <;> cases isIndexableValue v <;> simp

/-- A key tells the name of its field, as far as the hash does. -/
theorem pathHash_of_mem_keysAt {indexed : Bool} {name : String} {value : Option (Value F)}
    (h : key ∈ keysAt C indexed typeId name value) : key.pathHash = fnv1a (utf8 name) := by
  obtain ⟨v, -, hkey⟩ := Option.bind_eq_some_iff.1 (mem_keysAt.1 h).2
  obtain ⟨bytes, -, rfl⟩ := Option.map_eq_some_iff.1 hkey
  rfl

/-- The keys of a record for one field. -/
def FieldDef.keys (C : Codecs F) (typeId : UInt16) (props : Props F) (f : FieldDef) : List IndexKey :=
  keysAt C (f.indexed || f.unique) typeId f.name props[f.name]?

theorem FieldDef.pathHash_of_mem {f : FieldDef} (h : key ∈ f.keys C typeId props) : key.pathHash = fnv1a (utf8 f.name) :=
  pathHash_of_mem_keysAt h

namespace Contents

/-- **The keys of a record** are those of its fields. -/
theorem mem_keys_iff : key ∈ c.keys C typeId props ↔
    ∃ name fields, c.fieldsOf .node typeId = some (name, fields) ∧ ∃ f ∈ fields, key ∈ f.keys C typeId props := by
  unfold Contents.keys Contents.indexedPaths
  cases hf : c.fieldsOf .node typeId with
  | none => simp
  | some found =>
    obtain ⟨name, fields⟩ := found
    dsimp only
    rw [List.mem_filterMap]
    refine ⟨fun ⟨p, hp, hkey⟩ => ⟨name, fields, rfl, ?_⟩, fun ⟨_, _, he, f, hf, hkey⟩ => ?_⟩
    · obtain ⟨f, hf, rfl⟩ := List.mem_map.1 hp
      obtain ⟨hmem, hindexed⟩ := List.mem_filter.1 hf
      exact ⟨f, hmem, mem_keysAt.2 ⟨hindexed, hkey⟩⟩
    · cases he
      obtain ⟨hindexed, hkey⟩ := mem_keysAt.1 hkey
      exact ⟨_, List.mem_map.2 ⟨f, List.mem_filter.2 ⟨hf, hindexed⟩, rfl⟩, hkey⟩

/-- The index has every live node under the keys of its row, and nothing else. -/
def EntriesExact (C : Codecs F) (c : Contents F) : Prop :=
  Inverts (fun (row : NodeRow F) key => key ∈ c.keys C row.typeId row.props) c.nodes fun key rid => (key, rid) ∈ c.entries

theorem entriesExact_empty (schema : Option SchemaDto) : ((Contents.empty : Contents F).withSchema schema).EntriesExact C :=
  fun _ _ => ⟨fun h => h.elim, fun ⟨_, h, _⟩ => (by cases h)⟩

/-! ## Single changes -/

/-- The types are the same, and the rows but for their labels. -/
theorem EntriesExact.congr (h : c.EntriesExact C) (ht : c.SameTypes c') (he : c'.entries = c.entries)
    (hn : ∀ x, (c'.nodes x).map (fun row => (row.typeId, row.props)) = (c.nodes x).map fun row => (row.typeId, row.props)) :
    c'.EntriesExact C := by
  intro key x
  rw [he]
  refine (h key x).trans ?_
  have hx := hn x
  cases hold : c.nodes x with
  | none =>
    rw [hold, Option.map_none, Option.map_eq_none_iff] at hx
    rw [hx]
    exact ⟨fun ⟨_, h, _⟩ => (by cases h), fun ⟨_, h, _⟩ => (by cases h)⟩
  | some row =>
    rw [hold, Option.map_some] at hx
    obtain ⟨row', hrow', he'⟩ := Option.map_eq_some_iff.1 hx
    obtain ⟨htype, hprops⟩ := Prod.mk.inj he'
    rw [hrow']
    refine ⟨fun ⟨r, hr, hkey⟩ => ⟨row', rfl, ?_⟩, fun ⟨r, hr, hkey⟩ => ⟨row, rfl, ?_⟩⟩
    · cases hr
      rw [ht.keys, htype, hprops]
      exact hkey
    · cases hr
      rw [ht.keys, htype, hprops] at hkey
      exact hkey

/-- **One edit.** -/
theorem Edit.entriesExact (h : Edit C checked c c') (hs : c.Sound) (hx : c.EntriesExact C) : c'.EntriesExact C := by
  have htypes := h.sameTypes hs
  cases h with
  | @insertNode rid typeId props hfresh hadmits haccepts =>
    refine Inverts.update hx (fun key => ?_) fun key x hne => ?_
    · show (key, rid) ∈ c.entries ∨ key ∈ c.keys C typeId props ∧ rid = rid ↔ _
      have hnone := hx.not_has hfresh (k := key)
      refine ⟨fun h => ⟨_, rfl, (h.resolve_left hnone).1⟩, fun ⟨row, hr, hkey⟩ => ?_⟩
      cases hr
      exact .inr ⟨hkey, rfl⟩
    · show (key, x) ∈ c.entries ∨ key ∈ c.keys C typeId props ∧ x = rid ↔ _
      tauto
  | @updateNode rid row props hrow hvalid hadmits =>
    refine Inverts.update hx (fun key => ?_) fun key x hne => ?_
    · show ((key, rid) ∈ c.entries ∧ ¬ (key ∈ c.keys C row.typeId row.props ∧ rid = rid)) ∨
        key ∈ c.keys C row.typeId props ∧ rid = rid ↔ _
      have hold : (key, rid) ∈ c.entries ↔ key ∈ c.keys C row.typeId row.props := hx.has_iff hrow
      refine ⟨fun h => ⟨_, rfl, ?_⟩, fun ⟨row', hr, hkey⟩ => ?_⟩
      · show key ∈ c.keys C row.typeId props
        tauto
      · cases hr
        exact .inr ⟨hkey, rfl⟩
    · show ((key, x) ∈ c.entries ∧ ¬ (key ∈ c.keys C row.typeId row.props ∧ x = rid)) ∨
        key ∈ c.keys C row.typeId props ∧ x = rid ↔ _
      tauto
  | @deleteNode rid row hrow =>
    refine Inverts.update hx (fun key => ?_) fun key x hne => ?_
    · show (key, rid) ∈ c.entries ∧ ¬ (key ∈ c.keys C row.typeId row.props ∧ rid = rid) ↔ _
      have hold : (key, rid) ∈ c.entries ↔ key ∈ c.keys C row.typeId row.props := hx.has_iff hrow
      refine ⟨fun h => absurd ⟨hold.1 h.1, rfl⟩ h.2, fun ⟨_, hr, _⟩ => (by cases hr)⟩
    · show (key, x) ∈ c.entries ∧ ¬ (key ∈ c.keys C row.typeId row.props ∧ x = rid) ↔ _
      tauto
  | @relabel rid row labels hrow hnd =>
    refine hx.congr htypes rfl fun x => ?_
    show (Function.update c.nodes rid _ x).map _ = _
    by_cases hxr : x = rid
    · rw [hxr, Function.update_self, hrow]
      rfl
    · rw [Function.update_of_ne hxr]
  | _ => exact hx.congr htypes rfl fun _ => rfl

theorem Edits.entriesExact (h : Edits C checked c c') (hs : c.Sound) (hx : c.EntriesExact C) : c'.EntriesExact C :=
  (h.induction hs hx fun hs hedit hx => hedit.entriesExact hs hx).2

/-- **A database is rebuilt.** -/
theorem Rebuilt.entriesExact (h : Rebuilt C c c') (hs : c.Sound) : c'.EntriesExact C := by
  obtain ⟨f, g, h⟩ := h
  exact h.edits.entriesExact hs.onlySchema (entriesExact_empty _)

end Contents

/-! ## Other fields -/

section Fields

variable {fields fields' : List FieldDef} {position : Nat} {field field' : FieldDef} {props' : Props F}

/-- **One field in the place of another one**: its keys come, and those of the other one go. -/
theorem mem_keys_set (hthere : fields[position]? = some field) (hnd : (fields.map FieldDef.name).Nodup)
    (hother : ∀ f ∈ fields, f.name ≠ field.name → props'[f.name]? = props[f.name]?)
    (hapart : ∀ f ∈ fields, f.name ≠ field.name → fnv1a (utf8 f.name) ≠ fnv1a (utf8 field.name)) :
    (∃ f ∈ fields.set position field', key ∈ f.keys C typeId props') ↔
      key ∈ field'.keys C typeId props' ∨ (∃ f ∈ fields, key ∈ f.keys C typeId props) ∧ key ∉ field.keys C typeId props := by
  have hsame : ∀ f ∈ fields, f.name ≠ field.name → f.keys C typeId props' = f.keys C typeId props := by
    intro f hf hne
    unfold FieldDef.keys
    rw [hother f hf hne]
  constructor
  · rintro ⟨f, hf, hkey⟩
    rcases (mem_set_iff_of_nodup hthere hnd).1 hf with rfl | ⟨hmem, hne⟩
    · exact .inl hkey
    · rw [hsame f hmem hne] at hkey
      refine .inr ⟨⟨f, hmem, hkey⟩, fun hfield => hapart f hmem hne ?_⟩
      rw [← FieldDef.pathHash_of_mem hkey, FieldDef.pathHash_of_mem hfield]
  · rintro (hkey | ⟨⟨f, hf, hkey⟩, hnot⟩)
    · exact ⟨field', (mem_set_iff_of_nodup hthere hnd).2 (.inl rfl), hkey⟩
    · have hne : f.name ≠ field.name := by
        intro he
        rw [List.inj_on_of_nodup_map hnd hf (List.mem_of_getElem? hthere) he] at hkey
        exact hnot hkey
      exact ⟨f, (mem_set_iff_of_nodup hthere hnd).2 (.inr ⟨hf, hne⟩), by rw [hsame f hf hne]; exact hkey⟩

/-- **Other fields, indexed as before**: the keys are those of the fields that are kept. -/
theorem mem_keys_migrated (hpart : ∀ (key : String) v, props'[key]? = some v → props[key]? = some v)
    (hdeclared : ∀ key, key ∈ props → ∃ f ∈ fields, f.name = key)
    (hkept : ∀ f' ∈ fields', props'[f'.name]? = props[f'.name]?)
    (hindexed : ∀ f ∈ fields, ∀ f' ∈ fields', f.name = f'.name → (f.indexed || f.unique) = (f'.indexed || f'.unique)) :
    (∃ f' ∈ fields', key ∈ f'.keys C typeId props') ↔
      ∃ f ∈ fields, (∃ f' ∈ fields', f'.name = f.name) ∧ key ∈ f.keys C typeId props := by
  have hsame : ∀ f ∈ fields, ∀ f' ∈ fields', f'.name = f.name → f'.keys C typeId props' = f.keys C typeId props := by
    intro f hf f' hf' he
    unfold FieldDef.keys
    rw [hkept f' hf', ← hindexed f hf f' hf' he.symm, he]
  constructor
  · rintro ⟨f', hf', hkey⟩
    obtain ⟨v, hv, -⟩ := Option.bind_eq_some_iff.1 (mem_keysAt.1 hkey).2
    obtain ⟨f, hf, he⟩ := hdeclared f'.name (mem_props_iff.2 ⟨v, hpart _ v (Option.filter_eq_some_iff.1 hv).1⟩)
    exact ⟨f, hf, ⟨f', hf', he.symm⟩, by rw [← hsame f hf f' hf' he.symm]; exact hkey⟩
  · rintro ⟨f, hf, ⟨f', hf', he⟩, hkey⟩
    exact ⟨f', hf', by rw [hsame f hf f' hf' he]; exact hkey⟩

end Fields

/-- No two of the names have one hash. -/
def PathsApart (names : Set String) : Prop := Set.InjOn (fun name => fnv1a (utf8 name)) names

/-- The fields of all node types have such names. -/
def SchemaAst.NamesIn (names : Set String) (ast : SchemaAst) : Prop :=
  ∀ name fields, ast.fieldsNamed .node name = some fields → ∀ f ∈ fields, f.name ∈ names

namespace Contents

/-! ## All records at once -/

section Saved

variable {dto : SchemaDto} {name : String}

/-- The keys of a record of a type that has a name. -/
theorem mem_keys_named (hdto : c.schema = some dto) (hcoherent : dto.Coherent)
    (hid : dto.registry.typeIdOf .node name = some typeId) : key ∈ c.keys C typeId props ↔
      ∃ fields, (dtoToAst dto).fieldsNamed .node name = some fields ∧ ∃ f ∈ fields, key ∈ f.keys C typeId props := by
  rw [mem_keys_iff, fieldsOf_eq hdto hcoherent hid]
  refine ⟨fun ⟨_, fields, he, h⟩ => ?_, fun ⟨fields, he, h⟩ => ⟨name, fields, by rw [he]; rfl, h⟩⟩
  obtain ⟨found, hfound, he⟩ := Option.map_eq_some_iff.1 he
  cases he
  exact ⟨_, hfound, h⟩

/-- The entries of a node of a type that has a name. -/
theorem EntriesExact.entries_named (hx : c.EntriesExact C) (hs : c.Sound) {row : NodeRow F} (hrow : c.nodes rid = some row)
    (hdto : c.schema = some dto) (hid : dto.registry.typeIdOf .node name = some row.typeId) : (key, rid) ∈ c.entries ↔
      ∃ fields, (dtoToAst dto).fieldsNamed .node name = some fields ∧ ∃ f ∈ fields, key ∈ f.keys C row.typeId row.props :=
  (hx.has_iff hrow).trans (mem_keys_named hdto (hs.schema dto hdto).coherent hid)

/-- **Another schema is saved**: every node has the entries that its type asks for. -/
theorem EntriesExact.saved (hx : c.EntriesExact C) (hs : c.Sound) (hc : c.Conforms) {ast : SchemaAst} {check : Bool}
    {dto' : SchemaDto} (hsaves : c.Saves ast check dto') (hs' : c'.schema = some dto')
    (hdead : ∀ rid, c.nodes rid = none → c'.nodes rid = none ∧ ∀ key, (key, rid) ∈ c'.entries → (key, rid) ∈ c.entries)
    (hlive : ∀ rid row dto name, c.nodes rid = some row → c.schema = some dto →
      dto.registry.typeIdOf .node name = some row.typeId → ∃ props', c'.nodes rid = some { row with props := props' } ∧
        ∀ key, (key, rid) ∈ c'.entries ↔
          ∃ fields', ast.fieldsNamed .node name = some fields' ∧ ∃ f ∈ fields', key ∈ f.keys C row.typeId props') :
    c'.EntriesExact C := by
  obtain ⟨hsound', hkeeps⟩ := hsaves.sound hs.schema
  intro key rid
  cases hrow : c.nodes rid with
  | none =>
    obtain ⟨hnone, hentries⟩ := hdead rid hrow
    rw [hnone]
    exact ⟨fun h => absurd (hentries key h) (hx.not_has hrow), fun ⟨_, h, _⟩ => (by cases h)⟩
  | some row =>
    obtain ⟨dto, name, hdto, hid⟩ := (hc.records .node rid row.typeId row.props (congrArg (Option.map _) hrow)).named
    obtain ⟨props', hrow', hentries⟩ := hlive rid row dto name hrow hdto hid
    rw [hrow']
    refine (hentries key).trans ?_
    rw [← hsaves.ast_eq, ← mem_keys_named hs' hsound'.coherent (hkeeps dto hdto .node name row.typeId hid)]
    exact ⟨fun hkey => ⟨_, rfl, hkey⟩, fun ⟨_, hr, hkey⟩ => (by cases hr; exact hkey)⟩

end Saved

/-! ## Renaming -/

/-- The entry of a node behind a plan. -/
theorem mem_entries_rewrite {plan : Plan F} {row : NodeRow F} (hrow : c.nodes rid = some row) :
    (key, rid) ∈ (c.rewrite plan).entries ↔ c.EntryBehind (plan .node rid row.typeId row.props) (key, rid) := by
  show c.EntryBehind ((c.nodes rid).bind _) (key, rid) ↔ _
  rw [hrow, Option.bind_some]

theorem nodes_rewrite (plan : Plan F) {row : NodeRow F} (hrow : c.nodes rid = some row) :
    (c.rewrite plan).nodes rid = some { row with props := plan.props .node rid row.typeId row.props } := by
  rw [rewrite_nodes, hrow]
  rfl

theorem dead_rewrite (plan : Plan F) (hrow : c.nodes rid = none) :
    (c.rewrite plan).nodes rid = none ∧ ∀ key, (key, rid) ∈ (c.rewrite plan).entries → (key, rid) ∈ c.entries := by
  refine ⟨by rw [rewrite_nodes, hrow]; rfl, fun key h => ?_⟩
  change c.EntryBehind ((c.nodes rid).bind _) (key, rid) at h
  rw [hrow] at h
  exact h

/-- A node that a change of another type leaves alone. -/
theorem entries_of_plan_none {plan : Plan F} {row : NodeRow F} (hrow : c.nodes rid = some row)
    (hplan : plan .node rid row.typeId row.props = none) :
    (c.rewrite plan).nodes rid = some row ∧ ∀ key, (key, rid) ∈ (c.rewrite plan).entries ↔ (key, rid) ∈ c.entries := by
  refine ⟨?_, fun key => ?_⟩
  · rw [nodes_rewrite _ hrow, plan_props_other hplan]
  · rw [mem_entries_rewrite hrow, hplan]
    rfl

/-- **One field is replaced**, and the records of its type with it. -/
theorem EntriesExact.replaced {names : Set String} (hnames : PathsApart names) (hx : c.EntriesExact C) (hs : c.Sound)
    (hc : c.Conforms) (hin : ∀ dto, c.schema = some dto → (dtoToAst dto).NamesIn names) {dto dto' : SchemaDto}
    (hdto : c.schema = some dto) {typeName fieldName : String} (p : FieldPlace dto kind typeName fieldName) {field' : FieldDef}
    (hsaves : c.Saves (p.replaced field') false dto') {plan : Plan F}
    (hother : ∀ k rid ty props, ¬ (k = kind ∧ ty = p.typeId) → plan k rid ty props = none)
    (hplan : kind = .node → ∀ rid row, c.nodes rid = some row → row.typeId = p.typeId →
      (∀ f ∈ p.fields, f.name ≠ p.field.name →
        (plan.props .node rid row.typeId row.props)[f.name]? = row.props[f.name]?) ∧
      ∀ key, c.EntryBehind (plan .node rid row.typeId row.props) (key, rid) ↔
        key ∈ field'.keys C row.typeId (plan.props .node rid row.typeId row.props) ∨
          (key, rid) ∈ c.entries ∧ key ∉ p.field.keys C row.typeId row.props) :
    ((c.withSchema (some dto')).rewrite plan).EntriesExact C := by
  have hcoherent := (hs.schema dto hdto).coherent
  refine EntriesExact.saved hx hs hc hsaves rfl (fun rid hrow => dead_rewrite (c := c.withSchema _) _ hrow)
    fun rid row dto₀ name hrow hdto₀ hid => ?_
  cases hdto.symm.trans hdto₀
  have hentries : ∀ key, (key, rid) ∈ c.entries ↔ _ := fun key => hx.entries_named hs hrow hdto hid
  by_cases hsame : RecordKind.node = kind ∧ name = typeName
  · obtain ⟨rfl, rfl⟩ := hsame
    have htype : row.typeId = p.typeId := Option.some.inj (hid.symm.trans p.registered)
    obtain ⟨hprops, hbehind⟩ := hplan rfl rid row hrow htype
    refine ⟨_, nodes_rewrite (c := c.withSchema _) _ hrow, fun key => ?_⟩
    have hbehind' : (key, rid) ∈ ((c.withSchema (some dto')).rewrite plan).entries ↔ _ :=
      (mem_entries_rewrite (c := c.withSchema _) hrow).trans (hbehind key)
    rw [hbehind', hentries key, p.fieldsNamed]
    have hset : (∃ f ∈ p.fields.set p.position field', key ∈ f.keys C row.typeId _) ↔ _ := mem_keys_set p.there
      (p.nodup_fields (hc.once dto hdto)) hprops fun f hf hne he =>
        hne (hnames (hin dto hdto name _ p.fieldsNamed f hf)
          (hin dto hdto name _ p.fieldsNamed p.field (List.mem_of_getElem? p.there)) he)
    constructor
    · intro h
      refine ⟨_, (SchemaAst.fieldsNamed_eq _ _ _).trans (SchemaAst.fieldsOf_setFields_self p.declared), hset.2 ?_⟩
      refine h.imp id fun ⟨⟨fields, he, hkey⟩, hnot⟩ => ⟨?_, hnot⟩
      cases he
      exact hkey
    · rintro ⟨fields', hf', hkey⟩
      rcases p.fieldsNamed_replaced _ hf' with ⟨-, rfl⟩ | ⟨hne, -⟩
      · exact (hset.1 hkey).imp id fun h => ⟨⟨p.fields, rfl, h.1⟩, h.2⟩
      · exact absurd ⟨rfl, rfl⟩ hne
  · have hnone : plan .node rid row.typeId row.props = none := hother _ _ _ _ (p.typeId_ne hcoherent hid hsame)
    obtain ⟨hnode, hsame'⟩ := entries_of_plan_none (c := c.withSchema (some dto')) hrow hnone
    refine ⟨row.props, hnode, fun key => (hsame' key).trans ((hentries key).trans ?_)⟩
    have hfields : (p.replaced field').fieldsNamed .node name = (dtoToAst dto).fieldsNamed .node name := by
      rw [SchemaAst.fieldsNamed_eq, SchemaAst.fieldsNamed_eq]
      exact SchemaAst.fieldsOf_setFields_ne hsame
    rw [hfields]

/-- **A field is renamed.** -/
theorem Renamed.entriesExact {names : Set String} (hnames : PathsApart names) {typeName oldName newName : String}
    (h : Graph.Renamed C kind typeName oldName newName c c') (hs : c.Sound) (hc : c.Conforms)
    (hin : ∀ dto, c.schema = some dto → (dtoToAst dto).NamesIn names) (hx : c.EntriesExact C) : c'.EntriesExact C := by
  obtain ⟨dto, hdto, p, ⟨-, rfl⟩ | ⟨⟨-, hnew⟩, dto', hsaves, rfl⟩⟩ := h
  · exact hx
  refine hx.replaced hnames hs hc hin hdto p hsaves (fun k rid ty props hother => if_neg hother) fun hkind rid row hrow htype => ?_
  subst hkind
  have hrec : c.record .node rid = some (row.typeId, row.props) := congrArg (Option.map _) hrow
  have htakes := hc.takes hs hrec hdto (htype ▸ p.registered) p.fieldsNamed
  have hnotin : newName ∉ row.props := fun hm => by
    obtain ⟨f, hf, he⟩ := htakes.declared newName hm
    exact hnew f hf he
  rw [htype, renamePlan_props]
  have hget := getElem?_renamedProps oldName newName fun _ => hnotin
  refine ⟨fun f hf hne => ?_, fun key => ?_⟩
  · rw [hget, if_neg (hnew f hf), if_neg (by rw [← p.named]; exact hne)]
  · have hold : p.field.keys C p.typeId row.props =
        keysAt C (p.field.indexed || p.field.unique) p.typeId oldName row.props[oldName]? := by
      unfold FieldDef.keys
      rw [p.named]
    have hnewKeys : FieldDef.keys C p.typeId ((renamedProps oldName newName row.props).getD row.props)
        { p.field with name := newName } =
          keysAt C (p.field.indexed || p.field.unique) p.typeId newName row.props[oldName]? := by
      unfold FieldDef.keys
      dsimp only
      rw [hget, if_pos rfl]
    rw [hold, hnewKeys]
    unfold renamePlan
    rw [if_pos ⟨rfl, rfl⟩]
    have herase := getElem?_erase_of_not_mem hnotin oldName
    cases hr : renamedProps oldName newName row.props with
    | none =>
      have hnone : row.props[oldName]? = none := by
        unfold renamedProps at hr
        rw [herase] at hr
        cases hv : row.props[oldName]? with
        | none => rfl
        | some v =>
          rw [hv] at hr
          cases hr
      rw [hnone]
      show (key, rid) ∈ c.entries ↔ _
      simp [keysAt]
    | some renamed =>
      rw [herase, Option.map_some]
      show key ∈ keysAt C ((p.field.indexed || p.field.unique) && decide (RecordKind.node = .node)) _ _ _ ∨ _ ↔ _
      simp

/-! ## Changing a type -/

/-- Values that are not there, and null, have no keys. -/
theorem keysAt_of_convertible_none {indexed : Bool} {fieldName : String} (h : convertible fieldName props = none) :
    keysAt C indexed typeId fieldName props[fieldName]? = [] := by
  cases hv : props[fieldName]? with
  | none => rfl
  | some v =>
    have hnull : v = .null := by
      by_contra hne
      rw [convertible_of_ne hv hne] at h
      cases h
    rw [hnull, keysAt_some]
    simp [isIndexableValue]

/-- **A field gets another type.** -/
theorem Converted.entriesExact {names : Set String} (hnames : PathsApart names) {typeName fieldName newType : String}
    {onFailure : OnConversionFailure} {change : FieldTypeChange}
    (h : Graph.Converted C kind typeName fieldName newType onFailure c c' change) (hs : c.Sound) (hc : c.Conforms)
    (hin : ∀ dto, c.schema = some dto → (dtoToAst dto).NamesIn names) (hx : c.EntriesExact C) : c'.EntriesExact C := by
  obtain rfl | ⟨target, -, dto, hdto, p, -, dto', hsaves, rfl⟩ := h.changed
  · exact hx
  refine hx.replaced hnames hs hc hin hdto p hsaves (fun k rid ty props hother => if_neg hother) fun hkind rid row hrow htype => ?_
  subst hkind
  rw [htype, convertPlan_props]
  refine ⟨fun f hf hne => getElem?_converted _ _ _ hne, fun key => ?_⟩
  have hentries : (key, rid) ∈ c.entries ↔ key ∈ c.keys C row.typeId row.props := hx.has_iff hrow
  -- the keys of the field are among those of the record
  have hfield : key ∈ p.field.keys C p.typeId row.props → (key, rid) ∈ c.entries := by
    intro hkey
    rw [hx.entries_named hs hrow hdto (htype ▸ p.registered)]
    exact ⟨_, p.fieldsNamed, p.field, List.mem_of_getElem? p.there, htype ▸ hkey⟩
  unfold convertPlan
  rw [if_pos ⟨rfl, rfl⟩]
  cases hold : convertible p.field.name row.props with
  | none =>
    have hnone : ∀ b, keysAt C b p.typeId p.field.name row.props[p.field.name]? = [] := fun b => keysAt_of_convertible_none hold
    show (key, rid) ∈ c.entries ↔ key ∈ keysAt C _ _ _ row.props[p.field.name]? ∨ _ ∧ key ∉ keysAt C _ _ _ _
    rw [hnone]
    simp
  | some old =>
    have hget := getElem?_of_convertible hold
    rw [Option.bind_some, Option.bind_some]
    split
    · show (key, rid) ∈ c.entries ↔ key ∈ p.field.keys C p.typeId row.props ∨ _
      tauto
    · rw [Option.getD_some]
      have hdropped : p.field.keys C p.typeId row.props =
          keysAt C (decide (RecordKind.node = .node) && (p.field.indexed || p.field.unique)) p.typeId p.field.name (some old) := by
        unfold FieldDef.keys
        rw [hget]
        simp
      have hadded : FieldDef.keys C p.typeId (row.props.insert p.field.name (convertedValue target old))
          { p.field with typeExpr := target } =
            keysAt C (decide (RecordKind.node = .node) && (p.field.indexed || p.field.unique)) p.typeId p.field.name
              (some (convertedValue target old)) := by
        unfold FieldDef.keys
        dsimp only
        rw [Std.ExtTreeMap.getElem?_insert_self]
        simp
      rw [hdropped, hadded]
      exact Iff.rfl

/-! ## Applying a schema -/

/-- What a purge is, if one is planned. -/
theorem planPurge_eq_some {new : SchemaAst} {name : String} {oldFields : List FieldDef} {id : Option UInt16} {purge : FieldPurge}
    (h : planPurge new kind name oldFields id = some purge) : ∃ newFields, new.fieldsNamed kind name = some newFields ∧
      id = some purge.typeId ∧
      purge.keep = (oldFields.map FieldDef.name).filter (· ∈ newFields.map FieldDef.name) ∧
      purge.droppedIndexed = (oldFields.filter fun f => (f.indexed || f.unique) && f.name ∉ newFields.map FieldDef.name).map
        fun f => .flat f.name := by
  unfold planPurge at h
  obtain ⟨newFields, hnew, h⟩ := Option.bind_eq_some_iff.1 h
  dsimp only at h
  split at h
  · cases h
  · obtain ⟨typeId, hid, h⟩ := Option.bind_eq_some_iff.1 h
    cases h
    exact ⟨newFields, (SchemaAst.fieldsNamed_eq new kind name).trans hnew, hid, rfl, rfl⟩

/-- **Purges that drop nothing of a node** leave it alone. -/
theorem purgeNodes_apart (purges : List FieldPurge) {row : NodeRow F} (hrow : c.nodes rid = some row)
    (h : ∀ p ∈ purges, p.typeId = row.typeId → p.kept row.props = none) :
    (c.purgeNodes C purges).nodes rid = some row ∧ ∀ key, (key, rid) ∈ (c.purgeNodes C purges).entries ↔ (key, rid) ∈ c.entries := by
  induction purges generalizing c with
  | nil => exact ⟨hrow, fun _ => Iff.rfl⟩
  | cons p purges ih =>
    have hplan : purgePlan C p .node rid row.typeId row.props = none := by
      unfold purgePlan
      split
      · rename_i hboth
        rw [h p List.mem_cons_self hboth.2.symm]
        rfl
      · rfl
    obtain ⟨hnode, hentries⟩ := entries_of_plan_none hrow hplan
    obtain ⟨hnode', hentries'⟩ := ih hnode fun q hq => h q (List.mem_cons_of_mem _ hq)
    exact ⟨hnode', fun key => (hentries' key).trans (hentries key)⟩

/-- What is kept is kept by the same purge. -/
theorem FieldPurge.kept_kept (purge : FieldPurge) (props : Props F) : purge.kept ((purge.kept props).getD props) = none := by
  refine if_pos (List.all_eq_true.2 fun key hkey => decide_eq_true ?_)
  exact (partOf_kept purge props).2 key (Std.ExtTreeMap.mem_keys.1 hkey)

/-- **The one purge of the type of a node.** -/
theorem purgeNodes_at (purges : List FieldPurge) {row : NodeRow F} (hrow : c.nodes rid = some row) {purge : FieldPurge}
    (hall : ∀ p ∈ purges, p.typeId = row.typeId → p = purge) (hmem : purge ∈ purges) (htype : purge.typeId = row.typeId) :
    (c.purgeNodes C purges).nodes rid = some { row with props := (purge.kept row.props).getD row.props } ∧
      ∀ key, (key, rid) ∈ (c.purgeNodes C purges).entries ↔
        c.EntryBehind (purgePlan C purge .node rid row.typeId row.props) (key, rid) := by
  induction purges generalizing c with
  | nil => exact absurd hmem List.not_mem_nil
  | cons p purges ih =>
    by_cases hp : p.typeId = row.typeId
    · obtain rfl := hall p List.mem_cons_self hp
      have hnode := nodes_rewrite (purgePlan C p) hrow
      rw [purgePlan_props, if_pos ⟨rfl, hp.symm⟩] at hnode
      obtain ⟨hnode', hentries'⟩ := purgeNodes_apart (C := C) purges hnode fun q hq hqt => by
        rw [hall q (List.mem_cons_of_mem _ hq) hqt]
        exact FieldPurge.kept_kept p row.props
      exact ⟨hnode', fun key => (hentries' key).trans (mem_entries_rewrite hrow)⟩
    · have hplan : purgePlan C p .node rid row.typeId row.props = none := if_neg fun hboth => hp hboth.2.symm
      obtain ⟨hnode, hentries⟩ := entries_of_plan_none hrow hplan
      have hne : purge ≠ p := by
        rintro rfl
        exact hp htype
      obtain ⟨hnode', hentries'⟩ := ih hnode (fun q hq => hall q (List.mem_cons_of_mem _ hq))
        ((List.mem_cons.1 hmem).resolve_left hne)
      exact ⟨hnode', fun key => (hentries' key).trans (entryBehind_congr (hentries key))⟩

theorem purgeNodes_dead (purges : List FieldPurge) (hrow : c.nodes rid = none) : (c.purgeNodes C purges).nodes rid = none ∧
    ∀ key, (key, rid) ∈ (c.purgeNodes C purges).entries → (key, rid) ∈ c.entries := by
  induction purges generalizing c with
  | nil => exact ⟨hrow, fun _ h => h⟩
  | cons p purges ih =>
    obtain ⟨hnode, hentries⟩ := dead_rewrite (purgePlan C p) hrow
    obtain ⟨hnode', hentries'⟩ := ih hnode
    exact ⟨hnode', fun key h => hentries key (hentries' key h)⟩

/-- A schema that moves no index: the types of live nodes stay, and the fields that stay are indexed as before. -/
def KeepsIndexes (c : Contents F) (ast : SchemaAst) : Prop :=
  ∀ rid row dto name fields, c.nodes rid = some row → c.schema = some dto →
    dto.registry.typeIdOf .node name = some row.typeId → (dtoToAst dto).fieldsNamed .node name = some fields →
      ∃ fields', ast.fieldsNamed .node name = some fields' ∧
        ∀ f ∈ fields, ∀ f' ∈ fields', f.name = f'.name → (f.indexed || f.unique) = (f'.indexed || f'.unique)

/-- The keys of the fields that are gone. -/
theorem mem_droppedKeys {fields newFields : List FieldDef} :
    key ∈ ((fields.filter fun f => (f.indexed || f.unique) && f.name ∉ newFields.map FieldDef.name).map
      fun f => PropertyPath.flat f.name).filterMap (pathKey C typeId props) ↔
      ∃ f ∈ fields, (¬ ∃ f' ∈ newFields, f'.name = f.name) ∧ key ∈ f.keys C typeId props := by
  rw [List.mem_filterMap]
  constructor
  · rintro ⟨path, hpath, hkey⟩
    obtain ⟨f, hf, rfl⟩ := List.mem_map.1 hpath
    obtain ⟨hmem, hboth⟩ := List.mem_filter.1 hf
    obtain ⟨hindexed, hgone⟩ := Bool.and_eq_true_iff.1 hboth
    exact ⟨f, hmem, fun h => of_decide_eq_true hgone (List.mem_map.2 h), mem_keysAt.2 ⟨hindexed, hkey⟩⟩
  · rintro ⟨f, hf, hgone, hkey⟩
    obtain ⟨hindexed, hkey⟩ := mem_keysAt.1 hkey
    have hboth : ((f.indexed || f.unique) && decide (f.name ∉ newFields.map FieldDef.name)) = true :=
      Bool.and_eq_true_iff.2 ⟨hindexed, decide_eq_true fun h => hgone (List.mem_map.1 h)⟩
    exact ⟨.flat f.name, List.mem_map.2 ⟨f, List.mem_filter.2 ⟨hf, hboth⟩, rfl⟩, hkey⟩

/-- A record that only has fields that are kept. -/
theorem no_droppedKeys {newFields : List FieldDef} (hkept : ∀ key, key ∈ props → ∃ f' ∈ newFields, f'.name = key)
    {f : FieldDef} (hgone : ¬ ∃ f' ∈ newFields, f'.name = f.name) : key ∉ f.keys C typeId props := by
  intro hkey
  obtain ⟨v, hv, -⟩ := Option.bind_eq_some_iff.1 (mem_keysAt.1 hkey).2
  exact hgone (hkept f.name (mem_props_iff.2 ⟨v, (Option.filter_eq_some_iff.1 hv).1⟩))

/-- The values of the fields that are kept are kept. -/
theorem getElem?_kept {fields newFields : List FieldDef} (htakes : FieldsTake fields props) {purge : FieldPurge}
    (hkeep : purge.keep = (fields.map FieldDef.name).filter (· ∈ newFields.map FieldDef.name)) {f' : FieldDef}
    (hf' : f' ∈ newFields) : ((purge.kept props).getD props)[f'.name]? = props[f'.name]? := by
  unfold FieldPurge.kept
  split
  · rfl
  · rw [Option.getD_some, Std.ExtTreeMap.getElem?_filter']
    cases hv : props[f'.name]? with
    | none => rfl
    | some v =>
      obtain ⟨f, hf, he⟩ := htakes.declared f'.name (mem_props_iff.2 ⟨v, hv⟩)
      have hmem : f'.name ∈ purge.keep := by
        rw [hkeep]
        exact List.mem_filter.2 ⟨List.mem_map.2 ⟨f, hf, he⟩, decide_eq_true (List.mem_map_of_mem hf')⟩
      rw [Option.filter_some, if_pos (decide_eq_true hmem)]

/-- **The purge of the fields of one node**: what is left are the entries of the fields that stay. -/
theorem mem_entries_purged {fields newFields : List FieldDef} {names : Set String} (hnames : PathsApart names)
    (hin : ∀ f ∈ fields, f.name ∈ names) {row : NodeRow F} {purge : FieldPurge}
    (htype : purge.typeId = row.typeId)
    (hkeep : purge.keep = (fields.map FieldDef.name).filter (· ∈ newFields.map FieldDef.name))
    (hdropped : purge.droppedIndexed = (fields.filter fun f => (f.indexed || f.unique) && f.name ∉ newFields.map FieldDef.name).map
      fun f => .flat f.name)
    (hentries : ∀ key, (key, rid) ∈ c.entries ↔ ∃ f ∈ fields, key ∈ f.keys C row.typeId row.props) (key : IndexKey) :
    c.EntryBehind (purgePlan C purge .node rid row.typeId row.props) (key, rid) ↔
      ∃ f ∈ fields, (∃ f' ∈ newFields, f'.name = f.name) ∧ key ∈ f.keys C row.typeId row.props := by
  have hkeeps : ∀ name, name ∈ purge.keep → ∃ f' ∈ newFields, f'.name = name := by
    intro name hname
    rw [hkeep] at hname
    exact List.mem_map.1 (of_decide_eq_true (List.mem_filter.1 hname).2)
  unfold purgePlan
  rw [if_pos ⟨rfl, htype.symm⟩]
  cases hk : purge.kept row.props with
  | none =>
    show (key, rid) ∈ c.entries ↔ _
    have hall : ∀ name, name ∈ row.props → ∃ f' ∈ newFields, f'.name = name := by
      intro name hname
      refine hkeeps name ((partOf_kept purge row.props).2 name ?_)
      rw [hk]
      exact hname
    rw [hentries]
    refine ⟨fun ⟨f, hf, hkey⟩ => ⟨f, hf, ?_, hkey⟩, fun ⟨f, hf, _, hkey⟩ => ⟨f, hf, hkey⟩⟩
    by_contra hgone
    exact no_droppedKeys hall hgone hkey
  | some kept =>
    show key ∈ [] ∨ (key, rid) ∈ c.entries ∧ key ∉ purge.droppedIndexed.filterMap (pathKey C purge.typeId row.props) ↔ _
    rw [hentries, hdropped, htype, mem_droppedKeys]
    constructor
    · rintro (h | ⟨⟨f, hf, hkey⟩, hnot⟩)
      · cases h
      · refine ⟨f, hf, ?_, hkey⟩
        by_contra hgone
        exact hnot ⟨f, hf, hgone, hkey⟩
    · rintro ⟨f, hf, hstays, hkey⟩
      refine .inr ⟨⟨f, hf, hkey⟩, ?_⟩
      rintro ⟨g, hg, hgone, hkey'⟩
      -- the hashes tell the two names apart
      have hsame : f.name = g.name := hnames (hin f hf) (hin g hg)
        ((FieldDef.pathHash_of_mem hkey).symm.trans (FieldDef.pathHash_of_mem hkey'))
      rw [hsame] at hstays
      exact hgone hstays

/-- The purges of a type are planned for its definition. -/
theorem planned_of_type {dto : SchemaDto} (hdto : dto.Coherent) (honce : (dtoToAst dto).Once) {ast : SchemaAst} {name : String}
    (hid : dto.registry.typeIdOf .node name = some typeId) {purge : FieldPurge}
    (hmem : purge ∈ (planFieldPurges dto.registry (dtoToAst dto) ast).1) (htype : purge.typeId = typeId) :
    ∃ fields, (dtoToAst dto).fieldsNamed .node name = some fields ∧
      planPurge ast .node name fields (some typeId) = some purge := by
  obtain ⟨n, hn, hplan⟩ := List.mem_filterMap.1 hmem
  obtain ⟨-, -, hpid, -⟩ := planPurge_eq_some hplan
  rw [htype] at hpid
  obtain rfl := hdto.name_eq hid (show dto.registry.typeIdOf .node n.name = some typeId from hpid)
  rw [hpid] at hplan
  obtain ⟨n', hn'⟩ : ∃ n', (dtoToAst dto).findNode n.name = some n' := by
    rw [← Option.isSome_iff_exists]
    exact List.find?_isSome.2 ⟨n, hn, by simp⟩
  have hsame : n' = n := honce.nodeDeclaredOnce n.name n' (List.mem_of_find?_eq_some hn') n hn
    (by simpa using List.find?_some hn') rfl
  refine ⟨n.fields, ?_, hplan⟩
  rw [SchemaAst.fieldsNamed, hn', hsame]
  rfl

section Purged

variable {names : Set String} {dto : SchemaDto} {ast : SchemaAst} {name : String} {fields fields' : List FieldDef}
  {row : NodeRow F}

/-- **A node of a type that stays** has the entries of its new fields behind the purges. -/
theorem exists_purgedNode (hnames : PathsApart names) (hdto : dto.Coherent) (honce : (dtoToAst dto).Once)
    (hid : dto.registry.typeIdOf .node name = some row.typeId) (hf : (dtoToAst dto).fieldsNamed .node name = some fields)
    (hf' : ast.fieldsNamed .node name = some fields') (hin : ∀ f ∈ fields, f.name ∈ names)
    (hindexed : ∀ f ∈ fields, ∀ f' ∈ fields', f.name = f'.name → (f.indexed || f.unique) = (f'.indexed || f'.unique))
    (hrow : c.nodes rid = some row) (htakes : FieldsTake fields row.props)
    (hentries : ∀ key, (key, rid) ∈ c.entries ↔ ∃ f ∈ fields, key ∈ f.keys C row.typeId row.props) :
    ∃ props', (c.purgeNodes C (planFieldPurges dto.registry (dtoToAst dto) ast).1).nodes rid =
        some { row with props := props' } ∧
      ∀ key, (key, rid) ∈ (c.purgeNodes C (planFieldPurges dto.registry (dtoToAst dto) ast).1).entries ↔
        ∃ f ∈ fields', key ∈ f.keys C row.typeId props' := by
  have hplanned : ∀ p ∈ (planFieldPurges dto.registry (dtoToAst dto) ast).1, p.typeId = row.typeId →
      planPurge ast .node name fields (some row.typeId) = some p := by
    intro p hp htype
    obtain ⟨_, he, hsome⟩ := planned_of_type hdto honce hid hp htype
    cases hf.symm.trans he
    exact hsome
  cases hplan : planPurge ast .node name fields (some row.typeId) with
  | none =>
    -- nothing is purged, as the names of the fields are the same
    rw [hplan] at hplanned
    obtain ⟨hnode, hsame⟩ := purgeNodes_apart (C := C) _ hrow fun p hp htype => by cases hplanned p hp htype
    have hnames' : sameNames (fields.map FieldDef.name) (fields'.map FieldDef.name) = true := by
      by_contra hdiffer
      obtain ⟨purge, hpurge⟩ := exists_planPurge hf' (Bool.eq_false_of_not_eq_true hdiffer) row.typeId
      rw [hplan] at hpurge
      cases hpurge
    refine ⟨row.props, hnode, fun key => (hsame key).trans ((hentries key).trans ?_)⟩
    rw [mem_keys_migrated (fun _ _ h => h) htakes.declared (fun _ _ => rfl) hindexed]
    refine ⟨fun ⟨f, hmem, hkey⟩ => ⟨f, hmem, ?_, hkey⟩, fun ⟨f, hmem, _, hkey⟩ => ⟨f, hmem, hkey⟩⟩
    exact declared_of_sameNames hnames' ⟨f, hmem, rfl⟩
  | some purge =>
    obtain ⟨newFields, hnew, hpid, hkeep, hdropped⟩ := planPurge_eq_some hplan
    cases hf'.symm.trans hnew
    have htype : purge.typeId = row.typeId := (Option.some.inj hpid).symm
    obtain ⟨hnode, hbehind⟩ := purgeNodes_at (C := C) _ hrow
      (fun p hp hptype => Option.some.inj ((hplanned p hp hptype).symm.trans hplan)) (mem_planFieldPurges hf hid hplan) htype
    refine ⟨_, hnode, fun key => (hbehind key).trans ?_⟩
    rw [mem_entries_purged hnames hin htype hkeep hdropped hentries key]
    exact (mem_keys_migrated (partOf_kept purge row.props).1 htakes.declared
      (fun f' hf' => getElem?_kept htakes hkeep hf') hindexed).symm

/-- **A schema is applied.** -/
theorem SchemaApplied.entriesExact (hnames : PathsApart names) {source : String}
    (h : Graph.SchemaApplied C X source c c') (hevolves : ∀ ast, parse X source = .ok ast → c.Evolves ast)
    (hkeeps : ∀ ast, parse X source = .ok ast → c.KeepsIndexes ast) (hs : c.Sound) (hc : c.Conforms)
    (hin : ∀ dto, c.schema = some dto → (dtoToAst dto).NamesIn names) (hx : c.EntriesExact C) : c'.EntriesExact C := by
  obtain ⟨ast, dto', ⟨hparse, -⟩, hsaves, rfl⟩ := h
  have hschema : ((c.withSchema (some dto')).purged C (c.purges ast)).schema = some dto' := schema_purgeNodes _
  refine hx.saved hs hc hsaves hschema (fun rid hrow => ?_) fun rid row dto name hrow hdto hid => ?_
  · obtain ⟨hnode, hentries⟩ := purgeNodes_dead (C := C) (c := c.withSchema (some dto')) (c.purges ast).1 hrow
    obtain ⟨hnode', hentries'⟩ := dead_rewrite (edgePurgePlan (c.purges ast).2) hnode
    exact ⟨hnode', fun key h => hentries key (hentries' key h)⟩
  · have hcoherent := (hs.schema dto hdto).coherent
    have honce := hc.once dto hdto
    -- the purges of edges leave the nodes alone
    suffices h : ∃ props', ((c.withSchema (some dto')).purgeNodes C (c.purges ast).1).nodes rid =
        some { row with props := props' } ∧ ∀ key,
          (key, rid) ∈ ((c.withSchema (some dto')).purgeNodes C (c.purges ast).1).entries ↔
            ∃ fields', ast.fieldsNamed .node name = some fields' ∧ ∃ f ∈ fields', key ∈ f.keys C row.typeId props' by
      obtain ⟨props', hnode, hkeys⟩ := h
      have hplan : edgePurgePlan (c.purges ast).2 .node rid row.typeId props' = none := if_neg (by simp)
      obtain ⟨hnode', hsame⟩ := entries_of_plan_none hnode hplan
      exact ⟨props', hnode', fun key => (hsame key).trans (hkeys key)⟩
    have hpurges : c.purges ast = planFieldPurges dto.registry (dtoToAst dto) ast := by
      unfold Contents.purges
      rw [hdto]
    have hentries : ∀ key, (key, rid) ∈ c.entries ↔ ∃ fields, (dtoToAst dto).fieldsNamed .node name = some fields ∧
        ∃ f ∈ fields, key ∈ f.keys C row.typeId row.props := fun key => hx.entries_named hs hrow hdto hid
    have hrec : c.record .node rid = some (row.typeId, row.props) := congrArg (Option.map _) hrow
    rw [hpurges]
    cases hf : (dtoToAst dto).fieldsNamed .node name with
    | none =>
      -- a type that is not declared stays so, and has no entries
      have hgone : ast.fieldsNamed .node name = none := by
        by_contra hne
        have hsome := (hevolves ast hparse).kept .node rid row.typeId row.props dto name hrec hdto hid
          (Option.isSome_iff_ne_none.2 hne)
        rw [hf] at hsome
        cases hsome
      obtain ⟨hnode, hsame⟩ := purgeNodes_apart (C := C) (c := c.withSchema (some dto')) _ hrow fun p hp htype => by
        obtain ⟨_, he, -⟩ := planned_of_type hcoherent honce hid hp htype
        rw [hf] at he
        cases he
      refine ⟨row.props, hnode, fun key => (hsame key).trans ((hentries key).trans ?_)⟩
      rw [hf, hgone]
    | some fields =>
      obtain ⟨fields', hf', hindexed⟩ := hkeeps ast hparse rid row dto name fields hrow hdto hid hf
      have hold : ∀ key, (key, rid) ∈ c.entries ↔ ∃ f ∈ fields, key ∈ f.keys C row.typeId row.props := by
        intro key
        rw [hentries key, hf]
        exact ⟨fun ⟨_, he, h⟩ => (by cases he; exact h), fun h => ⟨fields, rfl, h⟩⟩
      obtain ⟨props', hnode, hkeys⟩ := exists_purgedNode (c := c.withSchema (some dto')) hnames hcoherent honce hid hf hf'
        (hin dto hdto name fields hf) hindexed hrow (hc.takes hs hrec hdto hid hf) hold
      refine ⟨props', hnode, fun key => (hkeys key).trans ?_⟩
      rw [hf']
      exact ⟨fun h => ⟨fields', rfl, h⟩, fun ⟨_, he, h⟩ => by cases he; exact h⟩

end Purged

/-! ## Runs -/

/-- A field in the place of another one. -/
theorem NamesIn.replaced {names : Set String} {dto : SchemaDto} (h : (dtoToAst dto).NamesIn names) {typeName fieldName : String}
    (p : FieldPlace dto kind typeName fieldName) {field' : FieldDef} (hname : kind = .node → field'.name ∈ names) :
    (p.replaced field').NamesIn names := by
  intro name fields hf f hmem
  rcases p.fieldsNamed_replaced _ hf with ⟨⟨rfl, rfl⟩, rfl⟩ | ⟨-, hf⟩
  · rcases List.mem_or_eq_of_mem_set hmem with hold | rfl
    · exact h name p.fields p.fieldsNamed f hold
    · exact hname rfl
  · exact h name fields hf f hmem

/-- What a run keeps: records conform, the index is exact, and no field has a name outside. -/
structure Indexed (C : Codecs F) (names : Set String) (c : Contents F) : Prop where
  conforms : c.Conforms
  names : ∀ dto, c.schema = some dto → (dtoToAst dto).NamesIn names
  exact : c.EntriesExact C

theorem indexed_empty (names : Set String) : (Contents.empty : Contents F).Indexed C names :=
  ⟨conforms_empty, fun _ hs => (by cases hs), entriesExact_empty none⟩

end Contents

/-- New records are checked, no type that has records comes back, and no index moves. -/
def Rules.indexing (names : Set String) : Rules F :=
  ⟨True, names, fun c ast => c.Evolves ast ∧ c.KeepsIndexes ast ∧ ast.NamesIn names⟩

namespace Contents

variable {names : Set String}

/-- Which names the fields have behind a step. -/
theorem Step.namesIn (h : Step C X (Rules.indexing names) c c')
    (hin : ∀ dto, c.schema = some dto → (dtoToAst dto).NamesIn names) {dto' : SchemaDto} (hs' : c'.schema = some dto') :
    (dtoToAst dto').NamesIn names := by
  cases h with
  | edit h =>
    obtain ⟨dto, hdto, he⟩ := h.definitions hs'
    rw [he]
    exact hin dto hdto
  | renamed hname h =>
    obtain ⟨dto, hdto, p, ⟨-, rfl⟩ | ⟨-, dto₁, hsaves, rfl⟩⟩ := h
    · exact hin dto' hs'
    · cases hs'
      rw [hsaves.ast_eq]
      exact NamesIn.replaced (hin dto hdto) p fun _ => hname
  | converted h =>
    obtain rfl | ⟨target, -, dto, hdto, p, -, dto₁, hsaves, rfl⟩ := h.changed
    · exact hin dto' hs'
    · cases hs'
      rw [hsaves.ast_eq]
      refine NamesIn.replaced (hin dto hdto) p fun hnode => ?_
      subst hnode
      exact hin dto hdto _ _ p.fieldsNamed p.field (List.mem_of_getElem? p.there)
  | applied happlies h =>
    obtain ⟨ast, dto₁, ⟨hparse, -⟩, hsaves, rfl⟩ := h
    have hschema : ((c.withSchema (some dto₁)).purged C (c.purges ast)).schema = some dto₁ := schema_purgeNodes _
    cases hschema.symm.trans hs'
    rw [hsaves.ast_eq]
    exact (happlies ast hparse).2.2
  | rebuilt h =>
    obtain ⟨f, g, h⟩ := h
    exact hin dto' (h.schema.symm.trans hs')

/-- **One step.** -/
theorem Step.indexed (hnames : PathsApart names) (h : Step C X (Rules.indexing names) c c') (hs : c.Sound)
    (hc : c.Indexed C names) : c'.Indexed C names := by
  refine ⟨h.conforms trivial (fun _ _ happlies => happlies.1) hs hc.conforms, fun dto' hs' => h.namesIn hc.names hs', ?_⟩
  cases h with
  | edit h => exact h.entriesExact hs hc.exact
  | renamed hname h => exact Renamed.entriesExact hnames h hs hc.conforms hc.names hc.exact
  | converted h => exact Converted.entriesExact hnames h hs hc.conforms hc.names hc.exact
  | applied happlies h =>
    exact SchemaApplied.entriesExact hnames h (fun ast hast => (happlies ast hast).1) (fun ast hast => (happlies ast hast).2.1)
      hs hc.conforms hc.names hc.exact
  | rebuilt h => exact Rebuilt.entriesExact h hs

/-- **A whole run.** -/
theorem Steps.indexed (hnames : PathsApart names) (h : Steps C X (Rules.indexing names) c c') (hs : c.Sound)
    (hc : c.Indexed C names) : c'.Indexed C names :=
  (h.induction hs hc fun hs hstep hc => hstep.indexed hnames hs hc).2

end Contents

end ChiffonDB

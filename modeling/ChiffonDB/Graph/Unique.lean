import ChiffonDB.Graph.IndexExact

/-!
# Unique fields

* `Contents.Unique` — no two live nodes of a type have the same value of a field that is `@unique`.
* `Edit.unique` — single changes keep it so: **the index tells `check_unique` of all nodes that matter**.
* `Renamed.unique`, `Converted.unique`, `SchemaApplied.unique`, `Rebuilt.unique` — so do changes of the schema that make no
  field unique.
* `Rules.unique`, `Contents.Steps.unique` — whole runs.
-/

set_option autoImplicit false

set_option linter.unusedSectionVars false

namespace ChiffonDB

open PropertyIndex

variable {F : Type} [F64 F] [F64Text F] {C : Codecs F} {X : Pest} {checked : Prop} {c c' : Contents F}
  {kind : RecordKind} {rid : RecordId} {typeId : UInt16} {props : Props F} {key : IndexKey}

/-! ## Keys -/

/-- Two values that share a key for one field share one for every field: the bytes have one hash. -/
theorem exists_mem_keysAt {name : String} {v w : Option (Value F)} (hv : key ∈ keysAt C true typeId name v)
    (hw : key ∈ keysAt C true typeId name w) (name' : String) :
    ∃ key', key' ∈ keysAt C true typeId name' v ∧ key' ∈ keysAt C true typeId name' w := by
  obtain ⟨a, ha, hkey⟩ := Option.bind_eq_some_iff.1 (mem_keysAt.1 hv).2
  obtain ⟨b, hb, hkey'⟩ := Option.bind_eq_some_iff.1 (mem_keysAt.1 hw).2
  obtain ⟨bytes, hbytes, rfl⟩ := Option.map_eq_some_iff.1 hkey
  obtain ⟨bytes', hbytes', he⟩ := Option.map_eq_some_iff.1 hkey'
  have hhash : fnv1a bytes' = fnv1a bytes := congrArg IndexKey.valueHash he
  refine ⟨.new typeId (utf8 name') bytes, mem_keysAt.2 ⟨rfl, ?_⟩, mem_keysAt.2 ⟨rfl, ?_⟩⟩
  · exact Option.bind_eq_some_iff.2 ⟨a, ha, Option.map_eq_some_iff.2 ⟨bytes, hbytes, rfl⟩⟩
  · refine Option.bind_eq_some_iff.2 ⟨b, hb, Option.map_eq_some_iff.2 ⟨bytes', hbytes', ?_⟩⟩
    unfold IndexKey.new
    rw [hhash]

namespace Contents

/-! ## One field -/

/-- Rows whose values the rows had before, maybe under another name. -/
theorem FieldUnique.of_rows {name name' : String} (h : c.FieldUnique C typeId name)
    (hrows : ∀ rid row' v, c'.nodes rid = some row' → row'.typeId = typeId → row'.props[name']? = some v →
      ∃ row, c.nodes rid = some row ∧ row.typeId = typeId ∧ row.props[name]? = some v) : c'.FieldUnique C typeId name' := by
  refine Apart.of_rows h fun i j r' s' hr hs hshare => ?_
  obtain ⟨⟨key, ⟨hrtype, hrkey⟩, hstype, hskey⟩, v, w, hv, hw, hsame⟩ := hshare
  obtain ⟨r, hrold, hrtype', hvold⟩ := hrows i r' v hr hrtype hv
  obtain ⟨s, hsold, hstype', hwold⟩ := hrows j s' w hs hstype hw
  rw [hv] at hrkey
  rw [hw] at hskey
  obtain ⟨key', hkey, hkey'⟩ := exists_mem_keysAt hrkey hskey name
  refine ⟨r, s, hrold, hsold, ⟨key', ⟨hrtype', ?_⟩, hstype', ?_⟩, v, w, hvold, hwold, hsame⟩
  · rw [hvold]
    exact hkey
  · rw [hwold]
    exact hkey'

/-- The index has all nodes of a type under their values of a unique field. -/
theorem EntriesExact.fieldIndexed (hx : c.EntriesExact C) {name : String} {fields : List FieldDef}
    (hf : c.fieldsOf .node typeId = some (name, fields)) {f : FieldDef} (hmem : f ∈ fields) (hunique : f.unique = true) :
    c.FieldIndexed C typeId f.name := by
  rintro rid row key hrow ⟨rfl, hkey⟩
  refine (hx.has_iff hrow).2 (mem_keys_iff.2 ⟨name, fields, hf, f, hmem, ?_⟩)
  unfold FieldDef.keys
  rw [hunique, Bool.or_true]
  exact hkey

/-- **What `check_unique` finds out about a field.** -/
theorem Admits.noOther {exclude : Option RecordId} (h : c.Admits C typeId props exclude) {name : String}
    {fields : List FieldDef} (hf : c.fieldsOf .node typeId = some (name, fields)) {f : FieldDef} (hmem : f ∈ fields)
    (hunique : f.unique = true) {v : Value F} (hv : props[f.name]? = some v)
    (hexclude : ∀ other, some other = exclude → other = rid) : c.NoOther C typeId f.name rid v := by
  intro key hkey other row hentry hrow heq
  have hpath : (PropertyPath.flat f.name, true) ∈ c.indexedPaths typeId := by
    unfold Contents.indexedPaths
    rw [hf]
    exact List.mem_map.2 ⟨f, List.mem_filter.2 ⟨hmem, by simp [hunique]⟩, by rw [hunique]⟩
  obtain ⟨a, ha, hkeyOf⟩ := Option.bind_eq_some_iff.1 (mem_keysAt.1 hkey).2
  obtain rfl : v = a := Option.some.inj (Option.filter_eq_some_iff.1 ha).1
  refine hexclude other (h _ hpath v ?_ key hkeyOf other row hentry hrow heq)
  show (props[f.name]?).filter isIndexableValue = some v
  rw [hv]
  exact ha

/-! ## All fields -/

/-- No two live nodes of a type have the same value of a field that is `@unique`. -/
def Unique (C : Codecs F) (c : Contents F) : Prop :=
  ∀ typeId name fields, c.fieldsOf .node typeId = some (name, fields) → ∀ f ∈ fields, f.unique = true →
    c.FieldUnique C typeId f.name

theorem unique_empty (schema : Option SchemaDto) : ((Contents.empty : Contents F).withSchema schema).Unique C :=
  fun _ _ _ _ _ _ _ _ _ _ _ hr => (by cases hr)

/-- A row comes, or takes the place of another one, once it has been checked. -/
theorem Unique.setNode (hu : c.Unique C) (hx : c.EntriesExact C) (ht : c.SameTypes c') {row : NodeRow F}
    (hnodes : c'.nodes = Function.update c.nodes rid (some row)) {exclude : Option RecordId}
    (hadmits : c.Admits C row.typeId row.props exclude) (hexclude : ∀ other, some other = exclude → other = rid) :
    c'.Unique C := by
  intro typeId name fields hf f hmem hunique
  rw [ht.fieldsOf] at hf
  show Apart _ c'.nodes
  rw [hnodes]
  refine FieldUnique.checked (hu typeId name fields hf f hmem hunique) (hx.fieldIndexed hf hmem hunique) fun v htype hv => ?_
  subst htype
  exact hadmits.noOther hf hmem hunique hv hexclude

/-- The same rows, or fewer, but for their labels. -/
theorem Unique.congr (hu : c.Unique C) (ht : c.SameTypes c')
    (hn : ∀ rid row', c'.nodes rid = some row' → ∃ row, c.nodes rid = some row ∧ row.typeId = row'.typeId ∧ row.props = row'.props) :
    c'.Unique C := by
  intro typeId name fields hf f hmem hunique
  rw [ht.fieldsOf] at hf
  refine FieldUnique.of_rows (hu typeId name fields hf f hmem hunique) fun rid row' v hrow' htype hv => ?_
  obtain ⟨row, hrow, he, hp⟩ := hn rid row' hrow'
  exact ⟨row, hrow, he.trans htype, hp ▸ hv⟩

/-- **One edit.** -/
theorem Edit.unique (h : Edit C checked c c') (hs : c.Sound) (hx : c.EntriesExact C) (hu : c.Unique C) : c'.Unique C := by
  have htypes := h.sameTypes hs
  cases h with
  | insertNode hfresh hadmits haccepts => exact hu.setNode hx htypes rfl hadmits fun _ he => (by cases he)
  | updateNode hrow hvalid hadmits => exact hu.setNode hx htypes rfl hadmits fun _ he => Option.some.inj he
  | @deleteNode rid row hrow =>
    refine hu.congr htypes fun x row' hrow' => ?_
    rcases update_eq_some hrow' with ⟨-, he⟩ | ⟨-, hold⟩
    · cases he
    · exact ⟨row', hold, rfl, rfl⟩
  | @relabel rid row labels hrow hnd =>
    refine hu.congr htypes fun x row' hrow' => ?_
    rcases update_eq_some hrow' with ⟨rfl, he⟩ | ⟨-, hold⟩
    · cases he
      exact ⟨row, hrow, rfl, rfl⟩
    · exact ⟨row', hold, rfl, rfl⟩
  | _ => exact hu.congr htypes fun _ row' hrow' => ⟨row', hrow', rfl, rfl⟩

theorem Edits.unique (h : Edits C checked c c') (hs : c.Sound) (hx : c.EntriesExact C) (hu : c.Unique C) : c'.Unique C :=
  (h.induction hs (P := fun c => c.EntriesExact C ∧ c.Unique C) ⟨hx, hu⟩ fun hs hedit hc =>
    ⟨hedit.entriesExact hs hc.1, hedit.unique hs hc.1 hc.2⟩).2.2

/-- **A database is rebuilt.** -/
theorem Rebuilt.unique (h : Rebuilt C c c') (hs : c.Sound) : c'.Unique C := by
  obtain ⟨f, g, h⟩ := h
  exact h.edits.unique hs.onlySchema (entriesExact_empty _) (unique_empty _)

/-! ## All records at once -/

/-- **Another schema is saved**: what matters are the fields of the types that live nodes have. -/
theorem Unique.saved (hs : c.Sound) (hc : c.Conforms) {ast : SchemaAst} {check : Bool} {dto' : SchemaDto}
    (hsaves : c.Saves ast check dto') (hs' : c'.schema = some dto')
    (hback : ∀ rid row', c'.nodes rid = some row' → ∃ row, c.nodes rid = some row ∧ row.typeId = row'.typeId)
    (hfields : ∀ dto name typeId fields' f', c.schema = some dto → dto.registry.typeIdOf .node name = some typeId →
      ast.fieldsNamed .node name = some fields' → f' ∈ fields' → f'.unique = true →
        c'.FieldUnique C typeId f'.name) : c'.Unique C := by
  obtain ⟨hsound', hkeeps⟩ := hsaves.sound hs.schema
  intro typeId found fields' hf f' hmem hunique i j r s hr hsj hshare
  -- the type of the two rows has a name
  obtain ⟨row, hrow, htype⟩ := hback i r hr
  obtain ⟨key, ⟨hrtype, -⟩, -⟩ := hshare.1
  obtain ⟨dto, name, hdto, hid⟩ := (hc.records .node i row.typeId row.props (congrArg (Option.map _) hrow)).named
  rw [htype, hrtype] at hid
  rw [fieldsOf_eq hs' hsound'.coherent (hkeeps dto hdto .node name typeId hid), hsaves.ast_eq] at hf
  obtain ⟨_, hfields', he⟩ := Option.map_eq_some_iff.1 hf
  cases he
  exact hfields dto found typeId _ f' hdto hid hfields' hmem hunique i j r s hr hsj hshare

/-- A field of a type that has a name. -/
theorem Unique.fieldNamed (hu : c.Unique C) (hs : c.Sound) {dto : SchemaDto} (hdto : c.schema = some dto) {name : String}
    (hid : dto.registry.typeIdOf .node name = some typeId) {fields : List FieldDef}
    (hf : (dtoToAst dto).fieldsNamed .node name = some fields) {f : FieldDef} (hmem : f ∈ fields) (hunique : f.unique = true) :
    c.FieldUnique C typeId f.name := by
  refine hu typeId name fields ?_ f hmem hunique
  rw [fieldsOf_eq hdto (hs.schema dto hdto).coherent hid, hf]
  rfl

theorem typeId_of_rewrite {plan : Plan F} {row' : NodeRow F} (hrow' : (c.rewrite plan).nodes rid = some row') :
    ∃ row, c.nodes rid = some row ∧ row.typeId = row'.typeId ∧
      row'.props = plan.props .node rid row.typeId row.props := by
  obtain ⟨row, hrow, rfl⟩ := Option.map_eq_some_iff.1 hrow'
  exact ⟨row, hrow, rfl, rfl⟩

/-- **One field is replaced**: the others have the values that they had. -/
theorem Unique.replaced (hu : c.Unique C) (hs : c.Sound) (hc : c.Conforms) {dto dto' : SchemaDto} (hdto : c.schema = some dto)
    {typeName fieldName : String} (p : FieldPlace dto kind typeName fieldName) {field' : FieldDef}
    (hsaves : c.Saves (p.replaced field') false dto') {plan : Plan F}
    (hother : ∀ k rid ty props, ¬ (k = kind ∧ ty = p.typeId) → plan k rid ty props = none)
    (hsame : kind = .node → ∀ rid row, c.nodes rid = some row → row.typeId = p.typeId → ∀ f ∈ p.fields,
      f.name ≠ p.field.name → (plan.props .node rid row.typeId row.props)[f.name]? = row.props[f.name]?)
    (hfield : kind = .node → field'.unique = true →
      ((c.withSchema (some dto')).rewrite plan).FieldUnique C p.typeId field'.name) :
    ((c.withSchema (some dto')).rewrite plan).Unique C := by
  have hcoherent := (hs.schema dto hdto).coherent
  refine Unique.saved hs hc hsaves rfl (fun rid row' hrow' => ?_) fun dto₀ name typeId fields' f' hdto₀ hid hf' hmem hunique => ?_
  · obtain ⟨row, hrow, htype, -⟩ := typeId_of_rewrite hrow'
    exact ⟨row, hrow, htype⟩
  cases hdto.symm.trans hdto₀
  rcases p.fieldsNamed_replaced _ hf' with ⟨⟨rfl, rfl⟩, rfl⟩ | ⟨hne, hf⟩
  · obtain rfl : typeId = p.typeId := Option.some.inj (hid.symm.trans p.registered)
    rcases (mem_set_iff_of_nodup p.there (p.nodup_fields (hc.once dto hdto))).1 hmem with rfl | ⟨hold, hne⟩
    · exact hfield rfl hunique
    · refine FieldUnique.of_rows (hu.fieldNamed hs hdto hid p.fieldsNamed hold hunique) fun rid row' v hrow' htype hv => ?_
      obtain ⟨row, hrow, he, hprops⟩ := typeId_of_rewrite hrow'
      rw [hprops, hsame rfl rid row hrow (he.trans htype) f' hold hne] at hv
      exact ⟨row, hrow, he.trans htype, hv⟩
  · refine FieldUnique.of_rows (hu.fieldNamed hs hdto hid hf hmem hunique) fun rid row' v hrow' htype hv => ?_
    obtain ⟨row, hrow, he, hprops⟩ := typeId_of_rewrite hrow'
    rw [hprops, he, htype, plan_props_other (hother _ _ _ _ (p.typeId_ne hcoherent hid hne))] at hv
    exact ⟨row, hrow, he.trans htype, hv⟩

/-- **A field is renamed**: its values are unique under the new name. -/
theorem Renamed.unique {typeName oldName newName : String} (h : Graph.Renamed C kind typeName oldName newName c c')
    (hs : c.Sound) (hc : c.Conforms) (hu : c.Unique C) : c'.Unique C := by
  obtain ⟨dto, hdto, p, ⟨-, rfl⟩ | ⟨⟨-, hnew⟩, dto', hsaves, rfl⟩⟩ := h
  · exact hu
  have hget : kind = .node → ∀ rid row, c.nodes rid = some row → row.typeId = p.typeId → ∀ key,
      ((renamePlan C kind p.typeId oldName newName ((p.field.indexed || p.field.unique) && kind = .node)).props .node rid
        row.typeId row.props)[key]? =
      if key = newName then row.props[oldName]? else if key = oldName then none else row.props[key]? := by
    intro hkind rid row hrow htype key
    subst hkind
    have hrec : c.record .node rid = some (row.typeId, row.props) := congrArg (Option.map _) hrow
    have htakes := hc.takes hs hrec hdto (htype ▸ p.registered) p.fieldsNamed
    rw [htype, renamePlan_props]
    refine getElem?_renamedProps oldName newName (fun _ hm => ?_) key
    obtain ⟨f, hf, he⟩ := htakes.declared newName hm
    exact hnew f hf he
  refine hu.replaced hs hc hdto p hsaves (fun k rid ty props hother => if_neg hother) (fun hkind rid row hrow htype f hf hne => ?_)
    fun hkind hunique => ?_
  · rw [hget hkind rid row hrow htype, if_neg (hnew f hf), if_neg (by rw [← p.named]; exact hne)]
  · subst hkind
    refine FieldUnique.of_rows (hu.fieldNamed hs hdto p.registered p.fieldsNamed (List.mem_of_getElem? p.there) hunique)
      fun rid row' v hrow' htype hv => ?_
    obtain ⟨row, hrow, he, hprops⟩ := typeId_of_rewrite hrow'
    dsimp only at hv
    rw [hprops, hget rfl rid row hrow (he.trans htype), if_pos rfl] at hv
    exact ⟨row, hrow, he.trans htype, by rw [p.named]; exact hv⟩

/-- **A field gets another type**: the values that are converted have been checked. -/
theorem Converted.unique {typeName fieldName newType : String} {onFailure : OnConversionFailure} {change : FieldTypeChange}
    (h : Graph.Converted C kind typeName fieldName newType onFailure c c' change) (hs : c.Sound) (hc : c.Conforms)
    (hx : c.EntriesExact C) (hu : c.Unique C) : c'.Unique C := by
  obtain rfl | ⟨target, -, dto, hdto, p, hkept, dto', hsaves, rfl⟩ := h.changed
  · exact hu
  refine hu.replaced hs hc hdto p hsaves (fun k rid ty props hother => if_neg hother) (fun hkind rid row hrow htype f hf hne => ?_)
    fun hkind hunique => ?_
  · subst hkind
    rw [htype, convertPlan_props]
    exact getElem?_converted _ _ _ hne
  · subst hkind
    have hmem := List.mem_of_getElem? p.there
    have hf : c.fieldsOf .node p.typeId = some (typeName, p.fields) := by
      rw [fieldsOf_eq hdto (hs.schema dto hdto).coherent p.registered, p.fieldsNamed]
      rfl
    exact (hkept rfl hunique (hx.fieldIndexed hf hmem hunique) (hu _ _ _ hf p.field hmem hunique)).2

/-- A schema that makes no field unique that is there already. -/
def NoNewUnique (c : Contents F) (ast : SchemaAst) : Prop :=
  ∀ dto name fields fields', c.schema = some dto → (dtoToAst dto).fieldsNamed .node name = some fields →
    ast.fieldsNamed .node name = some fields' → ∀ f ∈ fields, ∀ f' ∈ fields', f.name = f'.name → f'.unique = true →
      f.unique = true

/-- **A schema is applied**: what is left of the records is what they were. -/
theorem SchemaApplied.unique {source : String} (h : Graph.SchemaApplied C X source c c')
    (hevolves : ∀ ast, parse X source = .ok ast → c.Evolves ast)
    (hkeeps : ∀ ast, parse X source = .ok ast → c.NoNewUnique ast) (hs : c.Sound) (hc : c.Conforms) (hu : c.Unique C) :
    c'.Unique C := by
  obtain ⟨ast, dto', ⟨hparse, -⟩, hsaves, rfl⟩ := h
  have hschema : ((c.withSchema (some dto')).purged C (c.purges ast)).schema = some dto' := schema_purgeNodes _
  have hback : ∀ rid row', ((c.withSchema (some dto')).purged C (c.purges ast)).nodes rid = some row' →
      ∃ row, c.nodes rid = some row ∧ row.typeId = row'.typeId ∧ PartOf row'.props row.props := by
    intro rid row' hrow'
    obtain ⟨props, hold, hpart, -⟩ := exists_of_purged (C := C)
      (show ((c.withSchema (some dto')).purged C (c.purges ast)).record .node rid = some (row'.typeId, row'.props) from
        congrArg (Option.map _) hrow')
    obtain ⟨row, hrow, he⟩ := Option.map_eq_some_iff.1 hold
    obtain ⟨htype, hprops⟩ := Prod.mk.inj he
    exact ⟨row, hrow, htype, hprops ▸ hpart⟩
  refine Unique.saved hs hc hsaves hschema (fun rid row' hrow' => ?_) fun dto name typeId fields' f' hdto hid hf' hmem hunique => ?_
  · obtain ⟨row, hrow, htype, -⟩ := hback rid row' hrow'
    exact ⟨row, hrow, htype⟩
  · by_cases hold : ∃ fields, (dtoToAst dto).fieldsNamed .node name = some fields ∧ ∃ f ∈ fields, f.name = f'.name
    · obtain ⟨fields, hf, f, hfmem, hname⟩ := hold
      have hfunique := hkeeps ast hparse dto name fields fields' hdto hf hf' f hfmem f' hmem hname hunique
      refine FieldUnique.of_rows (hu.fieldNamed hs hdto hid hf hfmem hfunique) fun rid row' v hrow' htype hv => ?_
      obtain ⟨row, hrow, he, hpart⟩ := hback rid row' hrow'
      exact ⟨row, hrow, he.trans htype, hname ▸ hpart _ v hv⟩
    · -- no record has a value of a field that comes
      intro i j r s hr hsj hshare
      obtain ⟨⟨key, ⟨hrtype, -⟩, -⟩, v, w, hv, -⟩ := hshare
      obtain ⟨row, hrow, he, hpart⟩ := hback i r hr
      have hrec : c.record .node i = some (row.typeId, row.props) := congrArg (Option.map _) hrow
      rw [← hrtype, ← he] at hid
      obtain ⟨fields, hf⟩ := Option.isSome_iff_exists.1
        ((hevolves ast hparse).kept .node i row.typeId row.props dto name hrec hdto hid (Option.isSome_iff_exists.2 ⟨_, hf'⟩))
      obtain ⟨f, hfmem, hname⟩ := (hc.takes hs hrec hdto hid hf).declared f'.name (mem_props_iff.2 ⟨v, hpart _ v hv⟩)
      exact absurd ⟨fields, hf, f, hfmem, hname⟩ hold

end Contents

/-! ## Runs -/

/-- As for the index, and no field becomes unique. -/
def Rules.unique (names : Set String) : Rules F :=
  ⟨True, names, fun c ast => (Rules.indexing names).applies c ast ∧ c.NoNewUnique ast⟩

namespace Contents

variable {names : Set String}

theorem Step.indexing (h : Step C X (Rules.unique names) c c') : Step C X (Rules.indexing names) c c' := by
  cases h with
  | edit h => exact .edit h
  | renamed hname h => exact .renamed hname h
  | converted h => exact .converted h
  | applied happlies h => exact .applied (fun ast hast => (happlies ast hast).1) h
  | rebuilt h => exact .rebuilt h

/-- **One step.** -/
theorem Step.unique (h : Step C X (Rules.unique names) c c') (hs : c.Sound) (hc : c.Indexed C names) (hu : c.Unique C) :
    c'.Unique C := by
  cases h with
  | edit h => exact h.unique hs hc.exact hu
  | renamed hname h => exact Renamed.unique h hs hc.conforms hu
  | converted h => exact Converted.unique h hs hc.conforms hc.exact hu
  | applied happlies h =>
    exact SchemaApplied.unique h (fun ast hast => (happlies ast hast).1.1) (fun ast hast => (happlies ast hast).2) hs hc.conforms hu
  | rebuilt h => exact Rebuilt.unique h hs

/-- **A whole run.** -/
theorem Steps.unique (hnames : PathsApart names) (h : Steps C X (Rules.unique names) c c') (hs : c.Sound)
    (hc : c.Indexed C names) (hu : c.Unique C) : c'.Indexed C names ∧ c'.Unique C :=
  (h.induction hs (P := fun c => c.Indexed C names ∧ c.Unique C) ⟨hc, hu⟩ fun hs hstep hc =>
    ⟨hstep.indexing.indexed hnames hs hc.1, hstep.unique hs hc.1 hc.2⟩).2

end Contents

end ChiffonDB

import ChiffonDB.Graph.SchemaEffects

/-!
# Sound schemas

What holds of every schema that a database stores, and what a later one keeps of it.

* `SchemaDto.Sound` — no id has been given out twice, and every type that is declared has one.
* `SchemaDto.Sound.resolve`, `Contents.Saves.sound` — **a registration and a save keep every id**.
* `SchemaDto.Sound.fieldsOf_resolve` — a registration changes nothing about any type.
-/

set_option autoImplicit false

set_option linter.unusedSectionVars false

namespace ChiffonDB

open AssocList

/-- The ids that the names of a kind of records are among. -/
def RecordKind.typeKind : RecordKind → DynamicTypeKind
  | .node => .node
  | .edge => .edge

namespace SchemaDto

variable {dto dto' dto'' : SchemaDto} {kind : RecordKind} {k : DynamicTypeKind} {name : String} {id : UInt16}

theorem typeIdOf_eq (dto : SchemaDto) (k : DynamicTypeKind) (name : String) :
    dto.typeIdOf k name = lastOf (dto.typeIds k).ids name := by
  cases k <;> rfl

theorem registry_typeIdOf (dto : SchemaDto) (kind : RecordKind) (name : String) :
    dto.registry.typeIdOf kind name = lastOf (dto.typeIds kind.typeKind).ids name := by
  cases kind <;> rfl

theorem registry_typeNameOf (dto : SchemaDto) (kind : RecordKind) (id : UInt16) :
    dto.registry.typeNameOf kind id = lastOf ((dto.typeIds kind.typeKind).ids.map Prod.swap) id := by
  cases kind <;> rfl

/-- No id has been given out twice, and every type that is declared has one. -/
structure Sound (dto : SchemaDto) : Prop where
  issued : ∀ k, ∃ given, (dto.typeIds k).Sound given
  registered : ∀ k, ∀ name ∈ (dtoToAst dto).typeNames k, (lastOf (dto.typeIds k).ids name).isSome

/-- No name has lost its id. -/
def KeepsIds (dto dto' : SchemaDto) : Prop := ∀ kind name id,
  dto.registry.typeIdOf kind name = some id → dto'.registry.typeIdOf kind name = some id

theorem KeepsIds.refl (dto : SchemaDto) : dto.KeepsIds dto := fun _ _ _ h => h

theorem KeepsIds.trans (h : dto.KeepsIds dto') (h' : dto'.KeepsIds dto'') : dto.KeepsIds dto'' :=
  fun kind name id hid => h' kind name id (h kind name id hid)

theorem Sound.coherent (h : dto.Sound) : dto.Coherent := by
  apply coherent_of_sound
  intro k
  exact h.issued k

theorem KeepsIds.typeNameOf (h : dto.KeepsIds dto') (h' : dto'.Sound) (hid : dto.registry.typeIdOf kind name = some id) :
    dto'.registry.typeNameOf kind id = some name := h'.coherent kind name id (h kind name id hid)

/-! ## Registrations -/

/-- A registration finds its name, or gives it the next id. -/
theorem resolve_cases (h : dto.resolve k name = .ok (id, dto')) :
    (dto' = dto ∧ dto.typeIdOf k name = some id) ∨
      (dto.typeIds k).ids.find? (fun p => p.1 = name) = none ∧ id = max (dto.typeIds k).next 1 ∧
        id.toNat + 1 < UInt16.size ∧ dto' = dto.setTypeIds k ⟨(dto.typeIds k).ids ++ [(name, id)], id + 1⟩ := by
  unfold resolve at h
  split at h
  · rename_i hid
    cases h
    exact .inl ⟨rfl, hid⟩
  · rename_i hnone
    split at h
    · cases h
    · rename_i found registered hreg
      cases registered with
      | some dto₁ =>
        cases h
        exact .inr (register_definitions hreg)
      | none =>
        -- what has no id is not in the table
        have hnew : (dto.typeIds k).ids.find? (fun p => p.1 = name) = none := by
          rw [typeIdOf_eq] at hnone
          simpa using lastOf_eq_none.1 hnone
        unfold register at hreg
        dsimp only at hreg
        rw [hnew] at hreg
        dsimp only at hreg
        split at hreg <;> simp at hreg

theorem resolve_typeIdOf (h : dto.resolve k name = .ok (id, dto')) : dto'.typeIdOf k name = some id := by
  obtain ⟨rfl, hid⟩ | ⟨-, -, -, rfl⟩ := resolve_cases h
  · exact hid
  · rw [typeIdOf_eq, typeIds_setTypeIds_self, lastOf_concat, if_pos rfl]

/-- **A registration keeps every id.** -/
theorem Sound.resolve (h : dto.Sound) (hr : dto.resolve k name = .ok (id, dto')) : dto'.Sound ∧ dto.KeepsIds dto' := by
  obtain ⟨rfl, -⟩ | ⟨hnew, rfl, hnext, rfl⟩ := resolve_cases hr
  · exact ⟨h, KeepsIds.refl _⟩
  · obtain ⟨given, hsound⟩ := h.issued k
    obtain ⟨hsound', hstable⟩ := hsound.register hnew hnext
    have hkeeps : ∀ k' name' id', lastOf (dto.typeIds k').ids name' = some id' →
        lastOf ((dto.setTypeIds k ⟨(dto.typeIds k).ids ++ [(name, max (dto.typeIds k).next 1)],
          max (dto.typeIds k).next 1 + 1⟩).typeIds k').ids name' = some id' := by
      intro k' name' id' hid
      by_cases hk : k' = k
      · subst hk
        rw [typeIds_setTypeIds_self]
        exact hstable name' id' hid
      · rw [typeIds_setTypeIds_ne dto hk]
        exact hid
    refine ⟨⟨fun k' => ?_, fun k' name' hname => ?_⟩, fun kind name' id' hid => ?_⟩
    · by_cases hk : k' = k
      · subst hk
        rw [typeIds_setTypeIds_self]
        exact ⟨_, hsound'⟩
      · rw [typeIds_setTypeIds_ne dto hk]
        exact h.issued k'
    · unfold dtoToAst at hname
      rw [definitions_setTypeIds] at hname
      obtain ⟨id', hid'⟩ := Option.isSome_iff_exists.1 (h.registered k' name' hname)
      rw [hkeeps k' name' id' hid']
      rfl
    · rw [registry_typeIdOf] at hid ⊢
      exact hkeeps _ name' id' hid

/-! ## What a registration leaves alone -/

theorem fieldsOf_eq_bind (ast : SchemaAst) (registry : SchemaRegistry) (kind : RecordKind) (id : UInt16) :
    Graph.fieldsOf kind ast registry id =
      (registry.typeNameOf kind id).bind fun name => (ast.fieldsNamed kind name).map fun fields => (name, fields) := by
  cases kind with
  | node =>
    dsimp only [Graph.fieldsOf, SchemaRegistry.typeNameOf, SchemaAst.fieldsNamed]
    cases registry.nodeTypeName id with
    | none => rfl
    | some name => cases hdef : ast.findNode name <;> simp [hdef]
  | edge =>
    dsimp only [Graph.fieldsOf, SchemaRegistry.typeNameOf, SchemaAst.fieldsNamed]
    cases registry.edgeTypeName id with
    | none => rfl
    | some name => cases hdef : ast.findEdge name <;> simp [hdef]

/-- A type that is declared is among the names. -/
theorem mem_typeNames_of_fieldsNamed {ast : SchemaAst} {fields : List FieldDef} (h : ast.fieldsNamed kind name = some fields) :
    name ∈ ast.typeNames kind.typeKind := by
  cases kind with
  | node =>
    obtain ⟨n, hn, -⟩ := Option.map_eq_some_iff.1 h
    exact List.mem_map.2 ⟨n, List.mem_of_find?_eq_some hn, by simpa using List.find?_some hn⟩
  | edge =>
    obtain ⟨e, he, -⟩ := Option.map_eq_some_iff.1 h
    exact List.mem_map.2 ⟨e, List.mem_of_find?_eq_some he, by simpa using List.find?_some he⟩

/-- A type that has no id is not declared. -/
theorem Sound.fieldsNamed_eq_none (h : dto.Sound) (hnone : dto.registry.typeIdOf kind name = none) :
    (dtoToAst dto).fieldsNamed kind name = none := by
  cases hf : (dtoToAst dto).fieldsNamed kind name with
  | none => rfl
  | some fields =>
    have hsome := h.registered _ name (mem_typeNames_of_fieldsNamed hf)
    rw [← registry_typeIdOf, hnone] at hsome
    cases hsome

/-- **What is known about a type id is the same behind a registration.** -/
theorem Sound.fieldsOf_resolve (h : dto.Sound) (hr : dto.resolve k name = .ok (id, dto')) (kind : RecordKind) (typeId : UInt16) :
    Graph.fieldsOf kind (dtoToAst dto') dto'.registry typeId = Graph.fieldsOf kind (dtoToAst dto) dto.registry typeId := by
  obtain ⟨rfl, -⟩ | ⟨hnew, rfl, -, rfl⟩ := resolve_cases hr
  · rfl
  · rw [fieldsOf_eq_bind, fieldsOf_eq_bind]
    have hast : dtoToAst (dto.setTypeIds k ⟨(dto.typeIds k).ids ++ [(name, max (dto.typeIds k).next 1)],
        max (dto.typeIds k).next 1 + 1⟩) = dtoToAst dto := congrArg SchemaAst.mk (definitions_setTypeIds ..)
    rw [hast, registry_typeNameOf, registry_typeNameOf]
    by_cases hk : kind.typeKind = k
    · subst hk
      rw [typeIds_setTypeIds_self, List.map_append, List.map_singleton, lastOf_concat]
      obtain ⟨given, hsound⟩ := h.issued kind.typeKind
      split
      · rename_i hid
        -- the new id had no name, and its name no definition
        have hold : lastOf ((dto.typeIds kind.typeKind).ids.map Prod.swap) typeId = none := by
          rw [lastOf_eq_none]
          intro p hp
          obtain ⟨q, hq, rfl⟩ := List.mem_map.1 hp
          have hlt := (hsound.issued.range q (hsound.known q hq)).2
          rintro he
          have hq2 : q.2 = max (dto.typeIds kind.typeKind).next 1 := he.trans hid.symm
          rw [hq2] at hlt
          exact Nat.lt_irrefl _ hlt
        have hundeclared : (dtoToAst dto).fieldsNamed kind name = none := by
          apply h.fieldsNamed_eq_none
          rw [registry_typeIdOf, lastOf_eq_none]
          simpa using hnew
        rw [hold, Option.bind_some, Option.bind_none]
        show ((dtoToAst dto).fieldsNamed kind name).map _ = none
        rw [hundeclared]
        rfl
      · rfl
    · rw [typeIds_setTypeIds_ne dto hk]

/-- The id of a type that is declared. -/
theorem Sound.typeIdOf_resolve (h : dto.Sound) (hr : dto.resolve k name = .ok (id, dto')) (kind : RecordKind) (declared : String)
    (hd : declared ∈ (dtoToAst dto).typeNames kind.typeKind) :
    dto'.registry.typeIdOf kind declared = dto.registry.typeIdOf kind declared := by
  obtain ⟨id', hid'⟩ := Option.isSome_iff_exists.1 (h.registered _ declared hd)
  rw [← registry_typeIdOf] at hid'
  rw [hid']
  exact (h.resolve hr).2 kind declared id' hid'

/-- The ids of a first schema, and of one behind another. -/
theorem sound_idsOf {stored : Option SchemaDto} (h : ∀ dto, stored = some dto → dto.Sound) (k : DynamicTypeKind) :
    ∃ given, (idsOf stored k).Sound given := by
  cases stored with
  | none => exact ⟨[], by rw [show max (idsOf none k).next 1 = 1 from rfl]; exact .nil, by simp [idsOf], by simp⟩
  | some dto => exact (h dto rfl).issued k

end SchemaDto

/-! ## On contents -/

namespace Contents

variable {F : Type} [F64 F] [F64Text F] {c c' : Contents F} {ast : SchemaAst} {check : Bool} {dto dto' : SchemaDto}
  {k : DynamicTypeKind} {name : String} {id : UInt16}

/-- What is stored as the schema is sound. -/
def SchemaSound (c : Contents F) : Prop := ∀ dto, c.schema = some dto → dto.Sound

/-- There is still a schema if there was one, and no name has lost its id. -/
def KeepsIds (c c' : Contents F) : Prop := ∀ dto, c.schema = some dto → ∃ dto', c'.schema = some dto' ∧ dto.KeepsIds dto'

theorem KeepsIds.refl (c : Contents F) : c.KeepsIds c := fun dto hs => ⟨dto, hs, .refl dto⟩

theorem KeepsIds.trans {c'' : Contents F} (h : c.KeepsIds c') (h' : c'.KeepsIds c'') : c.KeepsIds c'' := by
  intro dto hs
  obtain ⟨dto', hs', hk⟩ := h dto hs
  obtain ⟨dto'', hs'', hk'⟩ := h' dto' hs'
  exact ⟨dto'', hs'', hk.trans hk'⟩

/-- **A save keeps every id.** -/
theorem Saves.sound (h : c.Saves ast check dto) (hs : c.SchemaSound) :
    dto.Sound ∧ ∀ old, c.schema = some old → old.KeepsIds dto := by
  obtain ⟨-, hsave⟩ := assignTypeIds_eq_some.1 h.assigned
  have hkind : ∀ k, (∃ given, (dto.typeIds k).Sound given) ∧
      (∀ name id, lastOf (idsOf c.schema k).ids name = some id → lastOf (dto.typeIds k).ids name = some id) ∧
      ∀ name ∈ ast.typeNames k, (lastOf (dto.typeIds k).ids name).isSome := by
    intro k
    obtain ⟨given, hsound⟩ := SchemaDto.sound_idsOf hs k
    obtain ⟨hsound', hkeeps, hnew⟩ := hsound.save (hsave k)
    exact ⟨⟨_, hsound'⟩, hkeeps, hnew⟩
  refine ⟨⟨fun k => (hkind k).1, fun k name hname => ?_⟩, fun old hold kind name id hid => ?_⟩
  · rw [h.ast_eq] at hname
    exact (hkind k).2.2 name hname
  · rw [SchemaDto.registry_typeIdOf] at hid ⊢
    apply (hkind _).2.1
    rw [hold]
    exact hid

/-- Every type is the same in both. -/
structure SameTypes (c c' : Contents F) : Prop where
  fieldsOf : ∀ kind id, c'.fieldsOf kind id = c.fieldsOf kind id
  declared : ∀ kind id, c'.declared kind id = c.declared kind id

namespace SameTypes

theorem refl (c : Contents F) : c.SameTypes c := ⟨fun _ _ => rfl, fun _ _ => rfl⟩

theorem of_schema (h : c'.schema = c.schema) : c.SameTypes c' := by
  refine ⟨fun kind id => ?_, fun kind id => ?_⟩
  · unfold Contents.fieldsOf
    rw [h]
  · unfold Contents.declared
    rw [h]

theorem trans {c'' : Contents F} (h : c.SameTypes c') (h' : c'.SameTypes c'') : c.SameTypes c'' :=
  ⟨fun kind id => (h'.fieldsOf kind id).trans (h.fieldsOf kind id),
    fun kind id => (h'.declared kind id).trans (h.declared kind id)⟩

variable (h : c.SameTypes c')
include h

theorem indexedPaths (id : UInt16) : c'.indexedPaths id = c.indexedPaths id := by
  unfold Contents.indexedPaths
  rw [h.fieldsOf]

theorem keys (C : Codecs F) (id : UInt16) (props : Props F) : c'.keys C id props = c.keys C id props := by
  unfold Contents.keys
  rw [h.indexedPaths]

theorem validate (kind : RecordKind) (id : UInt16) (props : Props F) : c'.validate kind id props = c.validate kind id props := by
  unfold Contents.validate
  rw [h.fieldsOf]

theorem visible (kind : RecordKind) (id : UInt16) (props : Props F) : c'.visible kind id props = c.visible kind id props := by
  unfold Contents.visible
  rw [h.declared]

end SameTypes

/-- **A registration changes nothing about any type.** -/
theorem sameTypes_resolve (hs : c.schema = some dto) (h : dto.Sound) (hr : dto.resolve k name = .ok (id, dto')) :
    c.SameTypes (c.withSchema (some dto')) := by
  have hdefs : dtoToAst dto' = dtoToAst dto := congrArg SchemaAst.mk (SchemaDto.resolve_definitions hr)
  refine ⟨fun kind typeId => ?_, fun kind typeId => ?_⟩
  · unfold Contents.fieldsOf
    rw [hs]
    exact h.fieldsOf_resolve hr kind typeId
  · unfold Contents.declared
    rw [hs]
    dsimp only [withSchema, Option.bind_some]
    rw [hdefs]
    congr 1
    cases kind with
    | node =>
      apply List.filterMap_congr
      intro n hn
      have hid := h.typeIdOf_resolve hr .node n.name (List.mem_map_of_mem hn)
      exact congrArg (Option.map _) hid
    | edge =>
      apply List.filterMap_congr
      intro e he
      have hid := h.typeIdOf_resolve hr .edge e.name (List.mem_map_of_mem he)
      exact congrArg (Option.map _) hid

end Contents

end ChiffonDB

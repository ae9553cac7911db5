import ChiffonDB.Graph.FirstSchema
import ChiffonDB.Graph.RewriteEffects

/-!
# Changes of the stored schema

What a save makes of the stored schema, and what the change of one field makes of a schema.

* `Contents.Saves` — a schema is saved: the new one, with the ids of its names.
* `Graph.meets_saveSchemaWith` — **it is stored, or nothing has happened**.
* `SchemaAst.Shallow.setField` — a field that is no deeper leaves the schema no deeper.
-/

set_option autoImplicit false

set_option linter.unusedSectionVars false

namespace ChiffonDB

open Action

variable {F : Type} [F64 F] [F64Text F] {M : Type} [FaithfulBacking M]

/-! ## The depth of a schema -/

/-- The schema can be read back once it is stored. -/
def SchemaAst.Shallow (ast : SchemaAst) : Prop := definitionsJsonDepth ast.definitions < RECURSION_LIMIT

section Depth

variable {α : Type} {depth : α → Nat}

theorem deepest_cons (a : α) (l : List α) : deepest depth (a :: l) = max (depth a) (deepest depth l) := rfl

theorem deepest_set {l : List α} {i : Nat} {a a' : α} (hi : l[i]? = some a) (h : depth a' ≤ depth a) :
    deepest depth (l.set i a') ≤ deepest depth l := by
  induction l generalizing i with
  | nil => simp at hi
  | cons b l ih =>
    cases i with
    | zero =>
      obtain rfl : b = a := by simpa using hi
      rw [List.set_cons_zero, deepest_cons, deepest_cons]
      omega
    | succ i =>
      have hl := ih (i := i) (by simpa using hi)
      rw [List.set_cons_succ, deepest_cons, deepest_cons]
      omega

end Depth

section Fields

variable {kind : RecordKind} {name : String} {fields fields' : List FieldDef} {defs : List Definition}

theorem Definition.jsonDepth_setFields {d : Definition} (hd : d.fieldsOf kind name = some fields)
    (h : fieldsJsonDepth fields' ≤ fieldsJsonDepth fields) : (d.setFields fields').jsonDepth ≤ d.jsonDepth := by
  cases d with
  | node n =>
    simp only [Definition.fieldsOf, Option.ite_none_right_eq_some, Option.some.injEq] at hd
    obtain ⟨-, rfl⟩ := hd
    simp only [Definition.setFields, Definition.jsonDepth]
    omega
  | edge e =>
    simp only [Definition.fieldsOf, Option.ite_none_right_eq_some, Option.some.injEq] at hd
    obtain ⟨-, rfl⟩ := hd
    simp only [Definition.setFields, Definition.jsonDepth]
    omega

theorem deepest_setFirstFields (hf : defs.findSome? (Definition.fieldsOf kind name) = some fields)
    (h : fieldsJsonDepth fields' ≤ fieldsJsonDepth fields) :
    deepest Definition.jsonDepth (setFirstFields kind name fields' defs) ≤ deepest Definition.jsonDepth defs := by
  induction defs with
  | nil => cases hf
  | cons d defs ih =>
    rw [List.findSome?_cons] at hf
    unfold setFirstFields
    cases hd : d.fieldsOf kind name with
    | some found =>
      rw [hd] at hf
      cases hf
      have hle := Definition.jsonDepth_setFields hd h
      rw [if_pos (by rfl), deepest_cons, deepest_cons]
      omega
    | none =>
      rw [hd] at hf
      have hle := ih hf
      rw [if_neg (by simp), deepest_cons, deepest_cons]
      omega

/-- The place of the first element that is found. -/
theorem getElem?_of_findIdx? {α : Type} {p : α → Bool} {l : List α} {i : Nat} {a : α} (hi : l.findIdx? p = some i)
    (hf : l.find? p = some a) : l[i]? = some a := by
  induction l generalizing i with
  | nil => cases hf
  | cons b l ih =>
    by_cases hb : p b
    · rw [List.findIdx?_cons, if_pos hb] at hi
      rw [List.find?_cons_of_pos hb] at hf
      cases hi
      exact hf
    · rw [List.findIdx?_cons, if_neg hb] at hi
      rw [List.find?_cons_of_neg hb] at hf
      obtain ⟨j, hj, rfl⟩ := Option.map_eq_some_iff.1 hi
      rw [List.getElem?_cons_succ]
      exact ih hj hf

/-- Where `field_position` finds a field. -/
theorem getElem?_of_fieldPosition {typeName fieldName : String} {i : Nat} {f : FieldDef}
    (h : fieldPosition fields kind typeName fieldName = .ok (i, f)) : fields[i]? = some f ∧ f.name = fieldName := by
  unfold fieldPosition at h
  cases hi : fields.findIdx? fun f => decide (f.name = fieldName) with
  | none => simp [hi] at h
  | some j =>
    cases hfind : fields.find? fun f => decide (f.name = fieldName) with
    | none => simp [hi, hfind] at h
    | some f' =>
      simp only [hi, hfind, Except.ok.injEq, Prod.mk.injEq] at h
      obtain ⟨rfl, rfl⟩ := h
      exact ⟨getElem?_of_findIdx? hi hfind, by simpa using List.find?_some hfind⟩

/-- The fields of the type that a change is about. -/
theorem fieldsOf_of_schemaFields {ast : SchemaAst} (h : schemaFields ast kind name = .ok fields) :
    ast.fieldsOf kind name = some fields := by
  unfold schemaFields at h
  cases hf : ast.fieldsOf kind name with
  | none => simp [hf] at h
  | some found => simpa [hf] using h

/-- **A field that is no deeper leaves the schema no deeper.** -/
theorem SchemaAst.Shallow.setField {ast : SchemaAst} (h : ast.Shallow) (hf : ast.fieldsOf kind name = some fields)
    {i : Nat} {f f' : FieldDef} (hi : fields[i]? = some f) (hle : f'.typeExpr.jsonDepth ≤ f.typeExpr.jsonDepth) :
    (ast.setFields kind name (fields.set i f')).Shallow := by
  have hfields : fieldsJsonDepth (fields.set i f') ≤ fieldsJsonDepth fields :=
    Nat.succ_le_succ (deepest_set hi (Nat.succ_le_succ hle))
  have hdefs : deepest Definition.jsonDepth (setFirstFields kind name (fields.set i f') ast.definitions) ≤
      deepest Definition.jsonDepth ast.definitions := deepest_setFirstFields hf hfields
  unfold SchemaAst.Shallow definitionsJsonDepth at h ⊢
  show max 3 (deepest Definition.jsonDepth (setFirstFields kind name _ ast.definitions) + 2) < _
  omega

end Fields

/-! ## Saving -/

/-- A schema is saved: what is stored then, with the ids of its names. -/
structure Contents.Saves (c : Contents F) (ast : SchemaAst) (checkMigration : Bool) (dto : SchemaDto) : Prop where
  assigned : assignTypeIds (astToDto ast) c.schema = some dto
  migrates : checkMigration = true → ∀ old, c.schema = some old → validateMigration (dtoToAst old) ast = .ok ()

namespace Contents

variable {c : Contents F} {ast : SchemaAst} {check : Bool} {dto : SchemaDto}

theorem Saves.ast_eq (h : c.Saves ast check dto) : dtoToAst dto = ast := by
  cases ast
  exact congrArg SchemaAst.mk (assignTypeIds_eq_some.1 h.assigned).1

theorem Saves.shallow (h : c.Saves ast check dto) (hast : ast.Shallow) : dto.Shallow := by
  rw [← h.ast_eq] at hast
  exact hast

end Contents

namespace Graph

variable {C : Codecs F} {t : Topo} {b : Behind} {c : Contents F}

/-- **The schema that a save inherits from.** -/
theorem finds_previousSchema (h : Depicts C t b c) (hC : C.Faithful) (ast : SchemaAst) (check : Bool) :
    ∃ r, Finds (Is (M := M) t b) (previousSchema C ast check) r ∧ ∀ previous, r = .ok previous → previous = c.schema ∧
      (check = true → ∀ old, c.schema = some old → validateMigration (dtoToAst old) ast = .ok ()) := by
  cases hs : c.schema with
  | none => exact ⟨_, finds_noPrevious h hs ast check, fun previous he => ⟨by cases he; rfl, fun _ old hold => by cases hold⟩⟩
  | some dto =>
    have hload := finds_loadSchemaDto (M := M) h hC
    rw [loaded_of_schema hs] at hload
    refine ⟨(if check then validateMigration (dtoToAst dto) ast else .ok ()) >>= fun _ => .ok (some dto),
      Finds.get fun g hg => ?_, fun previous he => ?_⟩
    · rw [hasSchema_iff h hg, hs]
      refine hload.attempt.bind (u := fun _ => _) fun r hr => ?_
      cases hr
      exact (Finds.ofExcept _).bind (u := fun _ => .ok (some dto)) fun _ _ => Finds.pure _
    · cases check with
      | false =>
        cases he
        exact ⟨rfl, fun hc => by cases hc⟩
      | true =>
        change (validateMigration (dtoToAst dto) ast >>= fun _ => .ok (some dto)) = _ at he
        cases hm : validateMigration (dtoToAst dto) ast with
        | error e =>
          rw [hm] at he
          cases he
        | ok u =>
          rw [hm] at he
          cases he
          exact ⟨rfl, fun _ old hold => by cases hold; exact hm⟩

/-- **`save_schema_with`**: the schema is stored, or nothing has happened. -/
theorem meets_saveSchemaWith (hC : C.Faithful) {ast : SchemaAst} (hast : ast.Shallow) (check : Bool) :
    Meets (Shows (M := M) C c) (saveSchemaWith C ast check)
      (fun _ g => ∃ dto, c.Saves ast check dto ∧ Shows C (c.withSchema (some dto)) g) (Shows C c) := by
  refine meets_shows fun t b h => ?_
  obtain ⟨r, hfind, hprev⟩ := finds_previousSchema (M := M) h hC ast check
  refine Meets.find hfind (fun _ hg => hg.shows h) fun previous hr => ?_
  obtain ⟨rfl, hmigrates⟩ := hprev previous hr
  cases hids : assignTypeIds (astToDto ast) c.schema with
  | none => exact Meets.panic
  | some dto =>
    have hsaves : c.Saves ast check dto := ⟨hids, hmigrates⟩
    refine (meets_writeSchemaDto C dto).sure.mono (fun _ hg => hg) (fun _ g hg => ?_) fun _ hg => hg
    exact ⟨dto, hsaves, hg.shows (h.setSchema (hsaves.shallow hast))⟩

end Graph

end ChiffonDB

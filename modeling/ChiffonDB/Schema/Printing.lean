import ChiffonDB.Schema.Reading

/-!
# What a printed schema costs

The printed text has exactly the backticks its names need in quotes, except for a name that passes
for a bare one and is no identifier: that name is printed without.

* `Printed` — the cost of a text, and when it falls short.
* `ticks_unparse` — **the backticks of a printed schema, and that one padded identifier makes them
  too few.**
-/

set_option autoImplicit false

namespace ChiffonDB

open Peg Parser Grammar

namespace Grammar

variable {X : Pest}

/-- An ASCII word is an identifier. -/
theorem isPlain_letters (hX : X.Standard) {text : List Char} (hne : text ≠ [])
    (h : ∀ c ∈ text, c.toNat < 128 ∧ c.isAlpha = true) : IsPlain X text := by
  cases text with
  | nil => exact absurd rfl hne
  | cons c cs =>
    refine plainIdent_eq_some.2 ⟨c, cs, rfl, (List.append_nil _).symm, ?_, ?_, rfl⟩
    · obtain ⟨hc, halpha⟩ := h c (by simp)
      simp [hX.start_ascii c hc, halpha]
    · intro d hd
      obtain ⟨hd, halpha⟩ := h d (by simp [hd])
      simp [hX.continue_ascii d hd, Char.isAlphanum, halpha]

theorem isPlain_primitive (hX : X.Standard) {name : String} (h : name ∈ PRIMITIVE_TYPE_NAMES) :
    IsPlain X name.toList := by
  have hletters : ∀ w ∈ PRIMITIVE_TYPE_NAMES, w.toList ≠ [] ∧
      ∀ c ∈ w.toList, c.toNat < 128 ∧ c.isAlpha = true := by
    simp [PRIMITIVE_TYPE_NAMES]
  exact isPlain_letters hX (hletters name h).1 (hletters name h).2

/-- A text whose backticks are at most the cost of its names, and fewer if one of them is a padded
identifier. -/
structure Printed (X : Pest) (text : String) (names : List String) (cost : Nat) : Prop where
  le : ticks text.toList ≤ cost
  lt : ∀ name ∈ names, ¬ NameFits X name → ticks text.toList < cost

namespace Printed

variable {text text' : String} {names names' : List String} {cost cost' : Nat}

theorem token (h : ticks text.toList = 0) : Printed X text [] 0 := ⟨by omega, by simp⟩

theorem append (h : Printed X text names cost) (h' : Printed X text' names' cost') :
    Printed X (text ++ text') (names ++ names') (cost + cost') where
  le := by
    have := h.le
    have := h'.le
    simp
    omega
  lt name hname hfit := by
    have := h.le
    have := h'.le
    rw [String.toList_append, ticks_append]
    rcases List.mem_append.1 hname with hname | hname
    · have := h.lt name hname hfit
      omega
    · have := h'.lt name hname hfit
      omega

theorem cast (h : Printed X text names cost) (ht : text = text') (hn : names = names')
    (hc : cost = cost') : Printed X text' names' cost' := by
  rw [← ht, ← hn, ← hc]
  exact h

/-- Tokens before and behind. -/
theorem within (h : Printed X text names cost) (before after : String)
    (hb : ticks before.toList = 0) (ha : ticks after.toList = 0) :
    Printed X (before ++ text ++ after) names cost := by
  simpa using ((token hb).append h).append (token ha)

theorem join {α : Type} {f : α → String} {names : α → List String} {cost : α → Nat}
    (hf : ∀ a, Printed X (f a) (names a) (cost a)) (as : List α) :
    Printed X (String.join (as.map f)) (as.flatMap names) (as.map cost).sum := by
  induction as with
  | nil => exact token rfl
  | cons a as ih => simpa using (hf a).append ih

theorem intercalate {α : Type} {f : α → String} {names : α → List String} {cost : α → Nat}
    (hf : ∀ a, Printed X (f a) (names a) (cost a)) (sep : String) (hsep : ticks sep.toList = 0)
    (as : List α) : Printed X (String.intercalate sep (as.map f)) (as.flatMap names) (as.map cost).sum := by
  induction as with
  | nil => exact token rfl
  | cons a as ih =>
    cases as with
    | nil => simpa using hf a
    | cons b bs =>
      have hrest := (token hsep).append ih
      simpa [String.append_assoc] using (hf a).append hrest

end Printed

theorem printed_name (hX : X.Standard) (name : String) :
    Printed X (unparseName X name) [name] (nameTicks X name) where
  le := (ticks_unparseName hX name).1
  lt other hother hfit := by
    rw [List.mem_singleton.1 hother] at hfit
    exact (ticks_unparseName hX name).2 hfit

theorem printed_typeName (hX : X.Standard) (name : String) :
    Printed X (unparseTypeName X name) [name] (typeNameTicks X name) := by
  unfold unparseTypeName typeNameTicks
  split
  case isTrue h =>
    refine ⟨Nat.le_of_eq (ticks_quote name), fun other hother hfit => ?_⟩
    rw [List.mem_singleton.1 hother] at hfit
    exact absurd (fun _ => isPlain_primitive hX h) hfit
  case isFalse => exact printed_name hX name

theorem ticks_digits (n : Nat) : ticks (Nat.toDigits 10 n) = 0 := by
  have hdigit : ∀ c ∈ Nat.toDigits 10 n, c ≠ '\x60' := by
    rintro c hc rfl
    exact absurd (Nat.isDigit_of_mem_toDigits (by decide) (by decide) hc) (by decide)
  generalize Nat.toDigits 10 n = ds at hdigit
  induction ds with
  | nil => rfl
  | cons c cs ih =>
    rw [ticks_cons, if_neg (hdigit c (by simp)), ih fun d hd => hdigit d (by simp [hd])]

theorem printed_typeExpr (hX : X.Standard) (type : TypeExpr) :
    Printed X (unparseTypeExpr X type) type.names (typeTicks X type) := by
  induction type with
  | int | float | boolean | dateTime | string | json | blob =>
    rw [unparseTypeExpr]
    exact .token (by decide)
  | vector n =>
    have hdigits : ticks (toString n.toNat).toList = 0 := by
      rw [Nat.toString_eq_repr, Nat.toList_repr]
      exact ticks_digits _
    exact (Printed.token hdigits).within "Vector<" ">" rfl rfl
  | list elem ih => exact ih.within "List<" ">" rfl rfl
  | map key value ihk ihv =>
    have hkey := ihk.within "Map<" ", " rfl rfl
    simpa [unparseTypeExpr, String.append_assoc, TypeExpr.names, typeTicks] using
      (hkey.append ihv).append (.token rfl : Printed X ">" [] 0)
  | nodeRef name => exact (printed_name hX name).within "NodeRef<" ">" rfl rfl
  | edgeRef name => exact (printed_name hX name).within "EdgeRef<" ">" rfl rfl
  | named name => exact printed_typeName hX name

theorem printed_field (hX : X.Standard) {pad : String} (hpad : ticks pad.toList = 0) (f : FieldDef) :
    Printed X (unparseField X pad f) f.names (fieldTicks X f) := by
  have hanns : ticks ((if f.indexed then " @index" else "") ++
      (if f.unique then " @unique" else "")).toList = 0 := by
    cases f.indexed <;> cases f.unique <;> decide
  have hname := (printed_name hX f.name).within pad ": " hpad rfl
  have htype := (printed_typeExpr hX f.typeExpr).append (.token hanns)
  simpa [unparseField, String.append_assoc, FieldDef.names, fieldTicks] using
    (hname.append htype).append (.token rfl : Printed X "\n" [] 0)

theorem ticks_indent (n : Nat) : ticks (String.join (List.replicate n "  ")).toList = 0 := by
  induction n with
  | zero => rfl
  | succ n ih =>
    have htwo : ticks "  ".toList = 0 := by decide
    rw [List.replicate_succ, String.join_cons, String.toList_append, ticks_append, htwo, ih]

theorem printed_fields (hX : X.Standard) (fields : List FieldDef) (indent : Nat) :
    Printed X (unparseFields X fields indent) (fields.flatMap FieldDef.names) (fieldsTicks X fields) :=
  Printed.join (printed_field hX (ticks_indent indent)) fields

theorem printed_params {α : Type} {f : α → String} {names : α → List String}
    (hf : ∀ a, Printed X (f a) (names a) (namesTicks X (names a))) (as : List α) :
    Printed X (unparseParams (as.map f)) (as.flatMap names) (namesTicks X (as.flatMap names)) := by
  rw [namesTicks_flatMap]
  cases as with
  | nil => exact .token rfl
  | cons a as => exact (Printed.intercalate hf ", " rfl (a :: as)).within "<" ">" rfl rfl

theorem printed_nodeDef (hX : X.Standard) (n : NodeDef) :
    Printed X (unparseNodeDef X n) n.names (nodeTicks X n) := by
  have hname := (printed_name hX n.name).within "node " "" rfl rfl
  have hparam : ∀ name, Printed X (unparseName X name) [name] (namesTicks X [name]) := by
    intro name
    simpa [namesTicks] using printed_name hX name
  have hparams := printed_params hparam n.typeParams
  have hfields := (printed_fields hX n.fields 1).within " \x7b\n" "\x7d" rfl rfl
  obtain ⟨name, typeParams, base, fields⟩ := n
  cases base with
  | none =>
    simpa [unparseNodeDef, String.append_assoc, NodeDef.names, nodeTicks, namesTicks] using
      hname.append (hparams.append hfields)
  | some base =>
    have hbase := (printed_name hX base).within " extends " "" rfl rfl
    simpa [unparseNodeDef, String.append_assoc, NodeDef.names, nodeTicks, namesTicks, Nat.add_assoc] using
      hname.append ((hparams.append hbase).append hfields)

theorem printed_boundParam (hX : X.Standard) (p : BoundParam) :
    Printed X (unparseBoundParam X p) p.names (namesTicks X p.names) := by
  unfold unparseBoundParam BoundParam.names
  cases p.bound with
  | none => simpa [namesTicks] using printed_name hX p.name
  | some bound =>
    simpa [namesTicks] using ((printed_name hX p.name).within "" ": " rfl rfl).append
      (printed_name hX bound)

theorem printed_edgeDef (hX : X.Standard) (e : EdgeDef) :
    Printed X (unparseEdgeDef X e) e.names (edgeTicks X e) := by
  have hname := (printed_name hX e.name).within "edge " "" rfl rfl
  have hparams := printed_params (printed_boundParam hX) e.genericParams
  have hfrom := (printed_typeExpr hX e.fromType).within " \x7b\n  from: " "\n  to: " rfl rfl
  have hto := (printed_typeExpr hX e.toType).within "" "\n" rfl rfl
  have hends := ((hparams.append hfrom).append hto)
  obtain ⟨name, genericParams, fromType, toType, props⟩ := e
  cases props with
  | nil =>
    have hall := (hname.append hends).append (.token rfl : Printed X "\x7d" [] 0)
    refine hall.cast ?_ ?_ ?_
    · delta unparseEdgeDef
      simp [String.append_assoc]
    · simp [EdgeDef.names]
    · simp [edgeTicks, fieldsTicks]
  | cons f fs =>
    have hprops := (printed_fields hX (f :: fs) 2).within "  props: \x7b\n" "  \x7d\n\x7d" rfl rfl
    refine (hname.append (hends.append hprops)).cast ?_ ?_ ?_
    · delta unparseEdgeDef
      simp [String.append_assoc]
    · simp [EdgeDef.names]
    · simp [edgeTicks]

theorem printed_definition (hX : X.Standard) (d : Definition) :
    Printed X (unparseDefinition X d) d.names (definitionTicks X d) := by
  cases d with
  | node n => exact printed_nodeDef hX n
  | edge e => exact printed_edgeDef hX e

/-- **The printed schema has no backticks to spare, and too few if one of its names is a padded
identifier.** -/
theorem ticks_unparse (hX : X.Standard) (ast : SchemaAst) :
    Printed X (unparse X ast) ast.names (schemaTicks X ast) := by
  have hdefs := Printed.intercalate (printed_definition hX) "\n\n" rfl ast.definitions
  simpa [unparse, SchemaAst.names, schemaTicks] using hdefs.within "" "\n" rfl rfl

end Grammar

end ChiffonDB

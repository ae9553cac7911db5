import ChiffonDB.Schema.TypeSyntax

/-!
# What a parsed schema costs its text

A name that is no identifier can only be written in quotes, so the backticks of a text bound the
names of what is read from it.

* `ReadsPaid` — what a rule reads pays for what the parser builds from it.
* `schema_reads` — **the names of a parsed schema can be written, and the text pays for them.**
-/

set_option autoImplicit false

namespace ChiffonDB

open Peg Parser Grammar

/-! ## The names of a schema -/

def FieldDef.names (f : FieldDef) : List String := f.name :: f.typeExpr.names

def NodeDef.names (n : NodeDef) : List String :=
  n.name :: (n.typeParams ++ n.extends?.toList ++ n.fields.flatMap FieldDef.names)

def BoundParam.names (p : BoundParam) : List String := p.name :: p.bound.toList

def EdgeDef.names (e : EdgeDef) : List String :=
  e.name :: (e.genericParams.flatMap BoundParam.names ++ e.fromType.names ++ e.toType.names ++
    e.props.flatMap FieldDef.names)

def Definition.names : Definition → List String
  | .node n => n.names
  | .edge e => e.names

/-- All names, in every position. -/
def SchemaAst.names (ast : SchemaAst) : List String := ast.definitions.flatMap Definition.names

namespace Grammar

variable {X : Pest}

/-! ## What the names cost -/

noncomputable def namesTicks (X : Pest) (names : List String) : Nat := (names.map (nameTicks X)).sum

@[simp] theorem namesTicks_cons (name : String) (names : List String) :
    namesTicks X (name :: names) = nameTicks X name + namesTicks X names := by
  simp [namesTicks]

@[simp] theorem namesTicks_append (names names' : List String) :
    namesTicks X (names ++ names') = namesTicks X names + namesTicks X names' := by
  simp [namesTicks]

theorem namesTicks_flatMap {α : Type} (f : α → List String) (as : List α) :
    namesTicks X (as.flatMap f) = (as.map fun a => namesTicks X (f a)).sum := by
  induction as with
  | nil => rfl
  | cons a as ih => simp [ih]

noncomputable def fieldTicks (X : Pest) (f : FieldDef) : Nat := nameTicks X f.name + typeTicks X f.typeExpr

noncomputable def fieldsTicks (X : Pest) (fields : List FieldDef) : Nat := (fields.map (fieldTicks X)).sum

noncomputable def nodeTicks (X : Pest) (n : NodeDef) : Nat :=
  nameTicks X n.name + (namesTicks X n.typeParams + namesTicks X n.extends?.toList + fieldsTicks X n.fields)

noncomputable def edgeTicks (X : Pest) (e : EdgeDef) : Nat :=
  nameTicks X e.name + (namesTicks X (e.genericParams.flatMap BoundParam.names) +
    typeTicks X e.fromType + typeTicks X e.toType + fieldsTicks X e.props)

noncomputable def definitionTicks (X : Pest) : Definition → Nat
  | .node n => nodeTicks X n
  | .edge e => edgeTicks X e

noncomputable def schemaTicks (X : Pest) (ast : SchemaAst) : Nat :=
  (ast.definitions.map (definitionTicks X)).sum

/-! ## Reading -/

/-- The text between `s` and `r` pays for the names, which can be written. -/
structure Paid (names : List String) (cost : Nat) (s r : List Char) : Prop where
  writable : ∀ name ∈ names, Writable name
  pays : cost + ticks r ≤ ticks s

namespace Paid

theorem token {s r : List Char} (h : ticks r ≤ ticks s) : Paid [] 0 s r := ⟨by simp, by omega⟩

theorem trans {names names' : List String} {cost cost' : Nat} {s t r : List Char}
    (h : Paid names cost s t) (h' : Paid names' cost' t r) : Paid (names ++ names') (cost + cost') s r where
  writable name hname := by
    rcases List.mem_append.1 hname with hname | hname
    · exact h.writable name hname
    · exact h'.writable name hname
  pays := by
    have := h.pays
    have := h'.pays
    omega

/-- Tokens without names before and behind. -/
theorem within {names : List String} {cost : Nat} {s s' r r' : List Char} (h : Paid names cost s' r')
    (hs : ticks s' ≤ ticks s) (hr : ticks r ≤ ticks r') : Paid names cost s r where
  writable := h.writable
  pays := by
    have := h.pays
    omega

end Paid

/-- What `p` reads pays for what `f` builds from it. -/
def ReadsPaid {α β : Type} (p : Parser α) (f : α → Outcome β) (names : β → List String)
    (cost : β → Nat) : Prop :=
  ∀ s a r, p s = some (a, r) → ∀ b, f a = .ok b → Paid (names b) (cost b) s r

theorem parseAll_cons {α β : Type} {f : α → Outcome β} {a : α} {as : List α} {bs : List β}
    (h : parseAll f (a :: as) = .ok bs) :
    ∃ b bs', f a = .ok b ∧ parseAll f as = .ok bs' ∧ bs = b :: bs' := by
  unfold parseAll at h
  obtain ⟨b, hb, h⟩ := Outcome.bind_eq_ok.1 h
  obtain ⟨bs', hbs', h⟩ := Outcome.bind_eq_ok.1 h
  cases h
  exact ⟨b, bs', hb, hbs', rfl⟩

theorem parseAll_ok {α : Type} (as : List α) : parseAll Outcome.ok as = .ok as := by
  induction as with
  | nil => rfl
  | cons a as ih =>
    unfold parseAll
    rw [ih]
    rfl

theorem Many.readsPaid {α β : Type} {p : Parser α} {f : α → Outcome β} {names : β → List String}
    {cost : β → Nat} (hp : ReadsPaid p f names cost) {s r : List Char} {as : List α}
    (h : Many (do
      skip
      p) s as r) {bs : List β} (hbs : parseAll f as = .ok bs) :
    Paid (bs.flatMap names) (bs.map cost).sum s r := by
  induction h generalizing bs with
  | nil =>
    cases hbs
    exact Paid.token (Nat.le_refl _)
  | cons ha _ ih =>
    obtain ⟨b, bs', hb, hbs', rfl⟩ := parseAll_cons hbs
    obtain ⟨u, t, hs, ha⟩ := bind_eq_some.1 ha
    have hread := (hp _ _ _ ha b hb).within (ticks_skip hs) (Nat.le_refl _)
    simpa using hread.trans (ih hbs')

theorem ReadsPaid.rep {α β : Type} {p : Parser α} {f : α → Outcome β} {names : β → List String}
    {cost : β → Nat} (hp : ReadsPaid p f names cost) (hc : Consumes p) :
    ReadsPaid (rep skip p) (parseAll f) (fun bs => bs.flatMap names) (fun bs => (bs.map cost).sum) := by
  intro s as r h bs hbs
  rcases rep_eq_some shortens_skip hc h with ⟨rfl, rfl, -⟩ | ⟨a, t, as', rfl, ha, hm⟩
  · cases hbs
    exact Paid.token (Nat.le_refl _)
  · obtain ⟨b, bs', hb, hbs', rfl⟩ := parseAll_cons hbs
    simpa using (hp _ _ _ ha b hb).trans (Many.readsPaid hp hm hbs')

theorem readsPaid_ident (hX : X.Standard) :
    ReadsPaid (ident X) Outcome.ok (fun name => [name]) (nameTicks X) := by
  intro s name r h b hb
  cases hb
  obtain ⟨hw, hticks⟩ := ident_reads hX h
  exact ⟨by simpa using hw, hticks⟩

theorem readsPaid_typeExpr (hX : X.Standard) :
    ReadsPaid (typeExpr X) parseTypeExpr TypeExpr.names (typeTicks X) := by
  intro s p r h type htype
  obtain ⟨hw, hticks⟩ := typeExpr_reads hX h
  obtain ⟨hnames, hcost⟩ := parseTypeExpr_names (X := X) htype
  rw [hnames, hcost]
  exact ⟨hw, hticks⟩

theorem consumes_annotation : Consumes ( annotation X) :=
  (consumes_literal _ _).bind fun _ => shortens_skip.bind fun _ => consumes_plainIdent.shortens

theorem consumes_fieldDef : Consumes (fieldDef X) :=
  consumes_ident.bind fun _ => shortens_skip.bind fun _ => (shortens_literal _).bind fun _ =>
    shortens_skip.bind fun _ => shortens_typeExpr.bind fun _ => shortens_skip.bind fun _ =>
      (shortens_rep shortens_skip consumes_annotation).bind fun _ => shortens_pure _

theorem ticks_annotation {s r text : List Char} (h : annotation X s = some (text, r)) :
    ticks r ≤ ticks s := by
  obtain ⟨u₁, t₁, h₁, h⟩ := bind_eq_some.1 h
  obtain ⟨u₂, t₂, h₂, h⟩ := bind_eq_some.1 h
  have := ticks_literal h₁
  have := ticks_skip h₂
  have := plainIdent_reads h
  omega

theorem ticks_annotations {s r : List Char} {as : List (List Char)}
    (h : rep skip ( annotation X) s = some (as, r)) : ticks r ≤ ticks s := by
  have hread : ReadsPaid ( annotation X) Outcome.ok (fun _ => []) (fun _ => 0) := by
    intro s text r h b hb
    exact Paid.token ( ticks_annotation h)
  have := (hread.rep consumes_annotation _ _ _ h as (parseAll_ok as)).pays
  omega

theorem readsPaid_fieldDef (hX : X.Standard) :
    ReadsPaid (fieldDef X) parseFieldDef FieldDef.names (fieldTicks X) := by
  intro s p r h f hf
  obtain ⟨name, t₁, h₁, h⟩ := bind_eq_some.1 h
  obtain ⟨u₂, t₂, h₂, h⟩ := bind_eq_some.1 h
  obtain ⟨u₃, t₃, h₃, h⟩ := bind_eq_some.1 h
  obtain ⟨u₄, t₄, h₄, h⟩ := bind_eq_some.1 h
  obtain ⟨type, t₅, h₅, h⟩ := bind_eq_some.1 h
  obtain ⟨u₆, t₆, h₆, h⟩ := bind_eq_some.1 h
  obtain ⟨anns, t₇, h₇, h⟩ := bind_eq_some.1 h
  cases h
  unfold parseFieldDef at hf
  obtain ⟨typeExpr, htype, hf⟩ := Outcome.bind_eq_ok.1 hf
  obtain ⟨flags, -, hf⟩ := Outcome.bind_eq_ok.1 hf
  cases hf
  have hname := readsPaid_ident hX _ _ _ h₁ name rfl
  have htypePaid := readsPaid_typeExpr hX _ _ _ h₅ typeExpr htype
  have := ticks_skip h₂
  have := ticks_literal h₃
  have := ticks_skip h₄
  have := ticks_skip h₆
  have := ticks_annotations h₇
  exact hname.trans (htypePaid.within (by omega) (by omega))

/-- A list of parameters in angle brackets. -/
theorem readsPaid_params {α : Type} {p : Parser α} {names : α → List String} {cost : α → Nat}
    (hp : ReadsPaid p Outcome.ok names cost) (hc : Consumes p) :
    ReadsPaid (params p) Outcome.ok (fun as => as.flatMap names) (fun as => (as.map cost).sum) := by
  intro s as r h bs hbs
  cases hbs
  have hitem : ReadsPaid (do
      literal ",".toList
      skip
      p) Outcome.ok names cost := by
    intro s a r h b hb
    obtain ⟨u₁, t₁, h₁, h⟩ := bind_eq_some.1 h
    obtain ⟨u₂, t₂, h₂, h⟩ := bind_eq_some.1 h
    have := ticks_literal h₁
    have := ticks_skip h₂
    exact (hp _ _ _ h b hb).within (by omega) (Nat.le_refl _)
  have hconsumes : Consumes (do
      literal ",".toList
      skip
      p) := (consumes_literal _ _).bind fun _ => shortens_skip.bind fun _ => hc.shortens
  obtain ⟨u₁, t₁, h₁, h⟩ := bind_eq_some.1 h
  obtain ⟨u₂, t₂, h₂, h⟩ := bind_eq_some.1 h
  obtain ⟨first, t₃, h₃, h⟩ := bind_eq_some.1 h
  obtain ⟨u₄, t₄, h₄, h⟩ := bind_eq_some.1 h
  obtain ⟨others, t₅, h₅, h⟩ := bind_eq_some.1 h
  obtain ⟨u₆, t₆, h₆, h⟩ := bind_eq_some.1 h
  obtain ⟨u₇, t₇, h₇, h⟩ := bind_eq_some.1 h
  cases h
  have hfirst := hp _ _ _ h₃ first rfl
  have hothers := hitem.rep hconsumes _ _ _ h₅ others (parseAll_ok others)
  have := ticks_literal h₁
  have := ticks_skip h₂
  have := ticks_skip h₄
  have := ticks_skip h₆
  have := ticks_literal h₇
  simpa using (hfirst.within (by omega) (Nat.le_refl _)).trans (hothers.within (by omega) (by omega))

/-- An optional part, for which `none` builds nothing. -/
theorem readsPaid_opt {α : Type} {p : Parser α} {names : α → List String} {cost : α → Nat}
    (hp : ReadsPaid p Outcome.ok names cost) : ReadsPaid (opt p) Outcome.ok
      (fun x => (x.map names).getD []) (fun x => (x.map cost).getD 0) := by
  intro s x r h b hb
  cases hb
  rcases opt_eq_some h with ⟨rfl, rfl, -⟩ | ⟨a, rfl, ha⟩
  · exact Paid.token (Nat.le_refl _)
  · exact hp _ _ _ ha a rfl

theorem readsPaid_fieldBlock (hX : X.Standard) : ReadsPaid (fieldBlock X) (parseAll parseFieldDef)
    (fun fs => fs.flatMap FieldDef.names) (fieldsTicks X) := by
  intro s ps r h fs hfs
  obtain ⟨u₁, t₁, h₁, h⟩ := bind_eq_some.1 h
  obtain ⟨u₂, t₂, h₂, h⟩ := bind_eq_some.1 h
  obtain ⟨ps', t₃, h₃, h⟩ := bind_eq_some.1 h
  obtain ⟨u₄, t₄, h₄, h⟩ := bind_eq_some.1 h
  obtain ⟨u₅, t₅, h₅, h⟩ := bind_eq_some.1 h
  cases h
  have hfields := (readsPaid_fieldDef hX).rep consumes_fieldDef _ _ _ h₃ fs hfs
  have := ticks_literal h₁
  have := ticks_skip h₂
  have := ticks_skip h₄
  have := ticks_literal h₅
  exact hfields.within (by omega) (by omega)

theorem consumes_extendsClause : Consumes (extendsClause X) :=
  (consumes_literal _ _).bind fun _ => shortens_skip.bind fun _ => consumes_ident.shortens

theorem readsPaid_extendsClause (hX : X.Standard) :
    ReadsPaid (extendsClause X) Outcome.ok (fun name => [name]) (nameTicks X) := by
  intro s name r h b hb
  obtain ⟨u₁, t₁, h₁, h⟩ := bind_eq_some.1 h
  obtain ⟨u₂, t₂, h₂, h⟩ := bind_eq_some.1 h
  have := ticks_literal h₁
  have := ticks_skip h₂
  exact (readsPaid_ident hX _ _ _ h b hb).within (by omega) (Nat.le_refl _)

theorem readsPaid_boundParam (hX : X.Standard) : ReadsPaid (boundParam X) Outcome.ok BoundParam.names
    (fun p => namesTicks X p.names) := by
  intro s p r h b hb
  cases hb
  have hbound : ReadsPaid (do
      literal ":".toList
      skip
      ident X) Outcome.ok (fun name => [name]) (nameTicks X) := by
    intro s name r h b hb
    obtain ⟨u₁, t₁, h₁, h⟩ := bind_eq_some.1 h
    obtain ⟨u₂, t₂, h₂, h⟩ := bind_eq_some.1 h
    have := ticks_literal h₁
    have := ticks_skip h₂
    exact (readsPaid_ident hX _ _ _ h b hb).within (by omega) (Nat.le_refl _)
  obtain ⟨name, t₁, h₁, h⟩ := bind_eq_some.1 h
  obtain ⟨u₂, t₂, h₂, h⟩ := bind_eq_some.1 h
  obtain ⟨bound, t₃, h₃, h⟩ := bind_eq_some.1 h
  cases h
  have hname := readsPaid_ident hX _ _ _ h₁ name rfl
  have hrest := (readsPaid_opt hbound _ _ _ h₃ bound rfl).within (ticks_skip h₂) (Nat.le_refl _)
  cases bound <;> simpa [BoundParam.names, namesTicks] using hname.trans hrest

theorem consumes_boundParam : Consumes (boundParam X) :=
  consumes_ident.bind fun _ => shortens_skip.bind fun _ => (Shortens.opt
    ((consumes_literal _ _).bind fun _ => shortens_skip.bind fun _ => consumes_ident.shortens).shortens).bind
      fun _ => shortens_pure _

theorem readsPaid_nodeDef (hX : X.Standard) :
    ReadsPaid (nodeDef X) parseNodeDef NodeDef.names (nodeTicks X) := by
  intro s p r h n hn
  obtain ⟨u₁, t₁, h₁, h⟩ := bind_eq_some.1 h
  obtain ⟨u₂, t₂, h₂, h⟩ := bind_eq_some.1 h
  obtain ⟨name, t₃, h₃, h⟩ := bind_eq_some.1 h
  obtain ⟨u₄, t₄, h₄, h⟩ := bind_eq_some.1 h
  obtain ⟨typeParams, t₅, h₅, h⟩ := bind_eq_some.1 h
  obtain ⟨u₆, t₆, h₆, h⟩ := bind_eq_some.1 h
  obtain ⟨base, t₇, h₇, h⟩ := bind_eq_some.1 h
  obtain ⟨u₈, t₈, h₈, h⟩ := bind_eq_some.1 h
  obtain ⟨fields, t₉, h₉, h⟩ := bind_eq_some.1 h
  cases h
  unfold parseNodeDef at hn
  obtain ⟨fs, hfs, hn⟩ := Outcome.bind_eq_ok.1 hn
  cases hn
  have := ticks_literal h₁
  have := ticks_skip h₂
  have hname := (readsPaid_ident hX _ _ _ h₃ name rfl).within (s := s) (by omega) (ticks_skip h₄)
  have hparams := readsPaid_opt (readsPaid_params (readsPaid_ident hX) consumes_ident) _ _ _ h₅ _ rfl
  have hbase := (readsPaid_opt (readsPaid_extendsClause hX) _ _ _ h₇ base rfl).within (ticks_skip h₆)
    (ticks_skip h₈)
  have hfields := readsPaid_fieldBlock hX _ _ _ h₉ fs hfs
  have hall := hname.trans ((hparams.trans hbase).trans hfields)
  cases typeParams <;> cases base <;>
    simpa [NodeDef.names, nodeTicks, namesTicks] using hall

theorem readsPaid_endpoint (hX : X.Standard) (keyword : String) :
    ReadsPaid (endpoint X keyword) parseTypeExpr TypeExpr.names (typeTicks X) := by
  intro s p r h type htype
  obtain ⟨u₁, t₁, h₁, h⟩ := bind_eq_some.1 h
  obtain ⟨u₂, t₂, h₂, h⟩ := bind_eq_some.1 h
  obtain ⟨u₃, t₃, h₃, h⟩ := bind_eq_some.1 h
  obtain ⟨u₄, t₄, h₄, h⟩ := bind_eq_some.1 h
  have := ticks_literal h₁
  have := ticks_skip h₂
  have := ticks_literal h₃
  have := ticks_skip h₄
  exact (readsPaid_typeExpr hX _ _ _ h type htype).within (by omega) (Nat.le_refl _)

theorem readsPaid_propsBlock (hX : X.Standard) : ReadsPaid (propsBlock X) (parseAll parseFieldDef)
    (fun fs => fs.flatMap FieldDef.names) (fieldsTicks X) := by
  intro s ps r h fs hfs
  obtain ⟨u₁, t₁, h₁, h⟩ := bind_eq_some.1 h
  obtain ⟨u₂, t₂, h₂, h⟩ := bind_eq_some.1 h
  obtain ⟨u₃, t₃, h₃, h⟩ := bind_eq_some.1 h
  obtain ⟨u₄, t₄, h₄, h⟩ := bind_eq_some.1 h
  have := ticks_literal h₁
  have := ticks_skip h₂
  have := ticks_literal h₃
  have := ticks_skip h₄
  exact (readsPaid_fieldBlock hX _ _ _ h fs hfs).within (by omega) (Nat.le_refl _)

theorem readsPaid_edgeDef (hX : X.Standard) :
    ReadsPaid (edgeDef X) parseEdgeDef EdgeDef.names (edgeTicks X) := by
  intro s p r h e he
  obtain ⟨u₁, t₁, h₁, h⟩ := bind_eq_some.1 h
  obtain ⟨u₂, t₂, h₂, h⟩ := bind_eq_some.1 h
  obtain ⟨name, t₃, h₃, h⟩ := bind_eq_some.1 h
  obtain ⟨u₄, t₄, h₄, h⟩ := bind_eq_some.1 h
  obtain ⟨genericParams, t₅, h₅, h⟩ := bind_eq_some.1 h
  obtain ⟨u₆, t₆, h₆, h⟩ := bind_eq_some.1 h
  obtain ⟨u₇, t₇, h₇, h⟩ := bind_eq_some.1 h
  obtain ⟨u₈, t₈, h₈, h⟩ := bind_eq_some.1 h
  obtain ⟨fromPair, t₉, h₉, h⟩ := bind_eq_some.1 h
  obtain ⟨u₁₀, t₁₀, h₁₀, h⟩ := bind_eq_some.1 h
  obtain ⟨toPair, t₁₁, h₁₁, h⟩ := bind_eq_some.1 h
  obtain ⟨u₁₂, t₁₂, h₁₂, h⟩ := bind_eq_some.1 h
  obtain ⟨props, t₁₃, h₁₃, h⟩ := bind_eq_some.1 h
  obtain ⟨u₁₄, t₁₄, h₁₄, h⟩ := bind_eq_some.1 h
  obtain ⟨u₁₅, t₁₅, h₁₅, h⟩ := bind_eq_some.1 h
  cases h
  unfold parseEdgeDef at he
  obtain ⟨fromType, hfrom, he⟩ := Outcome.bind_eq_ok.1 he
  obtain ⟨toType, hto, he⟩ := Outcome.bind_eq_ok.1 he
  obtain ⟨fs, hfs, he⟩ := Outcome.bind_eq_ok.1 he
  cases he
  have := ticks_literal h₁
  have := ticks_skip h₂
  have := ticks_skip h₆
  have := ticks_literal h₇
  have := ticks_skip h₈
  have := ticks_skip h₁₄
  have := ticks_literal h₁₅
  have hname := (readsPaid_ident hX _ _ _ h₃ name rfl).within (s := s) (by omega) (ticks_skip h₄)
  have hparams := readsPaid_opt (readsPaid_params (readsPaid_boundParam hX) consumes_boundParam)
    _ _ _ h₅ _ rfl
  have hfromPaid := (readsPaid_endpoint hX "from" _ _ _ h₉ fromType hfrom).within (s := t₅) (by omega)
    (ticks_skip h₁₀)
  have htoPaid := (readsPaid_endpoint hX "to" _ _ _ h₁₁ toType hto).within (Nat.le_refl _)
    (ticks_skip h₁₂)
  have hprops : Paid (fs.flatMap FieldDef.names) (fieldsTicks X fs) t₁₂ r := by
    rcases opt_eq_some h₁₃ with ⟨rfl, rfl, -⟩ | ⟨ps, rfl, hps⟩
    · cases hfs
      exact Paid.token (by omega)
    · exact (readsPaid_propsBlock hX _ _ _ hps fs hfs).within (Nat.le_refl _) (by omega)
  have hall := hname.trans (((hparams.trans hfromPaid).trans htoPaid).trans hprops)
  cases genericParams with
  | none => simpa [EdgeDef.names, edgeTicks, namesTicks] using hall
  | some ps =>
    simpa [EdgeDef.names, edgeTicks, namesTicks_flatMap] using hall

theorem readsPaid_definition (hX : X.Standard) :
    ReadsPaid (definition X) parseDefinition Definition.names (definitionTicks X) := by
  intro s p r h d hd
  rcases orElse_eq_some h with h | h
  · obtain ⟨n, t, hn, h⟩ := bind_eq_some.1 h
    cases h
    obtain ⟨n', hn', hd⟩ := Outcome.bind_eq_ok.1 hd
    cases hd
    exact readsPaid_nodeDef hX _ _ _ hn n' hn'
  · obtain ⟨e, t, he, h⟩ := bind_eq_some.1 h
    cases h
    obtain ⟨e', he', hd⟩ := Outcome.bind_eq_ok.1 hd
    cases hd
    exact readsPaid_edgeDef hX _ _ _ he e' he'

theorem shortens_fieldBlock : Shortens (fieldBlock X) :=
  (shortens_literal _).bind fun _ => shortens_skip.bind fun _ =>
    (shortens_rep shortens_skip consumes_fieldDef).bind fun _ => shortens_skip.bind fun _ =>
      (shortens_literal _).bind fun _ => shortens_pure _

theorem shortens_params {α : Type} {p : Parser α} (hp : Consumes p) : Shortens (params p) :=
  (shortens_literal _).bind fun _ => shortens_skip.bind fun _ => hp.shortens.bind fun _ =>
    shortens_skip.bind fun _ => (shortens_rep shortens_skip ((consumes_literal _ _).bind fun _ =>
      shortens_skip.bind fun _ => hp.shortens)).bind fun _ => shortens_skip.bind fun _ =>
        (shortens_literal _).bind fun _ => shortens_pure _

theorem consumes_nodeDef : Consumes (nodeDef X) :=
  (consumes_literal _ _).bind fun _ => shortens_skip.bind fun _ => consumes_ident.shortens.bind fun _ =>
    shortens_skip.bind fun _ => (shortens_params consumes_ident).opt.bind fun _ =>
      shortens_skip.bind fun _ => consumes_extendsClause.shortens.opt.bind fun _ =>
        shortens_skip.bind fun _ => shortens_fieldBlock.bind fun _ => shortens_pure _

theorem shortens_endpoint (keyword : String) : Shortens (endpoint X keyword) :=
  (shortens_literal _).bind fun _ => shortens_skip.bind fun _ => (shortens_literal _).bind fun _ =>
    shortens_skip.bind fun _ => shortens_typeExpr

theorem shortens_propsBlock : Shortens (propsBlock X) :=
  (shortens_literal _).bind fun _ => shortens_skip.bind fun _ => (shortens_literal _).bind fun _ =>
    shortens_skip.bind fun _ => shortens_fieldBlock

theorem consumes_edgeDef : Consumes (edgeDef X) :=
  (consumes_literal _ _).bind fun _ => shortens_skip.bind fun _ => consumes_ident.shortens.bind fun _ =>
    shortens_skip.bind fun _ => (shortens_params consumes_boundParam).opt.bind fun _ =>
      shortens_skip.bind fun _ => (shortens_literal _).bind fun _ => shortens_skip.bind fun _ =>
        (shortens_endpoint _).bind fun _ => shortens_skip.bind fun _ => (shortens_endpoint _).bind fun _ =>
          shortens_skip.bind fun _ => shortens_propsBlock.opt.bind fun _ => shortens_skip.bind fun _ =>
            (shortens_literal _).bind fun _ => shortens_pure _

theorem consumes_definition : Consumes (definition X) :=
  (consumes_nodeDef.bind fun _ => shortens_pure _).orElse
    (consumes_edgeDef.bind fun _ => shortens_pure _)

/-- **The names of a parsed schema can be written, and its text pays for them.** -/
theorem schema_reads (hX : X.Standard) {text : String} {ast : SchemaAst} (h : parse X text = .ok ast) :
    (∀ name ∈ ast.names, Writable name) ∧ schemaTicks X ast ≤ ticks text.toList := by
  unfold parse at h
  split at h
  case h_1 => cases h
  case h_2 defs r hs =>
    obtain ⟨ds, hds, h⟩ := Outcome.bind_eq_ok.1 h
    cases h
    obtain ⟨u₁, t₁, h₁, hs⟩ := bind_eq_some.1 hs
    obtain ⟨defs', t₂, h₂, hs⟩ := bind_eq_some.1 hs
    obtain ⟨u₃, t₃, h₃, hs⟩ := bind_eq_some.1 hs
    obtain ⟨u₄, t₄, h₄, hs⟩ := bind_eq_some.1 hs
    cases hs
    have hpaid := (readsPaid_definition hX).rep consumes_definition _ _ _ h₂ ds hds
    have hpays : schemaTicks X ⟨ds⟩ + ticks t₂ ≤ ticks t₁ := hpaid.pays
    have := ticks_skip h₁
    exact ⟨hpaid.writable, by omega⟩

end Grammar

end ChiffonDB

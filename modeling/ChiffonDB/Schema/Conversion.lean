import ChiffonDB.Lib.Mirror
import ChiffonDB.Schema.Pairs
import ChiffonDB.Schema.Reading
import ChiffonDB.Schema.RoundTrip

/-!
# From parse trees to syntax trees

* `schema_mirrors` — the grammar's pairs and its typed results come from the same texts.
* `parse_eq` — **walking the pairs position by position is converting the typed results**, so no `unwrap` on a
  pair ever fails.
* `parse_returns_iff` — **parsing panics exactly if the first fault of the text is a dimension of 2³² or more**.
-/

set_option autoImplicit false

namespace ChiffonDB

open Peg Peg.Parser Grammar

/-! ## Rules -/

namespace Peg.Mirrors

open PairGrammar (span atomic one)

variable {α β : Type} {rule : PestRule}

theorem span {R : List Pair → β → Prop} {S : Pair → β → Prop} {p : Parser (List Pair)} {q : Parser β}
    (h : Mirrors R p q) (hS : ∀ text inner b, R inner b → S ⟨rule, text, inner⟩ b) :
    Mirrors S (PairGrammar.span rule p) q := by
  intro s
  unfold PairGrammar.span
  rcases h s with ⟨hp, hq⟩ | ⟨inner, b, t, hp, hq, hab⟩
  · rw [hp]
    exact Or.inl ⟨rfl, hq⟩
  · rw [hp]
    exact Or.inr ⟨_, b, t, rfl, hq, hS _ inner b hab⟩

/-- The text of an atomic rule is what its expression returns. -/
theorem atomic {R : List Char → β → Prop} {p : Parser (List Char)} {q : Parser β} (h : Mirrors R p q)
    (hreads : ∀ s text t, p s = some (text, t) → s = text ++ t) :
    Mirrors (fun pair b => ∃ text, pair = ⟨rule, text, []⟩ ∧ R text b) (PairGrammar.atomic rule p) q := by
  intro s
  unfold PairGrammar.atomic PairGrammar.span
  rcases h s with ⟨hp, hq⟩ | ⟨text, b, t, hp, hq, hR⟩
  · rw [bind_of_none hp]
    exact Or.inl ⟨rfl, hq⟩
  · obtain rfl := hreads s text t hp
    rw [bind_of_some hp]
    exact Or.inr ⟨_, b, t, rfl, hq, text, by simp, hR⟩

theorem one {R : Pair → β → Prop} {p : Parser Pair} {q : Parser β} (h : Mirrors R p q) :
    Mirrors (fun inner b => ∃ pair, inner = [pair] ∧ R pair b) (PairGrammar.one p) q := by
  intro s
  unfold PairGrammar.one
  rcases h s with ⟨hp, hq⟩ | ⟨a, b, t, hp, hq, hab⟩
  · rw [bind_of_none hp]
    exact Or.inl ⟨rfl, hq⟩
  · rw [bind_of_some hp]
    exact Or.inr ⟨[a], b, t, rfl, hq, a, rfl, hab⟩

/-- A function of the typed result. -/
theorem map_right {R : α → β → Prop} {γ : Type} {S : α → γ → Prop} {p : Parser α} {q : Parser β} (h : Mirrors R p q)
    (f : β → γ) (hS : ∀ a b, R a b → S a (f b)) : Mirrors S p (q >>= fun b => Pure.pure (f b)) := by
  intro s
  rcases h s with ⟨hp, hq⟩ | ⟨a, b, t, hp, hq, hab⟩
  · rw [bind_of_none hq]
    exact Or.inl ⟨hp, rfl⟩
  · rw [bind_of_some hq]
    exact Or.inr ⟨a, f b, t, hp, rfl, hS a b hab⟩

theorem bracketed {R : α → β → Prop} {p : Parser α} {q : Parser β} (keyword : String) (h : Mirrors R p q) :
    Mirrors R (Grammar.bracketed keyword p) (Grammar.bracketed keyword q) :=
  token _ fun _ => token _ fun _ => token _ fun _ => token _ fun _ => h.bind fun _ _ hab =>
    token _ fun _ => token _ fun _ => pure hab

theorem params {R : α → β → Prop} {p : Parser α} {q : Parser β} (h : Mirrors R p q) :
    Mirrors (List.Forall₂ R) (Grammar.params p) (Grammar.params q) :=
  token _ fun _ => token _ fun _ => h.bind fun _ _ hab => token _ fun _ =>
    (rep Grammar.skip (token _ fun _ => token _ fun _ => h)).bind fun _ _ has =>
      token _ fun _ => token _ fun _ => pure (List.Forall₂.cons hab has)

end Peg.Mirrors

/-! ## Names -/

variable (X : Pest)

theorem plainIdent_mirrors : Mirrors (fun pair text => pair = ⟨.plainIdent, text, []⟩)
    (PairGrammar.plainIdent X) (Grammar.plainIdent X) := by
  refine (Mirrors.atomic (Mirrors.refl _) fun _ _ _ h => (isPlain_of_plainIdent h).2).mono ?_
  rintro pair text ⟨_, rfl, rfl⟩
  rfl

theorem quotedBody_mirrors : Mirrors (fun pair text => pair = ⟨.quotedBody, text, []⟩)
    PairGrammar.quotedBody Grammar.quotedBody := by
  refine (Mirrors.atomic (Mirrors.refl _) fun s text t h => ?_).mono ?_
  · obtain ⟨item, t₁, hitem, h⟩ := bind_eq_some.1 h
    obtain ⟨items, t₂, hitems, h⟩ := bind_eq_some.1 h
    cases h
    exact (Many.quotedItems (.cons hitem ((many_iff consumes_quotedItem).1 hitems))).1
  · rintro pair text ⟨_, rfl, rfl⟩
    rfl

/-- The pair of a name. -/
def IsName (pair : Pair) (name : String) : Prop := pair.rule = .ident ∧ PairParser.identName pair = .ok name

theorem ident_mirrors : Mirrors IsName (PairGrammar.ident X) (Grammar.ident X) := by
  have hquoted : Mirrors (fun inner name => ∀ text, IsName ⟨.ident, text, inner⟩ name)
      (PairGrammar.one PairGrammar.quotedIdent) (do
        let body ← Grammar.quotedIdent
        pure (String.ofList (Grammar.undouble body))) := by
    have hbody : Mirrors (fun pair body => ∃ text, pair = Pair.mk .quotedIdent text [⟨.quotedBody, body, []⟩])
        PairGrammar.quotedIdent Grammar.quotedIdent := by
      refine Mirrors.span (R := fun inner body => inner = [⟨.quotedBody, body, []⟩]) ?_ ?_
      · exact Mirrors.token _ fun _ => quotedBody_mirrors.bind fun pair body hpair => Mirrors.token _ fun _ =>
          Mirrors.pure (by rw [hpair])
      · rintro text inner body rfl
        exact ⟨text, rfl⟩
    refine hbody.one.map_right _ ?_
    rintro inner body ⟨pair, rfl, text, rfl⟩ text'
    exact ⟨rfl, rfl⟩
  have hplain : Mirrors (fun inner name => ∀ text, IsName ⟨.ident, text, inner⟩ name)
      (PairGrammar.one (PairGrammar.plainIdent X)) (do
        let text ← Grammar.plainIdent X
        pure (String.ofList text)) := by
    refine (plainIdent_mirrors X).one.map_right _ ?_
    rintro inner text ⟨pair, rfl, rfl⟩ text'
    exact ⟨rfl, rfl⟩
  exact (hquoted.orElse hplain).span fun text inner name h => h text

theorem IsName.next {pair : Pair} {name : String} (h : IsName pair name) (rest : List Pair) :
    PairParser.nextIdentName (pair :: rest) = .ok (name, rest) := by
  rw [PairParser.nextIdentName, h.2]
  rfl

/-! ## Types -/

theorem integer_eq_some {s t ds : List Char} (h : Grammar.integer s = some (ds, t)) :
    s = ds ++ t ∧ ds ≠ [] ∧ ds.all Char.isDigit = true := by
  obtain ⟨c, t₁, h₁, h⟩ := bind_eq_some.1 h
  obtain ⟨cs, t₂, h₂, h⟩ := bind_eq_some.1 h
  cases h
  obtain ⟨rfl, hc⟩ := satisfy_eq_some.1 h₁
  obtain ⟨rfl, hcs, -⟩ := many_satisfy.1 h₂
  exact ⟨rfl, List.cons_ne_nil _ _, by simpa [hc] using hcs⟩

theorem integer_mirrors : Mirrors (fun pair ds => pair = ⟨.integer, ds, []⟩ ∧ ds ≠ [] ∧ ds.all Char.isDigit = true)
    PairGrammar.integer Grammar.integer := by
  have hds : Mirrors (fun a ds => a = ds ∧ ds ≠ [] ∧ ds.all Char.isDigit = true) Grammar.integer Grammar.integer := by
    intro s
    cases h : Grammar.integer s with
    | none => exact Or.inl ⟨rfl, rfl⟩
    | some x => exact Or.inr ⟨x.1, x.1, x.2, rfl, rfl, rfl, (integer_eq_some h).2⟩
  refine (Mirrors.atomic hds fun s text t h => (integer_eq_some h).1).mono ?_
  rintro pair ds ⟨_, rfl, rfl, h⟩
  exact ⟨rfl, h⟩

theorem parseU32_digits {ds : List Char} (hne : ds ≠ []) (hds : ds.all Char.isDigit = true) :
    PairParser.parseU32 ds = if Nat.ofDigitChars 10 ds 0 < UInt32.size then
      some (UInt32.ofNat (Nat.ofDigitChars 10 ds 0)) else none := by
  have hplain : PairParser.parseU32 ds = PairParser.parseDigits ds := by
    unfold PairParser.parseU32
    split
    · simp at hds
    · rfl
  rw [hplain]
  unfold PairParser.parseDigits
  simp [hne, hds]

/-- The pairs inside a type, and the type. -/
def IsType (inner : List Pair) (t : Grammar.TypePair) : Prop :=
  ∀ text, PairParser.parseTypeExpr ⟨.typeExpr, text, inner⟩ = parseTypeExpr t

theorem vectorType_mirrors : Mirrors IsType (PairGrammar.one PairGrammar.vectorType) Grammar.vectorType := by
  have hspan : Mirrors (fun pair ds => ∃ text, pair = Pair.mk .vectorType text [⟨.integer, ds, []⟩] ∧ ds ≠ [] ∧
      ds.all Char.isDigit = true) PairGrammar.vectorType (Grammar.bracketed "Vector" Grammar.integer) := by
    refine Mirrors.span (integer_mirrors.one.bracketed "Vector") ?_
    rintro text inner ds ⟨pair, rfl, rfl, hds⟩
    exact ⟨text, rfl, hds⟩
  refine hspan.one.map_right _ ?_
  rintro inner ds ⟨pair, rfl, text, rfl, hne, hds⟩ text'
  have hpair : (Pair.mk .integer ds []).text = ds := rfl
  rw [PairParser.parseTypeExpr, parseTypeExpr, hpair, parseU32_digits hne hds]
  by_cases hn : Nat.ofDigitChars 10 ds 0 < UInt32.size
  · rw [if_pos hn, if_pos hn]
  · rw [if_neg hn, if_neg hn]

theorem listType_mirrors {p : Parser Pair} {q : Parser Grammar.TypePair}
    (h : Mirrors (fun pair t => PairParser.parseTypeExpr pair = parseTypeExpr t) p q) :
    Mirrors IsType (PairGrammar.one (PairGrammar.listType p)) (Grammar.listType q) := by
  have hspan : Mirrors (fun pair t => ∃ text elem, pair = Pair.mk .listType text [elem] ∧
      PairParser.parseTypeExpr elem = parseTypeExpr t) (PairGrammar.listType p) (Grammar.bracketed "List" q) := by
    refine Mirrors.span (h.one.bracketed "List") ?_
    rintro text inner t ⟨elem, rfl, helem⟩
    exact ⟨text, elem, rfl, helem⟩
  refine hspan.one.map_right _ ?_
  rintro inner t ⟨pair, rfl, text, elem, rfl, helem⟩ text'
  rw [PairParser.parseTypeExpr, parseTypeExpr, helem]

theorem mapType_mirrors {p : Parser Pair} {q : Parser Grammar.TypePair}
    (h : Mirrors (fun pair t => PairParser.parseTypeExpr pair = parseTypeExpr t) p q) :
    Mirrors IsType (PairGrammar.one (PairGrammar.mapType p)) (Grammar.mapType q) := by
  have hspan : Mirrors (fun pair kv => ∃ text key value, pair = Pair.mk .mapType text [key, value] ∧
      PairParser.parseTypeExpr key = parseTypeExpr kv.1 ∧ PairParser.parseTypeExpr value = parseTypeExpr kv.2)
      (PairGrammar.mapType p) (Grammar.bracketed "Map" (do
        let key ← q
        Grammar.skip
        literal ",".toList
        Grammar.skip
        let value ← q
        pure (key, value))) := by
    refine Mirrors.span (R := fun inner kv => ∃ key value, inner = [key, value] ∧
      PairParser.parseTypeExpr key = parseTypeExpr kv.1 ∧ PairParser.parseTypeExpr value = parseTypeExpr kv.2)
      (Mirrors.bracketed "Map" ?_) ?_
    · exact h.bind fun key k hk => Mirrors.token _ fun _ => Mirrors.token _ fun _ => Mirrors.token _ fun _ =>
        h.bind fun value v hv => Mirrors.pure ⟨key, value, rfl, hk, hv⟩
    · rintro text inner kv ⟨key, value, rfl, hkv⟩
      exact ⟨text, key, value, rfl, hkv⟩
  refine hspan.one.map_right (fun kv => Grammar.TypePair.map kv.1 kv.2) ?_
  rintro inner kv ⟨pair, rfl, text, key, value, rfl, hk, hv⟩ text'
  rw [PairParser.parseTypeExpr, parseTypeExpr, hk, hv]

theorem primitiveType_mirrors :
    Mirrors IsType (PairGrammar.one (PairGrammar.primitiveType X)) (Grammar.primitiveType X) := by
  have htext : Mirrors (fun text t => ∃ w : String, text = w.toList ∧ t = Grammar.TypePair.primitive w) (do
      let text ← Grammar.choose Grammar.primitiveTexts
      notAhead (satisfy X.xidContinue)
      pure text.toList) (Grammar.primitiveType X) :=
    Mirrors.token _ fun w => Mirrors.token _ fun _ => Mirrors.pure ⟨w, rfl, rfl⟩
  refine (Mirrors.atomic htext fun s text t h => ?_).one.mono ?_
  · obtain ⟨w, t₁, h₁, h⟩ := bind_eq_some.1 h
    obtain ⟨u, t₂, h₂, h⟩ := bind_eq_some.1 h
    cases h
    rw [(choose_eq_some h₁).2, (notAhead_eq_some.1 h₂).2]
  · rintro inner t ⟨pair, rfl, _, rfl, w, rfl, rfl⟩ text'
    rw [PairParser.parseTypeExpr, String.ofList_toList]
    rfl

theorem named_mirrors {keyword : String} {rule : PestRule} {f : String → Grammar.TypePair}
    (h : ∀ text text' name inner, PairParser.nextIdentName inner = .ok (name, []) →
      PairParser.parseTypeExpr ⟨.typeExpr, text, [⟨rule, text', inner⟩]⟩ = parseTypeExpr (f name)) :
    Mirrors IsType (PairGrammar.one (PairGrammar.span rule (bracketed keyword (PairGrammar.one (PairGrammar.ident X)))))
      (do
        let name ← bracketed keyword (ident X)
        pure (f name)) := by
  have hspan : Mirrors (fun pair name => ∃ text inner, pair = Pair.mk rule text inner ∧
      PairParser.nextIdentName inner = .ok (name, []))
      (PairGrammar.span rule (bracketed keyword (PairGrammar.one (PairGrammar.ident X)))) (bracketed keyword (ident X)) := by
    refine Mirrors.span ((ident_mirrors X).one.bracketed keyword) ?_
    rintro text inner name ⟨pair, rfl, hname⟩
    exact ⟨text, [pair], rfl, hname.next []⟩
  refine hspan.one.map_right _ ?_
  rintro inner name ⟨pair, rfl, text, inner, rfl, hname⟩ text'
  exact h text' text name inner hname

theorem typeExprFuel_mirrors (fuel : ℕ) :
    Mirrors (fun pair t => PairParser.parseTypeExpr pair = parseTypeExpr t) (PairGrammar.typeExprFuel X fuel)
      (typeExprFuel X fuel) := by
  induction fuel with
  | zero => exact fun s => Or.inl ⟨rfl, rfl⟩
  | succ fuel ih =>
    refine Mirrors.span (R := IsType) ?_ fun text inner t h => h text
    refine vectorType_mirrors.orElse ((listType_mirrors ih).orElse ((mapType_mirrors ih).orElse
      (Mirrors.orElse ?_ (Mirrors.orElse ?_ ((primitiveType_mirrors X).orElse ?_)))))
    · refine named_mirrors X fun text text' name inner hname => ?_
      rw [PairParser.parseTypeExpr, hname]
      rfl
    · refine named_mirrors X fun text text' name inner hname => ?_
      rw [PairParser.parseTypeExpr, hname]
      rfl
    · refine (ident_mirrors X).one.map_right _ ?_
      rintro inner name ⟨⟨rule, text, inner⟩, rfl, hrule, hname⟩ text'
      cases hrule
      rw [PairParser.parseTypeExpr, hname]
      rfl

theorem typeExpr_mirrors : Mirrors (fun pair t => PairParser.parseTypeExpr pair = parseTypeExpr t)
    (PairGrammar.typeExpr X) (typeExpr X) := fun s => typeExprFuel_mirrors X (s.length + 1) s

/-! ## Fields -/

theorem annotation_mirrors : Mirrors (fun pair text => ∃ span, pair = Pair.mk .annotationRule span [⟨.plainIdent, text, []⟩])
    (PairGrammar.annotationPair X) ( annotation X) := by
  refine Mirrors.span (R := fun inner text => inner = [⟨.plainIdent, text, []⟩]) ?_ ?_
  · refine Mirrors.token _ fun _ => Mirrors.token _ fun _ => (plainIdent_mirrors X).one.mono ?_
    rintro inner text ⟨pair, rfl, rfl⟩
    rfl
  · rintro span inner text rfl
    exact ⟨span, rfl⟩

theorem parseAnnotations_eq (name : String) {pairs : List Pair} {texts : List (List Char)}
    (h : List.Forall₂ (fun pair text => ∃ span, pair = Pair.mk .annotationRule span [⟨.plainIdent, text, []⟩]) pairs texts)
    (indexed unique : Bool) :
    PairParser.parseAnnotations name pairs indexed unique = parseAnnotations name texts indexed unique := by
  induction h generalizing indexed unique with
  | nil => rfl
  | @cons pair text pairs texts hpair _ ih =>
    obtain ⟨span, rfl⟩ := hpair
    rw [PairParser.parseAnnotations, parseAnnotations]
    simp only [ih]
    rfl

/-- The pair of a definition, a field or the like, and the conversion of its typed result. -/
def Converts {α β : Type} (rule : PestRule) (f : Pair → Outcome β) (g : α → Outcome β) (pair : Pair) (a : α) : Prop :=
  pair.rule = rule ∧ f pair = g a

theorem fieldDef_mirrors : Mirrors (Converts .fieldDef PairParser.parseFieldDef parseFieldDef)
    (PairGrammar.fieldDef X) (fieldDef X) := by
  refine Mirrors.span (R := fun inner p => ∀ text, PairParser.parseFieldDef ⟨.fieldDef, text, inner⟩ = parseFieldDef p)
    ?_ fun text inner p h => ⟨rfl, h text⟩
  refine (ident_mirrors X).bind fun name n hname => Mirrors.token _ fun _ => Mirrors.token _ fun _ =>
    Mirrors.token _ fun _ => (typeExpr_mirrors X).bind fun type t htype => Mirrors.token _ fun _ =>
    (Mirrors.rep skip (annotation_mirrors X)).bind fun anns texts hanns => Mirrors.pure fun text => ?_
  unfold PairParser.parseFieldDef parseFieldDef
  rw [show (Pair.mk .fieldDef text (name :: type :: anns)).inner = name :: type :: anns from rfl, hname.next]
  simp only [Outcome.ok_bind, htype, parseAnnotations_eq n hanns]

theorem fieldBlock_mirrors : Mirrors (List.Forall₂ (Converts .fieldDef PairParser.parseFieldDef parseFieldDef))
    (PairGrammar.fieldBlock X) (fieldBlock X) :=
  Mirrors.token _ fun _ => Mirrors.token _ fun _ => (Mirrors.rep skip (fieldDef_mirrors X)).bind fun _ _ h =>
    Mirrors.token _ fun _ => Mirrors.token _ fun _ => Mirrors.pure h

theorem parseEach_eq {α β : Type} {rule : PestRule} {f : Pair → Outcome β} {g : α → Outcome β} {pairs : List Pair}
    {as : List α} (h : List.Forall₂ (Converts rule f g) pairs as) :
    PairParser.parseEach rule f pairs = parseAll g as := by
  induction h with
  | nil => rfl
  | cons hpair _ ih => rw [PairParser.parseEach, if_pos hpair.1, hpair.2, ih, parseAll]

/-! ## Nodes -/

/-- The pair of the type parameters of a node. -/
def IsTypeParams (pair : Pair) (names : List String) : Prop :=
  pair.rule = .typeParams ∧ PairParser.parseEach .typeParam PairParser.identName pair.inner = .ok names

theorem typeParams_mirrors : Mirrors IsTypeParams (PairGrammar.typeParams X) (params (ident X)) := by
  have hparam : Mirrors (Converts .typeParam PairParser.identName Outcome.ok)
      (PairGrammar.span .typeParam (PairGrammar.one (PairGrammar.ident X))) (ident X) := by
    refine Mirrors.span (ident_mirrors X).one ?_
    rintro text inner name ⟨⟨rule, text', inner'⟩, rfl, hrule, hname⟩
    cases hrule
    refine ⟨rfl, ?_⟩
    rw [PairParser.identName]
    · exact hname
    · exact nofun
    · exact nofun
  refine Mirrors.span hparam.params fun text inner names h => ⟨rfl, ?_⟩
  exact (parseEach_eq h).trans (parseAll_ok names)

/-- The pair of the base of a node. -/
def IsExtends (pair : Pair) (base : String) : Prop :=
  pair.rule = .extendsClause ∧ ∃ rest, PairParser.nextIdentName pair.inner = .ok (base, rest)

theorem extendsClause_mirrors : Mirrors IsExtends (PairGrammar.extendsClause X) (extendsClause X) := by
  refine Mirrors.span (R := fun inner base => ∃ pair, inner = [pair] ∧ IsName pair base) ?_ ?_
  · exact Mirrors.token _ fun _ => Mirrors.token _ fun _ => (ident_mirrors X).one
  · rintro text inner base ⟨pair, rfl, hname⟩
    exact ⟨rfl, [], hname.next []⟩

theorem parseNodeParts_typeParams {params : Option Pair} {names : Option (List String)}
    (h : Option.Rel IsTypeParams params names) (parts : List Pair) (n : NodeDef) :
    PairParser.parseNodeParts (params.toList ++ parts) n =
      PairParser.parseNodeParts parts { n with typeParams := n.typeParams ++ names.getD [] } := by
  cases h with
  | none => simp
  | some h =>
    obtain ⟨hrule, hnames⟩ := h
    show PairParser.parseNodeParts (_ :: parts) n = _
    rw [PairParser.parseNodeParts, hrule]
    dsimp only
    rw [hnames]
    rfl

theorem parseNodeParts_extends {base : Option Pair} {name : Option String} (h : Option.Rel IsExtends base name)
    (parts : List Pair) {n : NodeDef} (hn : n.extends? = none) :
    PairParser.parseNodeParts (base.toList ++ parts) n =
      PairParser.parseNodeParts parts { n with extends? := name } := by
  cases h with
  | none =>
    rw [← hn]
    rfl
  | some h =>
    obtain ⟨hrule, rest, hname⟩ := h
    show PairParser.parseNodeParts (_ :: parts) n = _
    rw [PairParser.parseNodeParts, hrule]
    dsimp only
    rw [hname]
    rfl

theorem parseNodeParts_fields {pairs : List Pair} {ps : List FieldPair}
    (h : List.Forall₂ (Converts .fieldDef PairParser.parseFieldDef parseFieldDef) pairs ps) (n : NodeDef) :
    PairParser.parseNodeParts pairs n = (do
      let fields ← parseAll parseFieldDef ps
      pure { n with fields := n.fields ++ fields }) := by
  induction h generalizing n with
  | nil =>
    show Outcome.ok n = .ok { n with fields := n.fields ++ [] }
    rw [List.append_nil]
  | @cons pair p pairs ps hpair _ ih =>
    rw [PairParser.parseNodeParts, hpair.1]
    dsimp only
    rw [hpair.2, parseAll]
    cases parseFieldDef p with
    | ok field =>
      show PairParser.parseNodeParts pairs { n with fields := n.fields ++ [field] } = _
      rw [ih]
      show _ = Outcome.bind (Outcome.bind _ _) _
      cases parseAll parseFieldDef ps with
      | ok fields =>
        show Outcome.ok _ = Outcome.ok _
        simp
      | err e => rfl
      | panic => rfl
    | err e => rfl
    | panic => rfl

theorem nodeDef_mirrors : Mirrors (Converts .nodeDef PairParser.parseNodeDef parseNodeDef)
    (PairGrammar.nodeDef X) (nodeDef X) := by
  refine Mirrors.span (R := fun inner n => ∀ text, PairParser.parseNodeDef ⟨.nodeDef, text, inner⟩ = parseNodeDef n)
    ?_ fun text inner n h => ⟨rfl, h text⟩
  refine Mirrors.token _ fun _ => Mirrors.token _ fun _ => (ident_mirrors X).bind fun name n hname =>
    Mirrors.token _ fun _ => (typeParams_mirrors X).opt.bind fun params names hparams => Mirrors.token _ fun _ =>
    (extendsClause_mirrors X).opt.bind fun base b hbase => Mirrors.token _ fun _ =>
    (fieldBlock_mirrors X).bind fun fields ps hfields => Mirrors.pure fun text => ?_
  unfold PairParser.parseNodeDef
  rw [show (Pair.mk .nodeDef text (name :: (params.toList ++ base.toList ++ fields))).inner = name ::
    (params.toList ++ base.toList ++ fields) from rfl, hname.next]
  show PairParser.parseNodeParts (params.toList ++ base.toList ++ fields) ⟨n, [], none, []⟩ = _
  rw [List.append_assoc, parseNodeParts_typeParams hparams, parseNodeParts_extends hbase _ rfl,
    parseNodeParts_fields hfields]
  rfl

/-! ## Edges -/

theorem boundParam_mirrors : Mirrors (Converts .boundParam PairParser.parseBoundParam Outcome.ok)
    (PairGrammar.boundParam X) (boundParam X) := by
  refine Mirrors.span (R := fun inner p => ∀ text, PairParser.parseBoundParam ⟨.boundParam, text, inner⟩ = .ok p)
    ?_ fun text inner p h => ⟨rfl, h text⟩
  refine (ident_mirrors X).bind fun name n hname => Mirrors.token _ fun _ =>
    (Mirrors.token _ fun _ => Mirrors.token _ fun _ => ident_mirrors X).opt.bind fun bound b hbound =>
    Mirrors.pure fun text => ?_
  unfold PairParser.parseBoundParam
  rw [show (Pair.mk .boundParam text (name :: bound.toList)).inner = name :: bound.toList from rfl, hname.next]
  cases hbound with
  | none => rfl
  | @some pair b hpair =>
    show (do
      let bound ← PairParser.identName pair
      pure (⟨n, some bound⟩ : BoundParam)) = _
    rw [hpair.2]
    rfl

/-- The pair of the generic parameters of an edge. -/
def IsGenericParams (pair : Pair) (ps : List BoundParam) : Prop :=
  pair.rule = .genericParams ∧ PairParser.parseEach .boundParam PairParser.parseBoundParam pair.inner = .ok ps

theorem genericParams_mirrors : Mirrors IsGenericParams (PairGrammar.genericParams X) (params (boundParam X)) :=
  Mirrors.span (boundParam_mirrors X).params fun _ _ ps h => ⟨rfl, (parseEach_eq h).trans (parseAll_ok ps)⟩

/-- The pair of an end of an edge. -/
def IsEndpoint (rule : PestRule) (pair : Pair) (t : Grammar.TypePair) : Prop :=
  pair.rule = rule ∧ ∃ type, pair.inner = [type] ∧ PairParser.parseTypeExpr type = parseTypeExpr t

theorem endpoint_mirrors (rule : PestRule) (keyword : String) :
    Mirrors (IsEndpoint rule) (PairGrammar.endpoint X rule keyword) (endpoint X keyword) := by
  refine Mirrors.span (R := fun inner t => ∃ type, inner = [type] ∧ PairParser.parseTypeExpr type = parseTypeExpr t)
    ?_ fun text inner t h => ⟨rfl, h⟩
  exact Mirrors.token _ fun _ => Mirrors.token _ fun _ => Mirrors.token _ fun _ => Mirrors.token _ fun _ =>
    (typeExpr_mirrors X).one

/-- The pair of the properties of an edge. -/
def IsProps (pair : Pair) (ps : List FieldPair) : Prop :=
  pair.rule = .propsBlock ∧ PairParser.parseEach .fieldDef PairParser.parseFieldDef pair.inner = parseAll parseFieldDef ps

theorem propsBlock_mirrors : Mirrors IsProps (PairGrammar.propsBlock X) (propsBlock X) := by
  refine Mirrors.span (R := List.Forall₂ (Converts .fieldDef PairParser.parseFieldDef parseFieldDef)) ?_
    fun _ _ ps h => ⟨rfl, parseEach_eq h⟩
  exact Mirrors.token _ fun _ => Mirrors.token _ fun _ => Mirrors.token _ fun _ => Mirrors.token _ fun _ =>
    fieldBlock_mirrors X

theorem parseEdgeParts_params {params : Option Pair} {ps : Option (List BoundParam)}
    (h : Option.Rel IsGenericParams params ps) (parts : List Pair) (e : PairParser.EdgeParts) :
    PairParser.parseEdgeParts (params.toList ++ parts) e =
      PairParser.parseEdgeParts parts { e with genericParams := e.genericParams ++ ps.getD [] } := by
  cases h with
  | none => simp
  | some h =>
    obtain ⟨hrule, hps⟩ := h
    show PairParser.parseEdgeParts (_ :: parts) e = _
    rw [PairParser.parseEdgeParts, hrule]
    dsimp only
    rw [hps]
    rfl

theorem parseEdgeParts_from {pair : Pair} {t : Grammar.TypePair} (h : IsEndpoint .edgeFrom pair t) (parts : List Pair)
    (e : PairParser.EdgeParts) : PairParser.parseEdgeParts (pair :: parts) e = (do
      let type ← parseTypeExpr t
      PairParser.parseEdgeParts parts { e with fromType := some type }) := by
  obtain ⟨hrule, type, hinner, htype⟩ := h
  rw [PairParser.parseEdgeParts, hrule, hinner]
  dsimp only
  rw [htype]

theorem parseEdgeParts_to {pair : Pair} {t : Grammar.TypePair} (h : IsEndpoint .edgeTo pair t) (parts : List Pair)
    (e : PairParser.EdgeParts) : PairParser.parseEdgeParts (pair :: parts) e = (do
      let type ← parseTypeExpr t
      PairParser.parseEdgeParts parts { e with toType := some type }) := by
  obtain ⟨hrule, type, hinner, htype⟩ := h
  rw [PairParser.parseEdgeParts, hrule, hinner]
  dsimp only
  rw [htype]

theorem parseEdgeParts_props {props : Option Pair} {ps : Option (List FieldPair)} (h : Option.Rel IsProps props ps)
    {e : PairParser.EdgeParts} (he : e.props = []) : PairParser.parseEdgeParts props.toList e = (do
      let fields ← parseAll parseFieldDef (ps.getD [])
      pure { e with props := fields }) := by
  cases h with
  | none =>
    show Outcome.ok e = .ok { e with props := [] }
    rw [← he]
  | @some pair ps h =>
    obtain ⟨hrule, hps⟩ := h
    show PairParser.parseEdgeParts [pair] e = _
    rw [PairParser.parseEdgeParts, hrule]
    dsimp only
    rw [hps, he]
    rfl

theorem edgeDef_mirrors : Mirrors (Converts .edgeDef PairParser.parseEdgeDef parseEdgeDef)
    (PairGrammar.edgeDef X) (edgeDef X) := by
  refine Mirrors.span (R := fun inner e => ∀ text, PairParser.parseEdgeDef ⟨.edgeDef, text, inner⟩ = parseEdgeDef e)
    ?_ fun text inner n h => ⟨rfl, h text⟩
  refine Mirrors.token _ fun _ => Mirrors.token _ fun _ => (ident_mirrors X).bind fun name n hname =>
    Mirrors.token _ fun _ => (genericParams_mirrors X).opt.bind fun params ps hparams => Mirrors.token _ fun _ =>
    Mirrors.token _ fun _ => Mirrors.token _ fun _ => (endpoint_mirrors X .edgeFrom "from").bind fun src t hsrc =>
    Mirrors.token _ fun _ => (endpoint_mirrors X .edgeTo "to").bind fun dst u hdst => Mirrors.token _ fun _ =>
    (propsBlock_mirrors X).opt.bind fun props fs hprops => Mirrors.token _ fun _ => Mirrors.token _ fun _ =>
    Mirrors.pure fun text => ?_
  unfold PairParser.parseEdgeDef parseEdgeDef
  rw [show (Pair.mk .edgeDef text (name :: (params.toList ++ src :: dst :: props.toList))).inner = name ::
    (params.toList ++ src :: dst :: props.toList) from rfl, hname.next]
  show Outcome.bind (PairParser.parseEdgeParts (params.toList ++ src :: dst :: props.toList) ⟨[], none, none, []⟩) _ = _
  rw [parseEdgeParts_params hparams, parseEdgeParts_from hsrc]
  dsimp only
  cases parseTypeExpr t with
  | ok t =>
    show Outcome.bind (PairParser.parseEdgeParts (dst :: props.toList) _) _ = _
    rw [parseEdgeParts_to hdst]
    dsimp only
    cases parseTypeExpr u with
    | ok u =>
      show Outcome.bind (PairParser.parseEdgeParts props.toList _) _ = _
      rw [parseEdgeParts_props hprops rfl]
      cases parseAll parseFieldDef (fs.getD []) <;> rfl
    | err e => rfl
    | panic => rfl
  | err e => rfl
  | panic => rfl

/-! ## Schemas -/

theorem definition_mirrors : Mirrors (Converts .definition PairParser.parseDefinition parseDefinition)
    (PairGrammar.definition X) (definition X) := by
  refine Mirrors.span (R := fun inner d => ∀ text,
    PairParser.parseDefinition ⟨.definition, text, inner⟩ = parseDefinition d) ?_ fun text inner d h => ⟨rfl, h text⟩
  refine Mirrors.orElse ?_ ?_
  · refine (nodeDef_mirrors X).one.map_right _ ?_
    rintro inner n ⟨pair, rfl, hrule, hnode⟩ text
    unfold PairParser.parseDefinition
    rw [show (Pair.mk .definition text [pair]).inner = [pair] from rfl]
    dsimp only
    rw [hrule, parseDefinition, ← hnode]
  · refine (edgeDef_mirrors X).one.map_right _ ?_
    rintro inner e ⟨pair, rfl, hrule, hedge⟩ text
    unfold PairParser.parseDefinition
    rw [show (Pair.mk .definition text [pair]).inner = [pair] from rfl]
    dsimp only
    rw [hrule, parseDefinition, ← hedge]

theorem parseEach_append {α : Type} {rule : PestRule} {f : Pair → Outcome α} {pair : Pair} (h : pair.rule ≠ rule)
    (pairs : List Pair) : PairParser.parseEach rule f (pairs ++ [pair]) = PairParser.parseEach rule f pairs := by
  induction pairs with
  | nil => simp [PairParser.parseEach, h]
  | cons p pairs ih =>
    rw [List.cons_append, PairParser.parseEach, PairParser.parseEach, ih]

/-- **The pairs of a schema convert to what its typed results convert to.** -/
theorem schema_mirrors : Mirrors (fun pair defs => pair.rule = .schema ∧
      PairParser.parseEach .definition PairParser.parseDefinition pair.inner = parseAll parseDefinition defs)
    (PairGrammar.schema X) (schema X) := by
  refine Mirrors.span (R := fun inner defs =>
    PairParser.parseEach .definition PairParser.parseDefinition inner = parseAll parseDefinition defs)
    ?_ fun text inner defs h => ⟨rfl, h⟩
  refine Mirrors.token _ fun _ => (Mirrors.rep skip (definition_mirrors X)).bind fun pairs defs h =>
    Mirrors.token _ fun _ => Mirrors.token _ fun _ => Mirrors.pure ?_
  have heoi : (Pair.mk .eoi [] []).rule ≠ .definition := by decide
  rw [parseEach_append heoi, parseEach_eq h]

/-- **Walking the pairs is converting the typed results.** -/
theorem parse_eq (input : String) : PairParser.parse X input = parse X input := by
  unfold PairParser.parse parse
  rcases schema_mirrors X input.toList with ⟨hp, hq⟩ | ⟨pair, defs, t, hp, hq, hrule, hdefs⟩
  · rw [hp, hq]
  · rw [hp, hq]
    dsimp only
    rw [if_pos hrule, hdefs]

/-! ## Faults -/

/-- What a conversion can stumble over in a parse tree: a dimension that is no `u32`, which panics; an annotation
    that is not known, or a primitive type, which is an error. -/
inductive SchemaFault where
  | dimension (digits : List Char)
  | annotationText (text : List Char)
  | primitive (text : String)
  deriving DecidableEq

/-- The faults of a type, in the order of the conversion. -/
def typeFaults : Grammar.TypePair → List SchemaFault
  | .vector digits => if Nat.ofDigitChars 10 digits 0 < UInt32.size then [] else [.dimension digits]
  | .list elem => typeFaults elem
  | .map key value => typeFaults key ++ typeFaults value
  | .primitive text => if text ∈ PRIMITIVE_TYPE_NAMES then [] else [.primitive text]
  | .nodeRef _ | .edgeRef _ | .ident _ => []

def annotationFaults : List (List Char) → List SchemaFault
  | [] => []
  | text :: texts =>
    (if String.ofList text ∈ ["index", "unique"] then [] else [.annotationText text]) ++ annotationFaults texts

def fieldFaults (p : FieldPair) : List SchemaFault := typeFaults p.typeExpr ++ annotationFaults p.annotations

def definitionFaults : DefinitionPair → List SchemaFault
  | .node n => n.fields.flatMap fieldFaults
  | .edge e => typeFaults e.fromType ++ (typeFaults e.toType ++ e.props.flatMap fieldFaults)

/-- The faults of a schema text, in reading order. -/
def schemaFaults (input : String) : List SchemaFault :=
  match schema X input.toList with
  | none => []
  | some (defs, _) => defs.flatMap definitionFaults

/-- A conversion succeeds without faults, and else ends as its first fault does. -/
def FirstFault {α : Type} (faults : List SchemaFault) (r : Outcome α) : Prop :=
  match faults with
  | [] => ∃ a, r = .ok a
  | .dimension _ :: _ => r = .panic
  | _ :: _ => ∃ e, r = .err e

namespace FirstFault

variable {α β : Type} {fs gs : List SchemaFault} {r : Outcome α}

theorem ok (a : α) : FirstFault [] (Outcome.ok a) := ⟨a, rfl⟩

/-- One conversion after another. -/
theorem bind {f : α → Outcome β} (h : FirstFault fs r) (hf : ∀ a, r = .ok a → FirstFault gs (f a)) :
    FirstFault (fs ++ gs) (r >>= f) := by
  cases fs with
  | nil =>
    obtain ⟨a, rfl⟩ := h
    exact hf a rfl
  | cons fault fs =>
    cases fault with
    | dimension digits =>
      obtain rfl := (h : r = .panic)
      rfl
    | annotationText text =>
      obtain ⟨e, rfl⟩ := (h : ∃ e, r = .err e)
      exact ⟨e, rfl⟩
    | primitive text =>
      obtain ⟨e, rfl⟩ := (h : ∃ e, r = .err e)
      exact ⟨e, rfl⟩

theorem map {f : α → β} (h : FirstFault fs r) : FirstFault fs (do
    let a ← r
    pure (f a)) := by
  have := h.bind fun a _ => ok (f a)
  rwa [List.append_nil] at this

theorem parseAll {γ : Type} {f : γ → Outcome α} {faults : γ → List SchemaFault} (h : ∀ c, FirstFault (faults c) (f c))
    (cs : List γ) : FirstFault (cs.flatMap faults) (ChiffonDB.parseAll f cs) := by
  induction cs with
  | nil => exact ok []
  | cons c cs ih =>
    rw [List.flatMap_cons, ChiffonDB.parseAll]
    exact (h c).bind fun a _ => ih.map

end FirstFault

theorem firstFault_typeExpr (t : Grammar.TypePair) : FirstFault (typeFaults t) (parseTypeExpr t) := by
  induction t with
  | vector digits =>
    rw [typeFaults, parseTypeExpr]
    split
    · exact FirstFault.ok _
    · rfl
  | list elem ih => exact ih.map
  | map key value ihk ihv => exact ihk.bind fun k _ => ihv.map
  | nodeRef name => exact FirstFault.ok _
  | edgeRef name => exact FirstFault.ok _
  | ident name => exact FirstFault.ok _
  | primitive text =>
    rw [typeFaults]
    by_cases h : text ∈ PRIMITIVE_TYPE_NAMES
    · rw [if_pos h]
      simp only [PRIMITIVE_TYPE_NAMES, List.mem_cons, List.not_mem_nil, or_false] at h
      rcases h with rfl | rfl | rfl | rfl | rfl | rfl | rfl <;> exact FirstFault.ok _
    · rw [if_neg h]
      simp only [PRIMITIVE_TYPE_NAMES, List.mem_cons, List.not_mem_nil, or_false, not_or] at h
      refine ⟨.schemaError ("unknown primitive: " ++ text), ?_⟩
      rw [parseTypeExpr] <;> simp [h]

theorem firstFault_annotations (name : String) (texts : List (List Char)) (indexed unique : Bool) :
    FirstFault (annotationFaults texts) (parseAnnotations name texts indexed unique) := by
  induction texts generalizing indexed unique with
  | nil => exact FirstFault.ok _
  | cons text texts ih =>
    rw [annotationFaults, parseAnnotations]
    by_cases hindex : String.ofList text = "index"
    · rw [hindex, if_pos (by simp)]
      exact ih true unique
    · by_cases hunique : String.ofList text = "unique"
      · rw [hunique, if_pos (by simp)]
        exact ih indexed true
      · rw [if_neg (by simp [hindex, hunique])]
        refine ⟨.schemaError ("unknown field annotation '@" ++ String.ofList text ++ "' on '" ++ name ++ "'"), ?_⟩
        split
        · rename_i h
          exact absurd h hindex
        · rename_i h
          exact absurd h hunique
        · rfl

theorem firstFault_field (p : FieldPair) : FirstFault (fieldFaults p) (parseFieldDef p) :=
  (firstFault_typeExpr p.typeExpr).bind fun _ _ => (firstFault_annotations p.name p.annotations false false).map

theorem firstFault_definition (d : DefinitionPair) : FirstFault (definitionFaults d) (parseDefinition d) := by
  cases d with
  | node n => exact (FirstFault.parseAll firstFault_field n.fields).map.map
  | edge e =>
    exact ((firstFault_typeExpr e.fromType).bind fun _ _ => (firstFault_typeExpr e.toType).bind fun _ _ =>
      (FirstFault.parseAll firstFault_field e.props).map).map

/-- **Schema parsing returns a schema or an error exactly if the first fault of the text is not a dimension of 2³² or
    more.** -/
theorem parse_returns_iff (input : String) :
    ((∃ ast, PairParser.parse X input = .ok ast) ∨ ∃ e, PairParser.parse X input = .err e) ↔
      ¬ ∃ digits faults, schemaFaults X input = .dimension digits :: faults := by
  rw [parse_eq]
  unfold parse schemaFaults
  cases schema X input.toList with
  | none => exact ⟨fun _ => nofun, fun _ => Or.inr ⟨_, rfl⟩⟩
  | some x =>
    obtain ⟨defs, t⟩ := x
    have hfirst : FirstFault (defs.flatMap definitionFaults) (do
        let definitions ← parseAll parseDefinition defs
        pure (⟨definitions⟩ : SchemaAst)) := (FirstFault.parseAll firstFault_definition defs).map
    dsimp only
    cases hfaults : defs.flatMap definitionFaults with
    | nil =>
      rw [hfaults] at hfirst
      exact ⟨fun _ => nofun, fun _ => Or.inl hfirst⟩
    | cons fault faults =>
      rw [hfaults] at hfirst
      cases fault with
      | dimension digits =>
        have hpanic : (do
            let definitions ← parseAll parseDefinition defs
            pure (⟨definitions⟩ : SchemaAst)) = Outcome.panic := hfirst
        rw [hpanic]
        refine ⟨?_, fun h => absurd ⟨digits, faults, rfl⟩ h⟩
        rintro (⟨_, h⟩ | ⟨_, h⟩) <;> cases h
      | annotationText text => exact ⟨fun _ => nofun, fun _ => Or.inr hfirst⟩
      | primitive text => exact ⟨fun _ => nofun, fun _ => Or.inr hfirst⟩

/-- A vector of 2³² components. -/
theorem parse_panics_on_dimension : ¬ ∀ (X : Pest) (input : String),
    (∃ ast, PairParser.parse X input = .ok ast) ∨ ∃ e, PairParser.parse X input = .err e := by
  intro h
  have hpanic : PairParser.parse asciiPest "node A \x7b v: Vector<4294967296> \x7d" = .panic := by
    decide +kernel
  have hp := h asciiPest "node A \x7b v: Vector<4294967296> \x7d"
  rw [hpanic] at hp
  rcases hp with ⟨_, h⟩ | ⟨_, h⟩ <;> cases h

end ChiffonDB

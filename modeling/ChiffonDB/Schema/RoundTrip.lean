import ChiffonDB.Schema.Printing

/-!
# Printing and parsing schemas

* `schema_unparse` — a schema whose names fit is read back from its printed text.
* `parse_unparse_iff` — **printing a parsed schema and parsing the text gives the schema back exactly
  when every name that passes for a bare one is an identifier.**
* `padded_name_lost` — a quoted name with a space in front comes back without it.
-/

set_option autoImplicit false

namespace ChiffonDB

open Peg Parser Grammar

namespace Grammar

variable {X : Pest}

/-- The names that can be printed and read back. -/
def Fits (X : Pest) (names : List String) : Prop := ∀ name ∈ names, Writable name ∧ NameFits X name

theorem Fits.of_append {names names' : List String} (h : Fits X (names ++ names')) :
    Fits X names ∧ Fits X names' := by
  simp only [Fits, List.mem_append] at h ⊢
  exact ⟨fun name hname => h name (.inl hname), fun name hname => h name (.inr hname)⟩

theorem Fits.of_cons {name : String} {names : List String} (h : Fits X (name :: names)) :
    (Writable name ∧ NameFits X name) ∧ Fits X names := by
  simp only [Fits, List.mem_cons] at h ⊢
  exact ⟨h name (.inl rfl), fun other hother => h other (.inr hother)⟩

theorem Fits.of_flatMap {α : Type} {f : α → List String} {as : List α} (h : Fits X (as.flatMap f)) {a : α}
    (ha : a ∈ as) : Fits X (f a) := fun name hname => h name (List.mem_flatMap.2 ⟨a, ha, hname⟩)

/-! ## Repetition -/

/-- Where each printed piece is read up to what is skipped, so is their sequence. -/
theorem many_printed {α β : Type} {p : Parser α} {Good : List Char → Prop} {f : β → List Char} {g : β → α}
    {t : List Char} (hstop : p (skipped t) = none) (ht : Good t) {bs : List β}
    (hgood : ∀ b ∈ bs, ∀ u, Good (f b ++ u))
    (hread : ∀ b ∈ bs, ∀ u, Good u → ∃ r, p (skipped (f b ++ u)) = some (g b, r) ∧ skipped r = skipped u)
    {s : List Char} (hs : skipped s = skipped (bs.flatMap f ++ t)) :
    ∃ r, Many (do
      skip
      p) s (bs.map g) r ∧ skipped r = skipped t := by
  induction bs generalizing s with
  | nil =>
    refine ⟨s, .nil ?_, hs⟩
    rw [skip_bind, hs]
    exact hstop
  | cons b bs ih =>
    have hrest : Good (bs.flatMap f ++ t) := by
      cases bs with
      | nil => exact ht
      | cons b' bs => simpa using hgood b' (by simp) (bs.flatMap f ++ t)
    obtain ⟨r, hr, hskip⟩ := hread b (by simp) _ hrest
    obtain ⟨r', hmany, hr'⟩ := ih (fun b' hb' => hgood b' (by simp [hb']))
      (fun b' hb' => hread b' (by simp [hb'])) hskip
    refine ⟨r', .cons ?_ hmany, hr'⟩
    rw [skip_bind, hs, List.flatMap_cons, List.append_assoc]
    exact hr

theorem rep_printed {α β : Type} {p : Parser α} (hc : Consumes p) {Good : List Char → Prop}
    {f : β → List Char} {g : β → α} {t : List Char} (hstop : p (skipped t) = none) (ht : Good t)
    {bs : List β} (hgood : ∀ b ∈ bs, ∀ u, Good (f b ++ u))
    (hread : ∀ b ∈ bs, ∀ u, Good u → ∃ r, p (skipped (f b ++ u)) = some (g b, r) ∧ skipped r = skipped u) :
    ∃ r, rep skip p (skipped (bs.flatMap f ++ t)) = some (bs.map g, r) ∧ skipped r = skipped t := by
  obtain ⟨r, hmany, hr⟩ := many_printed hstop ht hgood hread (skipped_skipped (bs.flatMap f ++ t))
  rcases hmany.inv with ⟨hnil, -, -⟩ | ⟨a, u, as, hcons, ha, hm⟩
  · rw [List.map_eq_nil_iff] at hnil
    subst hnil
    exact ⟨skipped t, rep_of_none hstop, skipped_skipped t⟩
  · refine ⟨r, ?_, hr⟩
    rw [skip_bind, skipped_skipped] at ha
    rw [hcons]
    exact rep_of_some shortens_skip hc ha hm

/-! ## First characters -/

/-- A symbol of the language that starts no name. -/
def IsSymbol (c : Char) : Prop := c.toNat < 128 ∧ (c.isAlphanum || c == '_') = false ∧ c ≠ '\x60'

instance (c : Char) : Decidable (IsSymbol c) := inferInstanceAs (Decidable (_ ∧ _ ∧ _))

theorem ident_symbol (hX : X.Standard) {c : Char} (hc : IsSymbol c) (s : List Char) :
    ident X (c :: s) = none := by
  obtain ⟨hascii, hsym, htick⟩ := hc
  have hquoted : quotedIdent (c :: s) = none := bind_of_none (literal_cons_ne htick.symm _ _) _
  have hplain : plainIdent X (c :: s) = none := by
    refine bind_of_none (satisfy_eq_none.2 ?_) _
    intro d t he
    cases he
    cases hstart : X.xidStart c || c == '_' with
    | false => rfl
    | true => exact absurd rfl (xid_ne hX (.inl hstart) hascii hsym)
  unfold ident
  rw [orElse_of_none (bind_of_none hquoted _), bind_of_none hplain]

/-- A printed name starts with no symbol. -/
theorem unparseName_ne (hX : X.Standard) {name : String} (hfit : NameFits X name) {c : Char}
    (hc : IsSymbol c) (t s : List Char) : (unparseName X name).toList ++ t ≠ c :: s := by
  unfold unparseName
  split
  case isTrue h =>
    have hne := (hfit h).ne hX hc.1 hc.2.1
    obtain ⟨d, ds, he, -⟩ := plainIdent_eq_some.1 (hfit h)
    rw [he] at hne ⊢
    intro heq
    cases heq
    exact hne c (by simp) rfl
  case isFalse =>
    intro heq
    have hquote : (quote name).toList ++ t = '\x60' :: (doubled name.toList ++ '\x60' :: t) := by
      simp [quote]
    rw [hquote] at heq
    cases heq
    exact hc.2.2 rfl

/-! ## Fields -/

/-- The annotations a field is printed with. -/
def annotationsOf (f : FieldDef) : List String :=
  (if f.indexed then ["index"] else []) ++ (if f.unique then ["unique"] else [])

def fieldPairOf (f : FieldDef) : FieldPair :=
  ⟨f.name, pairOf f.typeExpr, (annotationsOf f).map String.toList⟩

theorem parseFieldDef_fieldPairOf (f : FieldDef) : parseFieldDef (fieldPairOf f) = .ok f := by
  obtain ⟨name, type, indexed, unique⟩ := f
  unfold parseFieldDef fieldPairOf
  rw [parseTypeExpr_pairOf]
  cases indexed <;> cases unique <;> rfl

theorem mem_annotationsOf {f : FieldDef} {word : String} (h : word ∈ annotationsOf f) :
    word = "index" ∨ word = "unique" := by
  rcases List.mem_append.1 h with h | h
  · split at h
    · exact .inl (List.mem_singleton.1 h)
    · cases h
  · split at h
    · exact .inr (List.mem_singleton.1 h)
    · cases h

theorem annotation_apply (hX : X.Standard) {word : String} (hword : word = "index" ∨ word = "unique")
    {u : List Char} (hu : Stops X u) :
    annotation X (skipped ((" @" ++ word).toList ++ u)) = some (word.toList, u) := by
  have hplain : IsPlain X word.toList := by
    rcases hword with rfl | rfl <;> exact isPlain_letters hX (by simp) (by simp)
  have htext : (" @" ++ word).toList ++ u = ' ' :: '@' :: (word.toList ++ u) := by simp
  have hat : literal "@".toList ('@' :: (word.toList ++ u)) = some ((), word.toList ++ u) :=
    literal_append "@".toList _
  rw [htext, skipped_space (.inl rfl), skipped_of_starts (starts_cons (by decide) (by decide) _)]
  unfold annotation
  rw [bind_of_some hat, skip_bind, skipped_of_starts (hplain.starts hX u)]
  exact plainIdent_append hplain hu

theorem skipped_indent (n : Nat) (s : List Char) :
    skipped ((String.join (List.replicate n "  ")).toList ++ s) = skipped s := by
  induction n with
  | zero => rfl
  | succ n ih =>
    have htwo : (String.join (List.replicate (n + 1) "  ")).toList ++ s =
        ' ' :: ' ' :: ((String.join (List.replicate n "  ")).toList ++ s) := by
      simp [List.replicate_succ]
    rw [htwo, skipped_space (.inl rfl), skipped_space (.inl rfl), ih]

/-- The parts of a printed field. -/
theorem unparseField_toList (indent : Nat) (f : FieldDef) (u : List Char) :
    (unparseField X (String.join (List.replicate indent "  ")) f).toList ++ u =
      (String.join (List.replicate indent "  ")).toList ++ ((unparseName X f.name).toList ++
        ':' :: ' ' :: ((unparseTypeExpr X f.typeExpr).toList ++
          ((annotationsOf f).flatMap (fun word => (" @" ++ word).toList) ++ '\n' :: u))) := by
  unfold unparseField annotationsOf
  cases f.indexed <;> cases f.unique <;> simp

/-- Nothing behind a field continues it. -/
def BehindField (u : List Char) : Prop := ∀ s, skipped u ≠ '<' :: s ∧ skipped u ≠ '@' :: s

/-- A field as it is printed, with the indentation in front and the line break behind. -/
theorem fieldDef_apply (hX : X.Standard) {f : FieldDef} (hfit : Fits X f.names) {u : List Char}
    (hu : BehindField u) (indent : Nat) :
    ∃ r, fieldDef X (skipped ((unparseField X (String.join (List.replicate indent "  ")) f).toList ++ u)) =
      some (fieldPairOf f, r) ∧ skipped r = skipped u := by
  obtain ⟨⟨hw, hname⟩, htype⟩ := hfit.of_cons
  have hline : skipped ('\n' :: u) = skipped u := skipped_space (.inr rfl) u
  have hlineStops : Stops X ('\n' :: u) := stops_cons hX (by decide) (by decide) u
  have hstops : ∀ (word : String) (t : List Char), Stops X ((" @" ++ word).toList ++ t) := by
    intro word t
    have : (" @" ++ word).toList ++ t = ' ' :: '@' :: (word.toList ++ t) := by simp
    rw [this]
    exact stops_cons hX (by decide) (by decide) _
  have hstop : annotation X (skipped ('\n' :: u)) = none := by
    refine bind_of_none ?_ _
    rw [hline, literal_eq_none]
    rintro ⟨t, ht⟩
    exact (hu t).2 ht.symm
  have hread : ∀ word ∈ annotationsOf f, ∀ t, Stops X t → ∃ r,
      annotation X (skipped ((" @" ++ word).toList ++ t)) = some (word.toList, r) ∧ skipped r = skipped t :=
    fun word hmem t ht => ⟨t, annotation_apply hX (mem_annotationsOf hmem) ht, rfl⟩
  obtain ⟨r, hr, hskip⟩ := rep_printed consumes_annotation hstop hlineStops
    (fun word _ t => hstops word t) hread
  refine ⟨r, ?_, by rw [hskip, hline]⟩
  obtain ⟨rest, hrest⟩ : ∃ rest, rest =
    (annotationsOf f).flatMap (fun word => (" @" ++ word).toList) ++ '\n' :: u := ⟨_, rfl⟩
  rw [← hrest] at hr
  have hends : Ends X rest := by
    rw [hrest]
    cases annotationsOf f with
    | nil => exact ⟨hlineStops, fun t ht => (hu t).1 (hline ▸ ht)⟩
    | cons word words =>
      refine ⟨by simpa using hstops word _, fun t ht => ?_⟩
      have hat : ∀ s, skipped ('@' :: s) = '@' :: s :=
        fun s => skipped_of_starts (starts_cons (by decide) (by decide) s)
      simp [skipped_space, hat] at ht
  have hcolon : literal ":".toList (':' :: ' ' :: ((unparseTypeExpr X f.typeExpr).toList ++ rest)) =
      some ((), ' ' :: ((unparseTypeExpr X f.typeExpr).toList ++ rest)) := literal_append ":".toList _
  have htext := unparseField_toList (X := X) indent f u
  rw [← hrest] at htext
  rw [htext, skipped_indent, skipped_of_starts (starts_unparseName hX hname _)]
  unfold fieldDef
  rw [bind_of_some (ident_unparseName hX hw hname (stops_cons hX (by decide) (by decide) _)), skip_bind,
    skipped_of_starts (starts_cons (by decide) (by decide) _), bind_of_some hcolon, skip_bind,
    skipped_space (.inl rfl), skipped_of_starts (starts_unparseTypeExpr hX htype _),
    bind_of_some (typeExpr_unparse hX htype hends), skip_bind, bind_of_some hr, pure_apply]
  rfl

theorem behindField_field (hX : X.Standard) {f : FieldDef} (hfit : Fits X f.names) (indent : Nat)
    (u : List Char) :
    BehindField ((unparseField X (String.join (List.replicate indent "  ")) f).toList ++ u) := by
  obtain ⟨⟨-, hname⟩, -⟩ := hfit.of_cons
  intro s
  rw [unparseField_toList, skipped_indent, skipped_of_starts (starts_unparseName hX hname _)]
  exact ⟨unparseName_ne hX hname (by decide) _ _, unparseName_ne hX hname (by decide) _ _⟩

theorem fieldBlock_apply (hX : X.Standard) {fields : List FieldDef}
    (hfit : Fits X (fields.flatMap FieldDef.names)) (indent : Nat) {close t : List Char}
    (hclose : skipped close = '\x7d' :: t) :
    fieldBlock X ("\x7b\n".toList ++ ((unparseFields X fields indent).toList ++ close)) =
      some (fields.map fieldPairOf, t) := by
  have hbehind : BehindField close := by
    intro s
    rw [hclose]
    simp
  have hstop : fieldDef X (skipped close) = none := by
    rw [hclose]
    exact bind_of_none (ident_symbol hX (by decide) t) _
  obtain ⟨r, hr, hskip⟩ := rep_printed consumes_fieldDef hstop hbehind
    (fun f hf u => behindField_field hX (hfit.of_flatMap hf) indent u)
    (fun f hf u hu => fieldDef_apply hX (hfit.of_flatMap hf) hu indent)
  have hfields : (unparseFields X fields indent).toList ++ close = fields.flatMap (fun f =>
      (unparseField X (String.join (List.replicate indent "  ")) f).toList) ++ close := by
    simp [unparseFields, List.flatMap_map]
  have hopen : literal "\x7b".toList
      ("\x7b\n".toList ++ ((unparseFields X fields indent).toList ++ close)) =
      some ((), '\n' :: ((unparseFields X fields indent).toList ++ close)) :=
    literal_append "\x7b".toList ('\n' :: ((unparseFields X fields indent).toList ++ close))
  have hend : literal "\x7d".toList ('\x7d' :: t) = some ((), t) := literal_append "\x7d".toList t
  unfold fieldBlock
  rw [bind_of_some hopen, skip_bind, skipped_space (.inr rfl), hfields, bind_of_some hr, skip_bind, hskip,
    hclose, bind_of_some hend, pure_apply]

/-! ## Parameters -/

section Params

variable {α : Type} {p : Parser α} {text : α → String} {as : List α}

/-- Each parameter is read in front of `,` and `>`. -/
structure ReadsParams (p : Parser α) (text : α → String) (as : List α) : Prop where
  consumes : Consumes p
  starts : ∀ a ∈ as, ∀ u, Starts ((text a).toList ++ u)
  reads : ∀ a ∈ as, ∀ c u, c = '>' ∨ c = ',' →
    ∃ r, p ((text a).toList ++ c :: u) = some (a, r) ∧ skipped r = skipped (c :: u)

theorem unparseParams_cons (a : α) (as : List α) (t : List Char) :
    (unparseParams ((a :: as).map text)).toList ++ t = '<' :: ((text a).toList ++
      (as.flatMap (fun b => (", " ++ text b).toList) ++ '>' :: t)) := by
  have hinter : ∀ a : α, (String.intercalate ", " ((a :: as).map text)).toList =
      (text a).toList ++ as.flatMap (fun b => (", " ++ text b).toList) := by
    induction as with
    | nil => simp
    | cons b as ih =>
      intro a
      have := ih b
      simp at this ⊢
      simp [this]
  simp [unparseParams] at hinter ⊢
  simp [hinter]

/-- What is behind a parameter: `,` or `>`. -/
def BehindParam (u : List Char) : Prop := ∃ c v, u = c :: v ∧ (c = '>' ∨ c = ',')

theorem params_apply (h : ReadsParams p text as) (hne : as ≠ []) (t : List Char) :
    params p ((unparseParams (as.map text)).toList ++ t) = some (as, t) := by
  cases as with
  | nil => exact absurd rfl hne
  | cons a as =>
    have hbehind : ∀ b ∈ as, ∀ u, BehindParam ((", " ++ text b).toList ++ u) := by
      intro b _ u
      exact ⟨',', ' ' :: ((text b).toList ++ u), by simp, .inr rfl⟩
    obtain ⟨q, hq⟩ : ∃ q, q = (do
        literal ",".toList
        skip
        p) := ⟨_, rfl⟩
    have hend : BehindParam ('>' :: t) := ⟨'>', t, rfl, .inl rfl⟩
    have hread : ∀ b ∈ as, ∀ u, BehindParam u → ∃ r, q (skipped ((", " ++ text b).toList ++ u)) = some (b, r) ∧ skipped r = skipped u := by
      rintro b hb u ⟨c, v, rfl, hc⟩
      obtain ⟨r, hr, hskip⟩ := h.reads b (by simp [hb]) c v hc
      have hstarts := h.starts b (by simp [hb]) (c :: v)
      have htext : (", " ++ text b).toList ++ c :: v = ',' :: ' ' :: ((text b).toList ++ c :: v) := by simp
      have hcomma : literal ",".toList (',' :: ' ' :: ((text b).toList ++ c :: v)) =
          some ((), ' ' :: ((text b).toList ++ c :: v)) := literal_append ",".toList _
      refine ⟨r, ?_, hskip⟩
      rw [hq, htext, skipped_of_starts (starts_cons (by decide) (by decide) _), bind_of_some hcomma, skip_bind,
        skipped_space (.inl rfl), skipped_of_starts hstarts, hr]
    have hclose : Starts ('>' :: t) := starts_cons (by decide) (by decide) t
    have hgt : literal ">".toList ('>' :: t) = some ((), t) := literal_append ">".toList t
    have hstop : q (skipped ('>' :: t)) = none := by
      rw [hq, skipped_of_starts hclose]
      exact bind_of_none (literal_cons_ne (by decide) _ _) _
    have hconsumes : Consumes q := hq ▸ (consumes_literal _ _).bind fun _ => shortens_skip.bind fun _ => h.consumes.shortens
    obtain ⟨r, hothers, hskip⟩ := rep_printed hconsumes hstop hend hbehind hread
    rw [hq] at hothers
    obtain ⟨c, v, hcv, hc⟩ : BehindParam (as.flatMap (fun b => (", " ++ text b).toList) ++ '>' :: t) := by
      cases as with
      | nil => exact hend
      | cons b bs => simpa using hbehind b (by simp) (bs.flatMap (fun b => (", " ++ text b).toList) ++ '>' :: t)
    obtain ⟨r₁, hfirst, hskip₁⟩ := h.reads a (by simp) c v hc
    rw [← hcv] at hfirst hskip₁
    have hopen : ∀ u, literal "<".toList ('<' :: u) = some ((), u) := literal_append "<".toList
    rw [unparseParams_cons]
    unfold params
    rw [bind_of_some (hopen _), skip_bind, skipped_of_starts (h.starts a (by simp) _), bind_of_some hfirst,
      skip_bind, hskip₁, bind_of_some hothers, skip_bind, hskip, skipped_of_starts hclose, bind_of_some hgt,
      pure_apply, List.map_id']

/-- Parameters, or none of them; `t` goes on with something else. -/
theorem opt_params_apply (h : ReadsParams p text as) {t : List Char} (ht : ∀ s, skipped t ≠ '<' :: s) :
    ∃ x r, opt (params p) (skipped ((unparseParams (as.map text)).toList ++ t)) = some (x, r) ∧
      x.getD [] = as ∧ skipped r = skipped t := by
  by_cases hne : as = []
  · subst hne
    refine ⟨none, skipped t, opt_of_none (bind_of_none ?_ _), rfl, skipped_skipped t⟩
    rw [literal_eq_none]
    rintro ⟨s, hs⟩
    exact ht s hs.symm
  · refine ⟨some as, t, ?_, rfl, rfl⟩
    have happly := params_apply h hne t
    cases as with
    | nil => exact absurd rfl hne
    | cons a as =>
      rw [unparseParams_cons] at happly ⊢
      rw [skipped_of_starts (starts_cons (by decide) (by decide) _)]
      exact opt_of_some happly

end Params

theorem starts_bracket {c : Char} (hc : c = '>' ∨ c = ',') (s : List Char) : Starts (c :: s) := by
  rcases hc with rfl | rfl <;> exact starts_cons (by decide) (by decide) s

theorem readsParams_ident (hX : X.Standard) {names : List String} (hfit : Fits X names) :
    ReadsParams (ident X) (unparseName X) names where
  consumes := consumes_ident
  starts name hname u := starts_unparseName hX (hfit name hname).2 u
  reads name hname _ u hc :=
    ⟨_, ident_unparseName hX (hfit name hname).1 (hfit name hname).2 (ends_cons hX hc u).stops, rfl⟩

theorem readsParams_boundParam (hX : X.Standard) {ps : List BoundParam}
    (hfit : Fits X (ps.flatMap BoundParam.names)) : ReadsParams (boundParam X) (unparseBoundParam X) ps where
  consumes := consumes_boundParam
  starts p hp u := by
    obtain ⟨⟨-, hname⟩, -⟩ := (hfit.of_flatMap hp).of_cons
    unfold unparseBoundParam
    cases p.bound with
    | none => exact starts_unparseName hX hname u
    | some bound => simpa using starts_unparseName hX hname ((": " ++ unparseName X bound).toList ++ u)
  reads p hp c u hc := by
    obtain ⟨⟨hw, hname⟩, hbound⟩ := (hfit.of_flatMap hp).of_cons
    obtain ⟨name, bound⟩ := p
    have hstops := (ends_cons hX hc u).stops
    have hskip : skipped (c :: u) = c :: u := skipped_of_starts (starts_bracket hc u)
    unfold unparseBoundParam boundParam
    cases bound with
    | none =>
      have hcolon : literal ":".toList (c :: u) = none := by
        refine literal_cons_ne ?_ _ _
        rcases hc with rfl | rfl <;> decide
      refine ⟨c :: u, ?_, rfl⟩
      rw [bind_of_some (ident_unparseName hX hw hname hstops), skip_bind, hskip,
        bind_of_some (opt_of_none (bind_of_none hcolon _)), pure_apply]
    | some bound =>
      obtain ⟨hwb, hfitb⟩ := hbound bound (by simp)
      have htext : (unparseName X name ++ ": " ++ unparseName X bound).toList ++ c :: u =
          (unparseName X name).toList ++ ':' :: ' ' :: ((unparseName X bound).toList ++ c :: u) := by simp
      have hcolon : literal ":".toList (':' :: ' ' :: ((unparseName X bound).toList ++ c :: u)) =
          some ((), ' ' :: ((unparseName X bound).toList ++ c :: u)) := literal_append ":".toList _
      have hread : (do
          literal ":".toList
          skip
          ident X) (':' :: ' ' :: ((unparseName X bound).toList ++ c :: u)) = some (bound, c :: u) := by
        rw [bind_of_some hcolon, skip_bind, skipped_space (.inl rfl),
          skipped_of_starts (starts_unparseName hX hfitb _), ident_unparseName hX hwb hfitb hstops]
      refine ⟨c :: u, ?_, rfl⟩
      dsimp only
      rw [htext, bind_of_some (ident_unparseName hX hw hname (stops_cons hX (by decide) (by decide) _)),
        skip_bind, skipped_of_starts (starts_cons (by decide) (by decide) _),
        bind_of_some (opt_of_some hread), pure_apply]

/-! ## Definitions -/

def nodePairOf (n : NodeDef) : NodePair := ⟨n.name, n.typeParams, n.extends?, n.fields.map fieldPairOf⟩

def edgePairOf (e : EdgeDef) : EdgePair :=
  ⟨e.name, e.genericParams, pairOf e.fromType, pairOf e.toType, e.props.map fieldPairOf⟩

def definitionPairOf : Definition → DefinitionPair
  | .node n => .node (nodePairOf n)
  | .edge e => .edge (edgePairOf e)

theorem parseAll_map {α β : Type} {f : α → Outcome β} {g : β → α} (h : ∀ b, f (g b) = .ok b)
    (bs : List β) : parseAll f (bs.map g) = .ok bs := by
  induction bs with
  | nil => rfl
  | cons b bs ih =>
    rw [List.map_cons, parseAll, h, ih]
    rfl

theorem parseDefinition_definitionPairOf (d : Definition) :
    parseDefinition (definitionPairOf d) = .ok d := by
  cases d with
  | node n =>
    have hfields := parseAll_map parseFieldDef_fieldPairOf n.fields
    simp only [definitionPairOf, nodePairOf, parseDefinition, parseNodeDef, hfields]
    rfl
  | edge e =>
    have hprops := parseAll_map parseFieldDef_fieldPairOf e.props
    simp only [definitionPairOf, edgePairOf, parseDefinition, parseEdgeDef, parseTypeExpr_pairOf, hprops]
    rfl

/-- The text of an `extends` clause, or nothing. -/
def extendsText (X : Pest) (base : Option String) : List Char :=
  base.toList.flatMap fun base => (" extends " ++ unparseName X base).toList

theorem extendsText_some (base : String) (u : List Char) : extendsText X (some base) ++ u =
    ' ' :: ("extends".toList ++ ' ' :: ((unparseName X base).toList ++ u)) := by
  simp [extendsText]

/-- The parts of a printed node. -/
theorem unparseNodeDef_toList (n : NodeDef) (t : List Char) : (unparseNodeDef X n).toList ++ t =
    "node".toList ++ ' ' :: ((unparseName X n.name).toList ++
      ((unparseParams (n.typeParams.map (unparseName X))).toList ++
        (extendsText X n.extends? ++
          ' ' :: ("\x7b\n".toList ++ ((unparseFields X n.fields 1).toList ++ '\x7d' :: t))))) := by
  obtain ⟨name, typeParams, base, fields⟩ := n
  delta unparseNodeDef
  cases base <;> simp [extendsText]

/-- No name goes on in front of the parameters. -/
theorem stops_params {α : Type} (hX : X.Standard) (text : α → String) (as : List α) {t : List Char}
    (ht : Stops X t) : Stops X ((unparseParams (as.map text)).toList ++ t) := by
  cases as with
  | nil => exact ht
  | cons a as =>
    rw [unparseParams_cons]
    exact stops_cons hX (by decide) (by decide) _

/-- The base of a node, with the brace of its fields behind. -/
theorem opt_extends_apply (hX : X.Standard) {base : Option String} (hfit : Fits X base.toList)
    (u : List Char) : ∃ r, opt (extendsClause X) (skipped (extendsText X base ++ ' ' :: '\x7b' :: u)) =
      some (base, r) ∧ skipped r = '\x7b' :: u := by
  have hbrace : Starts ('\x7b' :: u) := starts_cons (by decide) (by decide) u
  have hskip : skipped (' ' :: '\x7b' :: u) = '\x7b' :: u := by
    rw [skipped_space (.inl rfl), skipped_of_starts hbrace]
  cases base with
  | none =>
    have hnone : literal "extends".toList ('\x7b' :: u) = none := literal_cons_ne (by decide) _ _
    refine ⟨'\x7b' :: u, ?_, skipped_of_starts hbrace⟩
    change opt (extendsClause X) (skipped (' ' :: '\x7b' :: u)) = _
    rw [hskip]
    exact opt_of_none (bind_of_none hnone _)
  | some base =>
    obtain ⟨hw, hname⟩ := hfit base (by simp)
    have hstarts : Starts ("extends".toList ++ ' ' :: ((unparseName X base).toList ++ ' ' :: '\x7b' :: u)) :=
      starts_cons (by decide) (by decide) _
    refine ⟨' ' :: '\x7b' :: u, ?_, hskip⟩
    rw [extendsText_some, skipped_space (.inl rfl), skipped_of_starts hstarts]
    refine opt_of_some ?_
    unfold extendsClause
    rw [bind_of_some (literal_append _ _), skip_bind, skipped_space (.inl rfl),
      skipped_of_starts (starts_unparseName hX hname _),
      ident_unparseName hX hw hname (stops_cons hX (by decide) (by decide) _)]

/-- Neither a name nor parameters go on in front of the base. -/
theorem extendsText_shape (hX : X.Standard) (base : Option String) (u : List Char) :
    Stops X (extendsText X base ++ ' ' :: '\x7b' :: u) ∧
      ∀ s, skipped (extendsText X base ++ ' ' :: '\x7b' :: u) ≠ '<' :: s := by
  have hspace : ∀ s, Stops X (' ' :: s) := stops_cons hX (by decide) (by decide)
  cases base with
  | none =>
    refine ⟨hspace _, fun s hs => ?_⟩
    change skipped (' ' :: '\x7b' :: u) = _ at hs
    rw [skipped_space (.inl rfl), skipped_of_starts (starts_cons (by decide) (by decide) u)] at hs
    cases hs
  | some base =>
    rw [extendsText_some]
    refine ⟨hspace _, fun s hs => ?_⟩
    rw [skipped_space (.inl rfl)] at hs
    have hstarts : Starts ("extends".toList ++ ' ' :: ((unparseName X base).toList ++ ' ' :: '\x7b' :: u)) :=
      starts_cons (by decide) (by decide) _
    rw [skipped_of_starts hstarts] at hs
    cases hs

theorem nodeDef_apply (hX : X.Standard) {n : NodeDef} (hfit : Fits X n.names) (t : List Char) :
    nodeDef X ((unparseNodeDef X n).toList ++ t) = some (nodePairOf n, t) := by
  obtain ⟨⟨hw, hname⟩, hrest⟩ := hfit.of_cons
  obtain ⟨hhead, hfields⟩ := hrest.of_append
  obtain ⟨hparams, hbase⟩ := hhead.of_append
  have hclose : skipped ('\x7d' :: t) = '\x7d' :: t :=
    skipped_of_starts (starts_cons (by decide) (by decide) t)
  have hblock := fieldBlock_apply hX hfields 1 hclose
  have htext := unparseNodeDef_toList (X := X) n t
  obtain ⟨block, hblockText⟩ : ∃ block, '\x7b' :: block =
    "\x7b\n".toList ++ ((unparseFields X n.fields 1).toList ++ '\x7d' :: t) := ⟨_, rfl⟩
  rw [← hblockText] at hblock htext
  obtain ⟨r₂, hbaseRead, hskip₂⟩ := opt_extends_apply hX hbase block
  obtain ⟨hstops, hbracket⟩ := extendsText_shape hX n.extends? block
  obtain ⟨x, r₁, hparamsRead, hx, hskip₁⟩ := opt_params_apply (readsParams_ident hX hparams) hbracket
  rw [htext]
  unfold nodeDef
  rw [bind_of_some (literal_append _ _), skip_bind, skipped_space (.inl rfl),
    skipped_of_starts (starts_unparseName hX hname _),
    bind_of_some (ident_unparseName hX hw hname (stops_params hX _ _ hstops)), skip_bind,
    bind_of_some hparamsRead, skip_bind, hskip₁, bind_of_some hbaseRead, skip_bind, hskip₂,
    bind_of_some hblock, pure_apply, hx]
  rfl

/-- The text of a `props` block, or nothing. -/
def propsText (X : Pest) (props : List FieldDef) : List Char :=
  if props.isEmpty then [] else
    ("  props: \x7b\n" ++ unparseFields X props 2 ++ "  \x7d\n").toList

theorem propsText_cons (f : FieldDef) (fs : List FieldDef) (u : List Char) :
    propsText X (f :: fs) ++ u = ' ' :: ' ' :: ("props".toList ++ ':' :: ' ' :: ("\x7b\n".toList ++
      ((unparseFields X (f :: fs) 2).toList ++ ' ' :: ' ' :: '\x7d' :: '\n' :: u))) := by
  simp [propsText]

/-- The parts of a printed edge. -/
theorem unparseEdgeDef_toList (e : EdgeDef) (t : List Char) : (unparseEdgeDef X e).toList ++ t =
    "edge".toList ++ ' ' :: ((unparseName X e.name).toList ++
      ((unparseParams (e.genericParams.map (unparseBoundParam X))).toList ++
        ' ' :: '\x7b' :: '\n' :: ' ' :: ' ' :: ("from".toList ++ ':' :: ' ' ::
          ((unparseTypeExpr X e.fromType).toList ++ '\n' :: ' ' :: ' ' :: ("to".toList ++ ':' :: ' ' ::
            ((unparseTypeExpr X e.toType).toList ++ '\n' :: (propsText X e.props ++ '\x7d' :: t))))))) := by
  obtain ⟨name, genericParams, fromType, toType, props⟩ := e
  delta unparseEdgeDef
  cases props <;> simp [propsText]

theorem endpoint_apply (hX : X.Standard) (keyword : String) {type : TypeExpr}
    (hfit : Fits X type.names) {u : List Char} (hu : Ends X u) :
    endpoint X keyword (keyword.toList ++ ':' :: ' ' :: ((unparseTypeExpr X type).toList ++ u)) =
      some (pairOf type, u) := by
  have hcolon : ∀ s, literal ":".toList (':' :: s) = some ((), s) := literal_append ":".toList
  unfold endpoint
  rw [bind_of_some (literal_append _ _), skip_bind, skipped_of_starts (starts_cons (by decide) (by decide) _),
    bind_of_some (hcolon _), skip_bind, skipped_space (.inl rfl),
    skipped_of_starts (starts_unparseTypeExpr hX hfit u), typeExpr_unparse hX hfit hu]

/-- The properties of an edge, with its closing brace behind. -/
theorem opt_props_apply (hX : X.Standard) {props : List FieldDef}
    (hfit : Fits X (props.flatMap FieldDef.names)) (t : List Char) :
    ∃ x r, opt (propsBlock X) (skipped (propsText X props ++ '\x7d' :: t)) = some (x, r) ∧
      x.getD [] = props.map fieldPairOf ∧ skipped r = '\x7d' :: t := by
  have hbrace : ∀ s, skipped ('\x7d' :: s) = '\x7d' :: s := fun s =>
    skipped_of_starts (starts_cons (by decide) (by decide) s)
  cases props with
  | nil =>
    have hnone : literal "props".toList ('\x7d' :: t) = none := literal_cons_ne (by decide) _ _
    refine ⟨none, '\x7d' :: t, ?_, rfl, hbrace t⟩
    change opt (propsBlock X) (skipped ('\x7d' :: t)) = _
    rw [hbrace]
    exact opt_of_none (bind_of_none hnone _)
  | cons f fs =>
    have hclose : skipped (' ' :: ' ' :: '\x7d' :: '\n' :: '\x7d' :: t) = '\x7d' :: '\n' :: '\x7d' :: t := by
      rw [skipped_space (.inl rfl), skipped_space (.inl rfl), hbrace]
    have hblock := fieldBlock_apply hX hfit 2 hclose
    have htext := propsText_cons (X := X) f fs ('\x7d' :: t)
    obtain ⟨block, hblockText⟩ : ∃ block, '\x7b' :: block = "\x7b\n".toList ++
      ((unparseFields X (f :: fs) 2).toList ++ ' ' :: ' ' :: '\x7d' :: '\n' :: '\x7d' :: t) := ⟨_, rfl⟩
    rw [← hblockText] at hblock htext
    have hstarts : Starts ("props".toList ++ ':' :: ' ' :: '\x7b' :: block) :=
      starts_cons (by decide) (by decide) _
    have hcolon : ∀ s, literal ":".toList (':' :: s) = some ((), s) := literal_append ":".toList
    refine ⟨some ((f :: fs).map fieldPairOf), '\n' :: '\x7d' :: t, ?_, rfl, ?_⟩
    · rw [htext, skipped_space (.inl rfl), skipped_space (.inl rfl), skipped_of_starts hstarts]
      refine opt_of_some ?_
      unfold propsBlock
      rw [bind_of_some (literal_append _ _), skip_bind,
        skipped_of_starts (starts_cons (by decide) (by decide) _), bind_of_some (hcolon _), skip_bind,
        skipped_space (.inl rfl), skipped_of_starts (starts_cons (by decide) (by decide) _), hblock]
    · rw [skipped_space (.inr rfl), hbrace]

/-- A line break behind a type, with no bracket on the next lines. -/
theorem ends_line (hX : X.Standard) {u : List Char} (hu : ∀ s, skipped u ≠ '<' :: s) :
    Ends X ('\n' :: u) := by
  refine ⟨stops_cons hX (by decide) (by decide) u, fun s => ?_⟩
  rw [skipped_space (.inr rfl)]
  exact hu s

theorem skipped_propsText_ne (props : List FieldDef) (t s : List Char) :
    skipped (propsText X props ++ '\x7d' :: t) ≠ '<' :: s := by
  cases props with
  | nil =>
    intro h
    change skipped ('\x7d' :: t) = _ at h
    rw [skipped_of_starts (starts_cons (by decide) (by decide) t)] at h
    cases h
  | cons f fs =>
    rw [propsText_cons, skipped_space (.inl rfl), skipped_space (.inl rfl)]
    intro h
    have hstarts : ∀ u, Starts ("props".toList ++ u) := fun u => starts_cons (by decide) (by decide) _
    rw [skipped_of_starts (hstarts _)] at h
    cases h

theorem edgeDef_apply (hX : X.Standard) {e : EdgeDef} (hfit : Fits X e.names) (t : List Char) :
    edgeDef X ((unparseEdgeDef X e).toList ++ t) = some (edgePairOf e, t) := by
  obtain ⟨⟨hw, hname⟩, hrest⟩ := hfit.of_cons
  obtain ⟨hhead, hprops⟩ := hrest.of_append
  obtain ⟨hhead, hto⟩ := hhead.of_append
  obtain ⟨hparams, hfrom⟩ := hhead.of_append
  have htext := unparseEdgeDef_toList (X := X) e t
  have hstarts : ∀ {c : Char}, (c = 'f' ∨ c = 't' ∨ c = '\x7b') → ∀ s, skipped (c :: s) = c :: s := by
    rintro c (rfl | rfl | rfl) s <;> exact skipped_of_starts (starts_cons (by decide) (by decide) s)
  -- the text from each endpoint on
  obtain ⟨props, hpropsText⟩ : ∃ props, props = propsText X e.props ++ '\x7d' :: t := ⟨_, rfl⟩
  obtain ⟨toText, htoText⟩ : ∃ toText, toText =
    "to".toList ++ ':' :: ' ' :: ((unparseTypeExpr X e.toType).toList ++ '\n' :: props) := ⟨_, rfl⟩
  obtain ⟨fromText, hfromText⟩ : ∃ fromText, fromText = "from".toList ++ ':' :: ' ' ::
    ((unparseTypeExpr X e.fromType).toList ++ '\n' :: ' ' :: ' ' :: toText) := ⟨_, rfl⟩
  rw [← hpropsText, ← htoText, ← hfromText] at htext
  have hskipTo : skipped toText = toText := by
    rw [htoText]
    exact hstarts (.inr (.inl rfl)) _
  have hskipFrom : skipped fromText = fromText := by
    rw [hfromText]
    exact hstarts (.inl rfl) _
  have hendsTo : Ends X ('\n' :: props) := by
    rw [hpropsText]
    exact ends_line hX (skipped_propsText_ne e.props t)
  have hendsFrom : Ends X ('\n' :: ' ' :: ' ' :: toText) := by
    refine ends_line hX fun s => ?_
    rw [skipped_space (.inl rfl), skipped_space (.inl rfl), hskipTo, htoText]
    exact fun h => by cases h
  have hfromRead := endpoint_apply hX "from" hfrom hendsFrom
  have htoRead := endpoint_apply hX "to" hto hendsTo
  rw [← hfromText] at hfromRead
  rw [← htoText] at htoRead
  obtain ⟨y, r₂, hpropsRead, hy, hskip₂⟩ := opt_props_apply hX hprops t
  rw [← hpropsText] at hpropsRead
  have hbrace : ∀ s, literal "\x7b".toList ('\x7b' :: s) = some ((), s) := literal_append "\x7b".toList
  have hend : literal "\x7d".toList ('\x7d' :: t) = some ((), t) := literal_append "\x7d".toList t
  have hspace : ∀ s, Stops X (' ' :: s) := stops_cons hX (by decide) (by decide)
  have hskipBrace : ∀ s, skipped (' ' :: '\x7b' :: s) = '\x7b' :: s := fun s => by
    rw [skipped_space (.inl rfl), hstarts (.inr (.inr rfl))]
  have hbracket : ∀ s u, skipped (' ' :: '\x7b' :: u) ≠ '<' :: s := by
    intro s u h
    rw [hskipBrace] at h
    cases h
  obtain ⟨x, r₁, hparamsRead, hx, hskip₁⟩ := opt_params_apply (readsParams_boundParam hX hparams)
    fun s => hbracket s ('\n' :: ' ' :: ' ' :: fromText)
  rw [htext]
  unfold edgeDef
  rw [bind_of_some (literal_append _ _), skip_bind, skipped_space (.inl rfl),
    skipped_of_starts (starts_unparseName hX hname _),
    bind_of_some (ident_unparseName hX hw hname (stops_params hX _ _ (hspace _))), skip_bind,
    bind_of_some hparamsRead, skip_bind, hskip₁, hskipBrace, bind_of_some (hbrace _), skip_bind,
    skipped_space (.inr rfl), skipped_space (.inl rfl), skipped_space (.inl rfl), hskipFrom,
    bind_of_some hfromRead, skip_bind, skipped_space (.inr rfl), skipped_space (.inl rfl),
    skipped_space (.inl rfl), hskipTo, bind_of_some htoRead, skip_bind, skipped_space (.inr rfl),
    bind_of_some hpropsRead, skip_bind, hskip₂, bind_of_some hend, pure_apply, hx, hy]
  rfl

/-! ## Schemas -/

theorem starts_definition (d : Definition) (t : List Char) :
    Starts ((unparseDefinition X d).toList ++ t) := by
  cases d with
  | node n =>
    unfold unparseDefinition
    rw [unparseNodeDef_toList]
    exact starts_cons (by decide) (by decide) _
  | edge e =>
    unfold unparseDefinition
    rw [unparseEdgeDef_toList]
    exact starts_cons (by decide) (by decide) _

theorem definition_apply (hX : X.Standard) {d : Definition} (hfit : Fits X d.names) (t : List Char) :
    definition X ((unparseDefinition X d).toList ++ t) = some (definitionPairOf d, t) := by
  cases d with
  | node n =>
    have hnode := nodeDef_apply hX hfit t
    have hleft : (do
        let n ← nodeDef X
        pure (DefinitionPair.node n)) ((unparseNodeDef X n).toList ++ t) =
          some (.node (nodePairOf n), t) := by
      rw [bind_of_some hnode, pure_apply]
    rw [unparseDefinition, definition, orElse_of_some hleft, definitionPairOf]
  | edge e =>
    have hedge := edgeDef_apply hX hfit t
    have hnone : nodeDef X ((unparseEdgeDef X e).toList ++ t) = none := by
      rw [unparseEdgeDef_toList]
      exact bind_of_none (literal_cons_ne (by decide) _ _) _
    have hleft : (do
        let n ← nodeDef X
        pure (DefinitionPair.node n)) ((unparseEdgeDef X e).toList ++ t) = none :=
      bind_of_none hnone _
    rw [unparseDefinition, definition, orElse_of_none hleft, bind_of_some hedge, pure_apply,
      definitionPairOf]

/-- What is skipped in front of a printed schema and between its definitions makes no difference. -/
theorem skipped_unparse (ast : SchemaAst) : skipped (unparse X ast).toList =
    skipped (ast.definitions.flatMap (fun d => ("\n\n" ++ unparseDefinition X d).toList) ++ ['\n']) := by
  obtain ⟨ds⟩ := ast
  have hinter : ∀ d : Definition, ∀ ds : List Definition,
      (String.intercalate "\n\n" ((d :: ds).map (unparseDefinition X))).toList =
        (unparseDefinition X d).toList ++
          ds.flatMap (fun d => ("\n\n" ++ unparseDefinition X d).toList) := by
    intro d ds
    induction ds generalizing d with
    | nil => simp
    | cons d' ds ih =>
      have := ih d'
      simp at this ⊢
      simp [this]
  unfold unparse
  cases ds with
  | nil => simp
  | cons d ds =>
    rw [String.toList_append, hinter]
    simp [skipped_space]

/-- **A schema whose names fit is read back from its printed text.** -/
theorem schema_unparse (hX : X.Standard) {ast : SchemaAst} (hfit : Fits X ast.names) :
    parse X (unparse X ast) = .ok ast := by
  have hend : skipped ['\n'] = [] := by
    rw [skipped_space (.inr rfl), skipped_of_starts starts_nil]
  have hstop : definition X (skipped ['\n']) = none := by
    rw [hend]
    rfl
  have hread : ∀ d ∈ ast.definitions, ∀ u, True → ∃ r,
      definition X (skipped (("\n\n" ++ unparseDefinition X d).toList ++ u)) =
        some (definitionPairOf d, r) ∧ skipped r = skipped u := by
    intro d hd u _
    have htext : ("\n\n" ++ unparseDefinition X d).toList ++ u =
        '\n' :: '\n' :: ((unparseDefinition X d).toList ++ u) := by simp
    rw [htext, skipped_space (.inr rfl), skipped_space (.inr rfl),
      skipped_of_starts (starts_definition d u)]
    exact ⟨u, definition_apply hX (hfit.of_flatMap hd) u, rfl⟩
  obtain ⟨r, hr, hskip⟩ := rep_printed consumes_definition hstop trivial (fun _ _ _ => trivial) hread
  have hschema : schema X (unparse X ast).toList = some (ast.definitions.map definitionPairOf, []) := by
    unfold schema
    rw [skip_bind, skipped_unparse, bind_of_some hr, skip_bind, hskip, hend]
    rfl
  unfold parse
  rw [hschema]
  dsimp only
  rw [parseAll_map parseDefinition_definitionPairOf]
  rfl

end Grammar

open Grammar

/-- **Printing a parsed schema and parsing the text gives the schema back exactly when every name that
passes for a bare one is an identifier.** -/
theorem parse_unparse_iff {X : Pest} (hX : X.Standard) {text : String} {ast : SchemaAst}
    (h : parse X text = .ok ast) :
    parse X (unparse X ast) = .ok ast ↔
      ∀ name ∈ ast.names, isBareName X name = true → IsPlain X name.toList := by
  obtain ⟨hw, -⟩ := schema_reads hX h
  constructor
  · intro hback name hname
    by_contra hfit
    have hlt := (ticks_unparse hX ast).lt name hname hfit
    have := (schema_reads hX hback).2
    omega
  · intro hfit
    exact schema_unparse hX fun name hname => ⟨hw name hname, hfit name hname⟩

/-- The tables of `pest` on ASCII texts. -/
def asciiPest : Pest where
  xidStart := Char.isAlpha
  xidContinue c := c.isAlphanum || c == '_'
  errorText _ := ""

theorem asciiPest_standard : asciiPest.Standard := ⟨fun _ _ => rfl, fun _ _ => rfl⟩

/-- A node with a quoted field name. -/
def quotedFieldSchema : String := "node Person \x7b `first name`: String @index \x7d"

theorem parse_unparse_iff_quotedFieldSchema :
    ∃ ast, parse asciiPest quotedFieldSchema = .ok ast ∧
      (parse asciiPest (unparse asciiPest ast) = .ok ast ↔
        ∀ name ∈ ast.names, isBareName asciiPest name = true → IsPlain asciiPest name.toList) := by
  have h : parse asciiPest quotedFieldSchema =
      .ok ⟨[.node ⟨"Person", [], none, [⟨"first name", .string, true, false⟩]⟩]⟩ := by
    decide +kernel
  exact ⟨_, h, parse_unparse_iff asciiPest_standard h⟩

/-- **A quoted name with a space in front is printed bare, and comes back without the space.** -/
theorem padded_name_lost : ∃ ast ast',
    parse asciiPest "node T \x7b ` a`: Int \x7d" = .ok ast ∧
      parse asciiPest (unparse asciiPest ast) = .ok ast' ∧ ast' ≠ ast := by
  refine ⟨⟨[.node ⟨"T", [], none, [⟨" a", .int, false, false⟩]⟩]⟩,
    ⟨[.node ⟨"T", [], none, [⟨"a", .int, false, false⟩]⟩]⟩, ?_, ?_, ?_⟩ <;> decide +kernel

end ChiffonDB

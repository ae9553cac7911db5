import ChiffonDB.Schema.Parser

/-!
# Tokens of the schema language

What is skipped between tokens, and how the parser reads names.

* `skipped` — the text behind the whitespace and comments at its start.
* `ident_unparseName` — **the parser reads a printed name back**, unless the name is a padded
  identifier.
* `ident_reads` — a name that is no identifier costs the text a quoted form.
-/

set_option autoImplicit false

namespace ChiffonDB

open Peg Parser Grammar

namespace Grammar

/-! ## Whitespace and comments -/

theorem consumes_comment : Consumes comment := by
  refine Consumes.bind (consumes_literal _ _) fun _ => Shortens.bind ?_ fun _ => shortens_pure _
  exact shortens_many (Shortens.bind_consumes
    (shortens_iff.2 (pays_notAhead _ _)) fun _ => consumes_satisfy _)

theorem consumes_whitespace : Consumes whitespace := consumes_satisfy _

theorem consumes_gap : Consumes (do
    comment
    many whitespace) :=
  consumes_comment.bind fun _ => shortens_many consumes_whitespace

/-- The text is not skipped. -/
structure Starts (s : List Char) : Prop where
  noSpace : whitespace s = none
  noComment : comment s = none

/-- The text behind the whitespace and comments at its start. -/
def skipped (s : List Char) : List Char :=
  match skip s with
  | some (_, r) => r
  | none => s

/-- The three parts of a skip: whitespace, then comments and whitespace. -/
theorem skip_parts (s : List Char) : ∃ cs t gaps, many whitespace s = some (cs, t) ∧
    Many (do
      comment
      many whitespace) t gaps (skipped s) ∧ skip s = some ((), skipped s) := by
  obtain ⟨cs, t, hcs, -⟩ := many_some consumes_whitespace s
  obtain ⟨gaps, r, hgaps, hmany⟩ := many_some consumes_gap t
  have hskip : skip s = some ((), r) := by
    unfold skip
    rw [bind_of_some hcs, bind_of_some hgaps, pure_apply]
  have hr : skipped s = r := by
    unfold skipped
    rw [hskip]
  rw [hr]
  exact ⟨cs, t, gaps, hcs, hmany, hskip⟩

theorem skip_eq (s : List Char) : skip s = some ((), skipped s) := by
  obtain ⟨-, -, -, -, -, h⟩ := skip_parts s
  exact h

theorem shortens_skip : Shortens skip :=
  (shortens_many consumes_whitespace).bind fun _ =>
    (shortens_many consumes_gap).bind fun _ => shortens_pure _

theorem length_skipped_le (s : List Char) : (skipped s).length ≤ s.length :=
  shortens_skip _ _ _ (skip_eq s)

/-- What is behind a skip is not skipped. -/
theorem starts_skipped (s : List Char) : Starts (skipped s) := by
  obtain ⟨cs, t, gaps, hcs, hgaps, -⟩ := skip_parts s
  have hspace : ∀ {t r : List Char} {gaps : List (List Char)}, Many (do
      comment
      many whitespace) t gaps r → whitespace t = none → whitespace r = none := by
    intro t r gaps h
    induction h with
    | nil => exact id
    | cons ha _ ih =>
      intro _
      obtain ⟨u, t', -, hws⟩ := bind_eq_some.1 ha
      exact ih (many_satisfy.1 hws).2.2
  refine ⟨hspace hgaps (many_satisfy.1 hcs).2.2, ?_⟩
  have hstop := hgaps.stop
  cases hc : comment (skipped s) with
  | none => rfl
  | some x =>
    obtain ⟨u, t'⟩ := x
    rw [bind_of_some hc] at hstop
    cases hstop

theorem skipped_of_starts {s : List Char} (h : Starts s) : skipped s = s := by
  obtain ⟨cs, t, gaps, hcs, hgaps, -⟩ := skip_parts s
  obtain ⟨rfl, hall, -⟩ := many_satisfy.1 hcs
  have hnil : cs = [] := by
    cases cs with
    | nil => rfl
    | cons c cs =>
      have hnone := satisfy_eq_none.1 h.noSpace c (cs ++ t) rfl
      rw [hall c (by simp)] at hnone
      cases hnone
  subst hnil
  have hstop : Many (do
      comment
      many whitespace) t [] t := .nil (bind_of_none h.noComment _)
  exact (hgaps.unique hstop).2

@[simp] theorem skipped_skipped (s : List Char) : skipped (skipped s) = skipped s :=
  skipped_of_starts (starts_skipped s)

theorem skipped_space {c : Char} (hc : c = ' ' ∨ c = '\n') (s : List Char) :
    skipped (c :: s) = skipped s := by
  have hspace : (c == ' ' || c == '\t' || c == '\r' || c == '\n') = true := by
    rcases hc with rfl | rfl <;> rfl
  obtain ⟨cs, t, gaps, hcs, hgaps, hskip⟩ := skip_parts s
  have hcs' : many whitespace (c :: s) = some (c :: cs, t) := by
    obtain ⟨rfl, hall, hstop⟩ := many_satisfy.1 hcs
    refine many_satisfy.2 ⟨rfl, ?_, hstop⟩
    intro d hd
    rcases List.mem_cons.1 hd with rfl | hd
    · exact hspace
    · exact hall d hd
  have hskip' : skip (c :: s) = some ((), skipped s) := by
    unfold skip
    rw [bind_of_some hcs', bind_of_some ((many_iff consumes_gap).2 hgaps), pure_apply]
  unfold skipped at hskip' ⊢
  rw [hskip']

theorem starts_cons {c : Char} (hspace : c ≠ ' ' ∧ c ≠ '\t' ∧ c ≠ '\r' ∧ c ≠ '\n') (hc : c ≠ '/')
    (s : List Char) : Starts (c :: s) where
  noSpace := by
    rw [whitespace, satisfy_eq_none]
    intro d t h
    cases h
    simp [hspace]
  noComment := bind_of_none (literal_cons_ne (Ne.symm hc) _ _) _

theorem starts_nil : Starts [] := ⟨rfl, rfl⟩

theorem skip_bind {α : Type} (f : Unit → Parser α) (s : List Char) :
    (skip >>= f) s = f () (skipped s) := bind_of_some (skip_eq s) f

/-! ## Identifiers -/

variable {X : Pest}

/-- The number of backticks of a text. -/
def ticks (s : List Char) : Nat := weight (fun c => if c = '\x60' then 1 else 0) s

/-- A name that can be written at all. -/
structure Writable (name : String) : Prop where
  ne_nil : name.toList ≠ []
  oneLine : ∀ c ∈ name.toList, c ≠ '\n' ∧ c ≠ '\r'

/-- The text is an identifier from its first to its last character. -/
def IsPlain (X : Pest) (text : List Char) : Prop := plainIdent X text = some (text, [])

/-- No identifier goes on here, nor a quoted name. -/
def Stops (X : Pest) (t : List Char) : Prop := ∀ c s, t = c :: s → X.xidContinue c = false ∧ c ≠ '\x60'

theorem stops_cons {c : Char} (hX : X.Standard) (hc : c.toNat < 128)
    (h : (c.isAlphanum || c == '_' || c == '\x60') = false) (s : List Char) : Stops X (c :: s) := by
  intro d t he
  cases he
  rw [hX.continue_ascii c hc]
  simp only [Bool.or_eq_false_iff] at h ⊢
  exact ⟨h.1, by simpa using h.2⟩

/-- The characters of identifiers. -/
theorem xid_ne (hX : X.Standard) {c : Char} (hc : (X.xidStart c || c == '_') = true ∨ X.xidContinue c = true)
    {d : Char} (hd : d.toNat < 128) (hsym : (d.isAlphanum || d == '_') = false) : c ≠ d := by
  rintro rfl
  simp only [Bool.or_eq_false_iff] at hsym
  rcases hc with hc | hc
  · rw [hX.start_ascii c hd] at hc
    simp [Char.isAlphanum] at hsym
    simp [hsym] at hc
  · rw [hX.continue_ascii c hd] at hc
    simp [hsym] at hc

theorem plainIdent_eq_some {s r text : List Char} : plainIdent X s = some (text, r) ↔
    ∃ c cs, text = c :: cs ∧ s = text ++ r ∧ (X.xidStart c || c == '_') = true ∧
      (∀ d ∈ cs, X.xidContinue d = true) ∧ satisfy X.xidContinue r = none := by
  unfold plainIdent
  constructor
  · intro h
    obtain ⟨c, t, hc, h⟩ := bind_eq_some.1 h
    obtain ⟨cs, t', hcs, h⟩ := bind_eq_some.1 h
    cases h
    obtain ⟨rfl, hstart⟩ := satisfy_eq_some.1 hc
    obtain ⟨rfl, hall, hstop⟩ := many_satisfy.1 hcs
    exact ⟨c, cs, rfl, rfl, hstart, hall, hstop⟩
  · rintro ⟨c, cs, rfl, rfl, hc, hall, hstop⟩
    rw [List.cons_append, bind_of_some (satisfy_eq_some.2 ⟨rfl, hc⟩),
      bind_of_some (many_satisfy.2 ⟨rfl, hall, hstop⟩), pure_apply]

theorem plainIdent_append {text t : List Char} (h : IsPlain X text) (ht : Stops X t) :
    plainIdent X (text ++ t) = some (text, t) := by
  obtain ⟨c, cs, rfl, -, hc, hall, -⟩ := plainIdent_eq_some.1 h
  refine plainIdent_eq_some.2 ⟨c, cs, rfl, rfl, hc, hall, ?_⟩
  rw [satisfy_eq_none]
  exact fun d s he => (ht d s he).1

theorem isPlain_of_plainIdent {s r text : List Char} (h : plainIdent X s = some (text, r)) :
    IsPlain X text ∧ s = text ++ r := by
  obtain ⟨c, cs, rfl, rfl, hc, hall, -⟩ := plainIdent_eq_some.1 h
  exact ⟨plainIdent_eq_some.2 ⟨c, cs, rfl, (List.append_nil _).symm, hc, hall, rfl⟩, rfl⟩

/-- An identifier has none of the symbols of the language. -/
theorem IsPlain.ne {text : List Char} (h : IsPlain X text) (hX : X.Standard) {d : Char}
    (hd : d.toNat < 128) (hsym : (d.isAlphanum || d == '_') = false) : ∀ c ∈ text, c ≠ d := by
  obtain ⟨c, cs, rfl, -, hc, hall, -⟩ := plainIdent_eq_some.1 h
  intro e he
  rcases List.mem_cons.1 he with rfl | he
  · exact xid_ne hX (.inl hc) hd hsym
  · exact xid_ne hX (.inr (hall e he)) hd hsym

theorem IsPlain.writable {name : String} (h : IsPlain X name.toList) (hX : X.Standard) : Writable name where
  ne_nil := by
    obtain ⟨c, cs, he, -⟩ := plainIdent_eq_some.1 h
    simp [he]
  oneLine c hc := ⟨h.ne hX (by decide) (by decide) c hc, h.ne hX (by decide) (by decide) c hc⟩

theorem IsPlain.starts {text : List Char} (h : IsPlain X text) (hX : X.Standard) (t : List Char) :
    Starts (text ++ t) := by
  have hne := fun d hd hsym => h.ne hX (d := d) hd hsym
  obtain ⟨c, cs, rfl, -⟩ := plainIdent_eq_some.1 h
  rw [List.cons_append]
  refine starts_cons ⟨?_, ?_, ?_, ?_⟩ ?_ _ <;> exact hne _ (by decide) (by decide) c (by simp)

/-! ## Quoted names -/

/-- A character that stands for itself between quotes. -/
def IsBodyChar (c : Char) : Prop := c ≠ '\x60' ∧ c ≠ '\n' ∧ c ≠ '\r'

theorem quotedItem_char {c : Char} (hc : IsBodyChar c) (s : List Char) :
    quotedItem (c :: s) = some ([c], s) := by
  obtain ⟨h1, h2, h3⟩ := hc
  unfold quotedItem
  have htwo : literal "``".toList (c :: s) = none := literal_cons_ne (Ne.symm h1) _ _
  have htick : literal "`".toList (c :: s) = none := literal_cons_ne (Ne.symm h1) _ _
  have hline : literal "\n".toList (c :: s) = none := literal_cons_ne (Ne.symm h2) _ _
  have hreturn : literal "\r".toList (c :: s) = none := literal_cons_ne (Ne.symm h3) _ _
  have hnone : orElse (literal "`".toList) (orElse (literal "\n".toList) (literal "\r".toList)) (c :: s) =
      none := by
    rw [orElse_of_none htick, orElse_of_none hline, hreturn]
  rw [orElse_of_none (bind_of_none htwo _), bind_of_some (notAhead_of_none hnone)]
  rfl

theorem quotedItem_tick (s : List Char) :
    quotedItem ('\x60' :: '\x60' :: s) = some ("``".toList, s) := by
  unfold quotedItem
  exact orElse_of_some (bind_of_some (literal_append "``".toList s) _)

theorem quotedItem_eq_some {s r item : List Char} (h : quotedItem s = some (item, r)) :
    (item = "``".toList ∧ s = '\x60' :: '\x60' :: r) ∨ ∃ c, IsBodyChar c ∧ item = [c] ∧ s = c :: r := by
  rcases orElse_eq_some h with h | h
  · obtain ⟨u, t, hl, h⟩ := bind_eq_some.1 h
    cases h
    exact .inl ⟨rfl, literal_eq_some.1 hl⟩
  · obtain ⟨u, t, hn, h⟩ := bind_eq_some.1 h
    obtain ⟨c, t', hc, h⟩ := bind_eq_some.1 h
    cases h
    obtain ⟨hnone, rfl⟩ := notAhead_eq_some.1 hn
    obtain ⟨rfl, -⟩ := satisfy_eq_some.1 hc
    have hne : ∀ d : Char, literal [d] (c :: r) = none → c ≠ d := by
      rintro d hd rfl
      rw [show c :: r = [c] ++ r from rfl, literal_append] at hd
      cases hd
    have htick : literal "`".toList (c :: r) = none := by
      cases hl : literal "`".toList (c :: r) with
      | none => rfl
      | some x =>
        rw [orElse_of_some hl] at hnone
        cases hnone
    rw [orElse_of_none htick] at hnone
    have hline : literal "\n".toList (c :: r) = none := by
      cases hl : literal "\n".toList (c :: r) with
      | none => rfl
      | some x =>
        rw [orElse_of_some hl] at hnone
        cases hnone
    rw [orElse_of_none hline] at hnone
    exact .inr ⟨c, ⟨hne _ htick, hne _ hline, hne _ hnone⟩, rfl, rfl⟩

theorem consumes_quotedItem : Consumes quotedItem := by
  intro s r item h
  rcases quotedItem_eq_some h with ⟨-, rfl⟩ | ⟨c, -, -, rfl⟩ <;> simp only [List.length_cons] <;> omega

theorem quotedItem_stop {t : List Char} (ht : ∀ c s, t = c :: s → c ≠ '\x60') :
    quotedItem ('\x60' :: t) = none := by
  cases h : quotedItem ('\x60' :: t) with
  | none => rfl
  | some x =>
    obtain ⟨item, r⟩ := x
    rcases quotedItem_eq_some h with ⟨-, he⟩ | ⟨c, hc, -, he⟩
    · cases he
      exact absurd rfl (ht _ _ rfl)
    · cases he
      exact absurd rfl hc.1

/-- The items of a doubled name, up to the closing quote. -/
theorem many_quotedItem {name t : List Char} (hname : ∀ c ∈ name, c ≠ '\n' ∧ c ≠ '\r')
    (ht : ∀ c s, t = c :: s → c ≠ '\x60') : ∃ items, items.flatten = doubled name ∧
      items.length = name.length ∧ Many quotedItem (doubled name ++ '\x60' :: t) items ('\x60' :: t) := by
  induction name with
  | nil => exact ⟨[], rfl, rfl, .nil (quotedItem_stop ht)⟩
  | cons c name ih =>
    obtain ⟨items, hflat, hlen, hmany⟩ := ih fun d hd => hname d (by simp [hd])
    have hdoubled : doubled (c :: name) =
        (if c = '\x60' then "``".toList else [c]) ++ doubled name := by simp [doubled]
    refine ⟨(if c = '\x60' then "``".toList else [c]) :: items, by simp [hflat, hdoubled],
      by simp [hlen], ?_⟩
    rw [hdoubled, List.append_assoc]
    refine .cons ?_ hmany
    by_cases hc : c = '\x60'
    · rw [if_pos hc]
      exact quotedItem_tick _
    · rw [if_neg hc]
      exact quotedItem_char ⟨hc, hname c (by simp)⟩ _

theorem quotedIdent_quote {name t : List Char} (hne : name ≠ [])
    (hname : ∀ c ∈ name, c ≠ '\n' ∧ c ≠ '\r') (ht : ∀ c s, t = c :: s → c ≠ '\x60') :
    quotedIdent ('\x60' :: (doubled name ++ '\x60' :: t)) = some (doubled name, t) := by
  obtain ⟨items, hflat, hlen, hmany⟩ := many_quotedItem hname ht
  rcases hmany.inv with ⟨rfl, -⟩ | ⟨item, u, items, rfl, hitem, hitems⟩
  · exact absurd (List.length_eq_zero_iff.1 hlen.symm) hne
  have hbody : quotedBody (doubled name ++ '\x60' :: t) = some (doubled name, '\x60' :: t) := by
    unfold quotedBody
    rw [bind_of_some hitem, bind_of_some ((many_iff consumes_quotedItem).2 hitems), pure_apply, hflat]
  have hopen : literal "`".toList ('\x60' :: (doubled name ++ '\x60' :: t)) =
      some ((), doubled name ++ '\x60' :: t) := literal_append "`".toList _
  have hclose : literal "`".toList ('\x60' :: t) = some ((), t) := literal_append "`".toList t
  unfold quotedIdent
  rw [bind_of_some hopen, bind_of_some hbody, bind_of_some hclose, pure_apply]

theorem undouble_cons {c : Char} (hc : c ≠ '\x60') (s : List Char) :
    undouble (c :: s) = c :: undouble s := by
  rw [undouble.eq_def]
  split
  · rename_i h
    cases h
    exact absurd rfl hc
  · rename_i h
    cases h
    rfl
  · rename_i h
    cases h

theorem undouble_doubled (name : List Char) : undouble (doubled name) = name := by
  induction name with
  | nil => rfl
  | cons c name ih =>
    have hdoubled : doubled (c :: name) =
        (if c = '\x60' then "``".toList else [c]) ++ doubled name := by simp [doubled]
    rw [hdoubled]
    by_cases hc : c = '\x60'
    · subst hc
      rw [if_pos rfl]
      show undouble ('\x60' :: '\x60' :: doubled name) = _
      rw [undouble, ih]
    · rw [if_neg hc]
      show undouble (c :: doubled name) = _
      rw [undouble_cons hc, ih]

@[simp] theorem ticks_nil : ticks [] = 0 := rfl

theorem ticks_cons (c : Char) (s : List Char) :
    ticks (c :: s) = (if c = '\x60' then 1 else 0) + ticks s := weight_cons _ c s

@[simp] theorem ticks_append (s t : List Char) : ticks (s ++ t) = ticks s + ticks t :=
  weight_append _ s t

/-- What the items of a quoted name denote, and what they cost. -/
theorem Many.quotedItems {s r : List Char} {items : List (List Char)} (h : Many quotedItem s items r) :
    s = items.flatten ++ r ∧ ticks items.flatten = 2 * ticks (undouble items.flatten) ∧
      (∀ c ∈ undouble items.flatten, c ≠ '\n' ∧ c ≠ '\r') ∧
      (items ≠ [] → undouble items.flatten ≠ []) := by
  induction h with
  | nil => simp [undouble]
  | cons ha _ ih =>
    obtain ⟨hs, hticks, hline, -⟩ := ih
    rcases quotedItem_eq_some ha with ⟨rfl, rfl⟩ | ⟨c, hc, rfl, rfl⟩
    · have hcons : ∀ l : List (List Char), ("``".toList :: l).flatten = '\x60' :: '\x60' :: l.flatten :=
        fun _ => rfl
      rw [hcons, undouble]
      refine ⟨by rw [hs]; rfl, ?_, ?_, fun _ => List.cons_ne_nil _ _⟩
      · rw [ticks_cons, ticks_cons, ticks_cons, hticks, if_pos rfl]
        omega
      · intro c hc
        rcases List.mem_cons.1 hc with rfl | hc
        · decide
        · exact hline c hc
    · rw [List.flatten_cons, List.singleton_append, undouble_cons hc.1]
      refine ⟨by rw [hs]; rfl, ?_, ?_, fun _ => List.cons_ne_nil _ _⟩
      · rw [ticks_cons, ticks_cons, hticks, if_neg hc.1]
        omega
      · intro d hd
        rcases List.mem_cons.1 hd with rfl | hd
        · exact hc.2
        · exact hline d hd

/-! ## Names -/

/-- The backticks that the source of a name has at least. -/
noncomputable def nameTicks (X : Pest) (name : String) : Nat := by
  classical
  exact if IsPlain X name.toList then 0 else 2 + 2 * ticks name.toList

theorem nameTicks_plain {name : String} (h : IsPlain X name.toList) : nameTicks X name = 0 := by
  rw [nameTicks, if_pos h]

theorem nameTicks_quoted {name : String} (h : ¬ IsPlain X name.toList) :
    nameTicks X name = 2 + 2 * ticks name.toList := by
  rw [nameTicks, if_neg h]

theorem nameTicks_le (name : String) : nameTicks X name ≤ 2 + 2 * ticks name.toList := by
  rw [nameTicks]
  split <;> omega

theorem quotedIdent_reads {s r body : List Char} (h : quotedIdent s = some (body, r)) :
    Writable (String.ofList (undouble body)) ∧
      ticks s = 2 + 2 * ticks (undouble body) + ticks r := by
  obtain ⟨u₁, t₁, hopen, h⟩ := bind_eq_some.1 h
  obtain ⟨body', t₂, hbody, h⟩ := bind_eq_some.1 h
  obtain ⟨u₂, t₃, hclose, h⟩ := bind_eq_some.1 h
  cases h
  obtain ⟨item, t₄, hitem, hbody⟩ := bind_eq_some.1 hbody
  obtain ⟨items, t₅, hitems, hbody⟩ := bind_eq_some.1 hbody
  cases hbody
  have hmany : Many quotedItem t₁ (item :: items) t₂ :=
    .cons hitem ((many_iff consumes_quotedItem).1 hitems)
  obtain ⟨rfl, hticks, hline, hne⟩ := Many.quotedItems hmany
  have hs := literal_eq_some.1 hopen
  have ht₂ := literal_eq_some.1 hclose
  refine ⟨⟨?_, ?_⟩, ?_⟩
  · rw [String.toList_ofList]
    exact hne (List.cons_ne_nil _ _)
  · rw [String.toList_ofList]
    exact hline
  · have htick : ticks "`".toList = 1 := by decide
    rw [hs, ht₂]
    simp only [ticks_append, hticks, htick]
    omega

theorem plainIdent_reads {s r text : List Char} (h : plainIdent X s = some (text, r)) :
    ticks r ≤ ticks s := by
  rw [(isPlain_of_plainIdent h).2, ticks_append]
  omega

/-- **A name that is no identifier costs the text a quoted form.** -/
theorem ident_reads (hX : X.Standard) {s r : List Char} {name : String} (h : ident X s = some (name, r)) :
    Writable name ∧ nameTicks X name + ticks r ≤ ticks s := by
  rcases orElse_eq_some h with h | h
  · obtain ⟨body, t, hq, h⟩ := bind_eq_some.1 h
    cases h
    obtain ⟨hw, hticks⟩ := quotedIdent_reads hq
    refine ⟨hw, ?_⟩
    have hle := nameTicks_le (X := X) (String.ofList (undouble body))
    rw [String.toList_ofList] at hle
    omega
  · obtain ⟨text, t, hp, h⟩ := bind_eq_some.1 h
    cases h
    have hplain : IsPlain X (String.ofList text).toList := by
      rw [String.toList_ofList]
      exact (isPlain_of_plainIdent hp).1
    refine ⟨hplain.writable hX, ?_⟩
    rw [nameTicks_plain hplain, Nat.zero_add]
    exact plainIdent_reads hp

/-- The name is printed so that it can be read back: a bare name is an identifier. -/
def NameFits (X : Pest) (name : String) : Prop := isBareName X name = true → IsPlain X name.toList

theorem ident_quote {name : String} (hw : Writable name) {t : List Char}
    (ht : Stops X t) : ident X ((quote name).toList ++ t) = some (name, t) := by
  have hquote : (quote name).toList ++ t = '\x60' :: (doubled name.toList ++ '\x60' :: t) := by
    simp [quote]
  have hq := quotedIdent_quote hw.ne_nil hw.oneLine (t := t) fun c s h => (ht c s h).2
  unfold ident
  rw [hquote]
  refine orElse_of_some ?_
  rw [bind_of_some hq, pure_apply, undouble_doubled, String.ofList_toList]

theorem ident_plain (hX : X.Standard) {name : String} (h : IsPlain X name.toList) {t : List Char}
    (ht : Stops X t) : ident X (name.toList ++ t) = some (name, t) := by
  have hnone : quotedIdent (name.toList ++ t) = none := by
    have hne := h.ne hX (d := '\x60') (by decide) (by decide)
    obtain ⟨c, cs, he, -⟩ := plainIdent_eq_some.1 h
    rw [he] at hne ⊢
    exact bind_of_none (literal_cons_ne (hne c (by simp)).symm _ _) _
  unfold ident
  rw [orElse_of_none (bind_of_none hnone _), bind_of_some (plainIdent_append h ht), pure_apply,
    String.ofList_toList]

/-- An identifier is a bare name. -/
theorem isBareName_of_isPlain (hX : X.Standard) {name : String} (h : IsPlain X name.toList) :
    isBareName X name = true := by
  have hstarts := h.starts hX []
  rw [List.append_nil] at hstarts
  have hplain : plainIdent X name.toList = some (name.toList, []) := h
  have hbare : bareName X name.toList = some (name.toList, []) := by
    unfold bareName
    rw [skip_bind, skipped_of_starts hstarts, bind_of_some hplain, skip_bind,
      skipped_of_starts starts_nil]
    rfl
  rw [isBareName, hbare]
  rfl

/-- **The parser reads a printed name back.** -/
theorem ident_unparseName (hX : X.Standard) {name : String} (hw : Writable name) (hfit : NameFits X name)
    {t : List Char} (ht : Stops X t) : ident X ((unparseName X name).toList ++ t) = some (name, t) := by
  unfold unparseName
  split
  case isTrue h => exact ident_plain hX (hfit h) ht
  case isFalse => exact ident_quote hw ht

theorem starts_quote (name : String) (t : List Char) : Starts ((quote name).toList ++ t) := by
  have hquote : (quote name).toList ++ t = '\x60' :: (doubled name.toList ++ '\x60' :: t) := by
    simp [quote]
  rw [hquote]
  exact starts_cons (by decide) (by decide) _

theorem starts_unparseName (hX : X.Standard) {name : String} (hfit : NameFits X name) (t : List Char) :
    Starts ((unparseName X name).toList ++ t) := by
  unfold unparseName
  split
  case isTrue h => exact (hfit h).starts hX t
  case isFalse => exact starts_quote name t

theorem consumes_plainIdent : Consumes (plainIdent X) :=
  (consumes_satisfy _).bind fun _ => (shortens_many (consumes_satisfy _)).bind fun _ => shortens_pure _

theorem consumes_quotedIdent : Consumes quotedIdent := by
  refine (consumes_literal _ _).bind fun _ => Shortens.bind ?_ fun _ =>
    (shortens_literal _).bind fun _ => shortens_pure _
  exact consumes_quotedItem.shortens.bind fun _ =>
    (shortens_many consumes_quotedItem).bind fun _ => shortens_pure _

theorem consumes_ident : Consumes (ident X) :=
  (consumes_quotedIdent.bind fun _ => shortens_pure _).orElse
    (consumes_plainIdent.bind fun _ => shortens_pure _)

/-! ## The cost of a printed name -/

theorem ticks_doubled (name : List Char) : ticks (doubled name) = 2 * ticks name := by
  induction name with
  | nil => rfl
  | cons c name ih =>
    have hdoubled : doubled (c :: name) =
        (if c = '\x60' then "``".toList else [c]) ++ doubled name := by simp [doubled]
    rw [hdoubled, ticks_append, ih, ticks_cons]
    split
    case isTrue =>
      have htick : ticks "``".toList = 2 := by decide
      omega
    case isFalse h => simp [ticks_cons, h]

theorem ticks_quote (name : String) : ticks (quote name).toList = 2 + 2 * ticks name.toList := by
  have htick : ticks ['\x60'] = 1 := by decide
  simp only [quote, String.toList_append, String.toList_ofList, ticks_append, ticks_doubled]
  have h1 : ticks "`".toList = 1 := by decide
  omega

theorem ticks_plain (hX : X.Standard) {text : List Char} (h : IsPlain X text) : ticks text = 0 := by
  have hne := h.ne hX (d := '\x60') (by decide) (by decide)
  clear h
  induction text with
  | nil => rfl
  | cons c text ih =>
    rw [ticks_cons, if_neg (hne c (by simp)), ih fun d hd => hne d (by simp [hd])]

/-- A printed name has no more backticks than it costs, and fewer if it is a padded identifier. -/
theorem ticks_unparseName (hX : X.Standard) (name : String) :
    ticks (unparseName X name).toList ≤ nameTicks X name ∧
      (¬ NameFits X name → ticks (unparseName X name).toList < nameTicks X name) := by
  by_cases hplain : IsPlain X name.toList
  · have hbare := isBareName_of_isPlain hX hplain
    refine ⟨?_, fun h => absurd (fun _ => hplain) h⟩
    rw [unparseName, if_pos hbare, ticks_plain hX hplain]
    exact Nat.zero_le _
  · rw [nameTicks_quoted hplain, unparseName]
    split
    case isTrue => constructor <;> omega
    case isFalse h =>
      rw [ticks_quote]
      exact ⟨Nat.le_refl _, fun hn => absurd (fun hb => absurd hb h) hn⟩

end Grammar

end ChiffonDB

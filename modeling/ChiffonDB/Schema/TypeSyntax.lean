import ChiffonDB.Schema.Tokens

/-!
# The syntax of types

* `typeExpr_unparse` — **the parser reads a printed type back.**
* `typeExpr_reads` — what the names of a type cost its text.
* `typeExprFuel_eq` — nesting as deep as the text is long is enough.
-/

set_option autoImplicit false

namespace ChiffonDB

open Peg Parser Grammar

/-! ## Names and costs of types -/

def TypeExpr.names : TypeExpr → List String
  | .list elem => elem.names
  | .map key value => key.names ++ value.names
  | .nodeRef name | .edgeRef name | .named name => [name]
  | _ => []

namespace Grammar

variable {X : Pest}

/-- In type position the name of a primitive type has to be quoted, too. -/
noncomputable def typeNameTicks (X : Pest) (name : String) : Nat :=
  if name ∈ PRIMITIVE_TYPE_NAMES then 2 + 2 * ticks name.toList else nameTicks X name

noncomputable def typeTicks (X : Pest) : TypeExpr → Nat
  | .list elem => typeTicks X elem
  | .map key value => typeTicks X key + typeTicks X value
  | .nodeRef name | .edgeRef name => nameTicks X name
  | .named name => typeNameTicks X name
  | _ => 0

/-- The pairs that a printed type is read as. -/
def pairOf : TypeExpr → TypePair
  | .int => .primitive "Int"
  | .float => .primitive "Float"
  | .boolean => .primitive "Boolean"
  | .dateTime => .primitive "DateTime"
  | .string => .primitive "String"
  | .json => .primitive "Json"
  | .blob => .primitive "Blob"
  | .vector n => .vector (Nat.toDigits 10 n.toNat)
  | .list elem => .list (pairOf elem)
  | .map key value => .map (pairOf key) (pairOf value)
  | .nodeRef name => .nodeRef name
  | .edgeRef name => .edgeRef name
  | .named name => .ident name

theorem parseTypeExpr_pairOf (t : TypeExpr) : parseTypeExpr (pairOf t) = .ok t := by
  induction t with
  | vector n =>
    have hn := n.toNat_lt
    have hofNat : UInt32.ofNat n.toNat = n := by simp
    rw [pairOf, parseTypeExpr, Nat.ofDigitChars_ten_toDigits, if_pos hn, hofNat]
  | list elem ih =>
    rw [pairOf, parseTypeExpr, ih]
    rfl
  | map key value ihk ihv =>
    rw [pairOf, parseTypeExpr, ihk, ihv]
    rfl
  | _ => rfl

/-! ## What may follow a type -/

/-- No identifier and no bracket goes on here. -/
structure Ends (X : Pest) (t : List Char) : Prop where
  stops : Stops X t
  noBracket : ∀ s, skipped t ≠ '<' :: s

theorem ends_cons {c : Char} (hX : X.Standard) (hc : c = '>' ∨ c = ',') (s : List Char) :
    Ends X (c :: s) := by
  have hstarts : Starts (c :: s) := by
    rcases hc with rfl | rfl <;> exact starts_cons (by decide) (by decide) s
  refine ⟨?_, fun t ht => ?_⟩
  · rcases hc with rfl | rfl <;> exact stops_cons hX (by decide) (by decide) s
  · rw [skipped_of_starts hstarts] at ht
    cases ht
    rcases hc with hc | hc <;> exact absurd hc (by decide)

/-! ## Bracketed types -/

theorem bracketed_of_head {α : Type} {keyword : String} {inner : Parser α} {s : List Char}
    (h : literal keyword.toList s = none) : bracketed keyword inner s = none := bind_of_none h _

theorem bracketed_apply {α : Type} (keyword : String) {inner : Parser α} {u t : List Char} {a : α}
    (hu : Starts u) (h : inner u = some (a, '>' :: t)) :
    bracketed keyword inner (keyword.toList ++ '<' :: u) = some (a, t) := by
  have hopen : Starts ('<' :: u) := starts_cons (by decide) (by decide) u
  have hclose : Starts ('>' :: t) := starts_cons (by decide) (by decide) t
  have hlt : literal "<".toList ('<' :: u) = some ((), u) := literal_append "<".toList u
  have hgt : literal ">".toList ('>' :: t) = some ((), t) := literal_append ">".toList t
  unfold bracketed
  rw [bind_of_some (literal_append _ _), skip_bind, skipped_of_starts hopen, bind_of_some hlt,
    skip_bind, skipped_of_starts hu, bind_of_some h, skip_bind, skipped_of_starts hclose,
    bind_of_some hgt, pure_apply]

/-- An identifier is no bracketed type unless a bracket follows. -/
theorem bracketed_plain {α : Type} (hX : X.Standard) {keyword : String} {inner : Parser α}
    (hk : ∀ c ∈ keyword.toList, c.toNat < 128 ∧ c.isAlphanum = true) {text t : List Char}
    (h : IsPlain X text) (ht : Ends X t) : bracketed keyword inner (text ++ t) = none := by
  cases hl : literal keyword.toList (text ++ t) with
  | none => exact bracketed_of_head hl
  | some x =>
    obtain ⟨u, r⟩ := x
    have hnone : literal "<".toList (skipped r) = none := by
      have hstop : r = t → literal "<".toList (skipped r) = none := by
        rintro rfl
        rw [literal_eq_none]
        rintro ⟨s, hs⟩
        exact ht.noBracket s hs.symm
      rcases List.append_eq_append_iff.1 (literal_eq_some.1 hl) with ⟨a, hka, hta⟩ | ⟨a, hxa, hra⟩
      · cases a with
        | nil => exact hstop (by simpa using hta.symm)
        | cons c a =>
          have hc := hk c (by simp [hka])
          have := (ht.stops c (a ++ r) (by simpa using hta)).1
          rw [hX.continue_ascii c hc.1, hc.2] at this
          cases this
      · cases a with
        | nil => exact hstop (by simpa using hra)
        | cons c a =>
          have hmem : c ∈ text := by simp [hxa]
          have hne := fun d hd hsym => h.ne hX (d := d) hd hsym c hmem
          have hstarts : Starts (c :: (a ++ t)) := by
            refine starts_cons ⟨?_, ?_, ?_, ?_⟩ ?_ _ <;> exact hne _ (by decide) (by decide)
          rw [hra, List.cons_append, skipped_of_starts hstarts]
          exact literal_cons_ne (hne '<' (by decide) (by decide)).symm _ _
    unfold bracketed
    rw [bind_of_some hl, skip_bind, bind_of_none hnone]

/-! ## Primitive types -/

theorem choose_primitive {w : String} (hw : w ∈ PRIMITIVE_TYPE_NAMES) (r : List Char) :
    choose primitiveTexts (w.toList ++ r) = some (w, r) := by
  simp only [PRIMITIVE_TYPE_NAMES, List.mem_cons, List.not_mem_nil, or_false] at hw
  rcases hw with rfl | rfl | rfl | rfl | rfl | rfl | rfl <;> rfl

theorem choose_eq_some {ws : List String} {s r : List Char} {w : String}
    (h : choose ws s = some (w, r)) : w ∈ ws ∧ s = w.toList ++ r := by
  induction ws with
  | nil => cases h
  | cons v ws ih =>
    rcases orElse_eq_some h with h | h
    · obtain ⟨u, t, hl, h⟩ := bind_eq_some.1 h
      cases h
      exact ⟨by simp, literal_eq_some.1 hl⟩
    · obtain ⟨hmem, hs⟩ := ih h
      exact ⟨by simp [hmem], hs⟩

theorem notAhead_stops {t : List Char} (ht : Stops X t) :
    notAhead (satisfy X.xidContinue) t = some ((), t) :=
  notAhead_of_none (satisfy_eq_none.2 fun c s h => (ht c s h).1)

theorem primitiveType_apply {w : String} (hw : w ∈ PRIMITIVE_TYPE_NAMES) {t : List Char}
    (ht : satisfy X.xidContinue t = none) : primitiveType X (w.toList ++ t) = some (.primitive w, t) := by
  unfold primitiveType
  rw [bind_of_some (choose_primitive hw t), bind_of_some (notAhead_of_none ht), pure_apply]

/-- Any other identifier is no primitive type. -/
theorem primitiveType_plain (hX : X.Standard) {name : String} (h : IsPlain X name.toList)
    (hname : name ∉ PRIMITIVE_TYPE_NAMES) {t : List Char} (ht : Stops X t) :
    primitiveType X (name.toList ++ t) = none := by
  cases hc : choose primitiveTexts (name.toList ++ t) with
  | none => exact bind_of_none hc _
  | some x =>
    obtain ⟨w, r⟩ := x
    obtain ⟨hw, happ⟩ := choose_eq_some hc
    have hletters : ∀ w ∈ primitiveTexts, w.toList ≠ [] ∧ ∀ c ∈ w.toList, c.toNat < 128 ∧ c.isAlphanum = true := by
      simp [primitiveTexts]
    have hcontinue : ∃ c s, r = c :: s ∧ X.xidContinue c = true := by
      have hne : name.toList ≠ w.toList := by
        intro he
        rw [String.toList_injective he] at hname
        exact hname hw
      rcases List.append_eq_append_iff.1 happ with ⟨a, hwa, hta⟩ | ⟨a, hxa, hra⟩
      · cases a with
        | nil => exact absurd (by simpa using hwa.symm) hne
        | cons c a =>
          have hcl := (hletters w hw).2 c (by simp [hwa])
          have := (ht c (a ++ r) (by simpa using hta)).1
          rw [hX.continue_ascii c hcl.1, hcl.2] at this
          cases this
      · cases a with
        | nil => exact absurd (by simpa using hxa) hne
        | cons c a =>
          obtain ⟨d, ds, hd, -, -, hall, -⟩ := plainIdent_eq_some.1 h
          refine ⟨c, a ++ t, by simpa using hra, hall c ?_⟩
          cases hwl : w.toList with
          | nil => exact absurd hwl (hletters w hw).1
          | cons e es =>
            rw [hwl, hd] at hxa
            cases hxa
            simp
    obtain ⟨c, s, rfl, hcc⟩ := hcontinue
    unfold primitiveType
    rw [bind_of_some hc]
    refine bind_of_none ?_ _
    rw [notAhead, satisfy_eq_some.2 ⟨rfl, hcc⟩]

/-! ## Reading a printed type back -/

def bracketKeywords : List String := ["Vector", "List", "Map", "NodeRef", "EdgeRef"]

/-- The keywords differ in their first letters. -/
theorem bracketed_other {α : Type} {keyword other : String} (hk : keyword ∈ bracketKeywords)
    (ho : other ∈ bracketKeywords) (hne : keyword ≠ other) (inner : Parser α) (s : List Char) :
    bracketed keyword inner (other.toList ++ s) = none := by
  have hheads : ∀ k ∈ bracketKeywords, ∃ c w, k.toList = c :: w ∧
      ∀ o ∈ bracketKeywords, k ≠ o → ∃ d v, o.toList = d :: v ∧ c ≠ d := by
    intro k hk
    simp only [bracketKeywords, List.mem_cons, List.not_mem_nil, or_false] at hk
    rcases hk with rfl | rfl | rfl | rfl | rfl <;> refine ⟨_, _, rfl, fun o ho hne => ?_⟩ <;>
      simp only [bracketKeywords, List.mem_cons, List.not_mem_nil, or_false] at ho <;>
      rcases ho with rfl | rfl | rfl | rfl | rfl <;>
      first
        | exact absurd rfl hne
        | exact ⟨_, _, rfl, by decide⟩
  obtain ⟨c, w, hc, hothers⟩ := hheads keyword hk
  obtain ⟨d, v, hd, hcd⟩ := hothers other ho hne
  refine bracketed_of_head ?_
  rw [hc, hd, List.cons_append]
  exact literal_cons_ne hcd _ _

/-- Where no bracketed type matches, a type is primitive or a name. -/
theorem typeExprFuel_plain {s : List Char} (fuel : Nat) (h : ∀ {α : Type}, ∀ keyword ∈ bracketKeywords,
    ∀ inner : Parser α, bracketed keyword inner s = none) :
    typeExprFuel X (fuel + 1) s = orElse (primitiveType X) (identType X) s := by
  have hvector : vectorType s = none := bind_of_none (h "Vector" (by decide) _) _
  have hlist : listType (typeExprFuel X fuel) s = none := bind_of_none (h "List" (by decide) _) _
  have hmap : mapType (typeExprFuel X fuel) s = none := bind_of_none (h "Map" (by decide) _) _
  have hnode : nodeRefType X s = none := bind_of_none (h "NodeRef" (by decide) _) _
  have hedge : edgeRefType X s = none := bind_of_none (h "EdgeRef" (by decide) _) _
  rw [typeExprFuel, orElse_of_none hvector, orElse_of_none hlist, orElse_of_none hmap,
    orElse_of_none hnode, orElse_of_none hedge]

/-- No keyword of a bracketed type starts with this character. -/
theorem bracketed_of_first {α : Type} {c : Char} (hc : c ∉ ['V', 'L', 'M', 'N', 'E']) (s : List Char) :
    ∀ keyword ∈ bracketKeywords, ∀ inner : Parser α, bracketed keyword inner (c :: s) = none := by
  simp only [List.mem_cons, List.not_mem_nil, or_false, not_or] at hc
  obtain ⟨hV, hL, hM, hN, hE⟩ := hc
  intro keyword hk inner
  simp only [bracketKeywords, List.mem_cons, List.not_mem_nil, or_false] at hk
  rcases hk with rfl | rfl | rfl | rfl | rfl
  · exact bracketed_of_head (literal_cons_ne (Ne.symm hV) _ s)
  · exact bracketed_of_head (literal_cons_ne (Ne.symm hL) _ s)
  · exact bracketed_of_head (literal_cons_ne (Ne.symm hM) _ s)
  · exact bracketed_of_head (literal_cons_ne (Ne.symm hN) _ s)
  · exact bracketed_of_head (literal_cons_ne (Ne.symm hE) _ s)

theorem typeExprFuel_primitive {w : String} (hw : w ∈ PRIMITIVE_TYPE_NAMES) (fuel : Nat) {t : List Char}
    (ht : Stops X t) : typeExprFuel X (fuel + 1) (w.toList ++ t) = some (.primitive w, t) := by
  have hnone : ∀ {α : Type}, ∀ keyword ∈ bracketKeywords, ∀ inner : Parser α,
      bracketed keyword inner (w.toList ++ t) = none := by
    intro α
    have hfirst : ∀ w ∈ PRIMITIVE_TYPE_NAMES, ∃ c s, w.toList = c :: s ∧ c ∉ ['V', 'L', 'M', 'N', 'E'] := by
      intro w hw
      simp only [PRIMITIVE_TYPE_NAMES, List.mem_cons, List.not_mem_nil, or_false] at hw
      rcases hw with rfl | rfl | rfl | rfl | rfl | rfl | rfl <;> exact ⟨_, _, rfl, by decide⟩
    obtain ⟨c, s, hcs, hc⟩ := hfirst w hw
    rw [hcs]
    exact bracketed_of_first hc _
  rw [typeExprFuel_plain fuel hnone]
  refine orElse_of_some (primitiveType_apply hw (satisfy_eq_none.2 fun c s h => (ht c s h).1))

theorem typeExprFuel_quote {name : String} (hw : Writable name) (fuel : Nat) {t : List Char}
    (ht : Stops X t) : typeExprFuel X (fuel + 1) ((quote name).toList ++ t) = some (.ident name, t) := by
  have hident := ident_quote hw ht
  have hquote : (quote name).toList ++ t = '\x60' :: (doubled name.toList ++ '\x60' :: t) := by
    simp [quote]
  rw [hquote] at hident ⊢
  rw [typeExprFuel_plain fuel (bracketed_of_first (by decide) _)]
  have hprim : primitiveType X ('\x60' :: (doubled name.toList ++ '\x60' :: t)) = none := by
    refine bind_of_none ?_ _
    cases hc : choose primitiveTexts ('\x60' :: (doubled name.toList ++ '\x60' :: t)) with
    | none => rfl
    | some x =>
      obtain ⟨hmem, he⟩ := choose_eq_some (w := x.1) (r := x.2) hc
      have hfirst : ∀ w ∈ primitiveTexts, ∀ c s, w.toList = c :: s → c ≠ '\x60' := by
        intro w hw c s h
        simp only [primitiveTexts, List.mem_cons, List.not_mem_nil, or_false] at hw
        rcases hw with rfl | rfl | rfl | rfl | rfl | rfl | rfl <;> cases h <;> decide
      cases hx : x.1.toList with
      | nil =>
        have hne : ∀ w ∈ primitiveTexts, w.toList ≠ [] := by decide
        exact absurd hx (hne _ hmem)
      | cons c s =>
        rw [hx, List.cons_append] at he
        exact absurd (List.cons.inj he).1.symm (hfirst _ hmem _ _ hx)
  rw [orElse_of_none hprim]
  unfold identType
  rw [bind_of_some hident, pure_apply]

theorem typeExprFuel_name (hX : X.Standard) {name : String} (h : IsPlain X name.toList)
    (hname : name ∉ PRIMITIVE_TYPE_NAMES) (fuel : Nat) {t : List Char} (ht : Ends X t) :
    typeExprFuel X (fuel + 1) (name.toList ++ t) = some (.ident name, t) := by
  have hletters : ∀ keyword ∈ bracketKeywords, ∀ c ∈ keyword.toList, c.toNat < 128 ∧ c.isAlphanum = true := by
    simp [bracketKeywords]
  rw [typeExprFuel_plain fuel fun keyword hk _ => bracketed_plain hX (hletters keyword hk) h ht,
    orElse_of_none (primitiveType_plain hX h hname ht.stops)]
  unfold identType
  rw [bind_of_some (ident_plain hX h ht.stops), pure_apply]

theorem starts_unparseTypeExpr (hX : X.Standard) {type : TypeExpr}
    (hfit : ∀ name ∈ type.names, Writable name ∧ NameFits X name) (t : List Char) :
    Starts ((unparseTypeExpr X type).toList ++ t) := by
  cases type with
  | named name =>
    unfold unparseTypeExpr unparseTypeName
    split
    · exact starts_quote name t
    · exact starts_unparseName hX (hfit name (by simp [TypeExpr.names])).2 t
  | _ =>
    simp only [unparseTypeExpr, String.toList_append, List.append_assoc]
    exact starts_cons (by decide) (by decide) _

theorem many_digits {ds t : List Char} (hds : ∀ c ∈ ds, c.isDigit = true) (hne : ds ≠ [])
    (ht : satisfy Char.isDigit t = none) : integer (ds ++ t) = some (ds, t) := by
  cases ds with
  | nil => exact absurd rfl hne
  | cons d ds =>
    unfold integer
    have hd : satisfy Char.isDigit (d :: ds ++ t) = some (d, ds ++ t) :=
      satisfy_eq_some.2 ⟨rfl, hds d (by simp)⟩
    have hrest : many (satisfy Char.isDigit) (ds ++ t) = some (ds, t) :=
      many_satisfy.2 ⟨rfl, fun c hc => hds c (by simp [hc]), ht⟩
    rw [bind_of_some hd, bind_of_some hrest, pure_apply]

theorem listType_apply {p : Parser TypePair} {u t : List Char} {a : TypePair} (hu : Starts u)
    (h : p u = some (a, '>' :: t)) : listType p ("List".toList ++ '<' :: u) = some (.list a, t) := by
  unfold listType
  rw [bind_of_some (bracketed_apply "List" hu h), pure_apply]

theorem mapType_apply {p : Parser TypePair} {u v t : List Char} {a b : TypePair} (hu : Starts u)
    (hv : Starts v) (hk : p u = some (a, ',' :: ' ' :: v)) (h : p v = some (b, '>' :: t)) :
    mapType p ("Map".toList ++ '<' :: u) = some (.map a b, t) := by
  have hstarts : Starts (',' :: ' ' :: v) := starts_cons (by decide) (by decide) _
  have hcomma : literal ",".toList (',' :: ' ' :: v) = some ((), ' ' :: v) := literal_append ",".toList _
  have hinner : (do
      let key ← p
      skip
      literal ",".toList
      skip
      let value ← p
      pure (key, value)) u = some ((a, b), '>' :: t) := by
    rw [bind_of_some hk, skip_bind, skipped_of_starts hstarts, bind_of_some hcomma, skip_bind,
      skipped_space (.inl rfl), skipped_of_starts hv, bind_of_some h, pure_apply]
  unfold mapType
  rw [bind_of_some (bracketed_apply "Map" hu hinner)]
  rfl

theorem nodeRefType_apply {u t : List Char} {name : String} (hu : Starts u)
    (h : ident X u = some (name, '>' :: t)) :
    nodeRefType X ("NodeRef".toList ++ '<' :: u) = some (.nodeRef name, t) := by
  unfold nodeRefType
  rw [bind_of_some (bracketed_apply "NodeRef" hu h), pure_apply]

theorem edgeRefType_apply {u t : List Char} {name : String} (hu : Starts u)
    (h : ident X u = some (name, '>' :: t)) :
    edgeRefType X ("EdgeRef".toList ++ '<' :: u) = some (.edgeRef name, t) := by
  unfold edgeRefType
  rw [bind_of_some (bracketed_apply "EdgeRef" hu h), pure_apply]

theorem vectorType_apply (n : Nat) (t : List Char) :
    vectorType ("Vector".toList ++ '<' :: (Nat.toDigits 10 n ++ '>' :: t)) =
      some (.vector (Nat.toDigits 10 n), t) := by
  have hdigits : ∀ c ∈ Nat.toDigits 10 n, c.isDigit = true := fun c hc =>
    Nat.isDigit_of_mem_toDigits (by decide) (by decide) hc
  have hinner := many_digits (t := '>' :: t) hdigits Nat.toDigits_ne_nil rfl
  have hstarts : Starts (Nat.toDigits 10 n ++ '>' :: t) := by
    cases hd : Nat.toDigits 10 n with
    | nil => exact absurd hd Nat.toDigits_ne_nil
    | cons c cs =>
      have hc := hdigits c (by simp [hd])
      refine starts_cons ⟨?_, ?_, ?_, ?_⟩ ?_ _ <;> rintro rfl <;> cases hc
  unfold vectorType
  rw [bind_of_some (bracketed_apply "Vector" hstarts hinner), pure_apply]

section Alternatives

variable {fuel : Nat} {s : List Char} {r : TypePair × List Char}

theorem typeExprFuel_vector (h : vectorType s = some r) : typeExprFuel X (fuel + 1) s = some r := by
  rw [typeExprFuel, orElse_of_some h]

theorem typeExprFuel_list (h : listType (typeExprFuel X fuel) ("List".toList ++ s) = some r) :
    typeExprFuel X (fuel + 1) ("List".toList ++ s) = some r := by
  have hv : vectorType ("List".toList ++ s) = none :=
    bind_of_none (bracketed_other (by decide) (by decide) (by decide) _ _) _
  rw [typeExprFuel, orElse_of_none hv, orElse_of_some h]

theorem typeExprFuel_map (h : mapType (typeExprFuel X fuel) ("Map".toList ++ s) = some r) :
    typeExprFuel X (fuel + 1) ("Map".toList ++ s) = some r := by
  have hv : vectorType ("Map".toList ++ s) = none :=
    bind_of_none (bracketed_other (by decide) (by decide) (by decide) _ _) _
  have hl : listType (typeExprFuel X fuel) ("Map".toList ++ s) = none :=
    bind_of_none (bracketed_other (by decide) (by decide) (by decide) _ _) _
  rw [typeExprFuel, orElse_of_none hv, orElse_of_none hl, orElse_of_some h]

theorem typeExprFuel_nodeRef (h : nodeRefType X ("NodeRef".toList ++ s) = some r) :
    typeExprFuel X (fuel + 1) ("NodeRef".toList ++ s) = some r := by
  have hv : vectorType ("NodeRef".toList ++ s) = none :=
    bind_of_none (bracketed_other (by decide) (by decide) (by decide) _ _) _
  have hl : listType (typeExprFuel X fuel) ("NodeRef".toList ++ s) = none :=
    bind_of_none (bracketed_other (by decide) (by decide) (by decide) _ _) _
  have hm : mapType (typeExprFuel X fuel) ("NodeRef".toList ++ s) = none :=
    bind_of_none (bracketed_other (by decide) (by decide) (by decide) _ _) _
  rw [typeExprFuel, orElse_of_none hv, orElse_of_none hl, orElse_of_none hm, orElse_of_some h]

theorem typeExprFuel_edgeRef (h : edgeRefType X ("EdgeRef".toList ++ s) = some r) :
    typeExprFuel X (fuel + 1) ("EdgeRef".toList ++ s) = some r := by
  have hv : vectorType ("EdgeRef".toList ++ s) = none :=
    bind_of_none (bracketed_other (by decide) (by decide) (by decide) _ _) _
  have hl : listType (typeExprFuel X fuel) ("EdgeRef".toList ++ s) = none :=
    bind_of_none (bracketed_other (by decide) (by decide) (by decide) _ _) _
  have hm : mapType (typeExprFuel X fuel) ("EdgeRef".toList ++ s) = none :=
    bind_of_none (bracketed_other (by decide) (by decide) (by decide) _ _) _
  have hn : nodeRefType X ("EdgeRef".toList ++ s) = none :=
    bind_of_none (bracketed_other (by decide) (by decide) (by decide) _ _) _
  rw [typeExprFuel, orElse_of_none hv, orElse_of_none hl, orElse_of_none hm, orElse_of_none hn,
    orElse_of_some h]

end Alternatives

/-- **The parser reads a printed type back.** -/
theorem typeExprFuel_unparse (hX : X.Standard) {type : TypeExpr}
    (hfit : ∀ name ∈ type.names, Writable name ∧ NameFits X name) {t : List Char} (ht : Ends X t)
    {fuel : Nat} (hfuel : ((unparseTypeExpr X type).toList ++ t).length < fuel) :
    typeExprFuel X fuel ((unparseTypeExpr X type).toList ++ t) = some (pairOf type, t) := by
  have hgt := fun s => ends_cons hX (.inl rfl : '>' = '>' ∨ '>' = ',') s
  have hcomma := fun s => ends_cons hX (.inr rfl : ',' = '>' ∨ ',' = ',') s
  induction type generalizing t fuel with
  | int | float | boolean | dateTime | string | json | blob =>
    obtain ⟨fuel, rfl⟩ := Nat.exists_eq_succ_of_ne_zero (Nat.ne_zero_of_lt hfuel)
    rw [unparseTypeExpr]
    exact typeExprFuel_primitive (by decide) _ ht.stops
  | vector n =>
    obtain ⟨fuel, rfl⟩ := Nat.exists_eq_succ_of_ne_zero (Nat.ne_zero_of_lt hfuel)
    have htext : (unparseTypeExpr X (.vector n)).toList ++ t =
        "Vector".toList ++ '<' :: (Nat.toDigits 10 n.toNat ++ '>' :: t) := by
      simp [unparseTypeExpr, Nat.repr_eq_ofList_toDigits]
    rw [htext]
    exact typeExprFuel_vector (vectorType_apply _ _)
  | list elem ih =>
    obtain ⟨fuel, rfl⟩ := Nat.exists_eq_succ_of_ne_zero (Nat.ne_zero_of_lt hfuel)
    have htext : (unparseTypeExpr X (.list elem)).toList ++ t =
        "List".toList ++ '<' :: ((unparseTypeExpr X elem).toList ++ '>' :: t) := by
      simp [unparseTypeExpr]
    rw [htext] at hfuel ⊢
    have hfitElem : ∀ name ∈ elem.names, Writable name ∧ NameFits X name := hfit
    refine typeExprFuel_list (listType_apply (starts_unparseTypeExpr hX hfitElem _) ?_)
    refine ih hfitElem (hgt t) ?_
    simp only [List.length_append, List.length_cons] at hfuel ⊢
    omega
  | map key value ihk ihv =>
    obtain ⟨fuel, rfl⟩ := Nat.exists_eq_succ_of_ne_zero (Nat.ne_zero_of_lt hfuel)
    have hfitk : ∀ name ∈ key.names, Writable name ∧ NameFits X name :=
      fun name hname => hfit name (List.mem_append_left _ hname)
    have hfitv : ∀ name ∈ value.names, Writable name ∧ NameFits X name :=
      fun name hname => hfit name (List.mem_append_right _ hname)
    have htext : (unparseTypeExpr X (.map key value)).toList ++ t =
        "Map".toList ++ '<' :: ((unparseTypeExpr X key).toList ++
          ',' :: ' ' :: ((unparseTypeExpr X value).toList ++ '>' :: t)) := by
      simp [unparseTypeExpr]
    rw [htext] at hfuel ⊢
    simp only [List.length_append, List.length_cons] at hfuel
    refine typeExprFuel_map (mapType_apply (starts_unparseTypeExpr hX hfitk _)
      (starts_unparseTypeExpr hX hfitv _) (ihk hfitk (hcomma _) ?_) (ihv hfitv (hgt t) ?_))
    · simp only [List.length_append, List.length_cons]
      omega
    · simp only [List.length_append, List.length_cons]
      omega
  | nodeRef name =>
    obtain ⟨fuel, rfl⟩ := Nat.exists_eq_succ_of_ne_zero (Nat.ne_zero_of_lt hfuel)
    obtain ⟨hw, hname⟩ := hfit name (by simp [TypeExpr.names])
    have htext : (unparseTypeExpr X (.nodeRef name)).toList ++ t =
        "NodeRef".toList ++ '<' :: ((unparseName X name).toList ++ '>' :: t) := by
      simp [unparseTypeExpr]
    rw [htext]
    exact typeExprFuel_nodeRef (nodeRefType_apply (starts_unparseName hX hname _)
      (ident_unparseName hX hw hname (hgt t).stops))
  | edgeRef name =>
    obtain ⟨fuel, rfl⟩ := Nat.exists_eq_succ_of_ne_zero (Nat.ne_zero_of_lt hfuel)
    obtain ⟨hw, hname⟩ := hfit name (by simp [TypeExpr.names])
    have htext : (unparseTypeExpr X (.edgeRef name)).toList ++ t =
        "EdgeRef".toList ++ '<' :: ((unparseName X name).toList ++ '>' :: t) := by
      simp [unparseTypeExpr]
    rw [htext]
    exact typeExprFuel_edgeRef (edgeRefType_apply (starts_unparseName hX hname _)
      (ident_unparseName hX hw hname (hgt t).stops))
  | named name =>
    obtain ⟨fuel, rfl⟩ := Nat.exists_eq_succ_of_ne_zero (Nat.ne_zero_of_lt hfuel)
    obtain ⟨hw, hname⟩ := hfit name (by simp [TypeExpr.names])
    unfold unparseTypeExpr unparseTypeName unparseName
    split
    · exact typeExprFuel_quote hw _ ht.stops
    · rename_i hprim
      split
      case isTrue hbare => exact typeExprFuel_name hX (hname hbare) hprim _ ht
      case isFalse => exact typeExprFuel_quote hw _ ht.stops

theorem typeExpr_unparse (hX : X.Standard) {type : TypeExpr}
    (hfit : ∀ name ∈ type.names, Writable name ∧ NameFits X name) {t : List Char} (ht : Ends X t) :
    typeExpr X ((unparseTypeExpr X type).toList ++ t) = some (pairOf type, t) :=
  typeExprFuel_unparse hX hfit ht (Nat.lt_succ_self _)

/-! ## What a type costs its text -/

/-- The cost of the pairs of a type, by the names they denote. -/
noncomputable def pairTicks (X : Pest) : TypePair → Nat
  | .list elem => pairTicks X elem
  | .map key value => pairTicks X key + pairTicks X value
  | .nodeRef name | .edgeRef name => nameTicks X name
  | .ident name => typeNameTicks X name
  | _ => 0

def pairNames : TypePair → List String
  | .list elem => pairNames elem
  | .map key value => pairNames key ++ pairNames value
  | .nodeRef name | .edgeRef name | .ident name => [name]
  | _ => []

/-- What is read of a type: writable names, paid for by the text. -/
def PairPaid (X : Pest) (s : List Char) (p : TypePair) (r : List Char) : Prop :=
  (∀ name ∈ pairNames p, Writable name) ∧ pairTicks X p + ticks r ≤ ticks s

theorem ticks_skipped_le (s : List Char) : ticks (skipped s) ≤ ticks s := by
  obtain ⟨cs, t, gaps, hcs, hgaps, -⟩ := skip_parts s
  have hgap : Pays (fun c => if c = '\x60' then 1 else 0) (fun _ => 0) (do
      comment
      many whitespace) := by
    refine Pays.bind (w := fun _ => 0) ?_ fun _ => ?_
    · refine Pays.bind ((pays_literal _ _).mono fun _ => Nat.zero_le _) fun _ =>
        Pays.bind (w := fun _ => 0) ?_ fun _ => (pays_pure _ _).mono fun _ => Nat.zero_le _
      refine (Pays.many ?_ (w := fun _ => 0) ?_).mono fun _ => Nat.zero_le _
      · exact Shortens.bind_consumes (shortens_iff.2 (pays_notAhead _ _)) fun _ => consumes_satisfy _
      · exact Pays.bind (pays_notAhead _ _) fun _ =>
          (pays_satisfy _ _).mono fun _ => Nat.zero_le _
    · exact (Pays.many consumes_whitespace ((pays_satisfy _ _).mono fun _ => Nat.zero_le _)).mono
        fun _ => Nat.zero_le _
  have h1 := hgaps.pays hgap
  obtain ⟨rfl, -, -⟩ := many_satisfy.1 hcs
  rw [ticks_append]
  unfold ticks
  omega

theorem ticks_skip {s t : List Char} {u : Unit} (h : skip s = some (u, t)) : ticks t ≤ ticks s := by
  rw [skip_eq] at h
  cases h
  exact ticks_skipped_le s

theorem ticks_literal {w s t : List Char} {u : Unit} (h : literal w s = some (u, t)) :
    ticks t ≤ ticks s := by
  rw [literal_eq_some.1 h, ticks_append]
  omega

theorem bracketed_reads {α : Type} {keyword : String} {inner : Parser α} {s r : List Char} {a : α}
    (h : bracketed keyword inner s = some (a, r)) : ∃ t u, inner t = some (a, u) ∧
      ticks t ≤ ticks s ∧ ticks r ≤ ticks u := by
  obtain ⟨u₁, t₁, h₁, h⟩ := bind_eq_some.1 h
  obtain ⟨u₂, t₂, h₂, h⟩ := bind_eq_some.1 h
  obtain ⟨u₃, t₃, h₃, h⟩ := bind_eq_some.1 h
  obtain ⟨u₄, t₄, h₄, h⟩ := bind_eq_some.1 h
  obtain ⟨b, t₅, h₅, h⟩ := bind_eq_some.1 h
  obtain ⟨u₆, t₆, h₆, h⟩ := bind_eq_some.1 h
  obtain ⟨u₇, t₇, h₇, h⟩ := bind_eq_some.1 h
  cases h
  have := ticks_literal h₁
  have := ticks_skip h₂
  have := ticks_literal h₃
  have := ticks_skip h₄
  have := ticks_skip h₆
  have := ticks_literal h₇
  exact ⟨t₄, t₅, h₅, by omega, by omega⟩

theorem integer_reads {s r ds : List Char} (h : integer s = some (ds, r)) : ticks r ≤ ticks s := by
  obtain ⟨c, t₁, h₁, h⟩ := bind_eq_some.1 h
  obtain ⟨cs, t₂, h₂, h⟩ := bind_eq_some.1 h
  cases h
  obtain ⟨rfl, -⟩ := satisfy_eq_some.1 h₁
  obtain ⟨rfl, -, -⟩ := many_satisfy.1 h₂
  rw [ticks_cons, ticks_append]
  omega

theorem primitiveType_reads {s r : List Char} {p : TypePair} (h : primitiveType X s = some (p, r)) :
    ∃ w, p = .primitive w ∧ ticks r ≤ ticks s := by
  obtain ⟨w, t₁, h₁, h⟩ := bind_eq_some.1 h
  obtain ⟨u, t₂, h₂, h⟩ := bind_eq_some.1 h
  cases h
  obtain ⟨-, rfl⟩ := notAhead_eq_some.1 h₂
  refine ⟨w, rfl, ?_⟩
  rw [(choose_eq_some h₁).2, ticks_append]
  omega

/-- A name in type position that is no primitive type. -/
theorem identType_reads (hX : X.Standard) {s r : List Char} {p : TypePair}
    (hnone : primitiveType X s = none) (h : identType X s = some (p, r)) : PairPaid X s p r := by
  obtain ⟨name, t, hi, h⟩ := bind_eq_some.1 h
  cases h
  obtain ⟨hw, hticks⟩ := ident_reads hX hi
  refine ⟨by simpa [pairNames] using hw, ?_⟩
  rw [pairTicks, typeNameTicks]
  split
  case isFalse => exact hticks
  case isTrue hprim =>
    rcases orElse_eq_some hi with hq | hq
    · obtain ⟨body, t, hbody, hq⟩ := bind_eq_some.1 hq
      cases hq
      rw [(quotedIdent_reads hbody).2, String.toList_ofList]
    · obtain ⟨text, t, hp, hq⟩ := bind_eq_some.1 hq
      cases hq
      obtain ⟨c, cs, -, rfl, -, -, hstop⟩ := plainIdent_eq_some.1 hp
      have hread := primitiveType_apply hprim hstop
      rw [String.toList_ofList, hnone] at hread
      cases hread

/-- **The names of a type are paid for by its text.** -/
theorem typeExprFuel_reads (hX : X.Standard) {fuel : Nat} {s r : List Char} {p : TypePair}
    (h : typeExprFuel X fuel s = some (p, r)) : PairPaid X s p r := by
  induction fuel generalizing s r p with
  | zero => cases h
  | succ fuel ih =>
    rw [typeExprFuel] at h
    rcases orElse_eq_some h with h | h
    · obtain ⟨ds, t, hb, h⟩ := bind_eq_some.1 h
      cases h
      obtain ⟨t₁, t₂, hi, h1, h2⟩ := bracketed_reads hb
      have := integer_reads hi
      have hz : pairTicks X (.vector ds) = 0 := rfl
      exact ⟨by simp [pairNames], by omega⟩
    rcases orElse_eq_some h with h | h
    · obtain ⟨elem, t, hb, h⟩ := bind_eq_some.1 h
      cases h
      obtain ⟨t₁, t₂, hi, h1, h2⟩ := bracketed_reads hb
      obtain ⟨hw, hticks⟩ := ih hi
      refine ⟨hw, ?_⟩
      rw [pairTicks]
      omega
    rcases orElse_eq_some h with h | h
    · obtain ⟨⟨key, value⟩, t, hb, h⟩ := bind_eq_some.1 h
      cases h
      obtain ⟨t₁, t₂, hi, h1, h2⟩ := bracketed_reads hb
      obtain ⟨key', t₃, hk, hi⟩ := bind_eq_some.1 hi
      obtain ⟨u₁, t₄, hs₁, hi⟩ := bind_eq_some.1 hi
      obtain ⟨u₂, t₅, hl, hi⟩ := bind_eq_some.1 hi
      obtain ⟨u₃, t₆, hs₂, hi⟩ := bind_eq_some.1 hi
      obtain ⟨value', t₇, hv, hi⟩ := bind_eq_some.1 hi
      cases hi
      obtain ⟨hwk, hk⟩ := ih hk
      obtain ⟨hwv, hv⟩ := ih hv
      have := ticks_skip hs₁
      have := ticks_literal hl
      have := ticks_skip hs₂
      refine ⟨fun name hname => ?_, ?_⟩
      · rcases List.mem_append.1 hname with hname | hname
        · exact hwk name hname
        · exact hwv name hname
      · rw [pairTicks]
        omega
    rcases orElse_eq_some h with h | h
    · obtain ⟨name, t, hb, h⟩ := bind_eq_some.1 h
      cases h
      obtain ⟨t₁, t₂, hi, h1, h2⟩ := bracketed_reads hb
      obtain ⟨hw, hticks⟩ := ident_reads hX hi
      refine ⟨by simpa [pairNames] using hw, ?_⟩
      rw [pairTicks]
      omega
    rcases orElse_eq_some h with h | h
    · obtain ⟨name, t, hb, h⟩ := bind_eq_some.1 h
      cases h
      obtain ⟨t₁, t₂, hi, h1, h2⟩ := bracketed_reads hb
      obtain ⟨hw, hticks⟩ := ident_reads hX hi
      refine ⟨by simpa [pairNames] using hw, ?_⟩
      rw [pairTicks]
      omega
    cases hp : primitiveType X s with
    | some x =>
      rw [orElse_of_some hp] at h
      cases h
      obtain ⟨w, rfl, hle⟩ := primitiveType_reads hp
      have hz : pairTicks X (.primitive w) = 0 := rfl
      exact ⟨by simp [pairNames], by omega⟩
    | none =>
      rw [orElse_of_none hp] at h
      exact identType_reads hX hp h

theorem typeExpr_reads (hX : X.Standard) {s r : List Char} {p : TypePair}
    (h : typeExpr X s = some (p, r)) : PairPaid X s p r := typeExprFuel_reads hX h

/-- The type that is built from the pairs has the same names at the same cost. -/
theorem parseTypeExpr_names {p : TypePair} {type : TypeExpr} (h : parseTypeExpr p = .ok type) :
    type.names = pairNames p ∧ typeTicks X type = pairTicks X p := by
  induction p generalizing type with
  | vector ds =>
    unfold parseTypeExpr at h
    dsimp only at h
    split at h
    · cases h
      exact ⟨rfl, rfl⟩
    · cases h
  | list elem ih =>
    unfold parseTypeExpr at h
    obtain ⟨t, ht, h⟩ := Outcome.bind_eq_ok.1 h
    cases h
    obtain ⟨h1, h2⟩ := ih ht
    exact ⟨h1, h2⟩
  | map key value ihk ihv =>
    unfold parseTypeExpr at h
    obtain ⟨k, hk, h⟩ := Outcome.bind_eq_ok.1 h
    obtain ⟨v, hv, h⟩ := Outcome.bind_eq_ok.1 h
    cases h
    obtain ⟨h1, h2⟩ := ihk hk
    obtain ⟨h3, h4⟩ := ihv hv
    exact ⟨by simp [TypeExpr.names, pairNames, h1, h3], by simp [typeTicks, pairTicks, h2, h4]⟩
  | primitive text =>
    unfold parseTypeExpr at h
    split at h <;> cases h <;> exact ⟨rfl, rfl⟩
  | nodeRef name =>
    cases h
    exact ⟨rfl, rfl⟩
  | edgeRef name =>
    cases h
    exact ⟨rfl, rfl⟩
  | ident name =>
    cases h
    exact ⟨rfl, rfl⟩

/-! ## Enough nesting -/

theorem bracketed_congr {α : Type} (keyword : String) {p q : Parser α} {s : List Char}
    (h : ∀ t : List Char, t.length < s.length → p t = q t) : bracketed keyword p s = bracketed keyword q s := by
  unfold bracketed
  cases hk : literal keyword.toList s with
  | none => rw [bind_of_none hk, bind_of_none hk]
  | some x =>
    obtain ⟨u, t⟩ := x
    rw [bind_of_some hk, bind_of_some hk, skip_bind, skip_bind]
    cases hl : literal "<".toList (skipped t) with
    | none => rw [bind_of_none hl, bind_of_none hl]
    | some y =>
      obtain ⟨u', t'⟩ := y
      rw [bind_of_some hl, bind_of_some hl, skip_bind, skip_bind]
      have h1 := shortens_literal keyword.toList _ _ _ hk
      have h2 := length_skipped_le t
      have h3 := consumes_literal '<' [] _ _ _ hl
      have h4 := length_skipped_le t'
      rw [bind_apply, bind_apply, h (skipped t') (by omega)]

theorem shortens_bracketed {α : Type} (keyword : String) {inner : Parser α} (h : Shortens inner) :
    Shortens (bracketed keyword inner) :=
  (shortens_literal _).bind fun _ => shortens_skip.bind fun _ => (shortens_literal _).bind fun _ =>
    shortens_skip.bind fun _ => h.bind fun _ => shortens_skip.bind fun _ =>
      (shortens_literal _).bind fun _ => shortens_pure _

theorem shortens_choose (ws : List String) : Shortens (choose ws) := by
  induction ws with
  | nil => exact shortens_fail
  | cons w ws ih => exact ((shortens_literal _).bind fun _ => shortens_pure _).orElse ih

theorem shortens_typeExprFuel (fuel : Nat) : Shortens (typeExprFuel X fuel) := by
  induction fuel with
  | zero => exact shortens_fail
  | succ fuel ih =>
    have hinteger : Shortens integer := (consumes_satisfy _).shortens.bind fun _ =>
      (shortens_many (consumes_satisfy _)).bind fun _ => shortens_pure _
    have hentry : Shortens (do
        let key ← typeExprFuel X fuel
        skip
        literal ",".toList
        skip
        let value ← typeExprFuel X fuel
        pure (key, value)) :=
      ih.bind fun _ => shortens_skip.bind fun _ => (shortens_literal _).bind fun _ =>
        shortens_skip.bind fun _ => ih.bind fun _ => shortens_pure _
    refine Shortens.orElse ((shortens_bracketed _ hinteger).bind fun _ => shortens_pure _) ?_
    refine Shortens.orElse ((shortens_bracketed _ ih).bind fun _ => shortens_pure _) ?_
    refine Shortens.orElse ((shortens_bracketed _ hentry).bind fun _ => shortens_pure _) ?_
    refine Shortens.orElse ((shortens_bracketed _ consumes_ident.shortens).bind fun _ => shortens_pure _) ?_
    refine Shortens.orElse ((shortens_bracketed _ consumes_ident.shortens).bind fun _ => shortens_pure _) ?_
    refine Shortens.orElse ((shortens_choose _).bind fun _ => (shortens_notAhead _).bind fun _ =>
      shortens_pure _) ?_
    exact consumes_ident.shortens.bind fun _ => shortens_pure _

theorem shortens_typeExpr : Shortens (typeExpr X) := fun s t a h => shortens_typeExprFuel _ s t a h

/-- **Nesting as deep as the text is long is enough.** -/
theorem typeExprFuel_eq {fuel fuel' : Nat} {s : List Char} (h : s.length < fuel) (h' : s.length < fuel') :
    typeExprFuel X fuel s = typeExprFuel X fuel' s := by
  induction fuel generalizing fuel' s with
  | zero => omega
  | succ fuel ih =>
    obtain ⟨fuel', rfl⟩ := Nat.exists_eq_succ_of_ne_zero (Nat.ne_zero_of_lt h')
    have hinner : ∀ t : List Char, t.length < s.length → typeExprFuel X fuel t = typeExprFuel X fuel' t :=
      fun t ht => ih (by omega) (by omega)
    have hlist : listType (typeExprFuel X fuel) s = listType (typeExprFuel X fuel') s := by
      unfold listType
      rw [bind_apply, bind_apply, bracketed_congr "List" hinner]
    have hentry : ∀ t : List Char, t.length < s.length → (do
        let key ← typeExprFuel X fuel
        skip
        literal ",".toList
        skip
        let value ← typeExprFuel X fuel
        pure (key, value)) t = (do
        let key ← typeExprFuel X fuel'
        skip
        literal ",".toList
        skip
        let value ← typeExprFuel X fuel'
        pure (key, value)) t := by
      intro t ht
      cases hk : typeExprFuel X fuel t with
      | none => rw [bind_of_none hk, bind_of_none ((hinner t ht).symm.trans hk)]
      | some x =>
        obtain ⟨key, u⟩ := x
        have hu := shortens_typeExprFuel fuel _ _ _ hk
        rw [bind_of_some hk, bind_of_some ((hinner t ht).symm.trans hk), skip_bind, skip_bind]
        cases hc : literal ",".toList (skipped u) with
        | none => rw [bind_of_none hc, bind_of_none hc]
        | some y =>
          obtain ⟨w, v⟩ := y
          have h1 := length_skipped_le u
          have h2 := shortens_literal _ _ _ _ hc
          have h3 := length_skipped_le v
          rw [bind_of_some hc, bind_of_some hc, skip_bind, skip_bind, bind_apply, bind_apply,
            hinner (skipped v) (by omega)]
    have hmap : mapType (typeExprFuel X fuel) s = mapType (typeExprFuel X fuel') s := by
      unfold mapType
      rw [bind_apply, bind_apply, bracketed_congr "Map" hentry]
    rw [typeExprFuel, typeExprFuel]
    exact orElse_congr rfl (orElse_congr hlist (orElse_congr hmap rfl))

end Grammar

end ChiffonDB

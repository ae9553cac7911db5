import Mathlib.Algebra.Ring.Nat
import Mathlib.Data.List.Basic

/-!
# Parsing expressions

A parsing expression reads a prefix of its text, or does not match.  Choices are ordered and
repetitions are greedy; neither is ever taken back.

* `bind_eq_some` — a sequence matches where its parts match one after the other.
* `many_iff` — **a repetition of an expression that consumes something is its `Many` relation.**
* `Pays` — a weight of the text bounds a weight of the result; the rules for each combinator.
-/

set_option autoImplicit false

namespace ChiffonDB.Peg

/-- What was read and the text behind it; none where the expression does not match. -/
def Parser (α : Type) : Type := List Char → Option (α × List Char)

namespace Parser

variable {α β : Type}

instance : Monad Parser where
  pure a := fun s => some (a, s)
  bind p f := fun s =>
    match p s with
    | none => none
    | some (a, t) => f a t

/-- Never matches. -/
def fail : Parser α := fun _ => none

/-- `"w"` -/
def literal (w : List Char) : Parser Unit := fun s =>
  if w.isPrefixOf s then some ((), s.drop w.length) else none

/-- One character of a class. -/
def satisfy (f : Char → Bool) : Parser Char
  | [] => none
  | c :: s => if f c then some (c, s) else none

/-- `p | q` -/
def orElse (p q : Parser α) : Parser α := fun s =>
  match p s with
  | some r => some r
  | none => q s

/-- `p?` -/
def opt (p : Parser α) : Parser (Option α) := fun s =>
  match p s with
  | some (a, t) => some (some a, t)
  | none => some (none, s)

/-- `!p` -/
def notAhead (p : Parser α) : Parser Unit := fun s =>
  match p s with
  | some _ => none
  | none => some ((), s)

/-- `EOI` -/
def eoi : Parser Unit
  | [] => some ((), [])
  | _ :: _ => none

/-- At most `fuel` repetitions. -/
def manyFuel (p : Parser α) : Nat → List Char → List α × List Char
  | 0, s => ([], s)
  | fuel + 1, s =>
    match p s with
    | none => ([], s)
    | some (a, t) => (a :: (manyFuel p fuel t).1, (manyFuel p fuel t).2)

/-- `p*`, for an expression that consumes something. -/
def many (p : Parser α) : Parser (List α) := fun s => some (manyFuel p s.length s)

/-- `p*` where `skip` may stand between two matches. -/
def rep (skip : Parser Unit) (p : Parser α) : Parser (List α) := do
  match ← opt p with
  | none => pure []
  | some a => do
    let as ← many (do skip; p)
    pure (a :: as)

/-! ## Sequences and choices -/

@[simp] theorem pure_apply (a : α) (s : List Char) : (pure a : Parser α) s = some (a, s) := rfl

theorem bind_apply (p : Parser α) (f : α → Parser β) (s : List Char) :
    (p >>= f) s = match p s with
      | none => none
      | some (a, t) => f a t := rfl

theorem bind_eq_some {p : Parser α} {f : α → Parser β} {s r : List Char} {b : β} :
    (p >>= f) s = some (b, r) ↔ ∃ a t, p s = some (a, t) ∧ f a t = some (b, r) := by
  rw [bind_apply]
  cases p s with
  | none => simp
  | some x =>
    obtain ⟨a, t⟩ := x
    simp

theorem bind_of_some {p : Parser α} {s t : List Char} {a : α} (h : p s = some (a, t))
    (f : α → Parser β) : (p >>= f) s = f a t := by
  rw [bind_apply, h]

theorem bind_of_none {p : Parser α} {s : List Char} (h : p s = none) (f : α → Parser β) :
    (p >>= f) s = none := by
  rw [bind_apply, h]

theorem orElse_of_some {p q : Parser α} {s : List Char} {r : α × List Char} (h : p s = some r) :
    orElse p q s = some r := by
  rw [orElse, h]

theorem orElse_of_none {p q : Parser α} {s : List Char} (h : p s = none) : orElse p q s = q s := by
  rw [orElse, h]

theorem orElse_eq_some {p q : Parser α} {s : List Char} {r : α × List Char}
    (h : orElse p q s = some r) : p s = some r ∨ q s = some r := by
  rw [orElse] at h
  cases hp : p s with
  | none =>
    rw [hp] at h
    exact .inr h
  | some x =>
    rw [hp] at h
    exact .inl h

theorem orElse_congr {p p' q q' : Parser α} {s : List Char} (hp : p s = p' s) (hq : q s = q' s) :
    orElse p q s = orElse p' q' s := by
  rw [orElse, orElse, hp, hq]

theorem opt_of_some {p : Parser α} {s t : List Char} {a : α} (h : p s = some (a, t)) :
    opt p s = some (some a, t) := by
  rw [opt, h]

theorem opt_of_none {p : Parser α} {s : List Char} (h : p s = none) : opt p s = some (none, s) := by
  rw [opt, h]

theorem opt_eq_some {p : Parser α} {s t : List Char} {x : Option α} (h : opt p s = some (x, t)) :
    (x = none ∧ t = s ∧ p s = none) ∨ ∃ a, x = some a ∧ p s = some (a, t) := by
  rw [opt] at h
  cases hp : p s with
  | none =>
    rw [hp] at h
    cases h
    exact .inl ⟨rfl, rfl, rfl⟩
  | some y =>
    rw [hp] at h
    cases h
    exact .inr ⟨_, rfl, rfl⟩

theorem notAhead_eq_some {p : Parser α} {s t : List Char} {u : Unit} :
    notAhead p s = some (u, t) ↔ p s = none ∧ t = s := by
  rw [notAhead]
  cases p s with
  | none => simp [eq_comm]
  | some x => simp

theorem notAhead_of_none {p : Parser α} {s : List Char} (h : p s = none) :
    notAhead p s = some ((), s) := by
  rw [notAhead, h]

/-! ## Literals and characters -/

theorem literal_append (w s : List Char) : literal w (w ++ s) = some ((), s) := by
  have hp : w.isPrefixOf (w ++ s) = true := List.isPrefixOf_iff_prefix.2 (List.prefix_append w s)
  rw [literal, if_pos hp, List.drop_left]

theorem literal_eq_some {w s t : List Char} {u : Unit} :
    literal w s = some (u, t) ↔ s = w ++ t := by
  constructor
  · intro h
    rw [literal] at h
    split at h
    case isTrue hp =>
      obtain ⟨r, rfl⟩ := List.isPrefixOf_iff_prefix.1 hp
      simpa using h
    case isFalse => cases h
  · rintro rfl
    exact literal_append w t

theorem literal_eq_none {w s : List Char} : literal w s = none ↔ ¬ w <+: s := by
  rw [literal]
  split
  case isTrue hp => simpa using List.isPrefixOf_iff_prefix.1 hp
  case isFalse hp => simpa using fun h => hp (List.isPrefixOf_iff_prefix.2 h)

/-- A literal whose first character is not there. -/
theorem literal_cons_ne {c d : Char} (h : c ≠ d) (w s : List Char) : literal (c :: w) (d :: s) = none := by
  rw [literal_eq_none]
  rintro ⟨t, ht⟩
  cases ht
  exact h rfl

@[simp] theorem literal_cons_nil (c : Char) (w : List Char) : literal (c :: w) [] = none := rfl

theorem satisfy_eq_some {f : Char → Bool} {s t : List Char} {c : Char} :
    satisfy f s = some (c, t) ↔ s = c :: t ∧ f c = true := by
  cases s with
  | nil => simp [satisfy]
  | cons d s =>
    rw [satisfy]
    split
    case isTrue h =>
      constructor
      · intro he
        cases he
        exact ⟨rfl, h⟩
      · rintro ⟨he, -⟩
        cases he
        rfl
    case isFalse h =>
      constructor
      · intro he
        cases he
      · rintro ⟨he, hc⟩
        cases he
        exact absurd hc h

theorem satisfy_eq_none {f : Char → Bool} {s : List Char} :
    satisfy f s = none ↔ ∀ c t, s = c :: t → f c = false := by
  cases s with
  | nil => simp [satisfy]
  | cons d s => simp [satisfy]

/-! ## Repetition -/

/-- The expression reads at least one character. -/
def Consumes (p : Parser α) : Prop := ∀ s t a, p s = some (a, t) → t.length < s.length

/-- The expression does not lengthen its text. -/
def Shortens (p : Parser α) : Prop := ∀ s t a, p s = some (a, t) → t.length ≤ s.length

/-- The matches of a repetition, up to where there is no further one. -/
inductive Many (p : Parser α) : List Char → List α → List Char → Prop where
  | nil {s : List Char} (h : p s = none) : Many p s [] s
  | cons {s t r : List Char} {a : α} {as : List α} (h : p s = some (a, t)) (hs : Many p t as r) :
      Many p s (a :: as) r

theorem Many.unique {p : Parser α} {s r r' : List Char} {as as' : List α} (h : Many p s as r)
    (h' : Many p s as' r') : as = as' ∧ r = r' := by
  induction h generalizing as' r' with
  | nil hn =>
    cases h' with
    | nil => exact ⟨rfl, rfl⟩
    | cons hc => cases hn.symm.trans hc
  | cons hc _ ih =>
    cases h' with
    | nil hn => cases hn.symm.trans hc
    | cons hc' hs' =>
      cases hc.symm.trans hc'
      obtain ⟨rfl, rfl⟩ := ih hs'
      exact ⟨rfl, rfl⟩

theorem Many.inv {p : Parser α} {s r : List Char} {as : List α} (h : Many p s as r) :
    (as = [] ∧ r = s ∧ p s = none) ∨ ∃ a t as', as = a :: as' ∧ p s = some (a, t) ∧ Many p t as' r := by
  cases h with
  | nil hn => exact .inl ⟨rfl, rfl, hn⟩
  | cons ha hs => exact .inr ⟨_, _, _, rfl, ha, hs⟩

theorem manyFuel_spec {p : Parser α} (hp : Consumes p) (fuel : Nat) (s : List Char)
    (hs : s.length ≤ fuel) : Many p s (manyFuel p fuel s).1 (manyFuel p fuel s).2 := by
  induction fuel generalizing s with
  | zero =>
    refine .nil ?_
    cases hps : p s with
    | none => rfl
    | some x =>
      have := hp s x.2 x.1 hps
      omega
  | succ fuel ih =>
    rw [manyFuel]
    cases hps : p s with
    | none => exact .nil hps
    | some x =>
      obtain ⟨a, t⟩ := x
      have hlt := hp s t a hps
      exact .cons hps (ih t (by omega))

/-- **A repetition reads the matches of its `Many` relation.** -/
theorem many_iff {p : Parser α} (hp : Consumes p) {s r : List Char} {as : List α} :
    many p s = some (as, r) ↔ Many p s as r := by
  have hspec := manyFuel_spec hp s.length s (Nat.le_refl _)
  rw [many]
  constructor
  · intro h
    rw [Option.some.inj h] at hspec
    exact hspec
  · intro h
    obtain ⟨h1, h2⟩ := h.unique hspec
    rw [h1, h2]

theorem many_some {p : Parser α} (hp : Consumes p) (s : List Char) :
    ∃ as r, many p s = some (as, r) ∧ Many p s as r :=
  ⟨_, _, rfl, manyFuel_spec hp s.length s (Nat.le_refl _)⟩

/-- Where a repetition stops there is no further match. -/
theorem Many.stop {p : Parser α} {s r : List Char} {as : List α} (h : Many p s as r) : p r = none := by
  induction h with
  | nil hn => exact hn
  | cons _ _ ih => exact ih

theorem Consumes.shortens {p : Parser α} (h : Consumes p) : Shortens p :=
  fun s t a he => Nat.le_of_lt (h s t a he)

theorem Consumes.bind {p : Parser α} {f : α → Parser β} (hp : Consumes p) (hf : ∀ a, Shortens (f a)) :
    Consumes (p >>= f) := by
  intro s r b h
  obtain ⟨a, t, ht, hr⟩ := bind_eq_some.1 h
  exact Nat.lt_of_le_of_lt (hf a _ _ _ hr) (hp _ _ _ ht)

theorem Shortens.bind_consumes {p : Parser α} {f : α → Parser β} (hp : Shortens p)
    (hf : ∀ a, Consumes (f a)) : Consumes (p >>= f) := by
  intro s r b h
  obtain ⟨a, t, ht, hr⟩ := bind_eq_some.1 h
  exact Nat.lt_of_lt_of_le (hf a _ _ _ hr) (hp _ _ _ ht)

/-- A run of characters of a class, up to the first other one. -/
theorem many_satisfy {f : Char → Bool} {s r cs : List Char} :
    many (satisfy f) s = some (cs, r) ↔ s = cs ++ r ∧ (∀ c ∈ cs, f c = true) ∧ satisfy f r = none := by
  have hc : Consumes (satisfy f) := by
    intro s t c h
    simp [(satisfy_eq_some.1 h).1]
  rw [many_iff hc]
  constructor
  · intro h
    refine ⟨?_, ?_, h.stop⟩
    · induction h with
      | nil => rfl
      | cons ha _ ih => rw [(satisfy_eq_some.1 ha).1, ih, List.cons_append]
    · induction h with
      | nil => simp
      | cons ha _ ih => simpa using ⟨(satisfy_eq_some.1 ha).2, ih⟩
  · rintro ⟨rfl, hcs, hr⟩
    induction cs with
    | nil => exact .nil hr
    | cons c cs ih =>
      refine .cons (satisfy_eq_some.2 ⟨rfl, hcs c (by simp)⟩) (ih fun d hd => hcs d (by simp [hd]))

/-! ## Weights -/

/-- The weight of a text. -/
def weight (μ : Char → Nat) (s : List Char) : Nat := (s.map μ).sum

@[simp] theorem weight_nil (μ : Char → Nat) : weight μ [] = 0 := rfl

@[simp] theorem weight_cons (μ : Char → Nat) (c : Char) (s : List Char) :
    weight μ (c :: s) = μ c + weight μ s := by
  simp [weight]

@[simp] theorem weight_append (μ : Char → Nat) (s t : List Char) :
    weight μ (s ++ t) = weight μ s + weight μ t := by
  simp [weight]

theorem weight_one (s : List Char) : weight (fun _ => 1) s = s.length := by
  simp [weight]

/-- The text that is read weighs at least as much as the result. -/
def Pays (μ : Char → Nat) (w : α → Nat) (p : Parser α) : Prop :=
  ∀ s t a, p s = some (a, t) → w a + weight μ t ≤ weight μ s

theorem shortens_iff {p : Parser α} : Shortens p ↔ Pays (fun _ => 1) (fun _ => 0) p := by
  simp only [Shortens, Pays, weight_one, Nat.zero_add]

theorem consumes_iff {p : Parser α} : Consumes p ↔ Pays (fun _ => 1) (fun _ => 1) p := by
  simp only [Consumes, Pays, weight_one, Nat.lt_iff_add_one_le, Nat.add_comm 1]

theorem Pays.mono {μ : Char → Nat} {w w' : α → Nat} {p : Parser α} (h : Pays μ w p)
    (hw : ∀ a, w' a ≤ w a) : Pays μ w' p := by
  intro s t a he
  have := h s t a he
  have := hw a
  omega

theorem pays_pure (μ : Char → Nat) (a : α) : Pays μ (fun _ => 0) (pure a : Parser α) := by
  intro s t b h
  cases h
  simp

theorem pays_literal (μ : Char → Nat) (w : List Char) : Pays μ (fun _ => weight μ w) (literal w) := by
  intro s t u h
  simp [literal_eq_some.1 h]

theorem pays_satisfy (μ : Char → Nat) (f : Char → Bool) : Pays μ μ (satisfy f) := by
  intro s t c h
  simp [(satisfy_eq_some.1 h).1]

theorem pays_notAhead (μ : Char → Nat) (p : Parser α) : Pays μ (fun _ => 0) (notAhead p) := by
  intro s t u h
  simp [(notAhead_eq_some.1 h).2]

theorem Pays.orElse {μ : Char → Nat} {w : α → Nat} {p q : Parser α} (hp : Pays μ w p)
    (hq : Pays μ w q) : Pays μ w (orElse p q) := by
  intro s t a h
  rcases orElse_eq_some h with h | h
  · exact hp s t a h
  · exact hq s t a h

theorem Pays.opt {μ : Char → Nat} {w : α → Nat} {p : Parser α} (hp : Pays μ w p) :
    Pays μ (fun x => (x.map w).getD 0) (opt p) := by
  intro s t x h
  rcases opt_eq_some h with ⟨rfl, rfl, -⟩ | ⟨a, rfl, ha⟩
  · simp
  · simpa using hp _ _ _ ha

theorem Many.pays {μ : Char → Nat} {w : α → Nat} {p : Parser α} (hp : Pays μ w p) {s r : List Char}
    {as : List α} (h : Many p s as r) : (as.map w).sum + weight μ r ≤ weight μ s := by
  induction h with
  | nil => simp
  | cons ha _ ih =>
    have := hp _ _ _ ha
    simp only [List.map_cons, List.sum_cons]
    omega

theorem Pays.many {μ : Char → Nat} {w : α → Nat} {p : Parser α} (hc : Consumes p) (hp : Pays μ w p) :
    Pays μ (fun as => (as.map w).sum) (many p) := by
  intro s t as h
  exact ((many_iff hc).1 h).pays hp

theorem Pays.bind {μ : Char → Nat} {w : α → Nat} {v : β → Nat} {p : Parser α} {f : α → Parser β}
    (hp : Pays μ w p) (hf : ∀ a, Pays μ (fun b => v b - w a) (f a)) : Pays μ v (p >>= f) := by
  intro s r b h
  obtain ⟨a, t, ht, hr⟩ := bind_eq_some.1 h
  have h1 := hp _ _ _ ht
  have h2 := hf a _ _ _ hr
  dsimp only at h2
  omega

theorem shortens_many {p : Parser α} (hp : Consumes p) : Shortens (Parser.many p) :=
  shortens_iff.2 ((Pays.many hp (consumes_iff.1 hp)).mono fun _ => Nat.zero_le _)

theorem shortens_literal (w : List Char) : Shortens (literal w) :=
  shortens_iff.2 ((pays_literal _ w).mono fun _ => Nat.zero_le _)

theorem consumes_literal (c : Char) (w : List Char) : Consumes (literal (c :: w)) :=
  consumes_iff.2 ((pays_literal _ (c :: w)).mono fun _ => by simp)

theorem consumes_satisfy (f : Char → Bool) : Consumes (satisfy f) :=
  consumes_iff.2 (pays_satisfy _ f)

theorem shortens_pure (a : α) : Shortens (pure a : Parser α) := shortens_iff.2 (pays_pure _ a)

theorem Shortens.bind {p : Parser α} {f : α → Parser β} (hp : Shortens p) (hf : ∀ a, Shortens (f a)) :
    Shortens (p >>= f) := by
  intro s r b h
  obtain ⟨a, t, ht, hr⟩ := bind_eq_some.1 h
  exact Nat.le_trans (hf a _ _ _ hr) (hp _ _ _ ht)

theorem Shortens.orElse {p q : Parser α} (hp : Shortens p) (hq : Shortens q) :
    Shortens (Parser.orElse p q) :=
  shortens_iff.2 ((shortens_iff.1 hp).orElse (shortens_iff.1 hq))

theorem Consumes.orElse {p q : Parser α} (hp : Consumes p) (hq : Consumes q) :
    Consumes (Parser.orElse p q) :=
  consumes_iff.2 ((consumes_iff.1 hp).orElse (consumes_iff.1 hq))

theorem shortens_notAhead (p : Parser α) : Shortens (notAhead p) := shortens_iff.2 (pays_notAhead _ p)

theorem shortens_fail : Shortens (fail : Parser α) := by
  intro s t a h
  cases h

theorem Shortens.opt {p : Parser α} (hp : Shortens p) : Shortens (Parser.opt p) :=
  shortens_iff.2 ((shortens_iff.1 hp).opt.mono fun _ => Nat.zero_le _)

/-! ## Repetition between skips -/

theorem rep_of_none {skip : Parser Unit} {p : Parser α} {s : List Char} (h : p s = none) :
    rep skip p s = some ([], s) := by
  unfold rep
  rw [bind_of_some (opt_of_none h)]
  rfl

theorem rep_eq_some {skip : Parser Unit} {p : Parser α} (hs : Shortens skip) (hp : Consumes p)
    {s r : List Char} {as : List α} (h : rep skip p s = some (as, r)) :
    (as = [] ∧ r = s ∧ p s = none) ∨ ∃ a t as', as = a :: as' ∧ p s = some (a, t) ∧
      Many (do
        skip
        p) t as' r := by
  obtain ⟨x, t, hx, hrest⟩ := bind_eq_some.1 h
  rcases opt_eq_some hx with ⟨rfl, rfl, hn⟩ | ⟨a, rfl, ha⟩
  · cases hrest
    exact .inl ⟨rfl, rfl, hn⟩
  · obtain ⟨as', t', hm, hrest⟩ := bind_eq_some.1 hrest
    cases hrest
    exact .inr ⟨a, t, as', rfl, ha, (many_iff (hs.bind_consumes fun _ => hp)).1 hm⟩

theorem rep_of_some {skip : Parser Unit} {p : Parser α} (hs : Shortens skip) (hp : Consumes p)
    {s t r : List Char} {a : α} {as : List α} (ha : p s = some (a, t)) (hm : Many (do
      skip
      p) t as r) : rep skip p s = some (a :: as, r) := by
  unfold rep
  rw [bind_of_some (opt_of_some ha)]
  dsimp only
  rw [bind_of_some ((many_iff (hs.bind_consumes fun _ => hp)).2 hm), pure_apply]

theorem shortens_rep {skip : Parser Unit} {p : Parser α} (hs : Shortens skip) (hp : Consumes p) :
    Shortens (rep skip p) := by
  intro s r as h
  rcases rep_eq_some hs hp h with ⟨-, rfl, -⟩ | ⟨a, t, as', -, ha, hm⟩
  · exact Nat.le_refl _
  · have h1 := hp _ _ _ ha
    have h2 := hm.pays (shortens_iff.1 (hs.bind fun _ => hp.shortens))
    rw [weight_one, weight_one] at h2
    omega

end Parser

end ChiffonDB.Peg

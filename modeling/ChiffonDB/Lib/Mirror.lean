import Mathlib.Data.Option.Basic
import ChiffonDB.Lib.Peg

/-!
# Parsing expressions that read alike

* `Mirrors` — two expressions match the same texts, leave the same rest, and have related results.
* `Mirrors.bind`, `Mirrors.orElse`, `Mirrors.opt`, `Mirrors.rep` — **related parts make related expressions**.
-/

set_option autoImplicit false

namespace ChiffonDB.Peg

variable {α β γ δ : Type}

/-- Neither expression matches, or both do, with the same rest. -/
def Mirrors (R : α → β → Prop) (p : Parser α) (q : Parser β) : Prop :=
  ∀ s, (p s = none ∧ q s = none) ∨ ∃ a b t, p s = some (a, t) ∧ q s = some (b, t) ∧ R a b

namespace Mirrors

variable {R : α → β → Prop} {S : γ → δ → Prop} {p : Parser α} {q : Parser β}

theorem refl (p : Parser α) : Mirrors Eq p p := by
  intro s
  cases h : p s with
  | none => exact Or.inl ⟨rfl, rfl⟩
  | some x => exact Or.inr ⟨x.1, x.1, x.2, rfl, rfl, rfl⟩

theorem mono {R' : α → β → Prop} (h : Mirrors R p q) (hR : ∀ a b, R a b → R' a b) : Mirrors R' p q := by
  intro s
  rcases h s with hn | ⟨a, b, t, hp, hq, hab⟩
  · exact Or.inl hn
  · exact Or.inr ⟨a, b, t, hp, hq, hR a b hab⟩

theorem pure {a : α} {b : β} (h : R a b) : Mirrors R (Pure.pure a) (Pure.pure b) := fun s =>
  Or.inr ⟨a, b, s, rfl, rfl, h⟩

theorem bind {f : α → Parser γ} {g : β → Parser δ} (h : Mirrors R p q)
    (hf : ∀ a b, R a b → Mirrors S (f a) (g b)) : Mirrors S (p >>= f) (q >>= g) := by
  intro s
  rcases h s with ⟨hp, hq⟩ | ⟨a, b, t, hp, hq, hab⟩
  · rw [Parser.bind_of_none hp, Parser.bind_of_none hq]
    exact Or.inl ⟨rfl, rfl⟩
  · rw [Parser.bind_of_some hp, Parser.bind_of_some hq]
    exact hf a b hab t

/-- The same token on both sides. -/
theorem token {ε : Type} (r : Parser ε) {f : ε → Parser γ} {g : ε → Parser δ} (hf : ∀ a, Mirrors S (f a) (g a)) :
    Mirrors S (r >>= f) (r >>= g) :=
  (refl r).bind fun a b hab => by
    rw [hab]
    exact hf b

theorem orElse {p' : Parser α} {q' : Parser β} (h : Mirrors R p q) (h' : Mirrors R p' q') :
    Mirrors R (Parser.orElse p p') (Parser.orElse q q') := by
  intro s
  rcases h s with ⟨hp, hq⟩ | ⟨a, b, t, hp, hq, hab⟩
  · rw [Parser.orElse_of_none hp, Parser.orElse_of_none hq]
    exact h' s
  · exact Or.inr ⟨a, b, t, Parser.orElse_of_some hp, Parser.orElse_of_some hq, hab⟩

theorem opt (h : Mirrors R p q) : Mirrors (Option.Rel R) (Parser.opt p) (Parser.opt q) := by
  intro s
  rcases h s with ⟨hp, hq⟩ | ⟨a, b, t, hp, hq, hab⟩
  · exact Or.inr ⟨none, none, s, Parser.opt_of_none hp, Parser.opt_of_none hq, Option.Rel.none⟩
  · exact Or.inr ⟨some a, some b, t, Parser.opt_of_some hp, Parser.opt_of_some hq, Option.Rel.some hab⟩

theorem manyFuel (h : Mirrors R p q) (fuel : ℕ) (s : List Char) :
    List.Forall₂ R (Parser.manyFuel p fuel s).1 (Parser.manyFuel q fuel s).1 ∧
      (Parser.manyFuel p fuel s).2 = (Parser.manyFuel q fuel s).2 := by
  induction fuel generalizing s with
  | zero => exact ⟨List.Forall₂.nil, rfl⟩
  | succ fuel ih =>
    rw [Parser.manyFuel, Parser.manyFuel]
    rcases h s with ⟨hp, hq⟩ | ⟨a, b, t, hp, hq, hab⟩
    · rw [hp, hq]
      exact ⟨List.Forall₂.nil, rfl⟩
    · rw [hp, hq]
      exact ⟨List.Forall₂.cons hab (ih t).1, (ih t).2⟩

theorem many (h : Mirrors R p q) : Mirrors (List.Forall₂ R) (Parser.many p) (Parser.many q) := by
  intro s
  obtain ⟨has, hrest⟩ := manyFuel h s.length s
  refine Or.inr ⟨_, _, _, rfl, ?_, has⟩
  rw [hrest]
  rfl

theorem rep (skip : Parser Unit) (h : Mirrors R p q) :
    Mirrors (List.Forall₂ R) (Parser.rep skip p) (Parser.rep skip q) := by
  refine h.opt.bind fun x y hxy => ?_
  cases hxy with
  | none => exact pure List.Forall₂.nil
  | some hab => exact (token skip fun _ => h).many.bind fun _ _ has => pure (List.Forall₂.cons hab has)

end Mirrors

end ChiffonDB.Peg

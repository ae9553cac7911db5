import ChiffonDB.Cypher.Value
import ChiffonDB.Lib.Double

/-!
# Numbers

* `LawfulF64` — what the executors rely on: finite doubles are in order.
* `Number.IsJson` — the numbers that a JSON text can hold.
-/

set_option autoImplicit false

namespace ChiffonDB

instance : F64 Double where
  ofInt := Double.ofInt
  add := Double.add
  sub := Double.sub
  mul := Double.mul
  div := Double.div
  neg := Double.neg
  abs := Double.abs
  epsilon := Double.epsilon
  isFinite := Double.isFinite
  partialCmp := Double.partialCmp

/-- Every 64-bit integer has a finite double, and finite doubles are in order. -/
class LawfulF64 (F : Type) [F64 F] : Prop where
  isFinite_ofInt : ∀ n : ℤ, |n| ≤ 2 ^ 64 → F64.isFinite (F64.ofInt n : F) = true
  cmp_swap : ∀ a b : F, F64.isFinite a = true → F64.isFinite b = true →
    ∃ o, F64.partialCmp a b = some o ∧ F64.partialCmp b a = some o.swap
  cmp_trans : ∀ a b c : F, F64.isFinite a = true → F64.isFinite b = true → F64.isFinite c = true →
    F64.partialCmp a b ≠ some .gt → F64.partialCmp b c ≠ some .gt → F64.partialCmp a c ≠ some .gt

instance : LawfulF64 Double where
  isFinite_ofInt n hn := by
    refine Double.isFinite_round ?_
    have h : |(n : ℚ)| ≤ 2 ^ 64 := by exact_mod_cast hn
    calc 2 * |(n : ℚ)| + 1 ≤ 2 * 2 ^ 64 + 1 := by linarith
      _ < 2 ^ 66 := by norm_num
      _ ≤ 2 ^ 1024 := pow_le_pow_right₀ (by norm_num) (by norm_num)
  cmp_swap a b ha hb := by
    cases a with
    | finite a =>
      cases b with
      | finite b => exact ⟨compare a b, rfl, congrArg some Std.OrientedCmp.eq_swap⟩
      | inf s => cases hb
      | nan => cases hb
    | inf s => cases ha
    | nan => cases ha
  cmp_trans a b c ha hb hc hab hbc := by
    cases a with
    | finite a =>
      cases b with
      | finite b =>
        cases c with
        | finite c =>
          have hab' := Ordering.isLE_iff_ne_gt.2 fun h : compare a b = .gt => hab (congrArg some h)
          have hbc' := Ordering.isLE_iff_ne_gt.2 fun h : compare b c = .gt => hbc (congrArg some h)
          have hac := Ordering.isLE_iff_ne_gt.1 (Std.TransCmp.isLE_trans hab' hbc')
          exact fun h => hac (Option.some.inj h)
        | inf s => cases hc
        | nan => cases hc
      | inf s => cases hb
      | nan => cases hb
    | inf s => cases ha
    | nan => cases ha

namespace Number

variable {F : Type} [F64 F]

/-- A number of a JSON text: a negative integer is negative, and a decimal is finite. -/
def IsJson : Number F → Prop
  | posInt _ => True
  | negInt n => n.toInt < 0
  | float x => F64.isFinite x = true

theorem IsJson.isFinite [LawfulF64 F] {n : Number F} (h : n.IsJson) : F64.isFinite n.asF64 = true := by
  cases n with
  | posInt n =>
    refine LawfulF64.isFinite_ofInt _ ?_
    have := n.toNat_lt
    rw [abs_of_nonneg (Int.natCast_nonneg _)]
    exact_mod_cast this.le
  | negInt n =>
    refine LawfulF64.isFinite_ofInt _ ?_
    have h1 := n.le_toInt
    have h2 := n.toInt_lt
    rw [abs_le]
    constructor <;> omega
  | float x => exact h

end Number

end ChiffonDB

import ChiffonDB.Schema.JsonText

/-!
# Texts of doubles

A formatter and a parser of the rationals of `Double`: those of the standard library at whole numbers, which are
written with the fraction `.0`.

* `LawfulF64Text Double` — a double can be told from its text.
-/

set_option autoImplicit false

namespace ChiffonDB

/-! ## Digits -/

theorem parseDigits_toDigits (n : Nat) : parseDigits (Nat.toDigits 10 n) = some n := by
  have hne : Nat.toDigits 10 n ≠ [] := Nat.toDigits_ne_nil
  have hall : (Nat.toDigits 10 n).all Char.isDigit = true := by
    rw [List.all_eq_true]
    exact fun c hc => Nat.isDigit_of_mem_toDigits (by decide) (by decide) hc
  unfold parseDigits
  split
  · contradiction
  · rw [if_pos hall]
    exact congrArg some Nat.ofDigitChars_ten_toDigits

namespace Double

/-! ## Texts -/

def printChars (q : ℚ) : List Char :=
  (if q < 0 then ['-'] else []) ++ Nat.toDigits 10 q.num.natAbs ++ '.' :: Nat.toDigits 10 (q.den - 1)

/-- The digits in front of a point, and those behind it. -/
def parseChars (cs : List Char) : Option ℚ := do
  let n ← parseDigits (cs.takeWhile Char.isDigit)
  match cs.dropWhile Char.isDigit with
  | [] => some n
  | '.' :: rest => do
    let d ← parseDigits rest
    some (n / (d + 1))
  | _ => none

def parseSigned : List Char → Option ℚ
  | '-' :: cs => (parseChars cs).map fun q => -q
  | cs => parseChars cs

/-- The 64 bits of a number that is not zero. -/
def bitsOf (q : ℚ) : ℕ :=
  let e := max (Int.log 2 |q|) (-1022)
  let m := (|q| / 2 ^ (e - 52)).floor.toNat
  (if q < 0 then 2 ^ 63 else 0) + (if m < 2 ^ 52 then m else (e + 1023).toNat * 2 ^ 52 + (m - 2 ^ 52))

end Double

instance : F64Text Double where
  parse s := (Double.parseSigned s.toList).map .finite
  print
    | .finite q => String.ofList (Double.printChars q)
    | .inf s => if s then "-inf" else "inf"
    | .nan => "NaN"
  fract
    | .finite q => .finite (q - (q.num.tdiv q.den : ℤ))
    | _ => .nan
  toInt
    | .finite q => q.num.tdiv q.den
    | _ => 0
  bits
    | .finite q => UInt64.ofNat (if q = 0 then 0 else Double.bitsOf q)
    | .inf s => if s then 0xFFF0000000000000 else 0x7FF0000000000000
    | .nan => 0x7FF8000000000000

namespace Double

theorem parseChars_digits (n d : ℕ) :
    parseChars (Nat.toDigits 10 n ++ '.' :: Nat.toDigits 10 d) = some ((n : ℚ) / (d + 1)) := by
  have hdigits : ∀ c ∈ Nat.toDigits 10 n, c.isDigit = true := fun c hc =>
    Nat.isDigit_of_mem_toDigits (by decide) (by decide) hc
  unfold parseChars
  rw [List.takeWhile_append_of_pos hdigits, List.dropWhile_append_of_pos hdigits]
  rw [List.takeWhile_cons_of_neg (by decide), List.dropWhile_cons_of_neg (by decide), List.append_nil,
    parseDigits_toDigits]
  show (parseDigits (Nat.toDigits 10 d)).bind _ = _
  rw [parseDigits_toDigits]
  rfl

theorem parseSigned_printChars (q : ℚ) : parseSigned (printChars q) = some q := by
  have hden : (q.den - 1 : ℕ) + 1 = q.den := Nat.sub_add_cancel q.den_pos
  have hcast : ((q.den - 1 : ℕ) : ℚ) + 1 = q.den := by exact_mod_cast hden
  have habs : ((q.num.natAbs : ℕ) : ℚ) = |(q.num : ℚ)| := by
    rw [Nat.cast_natAbs, Int.cast_abs]
  unfold printChars
  by_cases hq : q < 0
  · rw [if_pos hq]
    show (parseChars (Nat.toDigits 10 q.num.natAbs ++ '.' :: Nat.toDigits 10 (q.den - 1))).map _ = _
    rw [parseChars_digits, Option.map_some, hcast, habs, abs_of_neg (by exact_mod_cast Rat.num_neg.2 hq)]
    rw [neg_div, neg_neg, Rat.num_div_den]
  · rw [if_neg hq, List.nil_append]
    have hfirst : ∃ c cs, Nat.toDigits 10 q.num.natAbs = c :: cs ∧ c.isDigit = true := by
      obtain ⟨c, cs, hc⟩ := List.exists_cons_of_ne_nil (Nat.toDigits_ne_nil (n := q.num.natAbs) (b := 10))
      exact ⟨c, cs, hc, Nat.isDigit_of_mem_toDigits (by decide) (by decide) (hc ▸ List.mem_cons_self)⟩
    obtain ⟨c, cs, hc, hdigit⟩ := hfirst
    have hplain : parseSigned (Nat.toDigits 10 q.num.natAbs ++ '.' :: Nat.toDigits 10 (q.den - 1)) =
        parseChars (Nat.toDigits 10 q.num.natAbs ++ '.' :: Nat.toDigits 10 (q.den - 1)) := by
      rw [hc, List.cons_append]
      unfold parseSigned
      split
      · rename_i heq
        rw [(List.cons.inj heq).1] at hdigit
        cases hdigit
      · rfl
    have hnum : (0 : ℚ) ≤ q.num := by exact_mod_cast Rat.num_nonneg.2 (not_lt.1 hq)
    rw [hplain, parseChars_digits, hcast, habs, abs_of_nonneg hnum, Rat.num_div_den]

end Double

instance : LawfulF64Text Double where
  parse_print x hx := by
    cases x with
    | finite q =>
      show (Double.parseSigned (String.ofList (Double.printChars q)).toList).map _ = _
      rw [String.toList_ofList, Double.parseSigned_printChars]
      rfl
    | inf s => cases hx
    | nan => cases hx
  numeric x hx c hc := by
    cases x with
    | finite q =>
      have hc : c ∈ Double.printChars q := by
        rw [← String.toList_ofList (l := Double.printChars q)]
        exact hc
      have hdigit : ∀ n, c ∈ Nat.toDigits 10 n → isNumeric c = true := fun n h => by
        simp [isNumeric, Nat.isDigit_of_mem_toDigits (by decide) (by decide) h]
      unfold Double.printChars at hc
      rw [List.mem_append, List.mem_append, List.mem_cons] at hc
      rcases hc with (hc | hc) | rfl | hc
      · split at hc
        · rw [List.mem_singleton.1 hc]
          rfl
        · exact absurd hc List.not_mem_nil
      · exact hdigit _ hc
      · rfl
      · exact hdigit _ hc
    | inf s => cases hx
    | nan => cases hx
  decimal x hx := by
    cases x with
    | finite q =>
      refine ⟨'.', ?_, .inl rfl⟩
      show '.' ∈ (String.ofList (Double.printChars q)).toList
      rw [String.toList_ofList]
      exact List.mem_append_right _ List.mem_cons_self
    | inf s => cases hx
    | nan => cases hx

end ChiffonDB

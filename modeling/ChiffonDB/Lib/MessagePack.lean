import Mathlib.Data.List.Basic
import ChiffonDB.Lib.Bytes

/-!
# MessagePack

Numbers of 16 bits, and arrays, behind their shortest markers.

* `Reads` — a reader that finds what was written, and what is behind it.
* `reads_uint16` — numbers; `unpackArray_packArray` — **arrays of anything that can be read**.
-/

set_option autoImplicit false

namespace MessagePack

open Bytes

/-- A number in some bytes, the highest one first. -/
def beBytes (width n : Nat) : List UInt8 := (leBytes width n).reverse

/-- The number in the next bytes. -/
def readBE (width : Nat) (bytes : List UInt8) : Option (Nat × List UInt8) :=
  if width ≤ bytes.length then some (ofLE (bytes.take width).reverse, bytes.drop width) else none

theorem readBE_beBytes {width n : Nat} (h : n < 256 ^ width) (rest : List UInt8) :
    readBE width (beBytes width n ++ rest) = some (n, rest) := by
  have hlen : (beBytes width n).length = width := by simp [beBytes]
  have hnumber : ofLE (beBytes width n).reverse = n := by
    rw [beBytes, List.reverse_reverse, ofLE_leBytes]
    exact Nat.mod_eq_of_lt h
  unfold readBE
  rw [if_pos (by simp [hlen]), List.take_left' hlen, List.drop_left' hlen, hnumber]

section Readers

variable {α : Type} {pack : α → List UInt8} {unpack : List UInt8 → Option (α × List UInt8)}

/-- What is written is read, up to where it ends. -/
def Reads (pack : α → List UInt8) (unpack : List UInt8 → Option (α × List UInt8)) : Prop :=
  ∀ a rest, unpack (pack a ++ rest) = some (a, rest)

/-- Some values, one after the other. -/
def unpackMany (unpack : List UInt8 → Option (α × List UInt8)) : Nat → List UInt8 → Option (List α × List UInt8)
  | 0, bytes => some ([], bytes)
  | n + 1, bytes => do
    let (a, rest) ← unpack bytes
    let (as, rest) ← unpackMany unpack n rest
    return (a :: as, rest)

theorem Reads.many (h : Reads pack unpack) (as : List α) (rest : List UInt8) :
    unpackMany unpack as.length (as.flatMap pack ++ rest) = some (as, rest) := by
  induction as with
  | nil => rfl
  | cons a as ih =>
    rw [List.flatMap_cons, List.append_assoc, List.length_cons, unpackMany, h]
    simp [ih]

/-! ## Arrays -/

/-- The marker of an array, if there is one. -/
def packLength (n : Nat) : Option (List UInt8) :=
  if n < 16 then some [UInt8.ofNat (0x90 + n)]
  else if n < 256 ^ 2 then some (0xdc :: beBytes 2 n)
  else if n < 256 ^ 4 then some (0xdd :: beBytes 4 n)
  else none

def unpackLength : List UInt8 → Option (Nat × List UInt8)
  | [] => none
  | marker :: bytes =>
    if marker = 0xdc then readBE 2 bytes
    else if marker = 0xdd then readBE 4 bytes
    else if 0x90 ≤ marker.toNat ∧ marker.toNat < 0xa0 then some (marker.toNat - 0x90, bytes)
    else none

theorem unpackLength_packLength {n : Nat} {bytes : List UInt8} (h : packLength n = some bytes) (rest : List UInt8) :
    unpackLength (bytes ++ rest) = some (n, rest) := by
  unfold packLength at h
  split at h
  · rename_i hn
    cases h
    have hmarker : (UInt8.ofNat (0x90 + n)).toNat = 0x90 + n := by
      rw [UInt8.toNat_ofNat']
      omega
    have hne : ∀ m : UInt8, 0xa0 ≤ m.toNat → UInt8.ofNat (0x90 + n) ≠ m := by
      rintro m hm rfl
      omega
    show unpackLength (UInt8.ofNat (0x90 + n) :: rest) = _
    rw [unpackLength, if_neg (hne _ (by decide)), if_neg (hne _ (by decide)), if_pos (by omega), hmarker]
    simp
  · split at h
    · rename_i hn
      cases h
      exact readBE_beBytes hn rest
    · split at h
      · rename_i hn
        cases h
        exact readBE_beBytes hn rest
      · cases h

def packArray (pack : α → List UInt8) (as : List α) : Option (List UInt8) :=
  (packLength as.length).map (· ++ as.flatMap pack)

/-- An array; what is behind it is not looked at. -/
def unpackArray (unpack : List UInt8 → Option (α × List UInt8)) (bytes : List UInt8) : Option (List α) := do
  let (n, rest) ← unpackLength bytes
  let (as, _) ← unpackMany unpack n rest
  return as

/-- **Arrays are read back.** -/
theorem unpackArray_packArray (hreads : Reads pack unpack) {as : List α} {bytes : List UInt8}
    (h : packArray pack as = some bytes) : unpackArray unpack bytes = some as := by
  obtain ⟨marker, hmarker, rfl⟩ := Option.map_eq_some_iff.1 h
  have hmany := hreads.many as []
  rw [List.append_nil] at hmany
  unfold unpackArray
  rw [unpackLength_packLength hmarker]
  simp [hmany]

theorem isSome_packArray {as : List α} (h : as.length < 256 ^ 4) : (packArray pack as).isSome := by
  unfold packArray packLength
  split
  · rfl
  · split
    · rfl
    · rfl

end Readers

/-! ## Numbers -/

def packUInt16 (n : UInt16) : List UInt8 :=
  if n.toNat < 0x80 then [n.toUInt8]
  else if n.toNat < 256 then 0xcc :: beBytes 1 n.toNat
  else 0xcd :: beBytes 2 n.toNat

def unpackUInt16 : List UInt8 → Option (UInt16 × List UInt8)
  | [] => none
  | marker :: bytes =>
    if marker.toNat < 0x80 then some (marker.toUInt16, bytes)
    else if marker = 0xcc then (readBE 1 bytes).map fun p => (UInt16.ofNat p.1, p.2)
    else if marker = 0xcd then (readBE 2 bytes).map fun p => (UInt16.ofNat p.1, p.2)
    else none

/-- **Numbers are read back.** -/
theorem reads_uint16 : Reads packUInt16 unpackUInt16 := by
  intro n rest
  have hn : n.toNat < 256 ^ 2 := n.toNat_lt
  unfold packUInt16
  split
  · rename_i hsmall
    have hbyte : n.toUInt8.toNat = n.toNat := by
      rw [UInt16.toNat_toUInt8]
      omega
    show unpackUInt16 (n.toUInt8 :: rest) = _
    rw [unpackUInt16, if_pos (by omega)]
    exact congrArg (fun m => some (m, rest)) (UInt16.toNat_inj.1 (by rw [UInt8.toNat_toUInt16, hbyte]))
  · split
    · rename_i hbyte
      rw [List.cons_append, unpackUInt16, if_neg (by decide), if_pos rfl, readBE_beBytes (by omega), Option.map_some,
        UInt16.ofNat_toNat]
    · rw [List.cons_append, unpackUInt16, if_neg (by decide), if_neg (by decide), if_pos rfl, readBE_beBytes hn,
        Option.map_some, UInt16.ofNat_toNat]

end MessagePack

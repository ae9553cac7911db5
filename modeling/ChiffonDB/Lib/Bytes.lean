import Mathlib.Data.List.Basic
import Mathlib.Tactic.Ring
import Mathlib.Tactic.Linarith

/-!
# Byte strings: slices, in-place writes, little-endian fields

Byte buffers are `List UInt8`.  `slice` is `&buf[off..off + n]`, `splice` is
`buf[off..off + bs.len()].copy_from_slice(bs)`, `leBytes` / `ofLE` are `to_le_bytes` /
`from_le_bytes` at any width.

* `slice_splice_self`, `slice_splice_before`, `slice_splice_after` — what a write does to a
  read of the same range and of a range beside it.
* `ofLE_leBytes`, `leBytes_ofLE` — the little-endian codec is a bijection at each width.
-/

set_option autoImplicit false

namespace Bytes

/-- `&buf[off..off + n]` (shorter when the buffer ends early). -/
def slice (l : List UInt8) (off n : Nat) : List UInt8 := (l.drop off).take n

/-- `buf[off..off + bs.len()].copy_from_slice(bs)`. -/
def splice (l : List UInt8) (off : Nat) (bs : List UInt8) : List UInt8 :=
  l.take off ++ (bs ++ l.drop (off + bs.length))

theorem length_slice {l : List UInt8} {off n : Nat} (h : off + n ≤ l.length) :
    (slice l off n).length = n := by
  simp only [slice, List.length_take, List.length_drop]; omega

theorem length_splice {l bs : List UInt8} {off : Nat} (h : off + bs.length ≤ l.length) :
    (splice l off bs).length = l.length := by
  simp only [splice, List.length_append, List.length_take, List.length_drop]; omega

theorem getElem?_slice (l : List UInt8) (off n i : Nat) :
    (slice l off n)[i]? = if i < n then l[off + i]? else none := by
  simp only [slice, List.getElem?_take, List.getElem?_drop]

theorem getElem?_splice {l bs : List UInt8} {off : Nat} (h : off + bs.length ≤ l.length)
    (i : Nat) : (splice l off bs)[i]? =
      if i < off then l[i]? else if i < off + bs.length then bs[i - off]? else l[i]? := by
  unfold splice
  have hoff : (l.take off).length = off := by rw [List.length_take]; omega
  by_cases h1 : i < off
  · rw [if_pos h1, List.getElem?_append_left (by omega), List.getElem?_take, if_pos h1]
  · rw [if_neg h1, List.getElem?_append_right (by omega), hoff]
    by_cases h2 : i < off + bs.length
    · rw [if_pos h2, List.getElem?_append_left (by omega)]
    · rw [if_neg h2, List.getElem?_append_right (by omega), List.getElem?_drop]
      congr 1; omega

/-- Reading back the range just written. -/
theorem slice_splice_self {l bs : List UInt8} {off : Nat} (h : off + bs.length ≤ l.length) :
    slice (splice l off bs) off bs.length = bs := by
  apply List.ext_getElem?
  intro i
  rw [getElem?_slice, getElem?_splice h]
  by_cases hi : i < bs.length
  · rw [if_pos hi, if_neg (by omega), if_pos (by omega), Nat.add_sub_cancel_left]
  · rw [if_neg hi, List.getElem?_eq_none (by omega)]

/-- A range in front of the write is not changed. -/
theorem slice_splice_before {l bs : List UInt8} {off o n : Nat}
    (h : off + bs.length ≤ l.length) (ho : o + n ≤ off) :
    slice (splice l off bs) o n = slice l o n := by
  apply List.ext_getElem?
  intro i
  rw [getElem?_slice, getElem?_slice, getElem?_splice h]
  by_cases hi : i < n
  · rw [if_pos hi, if_pos hi, if_pos (by omega)]
  · rw [if_neg hi, if_neg hi]

/-- A range behind the write is not changed. -/
theorem slice_splice_after {l bs : List UInt8} {off o n : Nat}
    (h : off + bs.length ≤ l.length) (ho : off + bs.length ≤ o) :
    slice (splice l off bs) o n = slice l o n := by
  apply List.ext_getElem?
  intro i
  rw [getElem?_slice, getElem?_slice, getElem?_splice h]
  by_cases hi : i < n
  · rw [if_pos hi, if_pos hi, if_neg (by omega), if_neg (by omega)]
  · rw [if_neg hi, if_neg hi]

theorem slice_append_left {a b : List UInt8} {off n : Nat} (h : off + n ≤ a.length) :
    slice (a ++ b) off n = slice a off n := by
  unfold slice
  rw [List.drop_append, List.take_append]
  have : n - (a.drop off).length = 0 := by rw [List.length_drop]; omega
  rw [this, List.take_zero, List.append_nil]

theorem slice_append_right {a b : List UInt8} {off n : Nat} (h : a.length ≤ off) :
    slice (a ++ b) off n = slice b (off - a.length) n := by
  unfold slice
  rw [List.drop_append, List.drop_eq_nil_of_le h, List.nil_append]

theorem slice_zero_length (l : List UInt8) : slice l 0 l.length = l := by
  simp [slice]

theorem slice_slice {l : List UInt8} {off n o m : Nat} (h : o + m ≤ n) :
    slice (slice l off n) o m = slice l (off + o) m := by
  apply List.ext_getElem?
  intro i
  simp only [getElem?_slice]
  by_cases hi : i < m
  · rw [if_pos hi, if_pos hi, if_pos (by omega), Nat.add_assoc]
  · rw [if_neg hi, if_neg hi]

/-! ## Little-endian fields -/

/-- `v.to_le_bytes()` for a `k`-byte unsigned integer. -/
def leBytes : Nat → Nat → List UInt8
  | 0, _ => []
  | k + 1, v => UInt8.ofNat v :: leBytes k (v / 256)

/-- `from_le_bytes`. -/
def ofLE : List UInt8 → Nat
  | [] => 0
  | b :: bs => b.toNat + 256 * ofLE bs

@[simp] theorem length_leBytes (k v : Nat) : (leBytes k v).length = k := by
  induction k generalizing v with
  | zero => rfl
  | succ k ih => simp [leBytes, ih]

theorem ofLE_leBytes (k v : Nat) : ofLE (leBytes k v) = v % 256 ^ k := by
  induction k generalizing v with
  | zero => simp [leBytes, ofLE, Nat.mod_one]
  | succ k ih =>
    have hpow : 256 ^ (k + 1) = 256 * 256 ^ k := by rw [Nat.pow_succ, Nat.mul_comm]
    simp only [leBytes, ofLE, ih, UInt8.toNat_ofNat']
    rw [hpow, Nat.mod_mul]

theorem ofLE_lt (l : List UInt8) : ofLE l < 256 ^ l.length := by
  induction l with
  | nil => simp [ofLE]
  | cons b bs ih =>
    have hb := b.toNat_lt
    simp only [ofLE, List.length_cons, Nat.pow_succ]
    omega

theorem leBytes_ofLE (l : List UInt8) : leBytes l.length (ofLE l) = l := by
  induction l with
  | nil => rfl
  | cons b bs ih =>
    have hb := b.toNat_lt
    have hdiv : (b.toNat + 256 * ofLE bs) / 256 = ofLE bs := by omega
    have hmod : UInt8.ofNat (b.toNat + 256 * ofLE bs) = b := by
      apply UInt8.toNat_inj.1
      rw [UInt8.toNat_ofNat']
      omega
    simp only [leBytes, ofLE, List.length_cons, hdiv, hmod, ih]

theorem leBytes_zero (k : Nat) : leBytes k 0 = List.replicate k 0 := by
  induction k with
  | zero => rfl
  | succ k ih => simp only [leBytes, Nat.zero_div, ih, List.replicate_succ]; rfl

/-- The first `k` bytes of a little-endian field, the others zeroed. -/
theorem take_leBytes_zeros {k n : Nat} (v : Nat) (h : k ≤ n) :
    (leBytes n v).take k ++ List.replicate (n - k) 0 = leBytes n (v % 256 ^ k) := by
  induction n generalizing k v with
  | zero => obtain rfl : k = 0 := by omega
            rfl
  | succ n ih =>
    cases k with
    | zero => rw [Nat.pow_zero, Nat.mod_one, leBytes_zero]; rfl
    | succ k =>
      have hpow : 256 ^ (k + 1) = 256 * 256 ^ k := by rw [Nat.pow_succ, Nat.mul_comm]
      have hhead : UInt8.ofNat (v % (256 * 256 ^ k)) = UInt8.ofNat v := by
        apply UInt8.toNat_inj.1
        rw [UInt8.toNat_ofNat', UInt8.toNat_ofNat']
        exact Nat.mod_mul_right_mod v 256 (256 ^ k)
      simp only [leBytes, List.take_succ_cons, Nat.add_sub_add_right, hpow, hhead, List.cons_append]
      rw [ih (v / 256) (by omega), Nat.mod_mul_right_div_self]

/-! ## Fixed widths -/

/-- `u16::to_le_bytes`. -/
def u16Bytes (v : UInt16) : List UInt8 := leBytes 2 v.toNat

/-- `u32::to_le_bytes`. -/
def u32Bytes (v : UInt32) : List UInt8 := leBytes 4 v.toNat

/-- `u16::from_le_bytes(buf[off..off + 2])`. -/
def u16At (l : List UInt8) (off : Nat) : UInt16 := UInt16.ofNat (ofLE (slice l off 2))

/-- `u32::from_le_bytes(buf[off..off + 4])`. -/
def u32At (l : List UInt8) (off : Nat) : UInt32 := UInt32.ofNat (ofLE (slice l off 4))

@[simp] theorem length_u16Bytes (v : UInt16) : (u16Bytes v).length = 2 := length_leBytes ..
@[simp] theorem length_u32Bytes (v : UInt32) : (u32Bytes v).length = 4 := length_leBytes ..

theorem u16At_of_slice {l : List UInt8} {off : Nat} {v : UInt16}
    (h : slice l off 2 = u16Bytes v) : u16At l off = v := by
  have hv := v.toNat_lt
  unfold u16At
  rw [h, u16Bytes, ofLE_leBytes, Nat.mod_eq_of_lt (by omega)]
  exact UInt16.ofNat_toNat

theorem u32At_of_slice {l : List UInt8} {off : Nat} {v : UInt32}
    (h : slice l off 4 = u32Bytes v) : u32At l off = v := by
  have hv := v.toNat_lt
  unfold u32At
  rw [h, u32Bytes, ofLE_leBytes, Nat.mod_eq_of_lt (by omega)]
  exact UInt32.ofNat_toNat

theorem u32Bytes_u32At {l : List UInt8} {off : Nat} (h : off + 4 ≤ l.length) :
    u32Bytes (u32At l off) = slice l off 4 := by
  have hl : (slice l off 4).length = 4 := length_slice h
  have hlt := ofLE_lt (slice l off 4)
  rw [hl] at hlt
  unfold u32Bytes u32At
  rw [UInt32.toNat_ofNat', Nat.mod_eq_of_lt (by omega)]
  have hround := leBytes_ofLE (slice l off 4)
  rwa [hl] at hround

/-- Reading back the word just written. -/
theorem u32At_splice_self {l : List UInt8} {off : Nat} (v : UInt32) (h : off + 4 ≤ l.length) :
    u32At (splice l off (u32Bytes v)) off = v := by
  apply u32At_of_slice
  have hb : off + (u32Bytes v).length ≤ l.length := by rwa [length_u32Bytes]
  have := slice_splice_self hb
  rwa [length_u32Bytes] at this

theorem u16At_splice_self {l : List UInt8} {off : Nat} (v : UInt16) (h : off + 2 ≤ l.length) :
    u16At (splice l off (u16Bytes v)) off = v := by
  apply u16At_of_slice
  have hb : off + (u16Bytes v).length ≤ l.length := by rwa [length_u16Bytes]
  have := slice_splice_self hb
  rwa [length_u16Bytes] at this

/-- A range beside the write is not changed. -/
theorem slice_splice_of_disjoint {l bs : List UInt8} {off o n : Nat}
    (h : off + bs.length ≤ l.length) (ho : o + n ≤ off ∨ off + bs.length ≤ o) :
    slice (splice l off bs) o n = slice l o n := by
  rcases ho with ho | ho
  · exact slice_splice_before h ho
  · exact slice_splice_after h ho

theorem u32At_splice_of_disjoint {l bs : List UInt8} {off o : Nat}
    (h : off + bs.length ≤ l.length) (ho : o + 4 ≤ off ∨ off + bs.length ≤ o) :
    u32At (splice l off bs) o = u32At l o := by
  unfold u32At
  rw [slice_splice_of_disjoint h ho]

theorem u16At_splice_of_disjoint {l bs : List UInt8} {off o : Nat}
    (h : off + bs.length ≤ l.length) (ho : o + 2 ≤ off ∨ off + bs.length ≤ o) :
    u16At (splice l off bs) o = u16At l o := by
  unfold u16At
  rw [slice_splice_of_disjoint h ho]

theorem ofLE_append (a b : List UInt8) : ofLE (a ++ b) = ofLE a + 256 ^ a.length * ofLE b := by
  induction a with
  | nil => simp [ofLE]
  | cons x a ih =>
    simp only [List.cons_append, ofLE, ih, List.length_cons, Nat.pow_succ']
    ring

theorem slice_add (l : List UInt8) (off n m : Nat) :
    slice l off (n + m) = slice l off n ++ slice l (off + n) m := by
  unfold slice
  rw [List.take_add, List.drop_drop]

/-- A 32-bit word is its two 16-bit halves. -/
theorem u32At_eq_u16At {l : List UInt8} {off : Nat} (h : off + 4 ≤ l.length) :
    (u32At l off).toNat = (u16At l off).toNat + 65536 * (u16At l (off + 2)).toNat := by
  have hlo : (slice l off 2).length = 2 := length_slice (by omega)
  have hhi : (slice l (off + 2) 2).length = 2 := length_slice (by omega)
  have h1 := ofLE_lt (slice l off 2)
  have h2 := ofLE_lt (slice l (off + 2) 2)
  rw [hlo] at h1
  rw [hhi] at h2
  unfold u32At u16At
  rw [slice_add l off 2 2, ofLE_append, hlo, UInt32.toNat_ofNat', UInt16.toNat_ofNat',
    UInt16.toNat_ofNat', Nat.mod_eq_of_lt, Nat.mod_eq_of_lt, Nat.mod_eq_of_lt]
  all_goals omega

/-- Word `i` of a packed array of `u32`s. -/
theorem slice_flatMap_u32Bytes {ws : List UInt32} {i : Nat} {w : UInt32} (h : ws[i]? = some w) :
    slice (ws.flatMap u32Bytes) (4 * i) 4 = u32Bytes w := by
  induction ws generalizing i with
  | nil => simp at h
  | cons v ws ih =>
    rw [List.flatMap_cons]
    cases i with
    | zero =>
      obtain rfl : v = w := by simpa using h
      rw [slice_append_left (by rw [length_u32Bytes])]
      exact slice_zero_length (u32Bytes v)
    | succ i =>
      rw [slice_append_right (by rw [length_u32Bytes]; omega), length_u32Bytes]
      have hoff : 4 * (i + 1) - 4 = 4 * i := by omega
      rw [hoff]
      exact ih (by simpa using h)

theorem length_flatMap_u32Bytes (ws : List UInt32) :
    (ws.flatMap u32Bytes).length = 4 * ws.length := by
  induction ws with
  | nil => rfl
  | cons v ws ih => rw [List.flatMap_cons, List.length_append, ih, length_u32Bytes,
      List.length_cons]; omega

theorem u32Bytes_injective {v w : UInt32} (h : u32Bytes v = u32Bytes w) : v = w := by
  have e := congrArg ofLE h
  have hv := v.toNat_lt
  have hw := w.toNat_lt
  simp only [u32Bytes, ofLE_leBytes] at e
  apply UInt32.toNat_inj.1
  omega

end Bytes

import ChiffonDB.Lib.Bytes

/-!
# Random-access files

A file is its byte content.  `readExact`, `writeAll` and `setLen` are the calls a program
makes on an open file after a seek: a read past the end fails, a write past the end fills the
gap with zeros, and setting the length cuts the file or extends it with zeros.

Cut into blocks of `k` bytes, a file is described by its length and by `block k f p`, the
content of block `p` padded with zeros: `block_writeAll` says a block write changes that block
and no other, `readExact_block` that a block inside the file reads back as `block`.
-/

set_option autoImplicit false

/-- The content of a file. -/
abbrev ByteFile := List UInt8

namespace ByteFile

open Bytes

/-- `seek(Start(off)); read_exact(&mut buf)` with an `n`-byte buffer; `none` is `UnexpectedEof`. -/
def readExact (f : ByteFile) (off n : Nat) : Option (List UInt8) :=
  if off + n ≤ f.length then some (slice f off n) else none

/-- The file extended with zeros to at least `n` bytes. -/
def pad (f : ByteFile) (n : Nat) : ByteFile := f ++ List.replicate (n - f.length) 0

/-- `seek(Start(off)); write_all(bs)`. -/
def writeAll (f : ByteFile) (off : Nat) (bs : List UInt8) : ByteFile :=
  splice (pad f (off + bs.length)) off bs

/-- `set_len(n)`. -/
def setLen (f : ByteFile) (n : Nat) : ByteFile := (pad f n).take n

theorem length_pad (f : ByteFile) (n : Nat) : (pad f n).length = max f.length n := by
  simp only [pad, List.length_append, List.length_replicate]; omega

theorem length_writeAll (f : ByteFile) (off : Nat) (bs : List UInt8) :
    (writeAll f off bs).length = max f.length (off + bs.length) := by
  unfold writeAll
  rw [length_splice (by rw [length_pad]; omega), length_pad]

theorem length_setLen (f : ByteFile) (n : Nat) : (setLen f n).length = n := by
  simp only [setLen, List.length_take, length_pad]; omega

theorem setLen_of_le {f : ByteFile} {n : Nat} (h : n ≤ f.length) : setLen f n = f.take n := by
  have hz : n - f.length = 0 := by omega
  simp only [setLen, pad, hz, List.replicate_zero, List.append_nil]

theorem setLen_zero (f : ByteFile) : setLen f 0 = [] := by simp [setLen]

/-- Writing at the end of the file appends. -/
theorem writeAll_length (f : ByteFile) (bs : List UInt8) : writeAll f f.length bs = f ++ bs := by
  have hz : f.length + bs.length - f.length = bs.length := by omega
  simp only [writeAll, splice, pad, hz]
  rw [List.take_left', List.drop_of_length_le (by simp), List.append_nil]
  rfl

/-- Writing at the end of a prefix overwrites what follows the prefix. -/
theorem writeAll_append (a b bs : List UInt8) :
    writeAll (a ++ b) a.length bs = a ++ bs ++ b.drop bs.length := by
  unfold writeAll splice pad
  rw [List.append_assoc, List.take_left', List.append_assoc, List.drop_append,
    List.drop_eq_nil_of_le (by omega), List.nil_append, Nat.add_sub_cancel_left, List.drop_append]
  · have hz : (List.replicate (a.length + bs.length - (a ++ b).length) (0 : UInt8)).drop
        (bs.length - b.length) = [] := by
      rw [List.drop_eq_nil_iff, List.length_replicate, List.length_append]; omega
    rw [hz, List.append_nil]
  · rfl

theorem readExact_drop (f : ByteFile) (off n : Nat) (h : off ≤ f.length) :
    readExact (f.drop off) 0 n = readExact f off n := by
  unfold readExact slice
  rw [List.length_drop, List.drop_zero]
  by_cases hn : off + n ≤ f.length
  · rw [if_pos hn, if_pos (by omega)]
  · rw [if_neg hn, if_neg (by omega)]

/-- Reading a whole component of a concatenation. -/
theorem readExact_append {a b c : List UInt8} {off n : Nat} (ho : off = a.length)
    (hn : n = b.length) : readExact (a ++ (b ++ c)) off n = some b := by
  subst ho hn
  unfold readExact
  rw [if_pos (by simp), slice_append_right (Nat.le_refl _), Nat.sub_self,
    slice_append_left (by omega), slice_zero_length]

/-! ## Bytes by position -/

/-- Byte `i` of the file, zero beyond its end. -/
def byteAt (f : ByteFile) (i : Nat) : UInt8 := f[i]?.getD 0

theorem byteAt_of_length_le {f : ByteFile} {i : Nat} (h : f.length ≤ i) : byteAt f i = 0 := by
  simp [byteAt, List.getElem?_eq_none h]

theorem byteAt_pad (f : ByteFile) (n i : Nat) : byteAt (pad f n) i = byteAt f i := by
  unfold byteAt pad
  by_cases h : i < f.length
  · rw [List.getElem?_append_left h]
  · rw [List.getElem?_append_right (by omega), List.getElem?_eq_none (l := f) (by omega),
      List.getElem?_replicate]
    split <;> rfl

theorem byteAt_writeAll (f : ByteFile) (off : Nat) (bs : List UInt8) (i : Nat) :
    byteAt (writeAll f off bs) i =
      if off ≤ i ∧ i < off + bs.length then bs[i - off]?.getD 0 else byteAt f i := by
  have hlen : off + bs.length ≤ (pad f (off + bs.length)).length := by rw [length_pad]; omega
  rw [← byteAt_pad f (off + bs.length) i]
  unfold byteAt writeAll
  rw [getElem?_splice hlen]
  by_cases h1 : i < off
  · rw [if_pos h1, if_neg (by omega)]
  · by_cases h2 : i < off + bs.length
    · rw [if_neg h1, if_pos h2, if_pos ⟨by omega, h2⟩]
    · rw [if_neg h1, if_neg h2, if_neg (by omega)]

/-- A file is determined by its length and its bytes. -/
theorem ext_byteAt {f g : ByteFile} (hl : f.length = g.length)
    (hb : ∀ i, byteAt f i = byteAt g i) : f = g := by
  apply List.ext_getElem hl
  intro i h1 h2
  have := hb i
  simpa [byteAt, List.getElem?_eq_getElem h1, List.getElem?_eq_getElem h2] using this

/-! ## Blocks -/

/-- Block `p` of the file, `k` bytes a block, padded with zeros. -/
@[irreducible] def block (k : Nat) (f : ByteFile) (p : Nat) : List UInt8 :=
  (List.range k).map (fun j => byteAt f (p * k + j))

theorem getElem?_block (k : Nat) (f : ByteFile) (p i : Nat) :
    (block k f p)[i]? = if i < k then some (byteAt f (p * k + i)) else none := by
  unfold block
  rw [List.getElem?_map]
  by_cases hi : i < k
  · rw [if_pos hi, List.getElem?_range hi]; rfl
  · rw [if_neg hi, List.getElem?_eq_none (by simpa using hi)]; rfl

theorem length_block (k : Nat) (f : ByteFile) (p : Nat) : (block k f p).length = k := by
  unfold block; simp

theorem block_congr {k p : Nat} {f g : ByteFile}
    (h : ∀ j < k, byteAt f (p * k + j) = byteAt g (p * k + j)) : block k f p = block k g p := by
  unfold block
  exact List.map_congr_left (fun j hj => h j (List.mem_range.1 hj))

/-- A block that lies inside the file reads back as `block`. -/
theorem readExact_block {k p : Nat} {f : ByteFile} (h : p * k + k ≤ f.length) :
    readExact f (p * k) k = some (block k f p) := by
  unfold readExact
  rw [if_pos h, Option.some.injEq]
  apply List.ext_getElem?
  intro i
  rw [getElem?_slice, getElem?_block]
  by_cases hi : i < k
  · have hlt : p * k + i < f.length := by omega
    simp [hi, byteAt, List.getElem?_eq_getElem hlt]
  · rw [if_neg hi, if_neg hi]

theorem readExact_eq_none {f : ByteFile} {off n : Nat} (h : f.length < off + n) :
    readExact f off n = none := by
  unfold readExact; rw [if_neg (by omega)]

/-- A block write changes that block only. -/
theorem block_writeAll {k : Nat} (f : ByteFile) (q : Nat) {bs : List UInt8} (hb : bs.length = k)
    (p : Nat) : block k (writeAll f (q * k) bs) p = if p = q then bs else block k f p := by
  split
  · rename_i h
    subst h
    apply List.ext_getElem?
    intro i
    rw [getElem?_block]
    by_cases hi : i < k
    · simp [hi, byteAt_writeAll, hb]
    · rw [if_neg hi, List.getElem?_eq_none (by omega)]
  · rename_i hne
    apply block_congr
    intro j hj
    rw [byteAt_writeAll, if_neg]
    rintro ⟨h1, h2⟩
    rw [hb] at h2
    apply hne
    have e1 : (p * k + j) / k = p := by
      rw [Nat.mul_comm, Nat.mul_add_div (by omega), Nat.div_eq_of_lt hj, Nat.add_zero]
    have e2 : (p * k + j) / k = q := by
      have hk : 0 < k := by omega
      apply Nat.div_eq_of_lt_le
      · omega
      · rw [Nat.add_mul, Nat.one_mul]; omega
    omega

/-- A file is determined by its length and its blocks. -/
theorem ext_block {k : Nat} {f g : ByteFile} (hk : 0 < k) (hl : f.length = g.length)
    (hb : ∀ p, block k f p = block k g p) : f = g := by
  apply ext_byteAt hl
  intro i
  have h := congrArg (fun l => l[i % k]?) (hb (i / k))
  simp only [getElem?_block, if_pos (Nat.mod_lt i hk), Option.some.injEq] at h
  rwa [Nat.div_add_mod'] at h

/-- Extending a file with zeros changes no block. -/
theorem block_append_zeros (k : Nat) (f : ByteFile) (n p : Nat) :
    block k (f ++ List.replicate n 0) p = block k f p := by
  apply block_congr
  intro j _
  unfold byteAt
  by_cases h : p * k + j < f.length
  · rw [List.getElem?_append_left h]
  · rw [List.getElem?_append_right (by omega), List.getElem?_eq_none (l := f) (by omega),
      List.getElem?_replicate]
    split <;> rfl

end ByteFile

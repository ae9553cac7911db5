import ChiffonDB.Storage.BlobChain
import ChiffonDB.Storage.Careful

/-!
# The stored schema

`write_schema_dto` and `load_schema_dto` of `schema/store.rs`, on the serialized bytes of the
schema: every write appends a new page chain and points the header at it.

* `SchemaAt` — a page map holds a serialized schema at a root.
* `run_loadSchemaBytes` — **loading returns the bytes stored at the header's root**.
* `run_writeSchemaBytes`, `schemaAt_of_appended` — a schema write stores the bytes and leaves all
  older pages but the header page as they were.
-/

set_option autoImplicit false

namespace ChiffonDB

open Bytes

/-- `for page in pages { db.append_page(page)?; }`. -/
def appendPages : List PageData → Prog Unit
  | [] => pure ()
  | page :: pages => do
    let _ ← Prog.append page
    appendPages pages

/-- `write_schema_dto` behind the serializer. -/
def writeSchemaBytes (bytes : List UInt8) : Prog Unit := do
  let pages := writeBlobChain bytes
  let firstPageId ← Prog.append (pages.headD PageData.zero)
  appendPages pages.tail
  let header ← Prog.getHeader
  if header.schemaVersion.toNat + 1 < UInt32.size then
    Prog.putHeader { header with
      schemaRoot := firstPageId
      schemaVersion := header.schemaVersion + 1 }
  else Prog.panic

/-- The loop of `load_schema_dto`; the walk stops behind `page_count` pages. -/
def loadSchemaChain (firstPageId pageCount : UInt32) :
    Nat → UInt32 → List PageData → Prog (List PageData)
  | 0, pageId, _ => .throw (.storageCorrupted pageId)
  | fuel + 1, pageId, pages => do
    let page ← Prog.read pageId
    let next := u32At page.bytes 0
    let pages := pages ++ [page]
    if next = NO_NEXT_PAGE then pure pages
    else if UInt32.ofNat pages.length > pageCount then .throw (.storageCorrupted pageId)
    else if firstPageId.toNat + next.toNat < UInt32.size then
      loadSchemaChain firstPageId pageCount fuel (firstPageId + next) pages
    else .throw (.storageCorrupted pageId)

/-- `load_schema_dto` before the deserializer. -/
def loadSchemaBytes : Prog (List UInt8) := do
  let header ← Prog.getHeader
  let firstPageId := header.schemaRoot
  if firstPageId = 0 then .throw (.schemaError "no schema stored")
  else do
    let pageCount ← Prog.count
    let pages ← loadSchemaChain firstPageId pageCount (pageCount.toNat + 1) firstPageId []
    Prog.ofExcept (readBlobChain pages)

/-! ## A schema on the pages -/

/-- The pages from `root` on hold the chain of `bytes`. -/
structure SchemaAt (m : PageMap) (root : UInt32) (bytes : List UInt8) : Prop where
  root_ne : root ≠ 0
  fits : root.toNat + pagesNeeded bytes.length ≤ m.count.toNat
  page : ∀ {i d}, (writeBlobChain bytes)[i]? = some d → m.pages (root + UInt32.ofNat i) = some d

/-- Page `p` belongs to the chain. -/
def OnSchema (root : UInt32) (bytes : List UInt8) (p : UInt32) : Prop :=
  root.toNat ≤ p.toNat ∧ p.toNat < root.toNat + pagesNeeded bytes.length

namespace SchemaAt

variable {m m' : PageMap} {root : UInt32} {bytes : List UInt8}

theorem toNat_add (h : SchemaAt m root bytes) {i : Nat} (hi : i < pagesNeeded bytes.length) :
    (root + UInt32.ofNat i).toNat = root.toNat + i := by
  have hfits := h.fits
  have hc := m.count.toNat_lt
  have hi' : (UInt32.ofNat i).toNat = i := by
    rw [UInt32.toNat_ofNat']; exact Nat.mod_eq_of_lt (by omega)
  rw [UInt32.toNat_add, hi']
  exact Nat.mod_eq_of_lt (by omega)

/-- Changes elsewhere do not touch the chain. -/
theorem congr (h : SchemaAt m root bytes) (hcount : m.count.toNat ≤ m'.count.toNat)
    (hpages : ∀ p, OnSchema root bytes p → m'.pages p = m.pages p) : SchemaAt m' root bytes where
  root_ne := h.root_ne
  fits := Nat.le_trans h.fits hcount
  page {i d} hi := by
    have hlt : i < pagesNeeded bytes.length := by
      rw [← length_writeBlobChain]
      exact (List.getElem?_eq_some_iff.1 hi).1
    have hto := h.toNat_add hlt
    rw [hpages _ ⟨by omega, by omega⟩, h.page hi]

theorem small (h : SchemaAt m root bytes) : pagesNeeded bytes.length < NO_NEXT_PAGE.toNat := by
  have hfits := h.fits
  have hc := m.count.toNat_lt
  have hr : root.toNat ≠ 0 := fun he => h.root_ne (UInt32.toNat_inj.1 he)
  have hno : NO_NEXT_PAGE.toNat = 2 ^ 32 - 1 := by decide
  omega

/-- From page `i` on, the walk collects the rest of the chain. -/
theorem run_chain (h : SchemaAt m root bytes) {i fuel : Nat} (hi : i < pagesNeeded bytes.length)
    (hfuel : pagesNeeded bytes.length < i + fuel) :
    (loadSchemaChain root m.count fuel (root + UInt32.ofNat i) ((writeBlobChain bytes).take i)).run m =
      (.ok (writeBlobChain bytes), m) := by
  induction fuel generalizing i with
  | zero => omega
  | succ fuel ih =>
    have hpage := getElem?_writeBlobChain hi
    have htake : (writeBlobChain bytes).take i ++ [chainPage (if i + 1 < pagesNeeded bytes.length then
        UInt32.ofNat (i + 1) else NO_NEXT_PAGE) bytes i] = (writeBlobChain bytes).take (i + 1) := by
      rw [List.take_add_one, hpage]
      rfl
    rw [loadSchemaChain, Prog.run_bind, Prog.run_read (h.page hpage), Prog.andThen_ok]
    dsimp only
    rw [chainPage_next, htake]
    by_cases hlast : i + 1 < pagesNeeded bytes.length
    · have hsmall := h.small
      have hto : (UInt32.ofNat (i + 1)).toNat = i + 1 := by
        rw [UInt32.toNat_ofNat', Nat.mod_eq_of_lt]
        have : NO_NEXT_PAGE.toNat < 2 ^ 32 := by decide
        omega
      have hne : UInt32.ofNat (i + 1) ≠ NO_NEXT_PAGE := by
        intro he
        rw [he] at hto
        omega
      have hlen : ((writeBlobChain bytes).take (i + 1)).length = i + 1 := by
        rw [List.length_take, length_writeBlobChain]
        omega
      have hcount : ¬ UInt32.ofNat (i + 1) > m.count := by
        have hfits := h.fits
        intro hgt
        have := UInt32.lt_iff_toNat_lt.1 hgt
        omega
      have hadd : root.toNat + (UInt32.ofNat (i + 1)).toNat < UInt32.size := by
        have hfits := h.fits
        have hc := m.count.toNat_lt
        rw [hto]
        unfold UInt32.size
        omega
      rw [if_pos hlast, if_neg hne, hlen, if_neg hcount, if_pos hadd]
      exact ih hlast (by omega)
    · have hall : (writeBlobChain bytes).take (i + 1) = writeBlobChain bytes := by
        apply List.take_of_length_le
        rw [length_writeBlobChain]
        omega
      rw [if_neg hlast, if_pos rfl, hall]
      rfl

end SchemaAt

/-- **Loading returns the bytes stored at the header's root.** -/
theorem run_loadSchemaBytes {m : PageMap} {bytes : List UInt8}
    (h : SchemaAt m m.header.schemaRoot bytes) : loadSchemaBytes.run m = (.ok bytes, m) := by
  have hfuel : pagesNeeded bytes.length < 0 + (m.count.toNat + 1) := by
    have := h.fits
    omega
  have hchain := h.run_chain (pagesNeeded_pos _) hfuel
  have hroot : m.header.schemaRoot + UInt32.ofNat 0 = m.header.schemaRoot := UInt32.add_zero _
  rw [hroot, List.take_zero] at hchain
  unfold loadSchemaBytes
  rw [Prog.run_bind, Prog.run_getHeader, Prog.andThen_ok, if_neg h.root_ne, Prog.run_bind,
    Prog.run_count, Prog.andThen_ok, Prog.run_bind, hchain, Prog.andThen_ok,
    readBlobChain_writeBlobChain h.small]
  rfl

theorem readOnly_loadSchemaChain (first count : UInt32) (fuel : Nat) (p : UInt32)
    (pages : List PageData) : (loadSchemaChain first count fuel p pages).ReadOnly := by
  induction fuel generalizing p pages with
  | zero => trivial
  | succ fuel ih =>
    refine (Prog.readOnly_read p).bind fun page => ?_
    dsimp only
    split
    · trivial
    · split
      · trivial
      · split
        · exact ih _ _
        · trivial

theorem readOnly_loadSchemaBytes : loadSchemaBytes.ReadOnly := by
  refine Prog.ReadOnly.bind (fun _ => trivial) fun header => ?_
  dsimp only
  split
  · trivial
  · exact Prog.ReadOnly.bind (fun _ => trivial) fun n =>
      (readOnly_loadSchemaChain _ _ _ _ _).bind fun pages => Prog.readOnly_ofExcept _

/-! ## Writing a schema -/

/-- `m'` is `m` with the pages `ds` appended. -/
structure Appended (m m' : PageMap) (ds : List PageData) : Prop where
  durable : m'.durable = m.durable
  header : m'.header = m.header
  count : m'.count.toNat = m.count.toNat + ds.length
  old : ∀ p : UInt32, p.toNat < m.count.toNat ∨ m'.count.toNat ≤ p.toNat → m'.pages p = m.pages p
  new : ∀ {i d}, ds[i]? = some d → m'.pages (m.count + UInt32.ofNat i) = some d

theorem Appended.nil (m : PageMap) : Appended m m [] where
  durable := rfl
  header := rfl
  count := rfl
  old _ _ := rfl
  new h := by cases h

theorem Appended.cons {m m' m'' : PageMap} {p : UInt32} {d : PageData} {ds : List PageData}
    (h : m.appendPage d = some (p, m')) (hs : Appended m' m'' ds) : Appended m m'' (d :: ds) := by
  obtain ⟨-, hc, rfl⟩ := appendPage_eq_some h
  have hsucc : (m.count + 1).toNat = m.count.toNat + 1 := by
    rw [UInt32.toNat_add]; exact Nat.mod_eq_of_lt hc
  have hcount : m''.count.toNat = m.count.toNat + 1 + ds.length := by rw [hs.count, hsucc]
  have hself : m''.pages m.count = some d := by
    rw [hs.old m.count (.inl (by rw [hsucc]; omega))]
    exact Function.update_self ..
  refine ⟨hs.durable, hs.header, by rw [hcount, List.length_cons]; omega, ?_, ?_⟩
  · intro q hq
    have hne : q ≠ m.count := by
      rintro rfl
      omega
    rw [hs.old q (by rw [hsucc]; omega)]
    exact Function.update_of_ne hne ..
  · intro i e hi
    cases i with
    | zero =>
      cases hi
      have hroot : m.count + UInt32.ofNat 0 = m.count := UInt32.add_zero _
      rw [hroot]
      exact hself
    | succ i =>
      have hnew := hs.new (i := i) (d := e) (by simpa using hi)
      have hidx : m.count + UInt32.ofNat (i + 1) = m.count + 1 + UInt32.ofNat i := by
        rw [UInt32.ofNat_add, UInt32.add_comm (UInt32.ofNat i), ← UInt32.add_assoc]
        rfl
      rw [hidx]
      exact hnew

/-- `appendPages` appends its pages, or panics on a full file. -/
theorem run_appendPages (ds : List PageData) (m : PageMap) :
    (((appendPages ds).run m).1 = .panic ∧ UInt32.size ≤ m.count.toNat + ds.length) ∨
    ∃ m', (appendPages ds).run m = (.ok (), m') ∧ Appended m m' ds := by
  induction ds generalizing m with
  | nil => exact .inr ⟨m, rfl, .nil m⟩
  | cons d ds ih =>
    rw [appendPages, Prog.run_bind]
    rcases run_append_cases m d with ⟨hp, hfull⟩ | ⟨m₁, hp, ha⟩
    · rw [hp]
      exact .inl ⟨rfl, by rw [List.length_cons]; omega⟩
    · rw [hp, Prog.andThen_ok]
      rcases ih m₁ with ⟨hpanic, hfull⟩ | ⟨m₂, hrun, happ⟩
      · have := count_of_appendPage ha
        exact .inl ⟨hpanic, by rw [List.length_cons]; omega⟩
      · exact .inr ⟨m₂, hrun, .cons ha happ⟩

/-- There is no room for another schema, or for its version number. -/
def SchemaFull (count : UInt32) (header : FileHeader) (bytes : List UInt8) : Prop :=
  UInt32.size ≤ count.toNat + pagesNeeded bytes.length ∨
    UInt32.size ≤ header.schemaVersion.toNat + 1

/-- **A schema write appends the chain of `bytes` and points the header at it** (or panics on a
    full file). -/
theorem run_writeSchemaBytes {m : PageMap} (h0 : (m.pages 0).isSome) (hpos : 0 < m.count)
    (bytes : List UInt8) :
    (((writeSchemaBytes bytes).run m).1 = .panic ∧ SchemaFull m.count m.header bytes) ∨
    ∃ m₁ header, Appended m m₁ (writeBlobChain bytes) ∧
      header = { m.header with
        schemaRoot := m.count
        schemaVersion := m.header.schemaVersion + 1 } ∧
      (writeSchemaBytes bytes).run m =
        (.ok (), { m₁.set 0 header.serialize with header := header }) := by
  unfold writeSchemaBytes
  dsimp only
  cases hpages : writeBlobChain bytes with
  | nil =>
    have hlen := length_writeBlobChain bytes
    have := pagesNeeded_pos bytes.length
    rw [hpages, List.length_nil] at hlen
    omega
  | cons d ds =>
    rw [List.headD_cons, List.tail_cons, Prog.run_bind]
    have hlen : pagesNeeded bytes.length = ds.length + 1 := by
      rw [← length_writeBlobChain, hpages, List.length_cons]
    rcases run_append_cases m d with ⟨hp, hfull⟩ | ⟨m₁, hp, ha⟩
    · rw [hp]
      exact .inl ⟨rfl, .inl (by omega)⟩
    rw [hp, Prog.andThen_ok, Prog.run_bind]
    rcases run_appendPages ds m₁ with ⟨hpanic, hfull⟩ | ⟨m₂, hrun, happ⟩
    · have hcount := count_of_appendPage ha
      refine .inl ⟨?_, .inl (by omega)⟩
      cases hr : (appendPages ds).run m₁ with
      | mk r m₂ =>
        rw [hr] at hpanic
        cases hpanic
        rfl
    have happ' := Appended.cons ha happ
    rw [hrun, Prog.andThen_ok, Prog.run_bind, Prog.run_getHeader, Prog.andThen_ok]
    split
    case isTrue =>
      have hz : m₂.pages 0 = m.pages 0 := happ'.old 0 (.inl (UInt32.lt_iff_toNat_lt.1 hpos))
      refine .inr ⟨m₂, _, happ', rfl, ?_⟩
      rw [happ'.header]
      exact Prog.run_putHeader (by rw [hz]; exact h0)
    case isFalse hv =>
      rw [happ'.header] at hv
      exact .inl ⟨rfl, .inr (by omega)⟩

theorem schemaAt_of_appended {m m' : PageMap} {bytes : List UInt8} (hpos : 0 < m.count)
    (h : Appended m m' (writeBlobChain bytes)) : SchemaAt m' m.count bytes where
  root_ne he := by
    rw [he] at hpos
    exact absurd hpos (UInt32.lt_irrefl 0)
  fits := by rw [h.count, length_writeBlobChain]
  page := h.new

/-! ## The schema writer on a sound file -/

theorem within_append {frozen : UInt32 → Prop} {allowed : FileHeader → FileHeader → Prop}
    (d : PageData) (m : PageMap) : (Prog.append d).Within frozen allowed m := fun _ _ _ => trivial

theorem within_appendPages {frozen : UInt32 → Prop} {allowed : FileHeader → FileHeader → Prop}
    (ds : List PageData) (m : PageMap) : (appendPages ds).Within frozen allowed m := by
  induction ds generalizing m with
  | nil => trivial
  | cons d ds ih => exact (within_append d m).bind fun _ m' _ => ih m'

theorem within_writeSchemaBytes {frozen : UInt32 → Prop} {m : PageMap}
    (hv : m.header.version = VERSION) (bytes : List UInt8) :
    (writeSchemaBytes bytes).Within frozen (fun _ _ => True) m := by
  refine (within_append _ m).bind fun first m₁ h₁ => ?_
  refine (within_appendPages _ m₁).bind fun _ m₂ h₂ => ?_
  have hv₁ : m₁.header.version = VERSION := by
    rcases run_append_cases m ((writeBlobChain bytes).headD .zero) with ⟨hp, -⟩ | ⟨m', hp, ha⟩
    · rw [h₁] at hp
      cases hp
    · rw [h₁] at hp
      cases hp
      obtain ⟨-, -, rfl⟩ := appendPage_eq_some ha
      exact hv
  have hv₂ : m₂.header.version = VERSION := by
    rcases run_appendPages (writeBlobChain bytes).tail m₁ with ⟨hp, -⟩ | ⟨m', hp, ha⟩
    · rw [h₂] at hp
      cases hp
    · rw [h₂] at hp
      cases hp
      rw [ha.header, hv₁]
  refine Prog.Within.bind (trivial : Prog.getHeader.Within frozen _ m₂) fun header m₃ h₃ => ?_
  cases h₃
  split
  · exact ⟨hv₂, trivial, (Prog.readOnly_ofExcept _).within ..⟩
  · trivial

end ChiffonDB

import Mathlib.Data.List.Perm.Subperm
import ChiffonDB.Lib.SList
import ChiffonDB.Storage.LabelIndex

/-!
# Chains of label pages

* `ChainAt` — the pages of one type, head first, linked by their bytes.
* `run_walk` — **a walk visits the pages of a chain in order and is never cut short**.
* `RootsAt` — the root pages and the heads they record; `run_headOf`, `run_setHead` — looking a head
  up and recording one.
-/

set_option autoImplicit false

namespace ChiffonDB

namespace LabelIndex

open Threads

/-! ## Links and contents of a page map -/

def linkOf (next : UInt32) : Option UInt32 := if next = NO_ROOT then none else some next

def nextOf (m : PageMap) (p : UInt32) : Option UInt32 := (m.pages p).bind fun page => linkOf (readNext page)

def contents (m : PageMap) (p : UInt32) : List RecordId := ((m.pages p).map entries).getD []

def slotsOf (m : PageMap) (p : UInt32) : List (UInt16 × UInt32) := ((m.pages p).map slots).getD []

def spareTail (m : PageMap) (p : UInt32) : Option UInt32 := (m.pages p).bind readSpareTail

theorem linkOf_of_ne {next : UInt32} (h : next ≠ NO_ROOT) : linkOf next = some next := if_neg h

theorem linkOf_eq_none {next : UInt32} : linkOf next = none ↔ next = NO_ROOT := by
  unfold linkOf
  split <;> simp_all

section Page

variable {m : PageMap} {p : UInt32} {page : PageData} (h : m.pages p = some page)

include h

theorem nextOf_eq : nextOf m p = linkOf (readNext page) := by
  unfold nextOf
  rw [h]
  rfl

theorem contents_eq : contents m p = entries page := by
  unfold contents
  rw [h]
  rfl

theorem slotsOf_eq : slotsOf m p = slots page := by
  unfold slotsOf
  rw [h]
  rfl

theorem spareTail_eq : spareTail m p = readSpareTail page := by
  unfold spareTail
  rw [h]
  rfl

end Page

/-- A page depends on its bytes only. -/
theorem page_congr {m m' : PageMap} {p : UInt32} (h : m'.pages p = m.pages p) :
    nextOf m' p = nextOf m p ∧ contents m' p = contents m p ∧ slotsOf m' p = slotsOf m p ∧
      spareTail m' p = spareTail m p := by
  unfold nextOf contents slotsOf spareTail
  rw [h]
  exact ⟨rfl, rfl, rfl, rfl⟩

theorem nextOf_set (m : PageMap) (p : UInt32) (d : PageData) :
    nextOf (m.set p d) = Function.update (nextOf m) p (linkOf (readNext d)) := by
  funext q
  by_cases hq : q = p
  · subst hq
    rw [Function.update_self, nextOf_eq (m.set_pages_self q d)]
  · rw [Function.update_of_ne hq]
    exact (page_congr (m.set_pages_of_ne hq d)).1

/-! ## Pages in use -/

/-- A page that the index may read and write. -/
structure InUse (m : PageMap) (p : UInt32) : Prop where
  ne_zero : p ≠ 0
  lt_count : p < m.count
  isSome : (m.pages p).isSome

theorem InUse.ne_noRoot {m : PageMap} {p : UInt32} (h : InUse m p) : p ≠ NO_ROOT := by
  rintro rfl
  have hlt := UInt32.lt_iff_toNat_lt.1 h.lt_count
  have hc := m.count.toNat_lt
  have hno : NO_ROOT.toNat = 2 ^ 32 - 1 := by decide
  omega

theorem InUse.get {m : PageMap} {p : UInt32} (h : InUse m p) : ∃ page, m.pages p = some page :=
  Option.isSome_iff_exists.1 h.isSome

theorem InUse.congr {m m' : PageMap} {p : UInt32} (h : InUse m p)
    (hcount : m.count.toNat ≤ m'.count.toNat) (hs : (m.pages p).isSome → (m'.pages p).isSome) :
    InUse m' p where
  ne_zero := h.ne_zero
  lt_count := by
    have := UInt32.lt_iff_toNat_lt.1 h.lt_count
    rw [UInt32.lt_iff_toNat_lt]
    omega
  isSome := hs h.isSome

theorem InUse.set {m : PageMap} {p : UInt32} (h : InUse m p) (q : UInt32) (d : PageData) :
    InUse (m.set q d) p := by
  refine h.congr (Nat.le_refl _) fun hs => ?_
  by_cases hq : p = q
  · subst hq
    rw [m.set_pages_self]
    rfl
  · rw [m.set_pages_of_ne hq]
    exact hs

/-- Distinct pages in use are no more than the file has. -/
theorem length_le_count {m : PageMap} {pids : List UInt32} (hnd : pids.Nodup)
    (hp : ∀ p ∈ pids, InUse m p) : pids.length ≤ m.count.toNat := by
  have hmap : (pids.map UInt32.toNat).Nodup :=
    hnd.map fun a b hab => UInt32.toNat_inj.1 hab
  have hsub : pids.map UInt32.toNat ⊆ List.range m.count.toNat := by
    intro n hn
    obtain ⟨p, hp', rfl⟩ := List.mem_map.1 hn
    exact List.mem_range.2 (UInt32.lt_iff_toNat_lt.1 (hp p hp').lt_count)
  simpa using (hmap.subperm hsub).length_le

/-! ## Walks -/

section Walk

variable {α σ : Type}

/-- What a walk over these pages results in. -/
def scan (visit : σ → UInt32 → PageData → α ⊕ σ) (m : PageMap) : List UInt32 → σ → α ⊕ σ
  | [], s => .inr s
  | p :: ps, s =>
    match m.pages p with
    | none => .inr s
    | some page =>
      match visit s p page with
      | .inl a => .inl a
      | .inr s => scan visit m ps s

theorem scan_cons {visit : σ → UInt32 → PageData → α ⊕ σ} {m : PageMap} {p : UInt32} {page : PageData}
    (h : m.pages p = some page) (ps : List UInt32) (s : σ) :
    scan visit m (p :: ps) s = match visit s p page with
      | .inl a => .inl a
      | .inr s => scan visit m ps s := by
  rw [scan, h]

/-- **A walk visits the pages of a chain in order and is never cut short.** -/
theorem run_walk (visit : σ → UInt32 → PageData → α ⊕ σ) {m : PageMap} {pids : List UInt32} {p : UInt32}
    {steps : Nat} (h : Threads (nextOf m) (some p) pids none) (hp : ∀ q ∈ pids, InUse m q)
    (hlen : pids.length ≤ steps + 1) (s : σ) :
    (walk visit steps p s).run m = (.ok (scan visit m pids s), m) := by
  induction pids generalizing p steps s with
  | nil => cases threads_nil.1 h
  | cons q qs ih =>
    obtain ⟨hq, hrest⟩ := h
    have hpq : p = q := Option.some.inj hq
    subst hpq
    obtain ⟨page, hpage⟩ := (hp p (by simp)).get
    rw [walk.eq_def, Prog.run_bind, Prog.run_read hpage, Prog.andThen_ok, scan_cons hpage]
    cases visit s p page with
    | inl a => rfl
    | inr s =>
      dsimp only
      rw [nextOf_eq hpage] at hrest
      by_cases hend : readNext page = NO_ROOT
      · have hqs : qs = [] := by
          rw [linkOf_eq_none.2 hend] at hrest
          cases qs with
          | nil => rfl
          | cons r rs => cases hrest.1
        subst hqs
        rw [if_pos hend]
        rfl
      · rw [if_neg hend]
        rw [linkOf_of_ne hend] at hrest
        have hpos : qs ≠ [] := by
          rintro rfl
          cases threads_nil.1 hrest
        have hlen' : qs.length ≤ steps := by simpa using hlen
        cases steps with
        | zero => exact absurd (List.length_eq_zero_iff.1 (Nat.le_zero.1 hlen')) hpos
        | succ steps => exact ih hrest (fun r hr => hp r (by simp [hr])) hlen' s

end Walk

/-! ## Chains -/

/-- The chain of one type, head first.  Its empty pages behind the head may carry a record of any page
of the chain; the head's is never looked at. -/
structure ChainAt (m : PageMap) (pids : List UInt32) : Prop where
  links : Threads (nextOf m) pids.head? pids none
  nodup : pids.Nodup
  inUse : ∀ p ∈ pids, InUse m p
  hints : ∀ p ∈ pids.tail, ∀ t, spareTail m p = some t → t ∈ pids

/-- The record ids of a chain, in the order `get` lists them. -/
def members (m : PageMap) (pids : List UInt32) : List RecordId := pids.flatMap (contents m)

theorem ChainAt.nil (m : PageMap) : ChainAt m [] := ⟨rfl, by simp, by simp, by simp⟩

theorem members_congr {m m' : PageMap} {pids : List UInt32} (h : ∀ p ∈ pids, m'.pages p = m.pages p) :
    members m' pids = members m pids := by
  unfold members
  rw [List.flatMap_def, List.flatMap_def]
  congr 1
  exact List.map_congr_left fun p hp => (page_congr (h p hp)).2.1

/-- A chain depends on its own pages only. -/
theorem ChainAt.congr {m m' : PageMap} {pids : List UInt32} (h : ChainAt m pids)
    (hcount : m.count.toNat ≤ m'.count.toNat) (hp : ∀ p ∈ pids, m'.pages p = m.pages p) :
    ChainAt m' pids where
  links := h.links.congr fun p hp' => (page_congr (hp p hp')).1
  nodup := h.nodup
  inUse p hp' := (h.inUse p hp').congr hcount fun hs => by rw [hp p hp']; exact hs
  hints p hp' t ht := by
    rw [(page_congr (hp p (List.mem_of_mem_tail hp'))).2.2.2] at ht
    exact h.hints p hp' t ht

section Scan

variable {m : PageMap}

theorem entryIdx_eq_some {page : PageData} {rid : RecordId} {i : Fin ENTRIES_PER_PAGE}
    (h : entryIdx page rid = some i) : (entries page)[i.val]? = some rid := by
  obtain ⟨j, hj, rfl⟩ := Option.map_eq_some_iff.1 h
  obtain ⟨hrid, -⟩ := List.findFinIdx?_eq_some_iff.1 hj
  have hlt : (Fin.castLE (by rw [length_entries]; exact readCount_le page) j : Fin ENTRIES_PER_PAGE).val <
      (entries page).length := j.isLt
  rw [List.getElem?_eq_getElem hlt]
  exact congrArg some (eq_of_beq hrid)

theorem entryIdx_eq_none {page : PageData} {rid : RecordId} (h : entryIdx page rid = none) :
    rid ∉ entries page := by
  intro hmem
  have hnone := Option.map_eq_none_iff.1 h
  rw [List.findFinIdx?_eq_none_iff] at hnone
  exact hnone rid hmem (beq_self_eq_true rid)

/-- The walk of `add` and `remove`: the place of the entry, or it is not there. -/
theorem scan_visitEntry (rid : RecordId) {pids : List UInt32} (hp : ∀ p ∈ pids, InUse m p) :
    (∃ p page i, p ∈ pids ∧ m.pages p = some page ∧ (entries page)[i.val]? = some rid ∧
      scan (visitEntry rid) m pids () = .inl (p, i)) ∨
    (rid ∉ members m pids ∧ scan (visitEntry rid) m pids () = .inr ()) := by
  induction pids with
  | nil => exact .inr ⟨by simp [members], rfl⟩
  | cons p ps ih =>
    obtain ⟨page, hpage⟩ := (hp p (by simp)).get
    rw [scan_cons hpage]
    unfold visitEntry
    cases hidx : entryIdx page rid with
    | some i => exact .inl ⟨p, page, i, by simp, hpage, entryIdx_eq_some hidx, rfl⟩
    | none =>
      have hmiss := entryIdx_eq_none hidx
      rcases ih fun q hq => hp q (by simp [hq]) with ⟨q, qpage, i, hq, hqpage, hi, hscan⟩ | ⟨hno, hscan⟩
      · exact .inl ⟨q, qpage, i, by simp [hq], hqpage, hi, hscan⟩
      · refine .inr ⟨?_, hscan⟩
        unfold members
        rw [List.flatMap_cons, List.mem_append, contents_eq hpage]
        exact fun h => h.elim hmiss hno

theorem scan_visitAll (out : List RecordId) {pids : List UInt32} (hp : ∀ p ∈ pids, InUse m p) :
    scan visitAll m pids out = .inr (out ++ members m pids) := by
  induction pids generalizing out with
  | nil => simp [members, scan]
  | cons p ps ih =>
    obtain ⟨page, hpage⟩ := (hp p (by simp)).get
    rw [scan_cons hpage]
    unfold visitAll
    dsimp only
    have := ih (out ++ entries page) fun q hq => hp q (by simp [hq])
    unfold visitAll at this
    rw [this]
    unfold members
    rw [List.flatMap_cons, contents_eq hpage, List.append_assoc]

theorem scan_visitCount (total : Nat) {pids : List UInt32} (hp : ∀ p ∈ pids, InUse m p) :
    scan visitCount m pids total = .inr (total + (members m pids).length) := by
  induction pids generalizing total with
  | nil => simp [members, scan]
  | cons p ps ih =>
    obtain ⟨page, hpage⟩ := (hp p (by simp)).get
    rw [scan_cons hpage]
    unfold visitCount
    dsimp only
    have := ih (total + readCount page) fun q hq => hp q (by simp [hq])
    unfold visitCount at this
    rw [this]
    unfold members
    rw [List.flatMap_cons, contents_eq hpage, List.length_append, length_entries, Nat.add_assoc]

end Scan

end LabelIndex

end ChiffonDB

import Mathlib.Order.Bounds.Basic
import ChiffonDB.Storage.LabelRun

/-!
# The space of a label index

Runs of `add`, `add_new` and `remove` from an empty index, with the largest number of entries that
each type has held so far.

* `SpaceState`, `SpaceRuns` — a database file, the entries of every type and their peak.
* `Bounded` — a type's chain is its head, empty spares and full pages, and the fewest pages that the
  peak fits on.
* `labelIndex_space` — **along every run every type is bounded, and a call extends a chain only when
  every page of it is full.**
-/

set_option autoImplicit false

namespace ChiffonDB

namespace LabelIndex

/-! ## The system -/

/-- The entries of the call's type afterwards; `add_new` does not look whether its record id is
    there. -/
def LabelCall.onBag : LabelCall → Multiset RecordId → Multiset RecordId
  | add _ rid, b => if rid ∈ b then b else rid ::ₘ b
  | addNew _ rid, b => rid ::ₘ b
  | remove _ rid, b => b.erase rid

/-- A database file, the entries of every type, and the most each type has held so far. -/
structure SpaceState where
  db : DatabaseFile
  bags : UInt16 → Multiset RecordId
  peak : UInt16 → Nat

/-- A file with an empty index. -/
def SpaceState.empty (db : DatabaseFile) : SpaceState := ⟨db, fun _ => 0, fun _ => 0⟩

/-- The state behind a call. -/
def SpaceState.after (s : SpaceState) (c : LabelCall) (db : DatabaseFile) : SpaceState :=
  let bag := c.onBag (s.bags c.typeId)
  ⟨db, Function.update s.bags c.typeId bag,
    Function.update s.peak c.typeId (max (s.peak c.typeId) bag.card)⟩

/-- Calls that all return `Ok`. -/
inductive SpaceRuns : SpaceState → List LabelCall → SpaceState → Prop
  | nil (s : SpaceState) : SpaceRuns s [] s
  | cons {s s' : SpaceState} {c : LabelCall} {cs : List LabelCall} {db : DatabaseFile}
      (ok : c.prog.exec s.db = (.ok (), db)) (rest : SpaceRuns (s.after c db) cs s') :
      SpaceRuns s (c :: cs) s'

def visitFill (out : List Nat) (_ : UInt32) (page : PageData) : Empty ⊕ List Nat :=
  .inr (out ++ [readCount page])

/-- The fill of each page of a type's chain. -/
def chainFills (typeId : UInt16) : Prog (List Nat) := do
  match ← headOf typeId with
  | none => pure []
  | some pid => do
    let limit ← Prog.count
    match ← walk visitFill limit.toNat pid [] with
    | .inl a => nomatch a
    | .inr out => pure out

/-- A head, empty spares, full pages. -/
def HeadSparesFulls (fills : List Nat) : Prop :=
  fills = [] ∨ ∃ head spares fulls, head ≤ ENTRIES_PER_PAGE ∧
    fills = head :: (List.replicate spares 0 ++ List.replicate fulls ENTRIES_PER_PAGE)

/-- The chain of `t` has the shape, and the fewest pages that the peak fits on; `get` lists its
    entries. -/
structure Bounded (s : SpaceState) (t : UInt16) : Prop where
  chain : ∃ fills, ((chainFills t).exec s.db).1 = .ok fills ∧ HeadSparesFulls fills ∧
    IsLeast {pages | s.peak t ≤ pages * ENTRIES_PER_PAGE} fills.length
  lists : ∃ l : List RecordId, ((get t).exec s.db).1 = .ok l ∧ (l : Multiset RecordId) = s.bags t

/-- A chain that gets longer had no room. -/
def ExtendsWhenFull (db db' : DatabaseFile) : Prop :=
  ∀ t fills fills', ((chainFills t).exec db).1 = .ok fills → ((chainFills t).exec db').1 = .ok fills' →
    fills.length < fills'.length → ∀ fill ∈ fills, fill = ENTRIES_PER_PAGE

/-! ## Chains and their entries -/

variable {s s' : SpaceState} {m m' : PageMap} {roots roots' : List UInt32}
  {chains : UInt16 → List UInt32} {pids old : List UInt32}

/-- The fills of the pages. -/
def fills (m : PageMap) (pids : List UInt32) : List Nat := pids.map fun p => (contents m p).length

theorem scan_visitFill (out : List Nat) (hp : ∀ p ∈ pids, InUse m p) :
    scan visitFill m pids out = .inr (out ++ fills m pids) := by
  induction pids generalizing out with
  | nil => simp [scan, fills]
  | cons p ps ih =>
    obtain ⟨page, hpage⟩ := (hp p (by simp)).get
    rw [scan_cons hpage]
    unfold visitFill
    dsimp only
    have hrest := ih (out ++ [readCount page]) fun q hq => hp q (by simp [hq])
    unfold visitFill at hrest
    rw [hrest]
    simp [fills, contents_eq hpage]

theorem run_chainFills (hl : LabelLayout m roots chains) (t : UInt16) :
    (chainFills t).run m = (.ok (fills m (chains t)), m) := by
  have hc := hl.chain t
  unfold chainFills
  rw [Prog.run_bind, run_headOf hl.rooted t, Prog.andThen_ok]
  cases hhead : (chains t).head? with
  | none =>
    rw [List.head?_eq_none_iff.1 hhead]
    rfl
  | some h =>
    dsimp only
    rw [Prog.run_bind, Prog.run_count, Prog.andThen_ok, Prog.run_bind,
      run_walk visitFill (hhead ▸ hc.links) hc.inUse (Nat.le_succ_of_le (length_le_count hc.nodup hc.inUse)) [],
      scan_visitFill [] hc.inUse, List.nil_append]
    rfl

theorem map_eq_replicate {n : Nat} (hp : ∀ p ∈ pids, (contents m p).length = n) :
    fills m pids = List.replicate pids.length n := by
  rw [List.eq_replicate_iff]
  refine ⟨List.length_map _, fun k hk => ?_⟩
  obtain ⟨p, hmem, rfl⟩ := List.mem_map.1 hk
  exact hp p hmem

theorem Shaped.headSparesFulls (hs : Shaped m pids) : HeadSparesFulls (fills m pids) := by
  cases pids with
  | nil => exact .inl rfl
  | cons h rest =>
    obtain ⟨spares, fulls, rfl, hspares, hfulls, -⟩ := hs
    refine .inr ⟨_, spares.length, fulls.length, contents_length_le m h, ?_⟩
    rw [← map_eq_replicate fun p hp => by rw [hspares p hp]; rfl, ← map_eq_replicate hfulls]
    simp [fills]

/-- A chain lists no more than its pages hold … -/
theorem length_members_le (m : PageMap) (pids : List UInt32) :
    (members m pids).length ≤ pids.length * ENTRIES_PER_PAGE := by
  induction pids with
  | nil => exact Nat.zero_le _
  | cons p ps ih =>
    have hp := contents_length_le m p
    unfold members at ih ⊢
    rw [List.flatMap_cons, List.length_append, List.length_cons, Nat.succ_mul]
    omega

/-- … and no less if they are full. -/
theorem AllFull.length_members (hf : AllFull m pids) :
    (members m pids).length = pids.length * ENTRIES_PER_PAGE := by
  induction pids with
  | nil => simp [members]
  | cons p ps ih =>
    have hp := hf p (by simp)
    have hps := ih fun q hq => hf q (by simp [hq])
    unfold members at hps ⊢
    rw [List.flatMap_cons, List.length_append, List.length_cons, Nat.succ_mul, hps, hp, Nat.add_comm]

/-! ## One call -/

/-- What a call does to the chain of its type. -/
structure Did (c : LabelCall) (m : PageMap) (old : List UInt32) (m' : PageMap) (pids : List UInt32) :
    Prop where
  bag : (members m' pids : Multiset RecordId) = c.onBag (members m old)
  shaped : Shaped m old → Shaped m' pids
  grown : Shaped m old → pids.length = old.length ∨
    pids.length = old.length + 1 ∧ AllFull m old ∧ (members m' pids).length = (members m old).length + 1

theorem Added.did {rid : RecordId} (h : Added m old rid m' pids) (t : UInt16) :
    Did (.addNew t rid) m old m' pids where
  bag := Multiset.coe_eq_coe.2 h.1
  shaped hs := (h.2 hs).1
  grown hs := by
    rcases (h.2 hs).2 with hlen | ⟨hlen, hfull⟩
    · exact .inl hlen
    · exact .inr ⟨hlen, hfull, h.1.length_eq⟩

theorem Inserted.did {rid : RecordId} (h : Inserted m old rid m' pids) (t : UInt16) :
    Did (.add t rid) m old m' pids := by
  rcases h with ⟨hmem, rfl, rfl⟩ | ⟨hno, h⟩
  · exact ⟨(if_pos (Multiset.mem_coe.2 hmem)).symm, id, fun _ => .inl rfl⟩
  · refine ⟨?_, (h.did t).shaped, (h.did t).grown⟩
    rw [(h.did t).bag]
    exact (if_neg fun hm => hno (Multiset.mem_coe.1 hm)).symm

theorem Removed.did {rid : RecordId} (h : Removed m old rid m' pids) (t : UInt16) :
    Did (.remove t rid) m old m' pids := by
  refine ⟨Multiset.coe_eq_coe.2 h.perm, ?_, ?_⟩
  · rcases h with ⟨-, rfl, rfl⟩ | ⟨-, hs, -⟩
    · exact id
    · exact hs
  · rcases h with ⟨-, rfl, rfl⟩ | ⟨-, -, hlen⟩
    · exact fun _ => .inl rfl
    · exact fun _ => .inl hlen

theorem LabelLayout.yields_call (hl : LabelLayout m roots chains) (c : LabelCall) :
    c.prog.Yields m fun _ m' => RebuiltWith m roots chains c.typeId (Did c m (chains c.typeId)) m' := by
  cases c with
  | add t rid => exact (hl.yields_add t rid).mono fun _ _ h => h.mono fun _ _ h => h.did t
  | addNew t rid => exact (hl.yields_addNew t rid).mono fun _ _ h => h.mono fun _ _ h => h.did t
  | remove t rid => exact (hl.yields_remove t rid).mono fun _ _ h => h.mono fun _ _ h => h.did t

/-! ## The invariant -/

/-- The fewest pages for `peak` entries. -/
def Fewest (peak pages : Nat) : Prop := IsLeast {pages | peak ≤ pages * ENTRIES_PER_PAGE} pages

/-- As many pages for a number of entries that they hold. -/
theorem Fewest.same {peak pages n : Nat} (h : Fewest peak pages) (hn : n ≤ pages * ENTRIES_PER_PAGE) :
    Fewest (max peak n) pages :=
  ⟨Nat.max_le.2 ⟨h.1, hn⟩, fun _ hk => h.2 (Nat.le_trans (Nat.le_max_left _ _) hk)⟩

/-- One page more for the first entry that they do not hold. -/
theorem Fewest.succ {peak pages n : Nat} (h : Fewest peak pages) (hn : n = pages * ENTRIES_PER_PAGE + 1) :
    Fewest (max peak n) (pages + 1) := by
  have hpeak : peak ≤ pages * ENTRIES_PER_PAGE := h.1
  refine ⟨?_, fun k hk => ?_⟩
  · show max peak n ≤ (pages + 1) * ENTRIES_PER_PAGE
    have hpos : 0 < ENTRIES_PER_PAGE := by decide
    rw [Nat.succ_mul]
    exact Nat.max_le.2 ⟨by omega, by omega⟩
  · have hlt : pages * ENTRIES_PER_PAGE < k * ENTRIES_PER_PAGE := by
      have : n ≤ k * ENTRIES_PER_PAGE := Nat.le_trans (Nat.le_max_right _ _) hk
      omega
    exact Nat.lt_of_mul_lt_mul_right hlt

structure SpaceInv (s : SpaceState) (m : PageMap) (roots : List UInt32)
    (chains : UInt16 → List UInt32) : Prop where
  shows : Shows s.db m
  layout : LabelLayout m roots chains
  bag : ∀ t, (members m (chains t) : Multiset RecordId) = s.bags t
  shaped : ∀ t, Shaped m (chains t)
  fewest : ∀ t, Fewest (s.peak t) (chains t).length

namespace SpaceInv

theorem card (h : SpaceInv s m roots chains) (t : UInt16) :
    (s.bags t).card = (members m (chains t)).length := by
  rw [← h.bag t]
  rfl

theorem bounded (h : SpaceInv s m roots chains) (t : UInt16) : Bounded s t where
  chain := by
    refine ⟨fills m (chains t), ?_, (h.shaped t).headSparesFulls, ?_⟩
    · rw [(h.shows.exec _).1, run_chainFills h.layout t]
    · unfold fills
      rw [List.length_map]
      exact h.fewest t
  lists := ⟨members m (chains t), by rw [(h.shows.exec _).1, run_get h.layout t], h.bag t⟩

/-- **One call keeps the invariant.** -/
theorem after (h : SpaceInv s m roots chains) {c : LabelCall} {db : DatabaseFile} (hd : Shows db m')
    (hr : RebuiltWith m roots chains c.typeId (Did c m (chains c.typeId)) m') :
    ∃ roots' chains', SpaceInv (s.after c db) m' roots' chains' ∧
      ∀ t, (chains t).length < (chains' t).length → AllFull m (chains t) := by
  obtain ⟨roots', pids, hl', hf, -, hdid⟩ := hr
  have hbag : c.onBag (s.bags c.typeId) = (members m' pids : Multiset RecordId) := by
    rw [hdid.bag, h.bag]
  refine ⟨roots', _, ⟨hd, hl', fun t => ?_, fun t => ?_, fun t => ?_⟩, fun t => ?_⟩
  · show _ = Function.update s.bags c.typeId _ t
    by_cases ht : t = c.typeId
    · subst ht
      rw [Function.update_self, Function.update_self, hbag]
    · rw [Function.update_of_ne ht, Function.update_of_ne ht, h.layout.members_of_ne ht hf, h.bag]
  · by_cases ht : t = c.typeId
    · subst ht
      rw [Function.update_self]
      exact hdid.shaped (h.shaped _)
    · rw [Function.update_of_ne ht]
      exact (h.shaped t).of_pages (h.layout.pages_of_ne ht hf)
  · show Fewest (Function.update s.peak c.typeId _ t) _
    by_cases ht : t = c.typeId
    · subst ht
      rw [Function.update_self, Function.update_self, hbag]
      have hle := length_members_le m' pids
      rcases hdid.grown (h.shaped _) with hlen | ⟨hlen, hfull, hmore⟩
      · rw [hlen] at hle ⊢
        exact (h.fewest _).same hle
      · rw [hlen]
        refine (h.fewest _).succ ?_
        rw [Multiset.coe_card, hmore, hfull.length_members]
    · rw [Function.update_of_ne ht, Function.update_of_ne ht]
      exact h.fewest t
  · by_cases ht : t = c.typeId
    · subst ht
      rw [Function.update_self]
      intro hlt
      rcases hdid.grown (h.shaped _) with hlen | ⟨-, hfull, -⟩
      · omega
      · exact hfull
    · rw [Function.update_of_ne ht]
      exact fun hlt => absurd hlt (Nat.lt_irrefl _)

/-- The invariant behind a call that returns. -/
theorem step (h : SpaceInv s m roots chains) {c : LabelCall} {db : DatabaseFile}
    (hok : c.prog.exec s.db = (.ok (), db)) : ∃ m' roots' chains',
      SpaceInv (s.after c db) m' roots' chains' ∧
      ∀ t, (chains t).length < (chains' t).length → AllFull m (chains t) := by
  obtain ⟨hout, hd⟩ := h.shows.exec c.prog
  rw [hok] at hout hd
  rcases h.layout.yields_call c with ⟨m', hr, -⟩ | ⟨_, m', hr, hdid⟩
  · rw [hr] at hout
    cases hout
  · rw [hr] at hd
    exact ⟨m', h.after hd hdid⟩

theorem run {calls : List LabelCall} (hrun : SpaceRuns s calls s') (h : SpaceInv s m roots chains) :
    ∃ m' roots' chains', SpaceInv s' m' roots' chains' := by
  induction hrun generalizing m roots chains with
  | nil s => exact ⟨m, roots, chains, h⟩
  | cons hok _ ih =>
    obtain ⟨m₁, roots₁, chains₁, h₁, -⟩ := h.step hok
    exact ih h₁

theorem extendsWhenFull (h : SpaceInv s m roots chains) {c : LabelCall} {db : DatabaseFile}
    (hok : c.prog.exec s.db = (.ok (), db)) : ExtendsWhenFull s.db db := by
  obtain ⟨m', roots', chains', h', hgrown⟩ := h.step hok
  intro t before after hbefore hafter hlt fill hfill
  rw [(h.shows.exec _).1, run_chainFills h.layout t] at hbefore
  rw [show ((chainFills t).exec db).1 = _ from (h'.shows.exec (chainFills t)).1,
    run_chainFills h'.layout t] at hafter
  cases hbefore
  cases hafter
  unfold fills at hlt hfill
  rw [List.length_map, List.length_map] at hlt
  obtain ⟨p, hp, rfl⟩ := List.mem_map.1 hfill
  exact hgrown t hlt p hp

theorem empty {db : DatabaseFile} (hd : Shows db m) (hz : (m.pages 0).isSome) (hpos : 0 < m.count)
    (hroot : m.header.labelIndexRoot = NO_ROOT) : SpaceInv (.empty db) m [] fun _ => [] where
  shows := hd
  layout := .empty hz hpos hroot
  bag _ := rfl
  shaped _ := trivial
  fewest _ := ⟨Nat.zero_le _, fun _ _ => Nat.zero_le _⟩

end SpaceInv

/-- **Space is bounded by the peak**: from an empty index, and after any calls, the chain of every
    type is its head, empty spares and full pages, on the fewest pages that the most entries the type
    has held so far fit on; and whatever is called next extends a chain only when every page of it is
    full. -/
theorem labelIndex_space {db : DatabaseFile} (hd : Shows db m) (hz : (m.pages 0).isSome)
    (hpos : 0 < m.count) (hroot : m.header.labelIndexRoot = NO_ROOT) {calls : List LabelCall}
    (hrun : SpaceRuns (.empty db) calls s) :
    (∀ t, Bounded s t) ∧
      ∀ (c : LabelCall) (db' : DatabaseFile), c.prog.exec s.db = (.ok (), db') →
        ExtendsWhenFull s.db db' := by
  obtain ⟨m', roots', chains', h⟩ := (SpaceInv.empty hd hz hpos hroot).run hrun
  exact ⟨h.bounded, fun _ _ hok => h.extendsWhenFull hok⟩

/-- A record id added to the index of a new file in memory: one page, and not full. -/
theorem labelIndex_space_add : ∃ s, SpaceRuns (.empty DatabaseFile.createInMemory) [.add 1 ⟨0, 0⟩] s ∧
    s.peak 1 = 1 ∧ Bounded s 1 := by
  obtain ⟨m, hd, hc, hh, hz⟩ := newFile_shows (.inr rfl)
  have hpos : 0 < m.count := by rw [hc]; decide
  have hroot : m.header.labelIndexRoot = NO_ROOT := by rw [hh]; rfl
  obtain ⟨m', hr⟩ := run_add_empty hz hpos hroot (by rw [hc]; show 1 + 2 < 4294967296; omega) 1 ⟨0, 0⟩
  generalize DatabaseFile.createInMemory = db at hd ⊢
  have hout := (hd.exec (add 1 ⟨0, 0⟩)).1
  rw [hr] at hout
  have hruns : SpaceRuns (.empty db) [.add 1 ⟨0, 0⟩] _ :=
    .cons (c := .add 1 ⟨0, 0⟩) (Prod.ext hout rfl) (.nil _)
  exact ⟨_, hruns, rfl, (labelIndex_space hd hz hpos hroot hruns).1 1⟩

end LabelIndex

end ChiffonDB

import ChiffonDB.Storage.IndexPage
import ChiffonDB.Storage.LabelOps

/-!
# The buckets of the property index

* `BucketLayout` — the directory and the chain of every bucket, on pages of their own.
* `members` — the entries of a chain.
* `yields_add`, `yields_remove`, `run_candidates` — **what each operation does to the entries of the bucket of its
  key; it leaves those of the other buckets as they are**.
-/

set_option autoImplicit false

namespace ChiffonDB

namespace PropertyIndex

open Threads
open LabelIndex (readNext writeNext writeCount appendEmptyPage nextOf linkOf InUse Changed scan scan_cons run_walk
  nextOf_eq nextOf_set linkOf_of_ne linkOf_eq_none page_congr readNext_writeNext readNext_writeCount
  disjoint_update heads_update length_le_count cons_set_dropLast_perm)

abbrev Entry : Type := IndexKey × RecordId

/-! ## Chains -/

def contents (m : PageMap) (p : UInt32) : List Entry := ((m.pages p).map entries).getD []

/-- The entries of a chain. -/
def members (m : PageMap) (pids : List UInt32) : List Entry := pids.flatMap (contents m)

theorem contents_eq {m : PageMap} {p : UInt32} {page : PageData} (h : m.pages p = some page) :
    contents m p = entries page := by
  unfold contents
  rw [h]
  rfl

theorem members_cons (m : PageMap) (p : UInt32) (ps : List UInt32) :
    members m (p :: ps) = contents m p ++ members m ps := List.flatMap_cons

theorem members_append (m : PageMap) (as bs : List UInt32) : members m (as ++ bs) = members m as ++ members m bs :=
  List.flatMap_append

theorem members_congr {m m' : PageMap} {pids : List UInt32} (h : ∀ p ∈ pids, m'.pages p = m.pages p) :
    members m' pids = members m pids := by
  unfold members contents
  rw [List.flatMap_def, List.flatMap_def]
  congr 1
  exact List.map_congr_left fun p hp => by rw [h p hp]

/-- The chain of a bucket, head first. -/
structure BucketAt (m : PageMap) (pids : List UInt32) : Prop where
  links : Threads (nextOf m) pids.head? pids none
  nodup : pids.Nodup
  inUse : ∀ p ∈ pids, InUse m p

theorem BucketAt.congr {m m' : PageMap} {pids : List UInt32} (h : BucketAt m pids)
    (hcount : m.count.toNat ≤ m'.count.toNat) (hp : ∀ p ∈ pids, m'.pages p = m.pages p) : BucketAt m' pids where
  links := h.links.congr fun p hp' => (page_congr (hp p hp')).1
  nodup := h.nodup
  inUse p hp' := (h.inUse p hp').congr hcount fun hs => by rw [hp p hp']; exact hs

/-- The directory page, once there is one, and the heads that it records. -/
inductive DirectoryAt (m : PageMap) : List UInt32 → (Nat → Option UInt32) → Prop
  | absent {heads : Nat → Option UInt32} (root : m.header.propertyIndexRoot = NO_ROOT)
      (none : ∀ b < BUCKET_COUNT, heads b = none) : DirectoryAt m [] heads
  | present {heads : Nat → Option UInt32} {r : UInt32} {page : PageData} (root : m.header.propertyIndexRoot = r)
      (inUse : InUse m r) (get : m.pages r = some page)
      (record : ∀ b < BUCKET_COUNT, linkOf (readDirSlot page b) = heads b) : DirectoryAt m [r] heads

/-- A directory and the chain of every bucket, on distinct pages. -/
structure BucketLayout (m : PageMap) (roots : List UInt32) (chains : Nat → List UInt32) : Prop where
  zero : (m.pages 0).isSome
  pos : 0 < m.count
  dir : DirectoryAt m roots fun b => (chains b).head?
  chain : ∀ b, BucketAt m (chains b)
  apart : ∀ b, ∀ p ∈ chains b, p ∉ roots
  disjoint : ∀ b c, b ≠ c → ∀ p ∈ chains b, p ∉ chains c

variable {m m' : PageMap} {roots roots' : List UInt32} {chains : Nat → List UInt32} {b : Nat}

theorem BucketLayout.new (hz : (m.pages 0).isSome) (hpos : 0 < m.count)
    (hroot : m.header.propertyIndexRoot = NO_ROOT) : BucketLayout m [] fun _ => [] where
  zero := hz
  pos := hpos
  dir := .absent hroot fun _ _ => rfl
  chain b := ⟨rfl, List.nodup_nil, by simp⟩
  apart := by simp
  disjoint := by simp

/-- The chains of other buckets keep their pages. -/
theorem BucketLayout.pages_of_ne (h : BucketLayout m roots chains) {c : Nat} (hc : c ≠ b)
    (hf : Changed m m' roots roots' (chains b)) : ∀ p ∈ chains c, m'.pages p = m.pages p := by
  intro p hp
  have huse := (h.chain c).inUse p hp
  exact hf.pages p huse.ne_zero huse.lt_count (h.apart c p hp) (h.disjoint c b hc p hp)

/-- **Rebuilding the chain of one bucket.** -/
theorem BucketLayout.replace (h : BucketLayout m roots chains) {pids : List UInt32}
    (hf : Changed m m' roots roots' (chains b))
    (hdir : DirectoryAt m' roots' (Function.update (fun c => (chains c).head?) b pids.head?))
    (hchain : BucketAt m' pids) (hown : ∀ p ∈ pids, p ∈ chains b ∨ m.count.toNat ≤ p.toNat)
    (hapart : ∀ p ∈ pids, p ∉ roots') : BucketLayout m' roots' (Function.update chains b pids) := by
  refine ⟨hf.zero h.zero, ?_, ?_, fun c => ?_, fun c p hp => ?_, disjoint_update h.disjoint fun c hc p hp hpt => ?_⟩
  · have := UInt32.lt_iff_toNat_lt.1 h.pos
    have := hf.count
    rw [UInt32.lt_iff_toNat_lt]
    omega
  · rw [heads_update]
    exact hdir
  · by_cases hc : c = b
    · rw [hc, Function.update_self]
      exact hchain
    · rw [Function.update_of_ne hc]
      exact (h.chain c).congr hf.count (h.pages_of_ne hc hf)
  · by_cases hc : c = b
    · rw [hc, Function.update_self] at hp
      exact hapart p hp
    · rw [Function.update_of_ne hc] at hp
      intro hr
      rcases hf.roots p hr with hr | hge
      · exact h.apart c p hp hr
      · exact absurd ((h.chain c).inUse p hp).lt (Nat.not_lt.2 hge)
  · rcases hown p hpt with hpt | hge
    · exact h.disjoint c b hc p hp hpt
    · exact absurd ((h.chain c).inUse p hp).lt (Nat.not_lt.2 hge)

/-- What the buckets list, with a list for each of them. -/
def Stores (m : PageMap) (L : Nat → List Entry) : Prop :=
  ∃ roots chains, BucketLayout m roots chains ∧ ∀ b, members m (chains b) = L b

theorem BucketLayout.stores_update (h : BucketLayout m roots chains) {L : Nat → List Entry}
    (hL : ∀ c, members m (chains c) = L c) {pids : List UInt32} {l : List Entry}
    (hf : Changed m m' roots roots' (chains b)) (h' : BucketLayout m' roots' (Function.update chains b pids))
    (hl : members m' pids = l) : Stores m' (Function.update L b l) := by
  refine ⟨roots', _, h', fun c => ?_⟩
  by_cases hc : c = b
  · rw [hc, Function.update_self, Function.update_self, hl]
  · rw [Function.update_of_ne hc, Function.update_of_ne hc, ← hL c]
    exact members_congr (h.pages_of_ne hc hf)

/-! ## The head of a bucket -/

theorem dirLocation_eq (hb : b < BUCKET_COUNT) : dirLocation b = (0, b) := by
  have hlt : b < DIR_SLOTS_PER_PAGE := Nat.lt_of_lt_of_le hb (by decide)
  unfold dirLocation
  rw [Nat.div_eq_of_lt hlt, Nat.mod_eq_of_lt hlt]

theorem IndexKey.bucket_lt (k : IndexKey) : k.bucket < BUCKET_COUNT := Nat.mod_lt _ (by decide)

theorem run_bucketHead (h : BucketLayout m roots chains) (hb : b < BUCKET_COUNT) :
    (bucketHead b).run m = (.ok (chains b).head?, m) := by
  unfold bucketHead
  rw [Prog.run_bind, Prog.run_getHeader, Prog.andThen_ok]
  dsimp only
  generalize hheads : (fun b => (chains b).head?) = heads
  have hdir := h.dir
  rw [hheads] at hdir
  have hhead : (chains b).head? = heads b := by rw [← hheads]
  rw [hhead]
  cases hdir with
  | absent hroot hnone =>
    rw [if_pos hroot, hnone b hb]
    rfl
  | @present _ r page hroot huse hpage hheads' =>
    subst hroot
    rw [if_neg huse.ne_noRoot, dirLocation_eq hb]
    dsimp only
    rw [dirWalk, Prog.run_bind, Prog.run_pure, Prog.andThen_ok]
    dsimp only
    rw [Prog.run_bind, Prog.run_read hpage, Prog.andThen_ok, ← hheads' b hb]
    rfl

/-- A page of a chain that is written keeps its link. -/
theorem BucketLayout.stores_set (h : BucketLayout m roots chains) {L : Nat → List Entry}
    (hL : ∀ c, members m (chains c) = L c) {as bs : List UInt32} {p : UInt32} {page d : PageData}
    (hsplit : chains b = as ++ p :: bs) (hpage : m.pages p = some page) (hnext : readNext d = readNext page) :
    Stores (m.set p d) (Function.update L b (members m as ++ (entries d ++ members m bs))) := by
  have hp : p ∈ chains b := by simp [hsplit]
  have hnd := (h.chain b).nodup
  rw [hsplit] at hnd
  have hf : Changed m (m.set p d) roots roots (chains b) := (Changed.refl m roots (chains b)).set (.inl hp) d
  have hlinks : nextOf (m.set p d) = nextOf m := by
    rw [nextOf_set, hnext, ← nextOf_eq hpage, Function.update_eq_self]
  have hchain : BucketAt (m.set p d) (chains b) :=
    ⟨by rw [hlinks]; exact (h.chain b).links, (h.chain b).nodup, fun q hq => ((h.chain b).inUse q hq).set p d⟩
  have hdir : DirectoryAt (m.set p d) roots
      (Function.update (fun c => (chains c).head?) b (chains b).head?) := by
    rw [Function.update_eq_self (f := fun c => (chains c).head?)]
    cases h.dir with
    | absent hroot hnone => exact .absent hroot hnone
    | @present _ r page' hroot huse hpage' hheads =>
      have hne : r ≠ p := by
        rintro rfl
        exact h.apart b r hp (by simp)
      exact .present hroot (huse.set p d) ((m.set_pages_of_ne hne d).trans hpage') hheads
  refine h.stores_update hL hf
    (h.replace hf hdir hchain (fun q hq => .inl hq) (h.apart b)) ?_
  obtain ⟨hnd₁, hnd₂, hne⟩ := List.nodup_append.1 hnd
  obtain ⟨hp₂, -⟩ := List.nodup_cons.1 hnd₂
  have hbefore : members (m.set p d) as = members m as :=
    members_congr fun q hq => m.set_pages_of_ne (hne q hq p (by simp)) d
  have hbehind : members (m.set p d) bs = members m bs := members_congr fun q hq => m.set_pages_of_ne (by
    rintro rfl
    exact hp₂ hq) d
  rw [hsplit, members_append, members_cons, contents_eq (m.set_pages_self p d), hbefore, hbehind]

/-! ## Walks -/

section Scan

variable {pids : List UInt32}

/-- The walk of `add`: the entry is there, or the page that has room. -/
theorem scan_visitAdd (e : Entry) (free : Option UInt32) (hp : ∀ p ∈ pids, InUse m p) :
    (scan (visitAdd e) m pids free = .inl () ∧ e ∈ members m pids) ∨
    ∃ found, scan (visitAdd e) m pids free = .inr found ∧ e ∉ members m pids ∧
      ∀ p, found = some p → free = some p ∨
        p ∈ pids ∧ ∃ page, m.pages p = some page ∧ readCount page < ENTRIES_PER_PAGE := by
  induction pids generalizing free with
  | nil => exact .inr ⟨free, rfl, by simp [members], fun p hp => .inl hp⟩
  | cons q qs ih =>
    obtain ⟨page, hpage⟩ := (hp q (by simp)).get
    rw [scan_cons hpage, members_cons, contents_eq hpage]
    unfold visitAdd
    by_cases he : e ∈ entries page
    · rw [if_pos he]
      exact .inl ⟨rfl, List.mem_append_left _ he⟩
    · rw [if_neg he]
      dsimp only
      rcases ih (free.or (if readCount page < ENTRIES_PER_PAGE then some q else none))
        (fun r hr => hp r (by simp [hr])) with ⟨hs, hmem⟩ | ⟨found, hs, hmem, hfound⟩
      · exact .inl ⟨hs, List.mem_append_right _ hmem⟩
      · refine .inr ⟨found, hs, fun h => (List.mem_append.1 h).elim he hmem, fun p hfp => ?_⟩
        rcases hfound p hfp with hor | ⟨hpq, hroom⟩
        · rcases Option.or_eq_some_iff.1 hor with hor | ⟨-, hor⟩
          · exact .inl hor
          · split at hor
            · rename_i hroom
              cases hor
              exact .inr ⟨by simp, page, hpage, hroom⟩
            · cases hor
        · exact .inr ⟨by simp [hpq], hroom⟩

/-- The walk of `link_tail`: the last page. -/
theorem scan_visitLast (s : UInt32 × PageData) (as : List UInt32) {p : UInt32} {page : PageData}
    (hp : ∀ q ∈ as ++ [p], InUse m q) (hpage : m.pages p = some page) :
    scan visitLast m (as ++ [p]) s = .inr (p, page) := by
  induction as generalizing s with
  | nil =>
    rw [List.nil_append, scan_cons hpage]
    rfl
  | cons a as ih =>
    obtain ⟨d, hd⟩ := (hp a (by simp)).get
    rw [List.cons_append, scan_cons hd]
    exact ih _ fun q hq => hp q (List.mem_cons_of_mem _ hq)

/-- The walk of `remove`: the page with the entry and what it is without it. -/
theorem scan_visitRemove (e : Entry) (hp : ∀ p ∈ pids, InUse m p) :
    (scan (visitRemove e) m pids () = .inr () ∧ e ∉ members m pids) ∨
    ∃ as p bs page d, pids = as ++ p :: bs ∧ m.pages p = some page ∧ scan (visitRemove e) m pids () = .inl (p, d) ∧
      readNext d = readNext page ∧ (e :: entries d).Perm (entries page) := by
  induction pids with
  | nil => exact .inl ⟨rfl, by simp [members]⟩
  | cons q qs ih =>
    obtain ⟨page, hpage⟩ := (hp q (by simp)).get
    rw [scan_cons hpage, members_cons, contents_eq hpage]
    unfold visitRemove
    cases hidx : (entries page).findFinIdx? (· == e) with
    | some i =>
      obtain ⟨hi, -⟩ := List.findFinIdx?_eq_some_iff.1 hidx
      have hget : ∀ l, entries page = l → l[i.val]? = some e := by
        rintro _ rfl
        rw [List.getElem?_eq_getElem i.isLt]
        exact congrArg some (eq_of_beq hi)
      obtain ⟨l, x, hl⟩ : ∃ l x, entries page = l ++ [x] :=
        ⟨_, _, (List.dropLast_append_getLast (List.ne_nil_of_mem (List.mem_of_getElem? (hget _ rfl)))).symm⟩
      refine .inr ⟨[], q, qs, page, _, rfl, hpage, rfl, ?_, ?_⟩
      · rw [readNext_writeCount, readNext_writeEntry]
      · rw [entries_fill page _ hl]
        have hperm := LabelIndex.cons_set_dropLast_perm (hget _ hl)
        rwa [← hl] at hperm
    | none =>
      have hnot : e ∉ entries page := by
        intro hmem
        have := List.findFinIdx?_eq_none_iff.1 hidx e hmem
        simp at this
      dsimp only
      rcases ih fun r hr => hp r (by simp [hr]) with ⟨hs, hmem⟩ | ⟨as, p, bs, d, d', rfl, hd, hs, hn, hperm⟩
      · refine .inl ⟨hs, fun h => ?_⟩
        exact (List.mem_append.1 h).elim hnot hmem
      · exact .inr ⟨q :: as, p, bs, d, d', rfl, hd, hs, hn, hperm⟩

theorem scan_visitCandidates (key : IndexKey) (out : List RecordId) (hp : ∀ p ∈ pids, InUse m p) :
    scan (visitCandidates key) m pids out =
      .inr (out ++ (members m pids).filterMap fun (k, rid) => if k = key then some rid else none) := by
  induction pids generalizing out with
  | nil => simp [members, scan]
  | cons p ps ih =>
    obtain ⟨page, hpage⟩ := (hp p (by simp)).get
    rw [scan_cons hpage, members_cons, contents_eq hpage, List.filterMap_append, ← List.append_assoc]
    exact ih _ fun q hq => hp q (by simp [hq])

end Scan

theorem BucketLayout.run_walk {α σ : Type} (h : BucketLayout m roots chains) {head : UInt32}
    (hhead : (chains b).head? = some head) (visit : σ → UInt32 → PageData → α ⊕ σ) {steps : Nat}
    (hsteps : m.count.toNat ≤ steps) (s : σ) :
    (LabelIndex.walk visit steps head s).run m = (.ok (scan visit m (chains b) s), m) := by
  have hlen := length_le_count (h.chain b).nodup (h.chain b).inUse
  have hlinks := (h.chain b).links
  rw [hhead] at hlinks
  exact LabelIndex.run_walk visit hlinks (h.chain b).inUse (by omega) s

/-- **What `candidates` lists.** -/
theorem run_candidates {L : Nat → List Entry} (h : Stores m L) (key : IndexKey) :
    (candidates key).run m =
      (.ok ((L key.bucket).filterMap fun (k, rid) => if k = key then some rid else none), m) := by
  obtain ⟨roots, chains, h, hL⟩ := h
  unfold candidates
  rw [Prog.run_bind, run_bucketHead h key.bucket_lt, Prog.andThen_ok, ← hL]
  cases hhead : (chains key.bucket).head? with
  | none =>
    rw [List.head?_eq_none_iff.1 hhead]
    rfl
  | some head =>
    dsimp only
    rw [Prog.run_bind, Prog.run_count, Prog.andThen_ok, Prog.run_bind, h.run_walk hhead _ (Nat.le_refl _),
      Prog.andThen_ok, scan_visitCandidates key [] (h.chain _).inUse]
    rfl

/-! ## Removing -/

theorem yields_remove {L : Nat → List Entry} (h : Stores m L) (key : IndexKey) (rid : RecordId) :
    (remove key rid).Yields m fun _ m' => ∃ l, Stores m' (Function.update L key.bucket l) ∧
      (((key, rid) ∉ L key.bucket ∧ l = L key.bucket) ∨ ((key, rid) :: l).Perm (L key.bucket)) := by
  obtain ⟨roots, chains, h, hL⟩ := h
  have hsame : Stores m (Function.update L key.bucket (L key.bucket)) := by
    rw [Function.update_eq_self]
    exact ⟨roots, chains, h, hL⟩
  unfold remove
  refine .bind_run (run_bucketHead h key.bucket_lt) ?_
  cases hhead : (chains key.bucket).head? with
  | none =>
    refine .pure ⟨_, hsame, .inl ⟨?_, rfl⟩⟩
    rw [← hL, List.head?_eq_none_iff.1 hhead]
    simp [members]
  | some head =>
    refine .count (.bind_run (h.run_walk hhead _ (Nat.le_refl _) ()) ?_)
    rcases scan_visitRemove (key, rid) (h.chain key.bucket).inUse with
      ⟨hs, hno⟩ | ⟨as, p, bs, page, d, hsplit, hpage, hs, hnext, hperm⟩
    · rw [hs]
      exact .pure ⟨_, hsame, .inl ⟨by rw [← hL]; exact hno, rfl⟩⟩
    · rw [hs]
      refine .of_run (Prog.run_write (by rw [hpage]; rfl)) ⟨_, h.stores_set hL hsplit hpage hnext, .inr ?_⟩
      rw [← hL, hsplit, members_append, members_cons, contents_eq hpage]
      refine List.perm_middle.symm.trans (List.Perm.append_left _ ?_)
      exact hperm.append_right _

/-! ## Adding -/

/-- An appended page is in use, and it is none of the others. -/
theorem inUse_append {d : PageData} (hpos : 0 < m.count) (hpage : m'.pages m.count = some d)
    (hcount : m'.count.toNat = m.count.toNat + 1) : InUse m' m.count where
  ne_zero h0 := by
    rw [h0] at hpos
    exact UInt32.lt_irrefl _ hpos
  lt_count := by
    rw [UInt32.lt_iff_toNat_lt, hcount]
    exact Nat.lt_succ_self _
  isSome := by
    rw [hpage]
    rfl

theorem InUse.ne_count {p : UInt32} (h : InUse m p) : p ≠ m.count := by
  rintro rfl
  exact UInt32.lt_irrefl _ h.lt_count

theorem DirectoryAt.inUse {heads : Nat → Option UInt32} (h : DirectoryAt m roots heads) :
    ∀ p ∈ roots, InUse m p := by
  cases h with
  | absent => simp
  | present _ huse => simpa using huse

/-- A directory depends on its own page only. -/
theorem DirectoryAt.congr {heads : Nat → Option UInt32} (h : DirectoryAt m roots heads)
    (hcount : m.count.toNat ≤ m'.count.toNat) (hp : ∀ p ∈ roots, m'.pages p = m.pages p)
    (hheader : m'.header = m.header) : DirectoryAt m' roots heads := by
  cases h with
  | absent hroot hnone => exact .absent (by rw [hheader]; exact hroot) hnone
  | @present _ r page hroot huse hpage hheads =>
    have hsame := hp r (by simp)
    exact .present (by rw [hheader]; exact hroot) (huse.congr hcount fun hs => by rw [hsame]; exact hs)
      (hsame.trans hpage) hheads

/-- A page appended for something else. -/
theorem BucketLayout.appended (h : BucketLayout m roots chains)
    (hkeep : ∀ q, q ≠ m.count → m'.pages q = m.pages q) (hcount : m'.count.toNat = m.count.toNat + 1)
    (hheader : m'.header = m.header) :
    BucketLayout m' roots chains ∧ ∀ b, members m' (chains b) = members m (chains b) := by
  have hchains : ∀ b, ∀ p ∈ chains b, m'.pages p = m.pages p := fun b p hp =>
    hkeep p (InUse.ne_count ((h.chain b).inUse p hp))
  refine ⟨⟨?_, ?_, ?_, fun b => (h.chain b).congr (by omega) (hchains b), h.apart, h.disjoint⟩, fun b =>
    members_congr (hchains b)⟩
  · rw [hkeep 0 (UInt32.ne_of_lt h.pos)]
    exact h.zero
  · have := UInt32.lt_iff_toNat_lt.1 h.pos
    rw [UInt32.lt_iff_toNat_lt]
    omega
  · exact h.dir.congr (by omega) (fun p hp => hkeep p (InUse.ne_count (h.dir.inUse p hp))) hheader

/-- The directory is there, and nothing else is different. -/
theorem yields_ensureDirectory (h : BucketLayout m roots chains) :
    ensureDirectory.Yields m fun _ m' => ∃ r, BucketLayout m' [r] chains ∧
      ∀ b, members m' (chains b) = members m (chains b) := by
  unfold ensureDirectory
  refine .getHeader ?_
  cases hdir : h.dir with
  | present hroot huse hpage hheads =>
    subst hroot
    rw [if_neg huse.ne_noRoot]
    exact .pure ⟨_, h, fun _ => rfl⟩
  | absent hroot hnone =>
    rw [if_pos hroot]
    refine .append fun m₁ hnew hkeep hcount hheader => .getHeader ?_
    obtain ⟨h₁, hmem₁⟩ := h.appended hkeep hcount hheader
    refine .putHeader h₁.zero fun m₂ hzero hkeep₂ hcount₂ hheader₂ => ⟨m.count, ⟨hzero, ?_, ?_, ?_, ?_, h.disjoint⟩, ?_⟩
    · rw [hcount₂]
      exact h₁.pos
    · have huse := inUse_append h.pos hnew hcount
      have hpage : m₂.pages m.count = some emptyDirPage := (hkeep₂ _ huse.ne_zero).trans hnew
      refine .present (by rw [hheader₂]) ⟨huse.ne_zero, by rw [hcount₂]; exact huse.lt_count, by rw [hpage]; rfl⟩
        hpage fun b hb => ?_
      have hempty := readDirSlot_emptyDirPage ⟨b, Nat.lt_of_lt_of_le hb (by decide)⟩
      dsimp only at hempty
      rw [hempty]
      exact (hnone b hb).symm
    · exact fun b => (h₁.chain b).congr (by rw [hcount₂]) fun p hp =>
        hkeep₂ p ((h₁.chain b).inUse p hp).ne_zero
    · intro b p hp hr
      exact InUse.ne_count ((h.chain b).inUse p hp) (List.mem_singleton.1 hr)
    · intro b
      rw [← hmem₁ b]
      exact members_congr fun p hp => hkeep₂ p ((h₁.chain b).inUse p hp).ne_zero

theorem entries_emptyPage : entries (writeCount (writeNext PageData.zero NO_ROOT) 0) = [] :=
  entries_of_count (readCount_writeCount _ (Nat.zero_le _))

theorem nextOf_emptyPage {p : UInt32} (h : m.pages p = some (writeCount (writeNext PageData.zero NO_ROOT) 0)) :
    nextOf m p = none := by
  rw [nextOf_eq h, readNext_writeCount, readNext_writeNext]
  rfl

/-- **The head of a bucket, which has one afterwards; no bucket lists anything else than before.** -/
theorem yields_bucketHeadEnsure (h : BucketLayout m roots chains) (hb : b < BUCKET_COUNT) :
    (bucketHeadEnsure b).Yields m fun head m' => ∃ roots' chains', BucketLayout m' roots' chains' ∧
      (chains' b).head? = some head ∧ ∀ c, members m' (chains' c) = members m (chains c) := by
  unfold bucketHeadEnsure
  refine .bind_run (run_bucketHead h hb) ?_
  cases hhead : (chains b).head? with
  | some head => exact .pure ⟨roots, chains, h, hhead, fun _ => rfl⟩
  | none =>
    have hnil : chains b = [] := List.head?_eq_none_iff.1 hhead
    refine .bind (yields_ensureDirectory h) fun _ m₁ ⟨r, h₁, hmem₁⟩ => .getHeader ?_
    obtain ⟨page, hroot, huse, hpage, hheads⟩ : ∃ page, m₁.header.propertyIndexRoot = r ∧ InUse m₁ r ∧
        m₁.pages r = some page ∧ ∀ c < BUCKET_COUNT, linkOf (readDirSlot page c) = (chains c).head? := by
      cases h₁.dir with
      | present hroot huse hpage hheads => exact ⟨_, hroot, huse, hpage, hheads⟩
    have hlt : b < DIR_SLOTS_PER_PAGE := Nat.lt_of_lt_of_le hb (by decide)
    simp only [dirLocation, Nat.div_eq_of_lt hlt, Nat.mod_eq_of_lt hlt, hroot, dirWalkEnsure]
    refine .bind_run (Prog.run_pure r m₁) (.append fun m₂ hnew hkeep hcount hheader => ?_)
    have hnr : r ≠ m₁.count := InUse.ne_count huse
    have hold : m₂.pages r = some page := (hkeep r hnr).trans hpage
    have hnewUse := inUse_append h₁.pos hnew hcount
    refine .read hold ?_
    generalize hd : writeCount (writeDirSlot page ⟨b, _⟩ m₁.count) _ = d
    refine .write (by rw [hold]; rfl) ?_
    have hf : Changed m₁ (m₂.set r d) [r] [r] (chains b) := by
      refine ⟨by show _ ≤ m₂.count.toNat; omega, fun hz => ?_, fun p _ hlt hp _ => ?_, fun p hp => .inl hp⟩
      · rw [m₂.set_pages_of_ne huse.ne_zero.symm, hkeep 0 (UInt32.ne_of_lt h₁.pos)]
        exact hz
      · rw [m₂.set_pages_of_ne (fun he => hp (by simp [he])) d, hkeep p (UInt32.ne_of_lt hlt)]
    have hnewPage : (m₂.set r d).pages m₁.count = some (writeCount (writeNext PageData.zero NO_ROOT) 0) :=
      (m₂.set_pages_of_ne hnr.symm d).trans hnew
    have hdir : DirectoryAt (m₂.set r d) [r] (Function.update (fun c => (chains c).head?) b (some m₁.count)) := by
      refine .present (by show m₂.header.propertyIndexRoot = r; rw [hheader]; exact hroot)
        ((huse.congr (by omega) fun _ => by rw [hold]; rfl).set r d) (m₂.set_pages_self r d) fun c hc => ?_
      rw [← hd, readDirSlot_writeCount, readDirSlot_writeDirSlot]
      by_cases hcb : c = b
      · subst hcb
        rw [if_pos rfl, Function.update_self]
        exact linkOf_of_ne hnewUse.ne_noRoot
      · rw [if_neg hcb, Function.update_of_ne hcb]
        exact hheads c hc
    have hchain : BucketAt (m₂.set r d) [m₁.count] :=
      ⟨⟨rfl, nextOf_emptyPage hnewPage⟩, List.nodup_singleton _, fun p hp => by
        rw [List.mem_singleton.1 hp]
        exact hnewUse.set r d⟩
    refine .pure ⟨[r], Function.update chains b [m₁.count], h₁.replace hf hdir hchain (fun p hp => .inr ?_)
      (fun p hp => ?_), by simp, fun c => ?_⟩
    · rw [List.mem_singleton.1 hp]
    · rw [List.mem_singleton.1 hp, List.mem_singleton]
      exact hnr.symm
    · rw [← hmem₁ c]
      by_cases hc : c = b
      · rw [hc, Function.update_self, hnil, members_cons, contents_eq hnewPage, entries_emptyPage]
        rfl
      · rw [Function.update_of_ne hc]
        exact members_congr (h₁.pages_of_ne hc hf)

/-- Linking a page behind the last one of a chain. -/
theorem BucketLayout.stores_linked (h : BucketLayout m roots chains) {L : Nat → List Entry}
    (hL : ∀ c, members m (chains c) = L c) {as : List UInt32} {p q : UInt32} {page d : PageData}
    (hsplit : chains b = as ++ [p]) (hpage : m.pages p = some page) (hq : InUse m q)
    (hqpage : m.pages q = some d) (hqnext : readNext d = NO_ROOT) (hfresh : ∀ c, q ∉ chains c) (hqroot : q ∉ roots) :
    Stores (m.set p (writeNext page q)) (Function.update L b (L b ++ entries d)) := by
  have hp : p ∈ chains b := by simp [hsplit]
  have hpq : p ≠ q := by
    rintro rfl
    exact hfresh b hp
  have hchain := h.chain b
  have hf : Changed m (m.set p (writeNext page q)) roots roots (chains b) :=
    (Changed.refl m roots (chains b)).set (.inl hp) _
  have hnext : nextOf (m.set p (writeNext page q)) = Function.update (nextOf m) p (some q) := by
    rw [nextOf_set, readNext_writeNext, linkOf_of_ne hq.ne_noRoot]
  have hqend : nextOf m q = none := by
    rw [nextOf_eq hqpage, hqnext]
    rfl
  have hhead : (as ++ [p] ++ [q]).head? = (chains b).head? := by
    rw [hsplit]
    cases as <;> rfl
  have hnd : (as ++ [p] ++ [q]).Nodup := by
    have hnd := hchain.nodup
    have hqn := hfresh b
    rw [hsplit] at hnd hqn
    refine List.nodup_append.2 ⟨hnd, List.nodup_singleton q, fun x hx y hy => ?_⟩
    rw [List.mem_singleton.1 hy]
    rintro rfl
    exact hqn hx
  have hnew : BucketAt (m.set p (writeNext page q)) (as ++ [p] ++ [q]) := by
    refine ⟨?_, hnd, fun r hr => ?_⟩
    · rw [hhead, hnext]
      have hlinks := hchain.links
      rw [hsplit] at hlinks
      have hnd' := hchain.nodup
      rw [hsplit] at hnd'
      rw [hsplit]
      refine (hlinks.redirect hnd' (some q)).append ⟨rfl, ?_⟩
      rw [Function.update_of_ne hpq.symm]
      exact hqend
    · rcases List.mem_append.1 hr with hr | hr
      · exact (hchain.inUse r (hsplit ▸ hr)).set p _
      · rw [List.mem_singleton.1 hr]
        exact hq.set p _
  have hdir : DirectoryAt (m.set p (writeNext page q)) roots
      (Function.update (fun c => (chains c).head?) b (as ++ [p] ++ [q]).head?) := by
    rw [hhead, Function.update_eq_self (f := fun c => (chains c).head?)]
    refine h.dir.congr (Nat.le_refl _) (fun r hr => m.set_pages_of_ne ?_ _) rfl
    rintro rfl
    exact h.apart b r hp hr
  have hdisj : ∀ c, c ≠ b → ∀ r ∈ chains c, r ∉ as ++ [p] ++ [q] := by
    intro c hc r hr hmem
    rcases List.mem_append.1 hmem with hmem | hmem
    · exact h.disjoint c b hc r hr (hsplit ▸ hmem)
    · rw [List.mem_singleton.1 hmem] at hr
      exact hfresh c hr
  have hlayout : BucketLayout (m.set p (writeNext page q)) roots (Function.update chains b (as ++ [p] ++ [q])) := by
    refine ⟨hf.zero h.zero, h.pos, by rw [heads_update]; exact hdir, fun c => ?_, fun c r hr => ?_,
      disjoint_update h.disjoint hdisj⟩
    · by_cases hc : c = b
      · rw [hc, Function.update_self]
        exact hnew
      · rw [Function.update_of_ne hc]
        exact (h.chain c).congr (Nat.le_refl _) (h.pages_of_ne hc hf)
    · by_cases hc : c = b
      · rw [hc, Function.update_self] at hr
        rcases List.mem_append.1 hr with hr | hr
        · exact h.apart b r (hsplit ▸ hr)
        · rw [List.mem_singleton.1 hr]
          exact hqroot
      · rw [Function.update_of_ne hc] at hr
        exact h.apart c r hr
  refine h.stores_update hL hf hlayout ?_
  have hsame : ∀ r, contents (m.set p (writeNext page q)) r = contents m r := by
    intro r
    by_cases hr : r = p
    · rw [hr, contents_eq (m.set_pages_self p _), contents_eq hpage, entries_writeNext]
    · unfold contents
      rw [m.set_pages_of_ne hr]
  have hmembers : ∀ pids, members (m.set p (writeNext page q)) pids = members m pids := fun pids => by
    unfold members
    rw [funext hsame]
  rw [hmembers, members_append, ← hsplit, hL, members_cons, contents_eq hqpage]
  simp [members]

/-- An entry on a page with room. -/
theorem pushEntry_cases {page : PageData} (h : readCount page < ENTRIES_PER_PAGE) (e : Entry) :
    ∃ d, pushEntry page e = some d ∧ readNext d = readNext page ∧ entries d = entries page ++ [e] := by
  unfold pushEntry
  rw [dif_pos h]
  exact ⟨_, rfl, by rw [readNext_writeCount, readNext_writeEntry], entries_push page ⟨_, h⟩ rfl e⟩

theorem entries_first {page : PageData} (h : readCount page = 0) (e : Entry) :
    entries (writeCount (writeEntry page ⟨0, by decide⟩ e) 1) = [e] := by
  rw [entries_push page ⟨0, by decide⟩ h e, entries_of_count h, List.nil_append]

/-- **What `add` does to the entries of the bucket of its key.** -/
theorem yields_add {L : Nat → List Entry} (h : Stores m L) (key : IndexKey) (rid : RecordId) :
    (add key rid).Yields m fun _ m' => ∃ l, Stores m' (Function.update L key.bucket l) ∧
      (((key, rid) ∈ L key.bucket ∧ l = L key.bucket) ∨
        ((key, rid) ∉ L key.bucket ∧ l.Perm ((key, rid) :: L key.bucket))) := by
  obtain ⟨roots, chains, h, hL⟩ := h
  unfold add
  refine .bind (yields_bucketHeadEnsure h key.bucket_lt) ?_
  rintro head m₁ ⟨roots₁, chains₁, h₁, hhead, hmem₁⟩
  have hL₁ : ∀ c, members m₁ (chains₁ c) = L c := fun c => (hmem₁ c).trans (hL c)
  have hsame : Stores m₁ (Function.update L key.bucket (L key.bucket)) := by
    rw [Function.update_eq_self]
    exact ⟨roots₁, chains₁, h₁, hL₁⟩
  refine .count (.bind_run (h₁.run_walk hhead _ (Nat.le_refl _) none) ?_)
  rcases scan_visitAdd (key, rid) none (h₁.chain key.bucket).inUse with ⟨hs, hmem⟩ | ⟨found, hs, hno, hfound⟩
  · rw [hs]
    rw [hL₁] at hmem
    exact .pure ⟨_, hsame, .inl ⟨hmem, rfl⟩⟩
  rw [hs]
  rw [hL₁] at hno
  cases found with
  | some p =>
    -- a page with room
    obtain ⟨hp, page, hpage, hroom⟩ : p ∈ chains₁ key.bucket ∧ ∃ page, m₁.pages p = some page ∧
        readCount page < ENTRIES_PER_PAGE := (hfound p rfl).resolve_left (by simp)
    obtain ⟨as, bs, hsplit⟩ := List.append_of_mem hp
    obtain ⟨d, hpush, hnext, hentries⟩ := pushEntry_cases hroom (key, rid)
    dsimp only
    refine .read hpage ?_
    rw [hpush]
    refine .of_run (Prog.run_write (by rw [hpage]; rfl)) ⟨_, h₁.stores_set hL₁ hsplit hpage hnext, .inr ⟨hno, ?_⟩⟩
    rw [hentries, ← hL₁, hsplit, members_append, members_cons, contents_eq hpage, List.append_assoc]
    have hmid : (members m₁ as ++ (entries page ++ ([(key, rid)] ++ members m₁ bs))).Perm
        ((key, rid) :: ((members m₁ as ++ entries page) ++ members m₁ bs)) := by
      rw [← List.append_assoc]
      exact List.perm_middle
    rwa [List.append_assoc] at hmid
  | none =>
    -- a new page behind the last one
    dsimp only
    refine .append fun m₂ hnew hkeep hcount hheader => .read hnew ?_
    generalize hd : writeCount (writeEntry _ _ (key, rid)) 1 = d
    have hentries : entries d = [(key, rid)] := by
      rw [← hd]
      exact entries_first (readCount_writeCount _ (Nat.zero_le _)) _
    have hend : readNext d = NO_ROOT := by
      rw [← hd, readNext_writeCount, readNext_writeEntry, readNext_writeCount, readNext_writeNext]
    refine .write (by rw [hnew]; rfl) ?_
    have hpage₃ := m₂.set_pages_self m₁.count d
    have hkeep₃ : ∀ q, q ≠ m₁.count → (m₂.set m₁.count d).pages q = m₁.pages q := fun q hq =>
      (m₂.set_pages_of_ne hq d).trans (hkeep q hq)
    obtain ⟨h₃, hmem₃⟩ := h₁.appended hkeep₃ hcount hheader
    have hq := inUse_append h₁.pos hpage₃ hcount
    generalize m₂.set m₁.count d = m₃ at *
    obtain ⟨as, p, hsplit⟩ : ∃ as p, chains₁ key.bucket = as ++ [p] := by
      have hne : chains₁ key.bucket ≠ [] := by
        intro hnil
        rw [hnil] at hhead
        cases hhead
      exact ⟨_, _, (List.dropLast_append_getLast hne).symm⟩
    have huse := (h₃.chain key.bucket).inUse
    rw [hsplit] at huse
    obtain ⟨page, hpage⟩ := (huse p (by simp)).get
    unfold linkTail
    refine .count (.bind_run (h₃.run_walk hhead _ (Nat.le_refl _) _) ?_)
    rw [hsplit, scan_visitLast _ as huse hpage]
    refine .of_run (Prog.run_write (by rw [hpage]; rfl)) ⟨_, h₃.stores_linked (fun c => (hmem₃ c).trans (hL₁ c))
      hsplit hpage hq hpage₃ hend (fun c hc => ?_) (fun hr => ?_), .inr ⟨hno, ?_⟩⟩
    · exact InUse.ne_count ((h₁.chain c).inUse _ hc) rfl
    · exact InUse.ne_count (h₁.dir.inUse _ hr) rfl
    · rw [hentries]
      exact List.perm_append_singleton _ _

end PropertyIndex

end ChiffonDB

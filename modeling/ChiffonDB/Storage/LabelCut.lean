import ChiffonDB.Storage.LabelSpace
import ChiffonDB.Storage.ProgCut

/-!
# A label index cut short

What `get` makes of a chain behind any proper prefix of the page writes of `add`, `add_new` or
`remove`.

* `Survives` — `get` reports an error, or still lists the entries.
* `run_get_links`, `run_get_cycle` — a chain whose pages have moved, and one that has run into
  itself: it is reported.
* `cutSafe_iff` — **every prefix survives if and only if the record id removed is on the page that
  donates the last entry**; one behind it is overwritten only after the donor has dropped the entry.
-/

set_option autoImplicit false

namespace ChiffonDB

namespace LabelIndex

open Threads

/-! ## What is to hold -/

/-- `get` returns an error or lists at least these entries. -/
def Survives (kept : Multiset RecordId) (t : UInt16) (db : DatabaseFile) : Prop :=
  (∃ e, ((get t).exec db).1 = .err e) ∨
    ∃ l : List RecordId, ((get t).exec db).1 = .ok l ∧ kept ≤ (l : Multiset RecordId)

/-- The entries that a call is not to lose. -/
def LabelCall.kept : LabelCall → Multiset RecordId → Multiset RecordId
  | remove _ rid, b => b.erase rid
  | _, b => b

def visitEntries (out : List (List RecordId)) (_ : UInt32) (page : PageData) :
    Empty ⊕ List (List RecordId) := .inr (out ++ [entries page])

/-- The entries of each page of a type's chain. -/
def chainEntries (typeId : UInt16) : Prog (List (List RecordId)) := do
  match ← headOf typeId with
  | none => pure []
  | some pid => do
    let limit ← Prog.count
    match ← walk visitEntries limit.toNat pid [] with
    | .inl a => nomatch a
    | .inr out => pure out

/-- What is removed is not there, or it is on the first page with entries. -/
def LabelCall.OnDonor (db : DatabaseFile) : LabelCall → Prop
  | remove t rid => ∀ pages, ((chainEntries t).exec db).1 = .ok pages → rid ∈ pages.flatten →
      ∃ es, pages.find? (fun es => !es.isEmpty) = some es ∧ rid ∈ es
  | _ => True

/-! ## Reading a chain whose pages have moved -/

variable {s s' : SpaceState} {m m' : PageMap} {roots roots' : List UInt32} {heads : UInt16 → Option UInt32}
  {chains : UInt16 → List UInt32} {pids chain : List UInt32} {t : UInt16} {h : UInt32}

theorem scan_visitEntries (out : List (List RecordId)) (hp : ∀ p ∈ pids, InUse m p) :
    scan visitEntries m pids out = .inr (out ++ pids.map (contents m)) := by
  induction pids generalizing out with
  | nil => simp [scan]
  | cons p ps ih =>
    obtain ⟨page, hpage⟩ := (hp p (by simp)).get
    rw [scan_cons hpage]
    unfold visitEntries
    dsimp only
    have hrest := ih (out ++ [entries page]) fun q hq => hp q (by simp [hq])
    unfold visitEntries at hrest
    rw [hrest]
    simp [contents_eq hpage]

theorem run_chainEntries (hl : LabelLayout m roots chains) (t : UInt16) :
    (chainEntries t).run m = (.ok ((chains t).map (contents m)), m) := by
  have hc := hl.chain t
  unfold chainEntries
  rw [Prog.run_bind, run_headOf hl.rooted t, Prog.andThen_ok]
  cases hhead : (chains t).head? with
  | none =>
    rw [List.head?_eq_none_iff.1 hhead]
    rfl
  | some h =>
    dsimp only
    rw [Prog.run_bind, Prog.run_count, Prog.andThen_ok, Prog.run_bind,
      run_walk visitEntries (hhead ▸ hc.links) hc.inUse
        (Nat.le_succ_of_le (length_le_count hc.nodup hc.inUse)) [],
      scan_visitEntries [] hc.inUse, List.nil_append]
    rfl

/-- A walk that the links lead to an end. -/
theorem run_get_links (hr : RootsAt m roots heads) (hh : heads t = some h)
    (hlinks : Threads (nextOf m) (some h) pids none) (hnd : pids.Nodup) (huse : ∀ p ∈ pids, InUse m p) :
    (get t).run m = (.ok (members m pids), m) := by
  unfold get
  rw [Prog.run_bind, run_headOf hr t, Prog.andThen_ok, hh]
  dsimp only
  rw [Prog.run_bind, Prog.run_count, Prog.andThen_ok, Prog.run_bind,
    run_walk visitAll hlinks huse (Nat.le_succ_of_le (length_le_count hnd huse)) [],
    scan_visitAll [] huse, List.nil_append]
  rfl

/-- Pages whose links stay among them. -/
def Closed (m : PageMap) (pids : List UInt32) : Prop :=
  ∀ p ∈ pids, InUse m p ∧ ∃ q ∈ pids, nextOf m p = some q

theorem nextOf_eq_some {p q : UInt32} {page : PageData} (hpage : m.pages p = some page)
    (hq : nextOf m p = some q) : readNext page = q ∧ q ≠ NO_ROOT := by
  rw [nextOf_eq hpage] at hq
  unfold linkOf at hq
  split at hq
  case isTrue => cases hq
  case isFalse hne =>
    cases hq
    exact ⟨rfl, hne⟩

/-- A walk that never ends is given up. -/
theorem run_walk_cycle (hc : Closed m pids) {p : UInt32} (hp : p ∈ pids) (steps : Nat)
    (out : List RecordId) : ∃ e, (walk visitAll steps p out).run m = (.err e, m) := by
  induction steps generalizing p out with
  | zero =>
    obtain ⟨huse, q, -, hnext⟩ := hc p hp
    obtain ⟨page, hpage⟩ := huse.get
    obtain ⟨hread, hne⟩ := nextOf_eq_some hpage hnext
    refine ⟨.storageCorrupted p, ?_⟩
    rw [walk.eq_def, Prog.run_bind, Prog.run_read hpage, Prog.andThen_ok]
    show (if readNext page = NO_ROOT then _ else _ : Prog _).run m = _
    rw [if_neg (by rw [hread]; exact hne)]
    rfl
  | succ steps ih =>
    obtain ⟨huse, q, hq, hnext⟩ := hc p hp
    obtain ⟨page, hpage⟩ := huse.get
    obtain ⟨hread, hne⟩ := nextOf_eq_some hpage hnext
    rw [walk.eq_def, Prog.run_bind, Prog.run_read hpage, Prog.andThen_ok]
    show ∃ e, (if readNext page = NO_ROOT then _ else _ : Prog _).run m = (.err e, m)
    rw [if_neg (by rw [hread]; exact hne), hread]
    exact ih hq _

theorem run_get_cycle (hr : RootsAt m roots heads) (hh : heads t = some h) (hc : Closed m pids)
    (hp : h ∈ pids) : ∃ e, (get t).run m = (.err e, m) := by
  obtain ⟨e, he⟩ := run_walk_cycle hc hp m.count.toNat []
  refine ⟨e, ?_⟩
  unfold get
  rw [Prog.run_bind, run_headOf hr t, Prog.andThen_ok, hh]
  dsimp only
  rw [Prog.run_bind, Prog.run_count, Prog.andThen_ok, Prog.run_bind, he]
  rfl

/-! ## Programs that only read -/

theorem reads_walk {α σ : Type} (visit : σ → UInt32 → PageData → α ⊕ σ) (steps : Nat) (p : UInt32)
    (st : σ) : (walk visit steps p st).Reads := by
  induction steps generalizing p st with
  | zero =>
    rw [walk.eq_def]
    refine .bind (.read p) fun page => ?_
    split
    · trivial
    · split <;> trivial
  | succ steps ih =>
    rw [walk.eq_def]
    refine .bind (.read p) fun page => ?_
    split
    · trivial
    · split
      · trivial
      · exact ih _ _

theorem reads_headOf (t : UInt16) : (headOf t).Reads := by
  unfold headOf
  refine .bind .getHeader fun header => ?_
  dsimp only
  split
  · trivial
  · refine .bind .count fun limit => .bind (reads_walk _ _ _ _) fun r => ?_
    split <;> trivial

theorem reads_get (t : UInt16) : (get t).Reads := by
  unfold get
  refine .bind (reads_headOf t) fun head => ?_
  split
  · trivial
  · refine .bind .count fun limit => .bind (reads_walk _ _ _ _) fun r => ?_
    split
    case h_1 a => exact nomatch a
    case h_2 => trivial

theorem reads_spareRunEnd (head s1 : UInt32) (s1Page : PageData) :
    (spareRunEnd head s1 s1Page).Reads := by
  unfold spareRunEnd
  split
  · split
    · exact .bind (.read _) fun page => trivial
    · trivial
  · trivial

theorem reads_endOfSpareRun (first : UInt32) (firstPage : PageData) :
    (endOfSpareRun first firstPage).Reads := by
  unfold endOfSpareRun
  split
  · trivial
  · refine .bind ?_ fun tailPage => ?_
    · unfold readUnless
      split
      · trivial
      · exact .read _
    · dsimp only
      split
      · trivial
      · refine .bind (.read _) fun dPage => ?_
        split <;> trivial

theorem reads_walkToEntries (steps : Nat) (last d : UInt32) : (walkToEntries steps last d).Reads := by
  induction steps generalizing last d with
  | zero => trivial
  | succ steps ih =>
    unfold walkToEntries
    split
    · trivial
    · refine .bind (.read d) fun page => ?_
      split
      · trivial
      · exact ih _ _

theorem reads_firstNonEmpty (head first : UInt32) (firstPage : PageData) :
    (firstNonEmpty head first firstPage).Reads := by
  unfold firstNonEmpty
  split
  · trivial
  · refine .bind (reads_endOfSpareRun _ _) fun found => ?_
    split
    · trivial
    · exact .bind .count fun limit => reads_walkToEntries _ _ _

/-! ## What the index holds at a cut -/

/-- `Survives` on a page map. -/
def Held (t : UInt16) (kept : Multiset RecordId) (m : PageMap) : Prop :=
  (∃ e, ((get t).run m).1 = .err e) ∨
    ∃ l : List RecordId, ((get t).run m).1 = .ok l ∧ kept ≤ (l : Multiset RecordId)

theorem survives_iff {db : DatabaseFile} (hd : Shows db m) (kept : Multiset RecordId) (t : UInt16) :
    Survives kept t db ↔ Held t kept m := by
  unfold Survives Held
  rw [(hd.exec (get t)).1]

namespace Held

theorem zero (m : PageMap) (t : UInt16) : Held t 0 m := by
  have hpanic : (get t).NoPanic m := (reads_get t).noPanic
  unfold Held
  cases hr : ((get t).run m).1 with
  | ok l => exact .inr ⟨l, rfl, Multiset.zero_le _⟩
  | err e => exact .inl ⟨e, rfl⟩
  | panic => exact absurd hr hpanic

theorem of_ok {kept : Multiset RecordId} {l : List RecordId} (h : (get t).run m = (.ok l, m))
    (hk : kept ≤ (l : Multiset RecordId)) : Held t kept m := .inr ⟨l, by rw [h], hk⟩

theorem of_cycle {kept : Multiset RecordId} (hr : RootsAt m roots heads) (hh : heads t = some h)
    (hc : Closed m pids) (hp : h ∈ pids) : Held t kept m := by
  obtain ⟨e, he⟩ := run_get_cycle hr hh hc hp
  exact .inl ⟨e, by rw [he]⟩

end Held

/-- What a call's writes so far leave alone. -/
structure Framed (m m' : PageMap) (own : List UInt32) : Prop where
  count : m'.count = m.count
  header : m'.header = m.header
  pages : ∀ p, p ∉ own → m'.pages p = m.pages p
  isSome : ∀ p, (m.pages p).isSome → (m'.pages p).isSome

theorem Relinked.framed {own : List UInt32} (h : Relinked m m' own) : Framed m m' own :=
  ⟨h.count, h.header, h.pages, h.isSome⟩

theorem Framed.set {own : List UInt32} (h : Framed m m' own) {p : UInt32} (hp : p ∈ own) (d : PageData) :
    Framed m (m'.set p d) own where
  count := h.count
  header := h.header
  pages q hq := by
    have hne : q ≠ p := by
      rintro rfl
      exact hq hp
    rw [m'.set_pages_of_ne hne, h.pages q hq]
  isSome q hq := by
    by_cases hqp : q = p
    · rw [hqp, m'.set_pages_self]
      rfl
    · rw [m'.set_pages_of_ne hqp]
      exact h.isSome q hq

/-- From `h` the links still lead to every page with entries. -/
structure Leads (m m' : PageMap) (chain : List UInt32) (h : UInt32) : Prop where
  framed : Framed m m' chain
  walk : ∃ pids, Threads (nextOf m') (some h) pids none ∧ pids.Nodup ∧ pids ⊆ chain ∧
    (∀ p ∈ pids, contents m' p = contents m p) ∧ ∀ p ∈ chain, p ∉ pids → contents m p = []

/-- Pages without entries may be left out. -/
theorem members_perm_of_subset (hnd : pids.Nodup) (hchain : chain.Nodup) (hsub : pids ⊆ chain)
    (hempty : ∀ p ∈ chain, p ∉ pids → contents m p = []) : (members m pids).Perm (members m chain) := by
  have hfilter : (chain.filter (· ∈ pids)).Perm pids := by
    refine (List.perm_ext_iff_of_nodup (hchain.filter _) hnd).2 fun p => ?_
    rw [List.mem_filter, decide_eq_true_iff]
    exact ⟨fun h => h.2, fun hp => ⟨hsub hp, hp⟩⟩
  have hrest : members m (chain.filter fun p => !decide (p ∈ pids)) = [] := by
    refine List.flatMap_eq_nil_iff.2 fun p hp => ?_
    obtain ⟨hmem, hnot⟩ := List.mem_filter.1 hp
    exact hempty p hmem (by simpa using hnot)
  have hsplit := members_perm (m := m) (List.filter_append_perm (fun p => decide (p ∈ pids)) chain)
  have happend : members m (chain.filter (· ∈ pids) ++ chain.filter fun p => !decide (p ∈ pids)) =
      members m (chain.filter (· ∈ pids)) := by
    unfold members at hrest ⊢
    rw [List.flatMap_append, hrest, List.append_nil]
  rw [happend] at hsplit
  exact (members_perm hfilter).symm.trans hsplit

section Layout

variable (hl : LabelLayout m roots chains)

include hl

/-- The root pages belong to no chain. -/
theorem LabelLayout.rooted_of_framed (hf : Framed m m' (chains t)) :
    RootsAt m' roots fun u => (chains u).head? :=
  hl.rooted.congr (by rw [hf.count]) (by rw [hf.header]) fun p hp => hf.pages p fun hm => hl.apart t p hm hp

theorem LabelLayout.inUse_of_framed (hf : Framed m m' (chains t)) {p : UInt32} (hp : p ∈ chains t) :
    InUse m' p := ((hl.chain t).inUse p hp).congr (by rw [hf.count]) (hf.isSome p)

theorem LabelLayout.held_of_leads (hhead : (chains t).head? = some h) (hlead : Leads m m' (chains t) h) :
    Held t (members m (chains t)) m' := by
  obtain ⟨pids, hlinks, hnd, hsub, hcont, hempty⟩ := hlead.walk
  refine .of_ok (run_get_links (hl.rooted_of_framed hlead.framed) hhead hlinks hnd
    fun p hp => hl.inUse_of_framed hlead.framed (hsub hp)) ?_
  rw [members_of_contents hcont]
  exact (Multiset.coe_eq_coe.2
    (members_perm_of_subset hnd (hl.chain t).nodup hsub hempty).symm).le

end Layout

/-- The head followed by the pages behind some empty ones. -/
theorem ChainAt.leads_skip {as bs : List UInt32} (hc : ChainAt m (h :: (as ++ bs)))
    (hf : Framed m m' (h :: (as ++ bs))) (has : ∀ p ∈ as, contents m p = [])
    (hhead : nextOf m' h = bs.head? ∧ contents m' h = contents m h)
    (hbs : ∀ p ∈ bs, nextOf m' p = nextOf m p ∧ contents m' p = contents m p) :
    Leads m m' (h :: (as ++ bs)) h := by
  obtain ⟨c, -, hlinks⟩ := threads_append.1 hc.links.2
  refine ⟨hf, h :: bs, ⟨rfl, ?_⟩, ?_, ?_, ?_, ?_⟩
  · rw [hhead.1, ← hlinks.start_eq]
    exact hlinks.congr fun p hp => (hbs p hp).1
  · have hnd := List.nodup_cons.1 hc.nodup
    exact List.nodup_cons.2 ⟨fun hm => hnd.1 (by simp [hm]), (List.nodup_append.1 hnd.2).2.1⟩
  · intro p hp
    rcases List.mem_cons.1 hp with rfl | hp <;> simp [*]
  · intro p hp
    rcases List.mem_cons.1 hp with rfl | hp
    · exact hhead.2
    · exact (hbs p hp).2
  · intro p hp hnot
    have hnot' : p ≠ h ∧ p ∉ bs := by simpa using hnot
    refine has p ?_
    simpa [hnot'.1, hnot'.2] using hp

theorem ChainAt.leads_refl {rest : List UInt32} (hc : ChainAt m (h :: rest)) :
    Leads m m (h :: rest) h :=
  (show ChainAt m (h :: ([] ++ rest)) from hc).leads_skip ⟨rfl, rfl, fun _ _ => rfl, fun _ h => h⟩ (by simp)
    ⟨hc.links.2.start_eq, rfl⟩ fun _ _ => ⟨rfl, rfl⟩

/-! ## Recording the head of a type that has one -/

/-- One write, to a root page. -/
theorem setHead_known (hr : RootsAt m roots heads) (hh : heads t = some h) (s : UInt32) :
    ∃ p d, p ∈ roots ∧ (setHead t s).run m = (.ok (), m.set p d) ∧
      ∀ C : PageMap → Prop, C m → (setHead t s).Guarded m C := by
  have hfind := hr.find t
  rw [hh] at hfind
  have hslot : ∃ x ∈ roots.flatMap (slotsOf m), x.1 = t := ⟨_, List.mem_of_find?_eq_some hfind, rfl⟩
  have hne : roots ≠ [] := by
    rintro rfl
    cases hfind
  have hroot : m.header.labelIndexRoot ≠ NO_ROOT := by
    intro he
    have hstart := hr.start
    rw [linkOf_eq_none.2 he] at hstart
    exact hne (List.head?_eq_none_iff.1 hstart.symm)
  have hlinks := hr.links
  rw [← hr.start, linkOf_of_ne hroot] at hlinks
  have hlen := Nat.le_succ_of_le (length_le_count hr.nodup hr.inUse)
  have hensure : ensureRoot.run m = (.ok (), m) := by
    unfold ensureRoot
    rw [Prog.run_bind, Prog.run_getHeader, Prog.andThen_ok, if_neg hroot]
    rfl
  have hensureGuarded : ∀ C : PageMap → Prop, ensureRoot.Guarded m C := by
    intro C
    unfold ensureRoot
    refine .bind_run (.of_reads .getHeader) (Prog.run_getHeader m) ?_
    rw [if_neg hroot]
    exact .pure ()
  -- the walk finds the type's slot
  have hplace : ∃ p page i, p ∈ roots ∧ m.pages p = some page ∧
      scan (visitSetHead t s) m roots (m.header.labelIndexRoot, PageData.zero) =
        .inl (p, writeRootSlot page i t s) := by
    have hscan := scan_visitSetHead t s hne hr.inUse hr.full (m.header.labelIndexRoot, PageData.zero)
    obtain ⟨x, hx, hxt⟩ := hslot
    generalize scan (visitSetHead t s) m roots (m.header.labelIndexRoot, PageData.zero) = r at hscan ⊢
    cases hscan with
    | overwrite hroots hpage hi hps => exact ⟨_, _, _, by rw [hroots]; simp, hpage, rfl⟩
    | room hroots hpage hlt hno => exact absurd hxt (hno x hx)
    | behind hroots hpage hfull hno => exact absurd hxt (hno x hx)
  obtain ⟨p, page, i, hp, hpage, hscan⟩ := hplace
  have hwalk := run_walk (visitSetHead t s) hlinks hr.inUse hlen (m.header.labelIndexRoot, PageData.zero)
  rw [hscan] at hwalk
  refine ⟨p, writeRootSlot page i t s, hp, ?_, fun C hC => ?_⟩
  · unfold setHead placeHead
    rw [Prog.run_bind, hensure, Prog.andThen_ok, Prog.run_bind, Prog.run_getHeader, Prog.andThen_ok]
    dsimp only
    rw [Prog.run_bind, Prog.run_count, Prog.andThen_ok, Prog.run_bind, hwalk, Prog.andThen_ok]
    exact Prog.run_write (by rw [hpage]; rfl)
  · unfold setHead placeHead
    refine .bind_run (hensureGuarded C) hensure (.bind_run (.of_reads .getHeader) (Prog.run_getHeader m) ?_)
    dsimp only
    refine .bind_run (.of_reads .count) (Prog.run_count m) (.bind_run (.of_reads (reads_walk _ _ _ _)) hwalk ?_)
    exact .of_write (by rw [hpage]; rfl) hC

/-! ## Adding -/

/-- **A full head may be cut off behind spares at any point.** -/
theorem cuts_promoteSpare {rest : List UInt32} (hc : ChainAt m (h :: rest)) (hs : Shaped m (h :: rest)) :
    (promoteSpare h).Cuts m fun m' => Leads m m' (h :: rest) h := by
  obtain ⟨headPage, hhead⟩ := (hc.inUse h (by simp)).get
  have hstart := hc.links.2.start_eq
  rw [nextOf_eq hhead] at hstart
  unfold promoteSpare
  refine .read hhead ?_
  by_cases hnone : readNext headPage = NO_ROOT
  · rw [if_pos hnone]
    exact .pure _
  rw [if_neg hnone]
  rw [linkOf_of_ne hnone] at hstart
  cases rest with
  | nil => cases hstart
  | cons s1 rest =>
    have hs1 : readNext headPage = s1 := Option.some.inj hstart
    rw [hs1]
    obtain ⟨s1Page, hs1Page⟩ := (hc.inUse s1 (by simp)).get
    refine .read hs1Page ?_
    by_cases hempty : readCount s1Page = 0
    case neg =>
      rw [if_pos hempty]
      exact .pure _
    rw [if_neg (not_not.2 hempty)]
    have hs1Empty : contents m s1 = [] := by rw [contents_eq hs1Page, entries_eq_nil, hempty]
    have hnd := List.nodup_cons.1 hc.nodup
    refine .bind (.of_readOnly (reads_spareRunEnd _ _ _).readOnly) fun tail m₁ hr => ?_
    obtain ⟨hm₁, htail, -⟩ := (yields_spareRunEnd hc hs1Page).of_ok hr
    rw [hm₁]
    have hframe : ∀ {p : UInt32} (d : PageData), p ∈ h :: s1 :: rest →
        Framed m (m.set p d) (h :: s1 :: rest) := fun d hp =>
      Framed.set ⟨rfl, rfl, fun _ _ => rfl, fun _ h => h⟩ hp d
    -- the head's link skips empty pages, the others are as they were
    have hskip : ∀ (as bs : List UInt32) {d : PageData}, s1 :: rest = as ++ bs →
        (∀ p ∈ as, contents m p = []) → linkOf (readNext d) = bs.head? → entries d = entries headPage →
        ∀ m', Framed m m' (h :: s1 :: rest) → (∀ p, p ∉ as → m'.pages p = (m.set h d).pages p) →
          Leads m m' (h :: s1 :: rest) h := by
      intro as bs d hsplit has hlink hentries m' hf hpages
      rw [hsplit] at hc hf hnd ⊢
      have hhas : h ∉ as := fun hm => hnd.1 (by simp [hm])
      refine hc.leads_skip hf has ⟨?_, ?_⟩ fun p hp => ?_
      · rw [(page_congr (hpages h hhas)).1, nextOf_eq (m.set_pages_self h d), hlink]
      · rw [(page_congr (hpages h hhas)).2.1, contents_eq (m.set_pages_self h d), hentries,
          contents_eq hhead]
      · have hpas : p ∉ as := fun hm => (List.nodup_append.1 hnd.2).2.2 p hm p hp rfl
        have hph : p ≠ h := by
          rintro rfl
          exact hnd.1 (by simp [hp])
        have hsame := hpages p hpas
        rw [m.set_pages_of_ne hph] at hsame
        exact ⟨(page_congr hsame).1, (page_congr hsame).2.1⟩
    by_cases hts : tail = s1
    · rw [if_pos hts]
      refine .write (by rw [hhead]; rfl) hc.leads_refl (.write ?_ ?_ (.pure _))
      · rw [m.set_pages_of_ne (by rintro rfl; exact hnd.1 (by simp)), hs1Page]
        rfl
      · refine hskip [s1] rest rfl (by simpa using hs1Empty) ?_ (entries_writeNext _ _) _
          (hframe _ (by simp)) fun _ _ => rfl
        rw [readNext_writeNext, ← nextOf_eq hs1Page]
        exact Threads.next_eq (show Threads (nextOf m) _ ([h] ++ s1 :: rest) none from hc.links)
    · rw [if_neg hts]
      obtain ⟨htail, htailEmpty⟩ := htail.resolve_left hts
      obtain ⟨ss, bs, rfl⟩ := List.append_of_mem htail
      have hth : tail ≠ h := by
        rintro rfl
        exact hnd.1 (by simp)
      obtain ⟨tailPage, htailPage⟩ := (hc.inUse tail (by simp)).get
      have hruns : ∀ p ∈ s1 :: (ss ++ [tail]), contents m p = [] := by
        have hfront := hs.empty_before (show s1 :: (ss ++ tail :: bs) = (s1 :: ss) ++ tail :: bs from rfl)
          htailEmpty
        intro p hp
        rw [← List.cons_append] at hp
        rcases List.mem_append.1 hp with hp | hp
        · exact hfront p hp
        · rw [List.mem_singleton.1 hp, htailEmpty]
      have hlink : linkOf (readNext (writeNext headPage (readNext tailPage))) = bs.head? := by
        rw [readNext_writeNext, ← nextOf_eq htailPage]
        exact Threads.next_eq (show Threads (nextOf m) _ ((h :: s1 :: ss) ++ tail :: bs) none from hc.links)
      have hcut := hskip (s1 :: (ss ++ [tail])) bs (by simp) hruns hlink (entries_writeNext _ _)
      refine .read htailPage (.write (by rw [hhead]; rfl) hc.leads_refl (.write ?_ ?_ ?_))
      · rw [m.set_pages_of_ne hth, htailPage]
        rfl
      · exact hcut _ (hframe _ (by simp)) fun _ _ => rfl
      · refine .bind (.of_readOnly (Prog.readOnly_read _)) fun s2Page m₂ hr₂ => ?_
        obtain ⟨hm₂, hs2Page⟩ := Prog.read_ok hr₂
        rw [hm₂]
        split
        case isFalse => exact .pure _
        case isTrue =>
          refine .bind (.of_write (by rw [hs2Page]; rfl) ?_) fun _ _ _ => .pure _
          exact hcut _ ((hframe _ (by simp)).set (by simp) _) fun p hp =>
            PageMap.set_pages_of_ne _ (by rintro rfl; exact hp (by simp)) _

theorem LabelLayout.held_refl (hl : LabelLayout m roots chains) (t : UInt16) :
    Held t (members m (chains t)) m := .of_ok (run_get hl t) (Multiset.coe_le.2 (List.Subperm.refl _))

/-- The page behind a spare that is taken into use. -/
theorem LabelLayout.cuts_reuse (hl : LabelLayout m roots chains) {s : UInt32} {ss bs : List UInt32}
    {m₁ : PageMap} (ht : chains t = h :: s :: (ss ++ bs)) (hspares : ∀ p ∈ s :: ss, contents m p = [])
    (hr : Relinked m m₁ (chains t)) (hc : ChainAt m₁ (s :: (ss ++ h :: bs))) (rid : RecordId) :
    Prog.Cuts (do
      let sparePage ← Prog.read s
      Prog.write s (writeCount (writeEntry sparePage ⟨0, by decide⟩ rid) 1)
      setHead t s) m₁ (Held t (members m (chains t))) := by
  have hnd := (hl.chain t).nodup
  have hhead : (chains t).head? = some h := by rw [ht]; rfl
  have hsMem : s ∈ chains t := by rw [ht]; simp
  obtain ⟨page, hpage⟩ := (hc.inUse s (by simp)).get
  -- the head and what is behind the run
  have hlead : ∀ m', Framed m m' (chains t) → (∀ p, p ≠ s → m'.pages p = m₁.pages p) →
      Leads m m' (chains t) h := by
    intro m' hf hpages
    rw [ht] at hf hnd ⊢
    obtain ⟨c, -, hc₁, hlinks⟩ := threads_append.1
      (show Threads (nextOf m₁) _ ((s :: ss) ++ h :: bs) none from hc.links)
    have hsame : ∀ p ∈ h :: bs, m'.pages p = m₁.pages p := by
      intro p hp
      refine hpages p ?_
      rintro rfl
      obtain ⟨hh, hrest⟩ := List.nodup_cons.1 hnd
      rcases List.mem_cons.1 hp with rfl | hp
      · exact hh (by simp)
      · exact (List.nodup_cons.1 hrest).1 (by simp [hp])
    refine ⟨hf, h :: bs, ?_, ?_, ?_, fun p hp => ?_, fun p hp hnot => ?_⟩
    · exact Threads.congr (show Threads (nextOf m₁) (some h) (h :: bs) none from ⟨rfl, hlinks⟩)
        fun p hp => (page_congr (hsame p hp)).1
    · have hrest := (List.nodup_cons.1 (List.nodup_cons.1 hnd).2).2
      refine List.nodup_cons.2 ⟨fun hm => (List.nodup_cons.1 hnd).1 (by simp [hm]), ?_⟩
      exact (List.nodup_append.1 hrest).2.1
    · intro p hp
      rcases List.mem_cons.1 hp with rfl | hp <;> simp [*]
    · rw [(page_congr (hsame p hp)).2.1, hr.contents]
    · have hnot' : p ≠ h ∧ p ∉ bs := by simpa using hnot
      exact hspares p (by simpa [hnot'.1, hnot'.2] using hp)
  have hf₁ := hr.framed
  refine .read hpage (.write (by rw [hpage]; rfl) ?_ ?_)
  · exact hl.held_of_leads hhead (hlead m₁ hf₁ fun _ _ => rfl)
  · obtain ⟨d, hd⟩ : ∃ d, d = writeCount (writeEntry page ⟨0, by decide⟩ rid) 1 := ⟨_, rfl⟩
    rw [← hd]
    have hf₂ : Framed m (m₁.set s d) (chains t) := hf₁.set hsMem d
    obtain ⟨-, -, -, -, hguarded⟩ := setHead_known (hl.rooted_of_framed hf₂) hhead s
    exact (hguarded _ (hl.held_of_leads hhead (hlead _ hf₂ fun p hp => m₁.set_pages_of_ne hp d))).cuts

/-- **`add_new` loses nothing.** -/
theorem LabelLayout.cuts_addNew (hl : LabelLayout m roots chains) (hs : Shaped m (chains t))
    (rid : RecordId) : (addNew t rid).Cuts m (Held t (members m (chains t))) := by
  unfold addNew
  refine .bind_run (.of_readOnly (reads_headOf t).readOnly) (run_headOf hl.rooted t) ?_
  cases hhead : (chains t).head? with
  | none =>
    rw [List.head?_eq_none_iff.1 hhead]
    exact fun m' _ => .zero m' t
  | some h =>
    obtain ⟨rest, ht⟩ := List.head?_eq_some_iff.1 hhead
    obtain ⟨page, hpage⟩ := ((hl.chain t).inUse h (by simp [ht])).get
    refine .read hpage ?_
    by_cases hroom : readCount page < ENTRIES_PER_PAGE
    · rw [dif_pos hroom]
      exact .of_write (by rw [hpage]; rfl) (hl.held_refl t)
    rw [dif_neg hroom]
    have hfull : contents m h ≠ [] := by
      refine contents_ne_nil_of_full ?_
      rw [contents_eq hpage, length_entries]
      exact Nat.le_antisymm (readCount_le page) (Nat.le_of_not_lt hroom)
    have hc := hl.chain t
    have hs' := hs
    rw [ht] at hc hs'
    refine .bind ((cuts_promoteSpare hc hs').mono fun m' hlead => hl.held_of_leads hhead (ht ▸ hlead)) ?_
    intro r m₁ hrun
    have hr := (yields_promoteSpare hc hfull).of_ok hrun
    cases r with
    | some s =>
      obtain ⟨ss, bs, rfl, hspare, hrel, hc', hmoved⟩ := hr
      exact hl.cuts_reuse ht (hs'.run_empty hspare hmoved) (ht ▸ hrel) hc' rid
    | none =>
      obtain ⟨hm₁, -⟩ : m₁ = m ∧ _ := hr
      rw [hm₁]
      refine .append (hl.held_refl t) fun m₂ _ hold hcount hheader => ?_
      have hsame : ∀ {p : UInt32}, InUse m p → m₂.pages p = m.pages p := by
        intro p hp
        refine hold p ?_
        rintro rfl
        exact absurd hp.lt_count (UInt32.lt_irrefl _)
      have hroots₂ := hl.rooted.congr (by omega) (by rw [hheader]) fun p hp => hsame (hl.rooted.inUse p hp)
      have hc₂ : ChainAt m₂ (chains t) := (hl.chain t).congr (by omega) fun p hp => hsame ((hl.chain t).inUse p hp)
      obtain ⟨-, -, -, -, hguarded⟩ := setHead_known hroots₂ hhead m.count
      refine (hguarded _ (.of_ok (run_get_links hroots₂ hhead (hhead ▸ hc₂.links) hc₂.nodup hc₂.inUse) ?_)).cuts
      rw [members_congr fun p hp => hsame ((hl.chain t).inUse p hp)]

theorem LabelLayout.cuts_add (hl : LabelLayout m roots chains) (hs : Shaped m (chains t))
    (rid : RecordId) : (add t rid).Cuts m (Held t (members m (chains t))) := by
  have hc := hl.chain t
  unfold add
  refine .bind_run (.of_readOnly (reads_headOf t).readOnly) (run_headOf hl.rooted t) ?_
  cases hhead : (chains t).head? with
  | none => exact hl.cuts_addNew hs rid
  | some h =>
    refine .count (.bind (.of_readOnly (reads_walk _ _ _ _).readOnly) fun r m₁ hrun => ?_)
    have hm₁ := (reads_walk (visitEntry rid) m.count.toNat h ()).readOnly.run_snd m
    rw [hrun] at hm₁
    rw [show m₁ = m from hm₁]
    split
    · exact .pure _
    · exact hl.cuts_addNew hs rid

/-! ## Promoting a page with entries -/

theorem head_mem {α : Type} {a : α} {as bs : List α} (h : (as ++ bs).head? = some a) (hne : as ≠ []) :
    a ∈ as := by
  cases as with
  | nil => exact absurd rfl hne
  | cons b as =>
    cases h
    simp

/-- The page `d` of the chain links to the head: from any page up to `d` a walk runs into itself. -/
theorem ChainAt.closed {l bs : List UInt32} {x d : UInt32} (hc : ChainAt m chain)
    (hsplit : chain = l ++ [x] ++ d :: bs) (hhead : chain.head? = some h)
    (huse : ∀ p ∈ chain, InUse m' p)
    (hnext : ∀ p ∈ chain, nextOf m' p = Function.update (nextOf m) d (some h) p) :
    Closed m' (l ++ [x] ++ [d]) := by
  have hlinks := hc.links
  have hnd := hc.nodup
  rw [hsplit] at hlinks hnd
  have hsub : ∀ p ∈ l ++ [x] ++ [d], p ∈ chain := by
    intro p hp
    rw [hsplit]
    simp only [List.mem_append, List.mem_cons, List.not_mem_nil, or_false] at hp ⊢
    rcases hp with hp | hp
    · exact .inl hp
    · exact .inr (.inl hp)
  intro p hp
  refine ⟨huse p (hsub p hp), ?_⟩
  rw [hnext p (hsub p hp)]
  by_cases hpd : p = d
  · rw [hpd, Function.update_self]
    rw [hsplit] at hhead
    exact ⟨h, List.mem_append_left _ (head_mem hhead (by simp)), rfl⟩
  · rw [Function.update_of_ne hpd]
    have hfront : p ∈ l ++ [x] := by
      rcases List.mem_append.1 hp with hp | hp
      · exact hp
      · exact absurd (List.mem_singleton.1 hp) hpd
    exact Threads.next_mem hlinks hfront

/-- A page that has been read, and rewritten under its entries. -/
theorem contents_set_same {p : UInt32} {page d : PageData} (hpage : m.pages p = some page)
    (hd : entries d = entries page) (q : UInt32) : contents (m.set p d) q = contents m q := by
  rw [contents_set, hd, ← contents_eq hpage, Function.update_eq_self]

/-- **While a page is pulled to the front, the chain is reported as corrupt or complete.** -/
theorem LabelLayout.guarded_promoteFirstNonEmpty (hl : LabelLayout m roots chains) {rest : List UInt32}
    (ht : chains t = h :: rest) (hempty : contents m h = []) (hex : ∃ p ∈ rest, contents m p ≠ []) :
    (promoteFirstNonEmpty t h).Guarded m (Held t (members m (chains t))) := by
  have hc := hl.chain t
  have hhead : (chains t).head? = some h := by rw [ht]; rfl
  obtain ⟨headPage, hheadPage⟩ := (hc.inUse h (by simp [ht])).get
  cases rest with
  | nil =>
    obtain ⟨p, hp, -⟩ := hex
    cases hp
  | cons first rest =>
    have hnext : nextOf m h = some first :=
      Threads.next_eq (show Threads (nextOf m) _ ([] ++ h :: first :: rest) none by
        have := hc.links
        rwa [ht] at this)
    obtain ⟨hread, hne⟩ := nextOf_eq_some hheadPage hnext
    rw [← hread] at hne
    obtain ⟨firstPage, hfirst⟩ := (hc.inUse first (by simp [ht])).get
    have hc' := hc
    rw [ht] at hc'
    obtain ⟨⟨x, d⟩, hfirstRun, -, l, bs, hsplit, hx, hd⟩ := (reads_firstNonEmpty h first firstPage).run_ok
      (yields_firstNonEmpty hc' hempty hfirst hex)
    rw [← ht] at hsplit
    have hmem : ∀ p, p ∈ l ++ [x] ++ d :: bs → p ∈ chains t := fun p hp => hsplit ▸ hp
    have hdMem := hmem d (by simp)
    have hxMem := hmem x (by simp)
    have hhMem : h ∈ chains t := by simp [ht]
    have hdh : h ≠ d := by
      rintro rfl
      exact hd hempty
    have hxd : x ≠ d := by
      rintro rfl
      exact hd hx
    have hlinkh : linkOf h = some h := linkOf_of_ne (hc.inUse h hhMem).ne_noRoot
    obtain ⟨dPage, hdPage⟩ := (hc.inUse d hdMem).get
    -- the page to promote links to the head
    obtain ⟨m₁, hm₁⟩ : ∃ m₁, m₁ = m.set d (writeNext dPage h) := ⟨_, rfl⟩
    have hf₁ : Framed m m₁ (chains t) := by
      rw [hm₁]
      exact Framed.set ⟨rfl, rfl, fun _ _ => rfl, fun _ h => h⟩ hdMem _
    have hroots₁ := hl.rooted_of_framed hf₁
    have hnext₁ : nextOf m₁ = Function.update (nextOf m) d (some h) := by
      rw [hm₁, nextOf_set, readNext_writeNext, hlinkh]
    have hcont₁ : ∀ q, contents m₁ q = contents m q := fun q => by
      rw [hm₁, contents_set_same hdPage (entries_writeNext _ _)]
    have hcycle₁ : Closed m₁ (l ++ [x] ++ [d]) := hc.closed hsplit hhead
      (fun p hp => hl.inUse_of_framed hf₁ hp) fun p _ => by rw [hnext₁]
    -- the root names it
    obtain ⟨r, slot, hr, hrun₂, hguarded⟩ := setHead_known hroots₁ hhead d
    obtain ⟨m₂, hm₂⟩ : ∃ m₂, m₂ = m₁.set r slot := ⟨_, rfl⟩
    rw [← hm₂] at hrun₂
    have hpos₁ : 0 < m₁.count := by rw [hf₁.count]; exact hl.pos
    obtain ⟨roots', hroots₂, hframe₂⟩ :=
      (yields_setHead hroots₁ (hf₁.isSome 0 hl.zero) hpos₁ t d).of_ok hrun₂
    have hhead₂ : Function.update (fun u => (chains u).head?) t (some d) t = some d := Function.update_self ..
    have hold₂ : ∀ p ∈ chains t, m₂.pages p = m₁.pages p := by
      intro p hp
      rw [hm₂]
      refine m₁.set_pages_of_ne ?_ _
      rintro rfl
      exact hl.apart t p hp hr
    have huse₂ : ∀ p ∈ chains t, InUse m₂ p := by
      intro p hp
      rw [hm₂]
      exact (hl.inUse_of_framed hf₁ hp).set _ _
    have hcycle₂ : Closed m₂ (l ++ [x] ++ [d]) := hc.closed hsplit hhead huse₂ fun p hp => by
      rw [(page_congr (hold₂ p hp)).1, hnext₁]
    have hheadPage₂ : m₂.pages h = some headPage := by
      rw [hold₂ h hhMem, hm₁, m.set_pages_of_ne hdh, hheadPage]
    have hcut₂ : Held t (members m (chains t)) m₂ := .of_cycle hroots₂ hhead₂ hcycle₂ (by simp)
    unfold promoteFirstNonEmpty
    refine .read hheadPage ?_
    dsimp only
    rw [if_neg hne, hread]
    refine .read hfirst (.bind_run (.of_reads (reads_firstNonEmpty _ _ _)) hfirstRun ?_)
    dsimp only
    refine .read hdPage (.write (by rw [hdPage]; rfl) (hl.held_refl t) ?_)
    rw [← hm₁]
    have hlh : h ∈ l ++ [x] ++ [d] :=
      List.mem_append_left _ (head_mem (hsplit ▸ hhead) (by simp))
    refine .bind_run (hguarded _ (.of_cycle hroots₁ hhead hcycle₁ hlh)) hrun₂ ?_
    by_cases hxh : x = h
    · rw [if_neg (not_not.2 hxh)]
      refine .read hheadPage₂ ?_
      exact .bind (.of_write (by rw [hheadPage₂]; rfl) hcut₂) fun _ _ _ => .pure _
    · rw [if_pos hxh]
      obtain ⟨xPage, hxPage⟩ := (huse₂ x hxMem).get
      obtain ⟨m₃, hm₃⟩ : ∃ m₃, m₃ = m₂.set x (writeNext xPage (readNext dPage)) := ⟨_, rfl⟩
      refine .read hxPage (.write (by rw [hxPage]; rfl) hcut₂ ?_)
      rw [← hm₃]
      have hheadPage₃ : m₃.pages h = some headPage := by
        rw [hm₃, m₂.set_pages_of_ne (Ne.symm hxh), hheadPage₂]
      refine .read hheadPage₃ ?_
      refine .bind (.of_write (by rw [hheadPage₃]; rfl) ?_) fun _ _ _ => .pure _
      -- the chain is whole again
      have hroots₃ : RootsAt m₃ roots' (Function.update (fun u => (chains u).head?) t (some d)) := by
        refine hroots₂.congr (by rw [hm₃]; exact Nat.le_refl _) (by rw [hm₃]; rfl) fun p hp => ?_
        rw [hm₃]
        refine m₂.set_pages_of_ne ?_ _
        rintro rfl
        rcases hframe₂.roots p hp with hp | hge
        · exact hl.apart t p hxMem hp
        · exact absurd (hl.inUse_of_framed hf₁ hxMem).lt_count (UInt32.not_lt.2 hge)
      have hnd := hc.nodup
      have hlinks := hc.links
      rw [hhead, hsplit] at hlinks
      rw [hsplit] at hnd
      have hperm : (d :: (l ++ [x] ++ bs)).Perm (chains t) := by
        rw [hsplit]
        exact List.perm_middle.symm
      have hlinks₃ : Threads (nextOf m₃) (some d) (d :: (l ++ [x] ++ bs)) none := by
        refine (Threads.pullFront hlinks hnd).congr fun p hp => ?_
        rw [hm₃, nextOf_set, readNext_writeNext, ← nextOf_eq hdPage]
        by_cases hpx : p = x
        · rw [hpx, Function.update_self, Function.update_self]
        · rw [Function.update_of_ne hpx, Function.update_of_ne hpx,
            (page_congr (hold₂ p (hperm.mem_iff.1 hp))).1, hnext₁]
      refine .of_ok (run_get_links hroots₃ hhead₂ hlinks₃ (hperm.nodup_iff.2 hc.nodup) fun p hp => ?_) ?_
      · rw [hm₃]
        exact (huse₂ p (hperm.mem_iff.1 hp)).set _ _
      · have hlist : members m₃ (d :: (l ++ [x] ++ bs)) = members m (d :: (l ++ [x] ++ bs)) := by
          refine members_of_contents fun p hp => ?_
          rw [hm₃, contents_set_same hxPage (entries_writeNext _ _),
            (page_congr (hold₂ p (hperm.mem_iff.1 hp))).2.1, hcont₁]
        rw [hlist, Multiset.coe_le]
        exact (members_perm hperm).symm.subperm

theorem LabelLayout.guarded_donorOf (hl : LabelLayout m roots chains) (hhead : (chains t).head? = some h)
    (hex : ∃ p ∈ chains t, contents m p ≠ []) :
    (donorOf t h).Guarded m (Held t (members m (chains t))) := by
  obtain ⟨rest, ht⟩ := List.head?_eq_some_iff.1 hhead
  obtain ⟨page, hpage⟩ := ((hl.chain t).inUse h (by simp [ht])).get
  unfold donorOf
  refine .read hpage ?_
  split
  case isTrue hcount =>
    have hempty : contents m h = [] := by rw [contents_eq hpage, entries_eq_nil, hcount]
    have hex' : ∃ p ∈ rest, contents m p ≠ [] := by
      obtain ⟨p, hp, hne⟩ := hex
      rw [ht] at hp
      rcases List.mem_cons.1 hp with rfl | hp
      · exact absurd hempty hne
      · exact ⟨p, hp, hne⟩
    exact .bind (hl.guarded_promoteFirstNonEmpty ht hempty hex') fun d m' _ =>
      .bind (.of_reads (.read d)) fun donor m'' _ => .pure _
  case isFalse => exact .pure _

/-! ## Removing -/

/-- The walk stops at the first page with entries if the record id is there. -/
theorem scan_visitEntry_first {rid : RecordId} {d p : UInt32} {i : Fin ENTRIES_PER_PAGE}
    (hp : ∀ q ∈ pids, InUse m q) (hscan : scan (visitEntry rid) m pids () = .inl (p, i))
    (hfirst : firstWithEntries m pids = some d) (hd : rid ∈ contents m d) : p = d := by
  induction pids with
  | nil => cases hfirst
  | cons q ps ih =>
    obtain ⟨page, hpage⟩ := (hp q (by simp)).get
    rw [scan_cons hpage] at hscan
    unfold visitEntry at hscan
    unfold firstWithEntries at hfirst
    rw [List.find?_cons] at hfirst
    cases hidx : entryIdx page rid with
    | some j =>
      have hne : contents m q ≠ [] := by
        rw [contents_eq hpage]
        exact List.ne_nil_of_mem (List.mem_of_getElem? (entryIdx_eq_some hidx))
      rw [hidx] at hscan
      cases hscan
      have hsome : (!(contents m p).isEmpty) = true := by simpa using hne
      rw [hsome] at hfirst
      cases hfirst
      rfl
    | none =>
      have hmiss := entryIdx_eq_none hidx
      rw [hidx] at hscan
      split at hfirst
      · cases hfirst
        rw [contents_eq hpage] at hd
        exact absurd hd hmiss
      · exact ih (fun r hr => hp r (by simp [hr])) hscan hfirst

/-- **The donor drops its last entry before the hole is filled**, which matters unless the hole is its
    own. -/
theorem LabelLayout.cuts_fillHole (hl : LabelLayout m roots chains) (hs : Shaped m (chains t))
    {pid d : UInt32} {page : PageData} {idx : Fin ENTRIES_PER_PAGE} {rid : RecordId}
    (hhead : (chains t).head? = some h) (hpid : pid ∈ chains t) (hpage : m.pages pid = some page)
    (hidx : (entries page)[idx.val]? = some rid) (hfirst : firstWithEntries m (chains t) = some d)
    (hfound : rid ∈ contents m d → pid = d) :
    (fillHoleFromHead t h pid idx).Cuts m (Held t ((members m (chains t)).erase rid)) ↔
      rid ∈ contents m d := by
  have hmemPid : rid ∈ contents m pid := by
    rw [contents_eq hpage]
    exact List.mem_of_getElem? hidx
  have hmem : rid ∈ members m (chains t) := List.mem_flatMap.2 ⟨pid, hpid, hmemPid⟩
  have hguarded := hl.guarded_donorOf hhead ⟨pid, hpid, List.ne_nil_of_mem hmemPid⟩
  have hyields := hl.yields_donorOf hhead ⟨pid, hpid, List.ne_nil_of_mem hmemPid⟩
  obtain ⟨⟨d', donor⟩, m₁, hrun, roots', pids, hdonor, hshape⟩ := hyields.resolve_left fun ⟨_, hr, _⟩ =>
    hguarded.noPanic (by rw [hr])
  obtain rfl : d = d' := Option.some.inj (hfirst.symm.trans (hshape hs).2)
  obtain ⟨ps, rfl⟩ := List.head?_eq_some_iff.1 hdonor.head
  dsimp only at hrun hdonor
  obtain ⟨init, last, hentries⟩ := (List.eq_nil_or_concat (entries donor)).resolve_left hdonor.nonempty
  rw [List.concat_eq_append] at hentries
  have hcount : readCount donor = init.length + 1 := by
    rw [← length_entries, hentries, List.length_append]
    rfl
  have hchain := hdonor.layout.chain t
  rw [Function.update_self] at hchain
  have hold : (members m₁ (d :: ps)).Perm (members m (chains t)) := by
    rw [← members_of_contents hdonor.contents]
    exact members_perm hdonor.perm
  have hgetOld := run_get hdonor.layout t
  rw [Function.update_self] at hgetOld
  have hkept : Held t ((members m (chains t)).erase rid) m₁ :=
    .of_ok hgetOld (Multiset.coe_le.2 ((List.erase_subperm _ _).trans hold.symm.subperm))
  have hcuts : (donorOf t h).Cuts m (Held t ((members m (chains t)).erase rid)) := by
    refine hguarded.cuts.mono fun m' hheld => ?_
    rcases hheld with herr | ⟨l, hok, hle⟩
    · exact .inl herr
    · exact .inr ⟨l, hok, (Multiset.coe_le.2 (List.erase_subperm _ _)).trans hle⟩
  unfold fillHoleFromHead
  by_cases hpd : pid = d
  · refine ⟨fun _ => hpd ▸ hmemPid, fun _ => .bind_run hcuts hrun ?_⟩
    dsimp only
    rw [if_neg (by omega), if_pos hpd]
    exact .of_write (by rw [hdonor.page]; rfl) hkept
  · refine ⟨fun hall => ?_, fun hd => absurd (hfound hd) hpd⟩
    -- the donor has been written, the page with the hole has not
    exfalso
    obtain ⟨D, hD⟩ : ∃ D, D = writeCount donor (readCount donor - 1) := ⟨_, rfl⟩
    have hentriesD : entries D = init := by
      rw [hD, entries_writeCount donor (Nat.sub_le _ _), hentries, hcount]
      simp
    obtain ⟨page₁, hpage₁⟩ := (hchain.inUse pid (hdonor.perm.mem_iff.2 hpid)).get
    have hpage₂ : (m₁.set d D).pages pid = some page₁ := by rw [m₁.set_pages_of_ne hpd, hpage₁]
    have hheld : Held t ((members m (chains t)).erase rid) (m₁.set d D) := by
      refine hall _ (Prog.mem_runCuts_bind hrun ?_)
      dsimp only
      rw [if_neg (by omega), if_neg hpd, ← hD]
      refine Prog.mem_runCuts_bind (Prog.run_write (by rw [hdonor.page]; rfl)) ?_
      refine Prog.mem_runCuts_bind (Prog.run_read hpage₂) ?_
      rw [Prog.runCuts_write (by rw [hpage₂]; rfl)]
      exact List.mem_singleton_self _
    have hl₂ : LabelLayout (m₁.set d D) roots' (Function.update chains t (d :: ps)) := by
      refine hdonor.layout.set (t := t) (by simp) hdonor.page (by rw [hD, readNext_writeCount]) fun htail => ?_
      rw [Function.update_self] at htail
      exact absurd htail (List.nodup_cons.1 hchain.nodup).1
    have hget := run_get hl₂ t
    rw [Function.update_self, members_set_head hchain.nodup, hentriesD] at hget
    rcases hheld with ⟨e, he⟩ | ⟨l, hl', hle⟩
    · rw [hget] at he
      cases he
    · rw [hget] at hl'
      obtain rfl : init ++ members m₁ ps = l := by cases hl'; rfl
      -- as many entries are left as without `rid`, so that `last` would have to be `rid`
      have hsplit : (last :: (init ++ members m₁ ps)).Perm (members m (chains t)) := by
        refine List.Perm.trans ?_ hold
        have hcons := members_split m₁ [] ps d
        rw [List.nil_append, contents_eq hdonor.page] at hcons
        dsimp only at hcons
        rw [hcons, hentries]
        show (last :: (init ++ members m₁ ps)).Perm (init ++ [last] ++ members m₁ ps)
        rw [List.append_assoc]
        exact List.perm_middle.symm
      have hrid := (List.perm_cons_erase hmem).symm
      have hlen : (init ++ members m₁ ps).length ≤ ((members m (chains t)).erase rid).length := by
        have h₁ := hsplit.length_eq
        have h₂ := hrid.length_eq
        rw [List.length_cons] at h₁ h₂
        omega
      have heq := (Multiset.coe_le.1 hle).perm_of_length_le hlen
      have hsame : (rid :: (init ++ members m₁ ps)).Perm (last :: (init ++ members m₁ ps)) :=
        ((heq.symm.cons rid).trans hrid).trans hsplit.symm
      have hlast : rid = last := by
        have hc := hsame.count_eq rid
        rw [List.count_cons, List.count_cons] at hc
        by_contra hne
        simp [Ne.symm hne] at hc
      refine hpd (hfound ?_)
      have hdMem : d ∈ chains t := hdonor.perm.mem_iff.1 (by simp)
      rw [← hdonor.contents d hdMem, contents_eq hdonor.page]
      dsimp only
      rw [hentries, hlast]
      simp

theorem LabelLayout.cuts_remove (hl : LabelLayout m roots chains) (hs : Shaped m (chains t))
    (rid : RecordId) : (remove t rid).Cuts m (Held t ((members m (chains t)).erase rid)) ↔
      (rid ∈ members m (chains t) → ∃ d, firstWithEntries m (chains t) = some d ∧ rid ∈ contents m d) := by
  have hc := hl.chain t
  unfold remove Prog.Cuts
  rw [(reads_headOf t).runCuts_bind (run_headOf hl.rooted t)]
  cases hhead : (chains t).head? with
  | none =>
    rw [List.head?_eq_none_iff.1 hhead]
    simp [members, show (Pure.pure () : Prog Unit).runCuts m = [] from rfl]
  | some h =>
    dsimp only
    have hwalk := run_walk (visitEntry rid) (hhead ▸ hc.links) hc.inUse
      (Nat.le_succ_of_le (length_le_count hc.nodup hc.inUse)) ()
    rw [Prog.Reads.runCuts_bind .count (Prog.run_count m), (reads_walk _ _ _ _).runCuts_bind hwalk]
    rcases scan_visitEntry rid hc.inUse with ⟨p, page, i, hp, hpage, hi, hscan⟩ | ⟨hno, hscan⟩
    · rw [hscan]
      have hmemPage : rid ∈ contents m p := by
        rw [contents_eq hpage]
        exact List.mem_of_getElem? hi
      have hmem : rid ∈ members m (chains t) := List.mem_flatMap.2 ⟨p, hp, hmemPage⟩
      obtain ⟨d, hfirst⟩ : ∃ d, firstWithEntries m (chains t) = some d := by
        refine Option.isSome_iff_exists.1 (List.find?_isSome.2 ⟨p, hp, ?_⟩)
        simpa using List.ne_nil_of_mem hmemPage
      refine (hl.cuts_fillHole hs hhead hp hpage hi hfirst
        fun hd => scan_visitEntry_first hc.inUse hscan hfirst hd).trans ?_
      rw [hfirst]
      simp [hmem]
    · rw [hscan]
      refine ⟨fun _ hmem => absurd hmem hno, fun _ m' hm' => ?_⟩
      cases hm'

/-! ## Every state, every call -/

theorem forall_iff_of_forall₂ {α β : Type} {R : α → β → Prop} {P : α → Prop} {Q : β → Prop} {l : List α}
    {l' : List β} (h : List.Forall₂ R l l') (hpq : ∀ a b, R a b → (P a ↔ Q b)) :
    (∀ a ∈ l, P a) ↔ ∀ b ∈ l', Q b := by
  induction h with
  | nil => simp
  | cons hab _ ih => rw [List.forall_mem_cons, List.forall_mem_cons, hpq _ _ hab, ih]

/-- **A call may be cut off at any point if and only if it fills the hole from its own page.** -/
theorem SpaceInv.cuts_iff (hi : SpaceInv s m roots chains) (c : LabelCall) :
    (∀ db ∈ c.prog.execCuts s.db, Survives (c.kept (s.bags c.typeId)) c.typeId db) ↔ c.OnDonor s.db := by
  rw [forall_iff_of_forall₂ (hi.shows.cuts c.prog) fun db m' hd => survives_iff hd _ _, ← hi.bag]
  have hs := hi.shaped c.typeId
  cases c with
  | add t rid => exact ⟨fun _ => trivial, fun _ => hi.layout.cuts_add hs rid⟩
  | addNew t rid => exact ⟨fun _ => trivial, fun _ => hi.layout.cuts_addNew hs rid⟩
  | remove t rid =>
    refine (hi.layout.cuts_remove hs rid).trans ?_
    have hpages := (hi.shows.exec (chainEntries t)).1
    rw [run_chainEntries hi.layout t] at hpages
    have hfind : ((chains t).map (contents m)).find? (fun es => !es.isEmpty) =
        (firstWithEntries m (chains t)).map (contents m) := List.find?_map ..
    have hflat : ((chains t).map (contents m)).flatten = members m (chains t) := List.flatMap_def.symm
    refine ⟨fun hsafe pages hok hmem => ?_, fun hdonor hmem => ?_⟩
    · rw [hpages] at hok
      cases hok
      rw [hflat] at hmem
      obtain ⟨d, hfirst, hd⟩ := hsafe hmem
      have hfirst : firstWithEntries m (chains t) = some d := hfirst
      exact ⟨contents m d, by rw [hfind, hfirst]; rfl, hd⟩
    · obtain ⟨es, hes, hrid⟩ := hdonor _ hpages (by rw [hflat]; exact hmem)
      rw [hfind] at hes
      obtain ⟨d, hfirst, rfl⟩ := Option.map_eq_some_iff.1 hes
      exact ⟨d, hfirst, hrid⟩

/-- **The same in every state that calls reach from an empty index.** -/
theorem cutSafe_iff {db : DatabaseFile} (hd : Shows db m) (hz : (m.pages 0).isSome) (hpos : 0 < m.count)
    (hroot : m.header.labelIndexRoot = NO_ROOT) {calls : List LabelCall}
    (hrun : SpaceRuns (.empty db) calls s) (c : LabelCall) :
    (∀ db' ∈ c.prog.execCuts s.db, Survives (c.kept (s.bags c.typeId)) c.typeId db') ↔
      c.OnDonor s.db := by
  obtain ⟨m', roots', chains', hi⟩ := (SpaceInv.empty hd hz hpos hroot).run hrun
  exact hi.cuts_iff c

/-- A record id alone on its page is removed by one write. -/
theorem cutSafe_iff_remove : ∃ s, SpaceRuns (.empty DatabaseFile.createInMemory) [.add 1 ⟨0, 0⟩] s ∧
    ((∀ db' ∈ (remove 1 ⟨0, 0⟩).execCuts s.db, Survives ((s.bags 1).erase ⟨0, 0⟩) 1 db') ↔
      (LabelCall.remove 1 ⟨0, 0⟩).OnDonor s.db) := by
  obtain ⟨m, hd, hc, hh, hz⟩ := newFile_shows (.inr rfl)
  have hpos : 0 < m.count := by rw [hc]; decide
  have hroot : m.header.labelIndexRoot = NO_ROOT := by rw [hh]; rfl
  obtain ⟨m', hr⟩ := run_add_empty hz hpos hroot (by rw [hc]; show 1 + 2 < 4294967296; omega) 1 ⟨0, 0⟩
  generalize DatabaseFile.createInMemory = db at hd ⊢
  have hout := (hd.exec (add 1 ⟨0, 0⟩)).1
  rw [hr] at hout
  have hruns : SpaceRuns (.empty db) [.add 1 ⟨0, 0⟩] _ :=
    .cons (c := .add 1 ⟨0, 0⟩) (Prod.ext hout rfl) (.nil _)
  exact ⟨_, hruns, cutSafe_iff hd hz hpos hroot hruns (.remove 1 ⟨0, 0⟩)⟩

/-! ## More entries than a page holds -/

theorem appends_setHead (t : UInt16) (head : UInt32) : (setHead t head).Appends 2 := by
  have hread : ∀ {α : Type} {p : Prog α}, p.Reads → p.Appends 0 := fun h => .of_readOnly h.readOnly
  unfold setHead
  refine .bind (n := 1) (k := 1) ?_ fun _ => ?_
  · unfold ensureRoot
    refine .bind_zero (hread .getHeader) fun header => ?_
    split
    · exact .bind (n := 1) (k := 0) (.append _) fun pid => .bind_zero (hread .getHeader) fun header =>
        .putHeader _
    · trivial
  · unfold placeHead
    refine .bind_zero (hread .getHeader) fun header => ?_
    dsimp only
    refine .bind_zero (hread .count) fun limit => .bind_zero (hread (reads_walk _ _ _ _)) fun r => ?_
    split
    · exact .mono (Nat.zero_le 1) (.write _ _)
    · exact .bind (n := 1) (k := 0) (.append _) fun newPid => .bind_zero (.read _) fun newPage =>
        .bind_zero (.write _ _) fun _ => .write _ _

theorem appends_promoteSpare (head : UInt32) : (promoteSpare head).Appends 0 := by
  unfold promoteSpare
  refine .bind_zero (.read _) fun headPage => ?_
  dsimp only
  split
  · trivial
  · refine .bind_zero (.read _) fun s1Page => ?_
    split
    · trivial
    · refine .bind_zero (.of_readOnly (reads_spareRunEnd _ _ _).readOnly) fun tail => ?_
      split
      · exact .bind_zero (.write _ _) fun _ => .bind_zero (.write _ _) fun _ => trivial
      · refine .bind_zero (.read _) fun tailPage => .bind_zero (.write _ _) fun _ =>
          .bind_zero (.write _ _) fun _ => .bind_zero (.read _) fun s2Page => ?_
        split
        · exact .bind_zero (.write _ _) fun _ => trivial
        · trivial

theorem appends_addNew (t : UInt16) (rid : RecordId) : (addNew t rid).Appends 3 := by
  unfold addNew
  refine .bind_zero (.of_readOnly (reads_headOf t).readOnly) fun head => ?_
  split
  · exact .bind (n := 1) (k := 2) (.append _) fun newPid => appends_setHead t newPid
  · refine .bind_zero (.read _) fun page => ?_
    split
    · exact .mono (Nat.zero_le 3) (.write _ _)
    · refine .bind_zero (appends_promoteSpare _) fun r => ?_
      split
      · exact .mono (by omega : 2 ≤ 3) (.bind_zero (.read _) fun sparePage =>
          .bind_zero (.write _ _) fun _ => appends_setHead t _)
      · exact .bind (n := 1) (k := 2) (.append _) fun newPid => appends_setHead t newPid

/-- Any record ids can be added to a file with room for the pages they may need. -/
theorem SpaceInv.exists_runs (hi : SpaceInv s m roots chains) (t : UInt16) (rids : List RecordId)
    (hroom : m.count.toNat + 3 * rids.length + 1 < UInt32.size) : ∃ s' m' roots' chains',
      SpaceRuns s (rids.map (.addNew t)) s' ∧ SpaceInv s' m' roots' chains' ∧
      (s'.bags t).card = (s.bags t).card + rids.length ∧ s'.bags t = s.bags t + (rids : Multiset RecordId) := by
  induction rids generalizing s m roots chains with
  | nil => exact ⟨s, m, roots, chains, .nil s, hi, rfl, by simp⟩
  | cons rid rids ih =>
    rw [List.length_cons] at hroom
    have hcount := (appends_addNew t rid).count_le m
    obtain ⟨hout, hd⟩ := hi.shows.exec (addNew t rid)
    rcases hi.layout.yields_call (.addNew t rid) with ⟨m₁, hr, hfull⟩ | ⟨_, m₁, hr, hdid⟩
    · have hr : (addNew t rid).run m = (.panic, m₁) := hr
      rw [hr] at hcount
      dsimp only at hcount
      omega
    · have hr : (addNew t rid).run m = (.ok (), m₁) := hr
      rw [hr] at hcount hout hd
      dsimp only at hcount hd
      obtain ⟨roots₁, chains₁, h₁, -⟩ := hi.after hd hdid
      obtain ⟨s', m', roots', chains', hruns, h', hcard, hbag⟩ := ih h₁ (by omega)
      have hafter : ∀ db, (s.after (.addNew t rid) db).bags t = rid ::ₘ s.bags t := fun db =>
        Function.update_self ..
      rw [hafter] at hcard hbag
      refine ⟨s', m', roots', chains', .cons (Prod.ext hout rfl) hruns, h', ?_, ?_⟩
      · rw [hcard, Multiset.card_cons, List.length_cons]
        omega
      · rw [hbag, ← Multiset.cons_coe, Multiset.cons_add, Multiset.add_cons]

/-- A record id that is not on the first page with entries, among more than that page holds. -/
theorem SpaceInv.exists_behind (hi : SpaceInv s m roots chains) {t : UInt16} (hnd : (s.bags t).Nodup)
    (hmany : ENTRIES_PER_PAGE < (s.bags t).card) : ∃ rid, ¬ (LabelCall.remove t rid).OnDonor s.db := by
  by_contra hno
  have hall : ∀ rid, (LabelCall.remove t rid).OnDonor s.db := fun rid => not_not.1 fun h => hno ⟨rid, h⟩
  have hlist : (members m (chains t)).Nodup := by
    rw [← Multiset.coe_nodup, hi.bag t]
    exact hnd
  have hlen : ENTRIES_PER_PAGE < (members m (chains t)).length := by rw [← hi.card t]; exact hmany
  have hpages := (hi.shows.exec (chainEntries t)).1
  rw [run_chainEntries hi.layout t] at hpages
  have hflat : ((chains t).map (contents m)).flatten = members m (chains t) := List.flatMap_def.symm
  -- one page would hold them all
  have hone : ∃ es, ((chains t).map (contents m)).find? (fun es => !es.isEmpty) = some es ∧
      ∀ rid ∈ members m (chains t), rid ∈ es := by
    obtain ⟨first, hfirst⟩ := List.exists_mem_of_length_pos (Nat.lt_of_le_of_lt (Nat.zero_le _) hlen)
    obtain ⟨es, hes, -⟩ := hall first _ hpages (by rwa [hflat])
    refine ⟨es, hes, fun rid hrid => ?_⟩
    obtain ⟨es', hes', hmem⟩ := hall rid _ hpages (by rwa [hflat])
    rw [hes] at hes'
    cases hes'
    exact hmem
  obtain ⟨es, hes, hsub⟩ := hone
  obtain ⟨p, -, rfl⟩ := List.mem_map.1 (List.mem_of_find?_eq_some hes)
  have hle := (hlist.subperm hsub).length_le
  have := contents_length_le m p
  omega

/-- With one entry more than a page holds, some removal does not survive: the donor's page has been
    written, the page with the hole has not. -/
theorem remove_cut_loses : ¬ ∀ (calls : List LabelCall) (s : SpaceState),
    SpaceRuns (.empty DatabaseFile.createInMemory) calls s → ∀ (c : LabelCall),
      ∀ db ∈ c.prog.execCuts s.db, Survives (c.kept (s.bags c.typeId)) c.typeId db := by
  intro hall
  obtain ⟨m, hd, hc, hh, hz⟩ := newFile_shows (.inr rfl)
  have hpos : 0 < m.count := by rw [hc]; decide
  have hroot : m.header.labelIndexRoot = NO_ROOT := by rw [hh]; rfl
  obtain ⟨rids, hrids⟩ : ∃ rids, rids = (List.range 682).map fun i => (⟨1, UInt16.ofNat i⟩ : RecordId) :=
    ⟨_, rfl⟩
  have hlen : rids.length = 682 := by simp [hrids]
  have hnd : rids.Nodup := by
    rw [hrids]
    refine List.Nodup.map_on (fun i hi j hj hij => ?_) List.nodup_range
    have hslot := congrArg (fun r : RecordId => r.slotId.toNat) hij
    have hi := List.mem_range.1 hi
    have hj := List.mem_range.1 hj
    simpa [UInt16.toNat_ofNat', Nat.mod_eq_of_lt (show i < 65536 by omega),
      Nat.mod_eq_of_lt (show j < 65536 by omega)] using hslot
  obtain ⟨s, m', roots', chains', hruns, hi, hcard, hbag⟩ :=
    (SpaceInv.empty hd hz hpos hroot).exists_runs 1 rids
      (by rw [hc, hlen]; show 1 + 3 * 682 + 1 < 4294967296; omega)
  obtain ⟨rid, hrid⟩ := hi.exists_behind (t := 1)
    (by rw [hbag]; simpa [SpaceState.empty] using hnd)
    (by rw [hcard, hlen]; show 681 < 0 + 682; omega)
  exact hrid ((hi.cuts_iff (.remove 1 rid)).1 (hall _ s hruns (.remove 1 rid)))

end LabelIndex

end ChiffonDB

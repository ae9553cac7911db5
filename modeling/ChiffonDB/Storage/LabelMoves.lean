import ChiffonDB.Storage.LabelLayout

/-!
# Relinking a label chain

* `yields_promoteSpare` — a full head moves behind the spares that its first spare names.
* `yields_promoteFirstNonEmpty` — the first page with entries that is found behind an empty head
  moves to the front.

**No page leaves the chain and no entry changes**, whichever page of the chain a record names.
-/

set_option autoImplicit false

namespace ChiffonDB

namespace LabelIndex

open Threads

variable {m m' : PageMap}

theorem contents_set (m : PageMap) (p : UInt32) (d : PageData) :
    contents (m.set p d) = Function.update (contents m) p (entries d) := by
  funext q
  by_cases hq : q = p
  · subst hq
    rw [Function.update_self, contents_eq (m.set_pages_self q d)]
  · rw [Function.update_of_ne hq]
    exact (page_congr (m.set_pages_of_ne hq d)).2.1

theorem spareTail_set (m : PageMap) (p : UInt32) (d : PageData) :
    spareTail (m.set p d) = Function.update (spareTail m) p (readSpareTail d) := by
  funext q
  by_cases hq : q = p
  · subst hq
    rw [Function.update_self, spareTail_eq (m.set_pages_self q d)]
  · rw [Function.update_of_ne hq]
    exact (page_congr (m.set_pages_of_ne hq d)).2.2.2

theorem spareTail_of_contents {p : UInt32} (h : contents m p ≠ []) : spareTail m p = none := by
  cases hs : spareTail m p with
  | none => rfl
  | some t =>
    obtain ⟨page, hpage, ht⟩ := Option.bind_eq_some_iff.1 hs
    rw [contents_eq hpage] at h
    exact absurd (entries_eq_nil.2 (readCount_of_readSpareTail ht)) h

/-- Only links and end-of-run records of the pages `own` have changed. -/
structure Relinked (m m' : PageMap) (own : List UInt32) : Prop where
  count : m'.count = m.count
  header : m'.header = m.header
  pages : ∀ p, p ∉ own → m'.pages p = m.pages p
  contents : contents m' = contents m
  isSome : ∀ p, (m.pages p).isSome → (m'.pages p).isSome

theorem Relinked.refl (m : PageMap) (own : List UInt32) : Relinked m m own :=
  ⟨rfl, rfl, fun _ _ => rfl, rfl, fun _ h => h⟩

/-- One more page written. -/
theorem Relinked.set {own : List UInt32} (h : Relinked m m' own) {p : UInt32} {page d : PageData}
    (hp : p ∈ own) (hpage : m'.pages p = some page) (hd : entries d = entries page) :
    Relinked m (m'.set p d) own where
  count := h.count
  header := h.header
  pages q hq := by
    have hne : q ≠ p := by
      rintro rfl
      exact hq hp
    rw [m'.set_pages_of_ne hne, h.pages q hq]
  contents := by
    rw [contents_set, hd, ← contents_eq hpage, Function.update_eq_self]
    exact h.contents
  isSome q hq := by
    by_cases hqp : q = p
    · rw [hqp, m'.set_pages_self]
      rfl
    · rw [m'.set_pages_of_ne hqp]
      exact h.isSome q hq

theorem entries_writeSpareTail_of_empty {page : PageData} (h : readCount page = 0) (tail : UInt32) :
    entries (writeSpareTail page tail) = entries page := by
  rw [entries_eq_nil.2 h, entries_eq_nil, readCount_writeSpareTail, h]

/-- Relinked pages in another order are a chain again. -/
theorem ChainAt.reorder {pids pids' : List UInt32} (h : ChainAt m pids) (hperm : pids'.Perm pids)
    (hr : Relinked m m' pids) (hlinks : Threads (nextOf m') pids'.head? pids' none)
    (hhints : ∀ p ∈ pids'.tail, ∀ t, spareTail m' p = some t → t ∈ pids) : ChainAt m' pids' where
  links := hlinks
  nodup := hperm.nodup_iff.2 h.nodup
  inUse p hp := (h.inUse p (hperm.mem_iff.1 hp)).congr (by rw [hr.count]) (hr.isSome p)
  hints p hp t ht := hperm.mem_iff.2 (hhints p hp t ht)

/-! ## A full head -/

/-- The full head `h` behind the part `l ++ [x]` that followed it. -/
theorem ChainAt.rotate {h x : UInt32} {l bs : List UInt32} (hc : ChainAt m (h :: (l ++ [x] ++ bs)))
    (hfull : contents m h ≠ []) (hr : Relinked m m' (h :: (l ++ [x] ++ bs)))
    (hnext : nextOf m' = Function.update (Function.update (nextOf m) h (nextOf m x)) x (some h))
    (hhints : ∀ p t, spareTail m' p = some t → spareTail m p = some t ∨ t ∈ h :: (l ++ [x] ++ bs)) :
    ChainAt m' (l ++ [x] ++ h :: bs) := by
  have hrot := Threads.rotate hc.links hc.nodup
  rw [← hnext] at hrot
  have hperm : (l ++ [x] ++ h :: bs).Perm (h :: (l ++ [x] ++ bs)) := List.perm_middle
  refine hc.reorder hperm hr ?_ ?_
  · rw [← hrot.start_eq]
    exact hrot
  · intro p hp t ht
    rcases hhints p t ht with ht | ht
    · have hmem := hperm.mem_iff.1 (List.mem_of_mem_tail hp)
      rcases List.mem_cons.1 hmem with rfl | hmem
      · rw [spareTail_of_contents hfull] at ht
        cases ht
      · exact hc.hints p hmem t ht
    · exact ht

/-- The spare `s` has left the run `s :: ss`: its record told where the run ends, if it named an empty
    page, and the next spare has taken it over. -/
structure RecordMoved (m m' : PageMap) (s : UInt32) (ss bs : List UInt32) : Prop where
  followed : ∀ t, spareTail m s = some t → (t = s ∨ t ∈ ss ++ bs ∧ contents m t = []) →
    (s :: ss).getLast? = some t
  handed : ∀ s2, ss.head? = some s2 → contents m s2 = [] → spareTail m' s2 = (s :: ss).getLast?

/-- What `promote_spare` does to the chain `h :: rest`. -/
def SparePromoted (m : PageMap) (h : UInt32) (rest : List UInt32) (r : Option UInt32) (m' : PageMap) :
    Prop :=
  match r with
  | none => m' = m ∧ ∀ s, rest.head? = some s → contents m s ≠ []
  | some s => ∃ ss bs, rest = s :: (ss ++ bs) ∧ contents m s = [] ∧ Relinked m m' (h :: rest) ∧
      ChainAt m' (s :: (ss ++ h :: bs)) ∧ RecordMoved m m' s ss bs

/-- The page that ends the run of spares: `s1` itself, or the empty page that its record names. -/
theorem yields_spareRunEnd {h s1 : UInt32} {rest : List UInt32} {s1Page : PageData}
    (hc : ChainAt m (h :: s1 :: rest)) (hs1Page : m.pages s1 = some s1Page) :
    (spareRunEnd h s1 s1Page).Yields m fun tail m' => m' = m ∧
      (tail = s1 ∨ tail ∈ rest ∧ contents m tail = []) ∧
      ∀ t, spareTail m s1 = some t → (t = s1 ∨ t ∈ rest ∧ contents m t = []) → tail = t := by
  rw [spareTail_eq hs1Page]
  unfold spareRunEnd
  cases ht : readSpareTail s1Page with
  | none => exact .pure ⟨rfl, .inl rfl, by simp⟩
  | some t =>
    have hmem : t ∈ h :: s1 :: rest := hc.hints s1 (by simp) t (by rw [spareTail_eq hs1Page, ht])
    by_cases hne : t ≠ s1 ∧ t ≠ h
    · have hrest : t ∈ rest := by simpa [hne.1, hne.2] using hmem
      obtain ⟨page, hpage⟩ := (hc.inUse t (by simp [hrest])).get
      dsimp only
      rw [if_pos hne]
      refine .read hpage (.pure ⟨rfl, ?_⟩)
      split
      case isTrue hempty =>
        exact ⟨.inr ⟨hrest, by rw [contents_eq hpage, entries_eq_nil, hempty]⟩, by simp⟩
      case isFalse hfull =>
        refine ⟨.inl rfl, ?_⟩
        rintro u hu (rfl | ⟨-, hempty⟩)
        · rfl
        · cases hu
          rw [contents_eq hpage, entries_eq_nil] at hempty
          exact absurd hempty hfull
    · dsimp only
      rw [if_neg hne]
      refine .pure ⟨rfl, .inl rfl, ?_⟩
      rintro u hu (rfl | ⟨hmem, -⟩)
      · rfl
      · cases hu
        have hth : t ≠ h := fun he => (List.nodup_cons.1 hc.nodup).1 (by simp [← he, hmem])
        exact (not_not.1 fun h1 => hne ⟨fun h2 => h1 h2.symm, hth⟩)

theorem yields_promoteSpare {h : UInt32} {rest : List UInt32} (hc : ChainAt m (h :: rest))
    (hfull : contents m h ≠ []) : (promoteSpare h).Yields m (SparePromoted m h rest) := by
  obtain ⟨headPage, hhead⟩ := (hc.inUse h (by simp)).get
  unfold promoteSpare
  refine .read hhead ?_
  have hrest := hc.links.2
  rw [nextOf_eq hhead] at hrest
  have hstart := hrest.start_eq
  by_cases hnone : readNext headPage = NO_ROOT
  · rw [if_pos hnone]
    rw [linkOf_eq_none.2 hnone] at hstart
    exact .pure ⟨rfl, fun s hs => by rw [← hstart] at hs; cases hs⟩
  rw [if_neg hnone]
  rw [linkOf_of_ne hnone] at hstart
  cases rest with
  | nil => cases hstart
  | cons s1 rest =>
    have hs1 : readNext headPage = s1 := Option.some.inj hstart
    rw [hs1]
    obtain ⟨s1Page, hs1Page⟩ := (hc.inUse s1 (by simp)).get
    refine .read hs1Page ?_
    by_cases hempty : readCount s1Page = 0
    case neg =>
      rw [if_pos hempty]
      refine .pure ⟨rfl, ?_⟩
      rintro s hs
      cases hs
      rwa [contents_eq hs1Page, Ne, entries_eq_nil]
    rw [if_neg (not_not.2 hempty)]
    have hcontents : contents m s1 = [] := by rw [contents_eq hs1Page, entries_eq_nil, hempty]
    have hlinkh : linkOf h = some h := linkOf_of_ne (hc.inUse h (by simp)).ne_noRoot
    have hhs1 : s1 ≠ h := fun he => (List.nodup_cons.1 hc.nodup).1 (by simp [he])
    refine .bind (yields_spareRunEnd hc hs1Page) ?_
    rintro tail m₁ ⟨hm₁, htail, hfollow⟩
    rw [hm₁]
    by_cases hts : tail = s1
    · -- the run is `s1` alone
      rw [if_pos hts]
      refine .write (by rw [hhead]; rfl) (.write (by rw [PageMap.set_pages_of_ne _ hhs1, hs1Page]; rfl) ?_)
      refine .pure ⟨[], rest, rfl, hcontents, ?_⟩
      have hs1Page' : (m.set h (writeNext headPage (readNext s1Page))).pages s1 = some s1Page := by
        rw [PageMap.set_pages_of_ne _ hhs1, hs1Page]
      have hr := ((Relinked.refl m (h :: s1 :: rest)).set (by simp) hhead
        (entries_writeNext headPage (readNext s1Page))).set (by simp) hs1Page' (entries_writeNext s1Page h)
      refine ⟨hr, ChainAt.rotate (l := []) hc hfull hr ?_ ?_, ⟨fun t ht h => ?_, by simp⟩⟩
      · rw [nextOf_set, nextOf_set, readNext_writeNext, readNext_writeNext, hlinkh, nextOf_eq hs1Page]
      · intro p t ht
        rw [spareTail_set, spareTail_set, readSpareTail_writeNext, readSpareTail_writeNext,
          ← spareTail_eq hhead, ← spareTail_eq hs1Page, Function.update_eq_self, Function.update_eq_self] at ht
        exact .inl ht
      · rw [← hfollow t ht (by simpa using h), hts]
        rfl
    · -- the run ends at `tail`, further behind
      rw [if_neg hts]
      obtain ⟨htail, htailEmpty⟩ := htail.resolve_left hts
      obtain ⟨ss, bs, rfl⟩ := List.append_of_mem htail
      have hth : tail ≠ h := fun he => (List.nodup_cons.1 hc.nodup).1 (by simp [he])
      obtain ⟨tailPage, htailPage⟩ := (hc.inUse tail (by simp)).get
      refine .read htailPage (.write (by rw [hhead]; rfl) ?_)
      obtain ⟨m₂, hm₂⟩ : ∃ m₂, m₂ = m.set h (writeNext headPage (readNext tailPage)) := ⟨_, rfl⟩
      rw [← hm₂]
      have htailPage₂ : m₂.pages tail = some tailPage := by rw [hm₂, PageMap.set_pages_of_ne _ hth, htailPage]
      refine .write (by rw [htailPage₂]; rfl) ?_
      obtain ⟨m₃, hm₃⟩ : ∃ m₃, m₃ = m₂.set tail (writeNext tailPage h) := ⟨_, rfl⟩
      rw [← hm₃]
      have hr₂ : Relinked m m₂ (h :: s1 :: (ss ++ tail :: bs)) := by
        rw [hm₂]
        exact (Relinked.refl m _).set (by simp) hhead (entries_writeNext _ _)
      have hr₃ : Relinked m m₃ (h :: s1 :: (ss ++ tail :: bs)) := by
        rw [hm₃]
        exact hr₂.set (by simp) htailPage₂ (entries_writeNext _ _)
      have hnext₃ : nextOf m₃ = Function.update (Function.update (nextOf m) h (nextOf m tail)) tail (some h) := by
        rw [hm₃, nextOf_set, hm₂, nextOf_set, readNext_writeNext, readNext_writeNext, hlinkh,
          nextOf_eq htailPage]
      have hspare₃ : spareTail m₃ = spareTail m := by
        rw [hm₃, spareTail_set, hm₂, spareTail_set, readSpareTail_writeNext, readSpareTail_writeNext,
          ← spareTail_eq hhead, Function.update_eq_self, ← spareTail_eq htailPage, Function.update_eq_self]
      -- the page behind `s1` leads the rest of the run
      have hs2 : (ss ++ [tail]).head? = some (readNext s1Page) := by
        have hnext := Threads.next_eq (show Threads (nextOf m) _ ([h] ++ s1 :: (ss ++ tail :: bs)) none from hc.links)
        rw [nextOf_eq hs1Page] at hnext
        have hne : readNext s1Page ≠ NO_ROOT := by
          intro he
          rw [linkOf_eq_none.2 he] at hnext
          cases ss <;> cases hnext
        rw [linkOf_of_ne hne] at hnext
        cases ss with
        | nil => exact hnext.symm
        | cons s ss => exact hnext.symm
      have hs2mem : readNext s1Page ∈ h :: s1 :: (ss ++ tail :: bs) := by
        rcases List.mem_append.1 (List.mem_of_mem_head? hs2) with hm | hm
        · simp [hm]
        · simp [List.mem_singleton.1 hm]
      obtain ⟨s2Page, hs2Page⟩ : ∃ s2Page, m₃.pages (readNext s1Page) = some s2Page :=
        Option.isSome_iff_exists.1 (hr₃.isSome _ (hc.inUse _ hs2mem).isSome)
      refine .read hs2Page ?_
      have hsplit : h :: (s1 :: ss ++ [tail] ++ bs) = h :: s1 :: (ss ++ tail :: bs) := by simp
      have hdone : ∀ {m' : PageMap}, Relinked m m' (h :: s1 :: (ss ++ tail :: bs)) →
          nextOf m' = nextOf m₃ → (∀ p t, spareTail m' p = some t → spareTail m p = some t ∨
            t ∈ h :: s1 :: (ss ++ tail :: bs)) →
          (contents m (readNext s1Page) = [] → spareTail m' (readNext s1Page) = some tail) →
          SparePromoted m h (s1 :: (ss ++ tail :: bs)) (some s1) m' := by
        intro m' hr hnext hhints hhanded
        rw [← hsplit] at hr hhints
        have hc' := hc
        rw [← hsplit] at hc'
        have hrot := hc'.rotate hfull hr (by rw [hnext, hnext₃]) hhints
        rw [hsplit] at hr
        have hlast : (s1 :: (ss ++ [tail])).getLast? = some tail := by
          rw [← List.cons_append, List.getLast?_concat]
        refine ⟨ss ++ [tail], bs, by simp, hcontents, hr, by simpa using hrot, ?_, ?_⟩
        · intro t ht h
          rw [hlast, hfollow t ht (by simpa using h)]
        · intro s2 hs2' hs2Empty
          rw [hs2] at hs2'
          cases hs2'
          rw [hlast, hhanded hs2Empty]
      by_cases hs2Empty : readCount s2Page = 0
      · rw [if_pos hs2Empty]
        refine .write (by rw [hs2Page]; rfl) (.pure (hdone ?_ ?_ ?_ fun _ => ?_))
        · exact hr₃.set hs2mem hs2Page (entries_writeSpareTail_of_empty hs2Empty tail)
        · rw [nextOf_set, readNext_writeSpareTail, ← nextOf_eq hs2Page, Function.update_eq_self]
        · intro p t ht
          rw [spareTail_set] at ht
          by_cases hp : p = readNext s1Page
          · rw [hp, Function.update_self,
              readSpareTail_writeSpareTail s2Page hs2Empty (hc.inUse tail (by simp)).ne_noRoot] at ht
            cases ht
            exact .inr (by simp)
          · rw [Function.update_of_ne hp, hspare₃] at ht
            exact .inl ht
        · rw [spareTail_set, Function.update_self,
            readSpareTail_writeSpareTail s2Page hs2Empty (hc.inUse tail (by simp)).ne_noRoot]
      · rw [if_neg hs2Empty]
        refine .pure (hdone hr₃ rfl (fun p t ht => ?_) fun hnil => ?_)
        · rw [hspare₃] at ht
          exact .inl ht
        · rw [← hr₃.contents, contents_eq hs2Page, entries_eq_nil] at hnil
          exact absurd hnil hs2Empty

/-! ## An empty head -/

/-- The fallback walk finds the first page with entries. -/
theorem run_walkToEntries {rest : List UInt32} (steps : Nat) {last next : UInt32}
    (hlast : contents m last = []) (hlinks : Threads (nextOf m) (linkOf next) rest none)
    (huse : ∀ p ∈ rest, InUse m p) (hex : ∃ p ∈ rest, contents m p ≠ []) (hlen : rest.length ≤ steps) :
    ∃ l x d bs, (walkToEntries steps last next).run m = (.ok (x, d), m) ∧
      last :: rest = l ++ [x] ++ d :: bs ∧ contents m x = [] ∧ contents m d ≠ [] := by
  induction rest generalizing steps last next with
  | nil =>
    obtain ⟨p, hp, -⟩ := hex
    cases hp
  | cons q rest ih =>
    obtain ⟨hq, hrest⟩ := hlinks
    cases steps with
    | zero => cases hlen
    | succ steps =>
      have hne : next ≠ NO_ROOT := by
        intro he
        rw [linkOf_eq_none.2 he] at hq
        cases hq
      rw [linkOf_of_ne hne] at hq
      have hnq : next = q := Option.some.inj hq
      subst hnq
      obtain ⟨page, hpage⟩ := (huse next (by simp)).get
      rw [walkToEntries, if_neg hne, Prog.run_bind, Prog.run_read hpage, Prog.andThen_ok]
      by_cases hcount : readCount page = 0
      · have hempty : contents m next = [] := by rw [contents_eq hpage, entries_eq_nil, hcount]
        have hex' : ∃ p ∈ rest, contents m p ≠ [] := by
          obtain ⟨p, hp, hpne⟩ := hex
          rcases List.mem_cons.1 hp with rfl | hp
          · exact absurd hempty hpne
          · exact ⟨p, hp, hpne⟩
        rw [nextOf_eq hpage] at hrest
        obtain ⟨l, x, d, bs, hrun, hsplit, hx, hd⟩ :=
          ih steps hempty hrest (fun p hp => huse p (by simp [hp])) hex' (Nat.le_of_succ_le_succ hlen)
        rw [if_neg (not_not.2 hcount)]
        exact ⟨last :: l, x, d, bs, hrun, by simp [hsplit], hx, hd⟩
      · rw [if_pos hcount]
        refine ⟨[], last, next, rest, rfl, rfl, hlast, ?_⟩
        rw [contents_eq hpage, Ne, entries_eq_nil]
        exact hcount

/-- A record is used only if it leads to a page with entries right behind an empty one. -/
theorem yields_endOfSpareRun {pids : List UInt32} {first : UInt32} {firstPage : PageData}
    (hc : ChainAt m pids) (hfirst : first ∈ pids.tail) (hpage : m.pages first = some firstPage) :
    (endOfSpareRun first firstPage).Yields m fun r m' => m' = m ∧
      ∀ x d, r = some (x, d) → ∃ l bs, pids = l ++ [x] ++ d :: bs ∧ contents m x = [] ∧
        contents m d ≠ [] := by
  unfold endOfSpareRun
  cases ht : readSpareTail firstPage with
  | none => exact .pure ⟨rfl, by simp⟩
  | some t =>
    have hmem : t ∈ pids := hc.hints first hfirst t (by rw [spareTail_eq hpage, ht])
    obtain ⟨page, htPage⟩ := (hc.inUse t hmem).get
    have hread : (readUnless first firstPage t).run m = (.ok page, m) := by
      unfold readUnless
      by_cases hfirst : t = first
      · rw [if_pos hfirst, Prog.run_pure]
        rw [hfirst, hpage] at htPage
        cases htPage
        rfl
      · rw [if_neg hfirst]
        exact Prog.run_read htPage
    refine .bind_run hread ?_
    by_cases hstop : readCount page ≠ 0 ∨ readNext page = NO_ROOT
    · rw [if_pos hstop]
      exact .pure ⟨rfl, by simp⟩
    rw [if_neg hstop]
    obtain ⟨hcount, hne⟩ := not_or.1 hstop
    obtain ⟨l, bs, rfl⟩ := List.append_of_mem hmem
    have hnext := Threads.next_eq hc.links
    rw [nextOf_eq htPage, linkOf_of_ne hne] at hnext
    cases bs with
    | nil => cases hnext
    | cons d bs =>
      have hd : readNext page = d := Option.some.inj hnext
      obtain ⟨dPage, hdPage⟩ := (hc.inUse d (by simp)).get
      rw [hd]
      refine .read hdPage ?_
      by_cases hempty : readCount dPage = 0
      · rw [if_pos hempty]
        exact .pure ⟨rfl, by simp⟩
      · rw [if_neg hempty]
        refine .pure ⟨rfl, ?_⟩
        rintro x d' he
        cases he
        refine ⟨l, bs, by simp, ?_, ?_⟩
        · rw [contents_eq htPage, entries_eq_nil]
          exact not_not.1 hcount
        · rw [contents_eq hdPage, Ne, entries_eq_nil]
          exact hempty

theorem yields_firstNonEmpty {h first : UInt32} {rest : List UInt32} {firstPage : PageData}
    (hc : ChainAt m (h :: first :: rest)) (hh : contents m h = [])
    (hpage : m.pages first = some firstPage) (hex : ∃ p ∈ first :: rest, contents m p ≠ []) :
    (firstNonEmpty h first firstPage).Yields m fun r m' => m' = m ∧
      ∃ l bs, h :: first :: rest = l ++ [r.1] ++ r.2 :: bs ∧ contents m r.1 = [] ∧
        contents m r.2 ≠ [] := by
  unfold firstNonEmpty
  by_cases hcount : readCount firstPage = 0
  case neg =>
    rw [if_pos hcount]
    refine .pure ⟨rfl, [], rest, rfl, hh, ?_⟩
    rw [contents_eq hpage, Ne, entries_eq_nil]
    exact hcount
  rw [if_neg (not_not.2 hcount)]
  refine .bind (yields_endOfSpareRun hc (by simp) hpage) ?_
  rintro r m₁ ⟨hm₁, hfound⟩
  rw [hm₁]
  cases r with
  | some found => exact .pure ⟨rfl, hfound _ _ rfl⟩
  | none =>
    refine .count ?_
    have hempty : contents m first = [] := by rw [contents_eq hpage, entries_eq_nil, hcount]
    have hex' : ∃ p ∈ rest, contents m p ≠ [] := by
      obtain ⟨p, hp, hne⟩ := hex
      rcases List.mem_cons.1 hp with rfl | hp
      · exact absurd hempty hne
      · exact ⟨p, hp, hne⟩
    have hlinks := hc.links.2.2
    rw [nextOf_eq hpage] at hlinks
    have hlen := length_le_count hc.nodup hc.inUse
    obtain ⟨l, x, d, bs, hrun, hsplit, hx, hd⟩ := run_walkToEntries m.count.toNat hempty hlinks
      (fun p hp => hc.inUse p (by simp [hp])) hex' (by simp at hlen; omega)
    exact .of_run hrun ⟨rfl, h :: l, bs, by simp [hsplit], hx, hd⟩

/-- The chain with the page `d` pulled to its front, once all links are written. -/
theorem LabelLayout.pulled {roots roots' : List UInt32} {chains : UInt16 → List UInt32}
    (hl : LabelLayout m roots chains) {t : UInt16} {h x d : UInt32} {l bs : List UInt32}
    (hhead : (chains t).head? = some h) (hsplit : chains t = l ++ [x] ++ d :: bs)
    (hroots : RootsAt m' roots' (Function.update (fun u => (chains u).head?) t (some d)))
    (hf : Changed m m' roots roots' (chains t)) (hsome : ∀ p ∈ chains t, (m'.pages p).isSome)
    (hnext : ∀ p ∈ chains t, nextOf m' p =
      Function.update (Function.update (nextOf m) d (some h)) x (nextOf m d) p)
    (hhints : ∀ p ∈ chains t, ∀ u, spareTail m' p = some u →
      u ∈ chains t ∨ p ∈ (chains t).tail ∧ spareTail m p = some u) :
    LabelLayout m' roots' (Function.update chains t (d :: (l ++ [x] ++ bs))) := by
  have hc := hl.chain t
  have hperm : (d :: (l ++ [x] ++ bs)).Perm (chains t) := by
    rw [hsplit]
    exact List.perm_middle.symm
  have hlinks := hc.links
  have hnd := hc.nodup
  rw [hhead, hsplit] at hlinks
  rw [hsplit] at hnd
  have hpull := Threads.pullFront hlinks hnd
  have hchain : ChainAt m' (d :: (l ++ [x] ++ bs)) := by
    refine ⟨hpull.congr fun p hp => hnext p (hperm.mem_iff.1 hp), hperm.nodup_iff.2 hc.nodup, ?_, ?_⟩
    · intro p hp
      exact (hc.inUse p (hperm.mem_iff.1 hp)).congr hf.count fun _ => hsome p (hperm.mem_iff.1 hp)
    · intro p hp u hu
      refine hperm.mem_iff.2 ?_
      rcases hhints p (hperm.mem_iff.1 (List.mem_of_mem_tail hp)) u hu with hmem | ⟨htail, hu⟩
      · exact hmem
      · exact hc.hints p htail u hu
  refine hl.replace hf hroots hchain (fun p hp => .inl (hperm.mem_iff.1 hp)) fun p hp hr => ?_
  have hmem := hperm.mem_iff.1 hp
  rcases hf.roots p hr with hr | hge
  · exact hl.apart t p hmem hr
  · exact absurd (hc.inUse p hmem).lt (Nat.not_lt.2 hge)

/-- **The first page with entries that is found behind an empty head becomes the head.** -/
theorem yields_promoteFirstNonEmpty {roots : List UInt32} {chains : UInt16 → List UInt32}
    (hl : LabelLayout m roots chains) {t : UInt16} {h : UInt32} {rest : List UInt32}
    (ht : chains t = h :: rest) (hempty : contents m h = []) (hex : ∃ p ∈ rest, contents m p ≠ []) :
    (promoteFirstNonEmpty t h).Yields m fun d m' => ∃ as bs roots', h :: rest = as ++ d :: bs ∧
      contents m d ≠ [] ∧ LabelLayout m' roots' (Function.update chains t (d :: (as ++ bs))) ∧
      Changed m m' roots roots' (h :: rest) ∧ (∀ p ∈ h :: rest, contents m' p = contents m p) ∧
      ∃ x, as.getLast? = some x ∧ contents m x = [] ∧ spareTail m' h = some x := by
  have hc := hl.chain t
  have hapart := hl.apart t
  rw [ht] at hc hapart
  obtain ⟨headPage, hhead⟩ := (hc.inUse h (by simp)).get
  unfold promoteFirstNonEmpty
  refine .read hhead ?_
  cases rest with
  | nil =>
    obtain ⟨p, hp, -⟩ := hex
    cases hp
  | cons first rest =>
    have hnext : linkOf (readNext headPage) = some first := by
      rw [← nextOf_eq hhead]
      exact hc.links.2.1
    have hne : readNext headPage ≠ NO_ROOT := by
      intro he
      rw [linkOf_eq_none.2 he] at hnext
      cases hnext
    rw [linkOf_of_ne hne] at hnext
    rw [if_neg hne, Option.some.inj hnext]
    obtain ⟨firstPage, hfirst⟩ := (hc.inUse first (by simp)).get
    refine .read hfirst (.bind (yields_firstNonEmpty hc hempty hfirst hex) ?_)
    rintro ⟨x, d⟩ m₀ ⟨hm₀, l, bs, hsplit, hx, hd⟩
    rw [hm₀]
    have hmem : ∀ p, p ∈ l ++ [x] ++ d :: bs → p ∈ h :: first :: rest := fun p hp => hsplit ▸ hp
    have hdMem := hmem d (by simp)
    have hxMem := hmem x (by simp)
    have hdx : x ≠ d := by
      have hnd := hc.nodup
      rw [hsplit] at hnd
      exact (List.nodup_append.1 hnd).2.2 x (by simp) d (by simp)
    have hdh : h ≠ d := by
      rintro rfl
      exact hd hempty
    have hlinkh : linkOf h = some h := linkOf_of_ne (hc.inUse h (by simp)).ne_noRoot
    obtain ⟨dPage, hdPage⟩ := (hc.inUse d hdMem).get
    refine .read hdPage (.write (by rw [hdPage]; rfl) ?_)
    obtain ⟨m₁, hm₁⟩ : ∃ m₁, m₁ = m.set d (writeNext dPage h) := ⟨_, rfl⟩
    rw [← hm₁]
    have hold₁ : ∀ p, p ≠ d → m₁.pages p = m.pages p := fun p hp => by rw [hm₁, m.set_pages_of_ne hp]
    have hc₁ : Changed m m₁ roots roots (chains t) := by
      rw [hm₁, ht]
      exact (Changed.refl m roots _).set (.inl hdMem) _
    have hroots₁ : RootsAt m₁ roots fun u => (chains u).head? := by
      refine hl.rooted.congr hc₁.count (by rw [hm₁]; rfl) fun p hp => hold₁ p ?_
      rintro rfl
      exact hapart p hdMem hp
    have hpos₁ : 0 < m₁.count := by rw [hm₁]; exact hl.pos
    refine .bind (yields_setHead hroots₁ (hc₁.zero hl.zero) hpos₁ t d) ?_
    rintro _ m₂ ⟨roots', hroots₂, hf₂⟩
    have hc₂ := hc₁.rooted hf₂
    have hold₂ : ∀ p ∈ h :: first :: rest, m₂.pages p = m₁.pages p := fun p hp =>
      hf₂.pages p (hc.inUse p hp).ne_zero (by rw [hm₁]; exact (hc.inUse p hp).lt_count) (hapart p hp)
    have hhead₂ : m₂.pages h = some headPage := by rw [hold₂ h (by simp), hold₁ h hdh, hhead]
    -- the links, contents and records of the chain so far
    have hfields₂ : ∀ p ∈ h :: first :: rest, nextOf m₂ p = Function.update (nextOf m) d (some h) p ∧
        contents m₂ p = contents m p ∧ spareTail m₂ p = spareTail m p ∧ (m₂.pages p).isSome := by
      intro p hp
      obtain ⟨hn, hcont, -, hs⟩ := page_congr (hold₂ p hp)
      rw [hn, hcont, hs, hold₂ p hp, hm₁, nextOf_set, contents_set, spareTail_set, readNext_writeNext,
        entries_writeNext, readSpareTail_writeNext, hlinkh, ← contents_eq hdPage, ← spareTail_eq hdPage,
        Function.update_eq_self, Function.update_eq_self]
      refine ⟨rfl, rfl, rfl, ?_⟩
      by_cases hpd : p = d
      · rw [hpd, m.set_pages_self]
        rfl
      · rw [m.set_pages_of_ne hpd]
        exact (hc.inUse p hp).isSome
    have hheadEmpty : readCount headPage = 0 := by
      rw [← entries_eq_nil, ← contents_eq hhead, hempty]
    have hrest : linkOf (readNext dPage) = nextOf m d := (nextOf_eq hdPage).symm
    have hdone : ∀ m₄ : PageMap, m₄.header = m₂.header → Changed m m₄ roots roots' (chains t) →
        (∀ p ∈ roots', m₄.pages p = m₂.pages p) → m₄.count = m₂.count →
        (∀ p ∈ h :: first :: rest, (m₄.pages p).isSome ∧ contents m₄ p = contents m p ∧
          nextOf m₄ p = Function.update (Function.update (nextOf m) d (some h)) x (nextOf m d) p ∧
          spareTail m₄ p = Function.update (spareTail m) h (some x) p) →
        ∃ as bs roots', h :: first :: rest = as ++ d :: bs ∧ contents m d ≠ [] ∧
          LabelLayout m₄ roots' (Function.update chains t (d :: (as ++ bs))) ∧
          Changed m m₄ roots roots' (h :: first :: rest) ∧
          (∀ p ∈ h :: first :: rest, contents m₄ p = contents m p) ∧
          ∃ x, as.getLast? = some x ∧ contents m x = [] ∧ spareTail m₄ h = some x := by
      intro m₄ hheader hc₄ hold₄ hcount hfields
      rw [← ht] at hfields
      have hrecord : spareTail m₄ h = some x := by
        rw [(hfields h (by rw [ht]; simp)).2.2.2, Function.update_self]
      refine ⟨l ++ [x], bs, roots', by rw [hsplit], hd, ?_, ht ▸ hc₄,
        fun p hp => (hfields p (ht ▸ hp)).2.1, x, List.getLast?_concat, hx, hrecord⟩
      refine hl.pulled (by rw [ht]; rfl) (ht.trans hsplit) ?_ hc₄ (fun p hp => (hfields p hp).1)
        (fun p hp => (hfields p hp).2.2.1) ?_
      · exact hroots₂.congr (by rw [hcount]) (by rw [hheader]) hold₄
      · intro p hp u hu
        rw [(hfields p hp).2.2.2] at hu
        by_cases hph : p = h
        · rw [hph, Function.update_self] at hu
          cases hu
          exact .inl (ht ▸ hxMem)
        · rw [Function.update_of_ne hph] at hu
          rw [ht] at hp ⊢
          exact .inr ⟨(List.mem_cons.1 hp).resolve_left hph, hu⟩
    have hroots' : ∀ q ∈ h :: first :: rest, ∀ p ∈ roots', p ≠ q := by
      rintro q hq p hp rfl
      rcases hc₂.roots p hp with hr | hge
      · exact hapart p hq hr
      · exact absurd (hc.inUse p hq).lt (Nat.not_lt.2 hge)
    by_cases hxh : x = h
    · -- the head is the empty page in front of `d`
      rw [if_neg (not_not.2 hxh)]
      refine .read hhead₂ ?_
      rw [if_pos hxh]
      refine .write (by rw [hhead₂]; rfl) (.pure (hdone _ rfl ?_ ?_ rfl ?_))
      · exact hc₂.set (.inl (by rw [ht]; simp)) _
      · exact fun p hp => PageMap.set_pages_of_ne _ (hroots' h (by simp) p hp) _
      · intro p hp
        obtain ⟨hn, hcont, hs, hsome⟩ := hfields₂ p hp
        rw [nextOf_set, contents_set, spareTail_set, readNext_writeSpareTail, readNext_writeNext, hrest,
          entries_writeSpareTail_of_empty (by rw [readCount_writeNext, hheadEmpty]), entries_writeNext,
          ← contents_eq hhead, readSpareTail_writeSpareTail _ (by rw [readCount_writeNext, hheadEmpty])
            (hc.inUse x hxMem).ne_noRoot, hxh]
        by_cases hph : p = h
        · rw [hph, PageMap.set_pages_self]
          simp
        · rw [PageMap.set_pages_of_ne _ hph]
          simp only [Function.update_of_ne hph]
          exact ⟨hsome, hcont, hn, hs⟩
    · rw [if_pos hxh]
      obtain ⟨xPage, hxPage⟩ := (hc.inUse x hxMem).get
      have hxPage₂ : m₂.pages x = some xPage := by rw [hold₂ x hxMem, hold₁ x hdx, hxPage]
      refine .read hxPage₂ (.write (by rw [hxPage₂]; rfl) ?_)
      obtain ⟨m₃, hm₃⟩ : ∃ m₃, m₃ = m₂.set x (writeNext xPage (readNext dPage)) := ⟨_, rfl⟩
      rw [← hm₃]
      have hhead₃ : m₃.pages h = some headPage := by
        rw [hm₃, PageMap.set_pages_of_ne _ (Ne.symm hxh), hhead₂]
      refine .read hhead₃ ?_
      rw [if_neg hxh]
      refine .write (by rw [hhead₃]; rfl) (.pure (hdone _ (by rw [hm₃]; rfl) ?_ ?_ (by rw [hm₃]; rfl) ?_))
      · rw [hm₃]
        exact (hc₂.set (.inl (ht ▸ hxMem)) _).set (.inl (by rw [ht]; simp)) _
      · intro p hp
        rw [PageMap.set_pages_of_ne _ (hroots' h (by simp) p hp), hm₃,
          PageMap.set_pages_of_ne _ (hroots' x hxMem p hp)]
      · intro p hp
        obtain ⟨hn, hcont, hs, hsome⟩ := hfields₂ p hp
        rw [nextOf_set, contents_set, spareTail_set, readNext_writeSpareTail,
          entries_writeSpareTail_of_empty hheadEmpty, ← contents_eq hhead₃, ← nextOf_eq hhead₃,
          readSpareTail_writeSpareTail _ hheadEmpty (hc.inUse x hxMem).ne_noRoot, Function.update_eq_self,
          Function.update_eq_self]
        have hsome₃ : (m₃.pages p).isSome := by
          rw [hm₃]
          by_cases hpx : p = x
          · rw [hpx, PageMap.set_pages_self]
            rfl
          · rw [PageMap.set_pages_of_ne _ hpx]
            exact hsome
        have hsome₄ : ((m₃.set h (writeSpareTail headPage x)).pages p).isSome := by
          by_cases hph : p = h
          · rw [hph, PageMap.set_pages_self]
            rfl
          · rw [PageMap.set_pages_of_ne _ hph]
            exact hsome₃
        have hfields₃ : nextOf m₃ p = Function.update (nextOf m₂) x (nextOf m d) p ∧
            contents m₃ p = contents m₂ p ∧ spareTail m₃ p = spareTail m₂ p := by
          rw [hm₃, nextOf_set, contents_set, spareTail_set, readNext_writeNext, hrest, entries_writeNext,
            readSpareTail_writeNext, ← contents_eq hxPage₂, ← spareTail_eq hxPage₂, Function.update_eq_self,
            Function.update_eq_self]
          exact ⟨rfl, rfl, rfl⟩
        refine ⟨hsome₄, by rw [hfields₃.2.1, hcont], ?_, ?_⟩
        · rw [hfields₃.1]
          by_cases hpx : p = x
          · rw [hpx, Function.update_self, Function.update_self]
          · rw [Function.update_of_ne hpx, Function.update_of_ne hpx, hn]
        · by_cases hph : p = h
          · rw [hph, Function.update_self, Function.update_self]
          · rw [Function.update_of_ne hph, Function.update_of_ne hph, hfields₃.2.2, hs]

end LabelIndex

end ChiffonDB

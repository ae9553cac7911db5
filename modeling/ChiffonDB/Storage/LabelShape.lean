import ChiffonDB.Storage.LabelMoves

/-!
# The shape of a label chain

A chain is its head, then empty spares, then full pages, and the first spare's record names the
last one.

* `Shaped` — the shape; `Shaped.congr`, `Shaped.cons_full`, `Shaped.reuse`, `Shaped.promote` — **what
  the index does to a chain keeps it**.
* `Reshaped` — the chain keeps its shape, and its length unless every page of it was full.
-/

set_option autoImplicit false

namespace ChiffonDB

namespace LabelIndex

/-- Head, spares, full pages. -/
def Shaped (m : PageMap) : List UInt32 → Prop
  | [] => True
  | _ :: rest => ∃ spares fulls, rest = spares ++ fulls ∧ (∀ p ∈ spares, contents m p = []) ∧
      (∀ p ∈ fulls, (contents m p).length = ENTRIES_PER_PAGE) ∧
      ∀ s, spares.head? = some s → spareTail m s = spares.getLast?

/-- Every page is full. -/
def AllFull (m : PageMap) (pids : List UInt32) : Prop :=
  ∀ p ∈ pids, (contents m p).length = ENTRIES_PER_PAGE

/-- A chain that had the shape has it still, on as many pages or, if all of them were full, on one
    more. -/
def Reshaped (m : PageMap) (old : List UInt32) (m' : PageMap) (pids : List UInt32) : Prop :=
  Shaped m old → Shaped m' pids ∧
    (pids.length = old.length ∨ pids.length = old.length + 1 ∧ AllFull m old)

variable {m m' : PageMap} {h : UInt32} {rest : List UInt32}

theorem contents_ne_nil_of_full {p : UInt32} (hf : (contents m p).length = ENTRIES_PER_PAGE) :
    contents m p ≠ [] := by
  intro hnil
  rw [hnil] at hf
  cases hf

theorem contents_length_le (m : PageMap) (p : UInt32) : (contents m p).length ≤ ENTRIES_PER_PAGE := by
  unfold contents
  cases m.pages p with
  | none => exact Nat.zero_le _
  | some page =>
    show (entries page).length ≤ _
    rw [length_entries]
    exact readCount_le page

/-- The shape depends on what the pages behind the head hold. -/
theorem Shaped.congr (hs : Shaped m (h :: rest))
    (hp : ∀ p ∈ rest, (contents m' p).length = (contents m p).length ∧
      (contents m p = [] → spareTail m' p = spareTail m p)) (h' : UInt32) :
    Shaped m' (h' :: rest) := by
  obtain ⟨spares, fulls, rfl, hspares, hfulls, hrecord⟩ := hs
  refine ⟨spares, fulls, rfl, fun p hm => ?_, fun p hm => ?_, fun s hhead => ?_⟩
  · rw [← List.length_eq_zero_iff, (hp p (by simp [hm])).1, hspares p hm]
    rfl
  · rw [(hp p (by simp [hm])).1, hfulls p hm]
  · have hm := List.mem_of_mem_head? hhead
    rw [(hp s (by simp [hm])).2 (hspares s hm), hrecord s hhead]

/-- Pages that stay keep the shape. -/
theorem Shaped.of_pages {pids : List UInt32} (hs : Shaped m pids)
    (hp : ∀ p ∈ pids, m'.pages p = m.pages p) : Shaped m' pids := by
  cases pids with
  | nil => trivial
  | cons h rest =>
    refine hs.congr (fun p hm => ?_) h
    obtain ⟨-, hcont, -, hspare⟩ := page_congr (hp p (List.mem_cons_of_mem _ hm))
    exact ⟨by rw [hcont], fun _ => hspare⟩

/-- Without spares behind a full head every page is full. -/
theorem Shaped.allFull (hs : Shaped m (h :: rest)) (hh : (contents m h).length = ENTRIES_PER_PAGE)
    (hfirst : ∀ s, rest.head? = some s → contents m s ≠ []) : AllFull m (h :: rest) := by
  obtain ⟨spares, fulls, rfl, hspares, hfulls, -⟩ := hs
  cases spares with
  | nil =>
    intro p hp
    rcases List.mem_cons.1 hp with rfl | hp
    · exact hh
    · exact hfulls p hp
  | cons s spares => exact absurd (hspares s (by simp)) (hfirst s rfl)

/-- A new head in front of full pages. -/
theorem AllFull.shaped_cons {pids : List UInt32} (hf : AllFull m pids)
    (hp : ∀ p ∈ pids, contents m' p = contents m p) (h : UInt32) : Shaped m' (h :: pids) :=
  ⟨[], pids, rfl, by simp, fun p hm => by rw [hp p hm, hf p hm], by simp⟩

/-- Two parts in front of a list without duplicates that end in the same element are the same. -/
theorem prefix_unique {α : Type} {a b c d : List α} {x : α} (hnd : (a ++ b).Nodup)
    (h : a ++ b = c ++ d) (ha : a.getLast? = some x) (hc : c.getLast? = some x) : a = c ∧ b = d := by
  obtain ⟨a, rfl⟩ := List.getLast?_eq_some_iff.1 ha
  obtain ⟨c, rfl⟩ := List.getLast?_eq_some_iff.1 hc
  have hnd' := hnd
  rw [h] at hnd'
  simp only [List.append_assoc, List.singleton_append] at h hnd hnd'
  have hxb := (List.nodup_cons.1 (List.nodup_append.1 hnd).2.1).1
  have hxa : x ∉ a := fun hm => (List.nodup_append.1 hnd).2.2 x hm x (by simp) rfl
  obtain ⟨rfl, -, rfl⟩ := (List.append_cons_inj_of_notMem hxa hxb).1 h
  exact ⟨rfl, rfl⟩

/-- The record of the first spare names the end of the run. -/
theorem Shaped.run_end {s : UInt32} {ss bs : List UInt32} (hs : Shaped m (h :: s :: (ss ++ bs)))
    (hempty : contents m s = []) (hmoved : RecordMoved m m' s ss bs) : ∃ spares fulls last,
      ss ++ bs = spares ++ fulls ∧ (∀ p ∈ s :: spares, contents m p = []) ∧
      (∀ p ∈ fulls, (contents m p).length = ENTRIES_PER_PAGE) ∧
      (s :: spares).getLast? = some last ∧ (s :: ss).getLast? = some last := by
  obtain ⟨spares, fulls, hsplit, hspares, hfulls, hrecord⟩ := hs
  cases spares with
  | nil =>
    rw [List.nil_append] at hsplit
    exact absurd hempty (contents_ne_nil_of_full (hfulls s (by simp [← hsplit])))
  | cons s' spares =>
    obtain ⟨rfl, hrest⟩ := List.cons.inj hsplit
    obtain ⟨last, hlast⟩ : ∃ last, (s :: spares).getLast? = some last :=
      ⟨_, List.getLast?_eq_some_getLast (by simp)⟩
    have hnamed : last = s ∨ last ∈ ss ++ bs ∧ contents m last = [] := by
      have hmem := List.mem_of_getLast? hlast
      rcases List.mem_cons.1 hmem with hls | hls
      · exact .inl hls
      · exact .inr ⟨by rw [hrest]; simp [hls], hspares last hmem⟩
    have hrun := hmoved.followed last (by rw [hrecord s rfl, hlast]) hnamed
    exact ⟨spares, fulls, last, hrest, hspares, hfulls, hlast, hrun⟩

/-- A full head goes behind that run. -/
theorem Shaped.reuse {s : UInt32} {ss bs : List UInt32} (hs : Shaped m (h :: s :: (ss ++ bs)))
    (hnd : (h :: s :: (ss ++ bs)).Nodup) (hh : (contents m h).length = ENTRIES_PER_PAGE)
    (hempty : contents m s = []) (hcont : contents m' = contents m)
    (hmoved : RecordMoved m m' s ss bs) (h' : UInt32) : Shaped m' (h' :: (ss ++ h :: bs)) := by
  obtain ⟨spares, fulls, last, hsplit, hspares, hfulls, hlast, hrun⟩ := hs.run_end hempty hmoved
  -- both runs start at `s` and end at `last`
  obtain ⟨hss, rfl⟩ : s :: ss = s :: spares ∧ bs = fulls :=
    prefix_unique (List.nodup_cons.1 hnd).2 (congrArg (s :: ·) hsplit) hrun hlast
  obtain rfl := (List.cons.inj hss).2
  refine ⟨ss, h :: bs, rfl, fun p hp => ?_, fun p hp => ?_, fun s2 hs2 => ?_⟩
  · rw [hcont]
    exact hspares p (by simp [hp])
  · rw [hcont]
    rcases List.mem_cons.1 hp with rfl | hp
    · exact hh
    · exact hfulls p hp
  · rw [hmoved.handed s2 hs2 (hspares s2 (by simp [List.mem_of_mem_head? hs2]))]
    cases ss with
    | nil => cases hs2
    | cons => rfl

/-- Behind the head, an empty page has only empty pages in front of it. -/
theorem Shaped.empty_before {p : UInt32} {as bs : List UInt32} (hs : Shaped m (h :: rest))
    (hsplit : rest = as ++ p :: bs) (hp : contents m p = []) : ∀ q ∈ as, contents m q = [] := by
  obtain ⟨spares, fulls, rfl, hspares, hfulls, -⟩ := hs
  rcases List.append_eq_append_iff.1 hsplit with ⟨c, rfl, rfl⟩ | ⟨c, rfl, -⟩
  · exact absurd hp (contents_ne_nil_of_full (hfulls p (by simp)))
  · exact fun q hq => hspares q (List.mem_append_left _ hq)

/-- The run that the first spare leads is empty. -/
theorem Shaped.run_empty {s : UInt32} {ss bs : List UInt32} (hs : Shaped m (h :: s :: (ss ++ bs)))
    (hempty : contents m s = []) (hmoved : RecordMoved m m' s ss bs) :
    ∀ p ∈ s :: ss, contents m p = [] := by
  obtain ⟨spares, fulls, last, -, hspares, -, hlast, hrun⟩ := hs.run_end hempty hmoved
  have hlastEmpty := hspares last (List.mem_of_getLast? hlast)
  obtain ⟨as, has⟩ := List.getLast?_eq_some_iff.1 hrun
  have hsplit : s :: (ss ++ bs) = as ++ last :: bs := by
    rw [← List.cons_append, has, List.append_assoc]
    rfl
  intro p hp
  rw [has] at hp
  rcases List.mem_append.1 hp with hp | hp
  · exact hs.empty_before hsplit hlastEmpty p hp
  · rw [List.mem_singleton.1 hp, hlastEmpty]

/-- So is what is in front of the first page with entries that is found behind an empty head. -/
theorem Shaped.empty_front {d x : UInt32} {as bs : List UInt32} (hs : Shaped m (h :: rest))
    (hsplit : h :: rest = as ++ d :: bs) (hh : contents m h = []) (hlast : as.getLast? = some x)
    (hx : contents m x = []) : ∀ p ∈ as, contents m p = [] := by
  obtain ⟨as, rfl⟩ := List.getLast?_eq_some_iff.1 hlast
  cases as with
  | nil => simpa using hx
  | cons h' as =>
    obtain ⟨rfl, hrest⟩ : h = h' ∧ rest = as ++ x :: d :: bs := by simpa using hsplit
    have hfront := hs.empty_before hrest hx
    intro p hp
    rcases List.mem_append.1 hp with hp | hp
    · rcases List.mem_cons.1 hp with rfl | hp
      · exact hh
      · exact hfront p hp
    · rw [List.mem_singleton.1 hp, hx]

/-- The page with entries behind the empty ones comes to the front. -/
theorem Shaped.promote {d : UInt32} {as bs : List UInt32} (hs : Shaped m (h :: rest))
    (hsplit : h :: rest = as ++ d :: bs) (hh : contents m h = []) (hd : contents m d ≠ [])
    (hcont : ∀ p ∈ h :: rest, contents m' p = contents m p) {x : UInt32}
    (hlast : as.getLast? = some x) (hx : contents m x = []) (hrecord : spareTail m' h = some x) :
    Shaped m' (d :: (as ++ bs)) := by
  obtain ⟨spares, fulls, rfl, hspares, hfulls, -⟩ := hs
  have hempties : ∀ p ∈ h :: spares, contents m p = [] := by
    intro p hp
    rcases List.mem_cons.1 hp with rfl | hp
    · exact hh
    · exact hspares p hp
  -- `x` is the last empty page and `d` the first full one
  obtain ⟨rfl, hbs⟩ : as = h :: spares ∧ d :: bs = fulls := by
    rw [← List.cons_append] at hsplit
    rcases List.append_eq_append_iff.1 hsplit with ⟨a, rfl, rfl⟩ | ⟨c, hc, hdbs⟩
    · cases a with
      | nil => exact ⟨by simp, by simp⟩
      | cons y a =>
        have hxa : x ∈ y :: a := by
          rw [List.getLast?_append_of_ne_nil _ (by simp)] at hlast
          exact List.mem_of_getLast? hlast
        exact absurd hx (contents_ne_nil_of_full (hfulls x (List.mem_append_left _ hxa)))
    · cases c with
      | nil => exact ⟨by simpa using hc.symm, by simpa using hdbs⟩
      | cons y c =>
        obtain ⟨rfl, -⟩ := List.cons.inj hdbs
        exact absurd (hempties d (by rw [hc]; simp)) hd
  refine ⟨h :: spares, bs, rfl, fun p hp => ?_, fun p hp => ?_, fun s hs => ?_⟩
  · rw [hcont p (by rw [← List.cons_append]; exact List.mem_append_left _ hp)]
    exact hempties p hp
  · rw [hcont p (by simp [← hbs, hp])]
    exact hfulls p (by simp [← hbs, hp])
  · cases hs
    rw [hrecord, hlast]

end LabelIndex

end ChiffonDB

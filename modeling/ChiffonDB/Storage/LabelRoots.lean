import ChiffonDB.Storage.LabelChain

/-!
# The root map of the label index

* `RootsAt` — the root pages and the head they record for each type.
* `run_headOf` — **looking up a head**.
* `run_setHead` — **recording a head changes this type's entry and no page outside the root chain**,
  or panics on a full file.
-/

set_option autoImplicit false

namespace ChiffonDB

namespace LabelIndex

open Threads

/-- The root pages, of which only the last has free slots, and the head found for each type. -/
structure RootsAt (m : PageMap) (roots : List UInt32) (heads : UInt16 → Option UInt32) : Prop where
  start : linkOf m.header.labelIndexRoot = roots.head?
  links : Threads (nextOf m) roots.head? roots none
  nodup : roots.Nodup
  inUse : ∀ p ∈ roots, InUse m p
  full : ∀ p ∈ roots.dropLast, (slotsOf m p).length = ROOT_SLOTS_PER_PAGE
  find : ∀ t, (roots.flatMap (slotsOf m)).find? (·.1 == t) = (heads t).map (t, ·)

variable {m : PageMap} {roots : List UInt32} {heads : UInt16 → Option UInt32}

/-- The root chain depends on its own pages only. -/
theorem RootsAt.congr {m' : PageMap} (h : RootsAt m roots heads)
    (hcount : m.count.toNat ≤ m'.count.toNat) (hroot : m'.header.labelIndexRoot = m.header.labelIndexRoot)
    (hp : ∀ p ∈ roots, m'.pages p = m.pages p) : RootsAt m' roots heads where
  start := by rw [hroot]; exact h.start
  links := h.links.congr fun p hp' => (page_congr (hp p hp')).1
  nodup := h.nodup
  inUse p hp' := (h.inUse p hp').congr hcount fun hs => by rw [hp p hp']; exact hs
  full p hp' := by
    rw [(page_congr (hp p (List.dropLast_subset _ hp'))).2.2.1]
    exact h.full p hp'
  find t := by
    have hslots : roots.flatMap (slotsOf m') = roots.flatMap (slotsOf m) := by
      rw [List.flatMap_def, List.flatMap_def]
      congr 1
      exact List.map_congr_left fun p hp' => (page_congr (hp p hp')).2.2.1
    rw [hslots]
    exact h.find t

theorem scan_visitHead (t : UInt16) (hp : ∀ p ∈ roots, InUse m p) :
    scan (visitHead t) m roots () = match (roots.flatMap (slotsOf m)).find? (·.1 == t) with
      | some (_, head) => .inl head
      | none => .inr () := by
  induction roots with
  | nil => rfl
  | cons p ps ih =>
    obtain ⟨page, hpage⟩ := (hp p (by simp)).get
    have hvisit : visitHead t () p page = match (slots page).find? (·.1 == t) with
      | some (_, head) => .inl head
      | none => .inr () := rfl
    rw [scan_cons hpage, hvisit, List.flatMap_cons, List.find?_append, slotsOf_eq hpage]
    cases (slots page).find? (·.1 == t) with
    | some x => rfl
    | none =>
      rw [Option.none_or]
      exact ih fun q hq => hp q (by simp [hq])

/-- **The head that the root pages record.** -/
theorem run_headOf (h : RootsAt m roots heads) (t : UInt16) :
    (headOf t).run m = (.ok (heads t), m) := by
  unfold headOf
  rw [Prog.run_bind, Prog.run_getHeader, Prog.andThen_ok]
  dsimp only
  by_cases hroot : m.header.labelIndexRoot = NO_ROOT
  · have hnil : roots = [] := by
      have := h.start
      rw [linkOf_eq_none.2 hroot] at this
      exact List.head?_eq_none_iff.1 this.symm
    have hnone := h.find t
    rw [hnil] at hnone
    rw [if_pos hroot]
    cases hh : heads t with
    | none => rfl
    | some head =>
      rw [hh] at hnone
      cases hnone
  · have hlinks := h.links
    rw [← h.start, linkOf_of_ne hroot] at hlinks
    have hlen := length_le_count h.nodup h.inUse
    rw [if_neg hroot, Prog.run_bind, Prog.run_count, Prog.andThen_ok, Prog.run_bind,
      run_walk _ hlinks h.inUse (Nat.le_succ_of_le hlen), Prog.andThen_ok, scan_visitHead t h.inUse, h.find t]
    cases heads t <;> rfl

/-! ## Recording a head -/

theorem slotIdx_eq_some {page : PageData} {t : UInt16} {i : Fin ENTRIES_PER_PAGE}
    (h : slotIdx page t = some i) : ∃ xs old ys, slots page = xs ++ (t, old) :: ys ∧
      xs.length = i.val ∧ ∀ x ∈ xs, x.1 ≠ t := by
  obtain ⟨j, hj, rfl⟩ := Option.map_eq_some_iff.1 h
  obtain ⟨ht, hfirst⟩ := List.findFinIdx?_eq_some_iff.1 hj
  have hsplit : slots page = (slots page).take j ++ (slots page)[j] :: (slots page).drop (j + 1) := by
    simp
  refine ⟨(slots page).take j, ((slots page)[j]).2, (slots page).drop (j + 1), ?_, ?_, ?_⟩
  · have hfst : ((slots page)[j]).1 = t := eq_of_beq ht
    have hpair : (slots page)[j] = (t, ((slots page)[j]).2) := by rw [← hfst]
    rw [← hpair]
    exact hsplit
  · rw [List.length_take, Nat.min_eq_left (Nat.le_of_lt j.isLt)]
    rfl
  · intro x hx hxt
    obtain ⟨k, hk, rfl⟩ := List.mem_iff_getElem.1 hx
    rw [List.length_take] at hk
    rw [List.getElem_take] at hxt
    have := hfirst ⟨k, by omega⟩ (by
      show k < j.val
      omega)
    exact this (by simpa using hxt)

theorem slotIdx_eq_none {page : PageData} {t : UInt16} (h : slotIdx page t = none) :
    ∀ x ∈ slots page, x.1 ≠ t := by
  intro x hx hxt
  have hnone := Option.map_eq_none_iff.1 h
  rw [List.findFinIdx?_eq_none_iff] at hnone
  exact hnone x hx (by simp [hxt])

/-- Where `set_head` records the head: over the type's slot, in the last page, or behind it. -/
inductive Place (m : PageMap) (roots : List UInt32) (t : UInt16) (head : UInt32) :
    (UInt32 × PageData) ⊕ (UInt32 × PageData) → Prop where
  | overwrite {ps qs : List UInt32} {p : UInt32} {page : PageData} {i : Fin ENTRIES_PER_PAGE}
      (hroots : roots = ps ++ p :: qs) (hpage : m.pages p = some page) (hi : slotIdx page t = some i)
      (hps : ∀ x ∈ ps.flatMap (slotsOf m), x.1 ≠ t) :
      Place m roots t head (.inl (p, writeRootSlot page i t head))
  | room {ps : List UInt32} {p : UInt32} {page : PageData} (hroots : roots = ps ++ [p])
      (hpage : m.pages p = some page) (hlt : readCount page < ROOT_SLOTS_PER_PAGE)
      (hno : ∀ x ∈ roots.flatMap (slotsOf m), x.1 ≠ t) :
      Place m roots t head
        (.inl (p, writeCount (writeRootSlot page ⟨readCount page, hlt⟩ t head) (readCount page + 1)))
  | behind {ps : List UInt32} {p : UInt32} {page : PageData} (hroots : roots = ps ++ [p])
      (hpage : m.pages p = some page) (hfull : readCount page = ROOT_SLOTS_PER_PAGE)
      (hno : ∀ x ∈ roots.flatMap (slotsOf m), x.1 ≠ t) : Place m roots t head (.inr (p, page))

theorem Place.cons {p : UInt32} {t : UInt16} {head : UInt32}
    {r : (UInt32 × PageData) ⊕ (UInt32 × PageData)} (hp : ∀ x ∈ slotsOf m p, x.1 ≠ t)
    (h : Place m roots t head r) : Place m (p :: roots) t head r := by
  have hcons : ∀ {ps : List UInt32}, (∀ x ∈ ps.flatMap (slotsOf m), x.1 ≠ t) →
      ∀ x ∈ (p :: ps).flatMap (slotsOf m), x.1 ≠ t := by
    intro ps hps x hx
    rw [List.flatMap_cons, List.mem_append] at hx
    exact hx.elim (hp x) (hps x)
  cases h with
  | @overwrite ps qs q page i hroots hpage hi hps =>
    have hsplit : p :: roots = (p :: ps) ++ q :: qs := by rw [hroots, List.cons_append]
    exact .overwrite hsplit hpage hi (hcons hps)
  | @room ps q page hroots hpage hlt hno =>
    have hsplit : p :: roots = (p :: ps) ++ [q] := by rw [hroots, List.cons_append]
    exact .room hsplit hpage hlt (hcons hno)
  | @behind ps q page hroots hpage hfull hno =>
    have hsplit : p :: roots = (p :: ps) ++ [q] := by rw [hroots, List.cons_append]
    exact .behind hsplit hpage hfull (hcons hno)

theorem scan_visitSetHead (t : UInt16) (head : UInt32) (hne : roots ≠ [])
    (hp : ∀ p ∈ roots, InUse m p) (hfull : ∀ p ∈ roots.dropLast, (slotsOf m p).length = ROOT_SLOTS_PER_PAGE)
    (s : UInt32 × PageData) : Place m roots t head (scan (visitSetHead t head) m roots s) := by
  induction roots generalizing s with
  | nil => exact absurd rfl hne
  | cons p ps ih =>
    obtain ⟨page, hpage⟩ := (hp p (by simp)).get
    rw [scan_cons hpage]
    unfold visitSetHead
    cases hidx : slotIdx page t with
    | some i => exact .overwrite (List.nil_append _).symm hpage hidx (by simp)
    | none =>
      have hno := slotIdx_eq_none hidx
      rw [← slotsOf_eq hpage] at hno
      dsimp only
      by_cases hnil : ps = []
      · subst hnil
        have hno' : ∀ x ∈ [p].flatMap (slotsOf m), x.1 ≠ t := by simpa using hno
        by_cases hlt : readCount page < ROOT_SLOTS_PER_PAGE
        · rw [dif_pos hlt]
          exact .room (List.nil_append _).symm hpage hlt hno'
        · rw [dif_neg hlt]
          have hle : readCount page ≤ ROOT_SLOTS_PER_PAGE := readCount_le page
          exact .behind (List.nil_append _).symm hpage (by omega) hno'
      · have hcount : readCount page = ROOT_SLOTS_PER_PAGE := by
          rw [← hfull p (by rw [List.dropLast_cons_of_ne_nil hnil]; simp), slotsOf_eq hpage, length_slots]
        rw [dif_neg (by omega)]
        refine .cons hno (ih hnil (fun q hq => hp q (by simp [hq])) (fun q hq => hfull q ?_) _)
        rw [List.dropLast_cons_of_ne_nil hnil]
        simp [hq]

/-- Overwriting the first slot of a type. -/
theorem find_over {xs : List (UInt16 × UInt32)} (ys : List (UInt16 × UInt32)) {t : UInt16} (hxs : ∀ x ∈ xs, x.1 ≠ t)
    (old head : UInt32) (u : UInt16) : (xs ++ (t, head) :: ys).find? (·.1 == u) =
      if u = t then some (t, head) else (xs ++ (t, old) :: ys).find? (·.1 == u) := by
  split
  case isTrue hu =>
    subst hu
    have hnone : xs.find? (·.1 == u) = none := List.find?_eq_none.2 fun x hx => by simpa using hxs x hx
    rw [List.find?_append, hnone]
    simp
  case isFalse hu =>
    have hne : (t == u) = false := beq_eq_false_iff_ne.2 (Ne.symm hu)
    simp [List.find?_append, hne]

/-- A slot behind the others. -/
theorem find_push {xs : List (UInt16 × UInt32)} {t : UInt16} (hxs : ∀ x ∈ xs, x.1 ≠ t) (head : UInt32)
    (u : UInt16) : (xs ++ [(t, head)]).find? (·.1 == u) =
      if u = t then some (t, head) else xs.find? (·.1 == u) := by
  split
  case isTrue hu =>
    subst hu
    have hnone : xs.find? (·.1 == u) = none := List.find?_eq_none.2 fun x hx => by simpa using hxs x hx
    rw [List.find?_append, hnone]
    simp
  case isFalse hu =>
    have hne : (t == u) = false := beq_eq_false_iff_ne.2 (Ne.symm hu)
    simp [List.find?_append, hne]

theorem update_map (heads : UInt16 → Option UInt32) (t : UInt16) (head : UInt32) (u : UInt16) :
    (Function.update heads t (some head) u).map (u, ·) =
      if u = t then some (t, head) else (heads u).map (u, ·) := by
  by_cases hu : u = t
  · subst hu
    simp
  · rw [Function.update_of_ne hu, if_neg hu]

theorem slotsOf_set_of_ne {p q : UInt32} (h : q ≠ p) (d : PageData) :
    slotsOf (m.set p d) q = slotsOf m q := (page_congr (m.set_pages_of_ne h d)).2.2.1

/-- The slots of all root pages after a write to one of them. -/
theorem flatMap_slotsOf_set {ps qs : List UInt32} {p : UInt32} (hnd : (ps ++ p :: qs).Nodup)
    (d : PageData) : (ps ++ p :: qs).flatMap (slotsOf (m.set p d)) =
      ps.flatMap (slotsOf m) ++ (slots d ++ qs.flatMap (slotsOf m)) := by
  obtain ⟨-, hpqs, hdisj⟩ := List.nodup_append.1 hnd
  obtain ⟨hp, -⟩ := List.nodup_cons.1 hpqs
  have hother : ∀ l : List UInt32, p ∉ l → l.flatMap (slotsOf (m.set p d)) = l.flatMap (slotsOf m) := by
    intro l hl
    rw [List.flatMap_def, List.flatMap_def]
    congr 1
    refine List.map_congr_left fun q hq => slotsOf_set_of_ne ?_ d
    rintro rfl
    exact hl hq
  rw [List.flatMap_append, List.flatMap_cons, hother ps fun hm => hdisj p hm p (by simp) rfl, hother qs hp,
    slotsOf_eq (m.set_pages_self p d)]

/-- Rewriting the slots of one root page. -/
theorem RootsAt.set (h : RootsAt m roots heads) {p : UInt32} {page d : PageData}
    (hpage : m.pages p = some page) (hnext : readNext d = readNext page)
    (hfull : p ∈ roots.dropLast → (slots d).length = ROOT_SLOTS_PER_PAGE)
    {heads' : UInt16 → Option UInt32} (hfind : ∀ u,
      (roots.flatMap (slotsOf (m.set p d))).find? (·.1 == u) = (heads' u).map (u, ·)) :
    RootsAt (m.set p d) roots heads' where
  start := h.start
  links := by
    have hself : nextOf (m.set p d) = nextOf m := by
      rw [nextOf_set, hnext, ← nextOf_eq hpage, Function.update_eq_self]
    rw [hself]
    exact h.links
  nodup := h.nodup
  inUse q hq := (h.inUse q hq).set p d
  full q hq := by
    by_cases hqp : q = p
    · subst hqp
      rw [slotsOf_eq (m.set_pages_self q d)]
      exact hfull hq
    · rw [slotsOf_set_of_ne hqp]
      exact h.full q hq
  find := hfind

/-- What recording a head leaves as it was. -/
structure RootFrame (m m' : PageMap) (roots roots' : List UInt32) : Prop where
  count : m.count.toNat ≤ m'.count.toNat
  zero : (m.pages 0).isSome → (m'.pages 0).isSome
  pages : ∀ p, p ≠ 0 → p < m.count → p ∉ roots → m'.pages p = m.pages p
  roots : ∀ p ∈ roots', p ∈ roots ∨ m.count ≤ p

theorem emptyPage_eq : readNext (writeCount (writeNext PageData.zero NO_ROOT) 0) = NO_ROOT ∧
    slots (writeCount (writeNext PageData.zero NO_ROOT) 0) = [] := by
  have hcount : readCount (writeCount (writeNext PageData.zero NO_ROOT) 0) = 0 :=
    readCount_writeCount _ (Nat.zero_le _)
  refine ⟨by simp, ?_⟩
  rw [← List.length_eq_zero_iff, length_slots, hcount]

/-- A root page, appended where there was none. -/
theorem yields_ensureRoot (h : RootsAt m roots heads) (hz : (m.pages 0).isSome) (hpos : 0 < m.count) :
    ensureRoot.Yields m fun _ m' => ∃ roots', roots' ≠ [] ∧ RootsAt m' roots' heads ∧
      RootFrame m m' roots roots' := by
  unfold ensureRoot
  refine .getHeader ?_
  by_cases hroot : m.header.labelIndexRoot = NO_ROOT
  · have hnil : roots = [] := by
      have := h.start
      rw [linkOf_eq_none.2 hroot] at this
      exact List.head?_eq_none_iff.1 this.symm
    subst hnil
    rw [if_pos hroot]
    unfold appendEmptyPage
    refine .append fun m₁ hpage hold hcount hheader => .getHeader ?_
    have hne : (0 : UInt32) ≠ m.count := fun he => absurd hpos (by rw [← he]; exact UInt32.lt_irrefl 0)
    have hz₁ : (m₁.pages 0).isSome := by rw [hold 0 hne]; exact hz
    refine .putHeader hz₁ fun m₂ hz₂ hpages hcount₂ hheader₂ => ?_
    have hlt : m.count < m₂.count := by
      rw [hcount₂, UInt32.lt_iff_toNat_lt]
      omega
    have hroot₂ : m₂.pages m.count = some (writeCount (writeNext PageData.zero NO_ROOT) 0) := by
      rw [hpages _ hne.symm, hpage]
    have huse : InUse m₂ m.count := ⟨hne.symm, hlt, by rw [hroot₂]; rfl⟩
    refine ⟨[m.count], by simp, ⟨?_, ⟨rfl, ?_⟩, by simp, ?_, by simp, ?_⟩, ⟨?_, fun _ => hz₂, ?_, ?_⟩⟩
    · rw [hheader₂]
      exact linkOf_of_ne huse.ne_noRoot
    · rw [nextOf_eq hroot₂, emptyPage_eq.1]
      exact linkOf_eq_none.2 rfl
    · intro p hp
      rw [List.mem_singleton.1 hp]
      exact huse
    · intro u
      have hu := h.find u
      rw [List.flatMap_cons, List.flatMap_nil, slotsOf_eq hroot₂, emptyPage_eq.2]
      exact hu
    · rw [hcount₂]
      omega
    · intro p hp hpc _
      rw [hpages p hp, hold p (fun he => absurd hpc (by rw [he]; exact UInt32.lt_irrefl _))]
    · intro p hp
      rw [List.mem_singleton.1 hp]
      exact .inr (UInt32.le_refl _)
  · rw [if_neg hroot]
    refine .pure ⟨roots, ?_, h, ⟨Nat.le_refl _, id, fun _ _ _ _ => rfl, fun p hp => .inl hp⟩⟩
    rintro rfl
    exact hroot (linkOf_eq_none.1 h.start)

theorem rootFrame_set {p : UInt32} (hp : p ∈ roots) (d : PageData) : RootFrame m (m.set p d) roots roots where
  count := Nat.le_refl _
  zero h := by
    by_cases hz : (0 : UInt32) = p
    · rw [← hz, m.set_pages_self]
      rfl
    · rw [m.set_pages_of_ne hz]
      exact h
  pages q _ _ hq := by
    refine m.set_pages_of_ne ?_ d
    rintro rfl
    exact hq hp
  roots q hq := .inl hq

/-- Writing the slot where the walk found its place. -/
theorem RootsAt.place (h : RootsAt m roots heads) {t : UInt16} {head p : UInt32} {d : PageData}
    (hplace : Place m roots t head (.inl (p, d))) :
    p ∈ roots ∧ RootsAt (m.set p d) roots (Function.update heads t (some head)) := by
  cases hplace with
  | @overwrite ps qs _ page i hroots hpage hi hps =>
    obtain ⟨xs, old, ys, hslots, hlen, hxs⟩ := slotIdx_eq_some hi
    have hset : slots (writeRootSlot page i t head) = xs ++ (t, head) :: ys := by
      rw [slots_writeRootSlot, hslots, ← hlen]
      simp
    subst hroots
    refine ⟨by simp, h.set hpage (by simp) ?_ ?_⟩
    · intro hp
      rw [length_slots, writeRootSlot, readCount_writeRaw, ← length_slots, ← slotsOf_eq hpage]
      exact h.full p hp
    · intro u
      have hfind := h.find u
      rw [List.flatMap_append, List.flatMap_cons, slotsOf_eq hpage, hslots] at hfind
      rw [flatMap_slotsOf_set h.nodup, hset, update_map, ← hfind]
      have hprefix : ∀ x ∈ ps.flatMap (slotsOf m) ++ xs, x.1 ≠ t := by
        intro x hx
        exact (List.mem_append.1 hx).elim (hps x) (hxs x)
      have hover := find_over (ys ++ qs.flatMap (slotsOf m)) hprefix old head u
      simpa using hover
  | @room ps _ page hroots hpage hlt hno =>
    subst hroots
    refine ⟨by simp, h.set hpage (by simp) ?_ ?_⟩
    · intro hp
      have hnd := h.nodup
      rw [List.dropLast_concat] at hp
      exact absurd rfl ((List.nodup_append.1 hnd).2.2 p hp p (by simp))
    · intro u
      have hfind := h.find u
      have hset := flatMap_slotsOf_set (m := m) h.nodup
        (writeCount (writeRootSlot page ⟨readCount page, hlt⟩ t head) (readCount page + 1))
      have hpush := slots_push page ⟨readCount page, hlt⟩ rfl t head
      dsimp only at hpush
      rw [hset, hpush, update_map, ← hfind]
      have hall := find_push hno head u
      rw [List.flatMap_append, List.flatMap_cons, slotsOf_eq hpage] at hall ⊢
      simpa using hall

/-- A further root page behind a full last one. -/
theorem RootsAt.grow {ps : List UInt32} {p : UInt32} (h : RootsAt m (ps ++ [p]) heads) {m' : PageMap}
    {t : UInt16} {head : UInt32} {page : PageData} (hpage : m.pages p = some page)
    (hfull : readCount page = ROOT_SLOTS_PER_PAGE)
    (hno : ∀ x ∈ (ps ++ [p]).flatMap (slotsOf m), x.1 ≠ t) (hcount : m'.count.toNat = m.count.toNat + 1)
    (hheader : m'.header = m.header) (hnew : ∃ d, m'.pages m.count = some d ∧ readNext d = NO_ROOT ∧
      slots d = [(t, head)]) (hlast : m'.pages p = some (writeNext page m.count))
    (hold : ∀ q, q ≠ m.count → q ≠ p → m'.pages q = m.pages q) (hpos : 0 < m.count) :
    RootsAt m' (ps ++ [p] ++ [m.count]) (Function.update heads t (some head)) := by
  obtain ⟨d, hd, hdnext, hdslots⟩ := hnew
  have hfresh : ∀ q ∈ ps ++ [p], q ≠ m.count := by
    rintro q hq rfl
    exact absurd (h.inUse _ hq).lt_count (UInt32.lt_irrefl _)
  have hpc : p ≠ m.count := hfresh p (by simp)
  have hlt : m.count < m'.count := UInt32.lt_iff_toNat_lt.2 (by omega)
  have hzero : m.count ≠ 0 := fun he => absurd hpos (by rw [he]; exact UInt32.lt_irrefl 0)
  have huse : InUse m' m.count := ⟨hzero, hlt, by rw [hd]; rfl⟩
  have hp : p ∉ ps := fun hm => (List.nodup_append.1 h.nodup).2.2 p hm p (by simp) rfl
  have hslots : ∀ q ∈ ps ++ [p], slotsOf m' q = slotsOf m q := by
    intro q hq
    by_cases hqp : q = p
    · subst hqp
      rw [slotsOf_eq hlast, slotsOf_eq hpage, slots_writeNext]
    · exact (page_congr (hold q (hfresh q hq) hqp)).2.2.1
  refine ⟨?_, ?_, ?_, ?_, ?_, ?_⟩
  · rw [hheader, h.start]
    cases ps <;> rfl
  · have hwalk := h.links.redirect h.nodup (some m.count)
    have hhead : (ps ++ [p] ++ [m.count]).head? = (ps ++ [p]).head? := by cases ps <;> rfl
    rw [hhead]
    refine Threads.append (c := some m.count) (hwalk.congr fun q hq => ?_) ⟨rfl, ?_⟩
    · by_cases hqp : q = p
      · subst hqp
        rw [Function.update_self, nextOf_eq hlast, readNext_writeNext, linkOf_of_ne huse.ne_noRoot]
      · rw [Function.update_of_ne hqp]
        exact (page_congr (hold q (hfresh q hq) hqp)).1
    · rw [nextOf_eq hd, hdnext]
      exact linkOf_eq_none.2 rfl
  · refine List.nodup_append.2 ⟨h.nodup, by simp, fun q hq r hr => ?_⟩
    rw [List.mem_singleton.1 hr]
    exact hfresh q hq
  · intro q hq
    rcases List.mem_append.1 hq with hq | hq
    · refine (h.inUse q hq).congr (by omega) fun hs => ?_
      by_cases hqp : q = p
      · rw [hqp, hlast]
        rfl
      · rw [hold q (hfresh q hq) hqp]
        exact hs
    · rw [List.mem_singleton.1 hq]
      exact huse
  · intro q hq
    rw [List.dropLast_concat] at hq
    rw [hslots q hq]
    by_cases hqp : q = p
    · rw [hqp, slotsOf_eq hpage, length_slots, hfull]
    · refine h.full q ?_
      rw [List.dropLast_concat]
      exact (List.mem_append.1 hq).resolve_right fun hm => hqp (List.mem_singleton.1 hm)
  · intro u
    have hsame : (ps ++ [p]).flatMap (slotsOf m') = (ps ++ [p]).flatMap (slotsOf m) := by
      rw [List.flatMap_def, List.flatMap_def]
      congr 1
      exact List.map_congr_left hslots
    rw [List.flatMap_append, hsame, List.flatMap_cons, slotsOf_eq hd, hdslots, update_map, ← h.find u]
    simpa using find_push hno head u

theorem yields_placeHead (h : RootsAt m roots heads) (hne : roots ≠ []) (hpos : 0 < m.count) (t : UInt16) (head : UInt32) :
    (placeHead t head).Yields m fun _ m' => ∃ roots',
      RootsAt m' roots' (Function.update heads t (some head)) ∧ RootFrame m m' roots roots' := by
  unfold placeHead
  refine .getHeader (.count ?_)
  have hlinks := h.links
  have hstart : some m.header.labelIndexRoot = roots.head? := by
    have := h.start
    by_cases hroot : m.header.labelIndexRoot = NO_ROOT
    · rw [linkOf_eq_none.2 hroot] at this
      exact absurd (List.head?_eq_none_iff.1 this.symm) hne
    · rwa [linkOf_of_ne hroot] at this
  rw [← hstart] at hlinks
  have hlen := length_le_count h.nodup h.inUse
  refine .bind_run (run_walk _ hlinks h.inUse (Nat.le_succ_of_le hlen) _) ?_
  have hplace := scan_visitSetHead t head hne h.inUse h.full (m.header.labelIndexRoot, PageData.zero)
  cases hscan : scan (visitSetHead t head) m roots (m.header.labelIndexRoot, PageData.zero) with
  | inl r =>
    obtain ⟨p, d⟩ := r
    rw [hscan] at hplace
    obtain ⟨hp, hroots⟩ := h.place hplace
    exact .of_run (Prog.run_write (h.inUse p hp).isSome) ⟨roots, hroots, rootFrame_set hp d⟩
  | inr r =>
    obtain ⟨p, d⟩ := r
    rw [hscan] at hplace
    cases hplace with
    | @behind ps _ page hroots hpage hfull hno =>
      subst hroots
      have huse := h.inUse p (by simp)
      have hpc : p ≠ m.count := fun he => absurd huse.lt_count (by rw [he]; exact UInt32.lt_irrefl _)
      unfold appendEmptyPage
      refine .append fun m₁ hnew hold hcount hheader => .read hnew (.write (by rw [hnew]; rfl)
        (.of_run (Prog.run_write ?_) ?_))
      · rw [m₁.set_pages_of_ne hpc, hold p hpc, hpage]
        rfl
      obtain ⟨newPage, hnewPage⟩ : ∃ newPage, newPage = writeCount (writeRootSlot
        (writeCount (writeNext PageData.zero NO_ROOT) 0) ⟨0, by decide⟩ t head) 1 := ⟨_, rfl⟩
      rw [← hnewPage]
      have hempty := emptyPage_eq
      have hnewSlots : slots newPage = [(t, head)] := by
        rw [hnewPage]
        have hcount₀ : readCount (writeCount (writeNext PageData.zero NO_ROOT) 0) = 0 :=
          readCount_writeCount _ (Nat.zero_le _)
        have := slots_push (writeCount (writeNext PageData.zero NO_ROOT) 0) ⟨0, by decide⟩ hcount₀ t head
        rwa [hempty.2] at this
      have hnewNext : readNext newPage = NO_ROOT := by
        rw [hnewPage, readNext_writeCount, readNext_writeRootSlot, hempty.1]
      obtain ⟨m', hm'⟩ : ∃ m', m' = (m₁.set m.count newPage).set p (writeNext d m.count) := ⟨_, rfl⟩
      rw [← hm']
      have hzero : (0 : UInt32) ≠ m.count := fun he => absurd hpos (by rw [← he]; exact UInt32.lt_irrefl 0)
      have hpages : ∀ q, q ≠ m.count → q ≠ p → m'.pages q = m.pages q := by
        intro q hq hqp
        rw [hm', PageMap.set_pages_of_ne _ hqp, PageMap.set_pages_of_ne _ hq, hold q hq]
      have hcount' : m'.count.toNat = m.count.toNat + 1 := by
        rw [hm']
        exact hcount
      refine ⟨ps ++ [p] ++ [m.count], h.grow hpage hfull hno hcount' (by rw [hm']; exact hheader)
        ⟨newPage, ?_, hnewNext, hnewSlots⟩ ?_ hpages hpos, ⟨by omega, fun hs => ?_, ?_, ?_⟩⟩
      · rw [hm', PageMap.set_pages_of_ne _ hpc.symm, PageMap.set_pages_self]
      · rw [hm', PageMap.set_pages_self]
      · rw [hpages 0 hzero huse.ne_zero.symm]
        exact hs
      · intro q _ hq hqr
        refine hpages q (fun he => absurd hq (by rw [he]; exact UInt32.lt_irrefl _)) ?_
        rintro rfl
        exact hqr (by simp)
      · intro q hq
        rcases List.mem_append.1 hq with hq | hq
        · exact .inl hq
        · rw [List.mem_singleton.1 hq]
          exact .inr (UInt32.le_refl _)

/-- **Recording a head changes this type's entry and no page outside the root chain.** -/
theorem yields_setHead (h : RootsAt m roots heads) (hz : (m.pages 0).isSome) (hpos : 0 < m.count)
    (t : UInt16) (head : UInt32) : (setHead t head).Yields m fun _ m' => ∃ roots',
      RootsAt m' roots' (Function.update heads t (some head)) ∧ RootFrame m m' roots roots' := by
  unfold setHead
  refine .bind (yields_ensureRoot h hz hpos) ?_
  rintro _ m₁ ⟨roots₁, hne, h₁, hf₁⟩
  have hpos₁ : 0 < m₁.count := by
    have := hf₁.count
    rw [UInt32.lt_iff_toNat_lt] at hpos ⊢
    exact Nat.lt_of_lt_of_le hpos this
  refine (yields_placeHead h₁ hne hpos₁ t head).mono ?_
  rintro _ m₂ ⟨roots₂, h₂, hf₂⟩
  refine ⟨roots₂, h₂, ⟨Nat.le_trans hf₁.count hf₂.count, fun hs => hf₂.zero (hf₁.zero hs), ?_, ?_⟩⟩
  · intro p hp hlt hnot
    have hlt₁ : p < m₁.count := UInt32.lt_iff_toNat_lt.2
      (Nat.lt_of_lt_of_le (UInt32.lt_iff_toNat_lt.1 hlt) hf₁.count)
    have hnot₁ : p ∉ roots₁ := by
      intro hm
      rcases hf₁.roots p hm with hm | hge
      · exact hnot hm
      · exact absurd (UInt32.lt_iff_toNat_lt.1 hlt) (Nat.not_lt.2 (UInt32.le_iff_toNat_le.1 hge))
    rw [hf₂.pages p hp hlt₁ hnot₁, hf₁.pages p hp hlt hnot]
  · intro p hp
    rcases hf₂.roots p hp with hm | hge
    · exact hf₁.roots p hm
    · refine .inr (UInt32.le_iff_toNat_le.2 ?_)
      have := UInt32.le_iff_toNat_le.1 hge
      have := hf₁.count
      omega

end LabelIndex

end ChiffonDB

import ChiffonDB.Storage.LabelRoots

/-!
# The pages of a label index

* `LabelLayout` — the root pages and the chain of every type, on pages of their own.
* `LabelLayout.replace` — **rebuilding the chain of one type leaves the other chains alone**.
-/

set_option autoImplicit false

namespace ChiffonDB

namespace LabelIndex

/-- The root chain and one chain per type (empty for a type without pages), on distinct pages. -/
structure LabelLayout (m : PageMap) (roots : List UInt32) (chains : UInt16 → List UInt32) : Prop where
  zero : (m.pages 0).isSome
  pos : 0 < m.count
  rooted : RootsAt m roots fun t => (chains t).head?
  chain : ∀ t, ChainAt m (chains t)
  apart : ∀ t, ∀ p ∈ chains t, p ∉ roots
  disjoint : ∀ t u, t ≠ u → ∀ p ∈ chains t, p ∉ chains u

variable {m m' : PageMap} {roots roots' : List UInt32} {chains : UInt16 → List UInt32}

section Family

variable {ι : Type} [DecidableEq ι]

theorem heads_update (chains : ι → List UInt32) (t : ι) (pids : List UInt32) :
    (fun u => (Function.update chains t pids u).head?) =
      Function.update (fun u => (chains u).head?) t pids.head? := by
  funext u
  by_cases hu : u = t
  · subst hu
    simp
  · rw [Function.update_of_ne hu, Function.update_of_ne hu]

/-- Replacing one list of a family of disjoint ones. -/
theorem disjoint_update {chains : ι → List UInt32} {t : ι} {pids : List UInt32}
    (h : ∀ t u, t ≠ u → ∀ p ∈ chains t, p ∉ chains u) (hnew : ∀ u, u ≠ t → ∀ p ∈ chains u, p ∉ pids) :
    ∀ u v, u ≠ v → ∀ p ∈ Function.update chains t pids u, p ∉ Function.update chains t pids v := by
  intro u v huv p hp
  by_cases hu : u = t
  · rw [hu, Function.update_self] at hp
    rw [Function.update_of_ne fun hv => huv (hu.trans hv.symm)]
    exact fun hpv => hnew v (fun hv => huv (hu.trans hv.symm)) p hpv hp
  · rw [Function.update_of_ne hu] at hp
    by_cases hv : v = t
    · rw [hv, Function.update_self]
      exact hnew u hu p hp
    · rw [Function.update_of_ne hv]
      exact h u v huv p hp

end Family

theorem InUse.lt {p : UInt32} (h : InUse m p) : p.toNat < m.count.toNat := UInt32.lt_iff_toNat_lt.1 h.lt_count

/-- What an operation on the chain `own` leaves as it was. -/
structure Changed (m m' : PageMap) (roots roots' own : List UInt32) : Prop where
  count : m.count.toNat ≤ m'.count.toNat
  zero : (m.pages 0).isSome → (m'.pages 0).isSome
  pages : ∀ p, p ≠ 0 → p < m.count → p ∉ roots → p ∉ own → m'.pages p = m.pages p
  roots : ∀ p ∈ roots', p ∈ roots ∨ m.count.toNat ≤ p.toNat

/-- **Rebuilding the chain of one type.** -/
theorem LabelLayout.replace (h : LabelLayout m roots chains) {t : UInt16} {pids : List UInt32}
    (hf : Changed m m' roots roots' (chains t))
    (hroots : RootsAt m' roots' (Function.update (fun u => (chains u).head?) t pids.head?))
    (hchain : ChainAt m' pids) (hown : ∀ p ∈ pids, p ∈ chains t ∨ m.count.toNat ≤ p.toNat)
    (hapart : ∀ p ∈ pids, p ∉ roots') : LabelLayout m' roots' (Function.update chains t pids) := by
  have hpages : ∀ u, u ≠ t → ∀ p ∈ chains u, m'.pages p = m.pages p := by
    intro u hu p hp
    have huse := (h.chain u).inUse p hp
    exact hf.pages p huse.ne_zero huse.lt_count (h.apart u p hp) (h.disjoint u t hu p hp)
  have hnew : ∀ u, u ≠ t → ∀ p ∈ chains u, p ∉ pids := by
    intro u hu p hp hpt
    rcases hown p hpt with hpt | hge
    · exact h.disjoint u t hu p hp hpt
    · exact absurd ((h.chain u).inUse p hp).lt (Nat.not_lt.2 hge)
  refine ⟨hf.zero h.zero, ?_, ?_, ?_, ?_, ?_⟩
  · have := UInt32.lt_iff_toNat_lt.1 h.pos
    have := hf.count
    rw [UInt32.lt_iff_toNat_lt]
    omega
  · rw [heads_update]
    exact hroots
  · intro u
    by_cases hu : u = t
    · rw [hu, Function.update_self]
      exact hchain
    · rw [Function.update_of_ne hu]
      exact (h.chain u).congr hf.count (hpages u hu)
  · intro u p hp
    by_cases hu : u = t
    · rw [hu, Function.update_self] at hp
      exact hapart p hp
    · rw [Function.update_of_ne hu] at hp
      intro hr
      rcases hf.roots p hr with hr | hge
      · exact h.apart u p hp hr
      · exact absurd ((h.chain u).inUse p hp).lt (Nat.not_lt.2 hge)
  · exact disjoint_update h.disjoint hnew

/-- The chains of other types keep their pages, and so what they list. -/
theorem LabelLayout.pages_of_ne (h : LabelLayout m roots chains) {t u : UInt16} (hu : u ≠ t)
    (hf : Changed m m' roots roots' (chains t)) : ∀ p ∈ chains u, m'.pages p = m.pages p := by
  intro p hp
  have huse := (h.chain u).inUse p hp
  exact hf.pages p huse.ne_zero huse.lt_count (h.apart u p hp) (h.disjoint u t hu p hp)

theorem LabelLayout.members_of_ne (h : LabelLayout m roots chains) {t u : UInt16} (hu : u ≠ t)
    (hf : Changed m m' roots roots' (chains t)) : members m' (chains u) = members m (chains u) :=
  members_congr (h.pages_of_ne hu hf)

namespace Changed

theorem refl (m : PageMap) (roots own : List UInt32) : Changed m m roots roots own :=
  ⟨Nat.le_refl _, id, fun _ _ _ _ _ => rfl, fun _ hp => .inl hp⟩

/-- One more write to a page of the chain, or to a new one. -/
theorem set {own : List UInt32} (h : Changed m m' roots roots' own) {p : UInt32}
    (hp : p ∈ own ∨ m.count.toNat ≤ p.toNat) (d : PageData) : Changed m (m'.set p d) roots roots' own where
  count := h.count
  zero hz := by
    by_cases hzp : (0 : UInt32) = p
    · rw [← hzp, m'.set_pages_self]
      rfl
    · rw [m'.set_pages_of_ne hzp]
      exact h.zero hz
  pages q h0 hq hr ho := by
    have hne : q ≠ p := by
      rintro rfl
      rcases hp with hp | hp
      · exact ho hp
      · exact absurd (UInt32.lt_iff_toNat_lt.1 hq) (Nat.not_lt.2 hp)
    rw [m'.set_pages_of_ne hne, h.pages q h0 hq hr ho]
  roots := h.roots

/-- Recording a head afterwards. -/
theorem rooted {own roots'' : List UInt32} {m'' : PageMap} (h : Changed m m' roots roots' own)
    (hf : RootFrame m' m'' roots' roots'') : Changed m m'' roots roots'' own where
  count := Nat.le_trans h.count hf.count
  zero hz := hf.zero (h.zero hz)
  pages p h0 hp hr ho := by
    have hlt := UInt32.lt_iff_toNat_lt.1 hp
    have hcount := h.count
    have hr' : p ∉ roots' := by
      intro hm
      rcases h.roots p hm with hm | hge
      · exact hr hm
      · omega
    rw [hf.pages p h0 (UInt32.lt_iff_toNat_lt.2 (by omega)) hr', h.pages p h0 hp hr ho]
  roots p hp := by
    have hcount := h.count
    rcases hf.roots p hp with hm | hge
    · exact h.roots p hm
    · have := UInt32.le_iff_toNat_le.1 hge
      exact .inr (by omega)

end Changed

/-! ## What a chain lists -/

/-- What a chain lists, cut at one of its pages. -/
theorem members_split (m : PageMap) (as bs : List UInt32) (p : UInt32) :
    members m (as ++ p :: bs) = members m as ++ (contents m p ++ members m bs) := by
  simp [members]

theorem members_perm {pids pids' : List UInt32} (h : pids.Perm pids') :
    (members m pids).Perm (members m pids') := h.flatMap_right _

theorem members_of_contents {pids : List UInt32} (h : ∀ p ∈ pids, contents m' p = contents m p) :
    members m' pids = members m pids := by
  unfold members
  rw [List.flatMap_def, List.flatMap_def]
  congr 1
  exact List.map_congr_left h

end LabelIndex

end ChiffonDB

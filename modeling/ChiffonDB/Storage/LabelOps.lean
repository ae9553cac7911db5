import ChiffonDB.Storage.LabelShape

/-!
# Operations on a label index

* `yields_addNew`, `yields_add`, `yields_remove` — **what each operation does to the record ids of its
  type: one more, one more unless it is there, one less if it is there**; the pages of the chain stay on it
  and the chain keeps its shape.
* `run_get`, `run_count` — what a type's chain lists, and how much it is.
-/

set_option autoImplicit false

namespace ChiffonDB

namespace LabelIndex

open Threads

variable {m m₁ : PageMap} {roots : List UInt32} {chains : UInt16 → List UInt32} {t : UInt16}

/-! ## Writing one page of a chain -/

/-- A page of the chain rewritten under its old link. -/
theorem ChainAt.set {pids : List UInt32} (hc : ChainAt m pids) {p : UInt32} {page d : PageData}
    (hpage : m.pages p = some page) (hnext : readNext d = readNext page)
    (hhint : p ∈ pids.tail → readSpareTail d = none) : ChainAt (m.set p d) pids where
  links := by
    rw [nextOf_set, hnext, ← nextOf_eq hpage, Function.update_eq_self]
    exact hc.links
  nodup := hc.nodup
  inUse q hq := (hc.inUse q hq).set p d
  hints q hq u hu := by
    rw [spareTail_set] at hu
    by_cases hqp : q = p
    · subst hqp
      rw [Function.update_self, hhint hq] at hu
      cases hu
    · rw [Function.update_of_ne hqp] at hu
      exact hc.hints q hq u hu

theorem LabelLayout.set (hl : LabelLayout m roots chains) {p : UInt32} (hp : p ∈ chains t)
    {page d : PageData} (hpage : m.pages p = some page) (hnext : readNext d = readNext page)
    (hhint : p ∈ (chains t).tail → readSpareTail d = none) : LabelLayout (m.set p d) roots chains := by
  have hf := (Changed.refl m roots (chains t)).set (.inl hp) d
  have hroots : RootsAt (m.set p d) roots fun u => (chains u).head? := by
    refine hl.rooted.congr hf.count rfl fun q hq => m.set_pages_of_ne ?_ d
    rintro rfl
    exact hl.apart t q hp hq
  have hself : Function.update (fun u => (chains u).head?) t (chains t).head? = fun u => (chains u).head? :=
    Function.update_eq_self t _
  have hreplace := hl.replace hf (by rw [hself]; exact hroots) ((hl.chain t).set hpage hnext hhint)
    (fun q hq => .inl hq) fun q hq => hl.apart t q hq
  rwa [Function.update_eq_self] at hreplace

/-- What the chain lists after a write to one of its pages. -/
theorem members_set {as bs : List UInt32} {p : UInt32} (hnd : (as ++ p :: bs).Nodup) (d : PageData) :
    members (m.set p d) (as ++ p :: bs) = members m as ++ (entries d ++ members m bs) := by
  obtain ⟨-, hpbs, hdisj⟩ := List.nodup_append.1 hnd
  have hother : ∀ l : List UInt32, p ∉ l → members (m.set p d) l = members m l := by
    intro l hl
    refine members_congr fun q hq => m.set_pages_of_ne ?_ d
    rintro rfl
    exact hl hq
  rw [members_split, hother as fun hm => hdisj p hm p (by simp) rfl,
    hother bs (List.nodup_cons.1 hpbs).1, contents_eq (m.set_pages_self p d)]

theorem members_set_head {bs : List UInt32} {p : UInt32} (hnd : (p :: bs).Nodup) (d : PageData) :
    members (m.set p d) (p :: bs) = entries d ++ members m bs := by
  have hset : members (m.set p d) ([] ++ p :: bs) = members m [] ++ (entries d ++ members m bs) :=
    members_set hnd d
  simpa [members] using hset

/-! ## A new head -/

/-- Recording the head of a rebuilt chain. -/
theorem LabelLayout.yields_rehead (hl : LabelLayout m roots chains) {pids : List UInt32} {s : UInt32}
    (hf : Changed m m₁ roots roots (chains t)) (hroot : m₁.header.labelIndexRoot = m.header.labelIndexRoot)
    (hrootPages : ∀ p ∈ roots, m₁.pages p = m.pages p) (hchain : ChainAt m₁ pids)
    (hhead : pids.head? = some s) (hown : ∀ p ∈ pids, p ∈ chains t ∨ m.count.toNat ≤ p.toNat) :
    (setHead t s).Yields m₁ fun _ m₂ => ∃ roots', LabelLayout m₂ roots' (Function.update chains t pids) ∧
      Changed m m₂ roots roots' (chains t) ∧ ∀ p ∈ pids, m₂.pages p = m₁.pages p := by
  have hroots := hl.rooted.congr hf.count hroot hrootPages
  have hpos : 0 < m₁.count := by
    have := UInt32.lt_iff_toNat_lt.1 hl.pos
    have := hf.count
    rw [UInt32.lt_iff_toNat_lt]
    omega
  refine (yields_setHead hroots (hf.zero hl.zero) hpos t s).mono ?_
  rintro _ m₂ ⟨roots', hroots', hf'⟩
  have hnotRoot : ∀ p ∈ pids, p ∉ roots := by
    intro p hp hr
    rcases hown p hp with hp | hge
    · exact hl.apart t p hp hr
    · exact absurd (hl.rooted.inUse p hr).lt (Nat.not_lt.2 hge)
  have hsame : ∀ p ∈ pids, m₂.pages p = m₁.pages p := fun p hp =>
    hf'.pages p (hchain.inUse p hp).ne_zero (hchain.inUse p hp).lt_count (hnotRoot p hp)
  refine ⟨roots', hl.replace (hf.rooted hf') ?_ (hchain.congr hf'.count hsame) hown ?_, hf.rooted hf', hsame⟩
  · rw [hhead]
    exact hroots'
  · intro p hp hr
    rcases hf'.roots p hr with hr | hge
    · exact hnotRoot p hp hr
    · exact absurd (hchain.inUse p hp).lt (Nat.not_lt.2 (UInt32.le_iff_toNat_le.1 hge))

/-- What an operation leaves: the rebuilt chain of its type, without losing a page. -/
def Rebuilt (m : PageMap) (roots : List UInt32) (chains : UInt16 → List UInt32) (t : UInt16)
    (lists : List RecordId → Prop) (m' : PageMap) : Prop :=
  ∃ roots' pids, LabelLayout m' roots' (Function.update chains t pids) ∧
    Changed m m' roots roots' (chains t) ∧ chains t ⊆ pids ∧ lists (members m' pids)

/-- The same, with the pages of the rebuilt chain. -/
def RebuiltWith (m : PageMap) (roots : List UInt32) (chains : UInt16 → List UInt32) (t : UInt16)
    (post : PageMap → List UInt32 → Prop) (m' : PageMap) : Prop :=
  ∃ roots' pids, LabelLayout m' roots' (Function.update chains t pids) ∧
    Changed m m' roots roots' (chains t) ∧ chains t ⊆ pids ∧ post m' pids

theorem RebuiltWith.mono {post post' : PageMap → List UInt32 → Prop} {m' : PageMap}
    (h : RebuiltWith m roots chains t post m') (himp : ∀ m' pids, post m' pids → post' m' pids) :
    RebuiltWith m roots chains t post' m' := by
  obtain ⟨roots', pids, hl', hf, hsub, hpost⟩ := h
  exact ⟨roots', pids, hl', hf, hsub, himp _ _ hpost⟩

theorem RebuiltWith.rebuilt {lists : List RecordId → Prop} {post : PageMap → List UInt32 → Prop}
    {m' : PageMap} (h : RebuiltWith m roots chains t post m')
    (himp : ∀ m' pids, post m' pids → lists (members m' pids)) : Rebuilt m roots chains t lists m' :=
  h.mono himp

/-- One more record id on the chain. -/
def Added (m : PageMap) (old : List UInt32) (rid : RecordId) (m' : PageMap) (pids : List UInt32) : Prop :=
  (members m' pids).Perm (rid :: members m old) ∧ Reshaped m old m' pids

/-- The same, unless it is there. -/
def Inserted (m : PageMap) (old : List UInt32) (rid : RecordId) (m' : PageMap) (pids : List UInt32) :
    Prop :=
  rid ∈ members m old ∧ m' = m ∧ pids = old ∨ rid ∉ members m old ∧ Added m old rid m' pids

/-- One record id less, if it is there. -/
def Removed (m : PageMap) (old : List UInt32) (rid : RecordId) (m' : PageMap) (pids : List UInt32) :
    Prop :=
  rid ∉ members m old ∧ m' = m ∧ pids = old ∨ (rid :: members m' pids).Perm (members m old) ∧
    (Shaped m old → Shaped m' pids) ∧ pids.length = old.length

section Lists

variable {m' : PageMap} {old pids : List UInt32} {rid : RecordId}

theorem Inserted.perm (h : Inserted m old rid m' pids) :
    (members m' pids).Perm ((members m old).insert rid) := by
  rcases h with ⟨hmem, rfl, rfl⟩ | ⟨hno, h⟩
  · rw [List.insert_of_mem hmem]
  · rw [List.insert_of_not_mem hno]
    exact h.1

theorem Removed.perm (h : Removed m old rid m' pids) :
    (members m' pids).Perm ((members m old).erase rid) := by
  rcases h with ⟨hno, rfl, rfl⟩ | ⟨h, -⟩
  · rw [List.erase_of_not_mem hno]
  · exact (List.cons_perm_iff_perm_erase.1 h).2

end Lists

/-- A new page in front of the chain. -/
theorem LabelLayout.yields_push (hl : LabelLayout m roots chains) {page : PageData} {rid : RecordId}
    (hnext : linkOf (readNext page) = (chains t).head?) (hentries : entries page = [rid])
    (hfull : ∀ h, (chains t).head? = some h → contents m h ≠ [])
    (hall : Shaped m (chains t) → AllFull m (chains t)) :
    Prog.Yields (do
      let newPid ← Prog.append page
      setHead t newPid) m fun _ m' =>
        RebuiltWith m roots chains t (Added m (chains t) rid) m' := by
  refine .append fun m₁ hnew hold hcount hheader => ?_
  have hc := hl.chain t
  have hfresh : ∀ {p : UInt32}, InUse m p → p ≠ m.count := by
    rintro p hp rfl
    exact absurd hp.lt_count (UInt32.lt_irrefl _)
  have hzero : (0 : UInt32) ≠ m.count := fun he => absurd hl.pos (by rw [← he]; exact UInt32.lt_irrefl 0)
  have hf : Changed m m₁ roots roots (chains t) := by
    refine ⟨by omega, fun hz => by rw [hold 0 hzero]; exact hz, fun p _ hp _ _ => hold p ?_, fun p hp => .inl hp⟩
    rintro rfl
    exact absurd hp (UInt32.lt_irrefl _)
  have hsame : ∀ p ∈ chains t, m₁.pages p = m.pages p := fun p hp => hold p (hfresh (hc.inUse p hp))
  have hcOld : ChainAt m₁ (chains t) := hc.congr hf.count hsame
  have huse : InUse m₁ m.count :=
    ⟨hzero.symm, UInt32.lt_iff_toNat_lt.2 (by omega), by rw [hnew]; rfl⟩
  have hchain : ChainAt m₁ (m.count :: chains t) := by
    refine ⟨⟨rfl, ?_⟩, List.nodup_cons.2 ⟨fun hm => hfresh (hc.inUse _ hm) rfl, hc.nodup⟩, ?_, ?_⟩
    · rw [nextOf_eq hnew, hnext]
      exact hcOld.links
    · intro p hp
      rcases List.mem_cons.1 hp with rfl | hp
      · exact huse
      · exact hcOld.inUse p hp
    · intro p hp u hu
      have hp : p ∈ chains t := hp
      cases hchain : chains t with
      | nil =>
        rw [hchain] at hp
        cases hp
      | cons h rest =>
        rw [hchain] at hp
        rcases List.mem_cons.1 hp with rfl | hp
        · have hne := hfull p (by rw [hchain]; rfl)
          have hcont := (page_congr (hsame p (by rw [hchain]; simp))).2.1
          rw [spareTail_of_contents (by rw [hcont]; exact hne)] at hu
          cases hu
        · have := hcOld.hints p (by rw [hchain]; exact hp) u hu
          rw [hchain] at this
          exact List.mem_cons_of_mem _ this
  have hown : ∀ p ∈ m.count :: chains t, p ∈ chains t ∨ m.count.toNat ≤ p.toNat := by
    intro p hp
    rcases List.mem_cons.1 hp with rfl | hp
    · exact .inr (Nat.le_refl _)
    · exact .inl hp
  refine (hl.yields_rehead hf (by rw [hheader]) (fun p hp => hold p (hfresh (hl.rooted.inUse p hp))) hchain rfl
    hown).mono ?_
  rintro _ m₂ ⟨roots', hl', hf', hsame'⟩
  have hlist : members m₂ (m.count :: chains t) = rid :: members m (chains t) := by
    rw [members_congr hsame']
    unfold members
    rw [List.flatMap_cons, contents_eq hnew, hentries]
    exact congrArg (rid :: ·) (members_congr hsame)
  refine ⟨roots', _, hl', hf', fun p hp => by simp [hp], by rw [hlist], fun hs => ?_⟩
  refine ⟨(hall hs).shaped_cons (fun p hp => ?_) _, .inr ⟨rfl, hall hs⟩⟩
  rw [(page_congr (hsame' p (by simp [hp]))).2.1, (page_congr (hsame p hp)).2.1]

/-- A chain whose pages stayed where they were. -/
theorem RebuiltWith.same {post : PageMap → List UInt32 → Prop} {m' : PageMap}
    (hl : LabelLayout m' roots chains) (hf : Changed m m' roots roots (chains t))
    (h : post m' (chains t)) : RebuiltWith m roots chains t post m' :=
  ⟨roots, chains t, by rwa [Function.update_eq_self], hf, fun _ hp => hp, h⟩

/-- A page with entries has no record. -/
theorem readSpareTail_of_entries {page : PageData} (h : entries page ≠ []) : readSpareTail page = none := by
  cases hs : readSpareTail page with
  | none => rfl
  | some u => exact absurd (entries_eq_nil.2 (readCount_of_readSpareTail hs)) h

/-- The record id goes onto the head, which has room. -/
theorem LabelLayout.fillHead (hl : LabelLayout m roots chains) {h : UInt32} {rest : List UInt32}
    (ht : chains t = h :: rest) {page d : PageData} (hpage : m.pages h = some page) {rid : RecordId}
    (hnext : readNext d = readNext page) (hentries : entries d = entries page ++ [rid]) :
    RebuiltWith m roots chains t (Added m (chains t) rid) (m.set h d) := by
  have hmem : h ∈ chains t := by simp [ht]
  have hnone : readSpareTail d = none := readSpareTail_of_entries (by simp [hentries])
  have hnd := (hl.chain t).nodup
  rw [ht] at hnd
  refine .same (hl.set hmem hpage hnext fun _ => hnone) ((Changed.refl m roots _).set (.inl hmem) d)
    ⟨?_, fun hs => ⟨?_, .inl rfl⟩⟩
  swap
  · rw [ht] at hs ⊢
    refine hs.congr (fun p hp => ?_) h
    have hph : p ≠ h := by
      rintro rfl
      exact (List.nodup_cons.1 hnd).1 hp
    obtain ⟨-, hcont, -, hspare⟩ := page_congr (m.set_pages_of_ne hph d)
    exact ⟨by rw [hcont], fun _ => hspare⟩
  rw [ht]
  have hset := members_set_head (m := m) hnd d
  have hold := members_split m [] rest h
  rw [List.nil_append, contents_eq hpage] at hold
  rw [hset, hentries, hold]
  simp [members]

/-- The record id goes onto a spare, which becomes the head. -/
theorem LabelLayout.yields_reuse (hl : LabelLayout m roots chains) {h s : UInt32} {ss bs : List UInt32}
    (ht : chains t = h :: s :: (ss ++ bs)) (hspare : contents m s = []) (hr : Relinked m m₁ (chains t))
    (hc : ChainAt m₁ (s :: (ss ++ h :: bs))) (hmoved : RecordMoved m m₁ s ss bs)
    (hfull : (contents m h).length = ENTRIES_PER_PAGE) (rid : RecordId) :
    Prog.Yields (do
      let sparePage ← Prog.read s
      Prog.write s (writeCount (writeEntry sparePage ⟨0, by decide⟩ rid) 1)
      setHead t s) m₁ fun _ m' =>
        RebuiltWith m roots chains t (Added m (chains t) rid) m' := by
  have hperm : (s :: (ss ++ h :: bs)).Perm (chains t) := by
    have : (s :: ss ++ h :: bs).Perm (h :: (s :: ss ++ bs)) := List.perm_middle
    rwa [ht]
  obtain ⟨page, hpage⟩ := (hc.inUse s (by simp)).get
  obtain ⟨d, hd⟩ : ∃ d, d = writeCount (writeEntry page ⟨0, by decide⟩ rid) 1 := ⟨_, rfl⟩
  have hempty : entries page = [] := by rw [← contents_eq hpage, hr.contents, hspare]
  have hentries : entries d = [rid] := by
    have := entries_push page ⟨0, by decide⟩ rid (entries_eq_nil.1 hempty)
    rw [hempty] at this
    rw [hd]
    exact this
  have hnext : readNext d = readNext page := by rw [hd, readNext_writeCount, readNext_writeEntry]
  refine .read hpage (.write (by rw [hpage]; rfl) ?_)
  rw [← hd]
  have hmem : s ∈ chains t := hperm.mem_iff.1 (by simp)
  have hf : Changed m (m₁.set s d) roots roots (chains t) := by
    refine Changed.set ⟨by rw [hr.count], hr.isSome 0, ?_, fun p hp => .inl hp⟩ (.inl hmem) d
    exact fun p _ _ _ hp => hr.pages p hp
  have hrootPages : ∀ p ∈ roots, (m₁.set s d).pages p = m.pages p := by
    intro p hp
    have hnot : p ∉ chains t := fun hm => hl.apart t p hm hp
    rw [PageMap.set_pages_of_ne _ (by rintro rfl; exact hnot hmem), hr.pages p hnot]
  have hchain : ChainAt (m₁.set s d) (s :: (ss ++ h :: bs)) :=
    hc.set hpage hnext fun _ => readSpareTail_of_entries (by simp [hentries])
  refine (hl.yields_rehead hf (by rw [← hr.header]; rfl) hrootPages hchain rfl
    fun p hp => .inl (hperm.mem_iff.1 hp)).mono ?_
  rintro _ m₂ ⟨roots', hl', hf', hsame⟩
  refine ⟨roots', _, hl', hf', fun p hp => hperm.mem_iff.2 hp, ?_,
    fun hs => ⟨?_, .inl hperm.length_eq⟩⟩
  swap
  · have hnd := (hl.chain t).nodup
    rw [ht] at hs hnd
    have hshape := hs.reuse hnd hfull hspare hr.contents hmoved s
    refine hshape.congr (fun p hp => ?_) s
    have hps : p ≠ s := by
      rintro rfl
      exact (List.nodup_cons.1 hc.nodup).1 hp
    obtain ⟨-, hcont, -, hspare⟩ := page_congr (hsame p (List.mem_cons_of_mem _ hp))
    obtain ⟨-, hcont₁, -, hspare₁⟩ := page_congr (m₁.set_pages_of_ne hps d)
    exact ⟨by rw [hcont, hcont₁], fun _ => by rw [hspare, hspare₁]⟩
  have hset := members_set_head (m := m₁) hc.nodup d
  have hold : members m₁ (ss ++ h :: bs) = members m (ss ++ h :: bs) :=
    members_of_contents fun p _ => by rw [hr.contents]
  have hlist : members m (s :: (ss ++ h :: bs)) = members m (ss ++ h :: bs) := by
    unfold members
    rw [List.flatMap_cons, hspare, List.nil_append]
  rw [members_congr hsame, hset, hentries, hold, ← hlist]
  exact (members_perm hperm).cons rid

/-- **A new record id.** -/
theorem LabelLayout.yields_addNew (hl : LabelLayout m roots chains) (t : UInt16) (rid : RecordId) :
    (addNew t rid).Yields m fun _ m' => RebuiltWith m roots chains t (Added m (chains t) rid) m' := by
  have hnew : ∀ next, readNext (writeNext (writeCount (writeEntry PageData.zero ⟨0, by decide⟩ rid) 1) next)
      = next ∧ entries (writeNext (writeCount (writeEntry PageData.zero ⟨0, by decide⟩ rid) 1) next) =
        [rid] := by
    intro next
    have hzero : entries PageData.zero = [] := entries_eq_nil.2 (by decide +kernel)
    have := entries_push PageData.zero ⟨0, by decide⟩ rid (entries_eq_nil.1 hzero)
    rw [hzero] at this
    exact ⟨readNext_writeNext _ _, by rw [entries_writeNext]; exact this⟩
  unfold addNew
  refine .bind_run (run_headOf hl.rooted t) ?_
  cases hhead : (chains t).head? with
  | none =>
    refine hl.yields_push ?_ (hnew NO_ROOT).2 ?_ fun _ => ?_
    · rw [(hnew NO_ROOT).1, linkOf_eq_none.2 rfl, hhead]
    · intro h hh
      rw [hhead] at hh
      cases hh
    · rw [List.head?_eq_none_iff.1 hhead]
      simp [AllFull]
  | some h =>
    obtain ⟨rest, ht⟩ := List.head?_eq_some_iff.1 hhead
    have huse := (hl.chain t).inUse h (by simp [ht])
    obtain ⟨page, hpage⟩ := huse.get
    refine .read hpage ?_
    by_cases hroom : readCount page < ENTRIES_PER_PAGE
    · rw [dif_pos hroom]
      refine .of_run (Prog.run_write (by rw [hpage]; rfl)) (hl.fillHead ht hpage ?_ ?_)
      · rw [readNext_writeCount, readNext_writeEntry]
      · exact entries_push page ⟨readCount page, hroom⟩ rid rfl
    rw [dif_neg hroom]
    have hlen : (contents m h).length = ENTRIES_PER_PAGE := by
      rw [contents_eq hpage, length_entries]
      exact Nat.le_antisymm (readCount_le page) (Nat.le_of_not_lt hroom)
    have hfull := contents_ne_nil_of_full hlen
    have hc := hl.chain t
    rw [ht] at hc
    refine .bind (yields_promoteSpare hc hfull) ?_
    rintro r m₁ hr
    cases r with
    | some s =>
      obtain ⟨ss, bs, hrest, hspare, hrel, hc', hmoved⟩ := hr
      rw [← ht] at hrel
      exact hl.yields_reuse (by rw [ht, hrest]) hspare hrel hc' hmoved hlen rid
    | none =>
      obtain ⟨hm₁, hfirst⟩ : m₁ = m ∧ ∀ s, rest.head? = some s → contents m s ≠ [] := hr
      rw [hm₁]
      refine hl.yields_push ?_ (hnew h).2 ?_ fun hs => ?_
      · rw [(hnew h).1, linkOf_of_ne huse.ne_noRoot, hhead]
      · intro h' hh'
        rw [hhead] at hh'
        cases hh'
        exact hfull
      · rw [ht] at hs ⊢
        exact hs.allFull hlen hfirst

/-- **A record id that may be there already.** -/
theorem LabelLayout.yields_add (hl : LabelLayout m roots chains) (t : UInt16) (rid : RecordId) :
    (add t rid).Yields m fun _ m' => RebuiltWith m roots chains t (Inserted m (chains t) rid) m' := by
  have hfresh : rid ∉ members m (chains t) → (addNew t rid).Yields m fun _ m' =>
      RebuiltWith m roots chains t (Inserted m (chains t) rid) m' := fun hno =>
    (hl.yields_addNew t rid).mono fun _ _ hr => hr.mono fun _ _ h => .inr ⟨hno, h⟩
  unfold add
  refine .bind_run (run_headOf hl.rooted t) ?_
  have hc := hl.chain t
  cases hhead : (chains t).head? with
  | none =>
    have hnil : chains t = [] := List.head?_eq_none_iff.1 hhead
    exact hfresh (by simp [hnil, members])
  | some h =>
    refine .count ?_
    have hwalk := run_walk (visitEntry rid) (hhead ▸ hc.links) hc.inUse
      (Nat.le_succ_of_le (length_le_count hc.nodup hc.inUse)) ()
    refine .bind_run hwalk ?_
    rcases scan_visitEntry rid hc.inUse with ⟨p, page, i, hp, hpage, hi, hscan⟩ | ⟨hno, hscan⟩
    · rw [hscan]
      have hmem : rid ∈ members m (chains t) :=
        List.mem_flatMap.2 ⟨p, hp, by rw [contents_eq hpage]; exact List.mem_of_getElem? hi⟩
      exact .pure (.same hl (.refl m roots _) (.inl ⟨hmem, rfl, rfl⟩))
    · rw [hscan]
      exact hfresh hno

/-! ## Removing -/

section Lists

variable {α : Type} {l : List α} {i : Nat} {r : α}

/-- An entry replaced by another. -/
theorem cons_set_perm (h : l[i]? = some r) (x : α) : (r :: l.set i x).Perm (x :: l) := by
  obtain ⟨hi, hr⟩ := List.getElem?_eq_some_iff.1 h
  have hset := List.set_perm_cons_eraseIdx hi x
  have herase := List.getElem_cons_eraseIdx_perm hi
  rw [hr] at herase
  exact ((hset.cons r).trans (List.Perm.swap x r _)).trans (herase.cons x)

/-- The last entry moved into the place of another one. -/
theorem cons_set_dropLast_perm {x : α} (h : (l ++ [x])[i]? = some r) :
    (r :: l.set i x).Perm (l ++ [x]) := by
  have hback : (l ++ [x]).Perm (x :: l) := by simp
  by_cases hi : i < l.length
  · rw [List.getElem?_append_left hi] at h
    exact (cons_set_perm h x).trans hback.symm
  · rw [List.getElem?_append_right (Nat.not_lt.1 hi)] at h
    have hr : r = x := List.mem_singleton.1 (List.mem_of_getElem? h)
    rw [List.set_eq_of_length_le (Nat.not_lt.1 hi), hr]
    exact hback.symm

end Lists

/-- The head of the chain, with entries. -/
structure DonorAt (m : PageMap) (roots : List UInt32) (chains : UInt16 → List UInt32) (t : UInt16)
    (r : UInt32 × PageData) (m' : PageMap) (roots' pids : List UInt32) : Prop where
  layout : LabelLayout m' roots' (Function.update chains t pids)
  changed : Changed m m' roots roots' (chains t)
  perm : pids.Perm (chains t)
  head : pids.head? = some r.1
  page : m'.pages r.1 = some r.2
  nonempty : entries r.2 ≠ []
  contents : ∀ p ∈ chains t, contents m' p = contents m p

/-- The first page of a chain that has entries. -/
def firstWithEntries (m : PageMap) (pids : List UInt32) : Option UInt32 :=
  pids.find? fun p => !(LabelIndex.contents m p).isEmpty

theorem firstWithEntries_split {as bs : List UInt32} {d : UInt32}
    (has : ∀ p ∈ as, LabelIndex.contents m p = []) (hd : LabelIndex.contents m d ≠ []) :
    firstWithEntries m (as ++ d :: bs) = some d := by
  unfold firstWithEntries
  have hnone : as.find? (fun p => !(LabelIndex.contents m p).isEmpty) = none :=
    List.find?_eq_none.2 fun p hp => by simp [has p hp]
  have hsome : (!(LabelIndex.contents m d).isEmpty) = true := by simpa using hd
  rw [List.find?_append, hnone, Option.none_or, List.find?_cons, hsome]

/-- In a chain of the usual shape it is the first page with entries that donates one. -/
theorem LabelLayout.yields_donorOf (hl : LabelLayout m roots chains) {h : UInt32}
    (hhead : (chains t).head? = some h) (hex : ∃ p ∈ chains t, contents m p ≠ []) :
    (donorOf t h).Yields m fun r m' => ∃ roots' pids, DonorAt m roots chains t r m' roots' pids ∧
      (Shaped m (chains t) → Shaped m' pids ∧ firstWithEntries m (chains t) = some r.1) := by
  obtain ⟨rest, ht⟩ := List.head?_eq_some_iff.1 hhead
  obtain ⟨page, hpage⟩ := ((hl.chain t).inUse h (by simp [ht])).get
  unfold donorOf
  refine .read hpage ?_
  by_cases hcount : readCount page = 0
  · rw [if_pos hcount]
    have hempty : LabelIndex.contents m h = [] := by rw [contents_eq hpage, entries_eq_nil, hcount]
    have hex' : ∃ p ∈ rest, LabelIndex.contents m p ≠ [] := by
      obtain ⟨p, hp, hne⟩ := hex
      rw [ht] at hp
      rcases List.mem_cons.1 hp with rfl | hp
      · exact absurd hempty hne
      · exact ⟨p, hp, hne⟩
    refine .bind (yields_promoteFirstNonEmpty hl ht hempty hex') ?_
    rintro d m' ⟨as, bs, roots', hsplit, hd, hl', hf, hcont, x, hlast, hx, hrecord⟩
    have hshape : Shaped m (chains t) → Shaped m' (d :: (as ++ bs)) ∧
        firstWithEntries m (chains t) = some d := by
      intro hs
      rw [ht] at hs ⊢
      refine ⟨hs.promote hsplit hempty hd hcont hlast hx hrecord, ?_⟩
      rw [hsplit]
      exact firstWithEntries_split (hs.empty_front hsplit hempty hlast hx) hd
    rw [← ht] at hsplit hf hcont
    have hdUse : InUse m' d := by
      have := (hl'.chain t).inUse d
      rw [Function.update_self] at this
      exact this (by simp)
    obtain ⟨donor, hdonor⟩ := hdUse.get
    refine .read hdonor (.pure ⟨roots', _, ⟨hl', hf, ?_, rfl, hdonor, ?_, hcont⟩, hshape⟩)
    · rw [hsplit]
      exact List.perm_middle.symm
    · rw [← contents_eq hdonor, hcont d (by rw [hsplit]; simp)]
      exact hd
  · rw [if_neg hcount]
    have hne : entries page ≠ [] := fun hnil => hcount (entries_eq_nil.1 hnil)
    refine .pure ⟨roots, chains t, ⟨?_, .refl m roots _, .refl _, hhead, hpage, hne, fun _ _ => rfl⟩,
      fun hs => ⟨hs, ?_⟩⟩
    · rwa [Function.update_eq_self]
    · rw [ht]
      exact firstWithEntries_split (show ∀ p ∈ [], LabelIndex.contents m p = [] by simp) (by rwa [contents_eq hpage])

/-- **The last entry of the head moves into the hole.** -/
theorem LabelLayout.yields_fillHole (hl : LabelLayout m roots chains) {h pid : UInt32} {page : PageData}
    {idx : Fin ENTRIES_PER_PAGE} {rid : RecordId} (hhead : (chains t).head? = some h)
    (hpid : pid ∈ chains t) (hpage : m.pages pid = some page) (hidx : (entries page)[idx.val]? = some rid) :
    (fillHoleFromHead t h pid idx).Yields m fun _ m' =>
      RebuiltWith m roots chains t (Removed m (chains t) rid) m' := by
  have hex : ∃ p ∈ chains t, contents m p ≠ [] := by
    refine ⟨pid, hpid, fun hnil => ?_⟩
    rw [← contents_eq hpage, hnil] at hidx
    cases hidx
  unfold fillHoleFromHead
  refine .bind (hl.yields_donorOf hhead hex) ?_
  rintro ⟨d, donor⟩ m₁ ⟨roots', pids, hd, hshape⟩
  obtain ⟨ps, hps⟩ := List.head?_eq_some_iff.1 hd.head
  obtain ⟨init, last, hdonor⟩ := (List.eq_nil_or_concat (entries donor)).resolve_left hd.nonempty
  rw [List.concat_eq_append] at hdonor
  have hcount : readCount donor = init.length + 1 := by
    rw [← length_entries, hdonor, List.length_append]
    rfl
  have hlast : readEntry donor (readCount donor - 1) = last := by
    have hget := entries_getElem? donor (readCount donor - 1)
    rw [if_pos (by omega), hdonor] at hget
    rw [hcount, Nat.add_sub_cancel] at hget ⊢
    simpa using hget.symm
  have hcut : entries (writeCount donor (readCount donor - 1)) = init := by
    rw [entries_writeCount donor (Nat.sub_le _ _), hdonor, hcount]
    simp
  have hpidNow : entries page = contents m₁ pid := by rw [hd.contents pid hpid, contents_eq hpage]
  have hmembers : (members m₁ pids).Perm (members m (chains t)) := by
    rw [← members_of_contents hd.contents]
    exact members_perm hd.perm
  have hl₁ := hd.layout
  have hchain := hl₁.chain t
  rw [Function.update_self] at hchain
  dsimp only at hps
  have hnd := hchain.nodup
  have hold := members_split m₁ [] ps d
  have hset := fun page => members_set_head (m := m₁) (hps ▸ hnd) page
  rw [List.nil_append, ← hps, contents_eq hd.page, hdonor] at hold
  dsimp only
  rw [if_neg (by omega), hlast]
  have hdMem : d ∈ chains t := hd.perm.mem_iff.1 (by simp [hps])
  have hheadHint : ∀ D, d ∈ (Function.update chains t pids t).tail → readSpareTail D = none := by
    intro D htail
    rw [Function.update_self, hps] at htail
    rw [hps] at hnd
    exact absurd htail (List.nodup_cons.1 hnd).1
  -- a write to the head leaves the pages behind it alone
  have hrest : ∀ (D : PageData), ∀ p ∈ ps, (contents (m₁.set d D) p).length = (contents m₁ p).length ∧
      (contents m₁ p = [] → spareTail (m₁.set d D) p = spareTail m₁ p) := by
    intro D p hp
    have hpd : p ≠ d := by
      rintro rfl
      rw [hps] at hnd
      exact (List.nodup_cons.1 hnd).1 hp
    obtain ⟨-, hcont, -, hspare⟩ := page_congr (m₁.set_pages_of_ne hpd D)
    exact ⟨by rw [hcont], fun _ => hspare⟩
  by_cases hpd : pid = d
  · rw [if_pos hpd]
    obtain ⟨D, hD⟩ : ∃ D, D = writeEntry (writeCount donor (readCount donor - 1)) idx last := ⟨_, rfl⟩
    have hentries : entries D = init.set idx last := by rw [hD, entries_writeEntry, hcut]
    rw [← hD]
    refine .of_run (Prog.run_write (by rw [hd.page]; rfl)) ⟨roots', pids, ?_, ?_, ?_,
      .inr ⟨?_, fun hs => ?_, hd.perm.length_eq⟩⟩
    · refine hl₁.set (t := t) (by simp [hps]) hd.page ?_ (hheadHint D)
      rw [hD, readNext_writeEntry, readNext_writeCount]
    · exact hd.changed.set (.inl hdMem) D
    · exact fun p hp => hd.perm.mem_iff.2 hp
    swap
    · rw [hps] at hnd ⊢
      exact (hps ▸ (hshape hs).1).congr (fun p hp => hrest D p hp) d
    · have hmembersD : members (m₁.set d D) pids = init.set idx last ++ members m₁ ps := by
        rw [hps, hset D, hentries]
      rw [hpidNow, hpd, contents_eq hd.page, hdonor] at hidx
      rw [hmembersD]
      refine List.Perm.trans ?_ hmembers
      rw [hold]
      exact (cons_set_dropLast_perm hidx).append_right _
  · rw [if_neg hpd]
    obtain ⟨D, hD⟩ : ∃ D, D = writeCount donor (readCount donor - 1) := ⟨_, rfl⟩
    rw [← hD] at hcut ⊢
    have hl₂ := hl₁.set (t := t) (by simp [hps]) hd.page (by rw [hD, readNext_writeCount]) (hheadHint D)
    have hmem₁ : pid ∈ pids := hd.perm.mem_iff.2 hpid
    obtain ⟨page₁, hpage₁⟩ := (hchain.inUse pid hmem₁).get
    have hpage₂ : (m₁.set d D).pages pid = some page₁ := by rw [PageMap.set_pages_of_ne _ hpd, hpage₁]
    obtain ⟨P, hP⟩ : ∃ P, P = writeEntry page₁ idx last := ⟨_, rfl⟩
    refine .write (by rw [hd.page]; rfl) (.read hpage₂ ?_)
    rw [← hP]
    have hentries : entries P = (entries page).set idx last := by
      rw [hP, entries_writeEntry, hpidNow, contents_eq hpage₁]
    have hsome : entries P ≠ [] := by
      rw [hentries, Ne, List.set_eq_nil_iff]
      rintro hnil
      rw [hnil] at hidx
      cases hidx
    refine .of_run (Prog.run_write (by rw [hpage₂]; rfl)) ⟨roots', pids, ?_, ?_, ?_,
      .inr ⟨?_, fun hs => ?_, hd.perm.length_eq⟩⟩
    · refine hl₂.set (t := t) (by rwa [Function.update_self]) hpage₂ ?_ fun _ => readSpareTail_of_entries hsome
      rw [hP, readNext_writeEntry]
    · exact (hd.changed.set (.inl hdMem) D).set (.inl hpid) P
    · exact fun p hp => hd.perm.mem_iff.2 hp
    swap
    · rw [hps]
      refine (hps ▸ (hshape hs).1).congr (fun p hp => ?_) d
      obtain ⟨hlen, hspare⟩ := hrest D p hp
      by_cases hpp : p = pid
      · subst hpp
        have hold : contents m₁ p = entries page := hpidNow.symm
        rw [contents_eq (PageMap.set_pages_self _ _ P), hold, hentries, List.length_set]
        refine ⟨rfl, fun hnil => ?_⟩
        rw [hnil] at hidx
        cases hidx
      · obtain ⟨-, hcont, -, hsp⟩ := page_congr ((m₁.set d D).set_pages_of_ne hpp P)
        rw [hcont, hsp]
        exact ⟨hlen, hspare⟩
    · have hmem : pid ∈ ps := by
        rw [hps] at hmem₁
        exact (List.mem_cons.1 hmem₁).resolve_left hpd
      obtain ⟨as, bs, rfl⟩ := List.append_of_mem hmem
      refine List.Perm.trans ?_ hmembers
      have hlast := cons_set_perm hidx last
      have hnd' : (d :: as ++ pid :: bs).Nodup := by
        rw [hps] at hnd
        exact hnd
      have hdNot : d ∉ as ∧ d ∉ bs := by
        have hnot : d ∉ as ++ pid :: bs := (List.nodup_cons.1 hnd').1
        simp only [List.mem_append, List.mem_cons, not_or] at hnot
        exact ⟨hnot.1, hnot.2.2⟩
      have hbs : members (m₁.set d D) bs = members m₁ bs :=
        members_congr fun p hp => m₁.set_pages_of_ne (by rintro rfl; exact hdNot.2 hp) D
      have has : members (m₁.set d D) (d :: as) = init ++ members m₁ as := by
        rw [members_set_head (List.Nodup.of_append_left hnd') D, hcut]
      have hnew : members ((m₁.set d D).set pid P) pids =
          init ++ members m₁ as ++ ((entries page).set idx last ++ members m₁ bs) := by
        rw [hps, ← List.cons_append, members_set hnd' P, has, hbs, hentries]
      rw [hnew, hold, members_split m₁ as bs pid, ← hpidNow]
      -- `rid` and `last` change places
      refine List.perm_iff_count.2 fun r => ?_
      have hcount := hlast.count_eq r
      simp only [List.count_append, List.count_cons, List.count_nil, members, List.flatMap_nil] at hcount ⊢
      omega

/-- **A record id that may be gone already.** -/
theorem LabelLayout.yields_remove (hl : LabelLayout m roots chains) (t : UInt16) (rid : RecordId) :
    (remove t rid).Yields m fun _ m' => RebuiltWith m roots chains t (Removed m (chains t) rid) m' := by
  unfold remove
  refine .bind_run (run_headOf hl.rooted t) ?_
  have hc := hl.chain t
  have hsame : rid ∉ members m (chains t) →
      RebuiltWith m roots chains t (Removed m (chains t) rid) m := fun hno =>
    .same hl (.refl m roots _) (.inl ⟨hno, rfl, rfl⟩)
  cases hhead : (chains t).head? with
  | none =>
    have hnil : chains t = [] := List.head?_eq_none_iff.1 hhead
    exact .pure (hsame (by simp [hnil, members]))
  | some h =>
    refine .count ?_
    have hwalk := run_walk (visitEntry rid) (hhead ▸ hc.links) hc.inUse
      (Nat.le_succ_of_le (length_le_count hc.nodup hc.inUse)) ()
    refine .bind_run hwalk ?_
    rcases scan_visitEntry rid hc.inUse with ⟨p, page, i, hp, hpage, hi, hscan⟩ | ⟨hno, hscan⟩
    · rw [hscan]
      exact hl.yields_fillHole hhead hp hpage hi
    · rw [hscan]
      exact .pure (hsame hno)

/-! ## Reading -/

theorem run_get (hl : LabelLayout m roots chains) (t : UInt16) :
    (get t).run m = (.ok (members m (chains t)), m) := by
  have hc := hl.chain t
  unfold get
  rw [Prog.run_bind, run_headOf hl.rooted t, Prog.andThen_ok]
  cases hhead : (chains t).head? with
  | none =>
    have hnil : chains t = [] := List.head?_eq_none_iff.1 hhead
    rw [hnil]
    rfl
  | some h =>
    dsimp only
    rw [Prog.run_bind, Prog.run_count, Prog.andThen_ok, Prog.run_bind,
      run_walk visitAll (hhead ▸ hc.links) hc.inUse (Nat.le_succ_of_le (length_le_count hc.nodup hc.inUse)) [],
      scan_visitAll [] hc.inUse, List.nil_append]
    rfl

theorem run_countOf (hl : LabelLayout m roots chains) (t : UInt16) :
    (LabelIndex.count t).run m = (.ok (members m (chains t)).length, m) := by
  have hc := hl.chain t
  unfold LabelIndex.count
  rw [Prog.run_bind, run_headOf hl.rooted t, Prog.andThen_ok]
  cases hhead : (chains t).head? with
  | none =>
    have hnil : chains t = [] := List.head?_eq_none_iff.1 hhead
    rw [hnil]
    rfl
  | some h =>
    dsimp only
    rw [Prog.run_bind, Prog.run_count, Prog.andThen_ok, Prog.run_bind,
      run_walk visitCount (hhead ▸ hc.links) hc.inUse (Nat.le_succ_of_le (length_le_count hc.nodup hc.inUse)) 0,
      scan_visitCount 0 hc.inUse, Nat.zero_add]
    rfl

end LabelIndex

end ChiffonDB

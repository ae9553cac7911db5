import Mathlib.Algebra.Order.BigOperators.Group.List
import Mathlib.Data.List.FinRange
import ChiffonDB.Storage.RecordPage

/-!
# Record tables

The node pages and the edge pages of `storage/topology.rs`, with records in their slots in place of
bytes: what `Page` and the slot allocator do on them.

* `RecordTable` — pages of slots; a free slot keeps the record that was last in it.
* `RecordTable.live` — the map from record ids to live records that a table stands for.
* `live_write`, `live_free`, `Allocated` — **the operations on that map**.
-/

set_option autoImplicit false

namespace ChiffonDB

/-- A slot: its bit in the bitmap, and its record. -/
structure Slot (R : Type) where
  used : Bool
  record : R

/-- The slots of a page of 64-byte records. -/
def SLOTS : Nat := RecordPage.slotCount NODE_RECORD_SIZE

theorem slots_eq : SLOTS = 63 := rfl

abbrev SlotPage (R : Type) : Type := Fin SLOTS → Slot R

/-- `Page::alloc_slot`, without the bit that it sets. -/
def SlotPage.firstFree {R : Type} (page : SlotPage R) : Option (Fin SLOTS) :=
  (List.finRange SLOTS).find? fun i => !(page i).used

/-- The logical pages of one kind, fewer than a page number can count, and the free-slot hint. -/
structure RecordTable (R : Type) where
  pages : List (SlotPage R)
  firstFreePage : Nat
  small : pages.length < UInt32.size

namespace RecordTable

variable {R : Type}

def empty : RecordTable R := ⟨[], 0, Nat.zero_lt_succ _⟩

/-- The record id of a slot. -/
def ridOf (logical : Nat) (slot : Fin SLOTS) : RecordId := ⟨UInt32.ofNat logical, UInt16.ofNat slot⟩

def slotAt (t : RecordTable R) (rid : RecordId) : Option (Slot R) :=
  (t.pages[rid.pageId.toNat]?).bind fun page =>
    if h : rid.slotId.toNat < SLOTS then some (page ⟨rid.slotId.toNat, h⟩) else none

/-- `node_slot_used`, `edge_slot_used`. -/
def used (t : RecordTable R) (rid : RecordId) : Bool := (t.slotAt rid).any (·.used)

/-- `read_node`, `read_edge`: the record of a slot, whether it is in use or not. -/
def read (t : RecordTable R) (rid : RecordId) : Except GraphError R :=
  match t.pages[rid.pageId.toNat]? with
  | none => .error (.storageCorrupted rid.pageId)
  | some page =>
    if h : rid.slotId.toNat < SLOTS then .ok (page ⟨rid.slotId.toNat, h⟩).record
    else .error (.storageCorrupted 0)

/-- Change a slot. -/
def modify (t : RecordTable R) (rid : RecordId) (f : Slot R → Slot R) : RecordTable R where
  pages := t.pages.modify rid.pageId.toNat fun page i =>
    if i.val = rid.slotId.toNat then f (page i) else page i
  firstFreePage := t.firstFreePage
  small := by rw [List.length_modify]; exact t.small

/-- `write_node`, `write_edge`. -/
def write (t : RecordTable R) (rid : RecordId) (record : R) : Except GraphError (RecordTable R) := do
  let _ ← t.read rid
  pure (t.modify rid fun slot => { slot with record := record })

/-- The hint, clamped to the number of pages. -/
def hint (t : RecordTable R) : Nat := min t.firstFreePage t.pages.length

/-- `free_node`, and the end of `delete_edge`: the slot's bit is cleared and the hint backs off. -/
def free (t : RecordTable R) (rid : RecordId) : Except GraphError (RecordTable R) := do
  let _ ← t.read rid
  let t := t.modify rid fun slot => { slot with used := false }
  pure (if rid.pageId.toNat < t.hint then { t with firstFreePage := rid.pageId.toNat } else t)

/-- The scan of `alloc_topology_slot`. -/
def findFree (t : RecordTable R) : Option (Nat × Fin SLOTS) :=
  (List.range' t.hint (t.pages.length - t.hint)).findSome? fun logical =>
    (t.pages[logical]?).bind fun page => page.firstFree.map fun slot => (logical, slot)

/-- A free slot of a page becomes used, and the hint moves to its page. -/
def take (t : RecordTable R) (logical : Nat) (slot : Fin SLOTS) : RecordTable R :=
  let t' := t.modify (ridOf logical slot) fun slot => { slot with used := true }
  if logical ≠ t.hint then { t' with firstFreePage := logical } else t'

/-- A fresh page, whose first slot is used. -/
def grow (t : RecordTable R) (blank : R) (h : t.pages.length + 1 < UInt32.size) : RecordTable R where
  pages := t.pages ++ [fun i => ⟨i.val == 0, blank⟩]
  firstFreePage := t.pages.length
  small := by rw [List.length_append]; exact h

/-- The live slots of a page. -/
def livePage (logical : Nat) (page : SlotPage R) : List RecordId :=
  ((List.finRange SLOTS).filter fun i => (page i).used).map (ridOf logical)

/-- `live_node_rids`, `live_edge_rids`. -/
def liveRids (t : RecordTable R) : List RecordId := (t.pages.mapIdx livePage).flatten

/-! ## The map of live records -/

/-- The record of a live slot. -/
def live (t : RecordTable R) (rid : RecordId) : Option R := ((t.slotAt rid).filter (·.used)).map (·.record)

section Lookup

variable {t : RecordTable R} {rid rid' : RecordId}

theorem live_eq_some {r : R} : t.live rid = some r ↔ t.slotAt rid = some ⟨true, r⟩ := by
  unfold live
  cases t.slotAt rid with
  | none => simp
  | some s =>
    obtain ⟨u, r'⟩ := s
    cases u <;> simp [Option.filter]

theorem used_eq_true : t.used rid = true ↔ ∃ r, t.live rid = some r := by
  simp only [live_eq_some]
  unfold used
  cases t.slotAt rid with
  | none => simp
  | some s =>
    obtain ⟨u, r⟩ := s
    cases u <;> simp

theorem used_eq_false : t.used rid = false ↔ t.live rid = none := by
  rw [← Bool.not_eq_true, used_eq_true]
  cases t.live rid <;> simp

theorem read_of_slotAt {s : Slot R} (h : t.slotAt rid = some s) : t.read rid = .ok s.record := by
  unfold slotAt at h
  unfold read
  cases hp : t.pages[rid.pageId.toNat]? with
  | none => rw [hp] at h; cases h
  | some page =>
    rw [hp, Option.bind_some] at h
    dsimp only
    split at h
    · rename_i hlt
      rw [dif_pos hlt]
      rw [Option.some.inj h]
    · cases h

theorem read_of_live {r : R} (h : t.live rid = some r) : t.read rid = .ok r :=
  read_of_slotAt (live_eq_some.1 h)

/-- A slot that can be read is there. -/
theorem slotAt_of_read {r : R} (h : t.read rid = .ok r) : ∃ u, t.slotAt rid = some ⟨u, r⟩ := by
  unfold read at h
  unfold slotAt
  cases hp : t.pages[rid.pageId.toNat]? with
  | none => rw [hp] at h; cases h
  | some page =>
    rw [hp] at h
    dsimp only at h
    split at h
    · rename_i hlt
      cases h
      exact ⟨_, by rw [Option.bind_some, dif_pos hlt]⟩
    · cases h

theorem slotAt_modify (f : Slot R → Slot R) :
    (t.modify rid f).slotAt rid' = if rid' = rid then (t.slotAt rid).map f else t.slotAt rid' := by
  unfold slotAt modify
  dsimp only
  rw [List.getElem?_modify]
  by_cases hp : rid.pageId.toNat = rid'.pageId.toNat
  · simp only [hp, ↓reduceIte]
    cases t.pages[rid'.pageId.toNat]? with
    | none => simp
    | some page =>
      by_cases he : rid' = rid
      · subst he
        rw [if_pos rfl]
        simp only [Option.map_eq_map, Option.map_some, Option.bind_some]
        split <;> simp
      · have hs : rid'.slotId.toNat ≠ rid.slotId.toNat := by
          intro hs
          exact he (RecordId.ext_toNat hp.symm hs)
        rw [if_neg he]
        simp [hs]
  · have he : rid' ≠ rid := by
      rintro rfl
      exact hp rfl
    rw [if_neg he]
    simp [hp]

end Lookup

/-! ## The operations on the map -/

section Operations

variable {t t' : RecordTable R} {rid : RecordId} {r r' : R}

theorem live_congr {pages : List (SlotPage R)} {hint hint' : Nat} {h : pages.length < UInt32.size} :
    (⟨pages, hint, h⟩ : RecordTable R).live = (⟨pages, hint', h⟩ : RecordTable R).live := rfl

/-- **Writing a live record.** -/
theorem live_write (r' : R) (h : t.live rid = some r) :
    ∃ t', t.write rid r' = .ok t' ∧ t'.live = Function.update t.live rid (some r') := by
  have hslot := live_eq_some.1 h
  refine ⟨_, by unfold write; rw [read_of_live h]; rfl, funext fun x => ?_⟩
  unfold live
  rw [slotAt_modify]
  by_cases hx : x = rid
  · rw [hx, if_pos rfl, hslot, Function.update_self]
    rfl
  · rw [if_neg hx, Function.update_of_ne hx]

/-- Writing into a slot that is not live. -/
theorem live_write_dead (h : t.live rid = none) (hw : t.write rid r' = .ok t') : t'.live = t.live := by
  unfold write at hw
  cases hr : t.read rid with
  | error e => rw [hr] at hw; cases hw
  | ok old =>
    rw [hr] at hw
    cases hw
    obtain ⟨u, hslot⟩ := slotAt_of_read hr
    have hu : u = false := by
      cases u with
      | false => rfl
      | true => rw [live_eq_some.2 hslot] at h; cases h
    funext x
    unfold live
    rw [slotAt_modify]
    by_cases hx : x = rid
    · rw [hx, if_pos rfl, hslot, hu]
      rfl
    · rw [if_neg hx]

/-- **Freeing a live record.** -/
theorem live_free (h : t.live rid = some r) :
    ∃ t', t.free rid = .ok t' ∧ t'.live = Function.update t.live rid none := by
  have hslot := live_eq_some.1 h
  unfold free
  rw [read_of_live h]
  refine ⟨_, rfl, funext fun x => ?_⟩
  have hlive : (t.modify rid fun slot => { slot with used := false }).live x =
      Function.update t.live rid none x := by
    unfold live
    rw [slotAt_modify]
    by_cases hx : x = rid
    · rw [hx, if_pos rfl, hslot, Function.update_self]
      rfl
    · rw [if_neg hx, Function.update_of_ne hx]
  split
  · exact hlive
  · exact hlive

theorem ridOf_toNat {logical : Nat} (h : logical < UInt32.size) (slot : Fin SLOTS) :
    (ridOf logical slot).pageId.toNat = logical ∧ (ridOf logical slot).slotId.toNat = slot := by
  have hs : slot.val < 63 := slot.isLt
  constructor
  · exact Nat.mod_eq_of_lt h
  · exact Nat.mod_eq_of_lt (show slot.val < 65536 by omega)

theorem slotAt_ridOf {logical : Nat} (h : logical < UInt32.size) (slot : Fin SLOTS) :
    t.slotAt (ridOf logical slot) = (t.pages[logical]?).map fun page => page slot := by
  obtain ⟨hp, hs⟩ := ridOf_toNat h slot
  unfold slotAt
  rw [hp]
  cases t.pages[logical]? with
  | none => rfl
  | some page =>
    have hlt : (ridOf logical slot).slotId.toNat < SLOTS := by rw [hs]; exact slot.isLt
    rw [Option.bind_some, dif_pos hlt, Option.map_some]
    exact congrArg (fun i => some (page i)) (Fin.ext hs)

/-- What an allocation does: a slot that was not live is, and it can be read. -/
structure Allocated (t t' : RecordTable R) (rid : RecordId) : Prop where
  fresh : t.live rid = none
  live : ∃ r, t'.live = Function.update t.live rid (some r)

theorem findFree_spec {logical : Nat} {slot : Fin SLOTS} (h : t.findFree = some (logical, slot)) :
    ∃ page, t.pages[logical]? = some page ∧ (page slot).used = false := by
  unfold findFree at h
  obtain ⟨l, -, hl⟩ := List.exists_of_findSome?_eq_some h
  cases hp : t.pages[l]? with
  | none => rw [hp] at hl; cases hl
  | some page =>
    rw [hp, Option.bind_some] at hl
    cases hf : page.firstFree with
    | none => rw [hf] at hl; cases hl
    | some s =>
      rw [hf] at hl
      cases hl
      refine ⟨page, hp, ?_⟩
      have := List.find?_some hf
      simpa using this

/-- **Taking a free slot.** -/
theorem allocated_take {logical : Nat} {slot : Fin SLOTS} (h : t.findFree = some (logical, slot)) :
    Allocated t (t.take logical slot) (ridOf logical slot) := by
  obtain ⟨page, hp, hfree⟩ := findFree_spec h
  have hlt : logical < UInt32.size :=
    Nat.lt_trans (List.getElem?_eq_some_iff.1 hp).1 t.small
  have hslot : t.slotAt (ridOf logical slot) = some (page slot) := by
    rw [slotAt_ridOf hlt, hp]
    rfl
  refine ⟨?_, (page slot).record, ?_⟩
  · cases hl : t.live (ridOf logical slot) with
    | none => rfl
    | some r =>
      have := live_eq_some.1 hl
      rw [hslot] at this
      rw [Option.some.inj this] at hfree
      cases hfree
  · have hlive : (t.modify (ridOf logical slot) fun slot => { slot with used := true }).live =
        Function.update t.live (ridOf logical slot) (some (page slot).record) := by
      funext x
      unfold live
      rw [slotAt_modify]
      by_cases hx : x = ridOf logical slot
      · rw [hx, if_pos rfl, hslot, Function.update_self]
        rfl
      · rw [if_neg hx, Function.update_of_ne hx]
    unfold take
    dsimp only
    split
    · exact hlive
    · exact hlive

/-- **A fresh page.** -/
theorem allocated_grow {blank : R} (h : t.pages.length + 1 < UInt32.size) :
    Allocated t (t.grow blank h) (ridOf t.pages.length ⟨0, by decide⟩) := by
  have hlt : t.pages.length < UInt32.size := t.small
  refine ⟨?_, blank, funext fun x => ?_⟩
  · unfold live
    rw [slotAt_ridOf hlt, List.getElem?_eq_none (Nat.le_refl _)]
    rfl
  · unfold live slotAt grow
    dsimp only
    rcases Nat.lt_trichotomy x.pageId.toNat t.pages.length with hx | hx | hx
    · have hne : x ≠ ridOf t.pages.length ⟨0, by decide⟩ := by
        rintro rfl
        rw [(ridOf_toNat hlt _).1] at hx
        omega
      rw [List.getElem?_append_left hx, Function.update_of_ne hne]
    · rw [hx, List.getElem?_append_right (Nat.le_refl _), Nat.sub_self, List.getElem?_cons_zero,
        Option.bind_some]
      by_cases hs : x.slotId.toNat = 0
      · have he : x = ridOf t.pages.length ⟨0, by decide⟩ := by
          obtain ⟨hp', hs'⟩ := ridOf_toNat hlt ⟨0, by decide⟩
          exact RecordId.ext_toNat (hx.trans hp'.symm) (hs.trans hs'.symm)
        rw [he, Function.update_self]
        rfl
      · have hne : x ≠ ridOf t.pages.length ⟨0, by decide⟩ := by
          rintro rfl
          exact hs (ridOf_toNat hlt _).2
        rw [Function.update_of_ne hne]
        have hold : t.pages[x.pageId.toNat]? = none := List.getElem?_eq_none (by omega)
        rw [hold]
        split
        · simp [hs]
        · rfl
    · have hne : x ≠ ridOf t.pages.length ⟨0, by decide⟩ := by
        rintro rfl
        rw [(ridOf_toNat hlt _).1] at hx
        omega
      rw [Function.update_of_ne hne, List.getElem?_eq_none (by simp; omega),
        List.getElem?_eq_none (by omega)]

end Operations

/-! ## The live slots -/

section LiveRids

variable {t : RecordTable R}

theorem mem_livePage {logical : Nat} {page : SlotPage R} {rid : RecordId} :
    rid ∈ livePage logical page ↔ ∃ slot, (page slot).used = true ∧ ridOf logical slot = rid := by
  simp [livePage]

/-- The page and the slot of a live record. -/
theorem live_iff {rid : RecordId} : (∃ r, t.live rid = some r) ↔ ∃ logical page slot,
    t.pages[logical]? = some page ∧ (page slot).used = true ∧ ridOf logical slot = rid := by
  constructor
  · rintro ⟨r, hr⟩
    have hslot := live_eq_some.1 hr
    unfold slotAt at hslot
    cases hp : t.pages[rid.pageId.toNat]? with
    | none => rw [hp] at hslot; cases hslot
    | some page =>
      rw [hp, Option.bind_some] at hslot
      split at hslot
      · rename_i hlt
        refine ⟨_, page, ⟨_, hlt⟩, hp, by rw [Option.some.inj hslot], ?_⟩
        obtain ⟨p, s⟩ := rid
        show (⟨UInt32.ofNat p.toNat, UInt16.ofNat s.toNat⟩ : RecordId) = ⟨p, s⟩
        rw [UInt32.ofNat_toNat, UInt16.ofNat_toNat]
      · cases hslot
  · rintro ⟨logical, page, slot, hp, hu, rfl⟩
    have hlt : logical < UInt32.size := Nat.lt_trans (List.getElem?_eq_some_iff.1 hp).1 t.small
    refine ⟨(page slot).record, live_eq_some.2 ?_⟩
    rw [slotAt_ridOf hlt, hp, Option.map_some, ← hu]

theorem mem_liveRids {rid : RecordId} : rid ∈ t.liveRids ↔ ∃ r, t.live rid = some r := by
  rw [live_iff]
  unfold liveRids
  simp only [List.mem_flatten, List.mem_mapIdx]
  constructor
  · rintro ⟨rids, ⟨i, hi, rfl⟩, hmem⟩
    obtain ⟨slot, hu, he⟩ := mem_livePage.1 hmem
    exact ⟨i, _, slot, List.getElem?_eq_getElem hi, hu, he⟩
  · rintro ⟨i, page, slot, hp, hu, he⟩
    obtain ⟨hi, rfl⟩ := List.getElem?_eq_some_iff.1 hp
    exact ⟨_, ⟨i, hi, rfl⟩, mem_livePage.2 ⟨slot, hu, he⟩⟩

theorem nodup_liveRids : t.liveRids.Nodup := by
  have hinj : ∀ {i j : Nat} {s s' : Fin SLOTS}, i < UInt32.size → j < UInt32.size →
      ridOf i s = ridOf j s' → i = j ∧ s = s' := by
    intro i j s s' hi hj he
    obtain ⟨hp, hs⟩ := ridOf_toNat hi s
    obtain ⟨hp', hs'⟩ := ridOf_toNat hj s'
    rw [he] at hp hs
    exact ⟨hp.symm.trans hp', Fin.ext (hs.symm.trans hs')⟩
  unfold liveRids
  refine List.nodup_flatten.2 ⟨?_, List.pairwise_iff_getElem.2 ?_⟩
  · intro rids hmem
    obtain ⟨i, hi, rfl⟩ := List.mem_mapIdx.1 hmem
    have hi' : i < UInt32.size := Nat.lt_trans hi t.small
    exact ((List.nodup_finRange _).filter _).map fun s s' he => (hinj hi' hi' he).2
  · intro i j hi hj hij rid hmem hmem'
    rw [List.getElem_mapIdx] at hmem hmem'
    rw [List.length_mapIdx] at hi hj
    obtain ⟨s, -, he⟩ := mem_livePage.1 hmem
    obtain ⟨s', -, he'⟩ := mem_livePage.1 hmem'
    have := (hinj (Nat.lt_trans hi t.small) (Nat.lt_trans hj t.small) (he.trans he'.symm)).1
    omega

theorem length_liveRids_le : t.liveRids.length ≤ t.pages.length * SLOTS := by
  have hpage : ∀ k ∈ (t.pages.mapIdx livePage).map List.length, k ≤ SLOTS := by
    intro k hk
    obtain ⟨rids, hmem, rfl⟩ := List.mem_map.1 hk
    obtain ⟨i, hi, rfl⟩ := List.mem_mapIdx.1 hmem
    unfold livePage
    rw [List.length_map]
    exact (List.length_filter_le _ _).trans (List.length_finRange).le
  have hsum := List.sum_le_card_nsmul _ _ hpage
  rw [List.length_map, List.length_mapIdx] at hsum
  unfold liveRids
  rw [List.length_flatten]
  exact hsum

/-- A list of live records without a repetition is no longer than there are slots. -/
theorem length_le_slots {rids : List RecordId} (hnd : rids.Nodup) (hlive : ∀ rid ∈ rids, ∃ r, t.live rid = some r) :
    rids.length ≤ t.pages.length * SLOTS :=
  (hnd.subperm fun rid hrid => mem_liveRids.2 (hlive rid hrid)).length_le.trans length_liveRids_le

end LiveRids

end RecordTable

end ChiffonDB

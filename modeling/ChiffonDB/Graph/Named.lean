import ChiffonDB.Graph.Topo

/-!
# Records in their slots

A record is written into the slot that it names, so that every record which has been written is where
its id says, in a free slot as well.

* `RecordTable.Named`, `Topo.Named` — a slot holds a record of its own, or is one of a fresh page.
* `Topo.keeps_writeNode`, `Topo.keeps_deleteEdge` — **every call of the store keeps this**.
-/

set_option autoImplicit false

namespace ChiffonDB

open Action

namespace RecordTable

variable {R : Type} {id : R → RecordId} {blank : R} {t t' : RecordTable R} {rid : RecordId} {r : R}

/-- The record of a slot names the slot, unless it is the blank one of a fresh page. -/
def Named (id : R → RecordId) (blank : R) (t : RecordTable R) : Prop :=
  ∀ rid r, t.read rid = .ok r → id r = rid ∨ r = blank

theorem read_eq_ok : t.read rid = .ok r ↔ ∃ u, t.slotAt rid = some ⟨u, r⟩ :=
  ⟨slotAt_of_read, fun ⟨_, h⟩ => read_of_slotAt h⟩

theorem named_empty : (empty : RecordTable R).Named id blank := fun rid r h => by cases h

/-- A slot changes its bit, or gets a record that names it. -/
theorem Named.modify (h : t.Named id blank) {f : Slot R → Slot R}
    (hf : ∀ s, (f s).record = s.record ∨ id (f s).record = rid) : (t.modify rid f).Named id blank := by
  intro x r hx
  obtain ⟨u, hslot⟩ := read_eq_ok.1 hx
  rw [slotAt_modify] at hslot
  split at hslot
  · rename_i hxr
    obtain ⟨s, hs, hfs⟩ := Option.map_eq_some_iff.1 hslot
    have hr : (f s).record = r := congrArg Slot.record hfs
    rcases hf s with hsame | hid
    · exact hxr ▸ h rid r (read_eq_ok.2 ⟨s.used, by rw [hs, ← hr, hsame]⟩)
    · rw [hr] at hid
      exact .inl (hid.trans hxr.symm)
  · exact h x r (read_eq_ok.2 ⟨u, hslot⟩)

theorem Named.write (h : t.Named id blank) (hw : t.write (id r) r = .ok t') : t'.Named id blank := by
  unfold RecordTable.write at hw
  cases hr : t.read (id r) with
  | error e => rw [hr] at hw; cases hw
  | ok old =>
    rw [hr] at hw
    cases hw
    exact h.modify fun _ => .inr rfl

theorem Named.free (h : t.Named id blank) (hf : t.free rid = .ok t') : t'.Named id blank := by
  have hbit : (t.modify rid fun slot => { slot with used := false }).Named id blank := h.modify fun _ => .inl rfl
  unfold RecordTable.free at hf
  cases hr : t.read rid with
  | error e => rw [hr] at hf; cases hf
  | ok old =>
    rw [hr] at hf
    cases hf
    split
    · exact hbit
    · exact hbit

theorem Named.take (h : t.Named id blank) (logical : Nat) (slot : Fin SLOTS) :
    (t.take logical slot).Named id blank := by
  have hbit : (t.modify (ridOf logical slot) fun slot => { slot with used := true }).Named id blank :=
    h.modify fun _ => .inl rfl
  unfold RecordTable.take
  dsimp only
  split
  · exact hbit
  · exact hbit

theorem Named.grow (h : t.Named id blank) (hlt : t.pages.length + 1 < UInt32.size) :
    (t.grow blank hlt).Named id blank := by
  intro x r hx
  unfold RecordTable.read RecordTable.grow at hx
  dsimp only at hx
  by_cases hp : x.pageId.toNat < t.pages.length
  · rw [List.getElem?_append_left hp] at hx
    exact h x r hx
  · rw [List.getElem?_append_right (Nat.le_of_not_lt hp)] at hx
    rcases hk : x.pageId.toNat - t.pages.length with _ | k
    · rw [hk, List.getElem?_cons_zero] at hx
      dsimp only at hx
      split at hx
      · cases hx
        exact .inr rfl
      · cases hx
    · rw [hk] at hx
      cases hx

end RecordTable

namespace Topo

/-- The records of both tables are in their slots. -/
structure Named (t : Topo) : Prop where
  nodes : t.nodes.Named NodeRecord.id NodeRecord.blank
  edges : t.edges.Named EdgeRecord.id EdgeRecord.blank

theorem named_empty : empty.Named := ⟨RecordTable.named_empty, RecordTable.named_empty⟩

theorem keeps_reads {α : Type} (f : Topo → Outcome α) : Keeps Named (.reads f) :=
  Meets.reads (fun _ _ h _ => h) fun _ h => h

theorem keeps_writeNode (node : NodeRecord) : Keeps Named (writeNode node) := by
  refine Meets.update (fun t t' h ht => ?_) fun _ h => h
  cases hw : t.nodes.write node.id node with
  | error e => rw [hw] at ht; cases ht
  | ok nodes =>
    rw [hw] at ht
    cases ht
    exact ⟨h.nodes.write hw, h.edges⟩

theorem keeps_writeEdge (edge : EdgeRecord) : Keeps Named (writeEdge edge) := by
  refine Meets.update (fun t t' h ht => ?_) fun _ h => h
  cases hw : t.edges.write edge.id edge with
  | error e => rw [hw] at ht; cases ht
  | ok edges =>
    rw [hw] at ht
    cases ht
    exact ⟨h.nodes, h.edges.write hw⟩

theorem keeps_freeNode (rid : RecordId) : Keeps Named (freeNode rid) := by
  refine Meets.update (fun t t' h ht => ?_) fun _ h => h
  cases hw : t.nodes.free rid with
  | error e => rw [hw] at ht; cases ht
  | ok nodes =>
    rw [hw] at ht
    cases ht
    exact ⟨h.nodes.free hw, h.edges⟩

theorem keeps_appendEdge (dir : EdgeDirection) (node edge : RecordId) : Keeps Named (appendEdge dir node edge) :=
  Meets.bind (keeps_reads _) fun _ => Meets.bind (keeps_reads _) fun _ =>
    Meets.bind (keeps_writeEdge _) fun _ => keeps_writeNode _

theorem keeps_unlink (dir : EdgeDirection) (target : RecordId) (targetNext : Option RecordId) (fuel : Nat)
    (start : Option RecordId) : Keeps Named (unlink dir target targetNext fuel start) := by
  induction fuel generalizing start with
  | zero =>
    cases start with
    | none => exact Meets.pure fun _ h => h
    | some rid => exact Meets.panic
  | succ fuel ih =>
    cases start with
    | none => exact Meets.pure fun _ h => h
    | some rid =>
      refine Meets.bind (keeps_reads _) fun edge => ?_
      split
      · exact keeps_writeEdge _
      · exact ih _

theorem keeps_removeFromList (dir : EdgeDirection) (node target : RecordId) (targetNext : Option RecordId) :
    Keeps Named (removeFromList dir node target targetNext) := by
  refine Meets.bind (keeps_reads _) fun node => ?_
  split
  · exact keeps_writeNode _
  · exact Meets.bind (Meets.get (R := fun _ => Named) fun _ h => h) fun _ => keeps_unlink _ _ _ _ _

/-- **`delete_edge`.** -/
theorem keeps_deleteEdge (rid : RecordId) : Keeps Named (deleteEdge rid) := by
  refine Meets.bind (keeps_reads _) fun edge => Meets.bind (keeps_removeFromList _ _ _ _) fun _ =>
    Meets.bind (keeps_removeFromList _ _ _ _) fun _ => Meets.update (fun t t' h ht => ?_) fun _ h => h
  cases hw : t.edges.free rid with
  | error e => rw [hw] at ht; cases ht
  | ok edges =>
    rw [hw] at ht
    cases ht
    exact ⟨h.nodes, h.edges.free hw⟩

end Topo

end ChiffonDB

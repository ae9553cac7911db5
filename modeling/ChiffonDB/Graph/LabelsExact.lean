import ChiffonDB.Graph.EdgeEffects
import ChiffonDB.Lib.Inverted

/-!
# The label index on contents

* `Contents.LabelsExact` — the label index has every live node once under each of its labels, and nothing else.
* `Contents.LabelsExact.insertNode`, `.relabel`, `.deleteNode` — **what the operations on nodes do to it**.
-/

set_option autoImplicit false

set_option linter.unusedSectionVars false

namespace ChiffonDB

open Action PropertyIndex

variable {F : Type} [F64 F] [F64Text F] {M : Type} [FaithfulBacking M]

/-! ## Record ids under labels -/

section Lists

variable {rid x : RecordId} {ids old new : List UInt16} {l : UInt16 → Multiset RecordId} {t : UInt16}

theorem mem_labelAll : x ∈ labelAll rid ids l t ↔ x ∈ l t ∨ x = rid ∧ t ∈ ids := by
  induction ids generalizing l with
  | nil => simp [labelAll]
  | cons id ids ih =>
    show x ∈ labelAll rid ids (Function.update l id (rid ::ₘ l id)) t ↔ _
    rw [ih, List.mem_cons]
    by_cases h : t = id
    · subst h
      rw [Function.update_self, Multiset.mem_cons]
      tauto
    · rw [Function.update_of_ne h]
      tauto

theorem nodup_update (hl : ∀ t, (l t).Nodup) {id : UInt16} {rids : Multiset RecordId} (hr : rids.Nodup) (t : UInt16) :
    (Function.update l id rids t).Nodup := by
  by_cases h : t = id
  · rw [h, Function.update_self]
    exact hr
  · rw [Function.update_of_ne h]
    exact hl t

theorem nodup_labelAll (hl : ∀ t, (l t).Nodup) (hids : ids.Nodup) (hnew : ∀ id ∈ ids, rid ∉ l id) :
    (labelAll rid ids l t).Nodup := by
  induction ids generalizing l with
  | nil => exact hl t
  | cons id ids ih =>
    obtain ⟨hout, hids⟩ := List.nodup_cons.1 hids
    refine ih (nodup_update hl (Multiset.nodup_cons.2 ⟨hnew id List.mem_cons_self, hl id⟩)) hids fun id' hid' => ?_
    have hne : id' ≠ id := by
      rintro rfl
      exact hout hid'
    show rid ∉ Function.update l id (rid ::ₘ l id) id'
    rw [Function.update_of_ne hne]
    exact hnew id' (List.mem_cons_of_mem _ hid')

theorem nodup_unlabelAll (hl : ∀ t, (l t).Nodup) : (unlabelAll rid ids l t).Nodup := by
  induction ids generalizing l with
  | nil => exact hl t
  | cons id ids ih => exact ih (nodup_update hl ((hl id).erase rid))

theorem mem_unlabelAll (hl : ∀ t, (l t).Nodup) : x ∈ unlabelAll rid ids l t ↔ x ∈ l t ∧ ¬ (x = rid ∧ t ∈ ids) := by
  induction ids generalizing l with
  | nil => simp [unlabelAll]
  | cons id ids ih =>
    show x ∈ unlabelAll rid ids (Function.update l id ((l id).erase rid)) t ↔ _
    rw [ih (nodup_update hl ((hl id).erase rid)), List.mem_cons]
    by_cases h : t = id
    · subst h
      rw [Function.update_self, (hl t).mem_erase_iff]
      tauto
    · rw [Function.update_of_ne h]
      tauto

end Lists

/-! ## The invariant -/

namespace NodeRow

/-- The primary type of a node and its additional labels. -/
def typeIds (row : NodeRow F) : List UInt16 := row.typeId :: row.labels

end NodeRow

namespace Contents

/-- The label index has every live node once under each of its labels, and nothing else. -/
structure LabelsExact (c : Contents F) : Prop where
  nodup : ∀ t, (c.labelled t).Nodup
  inverts : Inverts (fun (row : NodeRow F) t => t ∈ row.typeIds) c.nodes fun t rid => rid ∈ c.labelled t
  normal : ∀ rid row, c.nodes rid = some row → row.typeIds.Nodup

variable {c : Contents F} {rid : RecordId} {row : NodeRow F}

theorem labelsExact_empty {c : Contents F} (hn : ∀ rid, c.nodes rid = none) (hl : ∀ t, c.labelled t = 0) :
    c.LabelsExact where
  nodup t := by
    rw [hl]
    exact Multiset.nodup_zero
  inverts t rid := by
    show rid ∈ c.labelled t ↔ _
    rw [hl, hn]
    exact ⟨fun h => absurd h (Multiset.notMem_zero _), fun ⟨_, h, _⟩ => by cases h⟩
  normal rid row h := by
    rw [hn] at h
    cases h

namespace LabelsExact

/-- Neither the labels nor the index change. -/
theorem congr {c' : Contents F} (h : c.LabelsExact) (hl : c'.labelled = c.labelled)
    (hn : ∀ rid, (c'.nodes rid).map NodeRow.typeIds = (c.nodes rid).map NodeRow.typeIds) : c'.LabelsExact := by
  have hrow : ∀ {rid row'}, c'.nodes rid = some row' → ∃ row, c.nodes rid = some row ∧ row.typeIds = row'.typeIds := by
    intro rid row' hr
    have hmap := hn rid
    rw [hr, Option.map_some] at hmap
    exact Option.map_eq_some_iff.1 hmap.symm
  have hrow' : ∀ {rid row}, c.nodes rid = some row → ∃ row', c'.nodes rid = some row' ∧ row'.typeIds = row.typeIds := by
    intro rid row hr
    have hmap := hn rid
    rw [hr, Option.map_some] at hmap
    exact Option.map_eq_some_iff.1 hmap
  refine ⟨fun t => by rw [hl]; exact h.nodup t, fun t rid => ?_, fun rid row' hr => ?_⟩
  · show rid ∈ c'.labelled t ↔ _
    rw [hl]
    refine (h.inverts t rid).trans ⟨?_, ?_⟩
    · rintro ⟨row, hr, ht⟩
      obtain ⟨row', hr', he⟩ := hrow' hr
      exact ⟨row', hr', (congrArg (t ∈ ·) he).mpr ht⟩
    · rintro ⟨row', hr', ht⟩
      obtain ⟨row, hr, he⟩ := hrow hr'
      exact ⟨row, hr, (congrArg (t ∈ ·) he).mpr ht⟩
  · obtain ⟨row, hr, he⟩ := hrow hr
    rw [← he]
    exact h.normal rid row hr

/-- **A new node.** -/
theorem insertNode (h : c.LabelsExact) (C : Codecs F) (hfresh : c.nodes rid = none) (typeId : UInt16) (props : Props F) :
    (c.insertNode C rid typeId props).LabelsExact where
  nodup t := nodup_labelAll h.nodup (List.nodup_singleton typeId) fun id _ => h.inverts.not_has hfresh
  inverts := by
    refine h.inverts.update (fun t => ?_) fun t x hx => ?_
    · show rid ∈ labelAll rid [typeId] c.labelled t ↔ _
      have hout : rid ∉ c.labelled t := h.inverts.not_has hfresh
      rw [mem_labelAll]
      refine ⟨fun hm => ⟨_, rfl, (hm.resolve_left hout).2⟩, ?_⟩
      rintro ⟨row, hrow, ht⟩
      cases hrow
      exact .inr ⟨rfl, ht⟩
    · show x ∈ labelAll rid [typeId] c.labelled t ↔ _
      rw [mem_labelAll]
      exact or_iff_left fun hm => hx hm.1
  normal x row hrow := by
    rcases update_eq_some (show Function.update c.nodes rid _ x = _ from hrow) with ⟨-, he⟩ | ⟨-, hold⟩
    · cases he
      exact List.nodup_singleton typeId
    · exact h.normal x row hold

/-- **A node goes.** -/
theorem deleteNode (h : c.LabelsExact) (C : Codecs F) (hrow : c.nodes rid = some row) :
    (c.deleteNode C rid row).LabelsExact where
  nodup t := nodup_unlabelAll h.nodup
  inverts := by
    refine h.inverts.update (fun t => ?_) fun t x hx => ?_
    · show rid ∈ unlabelAll rid (row.typeId :: row.labels) c.labelled t ↔ _
      rw [mem_unlabelAll h.nodup]
      refine ⟨fun hm => absurd ⟨rfl, (h.inverts.has_iff hrow).1 hm.1⟩ hm.2, ?_⟩
      rintro ⟨_, hnone, -⟩
      cases hnone
    · show x ∈ unlabelAll rid (row.typeId :: row.labels) c.labelled t ↔ _
      rw [mem_unlabelAll h.nodup]
      exact and_iff_left fun hm => hx hm.1
  normal x row' hrow' := by
    rcases update_eq_some (show Function.update c.nodes rid _ x = _ from hrow') with ⟨-, he⟩ | ⟨-, hold⟩
    · cases he
    · exact h.normal x row' hold

/-- **A node gets other labels.** -/
theorem relabel (h : c.LabelsExact) (hrow : c.nodes rid = some row) {labels : List UInt16}
    (hnd : (row.typeId :: labels).Nodup) : (c.relabel rid row labels).LabelsExact := by
  have hprimary : row.typeId ∉ labels ∧ row.typeId ∉ row.labels :=
    ⟨(List.nodup_cons.1 hnd).1, (List.nodup_cons.1 (h.normal rid row hrow)).1⟩
  have hat : ∀ t, rid ∈ c.labelled t ↔ t = row.typeId ∨ t ∈ row.labels := fun t =>
    (h.inverts.has_iff hrow).trans List.mem_cons
  refine ⟨fun t => ?_, h.inverts.update (fun t => ?_) fun t x hx => ?_, fun x row' hrow' => ?_⟩
  · refine nodup_labelAll (fun t => nodup_unlabelAll h.nodup) ((List.nodup_cons.1 hnd).2.filter _) fun id hid hm => ?_
    rw [mem_unlabelAll h.nodup, hat] at hm
    rw [List.mem_filter, decide_eq_true_eq] at hid
    rcases hm.1 with rfl | hold
    · exact hprimary.1 hid.1
    · exact hid.2 hold
  · show rid ∈ moveAll rid row.labels labels c.labelled t ↔ _
    unfold moveAll
    rw [mem_labelAll, mem_unlabelAll h.nodup, hat, List.mem_filter, List.mem_filter, decide_eq_true_eq, decide_eq_true_eq]
    refine Iff.trans (b := t = row.typeId ∨ t ∈ labels) ?_
      ⟨fun hm => ⟨_, rfl, List.mem_cons.2 hm⟩, fun ⟨_, he, hm⟩ => by cases he; exact List.mem_cons.1 hm⟩
    have hne : t = row.typeId → t ∉ row.labels := by
      rintro rfl
      exact hprimary.2
    tauto
  · show x ∈ moveAll rid row.labels labels c.labelled t ↔ _
    unfold moveAll
    rw [mem_labelAll, mem_unlabelAll h.nodup]
    tauto
  · rcases update_eq_some (show Function.update c.nodes rid _ x = _ from hrow') with ⟨-, he⟩ | ⟨-, hold⟩
    · cases he
      exact hnd
    · exact h.normal x row' hold

end LabelsExact

end Contents

/-- A normalized label list has each label once, and not the primary type. -/
theorem nodup_normalizeLabels (primary : UInt16) (labels : List UInt16) :
    (primary :: normalizeLabels primary labels).Nodup := by
  refine List.nodup_cons.2 ⟨fun hm => ?_, nodup_eraseDups _ _ (Nat.le_refl _)⟩
  have hmem := List.mem_eraseDups.1 hm
  rw [List.mem_filter, decide_eq_true_eq] at hmem
  exact hmem.2 rfl

end ChiffonDB

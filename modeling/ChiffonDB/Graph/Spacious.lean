import ChiffonDB.Graph.Room

/-!
# Room in memory

* `Graph.Spacious` — the numbers and the pages that are left in memory.
* `Graph.Spacious.roomy` — **they are room for that many calls**.
-/

set_option autoImplicit false

set_option linter.unusedSectionVars false

namespace ChiffonDB

open Action PropertyIndex

/-- The ids of values are told apart up to the end of their numbers. -/
theorem Parts.ridOf_injective {m n : Nat} (hm : m < 2 ^ 48) (hn : n < 2 ^ 48) (h : Parts.ridOf m = Parts.ridOf n) : m = n := by
  unfold Parts.ridOf at h
  have hpage := congrArg (fun r : RecordId => r.pageId.toNat) h
  have hslot := congrArg (fun r : RecordId => r.slotId.toNat) h
  have hsize : UInt16.size = 65536 := rfl
  simp only [UInt32.toNat_ofNat', UInt16.toNat_ofNat', hsize] at hpage hslot
  omega

namespace Graph

/-- There are numbers for `n` more values, and pages for `n` more records of each kind. -/
structure Spacious (n : Nat) (g : Graph Parts) : Prop where
  values : ∀ k, g.pages.next ≤ k → k < 2 ^ 48 → g.pages.values (Parts.ridOf k) = none
  next : g.pages.next + n ≤ 2 ^ 48
  nodes : g.topo.nodes.pages.length + n < UInt32.size
  edges : g.topo.edges.pages.length + n < UInt32.size

namespace Spacious

variable {n : Nat} {g : Graph Parts}

theorem empty (h : n < UInt32.size) : Spacious n (Graph.empty : Graph Parts) := by
  have hsize : UInt32.size = 4294967296 := rfl
  refine ⟨fun _ _ _ => rfl, ?_, ?_, ?_⟩
  · show 0 + n ≤ _
    omega
  · show 0 + n < _
    omega
  · show 0 + n < _
    omega

/-- The same values, and as many pages. -/
theorem keep (h : Spacious (n + 1) g) {g' : Graph Parts} (hv : g'.pages.values = g.pages.values)
    (hx : g'.pages.next = g.pages.next) (hn : g'.topo.nodes.pages.length ≤ g.topo.nodes.pages.length + 1)
    (he : g'.topo.edges.pages.length ≤ g.topo.edges.pages.length + 1) : Spacious n g' := by
  have hnodes := h.nodes
  have hedges := h.edges
  have hnext := h.next
  refine ⟨?_, ?_, ?_, ?_⟩
  · rw [hv, hx]
    exact h.values
  · omega
  · omega
  · omega

theorem writeBytes (h : Spacious (n + 1) g) (bytes : List UInt8) :
    (StoreCall.run (.value bytes) g).1 ≠ .panic ∧ Spacious n (StoreCall.run (.value bytes) g).2 := by
  have hnext := h.next
  have hfree := h.values g.pages.next (Nat.le_refl _) (by omega)
  have hrun : StoreCall.run (.value bytes) g = (.ok (), { g with pages := { g.pages with
      values := Function.update g.pages.values (Parts.ridOf g.pages.next) (some bytes), next := g.pages.next + 1 } }) := by
    have hwrite : Backing.writeBytes bytes g.pages = (.ok (Parts.ridOf g.pages.next), { g.pages with
        values := Function.update g.pages.values (Parts.ridOf g.pages.next) (some bytes), next := g.pages.next + 1 }) := by
      dsimp only [Backing.writeBytes]
      rw [hfree]
    show (drop (onPages (Backing.writeBytes bytes)) : Action (Graph Parts) Unit) g = _
    unfold drop onPages
    rw [Action.run_bind, Action.zoom, hwrite]
    rfl
  rw [hrun]
  refine ⟨by rintro ⟨⟩, fun k hk hlt => ?_, ?_, ?_, ?_⟩
  · have hk : g.pages.next + 1 ≤ k := hk
    show Function.update g.pages.values _ _ _ = none
    rw [Function.update_of_ne, h.values k (by omega) hlt]
    intro he
    have := Parts.ridOf_injective hlt (by omega) he
    omega
  · show g.pages.next + 1 + n ≤ _
    omega
  · have := h.nodes
    show g.topo.nodes.pages.length + n < _
    omega
  · have := h.edges
    show g.topo.edges.pages.length + n < _
    omega

/-- A slot of a table is taken, or the table grows by a page. -/
theorem allocSlot {R : Type} (kind : TopologyKind) (table : Topo → RecordTable R) (put : Topo → RecordTable R → Topo)
    (blank : R) (hroom : (table g.topo).pages.length + 1 < UInt32.size) :
    ∃ rid table', Graph.allocSlot kind table put blank g = (.ok rid, { g with topo := put g.topo table' }) ∧
      table'.pages.length ≤ (table g.topo).pages.length + 1 := by
  cases hfind : (table g.topo).findFree with
  | some found =>
    obtain ⟨logical, slot⟩ := found
    refine ⟨_, _, run_allocSlot_some hfind, ?_⟩
    unfold RecordTable.take
    split <;> simp [RecordTable.modify]
  | none =>
    refine ⟨RecordTable.ridOf (table g.topo).pages.length ⟨0, by decide⟩, (table g.topo).grow blank hroom, ?_, ?_⟩
    · rw [run_allocSlot_none hfind]
      show (if h : (table g.topo).pages.length + 1 < UInt32.size then _ else _ : Action (Graph Parts) RecordId) g = _
      rw [dif_pos hroom]
      rfl
    · simp [RecordTable.grow]

/-- A record is written where there is one. -/
theorem length_write {R : Type} {t t' : RecordTable R} {rid : RecordId} {r : R} (h : t.write rid r = .ok t') :
    t'.pages.length = t.pages.length := by
  unfold RecordTable.write at h
  cases hr : t.read rid with
  | error e =>
    rw [hr] at h
    cases h
  | ok old =>
    rw [hr] at h
    cases h
    simp [RecordTable.modify]

/-- A change of the records that may be refused. -/
theorem update (h : Spacious (n + 1) g) {f : Topo → Except GraphError Topo}
    (hf : ∀ t, f g.topo = .ok t → t.nodes.pages.length ≤ g.topo.nodes.pages.length + 1 ∧
      t.edges.pages.length ≤ g.topo.edges.pages.length + 1) :
    (onTopo (Action.update f) g).1 ≠ .panic ∧ Spacious n (onTopo (Action.update f) g).2 := by
  unfold onTopo zoom Action.update
  cases hw : f g.topo with
  | ok t => exact ⟨by rintro ⟨⟩, h.keep rfl rfl (hf t hw).1 (hf t hw).2⟩
  | error e => exact ⟨by rintro ⟨⟩, h.keep rfl rfl (Nat.le_succ _) (Nat.le_succ _)⟩

theorem call (h : Spacious (n + 1) g) (c : StoreCall) : (c.run g).1 ≠ .panic ∧ Spacious n (c.run g).2 := by
  cases c with
  | value bytes => exact h.writeBytes bytes
  | nodeSlot =>
    have hroom := h.nodes
    obtain ⟨rid, nodes, hrun, hlen⟩ := allocSlot (g := g) .node Topo.nodes (fun t nodes => { t with nodes := nodes })
      NodeRecord.blank (by omega)
    have hcall : StoreCall.run .nodeSlot g = (.ok (), { g with topo := { g.topo with nodes := nodes } }) := by
      show Action.andThen (Graph.allocSlot _ _ _ _ g) _ = _
      rw [hrun]
      rfl
    rw [hcall]
    exact ⟨by rintro ⟨⟩, h.keep rfl rfl hlen (Nat.le_succ _)⟩
  | edgeSlot =>
    have hroom := h.edges
    obtain ⟨rid, edges, hrun, hlen⟩ := allocSlot (g := g) .edge Topo.edges (fun t edges => { t with edges := edges })
      EdgeRecord.blank (by omega)
    have hcall : StoreCall.run .edgeSlot g = (.ok (), { g with topo := { g.topo with edges := edges } }) := by
      show Action.andThen (Graph.allocSlot _ _ _ _ g) _ = _
      rw [hrun]
      rfl
    rw [hcall]
    exact ⟨by rintro ⟨⟩, h.keep rfl rfl (Nat.le_succ _) hlen⟩
  | node r =>
    refine h.update fun t' hw => ?_
    cases hrun : g.topo.nodes.write r.id r with
    | error e =>
      rw [hrun] at hw
      cases hw
    | ok nodes =>
      rw [hrun] at hw
      cases hw
      exact ⟨(length_write hrun).le.trans (Nat.le_succ _), Nat.le_succ _⟩
  | edge r =>
    refine h.update fun t' hw => ?_
    cases hrun : g.topo.edges.write r.id r with
    | error e =>
      rw [hrun] at hw
      cases hw
    | ok edges =>
      rw [hrun] at hw
      cases hw
      exact ⟨Nat.le_succ _, (length_write hrun).le.trans (Nat.le_succ _)⟩
  | label typeId rid => exact ⟨by rintro ⟨⟩, h.keep rfl rfl (Nat.le_succ _) (Nat.le_succ _)⟩
  | entry key rid =>
    refine ⟨by rintro ⟨⟩, ?_⟩
    show Spacious n { g with pages := if (key, rid) ∈ g.pages.entries then g.pages else _ }
    split
    · exact h.keep rfl rfl (Nat.le_succ _) (Nat.le_succ _)
    · exact h.keep rfl rfl (Nat.le_succ _) (Nat.le_succ _)

theorem roomy (h : Spacious n g) : Roomy n g := by
  induction n generalizing g with
  | zero => trivial
  | succ n ih => exact fun c => ⟨(h.call c).1, ih (h.call c).2⟩

end Spacious

end Graph

end ChiffonDB

import ChiffonDB.Graph.Quiet

/-!
# Operations on a linked topology

The few places where an operation allocates, writes and frees records, and the operations around them.

* `KnownNode`, `KnownEdge` — a handle whose slot, live or not, has been written.
* `Graph.secures_insertNode`, `Graph.secures_insertEdge`, `Graph.secures_deleteNode`,
  `Graph.secures_deleteEdge` — **the operations on nodes and edges**.
* `Graph.secures_setAdditionalLabels`, `Graph.secures_updateNodeProperties` — those on their values.
-/

set_option autoImplicit false

namespace ChiffonDB

open Action

variable {F : Type} [F64 F] [F64Text F] {M : Type} [Backing M]

theorem nodup_eraseDups {α : Type} [DecidableEq α] (n : Nat) :
    ∀ l : List α, l.length ≤ n → l.eraseDups.Nodup := by
  induction n with
  | zero =>
    intro l hl
    rw [List.length_eq_zero_iff.1 (Nat.le_zero.1 hl)]
    exact List.nodup_nil
  | succ n ih =>
    intro l hl
    cases l with
    | nil => exact List.nodup_nil
    | cons a l =>
      rw [List.eraseDups_cons]
      refine List.nodup_cons.2 ⟨by simp, ih _ ?_⟩
      exact (List.length_filter_le _ _).trans (Nat.le_of_succ_le_succ hl)

namespace Topo

/-- A handle whose node has been written at some time: a record that can be read there is its own. -/
def KnownNode (rid : RecordId) (t : Topo) : Prop := t.Linked ∧ ∀ r, t.nodes.read rid = .ok r → r.id = rid

def KnownEdge (rid : RecordId) (t : Topo) : Prop := t.Linked ∧ ∀ r, t.edges.read rid = .ok r → r.id = rid

/-- The record of a known node. -/
def HasNode (rid : RecordId) (r : NodeRecord) (t : Topo) : Prop :=
  t.Linked ∧ t.nodes.read rid = .ok r ∧ r.id = rid

def HasEdge (rid : RecordId) (r : EdgeRecord) (t : Topo) : Prop :=
  t.Linked ∧ t.edges.read rid = .ok r ∧ r.id = rid

theorem HasNode.known {rid : RecordId} {r : NodeRecord} {t : Topo} (h : HasNode rid r t) : KnownNode rid t := by
  refine ⟨h.1, fun r' hr' => ?_⟩
  rw [h.2.1] at hr'
  cases hr'
  exact h.2.2

theorem HasEdge.known {rid : RecordId} {r : EdgeRecord} {t : Topo} (h : HasEdge rid r t) : KnownEdge rid t := by
  refine ⟨h.1, fun r' hr' => ?_⟩
  rw [h.2.1] at hr'
  cases hr'
  exact h.2.2

theorem Linked.knownNode {rid : RecordId} {t : Topo} (h : t.Linked) (hn : t.LiveNode rid) : KnownNode rid t := by
  obtain ⟨r, hr⟩ := hn
  exact HasNode.known (r := r) ⟨h, RecordTable.read_of_live hr, h.nodeId hr⟩

theorem Linked.knownEdge {rid : RecordId} {t : Topo} (h : t.Linked) (he : t.LiveEdge rid) : KnownEdge rid t := by
  obtain ⟨r, hr⟩ := he
  exact HasEdge.known (r := r) ⟨h, RecordTable.read_of_live hr, h.edgeId hr⟩

/-- Writes into slots that are not live. -/
theorem LinkedBut.ofLive {t t' : Topo} {off : EdgeDirection → Option RecordId} (h : t.LinkedBut off)
    (hn : t'.nodes.live = t.nodes.live) (he : t'.edges.live = t.edges.live) : t'.LinkedBut off :=
  h.relist ⟨fun n => by rw [hn], fun e => by rw [he]⟩ fun dir => h.sameLists rfl
    (fun n => by unfold firstEdge; rw [hn]) fun e => by unfold nextEdge; rw [he]

/-! ## Writing a record that has been read -/

/-- **A node record with the same lists.** -/
theorem meets_writeNode {rid : RecordId} {r r' : NodeRecord} (hid : r'.id = r.id)
    (hfirst : ∀ dir, r'.first dir = r.first dir) :
    Meets (HasNode rid r) (writeNode r') (fun _ => HasNode rid r') Linked := by
  refine Meets.update (fun t t' ⟨h, hr, hrid⟩ ht => ?_) fun t h => h.1
  have hid' : r'.id = rid := hid.trans hrid
  cases hw : t.nodes.write r'.id r' with
  | error e => rw [hw] at ht; cases ht
  | ok nodes =>
    rw [hw] at ht
    cases ht
    have hread : nodes.read rid = .ok r' := by
      unfold RecordTable.write at hw
      rw [hid', hr] at hw
      cases hw
      obtain ⟨u, hslot⟩ := RecordTable.slotAt_of_read hr
      refine RecordTable.read_of_slotAt (s := ⟨u, r'⟩) ?_
      rw [RecordTable.slotAt_modify, if_pos rfl, hslot]
      rfl
    refine ⟨?_, hread, hid'⟩
    rw [hid'] at hw
    cases hl : t.nodes.live rid with
    | some old =>
      have hold := RecordTable.read_of_live hl
      rw [hr] at hold
      cases hold
      obtain ⟨nodes', hw', hlive⟩ := RecordTable.live_write r' hl
      rw [hw] at hw'
      cases hw'
      exact h.setNode hl hid hfirst rfl hlive
    | none => exact h.ofLive (RecordTable.live_write_dead hl hw) rfl

/-- **An edge record with the same links.** -/
theorem meets_writeEdge {rid : RecordId} {r r' : EdgeRecord} (hends : r'.ends = r.ends)
    (hnext : ∀ dir, r'.next dir = r.next dir) :
    Meets (HasEdge rid r) (writeEdge r') (fun _ => HasEdge rid r') Linked := by
  refine Meets.update (fun t t' ⟨h, hr, hrid⟩ ht => ?_) fun t h => h.1
  have hid' : r'.id = rid := (congrArg Prod.fst hends).trans hrid
  cases hw : t.edges.write r'.id r' with
  | error e => rw [hw] at ht; cases ht
  | ok edges =>
    rw [hw] at ht
    cases ht
    have hread : edges.read rid = .ok r' := by
      unfold RecordTable.write at hw
      rw [hid', hr] at hw
      cases hw
      obtain ⟨u, hslot⟩ := RecordTable.slotAt_of_read hr
      refine RecordTable.read_of_slotAt (s := ⟨u, r'⟩) ?_
      rw [RecordTable.slotAt_modify, if_pos rfl, hslot]
      rfl
    refine ⟨?_, hread, hid'⟩
    rw [hid'] at hw
    cases hl : t.edges.live rid with
    | some old =>
      have hold := RecordTable.read_of_live hl
      rw [hr] at hold
      cases hold
      obtain ⟨edges', hw', hlive⟩ := RecordTable.live_write r' hl
      rw [hw] at hw'
      cases hw'
      exact h.setEdge hl hends hnext rfl hlive
    | none => exact h.ofLive rfl (RecordTable.live_write_dead hl hw)

end Topo

namespace Graph

open Topo

variable {P : Topo → Prop} {rid : RecordId}

/-! ## Reads and writes -/

theorem secures_readNode (hP : ∀ t, P t → t.Linked) (rid : RecordId) :
    Secures P (readNode rid : Action (Graph M) _) fun r t => P t ∧ t.nodes.read rid = .ok r := by
  refine .onTopo (keeps_reads _) (Meets.reads (fun t r ht hr => ⟨ht, ?_⟩) hP)
  cases hx : t.nodes.read rid with
  | ok r' => rw [hx] at hr; cases hr; rfl
  | error e => rw [hx] at hr; cases hr

theorem secures_readEdge (hP : ∀ t, P t → t.Linked) (rid : RecordId) :
    Secures P (readEdge rid : Action (Graph M) _) fun r t => P t ∧ t.edges.read rid = .ok r := by
  refine .onTopo (keeps_reads _) (Meets.reads (fun t r ht hr => ⟨ht, ?_⟩) hP)
  cases hx : t.edges.read rid with
  | ok r' => rw [hx] at hr; cases hr; rfl
  | error e => rw [hx] at hr; cases hr

theorem secures_nodeExists (hP : ∀ t, P t → t.Linked) (rid : RecordId) :
    Secures P (nodeExists rid : Action (Graph M) _) fun b t => P t ∧ (b = true → t.LiveNode rid) := by
  refine .reads (fun g b hg hb => ⟨hg, fun htrue => ?_⟩) hP
  cases hb
  exact RecordTable.used_eq_true.1 htrue

theorem secures_edgeExists (hP : ∀ t, P t → t.Linked) (rid : RecordId) :
    Secures P (edgeExists rid : Action (Graph M) _) fun b t => P t ∧ (b = true → t.LiveEdge rid) := by
  refine .reads (fun g b hg hb => ⟨hg, fun htrue => ?_⟩) hP
  cases hb
  exact RecordTable.used_eq_true.1 htrue

/-- The record behind a known handle. -/
theorem secures_readKnownNode : Secures (KnownNode rid) (readNode rid : Action (Graph M) _) (HasNode rid) :=
  (secures_readNode (fun _ h => h.1) rid).mono (fun _ _ h => h) fun r _ ⟨h, hr⟩ => ⟨h.1, hr, h.2 r hr⟩

theorem secures_readKnownEdge : Secures (KnownEdge rid) (readEdge rid : Action (Graph M) _) (HasEdge rid) :=
  (secures_readEdge (fun _ h => h.1) rid).mono (fun _ _ h => h) fun r _ ⟨h, hr⟩ => ⟨h.1, hr, h.2 r hr⟩

theorem secures_writeNode {r r' : NodeRecord} (hid : r'.id = r.id)
    (hfirst : ∀ dir, r'.first dir = r.first dir) :
    Secures (HasNode rid r) (writeNode r' : Action (Graph M) _) fun _ => HasNode rid r' :=
  .onTopo (keeps_writeNode r') (meets_writeNode hid hfirst)

theorem secures_writeEdge {r r' : EdgeRecord} (hends : r'.ends = r.ends)
    (hnext : ∀ dir, r'.next dir = r.next dir) :
    Secures (HasEdge rid r) (writeEdge r' : Action (Graph M) _) fun _ => HasEdge rid r' :=
  .onTopo (keeps_writeEdge r') (meets_writeEdge hends hnext)

/-- A node gets other properties. -/
theorem secures_writeNodeProps {r : NodeRecord} (pref : Option RecordId) :
    Secures (HasNode rid r) (writeNode { r with propertyRef := pref } : Action (Graph M) _) fun _ => KnownNode rid :=
  (secures_writeNode (by rfl) fun dir => by cases dir <;> rfl).mono (fun _ _ h => h) fun _ _ h => h.known

theorem secures_writeNodeLabels {r : NodeRecord} (lref : Option RecordId) :
    Secures (HasNode rid r) (writeNode { r with labelRef := lref } : Action (Graph M) _) fun _ => KnownNode rid :=
  (secures_writeNode (by rfl) fun dir => by cases dir <;> rfl).mono (fun _ _ h => h) fun _ _ h => h.known

/-- An edge gets other properties. -/
theorem secures_writeEdgeProps {r : EdgeRecord} (pref : Option RecordId) :
    Secures (HasEdge rid r) (writeEdge { r with propertyRef := pref } : Action (Graph M) _) fun _ => KnownEdge rid :=
  (secures_writeEdge (by rfl) fun dir => by cases dir <;> rfl).mono (fun _ _ h => h) fun _ _ h => h.known

theorem secures_writeEdgeLabels {r : EdgeRecord} (lref : Option RecordId) :
    Secures (HasEdge rid r) (writeEdge { r with labelRef := lref } : Action (Graph M) _) fun _ => KnownEdge rid :=
  (secures_writeEdge (by rfl) fun dir => by cases dir <;> rfl).mono (fun _ _ h => h) fun _ _ h => h.known

/-! ## Allocations -/

section Alloc

variable {R : Type} (kind : TopologyKind) (table : Topo → RecordTable R) (put : Topo → RecordTable R → Topo)
  {id : R → RecordId} {blank : R}

/-- What an allocation does to one of the tables. -/
theorem meets_allocSlot (t₀ : Topo) (hput : ∀ t x, table (put t x) = x)
    (hget : ∀ t : Topo, t.Named → (table t).Named id blank)
    (hset : ∀ (t : Topo) (x : RecordTable R), t.Named → x.Named id blank → (put t x).Named) :
    Meets (At (· = t₀)) (allocSlot kind table put blank : Action (Graph M) _)
      (fun rid => At fun t => RecordTable.Allocated (table t₀) (table t) rid ∧ t = put t₀ (table t))
      (At (· = t₀)) := by
  rintro g ⟨rfl, hnamed⟩
  cases hf : (table g.topo).findFree with
  | some found =>
    obtain ⟨logical, slot⟩ := found
    rw [run_allocSlot_some hf]
    refine ⟨⟨?_, ?_⟩, hset _ _ hnamed ((hget _ hnamed).take logical slot)⟩
    · show RecordTable.Allocated _ (table (put g.topo _)) _
      rw [hput]
      exact RecordTable.allocated_take hf
    · show put g.topo _ = put g.topo (table (put g.topo _))
      rw [hput]
  | none =>
    rw [run_allocSlot_none hf]
    refine Meets.bind (Quiet.onPages (Backing.allocTopologyPage kind firstSlotPage) (· = g.topo)) (fun _ => ?_) g ⟨rfl, hnamed⟩
    split
    · rename_i hlt
      rintro g' ⟨hg', hn'⟩
      refine ⟨⟨?_, ?_⟩, ?_⟩
      · show RecordTable.Allocated _ (table (put g'.topo _)) _
        rw [hput]
        exact RecordTable.allocated_grow hlt
      · show put g'.topo _ = put g.topo (table (put g'.topo _))
        rw [hput, hg']
      · show (put g'.topo _).Named
        rw [hg']
        exact hset _ _ hnamed ((hget _ hnamed).grow hlt)
    · exact Meets.panic

end Alloc

/-- **`alloc_node`.** -/
theorem secures_allocNode (typeId : UInt16) :
    Secures Linked (allocNode typeId : Action (Graph M) _) fun rid t => KnownNode rid t ∧ t.LiveNode rid := by
  intro g hg
  have halloc := meets_allocSlot (M := M) .node Topo.nodes (fun t x => { t with nodes := x }) g.topo
    (fun _ _ => rfl) (fun _ h => h.nodes) fun t x h hx => ⟨hx, h.edges⟩
  refine Meets.bind (halloc.mono (fun _ h => h) (fun _ _ h => h) fun (g' : Graph M) h =>
    ⟨(show g'.topo = g.topo from h.1) ▸ hg.1, h.2⟩) (fun rid => ?_) g ⟨rfl, hg.2⟩
  refine Meets.bind (Q := fun _ => At fun t => KnownNode rid t ∧ t.LiveNode rid)
    (Secures.onTopo (keeps_writeNode _) ?_) fun _ => Meets.pure fun _ h => h
  rintro t ⟨⟨hfresh, old, hlive⟩, heq⟩
  obtain ⟨t', hrun, he, hl⟩ := run_writeNode (t := t) (.new rid typeId) rfl (by rw [hlive]; exact Function.update_self ..)
  rw [hlive] at hl
  have hl' : t'.nodes.live = Function.update g.topo.nodes.live rid (some (.new rid typeId)) :=
    hl.trans (Function.update_idem ..)
  have hedges : t'.edges = g.topo.edges := by rw [he, heq]
  have hlinked : t'.Linked := LinkedBut.addNode hg.1 hfresh rfl (fun dir => by cases dir <;> rfl) hedges hl'
  have hnode : t'.LiveNode rid := ⟨_, by rw [hl']; exact Function.update_self ..⟩
  rw [hrun]
  exact ⟨hlinked.knownNode hnode, hnode⟩

/-- An edge that is being linked. -/
def Pending (off : EdgeDirection → Option RecordId) (eid fromNode toNode : RecordId) (t : Topo) : Prop :=
  t.LinkedBut off ∧ ∃ r, t.edges.live eid = some r ∧ r.fromNode = fromNode ∧ r.toNode = toNode

/-- The nodes that a new edge is to join. -/
def Joinable (fromNode toNode : RecordId) (t : Topo) : Prop := t.Linked ∧ t.LiveNode fromNode ∧ t.LiveNode toNode

/-- **`alloc_edge`.** -/
theorem secures_allocEdge (typeId : UInt16) (fromNode toNode : RecordId) :
    Secures (Joinable fromNode toNode) (allocEdge typeId fromNode toNode : Action (Graph M) _) fun eid =>
      Pending (fun _ => some eid) eid fromNode toNode := by
  rintro g ⟨⟨hg, hfrom, hto⟩, hnamed⟩
  have halloc := meets_allocSlot (M := M) .edge Topo.edges (fun t x => { t with edges := x }) g.topo
    (fun _ _ => rfl) (fun _ h => h.edges) fun t x h hx => ⟨h.nodes, hx⟩
  refine Meets.bind (halloc.mono (fun _ h => h) (fun _ _ h => h) fun (g' : Graph M) h =>
    ⟨(show g'.topo = g.topo from h.1) ▸ hg, h.2⟩) (fun eid => ?_) g ⟨rfl, hnamed⟩
  refine Meets.bind (Q := fun _ => At (Pending (fun _ => some eid) eid fromNode toNode))
    (Secures.onTopo (keeps_writeEdge _) ?_) fun _ => Meets.pure fun _ h => h
  rintro t ⟨⟨hfresh, old, hlive⟩, heq⟩
  obtain ⟨t', hrun, hn, hl⟩ := run_writeEdge (t := t) (.new eid typeId fromNode toNode) rfl
    (by rw [hlive]; exact Function.update_self ..)
  rw [hlive] at hl
  have hl' : t'.edges.live = Function.update g.topo.edges.live eid (some (.new eid typeId fromNode toNode)) :=
    hl.trans (Function.update_idem ..)
  have hnodes : t'.nodes = g.topo.nodes := by rw [hn, heq]
  have hlinked : t'.LinkedBut fun _ => some eid :=
    hg.addEdge hfresh rfl (fun dir => by cases dir; exacts [hfrom, hto]) hnodes hl'
  rw [hrun]
  exact ⟨hlinked, _, by rw [hl']; exact Function.update_self .., rfl, rfl⟩

section Pending

variable {off : EdgeDirection → Option RecordId} {eid fromNode toNode : RecordId}

/-- The properties of an edge that is on no list yet. -/
theorem secures_setEdgeProps (pref : Option RecordId) :
    Secures (Pending off eid fromNode toNode) (setEdgeProps eid pref : Action (Graph M) _) fun _ =>
      Pending off eid fromNode toNode := by
  cases pref with
  | none => exact .pure fun _ h => h
  | some pref =>
    refine .bind (Q := fun r t => t.LinkedBut off ∧ t.edges.live eid = some r ∧ r.fromNode = fromNode ∧ r.toNode = toNode)
      (.onTopo (keeps_reads _) ?_) fun r => .onTopo (keeps_writeEdge _) ?_
    · rintro t ⟨h, r, hr, hf, ht⟩
      rw [run_readEdge hr]
      exact ⟨h, hr, hf, ht⟩
    · rintro t ⟨h, hr, hf, ht⟩
      have hid : r.id = eid := h.edgeId hr
      obtain ⟨t', hrun, hn, hl⟩ := run_writeEdge { r with propertyRef := some pref } hid hr
      rw [hrun]
      exact ⟨h.setEdge hr (by rfl) (fun dir => by cases dir <;> rfl) hn hl, { r with propertyRef := some pref },
        by rw [hl]; exact Function.update_self .., hf, ht⟩

/-- **The edge goes on one of its lists.** -/
theorem secures_appendEdge (dir : EdgeDirection) (hoff : off dir = some eid) :
    Secures (Pending off eid fromNode toNode)
      (onTopo (Topo.appendEdge dir (match dir with | .out => fromNode | .in => toNode) eid) : Action (Graph M) _)
      fun _ => Pending (Function.update off dir none) eid fromNode toNode := by
  refine .onTopo (keeps_appendEdge _ _ _) ?_
  rintro t ⟨h, r, hr, hf, ht⟩
  have hanchor : r.anchor dir = match dir with | .out => fromNode | .in => toNode := by
    cases dir
    · exact hf
    · exact ht
  obtain ⟨node, hn⟩ := h.ends hr dir
  rw [hanchor] at hn
  obtain ⟨t', hrun, hlinked, -, hl⟩ := h.appendEdge hn hr hanchor hoff
  rw [hrun]
  refine ⟨hlinked, r.setNext dir (node.first dir), by rw [hl]; exact Function.update_self .., ?_, ?_⟩
  · cases dir <;> exact hf
  · cases dir <;> exact ht

end Pending

end Graph

end ChiffonDB

import Mathlib.Data.List.NodupEquivFin
import ChiffonDB.Lib.Walk
import ChiffonDB.Storage.RecordPage

/-!
# Checking a graph

`Database::verify` of `db.rs` on whatever the reads of the topology return.

* `TopoView` — the reads; `TopoView.verify` — the warnings.
* `Healthy` — live endpoints, and every live edge on the two lists it belongs to and on no other.
* `Reported`, `Overlooked` — what `verify` looks for, and what it does not.
* `truthful_iff` — **an empty list of warnings means a healthy graph exactly if a defect is
  reported or none is overlooked**.
-/

set_option autoImplicit false

namespace ChiffonDB

/-- What the reads of the topology return on some contents of the pages. -/
structure TopoView where
  liveNodes : Except GraphError (List RecordId)
  liveEdges : Except GraphError (List RecordId)
  readNode : RecordId → Except GraphError NodeRecord
  readEdge : RecordId → Except GraphError EdgeRecord

/-- How many record ids there are. -/
def RECORD_IDS : Nat := UInt32.size * UInt16.size

/-- Whether a walk comes to a record again: the loop of `verify` over one list.  The ids visited are
    distinct, so that the loop ends before it has gone through all there are. -/
def revisits (next : RecordId → Option RecordId) : Nat → List RecordId → Option RecordId → Bool
  | _, _, none => false
  | 0, _, some _ => false
  | n + 1, visited, some rid => if rid ∈ visited then true else revisits next n (rid :: visited) (next rid)

namespace TopoView

variable (v : TopoView)

/-- The edge behind an edge that can be read. -/
def next (dir : EdgeDirection) (rid : RecordId) : Option RecordId :=
  match v.readEdge rid with
  | .ok edge => edge.next dir
  | .error _ => none

/-- The first loop of `verify`. -/
def endpointWarnings (nodes : List RecordId) (eid : RecordId) : List String :=
  match v.readEdge eid with
  | .error _ => []
  | .ok edge =>
    (if edge.fromNode ∈ nodes then [] else
      ["edge " ++ eid.debug ++ ": from_node " ++ edge.fromNode.debug ++ " does not exist"]) ++
    (if edge.toNode ∈ nodes then [] else
      ["edge " ++ eid.debug ++ ": to_node " ++ edge.toNode.debug ++ " does not exist"])

def listName : EdgeDirection → String
  | .out => "out_edge"
  | .in => "in_edge"

/-- One of the two walks from a node. -/
def walkWarnings (nid : RecordId) (node : NodeRecord) (dir : EdgeDirection) : List String :=
  if revisits (v.next dir) (RECORD_IDS + 1) [] (node.first dir) then
    ["node " ++ nid.debug ++ ": cycle in " ++ listName dir ++ " chain"] else []

/-- The second loop of `verify`. -/
def listWarnings (nid : RecordId) : List String :=
  match v.readNode nid with
  | .error _ => []
  | .ok node => v.walkWarnings nid node .out ++ v.walkWarnings nid node .in

/-- `verify`, with the nodes in the order of their pages in place of a hash set's. -/
def verify : Except GraphError (List String) := do
  let nodes ← v.liveNodes
  let edges ← v.liveEdges
  pure (edges.flatMap (v.endpointWarnings nodes) ++ nodes.flatMap v.listWarnings)

/-! ## Health -/

/-- The walk of a list comes to an edge. -/
def OnWalk (dir : EdgeDirection) (start : Option RecordId) (rid : RecordId) : Prop :=
  ∃ i, walkAt (v.next dir) start i = some rid

/-- The walk of a list reads these edges and comes to its end. -/
def Walks (dir : EdgeDirection) : Option RecordId → List RecordId → Prop
  | start, [] => start = none
  | start, rid :: rids => start = some rid ∧ ∃ edge, v.readEdge rid = .ok edge ∧ Walks dir (edge.next dir) rids

/-- A node's list of a direction holds these edges. -/
def Lists (dir : EdgeDirection) (nid : RecordId) (rids : List RecordId) : Prop :=
  ∃ node, v.readNode nid = .ok node ∧ v.Walks dir (node.first dir) rids

/-- The live endpoints of the live edges, the lists of the live nodes, and who is on which list. -/
structure Healthy : Prop where
  readable : ∃ nodes edges, v.liveNodes = .ok nodes ∧ v.liveEdges = .ok edges
  endpoints : ∀ nodes edges eid, v.liveNodes = .ok nodes → v.liveEdges = .ok edges → eid ∈ edges →
    ∃ edge, v.readEdge eid = .ok edge ∧ ∀ dir, edge.anchor dir ∈ nodes
  lists : ∀ nodes nid, v.liveNodes = .ok nodes → nid ∈ nodes → ∀ dir, ∃ rids, v.Lists dir nid rids
  own : ∀ edges eid edge, v.liveEdges = .ok edges → eid ∈ edges → v.readEdge eid = .ok edge →
    ∀ dir rids, v.Lists dir (edge.anchor dir) rids → rids.count eid = 1
  others : ∀ nodes edges eid edge, v.liveNodes = .ok nodes → v.liveEdges = .ok edges → eid ∈ edges →
    v.readEdge eid = .ok edge → ∀ dir, ∀ nid ∈ nodes, nid ≠ edge.anchor dir →
      ∀ rids, v.Lists dir nid rids → eid ∉ rids

/-- What `verify` looks for. -/
inductive Reported : Prop
  | nodes {e : GraphError} (h : v.liveNodes = .error e)
  | edges {e : GraphError} (h : v.liveEdges = .error e)
  | endpoint {nodes edges : List RecordId} {eid : RecordId} {edge : EdgeRecord} (dir : EdgeDirection)
      (hn : v.liveNodes = .ok nodes) (he : v.liveEdges = .ok edges) (hmem : eid ∈ edges)
      (hr : v.readEdge eid = .ok edge) (hdead : edge.anchor dir ∉ nodes)
  | cycle {nodes : List RecordId} {nid : RecordId} {node : NodeRecord} (dir : EdgeDirection)
      (hn : v.liveNodes = .ok nodes) (hmem : nid ∈ nodes) (hr : v.readNode nid = .ok node)
      (hcycle : ¬ Simple (v.next dir) (node.first dir))

/-- What it does not look for: a list that leads to a record which cannot be read, a live edge that
    is not on the list of its node, and a live edge on the list of another node. -/
inductive Overlooked : Prop
  | dangling {nodes : List RecordId} {nid rid : RecordId} {node : NodeRecord} {e : GraphError}
      (dir : EdgeDirection) (hn : v.liveNodes = .ok nodes) (hmem : nid ∈ nodes)
      (hr : v.readNode nid = .ok node) (hwalk : v.OnWalk dir (node.first dir) rid)
      (he : v.readEdge rid = .error e)
  | lost {edges : List RecordId} {eid : RecordId} {edge : EdgeRecord} {node : NodeRecord}
      (dir : EdgeDirection) (he : v.liveEdges = .ok edges) (hmem : eid ∈ edges)
      (hr : v.readEdge eid = .ok edge) (hn : v.readNode (edge.anchor dir) = .ok node)
      (hwalk : ¬ v.OnWalk dir (node.first dir) eid)
  | stray {nodes edges : List RecordId} {nid eid : RecordId} {edge : EdgeRecord} {node : NodeRecord}
      (dir : EdgeDirection) (hn : v.liveNodes = .ok nodes) (he : v.liveEdges = .ok edges)
      (hmem : eid ∈ edges) (hr : v.readEdge eid = .ok edge) (hnode : nid ∈ nodes)
      (hother : nid ≠ edge.anchor dir) (hread : v.readNode nid = .ok node)
      (hwalk : v.OnWalk dir (node.first dir) eid)

/-- The records of live slots can be read. -/
structure LiveReadable : Prop where
  node : ∀ nodes nid, v.liveNodes = .ok nodes → nid ∈ nodes → ∃ node, v.readNode nid = .ok node
  edge : ∀ edges eid, v.liveEdges = .ok edges → eid ∈ edges → ∃ edge, v.readEdge eid = .ok edge

end TopoView

/-! ## The walk of `verify` -/

theorem length_le_recordIds {rids : List RecordId} (h : rids.Nodup) : rids.length ≤ RECORD_IDS := by
  let code : RecordId → Nat := fun r => r.pageId.toNat * UInt16.size + r.slotId.toNat
  have hslot : ∀ r : RecordId, r.slotId.toNat < UInt16.size := fun r => r.slotId.toNat_lt
  have hinj : Function.Injective code := by
    intro r r' hc
    have hs := hslot r
    have hs' := hslot r'
    have h16 : UInt16.size = 65536 := rfl
    dsimp only [code] at hc
    rw [h16] at hc hs hs'
    exact RecordId.ext_toNat (by omega) (by omega)
  have hsub : rids.map code ⊆ List.range RECORD_IDS := by
    intro a ha
    obtain ⟨r, -, rfl⟩ := List.mem_map.1 ha
    have hp : r.pageId.toNat < UInt32.size := r.pageId.toNat_lt
    have hs := hslot r
    have h16 : UInt16.size = 65536 := rfl
    have h32 : UInt32.size = 4294967296 := rfl
    rw [List.mem_range]
    dsimp only [code, RECORD_IDS]
    rw [h16] at hs ⊢
    rw [h32] at hp ⊢
    omega
  have := (List.Nodup.subperm (h.map hinj) hsub).length_le
  simpa using this

section Revisits

variable {next : RecordId → Option RecordId}

theorem revisits_sound {n : Nat} {visited : List RecordId} {start : Option RecordId}
    (h : revisits next n visited start = true) : ∃ i rid, walkAt next start i = some rid ∧
      (rid ∈ visited ∨ ∃ j < i, walkAt next start j = some rid) := by
  induction n generalizing visited start with
  | zero => cases start <;> cases h
  | succ n ih =>
    cases start with
    | none => cases h
    | some rid =>
      unfold revisits at h
      by_cases hmem : rid ∈ visited
      · exact ⟨0, rid, rfl, .inl hmem⟩
      · rw [if_neg hmem] at h
        obtain ⟨i, a, hi, hseen⟩ := ih h
        refine ⟨i + 1, a, (walkAt_succ rid i).trans hi, ?_⟩
        rcases hseen with hseen | ⟨j, hj, hja⟩
        · rcases List.mem_cons.1 hseen with rfl | hseen
          · exact .inr ⟨0, by omega, rfl⟩
          · exact .inl hseen
        · exact .inr ⟨j + 1, by omega, (walkAt_succ rid j).trans hja⟩

theorem ends_of_not_revisits {n : Nat} {visited : List RecordId} {start : Option RecordId}
    (hnd : visited.Nodup) (hn : RECORD_IDS < n + visited.length)
    (h : revisits next n visited start = false) : Ends next start := by
  induction n generalizing visited start with
  | zero =>
    have := length_le_recordIds hnd
    omega
  | succ n ih =>
    cases start with
    | none => exact ⟨0, rfl⟩
    | some rid =>
      unfold revisits at h
      by_cases hmem : rid ∈ visited
      · rw [if_pos hmem] at h
        cases h
      · rw [if_neg hmem] at h
        obtain ⟨k, hk⟩ := ih (List.nodup_cons.2 ⟨hmem, hnd⟩) (by simp only [List.length_cons]; omega) h
        exact ⟨k + 1, (walkAt_succ rid k).trans hk⟩

/-- **The loop tells whether the walk comes to a record twice.** -/
theorem revisits_iff {start : Option RecordId} :
    revisits next (RECORD_IDS + 1) [] start = true ↔ ¬ Simple next start := by
  constructor
  · intro h hsimple
    obtain ⟨i, rid, hi, hseen | ⟨j, hj, hja⟩⟩ := revisits_sound h
    · cases hseen
    · exact absurd (hsimple i j rid hi hja) (by omega)
  · intro h
    by_contra hr
    exact h (ends_of_not_revisits List.nodup_nil (by simp) (Bool.eq_false_of_not_eq_true hr)).simple

end Revisits

namespace TopoView

variable {v : TopoView}

/-! ## What the warnings say -/

theorem endpointWarnings_eq_nil {nodes : List RecordId} {eid : RecordId} :
    v.endpointWarnings nodes eid = [] ↔
      ∀ edge, v.readEdge eid = .ok edge → ∀ dir, edge.anchor dir ∈ nodes := by
  unfold endpointWarnings
  cases v.readEdge eid with
  | error e => simp
  | ok edge =>
    rw [List.append_eq_nil_iff]
    constructor
    · rintro ⟨hf, ht⟩ edge' he dir
      cases he
      cases dir with
      | out =>
        by_contra hno
        rw [if_neg (show edge.fromNode ∉ nodes from hno)] at hf
        cases hf
      | «in» =>
        by_contra hno
        rw [if_neg (show edge.toNode ∉ nodes from hno)] at ht
        cases ht
    · intro h
      exact ⟨if_pos (h edge rfl .out), if_pos (h edge rfl .in)⟩

theorem walkWarnings_eq_nil {nid : RecordId} {node : NodeRecord} {dir : EdgeDirection} :
    v.walkWarnings nid node dir = [] ↔ Simple (v.next dir) (node.first dir) := by
  unfold walkWarnings
  split
  · rename_i h
    simpa using revisits_iff.1 h
  · rename_i h
    exact iff_of_true rfl (not_not.1 fun hno => h (revisits_iff.2 hno))

theorem listWarnings_eq_nil {nid : RecordId} : v.listWarnings nid = [] ↔
    ∀ node, v.readNode nid = .ok node → ∀ dir, Simple (v.next dir) (node.first dir) := by
  unfold listWarnings
  cases v.readNode nid with
  | error e => simp
  | ok node =>
    rw [List.append_eq_nil_iff, walkWarnings_eq_nil, walkWarnings_eq_nil]
    constructor
    · rintro ⟨ho, hi⟩ node' he dir
      cases he
      cases dir with
      | out => exact ho
      | «in» => exact hi
    · exact fun h => ⟨h node rfl .out, h node rfl .in⟩

/-- **`verify` returns no warning exactly if nothing it looks for is there.** -/
theorem verify_eq_nil_iff : v.verify = .ok [] ↔ ¬ v.Reported := by
  unfold verify
  cases hn : v.liveNodes with
  | error e => exact iff_of_false (fun h => by cases h) fun h => h (.nodes hn)
  | ok nodes =>
    cases he : v.liveEdges with
    | error e => exact iff_of_false (fun h => by cases h) fun h => h (.edges he)
    | ok edges =>
      have hlists : (do
          let nodes ← (Except.ok nodes : Except GraphError (List RecordId))
          let edges ← Except.ok edges
          pure (edges.flatMap (v.endpointWarnings nodes) ++ nodes.flatMap v.listWarnings)) = .ok [] ↔
          (∀ eid ∈ edges, v.endpointWarnings nodes eid = []) ∧ ∀ nid ∈ nodes, v.listWarnings nid = [] := by
        rw [← List.flatMap_eq_nil_iff, ← List.flatMap_eq_nil_iff, ← List.append_eq_nil_iff]
        exact ⟨fun h => Except.ok.inj h, fun h => congrArg Except.ok h⟩
      rw [hlists]
      constructor
      · rintro ⟨hends, hwalks⟩ hrep
        cases hrep with
        | nodes h => rw [hn] at h; cases h
        | edges h => rw [he] at h; cases h
        | endpoint dir hn' he' hmem hr hdead =>
          rw [hn] at hn'
          rw [he] at he'
          cases hn'
          cases he'
          exact hdead (endpointWarnings_eq_nil.1 (hends _ hmem) _ hr dir)
        | cycle dir hn' hmem hr hcycle =>
          rw [hn] at hn'
          cases hn'
          exact hcycle (listWarnings_eq_nil.1 (hwalks _ hmem) _ hr dir)
      · intro hrep
        refine ⟨fun eid hmem => endpointWarnings_eq_nil.2 fun edge hr dir => ?_,
          fun nid hmem => listWarnings_eq_nil.2 fun node hr dir => ?_⟩
        · exact not_not.1 fun hdead => hrep (.endpoint dir hn he hmem hr hdead)
        · exact not_not.1 fun hcycle => hrep (.cycle dir hn hmem hr hcycle)

/-! ## Walks -/

variable {dir : EdgeDirection}

theorem next_of_readEdge {rid : RecordId} {edge : EdgeRecord} (h : v.readEdge rid = .ok edge) :
    v.next dir rid = edge.next dir := by
  unfold next
  rw [h]

theorem Walks.mem_iff {start : Option RecordId} {rids : List RecordId} (h : v.Walks dir start rids)
    (rid : RecordId) : rid ∈ rids ↔ v.OnWalk dir start rid := by
  induction rids generalizing start with
  | nil =>
    obtain rfl : start = none := h
    refine iff_of_false (List.not_mem_nil) ?_
    rintro ⟨i, hi⟩
    rw [walkAt_none (i := 0) rfl (Nat.zero_le i)] at hi
    cases hi
  | cons x rids ih =>
    obtain ⟨rfl, edge, hr, hrest⟩ := h
    rw [List.mem_cons, ih hrest]
    constructor
    · rintro (rfl | ⟨i, hi⟩)
      · exact ⟨0, rfl⟩
      · exact ⟨i + 1, by rw [walkAt_succ, next_of_readEdge hr]; exact hi⟩
    · rintro ⟨_ | i, hi⟩
      · exact .inl (Option.some.inj hi).symm
      · rw [walkAt_succ, next_of_readEdge hr] at hi
        exact .inr ⟨i, hi⟩

theorem Walks.nodup {start : Option RecordId} {rids : List RecordId} (h : v.Walks dir start rids)
    (hs : Simple (v.next dir) start) : rids.Nodup := by
  induction rids generalizing start with
  | nil => exact List.nodup_nil
  | cons x rids ih =>
    obtain ⟨rfl, edge, hr, hrest⟩ := h
    have hstep : ∀ i, walkAt (v.next dir) (some x) (i + 1) = walkAt (v.next dir) (edge.next dir) i := by
      intro i
      rw [walkAt_succ, next_of_readEdge hr]
    refine List.nodup_cons.2 ⟨fun hmem => ?_, ih hrest fun i j a hi hj => ?_⟩
    · obtain ⟨i, hi⟩ := (hrest.mem_iff x).1 hmem
      exact absurd (hs (i + 1) 0 x ((hstep i).trans hi) rfl) (by omega)
    · have := hs (i + 1) (j + 1) a ((hstep i).trans hi) ((hstep j).trans hj)
      omega

theorem Walks.readable {start : Option RecordId} {rids : List RecordId} (h : v.Walks dir start rids)
    {rid : RecordId} (hmem : rid ∈ rids) : ∃ edge, v.readEdge rid = .ok edge := by
  induction rids generalizing start with
  | nil => cases hmem
  | cons x rids ih =>
    obtain ⟨rfl, edge, hr, hrest⟩ := h
    rcases List.mem_cons.1 hmem with rfl | hmem
    · exact ⟨edge, hr⟩
    · exact ih hrest hmem

/-- A walk that ends, and that comes to readable edges only, is a list. -/
theorem exists_walks {start : Option RecordId} (hend : Ends (v.next dir) start)
    (hread : ∀ rid, v.OnWalk dir start rid → ∃ edge, v.readEdge rid = .ok edge) :
    ∃ rids, v.Walks dir start rids := by
  obtain ⟨n, hn⟩ := hend
  induction n generalizing start with
  | zero => exact ⟨[], hn⟩
  | succ n ih =>
    cases start with
    | none => exact ⟨[], rfl⟩
    | some x =>
      obtain ⟨edge, hr⟩ := hread x ⟨0, rfl⟩
      have hstep : ∀ i, walkAt (v.next dir) (some x) (i + 1) = walkAt (v.next dir) (edge.next dir) i := by
        intro i
        rw [walkAt_succ, next_of_readEdge hr]
      obtain ⟨rids, hw⟩ := ih (fun rid ⟨i, hi⟩ => hread rid ⟨i + 1, (hstep i).trans hi⟩)
        ((hstep n).symm.trans hn)
      exact ⟨x :: rids, rfl, edge, hr, hw⟩

/-! ## When the warnings tell the truth -/

theorem healthy_of_none (hlive : v.LiveReadable) (hrep : ¬ v.Reported) (hover : ¬ v.Overlooked) :
    v.Healthy := by
  obtain ⟨nodes, hn⟩ : ∃ nodes, v.liveNodes = .ok nodes := by
    cases hn : v.liveNodes with
    | error e => exact absurd (.nodes hn) hrep
    | ok nodes => exact ⟨nodes, rfl⟩
  obtain ⟨edges, he⟩ : ∃ edges, v.liveEdges = .ok edges := by
    cases he : v.liveEdges with
    | error e => exact absurd (.edges he) hrep
    | ok edges => exact ⟨edges, rfl⟩
  have hends : ∀ {eid edge}, eid ∈ edges → v.readEdge eid = .ok edge → ∀ dir, edge.anchor dir ∈ nodes :=
    fun hmem hr dir => not_not.1 fun hdead => hrep (.endpoint dir hn he hmem hr hdead)
  have hsimple : ∀ {nid node}, nid ∈ nodes → v.readNode nid = .ok node →
      ∀ dir, Simple (v.next dir) (node.first dir) :=
    fun hmem hr dir => not_not.1 fun hcycle => hrep (.cycle dir hn hmem hr hcycle)
  refine ⟨⟨nodes, edges, hn, he⟩, ?_, ?_, ?_, ?_⟩
  · intro nodes' edges' eid hn' he' hmem
    cases hn.symm.trans hn'
    cases he.symm.trans he'
    obtain ⟨edge, hr⟩ := hlive.edge _ _ he hmem
    exact ⟨edge, hr, hends hmem hr⟩
  · intro nodes' nid hn' hmem dir
    cases hn.symm.trans hn'
    obtain ⟨node, hr⟩ := hlive.node _ _ hn hmem
    obtain ⟨rids, hw⟩ := exists_walks (hsimple hmem hr dir).ends fun rid hwalk => by
      cases hread : v.readEdge rid with
      | ok edge => exact ⟨edge, rfl⟩
      | error e => exact absurd (.dangling dir hn hmem hr hwalk hread) hover
    exact ⟨rids, node, hr, hw⟩
  · intro edges' eid edge he' hmem hr dir rids hlist
    cases he.symm.trans he'
    obtain ⟨node, hnode, hw⟩ := hlist
    have hin : eid ∈ rids := (hw.mem_iff eid).2
      (not_not.1 fun hwalk => hover (.lost dir he hmem hr hnode hwalk))
    exact List.count_eq_one_of_mem (hw.nodup (hsimple (hends hmem hr dir) hnode dir)) hin
  · intro nodes' edges' eid edge hn' he' hmem hr dir nid hnid hother rids hlist hin
    cases hn.symm.trans hn'
    cases he.symm.trans he'
    obtain ⟨node, hnode, hw⟩ := hlist
    exact hover (.stray dir hn he hmem hr hnid hother hnode ((hw.mem_iff eid).1 hin))

theorem Healthy.not_overlooked (h : v.Healthy) : ¬ v.Overlooked := by
  intro hover
  cases hover with
  | dangling dir hn hmem hr hwalk he =>
    obtain ⟨rids, node, hr', hw⟩ := h.lists _ _ hn hmem dir
    cases hr.symm.trans hr'
    obtain ⟨edge, hread⟩ := hw.readable ((hw.mem_iff _).2 hwalk)
    rw [he] at hread
    cases hread
  | lost dir he hmem hr hn hwalk =>
    obtain ⟨nodes, -, hnodes, -⟩ := h.readable
    obtain ⟨edge', hr', hends⟩ := h.endpoints _ _ _ hnodes he hmem
    cases hr.symm.trans hr'
    obtain ⟨rids, hlist⟩ := h.lists _ _ hnodes (hends dir) dir
    have hcount := h.own _ _ _ he hmem hr dir rids hlist
    obtain ⟨node', hn', hw⟩ := hlist
    cases hn.symm.trans hn'
    exact hwalk ((hw.mem_iff _).1 (List.count_pos_iff.1 (by omega)))
  | stray dir hn he hmem hr hnode hother hread hwalk =>
    obtain ⟨rids, hlist⟩ := h.lists _ _ hn hnode dir
    have hout := h.others _ _ _ _ hn he hmem hr dir _ hnode hother rids hlist
    obtain ⟨node', hn', hw⟩ := hlist
    cases hread.symm.trans hn'
    exact hout ((hw.mem_iff _).2 hwalk)

/-- **No warning means a healthy graph exactly if a defect is reported or none is overlooked.** -/
theorem truthful_iff (hlive : v.LiveReadable) :
    (v.verify = .ok [] → v.Healthy) ↔ v.Reported ∨ ¬ v.Overlooked := by
  rw [verify_eq_nil_iff]
  constructor
  · intro h
    by_cases hrep : v.Reported
    · exact .inl hrep
    · exact .inr (h hrep).not_overlooked
  · rintro (hrep | hover) hno
    · exact absurd hrep hno
    · exact healthy_of_none hlive hno hover

end TopoView

end ChiffonDB

import ChiffonDB.Graph.System

/-!
# The integrity check

`verify` of `db.rs`.

* `Topo.verify` — the check; `Topo.Intact` — what it is about: endpoints that are live, and lists that come to an end.
* `Topo.finds_verify` — **on any records the check comes to an end, and finds nothing exactly when they are intact**.
* `Topo.Linked.intact` — the records of a database that operations have led to are.
-/

set_option autoImplicit false

set_option linter.unusedSectionVars false

namespace ChiffonDB

open Action

namespace Topo

/-- Where a record of an edge leads, whether its slot is in use or not. -/
def linkOf (t : Topo) (dir : EdgeDirection) (eid : RecordId) : Option RecordId :=
  (t.edges.read eid).toOption.bind (·.next dir)

/-- The warning about an endpoint. -/
def endWarnings (nodes : List RecordId) (eid : RecordId) (side : String) (node : RecordId) : List String :=
  if node ∈ nodes then []
  else ["edge " ++ eid.debug ++ ": " ++ side ++ " " ++ node.debug ++ " does not exist"]

/-- The endpoints of an edge. -/
def verifyEdge (nodes : List RecordId) (eid : RecordId) : Action Topo (List String) := do
  match ← Action.attempt (readEdge eid) with
  | .error _ => pure []
  | .ok edge => pure (endWarnings nodes eid "from_node" edge.fromNode ++ endWarnings nodes eid "to_node" edge.toNode)

/-- The loop along a list of a node. -/
def verifyChain (nid : RecordId) (chain : String) (dir : EdgeDirection) (first : Option RecordId) :
    Action Topo (List String) := do
  let t ← Action.get
  match comesBack (t.linkOf dir) (t.walkLimit + 1) [] first with
  | none => .panic
  | some back => pure (if back then ["node " ++ nid.debug ++ ": cycle in " ++ chain ++ " chain"] else [])

/-- The lists of a node. -/
def verifyNode (nid : RecordId) : Action Topo (List String) := do
  match ← Action.attempt (readNode nid) with
  | .error _ => pure []
  | .ok node => do
    let out ← verifyChain nid "out_edge" .out node.firstOutEdge
    let into ← verifyChain nid "in_edge" .in node.firstInEdge
    pure (out ++ into)

/-- `verify`; the nodes are visited in the order of their slots. -/
def verify : Action Topo (List String) := do
  let nodes ← Action.reads fun t => .ok t.nodes.liveRids
  let edges ← Action.reads fun t => .ok t.edges.liveRids
  let ends ← Action.collect edges fun eid => do pure (some (← verifyEdge nodes eid))
  let chains ← Action.collect nodes fun nid => do pure (some (← verifyNode nid))
  pure (ends.flatten ++ chains.flatten)

/-- Live edges join live nodes, and the lists of live nodes come to an end. -/
structure Intact (t : Topo) : Prop where
  ends : ∀ {e r}, t.edges.live e = some r → ∀ dir, t.LiveNode (r.anchor dir)
  chains : ∀ {n r}, t.nodes.live n = some r → ∀ dir, ∃ l, Threads (t.linkOf dir) (r.first dir) l none ∧ l.Nodup

variable {t : Topo} {rid : RecordId}

/-! ## The parts of the check -/

theorem endWarnings_eq_nil {nodes : List RecordId} {eid node : RecordId} {side : String} :
    endWarnings nodes eid side node = [] ↔ node ∈ nodes := by
  unfold endWarnings
  split <;> simp [*]

/-- Slots that are there, each of them once, are no more than the pages have. -/
theorem length_le_of_slotAt {R : Type} {table : RecordTable R} {rids : List RecordId} (hnd : rids.Nodup)
    (hslots : ∀ rid ∈ rids, (table.slotAt rid).isSome) : rids.length ≤ table.pages.length * SLOTS := by
  have hinj : Function.Injective fun rid : RecordId => (rid.pageId.toNat, rid.slotId.toNat) :=
    fun _ _ he => RecordId.ext_toNat (Prod.mk.inj he).1 (Prod.mk.inj he).2
  have hsub : rids.map (fun rid => (rid.pageId.toNat, rid.slotId.toNat)) ⊆
      List.range table.pages.length ×ˢ List.range SLOTS := by
    intro x hx
    obtain ⟨rid, hrid, rfl⟩ := List.mem_map.1 hx
    obtain ⟨slot, hslot⟩ := Option.isSome_iff_exists.1 (hslots rid hrid)
    obtain ⟨page, hpage, hslot⟩ := Option.bind_eq_some_iff.1 hslot
    refine List.mem_product.2 ⟨List.mem_range.2 (List.getElem?_eq_some_iff.1 hpage).1, List.mem_range.2 ?_⟩
    by_contra hout
    rw [dif_neg hout] at hslot
    cases hslot
  have hle := ((hnd.map hinj).subperm hsub).length_le
  rw [List.length_map, List.length_product, List.length_range, List.length_range] at hle
  exact hle

/-- Only edges whose slots are there lead on. -/
theorem length_le_of_linkOf {dir : EdgeDirection} {l : List RecordId} (hnd : l.Nodup)
    (hsome : ∀ e ∈ l, (t.linkOf dir e).isSome) : l.length ≤ t.edges.pages.length * SLOTS := by
  refine length_le_of_slotAt hnd fun e he => ?_
  obtain ⟨next, hnext⟩ := Option.isSome_iff_exists.1 (hsome e he)
  obtain ⟨r, hr, -⟩ := Option.bind_eq_some_iff.1 hnext
  cases hread : t.edges.read e with
  | error err =>
    rw [hread] at hr
    cases hr
  | ok r' =>
    obtain ⟨u, hslot⟩ := RecordTable.slotAt_of_read hread
    rw [hslot]
    rfl

/-- **The loop along a list comes to an end**, and warns about no list that does. -/
theorem finds_verifyChain (nid : RecordId) (chain : String) (dir : EdgeDirection) (first : Option RecordId) :
    ∃ warnings, Finds (fun s => s = t) (verifyChain nid chain dir first) (.ok warnings) ∧
      (warnings = [] ↔ ∃ l, Threads (t.linkOf dir) first l none ∧ l.Nodup) := by
  have hfuel : t.edges.pages.length * SLOTS + 2 ≤ t.walkLimit + 1 := le_refl _
  have hbound : ∀ l : List RecordId, l.Nodup → (∀ x ∈ l, (t.linkOf dir x).isSome) → l.length ≤ _ :=
    fun _ hnd hsome => length_le_of_linkOf hnd hsome
  obtain ⟨back, hback⟩ := Option.isSome_iff_exists.1 (isSome_comesBack (a := first) hbound List.nodup_nil
    (fun x hx => absurd hx List.not_mem_nil) hfuel)
  have hiff := comesBack_eq_false_iff (a := first) hbound hfuel
  rw [hback, Option.some_inj] at hiff
  refine ⟨if back then ["node " ++ nid.debug ++ ": cycle in " ++ chain ++ " chain"] else [], ?_, ?_⟩
  · rintro s rfl
    unfold verifyChain
    rw [run_bind, run_get]
    show (match comesBack _ _ _ _ with | none => _ | some back => _ : Action Topo _) s = _
    rw [hback]
    rfl
  · rw [← hiff]
    cases back <;> simp

theorem finds_verifyEdge (nodes : List RecordId) {r : EdgeRecord} (hr : t.edges.live rid = some r) :
    Finds (fun s => s = t) (verifyEdge nodes rid)
      (.ok (endWarnings nodes rid "from_node" r.fromNode ++ endWarnings nodes rid "to_node" r.toNode)) := by
  rintro s rfl
  unfold verifyEdge
  rw [run_bind, Action.attempt, run_readEdge hr]
  rfl

/-- **Both lists of a node.** -/
theorem finds_verifyNode {r : NodeRecord} (hr : t.nodes.live rid = some r) :
    ∃ warnings, Finds (fun s => s = t) (verifyNode rid) (.ok warnings) ∧
      (warnings = [] ↔ ∀ dir, ∃ l, Threads (t.linkOf dir) (r.first dir) l none ∧ l.Nodup) := by
  obtain ⟨out, hout, houtIff⟩ := finds_verifyChain (t := t) rid "out_edge" .out r.firstOutEdge
  obtain ⟨into, hinto, hintoIff⟩ := finds_verifyChain (t := t) rid "in_edge" .in r.firstInEdge
  refine ⟨out ++ into, ?_, ?_⟩
  · rintro s rfl
    unfold verifyNode
    rw [run_bind, Action.attempt, run_readNode hr]
    exact (hout.bind (u := fun out => .ok (out ++ into)) fun a ha => hinto.bind (u := fun into => .ok (a ++ into))
      fun _ _ => Finds.pure _) s rfl
  · rw [List.append_eq_nil_iff, houtIff, hintoIff]
    constructor
    · rintro ⟨hout, hinto⟩ dir
      cases dir with
      | out => exact hout
      | «in» => exact hinto
    · exact fun hall => ⟨hall .out, hall .in⟩

/-! ## The check -/

/-- A loop whose bodies find lists: nothing is found at all exactly when nothing is found anywhere. -/
theorem exists_collect {S : Type} {P : S → Prop} {rids : List RecordId} {body : RecordId → Action S (List String)}
    {clear : RecordId → Prop} (h : ∀ rid ∈ rids, ∃ warnings, Finds P (body rid) (.ok warnings) ∧ (warnings = [] ↔ clear rid)) :
    ∃ found, Finds P (Action.collect rids fun rid => do pure (some (← body rid))) (.ok found) ∧
      (found.flatten = [] ↔ ∀ rid ∈ rids, clear rid) := by
  induction rids with
  | nil => exact ⟨[], Finds.pure _, by simp⟩
  | cons rid rids ih =>
    obtain ⟨warnings, hhead, hclear⟩ := h rid List.mem_cons_self
    obtain ⟨found, hrest, hall⟩ := ih fun x hx => h x (List.mem_cons_of_mem _ hx)
    refine ⟨warnings :: found, ?_, by simp [hclear, hall]⟩
    exact (hhead.bind (u := fun warnings => .ok (some warnings)) fun _ _ => Finds.pure _).bind (u := fun _ => .ok _)
      fun _ hw => by
        cases hw
        exact hrest.bind (u := fun found => .ok ((some warnings).toList ++ found)) fun _ _ => Finds.pure _

/-- **On any records the check comes to an end, changes nothing, and finds nothing exactly when they are intact.** -/
theorem finds_verify (t : Topo) : ∃ warnings, verify t = (.ok warnings, t) ∧ (warnings = [] ↔ t.Intact) := by
  -- what is found of one edge, and of one node
  have hedge : ∀ eid ∈ t.edges.liveRids, ∃ warnings, Finds (fun s => s = t) (verifyEdge t.nodes.liveRids eid) (.ok warnings) ∧
      (warnings = [] ↔ ∀ r, t.edges.live eid = some r → ∀ dir, t.LiveNode (r.anchor dir)) := by
    intro eid heid
    obtain ⟨r, hr⟩ := RecordTable.mem_liveRids.1 heid
    refine ⟨_, finds_verifyEdge t.nodes.liveRids hr, ?_⟩
    rw [List.append_eq_nil_iff, endWarnings_eq_nil, endWarnings_eq_nil, RecordTable.mem_liveRids, RecordTable.mem_liveRids]
    constructor
    · rintro ⟨hfrom, hto⟩ r' hr' dir
      cases hr.symm.trans hr'
      cases dir with
      | out => exact hfrom
      | «in» => exact hto
    · exact fun hall => ⟨hall r hr .out, hall r hr .in⟩
  have hnode : ∀ nid ∈ t.nodes.liveRids, ∃ warnings, Finds (fun s => s = t) (verifyNode nid) (.ok warnings) ∧
      (warnings = [] ↔ ∀ r, t.nodes.live nid = some r → ∀ dir, ∃ l, Threads (t.linkOf dir) (r.first dir) l none ∧ l.Nodup) := by
    intro nid hnid
    obtain ⟨r, hr⟩ := RecordTable.mem_liveRids.1 hnid
    obtain ⟨warnings, hfind, hiff⟩ := finds_verifyNode hr
    exact ⟨warnings, hfind, hiff.trans ⟨fun h r' hr' => by cases hr.symm.trans hr'; exact h, fun h => h r hr⟩⟩
  obtain ⟨ends, hends, hendsIff⟩ := exists_collect hedge
  obtain ⟨chains, hchains, hchainsIff⟩ := exists_collect hnode
  refine ⟨ends.flatten ++ chains.flatten, ?_, ?_⟩
  · have hall : Finds (fun s => s = t) verify (.ok (ends.flatten ++ chains.flatten)) := by
      unfold verify
      refine Finds.bind (r := .ok t.nodes.liveRids) (u := fun _ => .ok _) (by rintro s rfl; rfl) fun nodes hn => ?_
      cases hn
      refine Finds.bind (r := .ok t.edges.liveRids) (u := fun _ => .ok _) (by rintro s rfl; rfl) fun edges he => ?_
      cases he
      refine hends.bind (u := fun _ => .ok _) fun _ he => ?_
      cases he
      refine hchains.bind (u := fun _ => .ok _) fun _ hc => ?_
      cases hc
      exact Finds.pure _
    exact hall t rfl
  · rw [List.append_eq_nil_iff, hendsIff, hchainsIff]
    constructor
    · rintro ⟨hends, hchains⟩
      exact ⟨fun hr => hends _ (RecordTable.mem_liveRids.2 ⟨_, hr⟩) _ hr,
        fun hr => hchains _ (RecordTable.mem_liveRids.2 ⟨_, hr⟩) _ hr⟩
    · intro h
      exact ⟨fun _ _ _ hr => h.ends hr, fun _ _ _ hr => h.chains hr⟩

/-- **Linked records are intact.** -/
theorem Linked.intact (h : t.Linked) : t.Intact := by
  refine ⟨h.ends, fun {n r} hr dir => ?_⟩
  obtain ⟨lists, hadj⟩ := h.lists dir
  have hlive : t.LiveNode n := ⟨r, hr⟩
  have hthreads := hadj.threads n hlive
  rw [firstEdge_of_live hr] at hthreads
  refine ⟨lists n, hthreads.congr fun e he => ?_, hadj.nodup n hlive⟩
  obtain ⟨er, her, -⟩ := Option.map_eq_some_iff.1 ((owner_none dir e).symm.trans ((hadj.mem n hlive e).1 he))
  rw [nextEdge_of_live her, linkOf, RecordTable.read_of_live her]
  rfl

end Topo

namespace Graph

variable {F : Type} [F64 F] [F64Text F] {M : Type} [FaithfulBacking M] {C : Codecs F} {c : Contents F}

/-- **`verify`** finds nothing in a database that shows contents. -/
theorem Shows.verify {g : Graph M} (h : Shows C c g) : onTopo Topo.verify g = (.ok [], g) := by
  obtain ⟨warnings, hrun, hiff⟩ := Topo.finds_verify g.topo
  rw [hiff.2 h.linked.intact] at hrun
  unfold onTopo Action.zoom
  rw [hrun]

end Graph

end ChiffonDB


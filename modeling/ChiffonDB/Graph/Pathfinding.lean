import ChiffonDB.Graph.Linked
import ChiffonDB.Lib.Bfs

/-!
# Shortest paths

`PathfindingEngine::shortest_path` of `pathfinding/mod.rs`.

* `Topo.shortestPath` — the search, with the edge and the node before every node that it has visited.
* `Topo.Step` — a hop that the options admit.
* `Linked.shortestPath` — **on a linked topology it finds a path exactly if a walk within the depth exists, and
  the path is a shortest walk**.
-/

set_option autoImplicit false

namespace ChiffonDB

inductive PathDirection where
  | outgoing
  | incoming
  | both
  deriving DecidableEq, Repr

structure PathOptions where
  maxDepth : Nat
  direction : PathDirection
  edgeTypeIds : Option (List UInt16)

/-- The nodes and the edges of a path, from its start to its end. -/
structure PathResult where
  nodeRids : List RecordId
  edgeRids : List RecordId
  deriving DecidableEq, Repr

/-- The lists of edges that a direction follows. -/
def PathDirection.admits : PathDirection → EdgeDirection → Bool
  | .outgoing, .out => true
  | .incoming, .in => true
  | .both, _ => true
  | _, _ => false

/-- The node at the other end of an edge on a list of the direction. -/
def EdgeRecord.far (e : EdgeRecord) : EdgeDirection → RecordId
  | .out => e.toNode
  | .in => e.fromNode

/-- `edge_matches`. -/
def edgeMatches (typeId : UInt16) (options : PathOptions) : Bool :=
  match options.edgeTypeIds with
  | none => true
  | some ids => ids.contains typeId

/-- The visited nodes, each with the edge and the node before it. -/
abbrev Visited : Type := RecordId → Option (Option RecordId × Option RecordId)

namespace Topo

variable (options : PathOptions)

/-! ## The search -/

/-- The part of `neighbors` on one of the lists of the node. -/
def adjacent (dir : EdgeDirection) (node : RecordId) : Action Topo (List (RecordId × RecordId)) :=
  if options.direction.admits dir then do
    let edges ← collectEdges dir node
    pure ((edges.filter fun e => edgeMatches e.edgeTypeId options).map fun e => (e.id, e.far dir))
  else pure []

/-- `neighbors`. -/
def neighbors (node : RecordId) : Action Topo (List (RecordId × RecordId)) := do
  let outs ← adjacent options .out node
  let ins ← adjacent options .in node
  pure (outs ++ ins)

/-- The loop over the neighbours of `current`, up to the target. -/
def expand (target current : RecordId) (depth : Nat) : List (RecordId × RecordId) → Visited →
    List (RecordId × Nat) → Visited ⊕ (Visited × List (RecordId × Nat))
  | [], visited, queue => .inr (visited, queue)
  | (edge, next) :: rest, visited, queue =>
    if (visited next).isSome then expand target current depth rest visited queue
    else
      let visited := Function.update visited next (some (some edge, some current))
      if next = target then .inl visited
      else expand target current depth rest visited (queue ++ [(next, depth + 1)])

/-- The loop of `reconstruct_path`, which goes back no farther than the search went. -/
def reconstruct (start : RecordId) (visited : Visited) : Nat → RecordId → List RecordId → List RecordId →
    Outcome PathResult
  | 0, _, _, _ => .panic
  | fuel + 1, current, nodes, edges =>
    match visited current with
    | none => .panic
    | some (some edge, some prev) =>
      if prev = start then .ok ⟨start :: current :: nodes, edge :: edges⟩
      else reconstruct start visited fuel prev (current :: nodes) (edge :: edges)
    | some _ => .ok ⟨current :: nodes, edges⟩

/-- The loop of `shortest_path`. -/
def search (start target : RecordId) : Nat → Visited → List (RecordId × Nat) → Action Topo (Option PathResult)
  | _, _, [] => pure none
  | 0, _, _ :: _ => .panic
  | fuel + 1, visited, (current, depth) :: queue =>
    if options.maxDepth ≤ depth then search start target fuel visited queue
    else do
      let found ← neighbors options current
      match expand target current depth found visited queue with
      | .inl visited => do
        let path ← Action.reads fun _ => reconstruct start visited options.maxDepth target [] []
        pure (some path)
      | .inr (visited, queue) => search start target fuel visited queue

/-- More nodes than a search can come to: the ends of the edges, and the start. -/
def visitLimit (t : Topo) : Nat := t.nodes.pages.length * SLOTS + 2 * t.walkLimit

/-- `shortest_path`. -/
def shortestPath (start target : RecordId) : Action Topo (Option PathResult) :=
  if start = target then pure (some ⟨[start], []⟩)
  else do
    let t ← Action.get
    search options start target t.visitLimit (Function.update (fun _ => none) start (some (none, none))) [(start, 0)]

/-! ## Hops -/

/-- A hop along an edge that the options admit. -/
def Step (t : Topo) (a e b : RecordId) : Prop := ∃ r dir, t.edges.live e = some r ∧
  edgeMatches r.edgeTypeId options = true ∧ options.direction.admits dir = true ∧ r.anchor dir = a ∧ r.far dir = b

variable {options} {t : Topo}

theorem far_eq_anchor (r : EdgeRecord) (dir : EdgeDirection) : ∃ d, r.far dir = r.anchor d := by
  cases dir with
  | out => exact ⟨.in, rfl⟩
  | «in» => exact ⟨.out, rfl⟩

theorem Linked.liveNode_of_step (h : t.Linked) {a e b : RecordId} (hs : Step options t a e b) : t.LiveNode b := by
  obtain ⟨r, dir, hr, -, -, -, rfl⟩ := hs
  obtain ⟨d, hd⟩ := far_eq_anchor r dir
  exact hd ▸ h.ends hr d

/-- The hops along one list. -/
theorem Linked.adjacent (h : t.Linked) (options : PathOptions) {n : RecordId} (hn : t.LiveNode n) (dir : EdgeDirection) :
    ∃ found, adjacent options dir n t = (.ok found, t) ∧ ∀ e b, (e, b) ∈ found ↔ ∃ r, t.edges.live e = some r ∧
      edgeMatches r.edgeTypeId options = true ∧ options.direction.admits dir = true ∧ r.anchor dir = n ∧
        r.far dir = b := by
  unfold Topo.adjacent
  split
  · rename_i hdir
    obtain ⟨edges, hrun, -, hmem⟩ := h.collectEdges hn dir
    refine ⟨_, by rw [Action.run_bind, hrun]; rfl, fun e b => ?_⟩
    simp only [List.mem_map, List.mem_filter, Prod.mk.injEq]
    constructor
    · rintro ⟨r, ⟨hr, hmatch⟩, rfl, rfl⟩
      exact ⟨r, ((hmem r).1 hr).1, hmatch, hdir, ((hmem r).1 hr).2, rfl⟩
    · rintro ⟨r, hr, hmatch, -, hanchor, rfl⟩
      have hid := h.edgeId hr
      exact ⟨r, ⟨(hmem r).2 ⟨by rw [hid, hr], hanchor⟩, hmatch⟩, hid, rfl⟩
  · rename_i hdir
    refine ⟨[], rfl, fun e b => ⟨fun hin => absurd hin List.not_mem_nil, ?_⟩⟩
    rintro ⟨-, -, -, hadmits, -⟩
    exact absurd hadmits hdir

/-- **`neighbors` lists the hops from a node.** -/
theorem Linked.neighbors (h : t.Linked) (options : PathOptions) {n : RecordId} (hn : t.LiveNode n) :
    ∃ found, neighbors options n t = (.ok found, t) ∧ ∀ e b, (e, b) ∈ found ↔ Step options t n e b := by
  obtain ⟨outs, hout, houtMem⟩ := h.adjacent options hn .out
  obtain ⟨ins, hin, hinMem⟩ := h.adjacent options hn .in
  refine ⟨outs ++ ins, ?_, fun e b => ?_⟩
  · unfold Topo.neighbors
    rw [Action.run_bind, hout, Action.andThen, Action.run_bind, hin]
    rfl
  · rw [List.mem_append, houtMem, hinMem]
    constructor
    · rintro (⟨r, hr⟩ | ⟨r, hr⟩)
      · exact ⟨r, .out, hr⟩
      · exact ⟨r, .in, hr⟩
    · rintro ⟨r, dir, hr⟩
      cases dir with
      | out => exact .inl ⟨r, hr⟩
      | «in» => exact .inr ⟨r, hr⟩

/-! ## The state of a search -/

/-- The hop that a node was found by. -/
def parentOf (visited : Visited) (v : RecordId) : Option (RecordId × RecordId) :=
  match visited v with
  | some (some e, some u) => some (e, u)
  | _ => none

theorem parentOf_eq_some {visited : Visited} {v e u : RecordId} :
    parentOf visited v = some (e, u) ↔ visited v = some (some e, some u) := by
  unfold parentOf
  constructor
  · intro h
    split at h
    · rename_i he
      cases h
      exact he
    · cases h
  · intro h
    rw [h]

theorem parentOf_update (visited : Visited) (v e u : RecordId) :
    parentOf (Function.update visited v (some (some e, some u))) =
      Function.update (parentOf visited) v (some (e, u)) := by
  funext w
  unfold parentOf
  by_cases hw : w = v
  · rw [hw, Function.update_self, Function.update_self]
  · rw [Function.update_of_ne hw, Function.update_of_ne hw]

/-- A search from `start`: the visited nodes are those of its frontier. -/
structure Searching (options : PathOptions) (t : Topo) (start : RecordId) (visited : Visited) (depth : RecordId → Nat)
    (done : List RecordId) (queue : List (RecordId × Nat)) : Prop where
  frontier : Bfs.Frontier (Step options t) start options.maxDepth (parentOf visited) depth done queue
  visited_iff : ∀ v, (visited v).isSome = true ↔ v ∈ done ++ queue.map Prod.fst

variable {start target c w e : RecordId} {visited : Visited} {depth : RecordId → Nat} {done : List RecordId}
  {queue : List (RecordId × Nat)} {D : Nat}

/-- A neighbour that has not been visited yet. -/
theorem Searching.discover (h : Searching options t start visited depth done ((c, D) :: queue))
    (hs : Step options t c e w) (hw : ¬ (visited w).isSome = true) :
    Searching options t start (Function.update visited w (some (some e, some c)))
      (Function.update depth w (D + 1)) done ((c, D) :: (queue ++ [(w, D + 1)])) := by
  have hnew : w ∉ done ++ ((c, D) :: queue).map Prod.fst := fun hmem => hw ((h.visited_iff w).2 hmem)
  refine ⟨parentOf_update visited w e c ▸ h.frontier.discover hs hnew, fun v => ?_⟩
  have hsplit : done ++ ((c, D) :: (queue ++ [(w, D + 1)])).map Prod.fst =
      (done ++ ((c, D) :: queue).map Prod.fst) ++ [w] := by simp
  rw [hsplit, List.mem_append, List.mem_singleton, ← h.visited_iff v]
  by_cases hv : v = w
  · rw [hv, Function.update_self]
    simp
  · rw [Function.update_of_ne hv]
    simp [hv]

/-- A visited node stays visited. -/
theorem expand_mono {found : List (RecordId × RecordId)} {visited' : Visited} {queue' : List (RecordId × Nat)}
    (hrun : expand target c D found visited queue = .inr (visited', queue')) {v : RecordId}
    (hv : (visited v).isSome = true) : (visited' v).isSome = true := by
  induction found generalizing visited queue with
  | nil =>
    cases hrun
    exact hv
  | cons p found ih =>
    unfold expand at hrun
    split at hrun
    · exact ih hrun hv
    · dsimp only at hrun
      split at hrun
      · cases hrun
      · refine ih hrun ?_
        by_cases hvw : v = p.2
        · rw [hvw, Function.update_self]
          rfl
        · rwa [Function.update_of_ne hvw]

/-- **The loop over the neighbours of the head.** -/
theorem Searching.expand {found : List (RecordId × RecordId)} (hstep : ∀ p ∈ found, Step options t c p.1 p.2)
    (h : Searching options t start visited depth done ((c, D) :: queue))
    (htarget : ¬ (visited target).isSome = true) :
    (∃ visited' depth' queue', Topo.expand target c D found visited queue = .inl visited' ∧
      Searching options t start visited' depth' done ((c, D) :: queue') ∧
      (visited' target).isSome = true ∧ depth' target = D + 1) ∨
    ∃ visited' depth' queue', Topo.expand target c D found visited queue = .inr (visited', queue') ∧
      Searching options t start visited' depth' done ((c, D) :: queue') ∧
      ¬ (visited' target).isSome = true ∧ ∀ p ∈ found, (visited' p.2).isSome = true := by
  induction found generalizing visited depth queue with
  | nil => exact .inr ⟨visited, depth, queue, rfl, h, htarget, fun p hp => absurd hp List.not_mem_nil⟩
  | cons p found ih =>
    obtain ⟨e, w⟩ := p
    have hrest := fun p hp => hstep p (List.mem_cons_of_mem _ hp)
    unfold Topo.expand
    by_cases hw : (visited w).isSome = true
    · rw [if_pos hw]
      rcases ih hrest h htarget with hfound | ⟨visited', depth', queue', hrun, hs, ht, hall⟩
      · exact .inl hfound
      · refine .inr ⟨visited', depth', queue', hrun, hs, ht, fun p hp => ?_⟩
        rcases List.mem_cons.1 hp with rfl | hp
        · exact expand_mono hrun hw
        · exact hall p hp
    · rw [if_neg hw]
      have hd := h.discover (hstep (e, w) List.mem_cons_self) hw
      dsimp only
      by_cases hwt : w = target
      · rw [if_pos hwt]
        refine .inl ⟨_, _, _, rfl, hd, ?_, ?_⟩
        · rw [hwt, Function.update_self]
          rfl
        · rw [hwt, Function.update_self]
      · rw [if_neg hwt]
        have ht' : ¬ (Function.update visited w (some (some e, some c)) target).isSome = true := by
          rwa [Function.update_of_ne (Ne.symm hwt)]
        rcases ih hrest hd ht' with hfound | ⟨visited', depth', queue', hrun, hs, ht, hall⟩
        · exact .inl hfound
        · refine .inr ⟨visited', depth', queue', hrun, hs, ht, fun p hp => ?_⟩
          rcases List.mem_cons.1 hp with rfl | hp
          · refine expand_mono hrun ?_
            rw [Function.update_self]
            rfl
          · exact hall p hp
/-- **The way back from a visited node.** -/
theorem Searching.reconstruct (h : Searching options t start visited depth done queue) :
    ∀ (fuel : Nat) (v : RecordId) (nodes edges : List RecordId), v ∈ done ++ queue.map Prod.fst → v ≠ start →
      depth v ≤ fuel → Bfs.Walk (Step options t) v (v :: nodes) edges target →
      ∃ p, Topo.reconstruct start visited fuel v nodes edges = .ok p ∧
        Bfs.Walk (Step options t) start p.nodeRids p.edgeRids target ∧ p.edgeRids.length = depth v + edges.length := by
  intro fuel
  induction fuel with
  | zero =>
    intro v nodes edges hv hne hd _
    obtain ⟨e, u, -, -, -, hdepth⟩ := h.frontier.found v hv hne
    omega
  | succ fuel ih =>
    intro v nodes edges hv hne hd hwalk
    obtain ⟨e, u, hparent, hu, hs, hdepth⟩ := h.frontier.found v hv hne
    unfold Topo.reconstruct
    rw [parentOf_eq_some.1 hparent]
    dsimp only
    split
    · rename_i hus
      refine ⟨_, rfl, hus ▸ .cons hs hwalk, ?_⟩
      have hzero : depth u = 0 := hus ▸ h.frontier.started.2
      simp only [List.length_cons]
      omega
    · rename_i hus
      obtain ⟨p, hrun, hp, hlen⟩ := ih u (v :: nodes) (e :: edges) hu hus (by omega) (.cons hs hwalk)
      refine ⟨p, hrun, hp, ?_⟩
      rw [hlen, hdepth, List.length_cons]
      omega

/-! ## The whole search -/

/-- A shortest walk within the depth, if there is one. -/
def IsShortest (options : PathOptions) (t : Topo) (start target : RecordId) : Option PathResult → Prop
  | some p => Bfs.Walk (Step options t) start p.nodeRids p.edgeRids target ∧ p.edgeRids.length ≤ options.maxDepth ∧
      ∀ nodes edges, Bfs.Walk (Step options t) start nodes edges target → p.edgeRids.length ≤ edges.length
  | none => ∀ nodes edges, Bfs.Walk (Step options t) start nodes edges target → options.maxDepth < edges.length

/-- The head is done. -/
theorem Searching.pop (h : Searching options t start visited depth done ((c, D) :: queue))
    (hs : D < options.maxDepth → ∀ e w, Step options t c e w → (visited w).isSome = true) :
    Searching options t start visited depth (done ++ [c]) queue where
  frontier := h.frontier.pop fun hD e w hw => (h.visited_iff w).1 (hs hD e w hw)
  visited_iff v := by
    rw [h.visited_iff v]
    simp

theorem Searching.liveNode (h : Searching options t start visited depth done queue) (hl : t.Linked)
    (hstart : t.LiveNode start) {v : RecordId} (hv : v ∈ done ++ queue.map Prod.fst) : t.LiveNode v := by
  by_cases hvs : v = start
  · exact hvs ▸ hstart
  · obtain ⟨e, u, -, -, hs, -⟩ := h.frontier.found v hv hvs
    exact hl.liveNode_of_step hs

/-- The nodes of a search are live, so that there are no more of them than slots. -/
theorem Searching.length_le (h : Searching options t start visited depth done queue) (hl : t.Linked)
    (hstart : t.LiveNode start) : done.length + queue.length ≤ t.nodes.pages.length * SLOTS := by
  have := RecordTable.length_le_slots h.frontier.nodup fun v hv => h.liveNode hl hstart hv
  simpa using this

/-- **A target that is found.** -/
theorem Searching.shortest (h : Searching options t start visited depth done ((c, D) :: queue)) (hne : start ≠ target)
    (hv : (visited target).isSome = true) (hd : depth target = D + 1) (hD : D < options.maxDepth)
    (hleast : ∀ nodes edges, Bfs.Walk (Step options t) start nodes edges target → D < edges.length) :
    ∃ p, Topo.reconstruct start visited options.maxDepth target [] [] = .ok p ∧
      IsShortest options t start target (some p) := by
  obtain ⟨p, hrun, hwalk, hlen⟩ := h.reconstruct options.maxDepth target [] [] ((h.visited_iff target).1 hv)
    (Ne.symm hne) (by omega) (.nil target)
  rw [hd, List.length_nil] at hlen
  exact ⟨p, hrun, hwalk, by omega, fun nodes edges hw => by
    have := hleast nodes edges hw
    omega⟩

/-- **The loop of `shortest_path`.** -/
theorem Linked.search (hl : t.Linked) (hstart : t.LiveNode start) (hne : start ≠ target) :
    ∀ (fuel : Nat) (visited : Visited) (depth : RecordId → Nat) (done : List RecordId) (queue : List (RecordId × Nat)),
      Searching options t start visited depth done queue → ¬ (visited target).isSome = true →
      t.nodes.pages.length * SLOTS ≤ done.length + fuel →
      ∃ r, Topo.search options start target fuel visited queue t = (.ok r, t) ∧ IsShortest options t start target r := by
  intro fuel
  induction fuel with
  | zero =>
    intro visited depth done queue h ht hfuel
    have hlen := h.length_le hl hstart
    cases queue with
    | nil =>
      refine ⟨none, by unfold Topo.search; rfl, fun nodes edges hwalk => h.frontier.exhausted ?_ hwalk⟩
      exact fun hmem => ht ((h.visited_iff target).2 (by simpa using hmem))
    | cons x queue =>
      rw [List.length_cons] at hlen
      omega
  | succ fuel ih =>
    intro visited depth done queue h ht hfuel
    cases queue with
    | nil =>
      refine ⟨none, by unfold Topo.search; rfl, fun nodes edges hwalk => h.frontier.exhausted ?_ hwalk⟩
      exact fun hmem => ht ((h.visited_iff target).2 (by simpa using hmem))
    | cons x queue =>
      obtain ⟨c, D⟩ := x
      have hfuel' : t.nodes.pages.length * SLOTS ≤ (done ++ [c]).length + fuel := by
        rw [List.length_append, List.length_singleton]
        omega
      unfold Topo.search
      by_cases hD : options.maxDepth ≤ D
      · rw [if_pos hD]
        exact ih visited depth (done ++ [c]) queue (h.pop fun hlt => absurd hlt (Nat.not_lt.2 hD)) ht hfuel'
      · rw [if_neg hD]
        have hlt := Nat.lt_of_not_le hD
        obtain ⟨found, hrun, hmem⟩ := hl.neighbors options (h.liveNode hl hstart (v := c) (by simp))
        have hleast : ∀ nodes edges, Bfs.Walk (Step options t) start nodes edges target → D < edges.length :=
          fun _ _ => h.frontier.least hlt.le fun hin => ht ((h.visited_iff target).2 hin)
        rw [Action.run_bind, hrun, Action.andThen]
        rcases h.expand (fun p hp => (hmem p.1 p.2).1 hp) ht with
          ⟨visited', depth', queue', hexp, hs, hv, hd⟩ | ⟨visited', depth', queue', hexp, hs, hv, hall⟩
        · rw [hexp]
          obtain ⟨p, hp, hshort⟩ := hs.shortest hne hv hd hlt hleast
          refine ⟨some p, ?_, hshort⟩
          show Action.andThen (Topo.reconstruct start visited' options.maxDepth target [] [], t) _ = _
          rw [hp]
          rfl
        · rw [hexp]
          exact ih visited' depth' (done ++ [c]) queue'
            (hs.pop fun _ e w hw => hall (e, w) ((hmem e w).2 hw)) hv hfuel'

/-- **`shortest_path` finds a path exactly if a walk within the depth exists, and that path is a shortest
    walk.** -/
theorem Linked.shortestPath (hl : t.Linked) (hstart : t.LiveNode start) (options : PathOptions) (target : RecordId) :
    ∃ r, Topo.shortestPath options start target t = (.ok r, t) ∧ IsShortest options t start target r := by
  unfold Topo.shortestPath
  by_cases hne : start = target
  · rw [if_pos hne]
    exact ⟨_, rfl, hne ▸ .nil start, Nat.zero_le _, fun _ _ _ => Nat.zero_le _⟩
  · rw [if_neg hne]
    refine hl.search hstart hne t.visitLimit _ (fun _ => 0) [] [(start, 0)] ⟨.initial start _, fun v => ?_⟩ ?_ ?_
    · by_cases hv : v = start
      · rw [hv, Function.update_self]
        simp
      · rw [Function.update_of_ne hv]
        simp [hv]
    · rw [Function.update_of_ne (Ne.symm hne)]
      simp
    · exact (Nat.le_add_right _ _).trans (Nat.le_add_left _ _)

/-- **`shortest_path` is sound, complete and minimal**: from a live node it returns, and it finds a path
    exactly if some walk of admitted hops within the depth leads to the target; the path is such a walk, and none is
    shorter. -/
theorem shortestPath_correct (hl : t.Linked) (hstart : t.LiveNode start) (target : RecordId)
    (options : PathOptions) : ∃ r, Topo.shortestPath options start target t = (.ok r, t) ∧
      (r.isSome = true ↔ ∃ nodes edges, Bfs.Walk (Step options t) start nodes edges target ∧
        edges.length ≤ options.maxDepth) ∧
      ∀ p, r = some p → Bfs.Walk (Step options t) start p.nodeRids p.edgeRids target ∧
        ∀ nodes edges, Bfs.Walk (Step options t) start nodes edges target → p.edgeRids.length ≤ edges.length := by
  obtain ⟨r, hrun, hr⟩ := hl.shortestPath hstart options target
  refine ⟨r, hrun, ?_, fun p hp => ?_⟩
  · cases r with
    | none =>
      refine ⟨fun h => absurd h (by simp), ?_⟩
      rintro ⟨nodes, edges, hwalk, hlen⟩
      exact absurd (hr nodes edges hwalk) (Nat.not_lt.2 hlen)
    | some p => exact ⟨fun _ => ⟨_, _, hr.1, hr.2.1⟩, fun _ => rfl⟩
  · subst hp
    exact ⟨hr.1, hr.2.2⟩

/-! ## Two nodes and an edge -/

/-- One page that holds the records. -/
def onePage {R : Type} (blank : R) (records : List R) : RecordTable R :=
  ⟨[fun i => ⟨i.val < records.length, records.getD i blank⟩], 0, (by decide : 1 < UInt32.size)⟩

theorem live_onePage {R : Type} {blank : R} {records : List R} (hsize : records.length ≤ SLOTS) (rid : RecordId) :
    (onePage blank records).live rid = if rid.pageId = 0 then records[rid.slotId.toNat]? else none := by
  unfold RecordTable.live RecordTable.slotAt onePage
  by_cases hp : rid.pageId = 0
  · rw [if_pos hp, hp]
    show ((if h : rid.slotId.toNat < SLOTS then _ else none : Option (Slot R)).filter _).map _ = _
    by_cases hs : rid.slotId.toNat < records.length
    · rw [dif_pos (Nat.lt_of_lt_of_le hs hsize)]
      simp [hs]
    · rw [List.getElem?_eq_none (Nat.le_of_not_lt hs)]
      split
      · simp [hs]
      · rfl
  · have hpage : rid.pageId.toNat ≠ 0 := fun h => hp (UInt32.toNat_inj.1 h)
    rw [if_neg hp, List.getElem?_eq_none (by simp; omega)]
    rfl

/-- Two nodes, and an edge from the first to the second. -/
def arrow : Topo where
  nodes := onePage NodeRecord.blank [(NodeRecord.new ⟨0, 0⟩ 1).setFirst .out (some ⟨0, 0⟩),
    (NodeRecord.new ⟨0, 1⟩ 1).setFirst .in (some ⟨0, 0⟩)]
  edges := onePage EdgeRecord.blank [EdgeRecord.new ⟨0, 0⟩ 1 ⟨0, 0⟩ ⟨0, 1⟩]

theorem live_arrow_nodes (n : RecordId) : arrow.nodes.live n =
    if n = ⟨0, 0⟩ then some ((NodeRecord.new ⟨0, 0⟩ 1).setFirst .out (some ⟨0, 0⟩))
    else if n = ⟨0, 1⟩ then some ((NodeRecord.new ⟨0, 1⟩ 1).setFirst .in (some ⟨0, 0⟩)) else none := by
  rw [arrow, live_onePage (by decide)]
  obtain ⟨p, s⟩ := n
  by_cases hp : p = 0
  · subst hp
    by_cases h0 : s = 0
    · subst h0
      rfl
    · by_cases h1 : s = 1
      · subst h1
        rfl
      · have h0' : s.toNat ≠ 0 := fun h => h0 (UInt16.toNat_inj.1 h)
        have h1' : s.toNat ≠ 1 := fun h => h1 (UInt16.toNat_inj.1 h)
        rw [if_pos rfl, List.getElem?_eq_none (by simp; omega), if_neg (by simp [h0]), if_neg (by simp [h1])]
  · simp [hp]

theorem live_arrow_edges (e : RecordId) : arrow.edges.live e =
    if e = ⟨0, 0⟩ then some (EdgeRecord.new ⟨0, 0⟩ 1 ⟨0, 0⟩ ⟨0, 1⟩) else none := by
  rw [arrow, live_onePage (by decide)]
  obtain ⟨p, s⟩ := e
  by_cases hp : p = 0
  · subst hp
    by_cases h0 : s = 0
    · subst h0
      rfl
    · have h0' : s.toNat ≠ 0 := fun h => h0 (UInt16.toNat_inj.1 h)
      rw [if_pos rfl, List.getElem?_eq_none (by simp; omega), if_neg (by simp [h0])]
  · simp [hp]

theorem linked_arrow : arrow.Linked where
  nodeId {n r} h := by
    rw [live_arrow_nodes] at h
    split at h
    · cases h
      exact Eq.symm ‹_›
    · split at h
      · cases h
        exact Eq.symm ‹_›
      · cases h
  edgeId {e r} h := by
    rw [live_arrow_edges] at h
    split at h
    · cases h
      exact Eq.symm ‹_›
    · cases h
  ends {e r} h dir := by
    rw [live_arrow_edges] at h
    split at h
    · cases h
      cases dir with
      | out => exact ⟨_, by rw [live_arrow_nodes]; exact if_pos rfl⟩
      | «in» => exact ⟨_, by rw [live_arrow_nodes, if_neg (by decide)]; exact if_pos rfl⟩
    · cases h
  lists dir := by
    refine ⟨fun n => ((arrow.firstEdge dir n).toList), fun n _ => ?_, fun n _ => ?_, fun n hn e => ?_⟩
    · cases hfirst : arrow.firstEdge dir n with
      | none => rfl
      | some e =>
        refine ⟨rfl, ?_⟩
        unfold nextEdge
        rw [live_arrow_edges]
        split
        · cases dir <;> rfl
        · rfl
    · cases arrow.firstEdge dir n <;> simp
    · have hfirst : arrow.firstEdge dir n = some e ↔
          e = ⟨0, 0⟩ ∧ (EdgeRecord.new ⟨0, 0⟩ 1 ⟨0, 0⟩ ⟨0, 1⟩).anchor dir = n := by
        unfold firstEdge
        rw [live_arrow_nodes]
        cases dir <;> split_ifs <;> simp_all [NodeRecord.setFirst, NodeRecord.first, NodeRecord.new,
          EdgeRecord.anchor, EdgeRecord.new, eq_comm]
      rw [Option.mem_toList, hfirst, owner_none, live_arrow_edges]
      by_cases he : e = ⟨0, 0⟩
      · rw [if_pos he, Option.map_some, Option.some.injEq]
        exact and_iff_right he
      · rw [if_neg he]
        exact ⟨fun h => absurd h.1 he, fun h => by cases h⟩

/-- The edge is the path from the first node to the second. -/
theorem shortestPath_arrow : ∃ r, Topo.shortestPath ⟨10, .both, none⟩ ⟨0, 0⟩ ⟨0, 1⟩ arrow = (.ok r, arrow) ∧
    (r.isSome = true ↔ ∃ nodes edges, Bfs.Walk (Step ⟨10, .both, none⟩ arrow) ⟨0, 0⟩ nodes edges ⟨0, 1⟩ ∧
      edges.length ≤ 10) ∧
    ∀ p, r = some p → Bfs.Walk (Step ⟨10, .both, none⟩ arrow) ⟨0, 0⟩ p.nodeRids p.edgeRids ⟨0, 1⟩ ∧
      ∀ nodes edges, Bfs.Walk (Step ⟨10, .both, none⟩ arrow) ⟨0, 0⟩ nodes edges ⟨0, 1⟩ →
        p.edgeRids.length ≤ edges.length :=
  shortestPath_correct linked_arrow ⟨_, by rw [live_arrow_nodes]; exact if_pos rfl⟩ ⟨0, 1⟩ ⟨10, .both, none⟩

example : (Topo.shortestPath ⟨10, .both, none⟩ ⟨0, 0⟩ ⟨0, 1⟩ arrow).1 = .ok (some ⟨[⟨0, 0⟩, ⟨0, 1⟩], [⟨0, 0⟩]⟩) := by
  decide

end Topo

end ChiffonDB

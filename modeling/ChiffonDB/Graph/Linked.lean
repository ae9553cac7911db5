import ChiffonDB.Graph.Topo
import ChiffonDB.Lib.Adjacency

/-!
# Adjacency lists

The live records of a topology, and the lists through them.

* `Topo.LinkedBut` — live endpoints, and lists that hold the live edges of each node, but for an edge
  that is being linked or unlinked; `Topo.Linked` — there is none such.
* `LinkedBut.appendEdge`, `Linked.deleteEdge`, `Linked.freeNode` — **the operations of the store on
  linked topologies**.
* `Linked.collectEdges` — the walk of a list.
-/

set_option autoImplicit false

namespace ChiffonDB

/-! ## Fields of records -/

section Fields

variable (n : NodeRecord) (e : EdgeRecord) (dir d : EdgeDirection) (x : Option RecordId)

@[simp] theorem NodeRecord.id_setFirst : (n.setFirst dir x).id = n.id := by cases dir <;> rfl

@[simp] theorem EdgeRecord.id_setNext : (e.setNext dir x).id = e.id := by cases dir <;> rfl

@[simp] theorem EdgeRecord.anchor_setNext : (e.setNext dir x).anchor d = e.anchor d := by
  cases dir <;> cases d <;> rfl

@[simp] theorem NodeRecord.first_setFirst :
    (n.setFirst dir x).first d = if d = dir then x else n.first d := by
  cases dir <;> cases d <;> rfl

@[simp] theorem EdgeRecord.next_setNext :
    (e.setNext dir x).next d = if d = dir then x else e.next d := by
  cases dir <;> cases d <;> rfl

/-- The id of an edge and the nodes it joins. -/
def EdgeRecord.ends : RecordId × RecordId × RecordId := (e.id, e.fromNode, e.toNode)

/-- A record without its place in the lists. -/
def NodeRecord.body : NodeRecord := { n with firstOutEdge := none, firstInEdge := none }

def EdgeRecord.body : EdgeRecord := { e with nextOutEdge := none, nextInEdge := none }

@[simp] theorem NodeRecord.body_setFirst : (n.setFirst dir x).body = n.body := by cases dir <;> rfl

@[simp] theorem EdgeRecord.body_setNext : (e.setNext dir x).body = e.body := by cases dir <;> rfl

@[simp] theorem EdgeRecord.anchor_body : e.body.anchor d = e.anchor d := by cases d <;> rfl

end Fields

namespace Topo

variable {t t' : Topo}

/-! ## The lists of a topology -/

/-- The bodies of the live records. -/
def node (t : Topo) (n : RecordId) : Option NodeRecord := (t.nodes.live n).map NodeRecord.body

def edge (t : Topo) (e : RecordId) : Option EdgeRecord := (t.edges.live e).map EdgeRecord.body

def LiveNode (t : Topo) (n : RecordId) : Prop := ∃ r, t.nodes.live n = some r

def LiveEdge (t : Topo) (e : RecordId) : Prop := ∃ r, t.edges.live e = some r

def firstEdge (t : Topo) (dir : EdgeDirection) (n : RecordId) : Option RecordId :=
  (t.nodes.live n).bind (·.first dir)

def nextEdge (t : Topo) (dir : EdgeDirection) (e : RecordId) : Option RecordId :=
  (t.edges.live e).bind (·.next dir)

/-- The node on whose list an edge is; the edge `off` is on none. -/
def owner (t : Topo) (off : Option RecordId) (dir : EdgeDirection) (e : RecordId) : Option RecordId :=
  if off = some e then none else (t.edges.live e).map (·.anchor dir)

/-- Live edges join live nodes, and are on their lists of a direction but for the edge `off dir`. -/
structure LinkedBut (t : Topo) (off : EdgeDirection → Option RecordId) : Prop where
  nodeId : ∀ {n r}, t.nodes.live n = some r → r.id = n
  edgeId : ∀ {e r}, t.edges.live e = some r → r.id = e
  ends : ∀ {e r}, t.edges.live e = some r → ∀ dir, t.LiveNode (r.anchor dir)
  lists : ∀ dir, ∃ lists, Adjacency t.LiveNode (t.firstEdge dir) (t.nextEdge dir) (t.owner (off dir) dir) lists

/-- Live edges join live nodes, and each is on its two lists. -/
def Linked (t : Topo) : Prop := t.LinkedBut fun _ => none

theorem owner_none (dir : EdgeDirection) (e : RecordId) :
    t.owner none dir e = (t.edges.live e).map (·.anchor dir) := if_neg (by simp)

theorem owner_self (dir : EdgeDirection) (e : RecordId) : t.owner (some e) dir e = none := if_pos rfl

theorem owner_ne {off : Option RecordId} {e : RecordId} (h : off ≠ some e) (dir : EdgeDirection) :
    t.owner off dir e = (t.edges.live e).map (·.anchor dir) := if_neg h

theorem linked_empty : empty.Linked where
  nodeId h := by cases h
  edgeId h := by cases h
  ends h := by cases h
  lists dir := ⟨fun _ => [], ⟨fun n ⟨r, hr⟩ => (by cases hr), fun n ⟨r, hr⟩ => (by cases hr),
    fun n ⟨r, hr⟩ => (by cases hr)⟩⟩

/-! ## Runs of reads and writes -/

theorem run_readNode {n : RecordId} {r : NodeRecord} (h : t.nodes.live n = some r) :
    readNode n t = (.ok r, t) :=
  congrArg (fun x => (Outcome.ofExcept x, t)) (RecordTable.read_of_live h)

theorem run_readEdge {e : RecordId} {r : EdgeRecord} (h : t.edges.live e = some r) :
    readEdge e t = (.ok r, t) :=
  congrArg (fun x => (Outcome.ofExcept x, t)) (RecordTable.read_of_live h)

theorem run_writeNode (node : NodeRecord) {old : NodeRecord} {n : RecordId} (hid : node.id = n)
    (h : t.nodes.live n = some old) : ∃ t', writeNode node t = (.ok (), t') ∧ t'.edges = t.edges ∧
      t'.nodes.live = Function.update t.nodes.live n (some node) := by
  subst hid
  obtain ⟨nodes, hw, hlive⟩ := RecordTable.live_write node h
  exact ⟨{ t with nodes := nodes }, Action.run_update (by rw [hw]; rfl), rfl, hlive⟩

theorem run_writeEdge (edge : EdgeRecord) {old : EdgeRecord} {e : RecordId} (hid : edge.id = e)
    (h : t.edges.live e = some old) : ∃ t', writeEdge edge t = (.ok (), t') ∧ t'.nodes = t.nodes ∧
      t'.edges.live = Function.update t.edges.live e (some edge) := by
  subst hid
  obtain ⟨edges, hw, hlive⟩ := RecordTable.live_write edge h
  exact ⟨{ t with edges := edges }, Action.run_update (by rw [hw]; rfl), rfl, hlive⟩

/-! ## Records that keep their ids and their ends -/

theorem anchor_of_ends {r r' : EdgeRecord} (h : r'.ends = r.ends) (dir : EdgeDirection) :
    r'.anchor dir = r.anchor dir := by
  simp only [EdgeRecord.ends, Prod.mk.injEq] at h
  cases dir
  · exact h.2.1
  · exact h.2.2

/-- The same live records, with the same ids and ends. -/
structure Skeleton (t t' : Topo) : Prop where
  node : ∀ n, (t'.nodes.live n).map (·.id) = (t.nodes.live n).map (·.id)
  edge : ∀ e, (t'.edges.live e).map (·.ends) = (t.edges.live e).map (·.ends)

namespace Skeleton

variable {t₁ t₂ : Topo}

theorem trans (h : Skeleton t t₁) (h' : Skeleton t₁ t₂) : Skeleton t t₂ :=
  ⟨fun n => (h'.node n).trans (h.node n), fun e => (h'.edge e).trans (h.edge e)⟩

theorem ofNode {n : RecordId} {r r' : NodeRecord} (hn : t.nodes.live n = some r) (hid : r'.id = r.id)
    (he : t'.edges = t.edges) (hlive : t'.nodes.live = Function.update t.nodes.live n (some r')) :
    Skeleton t t' where
  node m := by
    rw [hlive]
    by_cases hm : m = n
    · rw [hm, Function.update_self, hn, Option.map_some, Option.map_some, hid]
    · rw [Function.update_of_ne hm]
  edge e := by rw [he]

theorem ofEdge {e : RecordId} {r r' : EdgeRecord} (hr : t.edges.live e = some r) (hends : r'.ends = r.ends)
    (hn : t'.nodes = t.nodes) (hlive : t'.edges.live = Function.update t.edges.live e (some r')) :
    Skeleton t t' where
  node n := by rw [hn]
  edge d := by
    rw [hlive]
    by_cases hd : d = e
    · rw [hd, Function.update_self, hr, Option.map_some, Option.map_some, hends]
    · rw [Function.update_of_ne hd]

variable (h : Skeleton t t')
include h

theorem liveNode (n : RecordId) : t'.LiveNode n ↔ t.LiveNode n := by
  unfold LiveNode
  have hn := h.node n
  cases hr : t.nodes.live n <;> cases hr' : t'.nodes.live n <;> rw [hr, hr'] at hn <;> simp at hn ⊢

theorem anchor (dir : EdgeDirection) (e : RecordId) :
    (t'.edges.live e).map (·.anchor dir) = (t.edges.live e).map (·.anchor dir) := by
  have he := h.edge e
  cases hr : t.edges.live e with
  | none =>
    rw [hr, Option.map_none, Option.map_eq_none_iff] at he
    rw [he]
  | some r =>
    rw [hr] at he
    obtain ⟨r', hr', hends⟩ := Option.map_eq_some_iff.1 he
    rw [hr']
    exact congrArg some (anchor_of_ends hends dir)

theorem owner (off : Option RecordId) (dir : EdgeDirection) (e : RecordId) :
    t'.owner off dir e = t.owner off dir e := by
  unfold Topo.owner
  rw [h.anchor]

end Skeleton

/-- The same live records but for their places in the lists. -/
structure SameBodies (t t' : Topo) : Prop where
  node : t'.node = t.node
  edge : t'.edge = t.edge

theorem node_update {n : RecordId} {r' : Option NodeRecord} (hlive : t'.nodes.live = Function.update t.nodes.live n r') :
    t'.node = Function.update t.node n (r'.map NodeRecord.body) := by
  funext m
  unfold Topo.node
  rw [hlive]
  by_cases hm : m = n
  · rw [hm, Function.update_self, Function.update_self]
  · rw [Function.update_of_ne hm, Function.update_of_ne hm]

theorem edge_update {e : RecordId} {r' : Option EdgeRecord} (hlive : t'.edges.live = Function.update t.edges.live e r') :
    t'.edge = Function.update t.edge e (r'.map EdgeRecord.body) := by
  funext d
  unfold Topo.edge
  rw [hlive]
  by_cases hd : d = e
  · rw [hd, Function.update_self, Function.update_self]
  · rw [Function.update_of_ne hd, Function.update_of_ne hd]

theorem node_eq_some {n : RecordId} {b : NodeRecord} : t.node n = some b ↔ ∃ r, t.nodes.live n = some r ∧ r.body = b :=
  Option.map_eq_some_iff

theorem edge_eq_some {e : RecordId} {b : EdgeRecord} : t.edge e = some b ↔ ∃ r, t.edges.live e = some r ∧ r.body = b :=
  Option.map_eq_some_iff

theorem node_of_live {n : RecordId} {r : NodeRecord} (h : t.nodes.live n = some r) : t.node n = some r.body :=
  congrArg (Option.map NodeRecord.body) h

theorem edge_of_live {e : RecordId} {r : EdgeRecord} (h : t.edges.live e = some r) : t.edge e = some r.body :=
  congrArg (Option.map EdgeRecord.body) h

namespace SameBodies

variable {t₁ t₂ : Topo}

theorem trans (h : SameBodies t t₁) (h' : SameBodies t₁ t₂) : SameBodies t t₂ :=
  ⟨h'.node.trans h.node, h'.edge.trans h.edge⟩

/-- A node leads to another edge. -/
theorem setFirst {n : RecordId} {r : NodeRecord} {dir : EdgeDirection} {x : Option RecordId}
    (hn : t.nodes.live n = some r) (he : t'.edges = t.edges)
    (hlive : t'.nodes.live = Function.update t.nodes.live n (some (r.setFirst dir x))) : SameBodies t t' where
  node := by
    rw [node_update hlive, Option.map_some, NodeRecord.body_setFirst, ← node_of_live hn, Function.update_eq_self]
  edge := by
    unfold Topo.edge
    rw [he]

/-- An edge leads to another one. -/
theorem setNext {e : RecordId} {r : EdgeRecord} {dir : EdgeDirection} {x : Option RecordId}
    (he : t.edges.live e = some r) (hn : t'.nodes = t.nodes)
    (hlive : t'.edges.live = Function.update t.edges.live e (some (r.setNext dir x))) : SameBodies t t' where
  node := by
    unfold Topo.node
    rw [hn]
  edge := by
    rw [edge_update hlive, Option.map_some, EdgeRecord.body_setNext, ← edge_of_live he, Function.update_eq_self]

theorem skeleton (h : SameBodies t t') : Skeleton t t' where
  node n := by
    have hn := congrArg (Option.map (·.id)) (congrFun h.node n)
    unfold Topo.node at hn
    rw [Option.map_map, Option.map_map] at hn
    exact hn
  edge e := by
    have he := congrArg (Option.map (·.ends)) (congrFun h.edge e)
    unfold Topo.edge at he
    rw [Option.map_map, Option.map_map] at he
    exact he

end SameBodies

namespace LinkedBut

variable {off off' : EdgeDirection → Option RecordId}

/-- New lists through the same records. -/
theorem relist (h : t.LinkedBut off) (hs : Skeleton t t')
    (hlists : ∀ dir, ∃ lists, Adjacency t.LiveNode (t'.firstEdge dir) (t'.nextEdge dir)
      (t.owner (off' dir) dir) lists) : t'.LinkedBut off' where
  nodeId {n r'} hr' := by
    have hid := hs.node n
    rw [hr'] at hid
    obtain ⟨r, hr, he⟩ := Option.map_eq_some_iff.1 hid.symm
    exact he.symm.trans (h.nodeId hr)
  edgeId {e r'} hr' := by
    have hid := hs.edge e
    rw [hr'] at hid
    obtain ⟨r, hr, he⟩ := Option.map_eq_some_iff.1 hid.symm
    exact (congrArg Prod.fst he).symm.trans (h.edgeId hr)
  ends {e r'} hr' dir := by
    have hanchor := hs.anchor dir e
    rw [hr'] at hanchor
    obtain ⟨r, hr, he⟩ := Option.map_eq_some_iff.1 hanchor.symm
    exact (hs.liveNode _).2 ((show r.anchor dir = r'.anchor dir from he) ▸ h.ends hr dir)
  lists dir := by
    obtain ⟨lists, hadj⟩ := hlists dir
    exact ⟨lists, hadj.congr (fun m => (hs.liveNode m).1) (fun _ _ => rfl) (fun _ _ _ _ => rfl)
      fun d m _ => by rw [hs.owner]⟩

/-- The lists of a direction in which nothing has been written. -/
theorem sameLists (h : t.LinkedBut off) {dir : EdgeDirection} {e : Option RecordId} (hoff : off dir = e)
    (hfirst : ∀ n, t'.firstEdge dir n = t.firstEdge dir n) (hnext : ∀ d, t'.nextEdge dir d = t.nextEdge dir d) :
    ∃ lists, Adjacency t.LiveNode (t'.firstEdge dir) (t'.nextEdge dir) (t.owner e dir) lists := by
  obtain ⟨lists, hadj⟩ := h.lists dir
  rw [hoff] at hadj
  exact ⟨lists, hadj.congr (fun _ hm => hm) (fun m _ => hfirst m) (fun d _ _ _ => hnext d) fun _ _ _ => Iff.rfl⟩

end LinkedBut

/-! ## Links behind a write -/

theorem firstEdge_update {n : RecordId} {r' : NodeRecord} (dir : EdgeDirection)
    (hlive : t'.nodes.live = Function.update t.nodes.live n (some r')) (m : RecordId) :
    t'.firstEdge dir m = Function.update (t.firstEdge dir) n (r'.first dir) m := by
  unfold firstEdge
  rw [hlive]
  by_cases hm : m = n
  · rw [hm, Function.update_self, Function.update_self]
    rfl
  · rw [Function.update_of_ne hm, Function.update_of_ne hm]

theorem nextEdge_update {e : RecordId} {r' : EdgeRecord} (dir : EdgeDirection)
    (hlive : t'.edges.live = Function.update t.edges.live e (some r')) (d : RecordId) :
    t'.nextEdge dir d = Function.update (t.nextEdge dir) e (r'.next dir) d := by
  unfold nextEdge
  rw [hlive]
  by_cases hd : d = e
  · rw [hd, Function.update_self, Function.update_self]
    rfl
  · rw [Function.update_of_ne hd, Function.update_of_ne hd]

theorem firstEdge_of_live {n : RecordId} {r : NodeRecord} (h : t.nodes.live n = some r) (dir : EdgeDirection) :
    t.firstEdge dir n = r.first dir := by
  unfold firstEdge
  rw [h]
  rfl

theorem nextEdge_of_live {e : RecordId} {r : EdgeRecord} (h : t.edges.live e = some r) (dir : EdgeDirection) :
    t.nextEdge dir e = r.next dir := by
  unfold nextEdge
  rw [h]
  rfl

theorem nextEdge_congr (h : t'.edges = t.edges) (dir : EdgeDirection) : t'.nextEdge dir = t.nextEdge dir := by
  unfold nextEdge
  rw [h]

theorem firstEdge_congr (h : t'.nodes = t.nodes) (dir : EdgeDirection) : t'.firstEdge dir = t.firstEdge dir := by
  unfold firstEdge
  rw [h]

namespace LinkedBut

variable {off : EdgeDirection → Option RecordId}

/-- A node record with the same lists. -/
theorem setNode (h : t.LinkedBut off) {n : RecordId} {r r' : NodeRecord} (hn : t.nodes.live n = some r)
    (hid : r'.id = r.id) (hfirst : ∀ dir, r'.first dir = r.first dir) (he : t'.edges = t.edges)
    (hlive : t'.nodes.live = Function.update t.nodes.live n (some r')) : t'.LinkedBut off := by
  refine h.relist (.ofNode hn hid he hlive) fun dir => h.sameLists rfl (fun m => ?_) fun d => ?_
  · rw [firstEdge_update dir hlive, hfirst, ← firstEdge_of_live hn, Function.update_eq_self]
  · rw [nextEdge_congr he]

/-- An edge record with the same links. -/
theorem setEdge (h : t.LinkedBut off) {e : RecordId} {r r' : EdgeRecord} (hr : t.edges.live e = some r)
    (hends : r'.ends = r.ends) (hnext : ∀ dir, r'.next dir = r.next dir) (hn : t'.nodes = t.nodes)
    (hlive : t'.edges.live = Function.update t.edges.live e (some r')) : t'.LinkedBut off := by
  refine h.relist (.ofEdge hr hends hn hlive) fun dir => h.sameLists rfl (fun m => ?_) fun d => ?_
  · rw [firstEdge_congr hn]
  · rw [nextEdge_update dir hlive, hnext, ← nextEdge_of_live hr, Function.update_eq_self]

/-- **Linking an edge.** -/
theorem appendEdge (h : t.LinkedBut off) {dir : EdgeDirection} {n e : RecordId} {node : NodeRecord}
    {edge : EdgeRecord} (hn : t.nodes.live n = some node) (he : t.edges.live e = some edge)
    (hanchor : edge.anchor dir = n) (hoff : off dir = some e) :
    ∃ t', Topo.appendEdge dir n e t = (.ok (), t') ∧ t'.LinkedBut (Function.update off dir none) ∧
      t'.nodes.live = Function.update t.nodes.live n (some (node.setFirst dir (some e))) ∧
      t'.edges.live = Function.update t.edges.live e (some (edge.setNext dir (node.first dir))) := by
  obtain ⟨t₁, hw₁, hn₁, he₁⟩ := run_writeEdge (edge.setNext dir (node.first dir))
    ((EdgeRecord.id_setNext ..).trans (h.edgeId he)) he
  obtain ⟨t₂, hw₂, he₂, hn₂⟩ := run_writeNode (node.setFirst dir (some e))
    ((NodeRecord.id_setFirst ..).trans (h.nodeId hn)) ((congrArg (fun nodes => nodes.live n) hn₁).trans hn)
  have hs : Skeleton t t₂ := ((SameBodies.setNext he hn₁ he₁).trans (.setFirst (by rw [hn₁, hn]) he₂ hn₂)).skeleton
  rw [hn₁] at hn₂
  rw [← he₂] at he₁
  refine ⟨t₂, ?_, h.relist hs fun d => ?_, hn₂, he₁⟩
  · unfold Topo.appendEdge
    rw [Action.run_bind, run_readNode hn, Action.andThen, Action.run_bind, run_readEdge he, Action.andThen,
      Action.run_bind, hw₁, Action.andThen, hw₂]
  by_cases hd : d = dir
  · subst hd
    obtain ⟨lists, hadj⟩ := h.lists d
    rw [hoff] at hadj
    refine ⟨_, (hadj.prepend (n := n) (e := e) ⟨node, hn⟩ (owner_self d e)).congr (fun _ hm => hm) ?_ ?_ ?_⟩
    · intro m _
      rw [firstEdge_update d hn₂, NodeRecord.first_setFirst, if_pos rfl]
    · intro d' m _ _
      rw [nextEdge_update d he₁, EdgeRecord.next_setNext, if_pos rfl, firstEdge_of_live hn]
    · intro d' m _
      rw [Function.update_self, owner_none]
      by_cases hde : d' = e
      · rw [hde, Function.update_self, he, Option.map_some, hanchor]
      · rw [Function.update_of_ne hde, owner_ne fun heq => hde (Option.some.inj heq).symm]
  · refine h.sameLists (Function.update_of_ne hd _ _).symm (fun m => ?_) fun d' => ?_
    · rw [firstEdge_update d hn₂, NodeRecord.first_setFirst, if_neg hd, ← firstEdge_of_live hn,
        Function.update_eq_self]
    · rw [nextEdge_update d he₁, EdgeRecord.next_setNext, if_neg hd, ← nextEdge_of_live he,
        Function.update_eq_self]

/-! ## Walks -/

section Lists

variable {dir : EdgeDirection} {lists : RecordId → List RecordId}

/-- The edges on the list of a live node. -/
theorem live_of_mem (hadj : Adjacency t.LiveNode (t.firstEdge dir) (t.nextEdge dir) (t.owner (off dir) dir) lists)
    {n d : RecordId} (hn : t.LiveNode n) (hd : d ∈ lists n) :
    ∃ r, t.edges.live d = some r ∧ r.anchor dir = n := by
  have howner := (hadj.mem n hn d).1 hd
  unfold owner at howner
  split at howner
  · cases howner
  · exact Option.map_eq_some_iff.1 howner

theorem length_lt_walkLimit (off : EdgeDirection → Option RecordId)
    (hadj : Adjacency t.LiveNode (t.firstEdge dir) (t.nextEdge dir) (t.owner (off dir) dir) lists)
    {n : RecordId} (hn : t.LiveNode n) : (lists n).length < t.walkLimit :=
  Nat.lt_succ_of_le (RecordTable.length_le_slots (hadj.nodup n hn) fun _ hd =>
    (live_of_mem hadj hn hd).imp fun _ => And.left)

end Lists

/-- The walk to the edge in front of the target. -/
theorem run_unlink {dir : EdgeDirection} {target x : RecordId} {next : Option RecordId} {l l₂ : List RecordId}
    {xr : EdgeRecord} {fuel : Nat} {start : Option RecordId}
    (hlive : ∀ y ∈ l, ∃ r, t.edges.live y = some r) (hx : t.edges.live x = some xr)
    (ht : Threads (t.nextEdge dir) start (l ++ x :: target :: l₂) none)
    (hnd : (l ++ x :: target :: l₂).Nodup) (hfuel : l.length < fuel) :
    unlink dir target next fuel start t = writeEdge (xr.setNext dir next) t := by
  induction l generalizing fuel start with
  | nil =>
    cases fuel with
    | zero => exact absurd hfuel (Nat.not_lt_zero _)
    | succ fuel =>
      obtain ⟨rfl, hnext, -⟩ := ht
      rw [nextEdge_of_live hx] at hnext
      rw [unlink, Action.run_bind, run_readEdge hx, Action.andThen, if_pos hnext]
  | cons y l ih =>
    cases fuel with
    | zero => exact absurd hfuel (Nat.not_lt_zero _)
    | succ fuel =>
      obtain ⟨rfl, hrest⟩ := ht
      obtain ⟨r, hr⟩ := hlive y List.mem_cons_self
      obtain ⟨-, hnd'⟩ := List.nodup_cons.1 hnd
      have hne : r.next dir ≠ some target := by
        intro heq
        rw [← nextEdge_of_live hr, hrest.start_eq] at heq
        cases l with
        | nil =>
          rw [Option.some.inj heq] at hnd'
          exact (List.nodup_cons.1 hnd').1 List.mem_cons_self
        | cons z l =>
          rw [Option.some.inj heq] at hnd'
          exact (List.nodup_cons.1 hnd').1 (by simp)
      rw [unlink, Action.run_bind, run_readEdge hr, Action.andThen, if_neg hne]
      rw [nextEdge_of_live hr] at hrest
      exact ih (fun z hz => hlive z (List.mem_cons_of_mem _ hz)) hrest hnd'
        (Nat.lt_of_succ_lt_succ hfuel)

/-- **Unlinking an edge.**  Its own record stays. -/
theorem removeFromList (h : t.LinkedBut off) (dir : EdgeDirection) {e : RecordId} {edge : EdgeRecord}
    (he : t.edges.live e = some edge) (hoff : off dir = none) :
    ∃ t', Topo.removeFromList dir (edge.anchor dir) e (edge.next dir) t = (.ok (), t') ∧
      t'.LinkedBut (Function.update off dir (some e)) ∧ t'.edges.live e = some edge ∧ SameBodies t t' := by
  obtain ⟨node, hn⟩ := h.ends he dir
  obtain ⟨lists, hadj⟩ := h.lists dir
  have hlive : t.LiveNode (edge.anchor dir) := ⟨node, hn⟩
  have hmem : e ∈ lists (edge.anchor dir) := by
    rw [hadj.mem _ hlive, hoff, owner_none, he]
    rfl
  obtain ⟨l₁, l₂, hl⟩ := List.append_of_mem hmem
  have hthreads := hadj.threads _ hlive
  have hnd := hadj.nodup _ hlive
  rw [hl] at hthreads hnd
  rw [firstEdge_of_live hn] at hthreads
  -- The edge has no owner any more, in terms of the edge that is off its list.
  have howner : ∀ d m, t.owner (Function.update off dir (some e) dir) dir d = some m ↔
      Function.update (t.owner (off dir) dir) e none d = some m := by
    intro d m
    rw [Function.update_self, hoff]
    by_cases hd : d = e
    · rw [hd, Function.update_self, owner_self]
    · rw [Function.update_of_ne hd, owner_ne (fun heq => hd (Option.some.inj heq).symm), owner_none]
  unfold Topo.removeFromList
  rw [Action.run_bind, run_readNode hn, Action.andThen]
  rcases List.eq_nil_or_concat l₁ with rfl | ⟨l, x, rfl⟩
  · -- It is the first edge: the node leads past it.
    have hfirst : node.first dir = some e := hthreads.1
    rw [if_pos hfirst]
    obtain ⟨t', hw, het, hnt⟩ := run_writeNode (node.setFirst dir (edge.next dir))
      ((NodeRecord.id_setFirst ..).trans (h.nodeId hn)) hn
    have hs : SameBodies t t' := .setFirst hn het hnt
    refine ⟨t', hw, h.relist hs.skeleton fun d => ?_, by rw [het, he], hs⟩
    by_cases hd : d = dir
    · subst hd
      refine ⟨_, (hadj.unlinkFirst hlive hl).congr (fun _ hm => hm) ?_ ?_ fun d' m _ => howner d' m⟩
      · intro m _
        rw [firstEdge_update d hnt, NodeRecord.first_setFirst, if_pos rfl, nextEdge_of_live he]
      · intro d' m _ _
        rw [nextEdge_congr het]
    · refine h.sameLists (Function.update_of_ne hd _ _).symm (fun m => ?_) fun d' => ?_
      · rw [firstEdge_update d hnt, NodeRecord.first_setFirst, if_neg hd, ← firstEdge_of_live hn,
          Function.update_eq_self]
      · rw [nextEdge_congr het]
  · -- It stands behind `x`, which leads past it.
    rw [List.concat_eq_append, List.append_assoc, List.singleton_append] at hthreads hnd
    have hlx : lists (edge.anchor dir) = l ++ x :: e :: l₂ := by
      rw [hl, List.concat_eq_append, List.append_assoc, List.singleton_append]
    have hmemx : ∀ y ∈ l ++ [x], y ∈ lists (edge.anchor dir) := by
      intro y hy
      rw [hlx]
      rcases List.mem_append.1 hy with hy | hy
      · exact List.mem_append_left _ hy
      · rw [List.mem_singleton.1 hy]
        simp
    obtain ⟨xr, hx, -⟩ := live_of_mem hadj hlive (hmemx x (by simp))
    have hxe : e ≠ x := by
      rintro rfl
      exact (List.nodup_cons.1 (List.nodup_append.1 hnd).2.1).1 List.mem_cons_self
    have hfirst : node.first dir ≠ some e := by
      intro heq
      rw [hthreads.start_eq] at heq
      cases l with
      | nil => exact hxe (Option.some.inj heq).symm
      | cons y l =>
        rw [Option.some.inj heq] at hnd
        exact (List.nodup_cons.1 hnd).1 (by simp)
    have hfuel := length_lt_walkLimit off hadj hlive
    rw [hlx, List.length_append] at hfuel
    rw [if_neg hfirst, Action.run_bind]
    show ∃ t', unlink dir e (edge.next dir) t.walkLimit (node.first dir) t = _ ∧ _
    rw [run_unlink (fun y hy => (live_of_mem hadj hlive (hmemx y (by simp [hy]))).imp fun _ => And.left) hx
      hthreads hnd (by omega)]
    obtain ⟨t', hw, hnt, het⟩ := run_writeEdge (xr.setNext dir (edge.next dir))
      ((EdgeRecord.id_setNext ..).trans (h.edgeId hx)) hx
    have hs : SameBodies t t' := .setNext hx hnt het
    refine ⟨t', hw, h.relist hs.skeleton fun d => ?_, by rw [het, Function.update_of_ne hxe, he], hs⟩
    by_cases hd : d = dir
    · subst hd
      refine ⟨_, (hadj.unlinkAfter hlive hlx).congr (fun _ hm => hm) ?_ ?_ fun d' m _ => howner d' m⟩
      · intro m _
        rw [firstEdge_congr hnt]
      · intro d' m _ _
        rw [nextEdge_update d het, EdgeRecord.next_setNext, if_pos rfl, nextEdge_of_live he]
    · refine h.sameLists (Function.update_of_ne hd _ _).symm (fun m => ?_) fun d' => ?_
      · rw [firstEdge_congr hnt]
      · rw [nextEdge_update d het, EdgeRecord.next_setNext, if_neg hd, ← nextEdge_of_live hx,
          Function.update_eq_self]

end LinkedBut

/-! ## Records that come and go -/

/-- **A new node.** -/
theorem LinkedBut.addNode {off : EdgeDirection → Option RecordId} (h : t.LinkedBut off) {n : RecordId}
    {r : NodeRecord} (hfresh : t.nodes.live n = none) (hid : r.id = n) (hfirst : ∀ dir, r.first dir = none)
    (he : t'.edges = t.edges) (hlive : t'.nodes.live = Function.update t.nodes.live n (some r)) :
    t'.LinkedBut off := by
  have hnode : ∀ m, t'.LiveNode m ↔ m = n ∨ t.LiveNode m := by
    intro m
    unfold LiveNode
    rw [hlive]
    by_cases hm : m = n
    · simp [hm]
    · simp [hm]
  refine ⟨?_, ?_, ?_, fun dir => ?_⟩
  · intro m rm hm
    rw [hlive] at hm
    by_cases hmn : m = n
    · rw [hmn, Function.update_self] at hm
      cases hm
      rw [hid, hmn]
    · rw [Function.update_of_ne hmn] at hm
      exact h.nodeId hm
  · rw [he]
    exact h.edgeId
  · rw [he]
    exact fun hr dir => (hnode _).2 (.inr (h.ends hr dir))
  · obtain ⟨lists, hadj⟩ := h.lists dir
    have hown : ∀ d, t.owner (off dir) dir d ≠ some n := by
      intro d howner
      unfold owner at howner
      split at howner
      · cases howner
      · obtain ⟨rd, hd, rfl⟩ := Option.map_eq_some_iff.1 howner
        obtain ⟨rn, hn⟩ := h.ends hd dir
        rw [hfresh] at hn
        cases hn
    refine ⟨_, (hadj.addNode hown (fun m => (hnode m).1) (?_ : t'.firstEdge dir n = none) ?_).congr (fun _ hm => hm) (fun _ _ => rfl) ?_ ?_⟩
    · rw [firstEdge_update dir hlive, Function.update_self, hfirst]
    · intro m hm
      rw [firstEdge_update dir hlive, Function.update_of_ne hm]
    · intro d m _ _
      rw [nextEdge_congr he]
    · intro d m _
      unfold owner
      rw [he]

/-- **A new edge**, which is on no list yet. -/
theorem Linked.addEdge (h : t.Linked) {e : RecordId} {r : EdgeRecord} (hfresh : t.edges.live e = none)
    (hid : r.id = e) (hends : ∀ dir, t.LiveNode (r.anchor dir)) (hn : t'.nodes = t.nodes)
    (hlive : t'.edges.live = Function.update t.edges.live e (some r)) : t'.LinkedBut fun _ => some e := by
  have hnode : ∀ m, t'.LiveNode m ↔ t.LiveNode m := fun m => by unfold LiveNode; rw [hn]
  refine ⟨?_, ?_, ?_, fun dir => ?_⟩
  · rw [hn]
    exact h.nodeId
  · intro d rd hd
    rw [hlive] at hd
    by_cases hde : d = e
    · rw [hde, Function.update_self] at hd
      cases hd
      rw [hid, hde]
    · rw [Function.update_of_ne hde] at hd
      exact h.edgeId hd
  · intro d rd hd dir
    rw [hlive] at hd
    by_cases hde : d = e
    · rw [hde, Function.update_self] at hd
      cases hd
      exact (hnode _).2 (hends dir)
    · rw [Function.update_of_ne hde] at hd
      exact (hnode _).2 (h.ends hd dir)
  · obtain ⟨lists, hadj⟩ := h.lists dir
    refine ⟨lists, hadj.congr (fun m => (hnode m).1) (fun m _ => by rw [firstEdge_congr hn]) ?_ ?_⟩
    · intro d m _ howner
      have hde : d ≠ e := by
        rintro rfl
        rw [owner_none, hfresh] at howner
        cases howner
      rw [nextEdge_update dir hlive, Function.update_of_ne hde]
    · intro d m _
      by_cases hde : d = e
      · rw [hde, owner_self, owner_none, hfresh]
        exact Iff.rfl
      · rw [owner_ne fun heq => hde (Option.some.inj heq).symm, owner_none, hlive, Function.update_of_ne hde]

/-- An edge that is on no list goes. -/
theorem LinkedBut.removeEdge {e : RecordId} (h : t.LinkedBut fun _ => some e) (hn : t'.nodes = t.nodes)
    (hlive : t'.edges.live = Function.update t.edges.live e none) : t'.Linked := by
  have hnode : ∀ m, t'.LiveNode m ↔ t.LiveNode m := fun m => by unfold LiveNode; rw [hn]
  have hold : ∀ {d r}, t'.edges.live d = some r → d ≠ e ∧ t.edges.live d = some r := by
    intro d r hd
    rw [hlive] at hd
    by_cases hde : d = e
    · rw [hde, Function.update_self] at hd
      cases hd
    · rw [Function.update_of_ne hde] at hd
      exact ⟨hde, hd⟩
  refine ⟨?_, fun hd => h.edgeId (hold hd).2, fun hd dir => (hnode _).2 (h.ends (hold hd).2 dir), fun dir => ?_⟩
  · rw [hn]
    exact h.nodeId
  · obtain ⟨lists, hadj⟩ := h.lists dir
    refine ⟨lists, hadj.congr (fun m => (hnode m).1) (fun m _ => by rw [firstEdge_congr hn]) ?_ ?_⟩
    · intro d m _ howner
      have hde : d ≠ e := by
        rintro rfl
        rw [owner_self] at howner
        cases howner
      unfold nextEdge
      rw [hlive, Function.update_of_ne hde]
    · intro d m _
      by_cases hde : d = e
      · rw [hde, owner_self, owner_none, hlive, Function.update_self]
        exact Iff.rfl
      · rw [owner_ne fun heq => hde (Option.some.inj heq).symm, owner_none, hlive, Function.update_of_ne hde]

/-- A node without edges goes. -/
theorem Linked.removeNode (h : t.Linked) {n : RecordId}
    (hown : ∀ d r, t.edges.live d = some r → ∀ dir, r.anchor dir ≠ n) (he : t'.edges = t.edges)
    (hlive : t'.nodes.live = Function.update t.nodes.live n none) : t'.Linked := by
  have hold : ∀ {m r}, t'.nodes.live m = some r → m ≠ n ∧ t.nodes.live m = some r := by
    intro m r hm
    rw [hlive] at hm
    by_cases hmn : m = n
    · rw [hmn, Function.update_self] at hm
      cases hm
    · rw [Function.update_of_ne hmn] at hm
      exact ⟨hmn, hm⟩
  refine ⟨fun hm => h.nodeId (hold hm).2, ?_, ?_, fun dir => ?_⟩
  · rw [he]
    exact h.edgeId
  · intro d r hd dir
    rw [he] at hd
    obtain ⟨rn, hrn⟩ := h.ends hd dir
    refine ⟨rn, ?_⟩
    rw [hlive, Function.update_of_ne (hown d r hd dir), hrn]
  · obtain ⟨lists, hadj⟩ := h.lists dir
    refine ⟨lists, hadj.congr (fun m ⟨r, hm⟩ => ⟨r, (hold hm).2⟩) ?_ ?_ ?_⟩
    · rintro m ⟨r, hm⟩
      rw [firstEdge_of_live hm, firstEdge_of_live (hold hm).2]
    · intro d m _ _
      rw [nextEdge_congr he]
    · intro d m _
      unfold owner
      rw [he]

/-- **`delete_edge`** on a linked topology. -/
theorem Linked.deleteEdge (h : t.Linked) {e : RecordId} (he : t.LiveEdge e) :
    ∃ t', Topo.deleteEdge e t = (.ok (), t') ∧ t'.Linked ∧ t'.node = t.node ∧
      t'.edge = Function.update t.edge e none := by
  obtain ⟨edge, he⟩ := he
  obtain ⟨t₁, hr₁, h₁, he₁, hs₁⟩ := LinkedBut.removeFromList h .out he rfl
  obtain ⟨t₂, hr₂, h₂, he₂, hs₂⟩ := h₁.removeFromList .in he₁ rfl
  obtain ⟨edges, hfree, hlive⟩ := RecordTable.live_free he₂
  have hoff : Function.update (Function.update (fun _ => none) .out (some e)) .in (some e) =
      fun _ : EdgeDirection => some e := by
    funext dir
    cases dir <;> rfl
  rw [hoff] at h₂
  refine ⟨{ t₂ with edges := edges }, ?_, h₂.removeEdge rfl hlive, (hs₁.trans hs₂).node, ?_⟩
  · unfold Topo.deleteEdge
    rw [Action.run_bind, run_readEdge he, Action.andThen, Action.run_bind]
    show Action.andThen (Topo.removeFromList .out (edge.anchor .out) e (edge.next .out) t) _ = _
    rw [hr₁, Action.andThen, Action.run_bind]
    show Action.andThen (Topo.removeFromList .in (edge.anchor .in) e (edge.next .in) t₁) _ = _
    rw [hr₂, Action.andThen]
    exact Action.run_update (by rw [hfree]; rfl)
  · rw [edge_update (t := t₂) hlive, (hs₁.trans hs₂).edge]
    rfl

/-! ## Walks -/

/-- The loop of `collect_edge_chain` over a list. -/
theorem collectFrom_eq {dir : EdgeDirection} {l : List RecordId} {start : Option RecordId} {fuel : Nat}
    (ht : Threads (t.nextEdge dir) start l none) (hlive : ∀ d ∈ l, t.LiveEdge d) (hfuel : l.length ≤ fuel) :
    ∃ edges, collectFrom t dir fuel start = .ok edges ∧ l.map t.edges.live = edges.map some := by
  induction l generalizing start fuel with
  | nil =>
    obtain rfl : start = none := ht
    exact ⟨[], by unfold collectFrom; rfl, rfl⟩
  | cons d l ih =>
    cases fuel with
    | zero => exact absurd hfuel (Nat.not_succ_le_zero _)
    | succ fuel =>
      obtain ⟨rfl, hrest⟩ := ht
      obtain ⟨r, hr⟩ := hlive d List.mem_cons_self
      rw [nextEdge_of_live hr] at hrest
      obtain ⟨edges, hrun, hall⟩ := ih hrest (fun x hx => hlive x (List.mem_cons_of_mem _ hx))
        (Nat.le_of_succ_le_succ hfuel)
      refine ⟨r :: edges, ?_, by rw [List.map_cons, List.map_cons, hr, hall]⟩
      rw [collectFrom, RecordTable.read_of_live hr]
      show (collectFrom t dir fuel (r.next dir)).bind _ = _
      rw [hrun]
      rfl

/-- **The walk of a list ends and gives the edges of the node, each of them once.** -/
theorem Linked.collectEdges (h : t.Linked) {n : RecordId} (hn : t.LiveNode n) (dir : EdgeDirection) :
    ∃ edges, Topo.collectEdges dir n t = (.ok edges, t) ∧ (edges.map (·.id)).Nodup ∧
      ∀ r, r ∈ edges ↔ t.edges.live r.id = some r ∧ r.anchor dir = n := by
  obtain ⟨lists, hadj⟩ := h.lists dir
  obtain ⟨node, hnode⟩ := hn
  have hlive : t.LiveNode n := ⟨node, hnode⟩
  have hthreads := hadj.threads n hlive
  rw [firstEdge_of_live hnode] at hthreads
  have hmem : ∀ d, d ∈ lists n ↔ ∃ r, t.edges.live d = some r ∧ r.anchor dir = n := by
    intro d
    rw [hadj.mem n hlive, owner_none, Option.map_eq_some_iff]
  have hlimit := LinkedBut.length_lt_walkLimit (fun _ => none) hadj hlive
  obtain ⟨edges, hrun, hall⟩ :=
    collectFrom_eq hthreads (fun d hd => ((hmem d).1 hd).imp fun _ => And.left) hlimit.le
  have hids : edges.map (·.id) = lists n := by
    have hsome : (edges.map (·.id)).map some = (lists n).map some := by
      have hmap := congrArg (List.map (Option.map (·.id))) hall
      rw [List.map_map, List.map_map] at hmap
      rw [List.map_map]
      refine hmap.symm.trans (List.map_congr_left fun d hd => ?_)
      obtain ⟨r, hr, -⟩ := (hmem d).1 hd
      rw [Function.comp_apply, hr, Option.map_some, h.edgeId hr]
    exact List.map_injective_iff.2 (Option.some_injective _) hsome
  have hsound : ∀ r ∈ edges, t.edges.live r.id = some r ∧ r.anchor dir = n := by
    intro r hr
    have hin : some r ∈ (lists n).map t.edges.live := by
      rw [hall]
      exact List.mem_map_of_mem hr
    obtain ⟨d, hd, hdr⟩ := List.mem_map.1 hin
    obtain ⟨r', hr', hanchor⟩ := (hmem d).1 hd
    cases hdr.symm.trans hr'
    rw [h.edgeId hdr]
    exact ⟨hdr, hanchor⟩
  refine ⟨edges, ?_, by rw [hids]; exact hadj.nodup n hlive, fun r => ⟨hsound r, ?_⟩⟩
  · unfold Topo.collectEdges
    rw [Action.run_reads]
    show ((Outcome.ofExcept (t.nodes.read n)).bind _, t) = _
    rw [RecordTable.read_of_live hnode]
    exact congrArg (fun x => (x, t)) hrun
  · rintro ⟨hr, hanchor⟩
    have hin : r.id ∈ edges.map (·.id) := by
      rw [hids]
      exact (hmem _).2 ⟨r, hr, hanchor⟩
    obtain ⟨r', hr', hid⟩ := List.mem_map.1 hin
    have hsame := (hsound r' hr').1
    rw [hid, hr] at hsame
    rwa [Option.some.inj hsame]

end Topo

end ChiffonDB

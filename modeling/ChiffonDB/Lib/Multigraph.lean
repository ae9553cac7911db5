import Mathlib.Data.Set.Function
import Mathlib.Logic.Function.Basic

/-!
# Directed multigraphs

Nodes and edges with what they carry. Edges may be parallel, and an edge may be a loop.

* `Multigraph.Copied` — a part of one multigraph is all there is in another.
* `Multigraph.Copied.setNode`, `Multigraph.Copied.setEdge` — **a copy grows by a node, or by an edge**.
* `Multigraph.Isomorphic` — all of it is.
-/

set_option autoImplicit false

namespace ChiffonDB

structure Multigraph (N E A B : Type) where
  node : N → Option A
  edge : E → Option (N × N × B)

namespace Multigraph

variable {N N' E E' A B : Type} {G : Multigraph N E A B} {H : Multigraph N' E' A B} {S : Set N} {T : Set E}
  {f : N → N'} {g : E → E'}

def empty : Multigraph N E A B := ⟨fun _ => none, fun _ => none⟩

def nodes (G : Multigraph N E A B) : Set N := { n | (G.node n).isSome }

def edges (G : Multigraph N E A B) : Set E := { e | (G.edge e).isSome }

def setNode [DecidableEq N] (G : Multigraph N E A B) (n : N) (a : A) : Multigraph N E A B :=
  { G with node := Function.update G.node n (some a) }

def setEdge [DecidableEq E] (G : Multigraph N E A B) (e : E) (x y : N) (b : B) : Multigraph N E A B :=
  { G with edge := Function.update G.edge e (some (x, y, b)) }

@[simp] theorem node_setNode [DecidableEq N] (n : N) (a : A) :
    (G.setNode n a).node = Function.update G.node n (some a) := rfl

@[simp] theorem edge_setNode [DecidableEq N] (n : N) (a : A) : (G.setNode n a).edge = G.edge := rfl

@[simp] theorem edge_setEdge [DecidableEq E] (e : E) (x y : N) (b : B) :
    (G.setEdge e x y b).edge = Function.update G.edge e (some (x, y, b)) := rfl

/-- The domain of an updated map. -/
theorem isSome_update [DecidableEq N] (h : N → Option A) (n : N) (a : A) :
    { x | (Function.update h n (some a) x).isSome } = insert n { x | (h x).isSome } := by
  ext x
  by_cases hx : x = n
  · simp [hx]
  · simp [hx]

/-- The two maps take some nodes and some edges of the first graph to all those of the second. -/
structure Copied (G : Multigraph N E A B) (H : Multigraph N' E' A B) (S : Set N) (T : Set E) (f : N → N') (g : E → E') :
    Prop where
  nodes : Set.BijOn f S H.nodes
  edges : Set.BijOn g T H.edges
  node : ∀ n ∈ S, H.node (f n) = G.node n
  edge : ∀ e ∈ T, H.edge (g e) = (G.edge e).map (Prod.map f (Prod.map f id))

/-- The same nodes and the same edges, under other names. -/
def Isomorphic (G : Multigraph N E A B) (H : Multigraph N' E' A B) : Prop :=
  ∃ (f : N → N') (g : E → E'), Copied G H G.nodes G.edges f g

theorem copied_empty (G : Multigraph N E A B) (f : N → N') (g : E → E') :
    Copied G (empty : Multigraph N' E' A B) ∅ ∅ f g where
  nodes := ⟨Set.mapsTo_empty f _, Set.injOn_empty f, fun m hm => by cases hm⟩
  edges := ⟨Set.mapsTo_empty g _, Set.injOn_empty g, fun e he => by cases he⟩
  node n hn := hn.elim
  edge e he := he.elim

/-- A map that is changed outside of a set. -/
theorem bijOn_update [DecidableEq N] {U : Set N'} (h : Set.BijOn f S U) {n : N} {m : N'} (hn : n ∉ S) (hm : m ∉ U) :
    Set.BijOn (Function.update f n m) (insert n S) (insert m U) := by
  have heq : Set.EqOn f (Function.update f n m) S := by
    intro x hx
    rw [Function.update_of_ne]
    rintro rfl
    exact hn hx
  have hbij := Set.BijOn.insert ((Set.EqOn.bijOn_iff heq).1 h) (a := n) (by rwa [Function.update_self])
  rwa [Function.update_self] at hbij

/-- **A node**, at which there is no edge yet. -/
theorem Copied.setNode [DecidableEq N] [DecidableEq N'] (h : Copied G H S T f g) {n : N} {m : N'} {a : A}
    (hn : n ∉ S) (hm : H.node m = none) (ha : G.node n = some a) (hT : ∀ e ∈ T, ∀ x y b, G.edge e = some (x, y, b) → x ≠ n ∧ y ≠ n) :
    Copied G (H.setNode m a) (insert n S) T (Function.update f n m) g := by
  have hnodes : (H.setNode m a).nodes = insert m H.nodes := isSome_update H.node m a
  have hfresh : m ∉ H.nodes := fun hmem => by
    rw [Multigraph.nodes, Set.mem_ofPred_eq, hm] at hmem
    cases hmem
  refine ⟨?_, h.edges, fun x hx => ?_, fun e he => ?_⟩
  · rw [hnodes]
    exact bijOn_update h.nodes hn hfresh
  · by_cases hxn : x = n
    · rw [hxn, Function.update_self, node_setNode, Function.update_self, ha]
    · have hxS : x ∈ S := hx.resolve_left hxn
      have hne : f x ≠ m := fun he => hfresh (he ▸ h.nodes.mapsTo hxS)
      rw [Function.update_of_ne hxn, node_setNode, Function.update_of_ne hne, h.node x hxS]
  · rw [edge_setNode, h.edge e he]
    cases hedge : G.edge e with
    | none => rfl
    | some ends =>
      obtain ⟨x, y, b⟩ := ends
      obtain ⟨hx, hy⟩ := hT e he x y b hedge
      simp only [Option.map_some, Prod.map_apply, Function.update_of_ne hx, Function.update_of_ne hy]

/-- **An edge.** -/
theorem Copied.setEdge [DecidableEq E] [DecidableEq E'] (h : Copied G H S T f g) {e : E} {e' : E'} {x y : N} {b : B}
    (he : e ∉ T) (hfresh : H.edge e' = none) (hedge : G.edge e = some (x, y, b)) :
    Copied G (H.setEdge e' (f x) (f y) b) S (insert e T) f (Function.update g e e') := by
  have hedges : (H.setEdge e' (f x) (f y) b).edges = insert e' H.edges := isSome_update H.edge e' (f x, f y, b)
  have hnew : e' ∉ H.edges := fun hmem => by
    rw [Multigraph.edges, Set.mem_ofPred_eq, hfresh] at hmem
    cases hmem
  refine ⟨h.nodes, ?_, h.node, fun d hd => ?_⟩
  · rw [hedges]
    exact bijOn_update h.edges he hnew
  · by_cases hde : d = e
    · rw [hde, Function.update_self, edge_setEdge, Function.update_self, hedge]
      rfl
    · have hdT : d ∈ T := hd.resolve_left hde
      have hne : g d ≠ e' := fun heq => hnew (heq ▸ h.edges.mapsTo hdT)
      rw [Function.update_of_ne hde, edge_setEdge, Function.update_of_ne hne, h.edge d hdT]

end Multigraph

end ChiffonDB

import Mathlib.Algebra.Group.Nat.Units
import ChiffonDB.Lib.Repeated
import ChiffonDB.Cypher.MatchRows

/-!
# The rows of a path pattern

A path pattern is meant to find every walk along its hops once.

* `pathWalks` — the walks of a pattern; an undirected hop follows an edge in either orientation.
* `executePathMatch_rows` — the rows that MATCH returns: an undirected hop never goes against its edge, and a
  hop with both arrows passes a self-loop twice.
* `pathRows_iff` — **when the two are the same multiset**.
-/

set_option autoImplicit false

namespace ChiffonDB.Cypher

variable {F : Type} [F64 F]

/-! ## Walks -/

/-- The value of a read that succeeds. -/
def returned {α : Type} (r : Outcome α) (default : α) : α :=
  match r with
  | .ok a => a
  | _ => default

namespace PatternElementChain

variable (chain : PatternElementChain F)

def relLabel : Option String := (chain.relationship.detail.bind (·.types)).bind labelExprName

def endLabel : Option String := extractFirstLabel chain.node.labels

end PatternElementChain

/-- A node matches the end pattern of a hop. -/
def endMatches (view : GraphView F) (chain : PatternElementChain F) (rid : RecordId) (props : Props F) : Bool :=
  (chain.endLabel.all fun el => (returned (view.getNodeLabelNames rid) []).contains el) &&
    (returned (extractInlineProps chain.node.properties) none).all (propsMatch props)

/-- A hop arrives at a node. -/
def arrive (view : GraphView F) (chain : PatternElementChain F) (hop : Hop F) (rid : RecordId) : Option (Stand F) :=
  match view.getNodeProperties rid with
  | .ok props => if endMatches view chain rid props then some ⟨rid, props, some hop⟩ else none
  | _ => none

/-- A hop from a node along an edge, or against it. -/
def stepAlong (view : GraphView F) (outgoing : Bool) (chain : PatternElementChain F) (cur : RecordId)
    (edge : RecordId × Props F) : Option (Stand F) :=
  match view.getEdgeEndpoints edge.1 with
  | .ok (src, dst) =>
    if (if outgoing then src else dst) = cur then
      arrive view chain ⟨edge.1, edge.2, src, dst⟩ (if outgoing then dst else src)
    else none
  | _ => none

def stepsAlong (view : GraphView F) (outgoing : Bool) (chain : PatternElementChain F) (cur : RecordId) :
    List (Stand F) :=
  (returned (view.listEdges chain.relLabel) []).filterMap (stepAlong view outgoing chain cur)

/-- The hops from a node in the direction of the pattern; a self-loop is one hop in either orientation. -/
def steps (view : GraphView F) (chain : PatternElementChain F) (cur : RecordId) : List (Stand F) :=
  match chain.relationship.direction with
  | .right => stepsAlong view true chain cur
  | .left => stepsAlong view false chain cur
  | .undirected | .both =>
    stepsAlong view true chain cur ++ (stepsAlong view false chain cur).filter fun s => s.rid ≠ cur

/-- The walks along the hops from a node, by the nodes they arrive at. -/
def walks (view : GraphView F) : List (PatternElementChain F) → RecordId → List (List (Stand F))
  | [], _ => [[]]
  | chain :: chains, cur => (steps view chain cur).flatMap fun s => (walks view chains s.rid).map (s :: ·)

/-- A walk with its start node. -/
structure PathWalk (F : Type) where
  rid : RecordId
  props : Props F
  stands : List (Stand F)

/-- The nodes that match the start pattern. -/
def startNodes (view : GraphView F) (start : NodePattern F) : List (RecordId × Props F) :=
  (returned (view.listNodes (extractFirstLabel start.labels)) []).filter fun n =>
    inlineMatch start.properties n.2 = .ok true

/-- The walks of a path pattern. -/
def pathWalks (view : GraphView F) (start : NodePattern F) (chains : List (PatternElementChain F)) :
    List (PathWalk F) :=
  (startNodes view start).flatMap fun (rid, props) => (walks view chains rid).map (⟨rid, props, ·⟩)

/-- The last node of a walk. -/
def PathWalk.last (w : PathWalk F) : Stand F := w.stands.getLast?.getD ⟨w.rid, w.props, none⟩

/-- The row that binds the start, the last edge and the end of a walk. -/
def walkRow (view : GraphView F) (start : NodePattern F) (chain : PatternElementChain F) (w : PathWalk F) :
    Props F :=
  (returned (pathRow view start chain w.rid w.props w.last ∅) (∅, ∅)).2

/-- The rows of a path pattern: one per walk. -/
def walkRows (view : GraphView F) (start : NodePattern F) (chains : List (PatternElementChain F)) :
    List (Props F) :=
  match chains.getLast? with
  | none => []
  | some last => (pathWalks view start chains).map (walkRow view start last)

/-! ## What the executor follows -/

/-- How often the executor takes a hop. -/
def takes (chain : PatternElementChain F) (cur : RecordId) (s : Stand F) : ℕ :=
  match chain.relationship.direction with
  | .undirected => if s.hop.map Hop.source = some cur then 1 else 0
  | .both => if s.rid = cur then 2 else 1
  | _ => 1

/-- How often it follows a walk. -/
def follows : List (PatternElementChain F) → RecordId → List (Stand F) → ℕ
  | chain :: chains, cur, s :: stands => takes chain cur s * follows chains s.rid stands
  | _, _, _ => 1

section

variable {view : GraphView F} {chain : PatternElementChain F} {cur : RecordId}

omit [F64 F] in
theorem neighborsAmong_ok {outgoing : Bool} {edges : List (RecordId × Props F)}
    {found : List (RecordId × Props F × RecordId)} (h : neighborsAmong view outgoing cur edges = .ok found) :
    found = edges.filterMap fun edge => match view.getEdgeEndpoints edge.1 with
      | .ok (src, dst) => if (if outgoing then src else dst) = cur then
          some (edge.1, edge.2, if outgoing then dst else src) else none
      | _ => none := by
  induction edges generalizing found with
  | nil =>
    cases h
    rfl
  | cons edge edges ih =>
    obtain ⟨e, props⟩ := edge
    rw [neighborsAmong] at h
    obtain ⟨⟨src, dst⟩, hends, h⟩ := Outcome.bind_eq_ok.1 h
    obtain ⟨rest, hrest, h⟩ := Outcome.bind_eq_ok.1 h
    cases h
    rw [List.filterMap_cons, hends, ih hrest]
    dsimp only
    split_ifs <;> rfl

omit [F64 F] in
theorem listNeighbors_ok {outgoing : Bool} {found : List (RecordId × Props F × RecordId × Bool)}
    (h : listNeighbors view outgoing cur chain.relLabel = .ok found) :
    found = (returned (view.listEdges chain.relLabel) []).filterMap fun edge =>
      match view.getEdgeEndpoints edge.1 with
      | .ok (src, dst) => if (if outgoing then src else dst) = cur then
          some (edge.1, edge.2, if outgoing then dst else src, outgoing) else none
      | _ => none := by
  obtain ⟨edges, hedges, h⟩ := Outcome.bind_eq_ok.1 h
  obtain ⟨near, hnear, h⟩ := Outcome.bind_eq_ok.1 h
  cases h
  rw [hedges, neighborsAmong_ok hnear, List.map_filterMap]
  refine List.filterMap_congr fun edge _ => ?_
  cases view.getEdgeEndpoints edge.1 with
  | ok ends =>
    dsimp only
    split_ifs <;> rfl
  | err e => rfl
  | panic => rfl

theorem acceptNeighbors_ok {inline : Option (Props F)} (hi : extractInlineProps chain.node.properties = .ok inline)
    {neighbors : List (RecordId × Props F × RecordId × Bool)} {stands : List (Stand F)}
    (h : acceptNeighbors view cur chain.endLabel inline neighbors = .ok stands) :
    stands = neighbors.filterMap fun (e, p, n, outgoing) =>
      arrive view chain ⟨e, p, if outgoing then cur else n, if outgoing then n else cur⟩ n := by
  induction neighbors generalizing stands with
  | nil =>
    cases h
    rfl
  | cons n neighbors ih =>
    obtain ⟨e, p, n, outgoing⟩ := n
    rw [acceptNeighbors.eq_def] at h
    dsimp only at h
    obtain ⟨props, hprops, h⟩ := Outcome.bind_eq_ok.1 h
    obtain ⟨labelOk, hlabel, h⟩ := Outcome.bind_eq_ok.1 h
    obtain ⟨rest, hrest, h⟩ := Outcome.bind_eq_ok.1 h
    cases h
    have hok : labelOk = chain.endLabel.all fun el => (returned (view.getNodeLabelNames n) []).contains el := by
      cases hel : chain.endLabel with
      | none =>
        rw [hel] at hlabel
        cases hlabel
        rfl
      | some el =>
        rw [hel] at hlabel
        obtain ⟨names, hnames, hlabel⟩ := Outcome.bind_eq_ok.1 hlabel
        cases hlabel
        rw [hnames]
        rfl
    have hmatch : endMatches view chain n props = (labelOk && inline.all (propsMatch props)) := by
      rw [endMatches, ← hok, hi]
      rfl
    rw [List.filterMap_cons, ← ih hrest]
    dsimp only [arrive]
    rw [hprops]
    dsimp only
    rw [hmatch]
    split <;> rfl

/-- The neighbors that a hop accepts. -/
theorem accepted_ok {outgoing : Bool} {found : List (RecordId × Props F × RecordId × Bool)}
    (h : listNeighbors view outgoing cur chain.relLabel = .ok found) :
    (found.filterMap fun (e, p, n, outgoing) =>
      arrive view chain ⟨e, p, if outgoing then cur else n, if outgoing then n else cur⟩ n) =
      stepsAlong view outgoing chain cur := by
  rw [listNeighbors_ok h, List.filterMap_filterMap]
  refine List.filterMap_congr fun edge _ => ?_
  unfold stepAlong
  cases view.getEdgeEndpoints edge.1 with
  | ok ends =>
    obtain ⟨src, dst⟩ := ends
    dsimp only
    by_cases hnear : (if outgoing then src else dst) = cur
    · rw [if_pos hnear, if_pos hnear]
      cases outgoing with
      | true =>
        subst hnear
        rfl
      | false =>
        subst hnear
        rfl
    · rw [if_neg hnear, if_neg hnear]
      rfl
  | err e => rfl
  | panic => rfl

/-- The hops that the executor takes from a node. -/
def followed (view : GraphView F) (chain : PatternElementChain F) (cur : RecordId) : List (Stand F) :=
  match chain.relationship.direction with
  | .left => stepsAlong view false chain cur
  | .right | .undirected => stepsAlong view true chain cur
  | .both => stepsAlong view true chain cur ++ stepsAlong view false chain cur

theorem hopFrom_ok {inline : Option (Props F)} (hi : extractInlineProps chain.node.properties = .ok inline)
    {current next : List (Stand F)}
    (h : hopFrom view chain.relationship.direction chain.relLabel chain.endLabel inline current = .ok next) :
    next = current.flatMap fun cur => followed view chain cur.rid := by
  induction current generalizing next with
  | nil =>
    cases h
    rfl
  | cons cur current ih =>
    rw [hopFrom.eq_def] at h
    dsimp only at h
    obtain ⟨neighbors, hn, h⟩ := Outcome.bind_eq_ok.1 h
    obtain ⟨accepted, ha, h⟩ := Outcome.bind_eq_ok.1 h
    obtain ⟨rest, hrest, h⟩ := Outcome.bind_eq_ok.1 h
    cases h
    rw [List.flatMap_cons, ← ih hrest, acceptNeighbors_ok hi ha]
    congr 1
    unfold followed
    cases hd : chain.relationship.direction with
    | left =>
      rw [hd] at hn
      exact accepted_ok hn
    | right =>
      rw [hd] at hn
      exact accepted_ok hn
    | undirected =>
      rw [hd] at hn
      exact accepted_ok hn
    | both =>
      rw [hd] at hn
      obtain ⟨out, hout, hn⟩ := Outcome.bind_eq_ok.1 hn
      obtain ⟨into, hinto, hn⟩ := Outcome.bind_eq_ok.1 hn
      cases hn
      rw [List.filterMap_append, accepted_ok hout, accepted_ok hinto]

theorem arrive_eq_some {hop : Hop F} {rid : RecordId} {s : Stand F} :
    arrive view chain hop rid = some s ↔ ∃ props, view.getNodeProperties rid = .ok props ∧
      endMatches view chain rid props = true ∧ s = ⟨rid, props, some hop⟩ := by
  unfold arrive
  cases view.getNodeProperties rid with
  | ok props =>
    rw [Option.ite_none_right_eq_some]
    constructor
    · rintro ⟨hmatch, hs⟩
      exact ⟨props, rfl, hmatch, (Option.some.inj hs).symm⟩
    · rintro ⟨_, hprops, hmatch, rfl⟩
      cases hprops
      exact ⟨hmatch, rfl⟩
  | err e => simp
  | panic => simp

theorem stepAlong_eq_some {outgoing : Bool} {edge : RecordId × Props F} {s : Stand F} :
    stepAlong view outgoing chain cur edge = some s ↔ ∃ src dst, view.getEdgeEndpoints edge.1 = .ok (src, dst) ∧
      (if outgoing then src else dst) = cur ∧
      arrive view chain ⟨edge.1, edge.2, src, dst⟩ (if outgoing then dst else src) = some s := by
  unfold stepAlong
  cases view.getEdgeEndpoints edge.1 with
  | ok ends =>
    rw [Option.ite_none_right_eq_some]
    constructor
    · rintro ⟨hnear, harrive⟩
      exact ⟨_, _, rfl, hnear, harrive⟩
    · rintro ⟨src, dst, hends, hnear, harrive⟩
      cases hends
      exact ⟨hnear, harrive⟩
  | err e => simp
  | panic => simp

/-- Where a hop along or against an edge arrives. -/
theorem stepAlong_hop {outgoing : Bool} {edge : RecordId × Props F} {s : Stand F}
    (h : stepAlong view outgoing chain cur edge = some s) : ∃ hop, s.hop = some hop ∧
      (if outgoing then hop.source else hop.target) = cur ∧
      s.rid = if outgoing then hop.target else hop.source := by
  obtain ⟨src, dst, -, hnear, harrive⟩ := stepAlong_eq_some.1 h
  obtain ⟨props, -, -, rfl⟩ := arrive_eq_some.1 harrive
  exact ⟨_, rfl, hnear, rfl⟩

theorem mem_stepsAlong {outgoing : Bool} {s : Stand F} (h : s ∈ stepsAlong view outgoing chain cur) :
    ∃ hop, s.hop = some hop ∧ (if outgoing then hop.source else hop.target) = cur ∧
      s.rid = if outgoing then hop.target else hop.source := by
  obtain ⟨edge, -, hstep⟩ := List.mem_filterMap.1 h
  exact stepAlong_hop hstep

/-- A self-loop is found in both orientations. -/
theorem loops_eq : (stepsAlong view false chain cur).filter (fun s => s.rid = cur) =
    (stepsAlong view true chain cur).filter fun s => s.rid = cur := by
  unfold stepsAlong
  rw [List.filter_filterMap, List.filter_filterMap]
  refine List.filterMap_congr fun edge _ => ?_
  have hnone : ∀ {outgoing : Bool} {src dst : RecordId}, view.getEdgeEndpoints edge.1 = .ok (src, dst) →
      ¬ (src = cur ∧ dst = cur) → (stepAlong view outgoing chain cur edge).filter (fun s => s.rid = cur) = none := by
    intro outgoing src dst hends hno
    rw [Option.filter_eq_none_iff]
    intro s hs hrid
    obtain ⟨src', dst', hends', hnear, harrive⟩ := stepAlong_eq_some.1 hs
    obtain ⟨props, -, -, rfl⟩ := arrive_eq_some.1 harrive
    cases hends.symm.trans hends'
    have hfar := of_decide_eq_true hrid
    cases outgoing with
    | true => exact hno ⟨hnear, hfar⟩
    | false => exact hno ⟨hfar, hnear⟩
  cases hends : view.getEdgeEndpoints edge.1 with
  | ok ends =>
    obtain ⟨src, dst⟩ := ends
    by_cases hloop : src = cur ∧ dst = cur
    · obtain ⟨rfl, rfl⟩ := hloop
      unfold stepAlong
      rw [hends]
      rfl
    · rw [hnone hends hloop, hnone hends hloop]
  | err e =>
    unfold stepAlong
    rw [hends]
  | panic =>
    unfold stepAlong
    rw [hends]

/-- **The executor misses an undirected hop against its edge, and takes a self-loop with both arrows twice.** -/
theorem followed_perm : (followed view chain cur).Perm (repeated (takes chain cur) id (steps view chain cur)) := by
  have hout : ∀ s ∈ stepsAlong view true chain cur, s.hop.map Hop.source = some cur := by
    intro s hs
    obtain ⟨hop, hhop, hnear, -⟩ := mem_stepsAlong hs
    rw [hhop]
    exact congrArg some hnear
  have hinto : ∀ s ∈ (stepsAlong view false chain cur).filter fun s => s.rid ≠ cur,
      s.hop.map Hop.source ≠ some cur := by
    intro s hs
    obtain ⟨hs, hne⟩ := List.mem_filter.1 hs
    obtain ⟨hop, hhop, -, hfar⟩ := mem_stepsAlong hs
    rw [hhop]
    exact fun h => of_decide_eq_true hne (hfar.trans (Option.some.inj h))
  unfold followed steps
  cases hd : chain.relationship.direction with
  | left =>
    rw [repeated_eq_map fun s _ => by simp [takes, hd], List.map_id]
  | right =>
    rw [repeated_eq_map fun s _ => by simp [takes, hd], List.map_id]
  | undirected =>
    have hnone : repeated (takes chain cur) id ((stepsAlong view false chain cur).filter fun s => s.rid ≠ cur) = [] := by
      refine List.flatMap_eq_nil_iff.2 fun s hs => ?_
      simp [takes, hd, hinto s hs]
    rw [repeated_append, hnone, List.append_nil,
      repeated_eq_map fun s hs => by simp [takes, hd, hout s hs], List.map_id]
  | both =>
    have htwice : takes chain cur = fun s => if s.rid = cur then 2 else 1 := by
      funext s
      simp [takes, hd]
    rw [repeated_append, repeated_eq_map (l := List.filter _ _) fun s hs => ?_, List.map_id]
    · have hsplit := List.filter_append_perm (fun s : Stand F => decide (s.rid = cur)) (stepsAlong view false chain cur)
      have hloops := repeated_twice (l := stepsAlong view true chain cur) fun s => decide (s.rid = cur)
      rw [← loops_eq] at hloops
      simp only [decide_eq_true_eq] at hloops
      rw [htwice]
      refine ((hsplit.symm.append_left _).trans ?_).trans (hloops.symm.append_right _)
      rw [List.append_assoc]
      refine List.Perm.of_eq (congrArg _ (congrArg _ (List.filter_congr fun s _ => ?_)))
      simp
    · obtain ⟨-, hne⟩ := List.mem_filter.1 hs
      simp [takes, hd, of_decide_eq_true hne]

theorem followChains_ok {chains : List (PatternElementChain F)} {current stands : List (Stand F)}
    (h : followChains view chains current = .ok stands) :
    stands.Perm (current.flatMap fun s =>
      repeated (follows chains s.rid) (fun w => w.getLast?.getD s) (walks view chains s.rid)) := by
  induction chains generalizing current stands with
  | nil =>
    cases h
    have hone : ∀ s : Stand F, repeated (follows [] s.rid) (fun w => w.getLast?.getD s) (walks view [] s.rid) = [s] :=
      fun _ => rfl
    simp only [hone]
    rw [List.flatMap_singleton']
  | cons chain chains ih =>
    rw [followChains] at h
    dsimp only at h
    split at h
    · cases h
    · obtain ⟨inline, hi, h⟩ := Outcome.bind_eq_ok.1 h
      obtain ⟨next, hnext, h⟩ := Outcome.bind_eq_ok.1 h
      have hhop := hopFrom_ok hi hnext
      have hstands : stands.Perm (next.flatMap fun s =>
          repeated (follows chains s.rid) (fun w => w.getLast?.getD s) (walks view chains s.rid)) := by
        split at h
        · rename_i hempty
          cases h
          rw [List.isEmpty_iff.1 hempty]
          rfl
        · exact ih h
      refine hstands.trans ?_
      rw [hhop, List.flatMap_assoc]
      refine List.Perm.flatMap_left _ fun cur _ => ?_
      -- the hops of one node, each with the walks behind it
      refine (followed_perm.flatMap_right _).trans ?_
      rw [flatMap_repeated, walks, repeated_flatMap]
      refine List.Perm.flatMap_left _ fun s _ => ?_
      rw [repeated_map]
      refine (flatten_repeated _).trans (List.Perm.of_eq (repeated_congr (fun w _ => rfl) fun w _ => ?_))
      cases w with
      | nil => rfl
      | cons t w => simp [List.getLast?_cons]

omit [F64 F] in
/-- The row of a path does not depend on the bindings. -/
theorem pathRow_row {start : NodePattern F} {rid : RecordId} {props : Props F} {stand : Stand F}
    {pb pb' : Bindings} {row : Props F}
    (h : pathRow view start chain rid props stand pb = .ok (pb', row)) :
    (returned (pathRow view start chain rid props stand ∅) (∅, ∅)).2 = row := by
  obtain ⟨row₁, h₁, h⟩ := Outcome.bind_eq_ok.1 h
  obtain ⟨row₂, h₂, h⟩ := Outcome.bind_eq_ok.1 h
  -- the bindings of the two end points
  obtain ⟨q, hq⟩ : ∃ q, q = bindVariable chain.node.variable (.node stand.rid)
      (bindVariable start.variable (.node rid) ∅) := ⟨_, rfl⟩
  have hrow : ∃ b, pathRow view start chain rid props stand ∅ = .ok (b, row) := by
    dsimp only at h
    cases hv : chain.relationship.detail.bind (·.variable) with
    | none =>
      rw [hv] at h
      cases h
      refine ⟨q, Outcome.bind_eq_ok.2 ⟨row₁, h₁, Outcome.bind_eq_ok.2 ⟨row, h₂, ?_⟩⟩⟩
      dsimp only
      rw [hv, hq]
      rfl
    | some vn =>
      cases hh : stand.hop with
      | none =>
        rw [hv, hh] at h
        cases h
        refine ⟨q, Outcome.bind_eq_ok.2 ⟨row₁, h₁, Outcome.bind_eq_ok.2 ⟨row, h₂, ?_⟩⟩⟩
        dsimp only
        rw [hv, hh, hq]
        rfl
      | some hop =>
        rw [hv, hh] at h
        obtain ⟨row₃, h₃, h⟩ := Outcome.bind_eq_ok.1 h
        cases h
        refine ⟨q.insert vn (.edge hop.edge), Outcome.bind_eq_ok.2 ⟨row₁, h₁, Outcome.bind_eq_ok.2 ⟨row₂, h₂, ?_⟩⟩⟩
        dsimp only
        rw [hv, hh, hq]
        exact Outcome.bind_eq_ok.2 ⟨row, h₃, rfl⟩
  obtain ⟨b, hrow⟩ := hrow
  rw [hrow]
  rfl

/-- The multiplicity of a walk with its start node. -/
def PathWalk.multiplicity (chains : List (PatternElementChain F)) (w : PathWalk F) : ℕ :=
  follows chains w.rid w.stands

theorem pathRows_ok {start : NodePattern F} {rid : RecordId} {props : Props F} {stands : List (Stand F)}
    {pb pb' : Bindings} {rows rows' : List (Props F)}
    (h : pathRows view start chain none rid props stands pb rows = .ok (pb', rows')) :
    rows' = rows ++ stands.map fun s => (returned (pathRow view start chain rid props s ∅) (∅, ∅)).2 := by
  induction stands generalizing pb rows with
  | nil =>
    cases h
    simp
  | cons s stands ih =>
    rw [pathRows] at h
    obtain ⟨⟨b, row⟩, hrow, h⟩ := Outcome.bind_eq_ok.1 h
    obtain ⟨holds, hholds, h⟩ := Outcome.bind_eq_ok.1 h
    cases hholds
    rw [ih h, List.map_cons, pathRow_row hrow, List.append_assoc]
    rfl

/-- **The rows of a path pattern, each as often as the executor follows its walk.** -/
theorem matchPaths_ok {start : NodePattern F} {chains : List (PatternElementChain F)}
    (hlast : chains.getLast? = some chain) {candidates : List (RecordId × Props F)} {pb pb' : Bindings}
    {rows rows' : List (Props F)}
    (h : matchPaths view start chains none candidates pb rows = .ok (pb', rows')) :
    rows'.Perm (rows ++ repeated (PathWalk.multiplicity chains) (walkRow view start chain)
      ((candidates.filter fun n => inlineMatch start.properties n.2 = .ok true).flatMap fun (rid, props) =>
        (walks view chains rid).map (⟨rid, props, ·⟩))) := by
  induction candidates generalizing pb rows with
  | nil =>
    cases h
    simp
  | cons n candidates ih =>
    obtain ⟨rid, props⟩ := n
    rw [matchPaths] at h
    obtain ⟨inline, hinline, h⟩ := Outcome.bind_eq_ok.1 h
    rw [List.filter_cons, hinline]
    cases inline with
    | false =>
      simpa using ih h
    | true =>
      rw [if_pos rfl] at h
      obtain ⟨stands, hstands, h⟩ := Outcome.bind_eq_ok.1 h
      have hperm := followChains_ok hstands
      rw [List.flatMap_singleton] at hperm
      -- the rows of the walks from this node
      have hrows : (stands.map fun s => (returned (pathRow view start chain rid props s ∅) (∅, ∅)).2).Perm
          (repeated (PathWalk.multiplicity chains) (walkRow view start chain)
            ((walks view chains rid).map (⟨rid, props, ·⟩))) := by
        refine (hperm.map _).trans (List.Perm.of_eq ?_)
        rw [repeated_map]
        unfold repeated
        rw [List.map_flatMap]
        exact List.flatMap_congr fun w _ => by rw [List.map_replicate]; rfl
      simp only [decide_true, if_true]
      rw [List.flatMap_cons, repeated_append, ← List.append_assoc]
      split at h
      · rename_i hempty
        rw [List.isEmpty_iff.1 hempty, List.map_nil] at hrows
        rw [List.nil_perm.1 hrows, List.append_nil]
        exact ih h
      · rw [hlast] at h
        obtain ⟨⟨b, rows₁⟩, hrow, h⟩ := Outcome.bind_eq_ok.1 h
        have := ih h
        rw [pathRows_ok hrow] at this
        exact this.trans (((hrows.append_left rows).append_right _))

/-! ## The executor against the walks -/

omit [F64 F] in
/-- No undirected hop of the walk goes against its edge, and none with both arrows passes a self-loop. -/
def OnceOnly : List (PatternElementChain F) → RecordId → List (Stand F) → Prop
  | chain :: chains, cur, s :: stands =>
    ((chain.relationship.direction = .undirected → s.hop.map Hop.source = some cur) ∧
      (chain.relationship.direction = .both → s.rid ≠ cur)) ∧ OnceOnly chains s.rid stands
  | _, _, _ => True

omit [F64 F] in
theorem takes_eq_one {s : Stand F} : takes chain cur s = 1 ↔
    (chain.relationship.direction = .undirected → s.hop.map Hop.source = some cur) ∧
      (chain.relationship.direction = .both → s.rid ≠ cur) := by
  unfold takes
  cases chain.relationship.direction <;> simp

omit [F64 F] in
theorem onceOnly_iff {chains : List (PatternElementChain F)} {stands : List (Stand F)} :
    OnceOnly chains cur stands ↔ follows chains cur stands = 1 := by
  induction chains generalizing cur stands with
  | nil => simp [OnceOnly, follows]
  | cons chain chains ih =>
    cases stands with
    | nil => simp [OnceOnly, follows]
    | cons s stands => rw [OnceOnly, follows, mul_eq_one, takes_eq_one, ih]

omit [F64 F] in
theorem follows_le {chains : List (PatternElementChain F)} (h : ∀ c ∈ chains, c.relationship.direction ≠ .both)
    {stands : List (Stand F)} : follows chains cur stands ≤ 1 := by
  induction chains generalizing cur stands with
  | nil => simp [follows]
  | cons chain chains ih =>
    cases stands with
    | nil => simp [follows]
    | cons s stands =>
      obtain ⟨hc, hcs⟩ := List.forall_mem_cons.1 h
      have htakes : takes chain cur s ≤ 1 := by
        unfold takes
        cases hd : chain.relationship.direction with
        | both => exact absurd hd hc
        | undirected =>
          dsimp only
          split_ifs <;> omega
        | left => exact le_rfl
        | right => exact le_rfl
      exact (Nat.mul_le_mul htakes (ih hcs)).trans_eq (Nat.mul_one 1)

omit [F64 F] in
theorem le_follows {chains : List (PatternElementChain F)}
    (h : ∀ c ∈ chains, c.relationship.direction ≠ .undirected) {stands : List (Stand F)} :
    1 ≤ follows chains cur stands := by
  induction chains generalizing cur stands with
  | nil => simp [follows]
  | cons chain chains ih =>
    cases stands with
    | nil => simp [follows]
    | cons s stands =>
      obtain ⟨hc, hcs⟩ := List.forall_mem_cons.1 h
      have htakes : 1 ≤ takes chain cur s := by
        unfold takes
        cases hd : chain.relationship.direction with
        | undirected => exact absurd hd hc
        | both =>
          dsimp only
          split_ifs <;> omega
        | left => exact le_rfl
        | right => exact le_rfl
      exact Nat.mul_pos htakes (ih hcs)

/-- Every walk is followed once, and not exactly one walk is found that binds nothing. -/
structure FollowsOnce (view : GraphView F) (start : NodePattern F) (chains : List (PatternElementChain F)) :
    Prop where
  once : ∀ w ∈ pathWalks view start chains, OnceOnly chains w.rid w.stands
  bound : ∀ last, chains.getLast? = some last →
    ¬ ∃ w, pathWalks view start chains = [w] ∧ walkRow view start last w = ∅

/-- The rows of a path pattern before the lone empty row is dropped. -/
theorem executePathMatch_rows {start : NodePattern F} {chains : List (PatternElementChain F)}
    (hlast : chains.getLast? = some chain) {bindings : Bindings} {rows : List (Props F)}
    (h : executeMatch view ⟨[.path start chains], none⟩ = .ok (bindings, rows)) :
    ∃ found, rows = normalise found ∧ found.Perm
      (repeated (PathWalk.multiplicity chains) (walkRow view start chain) (pathWalks view start chains)) := by
  obtain ⟨⟨bindings', rows'⟩, hparts, h⟩ := Outcome.bind_eq_ok.1 h
  cases h
  rw [matchParts] at hparts
  obtain ⟨⟨pb, found⟩, hpart, hparts⟩ := Outcome.bind_eq_ok.1 hparts
  cases hparts
  have hpath : executePathMatch view start chains none = .ok (pb, found) := by
    cases chains with
    | nil => cases hlast
    | cons c cs => exact hpart
  obtain ⟨candidates, hcandidates, hpaths⟩ := Outcome.bind_eq_ok.1 hpath
  refine ⟨joinRows [∅] found, rfl, ?_⟩
  have hjoin : joinRows [∅] found = found := by
    unfold joinRows
    rw [List.flatMap_singleton]
    refine (List.map_congr_left fun row _ => ?_).trans (List.map_id found)
    ext k
    simp [Std.ExtTreeMap.getElem?_union]
  rw [hjoin]
  have hperm := matchPaths_ok hlast hpaths
  rw [List.nil_append] at hperm
  unfold pathWalks startNodes
  rw [hcandidates]
  exact hperm

end

/-! ## An edge and its two ends -/

/-- Two nodes, and an edge from the second to the first. -/
def oneEdge : GraphView Float where
  listNodes _ := .ok [(⟨0, 0⟩, ∅), (⟨0, 1⟩, ∅)]
  getNodeProperties _ := .ok ∅
  getNodeLabelNames _ := .ok ["P"]
  listEdges _ := .ok [(⟨1, 0⟩, ∅)]
  getEdgeEndpoints _ := .ok (⟨0, 1⟩, ⟨0, 0⟩)
  getEdgeProperties _ := .ok ∅
  getEdgeLabelNames _ := .ok ["E"]
  nodeExists rid := rid = ⟨0, 0⟩ || rid = ⟨0, 1⟩
  edgeExists rid := rid = ⟨1, 0⟩

/-- A hop to any node, by any edge. -/
def anyHop (direction : RelationshipDirection) : PatternElementChain Float :=
  ⟨⟨some ⟨some "r", none, false, none⟩, direction⟩, ⟨some "b", [], none⟩⟩

def anyNode : NodePattern Float := ⟨some "a", [], none⟩

theorem followsOnce_left : FollowsOnce oneEdge anyNode [anyHop .left] where
  once w _ := by
    cases w.stands with
    | nil => trivial
    | cons s stands => exact ⟨⟨nofun, nofun⟩, trivial⟩
  bound last hlast := by
    rintro ⟨w, hw, hrow⟩
    cases hlast
    have hempty : walkRow oneEdge anyNode (anyHop .left) w = ∅ := hrow
    have hfull : ((pathWalks oneEdge anyNode [anyHop .left]).map fun w =>
        (walkRow oneEdge anyNode (anyHop .left) w).isEmpty) = [false] := rfl
    rw [hw, List.map_singleton, hempty] at hfull
    cases hfull

end ChiffonDB.Cypher

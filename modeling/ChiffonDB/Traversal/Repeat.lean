import ChiffonDB.Graph.Lookups
import ChiffonDB.Graph.Pathfinding
import ChiffonDB.Schema.DoubleText
import ChiffonDB.Traversal.DatabaseView

/-!
# Repeat

The `Repeat` step of a traversal that follows edges to the nodes they lead to.

* `Expands` — one round: from a list of nodes to all that are one step away from one of them.
* `Expands.applyRepeat` — **the rounds of a `Repeat` come to the nodes within their number of steps, each of
  them once**.
* `repeat_reaches` — **on a linked topology `Repeat` is bounded reachability**.
-/

set_option autoImplicit false

set_option linter.unusedSectionVars false

namespace ChiffonDB

open Bfs

/-! ## Loops over reads -/

namespace Outcome

variable {α β : Type}

/-- What a loop finds, when no read of it fails. -/
theorem flatMap_ok {f : α → Outcome (List β)} {R : α → β → Prop} {l : List α}
    (h : ∀ a ∈ l, ∃ bs, f a = .ok bs ∧ ∀ b, b ∈ bs ↔ R a b) :
    ∃ bs, flatMap f l = .ok bs ∧ ∀ b, b ∈ bs ↔ ∃ a ∈ l, R a b := by
  induction l with
  | nil => exact ⟨[], rfl, by simp⟩
  | cons a l ih =>
    obtain ⟨found, hfound, hmem⟩ := h a List.mem_cons_self
    obtain ⟨rest, hrest, hrestMem⟩ := ih fun x hx => h x (List.mem_cons_of_mem _ hx)
    refine ⟨found ++ rest, ?_, fun b => ?_⟩
    · rw [flatMap, hfound]
      show (flatMap f l).bind _ = _
      rw [hrest]
      rfl
    · rw [List.mem_append, hmem, hrestMem, List.exists_mem_cons_iff]

theorem filter_ok {p : α → Outcome Bool} {P : α → Prop} {l : List α}
    (h : ∀ a ∈ l, ∃ passes, p a = .ok passes ∧ (passes = true ↔ P a)) :
    ∃ bs, filter p l = .ok bs ∧ ∀ b, b ∈ bs ↔ b ∈ l ∧ P b := by
  obtain ⟨bs, hrun, hmem⟩ := flatMap_ok (f := fun a => do
    let passes ← p a
    pure (if passes then [a] else [])) (R := fun a b => b = a ∧ P a) (l := l) fun a ha => by
    obtain ⟨passes, hp, hP⟩ := h a ha
    refine ⟨if passes then [a] else [], by rw [hp]; rfl, fun b => ?_⟩
    rw [← hP]
    cases passes <;> simp
  refine ⟨bs, hrun, fun b => (hmem b).trans ⟨?_, fun ⟨hb, hP⟩ => ⟨b, hb, rfl, hP⟩⟩⟩
  rintro ⟨a, ha, rfl, hP⟩
  exact ⟨ha, hP⟩

end Outcome

/-! ## Rounds -/

section Rounds

variable {α ε : Type}

/-- A round comes to the nodes one step away, `name` being the numbers of the nodes. -/
structure Expands (name : α → NodeId) (P : α → Prop) (step : α → ε → α → Prop) (round : Cursor → Outcome Cursor) :
    Prop where
  closed : ∀ {a e b}, P a → step a e b → P b
  round : ∀ l : List α, (∀ a ∈ l, P a) → ∃ new : List α, round (.nodes (l.map name)) = .ok (.nodes (new.map name)) ∧
    ∀ b, b ∈ new ↔ ∃ a ∈ l, ∃ e, step a e b

variable {name : α → NodeId} {P : α → Prop} {step : α → ε → α → Prop} {round : Cursor → Outcome Cursor}

/-- **The rounds** add to what is accumulated the nodes within their number of steps of the frontier. -/
theorem Expands.repeatRounds (h : Expands name P step round) :
    ∀ (depth : ℕ) (frontier accumulated : List α), (∀ a ∈ frontier, P a) → frontier ⊆ accumulated →
      ∃ result : List α, repeatRounds round depth (.nodes (frontier.map name)) (accumulated.map name) =
          .ok (result.map name) ∧
        ∀ b, b ∈ result ↔ b ∈ accumulated ∨ ∃ a ∈ frontier, Within step depth a b := by
  intro depth
  induction depth with
  | zero =>
    intro frontier accumulated _ hsub
    refine ⟨accumulated, rfl, fun b => ⟨.inl, ?_⟩⟩
    rintro (hb | ⟨a, ha, hwithin⟩)
    · exact hb
    · exact Within.zero_iff.1 hwithin ▸ hsub ha
  | succ depth ih =>
    intro frontier accumulated hP hsub
    obtain ⟨new, hrun, hnew⟩ := h.round frontier hP
    have hPnew : ∀ b ∈ new, P b := fun b hb => by
      obtain ⟨a, ha, e, hs⟩ := (hnew b).1 hb
      exact h.closed (hP a ha) hs
    -- a node within one step more: in the frontier, or within the steps that are left of one of the round
    have hsplit : ∀ b, (∃ a ∈ frontier, Within step (depth + 1) a b) ↔
        b ∈ frontier ∨ ∃ c ∈ new, Within step depth c b := by
      intro b
      constructor
      · rintro ⟨a, ha, hwithin⟩
        rcases Within.succ_iff.1 hwithin with rfl | ⟨c, e, hs, hrest⟩
        · exact .inl ha
        · exact .inr ⟨c, (hnew c).2 ⟨a, ha, e, hs⟩, hrest⟩
      · rintro (hb | ⟨c, hc, hrest⟩)
        · exact ⟨b, hb, Within.succ_iff.2 (.inl rfl)⟩
        · obtain ⟨a, ha, e, hs⟩ := (hnew c).1 hc
          exact ⟨a, ha, Within.succ_iff.2 (.inr ⟨c, e, hs, hrest⟩)⟩
    rw [ChiffonDB.repeatRounds, hrun]
    cases new with
    | nil =>
      refine ⟨accumulated, rfl, fun b => ⟨.inl, ?_⟩⟩
      rintro (hb | hb)
      · exact hb
      · rcases (hsplit b).1 hb with hb | ⟨c, hc, -⟩
        · exact hsub hb
        · exact absurd hc List.not_mem_nil
    | cons n ns =>
      obtain ⟨result, hresult, hmem⟩ := ih (n :: ns) (accumulated ++ n :: ns) hPnew (List.subset_append_right _ _)
      refine ⟨result, ?_, fun b => ?_⟩
      · rw [← hresult, List.map_append]
        rfl
      · rw [hmem, hsplit, List.mem_append]
        constructor
        · rintro ((hb | hb) | hb)
          · exact .inl hb
          · exact .inr (.inr ⟨b, hb, _, _, .nil b, Nat.zero_le _⟩)
          · exact .inr (.inr hb)
        · rintro (hb | hb | hb)
          · exact .inl (.inl hb)
          · exact .inl (.inl (hsub hb))
          · exact .inr hb

/-- **`apply_repeat`** gives the nodes within its depth of the first ones, each of them once. -/
theorem Expands.applyRepeat (h : Expands name P step round) (depth : ℕ) {starts : List α} (hstarts : ∀ a ∈ starts, P a) :
    ∃ ids, applyRepeat round depth (.nodes (starts.map name)) = .ok (.nodes ids) ∧ ids.Nodup ∧
      ∀ id, id ∈ ids ↔ ∃ b, id = name b ∧ ∃ a ∈ starts, Within step depth a b := by
  obtain ⟨result, hrun, hmem⟩ := h.repeatRounds depth starts starts hstarts fun _ ha => ha
  refine ⟨dedup (result.map name), ?_, nodup_distinctBy, fun id => ?_⟩
  · rw [ChiffonDB.applyRepeat, hrun]
    rfl
  · rw [dedup, mem_distinctBy, List.mem_map]
    constructor
    · rintro ⟨b, hb, rfl⟩
      refine ⟨b, rfl, ?_⟩
      rcases (hmem b).1 hb with hb | hb
      · exact ⟨b, hb, _, _, .nil b, Nat.zero_le _⟩
      · exact hb
    · rintro ⟨b, rfl, hb⟩
      exact ⟨b, (hmem b).2 (.inr hb), rfl⟩

end Rounds

/-! ## Databases -/

variable {F : Type} [F64 F] [F64Text F] {M : Type} [Backing M]

namespace Graph

variable (C : Codecs F) (registry : Option SchemaRegistry) (g : Graph M) (label : Option String)

/-- A hop along a live edge, which has the label if there is one. -/
def Hop (a e b : RecordId) : Prop := ∃ r, g.topo.edges.live e = some r ∧ r.fromNode = a ∧ r.toNode = b ∧
  ∀ l, label = some l → ∃ labels, readEdgeAllLabels C registry (ridToId e) g = (.ok labels, g) ∧ l ∈ labels

/-- The label lists of the edges can be looked for: no reader of one panics. -/
def LabelsReadable : Prop := ∀ e r, g.topo.edges.live e = some r → (readLabels C r.labelRef g).1 ≠ .panic

variable {C registry g label} {n e : RecordId}

theorem readLabels_state (ref : Option RecordId) : (readLabels C ref g).2 = g := by
  cases ref with
  | none => rfl
  | some rid =>
    show (Action.andThen (Backing.readBytes rid g.pages, g) _).2 = g
    cases Backing.readBytes rid g.pages <;> rfl

theorem run_extraLabels {ref : Option RecordId} (h : (readLabels C ref g).1 ≠ .panic) :
    ∃ labels, extraLabels C ref g = (.ok labels, g) := by
  have hstate := readLabels_state (C := C) (g := g) ref
  unfold extraLabels
  rw [Action.run_bind]
  unfold Action.attempt
  rcases hr : readLabels C ref g with ⟨labels | err | _, g'⟩
  · rw [hr] at hstate
    cases hstate
    exact ⟨_, rfl⟩
  · rw [hr] at hstate
    cases hstate
    exact ⟨_, rfl⟩
  · rw [hr] at h
    exact absurd rfl h

theorem run_readEdge {r : EdgeRecord} (he : g.topo.edges.live e = some r) : readEdge e g = (.ok r, g) := by
  show (let (x, t) := Topo.readEdge e g.topo; (x, ({ g with topo := t } : Graph M))) = _
  rw [Topo.run_readEdge he]

theorem run_readEdgeAllLabels {r : EdgeRecord} (he : g.topo.edges.live e = some r) {extra : List UInt16}
    (hextra : extraLabels C r.labelRef g = (.ok extra, g)) :
    readEdgeAllLabels C registry (ridToId e) g = (.ok ((r.edgeTypeId :: extra).map (typeLabel registry .edge)), g) := by
  unfold readEdgeAllLabels
  rw [Action.run_bind, idToRid_ridToId]
  unfold Action.attempt
  rw [run_readEdge he]
  show Action.andThen (extraLabels C r.labelRef g) _ = _
  rw [hextra]
  rfl

/-- What a loop keeps, when no turn of it fails or changes the state. -/
theorem collect_ok {S α β : Type} (body : α → Action S (Option β)) {R : α → β → Prop} {s : S} {l : List α}
    (h : ∀ a ∈ l, ∃ found, body a s = (.ok found, s) ∧ ∀ b, b ∈ found ↔ R a b) :
    ∃ bs, Action.collect l body s = (.ok bs, s) ∧ ∀ b, b ∈ bs ↔ ∃ a ∈ l, R a b := by
  induction l with
  | nil => exact ⟨[], rfl, by simp⟩
  | cons a l ih =>
    obtain ⟨found, hfound, hmem⟩ := h a List.mem_cons_self
    obtain ⟨rest, hrest, hrestMem⟩ := ih fun x hx => h x (List.mem_cons_of_mem _ hx)
    refine ⟨found.toList ++ rest, ?_, fun b => ?_⟩
    · rw [Action.collect, Action.run_bind, hfound, Action.andThen, Action.run_bind, hrest]
      rfl
    · rw [List.mem_append, Option.mem_toList, ← Option.mem_def, hmem, hrestMem, List.exists_mem_cons_iff]

/-- The edges that leave a node, with the label if there is one. -/
theorem outEdges_ok (registry : Option SchemaRegistry) (hl : g.topo.Linked) (hlabels : label ≠ none → LabelsReadable C g) (hn : g.topo.LiveNode n) :
    ∃ eids, (databaseView C registry g).outEdges (ridToId n) label = .ok eids ∧
      ∀ id, id ∈ eids ↔ ∃ e b, id = ridToId e ∧ Hop C registry g label n e b := by
  obtain ⟨edges, hrun, -, hmem⟩ := hl.collectEdges hn .out
  have hcollect : Action.attempt (onTopo (Topo.collectEdges .out (idToRid (ridToId n)))) g = (.ok (.ok edges), g) := by
    unfold Action.attempt onTopo Action.zoom
    rw [idToRid_ridToId, hrun]
  have hids : ∀ id, id ∈ edges.map (fun e => ridToId e.id) ↔
      ∃ r e, id = ridToId e ∧ g.topo.edges.live e = some r ∧ r.fromNode = n := by
    intro id
    rw [List.mem_map]
    constructor
    · rintro ⟨r, hr, rfl⟩
      obtain ⟨hlive, hanchor⟩ := (hmem r).1 hr
      exact ⟨r, r.id, rfl, hlive, hanchor⟩
    · rintro ⟨r, e, rfl, hlive, hanchor⟩
      have hid := hl.edgeId hlive
      exact ⟨r, (hmem r).2 ⟨by rw [hid, hlive], hanchor⟩, by rw [hid]⟩
  cases label with
  | none =>
    refine ⟨edges.map fun e => ridToId e.id, ?_, fun id => (hids id).trans ?_⟩
    · show (labelledEdges C registry .out (ridToId n) none g).1 = _
      rw [labelledEdges, Action.run_bind, hcollect]
      rfl
    · constructor
      · rintro ⟨r, e, rfl, hlive, hfrom⟩
        exact ⟨e, _, rfl, r, hlive, hfrom, rfl, nofun⟩
      · rintro ⟨e, b, rfl, r, hlive, hfrom, -, -⟩
        exact ⟨r, e, rfl, hlive, hfrom⟩
  | some l =>
    have hread := hlabels nofun
    obtain ⟨eids, hkept, hkeptMem⟩ := collect_ok
      (fun eid => do
        let labels ← readEdgeAllLabels C registry eid
        pure (if l ∈ labels then some eid else none))
      (s := g) (l := edges.map fun e => ridToId e.id) (R := fun eid id => id = eid ∧ ∃ labels, readEdgeAllLabels C registry eid g = (.ok labels, g) ∧ l ∈ labels)
      fun eid heid => by
        obtain ⟨r, e, rfl, hlive, -⟩ := (hids eid).1 heid
        obtain ⟨extra, hextra⟩ := run_extraLabels (hread e r hlive)
        obtain ⟨labels, hlab⟩ : ∃ labels, readEdgeAllLabels C registry (ridToId e) g = (.ok labels, g) :=
          ⟨_, run_readEdgeAllLabels hlive hextra⟩
        refine ⟨if l ∈ labels then some (ridToId e) else none, by rw [Action.run_bind, hlab]; rfl, fun id => ?_⟩
        rw [hlab]
        by_cases hin : l ∈ labels
        · simp [hin, eq_comm]
        · simp [hin]
    refine ⟨eids, ?_, fun id => (hkeptMem id).trans ?_⟩
    · show (labelledEdges C registry .out (ridToId n) (some l) g).1 = _
      rw [labelledEdges, Action.run_bind, hcollect]
      exact congrArg Prod.fst hkept
    · constructor
      · rintro ⟨eid, heid, rfl, hlabel⟩
        obtain ⟨r, e, rfl, hlive, hfrom⟩ := (hids _).1 heid
        refine ⟨e, _, rfl, r, hlive, hfrom, rfl, ?_⟩
        rintro _ ⟨⟩
        exact hlabel
      · rintro ⟨e, b, rfl, r, hlive, hfrom, -, hlabel⟩
        exact ⟨ridToId e, (hids _).2 ⟨r, e, rfl, hlive, hfrom⟩, rfl, hlabel l rfl⟩

/-- Where a live edge leads to. -/
theorem edgeToNode_ok {r : EdgeRecord} (he : g.topo.edges.live e = some r) :
    (databaseView C registry g).edgeToNode (ridToId e) = .ok (some (ridToId r.toNode)) := by
  show readOr (readEdge (idToRid (ridToId e))) (fun edge => ridToId edge.toNode) g = _
  unfold readOr
  rw [Action.run_bind, idToRid_ridToId]
  unfold Action.attempt
  rw [run_readEdge he]
  rfl

/-- The steps of a round: the edges that leave, and the nodes that they lead to. -/
def outSteps (label : Option String) : List (TraversalStep F) :=
  [{ action := .outEdges, label := label }, { action := .outNodes }]

theorem applyStep_outEdges (T : TextOps) (graph : GraphAccess F) (bindings : Props F) (cursor : Cursor) :
    applyStep T graph bindings { action := .outEdges, label := label } cursor =
      edgesOf (fun n => graph.outEdges n label) cursor := by
  show (edgesOf (fun n => graph.outEdges n label) cursor).bind _ = _
  cases edgesOf (fun n => graph.outEdges n label) cursor <;> rfl

theorem applyStep_outNodes (T : TextOps) (graph : GraphAccess F) (bindings : Props F) (cursor : Cursor) :
    applyStep T graph bindings { action := .outNodes } cursor =
      nodesOf graph (fun e => do pure (← graph.edgeToNode e).toList) none cursor := by
  show (nodesOf graph _ none cursor).bind _ = _
  cases nodesOf graph (fun e => do pure (← graph.edgeToNode e).toList) none cursor <;> rfl

/-- **A round follows the hops.** -/
theorem expands_outSteps (registry : Option SchemaRegistry) (T : TextOps) (bindings : Props F) (hl : g.topo.Linked)
    (hlabels : label ≠ none → LabelsReadable C g) :
    Expands ridToId g.topo.LiveNode (Hop C registry g label)
      (applySteps T (databaseView C registry g) bindings (outSteps label)) where
  closed := by
    rintro a e b - ⟨r, hr, -, rfl, -⟩
    exact hl.ends hr .in
  round l hlive := by
    obtain ⟨eids, heids, heidsMem⟩ := Outcome.flatMap_ok (l := l.map ridToId)
      (f := fun n => (databaseView C registry g).outEdges n label)
      (R := fun a id => ∃ n e b, a = ridToId n ∧ id = ridToId e ∧ Hop C registry g label n e b) fun a ha => by
        obtain ⟨n, hn, rfl⟩ := List.mem_map.1 ha
        obtain ⟨eids, hrun, hmem⟩ := outEdges_ok registry hl hlabels (hlive n hn)
        refine ⟨eids, hrun, fun id => (hmem id).trans ⟨fun ⟨e, b, h⟩ => ⟨n, e, b, rfl, h⟩, ?_⟩⟩
        rintro ⟨m, e, b, hm, h⟩
        exact ⟨e, b, ridToId_injective hm ▸ h⟩
    obtain ⟨ids, hids, hidsMem⟩ := Outcome.flatMap_ok (l := eids)
      (f := fun e => do pure (← (databaseView C registry g).edgeToNode e).toList)
      (R := fun eid id => ∃ e r, eid = ridToId e ∧ g.topo.edges.live e = some r ∧ id = ridToId r.toNode) fun eid heid => by
        obtain ⟨-, -, -, e, -, -, rfl, r, hr, -⟩ := (heidsMem eid).1 heid
        refine ⟨[ridToId r.toNode], by rw [edgeToNode_ok hr]; rfl, fun id => ?_⟩
        rw [List.mem_singleton]
        constructor
        · rintro rfl
          exact ⟨e, r, rfl, hr, rfl⟩
        · rintro ⟨e', r', he', hr', rfl⟩
          cases ridToId_injective he'
          rw [hr] at hr'
          cases hr'
          rfl
    obtain ⟨kept, hkept, hkeptMem⟩ := Outcome.filter_ok (p := arrives (databaseView C registry g) none)
      (P := fun _ => True) (l := ids) fun id _ => ⟨true, rfl, by simp⟩
    have hhop : ∀ id, id ∈ kept ↔ ∃ b, id = ridToId b ∧ ∃ a ∈ l, ∃ e, Hop C registry g label a e b := by
      intro id
      rw [hkeptMem, and_iff_left trivial, hidsMem]
      constructor
      · rintro ⟨eid, heid, e, r, rfl, hr, rfl⟩
        obtain ⟨a, ha, n, e', b, rfl, he, hop⟩ := (heidsMem _).1 heid
        obtain ⟨m, hm, hmn⟩ := List.mem_map.1 ha
        cases ridToId_injective he
        cases ridToId_injective hmn
        obtain ⟨r', hr', hfrom, hto, hlabel⟩ := hop
        rw [hr] at hr'
        cases hr'
        exact ⟨_, rfl, _, hm, e, r, hr, hfrom, rfl, hlabel⟩
      · rintro ⟨b, rfl, a, ha, e, hop⟩
        obtain ⟨r, hr, -, rfl, -⟩ := id hop
        exact ⟨ridToId e, (heidsMem _).2 ⟨ridToId a, List.mem_map_of_mem ha, a, e, _, rfl, rfl, hop⟩, e, r, rfl, hr, rfl⟩
    have hmap : (kept.map idToRid).map ridToId = kept := by
      rw [List.map_map]
      refine (List.map_congr_left fun id hid => ?_).trans (List.map_id kept)
      obtain ⟨b, rfl, -⟩ := (hhop id).1 hid
      exact congrArg ridToId (idToRid_ridToId b)
    refine ⟨kept.map idToRid, ?_, fun b => ?_⟩
    · show (applyStep T _ bindings { action := .outEdges, label := label } _).bind _ = _
      rw [applyStep_outEdges]
      show ((Outcome.flatMap _ (l.map ridToId)).bind _).bind _ = _
      rw [heids]
      show (applyStep T _ bindings { action := .outNodes } (.edges eids)).bind _ = _
      rw [applyStep_outNodes]
      show ((Outcome.flatMap _ eids).bind _).bind _ = _
      rw [hids]
      show ((Outcome.filter _ ids).bind _).bind _ = _
      rw [hkept, hmap]
      rfl
    · rw [List.mem_map]
      constructor
      · rintro ⟨id, hid, rfl⟩
        obtain ⟨b, rfl, hb⟩ := (hhop id).1 hid
        rwa [idToRid_ridToId]
      · intro hb
        exact ⟨ridToId b, (hhop _).2 ⟨b, rfl, hb⟩, idToRid_ridToId b⟩

/-- **`Repeat` is bounded reachability**: on a linked topology it gives, each of them once, the first nodes and
    those that its depth allows to reach from them along the edges with the label. -/
theorem repeat_reaches (hl : g.topo.Linked) (hlabels : label ≠ none → LabelsReadable C g) {starts : List RecordId}
    (hstarts : ∀ n ∈ starts, g.topo.LiveNode n) (maxDepth : Option ℕ) (T : TextOps) (bindings : Props F) :
    ∃ ids, applyStep T (databaseView C registry g) bindings
        { action := .repeat, repeatSteps := some (outSteps label), maxDepth := maxDepth }
        (.nodes (starts.map ridToId)) = .ok (.nodes ids) ∧
      ids.Nodup ∧
      ∀ id, id ∈ ids ↔ ∃ b, id = ridToId b ∧ ∃ a ∈ starts, Within (Hop C registry g label) (maxDepth.getD 1) a b := by
  obtain ⟨ids, hrun, hnodup, hmem⟩ := (expands_outSteps registry T bindings hl hlabels).applyRepeat
    (maxDepth.getD 1) hstarts
  refine ⟨ids, ?_, hnodup, hmem⟩
  show (applyRepeat _ _ _).bind _ = _
  rw [hrun]
  rfl

/-- Serializers of a database in which no record has a value. -/
def noValues : Codecs Double where
  packProps _ := .error (.schemaError "no values")
  unpackProps _ := .error (.schemaError "no values")
  packLabels _ := .error (.schemaError "no values")
  unpackLabels _ := .error (.schemaError "no values")
  packValue _ := .error (.schemaError "no values")
  schema := ⟨fun _ => [], fun _ => .error (.schemaError "no schema stored")⟩
  text := Value.text

/-- An edge of the type 1 leads from the first of two nodes to the second. -/
theorem repeat_reaches_arrow : ∃ ids,
    applyStep ⟨fun _ _ => false, id⟩ (databaseView noValues none (⟨Topo.arrow, .fresh⟩ : Graph PageMap)) ∅
        { action := .repeat, repeatSteps := some (outSteps (some "1")), maxDepth := some 3 }
        (.nodes ([⟨0, 0⟩].map ridToId)) = .ok (.nodes ids) ∧
      ids.Nodup ∧
      ∀ id, id ∈ ids ↔ ∃ b, id = ridToId b ∧ ∃ a ∈ [(⟨0, 0⟩ : RecordId)],
        Within (Hop noValues none (⟨Topo.arrow, .fresh⟩ : Graph PageMap) (some "1")) 3 a b := by
  refine repeat_reaches (g := (⟨Topo.arrow, .fresh⟩ : Graph PageMap)) Topo.linked_arrow (fun _ e r he => ?_) (fun n hn => ?_)
    (some 3) ⟨fun _ _ => false, id⟩ ∅
  · have he : Topo.arrow.edges.live e = some r := he
    rw [Topo.live_arrow_edges] at he
    split at he
    · cases he
      exact nofun
    · cases he
  · obtain rfl := List.mem_singleton.1 hn
    exact ⟨_, by rw [Topo.live_arrow_nodes]; exact if_pos rfl⟩

end Graph

/-! ## Contents -/

section Contents

variable {M : Type} [FaithfulBacking M] {C : Codecs F} {registry : Option SchemaRegistry} {g : Graph M}
  {label : Option String} {c : Contents F}

namespace Graph

theorem run_readLabels (h : Depicts C g.topo (FaithfulBacking.behind g.pages) c) {e : RecordId} {r : EdgeRecord}
    (he : g.topo.edges.live e = some r) : ∃ row, c.edges e = some row ∧ r.edgeTypeId = row.typeId ∧
      r.fromNode = row.fromNode ∧ r.toNode = row.toNode ∧ readLabels C r.labelRef g = (.ok row.labels, g) := by
  obtain ⟨row, hrow, hstored⟩ := h.edge.left (Topo.edge_eq_some.2 ⟨r, he, rfl⟩)
  exact ⟨row, hrow, hstored.typeId, hstored.fromNode, hstored.toNode, finds_readLabels hstored.labels g ⟨rfl, rfl⟩⟩

/-- The label lists of a database are there. -/
theorem labelsReadable (h : Depicts C g.topo (FaithfulBacking.behind g.pages) c) : LabelsReadable C g := by
  intro e r he
  obtain ⟨row, -, -, -, -, hread⟩ := run_readLabels h he
  rw [hread]
  exact nofun

/-- The hops are the edges of the contents. -/
theorem hop_iff (h : Depicts C g.topo (FaithfulBacking.behind g.pages) c) {a e b : RecordId} :
    Hop C registry g label a e b ↔ ∃ row, c.edges e = some row ∧ row.fromNode = a ∧ row.toNode = b ∧
      ∀ l, label = some l → l ∈ (row.typeId :: row.labels).map (typeLabel registry .edge) := by
  have hnames : ∀ {r : EdgeRecord} {row : EdgeRow F}, g.topo.edges.live e = some r → r.edgeTypeId = row.typeId →
      readLabels C r.labelRef g = (.ok row.labels, g) →
      readEdgeAllLabels C registry (ridToId e) g =
        (.ok ((row.typeId :: row.labels).map (typeLabel registry .edge)), g) := by
    intro r row hr htype hread
    have hextra : extraLabels C r.labelRef g = (.ok row.labels, g) := by
      unfold extraLabels
      rw [Action.run_bind]
      unfold Action.attempt
      rw [hread]
      rfl
    rw [← htype]
    exact run_readEdgeAllLabels hr hextra
  constructor
  · rintro ⟨r, hr, rfl, rfl, hlabel⟩
    obtain ⟨row, hrow, htype, hfrom, hto, hread⟩ := run_readLabels h hr
    refine ⟨row, hrow, hfrom.symm, hto.symm, fun l hl => ?_⟩
    obtain ⟨names, hrun, hin⟩ := hlabel l hl
    rw [hnames hr htype hread] at hrun
    cases hrun
    exact hin
  · rintro ⟨row, hrow, rfl, rfl, hlabel⟩
    obtain ⟨r, hr, -⟩ := exists_edge h hrow
    obtain ⟨row', hrow', htype, hfrom, hto, hread⟩ := run_readLabels h hr
    cases hrow.symm.trans hrow'
    exact ⟨r, hr, hfrom, hto, fun l hl => ⟨_, hnames hr htype hread, hlabel l hl⟩⟩

end Graph

end Contents

end ChiffonDB

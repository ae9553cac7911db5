import ChiffonDB.Graph.LabelsExact
import ChiffonDB.Graph.Listing

/-!
# Rewriting the properties of records

What schema changes do to the records of a type, one record after the other.

* `Plan` — what becomes of the properties of each record, and of its index entries; `Contents.rewrite` — of all of them.
* `Contents.rewrite_rewrite` — plans for different records, one after the other, are one plan.
* `Graph.meets_replaceRawProps`, `Graph.meets_rewriteAll` — **a loop over record ids carries a plan out**.
-/

set_option autoImplicit false

set_option linter.unusedSectionVars false

namespace ChiffonDB

open Action PropertyIndex

variable {F : Type} [F64 F] [F64Text F] {M : Type} [FaithfulBacking M]

/-! ## Plans -/

/-- Other properties of a record, and the index entries that go and come. -/
structure Rewrite (F : Type) where
  props : Props F
  dropped : List IndexKey
  added : List IndexKey

/-- What becomes of a record of a kind and a type with some properties; nothing where it stays as it is. -/
abbrev Plan (F : Type) : Type := RecordKind → RecordId → UInt16 → Props F → Option (Rewrite F)

namespace Plan

variable (plan : Plan F)

def props (kind : RecordKind) (rid : RecordId) (typeId : UInt16) (old : Props F) : Props F :=
  ((plan kind rid typeId old).map Rewrite.props).getD old

/-- For some record ids of a kind only. -/
def on (kind : RecordKind) (rids : List RecordId) : Plan F := fun k rid typeId old =>
  if k = kind ∧ rid ∈ rids then plan k rid typeId old else none

/-- Two plans for different records. -/
def or (plan plan' : Plan F) : Plan F := fun kind rid typeId old =>
  (plan kind rid typeId old).or (plan' kind rid typeId old)

theorem on_cons (kind : RecordKind) (rid : RecordId) (rids : List RecordId) :
    (plan.on kind [rid]).or (plan.on kind rids) = plan.on kind (rid :: rids) := by
  funext k x typeId old
  unfold Plan.or Plan.on
  by_cases hk : k = kind
  · by_cases hx : x = rid
    · subst hx
      by_cases hmem : x ∈ rids <;> simp [hk, hmem]
    · simp [hk, hx]
  · simp [hk]

end Plan

/-! ## Contents -/

namespace Contents

variable (c : Contents F)

/-- The index entries of a record behind a rewrite. -/
def EntryBehind (w : Option (Rewrite F)) (x : IndexKey × RecordId) : Prop :=
  match w with
  | none => x ∈ c.entries
  | some w => x.1 ∈ w.added ∨ x ∈ c.entries ∧ x.1 ∉ w.dropped

/-- **A plan is carried out.** -/
def rewrite (plan : Plan F) : Contents F :=
  { c with
    nodes := fun rid => (c.nodes rid).map fun row => { row with props := plan.props .node rid row.typeId row.props }
    edges := fun rid => (c.edges rid).map fun row => { row with props := plan.props .edge rid row.typeId row.props }
    entries := { x | c.EntryBehind ((c.nodes x.2).bind fun row => plan .node x.2 row.typeId row.props) x } }

/-- The type and the properties of a record. -/
def record (kind : RecordKind) (rid : RecordId) : Option (UInt16 × Props F) :=
  match kind with
  | .node => (c.nodes rid).map fun row => (row.typeId, row.props)
  | .edge => (c.edges rid).map fun row => (row.typeId, row.props)

variable {c}

theorem entryBehind_congr {c' : Contents F} {x : IndexKey × RecordId} (h : x ∈ c'.entries ↔ x ∈ c.entries)
    {w : Option (Rewrite F)} : c'.EntryBehind w x ↔ c.EntryBehind w x := by
  cases w with
  | none => exact h
  | some w => exact or_congr_right (and_congr_left' h)

theorem rewrite_nodes (plan : Plan F) (rid : RecordId) : (c.rewrite plan).nodes rid =
    (c.nodes rid).map fun row => { row with props := plan.props .node rid row.typeId row.props } := rfl

theorem rewrite_edges (plan : Plan F) (rid : RecordId) : (c.rewrite plan).edges rid =
    (c.edges rid).map fun row => { row with props := plan.props .edge rid row.typeId row.props } := rfl

/-- Only what a plan says of the records that are there matters. -/
theorem rewrite_congr {plan plan' : Plan F}
    (h : ∀ kind rid typeId props, c.record kind rid = some (typeId, props) →
      plan kind rid typeId props = plan' kind rid typeId props) : c.rewrite plan = c.rewrite plan' := by
  have hn : ∀ rid row, c.nodes rid = some row →
      plan .node rid row.typeId row.props = plan' .node rid row.typeId row.props :=
    fun rid row hr => h .node rid _ _ (by rw [record, hr]; rfl)
  have he : ∀ rid row, c.edges rid = some row →
      plan .edge rid row.typeId row.props = plan' .edge rid row.typeId row.props :=
    fun rid row hr => h .edge rid _ _ (by rw [record, hr]; rfl)
  unfold rewrite
  congr 1
  · funext rid
    refine Option.map_congr fun row hr => ?_
    rw [Plan.props, Plan.props, hn rid row hr]
  · funext rid
    refine Option.map_congr fun row hr => ?_
    rw [Plan.props, Plan.props, he rid row hr]
  · ext x
    have hbind : ((c.nodes x.2).bind fun row => plan .node x.2 row.typeId row.props) =
        (c.nodes x.2).bind fun row => plan' .node x.2 row.typeId row.props := Option.bind_congr fun row hr => hn x.2 row hr
    show c.EntryBehind _ x ↔ c.EntryBehind _ x
    rw [hbind]

/-- Nothing to do. -/
theorem rewrite_none {plan : Plan F}
    (h : ∀ kind rid typeId props, c.record kind rid = some (typeId, props) → plan kind rid typeId props = none) :
    c.rewrite plan = c := by
  refine Eq.trans (rewrite_congr (c := c) h : _ = c.rewrite fun _ _ _ _ => none) ?_
  unfold rewrite
  congr 1
  · funext rid
    cases c.nodes rid <;> rfl
  · funext rid
    cases c.edges rid <;> rfl
  · ext x
    show c.EntryBehind ((c.nodes x.2).bind fun _ => none) x ↔ _
    rw [Option.bind_fun_none]
    rfl

/-- **Plans for different records, one after the other.** -/
theorem rewrite_rewrite {plan plan' : Plan F}
    (h : ∀ kind rid, (∀ typeId props, plan kind rid typeId props = none) ∨ ∀ typeId props, plan' kind rid typeId props = none) :
    (c.rewrite plan).rewrite plan' = c.rewrite (plan.or plan') := by
  have hprops : ∀ kind rid typeId props,
      plan'.props kind rid typeId (plan.props kind rid typeId props) = (plan.or plan').props kind rid typeId props := by
    intro kind rid typeId props
    unfold Plan.props Plan.or
    rcases h kind rid with hnone | hnone
    · simp [hnone]
    · simp [hnone]
  unfold rewrite
  congr 1
  · funext rid
    show ((c.nodes rid).map _).map _ = _
    rw [Option.map_map]
    exact Option.map_congr fun row _ => by rw [Function.comp_apply, hprops]
  · funext rid
    show ((c.edges rid).map _).map _ = _
    rw [Option.map_map]
    exact Option.map_congr fun row _ => by rw [Function.comp_apply, hprops]
  · ext x
    show (c.rewrite plan).EntryBehind (((c.nodes x.2).map _).bind _) x ↔ c.EntryBehind _ x
    rw [Option.bind_map]
    have hold : x ∈ (c.rewrite plan).entries ↔
        c.EntryBehind ((c.nodes x.2).bind fun row => plan .node x.2 row.typeId row.props) x := Iff.rfl
    cases hr : c.nodes x.2 with
    | none =>
      rw [hr] at hold
      exact hold
    | some row =>
      rw [hr, Option.bind_some] at hold
      rw [Option.bind_some, Option.bind_some, Function.comp_apply]
      unfold Plan.or Plan.props
      rcases h .node x.2 with hnone | hnone
      · rw [hnone] at hold ⊢
        rw [Option.map_none, Option.getD_none, Option.none_or]
        exact entryBehind_congr hold
      · rw [hnone, hnone, Option.or_none]
        exact hold

/-- Labels are where they were. -/
theorem LabelsExact.rewrite (h : c.LabelsExact) (plan : Plan F) : (c.rewrite plan).LabelsExact := by
  refine h.congr rfl fun rid => ?_
  rw [rewrite_nodes, Option.map_map]
  rfl

/-- The record of a row. -/
theorem record_rewrite (plan : Plan F) (kind : RecordKind) (rid : RecordId) :
    (c.rewrite plan).record kind rid = (c.record kind rid).map fun r => (r.1, plan.props kind rid r.1 r.2) := by
  cases kind with
  | node =>
    show ((c.nodes rid).map _).map _ = ((c.nodes rid).map _).map _
    rw [Option.map_map, Option.map_map]
    rfl
  | edge =>
    show ((c.edges rid).map _).map _ = ((c.edges rid).map _).map _
    rw [Option.map_map, Option.map_map]
    rfl

/-- One record. -/
def rewriteOne (c : Contents F) (kind : RecordKind) (rid : RecordId) (w : Rewrite F) : Contents F :=
  match kind with
  | .node => { c with
      nodes := Function.update c.nodes rid ((c.nodes rid).map fun row => { row with props := w.props })
      entries := indexed .add w.added rid (indexed .remove w.dropped rid c.entries) }
  | .edge => { c with
      edges := Function.update c.edges rid ((c.edges rid).map fun row => { row with props := w.props }) }

/-- **A plan for one record.** -/
theorem rewrite_on_single {plan : Plan F} {kind : RecordKind} {rid : RecordId} {typeId : UInt16} {props : Props F}
    {w : Rewrite F} (hrec : c.record kind rid = some (typeId, props)) (hw : plan kind rid typeId props = some w) :
    c.rewrite (plan.on kind [rid]) = c.rewriteOne kind rid w := by
  have hother : ∀ k x ty ps, (k ≠ kind ∨ x ≠ rid) → plan.on kind [rid] k x ty ps = none := by
    intro k x ty ps h
    refine if_neg fun hboth => ?_
    rcases h with h | h
    · exact h hboth.1
    · exact h (List.mem_singleton.1 hboth.2)
  have hself : plan.on kind [rid] kind rid typeId props = some w := by
    rw [Plan.on, if_pos ⟨rfl, List.mem_singleton_self rid⟩, hw]
  cases kind with
  | node =>
    obtain ⟨row, hrow, he⟩ := Option.map_eq_some_iff.1 hrec
    cases he
    unfold rewrite rewriteOne
    congr 1
    · funext x
      by_cases hx : x = rid
      · rw [hx, Function.update_self, hrow, Option.map_some, Option.map_some, Plan.props, hself]
        rfl
      · rw [Function.update_of_ne hx]
        cases hr : c.nodes x with
        | none => rfl
        | some row' =>
          rw [Option.map_some, Plan.props, hother _ x _ _ (.inr hx)]
          rfl
    · funext x
      cases hr : c.edges x with
      | none => rfl
      | some row' =>
        rw [Option.map_some, Plan.props, hother _ x _ _ (.inl (by simp))]
        rfl
    · ext x
      show c.EntryBehind _ x ↔ (x ∈ c.entries ∧ ¬ (x.1 ∈ w.dropped ∧ x.2 = rid)) ∨ x.1 ∈ w.added ∧ x.2 = rid
      by_cases hx : x.2 = rid
      · rw [hx, hrow, Option.bind_some, hself]
        unfold EntryBehind
        tauto
      · have hnone : ((c.nodes x.2).bind fun row => plan.on .node [rid] .node x.2 row.typeId row.props) = none := by
          rw [Option.bind_eq_none_iff]
          exact fun row _ => hother _ _ _ _ (.inr hx)
        rw [hnone]
        unfold EntryBehind
        tauto
  | edge =>
    obtain ⟨row, hrow, he⟩ := Option.map_eq_some_iff.1 hrec
    cases he
    unfold rewrite rewriteOne
    congr 1
    · funext x
      cases hr : c.nodes x with
      | none => rfl
      | some row' =>
        rw [Option.map_some, Plan.props, hother _ x _ _ (.inl (by simp))]
        rfl
    · funext x
      by_cases hx : x = rid
      · rw [hx, Function.update_self, hrow, Option.map_some, Option.map_some, Plan.props, hself]
        rfl
      · rw [Function.update_of_ne hx]
        cases hr : c.edges x with
        | none => rfl
        | some row' =>
          rw [Option.map_some, Plan.props, hother _ x _ _ (.inr hx)]
          rfl
    · ext x
      have hnone : ((c.nodes x.2).bind fun row => plan.on .edge [rid] .node x.2 row.typeId row.props) = none := by
        rw [Option.bind_eq_none_iff]
        exact fun row _ => hother _ _ _ _ (.inl (by simp))
      show c.EntryBehind _ x ↔ _
      rw [hnone]
      rfl

end Contents

/-! ## Calls -/

namespace Graph

variable {C : Codecs F} {t : Topo} {b : Behind} {c : Contents F} {rid : RecordId}

/-- Behind an error the snapshot is back. -/
theorem meets_orRestore {α : Type} {P : Graph M → Prop} {p : Action (Graph M) α} {Q : α → Graph M → Prop}
    (h : Meets P p Q fun _ => True) : Meets P (orRestore p) Q P := by
  intro g hg
  have hp := h g hg
  unfold orRestore
  cases hr : p g with
  | mk r g' =>
    rw [hr] at hp
    cases r with
    | ok a => exact hp
    | err e => exact hg
    | panic => trivial

/-- The type of a live record, and where its properties are. -/
theorem finds_recordRef (h : Depicts C t b c) {kind : RecordKind} {recordType : UInt16} {props : Props F}
    (hrec : c.record kind rid = some (recordType, props)) :
    ∃ pref, PropsStored C b.values pref props ∧
      Finds (Is (M := M) t b) (recordRef kind rid) (.ok (recordType, pref)) := by
  cases kind with
  | node =>
    obtain ⟨row, hrow, he⟩ := Option.map_eq_some_iff.1 hrec
    cases he
    obtain ⟨r, hr, hstored⟩ := exists_node h hrow
    refine ⟨r.propertyRef, hstored.props, (finds_readNode hr).bind (u := fun _ => .ok _) fun r' hr' => ?_⟩
    cases hr'
    rw [← hstored.typeId]
    exact Finds.pure _
  | edge =>
    obtain ⟨row, hrow, he⟩ := Option.map_eq_some_iff.1 hrec
    cases he
    obtain ⟨r, hr, hstored⟩ := exists_edge h hrow
    refine ⟨r.propertyRef, hstored.props, (finds_readEdge hr).bind (u := fun _ => .ok _) fun r' hr' => ?_⟩
    cases hr'
    rw [← hstored.typeId]
    exact Finds.pure _

/-- **`raw_props_of_type`**: a record without stored properties counts as one of another type. -/
theorem finds_rawPropsOfType (h : Depicts C t b c) {kind : RecordKind} {recordType : UInt16} {props : Props F}
    (hrec : c.record kind rid = some (recordType, props)) (typeId : UInt16) :
    ∃ r, Finds (Is (M := M) t b) (rawPropsOfType C kind typeId rid) (.ok r) ∧
      (recordType = typeId ∧ r = some props ∨ r = none ∧ (recordType = typeId → props = ∅)) := by
  obtain ⟨pref, hstored, hfind⟩ := finds_recordRef (M := M) h hrec
  cases pref with
  | none =>
    refine ⟨none, hfind.bind (u := fun _ => .ok none) fun x hx => ?_, .inr ⟨rfl, fun _ => hstored⟩⟩
    cases hx
    exact Finds.pure _
  | some pref =>
    by_cases htype : recordType = typeId
    · refine ⟨some props, hfind.bind (u := fun _ => .ok _) fun x hx => ?_, .inl ⟨htype, rfl⟩⟩
      cases hx
      show Finds _ (if recordType = typeId then _ else _) _
      rw [if_pos htype]
      refine (finds_readProps hstored).bind (u := fun _ => .ok _) fun props' hp' => ?_
      cases hp'
      exact Finds.pure _
    · refine ⟨none, hfind.bind (u := fun _ => .ok _) fun x hx => ?_, .inr ⟨rfl, fun h => absurd h htype⟩⟩
      cases hx
      show Finds _ (if recordType = typeId then _ else _) _
      rw [if_neg htype]
      exact Finds.pure _

/-- **A live node gets properties that have been written, and its old ones are freed.** -/
theorem meets_putNodeProps {b' : Behind} {ref : Option RecordId} (h : Depicts C t b c) {r : NodeRecord}
    (hr : t.nodes.live rid = some r) {row : NodeRow F} (hrow : c.nodes rid = some row) {props : Props F}
    (hw : ValueWritten C.unpackProps ∅ b ref props b') :
    Meets (Is (M := M) t b') (do
        writeNode { r with propertyRef := ref }
        freeRef r.propertyRef) (fun _ => Shows C (c.rewriteOne .node rid ⟨props, [], []⟩)) fun _ => False := by
  have h' := hw.depicts h
  refine Meets.bind (meets_writeNodeProps h.linked h.named hr ref) fun _ => Meets.exists fun t' => Meets.given fun hwritten => ?_
  obtain ⟨hset, hold⟩ := h'.setNodeProps (Topo.node_of_live hr) hrow hwritten.linked hwritten.named hwritten.node
    hwritten.edge hw.valueAt (hw.unowned h)
  have hsome : ∀ v, r.propertyRef = some v → (b'.values v).isSome := fun v hv =>
    h'.isSome_of_ref (s := .nodeProps rid) (by rw [Topo.ref, Topo.node_of_live hr]; exact hv)
  have hsame : c.rewriteOne .node rid ⟨props, [], []⟩ = c.setNode rid (some { row with props := props }) := by
    unfold Contents.rewriteOne
    dsimp only
    rw [indexed_nil, indexed_nil, hrow]
    rfl
  rw [hsame]
  exact (meets_freeRef hsome).mono (fun _ hg => hg) (fun _ _ hg => hg.shows (hset.release hold)) fun _ hg => hg

/-- **A live edge gets properties that have been written, and its old ones are freed.** -/
theorem meets_putEdgeProps {b' : Behind} {ref : Option RecordId} (h : Depicts C t b c) {r : EdgeRecord}
    (hr : t.edges.live rid = some r) {row : EdgeRow F} (hrow : c.edges rid = some row) {props : Props F}
    (hw : ValueWritten C.unpackProps ∅ b ref props b') :
    Meets (Is (M := M) t b') (do
        writeEdge { r with propertyRef := ref }
        freeRef r.propertyRef) (fun _ => Shows C (c.rewriteOne .edge rid ⟨props, [], []⟩)) fun _ => False := by
  have h' := hw.depicts h
  refine Meets.bind (meets_writeEdgeProps h.linked h.named hr ref) fun _ => Meets.exists fun t' => Meets.given fun hwritten => ?_
  obtain ⟨hset, hold⟩ := h'.setEdgeProps (Topo.edge_of_live hr) hrow hwritten.linked hwritten.named hwritten.node
    hwritten.edge hw.valueAt (hw.unowned h)
  have hsome : ∀ v, r.propertyRef = some v → (b'.values v).isSome := fun v hv =>
    h'.isSome_of_ref (s := .edgeProps rid) (by rw [Topo.ref, Topo.edge_of_live hr]; exact hv)
  have hsame : c.rewriteOne .edge rid ⟨props, [], []⟩ = c.setEdge rid (some { row with props := props }) := by
    unfold Contents.rewriteOne
    dsimp only
    rw [hrow]
    rfl
  rw [hsame]
  exact (meets_freeRef hsome).mono (fun _ hg => hg) (fun _ _ hg => hg.shows (hset.release hold)) fun _ hg => hg

/-- **`replace_raw_props`** of a live record. -/
theorem meets_replaceRawProps (hC : C.Faithful) {kind : RecordKind} {typeId : UInt16} {old : Props F}
    (hrec : c.record kind rid = some (typeId, old)) (props : Props F) :
    Meets (Shows (M := M) C c) (replaceRawProps C kind rid props)
      (fun _ => Shows C (c.rewriteOne kind rid ⟨props, [], []⟩)) fun _ => True := by
  refine meets_shows fun t b h => ?_
  refine Meets.bind ((meets_writeProps hC props).mono (fun _ hg => hg) (fun _ _ hg => hg) fun _ _ => trivial)
    fun ref => Meets.given fun _ => Meets.exists fun b' => Meets.given fun hw => ?_
  cases kind with
  | node =>
    obtain ⟨row, hrow, -⟩ := Option.map_eq_some_iff.1 hrec
    obtain ⟨r, hr, -⟩ := exists_node h hrow
    simp only [swapRef, bind_assoc, pure_bind]
    exact Meets.found (finds_readNode hr) (meets_putNodeProps h hr hrow hw).sure
  | edge =>
    obtain ⟨row, hrow, -⟩ := Option.map_eq_some_iff.1 hrec
    obtain ⟨r, hr, -⟩ := exists_edge h hrow
    simp only [swapRef, bind_assoc, pure_bind]
    exact Meets.found (finds_readEdge hr) (meets_putEdgeProps h hr hrow hw).sure

/-! ## Loops -/

/-- What a plan does to the first record leaves the others as they are. -/
theorem rewrite_on_cons {rids : List RecordId} (hnd : (rid :: rids).Nodup) (plan : Plan F) (kind : RecordKind) :
    (c.rewrite (plan.on kind [rid])).rewrite (plan.on kind rids) = c.rewrite (plan.on kind (rid :: rids)) := by
  rw [Contents.rewrite_rewrite, Plan.on_cons]
  intro k x
  by_cases hx : x = rid
  · refine .inr fun typeId props => if_neg fun hboth => (List.nodup_cons.1 hnd).1 (hx ▸ hboth.2)
  · exact .inl fun typeId props => if_neg fun hboth => hx (List.mem_singleton.1 hboth.2)

/-- **A loop over record ids carries a plan out**, with what holds in front of each of them. -/
theorem meets_rewriteAll {kind : RecordKind} (plan : Plan F) (J : Contents F → Prop) {rids : List RecordId}
    (hnd : rids.Nodup) {body : RecordId → Action (Graph M) Unit}
    (hbody : ∀ c rid, rid ∈ rids → J c → Meets (Shows (M := M) C c) (body rid)
      (fun _ g => J (c.rewrite (plan.on kind [rid])) ∧ Shows C (c.rewrite (plan.on kind [rid])) g) fun _ => True)
    (hc : J c) :
    Meets (Shows (M := M) C c) (Action.forEach rids body)
      (fun _ g => J (c.rewrite (plan.on kind rids)) ∧ Shows C (c.rewrite (plan.on kind rids)) g) fun _ => True := by
  induction rids generalizing c with
  | nil =>
    have hsame : c.rewrite (plan.on kind []) = c :=
      Contents.rewrite_none fun k x typeId props _ => if_neg fun hboth => List.not_mem_nil hboth.2
    rw [hsame]
    exact Meets.pure fun g hg => ⟨hc, hg⟩
  | cons rid rids ih =>
    rw [← rewrite_on_cons hnd]
    exact Meets.bind (hbody c rid List.mem_cons_self hc) fun _ => Meets.given fun hJ =>
      ih (List.nodup_cons.1 hnd).2 (fun c x hx => hbody c x (List.mem_cons_of_mem _ hx)) hJ

/-- The results of a loop that carries a plan out: each depends on the record as it was. -/
theorem meets_collectRewrites {β : Type} {kind : RecordKind} (plan : Plan F) (J : Contents F → Prop)
    (result : UInt16 → Props F → Option β) {rids : List RecordId} (hnd : rids.Nodup)
    {body : RecordId → Action (Graph M) (Option β)}
    (hbody : ∀ c rid typeId props, rid ∈ rids → c.record kind rid = some (typeId, props) → J c →
      Meets (Shows (M := M) C c) (body rid) (fun out g => out = result typeId props ∧
        J (c.rewrite (plan.on kind [rid])) ∧ Shows C (c.rewrite (plan.on kind [rid])) g) fun _ => True)
    (hlive : ∀ rid ∈ rids, (c.record kind rid).isSome) (hc : J c) :
    Meets (Shows (M := M) C c) (Action.collect rids body)
      (fun out g => out = rids.filterMap (fun rid => (c.record kind rid).bind fun r => result r.1 r.2) ∧
        J (c.rewrite (plan.on kind rids)) ∧ Shows C (c.rewrite (plan.on kind rids)) g) fun _ => True := by
  induction rids generalizing c with
  | nil =>
    have hsame : c.rewrite (plan.on kind []) = c :=
      Contents.rewrite_none fun k x typeId props _ => if_neg fun hboth => List.not_mem_nil hboth.2
    rw [hsame]
    exact Meets.pure fun g hg => ⟨rfl, hc, hg⟩
  | cons rid rids ih =>
    obtain ⟨⟨typeId, props⟩, hrec⟩ := Option.isSome_iff_exists.1 (hlive rid List.mem_cons_self)
    -- the records behind the first one
    have hsame : ∀ x ∈ rids, (c.rewrite (plan.on kind [rid])).record kind x = c.record kind x := by
      intro x hx
      have hne : x ≠ rid := by
        rintro rfl
        exact (List.nodup_cons.1 hnd).1 hx
      rw [Contents.record_rewrite]
      refine (Option.map_congr fun r _ => ?_).trans Option.map_id'
      rw [Plan.props, Plan.on, if_neg fun hboth => hne (List.mem_singleton.1 hboth.2)]
      rfl
    rw [← rewrite_on_cons hnd]
    refine Meets.bind (hbody c rid typeId props List.mem_cons_self hrec hc) fun out => Meets.given fun hout =>
      Meets.given fun hJ => ?_
    refine Meets.bind (ih (List.nodup_cons.1 hnd).2 (fun c x ty ps hx => hbody c x ty ps (List.mem_cons_of_mem _ hx))
      (fun x hx => by rw [hsame x hx]; exact hlive x (List.mem_cons_of_mem _ hx)) hJ) fun rest => Meets.pure fun g hg => ?_
    refine ⟨?_, hg.2⟩
    rw [List.filterMap_cons, hrec, Option.bind_some, hg.1, hout]
    have hmap : rids.filterMap (fun x => ((c.rewrite (plan.on kind [rid])).record kind x).bind fun r => result r.1 r.2) =
        rids.filterMap fun x => (c.record kind x).bind fun r => result r.1 r.2 :=
      List.filterMap_congr fun x hx => by rw [hsame x hx]
    rw [hmap]
    cases result typeId props <;> rfl

/-! ## The records of a type -/

/-- The record ids that a change of a type goes through: among the live ones, all of the type. -/
structure Covers (c : Contents F) (kind : RecordKind) (typeId : UInt16) (rids : List RecordId) : Prop where
  nodup : rids.Nodup
  live : ∀ rid ∈ rids, (c.record kind rid).isSome
  all : ∀ rid props, c.record kind rid = some (typeId, props) → rid ∈ rids

/-- **`rids_of_kind`.** -/
theorem meets_ridsOfKind (hlabels : c.LabelsExact) (kind : RecordKind) (typeId : UInt16) :
    Meets (Shows (M := M) C c) (ridsOfKind kind typeId) (fun rids g => Covers c kind typeId rids ∧ Shows C c g)
      (Shows C c) := by
  refine meets_shows fun t b h => ?_
  cases kind with
  | node =>
    intro g hg
    obtain ⟨rids, hget, hmulti⟩ := FaithfulBacking.labelled_eq typeId g.pages
    rw [hg.2, h.labelled] at hmulti
    have hrun : ridsOfKind .node typeId g = (.ok rids, g) := by
      show (Backing.labelled typeId g.pages, g) = _
      rw [hget]
    have hmem : ∀ rid, rid ∈ rids ↔ ∃ row, c.nodes rid = some row ∧ typeId ∈ row.typeIds := fun rid => by
      rw [← Multiset.mem_coe, hmulti]
      exact hlabels.inverts typeId rid
    rw [hrun]
    refine ⟨⟨Multiset.coe_nodup.1 (hmulti ▸ hlabels.nodup typeId), fun rid hrid => ?_, fun rid props hrec => ?_⟩, hg.shows h⟩
    · obtain ⟨row, hrow, -⟩ := (hmem rid).1 hrid
      rw [Contents.record, hrow]
      rfl
    · obtain ⟨row, hrow, he⟩ := Option.map_eq_some_iff.1 hrec
      cases he
      exact (hmem rid).2 ⟨row, hrow, List.mem_cons_self⟩
  | edge =>
    obtain ⟨rids, hfind, hnd, hmem⟩ := finds_liveEdgeRids (M := M) h
    intro g hg
    show Post _ _ (liveEdgeRids g)
    rw [hfind g hg]
    refine ⟨⟨hnd, fun rid hrid => ?_, fun rid props hrec => ?_⟩, hg.shows h⟩
    · obtain ⟨row, hrow⟩ := (hmem rid).1 hrid
      rw [Contents.record, hrow]
      rfl
    · obtain ⟨row, hrow, -⟩ := Option.map_eq_some_iff.1 hrec
      exact (hmem rid).2 ⟨row, hrow⟩

/-- A plan for records of one kind and type is carried out on all that it is for. -/
theorem Covers.rewrite_on {kind : RecordKind} {typeId : UInt16} {rids : List RecordId} (h : Covers c kind typeId rids)
    (plan : Plan F) (hplan : ∀ k rid ty props, ¬ (k = kind ∧ ty = typeId) → plan k rid ty props = none) :
    c.rewrite (plan.on kind rids) = c.rewrite plan := by
  refine Contents.rewrite_congr fun k rid ty props hrec => ?_
  by_cases hfor : k = kind ∧ ty = typeId
  · obtain ⟨rfl, rfl⟩ := hfor
    exact if_pos ⟨rfl, h.all rid props hrec⟩
  · rw [hplan k rid ty props hfor, Plan.on, hplan k rid ty props hfor, ite_self]

end Graph

end ChiffonDB

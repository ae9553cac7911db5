import ChiffonDB.Graph.Lookups

/-!
# Effects on the contents

What the operations on nodes and edges do to the contents of a database.

* `Graph.Shows` — the contents that a database shows.
* `Contents.insertNode`, `Contents.deleteNode`, … — the operations on contents.
* `Graph.meets_insertNode`, `Graph.meets_updateNodeProperties`, `Graph.meets_deleteNode` — **an operation that
  succeeds has its effect, and one that fails has none**.
-/

set_option autoImplicit false

set_option linter.unusedSectionVars false

namespace ChiffonDB

open Action PropertyIndex

variable {F : Type} [F64 F] [F64Text F] {M : Type} [FaithfulBacking M]

/-! ## Contents -/

/-- A record id is added under labels, one after the other. -/
def labelAll (rid : RecordId) (ids : List UInt16) (l : UInt16 → Multiset RecordId) : UInt16 → Multiset RecordId :=
  ids.foldl (fun l id => Function.update l id (rid ::ₘ l id)) l

/-- A record id is removed under labels, one after the other. -/
def unlabelAll (rid : RecordId) (ids : List UInt16) (l : UInt16 → Multiset RecordId) : UInt16 → Multiset RecordId :=
  ids.foldl (fun l id => Function.update l id ((l id).erase rid)) l

namespace Contents

variable (C : Codecs F) (c : Contents F)

def insertNode (rid : RecordId) (typeId : UInt16) (props : Props F) : Contents F :=
  { c with
    nodes := Function.update c.nodes rid (some ⟨typeId, props, []⟩)
    labelled := labelAll rid [typeId] c.labelled
    entries := indexed .add (c.keys C typeId props) rid c.entries }

def updateNode (rid : RecordId) (row : NodeRow F) (props : Props F) : Contents F :=
  { c with
    nodes := Function.update c.nodes rid (some { row with props := props })
    entries := indexed .add (c.keys C row.typeId props) rid (indexed .remove (c.keys C row.typeId row.props) rid c.entries) }

/-- Neither end of the edge is the node. -/
def apartFrom (rid : RecordId) (row : EdgeRow F) : Bool := row.fromNode ≠ rid && row.toNode ≠ rid

def deleteNode (rid : RecordId) (row : NodeRow F) : Contents F :=
  { c with
    nodes := Function.update c.nodes rid none
    edges := fun e => (c.edges e).filter (apartFrom rid)
    labelled := unlabelAll rid (row.typeId :: row.labels) c.labelled
    entries := indexed .remove (c.keys C row.typeId row.props) rid c.entries }

/-- Edges go. -/
def dropEdges (edges : List RecordId) : Contents F := { c with edges := fun e => if e ∈ edges then none else c.edges e }

/-- A node goes that no edge is at. -/
def retireNode (rid : RecordId) (row : NodeRow F) : Contents F :=
  { c with
    nodes := Function.update c.nodes rid none
    labelled := unlabelAll rid (row.typeId :: row.labels) c.labelled
    entries := indexed .remove (c.keys C row.typeId row.props) rid c.entries }

/-- What `check_unique` finds out: no other live node with an entry under the key has an equal value. -/
def Admits (typeId : UInt16) (props : Props F) (exclude : Option RecordId) : Prop :=
  ∀ path, (path, true) ∈ c.indexedPaths typeId → ∀ value, Graph.indexable path props = some value →
    ∀ key, keyOf C typeId path.displayName value = some key → ∀ rid row, (key, rid) ∈ c.entries →
      c.nodes rid = some row → (path.resolve row.props).any (·.eq value) = true → some rid = exclude

/-- Every entry is one of a live node, under its type. -/
def EntriesLive : Prop := ∀ key rid, (key, rid) ∈ c.entries → ∃ row, c.nodes rid = some row ∧ key.typeId = row.typeId

end Contents

namespace Graph

variable {C : Codecs F} {t t' : Topo} {b b' : Behind} {c : Contents F} {rid : RecordId}

/-- The contents that a database shows. -/
def Shows (C : Codecs F) (c : Contents F) (g : Graph M) : Prop := Depicts C g.topo (FaithfulBacking.behind g.pages) c

theorem Is.shows {g : Graph M} (hg : Is t b g) (h : Depicts C t b c) : Shows C c g := by
  obtain ⟨rfl, rfl⟩ := hg
  exact h

/-- What is shown is one thing. -/
theorem Shows.eq {g : Graph M} {c' : Contents F} (hC : C.Faithful) (h : Shows C c g) (h' : Shows C c' g) : c = c' :=
  Depicts.eq hC h h'

/-- What is said of something that is shown. -/
theorem Shows.of_exists {g : Graph M} {P : Contents F → Prop} (hC : C.Faithful) (h : Shows C c g)
    (hP : ∃ c', Shows C c' g ∧ P c') : P c := by
  obtain ⟨c', h', hP⟩ := hP
  rwa [h.eq hC h']

/-- A call on what is shown, one state at a time. -/
theorem meets_shows {α : Type} {p : Action (Graph M) α} {Q : α → Graph M → Prop} {E : Graph M → Prop}
    (h : ∀ t b, Depicts C t b c → Meets (Is t b) p Q E) : Meets (Shows C c) p Q E :=
  fun g hg => h _ _ hg g ⟨rfl, rfl⟩

/-! ## Uniqueness -/

/-- A live node with an entry under the key and an equal value is found. -/
theorem meets_findAllNodes (h : Depicts C t b c) (hC : C.Faithful) {typeId : UInt16} {path : PropertyPath}
    {unique : Bool} (hpath : (path, unique) ∈ c.indexedPaths typeId) {value : Value F} {key : IndexKey}
    (hkey : keyOf C typeId path.displayName value = some key) :
    Meets (Is (M := M) t b) (findAllNodes C typeId path value)
      (fun existing g => (∀ rid row, (key, rid) ∈ c.entries → c.nodes rid = some row →
        (path.resolve row.props).any (·.eq value) = true → rid ∈ existing) ∧ Is t b g) (Is t b) := by
  intro g hg
  have hsame := still_findAllNodes (C := C) typeId path value g
  cases hr : findAllNodes C typeId path value g with
  | mk r g' =>
    rw [hr] at hsame
    obtain rfl : g' = g := hsame
    cases r with
    | ok existing =>
      refine ⟨fun rid row hentry hrow hany => ?_, hg⟩
      unfold findAllNodes at hr
      rw [run_bind, finds_indexedPathsForType h hC typeId g' hg] at hr
      have hindexed : ((c.indexedPaths typeId).any fun p => decide (p.1 = path)) = true :=
        List.any_eq_true.2 ⟨_, hpath, decide_eq_true rfl⟩
      change (if (c.indexedPaths typeId).any fun p => decide (p.1 = path) then _ else _ : Action (Graph M) _) g' = _ at hr
      rw [if_pos hindexed, run_bind, finds_indexKey typeId _ hkey g' hg] at hr
      obtain ⟨rids, hrids, hmem⟩ := FaithfulBacking.candidates_eq key g'.pages
      change andThen (Backing.candidates key g'.pages, g') _ = _ at hr
      rw [hrids] at hr
      refine mem_of_collect (fun x => (still_nodePropertiesRaw x).bind fun _ => .pure _) hr ((hmem rid).2 ?_) (b := rid) ?_
      · rw [hg.2, h.entries]
        exact hentry
      · rw [run_bind, finds_nodePropertiesRaw h hrow g' hg]
        show (Outcome.ok (if _ then _ else _), g') = _
        rw [if_pos hany]
    | err e => exact hg
    | panic => trivial

theorem meets_checkUniquePath (h : Depicts C t b c) (hC : C.Faithful) (typeId : UInt16) (props : Props F)
    (exclude : Option RecordId) {path : PropertyPath} (hpath : (path, true) ∈ c.indexedPaths typeId) :
    Meets (Is (M := M) t b) (checkUniquePath C typeId props exclude path)
      (fun _ g => (∀ value, indexable path props = some value → ∀ key, keyOf C typeId path.displayName value = some key →
        ∀ rid row, (key, rid) ∈ c.entries → c.nodes rid = some row →
          (path.resolve row.props).any (·.eq value) = true → some rid = exclude) ∧ Is t b g) (Is t b) := by
  unfold checkUniquePath
  cases hv : indexable path props with
  | none => exact Meets.pure fun g hg => ⟨fun value hvalue => (by cases hvalue), hg⟩
  | some value =>
    obtain ⟨key, hkey⟩ := exists_key (C := C) (isIndexable_of_indexable hv) typeId path.displayName
    refine Meets.bind (meets_findAllNodes h hC hpath hkey) fun existing => Meets.given fun hfound => ?_
    split
    · exact Meets.throw fun _ hg => hg
    · rename_i hnone
      refine Meets.pure fun g hg => ⟨fun value' hvalue key' hkey' rid row hentry hrow hany => ?_, hg⟩
      cases hvalue
      cases hkey.symm.trans hkey'
      by_contra hother
      exact hnone (List.any_eq_true.2 ⟨rid, hfound rid row hentry hrow hany, decide_eq_true hother⟩)

theorem meets_admits (h : Depicts C t b c) (hC : C.Faithful) (typeId : UInt16) (props : Props F)
    (exclude : Option RecordId) :
    Meets (Is (M := M) t b) (checkUnique C typeId props exclude) (fun _ g => c.Admits C typeId props exclude ∧ Is t b g)
      (Is t b) := by
  refine Meets.found (finds_indexedPathsForType h hC typeId) ?_
  have hloop : ∀ paths : List (PropertyPath × Bool), (∀ p ∈ paths, (p.1, true) ∈ c.indexedPaths typeId) →
      Meets (Is (M := M) t b) (Action.forEach paths fun path => checkUniquePath C typeId props exclude path.1)
        (fun _ g => (∀ p ∈ paths, ∀ value, indexable p.1 props = some value →
          ∀ key, keyOf C typeId p.1.displayName value = some key → ∀ rid row, (key, rid) ∈ c.entries →
            c.nodes rid = some row → (p.1.resolve row.props).any (·.eq value) = true → some rid = exclude) ∧ Is t b g)
        (Is t b) := by
    intro paths hpaths
    induction paths with
    | nil => exact Meets.pure fun g hg => ⟨by simp, hg⟩
    | cons path paths ih =>
      refine Meets.bind (meets_checkUniquePath h hC typeId props exclude (hpaths path List.mem_cons_self)) fun _ =>
        Meets.given fun hhead => ?_
      refine (ih fun p hp => hpaths p (List.mem_cons_of_mem _ hp)).mono (fun _ hg => hg)
        (fun _ g hg => ⟨?_, hg.2⟩) fun _ hg => hg
      intro p hp
      rcases List.mem_cons.1 hp with rfl | hp
      · exact hhead
      · exact hg.1 p hp
  refine (hloop _ fun p hp => ?_).mono (fun _ hg => hg) (fun _ g hg => ⟨?_, hg.2⟩) fun _ hg => hg
  · obtain ⟨hp, hu⟩ := List.mem_filter.1 hp
    rw [← hu]
    exact hp
  · intro path hpath
    exact hg.1 (path, true) (List.mem_filter.2 ⟨hpath, rfl⟩)

/-- What is found under a key, where all entries are those of live nodes. -/
theorem run_findAllNodes (h : Depicts C t b c) (hC : C.Faithful) (hlive : c.EntriesLive) {typeId : UInt16}
    {path : PropertyPath} {unique : Bool} (hpath : (path, unique) ∈ c.indexedPaths typeId) {value : Value F}
    {key : IndexKey} (hkey : keyOf C typeId path.displayName value = some key) {g : Graph M} (hg : Is t b g) :
    ∃ existing, findAllNodes C typeId path value g = (.ok existing, g) ∧ ∀ rid ∈ existing, ∃ row,
      (key, rid) ∈ c.entries ∧ c.nodes rid = some row ∧ (path.resolve row.props).any (·.eq value) = true := by
  obtain ⟨rids, hrids, hmem⟩ := FaithfulBacking.candidates_eq key g.pages
  rw [hg.2, h.entries] at hmem
  have hconfirm : Finds (Is (M := M) t b) (Action.collect rids (confirmed C path value)) (.ok (rids.filterMap fun rid =>
      (c.nodes rid).bind fun row => if (path.resolve row.props).any (·.eq value) then some rid else none)) := by
    refine Finds.collect fun rid hrid => ?_
    obtain ⟨row, hrow, -⟩ := hlive key rid ((hmem rid).1 hrid)
    rw [hrow]
    exact (finds_nodePropertiesRaw (M := M) h hrow).bind (u := fun props => .ok (if (path.resolve props).any (·.eq value)
      then some rid else none)) fun _ _ => Finds.pure _
  refine ⟨rids.filterMap fun rid => (c.nodes rid).bind fun row =>
    if (path.resolve row.props).any (·.eq value) then some rid else none, ?_, fun rid hrid => ?_⟩
  · unfold findAllNodes
    rw [run_bind, finds_indexedPathsForType h hC typeId g hg]
    have hindexed : ((c.indexedPaths typeId).any fun p => decide (p.1 = path)) = true :=
      List.any_eq_true.2 ⟨_, hpath, decide_eq_true rfl⟩
    show (if (c.indexedPaths typeId).any fun p => decide (p.1 = path) then _ else _ : Action (Graph M) _) g = _
    rw [if_pos hindexed, run_bind, finds_indexKey typeId _ hkey g hg]
    show andThen (Backing.candidates key g.pages, g) _ = _
    rw [hrids]
    exact hconfirm g hg
  · obtain ⟨rid', hrid', hsome⟩ := List.mem_filterMap.1 hrid
    obtain ⟨row, hrow, hif⟩ := Option.bind_eq_some_iff.1 hsome
    split at hif
    · cases hif
      exact ⟨row, (hmem rid).1 hrid', hrow, ‹_›⟩
    · cases hif

/-- **`check_unique`** finds nothing wrong. -/
theorem finds_checkUnique (h : Depicts C t b c) (hC : C.Faithful) (hlive : c.EntriesLive) {typeId : UInt16}
    {props : Props F} {exclude : Option RecordId} (hadmits : c.Admits C typeId props exclude) :
    Finds (Is (M := M) t b) (checkUnique C typeId props exclude) (.ok ()) := by
  refine (finds_indexedPathsForType h hC typeId).bind (u := fun _ => .ok ()) fun paths hpaths => ?_
  cases hpaths
  refine Finds.forEach fun p hp => ?_
  obtain ⟨hmem, hunique⟩ := List.mem_filter.1 hp
  have hpath : (p.1, true) ∈ c.indexedPaths typeId := by
    rw [← hunique]
    exact hmem
  unfold checkUniquePath
  cases hv : indexable p.1 props with
  | none => exact Finds.pure _
  | some value =>
    obtain ⟨key, hkey⟩ := exists_key (C := C) (isIndexable_of_indexable hv) typeId p.1.displayName
    intro g hg
    obtain ⟨existing, hrun, hfound⟩ := run_findAllNodes h hC hlive hpath hkey hg
    show andThen (findAllNodes C typeId p.1 value g) _ = _
    rw [hrun]
    show (if existing.any fun rid => decide (some rid ≠ exclude) then _ else _ : Action (Graph M) _) g = _
    rw [if_neg]
    · rfl
    · intro hany
      obtain ⟨rid, hrid, hother⟩ := List.any_eq_true.1 hany
      obtain ⟨row, hentry, hrow, heq⟩ := hfound rid hrid
      exact of_decide_eq_true hother (hadmits p.1 hpath value hv key hkey rid row hentry hrow heq)

/-- **`check_unique`.** -/
theorem meets_checkUnique (h : Depicts C t b c) (hC : C.Faithful) (typeId : UInt16) (props : Props F)
    (exclude : Option RecordId) :
    Meets (Is (M := M) t b) (checkUnique C typeId props exclude) (fun _ g => c.Admits C typeId props exclude ∧ Is t b g)
      fun g => (c.EntriesLive → ¬ c.Admits C typeId props exclude) ∧ Is t b g := by
  by_cases hok : c.EntriesLive ∧ c.Admits C typeId props exclude
  · intro g hg
    rw [finds_checkUnique h hC hok.1 hok.2 g hg]
    exact ⟨hok.2, hg⟩
  · exact (meets_admits h hC typeId props exclude).mono (fun _ hg => hg) (fun _ _ hg => hg)
      fun _ hg => ⟨fun hlive hadmits => hok ⟨hlive, hadmits⟩, hg⟩

/-! ## Nodes -/

/-- A node gets its properties, behind its allocation. -/
theorem meets_setNodeProps (hl : t.Linked) (hn : t.Named) {r : NodeRecord} (hr : t.nodes.live rid = some r)
    (hnone : r.propertyRef = none) (ref : Option RecordId) :
    Meets (Is (M := M) t b) (setNodeProps rid ref)
      (fun _ g => ∃ t', (t'.Linked ∧ t'.Named ∧ t'.node = Function.update t.node rid (some { r.body with propertyRef := ref }) ∧
        t'.edge = t.edge) ∧ Is t' b g) fun _ => False := by
  cases ref with
  | none =>
    refine Meets.pure fun g hg => ⟨t, ⟨hl, hn, ?_, rfl⟩, hg⟩
    rw [← hnone]
    exact (Function.update_eq_self_iff.2 (Topo.node_of_live hr).symm).symm
  | some v =>
    refine Meets.found (finds_readNode hr) ((meets_writeNodeProps hl hn hr (some v)).mono
      (fun _ hg => hg) (fun _ g hg => ?_) fun _ hg => hg)
    obtain ⟨t', hw, hg⟩ := hg
    exact ⟨t', ⟨hw.linked, hw.named, hw.node, hw.edge⟩, hg⟩

/-- **`insert_node`.** -/
theorem meets_insertNode (hC : C.Faithful) (typeId : UInt16) (props : Props F) :
    Meets (Shows (M := M) C c) (insertNode C typeId props)
      (fun rid g => (c.nodes rid = none ∧ PropsTaken M C props ∧ c.Admits C typeId props none) ∧
        Shows C (c.insertNode C rid typeId props) g)
      fun g => (c.EntriesLive → ¬ (PropsTaken M C props ∧ c.Admits C typeId props none)) ∧ Shows C c g := by
  refine meets_shows fun t b h => ?_
  refine Meets.bind ((meets_checkUnique h hC typeId props none).mono (fun _ hg => hg) (fun _ _ hg => hg)
    fun _ hg => ⟨fun hlive hboth => hg.1 hlive hboth.2, hg.2.shows h⟩) fun _ => Meets.given fun hadmits => ?_
  refine Meets.bind ((meets_writeProps hC props).mono (fun _ hg => hg) (fun _ _ hg => hg)
    fun _ hg => ⟨fun _ hboth => hg.1 hboth.1, hg.2.shows h⟩) fun ref => Meets.given fun htaken => Meets.exists fun b' => Meets.given fun hw => ?_
  have h' := hw.depicts h
  refine Meets.bind (meets_allocNode h.linked h.named typeId).sure fun rid => Meets.exists fun t₁ => Meets.given ?_
  rintro ⟨hfresh, ha⟩
  have hlive : t₁.nodes.live rid = some (.new rid typeId) := by rw [ha.live, Function.update_self]
  refine Meets.bind (meets_setNodeProps ha.linked ha.named hlive rfl ref).sure fun _ => Meets.exists fun t₂ => Meets.given ?_
  rintro ⟨hlinked, hnamed, hnode, hedge⟩
  rw [ha.node, Function.update_idem] at hnode
  have hadded : Depicts C t₂ b' (c.setNode rid (some ⟨typeId, props, []⟩)) :=
    h'.addNode typeId hfresh hlinked hnamed hnode (hedge.trans ha.edge) hw.valueAt (hw.unowned h)
  refine Meets.bind (meets_addLabel typeId rid).sure fun _ => ?_
  have hlabelled := hadded.setLabelled (Function.update c.labelled typeId (rid ::ₘ c.labelled typeId))
  rw [show b'.setLabelled typeId (rid ::ₘ b'.labelled typeId) =
    { b' with labelled := Function.update c.labelled typeId (rid ::ₘ c.labelled typeId) } by
      rw [Behind.setLabelled, h'.labelled]]
  refine Meets.bind (meets_maintainPropertyIndex hlabelled hC typeId rid props .add).sure fun _ => Meets.pure fun g hg => ?_
  refine ⟨⟨h.node.none_iff.1 hfresh, htaken, hadmits⟩, hg.shows ?_⟩
  have hentries := hlabelled.setEntries (indexed .add (c.keys C typeId props) rid c.entries)
  rw [show b'.entries = c.entries from h'.entries]
  exact hentries

/-- **`update_node_properties`** on a live node. -/
theorem meets_updateNodeProperties (hC : C.Faithful) {row : NodeRow F} (hrow : c.nodes rid = some row) (props : Props F) :
    Meets (Shows (M := M) C c) (updateNodeProperties C rid props)
      (fun _ g => (PropsTaken M C props ∧ c.validate .node row.typeId props = .ok () ∧
        c.Admits C row.typeId props (some rid)) ∧ Shows C (c.updateNode C rid row props) g) (Shows C c) := by
  refine meets_shows fun t b h => ?_
  obtain ⟨r, hr, hstored⟩ := exists_node h hrow
  obtain ⟨typeId, oldProps, labels⟩ := row
  obtain rfl : r.nodeTypeId = typeId := hstored.typeId
  refine Meets.found (finds_nodeExists_row h rid) ?_
  rw [hrow, if_pos (by rfl)]
  refine Meets.found (finds_readNode hr) ?_
  refine Meets.find (finds_validateStored h hC .node r.nodeTypeId props) (fun _ hg => hg.shows h) fun _ hvalid => ?_
  refine Meets.found (finds_nodePropertiesRaw h hrow) ?_
  refine Meets.bind ((meets_checkUnique h hC r.nodeTypeId props (some rid)).mono (fun _ hg => hg) (fun _ _ hg => hg)
    fun _ hg => hg.2.shows h) fun _ => Meets.given fun hadmits => ?_
  refine Meets.bind ((meets_writeProps hC props).mono (fun _ hg => hg) (fun _ _ hg => hg) fun _ hg => hg.2.shows h)
    fun ref => Meets.given fun htaken => Meets.exists fun b' => Meets.given fun hw => ?_
  have h' := hw.depicts h
  refine Meets.bind (meets_writeNodeProps h.linked h.named hr ref).sure fun _ =>
    Meets.exists fun t' => Meets.given fun hwritten => ?_
  obtain ⟨hset, hold⟩ := h'.setNodeProps (Topo.node_of_live hr) hrow hwritten.linked hwritten.named hwritten.node
    hwritten.edge hw.valueAt (hw.unowned h)
  have hsome : ∀ v, r.propertyRef = some v → (b'.values v).isSome := fun v hv =>
    h'.isSome_of_ref (s := .nodeProps rid) (by rw [Topo.ref, Topo.node_of_live hr]; exact hv)
  refine Meets.bind (meets_maintainPropertyIndex hset hC r.nodeTypeId rid oldProps .remove).sure fun _ => ?_
  have hremoved := hset.setEntries (indexed .remove (c.keys C r.nodeTypeId oldProps) rid b'.entries)
  refine Meets.bind (meets_maintainPropertyIndex hremoved hC r.nodeTypeId rid props .add).sure fun _ => ?_
  refine (meets_freeRef fun v hv => ?_).sure.mono (fun _ hg => hg) (fun _ g hg => ?_) fun _ hg => hg
  · exact hsome v hv
  refine ⟨⟨htaken, hvalid, hadmits⟩, hg.shows ?_⟩
  have hadded := hremoved.setEntries (indexed .add (c.keys C r.nodeTypeId props) rid
    (indexed .remove (c.keys C r.nodeTypeId oldProps) rid b'.entries))
  have hfreed := hadded.release hold
  rw [h'.entries] at hfreed ⊢
  exact hfreed

/-- A handle that is not live. -/
theorem meets_updateNodeProperties_dead (hrow : c.nodes rid = none) (props : Props F) :
    Meets (Shows (M := M) C c) (updateNodeProperties C rid props) (fun _ _ => False) (Shows C c) := by
  refine meets_shows fun t b h => Meets.found (finds_nodeExists_row h rid) ?_
  rw [hrow]
  exact Meets.throw fun _ hg => hg.shows h

/-- **`patch_node_properties`** on a live node. -/
theorem meets_patchNodeProperties (hC : C.Faithful) {row : NodeRow F} (hrow : c.nodes rid = some row) (patch : Props F) :
    Meets (Shows (M := M) C c) (patchNodeProperties C rid patch)
      (fun _ g => (PropsTaken M C (c.visible .node row.typeId row.props ∪ patch) ∧
        c.validate .node row.typeId (c.visible .node row.typeId row.props ∪ patch) = .ok () ∧
        c.Admits C row.typeId (c.visible .node row.typeId row.props ∪ patch) (some rid)) ∧
        Shows C (c.updateNode C rid row (c.visible .node row.typeId row.props ∪ patch)) g) (Shows C c) := by
  refine meets_shows fun t b h => Meets.found (finds_getNodeProperties h hrow hC) ?_
  exact (meets_updateNodeProperties hC hrow _).mono (fun _ hg => hg.shows h) (fun _ _ hg => hg) fun _ hg => hg

theorem meets_patchNodeProperties_dead (hrow : c.nodes rid = none) (patch : Props F) :
    Meets (Shows (M := M) C c) (patchNodeProperties C rid patch) (fun _ _ => False) (Shows C c) :=
  Meets.bind ((still_getNodeProperties rid).keeps _) fun _ => meets_updateNodeProperties_dead hrow _

/-! ## Deleting a node -/

/-- The two values of a record are not the same. -/
theorem release_isSome {v w : RecordId} (hv : (b.values v).isSome) (hne : some w ≠ some v) :
    ((b.release (some w)).values v).isSome := by
  show (Function.update b.values w none v).isSome = true
  rw [Function.update_of_ne fun h => hne (congrArg some h.symm), hv]

/-- The values of a record are freed. -/
theorem meets_freeRefs {sp sl : RefSlot} (h : Depicts C t b c) (hne : sp ≠ sl) :
    Meets (Is (M := M) t b) (do
        freeRef (t.ref sp)
        freeRef (t.ref sl)) (fun _ => Is t ((b.release (t.ref sp)).release (t.ref sl))) fun _ => False := by
  refine Meets.bind (meets_freeRef fun v hv => h.isSome_of_ref hv) fun _ => meets_freeRef fun v hv => ?_
  cases hp : t.ref sp with
  | none => exact h.isSome_of_ref hv
  | some w =>
    refine release_isSome (h.isSome_of_ref hv) fun hw => ?_
    rw [← hp, ← hv] at hw
    exact hne (h.exclusive _ _ v (hw.trans hv) hv)

/-- **One edge of the cascade.** -/
theorem meets_deleteCascaded {e : RecordId} {row : EdgeRow F} (he : c.edges e = some row) :
    Meets (Shows (M := M) C c) (deleteCascaded e) (fun _ => Shows C (c.setEdge e none)) fun _ => False := by
  refine meets_shows fun t b h => ?_
  obtain ⟨r, hr, hstored⟩ := exists_edge h he
  refine Meets.found (finds_readEdge hr).attempt ?_
  have hp : t.ref (.edgeProps e) = r.propertyRef := by rw [Topo.ref, Topo.edge_of_live hr]; rfl
  have hlab : t.ref (.edgeLabels e) = r.labelRef := by rw [Topo.ref, Topo.edge_of_live hr]; rfl
  have hfree := meets_freeRefs (M := M) h (show RefSlot.edgeProps e ≠ .edgeLabels e by simp)
  rw [hp, hlab] at hfree
  refine Meets.bind hfree fun _ => ?_
  obtain ⟨t', hrun, hlinked, hnode, hedge⟩ := h.linked.deleteEdge ⟨r, hr⟩
  refine (meets_onTopo hrun).mono (fun _ hg => hg) (fun _ g hg => hg.2.shows ?_) fun _ hg => hg
  obtain ⟨hgone, hun⟩ := h.removeEdge (Topo.edge_of_live hr) hlinked
    (Topo.named_of_run (Topo.keeps_deleteEdge e) h.named hrun) hnode hedge
  exact (hgone.release fun v hv => hun v (.inl hv)).release fun v hv => hun v (.inr hv)

theorem dropEdges_cons (e : RecordId) (es : List RecordId) : (c.setEdge e none).dropEdges es = c.dropEdges (e :: es) := by
  refine congrArg (fun edges => ({ c with edges := edges } : Contents F)) (funext fun d => ?_)
  by_cases hd : d = e
  · simp [hd, Contents.setEdge]
  · simp [hd, Contents.setEdge]

theorem meets_deleteEdges {es : List RecordId} (hnd : es.Nodup) (hlive : ∀ e ∈ es, ∃ row, c.edges e = some row) :
    Meets (Shows (M := M) C c) (Action.forEach es deleteCascaded) (fun _ => Shows C (c.dropEdges es)) fun _ => False := by
  induction es generalizing c with
  | nil =>
    have hnone : c.dropEdges [] = c := by simp [Contents.dropEdges]
    rw [hnone]
    exact Meets.pure fun _ hg => hg
  | cons e es ih =>
    obtain ⟨hout, hnd⟩ := List.nodup_cons.1 hnd
    obtain ⟨row, he⟩ := hlive e List.mem_cons_self
    rw [← dropEdges_cons]
    refine Meets.bind (meets_deleteCascaded he) fun _ => ih hnd fun d hd => ?_
    have hde : d ≠ e := by
      rintro rfl
      exact hout hd
    obtain ⟨row', hd'⟩ := hlive d (List.mem_cons_of_mem _ hd)
    exact ⟨row', (Function.update_of_ne hde _ _).trans hd'⟩

/-- The edges at a node, each of them once. -/
theorem finds_cascadeOf (h : Depicts C t b c) (hn : t.LiveNode rid) :
    ∃ es, Finds (Is (M := M) t b) (cascadeOf rid) (.ok es) ∧ es.Nodup ∧
      ∀ e, e ∈ es ↔ ∃ row, c.edges e = some row ∧ Contents.apartFrom rid row = false := by
  obtain ⟨outs, hout, -, houtMem⟩ := h.linked.collectEdges hn .out
  obtain ⟨ins, hin, -, hinMem⟩ := h.linked.collectEdges hn .in
  refine ⟨_, ?_, nodup_eraseDups _ _ (Nat.le_refl ((outs ++ ins).map EdgeRecord.id).length), fun e => ?_⟩
  · rintro g ⟨rfl, -⟩
    unfold cascadeOf onTopo
    rw [run_bind]
    show andThen (let (r, t) := Topo.collectEdges .out rid g.topo; (r, { g with topo := t })) _ = _
    rw [hout]
    show andThen (let (r, t) := Topo.collectEdges .in rid g.topo; (r, { g with topo := t })) _ = _
    rw [hin]
    rfl
  · rw [List.mem_eraseDups, List.mem_map]
    constructor
    · rintro ⟨r, hr, rfl⟩
      have hboth : t.edges.live r.id = some r ∧ (r.fromNode = rid ∨ r.toNode = rid) := by
        rcases List.mem_append.1 hr with hr | hr
        · exact ⟨((houtMem r).1 hr).1, .inl ((houtMem r).1 hr).2⟩
        · exact ⟨((hinMem r).1 hr).1, .inr ((hinMem r).1 hr).2⟩
      obtain ⟨row, hrow, hstored⟩ := h.edge.left (Topo.edge_of_live hboth.1)
      refine ⟨row, hrow, ?_⟩
      have hfrom : r.fromNode = row.fromNode := hstored.fromNode
      have hto : r.toNode = row.toNode := hstored.toNode
      unfold Contents.apartFrom
      rw [← hfrom, ← hto]
      rcases hboth.2 with hat | hat <;> simp [hat]
    · rintro ⟨row, hrow, hapart⟩
      obtain ⟨r, hr, hstored⟩ := exists_edge h hrow
      have hid : r.id = e := h.linked.edgeId hr
      refine ⟨r, List.mem_append.2 ?_, hid⟩
      have hlive : t.edges.live r.id = some r := by rw [hid, hr]
      unfold Contents.apartFrom at hapart
      rw [← hstored.fromNode, ← hstored.toNode] at hapart
      by_cases hfrom : r.fromNode = rid
      · exact .inl ((houtMem r).2 ⟨hlive, hfrom⟩)
      · have hto : r.toNode = rid := by simpa [hfrom] using hapart
        exact .inr ((hinMem r).2 ⟨hlive, hto⟩)

theorem meets_unlabelAll (ids : List UInt16) :
    Meets (Is (M := M) t b) (Action.forEach ids fun id => onPages (Backing.removeLabel id rid))
      (fun _ => Is t { b with labelled := unlabelAll rid ids b.labelled }) fun _ => False := by
  induction ids generalizing b with
  | nil => exact Meets.pure fun _ hg => hg
  | cons id ids ih => exact Meets.bind (meets_removeLabel id rid) fun _ => ih

theorem meets_labelAll (ids : List UInt16) :
    Meets (Is (M := M) t b) (Action.forEach ids fun id => onPages (Backing.addLabel id rid))
      (fun _ => Is t { b with labelled := labelAll rid ids b.labelled }) fun _ => False := by
  induction ids generalizing b with
  | nil => exact Meets.pure fun _ hg => hg
  | cons id ids ih => exact Meets.bind (meets_addLabel id rid) fun _ => ih

/-- `delete_node`, behind the cascade. -/
theorem meets_retireNode (hC : C.Faithful) {row : NodeRow F} (hrow : c.nodes rid = some row)
    (hapart : ∀ e erow, c.edges e = some erow → Contents.apartFrom rid erow = true) :
    Meets (Shows (M := M) C c) (retireNode C rid) (fun _ => Shows C (c.retireNode C rid row)) fun _ => False := by
  refine meets_shows fun t b h => ?_
  obtain ⟨r, hr, hstored⟩ := exists_node h hrow
  obtain ⟨typeId, props, labels⟩ := row
  obtain rfl : r.nodeTypeId = typeId := hstored.typeId
  refine Meets.found (finds_readNode hr) (Meets.found (finds_nodePropertiesRaw h hrow) ?_)
  refine Meets.bind (meets_maintainPropertyIndex h hC r.nodeTypeId rid props .remove) fun _ => ?_
  have hremoved := h.setEntries (indexed .remove (c.keys C r.nodeTypeId props) rid b.entries)
  refine Meets.found (finds_getNodeTypeIds hremoved hrow) ?_
  refine Meets.bind (meets_unlabelAll (r.nodeTypeId :: labels)) fun _ => ?_
  have hunlabelled := hremoved.setLabelled (unlabelAll rid (r.nodeTypeId :: labels) b.labelled)
  have hp : t.ref (.nodeProps rid) = r.propertyRef := by rw [Topo.ref, Topo.node_of_live hr]; rfl
  have hlab : t.ref (.nodeLabels rid) = r.labelRef := by rw [Topo.ref, Topo.node_of_live hr]; rfl
  have hfree := meets_freeRefs (M := M) hunlabelled (show RefSlot.nodeProps rid ≠ .nodeLabels rid by simp)
  rw [hp, hlab] at hfree
  obtain ⟨nodes, hrun, hlive⟩ := RecordTable.live_free hr
  have hfreed : Topo.freeNode rid t = (.ok (), { t with nodes := nodes }) := Action.run_update (by rw [hrun]; rfl)
  have hnode : ({ t with nodes := nodes } : Topo).node = Function.update t.node rid none := by
    rw [Topo.node_update (t := t) hlive, Option.map_none]
  have hlinked : ({ t with nodes := nodes } : Topo).Linked := by
    refine h.linked.removeNode (fun d er hd dir hanchor => ?_) rfl hlive
    obtain ⟨erow, herow, hestored⟩ := h.edge.left (Topo.edge_of_live hd)
    have hat := hapart d erow herow
    unfold Contents.apartFrom at hat
    rw [← hestored.fromNode, ← hestored.toNode] at hat
    simp only [Bool.and_eq_true, decide_eq_true_eq] at hat
    cases dir with
    | out => exact hat.1 hanchor
    | «in» => exact hat.2 hanchor
  have hseq : (do
      freeRef r.propertyRef
      freeRef r.labelRef
      onTopo (Topo.freeNode rid) : Action (Graph M) Unit) = ((do
        freeRef r.propertyRef
        freeRef r.labelRef) >>= fun _ => onTopo (Topo.freeNode rid)) := by
    funext g
    show andThen (freeRef r.propertyRef g) _ = andThen (andThen (freeRef r.propertyRef g) _) _
    obtain ⟨r₁ | e | _, g₁⟩ := (freeRef r.propertyRef : Action (Graph M) Unit) g <;> rfl
  refine hseq ▸ Meets.bind hfree fun _ => ?_
  refine (meets_onTopo hfreed).mono (fun _ hg => hg) (fun _ g hg => hg.2.shows ?_) fun _ hg => hg
  obtain ⟨hgone, hun⟩ := hunlabelled.removeNode (Topo.node_of_live hr) hlinked
    (Topo.named_of_run (Topo.keeps_freeNode rid) h.named hfreed) hnode rfl
  have hdone := (hgone.release fun v hv => hun v (.inl hv)).release fun v hv => hun v (.inr hv)
  rw [h.entries, h.labelled] at hdone
  rw [h.entries, h.labelled]
  exact hdone

/-- **`delete_node`.** -/
theorem meets_deleteNode (hC : C.Faithful) (rid : RecordId) :
    Meets (Shows (M := M) C c) (deleteNode C rid)
      (fun _ g => ∃ row, c.nodes rid = some row ∧ Shows C (c.deleteNode C rid row) g)
      fun g => c.nodes rid = none ∧ Shows C c g := by
  refine meets_shows fun t b h => Meets.found (finds_nodeExists_row h rid) ?_
  cases hrow : c.nodes rid with
  | none => exact Meets.throw fun _ hg => ⟨rfl, hg.shows h⟩
  | some row =>
    obtain ⟨r, hr, -⟩ := exists_node h hrow
    obtain ⟨es, hfind, hnd, hmem⟩ := finds_cascadeOf (M := M) h ⟨r, hr⟩
    refine Meets.found hfind (Meets.sure ?_)
    refine Meets.bind ((meets_deleteEdges hnd fun e he => ((hmem e).1 he).imp fun _ => And.left).mono
      (fun _ hg => hg.shows h) (fun _ _ hg => hg) fun _ hg => hg) fun _ => ?_
    refine (meets_retireNode (c := c.dropEdges es) hC hrow fun e erow he => ?_).mono (fun _ hg => hg)
      (fun _ g hg => ⟨row, rfl, ?_⟩) fun _ hg => hg
    · by_cases hes : e ∈ es
      · simp [Contents.dropEdges, hes] at he
      · have he' : c.edges e = some erow := by simpa [Contents.dropEdges, hes] using he
        by_contra hat
        exact hes ((hmem e).2 ⟨erow, he', Bool.eq_false_iff.2 hat⟩)
    · have hsame : (c.dropEdges es).retireNode C rid row = c.deleteNode C rid row := by
        refine congrArg (fun edges => ({ c.deleteNode C rid row with edges := edges } : Contents F)) (funext fun e => ?_)
        show (if e ∈ es then none else c.edges e) = (c.edges e).filter (Contents.apartFrom rid)
        by_cases hes : e ∈ es
        · obtain ⟨erow, he, hat⟩ := (hmem e).1 hes
          rw [if_pos hes, he, Option.filter_some_neg (by simpa using hat)]
        · rw [if_neg hes]
          cases he : c.edges e with
          | none => rfl
          | some erow =>
            have hat : Contents.apartFrom rid erow = true := by
              by_contra hat
              exact hes ((hmem e).2 ⟨erow, he, Bool.eq_false_iff.2 hat⟩)
            exact (Option.filter_some_pos hat).symm
      rwa [← hsame]

end Graph

end ChiffonDB

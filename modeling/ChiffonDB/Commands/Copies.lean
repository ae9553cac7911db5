import ChiffonDB.Commands.Import
import ChiffonDB.Graph.FirstSchema
import ChiffonDB.Graph.Room
import ChiffonDB.Lib.Multigraph

/-!
# Copies of records

An import inserts, one by one, records that have been read from another database.

* `Contents.graph` — the records of a database, as a client sees them.
* `Copying` — what a database is like that some of these records have been copied into.
* `Graph.runs_importNodes`, `Graph.runs_importEdges` — **the loops of an import copy their records**.
-/

set_option autoImplicit false

set_option linter.unusedSectionVars false

namespace ChiffonDB

open Action Graph

/-! ## Commands that return -/

namespace Command

section Runs

variable {M : Type} [Backing M] {α β : Type}

/-- From a state of `P` where the next `k` calls of the stores return, the command succeeds and leaves one of `Q`. -/
def Runs (P : Graph M → Prop) (k : Nat) (p : Command (Graph M) α) (Q : α → Graph M → Prop) : Prop :=
  ∀ g n, P g → Roomy (n + k) g → ∃ a g', p g = (.ok (.ok a), g') ∧ Q a g' ∧ Roomy n g'

variable {P P' : Graph M → Prop} {Q Q' : α → Graph M → Prop} {R : β → Graph M → Prop} {k l : Nat}
  {p : Command (Graph M) α} {f : α → Command (Graph M) β}

theorem Runs.mono (h : Runs P k p Q) (hP : ∀ g, P' g → P g) (hle : k ≤ l) (hQ : ∀ a g, Q a g → Q' a g) : Runs P' l p Q' := by
  intro g n hg hroom
  obtain ⟨a, g', hrun, hpost, hleft⟩ := h g (n + (l - k)) (hP g hg) (hroom.mono (by omega))
  exact ⟨a, g', hrun, hQ a g' hpost, hleft.mono (by omega)⟩

theorem Runs.pure {a : α} (h : ∀ g, P g → Q a g) : Runs P 0 (Pure.pure a) Q := fun g _ hg hroom => ⟨a, g, rfl, h g hg, hroom⟩

theorem Runs.bind (hp : Runs P k p Q) (hf : ∀ a, Runs (Q a) l (f a) R) : Runs P (k + l) (p >>= f) R := by
  intro g n hg hroom
  obtain ⟨a, g', hrun, hpost, hleft⟩ := hp g (n + l) hg (hroom.mono (by omega))
  obtain ⟨b, g'', hrun', hpost', hleft'⟩ := hf a g' n hpost hleft
  refine ⟨b, g'', ?_, hpost', hleft'⟩
  show Action.andThen (p g) _ = _
  rw [hrun]
  exact hrun'

/-- A lookup in front of a command. -/
theorem Runs.found {a : α} (hp : Finds P p (.ok a)) (hf : Runs P k (f a) R) : Runs P k (p >>= f) R := by
  intro g n hg hroom
  obtain ⟨b, g', hrun, hpost, hleft⟩ := hf g n hg hroom
  refine ⟨b, g', ?_, hpost, hleft⟩
  show Action.andThen (p g) _ = _
  rw [hp g hg]
  exact hrun

theorem Runs.call {text : String} {p : Action (Graph M) α} (hp : Graph.Runs P k p Q) : Runs P k (call text p) Q := by
  intro g n hg hroom
  obtain ⟨a, g', hrun, hpost, hleft⟩ := hp g n hg hroom
  refine ⟨a, g', ?_, hpost, hleft⟩
  show Action.andThen (Action.attempt p g) _ = _
  unfold Action.attempt
  rw [hrun]
  rfl

theorem Runs.given {φ : Prop} (h : φ → Runs P k p Q) : Runs (fun g => φ ∧ P g) k p Q :=
  fun g n ⟨hφ, hg⟩ hroom => h hφ g n hg hroom

theorem Runs.exists {ι : Type} {P : ι → Graph M → Prop} (h : ∀ i, Runs (P i) k p Q) : Runs (fun g => ∃ i, P i g) k p Q :=
  fun g n ⟨i, hi⟩ hroom => h i g n hi hroom

end Runs

end Command

/-! ## What a client sees -/

/-- A record as a client sees it. -/
structure Seen (F : Type) [F64 F] where
  type : Option String
  labels : List (Option String)
  props : Props F

variable {F : Type} [F64 F] [F64Text F]

namespace Contents

variable (c : Contents F)

def typeNamed (kind : RecordKind) (id : UInt16) : Option String := c.schema.bind fun dto => dto.registry.typeNameOf kind id

def seenNode (row : NodeRow F) : Seen F :=
  ⟨c.typeNamed .node row.typeId, row.labels.map (c.typeNamed .node), c.shownNode row⟩

def seenEdge (row : EdgeRow F) : Seen F :=
  ⟨c.typeNamed .edge row.typeId, row.labels.map (c.typeNamed .edge), c.shownEdge row⟩

/-- The records of a database. -/
def graph : Multigraph RecordId RecordId (Seen F) (Seen F) where
  node rid := (c.nodes rid).map c.seenNode
  edge eid := (c.edges eid).map fun row => (row.fromNode, row.toNode, c.seenEdge row)

/-- The properties of a node, as they are shown. -/
def propsOf (rid : RecordId) : Props F := ((c.nodes rid).map c.shownNode).getD ∅

/-- What an import is given for a node. -/
def nodeRecord (rid : RecordId) : Import.NodeRecord F :=
  (((c.nodes rid).bind fun row => c.typeNamed .node row.typeId).getD "", c.propsOf rid)

/-- The `id` of a node. -/
def idAt (rid : RecordId) : String := (idOf (c.propsOf rid)).getD ""

/-- What an import is given for an edge. -/
def edgeRecord (eid : RecordId) : Import.EdgeRecord F :=
  match c.edges eid with
  | some row => ((c.typeNamed .edge row.typeId).getD "", c.idAt row.fromNode, c.idAt row.toNode, c.shownEdge row)
  | none => ("", "", "", ∅)

/-- A node of a type of the schema, as the schema has it, without other labels. -/
structure NodeConforms (dto : SchemaDto) (rid : RecordId) (row : NodeRow F) (name : String) : Prop where
  live : c.nodes rid = some row
  id : dto.registry.typeIdOf .node name = some row.typeId
  fields : ∃ node, (dtoToAst dto).findNode name = some node ∧ validateProperties name node.fields (c.shownNode row) = .ok ()
  labels : row.labels = []

/-- An edge of a type of the schema, as the schema has it, without other labels. -/
structure EdgeConforms (dto : SchemaDto) (eid : RecordId) (row : EdgeRow F) (name : String) : Prop where
  live : c.edges eid = some row
  id : dto.registry.typeIdOf .edge name = some row.typeId
  fields : ∃ edge, (dtoToAst dto).findEdge name = some edge ∧ validateProperties name edge.props (c.shownEdge row) = .ok ()
  labels : row.labels = []

/-- A node that an insert by name takes. -/
structure NodeFits (M : Type) [FaithfulBacking M] (C : Codecs F) (dto : SchemaDto) (rid : RecordId) (row : NodeRow F)
    (name : String) : Prop extends c.NodeConforms dto rid row name where
  taken : PropsTaken M C (c.shownNode row)

/-- An edge that an insert by name takes, between its nodes. -/
structure EdgeFits (M : Type) [FaithfulBacking M] (C : Codecs F) (dto : SchemaDto) (eid : RecordId) (row : EdgeRow F)
    (name : String) : Prop extends c.EdgeConforms dto eid row name where
  ends : ∀ edge, (dtoToAst dto).findEdge name = some edge →
    c.EndpointFits dto (resolveEndpointType edge.fromType edge.genericParams) row.fromNode ∧
    c.EndpointFits dto (resolveEndpointType edge.toType edge.genericParams) row.toNode
  taken : PropsTaken M C (c.shownEdge row)

/-- No two of some nodes have the same value in a field that is unique. -/
def Distinct (U : Set RecordId) : Prop := ∀ rid ∈ U, ∀ rid' ∈ U, ∀ row row', c.nodes rid = some row →
  c.nodes rid' = some row' → row'.typeId = row.typeId → ∀ path, (path, true) ∈ c.indexedPaths row.typeId →
    ∀ value, indexable path (c.shownNode row) = some value →
      (path.resolve (c.shownNode row')).any (·.eq value) = true → rid' = rid

theorem Distinct.mono {c : Contents F} {U V : Set RecordId} (h : c.Distinct U) (hsub : V ⊆ U) : c.Distinct V :=
  fun r hr r' hr' => h r (hsub hr) r' (hsub hr')

variable {c}

section Records

variable {dto : SchemaDto} {rid : RecordId} {name : String} (hs : c.schema = some dto) (hdto : dto.Coherent)

include hs hdto

theorem typeNamed_eq {kind : RecordKind} {id : UInt16} (hid : dto.registry.typeIdOf kind name = some id) :
    c.typeNamed kind id = some name := by
  unfold typeNamed
  rw [hs, Option.bind_some, hdto kind name id hid]

theorem NodeConforms.record {row : NodeRow F} (h : c.NodeConforms dto rid row name) :
    c.nodeRecord rid = (name, c.shownNode row) := by
  unfold Contents.nodeRecord propsOf
  rw [h.live, Option.bind_some, typeNamed_eq hs hdto h.id]
  rfl

theorem EdgeConforms.record {row : EdgeRow F} (h : c.EdgeConforms dto rid row name) :
    c.edgeRecord rid = (name, c.idAt row.fromNode, c.idAt row.toNode, c.shownEdge row) := by
  unfold Contents.edgeRecord
  rw [h.live]
  dsimp only
  rw [typeNamed_eq hs hdto h.id]
  rfl

end Records

end Contents

/-! ## Copies -/

/-- The same definitions, and ids for all of them. -/
structure SameTypes (dto dto' : SchemaDto) : Prop where
  coherent : dto.Coherent
  coherent' : dto'.Coherent
  ast : dtoToAst dto' = dtoToAst dto
  known : ∀ kind name, ((dtoToAst dto).fieldsNamed kind name).isSome → ∃ id, dto'.registry.typeIdOf kind name = some id

/-- Some nodes and some edges of `c` are all there is in `c'`. -/
structure Copying (c : Contents F) (dto : SchemaDto) (S T : Set RecordId) (f g : RecordId → RecordId)
    (c' : Contents F) : Prop where
  schema : c'.schema = some dto
  copied : Multigraph.Copied c.graph c'.graph S T f g
  live : c'.EntriesLive
  whole : ∀ rid row, c'.nodes rid = some row →
    (∃ name, dto.registry.typeIdOf .node name = some row.typeId) ∧ c'.shownNode row = row.props

section Copy

variable {c c' : Contents F} {dto dto' : SchemaDto} {S T : Set RecordId} {f g : RecordId → RecordId} {C : Codecs F}

theorem Contents.graph_insertNode (rid : RecordId) (id : UInt16) (props : Props F) :
    (c.insertNode C rid id props).graph = c.graph.setNode rid (c.seenNode ⟨id, props, []⟩) := by
  refine congrArg (fun node => (⟨node, _⟩ : Multigraph _ _ _ _)) (funext fun x => ?_)
  show (Function.update c.nodes rid _ x).map c.seenNode = Function.update (fun rid => (c.nodes rid).map c.seenNode) rid _ x
  by_cases hx : x = rid
  · rw [hx, Function.update_self, Function.update_self]
    rfl
  · rw [Function.update_of_ne hx, Function.update_of_ne hx]

theorem Contents.graph_setEdge (eid : RecordId) (row : EdgeRow F) :
    (c.setEdge eid (some row)).graph = c.graph.setEdge eid row.fromNode row.toNode (c.seenEdge row) := by
  refine congrArg (fun edge => (⟨_, edge⟩ : Multigraph _ _ _ _)) (funext fun x => ?_)
  show (Function.update c.edges eid _ x).map _ = Function.update (fun eid => (c.edges eid).map _) eid _ x
  by_cases hx : x = eid
  · rw [hx, Function.update_self, Function.update_self]
    rfl
  · rw [Function.update_of_ne hx, Function.update_of_ne hx]
    rfl

/-- The entries of a new node are under its type. -/
theorem Contents.EntriesLive.insertNode (h : c.EntriesLive) {rid : RecordId} (hfresh : c.nodes rid = none) (id : UInt16)
    (props : Props F) : (c.insertNode C rid id props).EntriesLive := by
  rintro key x (hx | ⟨hkey, hx⟩)
  · obtain ⟨row, hrow, htype⟩ := h key x hx
    refine ⟨row, ?_, htype⟩
    rw [← hrow]
    refine Function.update_of_ne ?_ _ _
    rintro rfl
    rw [hfresh] at hrow
    cases hrow
  · obtain rfl : x = rid := hx
    refine ⟨⟨id, props, []⟩, Function.update_self _ _ _, ?_⟩
    obtain ⟨path, -, hpath⟩ := List.mem_filterMap.1 hkey
    obtain ⟨value, -, hvalue⟩ := Option.bind_eq_some_iff.1 hpath
    obtain ⟨bytes, -, rfl⟩ := Option.map_eq_some_iff.1 hvalue
    rfl

section Same

variable (hsame : SameTypes dto dto') (hs : c.schema = some dto) (hs' : c'.schema = some dto') {kind : RecordKind}
  {name : String} {id id' : UInt16} (hid : dto.registry.typeIdOf kind name = some id)
  (hid' : dto'.registry.typeIdOf kind name = some id')

include hsame hs hs' hid hid'

theorem visible_same (props : Props F) : c'.visible kind id' props = c.visible kind id props := by
  unfold Contents.visible
  rw [Contents.declared_eq hs' hsame.coherent' hid', Contents.declared_eq hs hsame.coherent hid, hsame.ast]

theorem fieldsOf_same : c'.fieldsOf kind id' = c.fieldsOf kind id := by
  rw [Contents.fieldsOf_eq hs' hsame.coherent' hid', Contents.fieldsOf_eq hs hsame.coherent hid, hsame.ast]

end Same

variable {M : Type} [FaithfulBacking M] {n : RecordId} {row : NodeRow F} {name : String} {id : UInt16}

theorem keyOf_typeId {path : String} {value : Value F} {key : PropertyIndex.IndexKey} (h : keyOf C id path value = some key) :
    key.typeId = id := by
  obtain ⟨bytes, -, rfl⟩ := Option.map_eq_some_iff.1 h
  rfl

/-- What a copied row has been copied from. -/
theorem Copying.origin (h : Copying c dto' S T f g c') (hs : c.schema = some dto) (hsame : SameTypes dto dto')
    (hS : ∀ r ∈ S, ∃ row name, c.NodeConforms dto r row name) {rid : RecordId} {row : NodeRow F}
    (hrow : c'.nodes rid = some row) : ∃ r ∈ S, ∃ row₀ name, f r = rid ∧ c.NodeConforms dto r row₀ name ∧
      dto'.registry.typeIdOf .node name = some row.typeId ∧ c.shownNode row₀ = row.props := by
  have hnode : c'.graph.node rid = some (c'.seenNode row) := by
    show (c'.nodes rid).map c'.seenNode = _
    rw [hrow]
    rfl
  have hmem : rid ∈ c'.graph.nodes := by
    show (c'.graph.node rid).isSome
    rw [hnode]
    rfl
  obtain ⟨r, hr, rfl⟩ := h.copied.nodes.surjOn hmem
  obtain ⟨row₀, name, hconf⟩ := hS r hr
  obtain ⟨⟨name', hid'⟩, hwhole⟩ := h.whole _ _ hrow
  have hseen : c'.seenNode row = c.seenNode row₀ := by
    have hcopy := h.copied.node r hr
    rw [hnode, show c.graph.node r = some (c.seenNode row₀) by
      show (c.nodes r).map c.seenNode = _
      rw [hconf.live]
      rfl] at hcopy
    exact Option.some.inj hcopy
  have htype : some name' = some name := by
    rw [← Contents.typeNamed_eq h.schema hsame.coherent' hid', ← Contents.typeNamed_eq hs hsame.coherent hconf.id]
    exact congrArg Seen.type hseen
  cases htype
  exact ⟨r, hr, row₀, _, rfl, hconf, hid', (congrArg Seen.props hseen).symm.trans hwhole⟩

/-- **A node of the first database is let into the second one.** -/
theorem Copying.admitsNode (h : Copying c dto' S T f g c') (hs : c.schema = some dto) (hsame : SameTypes dto dto')
    (hS : ∀ r ∈ S, ∃ row name, c.NodeConforms dto r row name) (hfits : c.NodeFits M C dto n row name) (hn : n ∉ S)
    (hdist : c.Distinct (insert n S)) (hid : dto'.registry.typeIdOf .node name = some id) :
    c'.AdmitsNode M C name id (c.shownNode row) := by
  obtain ⟨node, hdef, hvalid⟩ := hfits.fields
  refine ⟨⟨dto', node, h.schema, by rw [hsame.ast]; exact hdef, hvalid, hid⟩, hfits.taken, ?_⟩
  intro path hpath value hvalue key hkey rid row' hentry hrow' hany
  -- the row that is in the way is a copy of another node of the type
  obtain ⟨r, hr, row₀, name', rfl, hconf, hid', hprops⟩ := h.origin hs hsame hS hrow'
  have hentryType : row'.typeId = id := by
    obtain ⟨row'', hrow'', htype⟩ := h.live key _ hentry
    cases hrow'.symm.trans hrow''
    rw [← htype, keyOf_typeId hkey]
  rw [hentryType] at hid'
  cases hsame.coherent'.name_eq hid hid'
  have htype : row₀.typeId = row.typeId := Option.some.inj (hconf.id.symm.trans hfits.id)
  have hpath' : (path, true) ∈ c.indexedPaths row.typeId := by
    unfold Contents.indexedPaths at hpath ⊢
    rwa [fieldsOf_same hsame hs h.schema hfits.id hid] at hpath
  have heq := hdist n (Set.mem_insert n S) r (Set.mem_insert_of_mem n hr) row row₀ hfits.live hconf.live htype path hpath'
    value hvalue (by rw [hprops]; exact hany)
  exact absurd (heq ▸ hr) hn

/-- **Its copy.** -/
theorem Copying.insertNode (h : Copying c dto' S ∅ f g c') (hs : c.schema = some dto) (hsame : SameTypes dto dto')
    (hconf : c.NodeConforms dto n row name) (hn : n ∉ S) (hid : dto'.registry.typeIdOf .node name = some id) {rid : RecordId}
    (hfresh : c'.nodes rid = none) :
    Copying c dto' (insert n S) ∅ (Function.update f n rid) g (c'.insertNode C rid id (c.shownNode row)) := by
  have hshown : c'.visible .node id (c.shownNode row) = c.shownNode row := by
    rw [visible_same hsame hs h.schema hconf.id hid]
    exact c.visible_idem .node row.typeId row.props
  have hseen : c'.seenNode ⟨id, c.shownNode row, []⟩ = c.seenNode row := by
    unfold Contents.seenNode
    rw [Contents.typeNamed_eq h.schema hsame.coherent' hid, Contents.typeNamed_eq hs hsame.coherent hconf.id, hconf.labels]
    exact congrArg (Seen.mk _ _) hshown
  have hnode : c.graph.node n = some (c'.seenNode ⟨id, c.shownNode row, []⟩) := by
    rw [hseen]
    show (c.nodes n).map c.seenNode = _
    rw [hconf.live]
    rfl
  refine ⟨h.schema, ?_, h.live.insertNode hfresh id _, fun x row' hrow' => ?_⟩
  · rw [Contents.graph_insertNode]
    refine h.copied.setNode hn ?_ hnode fun e he => he.elim
    show (c'.nodes rid).map c'.seenNode = none
    rw [hfresh]
    rfl
  · by_cases hx : x = rid
    · rw [hx, show (c'.insertNode C rid id (c.shownNode row)).nodes rid = some ⟨id, c.shownNode row, []⟩ from
        Function.update_self _ _ _] at hrow'
      cases hrow'
      exact ⟨⟨name, hid⟩, hshown⟩
    · rw [show (c'.insertNode C rid id (c.shownNode row)).nodes x = c'.nodes x from Function.update_of_ne hx _ _] at hrow'
      exact h.whole x row' hrow'

/-- A copy of a node is a node of the same type. -/
theorem Copying.endpointFits (h : Copying c dto' S T f g c') (hs : c.schema = some dto)
    (hS : ∀ r ∈ S, ∃ row name, c.NodeConforms dto r row name) {required : Option String} {x : RecordId} (hx : x ∈ S)
    (hfits : c.EndpointFits dto required x) : c'.EndpointFits dto' required (f x) := by
  obtain ⟨row, hrow, hfits⟩ := hfits
  obtain ⟨row₀, name, hconf⟩ := hS x hx
  cases hrow.symm.trans hconf.live
  have hcopy := h.copied.node x hx
  rw [show c.graph.node x = some (c.seenNode row) by
    show (c.nodes x).map c.seenNode = _
    rw [hrow]
    rfl] at hcopy
  obtain ⟨row', hrow', hseen⟩ := Option.map_eq_some_iff.1 hcopy
  have htype := congrArg Seen.type hseen
  change c'.typeNamed .node row'.typeId = c.typeNamed .node row.typeId at htype
  unfold Contents.typeNamed at htype
  rw [h.schema, hs] at htype
  refine ⟨row', hrow', fun name' hname => ?_⟩
  rw [← hfits name' hname]
  exact congrArg (fun o : Option String => o.getD "") htype

variable {e : RecordId} {erow : EdgeRow F}

/-- **An edge of the first database is let into the second one.** -/
theorem Copying.admitsEdge (h : Copying c dto' S T f g c') (hs : c.schema = some dto) (hsame : SameTypes dto dto')
    (hS : ∀ r ∈ S, ∃ row name, c.NodeConforms dto r row name) (hfits : c.EdgeFits M C dto e erow name)
    (hfrom : erow.fromNode ∈ S) (hto : erow.toNode ∈ S) (hid : dto'.registry.typeIdOf .edge name = some id) :
    c'.AdmitsEdge M C name id (f erow.fromNode) (f erow.toNode) (c.shownEdge erow) := by
  obtain ⟨edge, hdef, hvalid⟩ := hfits.fields
  obtain ⟨hends, hends'⟩ := hfits.ends edge hdef
  exact ⟨⟨dto', edge, h.schema, by rw [hsame.ast]; exact hdef, hvalid, hid, h.endpointFits hs hS hfrom hends,
    h.endpointFits hs hS hto hends'⟩, hfits.taken⟩

/-- **Its copy.** -/
theorem Copying.setEdge (h : Copying c dto' S T f g c') (hs : c.schema = some dto) (hsame : SameTypes dto dto')
    (hconf : c.EdgeConforms dto e erow name) (he : e ∉ T) (hid : dto'.registry.typeIdOf .edge name = some id)
    {eid : RecordId} (hfresh : c'.edges eid = none) :
    Copying c dto' S (insert e T) f (Function.update g e eid)
      (c'.setEdge eid (some ⟨id, f erow.fromNode, f erow.toNode, c.shownEdge erow, []⟩)) := by
  have hshown : c'.visible .edge id (c.shownEdge erow) = c.shownEdge erow := by
    rw [visible_same hsame hs h.schema hconf.id hid]
    exact c.visible_idem .edge erow.typeId erow.props
  have hseen : c'.seenEdge ⟨id, f erow.fromNode, f erow.toNode, c.shownEdge erow, []⟩ = c.seenEdge erow := by
    unfold Contents.seenEdge
    rw [Contents.typeNamed_eq h.schema hsame.coherent' hid, Contents.typeNamed_eq hs hsame.coherent hconf.id, hconf.labels]
    exact congrArg (Seen.mk _ _) hshown
  refine ⟨h.schema, ?_, h.live, h.whole⟩
  rw [Contents.graph_setEdge, hseen]
  refine h.copied.setEdge he ?_ ?_
  · show (c'.edges eid).map _ = none
    rw [hfresh]
    rfl
  · show (c.edges e).map _ = _
    rw [hconf.live]
    rfl

end Copy

/-! ## The loops -/

namespace Contents

/-- The most store calls that the insert of a node makes. -/
def nodeCost (c : Contents F) (rid : RecordId) : Nat :=
  ((c.nodes rid).map fun row => (c.indexedPaths row.typeId).length).getD 0 + 5

/-- The ids of nodes, in front of those known. -/
def remembered (c : Contents F) (idProp : String) (f : RecordId → RecordId) (rids : List RecordId)
    (ids : List (String × RecordId)) : List (String × RecordId) :=
  rids.foldl (fun ids rid => rememberId idProp ids (c.propsOf rid) (f rid)) ids

theorem remembered_congr (c : Contents F) (idProp : String) {f f' : RecordId → RecordId} {rids : List RecordId}
    (h : ∀ rid ∈ rids, f' rid = f rid) (ids : List (String × RecordId)) :
    c.remembered idProp f' rids ids = c.remembered idProp f rids ids := by
  induction rids generalizing ids with
  | nil => rfl
  | cons rid rids ih =>
    show c.remembered idProp f' rids (rememberId idProp ids _ (f' rid)) = _
    rw [h rid List.mem_cons_self]
    exact ih (fun r hr => h r (List.mem_cons_of_mem _ hr)) _

end Contents

namespace Graph

variable {M : Type} [FaithfulBacking M] {C : Codecs F} {c c' : Contents F} {dto dto' : SchemaDto} {S T : Set RecordId}
  {f g : RecordId → RecordId} {idProp : String}

/-- **The loop over the nodes.** -/
theorem runs_importNodes (hC : C.Faithful) (hs : c.schema = some dto) (hsame : SameTypes dto dto') {rids : List RecordId}
    (hnd : rids.Nodup) (hfits : ∀ r ∈ rids, ∃ row name, c.NodeFits M C dto r row name)
    (hS : ∀ r ∈ S, ∃ row name, c.NodeConforms dto r row name) (hnew : ∀ r ∈ rids, r ∉ S)
    (hdist : c.Distinct (S ∪ { r | r ∈ rids })) (h : Copying c dto' S ∅ f g c') (ids : List (String × RecordId)) :
    Command.Runs (Shows (M := M) C c') ((rids.map c.nodeCost).sum) (importNodes C idProp (rids.map c.nodeRecord) ids)
      fun ids' s => ∃ f' c'', (∀ r ∈ S, f' r = f r) ∧ ids' = c.remembered idProp f' rids ids ∧
        Copying c dto' (S ∪ { r | r ∈ rids }) ∅ f' g c'' ∧ Shows C c'' s := by
  induction rids generalizing S f c' ids with
  | nil =>
    refine Command.Runs.pure fun s hshows => ⟨f, c', fun _ _ => rfl, rfl, ?_, hshows⟩
    rw [show S ∪ { r | r ∈ ([] : List RecordId) } = S by ext; simp]
    exact h
  | cons n rids ih =>
    obtain ⟨hnotin, hnd⟩ := List.nodup_cons.1 hnd
    obtain ⟨row, name, hfit⟩ := hfits n List.mem_cons_self
    have hn : n ∉ S := hnew n List.mem_cons_self
    obtain ⟨id, hid⟩ := hsame.known .node name (by
      obtain ⟨node, hdef, -⟩ := hfit.fields
      exact Option.isSome_iff_exists.2 ⟨node.fields, Option.map_eq_some_iff.2 ⟨node, hdef, rfl⟩⟩)
    have hset : S ∪ { r | r ∈ n :: rids } = insert n S ∪ { r | r ∈ rids } := by
      ext r
      simp only [Set.mem_union, Set.mem_ofPred_eq, List.mem_cons, Set.mem_insert_iff]
      tauto
    rw [hset] at hdist
    have hadmits := h.admitsNode (M := M) hs hsame hS hfit hn (hdist.mono Set.subset_union_left) hid
    have hcost : c.nodeCost n = (c'.indexedPaths id).length + 5 := by
      unfold Contents.nodeCost Contents.indexedPaths
      rw [fieldsOf_same hsame hs h.schema hfit.id hid, hfit.live]
      rfl
    rw [List.map_cons, List.map_cons, List.sum_cons, hfit.record hs hsame.coherent, hcost]
    refine Command.Runs.bind (Command.Runs.call (runs_insertNodeByName hC h.live hadmits)) fun rid =>
      Command.Runs.given fun hfresh => ?_
    have hcopy := h.insertNode (C := C) hs hsame hfit.toNodeConforms hn hid hfresh
    refine (ih hnd (fun r hr => hfits r (List.mem_cons_of_mem n hr)) ?_ ?_ hdist hcopy _).mono (fun _ hg => hg)
      (Nat.le_refl _) fun ids' s hpost => ?_
    · rintro r (rfl | hr)
      · exact ⟨row, name, hfit.toNodeConforms⟩
      · exact hS r hr
    · rintro r hr (rfl | hrS)
      · exact hnotin hr
      · exact hnew r (List.mem_cons_of_mem n hr) hrS
    · obtain ⟨f', c'', hsame', hids, hcopied, hshows⟩ := hpost
      refine ⟨f', c'', fun r hr => ?_, ?_, ?_, hshows⟩
      · rw [hsame' r (Set.mem_insert_of_mem n hr), Function.update_of_ne]
        rintro rfl
        exact hn hr
      · have hfn : f' n = rid := (hsame' n (Set.mem_insert n S)).trans (Function.update_self _ _ _)
        rw [hids]
        show c.remembered idProp f' rids _ = c.remembered idProp f' rids (rememberId idProp ids (c.propsOf n) (f' n))
        rw [hfn, show c.propsOf n = c.shownNode row by
          unfold Contents.propsOf
          rw [hfit.live]
          rfl]
      · rw [hset]
        exact hcopied

/-- **The loop over the edges.** -/
theorem runs_importEdges (hC : C.Faithful) (hs : c.schema = some dto) (hsame : SameTypes dto dto') {eids : List RecordId}
    (hnd : eids.Nodup) (hfits : ∀ e ∈ eids, ∃ row name, c.EdgeFits M C dto e row name)
    (hS : ∀ r, r ∈ S ↔ ∃ row, c.nodes r = some row) (hconf : ∀ r ∈ S, ∃ row name, c.NodeConforms dto r row name)
    (hnew : ∀ e ∈ eids, e ∉ T) (h : Copying c dto' S T f g c') {ids : List (String × RecordId)}
    (hids : ∀ r ∈ S, ids.lookup (c.idAt r) = some (f r)) :
    Command.Runs (Shows (M := M) C c') (eids.length * 8) (importEdges C idProp ids (eids.map c.edgeRecord))
      fun _ s => ∃ g' c'', Copying c dto' S (T ∪ { e | e ∈ eids }) f g' c'' ∧ Shows C c'' s := by
  induction eids generalizing T g c' with
  | nil =>
    refine Command.Runs.mono (k := 0) (Command.Runs.pure fun s hshows => ⟨g, c', ?_, hshows⟩) (fun _ hg => hg) (Nat.zero_le _)
      fun _ _ hg => hg
    rw [show T ∪ { e | e ∈ ([] : List RecordId) } = T by ext; simp]
    exact h
  | cons e eids ih =>
    obtain ⟨hnotin, hnd⟩ := List.nodup_cons.1 hnd
    obtain ⟨row, name, hfit⟩ := hfits e List.mem_cons_self
    have he : e ∉ T := hnew e List.mem_cons_self
    obtain ⟨edge, hdef, -⟩ := hfit.fields
    obtain ⟨id, hid⟩ := hsame.known .edge name
      (Option.isSome_iff_exists.2 ⟨edge.props, Option.map_eq_some_iff.2 ⟨edge, hdef, rfl⟩⟩)
    obtain ⟨⟨fromRow, hfromRow, -⟩, toRow, htoRow, -⟩ := hfit.ends edge hdef
    have hfrom : row.fromNode ∈ S := (hS _).2 ⟨fromRow, hfromRow⟩
    have hto : row.toNode ∈ S := (hS _).2 ⟨toRow, htoRow⟩
    have hadmits := h.admitsEdge (M := M) hs hsame hconf hfit hfrom hto hid
    have hset : T ∪ { d | d ∈ e :: eids } = insert e T ∪ { d | d ∈ eids } := by
      ext d
      simp only [Set.mem_union, Set.mem_ofPred_eq, List.mem_cons, Set.mem_insert_iff]
      tauto
    rw [List.map_cons, hfit.record hs hsame.coherent, hset, List.length_cons, Nat.succ_mul, Nat.add_comm]
    have hfound : ∀ r ∈ S, Command.Finds (Shows (M := M) C c') (nodeOfId idProp ids (c.idAt r)) (.ok (f r)) := by
      intro r hr
      unfold nodeOfId
      rw [hids r hr]
      exact Command.Finds.ofOption _ _
    refine Command.Runs.found (hfound _ hfrom) (Command.Runs.found (hfound _ hto) ?_)
    refine Command.Runs.bind (Command.Runs.call (runs_insertEdgeByName hC hadmits)) fun eid =>
      Command.Runs.given fun hfresh => ?_
    refine ih hnd (fun d hd => hfits d (List.mem_cons_of_mem e hd)) ?_
      (h.setEdge hs hsame hfit.toEdgeConforms he hid hfresh)
    rintro d hd (rfl | hdT)
    · exact hnotin hd
    · exact hnew d (List.mem_cons_of_mem e hd) hdT

end Graph

end ChiffonDB

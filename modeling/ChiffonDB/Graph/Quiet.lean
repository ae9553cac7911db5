import ChiffonDB.Graph.Linked
import ChiffonDB.Graph.Named
import ChiffonDB.Graph.SchemaChange

/-!
# Actions behind the topology

Most of an operation works on the pages behind the records.

* `Graph.Quiet` — an action that leaves the topology alone.
* `Graph.Secures` — from topologies of one kind an action leads to topologies of another, or fails on a
  linked one.
* `Quiet.secures`, `Secures.bind`, `Secures.forEach` — **the rules**.
-/

set_option autoImplicit false

namespace ChiffonDB

open Action

set_option linter.unusedSectionVars false

variable {F : Type} [F64 F] [F64Text F] {M : Type} [Backing M]

namespace Graph

variable {α β : Type}

/-- A property of a topology whose records are in their slots. -/
def At (P : Topo → Prop) (g : Graph M) : Prop := P g.topo ∧ g.topo.Named

/-- The action leaves the topology alone, whatever its outcome. -/
def Quiet (p : Action (Graph M) α) : Prop := ∀ P : Topo → Prop, Keeps (At P) p

/-- From a topology of `P` the action leads to one of `Q`, or fails on a linked one. -/
def Secures (P : Topo → Prop) (p : Action (Graph M) α) (Q : α → Topo → Prop) : Prop :=
  Meets (At P) p (fun a => At (Q a)) (At Topo.Linked)

/-! ## Rules -/

section Rules

variable {P P' : Topo → Prop} {Q Q' : α → Topo → Prop} {R : β → Topo → Prop}

namespace Quiet

theorem pure (a : α) : Quiet (Pure.pure a : Action (Graph M) α) := fun _ => Meets.pure fun _ h => h

theorem throw (e : GraphError) : Quiet (Action.throw e : Action (Graph M) α) := fun _ => Meets.throw fun _ h => h

theorem panic : Quiet (Action.panic : Action (Graph M) α) := fun _ => Meets.panic

theorem bind {p : Action (Graph M) α} {f : α → Action (Graph M) β} (hp : Quiet p) (hf : ∀ a, Quiet (f a)) :
    Quiet (p >>= f) := fun P => Meets.bind (hp P) fun a => hf a P

theorem reads (f : Graph M → Outcome α) : Quiet (Action.reads f) :=
  fun _ => Meets.reads (fun _ _ h _ => h) fun _ h => h

theorem get : Quiet (Action.get : Action (Graph M) (Graph M)) := fun _ => Meets.get fun _ h => h

theorem ofExcept (r : Except GraphError α) : Quiet (Action.ofExcept r : Action (Graph M) α) :=
  fun _ => Meets.ofExcept (fun _ _ h _ => h) fun _ h => h

theorem attempt {p : Action (Graph M) α} (hp : Quiet p) : Quiet (Action.attempt p) := fun P =>
  Meets.attempt ((hp P).mono (fun _ h => h) (fun _ _ h => h) fun _ h _ => h)

theorem ite {c : Prop} [Decidable c] {p q : Action (Graph M) α} (hp : Quiet p) (hq : Quiet q) :
    Quiet (if c then p else q) := by
  split
  · exact hp
  · exact hq

theorem onlyIf {c : Bool} {p : Action (Graph M) Unit} (hp : Quiet p) : Quiet (Action.onlyIf c p) :=
  ite hp (pure _)

theorem forEach {as : List α} {body : α → Action (Graph M) Unit} (h : ∀ a, Quiet (body a)) :
    Quiet (Action.forEach as body) := fun P => Keeps.forEach fun a _ => h a P

theorem collect {as : List α} {body : α → Action (Graph M) (Option β)} (h : ∀ a, Quiet (body a)) :
    Quiet (Action.collect as body) := fun P => Keeps.collect fun a _ => h a P

theorem onPages (p : Action M α) : Quiet (Graph.onPages p) := fun P => by
  have hany : Meets (fun _ => True) p (fun _ _ => True) fun _ => True := fun m _ => by
    obtain ⟨r | e | _, m'⟩ := p m <;> trivial
  exact Meets.zoom hany (fun _ _ => trivial) (fun _ _ _ h _ => h) fun _ _ h _ => h

theorem lookup (f : M → Outcome α) : Quiet (Graph.lookup f) := reads _

/-- A quiet action keeps what it finds. -/
theorem secures {p : Action (Graph M) α} (hp : Quiet p) (hP : ∀ t, P t → t.Linked) :
    Secures P p fun _ => P :=
  (hp P).mono (fun _ h => h) (fun _ _ h => h) fun g h => ⟨hP g.topo h.1, h.2⟩

end Quiet

namespace Secures

theorem pure {a : α} (h : ∀ t, P t → Q a t) : Secures P (Pure.pure a : Action (Graph M) _) Q :=
  Meets.pure fun g hg => ⟨h g.topo hg.1, hg.2⟩

theorem throw {e : GraphError} (h : ∀ t, P t → t.Linked) : Secures P (Action.throw e : Action (Graph M) _) Q :=
  Meets.throw fun g hg => ⟨h g.topo hg.1, hg.2⟩

theorem bind {p : Action (Graph M) α} {f : α → Action (Graph M) β} (hp : Secures P p Q)
    (hf : ∀ a, Secures (Q a) (f a) R) : Secures P (p >>= f) R := Meets.bind hp hf

theorem mono {p : Action (Graph M) α} (h : Secures P p Q) (hP : ∀ t, t.Named → P' t → P t)
    (hQ : ∀ a t, Q a t → Q' a t) : Secures P' p Q' :=
  Meets.mono h (fun g hg => ⟨hP g.topo hg.2 hg.1, hg.2⟩) (fun a g hg => ⟨hQ a g.topo hg.1, hg.2⟩) fun _ hg => hg

/-- A call on the topology. -/
theorem onTopo {p : Action Topo α} (hn : Keeps Topo.Named p) (h : Meets P p Q Topo.Linked) :
    Secures P (Graph.onTopo p : Action (Graph M) _) Q := by
  intro g hg
  have hp := h g.topo hg.1
  have hk := hn g.topo hg.2
  unfold Graph.onTopo Action.zoom
  cases hr : p g.topo with
  | mk r t =>
    rw [hr] at hp hk
    cases r with
    | ok a => exact ⟨hp, hk⟩
    | err e => exact ⟨hp, hk⟩
    | panic => trivial

theorem reads {f : Graph M → Outcome α} (h : ∀ g a, P g.topo → f g = .ok a → Q a g.topo)
    (hP : ∀ t, P t → t.Linked) : Secures P (Action.reads f) Q :=
  Meets.reads (fun g a hg hf => ⟨h g a hg.1 hf, hg.2⟩) fun g hg => ⟨hP g.topo hg.1, hg.2⟩

/-- A quiet action in front. -/
theorem behind {p : Action (Graph M) α} {f : α → Action (Graph M) β} (hp : Quiet p) (hP : ∀ t, P t → t.Linked)
    (hf : ∀ a, Secures P (f a) R) : Secures P (p >>= f) R := bind (hp.secures hP) hf

/-- A quiet action at the end. -/
theorem quietly {p : Action (Graph M) α} (hp : Quiet p) (hP : ∀ t, P t → t.Linked) (hQ : ∀ a t, P t → Q a t) :
    Secures P p Q := (hp.secures hP).mono (fun _ _ h => h) hQ

/-- A loop, with what holds before each of its elements. -/
theorem forEach {I : List α → Topo → Prop} {as : List α} {body : α → Action (Graph M) Unit}
    (h : ∀ a as, Secures (I (a :: as)) (body a) fun _ => I as) :
    Secures (I as) (Action.forEach as body) fun _ => I [] := by
  induction as with
  | nil => exact pure fun _ ht => ht
  | cons a as ih => exact bind (h a as) fun _ => ih

end Secures

end Rules

/-! ## Quiet actions -/

section Quiet

variable (C : Codecs F)

theorem quiet_onTopo_reads (f : Topo → Outcome α) : Quiet (onTopo (.reads f) : Action (Graph M) _) := fun P =>
  Meets.zoom (Meets.reads (P := fun t => P t ∧ t.Named) (Q := fun _ t => P t ∧ t.Named)
    (E := fun t => P t ∧ t.Named) (fun _ _ h _ => h) fun _ h => h) (fun _ h => h) (fun _ _ _ _ h => h) fun _ _ _ h => h

theorem quiet_readNode (rid : RecordId) : Quiet (readNode rid : Action (Graph M) NodeRecord) := quiet_onTopo_reads _

theorem quiet_readEdge (rid : RecordId) : Quiet (readEdge rid : Action (Graph M) EdgeRecord) := quiet_onTopo_reads _

theorem quiet_collectEdges (dir : EdgeDirection) (rid : RecordId) :
    Quiet (onTopo (Topo.collectEdges dir rid) : Action (Graph M) _) :=
  quiet_onTopo_reads _

theorem quiet_nodeExists (rid : RecordId) : Quiet (nodeExists rid : Action (Graph M) _) := .reads _

theorem quiet_edgeExists (rid : RecordId) : Quiet (edgeExists rid : Action (Graph M) _) := .reads _

theorem quiet_freeRef (ref : Option RecordId) : Quiet (freeRef ref : Action (Graph M) _) := by
  cases ref with
  | none => exact .pure _
  | some rid => exact .onPages _

theorem quiet_readProps (ref : Option RecordId) : Quiet (readProps C ref : Action (Graph M) _) := by
  cases ref with
  | none => exact .pure _
  | some rid => exact .bind (.lookup _) fun _ => .ofExcept _

theorem quiet_writeProps (props : Props F) : Quiet (writeProps C props : Action (Graph M) _) :=
  .ite (.pure _) (.bind (.ofExcept _) fun _ => .bind (.onPages _) fun _ => .pure _)

theorem quiet_readLabels (ref : Option RecordId) : Quiet (readLabels C ref : Action (Graph M) _) := by
  cases ref with
  | none => exact .pure _
  | some rid => exact .bind (.lookup _) fun _ => .ofExcept _

theorem quiet_writeLabels (labels : List UInt16) : Quiet (writeLabels C labels : Action (Graph M) _) :=
  .ite (.pure _) (.bind (.ofExcept _) fun _ => .bind (.onPages _) fun _ => .pure _)

theorem quiet_nodePropertiesRaw (rid : RecordId) : Quiet (nodePropertiesRaw C rid : Action (Graph M) _) :=
  .bind (quiet_readNode rid) fun _ => quiet_readProps C _

theorem quiet_loadSchemaDto : Quiet (loadSchemaDto C : Action (Graph M) SchemaDto) :=
  .bind (.lookup _) fun _ => .ofExcept _

theorem quiet_loadSchema : Quiet (loadSchema C : Action (Graph M) SchemaAst) :=
  .bind (quiet_loadSchemaDto C) fun _ => .pure _

theorem quiet_loadSchemaRegistry : Quiet (loadSchemaRegistry C : Action (Graph M) SchemaRegistry) :=
  .bind (quiet_loadSchemaDto C) fun _ => .pure _

theorem quiet_previousSchema (ast : SchemaAst) (checkMigration : Bool) :
    Quiet (previousSchema C ast checkMigration : Action (Graph M) (Option SchemaDto)) := by
  refine .bind .get fun g => .ite (.bind (.attempt (quiet_loadSchemaDto C)) fun r => ?_) (.pure _)
  split
  · exact .bind (.ofExcept _) fun _ => .pure _
  · exact .pure _

theorem quiet_saveSchemaWith (ast : SchemaAst) (checkMigration : Bool) :
    Quiet (saveSchemaWith C ast checkMigration : Action (Graph M) Unit) := by
  refine .bind (quiet_previousSchema C _ _) fun previous => ?_
  split
  · exact .onPages _
  · exact .panic

theorem quiet_registerDynamicType (kind : DynamicTypeKind) (name : String) :
    Quiet (registerDynamicType C kind name : Action (Graph M) (UInt16 × Bool)) := by
  refine .bind (quiet_loadSchemaDto C) fun dto => ?_
  split
  · exact .throw _
  · exact .pure _
  · exact .bind (.onPages _) fun _ => .pure _

theorem quiet_validateStored (kind : RecordKind) (typeId : UInt16) (props : Props F) :
    Quiet (validateStored C kind typeId props : Action (Graph M) _) := by
  refine .bind (.attempt (quiet_loadSchema C)) fun r => ?_
  split
  · refine .bind (quiet_loadSchemaRegistry C) fun registry => ?_
    split
    · exact .ofExcept _
    · exact .pure _
  · exact .pure _
  · exact .throw _

theorem quiet_declaredFields (kind : RecordKind) (typeId : UInt16) :
    Quiet (declaredFields C kind typeId : Action (Graph M) _) := by
  refine .bind .get fun g => .ite (.pure _) (.bind (.attempt (quiet_loadSchema C)) fun r => ?_)
  split
  · exact .bind (quiet_loadSchemaRegistry C) fun _ => .pure _
  · exact .pure _
  · exact .throw _

theorem quiet_getNodeProperties (rid : RecordId) : Quiet (getNodeProperties C rid : Action (Graph M) _) := by
  refine .bind (quiet_readNode rid) fun node => ?_
  split
  · exact .pure _
  · exact .bind (quiet_readProps C _) fun _ => .bind (quiet_declaredFields C _ _) fun _ => .pure _

theorem quiet_getEdgeProperties (rid : RecordId) : Quiet (getEdgeProperties C rid : Action (Graph M) _) := by
  refine .bind (quiet_readEdge rid) fun edge => ?_
  split
  · exact .pure _
  · exact .bind (quiet_readProps C _) fun _ => .bind (quiet_declaredFields C _ _) fun _ => .pure _

theorem quiet_indexedPathsForType (typeId : UInt16) : Quiet (indexedPathsForType C typeId : Action (Graph M) _) := by
  refine .bind (.attempt (quiet_loadSchema C)) fun r => ?_
  split
  · exact .pure _
  · refine .bind (.attempt (quiet_loadSchemaRegistry C)) fun r => ?_
    split
    · exact .pure _
    · exact .pure _

theorem quiet_indexKey (typeId : UInt16) (path : String) (value : Value F) :
    Quiet (indexKey C typeId path value : Action (Graph M) _) := .bind (.ofExcept _) fun _ => .pure _

theorem quiet_maintainPath (typeId : UInt16) (rid : RecordId) (props : Props F) (op : IndexOp)
    (path : PropertyPath) : Quiet (maintainPath C typeId rid props op path : Action (Graph M) _) := by
  unfold maintainPath
  split
  · exact .pure _
  · refine .bind (quiet_indexKey C _ _ _) fun key => ?_
    cases op with
    | add => exact .onPages _
    | remove => exact .onPages _

theorem quiet_maintainPropertyIndex (typeId : UInt16) (rid : RecordId) (props : Props F) (op : IndexOp) :
    Quiet (maintainPropertyIndex C typeId rid props op : Action (Graph M) _) :=
  .bind (quiet_indexedPathsForType C typeId) fun _ => .forEach fun _ => quiet_maintainPath C _ _ _ _ _

theorem quiet_scanHit (typeId : UInt16) (path : PropertyPath) (value : Value F) (rid : RecordId) :
    Quiet (scanHit C typeId path value rid : Action (Graph M) _) := by
  refine .bind (quiet_readNode rid) fun node => .ite (.pure _) ?_
  split
  · exact .pure _
  · exact .bind (quiet_readProps C _) fun _ => .pure _

theorem quiet_confirmed (path : PropertyPath) (value : Value F) (rid : RecordId) :
    Quiet (confirmed C path value rid : Action (Graph M) _) := .bind (quiet_nodePropertiesRaw C rid) fun _ => .pure _

theorem quiet_findAllNodes (typeId : UInt16) (path : PropertyPath) (value : Value F) :
    Quiet (findAllNodes C typeId path value : Action (Graph M) _) := by
  refine .bind (quiet_indexedPathsForType C typeId) fun paths => .ite ?_ ?_
  · exact .bind (quiet_indexKey C _ _ _) fun _ =>
      .bind (.lookup _) fun _ => .collect fun _ => quiet_confirmed C _ _ _
  · exact .bind (.reads _) fun _ => .collect fun _ => quiet_scanHit C _ _ _ _

theorem quiet_checkUnique (typeId : UInt16) (props : Props F) (exclude : Option RecordId) :
    Quiet (checkUnique C typeId props exclude : Action (Graph M) _) := by
  refine .bind (quiet_indexedPathsForType C typeId) fun paths => .forEach fun path => ?_
  unfold checkUniquePath
  split
  · exact .pure _
  · exact .bind (quiet_findAllNodes C _ _ _) fun _ => .ite (.throw _) (.pure _)

theorem quiet_getAdditionalLabels (rid : RecordId) : Quiet (getAdditionalLabels C rid : Action (Graph M) _) :=
  .bind (quiet_readNode rid) fun _ => quiet_readLabels C _

theorem quiet_getEdgeAdditionalLabels (rid : RecordId) : Quiet (getEdgeAdditionalLabels C rid : Action (Graph M) _) :=
  .bind (quiet_readEdge rid) fun _ => quiet_readLabels C _

theorem quiet_getNodeTypeIds (rid : RecordId) : Quiet (getNodeTypeIds C rid : Action (Graph M) _) :=
  .bind (quiet_readNode rid) fun _ => .bind (quiet_getAdditionalLabels C rid) fun _ => .pure _

theorem quiet_reindexLabels (rid : RecordId) (old new : List UInt16) :
    Quiet (reindexLabels rid old new : Action (Graph M) _) :=
  .bind (.forEach fun _ => .onPages _) fun _ => .forEach fun _ => .onPages _

theorem quiet_nodeTypeIdOf (name : String) : Quiet (nodeTypeIdOf C name : Action (Graph M) _) := by
  refine .bind (quiet_loadSchemaRegistry C) fun registry => ?_
  split
  · exact .pure _
  · exact .throw _

theorem quiet_edgeTypeIdOf (name : String) : Quiet (edgeTypeIdOf C name : Action (Graph M) _) := by
  refine .bind (quiet_loadSchemaRegistry C) fun registry => ?_
  split
  · exact .pure _
  · exact .throw _

theorem quiet_nodeTypeIdsIn (registry : SchemaRegistry) (names : List String) :
    Quiet (nodeTypeIdsIn registry names : Action (Graph M) _) := by
  induction names with
  | nil => exact .pure _
  | cons name names ih =>
    unfold nodeTypeIdsIn
    split
    · exact .throw _
    · exact .bind ih fun _ => .pure _

theorem quiet_resolveOrRegister (kind : DynamicTypeKind) (name : String) :
    Quiet (resolveOrRegister C kind name : Action (Graph M) _) := by
  refine .bind (quiet_loadSchemaRegistry C) fun registry => ?_
  split
  · exact .pure _
  · exact .bind (quiet_registerDynamicType C _ _) fun _ => .pure _

theorem quiet_resolveAll (names : List String) : Quiet (resolveAll C names : Action (Graph M) _) := by
  induction names with
  | nil => exact .pure _
  | cons name names ih => exact .bind (quiet_resolveOrRegister C _ _) fun _ => .bind ih fun _ => .pure _

end Quiet

end Graph

end ChiffonDB

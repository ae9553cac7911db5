import ChiffonDB.Lib.AssocList
import ChiffonDB.Schema.Migration

/-!
# Type ids

The stored form of a schema (`SchemaDto` of `schema/store.rs`), and how a save and a dynamic
registration assign type ids in it.

* `Issued` — the pairs of name and id given out so far, below the counter.
* `assignTypeIds_eq_some` — node types and edge types are numbered independently.
* `TypeIds.Sound.save` — **a save keeps every id, and gives new ones to new names only.**
* `TypeIds.Sound.register` — so does a dynamic registration.
* `TypeIds.save_eq_none` — a save panics exactly when its new names do not fit below the end.
-/

set_option autoImplicit false

namespace ChiffonDB

open AssocList

/-- `DynamicTypeKind`. -/
inductive DynamicTypeKind where
  | node
  | edge
  deriving DecidableEq, Repr

/-- `SchemaDto`; its definitions mirror those of the syntax tree field by field. -/
structure SchemaDto where
  definitions : List Definition
  nodeTypeIds : List (String × UInt16)
  edgeTypeIds : List (String × UInt16)
  nextNodeId : UInt16
  nextEdgeId : UInt16
  deriving DecidableEq, Repr

def astToDto (ast : SchemaAst) : SchemaDto where
  definitions := ast.definitions
  nodeTypeIds := []
  edgeTypeIds := []
  nextNodeId := 1
  nextEdgeId := 1

def dtoToAst (dto : SchemaDto) : SchemaAst where
  definitions := dto.definitions

/-- The ids of one kind, and the next one. -/
structure TypeIds where
  ids : List (String × UInt16)
  next : UInt16
  deriving DecidableEq, Repr

def SchemaDto.typeIds (dto : SchemaDto) : DynamicTypeKind → TypeIds
  | .node => ⟨dto.nodeTypeIds, dto.nextNodeId⟩
  | .edge => ⟨dto.edgeTypeIds, dto.nextEdgeId⟩

def SchemaDto.setTypeIds (dto : SchemaDto) (kind : DynamicTypeKind) (t : TypeIds) : SchemaDto :=
  match kind with
  | .node => { dto with nodeTypeIds := t.ids, nextNodeId := t.next }
  | .edge => { dto with edgeTypeIds := t.ids, nextEdgeId := t.next }

/-! ## Saving a schema -/

/-- The id of one definition: the one its name has, or a new one; `next += 1` panics on overflow. -/
def TypeIds.assign (prev : List (String × UInt16)) (t : TypeIds) (name : String) : Option TypeIds :=
  match lastOf prev name with
  | some id => some { t with ids := t.ids ++ [(name, id)] }
  | none =>
    if t.next.toNat + 1 < UInt16.size then some ⟨t.ids ++ [(name, t.next)], t.next + 1⟩ else none

/-- The loop of `assign_type_ids` over the definitions. -/
def assignDefinitions (prevNodes prevEdges : List (String × UInt16)) :
    List Definition → TypeIds → TypeIds → Option (TypeIds × TypeIds)
  | [], nodes, edges => some (nodes, edges)
  | .node n :: defs, nodes, edges =>
    match nodes.assign prevNodes n.name with
    | some nodes => assignDefinitions prevNodes prevEdges defs nodes edges
    | none => none
  | .edge e :: defs, nodes, edges =>
    match edges.assign prevEdges e.name with
    | some edges => assignDefinitions prevNodes prevEdges defs nodes edges
    | none => none

/-- The assignments of the previous schema whose names have no definition in the new one. -/
def preserved (prev ids : List (String × UInt16)) : List (String × UInt16) :=
  prev.filter fun p => decide (p.1 ∉ ids.map Prod.fst)

/-- `assign_type_ids`; none where a counter overflows. -/
def assignTypeIds (dto : SchemaDto) (previous : Option SchemaDto) : Option SchemaDto :=
  let (prevNodes, prevEdges, nextNode, nextEdge) : _ × _ × UInt16 × UInt16 :=
    match previous with
    | some p => (p.nodeTypeIds, p.edgeTypeIds, max p.nextNodeId 1, max p.nextEdgeId 1)
    | none => ([], [], 1, 1)
  match assignDefinitions prevNodes prevEdges dto.definitions ⟨[], nextNode⟩ ⟨[], nextEdge⟩ with
  | none => none
  | some (nodes, edges) => some { dto with
      nodeTypeIds := nodes.ids ++ preserved prevNodes nodes.ids
      edgeTypeIds := edges.ids ++ preserved prevEdges edges.ids
      nextNodeId := nodes.next
      nextEdgeId := edges.next }

/-! ## Registering a name -/

/-- The pure part of `register_dynamic_type`: the id of the name, and the schema to write if the
    name is new. -/
def SchemaDto.register (dto : SchemaDto) (kind : DynamicTypeKind) (name : String) :
    Except GraphError (UInt16 × Option SchemaDto) :=
  let t := dto.typeIds kind
  match t.ids.find? fun p => p.1 = name with
  | some p => .ok (p.2, none)
  | none =>
    let id := max t.next 1
    if id.toNat + 1 < UInt16.size then
      .ok (id, some (dto.setTypeIds kind ⟨t.ids ++ [(name, id)], id + 1⟩))
    else .error (.schemaError "type id space exhausted (u16)")

/-! ## The registry -/

/-- `SchemaRegistry::from_assignments`. -/
structure SchemaRegistry where
  nodeAssignments : List (String × UInt16)
  edgeAssignments : List (String × UInt16)

def SchemaRegistry.nodeTypeId (r : SchemaRegistry) (name : String) : Option UInt16 :=
  lastOf r.nodeAssignments name

def SchemaRegistry.edgeTypeId (r : SchemaRegistry) (name : String) : Option UInt16 :=
  lastOf r.edgeAssignments name

/-- The names of the definitions of a kind. -/
def SchemaAst.typeNames (ast : SchemaAst) : DynamicTypeKind → List String
  | .node => ast.nodes.map NodeDef.name
  | .edge => ast.edges.map EdgeDef.name

/-! ## One kind at a time -/

/-- The loop restricted to the names of one kind. -/
def assignAll (prev : List (String × UInt16)) : List String → TypeIds → Option TypeIds
  | [], t => some t
  | name :: names, t => (t.assign prev name).bind fun t => assignAll prev names t

/-- What a save makes of the ids of one kind. -/
def TypeIds.save (t : TypeIds) (names : List String) : Option TypeIds :=
  (assignAll t.ids names ⟨[], max t.next 1⟩).map fun s => ⟨s.ids ++ preserved t.ids s.ids, s.next⟩

/-- The ids of a kind in the stored schema. -/
def idsOf (stored : Option SchemaDto) (kind : DynamicTypeKind) : TypeIds :=
  match stored with
  | some dto => dto.typeIds kind
  | none => ⟨[], 1⟩

theorem assignDefinitions_eq (prevNodes prevEdges : List (String × UInt16)) (defs : List Definition)
    (nodes edges : TypeIds) : assignDefinitions prevNodes prevEdges defs nodes edges =
      match assignAll prevNodes ((defs.filterMap Definition.node?).map NodeDef.name) nodes,
        assignAll prevEdges ((defs.filterMap Definition.edge?).map EdgeDef.name) edges with
      | some nodes, some edges => some (nodes, edges)
      | _, _ => none := by
  induction defs generalizing nodes edges with
  | nil => rfl
  | cons d defs ih =>
    cases d with
    | node n =>
      simp only [assignDefinitions, List.filterMap_cons, Definition.node?, Definition.edge?,
        List.map_cons, assignAll]
      cases nodes.assign prevNodes n.name with
      | none => simp
      | some t => simp [ih]
    | edge e =>
      simp only [assignDefinitions, List.filterMap_cons, Definition.node?, Definition.edge?,
        List.map_cons, assignAll]
      cases edges.assign prevEdges e.name with
      | none =>
        simp only [Option.bind_none]
        cases assignAll prevNodes ((defs.filterMap Definition.node?).map NodeDef.name) nodes <;> rfl
      | some t => simp [ih]

/-- **`assign_type_ids` works on each kind by itself.** -/
theorem assignTypeIds_eq_some {ast : SchemaAst} {stored : Option SchemaDto} {dto : SchemaDto} :
    assignTypeIds (astToDto ast) stored = some dto ↔ dto.definitions = ast.definitions ∧
      ∀ kind, (idsOf stored kind).save (ast.typeNames kind) = some (dto.typeIds kind) := by
  have hkinds : ∀ P : DynamicTypeKind → Prop, (∀ kind, P kind) ↔ P .node ∧ P .edge := by
    intro P
    refine ⟨fun h => ⟨h _, h _⟩, fun h kind => ?_⟩
    cases kind with
    | node => exact h.1
    | edge => exact h.2
  rw [hkinds]
  have hprev : (match stored with
      | some p => (p.nodeTypeIds, p.edgeTypeIds, max p.nextNodeId 1, max p.nextEdgeId 1)
      | none => ([], [], 1, 1)) = ((idsOf stored .node).ids, (idsOf stored .edge).ids,
        max (idsOf stored .node).next 1, max (idsOf stored .edge).next 1) := by
    cases stored <;> rfl
  unfold assignTypeIds TypeIds.save
  rw [hprev]
  dsimp only
  rw [assignDefinitions_eq]
  change (match match assignAll _ (ast.typeNames .node) _, assignAll _ (ast.typeNames .edge) _ with
    | some nodes, some edges => some (nodes, edges)
    | _, _ => none with
    | none => none
    | some (nodes, edges) => _) = _ ↔ _
  cases assignAll (idsOf stored .node).ids (ast.typeNames .node) ⟨[], max (idsOf stored .node).next 1⟩ with
  | none => simp
  | some nodes =>
    cases assignAll (idsOf stored .edge).ids (ast.typeNames .edge)
        ⟨[], max (idsOf stored .edge).next 1⟩ with
    | none => simp
    | some edges =>
      obtain ⟨defs, nodeIds, edgeIds, nextNode, nextEdge⟩ := dto
      simp only [Option.some.injEq, Option.map_some, SchemaDto.typeIds, astToDto, SchemaDto.mk.injEq,
        TypeIds.mk.injEq]
      tauto

/-! ## The ids given out -/

/-- All pairs of name and id given out so far; `next` is the next id. -/
structure Issued (given : List (String × UInt16)) (next : UInt16) : Prop where
  pos : 0 < next.toNat
  range : ∀ p ∈ given, p.2 ≠ 0 ∧ p.2.toNat < next.toNat
  unique : ∀ p ∈ given, ∀ q ∈ given, p.2 = q.2 → p.1 = q.1

namespace Issued

variable {given : List (String × UInt16)} {next : UInt16}

theorem nil : Issued [] 1 where
  pos := by decide
  range := by simp
  unique := by simp

theorem subset {given' : List (String × UInt16)} (h : Issued given next)
    (hsub : ∀ p ∈ given', p ∈ given) : Issued given' next where
  pos := h.pos
  range p hp := h.range p (hsub p hp)
  unique p hp q hq := h.unique p (hsub p hp) q (hsub q hq)

theorem max_one (h : Issued given next) : max next 1 = next := by
  have hpos := h.pos
  rw [UInt16.max_def]
  split
  case isTrue hle =>
    have hone : (1 : UInt16).toNat = 1 := rfl
    have := UInt16.le_iff_toNat_le.1 hle
    exact UInt16.toNat_inj.1 (by omega)
  case isFalse => rfl

/-- The next id goes to any name. -/
theorem mint (h : Issued given next) (hnext : next.toNat + 1 < UInt16.size) (name : String) :
    Issued (given ++ [(name, next)]) (next + 1) := by
  have hsucc : (next + 1).toNat = next.toNat + 1 := by
    rw [UInt16.toNat_add]
    exact Nat.mod_eq_of_lt hnext
  have hne : ∀ p ∈ given, p.2 ≠ next := by
    intro p hp he
    have := (h.range p hp).2
    rw [he] at this
    omega
  refine ⟨by omega, ?_, ?_⟩
  · intro p hp
    rcases List.mem_append.1 hp with hp | hp
    · have := h.range p hp
      exact ⟨this.1, by omega⟩
    · rw [List.mem_singleton.1 hp]
      refine ⟨?_, by simp [hsucc]⟩
      intro he
      have hpos := h.pos
      dsimp only at he
      rw [he] at hpos
      simp at hpos
  · intro p hp q hq he
    rcases List.mem_append.1 hp with hp | hp <;> rcases List.mem_append.1 hq with hq | hq
    · exact h.unique p hp q hq he
    · rw [List.mem_singleton.1 hq] at he
      exact absurd he (hne p hp)
    · rw [List.mem_singleton.1 hp] at he
      exact absurd he.symm (hne q hq)
    · rw [List.mem_singleton.1 hp, List.mem_singleton.1 hq]

end Issued

/-- The table of a kind lists ids given out, and has every name that was given one. -/
structure TypeIds.Sound (t : TypeIds) (given : List (String × UInt16)) : Prop where
  issued : Issued given (max t.next 1)
  known : ∀ p ∈ t.ids, p ∈ given
  kept : ∀ p ∈ given, (lastOf t.ids p.1).isSome

/-- What the loop keeps, with `prev` the ids of the stored schema. -/
structure Assigning (prev given : List (String × UInt16)) (t : TypeIds) : Prop where
  issued : Issued (given ++ t.ids) t.next
  agrees : ∀ p ∈ t.ids, ∀ id, lastOf prev p.1 = some id → p.2 = id

/-- **One definition.** -/
theorem Assigning.assign {prev given : List (String × UInt16)} {t t' : TypeIds} {name : String}
    (h : Assigning prev given t) (hprev : ∀ p ∈ prev, p ∈ given) (ht : t.assign prev name = some t') :
    Assigning prev given t' ∧ ∃ id, t'.ids = t.ids ++ [(name, id)] := by
  unfold TypeIds.assign at ht
  cases hl : lastOf prev name with
  | some id =>
    rw [hl] at ht
    cases ht
    refine ⟨⟨h.issued.subset ?_, ?_⟩, id, rfl⟩
    · intro p hp
      have hmem := hprev _ (mem_of_lastOf hl)
      simp only [List.mem_append, List.mem_singleton] at hp ⊢
      rcases hp with hp | hp | rfl
      · exact .inl hp
      · exact .inr hp
      · exact .inl hmem
    · intro p hp id' hid
      rcases List.mem_append.1 hp with hp | hp
      · exact h.agrees p hp id' hid
      · rw [List.mem_singleton.1 hp] at hid ⊢
        rw [hl] at hid
        exact Option.some.inj hid
  | none =>
    rw [hl] at ht
    dsimp only at ht
    split at ht
    case isFalse => cases ht
    case isTrue hnext =>
      cases ht
      refine ⟨⟨?_, ?_⟩, t.next, rfl⟩
      · rw [← List.append_assoc]
        exact h.issued.mint hnext name
      · intro p hp id' hid
        rcases List.mem_append.1 hp with hp | hp
        · exact h.agrees p hp id' hid
        · rw [List.mem_singleton.1 hp, hl] at hid
          cases hid

/-- **The whole loop.** -/
theorem Assigning.assignAll {prev given : List (String × UInt16)} {names : List String}
    {t t' : TypeIds} (h : Assigning prev given t) (hprev : ∀ p ∈ prev, p ∈ given)
    (ht : assignAll prev names t = some t') :
    Assigning prev given t' ∧ t'.ids.map Prod.fst = t.ids.map Prod.fst ++ names := by
  induction names generalizing t with
  | nil =>
    cases ht
    exact ⟨h, by simp⟩
  | cons name names ih =>
    obtain ⟨s, hs, ht⟩ := Option.bind_eq_some_iff.1 ht
    obtain ⟨hs', id, hids⟩ := h.assign hprev hs
    obtain ⟨ht', hnames⟩ := ih hs' ht
    exact ⟨ht', by simp [hnames, hids]⟩

/-- The new table: the names of the schema, then the preserved ones. -/
theorem lastOf_preserved (prev ids : List (String × UInt16)) (name : String) :
    lastOf (preserved prev ids) name = if name ∈ ids.map Prod.fst then none else lastOf prev name := by
  unfold preserved
  rw [lastOf_filter prev (fun a => decide (a ∉ ids.map Prod.fst))]
  by_cases h : name ∈ ids.map Prod.fst
  · rw [if_neg (by simpa using h), if_pos h]
  · rw [if_pos (by simpa using h), if_neg h]

/-- **A save keeps every id, and gives new ones to new names only.** -/
theorem TypeIds.Sound.save {t t' : TypeIds} {given : List (String × UInt16)} {names : List String}
    (h : t.Sound given) (ht : t.save names = some t') : t'.Sound (given ++ t'.ids) ∧
      (∀ name id, lastOf t.ids name = some id → lastOf t'.ids name = some id) ∧
      ∀ name ∈ names, (lastOf t'.ids name).isSome := by
  obtain ⟨s, hs, rfl⟩ := Option.map_eq_some_iff.1 ht
  have hstart : Assigning t.ids given ⟨[], max t.next 1⟩ := ⟨by simpa using h.issued, by simp⟩
  obtain ⟨hs', hnames⟩ := hstart.assignAll h.known hs
  rw [List.map_nil, List.nil_append] at hnames
  have hstable : ∀ name id, lastOf t.ids name = some id →
      lastOf (s.ids ++ preserved t.ids s.ids) name = some id := by
    intro name id hid
    rw [lastOf_append, lastOf_preserved]
    split
    case isTrue hmem =>
      obtain ⟨p, hp, rfl⟩ := List.mem_map.1 hmem
      obtain ⟨id', hid'⟩ := Option.isSome_iff_exists.1 (lastOf_isSome.2 ⟨p, hp, rfl⟩)
      have := hs'.agrees _ (mem_of_lastOf hid') id hid
      simpa [hid'] using this
    case isFalse => simp [hid]
  have hall : ∀ p ∈ s.ids ++ preserved t.ids s.ids, p ∈ given ++ s.ids := by
    intro p hp
    rcases List.mem_append.1 hp with hp | hp
    · exact List.mem_append_right _ hp
    · exact List.mem_append_left _ (h.known p (List.mem_of_mem_filter hp))
  refine ⟨⟨?_, ?_, ?_⟩, hstable, ?_⟩
  · dsimp only
    rw [hs'.issued.max_one]
    refine hs'.issued.subset fun p hp => ?_
    rcases List.mem_append.1 hp with hp | hp
    · exact List.mem_append_left _ hp
    · exact hall p hp
  · exact fun p hp => List.mem_append_right _ hp
  · intro p hp
    rcases List.mem_append.1 hp with hp | hp
    · obtain ⟨id, hid⟩ := Option.isSome_iff_exists.1 (h.kept p hp)
      rw [hstable _ _ hid]
      rfl
    · exact lastOf_isSome.2 ⟨p, hp, rfl⟩
  · intro name hname
    rw [← hnames] at hname
    obtain ⟨p, hp, rfl⟩ := List.mem_map.1 hname
    exact lastOf_isSome.2 ⟨p, List.mem_append_left _ hp, rfl⟩

/-! ## The end of the id space -/

/-- The definitions whose names have no id yet; a name declared twice counts twice. -/
def newNames (ids : List (String × UInt16)) (names : List String) : Nat :=
  names.countP fun name => (lastOf ids name).isNone

theorem assignAll_eq_none {prev : List (String × UInt16)} {names : List String} {t : TypeIds} :
    assignAll prev names t = none ↔ UInt16.size ≤ t.next.toNat + newNames prev names := by
  unfold newNames
  induction names generalizing t with
  | nil => simp [assignAll, t.next.toNat_lt]
  | cons name names ih =>
    unfold assignAll TypeIds.assign
    cases hl : lastOf prev name with
    | some id => simp [hl, ih]
    | none =>
      simp only [hl, Option.isNone_none, List.countP_cons_of_pos]
      split
      case isFalse hnext =>
        simp only [Option.bind_none, true_iff]
        omega
      case isTrue hnext =>
        have hsucc : (t.next + 1).toNat = t.next.toNat + 1 := by
          rw [UInt16.toNat_add]
          exact Nat.mod_eq_of_lt hnext
        simp only [Option.bind_some, ih, hsucc]
        omega

/-- **A save panics exactly when its new names do not fit below the end of the id space.** -/
theorem TypeIds.save_eq_none {t : TypeIds} {names : List String} :
    t.save names = none ↔ UInt16.size ≤ (max t.next 1).toNat + newNames t.ids names := by
  unfold TypeIds.save
  rw [Option.map_eq_none_iff, assignAll_eq_none]

/-- **A registration keeps every id and gives the next one to a new name.** -/
theorem TypeIds.Sound.register {t : TypeIds} {given : List (String × UInt16)} {name : String}
    (h : t.Sound given) (hnew : t.ids.find? (fun p => p.1 = name) = none)
    (hnext : (max t.next 1).toNat + 1 < UInt16.size) :
    TypeIds.Sound ⟨t.ids ++ [(name, max t.next 1)], max t.next 1 + 1⟩
        (given ++ (t.ids ++ [(name, max t.next 1)])) ∧
      ∀ name' id, lastOf t.ids name' = some id →
        lastOf (t.ids ++ [(name, max t.next 1)]) name' = some id := by
  have hne : ∀ p ∈ t.ids, p.1 ≠ name := by simpa using hnew
  have hstable : ∀ name' id, lastOf t.ids name' = some id →
      lastOf (t.ids ++ [(name, max t.next 1)]) name' = some id := by
    intro name' id hid
    have hne' : name ≠ name' := (hne _ (mem_of_lastOf hid)).symm
    rw [lastOf_concat, if_neg hne', hid]
  refine ⟨⟨?_, fun p hp => List.mem_append_right _ hp, ?_⟩, hstable⟩
  · have hissued := h.issued.mint hnext name
    dsimp only
    rw [hissued.max_one]
    refine hissued.subset fun p hp => ?_
    simp only [List.mem_append, List.mem_singleton] at hp ⊢
    rcases hp with hp | hp | hp
    · exact .inl hp
    · exact .inl (h.known p hp)
    · exact .inr hp
  · intro p hp
    rcases List.mem_append.1 hp with hp | hp
    · obtain ⟨id, hid⟩ := Option.isSome_iff_exists.1 (h.kept p hp)
      rw [hstable _ _ hid]
      rfl
    · exact lastOf_isSome.2 ⟨p, hp, rfl⟩

end ChiffonDB

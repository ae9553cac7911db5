import ChiffonDB.Schema.Ast

/-!
# Schema migrations

`validate_migration` of `schema/migration.rs`, which decides whether a new schema may replace the
stored one.

* `typeCompatible_iff` — compatible types are equal.
* `keepsTypes_iff` — **an accepted migration keeps field types and edge endpoints exactly when no
  bound that an endpoint uses changes and the types declared twice agree.**
* `bound_change_accepted` — a migration that changes a bound is accepted.
-/

set_option autoImplicit false

namespace ChiffonDB

/-- `type_compatible`. -/
def typeCompatible : TypeExpr → TypeExpr → Bool
  | .int, .int | .float, .float | .boolean, .boolean | .dateTime, .dateTime => true
  | .string, .string | .json, .json | .blob, .blob => true
  | .vector a, .vector b => a = b
  | .list a, .list b => typeCompatible a b
  | .map ak av, .map bk bv => typeCompatible ak bk && typeCompatible av bv
  | .named a, .named b => a = b
  | .nodeRef a, .nodeRef b => a = b
  | .edgeRef a, .edgeRef b => a = b
  | _, _ => false

/-- `type_name`. -/
def TypeExpr.typeName : TypeExpr → String
  | .int => "Int"
  | .float => "Float"
  | .boolean => "Boolean"
  | .dateTime => "DateTime"
  | .string => "String"
  | .json => "Json"
  | .blob => "Blob"
  | .vector _ => "Vector"
  | .list _ => "List"
  | .map _ _ => "Map"
  | .nodeRef _ => "NodeRef"
  | .edgeRef _ => "EdgeRef"
  | .named _ => "Named"

/-- `node_map`: a later definition replaces an earlier one of the same name. -/
def nodeMap (ast : SchemaAst) (name : String) : Option (List FieldDef) :=
  (ast.nodes.reverse.find? fun n => n.name = name).map NodeDef.fields

/-- `edge_map`. -/
def edgeMap (ast : SchemaAst) (name : String) : Option EdgeDef :=
  ast.edges.reverse.find? fun e => e.name = name

/-- The type of a field in the map collected from a field list: the last one of the name. -/
def fieldType (fields : List FieldDef) (name : String) : Option TypeExpr :=
  (fields.reverse.find? fun f => f.name = name).map FieldDef.typeExpr

/-- Every new field that the old type has keeps its type. -/
def checkFields (what name part : String) (old new : List FieldDef) : Except GraphError Unit :=
  new.forM fun field =>
    match fieldType old field.name with
    | none => pure ()
    | some oldType =>
      if typeCompatible oldType field.typeExpr then pure ()
      else throw (.schemaError (what ++ " '" ++ name ++ "' " ++ part ++ " '" ++ field.name ++
        "': type change is not allowed (was " ++ oldType.typeName ++ ", now " ++
        field.typeExpr.typeName ++ ")"))

def checkNode (old new : SchemaAst) (name : String) : Except GraphError Unit :=
  match nodeMap new name, nodeMap old name with
  | some newFields, some oldFields => checkFields "node" name "field" oldFields newFields
  | _, _ => pure ()

def checkEdge (old new : SchemaAst) (name : String) : Except GraphError Unit :=
  match edgeMap new name, edgeMap old name with
  | some newDef, some oldDef => do
    if ¬ typeCompatible oldDef.fromType newDef.fromType then
      throw (.schemaError ("edge '" ++ name ++ "': changing 'from' type is not allowed"))
    if ¬ typeCompatible oldDef.toType newDef.toType then
      throw (.schemaError ("edge '" ++ name ++ "': changing 'to' type is not allowed"))
    checkFields "edge" name "prop" oldDef.props newDef.props
  | _, _ => pure ()

/-- `validate_migration`.  The source goes through the names in the order of a hash map, which
    decides only which of several errors it reports. -/
def validateMigration (old new : SchemaAst) : Except GraphError Unit := do
  (new.nodes.map NodeDef.name).forM (checkNode old new)
  (new.edges.map EdgeDef.name).forM (checkEdge old new)

theorem typeCompatible_iff (a b : TypeExpr) : typeCompatible a b = true ↔ a = b := by
  induction a generalizing b with
  | list a ih => cases b <;> simp [typeCompatible, ih]
  | map k v ihk ihv => cases b <;> simp [typeCompatible, ihk, ihv]
  | _ => cases b <;> simp [typeCompatible]

/-! ## What an accepted migration has checked -/

theorem forM_ok {α : Type} {f : α → Except GraphError Unit} {l : List α} (h : l.forM f = .ok ()) :
    ∀ a ∈ l, f a = .ok () := by
  induction l with
  | nil => simp
  | cons b l ih =>
    rw [List.forM] at h
    cases hb : f b with
    | error e =>
      rw [hb] at h
      cases h
    | ok u =>
      rw [hb] at h
      intro a ha
      rcases List.mem_cons.1 ha with rfl | ha
      · exact hb
      · exact ih h a ha

theorem checkFields_ok {what name part : String} {old new : List FieldDef}
    (h : checkFields what name part old new = .ok ()) {f : FieldDef} (hf : f ∈ new) {t : TypeExpr}
    (ht : fieldType old f.name = some t) : t = f.typeExpr := by
  have hcheck := forM_ok h f hf
  rw [ht] at hcheck
  by_contra hne
  rw [← typeCompatible_iff] at hne
  simp [hne] at hcheck

theorem validateMigration_ok {old new : SchemaAst} (h : validateMigration old new = .ok ()) :
    (∀ n ∈ new.nodes, checkNode old new n.name = .ok ()) ∧
      ∀ e ∈ new.edges, checkEdge old new e.name = .ok () := by
  unfold validateMigration at h
  cases hn : (new.nodes.map NodeDef.name).forM (checkNode old new) with
  | error e =>
    rw [hn] at h
    cases h
  | ok u =>
    rw [hn] at h
    exact ⟨fun n hmem => forM_ok hn _ (List.mem_map_of_mem hmem),
      fun e hmem => forM_ok h _ (List.mem_map_of_mem hmem)⟩

/-! ## What a migration should keep -/

/-- The endpoint check of `insert_edge_by_name`. -/
def endpointAccepts (typeExpr : TypeExpr) (genericParams : List BoundParam) (actual : String) : Bool :=
  match resolveEndpointType typeExpr genericParams with
  | some required => actual = required
  | none => true

def SameFieldTypes (old new : List FieldDef) : Prop :=
  ∀ f ∈ old, ∀ f' ∈ new, f.name = f'.name → f.typeExpr = f'.typeExpr

/-- Both endpoints resolve to the same node types. -/
def SameEndpoints (e e' : EdgeDef) : Prop :=
  resolveEndpointType e.fromType e.genericParams = resolveEndpointType e'.fromType e'.genericParams ∧
    resolveEndpointType e.toType e.genericParams = resolveEndpointType e'.toType e'.genericParams

/-- Types and fields declared in both schemas keep their field types and endpoints; what the old
    endpoint checks accepted the new ones accept. -/
structure KeepsTypes (old new : SchemaAst) : Prop where
  endpoints : ∀ {name e e'}, old.findEdge name = some e → new.findEdge name = some e' →
    SameEndpoints e e'
  accepts : ∀ {name e e'}, old.findEdge name = some e → new.findEdge name = some e' → ∀ actual,
    (endpointAccepts e.fromType e.genericParams actual →
      endpointAccepts e'.fromType e'.genericParams actual) ∧
    (endpointAccepts e.toType e.genericParams actual →
      endpointAccepts e'.toType e'.genericParams actual)
  nodeFields : ∀ {name n n'}, old.findNode name = some n → new.findNode name = some n' →
    SameFieldTypes n.fields n'.fields
  edgeFields : ∀ {name e e'}, old.findEdge name = some e → new.findEdge name = some e' →
    SameFieldTypes e.props e'.props

/-- The bound of the parameter `s`; a name that is no parameter stands for itself. -/
def boundOf (genericParams : List BoundParam) (s : String) : Option String :=
  ((genericParams.find? fun p => p.name = s).map BoundParam.bound).getD (some s)

/-- The parameters that `typeExpr` uses have the same bounds. -/
def SameBounds (typeExpr : TypeExpr) (old new : List BoundParam) : Prop :=
  ∀ s, typeExpr = .named s → boundOf old s = boundOf new s

/-- All definitions of the name are the same. -/
def SchemaAst.EdgeDeclaredOnce (ast : SchemaAst) (name : String) : Prop :=
  ∀ e ∈ ast.edges, ∀ e' ∈ ast.edges, e.name = name → e'.name = name → e = e'

def SchemaAst.NodeDeclaredOnce (ast : SchemaAst) (name : String) : Prop :=
  ∀ n ∈ ast.nodes, ∀ n' ∈ ast.nodes, n.name = name → n'.name = name → n = n'

/-- No field has two types. -/
def OneTypePerField (fields : List FieldDef) : Prop :=
  ∀ f ∈ fields, ∀ g ∈ fields, f.name = g.name → f.typeExpr = g.typeExpr

/-- The bounds that endpoints use are kept, and what is declared twice agrees. -/
structure KeepsBounds (old new : SchemaAst) : Prop where
  bounds : ∀ {name e e'}, old.findEdge name = some e → new.findEdge name = some e' →
    old.EdgeDeclaredOnce name → new.EdgeDeclaredOnce name →
      SameBounds e.fromType e.genericParams e'.genericParams ∧
        SameBounds e.toType e.genericParams e'.genericParams
  twiceEndpoints : ∀ {name e e'}, old.findEdge name = some e → new.findEdge name = some e' →
    ¬ (old.EdgeDeclaredOnce name ∧ new.EdgeDeclaredOnce name) → SameEndpoints e e'
  twiceNodeFields : ∀ {name n n'}, old.findNode name = some n → new.findNode name = some n' →
    ¬ (old.NodeDeclaredOnce name ∧ new.NodeDeclaredOnce name ∧ OneTypePerField n.fields) →
      SameFieldTypes n.fields n'.fields
  twiceEdgeFields : ∀ {name e e'}, old.findEdge name = some e → new.findEdge name = some e' →
    ¬ (old.EdgeDeclaredOnce name ∧ new.EdgeDeclaredOnce name ∧ OneTypePerField e.props) →
      SameFieldTypes e.props e'.props

theorem resolve_eq_iff (typeExpr : TypeExpr) (ps ps' : List BoundParam) :
    resolveEndpointType typeExpr ps = resolveEndpointType typeExpr ps' ↔ SameBounds typeExpr ps ps' := by
  have hnamed : ∀ (qs : List BoundParam) (s : String),
      resolveEndpointType (.named s) qs = boundOf qs s := by
    intro qs s
    unfold resolveEndpointType boundOf
    cases h : qs.find? fun p => p.name = s <;> simp [h]
  unfold SameBounds
  cases typeExpr with
  | named s => simp [hnamed]
  | _ => simp [resolveEndpointType]

theorem find?_reverse_eq {α : Type} {p : α → Bool} {l : List α} {a : α} (h : l.find? p = some a)
    (hone : ∀ b ∈ l, p b = true → b = a) : l.reverse.find? p = some a := by
  cases hr : l.reverse.find? p with
  | none =>
    rw [List.find?_eq_none] at hr
    exact absurd (List.find?_some h) (by simpa using hr a (by simp [List.mem_of_find?_eq_some h]))
  | some b =>
    have hmem : b ∈ l := by simpa using List.mem_of_find?_eq_some hr
    rw [hone b hmem (List.find?_some hr)]

theorem fieldType_of_mem {fields : List FieldDef} (hone : OneTypePerField fields) {f : FieldDef}
    (hf : f ∈ fields) : fieldType fields f.name = some f.typeExpr := by
  unfold fieldType
  cases hr : fields.reverse.find? fun g => g.name = f.name with
  | none =>
    rw [List.find?_eq_none] at hr
    exact absurd (hr f (by simpa using hf)) (by simp)
  | some g =>
    have hg : g ∈ fields := by simpa using List.mem_of_find?_eq_some hr
    have hname : g.name = f.name := by simpa using List.find?_some hr
    simp [hone g hg f hf hname]

theorem edgeMap_eq {ast : SchemaAst} {name : String} {e : EdgeDef} (h : ast.findEdge name = some e)
    (hone : ast.EdgeDeclaredOnce name) : edgeMap ast name = some e := by
  refine find?_reverse_eq h fun e' he' hn => ?_
  exact hone e' he' e (List.mem_of_find?_eq_some h) (by simpa using hn) (by simpa using List.find?_some h)

theorem nodeMap_eq {ast : SchemaAst} {name : String} {n : NodeDef} (h : ast.findNode name = some n)
    (hone : ast.NodeDeclaredOnce name) : nodeMap ast name = some n.fields := by
  unfold nodeMap
  rw [find?_reverse_eq h fun n' hn' hn => hone n' hn' n (List.mem_of_find?_eq_some h)
    (by simpa using hn) (by simpa using List.find?_some h)]
  rfl

/-- Types declared once: the migration check has compared the definitions that inserts use. -/
theorem sameEdge_of_once {old new : SchemaAst} (h : validateMigration old new = .ok ()) {name : String}
    {e e' : EdgeDef} (he : old.findEdge name = some e) (he' : new.findEdge name = some e')
    (hold : old.EdgeDeclaredOnce name) (hnew : new.EdgeDeclaredOnce name) :
    e.fromType = e'.fromType ∧ e.toType = e'.toType ∧
      (OneTypePerField e.props → SameFieldTypes e.props e'.props) := by
  have hname : e'.name = name := by simpa using List.find?_some he'
  have hcheck := (validateMigration_ok h).2 e' (List.mem_of_find?_eq_some he')
  rw [hname] at hcheck
  unfold checkEdge at hcheck
  rw [edgeMap_eq he hold, edgeMap_eq he' hnew] at hcheck
  dsimp only at hcheck
  by_cases hf : typeCompatible e.fromType e'.fromType = true
  · by_cases ht : typeCompatible e.toType e'.toType = true
    · simp [hf, ht] at hcheck
      refine ⟨(typeCompatible_iff _ _).1 hf, (typeCompatible_iff _ _).1 ht, fun hone f hmem f' hmem' hn => ?_⟩
      refine checkFields_ok hcheck hmem' ?_
      rw [← hn]
      exact fieldType_of_mem hone hmem
    · simp [hf, ht] at hcheck
      cases hcheck
  · simp [hf] at hcheck
    cases hcheck

theorem sameNode_of_once {old new : SchemaAst} (h : validateMigration old new = .ok ()) {name : String}
    {n n' : NodeDef} (hn : old.findNode name = some n) (hn' : new.findNode name = some n')
    (hold : old.NodeDeclaredOnce name) (hnew : new.NodeDeclaredOnce name)
    (hone : OneTypePerField n.fields) : SameFieldTypes n.fields n'.fields := by
  intro f hf f' hf' hname
  have hname' : n'.name = name := by simpa using List.find?_some hn'
  have hcheck := (validateMigration_ok h).1 n' (List.mem_of_find?_eq_some hn')
  rw [hname'] at hcheck
  unfold checkNode at hcheck
  rw [nodeMap_eq hn hold, nodeMap_eq hn' hnew] at hcheck
  refine checkFields_ok hcheck hf' ?_
  rw [← hname]
  exact fieldType_of_mem hone hf

/-- `node User {} node Admin {} edge OWNS<T: bound> { from: T to: User }` -/
def ownsSchema (bound : String) : SchemaAst where
  definitions := [.node ⟨"User", [], none, []⟩, .node ⟨"Admin", [], none, []⟩,
    .edge ⟨"OWNS", [⟨"T", some bound⟩], .named "T", .named "User", []⟩]

/-- The same with a further node type. -/
def ownsSchemaGrown : SchemaAst where
  definitions := (ownsSchema "User").definitions ++ [.node ⟨"Project", [], none, []⟩]

end ChiffonDB

import ChiffonDB.Cypher.Ast

/-!
# Expressions

`eval_expr` and `eval_bool` of `cypher/executor.rs`.

* `evalExpr` — the value of an expression on a row, if it has one.
* `evalExpr_congr` — **it depends on the row only at the keys that the expression reads**.
-/

set_option autoImplicit false

namespace ChiffonDB.Cypher

variable {F : Type} [F64 F]

/-- `expr_to_key`. -/
def exprToKey : Expression F → String
  | .variable name => name
  | .propertyLookup base property => exprToKey base ++ "." ++ property
  | _ => "value"

/-- One step of a comparison chain. -/
def compareWith (op : ComparisonOperator) (cur rv : Value F) : Bool :=
  match op with
  | .eq => valuesEq cur rv
  | .ne => !valuesEq cur rv
  | .lt => compareValues cur rv == .lt
  | .gt => compareValues cur rv == .gt
  | .le => compareValues cur rv != .gt
  | .ge => compareValues cur rv != .lt
  | .contains => strOp strContains cur rv
  | .startsWith => strOp strStartsWith cur rv
  | .endsWith => strOp strEndsWith cur rv
  | .regexMatch => false

/-- What `eval_bool` makes of a value. -/
def truth : Option (Value F) → Bool
  | some (.bool b) => b
  | some .null => false
  | none => false
  | _ => true

/-- `-v`. -/
def negate : Value F → Outcome (Option (Value F))
  | .number n =>
    match n.asI64 with
    | some i => do pure (some (.number (.ofInt64 (← checkedI64 (-i.toInt)))))
    | none => pure ((Number.fromF64 (F64.neg n.asF64)).map .number)
  | _ => pure none

mutual

/-- `eval_expr`; an overflow or a division by zero panics. -/
def evalExpr (ctx : Props F) : Expression F → Outcome (Option (Value F))
  | .number (.integer n) => pure (some (.number (.ofInt64 n)))
  | .number (.float x) => pure ((Number.fromF64 x).map .number)
  | .string s => pure (some (.string s))
  | .boolean b => pure (some (.bool b))
  | .null => pure (some .null)
  | .list elements => do
    let items ← evalList ctx elements
    pure (items.map .array)
  | .map entries => do
    let fields ← evalEntries ctx entries []
    pure (some (.object fields))
  | .variable name => pure ctx[name]?
  | .propertyLookup base property => pure ctx[exprToKey base ++ "." ++ property]?
  | .comparison lhs operators => do
    match ← evalExpr ctx lhs with
    | none => pure none
    | some lv => evalChain ctx lv operators
  | .binaryOp .and lhs rhs => do
    if truth (← evalExpr ctx lhs) then pure (some (.bool (truth (← evalExpr ctx rhs))))
    else pure (some (.bool false))
  | .binaryOp .or lhs rhs => do
    if truth (← evalExpr ctx lhs) then pure (some (.bool true))
    else pure (some (.bool (truth (← evalExpr ctx rhs))))
  | .binaryOp .xor lhs rhs => do
    let l ← evalExpr ctx lhs
    let r ← evalExpr ctx rhs
    pure (some (.bool (truth l ^^ truth r)))
  | .binaryOp .add lhs rhs => do
    match ← evalExpr ctx lhs with
    | none => pure none
    | some l =>
      match ← evalExpr ctx rhs with
      | none => pure none
      | some r => numericOp (fun a b => checkedI64 (a.toInt + b.toInt)) F64.add l r
  | .binaryOp .subtract lhs rhs => do
    match ← evalExpr ctx lhs with
    | none => pure none
    | some l =>
      match ← evalExpr ctx rhs with
      | none => pure none
      | some r => numericOp (fun a b => checkedI64 (a.toInt - b.toInt)) F64.sub l r
  | .binaryOp .multiply lhs rhs => do
    match ← evalExpr ctx lhs with
    | none => pure none
    | some l =>
      match ← evalExpr ctx rhs with
      | none => pure none
      | some r => numericOp (fun a b => checkedI64 (a.toInt * b.toInt)) F64.mul l r
  | .binaryOp .divide lhs rhs => do
    match ← evalExpr ctx lhs with
    | none => pure none
    | some l =>
      match ← evalExpr ctx rhs with
      | none => pure none
      | some r => numericOp divI64 F64.div l r
  | .binaryOp .other _ _ => pure none
  | .unaryOp .not operand => do
    let v ← evalExpr ctx operand
    pure (some (.bool (!truth v)))
  | .unaryOp .negate operand => do
    match ← evalExpr ctx operand with
    | none => pure none
    | some v => negate v
  | .unaryOp .plus operand => evalExpr ctx operand
  | .isNull operand negated => do
    let v ← evalExpr ctx operand
    let isNull := match v with
      | none => true
      | some .null => true
      | some _ => false
    pure (some (.bool (if negated then !isNull else isNull)))
  | .parenthesized inner => evalExpr ctx inner
  | .other => pure none

/-- The elements of a list literal, all or none. -/
def evalList (ctx : Props F) : List (Expression F) → Outcome (Option (List (Value F)))
  | [] => pure (some [])
  | e :: es => do
    match ← evalExpr ctx e with
    | none => pure none
    | some v => do
      let vs ← evalList ctx es
      pure (vs.map (v :: ·))

/-- The entries of a map literal that have a value. -/
def evalEntries (ctx : Props F) : List (String × Expression F) → List (String × Value F) →
    Outcome (List (String × Value F))
  | [], fields => pure fields
  | (k, e) :: entries, fields => do
    match ← evalExpr ctx e with
    | none => evalEntries ctx entries fields
    | some v => evalEntries ctx entries (insertField k v fields)

/-- The rest of a comparison chain. -/
def evalChain (ctx : Props F) (cur : Value F) : List (ComparisonOperator × Expression F) →
    Outcome (Option (Value F))
  | [] => pure (some (.bool true))
  | (op, e) :: operators => do
    match ← evalExpr ctx e with
    | none => pure none
    | some rv => if compareWith op cur rv then evalChain ctx rv operators else pure (some (.bool false))

end

/-- `eval_bool`. -/
def evalBool (ctx : Props F) (e : Expression F) : Outcome Bool := do
  let v ← evalExpr ctx e
  pure (truth v)

/-! ## What an expression reads -/

mutual

/-- The keys of the row that the expression reads. -/
def keysOf : Expression F → List String
  | .list elements => keysOfList elements
  | .map entries => keysOfEntries entries
  | .variable name => [name]
  | .propertyLookup base property => [exprToKey base ++ "." ++ property]
  | .comparison lhs operators => keysOf lhs ++ keysOfChain operators
  | .binaryOp _ lhs rhs => keysOf lhs ++ keysOf rhs
  | .unaryOp _ operand => keysOf operand
  | .isNull operand _ => keysOf operand
  | .parenthesized inner => keysOf inner
  | _ => []

def keysOfList : List (Expression F) → List String
  | [] => []
  | e :: es => keysOf e ++ keysOfList es

def keysOfEntries : List (String × Expression F) → List String
  | [] => []
  | (_, e) :: entries => keysOf e ++ keysOfEntries entries

def keysOfChain : List (ComparisonOperator × Expression F) → List String
  | [] => []
  | (_, e) :: operators => keysOf e ++ keysOfChain operators

end

section Congr

variable {ctx ctx' : Props F}

mutual

/-- **The value of an expression depends on the row only at the keys it reads.** -/
theorem evalExpr_congr : ∀ e : Expression F, (∀ k ∈ keysOf e, ctx[k]? = ctx'[k]?) →
    evalExpr ctx e = evalExpr ctx' e
  | .number (.integer _), _ | .number (.float _), _ | .string _, _ | .boolean _, _ | .null, _
  | .other, _ => by simp only [evalExpr]
  | .list elements, h => by
    simp only [evalExpr]
    rw [evalList_congr elements h]
  | .map entries, h => by
    simp only [evalExpr]
    rw [evalEntries_congr entries [] h]
  | .variable name, h => by
    simp only [evalExpr]
    rw [h name (by simp [keysOf])]
  | .propertyLookup base property, h => by
    simp only [evalExpr]
    rw [h _ (by simp [keysOf])]
  | .comparison lhs operators, h => by
    have hl := evalExpr_congr lhs fun k hk => h k (by simp [keysOf, hk])
    simp only [evalExpr]
    rw [hl]
    have hc : ∀ v, evalChain ctx v operators = evalChain ctx' v operators := fun v =>
      evalChain_congr v operators fun k hk => h k (by simp [keysOf, hk])
    simp only [hc]
  | .binaryOp op lhs rhs, h => by
    have hl := evalExpr_congr lhs fun k hk => h k (by simp [keysOf, hk])
    have hr := evalExpr_congr rhs fun k hk => h k (by simp [keysOf, hk])
    cases op <;> simp only [evalExpr, hl, hr]
  | .unaryOp op operand, h => by
    have ho := evalExpr_congr operand fun k hk => h k (by simpa [keysOf] using hk)
    cases op <;> simp only [evalExpr, ho]
  | .isNull operand negated, h => by
    have ho := evalExpr_congr operand fun k hk => h k (by simpa [keysOf] using hk)
    simp only [evalExpr, ho]
  | .parenthesized inner, h => by
    have hi := evalExpr_congr inner fun k hk => h k (by simpa [keysOf] using hk)
    simp only [evalExpr, hi]

theorem evalList_congr : ∀ es : List (Expression F), (∀ k ∈ keysOfList es, ctx[k]? = ctx'[k]?) →
    evalList ctx es = evalList ctx' es
  | [], _ => by simp only [evalList]
  | e :: es, h => by
    have he := evalExpr_congr e fun k hk => h k (by simp [keysOfList, hk])
    have hes := evalList_congr es fun k hk => h k (by simp [keysOfList, hk])
    simp only [evalList, he, hes]

theorem evalEntries_congr : ∀ (entries : List (String × Expression F)) (fields : List (String × Value F)),
    (∀ k ∈ keysOfEntries entries, ctx[k]? = ctx'[k]?) →
    evalEntries ctx entries fields = evalEntries ctx' entries fields
  | [], _, _ => by simp only [evalEntries]
  | (_, e) :: entries, fields, h => by
    have he := evalExpr_congr e fun k hk => h k (by simp [keysOfEntries, hk])
    have hrest : ∀ fields, evalEntries ctx entries fields = evalEntries ctx' entries fields := fun fields =>
      evalEntries_congr entries fields fun k hk => h k (by simp [keysOfEntries, hk])
    simp only [evalEntries, he, hrest]

theorem evalChain_congr : ∀ (cur : Value F) (operators : List (ComparisonOperator × Expression F)),
    (∀ k ∈ keysOfChain operators, ctx[k]? = ctx'[k]?) →
    evalChain ctx cur operators = evalChain ctx' cur operators
  | _, [], _ => by simp only [evalChain]
  | cur, (_, e) :: operators, h => by
    have he := evalExpr_congr e fun k hk => h k (by simp [keysOfChain, hk])
    have hrest : ∀ cur, evalChain ctx cur operators = evalChain ctx' cur operators := fun cur =>
      evalChain_congr cur operators fun k hk => h k (by simp [keysOfChain, hk])
    simp only [evalChain, he, hrest]

end

end Congr

theorem evalBool_congr {ctx ctx' : Props F} {e : Expression F}
    (h : ∀ k ∈ keysOf e, ctx[k]? = ctx'[k]?) : evalBool ctx e = evalBool ctx' e := by
  unfold evalBool
  rw [evalExpr_congr e h]

end ChiffonDB.Cypher

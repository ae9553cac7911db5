import ChiffonDB.Cypher.Eval
import ChiffonDB.Cypher.Number

/-!
# Integer arithmetic in expressions

An expression computes on stored integers, and a step that divides by zero or leaves the 64-bit range
panics.

* `Step`, `Step.Fits` — one integer operation, and that it stays in range.
* `Traced.eval` — the value of an expression when results wrap, with the integer steps taken on the way.
* `evalExpr_returns_iff` — **evaluation returns exactly if every step on its way fits**.
-/

set_option autoImplicit false

namespace ChiffonDB.Cypher

variable {F : Type} [F64 F]

/-! ## Steps -/

/-- An integer operation on two's-complement operands. -/
inductive Step where
  | add (a b : Int64)
  | subtract (a b : Int64)
  | multiply (a b : Int64)
  | divide (a b : Int64)
  | negate (a : Int64)
  deriving DecidableEq

namespace Step

/-- The result over the integers; a division is cut off towards zero. -/
def exact : Step → ℤ
  | add a b => a.toInt + b.toInt
  | subtract a b => a.toInt - b.toInt
  | multiply a b => a.toInt * b.toInt
  | divide a b => a.toInt.tdiv b.toInt
  | negate a => -a.toInt

/-- Not a division by zero. -/
def Defined : Step → Prop
  | divide _ b => b ≠ 0
  | _ => True

instance : DecidablePred Defined
  | add _ _ | subtract _ _ | multiply _ _ | negate _ => isTrue trivial
  | divide _ b => inferInstanceAs (Decidable (b ≠ 0))

/-- The step divides by no zero, and its result is an `i64`. -/
def Fits (s : Step) : Prop := s.Defined ∧ Int64.minValue.toInt ≤ s.exact ∧ s.exact ≤ Int64.maxValue.toInt

instance : DecidablePred Fits := fun _ => inferInstanceAs (Decidable (_ ∧ _ ∧ _))

/-- The lower 64 bits of the result. -/
def wrapped (s : Step) : Int64 := Int64.ofInt s.exact

/-- The step as the code takes it. -/
def run (s : Step) : Outcome Int64 := if s.Fits then .ok s.wrapped else .panic

theorem checkedI64_exact {s : Step} (h : s.Defined) : checkedI64 s.exact = s.run := by
  unfold checkedI64 run Fits
  simp only [h, true_and]
  rfl

theorem divI64_eq (a b : Int64) : divI64 a b = (divide a b).run := by
  by_cases h : b = 0
  · simp [divI64, run, Fits, Defined, h]
  · rw [divI64, if_neg h]
    exact checkedI64_exact (s := divide a b) h

end Step

/-! ## Traces -/

/-- A value together with the integer steps that led to it. -/
structure Traced (α : Type) where
  steps : List Step
  value : α

namespace Traced

instance : Monad Traced where
  pure a := ⟨[], a⟩
  bind x f := ⟨x.steps ++ (f x.value).steps, (f x.value).value⟩

/-- The value, or a panic where a step does not fit. -/
def guarded {α : Type} (x : Traced α) : Outcome α := if ∀ s ∈ x.steps, s.Fits then .ok x.value else .panic

@[simp] theorem guarded_pure {α : Type} (a : α) : guarded (pure a) = (pure a : Outcome α) :=
  if_pos fun _ hs => absurd hs List.not_mem_nil

@[simp] theorem guarded_bind {α β : Type} (x : Traced α) (f : α → Traced β) :
    guarded (x >>= f) = guarded x >>= fun a => guarded (f a) := by
  obtain ⟨ss, a⟩ := x
  show (if ∀ s ∈ ss ++ (f a).steps, s.Fits then _ else _) = Outcome.bind (if ∀ s ∈ ss, s.Fits then _ else _) _
  by_cases h : ∀ s ∈ ss, s.Fits
  · rw [if_pos h]
    show _ = guarded (f a)
    by_cases h' : ∀ s ∈ (f a).steps, s.Fits
    · rw [if_pos (List.forall_mem_append.2 ⟨h, h'⟩), guarded, if_pos h']
      rfl
    · rw [if_neg fun hss => h' (List.forall_mem_append.1 hss).2, guarded, if_neg h']
  · rw [if_neg h, if_neg fun hss => h (List.forall_mem_append.1 hss).1]
    rfl

/-- Take a step. -/
def take (s : Step) : Traced Int64 := ⟨[s], s.wrapped⟩

@[simp] theorem guarded_take (s : Step) : guarded (take s) = s.run := by
  unfold guarded take Step.run
  simp

/-- `numeric_op`. -/
def numeric (step : Int64 → Int64 → Step) (floatOp : F → F → F) : Value F → Value F → Traced (Option (Value F))
  | .number a, .number b =>
    match a.asI64, b.asI64 with
    | some i, some j => do pure (some (.number (.ofInt64 (← take (step i j)))))
    | _, _ => pure ((Number.fromF64 (floatOp a.asF64 b.asF64)).map .number)
  | _, _ => pure none

theorem guarded_numeric {step : Int64 → Int64 → Step} {intOp : Int64 → Int64 → Outcome Int64}
    (h : ∀ a b, intOp a b = (step a b).run) (floatOp : F → F → F) (v w : Value F) :
    guarded (numeric step floatOp v w) = numericOp intOp floatOp v w := by
  unfold numeric numericOp
  cases v with
  | number m =>
    cases w with
    | number n =>
      dsimp only
      cases m.asI64 with
      | none => simp
      | some i =>
        cases n.asI64 with
        | none => simp
        | some j => simp [h]
    | _ => simp
  | _ => simp

/-- `-v`. -/
def negate : Value F → Traced (Option (Value F))
  | .number n =>
    match n.asI64 with
    | some i => do pure (some (.number (.ofInt64 (← take (.negate i)))))
    | none => pure ((Number.fromF64 (F64.neg n.asF64)).map .number)
  | _ => pure none

theorem guarded_negate (v : Value F) : guarded (negate v) = Cypher.negate v := by
  unfold negate Cypher.negate
  cases v with
  | number n =>
    dsimp only
    cases n.asI64 with
    | none => simp
    | some i =>
      have hrun : checkedI64 (-i.toInt) = (Step.negate i).run := Step.checkedI64_exact (s := .negate i) trivial
      simp [hrun]
  | _ => simp

mutual

/-- `eval_expr` over steps. -/
def eval (ctx : Props F) : Expression F → Traced (Option (Value F))
  | .number (.integer n) => pure (some (.number (.ofInt64 n)))
  | .number (.float x) => pure ((Number.fromF64 x).map .number)
  | .string s => pure (some (.string s))
  | .boolean b => pure (some (.bool b))
  | .null => pure (some .null)
  | .list elements => do
    let items ← evalList ctx elements
    pure (items.map .array)
  | .map entries => do
    let fields ← evalEntries ctx entries []
    pure (some (.object fields))
  | .variable name => pure ctx[name]?
  | .propertyLookup base property => pure ctx[exprToKey base ++ "." ++ property]?
  | .comparison lhs operators => do
    match ← eval ctx lhs with
    | none => pure none
    | some lv => evalChain ctx lv operators
  | .binaryOp .and lhs rhs => do
    if truth (← eval ctx lhs) then pure (some (.bool (truth (← eval ctx rhs))))
    else pure (some (.bool false))
  | .binaryOp .or lhs rhs => do
    if truth (← eval ctx lhs) then pure (some (.bool true))
    else pure (some (.bool (truth (← eval ctx rhs))))
  | .binaryOp .xor lhs rhs => do
    let l ← eval ctx lhs
    let r ← eval ctx rhs
    pure (some (.bool (truth l ^^ truth r)))
  | .binaryOp .add lhs rhs => do
    match ← eval ctx lhs with
    | none => pure none
    | some l =>
      match ← eval ctx rhs with
      | none => pure none
      | some r => numeric .add F64.add l r
  | .binaryOp .subtract lhs rhs => do
    match ← eval ctx lhs with
    | none => pure none
    | some l =>
      match ← eval ctx rhs with
      | none => pure none
      | some r => numeric .subtract F64.sub l r
  | .binaryOp .multiply lhs rhs => do
    match ← eval ctx lhs with
    | none => pure none
    | some l =>
      match ← eval ctx rhs with
      | none => pure none
      | some r => numeric .multiply F64.mul l r
  | .binaryOp .divide lhs rhs => do
    match ← eval ctx lhs with
    | none => pure none
    | some l =>
      match ← eval ctx rhs with
      | none => pure none
      | some r => numeric .divide F64.div l r
  | .binaryOp .other _ _ => pure none
  | .unaryOp .not operand => do
    let v ← eval ctx operand
    pure (some (.bool (!truth v)))
  | .unaryOp .negate operand => do
    match ← eval ctx operand with
    | none => pure none
    | some v => negate v
  | .unaryOp .plus operand => eval ctx operand
  | .isNull operand negated => do
    let v ← eval ctx operand
    let isNull := match v with
      | none => true
      | some .null => true
      | some _ => false
    pure (some (.bool (if negated then !isNull else isNull)))
  | .parenthesized inner => eval ctx inner
  | .other => pure none

def evalList (ctx : Props F) : List (Expression F) → Traced (Option (List (Value F)))
  | [] => pure (some [])
  | e :: es => do
    match ← eval ctx e with
    | none => pure none
    | some v => do
      let vs ← evalList ctx es
      pure (vs.map (v :: ·))

def evalEntries (ctx : Props F) : List (String × Expression F) → List (String × Value F) →
    Traced (List (String × Value F))
  | [], fields => pure fields
  | (k, e) :: entries, fields => do
    match ← eval ctx e with
    | none => evalEntries ctx entries fields
    | some v => evalEntries ctx entries (insertField k v fields)

def evalChain (ctx : Props F) (cur : Value F) : List (ComparisonOperator × Expression F) →
    Traced (Option (Value F))
  | [] => pure (some (.bool true))
  | (op, e) :: operators => do
    match ← eval ctx e with
    | none => pure none
    | some rv => if compareWith op cur rv then evalChain ctx rv operators else pure (some (.bool false))

end

omit [F64 F] in
/-- A binary operation on the values of two expressions. -/
theorem guarded_operands {x y : Traced (Option (Value F))} {f : Value F → Value F → Traced (Option (Value F))}
    {g : Value F → Value F → Outcome (Option (Value F))} (h : ∀ l r, guarded (f l r) = g l r) :
    guarded (do
      match ← x with
      | none => pure none
      | some l =>
        match ← y with
        | none => pure none
        | some r => f l r) = (do
      match ← guarded x with
      | none => pure none
      | some l =>
        match ← guarded y with
        | none => pure none
        | some r => g l r) := by
  rw [guarded_bind]
  refine bind_congr fun l => ?_
  cases l with
  | none => exact guarded_pure none
  | some l =>
    rw [guarded_bind]
    refine bind_congr fun r => ?_
    cases r with
    | none => exact guarded_pure none
    | some r => exact h l r

section Guarded

variable {ctx : Props F}

mutual

/-- **The code evaluates an expression step by step and stops at one that does not fit.** -/
theorem guarded_eval : ∀ e : Expression F, guarded (eval ctx e) = evalExpr ctx e
  | .number (.integer _) | .number (.float _) | .string _ | .boolean _ | .null | .other | .variable _
  | .propertyLookup _ _ => by simp only [eval, evalExpr, guarded_pure]
  | .list elements => by
    simp only [eval, evalExpr, guarded_bind, guarded_pure, guarded_evalList elements]
  | .map entries => by
    simp only [eval, evalExpr, guarded_bind, guarded_pure, guarded_evalEntries entries]
  | .comparison lhs operators => by
    simp only [eval, evalExpr, guarded_bind, guarded_eval lhs]
    refine bind_congr fun lv => ?_
    cases lv with
    | none => exact guarded_pure none
    | some lv => exact guarded_evalChain lv operators
  | .binaryOp .and lhs rhs => by
    simp only [eval, evalExpr, guarded_bind, guarded_eval lhs]
    refine bind_congr fun l => ?_
    cases truth l <;> simp [guarded_eval rhs]
  | .binaryOp .or lhs rhs => by
    simp only [eval, evalExpr, guarded_bind, guarded_eval lhs]
    refine bind_congr fun l => ?_
    cases truth l <;> simp [guarded_eval rhs]
  | .binaryOp .xor lhs rhs => by
    simp only [eval, evalExpr, guarded_bind, guarded_pure, guarded_eval lhs, guarded_eval rhs]
  | .binaryOp .add lhs rhs => by
    simp only [eval, evalExpr, ← guarded_eval lhs, ← guarded_eval rhs]
    exact guarded_operands (guarded_numeric (fun a b => Step.checkedI64_exact (s := .add a b) trivial) F64.add)
  | .binaryOp .subtract lhs rhs => by
    simp only [eval, evalExpr, ← guarded_eval lhs, ← guarded_eval rhs]
    exact guarded_operands
      (guarded_numeric (fun a b => Step.checkedI64_exact (s := .subtract a b) trivial) F64.sub)
  | .binaryOp .multiply lhs rhs => by
    simp only [eval, evalExpr, ← guarded_eval lhs, ← guarded_eval rhs]
    exact guarded_operands
      (guarded_numeric (fun a b => Step.checkedI64_exact (s := .multiply a b) trivial) F64.mul)
  | .binaryOp .divide lhs rhs => by
    simp only [eval, evalExpr, ← guarded_eval lhs, ← guarded_eval rhs]
    exact guarded_operands (guarded_numeric Step.divI64_eq F64.div)
  | .binaryOp .other _ _ => by simp only [eval, evalExpr, guarded_pure]
  | .unaryOp .not operand => by
    simp only [eval, evalExpr, guarded_bind, guarded_pure, guarded_eval operand]
  | .unaryOp .negate operand => by
    simp only [eval, evalExpr, guarded_bind, guarded_eval operand]
    refine bind_congr fun v => ?_
    cases v with
    | none => exact guarded_pure none
    | some v => exact guarded_negate v
  | .unaryOp .plus operand => by simp only [eval, evalExpr, guarded_eval operand]
  | .isNull operand negated => by
    simp only [eval, evalExpr, guarded_bind, guarded_eval operand]
    refine bind_congr fun v => ?_
    exact guarded_pure _
  | .parenthesized inner => by simp only [eval, evalExpr, guarded_eval inner]

theorem guarded_evalList : ∀ es : List (Expression F), guarded (evalList ctx es) = Cypher.evalList ctx es
  | [] => by simp only [evalList, Cypher.evalList, guarded_pure]
  | e :: es => by
    simp only [evalList, Cypher.evalList, guarded_bind, guarded_eval e]
    refine bind_congr fun v => ?_
    cases v with
    | none => exact guarded_pure none
    | some v => simp only [guarded_bind, guarded_pure, guarded_evalList es]

theorem guarded_evalEntries : ∀ (entries : List (String × Expression F)) (fields : List (String × Value F)),
    guarded (evalEntries ctx entries fields) = Cypher.evalEntries ctx entries fields
  | [], _ => by simp only [evalEntries, Cypher.evalEntries, guarded_pure]
  | (k, e) :: entries, fields => by
    simp only [evalEntries, Cypher.evalEntries, guarded_bind, guarded_eval e]
    refine bind_congr fun v => ?_
    cases v with
    | none => exact guarded_evalEntries entries fields
    | some v => exact guarded_evalEntries entries (insertField k v fields)

theorem guarded_evalChain : ∀ (cur : Value F) (operators : List (ComparisonOperator × Expression F)),
    guarded (evalChain ctx cur operators) = Cypher.evalChain ctx cur operators
  | _, [] => by simp only [evalChain, Cypher.evalChain, guarded_pure]
  | cur, (op, e) :: operators => by
    simp only [evalChain, Cypher.evalChain, guarded_bind, guarded_eval e]
    refine bind_congr fun rv => ?_
    cases rv with
    | none => exact guarded_pure none
    | some rv =>
      dsimp only
      split
      · exact guarded_evalChain rv operators
      · exact guarded_pure _

end

end Guarded

end Traced

/-- The least integer has no negative. -/
example : (Step.negate Int64.minValue).run = .panic := by decide

end ChiffonDB.Cypher

import Mathlib.Tactic.Linarith
import ChiffonDB.Storage.Prog

/-!
# Property values

`serde_json::Value`, and what the Cypher executor computes on values.

* `F64` — the double-precision numbers: the operations of the hardware, which nothing here looks into.
* `Value` — JSON values; `Props` — the properties of a record, and a row of variables.
* `valuesEq`, `compareValues`, `strOp`, `numericOp` — the helpers of `cypher/executor.rs`.
-/

set_option autoImplicit false

namespace ChiffonDB

/-- The operations on `f64` that the executor uses. -/
class F64 (F : Type) where
  ofInt : Int → F
  add : F → F → F
  sub : F → F → F
  mul : F → F → F
  div : F → F → F
  neg : F → F
  abs : F → F
  epsilon : F
  isFinite : F → Bool
  partialCmp : F → F → Option Ordering

instance : F64 Float where
  ofInt := Float.ofInt
  add := Float.add
  sub := Float.sub
  mul := Float.mul
  div := Float.div
  neg := Float.neg
  abs := Float.abs
  epsilon := Float.ofScientific 2220446049250313 true 31
  isFinite := Float.isFinite
  partialCmp a b := if a < b then some .lt else if b < a then some .gt else if a == b then some .eq else none

/-- `serde_json::Number`: a 64-bit unsigned number, a negative signed one, or a finite double. -/
inductive Number (F : Type) where
  | posInt (n : UInt64)
  | negInt (n : Int64)
  | float (x : F)

/-- `serde_json::Value`; an object lists its fields by key. -/
inductive Value (F : Type) where
  | null
  | bool (b : Bool)
  | number (n : Number F)
  | string (s : String)
  | array (items : List (Value F))
  | object (fields : List (String × Value F))

variable {F : Type} [F64 F]

namespace Number

/-- `Value::from` of an `i64`. -/
def ofInt64 (n : Int64) : Number F := if n < 0 then .negInt n else .posInt n.toUInt64

/-- `from_f64`. -/
def fromF64 (x : F) : Option (Number F) := if F64.isFinite x then some (.float x) else none

def asI64 : Number F → Option Int64
  | posInt n => if n.toNat < 2 ^ 63 then some n.toInt64 else none
  | negInt n => some n
  | float _ => none

def asU64 : Number F → Option UInt64
  | posInt n => some n
  | _ => none

def asF64 : Number F → F
  | posInt n => F64.ofInt n.toNat
  | negInt n => F64.ofInt n.toInt
  | float x => x

/-- `==`. -/
def eq : Number F → Number F → Bool
  | posInt a, posInt b => a == b
  | negInt a, negInt b => a == b
  | float a, float b => F64.partialCmp a b == some .eq
  | _, _ => false

end Number

mutual

/-- `==`. -/
def Value.eq : Value F → Value F → Bool
  | .null, .null => true
  | .bool a, .bool b => a == b
  | .number a, .number b => a.eq b
  | .string a, .string b => a == b
  | .array as, .array bs => Value.eqItems as bs
  | .object as, .object bs => Value.eqFields as bs
  | _, _ => false

def Value.eqItems : List (Value F) → List (Value F) → Bool
  | [], [] => true
  | a :: as, b :: bs => Value.eq a b && Value.eqItems as bs
  | _, _ => false

def Value.eqFields : List (String × Value F) → List (String × Value F) → Bool
  | [], [] => true
  | (k, a) :: as, (l, b) :: bs => k == l && Value.eq a b && Value.eqFields as bs
  | _, _ => false

end

/-- `HashMap<String, Value>`: the properties of a record, or a row of variables. -/
abbrev Props (F : Type) : Type := Std.ExtTreeMap String (Value F)

/-- A field of an object, in its place. -/
def insertField (k : String) (v : Value F) : List (String × Value F) → List (String × Value F)
  | [] => [(k, v)]
  | (l, w) :: fields =>
    match compare k l with
    | .lt => (k, v) :: (l, w) :: fields
    | .eq => (k, v) :: fields
    | .gt => (l, w) :: insertField k v fields

/-! ## Helpers of the executor -/

/-- `values_eq`. -/
def valuesEq : Value F → Value F → Bool
  | .number a, .number b =>
    match a.asI64, b.asI64 with
    | some i, some j => i == j
    | _, _ => F64.partialCmp (F64.abs (F64.sub a.asF64 b.asF64)) (F64.epsilon : F) == some .lt
  | a, b => a.eq b

/-- `compare_values`. -/
def compareValues : Value F → Value F → Ordering
  | .number a, .number b => (F64.partialCmp a.asF64 b.asF64).getD .eq
  | .string a, .string b => compare a b
  | .bool a, .bool b => compare a b
  | _, _ => .eq

/-- `str_op`. -/
def strOp (f : String → String → Bool) : Value F → Value F → Bool
  | .string a, .string b => f a b
  | _, _ => false

/-- `str::contains`. -/
def strContains (a b : String) : Bool := a.toList.tails.any fun t => b.toList.isPrefixOf t

def strStartsWith (a b : String) : Bool := b.toList.isPrefixOf a.toList

def strEndsWith (a b : String) : Bool := b.toList.isSuffixOf a.toList

/-- An `i64` result, or a panic on overflow. -/
def checkedI64 (n : Int) : Outcome Int64 :=
  if Int64.minValue.toInt ≤ n ∧ n ≤ Int64.maxValue.toInt then .ok (Int64.ofInt n) else .panic

/-- `a / b`, which also panics on zero. -/
def divI64 (a b : Int64) : Outcome Int64 :=
  if b = 0 then .panic else checkedI64 (a.toInt.tdiv b.toInt)

/-- `numeric_op`. -/
def numericOp (intOp : Int64 → Int64 → Outcome Int64) (floatOp : F → F → F) :
    Value F → Value F → Outcome (Option (Value F))
  | .number a, .number b =>
    match a.asI64, b.asI64 with
    | some i, some j => do pure (some (.number (.ofInt64 (← intOp i j))))
    | _, _ => pure ((Number.fromF64 (floatOp a.asF64 b.asF64)).map .number)
  | _, _ => pure none

/-- `props_match`. -/
def propsMatch (actual expected : Props F) : Bool :=
  expected.toList.all fun (k, v) => (actual[k]?).any fun av => valuesEq av v

end ChiffonDB

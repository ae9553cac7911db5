import ChiffonDB.Cypher.Value
import ChiffonDB.Schema.Ast

/-!
# Values of declared types

The checks of property values against a schema (`schema/validate_value.rs`) and the conversion of
values between scalar types (`schema/convert.rs`).
-/

set_option autoImplicit false

namespace ChiffonDB

/-- Texts and bits of the double-precision numbers, and their integer parts. -/
class F64Text (F : Type) where
  parse : String → Option F
  print : F → String
  fract : F → F
  toInt : F → Int
  bits : F → UInt64

variable {F : Type} [F64 F] [F64Text F]

/-! ## Validation -/

mutual

/-- `value_matches_type`. -/
def valueMatchesType : Value F → TypeExpr → Bool
  | .null, _ => true
  | _, .json => true
  | .number (.posInt _), .int => true
  | .number (.negInt _), .int => true
  | .number _, .float => true
  | .bool _, .boolean => true
  | .string _, .string => true
  | .string _, .dateTime => true
  | .string _, .blob => true
  | .array _, .blob => true
  | .array items, .vector _ => items.all fun v => match v with | .number _ => true | _ => false
  | .array items, .list inner => itemsMatchType items inner
  | .object fields, .map _ valType => fieldsMatchType fields valType
  | .string _, .nodeRef _ => true
  | .string _, .edgeRef _ => true
  | .string _, .named _ => true
  | _, _ => false

def itemsMatchType : List (Value F) → TypeExpr → Bool
  | [], _ => true
  | v :: vs, type => valueMatchesType v type && itemsMatchType vs type

def fieldsMatchType : List (String × Value F) → TypeExpr → Bool
  | [], _ => true
  | (_, v) :: vs, type => valueMatchesType v type && fieldsMatchType vs type

end

/-- `describe_type`. -/
def describeType : TypeExpr → String
  | .int => "Int"
  | .float => "Float"
  | .boolean => "Boolean"
  | .dateTime => "DateTime"
  | .string => "String"
  | .json => "Json"
  | .blob => "Blob"
  | .vector n => "Vector(" ++ toString n ++ ")"
  | .list inner => "List<" ++ describeType inner ++ ">"
  | .map key value => "Map<" ++ describeType key ++ ", " ++ describeType value ++ ">"
  | .nodeRef name => "NodeRef<" ++ name ++ ">"
  | .edgeRef name => "EdgeRef<" ++ name ++ ">"
  | .named name => name

/-- `describe_value`. -/
def describeValue : Value F → String
  | .null => "null"
  | .bool _ => "boolean"
  | .number _ => "number"
  | .string _ => "string"
  | .array _ => "array"
  | .object _ => "object"

/-- The first key that no field declares; a hash map gives its keys in an order of its own. -/
def unknownField (fields : List FieldDef) (props : Props F) : Option String :=
  props.keys.find? fun key => !fields.any fun f => f.name == key

/-- The first field whose value is not of its type. -/
def mistypedField (fields : List FieldDef) (props : Props F) : Option (FieldDef × Value F) :=
  fields.findSome? fun f => match props[f.name]? with
    | some v => if valueMatchesType v f.typeExpr then none else some (f, v)
    | none => none

/-- `validate_properties`. -/
def validateProperties (typeLabel : String) (fields : List FieldDef) (props : Props F) :
    Except GraphError Unit :=
  match unknownField fields props with
  | some key => .error (.validationError (typeLabel ++ ": unknown field '" ++ key ++ "'"))
  | none =>
    match mistypedField fields props with
    | some (f, v) => .error (.validationError (typeLabel ++ ": field '" ++ f.name ++ "' expected " ++
        describeType f.typeExpr ++ ", got " ++ describeValue v))
    | none => .ok ()

/-! ## Conversion -/

/-- `scalar_type_from_name`. -/
def scalarTypeFromName : String → Option TypeExpr
  | "String" => some .string
  | "Int" => some .int
  | "Float" => some .float
  | "Boolean" => some .boolean
  | "DateTime" => some .dateTime
  | _ => none

/-- `conversion_supported`. -/
def conversionSupported : TypeExpr → TypeExpr → Bool
  | .string, target => target.isIndexableScalar
  | «from», .string => «from».isIndexableScalar
  | .int, .float => true
  | .float, .int => true
  | _, _ => false

/-- Unicode `White_Space`, which `trim` removes. -/
def isWhiteSpace (c : Char) : Bool :=
  let n := c.toNat
  (0x09 ≤ n && n ≤ 0x0D) || n == 0x20 || n == 0x85 || n == 0xA0 || n == 0x1680 ||
    (0x2000 ≤ n && n ≤ 0x200A) || n == 0x2028 || n == 0x2029 || n == 0x202F || n == 0x205F || n == 0x3000

/-- `str::trim`. -/
def trim (s : String) : String :=
  String.ofList ((((s.toList.dropWhile isWhiteSpace).reverse).dropWhile isWhiteSpace).reverse)

/-- The value of decimal digits, of which there is at least one. -/
def parseDigits : List Char → Option Nat
  | [] => none
  | cs => if cs.all Char.isDigit then some (cs.foldl (fun n c => 10 * n + (c.toNat - 48)) 0) else none

/-- `str::parse::<i64>`. -/
def parseI64 (s : String) : Option Int64 := do
  let n : Int ← (match s.toList with
    | '-' :: cs => (parseDigits cs).map fun n => -(n : Int)
    | '+' :: cs => (parseDigits cs).map fun n => (n : Int)
    | cs => (parseDigits cs).map fun n => (n : Int))
  if -2 ^ 63 ≤ n ∧ n < 2 ^ 63 then some (Int64.ofInt n) else none

/-- `Number::to_string`. -/
def Number.text : Number F → String
  | .posInt n => toString n
  | .negInt n => toString n
  | .float x => F64Text.print x

/-- `float_to_int`. -/
def floatToInt (f : F) : Option (Value F) :=
  let below := F64.partialCmp f (F64.ofInt (2 ^ 63))
  let above := F64.partialCmp f (F64.ofInt (-2 ^ 63))
  if F64.partialCmp (F64Text.fract f) (F64.ofInt 0) = some .eq ∧ below = some .lt ∧
      (above = some .gt ∨ above = some .eq) then
    some (.number (.ofInt64 (Int64.ofInt (F64Text.toInt f))))
  else none

/-- `int_to_float`. -/
def intToFloat (i : Int64) : Option (Value F) :=
  let f : F := F64.ofInt i.toInt
  if F64Text.toInt f = i.toInt then (Number.fromF64 f).map .number else none

/-- `convert_value`. -/
def convertValue (value : Value F) (target : TypeExpr) : Option (Value F) :=
  match target, value with
  | .string, .string s => some (.string s)
  | .string, .number n => some (.string n.text)
  | .string, .bool b => some (.string (if b then "true" else "false"))
  | .int, .number n => if n.asI64.isSome then some (.number n) else floatToInt n.asF64
  | .int, .string s => (parseI64 (trim s)).map fun i => .number (.ofInt64 i)
  | .float, .number (.float x) => some (.number (.float x))
  | .float, .number n => n.asI64.bind intToFloat
  | .float, .string s => ((F64Text.parse (trim s)).bind Number.fromF64).map .number
  | .boolean, .bool b => some (.bool b)
  | .boolean, .string s =>
    if trim s = "true" then some (.bool true) else if trim s = "false" then some (.bool false) else none
  | .dateTime, .string s => some (.string s)
  | _, _ => none

end ChiffonDB

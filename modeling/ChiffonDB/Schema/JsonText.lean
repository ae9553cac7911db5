import ChiffonDB.Cypher.Number
import ChiffonDB.Schema.Values
import Std.Data.String.ToInt

/-!
# JSON texts

`Value::to_string` of `serde_json`: the compact text of a value.

* `Value.text` — the text.
* `LawfulF64Text` — what is known of the texts of doubles.
* `Value.text_injective` — **a value can be told from its text**.
-/

set_option autoImplicit false

set_option linter.unusedSectionVars false

namespace ChiffonDB

variable {F : Type} [F64 F] [F64Text F]

namespace JsonText

/-! ## The writer -/

/-- The digits of an escape. -/
def hexDigit (n : Nat) : Char := if n < 10 then Char.ofNat (48 + n) else Char.ofNat (87 + n)

/-- The quote. -/
def quote : Char := Char.ofNat 34

/-- A character of a string, between the quotes. -/
def escape (c : Char) : List Char :=
  if c = quote ∨ c = '\\' then ['\\', c]
  else if c.toNat = 8 then ['\\', 'b']
  else if c.toNat = 9 then ['\\', 't']
  else if c.toNat = 10 then ['\\', 'n']
  else if c.toNat = 12 then ['\\', 'f']
  else if c.toNat = 13 then ['\\', 'r']
  else if c.toNat < 32 then ['\\', 'u', '0', '0', hexDigit (c.toNat / 16), hexDigit (c.toNat % 16)]
  else [c]

def string (s : String) : List Char := quote :: (s.toList.flatMap escape ++ [quote])

def openBrace : Char := Char.ofNat 123

def closeBrace : Char := Char.ofNat 125

mutual

def value : Value F → List Char
  | .null => "null".toList
  | .bool b => (if b then "true" else "false").toList
  | .number n => n.text.toList
  | .string s => string s
  | .array [] => ['[', ']']
  | .array (v :: vs) => '[' :: (value v ++ moreItems vs)
  | .object [] => [openBrace, closeBrace]
  | .object ((k, v) :: fields) => openBrace :: (string k ++ ':' :: (value v ++ moreFields fields))

/-- The elements behind the first, and the end of the array. -/
def moreItems : List (Value F) → List Char
  | [] => [']']
  | v :: vs => ',' :: (value v ++ moreItems vs)

/-- The fields behind the first, and the end of the object. -/
def moreFields : List (String × Value F) → List Char
  | [] => [closeBrace]
  | (k, v) :: fields => ',' :: (string k ++ ':' :: (value v ++ moreFields fields))

end

end JsonText

/-- `Value::to_string`. -/
def Value.text (v : Value F) : String := String.ofList (JsonText.value v)

mutual

/-- Every number in a value can stand in a JSON text. -/
def Value.AllJson : Value F → Prop
  | .number n => n.IsJson
  | .array items => Value.AllJsonItems items
  | .object fields => Value.AllJsonFields fields
  | _ => True

def Value.AllJsonItems : List (Value F) → Prop
  | [] => True
  | v :: vs => v.AllJson ∧ Value.AllJsonItems vs

def Value.AllJsonFields : List (String × Value F) → Prop
  | [] => True
  | (_, v) :: fields => v.AllJson ∧ Value.AllJsonFields fields

end

/-- The characters of numbers. -/
def isNumeric (c : Char) : Bool := c.isDigit || c == '-' || c == '+' || c == '.' || c == 'e'

/-- The text of a finite double: characters of numbers, with a point or an exponent, that read back as the same
    double. -/
class LawfulF64Text (F : Type) [F64 F] [F64Text F] : Prop where
  parse_print : ∀ x : F, F64.isFinite x = true → F64Text.parse (F64Text.print x) = some x
  numeric : ∀ x : F, F64.isFinite x = true → ∀ c ∈ (F64Text.print x).toList, isNumeric c = true
  decimal : ∀ x : F, F64.isFinite x = true → ∃ c ∈ (F64Text.print x).toList, c = '.' ∨ c = 'e'

/-! ## Numbers -/

/-- The integer of a number that is one. -/
def Number.integer : Number F → Option Int
  | .posInt n => some n.toNat
  | .negInt n => some n.toInt
  | .float _ => none

theorem Number.text_eq_repr {n : Number F} {i : Int} (h : n.integer = some i) : n.text = i.repr := by
  cases n with
  | posInt n =>
    cases h
    rfl
  | negInt n =>
    cases h
    rfl
  | float x => cases h

theorem Number.integer_injective {m n : Number F} (hm : m.IsJson) (hn : n.IsJson) {i : Int} (hmi : m.integer = some i)
    (hni : n.integer = some i) : m = n := by
  cases m with
  | float x => cases hmi
  | posInt a =>
    cases n with
    | float x => cases hni
    | posInt b =>
      cases hmi
      have h := Option.some.inj hni
      rw [UInt64.toNat_inj.1 (Int.ofNat.inj h)]
    | negInt b =>
      cases hmi
      have h : b.toInt = a.toNat := Option.some.inj hni
      have hneg : b.toInt < 0 := hn
      omega
  | negInt a =>
    cases n with
    | float x => cases hni
    | posInt b =>
      cases hmi
      have h : (b.toNat : Int) = a.toInt := Option.some.inj hni
      have hneg : a.toInt < 0 := hm
      omega
    | negInt b =>
      cases hmi
      rw [Int64.toInt_inj.1 (Option.some.inj hni)]

/-- The text of an integer: digits, behind a sign. -/
theorem digit_or_sign_of_mem_repr {i : Int} {c : Char} (hc : c ∈ i.repr.toList) : c.isDigit = true ∨ c = '-' := by
  cases i with
  | ofNat n =>
    rw [Int.repr, Nat.toList_repr] at hc
    exact .inl (Nat.isDigit_of_mem_toDigits (by decide) (by decide) hc)
  | negSucc n =>
    rw [Int.repr, String.toList_append, List.mem_append, Nat.toList_repr] at hc
    rcases hc with hc | hc
    · exact .inr (by simpa using hc)
    · exact .inl (Nat.isDigit_of_mem_toDigits (by decide) (by decide) hc)

theorem repr_ne_nil (i : Int) : i.repr.toList ≠ [] := by
  cases i with
  | ofNat n =>
    rw [Int.repr, Nat.toList_repr]
    exact Nat.toDigits_ne_nil
  | negSucc n =>
    rw [Int.repr, String.toList_append]
    simp

section Numbers

variable [LawfulF64Text F]

theorem Number.numeric_of_mem_text {n : Number F} (hn : n.IsJson) {c : Char} (hc : c ∈ n.text.toList) :
    isNumeric c = true := by
  cases hi : n.integer with
  | some i =>
    rw [text_eq_repr hi] at hc
    rcases digit_or_sign_of_mem_repr hc with h | rfl
    · simp [isNumeric, h]
    · rfl
  | none =>
    cases n with
    | float x => exact LawfulF64Text.numeric x hn c hc
    | posInt _ => cases hi
    | negInt _ => cases hi

theorem Number.text_ne_nil {n : Number F} (hn : n.IsJson) : n.text.toList ≠ [] := by
  cases hi : n.integer with
  | some i =>
    rw [text_eq_repr hi]
    exact repr_ne_nil i
  | none =>
    cases n with
    | float x =>
      obtain ⟨c, hc, -⟩ := LawfulF64Text.decimal x hn
      exact List.ne_nil_of_mem hc
    | posInt _ => cases hi
    | negInt _ => cases hi

/-- **A number can be told from its text**: that of a double has a point or an exponent. -/
theorem Number.text_injective {m n : Number F} (hm : m.IsJson) (hn : n.IsJson) (h : m.text = n.text) : m = n := by
  have hmixed : ∀ {m n : Number F} {i : Int}, n.IsJson → m.integer = some i → n.integer = none → m.text ≠ n.text := by
    intro m n i hn hm hni h
    cases n with
    | posInt _ => cases hni
    | negInt _ => cases hni
    | float x =>
      obtain ⟨c, hc, hpoint⟩ := LawfulF64Text.decimal x hn
      have hc' : c ∈ i.repr.toList := by
        rw [← Number.text_eq_repr hm, h]
        exact hc
      rcases digit_or_sign_of_mem_repr hc' with hd | rfl
      · rcases hpoint with rfl | rfl <;> exact absurd hd (by decide)
      · rcases hpoint with h | h <;> exact absurd h (by decide)
  cases hmi : m.integer with
  | some i =>
    cases hni : n.integer with
    | some j =>
      rw [Number.text_eq_repr hmi, Number.text_eq_repr hni] at h
      exact Number.integer_injective hm hn hmi (Int.repr_injective h ▸ hni)
    | none => exact absurd h (hmixed hn hmi hni)
  | none =>
    cases hni : n.integer with
    | some j => exact absurd h.symm (hmixed hm hni hmi)
    | none =>
      cases m <;> try cases hmi
      cases n <;> try cases hni
      rename_i x y
      have hx := LawfulF64Text.parse_print x hm
      rw [show F64Text.print x = F64Text.print y from h, LawfulF64Text.parse_print y hn] at hx
      rw [Option.some.inj hx]

end Numbers

namespace JsonText

/-! ## Strings -/

def hexValue (c : Char) : Nat := if c.isDigit then c.toNat - 48 else c.toNat - 87

/-- What is behind a backslash, read back. -/
def unescaped : List Char → Option (Char × List Char)
  | 'b' :: r => some (Char.ofNat 8, r)
  | 't' :: r => some (Char.ofNat 9, r)
  | 'n' :: r => some (Char.ofNat 10, r)
  | 'f' :: r => some (Char.ofNat 12, r)
  | 'r' :: r => some (Char.ofNat 13, r)
  | 'u' :: '0' :: '0' :: h :: l :: r => some (Char.ofNat (16 * hexValue h + hexValue l), r)
  | c :: r => some (c, r)
  | [] => none

/-- The first character of a string, read back. -/
def unescape : List Char → Option (Char × List Char)
  | c :: r => if c = '\\' then unescaped r else some (c, r)
  | [] => none

theorem hexValue_hexDigit : ∀ n < 16, hexValue (hexDigit n) = n := by decide

theorem unescape_escape (c : Char) (r : List Char) : unescape (escape c ++ r) = some (c, r) := by
  have hback : ∀ n, c.toNat = n → Char.ofNat n = c := fun n h => h ▸ Char.ofNat_toNat c
  unfold escape
  split_ifs with hplain h8 h9 h10 h12 h13 hctrl
  · rcases hplain with rfl | rfl <;> rfl
  · rw [← hback 8 h8]; rfl
  · rw [← hback 9 h9]; rfl
  · rw [← hback 10 h10]; rfl
  · rw [← hback 12 h12]; rfl
  · rw [← hback 13 h13]; rfl
  · show some (Char.ofNat (16 * hexValue (hexDigit _) + hexValue (hexDigit _)), r) = _
    rw [hexValue_hexDigit _ (by omega), hexValue_hexDigit _ (by omega), Nat.div_add_mod, Char.ofNat_toNat]
  · have hc : c ≠ '\\' := fun h => hplain (.inr h)
    exact if_neg hc

theorem escape_append_inj {c d : Char} {x y : List Char} (h : escape c ++ x = escape d ++ y) : c = d ∧ x = y := by
  have h' := congrArg unescape h
  rw [unescape_escape, unescape_escape] at h'
  simpa using h'

/-- The text of a character begins with no quote. -/
theorem escape_append_ne (c : Char) (x y : List Char) : escape c ++ x ≠ quote :: y := by
  unfold escape
  split_ifs with hplain <;> intro h <;> rw [List.cons_append] at h
  all_goals first | exact absurd (List.cons.inj h).1 (by decide) | exact hplain (.inl (List.cons.inj h).1)

theorem body_append_inj {s t x y : List Char} (h : s.flatMap escape ++ quote :: x = t.flatMap escape ++ quote :: y) :
    s = t ∧ x = y := by
  induction s generalizing t with
  | nil =>
    cases t with
    | nil => exact ⟨rfl, (List.cons.inj h).2⟩
    | cons d t =>
      rw [List.flatMap_cons, List.append_assoc] at h
      exact absurd h.symm (escape_append_ne d _ _)
  | cons c s ih =>
    cases t with
    | nil =>
      rw [List.flatMap_cons, List.append_assoc] at h
      exact absurd h (escape_append_ne c _ _)
    | cons d t =>
      rw [List.flatMap_cons, List.flatMap_cons, List.append_assoc, List.append_assoc] at h
      obtain ⟨rfl, hrest⟩ := escape_append_inj h
      obtain ⟨rfl, hx⟩ := ih hrest
      exact ⟨rfl, hx⟩

theorem string_append_inj {s t : String} {x y : List Char} (h : string s ++ x = string t ++ y) : s = t ∧ x = y := by
  unfold string at h
  rw [List.cons_append, List.cons_append, List.append_assoc, List.append_assoc] at h
  obtain ⟨hs, hx⟩ := body_append_inj (List.cons.inj h).2
  exact ⟨String.toList_inj.1 hs, hx⟩

/-! ## Values -/

/-- The kind of a value. -/
def kindOf : Value F → Nat
  | .null => 0
  | .bool _ => 1
  | .number _ => 2
  | .string _ => 3
  | .array _ => 4
  | .object _ => 5

/-- The kind of the value that a text begins with; no value begins with another character. -/
def lead (c : Char) : Nat :=
  if isNumeric c then 2 else if c = 'n' then 0 else if c = 't' ∨ c = 'f' then 1 else if c = quote then 3
  else if c = '[' then 4 else if c = openBrace then 5 else 6

/-- What may stand behind a value. -/
def Ends (r : List Char) : Prop := ∀ c ∈ r.head?, isNumeric c = false

theorem ends_cons {c : Char} {r : List Char} (h : isNumeric c = false) : Ends (c :: r) := by
  rintro _ ⟨⟩
  exact h

theorem array_append (v : Value F) (vs : List (Value F)) (r : List Char) :
    value (.array (v :: vs)) ++ r = '[' :: (value v ++ (moreItems vs ++ r)) := by
  rw [value, List.cons_append, List.append_assoc]

theorem moreItems_append (v : Value F) (vs : List (Value F)) (r : List Char) :
    moreItems (v :: vs) ++ r = ',' :: (value v ++ (moreItems vs ++ r)) := by
  rw [moreItems, List.cons_append, List.append_assoc]

theorem object_append (k : String) (v : Value F) (fields : List (String × Value F)) (r : List Char) :
    value (.object ((k, v) :: fields)) ++ r = openBrace :: (string k ++ ':' :: (value v ++ (moreFields fields ++ r))) := by
  rw [value, List.cons_append, List.append_assoc, List.cons_append, List.append_assoc]

theorem moreFields_append (k : String) (v : Value F) (fields : List (String × Value F)) (r : List Char) :
    moreFields ((k, v) :: fields) ++ r = ',' :: (string k ++ ':' :: (value v ++ (moreFields fields ++ r))) := by
  rw [moreFields, List.cons_append, List.append_assoc, List.cons_append, List.append_assoc]

theorem ends_moreItems (vs : List (Value F)) (r : List Char) : Ends (moreItems vs ++ r) := by
  cases vs <;> exact ends_cons rfl

theorem ends_moreFields (fields : List (String × Value F)) (r : List Char) : Ends (moreFields fields ++ r) := by
  rcases fields with _ | ⟨⟨k, v⟩, fields⟩ <;> exact ends_cons rfl

section Injective

variable [LawfulF64Text F]

/-- A value shows its kind in its first character. -/
theorem lead_value {v : Value F} (hv : v.AllJson) (r : List Char) :
    ∃ c cs, value v ++ r = c :: cs ∧ lead c = kindOf v := by
  rcases v with _ | b | n | s | (_ | ⟨v, vs⟩) | (_ | ⟨⟨k, v⟩, fields⟩)
  · exact ⟨_, _, rfl, rfl⟩
  · cases b <;> exact ⟨_, _, rfl, rfl⟩
  · obtain ⟨c, cs, hc⟩ := List.exists_cons_of_ne_nil (Number.text_ne_nil (F := F) hv)
    have hnumeric := Number.numeric_of_mem_text (F := F) hv (c := c) (by rw [hc]; exact List.mem_cons_self)
    refine ⟨c, cs ++ r, ?_, if_pos hnumeric⟩
    show n.text.toList ++ r = _
    rw [hc]
    rfl
  · exact ⟨_, _, rfl, rfl⟩
  · exact ⟨_, _, rfl, rfl⟩
  · exact ⟨_, _, rfl, rfl⟩
  · exact ⟨_, _, rfl, rfl⟩
  · exact ⟨_, _, rfl, rfl⟩

theorem value_append_ne {v : Value F} (hv : v.AllJson) {c : Char} (hc : lead c = 6) {x y : List Char} :
    value v ++ x ≠ c :: y := by
  intro h
  obtain ⟨d, ds, hd, hlead⟩ := lead_value hv x
  rw [hd] at h
  rw [(List.cons.inj h).1, hc] at hlead
  cases v <;> cases hlead

theorem kindOf_eq {v w : Value F} (hv : v.AllJson) (hw : w.AllJson) {x y : List Char} (h : value v ++ x = value w ++ y) :
    kindOf v = kindOf w := by
  obtain ⟨c, cs, hc, hlead⟩ := lead_value hv x
  obtain ⟨d, ds, hd, hlead'⟩ := lead_value hw y
  rw [hc, hd] at h
  rw [← hlead, ← hlead', (List.cons.inj h).1]

/-- A text of a number ends where the characters of numbers do. -/
theorem number_append_inj {m n : Number F} (hm : m.IsJson) (hn : n.IsJson) {x y : List Char} (hx : Ends x) (hy : Ends y)
    (h : m.text.toList ++ x = n.text.toList ++ y) : m = n ∧ x = y := by
  have hsplit : ∀ {n : Number F} {x : List Char}, n.IsJson → Ends x →
      (n.text.toList ++ x).takeWhile isNumeric = n.text.toList := by
    intro n x hn hx
    rw [List.takeWhile_append_of_pos fun c hc => Number.numeric_of_mem_text hn hc]
    cases x with
    | nil => simp
    | cons c x => simp [hx c rfl]
  have htext : m.text.toList = n.text.toList := by rw [← hsplit hm hx, h, hsplit hn hy]
  refine ⟨Number.text_injective hm hn (String.toList_inj.1 htext), ?_⟩
  rw [htext] at h
  exact List.append_cancel_left h

mutual

/-- **A value can be told from a text that it begins.** -/
theorem value_append_inj : ∀ {v w : Value F} {x y : List Char}, v.AllJson → w.AllJson → Ends x → Ends y →
    value v ++ x = value w ++ y → v = w ∧ x = y
  | .null, w, x, y, hv, hw, hx, hy, h => by
    have hkind := kindOf_eq hv hw h
    cases w <;> try cases hkind
    exact ⟨rfl, List.append_cancel_left h⟩
  | .bool b, w, x, y, hv, hw, hx, hy, h => by
    have hkind := kindOf_eq hv hw h
    cases w <;> try cases hkind
    rename_i b'
    cases b <;> cases b' <;> first | exact ⟨rfl, List.append_cancel_left h⟩ | cases h
  | .number n, w, x, y, hv, hw, hx, hy, h => by
    have hkind := kindOf_eq hv hw h
    cases w <;> try cases hkind
    obtain ⟨rfl, hrest⟩ := number_append_inj hv hw hx hy h
    exact ⟨rfl, hrest⟩
  | .string s, w, x, y, hv, hw, hx, hy, h => by
    have hkind := kindOf_eq hv hw h
    cases w <;> try cases hkind
    obtain ⟨rfl, hrest⟩ := string_append_inj h
    exact ⟨rfl, hrest⟩
  | .array [], w, x, y, hv, hw, hx, hy, h => by
    have hkind := kindOf_eq hv hw h
    rcases w with _ | _ | _ | _ | (_ | ⟨w, ws⟩) | _ <;> try cases hkind
    · exact ⟨rfl, List.append_cancel_left h⟩
    · rw [array_append] at h
      exact absurd (List.cons.inj h).2.symm (value_append_ne hw.1 rfl)
  | .array (v :: vs), w, x, y, hv, hw, hx, hy, h => by
    have hkind := kindOf_eq hv hw h
    rcases w with _ | _ | _ | _ | (_ | ⟨w, ws⟩) | _ <;> try cases hkind
    · rw [array_append] at h
      exact absurd (List.cons.inj h).2 (value_append_ne hv.1 rfl)
    · rw [array_append, array_append] at h
      obtain ⟨rfl, hrest⟩ := value_append_inj hv.1 hw.1 (ends_moreItems vs x) (ends_moreItems ws y) (List.cons.inj h).2
      obtain ⟨rfl, hxy⟩ := moreItems_append_inj hv.2 hw.2 hrest
      exact ⟨rfl, hxy⟩
  | .object [], w, x, y, hv, hw, hx, hy, h => by
    have hkind := kindOf_eq hv hw h
    rcases w with _ | _ | _ | _ | _ | (_ | ⟨⟨l, w⟩, gs⟩) <;> try cases hkind
    · exact ⟨rfl, List.append_cancel_left h⟩
    · rw [object_append] at h
      exact absurd (List.cons.inj (List.cons.inj h).2).1 (by decide)
  | .object ((k, v) :: fs), w, x, y, hv, hw, hx, hy, h => by
    have hkind := kindOf_eq hv hw h
    rcases w with _ | _ | _ | _ | _ | (_ | ⟨⟨l, w⟩, gs⟩) <;> try cases hkind
    · rw [object_append] at h
      exact absurd (List.cons.inj (List.cons.inj h).2).1 (by decide)
    · rw [object_append, object_append] at h
      obtain ⟨rfl, hbody⟩ := string_append_inj (List.cons.inj h).2
      obtain ⟨rfl, hrest⟩ := value_append_inj hv.1 hw.1 (ends_moreFields fs x) (ends_moreFields gs y)
        (List.cons.inj hbody).2
      obtain ⟨rfl, hxy⟩ := moreFields_append_inj hv.2 hw.2 hrest
      exact ⟨rfl, hxy⟩

theorem moreItems_append_inj : ∀ {vs ws : List (Value F)} {x y : List Char}, Value.AllJsonItems vs →
    Value.AllJsonItems ws → moreItems vs ++ x = moreItems ws ++ y → vs = ws ∧ x = y
  | [], [], x, y, _, _, h => ⟨rfl, (List.cons.inj h).2⟩
  | [], w :: ws, x, y, _, _, h => absurd (List.cons.inj h).1 (by decide)
  | v :: vs, [], x, y, _, _, h => absurd (List.cons.inj h).1 (by decide)
  | v :: vs, w :: ws, x, y, hv, hw, h => by
    rw [moreItems_append, moreItems_append] at h
    obtain ⟨rfl, hrest⟩ := value_append_inj hv.1 hw.1 (ends_moreItems vs x) (ends_moreItems ws y) (List.cons.inj h).2
    obtain ⟨rfl, hxy⟩ := moreItems_append_inj hv.2 hw.2 hrest
    exact ⟨rfl, hxy⟩

theorem moreFields_append_inj : ∀ {fs gs : List (String × Value F)} {x y : List Char}, Value.AllJsonFields fs →
    Value.AllJsonFields gs → moreFields fs ++ x = moreFields gs ++ y → fs = gs ∧ x = y
  | [], [], x, y, _, _, h => ⟨rfl, (List.cons.inj h).2⟩
  | [], (l, w) :: gs, x, y, _, _, h => absurd (List.cons.inj h).1 (by decide)
  | (k, v) :: fs, [], x, y, _, _, h => absurd (List.cons.inj h).1 (by decide)
  | (k, v) :: fs, (l, w) :: gs, x, y, hv, hw, h => by
    rw [moreFields_append, moreFields_append] at h
    obtain ⟨rfl, hbody⟩ := string_append_inj (List.cons.inj h).2
    obtain ⟨rfl, hrest⟩ := value_append_inj hv.1 hw.1 (ends_moreFields fs x) (ends_moreFields gs y)
        (List.cons.inj hbody).2
    obtain ⟨rfl, hxy⟩ := moreFields_append_inj hv.2 hw.2 hrest
    exact ⟨rfl, hxy⟩

end

end Injective

end JsonText

/-- **A value can be told from its text.** -/
theorem Value.text_injective [LawfulF64Text F] {v w : Value F} (hv : v.AllJson) (hw : w.AllJson) (h : v.text = w.text) :
    v = w := by
  have hlist : JsonText.value v = JsonText.value w := String.ofList_injective h
  exact (JsonText.value_append_inj (x := []) (y := []) hv hw nofun nofun (by rw [hlist])).1

end ChiffonDB

import ChiffonDB.Schema.JsonText

/-!
# Indented JSON texts

`serde_json::to_string_pretty`: the text of a value with a line for each element and each field.

* `Value.prettyText` — the text; `JsonText.squeeze` — a text without the blanks between its tokens.
* `JsonText.squeeze_pretty` — **only blanks are added to the text on one line**.
* `Value.prettyText_injective` — **a value can be told from its indented text**.
-/

set_option autoImplicit false

set_option linter.unusedSectionVars false

namespace ChiffonDB

variable {F : Type} [F64 F] [F64Text F]

namespace JsonText

/-! ## The writer -/

/-- The end of a line, and the indentation of the next one. -/
def newline (depth : Nat) : List Char := '\n' :: List.replicate (2 * depth) ' '

mutual

/-- `PrettyFormatter`, with two blanks for each level. -/
def pretty (depth : Nat) : Value F → List Char
  | .array (v :: vs) => '[' :: (newline (depth + 1) ++ (pretty (depth + 1) v ++ prettyItems depth vs))
  | .object ((k, v) :: fields) =>
    openBrace :: (newline (depth + 1) ++ (string k ++ ':' :: ' ' :: (pretty (depth + 1) v ++ prettyFields depth fields)))
  | .array [] => ['[', ']']
  | .object [] => [openBrace, closeBrace]
  | .null => "null".toList
  | .bool b => (if b then "true" else "false").toList
  | .number n => n.text.toList
  | .string s => string s

def prettyItems (depth : Nat) : List (Value F) → List Char
  | [] => newline depth ++ [']']
  | v :: vs => ',' :: (newline (depth + 1) ++ (pretty (depth + 1) v ++ prettyItems depth vs))

def prettyFields (depth : Nat) : List (String × Value F) → List Char
  | [] => newline depth ++ [closeBrace]
  | (k, v) :: fields =>
    ',' :: (newline (depth + 1) ++ (string k ++ ':' :: ' ' :: (pretty (depth + 1) v ++ prettyFields depth fields)))

end

end JsonText

/-- `serde_json::to_string_pretty`. -/
def Value.prettyText (v : Value F) : String := String.ofList (JsonText.pretty 0 v)

namespace JsonText

/-! ## Blanks -/

def isBlank (c : Char) : Bool := c == ' ' || c == '\n'

mutual

/-- A text without the blanks between its tokens. -/
def squeeze : List Char → List Char
  | [] => []
  | c :: cs => if isBlank c then squeeze cs else c :: (if c = quote then squeezeString cs else squeeze cs)

/-- The rest of a string, as it is. -/
def squeezeString : List Char → List Char
  | [] => []
  | c :: cs => c :: (if c = '\\' then squeezeEscape cs else if c = quote then squeeze cs else squeezeString cs)

/-- The character behind a backslash. -/
def squeezeEscape : List Char → List Char
  | [] => []
  | c :: cs => c :: squeezeString cs

end

variable {x : List Char}

theorem squeeze_blanks {cs : List Char} (h : ∀ c ∈ cs, isBlank c = true) : squeeze (cs ++ x) = squeeze x := by
  induction cs with
  | nil => rfl
  | cons c cs ih =>
    rw [List.cons_append, squeeze, if_pos (h c List.mem_cons_self)]
    exact ih fun d hd => h d (List.mem_cons_of_mem c hd)

theorem squeeze_newline (depth : Nat) : squeeze (newline depth ++ x) = squeeze x := by
  refine squeeze_blanks fun c hc => ?_
  rcases List.mem_cons.1 hc with rfl | hc
  · rfl
  · rw [List.eq_of_mem_replicate hc]
    rfl

/-- A character of a token other than a string. -/
theorem squeeze_cons {c : Char} (hblank : isBlank c = false) (hquote : c ≠ quote) : squeeze (c :: x) = c :: squeeze x := by
  rw [squeeze, hblank, if_neg Bool.false_ne_true, if_neg hquote]

theorem squeeze_plain (cs : List Char) (h : ∀ c ∈ cs, isBlank c = false ∧ c ≠ quote) :
    squeeze (cs ++ x) = cs ++ squeeze x := by
  induction cs with
  | nil => rfl
  | cons c cs ih =>
    obtain ⟨hblank, hquote⟩ := h c List.mem_cons_self
    rw [List.cons_append, squeeze_cons hblank hquote, ih fun d hd => h d (List.mem_cons_of_mem c hd)]
    rfl

/-- A token that is a fixed word. -/
theorem squeeze_word (cs : List Char) (h : cs.all fun c => !isBlank c && !decide (c = quote)) :
    squeeze (cs ++ x) = cs ++ squeeze x := by
  refine squeeze_plain cs fun c hc => ?_
  have hword := List.all_eq_true.1 h c hc
  rw [Bool.and_eq_true, Bool.not_eq_true', Bool.not_eq_true', decide_eq_false_iff_not] at hword
  exact hword

/-- The digits of an escape end no string. -/
theorem hexDigit_ne : ∀ n < 16, hexDigit n ≠ '\\' ∧ hexDigit n ≠ quote := by decide

theorem squeezeString_cons {c : Char} (hslash : c ≠ '\\') (hquote : c ≠ quote) :
    squeezeString (c :: x) = c :: squeezeString x := by
  rw [squeezeString, if_neg hslash, if_neg hquote]

theorem squeezeString_slash (c : Char) : squeezeString ('\\' :: c :: x) = '\\' :: c :: squeezeString x := by
  rw [squeezeString, if_pos rfl, squeezeEscape]

/-- A character of a string. -/
theorem squeezeString_escape (c : Char) : squeezeString (escape c ++ x) = escape c ++ squeezeString x := by
  unfold escape
  split_ifs with hplain h8 h9 h10 h12 h13 hctrl
  · exact squeezeString_slash c
  · exact squeezeString_slash 'b'
  · exact squeezeString_slash 't'
  · exact squeezeString_slash 'n'
  · exact squeezeString_slash 'f'
  · exact squeezeString_slash 'r'
  · obtain ⟨hhigh, hhigh'⟩ := hexDigit_ne (c.toNat / 16) (by omega)
    obtain ⟨hlow, hlow'⟩ := hexDigit_ne (c.toNat % 16) (by omega)
    show squeezeString ('\\' :: 'u' :: '0' :: '0' :: hexDigit _ :: hexDigit _ :: x) = _
    rw [squeezeString_slash, squeezeString_cons (by decide) (by decide), squeezeString_cons (by decide) (by decide),
      squeezeString_cons hhigh hhigh', squeezeString_cons hlow hlow']
    rfl
  · exact squeezeString_cons (fun h => hplain (.inr h)) fun h => hplain (.inl h)

theorem squeeze_string (s : String) : squeeze (string s ++ x) = string s ++ squeeze x := by
  have hbody : ∀ cs : List Char, squeezeString (cs.flatMap escape ++ quote :: x) =
      cs.flatMap escape ++ quote :: squeeze x := by
    intro cs
    induction cs with
    | nil => rw [List.flatMap_nil, List.nil_append, squeezeString, if_neg (by decide), if_pos rfl, List.nil_append]
    | cons c cs ih => rw [List.flatMap_cons, List.append_assoc, squeezeString_escape, ih, List.append_assoc]
  unfold string
  rw [List.cons_append, List.append_assoc, squeeze, if_neg (by decide), if_pos rfl]
  show quote :: squeezeString (s.toList.flatMap escape ++ quote :: x) = _
  rw [hbody, List.cons_append, List.append_assoc]
  rfl

variable [LawfulF64Text F]

theorem squeeze_number {n : Number F} (hn : n.IsJson) : squeeze (n.text.toList ++ x) = n.text.toList ++ squeeze x := by
  refine squeeze_plain _ fun c hc => ?_
  have hnumeric := Number.numeric_of_mem_text hn hc
  constructor
  · cases hblank : isBlank c with
    | false => rfl
    | true =>
      rcases Bool.or_eq_true_iff.1 hblank with h | h
      · rw [beq_iff_eq.1 h] at hnumeric
        cases hnumeric
      · rw [beq_iff_eq.1 h] at hnumeric
        cases hnumeric
  · rintro rfl
    cases hnumeric

/-! ## Values -/

mutual

/-- **Only blanks are added to the text on one line.** -/
theorem squeeze_pretty : ∀ {v : Value F}, v.AllJson → ∀ (depth : Nat) (x : List Char),
    squeeze (pretty depth v ++ x) = value v ++ squeeze x
  | .null, _, depth, x => squeeze_word "null".toList rfl
  | .bool true, _, depth, x => squeeze_word "true".toList rfl
  | .bool false, _, depth, x => squeeze_word "false".toList rfl
  | .number n, hv, depth, x => squeeze_number hv
  | .string s, _, depth, x => squeeze_string s
  | .array [], _, depth, x => squeeze_word ['[', ']'] rfl
  | .object [], _, depth, x => squeeze_word [openBrace, closeBrace] rfl
  | .array (v :: vs), hv, depth, x => by
    rw [pretty, array_append, List.cons_append, squeeze_cons (by decide) (by decide), List.append_assoc, squeeze_newline,
      List.append_assoc, squeeze_pretty hv.1, squeeze_prettyItems hv.2]
  | .object ((k, v) :: fields), hv, depth, x => by
    rw [pretty, object_append, List.cons_append, squeeze_cons (by decide) (by decide), List.append_assoc, squeeze_newline,
      List.append_assoc, squeeze_string, List.cons_append, List.cons_append, squeeze_cons (by decide) (by decide),
      squeeze, if_pos (by decide), List.append_assoc, squeeze_pretty hv.1, squeeze_prettyFields hv.2]

theorem squeeze_prettyItems : ∀ {vs : List (Value F)}, Value.AllJsonItems vs → ∀ (depth : Nat) (x : List Char),
    squeeze (prettyItems depth vs ++ x) = moreItems vs ++ squeeze x
  | [], _, depth, x => by
    rw [prettyItems, List.append_assoc, squeeze_newline]
    exact squeeze_cons (by decide) (by decide)
  | v :: vs, hv, depth, x => by
    rw [prettyItems, moreItems_append, List.cons_append, squeeze_cons (by decide) (by decide), List.append_assoc,
      squeeze_newline, List.append_assoc, squeeze_pretty hv.1, squeeze_prettyItems hv.2]

theorem squeeze_prettyFields : ∀ {fields : List (String × Value F)}, Value.AllJsonFields fields →
    ∀ (depth : Nat) (x : List Char), squeeze (prettyFields depth fields ++ x) = moreFields fields ++ squeeze x
  | [], _, depth, x => by
    rw [prettyFields, List.append_assoc, squeeze_newline]
    exact squeeze_cons (by decide) (by decide)
  | (k, v) :: fields, hv, depth, x => by
    rw [prettyFields, moreFields_append, List.cons_append, squeeze_cons (by decide) (by decide), List.append_assoc,
      squeeze_newline, List.append_assoc, squeeze_string, List.cons_append, List.cons_append,
      squeeze_cons (by decide) (by decide), squeeze, if_pos (by decide), List.append_assoc, squeeze_pretty hv.1,
      squeeze_prettyFields hv.2]

end

end JsonText

/-- **A value can be told from its indented text.** -/
theorem Value.prettyText_injective [LawfulF64Text F] {v w : Value F} (hv : v.AllJson) (hw : w.AllJson)
    (h : v.prettyText = w.prettyText) : v = w := by
  have hpretty : JsonText.pretty 0 v = JsonText.pretty 0 w := String.ofList_injective h
  refine Value.text_injective hv hw (congrArg String.ofList ?_)
  have hsqueezed := JsonText.squeeze_pretty hv 0 []
  rw [hpretty, JsonText.squeeze_pretty hw 0 []] at hsqueezed
  exact List.append_cancel_right hsqueezed.symm

end ChiffonDB

import ChiffonDB.Cypher.Arithmetic
import ChiffonDB.Cypher.PathRows
import ChiffonDB.Lib.Distinct
import ChiffonDB.Lib.SortKeys
import ChiffonDB.Traversal.Ordering

/-!
# RETURN

`project_return` of `cypher/executor.rs`.

* `projectReturn` — projects the rows, sorts what it has projected, and takes the distinct rows last.
* `returnRows` — the order of the language: the sorted rows, projected, the distinct ones of them, SKIP, LIMIT.
* `projectReturn_eq` — **when the two return the same**.
-/

set_option autoImplicit false

namespace ChiffonDB.Cypher

variable {F : Type} [F64 F]

structure ProjectionItem (F : Type) where
  expression : Expression F
  «alias» : Option String

structure SortItem (F : Type) where
  expression : Expression F
  descending : Bool

/-- A RETURN body; without ORDER BY there are no sort items. -/
structure Return (F : Type) where
  distinct : Bool
  items : List (ProjectionItem F)
  order : List (SortItem F)
  skip : Option (Expression F)
  limit : Option (Expression F)

/-! ## The executor -/

/-- `project_row`. -/
def projectRow (row : Props F) : List (ProjectionItem F) → Props F → Outcome (Props F)
  | [], out => pure out
  | item :: items, out => do
    let v ← evalExpr row item.expression
    projectRow row items (out.insert (item.«alias».getD (exprToKey item.expression)) (v.getD .null))

def projectRows (items : List (ProjectionItem F)) : List (Props F) → Outcome (List (Props F))
  | [] => pure []
  | row :: rows => do
    let out ← projectRow row items ∅
    let outs ← projectRows items rows
    pure (out :: outs)

/-- `eval_as_usize`. -/
def evalAsUsize : Expression F → ℕ
  | .number (.integer i) => i.toUInt64.toNat
  | _ => 0

/-- The comparator of one ORDER BY item on projected rows. -/
def compareColumn (item : SortItem F) (a b : Props F) : Ordering :=
  directed (!item.descending) compareValues (a[exprToKey item.expression]?.getD .null)
    (b[exprToKey item.expression]?.getD .null)

/-- `==` on rows. -/
def sameRow (a b : Props F) : Bool := Value.eqFields a.toList b.toList

def skipRows (n : Option ℕ) (rows : List (Props F)) : List (Props F) := rows.drop (n.getD 0)

def limitRows (n : Option ℕ) (rows : List (Props F)) : List (Props F) :=
  match n with
  | some n => rows.take n
  | none => rows

def distinctRows (distinct : Bool) (rows : List (Props F)) : List (Props F) :=
  if distinct then distinctBy sameRow rows else rows

/-- `project_return`. -/
def projectReturn (ret : Return F) (rows : List (Props F)) : Outcome (List (Props F)) := do
  let result ← projectRows ret.items rows
  let result := ret.order.foldr (fun item result => sortBy (compareColumn item) result) result
  let result := skipRows (ret.skip.map evalAsUsize) result
  let result := limitRows (ret.limit.map evalAsUsize) result
  pure (distinctRows ret.distinct result)

/-! ## The language -/

/-- The value of an ORDER BY expression on the row it orders. -/
def rowValue (e : Expression F) (row : Props F) : Value F := (Traced.eval row e).value.getD .null

def compareRows (item : SortItem F) (a b : Props F) : Ordering :=
  directed (!item.descending) compareValues (rowValue item.expression a) (rowValue item.expression b)

/-- The rows in the order of ORDER BY. -/
def orderedRows (ret : Return F) (rows : List (Props F)) : List (Props F) :=
  sortBy (lexicographic (ret.order.map compareRows)) rows

/-- The number that SKIP or LIMIT asks for. -/
def rowCount (e : Expression F) : ℕ :=
  match (Traced.eval ∅ e).value with
  | some (.number n) => (n.asU64.map UInt64.toNat).getD 0
  | _ => 0

/-- LIMIT after SKIP after DISTINCT after the projection of the ordered rows. -/
def returnRows (ret : Return F) (rows : List (Props F)) : Outcome (List (Props F)) := do
  let result ← projectRows ret.items (orderedRows ret rows)
  let result := distinctRows ret.distinct result
  let result := skipRows (ret.skip.map rowCount) result
  pure (limitRows (ret.limit.map rowCount) result)

/-! ## When they agree -/

/-- ORDER BY orders the projected rows as its expressions order the rows. -/
structure OrdersColumns (ret : Return F) (rows : List (Props F)) : Prop where
  preorder : ∀ item ∈ ret.order, PreorderOn (compareRows item) rows
  column : ∀ item ∈ ret.order, ∀ r ∈ rows, ∀ s ∈ rows, ∀ r' s', projectRow r ret.items ∅ = .ok r' →
    projectRow s ret.items ∅ = .ok s' → compareColumn item r' s' = compareRows item r s

/-- SKIP and LIMIT ask for numbers that the executor reads. -/
def CountsLiterally (ret : Return F) : Prop :=
  ∀ e, ret.skip = some e ∨ ret.limit = some e → evalAsUsize e = rowCount e

/-- The distinct rows of the window are the window of the distinct rows. -/
def WindowsDistinct (ret : Return F) (rows : List (Props F)) : Prop :=
  ret.distinct = true → ∀ result, projectRows ret.items (orderedRows ret rows) = .ok result →
    WindowSafe sameRow ((ret.skip.map rowCount).getD 0) ((ret.limit.map rowCount).getD result.length) result

section

variable {ret : Return F} {rows : List (Props F)} {items : List (ProjectionItem F)}

theorem evalExpr_ne_err (row : Props F) (e : Expression F) (err : GraphError) : evalExpr row e ≠ .err err := by
  rw [← Traced.guarded_eval]
  unfold Traced.guarded
  split <;> nofun

theorem projectRow_ne_err (row out : Props F) (err : GraphError) : projectRow row items out ≠ .err err := by
  induction items generalizing out with
  | nil => nofun
  | cons item items ih =>
    rw [projectRow]
    cases he : evalExpr row item.expression with
    | ok v => exact ih _
    | err e => exact absurd he (evalExpr_ne_err row item.expression e)
    | panic => nofun

/-- The projection of a row that has one. -/
def projected (items : List (ProjectionItem F)) (row : Props F) : Props F := returned (projectRow row items ∅) ∅

theorem projectRows_ok (h : ∀ r ∈ rows, ∃ out, projectRow r items ∅ = .ok out) :
    projectRows items rows = .ok (rows.map (projected items)) := by
  induction rows with
  | nil => rfl
  | cons r rows ih =>
    obtain ⟨⟨out, hr⟩, hrs⟩ := List.forall_mem_cons.1 h
    rw [projectRows, hr, ih hrs]
    unfold projected
    rw [List.map_cons, hr]
    rfl

theorem projectRows_panic (h : ¬ ∀ r ∈ rows, ∃ out, projectRow r items ∅ = .ok out) :
    projectRows items rows = .panic := by
  induction rows with
  | nil => exact absurd (fun _ hr => nomatch hr) h
  | cons r rows ih =>
    rw [projectRows]
    cases hr : projectRow r items ∅ with
    | ok out =>
      rw [ih fun hrs => h (List.forall_mem_cons.2 ⟨⟨out, hr⟩, hrs⟩)]
      rfl
    | err e => exact absurd hr (projectRow_ne_err r ∅ e)
    | panic => rfl

/-- Sorting the projected rows column by column is projecting the ordered rows. -/
theorem sorted_columns (hord : OrdersColumns ret rows)
    (hall : ∀ r ∈ rows, ∃ out, projectRow r ret.items ∅ = .ok out) :
    ret.order.foldr (fun item result => sortBy (compareColumn item) result) (rows.map (projected ret.items)) =
      (orderedRows ret rows).map (projected ret.items) := by
  have hproject : ∀ r ∈ rows, projectRow r ret.items ∅ = .ok (projected ret.items r) := by
    intro r hr
    obtain ⟨out, hout⟩ := hall r hr
    unfold projected
    rw [hout]
    rfl
  have hsorts : ∀ order : List (SortItem F), (∀ item ∈ order, item ∈ ret.order) →
      order.foldr (fun item result => sortBy (compareColumn item) result) (rows.map (projected ret.items)) =
        ((order.map compareRows).foldr (fun cmp l => sortBy cmp l) rows).map (projected ret.items) ∧
      ((order.map compareRows).foldr (fun cmp l => sortBy cmp l) rows).Perm rows := by
    intro order hsub
    induction order with
    | nil => exact ⟨rfl, List.Perm.refl rows⟩
    | cons item order ih =>
      obtain ⟨hitem, horder⟩ := List.forall_mem_cons.1 hsub
      obtain ⟨heq, hperm⟩ := ih horder
      rw [List.map_cons, List.foldr_cons, List.foldr_cons, heq]
      refine ⟨(map_sortBy fun a ha b hb => ?_).symm, (sortBy_perm _ _).trans hperm⟩
      have ha' := hperm.mem_iff.1 ha
      have hb' := hperm.mem_iff.1 hb
      exact (hord.column item hitem a ha' b hb' _ _ (hproject a ha') (hproject b hb')).symm
  have hpre : ∀ cmp ∈ ret.order.map compareRows, PreorderOn cmp rows := by
    intro cmp hcmp
    obtain ⟨item, hitem, rfl⟩ := List.mem_map.1 hcmp
    exact hord.preorder item hitem
  rw [(hsorts ret.order fun _ h => h).1, foldr_sortBy hpre]
  rfl

theorem count_eq (hcounts : CountsLiterally ret) :
    ret.skip.map evalAsUsize = ret.skip.map rowCount ∧ ret.limit.map evalAsUsize = ret.limit.map rowCount := by
  constructor
  · cases h : ret.skip with
    | none => rfl
    | some e => exact congrArg some (hcounts e (Or.inl h))
  · cases h : ret.limit with
    | none => rfl
    | some e => exact congrArg some (hcounts e (Or.inr h))

omit [F64 F] in
/-- A window without an end ends with the list. -/
theorem limitRows_eq (n : Option ℕ) {k : ℕ} {l : List (Props F)} (h : l.length ≤ k) :
    limitRows n l = l.take (n.getD k) := by
  cases n with
  | none => exact (List.take_of_length_le h).symm
  | some n => rfl

theorem length_distinctRows_le (distinct : Bool) (l : List (Props F)) :
    (distinctRows distinct l).length ≤ l.length := by
  cases distinct with
  | false => exact Nat.le_refl _
  | true =>
    show (distinctBy sameRow l).length ≤ _
    rw [distinctBy_eq]
    exact length_newBy_le

/-- **RETURN applies its modifiers in the order of the language, if ORDER BY finds its expressions in the columns,
    SKIP and LIMIT have literal counts, and the window does not cut between a row and a duplicate.** -/
theorem projectReturn_eq (hord : OrdersColumns ret rows) (hcounts : CountsLiterally ret)
    (hwindow : WindowsDistinct ret rows) : projectReturn ret rows = returnRows ret rows := by
  obtain ⟨hskip, hlimit⟩ := count_eq hcounts
  have hperm : (orderedRows ret rows).Perm rows := sortBy_perm _ _
  by_cases hall : ∀ r ∈ rows, ∃ out, projectRow r ret.items ∅ = .ok out
  · have hrows := projectRows_ok hall
    have hordered := projectRows_ok fun r hr => hall r (hperm.mem_iff.1 hr)
    have hsafe := fun hd => hwindow hd _ hordered
    unfold projectReturn returnRows
    rw [hrows, hordered, hskip, hlimit]
    show Outcome.ok _ = Outcome.ok _
    rw [sorted_columns hord hall]
    generalize (orderedRows ret rows).map (projected ret.items) = result at hsafe
    rw [limitRows_eq (k := result.length), limitRows_eq (k := result.length)]
    · cases hd : ret.distinct with
      | false => rfl
      | true => exact congrArg Outcome.ok (window_distinctBy (hsafe hd)).symm
    · exact (List.drop_sublist _ _).length_le.trans (length_distinctRows_le ..)
    · exact (List.drop_sublist _ _).length_le
  · have hnone : ¬ ∀ r ∈ orderedRows ret rows, ∃ out, projectRow r ret.items ∅ = .ok out := fun h =>
      hall fun r hr => h r (hperm.mem_iff.2 hr)
    unfold projectReturn returnRows
    rw [projectRows_panic hall, projectRows_panic hnone]
    rfl

end

/-! ## A limit on distinct rows -/

/-- `RETURN DISTINCT a`, with an order and a limit. -/
def distinctLimit (order : List (SortItem Double)) (n : Int64) : Return Double :=
  ⟨true, [⟨.variable "a", none⟩], order, none, some (.number (.integer n))⟩

def rowOf (a : String) : Props Double := (∅ : Props Double).insert "a" (.string a)

theorem mem_rows {r : Props Double} (h : r ∈ [rowOf "y", rowOf "x"]) : r = rowOf "y" ∨ r = rowOf "x" := by
  simpa using h

/-- `RETURN DISTINCT a ORDER BY a LIMIT 1`. -/
theorem projectReturn_eq_ordered : projectReturn (distinctLimit [⟨.variable "a", false⟩] 1) [rowOf "y", rowOf "x"] =
    returnRows (distinctLimit [⟨.variable "a", false⟩] 1) [rowOf "y", rowOf "x"] := by
  refine projectReturn_eq ⟨fun item hitem => ?_, fun item hitem r hr s hs r' s' hr' hs' => ?_⟩ ?_ ?_
  · cases List.mem_singleton.1 hitem
    constructor
    · intro a ha b hb
      rcases mem_rows ha with rfl | rfl <;> rcases mem_rows hb with rfl | rfl <;> rfl
    · intro a ha b hb c hc
      rcases mem_rows ha with rfl | rfl <;> rcases mem_rows hb with rfl | rfl <;>
        rcases mem_rows hc with rfl | rfl <;> decide
  · cases List.mem_singleton.1 hitem
    rcases mem_rows hr with rfl | rfl <;> rcases mem_rows hs with rfl | rfl <;> cases hr' <;> cases hs' <;> rfl
  · rintro e (he | he)
    · cases he
    · cases he
      rfl
  · intro _ result _
    refine Or.inr (Or.inr (Or.inl ?_))
    show (result.take (0 + 1)).Pairwise _
    cases result <;> simp

/-- `RETURN DISTINCT a LIMIT 2` of the rows `x`, `x`, `y` returns `x` alone. -/
theorem return_cuts_before_distinct : projectReturn (distinctLimit [] 2) [rowOf "x", rowOf "x", rowOf "y"] ≠
    returnRows (distinctLimit [] 2) [rowOf "x", rowOf "x", rowOf "y"] := by
  have hcode : projectReturn (distinctLimit [] 2) [rowOf "x", rowOf "x", rowOf "y"] = .ok [rowOf "x"] := rfl
  have hordered : ∀ rows, orderedRows (distinctLimit [] 2) rows = rows := fun _ =>
    (foldr_sortBy fun cmp (h : cmp ∈ []) => nomatch h).symm
  have hlang : returnRows (distinctLimit [] 2) [rowOf "x", rowOf "x", rowOf "y"] = .ok [rowOf "x", rowOf "y"] := by
    unfold returnRows
    rw [hordered]
    rfl
  rw [hcode, hlang]
  intro h
  cases congrArg (List.length ·) (Outcome.ok.inj h)

end ChiffonDB.Cypher

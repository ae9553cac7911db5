import ChiffonDB.Lib.Walk
import ChiffonDB.Schema.Store
import ChiffonDB.Storage.LabelCut
import ChiffonDB.Storage.PropertyIndex
import ChiffonDB.Storage.Topology

/-!
# Reads of arbitrary pages

What the read paths do on a file whose pages hold anything at all.

* `ReadCall` — the calls; `ReadCall.Ends` — the call returns a value or an error.
* `ReadCall.Sane` — the two things the code takes on trust: that an edge list does not come back to an
  edge, and that a property slot lies in its page's directory.
* `ends_iff_sane` — **a call ends exactly if what it takes on trust holds**.
* `zeroPages_hang` — on pages of zeros the edges of a node are never collected.
-/

set_option autoImplicit false

namespace ChiffonDB

open Topology SlottedPage

/-! ## The calls -/

/-- The deserializers of stored bytes. -/
structure Decoders (Ast Properties : Type) where
  schema : List UInt8 → Except GraphError Ast
  properties : List UInt8 → Except GraphError Properties

/-- Deserializers of nothing. -/
def Decoders.blank : Decoders Unit Unit where
  schema := fun _ => .ok ()
  properties := fun _ => .ok ()

inductive ReadCall where
  | collectEdges (node : RecordId) (dir : EdgeDirection)
  | readProperty (rid : RecordId)
  | freeProperty (rid : RecordId)
  | labelGet (typeId : UInt16)
  | labelCount (typeId : UInt16)
  | labelAdd (typeId : UInt16) (rid : RecordId)
  | labelRemove (typeId : UInt16) (rid : RecordId)
  | candidates (key : PropertyIndex.IndexKey)
  | loadSchema
  | resolve (kind : DirKind) (logical : Nat)

variable {Ast Properties : Type} (R : Decoders Ast Properties)

/-- `PropertyStore::read`. -/
def readProperties (rid : RecordId) : Prog Properties := do
  let bytes ← readPropertyBytes rid
  Prog.ofExcept (R.properties bytes)

/-- `load_schema`. -/
def loadSchema : Prog Ast := do
  let bytes ← loadSchemaBytes
  Prog.ofExcept (R.schema bytes)

/-- A call that its own text bounds. -/
def bounded {α : Type} (p : Prog α) : Prog (Option Unit) := do
  let _ ← p
  pure (some ())

/-- What the call has come to within `fuel` steps of a loop that nothing bounds. -/
def ReadCall.prog (fuel : Nat) : ReadCall → Prog (Option Unit)
  | collectEdges node dir => do
    let edges ← collectEdgeChain fuel node dir
    pure (edges.map fun _ => ())
  | readProperty rid => bounded (readProperties R rid)
  | freeProperty rid => bounded (freePropertyBytes rid)
  | labelGet t => bounded (LabelIndex.get t)
  | labelCount t => bounded (LabelIndex.count t)
  | labelAdd t rid => bounded (LabelIndex.add t rid)
  | labelRemove t rid => bounded (LabelIndex.remove t rid)
  | candidates key => bounded (PropertyIndex.candidates key)
  | loadSchema => bounded (ChiffonDB.loadSchema R)
  | resolve kind logical => bounded (do
    let header ← Prog.getHeader
    (pageDir header kind).resolve logical)

/-- A value or an error. -/
def Returned : Outcome (Option Unit) → Prop
  | .ok (some _) => True
  | .ok none => False
  | .err _ => True
  | .panic => False

/-- The call returns. -/
def ReadCall.Ends (c : ReadCall) (db : DatabaseFile) : Prop := ∃ fuel, Returned ((c.prog R fuel).exec db).1

/-! ## What the calls take on trust -/

/-- The edge that a walk reads behind `rid`. -/
def nextEdge (m : PageMap) (dir : EdgeDirection) (rid : RecordId) : Option RecordId :=
  match ((readEdge rid).run m).1 with
  | .ok edge => edge.next dir
  | _ => none

/-- A slot that the page counts has its entry on the page. -/
def SlotOnPage (page : PageData) (slot : UInt16) : Prop :=
  slot < slotCount page → dirOffset slot.toNat + SLOT_ENTRY_SIZE ≤ PAGE_SIZE

def ReadCall.Sane (m : PageMap) : ReadCall → Prop
  | collectEdges node dir => ∀ record, ((readNode node).run m).1 = .ok record →
      Simple (nextEdge m dir) (record.first dir)
  | readProperty rid => rid.slotId ≠ CHAIN_HEAD_SLOT →
      ∀ page, ((readPropertyPage rid.pageId.toNat).run m).1 = .ok page → SlotOnPage page rid.slotId
  | freeProperty rid => rid.slotId ≠ CHAIN_HEAD_SLOT →
      ∀ page, ((readPropertyPage rid.pageId.toNat).run m).1 = .ok page → ¬ pageIsFreeMarked page →
        SlotOnPage page rid.slotId
  | _ => True

/-! ## Reads -/

section Reads

open Prog

theorem reads_ofExcept {α : Type} (r : Except GraphError α) : (Prog.ofExcept r).Reads := by
  cases r <;> trivial

theorem reads_dirWalk (n : Nat) (pid : UInt32) : (PageDirectory.walk n pid).Reads := by
  induction n generalizing pid with
  | zero => trivial
  | succ n ih =>
    refine .bind (.read pid) fun page => ?_
    dsimp only
    split
    · trivial
    · exact ih _

theorem reads_resolve (d : PageDirectory) (logical : Nat) : (d.resolve logical).Reads := by
  unfold PageDirectory.resolve
  split
  · trivial
  · dsimp only
    refine .bind ?_ fun dirPid => ?_
    · unfold PageDirectory.dirPagePid
      split
      · trivial
      · exact reads_dirWalk _ _
    · split
      · trivial
      · exact .bind (.read _) fun page => trivial

theorem reads_resolvePage (kind : DirKind) (logical : Nat) : (resolvePage kind logical).Reads := by
  unfold resolvePage
  refine .bind .getHeader fun header => .bind (reads_resolve _ _) fun physical => ?_
  split <;> trivial

theorem reads_readLogicalPage (kind : DirKind) (logical : Nat) : (readLogicalPage kind logical).Reads :=
  .bind (reads_resolvePage kind logical) fun _ => .read _

theorem reads_readPropertyPage (logical : Nat) : (readPropertyPage logical).Reads :=
  reads_readLogicalPage _ _

theorem reads_readNode (rid : RecordId) : (readNode rid).Reads := by
  unfold readNode
  refine .bind .getHeader fun header => ?_
  dsimp only
  split
  · trivial
  · exact .bind (reads_readLogicalPage _ _) fun page => .bind (reads_ofExcept _) fun bytes => trivial

theorem reads_readEdge (rid : RecordId) : (readEdge rid).Reads := by
  unfold readEdge
  refine .bind .getHeader fun header => ?_
  dsimp only
  split
  · trivial
  · exact .bind (reads_readLogicalPage _ _) fun page => .bind (reads_ofExcept _) fun bytes => trivial

theorem reads_collectEdges (dir : EdgeDirection) (fuel : Nat) (start : Option RecordId) :
    (collectEdges dir fuel start).Reads := by
  induction fuel generalizing start with
  | zero => cases start <;> trivial
  | succ fuel ih =>
    cases start with
    | none => trivial
    | some rid => exact .bind (reads_readEdge rid) fun edge => .bind (ih _) fun rest => trivial

theorem reads_propertyPageCount : propertyPageCount.Reads := .bind .getHeader fun _ => trivial

theorem reads_collectChain (fuel logical : Nat) : (collectChain fuel logical).Reads := by
  induction fuel generalizing logical with
  | zero =>
    unfold collectChain
    refine .bind (reads_readLogicalPage _ _) fun page => ?_
    dsimp only
    split <;> trivial
  | succ fuel ih =>
    unfold collectChain
    refine .bind (reads_readLogicalPage _ _) fun page => ?_
    dsimp only
    split
    · trivial
    · exact .bind (ih _) fun rest => trivial

theorem reads_chainOf (rid : RecordId) : (chainOf rid).Reads :=
  .bind reads_propertyPageCount fun _ => reads_collectChain _ _

theorem reads_count (t : UInt16) : (LabelIndex.count t).Reads := by
  unfold LabelIndex.count
  refine .bind (LabelIndex.reads_headOf t) fun head => ?_
  split
  · trivial
  · refine .bind .count fun limit => .bind (LabelIndex.reads_walk _ _ _ _) fun r => ?_
    split
    case h_1 a => exact nomatch a
    case h_2 => trivial

theorem reads_candidates (key : PropertyIndex.IndexKey) : (PropertyIndex.candidates key).Reads := by
  have hwalk : ∀ n pid, (PropertyIndex.dirWalk n pid).Reads := by
    intro n
    induction n with
    | zero => exact fun _ => trivial
    | succ n ih =>
      intro pid
      refine .bind (.read pid) fun page => ?_
      dsimp only
      split
      · trivial
      · exact ih _
  have hhead : ∀ b, (PropertyIndex.bucketHead b).Reads := by
    intro b
    unfold PropertyIndex.bucketHead
    refine .bind .getHeader fun header => ?_
    dsimp only
    split
    · trivial
    · refine .bind (hwalk _ _) fun pid => ?_
      split
      · trivial
      · exact .bind (.read _) fun page => trivial
  unfold PropertyIndex.candidates
  refine .bind (hhead _) fun head => ?_
  split
  · trivial
  · refine .bind .count fun limit => .bind (LabelIndex.reads_walk _ _ _ _) fun r => ?_
    split
    case h_1 a => exact nomatch a
    case h_2 => trivial

theorem reads_loadSchemaChain (first count : UInt32) (fuel : Nat) (p : UInt32) (pages : List PageData) :
    (loadSchemaChain first count fuel p pages).Reads := by
  induction fuel generalizing p pages with
  | zero => trivial
  | succ fuel ih =>
    refine .bind (.read p) fun page => ?_
    dsimp only
    split
    · trivial
    · split
      · trivial
      · split
        · exact ih _ _
        · trivial

theorem reads_loadSchema : (loadSchema R).Reads := by
  refine .bind ?_ fun bytes => reads_ofExcept _
  unfold loadSchemaBytes
  refine .bind .getHeader fun header => ?_
  dsimp only
  split
  · trivial
  · exact .bind .count fun count => .bind (reads_loadSchemaChain _ _ _ _ _) fun pages => reads_ofExcept _

end Reads

/-! ## Writes -/

section Writes

open Prog LabelIndex

theorem sober_setHead (t : UInt16) (head : UInt32) : (setHead t head).Sober := by
  unfold setHead
  refine .bind ?_ fun _ => ?_
  · unfold ensureRoot
    refine .bind (.of_reads .getHeader) fun header => ?_
    split
    · exact .bind (.append _) fun pid => .bind (.of_reads .getHeader) fun header => .putHeader _
    · trivial
  · unfold placeHead
    refine .bind (.of_reads .getHeader) fun header => ?_
    dsimp only
    refine .bind (.of_reads .count) fun limit => .bind (.of_reads (reads_walk _ _ _ _)) fun r => ?_
    split
    · exact .write _ _
    · exact .bind (.append _) fun newPid => .bind (.read _) fun newPage => .bind (.write _ _) fun _ => .write _ _

theorem sober_promoteSpare (head : UInt32) : (promoteSpare head).Sober := by
  unfold promoteSpare
  refine .bind (.read _) fun headPage => ?_
  dsimp only
  split
  · trivial
  · refine .bind (.read _) fun s1Page => ?_
    split
    · trivial
    · refine .bind (.of_reads (reads_spareRunEnd _ _ _)) fun tail => ?_
      split
      · exact .bind (.write _ _) fun _ => .bind (.write _ _) fun _ => trivial
      · refine .bind (.read _) fun tailPage => .bind (.write _ _) fun _ => .bind (.write _ _) fun _ =>
          .bind (.read _) fun s2Page => ?_
        split
        · exact .bind (.write _ _) fun _ => trivial
        · trivial

theorem sober_addNew (t : UInt16) (rid : RecordId) : (addNew t rid).Sober := by
  unfold addNew
  refine .bind (.of_reads (reads_headOf t)) fun head => ?_
  split
  · exact .bind (.append _) fun newPid => sober_setHead t newPid
  · refine .bind (.read _) fun page => ?_
    split
    · exact .write _ _
    · refine .bind (sober_promoteSpare _) fun r => ?_
      split
      · exact .bind (.read _) fun sparePage => .bind (.write _ _) fun _ => sober_setHead t _
      · exact .bind (.append _) fun newPid => sober_setHead t newPid

theorem sober_add (t : UInt16) (rid : RecordId) : (add t rid).Sober := by
  unfold add
  refine .bind (.of_reads (reads_headOf t)) fun head => ?_
  split
  · exact sober_addNew t rid
  · refine .bind (.of_reads .count) fun limit => .bind (.of_reads (reads_walk _ _ _ _)) fun r => ?_
    split
    · trivial
    · exact sober_addNew t rid

theorem appends_add (t : UInt16) (rid : RecordId) : (add t rid).Appends 3 := by
  have hread : ∀ {α : Type} {p : Prog α}, p.Reads → p.Appends 0 := fun h => .of_readOnly h.readOnly
  unfold add
  refine .bind_zero (hread (reads_headOf t)) fun head => ?_
  split
  · exact appends_addNew t rid
  · refine .bind_zero (hread .count) fun limit => .bind_zero (hread (reads_walk _ _ _ _)) fun r => ?_
    split
    · trivial
    · exact appends_addNew t rid

theorem sober_promoteFirstNonEmpty (t : UInt16) (head : UInt32) : (promoteFirstNonEmpty t head).Sober := by
  unfold promoteFirstNonEmpty
  refine .bind (.read _) fun headPage => ?_
  dsimp only
  split
  · trivial
  · refine .bind (.read _) fun firstPage => .bind (.of_reads (reads_firstNonEmpty _ _ _)) fun found => ?_
    refine .bind (.read _) fun dPage => .bind (.write _ _) fun _ => .bind (sober_setHead _ _) fun _ => ?_
    split
    · exact .bind (.read _) fun lastPage => .bind (.write _ _) fun _ => .bind (.read _) fun headPage =>
        .bind (.write _ _) fun _ => trivial
    · exact .bind (.read _) fun headPage => .bind (.write _ _) fun _ => trivial

theorem appends_promoteFirstNonEmpty (t : UInt16) (head : UInt32) :
    (promoteFirstNonEmpty t head).Appends 2 := by
  unfold promoteFirstNonEmpty
  refine .bind_zero (.read _) fun headPage => ?_
  dsimp only
  split
  · trivial
  · refine .bind_zero (.read _) fun firstPage =>
      .bind_zero (.of_readOnly (reads_firstNonEmpty _ _ _).readOnly) fun found => ?_
    refine .bind_zero (.read _) fun dPage => .bind_zero (.write _ _) fun _ =>
      .bind (n := 2) (k := 0) (appends_setHead _ _) fun _ => ?_
    split
    · exact .bind_zero (.read _) fun lastPage => .bind_zero (.write _ _) fun _ =>
        .bind_zero (.read _) fun headPage => .bind_zero (.write _ _) fun _ => trivial
    · exact .bind_zero (.read _) fun headPage => .bind_zero (.write _ _) fun _ => trivial

theorem sober_remove (t : UInt16) (rid : RecordId) : (remove t rid).Sober := by
  unfold remove
  refine .bind (.of_reads (reads_headOf t)) fun head => ?_
  split
  · trivial
  · refine .bind (.of_reads .count) fun limit => .bind (.of_reads (reads_walk _ _ _ _)) fun r => ?_
    split
    · unfold fillHoleFromHead
      refine .bind ?_ fun donor => ?_
      · unfold donorOf
        refine .bind (.read _) fun page => ?_
        split
        · exact .bind (sober_promoteFirstNonEmpty _ _) fun pid => .bind (.read _) fun donor => trivial
        · trivial
      · dsimp only
        split
        · trivial
        · split
          · exact .write _ _
          · exact .bind (.write _ _) fun _ => .bind (.read _) fun page => .write _ _
    · trivial

theorem appends_remove (t : UInt16) (rid : RecordId) : (remove t rid).Appends 2 := by
  have hread : ∀ {α : Type} {p : Prog α}, p.Reads → p.Appends 0 := fun h => .of_readOnly h.readOnly
  unfold remove
  refine .bind_zero (hread (reads_headOf t)) fun head => ?_
  split
  · trivial
  · refine .bind_zero (hread .count) fun limit => .bind_zero (hread (reads_walk _ _ _ _)) fun r => ?_
    split
    · unfold fillHoleFromHead
      refine .bind (n := 2) (k := 0) ?_ fun donor => ?_
      · unfold donorOf
        refine .bind_zero (.read _) fun page => ?_
        split
        · exact .bind (n := 2) (k := 0) (appends_promoteFirstNonEmpty _ _) fun pid =>
            .bind_zero (.read _) fun donor => trivial
        · trivial
      · dsimp only
        split
        · trivial
        · split
          · exact .write _ _
          · exact .bind_zero (.write _ _) fun _ => .bind_zero (.read _) fun page => .write _ _
    · trivial

theorem sober_updateHeader (f : FileHeader → FileHeader) : (updateHeader f).Sober :=
  .bind (.of_reads .getHeader) fun _ => .putHeader _

theorem appends_updateHeader (f : FileHeader → FileHeader) : (updateHeader f).Appends 0 :=
  .bind_zero (.of_readOnly Reads.getHeader.readOnly) fun _ => .putHeader _

theorem sober_writeLogicalPage (kind : DirKind) (logical : Nat) (d : PageData) :
    (writeLogicalPage kind logical d).Sober :=
  .bind (.of_reads (reads_resolvePage _ _)) fun _ => .write _ _

theorem appends_writeLogicalPage (kind : DirKind) (logical : Nat) (d : PageData) :
    (writeLogicalPage kind logical d).Appends 0 :=
  .bind_zero (.of_readOnly (reads_resolvePage _ _).readOnly) fun _ => .write _ _

theorem sober_freePropertyPage (logical : Nat) : (freePropertyPage logical).Sober :=
  .bind (.of_reads .getHeader) fun _ => .bind (sober_writeLogicalPage _ _ _) fun _ => sober_updateHeader _

theorem appends_freePropertyPage (logical : Nat) : (freePropertyPage logical).Appends 0 :=
  .bind_zero (.of_readOnly Reads.getHeader.readOnly) fun _ =>
    .bind_zero (appends_writeLogicalPage _ _ _) fun _ => appends_updateHeader _

theorem reads_propertyFirstFreeHint : propertyFirstFreeHint.Reads := .bind .getHeader fun _ => trivial

theorem sober_backOffPropertyHint (logical : Nat) : (backOffPropertyHint logical).Sober := by
  refine .bind (.of_reads reads_propertyFirstFreeHint) fun hint => ?_
  split
  · exact sober_updateHeader _
  · trivial

theorem appends_backOffPropertyHint (logical : Nat) : (backOffPropertyHint logical).Appends 0 := by
  refine .bind_zero (.of_readOnly reads_propertyFirstFreeHint.readOnly) fun hint => ?_
  split
  · exact appends_updateHeader _
  · trivial

theorem sober_freeChainPages (logicals : List Nat) : (freeChainPages logicals).Sober := by
  induction logicals with
  | nil => trivial
  | cons l ls ih =>
    exact .bind (sober_freePropertyPage l) fun _ => .bind (sober_backOffPropertyHint l) fun _ => ih

theorem appends_freeChainPages (logicals : List Nat) : (freeChainPages logicals).Appends 0 := by
  induction logicals with
  | nil => trivial
  | cons l ls ih =>
    exact .bind_zero (appends_freePropertyPage l) fun _ =>
      .bind_zero (appends_backOffPropertyHint l) fun _ => ih

end Writes

/-! ## Slots -/

section Slots

variable {page : PageData} {slot : UInt16}

theorem readProperty_panics : readProperty page slot = .panic ↔ ¬ SlotOnPage page slot := by
  unfold readProperty SlotOnPage
  by_cases hs : slot ≥ slotCount page
  · have : ¬ slot < slotCount page := UInt16.not_lt.2 hs
    simp [hs, this]
  · have : slot < slotCount page := UInt16.not_le.1 hs
    by_cases hd : dirOffset slot.toNat + SLOT_ENTRY_SIZE > PAGE_SIZE
    · rw [if_neg hs, if_pos hd]
      simp only [true_iff]
      intro h
      have := h this
      omega
    · rw [if_neg hs, if_neg hd]
      have hno : ¬ ¬ (slot < slotCount page → dirOffset slot.toNat + SLOT_ENTRY_SIZE ≤ PAGE_SIZE) :=
        not_not.2 fun _ => by omega
      refine iff_of_false ?_ hno
      dsimp only
      split
      · simp
      · split <;> simp

theorem freeSlot_panics : freeSlot page slot = .panic ↔ ¬ SlotOnPage page slot := by
  unfold freeSlot SlotOnPage
  by_cases hs : slot ≥ slotCount page
  · have : ¬ slot < slotCount page := UInt16.not_lt.2 hs
    simp [hs, this]
  · have : slot < slotCount page := UInt16.not_le.1 hs
    by_cases hd : dirOffset slot.toNat + SLOT_ENTRY_SIZE > PAGE_SIZE
    · rw [if_neg hs, dif_pos hd]
      simp only [true_iff]
      intro h
      have := h this
      omega
    · rw [if_neg hs, dif_neg hd]
      have hno : ¬ ¬ (slot < slotCount page → dirOffset slot.toNat + SLOT_ENTRY_SIZE ≤ PAGE_SIZE) :=
        not_not.2 fun _ => by omega
      refine iff_of_false ?_ hno
      dsimp only
      split <;> simp

end Slots

/-! ## Edge lists -/

section Edges

variable {m : PageMap} {dir : EdgeDirection}

/-- The walk of `collect_edge_chain` has come to its end, or to an edge it cannot read. -/
def Collected : Outcome (Option (List EdgeRecord)) → Prop
  | .ok (some _) => True
  | .ok none => False
  | .err _ => True
  | .panic => False

/-- Reading the first edge of a walk, and going on. -/
theorem run_collectEdges_succ (m : PageMap) (dir : EdgeDirection) (fuel : Nat) (rid : RecordId) :
    (∃ e, ((collectEdges dir (fuel + 1) (some rid)).run m).1 = .err e ∧ nextEdge m dir rid = none) ∨
    ∃ edge : EdgeRecord, nextEdge m dir rid = edge.next dir ∧
      (Collected ((collectEdges dir (fuel + 1) (some rid)).run m).1 ↔
        Collected ((collectEdges dir fuel (edge.next dir)).run m).1) := by
  unfold nextEdge
  rw [collectEdges, Prog.run_bind]
  have hsame := (reads_readEdge rid).readOnly.run_snd m
  have hno := (reads_readEdge rid).noPanic (m := m)
  cases hr : (readEdge rid).run m with
  | mk r m' =>
    rw [hr] at hsame
    unfold Prog.NoPanic at hno
    rw [hr] at hno
    obtain rfl : m' = m := hsame
    cases r with
    | err e => exact .inl ⟨e, rfl, rfl⟩
    | panic => exact absurd rfl hno
    | ok edge =>
      refine .inr ⟨edge, rfl, ?_⟩
      rw [Prog.andThen_ok, Prog.run_bind]
      cases (collectEdges dir fuel (edge.next dir)).run m' with
      | mk r m'' =>
        cases r with
        | ok rest => cases rest <;> rfl
        | err e => rfl
        | panic => rfl

/-- **The walk comes to an end exactly if the links do.** -/
theorem collected_iff (start : Option RecordId) :
    (∃ fuel, Collected ((collectEdges dir fuel start).run m).1) ↔ Ends (nextEdge m dir) start := by
  constructor
  · rintro ⟨fuel, h⟩
    induction fuel generalizing start with
    | zero =>
      cases start with
      | none => exact ⟨0, rfl⟩
      | some rid => exact h.elim
    | succ fuel ih =>
      cases start with
      | none => exact ⟨0, rfl⟩
      | some rid =>
        rcases run_collectEdges_succ m dir fuel rid with ⟨e, -, hn⟩ | ⟨edge, hn, hiff⟩
        · exact ⟨1, hn⟩
        · obtain ⟨n, hend⟩ := ih _ (hiff.1 h)
          exact ⟨n + 1, by rw [walkAt_succ, hn]; exact hend⟩
  · rintro ⟨n, h⟩
    refine ⟨n, ?_⟩
    induction n generalizing start with
    | zero =>
      obtain rfl : start = none := h
      trivial
    | succ n ih =>
      cases start with
      | none => trivial
      | some rid =>
        rcases run_collectEdges_succ m dir n rid with ⟨e, he, -⟩ | ⟨edge, hn, hiff⟩
        · rw [he]
          trivial
        · rw [walkAt_succ, hn] at h
          exact hiff.2 (ih _ h)

end Edges

/-! ## When the calls end -/

section EndsIff

variable {m : PageMap}

theorem returned_bounded {α : Type} (p : Prog α) : Returned ((bounded p).run m).1 ↔ p.NoPanic m := by
  unfold bounded Prog.NoPanic
  rw [Prog.run_bind]
  cases p.run m with
  | mk r m' => cases r <;> simp [Returned]

theorem run_ofOutcome {α : Type} (r : Outcome α) : ((Prog.ofOutcome r).run m).1 = r := by
  cases r <;> rfl

theorem run_ofExcept_ne_panic {α : Type} (r : Except GraphError α) : ((Prog.ofExcept r).run m).1 ≠ .panic :=
  (reads_ofExcept r).noPanic

/-- What follows a read, which leaves the pages as they are. -/
theorem noPanic_bind_reads {α β : Type} {p : Prog α} (hp : p.Reads) {f : α → Prog β} :
    (p >>= f).NoPanic m ↔ ∀ a, (p.run m).1 = .ok a → (f a).NoPanic m := by
  have hsame := hp.readOnly.run_snd m
  have hno := hp.noPanic (m := m)
  unfold Prog.NoPanic at hno ⊢
  rw [Prog.run_bind]
  cases hr : p.run m with
  | mk r m' =>
    rw [hr] at hsame hno
    obtain rfl : m' = m := hsame
    cases r with
    | ok a => simp
    | err e => simp
    | panic => exact absurd rfl hno

theorem noPanic_bind_ofExcept {α β : Type} {p : Prog α} {f : α → Except GraphError β} :
    (p >>= fun a => Prog.ofExcept (f a)).NoPanic m ↔ p.NoPanic m := by
  unfold Prog.NoPanic
  rw [Prog.run_bind]
  cases p.run m with
  | mk r m' =>
    cases r with
    | ok a => simpa using run_ofExcept_ne_panic (m := m') (f a)
    | err e => simp
    | panic => simp

theorem readProperty_iff (rid : RecordId) :
    (readPropertyBytes rid).NoPanic m ↔ (ReadCall.readProperty rid).Sane m := by
  unfold readPropertyBytes ReadCall.Sane
  by_cases hc : rid.slotId = CHAIN_HEAD_SLOT
  · rw [if_pos hc]
    refine iff_of_true (noPanic_bind_ofExcept.2 (reads_chainOf rid).noPanic) fun h => absurd hc h
  · rw [if_neg hc, noPanic_bind_reads (reads_readPropertyPage _)]
    refine ⟨fun h _ page hp => ?_, fun h page hp => ?_⟩
    · have hno := h page hp
      unfold Prog.NoPanic at hno
      rw [run_ofOutcome] at hno
      exact not_not.1 fun hs => hno (readProperty_panics.2 hs)
    · unfold Prog.NoPanic
      rw [run_ofOutcome]
      exact fun hs => readProperty_panics.1 hs (h hc page hp)

theorem freeProperty_iff (rid : RecordId) :
    (freePropertyBytes rid).NoPanic m ↔ (ReadCall.freeProperty rid).Sane m := by
  have hwrites : ∀ {α : Type} {p : Prog α} {m' : PageMap}, p.Sober → p.Appends 0 → p.NoPanic m' := by
    intro α p m' hs ha
    exact hs.noPanic ha m'.count.toNat_lt
  unfold freePropertyBytes ReadCall.Sane
  by_cases hc : rid.slotId = CHAIN_HEAD_SLOT
  · rw [if_pos hc]
    refine iff_of_true ?_ fun h => absurd hc h
    refine (noPanic_bind_reads (reads_readPropertyPage _)).2 fun head _ => ?_
    split
    · exact .pure _
    · exact (noPanic_bind_reads (reads_chainOf rid)).2 fun pages _ =>
        hwrites (sober_freeChainPages _) (appends_freeChainPages _)
  · rw [if_neg hc]
    dsimp only
    rw [noPanic_bind_reads (reads_readPropertyPage _)]
    refine ⟨fun h _ page hp hmark => ?_, fun h page hp => ?_⟩
    · have hno := h page hp
      rw [if_neg hmark] at hno
      refine not_not.1 fun hs => hno ?_
      rw [freeSlot_panics.2 hs]
      rfl
    · split
      · exact .pure _
      · rename_i hmark
        have hslot := h hc page hp hmark
        cases hf : freeSlot page rid.slotId with
        | panic => exact absurd hslot (freeSlot_panics.1 hf)
        | err e => exact .throw e
        | ok page' =>
          refine .bind (.pure _) fun a m' hr => ?_
          cases hr
          split
          · exact hwrites (.bind (sober_freePropertyPage _) fun _ => sober_backOffPropertyHint _)
              (.bind_zero (appends_freePropertyPage _) fun _ => appends_backOffPropertyHint _)
          · exact hwrites (.bind (sober_writeLogicalPage _ _ _) fun _ => sober_backOffPropertyHint _)
              (.bind_zero (appends_writeLogicalPage _ _ _) fun _ => appends_backOffPropertyHint _)

theorem collectEdges_iff (node : RecordId) (dir : EdgeDirection) :
    (∃ fuel, Returned (((ReadCall.collectEdges node dir).prog R fuel).run m).1) ↔
      (ReadCall.collectEdges node dir).Sane m := by
  unfold ReadCall.prog ReadCall.Sane collectEdgeChain
  have hsame := (reads_readNode node).readOnly.run_snd m
  have hno := (reads_readNode node).noPanic (m := m)
  unfold Prog.NoPanic at hno
  cases hr : (readNode node).run m with
  | mk r m' =>
    rw [hr] at hsame hno
    obtain rfl : m' = m := hsame
    cases r with
    | panic => exact absurd rfl hno
    | err e =>
      refine iff_of_true ⟨0, ?_⟩ fun record h => ?_
      · rw [Prog.run_bind, Prog.run_bind, hr]
        trivial
      · rw [hr] at h
        cases h
    | ok record =>
      have hreturned : ∀ fuel, Returned ((do
          let edges ← (do
            let node ← readNode node
            collectEdges dir fuel (node.first dir))
          pure (edges.map fun _ => ()) : Prog (Option Unit)).run m').1 ↔
          Collected ((collectEdges dir fuel (record.first dir)).run m').1 := by
        intro fuel
        rw [Prog.run_bind, Prog.run_bind, hr, Prog.andThen_ok]
        cases (collectEdges dir fuel (record.first dir)).run m' with
        | mk r m'' =>
          cases r with
          | ok rest => cases rest <;> rfl
          | err e => rfl
          | panic => rfl
      simp only [hreturned]
      rw [collected_iff, ends_iff_simple]
      refine ⟨fun h record' he => ?_, fun h => h record (by rw [hr])⟩
      rw [hr] at he
      cases he
      exact h

end EndsIff

/-- **On pages of any content a call returns exactly if what it takes on trust holds.** -/
theorem ends_iff_sane {db : DatabaseFile} {m : PageMap} (hd : Shows db m)
    (hroom : m.count.toNat + 3 < UInt32.size) (c : ReadCall) : c.Ends R db ↔ c.Sane m := by
  have hrun : c.Ends R db ↔ ∃ fuel, Returned ((c.prog R fuel).run m).1 := by
    unfold ReadCall.Ends
    refine exists_congr fun fuel => ?_
    rw [(hd.exec _).1]
  have hbounded : ∀ {α : Type} (p : Prog α), (∃ _ : Nat, Returned ((bounded p).run m).1) ↔ p.NoPanic m :=
    fun p => exists_const _ |>.trans (returned_bounded p)
  rw [hrun]
  cases c with
  | collectEdges node dir => exact collectEdges_iff R node dir
  | readProperty rid => exact (hbounded _).trans (noPanic_bind_ofExcept.trans (readProperty_iff rid))
  | freeProperty rid => exact (hbounded _).trans (freeProperty_iff rid)
  | labelGet t => exact iff_of_true ((hbounded _).2 (LabelIndex.reads_get t).noPanic) trivial
  | labelCount t => exact iff_of_true ((hbounded _).2 (reads_count t).noPanic) trivial
  | labelAdd t rid =>
    exact iff_of_true ((hbounded _).2 ((sober_add t rid).noPanic (appends_add t rid) hroom)) trivial
  | labelRemove t rid =>
    exact iff_of_true ((hbounded _).2 ((sober_remove t rid).noPanic (appends_remove t rid) (by omega))) trivial
  | candidates key => exact iff_of_true ((hbounded _).2 (reads_candidates key).noPanic) trivial
  | loadSchema => exact iff_of_true ((hbounded _).2 (reads_loadSchema R).noPanic) trivial
  | resolve kind logical =>
    exact iff_of_true ((hbounded _).2
      (Prog.Reads.noPanic (.bind .getHeader fun _ => reads_resolve _ _))) trivial

/-- On a new file. -/
theorem ends_iff_sane_newFile :
    (ReadCall.labelGet 3).Ends Decoders.blank DatabaseFile.createInMemory ↔
      (ReadCall.labelGet 3).Sane PageMap.fresh :=
  ends_iff_sane Decoders.blank Sound.createInMemory.pages (by decide) (ReadCall.labelGet 3)

/-! ## Pages of zeros -/

theorem slice_replicate {off n size : Nat} (h : off + n ≤ size) (b : UInt8) :
    Bytes.slice (List.replicate size b) off n = List.replicate n b := by
  unfold Bytes.slice
  rw [List.drop_replicate, List.take_replicate, Nat.min_eq_left (by omega)]

/-- Slot 0 of a page of zeros. -/
theorem readSlot_zero : RecordPage.readSlot 64 PageData.zero 0 = .ok (List.replicate 64 0) := by
  have hslots : RecordPage.slotCount 64 = 63 := rfl
  unfold RecordPage.readSlot RecordPage.slotOffset
  rw [hslots]
  have hzero : (0 : UInt16).toNat = 0 := rfl
  dsimp only
  rw [hzero, if_neg (by omega)]
  exact congrArg Except.ok (slice_replicate (by decide) 0)

/-- The first node of a page of zeros, and the first edge. -/
theorem readNode_zeroPage {m : PageMap} {D : DirKind → DirPages} (h : Layout m D) {p : UInt32}
    (hphys : (D (.topology .node)).phys = [p]) (hp : m.pages p = some PageData.zero) :
    ((readNode ⟨0, 0⟩).run m).1 = .ok (NodeRecord.deserialize (List.replicate 64 0)) := by
  have hlen := h.len (.topology .node)
  rw [hphys] at hlen
  have hcount : m.header.nodePageCount.toNat = 1 := hlen
  have hcont : (contents m (D (.topology .node)).phys)[(0 : UInt32).toNat]? = some PageData.zero := by
    rw [h.getElem?_contents (by rw [hphys]; rfl), hp]
  have hslot : RecordPage.readSlot NODE_RECORD_SIZE PageData.zero 0 = _ := readSlot_zero
  unfold readNode readTopologyPage
  rw [Prog.run_bind, Prog.run_getHeader, Prog.andThen_ok]
  dsimp only
  rw [hcount, if_neg (by decide), Prog.run_bind, h.run_readLogicalPage, hcont, Prog.andThen_ok,
    Prog.run_bind, hslot]
  rfl

theorem readEdge_zeroPage {m : PageMap} {D : DirKind → DirPages} (h : Layout m D) {p : UInt32}
    (hphys : (D (.topology .edge)).phys = [p]) (hp : m.pages p = some PageData.zero) :
    ((readEdge ⟨0, 0⟩).run m).1 = .ok (EdgeRecord.deserialize (List.replicate 64 0)) := by
  have hlen := h.len (.topology .edge)
  rw [hphys] at hlen
  have hcount : m.header.edgePageCount.toNat = 1 := hlen
  have hcont : (contents m (D (.topology .edge)).phys)[(0 : UInt32).toNat]? = some PageData.zero := by
    rw [h.getElem?_contents (by rw [hphys]; rfl), hp]
  have hslot : RecordPage.readSlot EDGE_RECORD_SIZE PageData.zero 0 = _ := readSlot_zero
  unfold readEdge readTopologyPage
  rw [Prog.run_bind, Prog.run_getHeader, Prog.andThen_ok]
  dsimp only
  rw [hcount, if_neg (by decide), Prog.run_bind, h.run_readLogicalPage, hcont, Prog.andThen_ok,
    Prog.run_bind, hslot]
  rfl

/-- A file whose first node page and first edge page are zeros. -/
theorem exists_zeroPages : ∃ db m, Shows db m ∧ m.count.toNat + 3 < UInt32.size ∧
    ((readNode ⟨0, 0⟩).run m).1 = .ok (NodeRecord.deserialize (List.replicate 64 0)) ∧
    ((readEdge ⟨0, 0⟩).run m).1 = .ok (EdgeRecord.deserialize (List.replicate 64 0)) := by
  have hsize : UInt32.size = 4294967296 := rfl
  obtain ⟨m₀, hd₀, hc₀, hh₀, hz₀⟩ := newFile_shows (.inr rfl)
  obtain ⟨D₀, hl₀, -⟩ := (propPages_new hc₀ hh₀ hz₀).layout
  have hphys : ∀ k, (D₀ k).phys = [] := fun k => by
    have hlen := hl₀.len k
    rw [hh₀] at hlen
    exact List.eq_nil_of_length_eq_zero (hlen.symm.trans (by rcases k with _ | _ | _ <;> rfl))
  have hc₀' : m₀.count.toNat = 1 := by rw [hc₀]; rfl
  have hsucc : (m₀.count + 1).toNat = 2 := by rw [hc₀]; rfl
  rcases hl₀.run_mapPage (.topology .node) PageData.zero with ⟨hfull, -⟩ | ⟨m₁, D₁, hr₁, hm₁⟩
  · omega
  have hc₁ : m₁.count.toNat ≤ 3 := by
    have := hm₁.count
    dsimp only at this
    omega
  rcases hm₁.layout.run_mapPage (.topology .edge) PageData.zero with ⟨hfull, -⟩ | ⟨m₂, D₂, hr₂, hm₂⟩
  · omega
  have hnode₁ : (D₁ (.topology .node)).phys = [m₀.count] := by rw [hm₁.phys, hphys]; rfl
  have hnode₂ : (D₂ (.topology .node)).phys = [m₀.count] := by
    rw [hm₂.others _ (by decide), hnode₁]
  have hedge₂ : (D₂ (.topology .edge)).phys = [m₁.count] := by
    rw [hm₂.phys, hm₁.others _ (by decide), hphys]
    rfl
  have hold : m₀.count ∈ (D₁ (.topology .node)).phys := by rw [hnode₁]; exact List.mem_singleton_self _
  have hne : m₀.count ≠ m₁.count := by
    intro he
    have := (hm₁.layout.bound _ _ (Layout.mem_phys hold)).2
    rw [he] at this
    exact absurd this (UInt32.lt_irrefl _)
  have hp₁ : m₁.pages m₀.count = some PageData.zero := by
    rw [hm₁.old _ (.inl rfl)]
    exact m₀.set_pages_self _ _
  have hp₂ : m₂.pages m₀.count = some PageData.zero := by
    rw [hm₂.old _ (.inr ⟨_, hold⟩), ← hp₁]
    exact m₁.set_pages_of_ne hne _
  have hq₂ : m₂.pages m₁.count = some PageData.zero := by
    rw [hm₂.old _ (.inl rfl)]
    exact m₁.set_pages_self _ _
  have hc₂ : m₂.count.toNat ≤ 5 := by
    have := hm₂.count
    dsimp only at this
    have : (m₁.count + 1).toNat = m₁.count.toNat + 1 := by
      rw [UInt32.toNat_add]
      exact Nat.mod_eq_of_lt (show _ + 1 < 4294967296 by omega)
    omega
  have hd₁ := (hd₀.exec (mapPage (.topology .node) PageData.zero)).2
  rw [hr₁] at hd₁
  have hd₂ := (hd₁.exec (mapPage (.topology .edge) PageData.zero)).2
  rw [hr₂] at hd₂
  exact ⟨_, m₂, hd₂, by omega, readNode_zeroPage hm₂.layout hnode₂ hp₂,
    readEdge_zeroPage hm₂.layout hedge₂ hq₂⟩

/-- **On pages of zeros the edges of a node are never collected**: the first edge is its own successor. -/
theorem zeroPages_hang : ∃ db m, Shows db m ∧ m.count.toNat + 3 < UInt32.size ∧
    ¬ (ReadCall.collectEdges ⟨0, 0⟩ .out).Ends Decoders.blank db := by
  obtain ⟨db, m, hd, hroom, hnode, hedge⟩ := exists_zeroPages
  refine ⟨db, m, hd, hroom, fun ⟨fuel, hend⟩ => ?_⟩
  rw [(hd.exec _).1] at hend
  have hsame := (reads_readNode ⟨0, 0⟩).readOnly.run_snd m
  have hfirst : (NodeRecord.deserialize (List.replicate 64 0)).first .out = some ⟨0, 0⟩ := by decide
  have hnext : (EdgeRecord.deserialize (List.replicate 64 0)).next .out = some ⟨0, 0⟩ := by decide
  have hloop : ∀ fuel, ((collectEdges .out fuel (some ⟨0, 0⟩)).run m).1 = .ok none := by
    intro fuel
    induction fuel with
    | zero => rfl
    | succ fuel ih =>
      rw [collectEdges, Prog.run_bind]
      have hsame := (reads_readEdge ⟨0, 0⟩).readOnly.run_snd m
      cases hr : (readEdge ⟨0, 0⟩).run m with
      | mk r m' =>
        rw [hr] at hsame hedge
        obtain rfl : m' = m := hsame
        obtain rfl : r = _ := hedge
        rw [Prog.andThen_ok, Prog.run_bind, hnext]
        cases hc : (collectEdges .out fuel (some ⟨0, 0⟩)).run m' with
        | mk r m'' =>
          rw [hc] at ih
          obtain rfl : r = _ := ih
          rfl
  unfold ReadCall.prog collectEdgeChain at hend
  rw [Prog.run_bind, Prog.run_bind] at hend
  cases hr : (readNode ⟨0, 0⟩).run m with
  | mk r m' =>
    rw [hr] at hsame hnode hend
    obtain rfl : m' = m := hsame
    obtain rfl : r = _ := hnode
    rw [Prog.andThen_ok, hfirst] at hend
    cases hc : (collectEdges .out fuel (some ⟨0, 0⟩)).run m' with
    | mk r m'' =>
      have hloop := hloop fuel
      rw [hc] at hloop hend
      obtain rfl : r = _ := hloop
      exact hend

end ChiffonDB

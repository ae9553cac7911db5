import ChiffonDB.Graph.RenameEffects
import ChiffonDB.Lib.Inverted

/-!
# Changing the type of a field

What `change_node_field_type` and `change_edge_field_type` do to the contents of a database.

* `convertible` — the value of a field that is there and not null; `convertPlan` — all of them converted.
* `SharesValue`, `Contents.FieldUnique` — what `@unique` forbids, and what it promises.
* `Converted` — the report of a change, and what the change leaves behind.
* `Graph.meets_fieldConverted` — **the schema and all records change together, or nothing does**.
-/

set_option autoImplicit false

set_option linter.unusedSectionVars false

namespace ChiffonDB

open Action PropertyIndex

variable {F : Type} [F64 F] [F64Text F] {M : Type} [FaithfulBacking M]

/-! ## Values -/

/-- The value of a field, if there is one that is not null. -/
def convertible (fieldName : String) (props : Props F) : Option (Value F) :=
  match props[fieldName]? with
  | none | some .null => none
  | some v => some v

theorem convertible_empty (fieldName : String) : convertible fieldName (∅ : Props F) = none := by
  have hget : (∅ : Props F)[fieldName]? = none := by simp
  unfold convertible
  rw [hget]

theorem convertible_of_none {fieldName : String} {props : Props F} (h : props[fieldName]? = none) :
    convertible fieldName props = none := by
  unfold convertible
  rw [h]

theorem convertible_of_null {fieldName : String} {props : Props F} (h : props[fieldName]? = some .null) :
    convertible fieldName props = none := by
  unfold convertible
  rw [h]

theorem convertible_of_ne {fieldName : String} {props : Props F} {v : Value F} (h : props[fieldName]? = some v)
    (hne : v ≠ .null) : convertible fieldName props = some v := by
  unfold convertible
  rw [h]
  cases v with
  | null => exact absurd rfl hne
  | _ => rfl

/-- What is stored in place of a value. -/
def convertedValue (target : TypeExpr) (old : Value F) : Value F := (convertValue old target).getD .null

/-- What a change of the type makes of a record. -/
def convertPlan (C : Codecs F) (kind : RecordKind) (typeId : UInt16) (fieldName : String) (target : TypeExpr)
    (indexed : Bool) : Plan F := fun k _ ty props =>
  if k = kind ∧ ty = typeId then
    (convertible fieldName props).bind fun old =>
      if (convertedValue target old).eq old then none
      else some ⟨props.insert fieldName (convertedValue target old), keysAt C indexed typeId fieldName (some old),
        keysAt C indexed typeId fieldName (some (convertedValue target old))⟩
  else none

/-- Whether the value of a record of the type converts; nothing where there is none. -/
def converts (typeId : UInt16) (fieldName : String) (target : TypeExpr) (recordType : UInt16) (props : Props F) :
    Option Bool :=
  if recordType = typeId then (convertible fieldName props).map fun old => (convertValue old target).isSome else none

namespace Contents

/-- Whether the value of a record converts. -/
def converts (c : Contents F) (kind : RecordKind) (typeId : UInt16) (fieldName : String) (target : TypeExpr)
    (rid : RecordId) : Option Bool :=
  (c.record kind rid).bind fun r => ChiffonDB.converts typeId fieldName target r.1 r.2

end Contents

/-! ## Uniqueness -/

/-- Two values that are equal, whichever of them is compared with the other one. -/
def Value.Agree (v w : Value F) : Prop := v.eq w = true ∧ w.eq v = true

/-- The keys of a row for one field of its type. -/
def fieldTerms (C : Codecs F) (typeId : UInt16) (name : String) (row : NodeRow F) (key : IndexKey) : Prop :=
  row.typeId = typeId ∧ key ∈ keysAt C true typeId name row.props[name]?

/-- Two rows that a `@unique` field does not allow: they have the same value there, under one key. -/
def SharesValue (C : Codecs F) (typeId : UInt16) (name : String) (row row' : NodeRow F) : Prop :=
  (∃ key, fieldTerms C typeId name row key ∧ fieldTerms C typeId name row' key) ∧
    ∃ v w, row.props[name]? = some v ∧ row'.props[name]? = some w ∧ v.Agree w

theorem SharesValue.symm {C : Codecs F} {typeId : UInt16} {name : String} {row row' : NodeRow F} (h : SharesValue C typeId name row row') :
    SharesValue C typeId name row' row := by
  obtain ⟨⟨key, hrow, hrow'⟩, v, w, hv, hw, hsame⟩ := h
  exact ⟨⟨key, hrow', hrow⟩, w, v, hw, hv, hsame.symm⟩

namespace Contents

/-- The index has all nodes of a type under their values of a field. -/
def FieldIndexed (C : Codecs F) (c : Contents F) (typeId : UInt16) (name : String) : Prop :=
  HasAll (fieldTerms C typeId name) c.nodes fun key rid => (key, rid) ∈ c.entries

/-- No two live nodes of a type have the same value of a field. -/
def FieldUnique (C : Codecs F) (c : Contents F) (typeId : UInt16) (name : String) : Prop :=
  Apart (SharesValue C typeId name) c.nodes

/-- What the check of a converted value finds out: no other node that the index has under its key has an equal one. -/
def NoOther (C : Codecs F) (c : Contents F) (typeId : UInt16) (name : String) (rid : RecordId) (value : Value F) : Prop :=
  ∀ key ∈ keysAt C true typeId name (some value), ∀ other row, (key, other) ∈ c.entries → c.nodes other = some row →
    (row.props[name]?).any (·.eq value) = true → other = rid

/-- A field that is unique, and indexed, stays so. -/
def KeepsUnique (C : Codecs F) (typeId : UInt16) (name : String) (c c' : Contents F) : Prop :=
  c.FieldIndexed C typeId name → c.FieldUnique C typeId name → c'.FieldIndexed C typeId name ∧ c'.FieldUnique C typeId name

section Converted

variable {C : Codecs F} {c : Contents F} {rid : RecordId} {name : String} {row : NodeRow F} {old new : Value F}

/-- **A checked row comes, or takes the place of another one.** -/
theorem FieldUnique.checked {typeId : UInt16} (hu : c.FieldUnique C typeId name) (hi : c.FieldIndexed C typeId name)
    (hcheck : ∀ v, row.typeId = typeId → row.props[name]? = some v → c.NoOther C typeId name rid v) :
    Apart (SharesValue C typeId name) (Function.update c.nodes rid (some row)) := by
  refine Apart.checked hu (fun _ _ h => h.symm) (fun _ _ h => h.1) hi fun r hr key hkey other s hentry hs hshare => ?_
  cases hr
  obtain ⟨-, v, w, hv, hw, hsame⟩ := hshare
  have hkey' := hkey.2
  rw [hv] at hkey'
  exact hcheck v hkey.1 hv key hkey' other s hentry hs (by rw [hw]; exact hsame.2)

/-- **A checked value takes the place of another one.** -/
theorem FieldUnique.converted (hu : c.FieldUnique C row.typeId name) (hi : c.FieldIndexed C row.typeId name)
    (hrow : c.nodes rid = some row) (hnone : c.NoOther C row.typeId name rid new) (dropped : List IndexKey) :
    (c.rewriteOne .node rid ⟨row.props.insert name new, dropped,
      keysAt C true row.typeId name (some new)⟩).FieldUnique C row.typeId name := by
  show Apart _ (Function.update c.nodes rid _)
  rw [hrow]
  refine FieldUnique.checked hu hi fun v _ hv => ?_
  dsimp only at hv
  rw [Std.ExtTreeMap.getElem?_insert_self] at hv
  cases hv
  exact hnone

theorem FieldIndexed.converted (hi : c.FieldIndexed C row.typeId name) (hrow : c.nodes rid = some row)
    (dropped : List IndexKey) : (c.rewriteOne .node rid ⟨row.props.insert name new, dropped,
      keysAt C true row.typeId name (some new)⟩).FieldIndexed C row.typeId name := by
  intro x r key hr hkey
  show (key, x) ∈ indexed .add _ rid (indexed .remove dropped rid c.entries)
  change Function.update c.nodes rid ((c.nodes rid).map _) x = some r at hr
  rw [hrow] at hr
  rcases update_eq_some hr with ⟨rfl, he⟩ | ⟨hne, hold⟩
  · cases he
    have hkey' := hkey.2
    dsimp only at hkey'
    rw [Std.ExtTreeMap.getElem?_insert_self] at hkey'
    exact .inr ⟨hkey', rfl⟩
  · exact .inl ⟨hi x r key hold hkey, fun h => hne h.2⟩

end Converted

end Contents

theorem TypeExpr.one_le_jsonDepth (t : TypeExpr) : 1 ≤ t.jsonDepth := by
  cases t <;> simp [TypeExpr.jsonDepth]

/-- The types that a field can be changed to are not nested. -/
theorem jsonDepth_of_scalarTypeFromName {name : String} {target : TypeExpr} (h : scalarTypeFromName name = some target) :
    target.jsonDepth = 1 := by
  unfold scalarTypeFromName at h
  split at h <;> cases h <;> rfl

namespace Graph

variable {C : Codecs F} {t : Topo} {b : Behind} {c : Contents F} {rid : RecordId}
  {kind : RecordKind} {typeId : UInt16} {fieldName : String} {target : TypeExpr}

/-! ## Index entries -/

/-- The key of a value that is indexed. -/
theorem keysAt_of_indexable {v : Value F} (hv : isIndexableValue v) (typeId : UInt16) (name : String) :
    ∃ key, keyOf C typeId name v = some key ∧ keysAt C true typeId name (some v) = [key] := by
  obtain ⟨key, hkey⟩ := exists_key (C := C) hv typeId name
  refine ⟨key, hkey, ?_⟩
  rw [keysAt_some, if_pos (by simpa using hv), hkey]
  rfl

theorem keysAt_of_not {v : Value F} (hv : ¬ isIndexableValue v) (typeId : UInt16) (name : String) :
    keysAt C true typeId name (some v) = [] := by
  rw [keysAt_some, if_neg (by simpa using hv)]

theorem still_checkConverted (fieldName : String) (value : Value F) (rid other : RecordId) :
    Still (checkConverted C fieldName value rid other : Action (Graph M) _) :=
  .ite (.pure _) ((still_nodePropertiesRaw other).bind fun _ => .ite (.throw _) (.pure _))

/-- **The check of a converted value** against the nodes that the index has under its key. -/
theorem meets_checkCandidates (h : Depicts C t b c) (rid : RecordId) (value : Value F) (others : List RecordId) :
    Meets (Is (M := M) t b) (Action.forEach others (checkConverted C fieldName value rid))
      (fun _ g => (∀ other ∈ others, ∀ row, c.nodes other = some row → (row.props[fieldName]?).any (·.eq value) = true →
        other = rid) ∧ Is t b g) fun _ => True := by
  induction others with
  | nil => exact Meets.pure fun g hg => ⟨by simp, hg⟩
  | cons other others ih =>
    have hhead : Meets (Is (M := M) t b) (checkConverted C fieldName value rid other)
        (fun _ g => (∀ row, c.nodes other = some row → (row.props[fieldName]?).any (·.eq value) = true → other = rid) ∧
          Is t b g) fun _ => True := by
      unfold checkConverted
      split
      · rename_i hself
        exact Meets.pure fun g hg => ⟨fun _ _ _ => hself, hg⟩
      · cases hrow : c.nodes other with
        | none =>
          refine ((still_nodePropertiesRaw other).bind fun props => ?_).keeps (Is t b) |>.mono (fun _ hg => hg)
            (fun _ g hg => ⟨fun row hr => (by cases hr), hg⟩) fun _ _ => trivial
          exact .ite (.throw _) (.pure _)
        | some row =>
          refine Meets.found (finds_nodePropertiesRaw h hrow) ?_
          split
          · exact Meets.throw fun _ _ => trivial
          · rename_i hne
            exact Meets.pure fun g hg => ⟨fun row' hr heq => by cases hr; exact absurd heq hne, hg⟩
    refine Meets.bind hhead fun _ => Meets.given fun hother => ih.mono (fun _ hg => hg) (fun _ g hg => ⟨?_, hg.2⟩) fun _ hg => hg
    intro x hx
    rcases List.mem_cons.1 hx with rfl | hx
    · exact hother
    · exact hg.1 x hx

/-- **The entries of a converted value.** -/
theorem meets_reindexConverted (unique : Bool) (old new : Value F) :
    Meets (Shows (M := M) C c) (reindexConverted C typeId fieldName unique rid old new)
      (fun _ g => (unique = true → c.NoOther C typeId fieldName rid new) ∧
        Shows C (c.reindex rid (keysAt C true typeId fieldName (some old)) (keysAt C true typeId fieldName (some new))) g)
      fun _ => True := by
  refine Meets.bind (Q := fun _ => Shows C (c.reindex rid (keysAt C true typeId fieldName (some old)) [])) ?_ fun _ => ?_
  · unfold Action.onlyIf
    split
    · rename_i hv
      obtain ⟨key, hkey, hkeys⟩ := keysAt_of_indexable (C := C) hv typeId fieldName
      rw [hkeys]
      exact meets_shows fun t b h => Meets.found (finds_indexKey typeId _ hkey)
        ((meets_removeKey key).sure.mono (fun _ hg => hg.shows h) (fun _ _ hg => hg) fun _ hg => hg)
    · rename_i hv
      rw [keysAt_of_not hv, Contents.reindex_nil]
      exact Meets.pure fun _ hg => hg
  · rw [← Contents.reindex_reindex _ (keysAt C true typeId fieldName (some new))]
    unfold Action.onlyIf
    split
    · rename_i hv
      obtain ⟨key, hkey, hkeys⟩ := keysAt_of_indexable (C := C) hv typeId fieldName
      rw [hkeys]
      refine meets_shows fun t b h => Meets.found (finds_indexKey typeId _ hkey) ?_
      refine Meets.bind (Q := fun _ g => (unique = true → c.NoOther C typeId fieldName rid new) ∧
        Shows C (c.reindex rid (keysAt C true typeId fieldName (some old)) []) g) ?_ fun _ => Meets.given fun hnone =>
          (meets_addKey key).sure.mono (fun _ hg => hg) (fun _ _ hg => ⟨hnone, hg⟩) fun _ hg => hg
      split
      · -- the candidates are those of the contents before, but for the node itself
        refine Meets.bind (Q := fun others g => (∀ other, other ∈ others ↔ (key, other) ∈ b.entries) ∧ Is t b g)
          (fun g hg => ?_) fun others => Meets.given fun hothers => ?_
        · obtain ⟨others, hfound, hmem⟩ := FaithfulBacking.candidates_eq key g.pages
          show Post _ _ (Backing.candidates key g.pages, g)
          rw [hfound]
          rw [hg.2] at hmem
          exact ⟨hmem, hg⟩
        · refine (meets_checkCandidates h rid new others).mono (fun _ hg => hg) (fun _ g hg => ⟨fun _ => ?_, hg.2.shows h⟩)
            fun _ _ => trivial
          intro key' hkey' other row hentry hrow heq
          rw [hkeys] at hkey'
          obtain rfl := List.mem_singleton.1 hkey'
          by_contra hne
          refine hne (hg.1 other ((hothers other).2 ?_) row hrow heq)
          rw [h.entries]
          exact .inl ⟨hentry, fun hself => hne hself.2⟩
      · rename_i hunchecked
        exact Meets.pure fun g hg => ⟨fun hu => absurd hu hunchecked, hg.shows h⟩
    · rename_i hv
      rw [keysAt_of_not hv, Contents.reindex_nil]
      refine Meets.pure fun _ hg => ⟨fun _ key hkey => ?_, hg⟩
      rw [keysAt_of_not hv] at hkey
      cases hkey

/-! ## Records -/

/-- A record that the loop leaves as it is. -/
theorem meets_unconverted {recordType : UInt16} {props : Props F} {indexed unique : Bool} {out : Option Unit}
    (hrec : c.record kind rid = some (recordType, props))
    (hplan : convertPlan C kind typeId fieldName target indexed kind rid recordType props = none) :
    Meets (Shows (M := M) C c) (pure out) (fun out' g => out' = out ∧
      (indexed = true → unique = true → Contents.KeepsUnique C typeId fieldName c
        (c.rewrite ((convertPlan C kind typeId fieldName target indexed).on kind [rid]))) ∧
      Shows C (c.rewrite ((convertPlan C kind typeId fieldName target indexed).on kind [rid])) g) fun _ => True := by
  rw [Contents.rewrite_on_none hrec hplan]
  exact Meets.pure fun _ hg => ⟨rfl, fun _ _ hi hu => ⟨hi, hu⟩, hg⟩

/-- **One record of `convert_field_records`.** -/
theorem meets_convertRecord (hC : C.Faithful) {recordType : UInt16} {props : Props F}
    (hrec : c.record kind rid = some (recordType, props)) {indexed : Bool} (hkind : indexed = true → kind = .node)
    (unique : Bool) :
    Meets (Shows (M := M) C c) (convertRecord C kind typeId fieldName target indexed unique rid)
      (fun out g => out = ((converts typeId fieldName target recordType props).filter id).map (fun _ => ()) ∧
        (indexed = true → unique = true → Contents.KeepsUnique C typeId fieldName c
          (c.rewrite ((convertPlan C kind typeId fieldName target indexed).on kind [rid]))) ∧
        Shows C (c.rewrite ((convertPlan C kind typeId fieldName target indexed).on kind [rid])) g) fun _ => True := by
  refine meets_shows fun t b h => ?_
  obtain ⟨r, hfind, hr⟩ := finds_rawPropsOfType (M := M) h hrec typeId
  refine Meets.found hfind ?_
  have hshows : ∀ g : Graph M, Is t b g → Shows C c g := fun g hg => hg.shows h
  rcases hr with ⟨rfl, rfl⟩ | ⟨rfl, hother⟩
  · -- what is known where there is nothing to convert
    have hnone : convertible fieldName props = none →
        convertPlan C kind recordType fieldName target indexed kind rid recordType props = none ∧
        converts recordType fieldName target recordType props = none := by
      intro hv
      unfold convertPlan converts
      rw [if_pos ⟨rfl, rfl⟩, if_pos rfl, hv]
      exact ⟨rfl, rfl⟩
    dsimp only
    split
    · rename_i hv
      obtain ⟨hplan, hconv⟩ := hnone (convertible_of_none hv)
      rw [hconv]
      exact (meets_unconverted hrec hplan).mono hshows (fun _ _ hg => hg) fun _ hg => hg
    · rename_i hv
      obtain ⟨hplan, hconv⟩ := hnone (convertible_of_null hv)
      rw [hconv]
      exact (meets_unconverted hrec hplan).mono hshows (fun _ _ hg => hg) fun _ hg => hg
    · rename_i old hne hv
      have hold : convertible fieldName props = some old := convertible_of_ne hv hne
      have hconv : ((converts recordType fieldName target recordType props).filter id).map (fun _ => ()) =
          (convertValue old target).map fun _ => () := by
        unfold converts
        rw [if_pos rfl, hold, Option.map_some, Option.filter_some]
        cases convertValue old target <;> rfl
      rw [hconv]
      show Meets _ (if (convertedValue target old).eq old then _ else _) _ _
      split
      · rename_i hsame
        refine (meets_unconverted hrec ?_).mono hshows (fun _ _ hg => hg) fun _ hg => hg
        unfold convertPlan
        rw [if_pos ⟨rfl, rfl⟩, hold, Option.bind_some, if_pos hsame]
      · rename_i hdiff
        have hplan : convertPlan C kind recordType fieldName target indexed kind rid recordType props = some
            ⟨props.insert fieldName (convertedValue target old), keysAt C indexed recordType fieldName (some old),
              keysAt C indexed recordType fieldName (some (convertedValue target old))⟩ := by
          unfold convertPlan
          rw [if_pos ⟨rfl, rfl⟩, hold, Option.bind_some, if_neg hdiff]
        rw [Contents.rewrite_on_single hrec hplan]
        refine Meets.bind (Q := fun _ g => (indexed = true → unique = true →
            c.NoOther C recordType fieldName rid (convertedValue target old)) ∧
          Shows C (c.reindex rid (keysAt C indexed recordType fieldName (some old))
            (keysAt C indexed recordType fieldName (some (convertedValue target old)))) g) ?_ fun _ => Meets.given fun halone => ?_
        · unfold Action.onlyIf
          cases indexed with
          | true =>
            exact (meets_reindexConverted unique old _).mono hshows (fun _ _ hg => ⟨fun _ => hg.1, hg.2⟩) fun _ hg => hg
          | false =>
            rw [keysAt_unindexed, keysAt_unindexed, Contents.reindex_nil]
            exact Meets.pure fun g hg => ⟨fun h => (by cases h), hshows g hg⟩
        · refine Meets.bind (meets_replaceRawProps hC ((Contents.record_reindex kind rid _ _).trans hrec) _)
            fun _ => Meets.pure fun g hg => ⟨rfl, fun hindexed hunique hi hu => ?_, ?_⟩
          · obtain rfl := hkind hindexed
            obtain ⟨row, hrow, he⟩ := Option.map_eq_some_iff.1 hrec
            obtain ⟨htype, hprops⟩ := Prod.mk.inj he
            subst htype hprops
            rw [hindexed]
            exact ⟨hi.converted hrow _, hu.converted hi hrow (halone hindexed hunique) _⟩
          · cases kind with
            | node =>
              rw [Contents.rewriteOne_reindex] at hg
              exact hg
            | edge =>
              obtain rfl : indexed = false := by
                cases indexed with
                | false => rfl
                | true => cases hkind rfl
              rw [keysAt_unindexed, keysAt_unindexed, Contents.reindex_nil] at hg
              rw [keysAt_unindexed, keysAt_unindexed]
              exact hg
  · have hplan : convertPlan C kind typeId fieldName target indexed kind rid recordType props = none := by
      unfold convertPlan
      split
      · rename_i hboth
        rw [hother hboth.2, convertible_empty]
        rfl
      · rfl
    have hconv : converts typeId fieldName target recordType props = none := by
      unfold converts
      split
      · rename_i htype
        rw [hother htype, convertible_empty]
        rfl
      · rfl
    rw [hconv]
    exact (meets_unconverted hrec hplan).mono hshows (fun _ _ hg => hg) fun _ hg => hg

/-- **The scan for values that do not convert.** -/
theorem finds_unconvertible (h : Depicts C t b c) (hlive : (c.record kind rid).isSome) :
    Finds (Is (M := M) t b) (unconvertible C kind typeId fieldName target rid)
      (.ok (Option.guard (fun rid => c.converts kind typeId fieldName target rid = some false) rid)) := by
  obtain ⟨⟨recordType, props⟩, hrec⟩ := Option.isSome_iff_exists.1 hlive
  obtain ⟨r, hfind, hr⟩ := finds_rawPropsOfType (M := M) h hrec typeId
  have hconv : c.converts kind typeId fieldName target rid = converts typeId fieldName target recordType props := by
    unfold Contents.converts
    rw [hrec]
    rfl
  have hguard : ∀ found, (converts typeId fieldName target recordType props = some false ↔ found = some rid) →
      (found = none ∨ found = some rid) →
      Option.guard (fun rid => c.converts kind typeId fieldName target rid = some false) rid = found := by
    intro found hiff hor
    show (if decide (c.converts kind typeId fieldName target rid = some false) = true then some rid else none) = found
    rw [hconv]
    by_cases hfalse : converts typeId fieldName target recordType props = some false
    · rw [if_pos (by simpa using hfalse), hiff.1 hfalse]
    · rw [if_neg (by simpa using hfalse)]
      exact (hor.resolve_right fun he => hfalse (hiff.2 he)).symm
  refine hfind.bind (u := fun _ => .ok _) fun r' hr' => ?_
  cases hr'
  rcases hr with ⟨rfl, rfl⟩ | ⟨rfl, hother⟩
  · have hvalue : converts recordType fieldName target recordType props =
        (convertible fieldName props).map fun old => (convertValue old target).isSome := if_pos rfl
    rw [hvalue] at hguard
    dsimp only
    split
    · rename_i hv
      rw [hguard none (by simp [convertible_of_none hv]) (.inl rfl)]
      exact Finds.pure _
    · rename_i hv
      rw [hguard none (by simp [convertible_of_null hv]) (.inl rfl)]
      exact Finds.pure _
    · rename_i old hne hv
      rw [convertible_of_ne hv hne] at hguard
      cases hc : convertValue old target with
      | none =>
        rw [hguard (some rid) (by simp [hc]) (.inr rfl)]
        exact Finds.pure _
      | some new =>
        rw [hguard none (by simp [hc]) (.inl rfl)]
        exact Finds.pure _
  · have hnone : converts typeId fieldName target recordType props = none := by
      unfold converts
      split
      · rename_i htype
        rw [hother htype, convertible_empty]
        rfl
      · rfl
    rw [hguard none (by simp [hnone]) (.inl rfl)]
    exact Finds.pure _

/-- **`convert_field_records`.** -/
theorem meets_convertFieldRecords (hC : C.Faithful) {ast : SchemaAst} (hast : ast.Shallow) {rids : List RecordId}
    (hcovers : Covers c kind typeId rids) (fieldName : String) (target : TypeExpr) {indexed : Bool}
    (hkind : indexed = true → kind = .node) (unique : Bool) :
    Meets (Shows (M := M) C c) (convertFieldRecords C ast kind typeId rids fieldName target indexed unique)
      (fun n g => n = (rids.filter fun rid => c.converts kind typeId fieldName target rid = some true).length ∧
        ∃ dto, c.Saves ast false dto ∧
          (indexed = true → unique = true → Contents.KeepsUnique C typeId fieldName c
            ((c.withSchema (some dto)).rewrite (convertPlan C kind typeId fieldName target indexed))) ∧
          Shows C ((c.withSchema (some dto)).rewrite (convertPlan C kind typeId fieldName target indexed)) g)
      fun _ => True := by
  refine Meets.bind ((meets_saveSchemaWith hC hast false).mono (fun _ hg => hg) (fun _ _ hg => hg) fun _ _ => trivial)
    fun _ => Meets.exists fun dto => Meets.given fun hsaves => ?_
  have hcovers' : Covers (c.withSchema (some dto)) kind typeId rids := ⟨hcovers.nodup, hcovers.live, hcovers.all⟩
  have hplan := hcovers'.rewrite_on (convertPlan C kind typeId fieldName target indexed)
    fun k rid ty props hother => if_neg hother
  refine Meets.bind (meets_collectRewrites (convertPlan C kind typeId fieldName target indexed)
    (fun c' => indexed = true → unique = true → Contents.KeepsUnique C typeId fieldName c c')
    (fun ty ps => ((converts typeId fieldName target ty ps).filter id).map fun _ => ())
    hcovers'.nodup (fun c' rid ty ps _ hrec hkept => ?_) hcovers'.live fun _ _ hi hu => ⟨hi, hu⟩)
    fun out => Meets.pure fun g hg => ?_
  · refine (meets_convertRecord hC hrec hkind unique).mono (fun _ hg => hg)
      (fun _ _ hg => ⟨hg.1, fun hindexed hunique hi hu => ?_, hg.2.2⟩) fun _ hg => hg
    obtain ⟨hi', hu'⟩ := hkept hindexed hunique hi hu
    exact hg.2.1 hindexed hunique hi' hu'
  · obtain ⟨hout, hkept, hshows⟩ := hg
    rw [hplan] at hshows hkept
    refine ⟨?_, dto, hsaves, hkept, hshows⟩
    rw [hout, List.length_filterMap_eq_countP, List.countP_eq_length_filter]
    congr 1
    refine List.filter_congr fun rid _ => ?_
    show (((c.record kind rid).bind fun r => _).isSome) = _
    unfold Contents.converts
    cases c.record kind rid with
    | none => rfl
    | some r =>
      rw [Option.bind_some, Option.bind_some]
      rcases converts typeId fieldName target r.1 r.2 with _ | (_ | _) <;> rfl

/-! ## The operation -/

/-- What a change of the type of a field leaves behind, with its report: records whose values do not convert, and those
    whose values do. A field that is `@unique` stays so. -/
def ConvertedRecords (C : Codecs F) (ast : SchemaAst) (kind : RecordKind) (typeId : UInt16) (field : FieldDef)
    (target : TypeExpr) (onFailure : OnConversionFailure) (c c' : Contents F) (change : FieldTypeChange) : Prop :=
  ∃ rids, Covers c kind typeId rids ∧ ∃ failed converted : List RecordId,
    failed = rids.filter (fun rid => c.converts kind typeId field.name target rid = some false) ∧
    converted = rids.filter (fun rid => c.converts kind typeId field.name target rid = some true) ∧
    ((failed ≠ [] ∧ onFailure = .reject) ∧
        change = ⟨false, 0, failed.length, failed.take MAX_REPORTED_FAILURES⟩ ∧ c' = c ∨
      ¬ (failed ≠ [] ∧ onFailure = .reject) ∧
        change = ⟨true, converted.length, failed.length, failed.take MAX_REPORTED_FAILURES⟩ ∧
        (kind = .node → field.unique = true → Contents.KeepsUnique C typeId field.name c c') ∧
        ∃ dto, c.Saves ast false dto ∧ c' = (c.withSchema (some dto)).rewrite
          (convertPlan C kind typeId field.name target (kind = .node && (field.indexed || field.unique))))

/-- **`change_field_type`, from the scan of the records on.** -/
theorem meets_convertField (hC : C.Faithful) (hlabels : c.LabelsExact) {ast : SchemaAst} (hast : ast.Shallow)
    (kind : RecordKind) (typeId : UInt16) (field : FieldDef) (target : TypeExpr) (onFailure : OnConversionFailure) :
    Meets (Shows (M := M) C c) (convertField C ast kind typeId field target onFailure)
      (fun change g => ∃ c', ConvertedRecords C ast kind typeId field target onFailure c c' change ∧ Shows C c' g)
      (Shows C c) := by
  refine Meets.bind (meets_ridsOfKind hlabels kind typeId) fun rids => Meets.given fun hcovers => ?_
  refine meets_shows fun t b h => ?_
  have hscan : Finds (Is (M := M) t b) (Action.collect rids (unconvertible C kind typeId field.name target)) (.ok
      (rids.filter fun rid => c.converts kind typeId field.name target rid = some false)) := by
    rw [← List.filterMap_eq_filter]
    exact Finds.collect fun rid hrid => finds_unconvertible h (hcovers.live rid hrid)
  refine Meets.found hscan ?_
  split
  · rename_i hreject
    refine Meets.pure fun g hg => ⟨c, ⟨rids, hcovers, _, _, rfl, rfl, .inl ⟨?_, rfl, rfl⟩⟩, hg.shows h⟩
    simpa using hreject
  · rename_i hgo
    have hnode : (kind = .node && (field.indexed || field.unique)) = true → kind = .node :=
      fun hi => of_decide_eq_true (Bool.and_eq_true_iff.1 hi).1
    have hrecords := meets_convertFieldRecords (M := M) (c := c) hC hast hcovers field.name target
      hnode (kind = .node && field.unique)
    have hall := meets_orRestore hrecords
    refine Meets.bind (hall.mono (fun g (hg : Is t b g) => hg.shows h) (fun _ _ hg => hg) fun _ hg => hg)
      fun n => Meets.pure fun g hg => ?_
    obtain ⟨rfl, dto, hsaves, hkept, hshows⟩ := hg
    refine ⟨_, ⟨rids, hcovers, _, _, rfl, rfl, .inr ⟨by simpa using hgo, rfl, fun hkind hunique => ?_, dto, hsaves, rfl⟩⟩, hshows⟩
    exact hkept (by simp [hkind, hunique]) (by simp [hkind, hunique])

/-- The report of a change of a type, and what it leaves behind. -/
def Converted (C : Codecs F) (kind : RecordKind) (typeName fieldName newType : String) (onFailure : OnConversionFailure)
    (c c' : Contents F) (change : FieldTypeChange) : Prop :=
  ∃ target, scalarTypeFromName newType = some target ∧ ∃ dto, c.schema = some dto ∧
    ∃ p : FieldPlace dto kind typeName fieldName,
      p.field.typeExpr = target ∧ change = ⟨true, 0, 0, []⟩ ∧ c' = c ∨
      (p.field.typeExpr ≠ target ∧ conversionSupported p.field.typeExpr target = true) ∧
        ConvertedRecords C (p.replaced { p.field with typeExpr := target }) kind p.typeId p.field target onFailure c c' change

/-- **Nothing has happened, or the schema and all records have changed.** -/
theorem Converted.changed {typeName fieldName newType : String} {onFailure : OnConversionFailure} {c' : Contents F}
    {change : FieldTypeChange} (h : Converted C kind typeName fieldName newType onFailure c c' change) : c' = c ∨
      ∃ target, scalarTypeFromName newType = some target ∧ ∃ dto, c.schema = some dto ∧
        ∃ p : FieldPlace dto kind typeName fieldName,
          (kind = .node → p.field.unique = true → Contents.KeepsUnique C p.typeId p.field.name c c') ∧
          ∃ dto', c.Saves (p.replaced { p.field with typeExpr := target }) false dto' ∧
            c' = (c.withSchema (some dto')).rewrite (convertPlan C kind p.typeId p.field.name target
              (kind = .node && (p.field.indexed || p.field.unique))) := by
  obtain ⟨target, htarget, dto, hdto, p, ⟨-, -, he⟩ | ⟨-, rids, -, failed, converted, -, -, h⟩⟩ := h
  · exact .inl he
  · rcases h with ⟨-, -, he⟩ | ⟨-, -, hunique, dto', hsaves, he⟩
    · exact .inl he
    · exact .inr ⟨target, htarget, dto, hdto, p, hunique, dto', hsaves, he⟩

/-- **`change_node_field_type`, `change_edge_field_type`**: the schema and all records change together, or nothing does. -/
theorem meets_fieldConverted (hC : C.Faithful) (hlabels : c.LabelsExact) (kind : RecordKind)
    (typeName fieldName newType : String) (onFailure : OnConversionFailure) :
    Meets (Shows (M := M) C c) (changeFieldType C kind typeName fieldName newType onFailure)
      (fun change g => ∃ c', Converted C kind typeName fieldName newType onFailure c c' change ∧ Shows C c' g)
      (Shows C c) := by
  unfold changeFieldType
  cases htarget : scalarTypeFromName newType with
  | none => exact Meets.throw fun _ hg => hg
  | some target =>
    refine meets_fieldChange hC fun dto hs p => ?_
    dsimp only
    split
    · rename_i hsame
      exact Meets.pure fun g hg => ⟨c, ⟨target, htarget, dto, hs, p, .inl ⟨hsame, rfl, rfl⟩⟩, hg⟩
    · rename_i hne
      split
      · exact Meets.throw fun _ hg => hg
      · rename_i hsupported
        have hsupported : conversionSupported p.field.typeExpr target = true := by simpa using hsupported
        refine meets_shows fun t b h => ?_
        have hast := p.shallow_replaced (h.shallow dto hs) { p.field with typeExpr := target }
          (by rw [jsonDepth_of_scalarTypeFromName htarget]; exact p.field.typeExpr.one_le_jsonDepth)
        refine (meets_convertField hC hlabels hast kind p.typeId p.field target onFailure).mono (fun _ hg => hg.shows h)
          (fun change g hg => ?_) fun _ hg => hg
        obtain ⟨c', hconverted, hshows⟩ := hg
        exact ⟨c', ⟨target, htarget, dto, hs, p, .inr ⟨⟨hne, hsupported⟩, hconverted⟩⟩, hshows⟩

end Graph

end ChiffonDB

import ChiffonDB.Database.Rollback

/-!
# Rebuilding a database

`vacuum` and `copy_live_contents_into` of `db.rs`: a program over two databases, the one that is
read and a new one in memory that is filled, which then takes the place of the first.

* `CopyProg` — operations on the two databases, each depending on what the earlier ones returned.
* `CopyProg.exec_sound` — on databases that represent two states, a careful copy gives the result
  of the cacheless run and the databases represent its final states.
-/

set_option autoImplicit false

namespace ChiffonDB

variable {Ast Registry Fields : Type} (R : SchemaReader Ast Registry Fields)

/-- A program over a source and a destination. -/
inductive CopyProg (Fields : Type) : Type → Type 1 where
  | pure {α : Type} (a : α) : CopyProg Fields α
  | throw {α : Type} (e : GraphError) : CopyProg Fields α
  /-- An operation of the source. -/
  | src {α β : Type} (p : DbProg Fields β) (k : Except GraphError β → CopyProg Fields α) :
      CopyProg Fields α
  /-- An operation of the destination. -/
  | dst {α β : Type} (p : DbProg Fields β) (k : Except GraphError β → CopyProg Fields α) :
      CopyProg Fields α

namespace CopyProg

def exec {α : Type} : CopyProg Fields α → Database Fields → Database Fields →
    Outcome α × Database Fields × Database Fields
  | .pure a, D, E => (.ok a, D, E)
  | .throw e, D, E => (.err e, D, E)
  | .src p k, D, E =>
    match p.exec R D with
    | (.ok a, D) => (k (.ok a)).exec D E
    | (.err e, D) => (k (.error e)).exec D E
    | (.panic, D) => (.panic, D, E)
  | .dst p k, D, E =>
    match p.exec R E with
    | (.ok a, E) => (k (.ok a)).exec D E
    | (.err e, E) => (k (.error e)).exec D E
    | (.panic, E) => (.panic, D, E)

/-- The copy on the pages alone. -/
def run {α : Type} : CopyProg Fields α → DbState → DbState → Outcome α × DbState × DbState
  | .pure a, s, t => (.ok a, s, t)
  | .throw e, s, t => (.err e, s, t)
  | .src p k, s, t =>
    match p.run R s with
    | (.ok a, s) => (k (.ok a)).run s t
    | (.err e, s) => (k (.error e)).run s t
    | (.panic, s) => (.panic, s, t)
  | .dst p k, s, t =>
    match p.run R t with
    | (.ok a, t) => (k (.ok a)).run s t
    | (.err e, t) => (k (.error e)).run s t
    | (.panic, t) => (.panic, s, t)

/-- Each operation is careful on its database. -/
def Careful {α : Type} : CopyProg Fields α → DbState → DbState → Prop
  | .pure _, _, _ => True
  | .throw _, _, _ => True
  | .src p k, s, t => p.Careful R s ∧
    match p.run R s with
    | (.ok a, s) => (k (.ok a)).Careful s t
    | (.err e, s) => (k (.error e)).Careful s t
    | (.panic, _) => True
  | .dst p k, s, t => p.Careful R t ∧
    match p.run R t with
    | (.ok a, t) => (k (.ok a)).Careful s t
    | (.err e, t) => (k (.error e)).Careful s t
    | (.panic, _) => True

variable {R}

/-- **A careful copy cannot tell the databases from the states they represent.** -/
theorem exec_sound {α : Type} {p : CopyProg Fields α} {D E : Database Fields} {s t : DbState}
    (hD : Represents R D s) (hE : Represents R E t) (hp : p.Careful R s t) :
    (p.exec R D E).1 = (p.run R s t).1 ∧ ((p.run R s t).1 ≠ .panic →
      Represents R (p.exec R D E).2.1 (p.run R s t).2.1 ∧
      Represents R (p.exec R D E).2.2 (p.run R s t).2.2) := by
  induction p generalizing D E s t with
  | pure a => exact ⟨rfl, fun _ => ⟨hD, hE⟩⟩
  | throw e => exact ⟨rfl, fun _ => ⟨hD, hE⟩⟩
  | src p k ih =>
    unfold Careful at hp
    obtain ⟨hp, hk⟩ := hp
    obtain ⟨hr, h'⟩ := hD.exec hp
    unfold exec run
    cases hx : p.exec R D with
    | mk r D' =>
      cases hy : p.run R s with
      | mk r' s' =>
        rw [hx, hy] at hr h'
        rw [hy] at hk
        obtain rfl : r = r' := hr
        cases r with
        | ok a => exact ih _ (h' (by simp)) hE hk
        | err e => exact ih _ (h' (by simp)) hE hk
        | panic => exact ⟨rfl, fun hne => absurd rfl hne⟩
  | dst p k ih =>
    unfold Careful at hp
    obtain ⟨hp, hk⟩ := hp
    obtain ⟨hr, h'⟩ := hE.exec hp
    unfold exec run
    cases hx : p.exec R E with
    | mk r E' =>
      cases hy : p.run R t with
      | mk r' t' =>
        rw [hx, hy] at hr h'
        rw [hy] at hk
        obtain rfl : r = r' := hr
        cases r with
        | ok a => exact ih _ hD (h' (by simp)) hk
        | err e => exact ih _ hD (h' (by simp)) hk
        | panic => exact ⟨rfl, fun hne => absurd rfl hne⟩

/-- What lies under a snapshot of the source, or under one of the destination, stays. -/
theorem under {α : Type} (p : CopyProg Fields α) {b b' : Base} {D E : Database Fields}
    (hD : b.Under D.file) (hE : b'.Under E.file) :
    b.Under (p.exec R D E).2.1.file ∧ b'.Under (p.exec R D E).2.2.file := by
  induction p generalizing D E with
  | pure a => exact ⟨hD, hE⟩
  | throw e => exact ⟨hD, hE⟩
  | src p k ih =>
    have h := hD.exec (R := R) p
    unfold exec
    cases hx : p.exec R D with
    | mk r D' =>
      rw [hx] at h
      cases r with
      | ok a => exact ih _ h hE
      | err e => exact ih _ h hE
      | panic => exact ⟨h, hE⟩
  | dst p k ih =>
    have h := hE.exec (R := R) p
    unfold exec
    cases hx : p.exec R E with
    | mk r E' =>
      rw [hx] at h
      cases r with
      | ok a => exact ih _ hD h
      | err e => exact ih _ hD h
      | panic => exact ⟨hD, h⟩

end CopyProg

/-- `vacuum`, with `copy_live_contents_into` as `copy`. -/
def Database.vacuum (copy : CopyProg Fields Unit) (D : Database Fields) :
    Outcome Unit × Database Fields :=
  if D.file.isInMemory then
    match copy.exec R D ⟨DatabaseFile.createInMemory, none⟩ with
    | (.ok (), _, newDb) => (.ok (), newDb)
    | (.err e, D, _) => (.err e, D)
    | (.panic, D, _) => (.panic, D)
  else (.err (.schemaError "vacuum for file-backed DB must be called via vacuum_file()"), D)

end ChiffonDB

import ChiffonDB.Storage.Prog

/-!
# Actions

Calls that change a state and that may fail half-way: an error leaves the state as it is then.

* `Action` — the calls, a monad; `Action.zoom` — a call on a part of the state.
* `Action.Meets` — what a call leaves behind, on success and on an error; nothing is asked of a
  call that does not return.
* `Meets.bind`, `Meets.attempt`, `Meets.zoom` — **the rules**.
* `Action.Finds` — a lookup, and what it gives.
-/

set_option autoImplicit false

namespace ChiffonDB

/-- A call on a state: its result, and the state behind it. -/
def Action (S α : Type) : Type := S → Outcome α × S

/-- A result of a table. -/
def Outcome.ofExcept {α : Type} : Except GraphError α → Outcome α
  | .ok a => .ok a
  | .error e => .err e

namespace Action

variable {S T α β : Type}

/-- The rest of a call behind a result. -/
def andThen : Outcome α × S → (α → Action S β) → Outcome β × S
  | (.ok a, s), f => f a s
  | (.err e, s), _ => (.err e, s)
  | (.panic, s), _ => (.panic, s)

instance : Monad (Action S) where
  pure a := fun s => (.ok a, s)
  bind p f := fun s => andThen (p s) f

def throw (e : GraphError) : Action S α := fun s => (.err e, s)

/-- A call that does not return. -/
def panic : Action S α := fun s => (.panic, s)

/-- A look at the state. -/
def reads (f : S → Outcome α) : Action S α := fun s => (f s, s)

def get : Action S S := fun s => (.ok s, s)

/-- `?` on a result. -/
def ofExcept (r : Except GraphError α) : Action S α := fun s => (.ofExcept r, s)

/-- A change of the state that may be refused. -/
def update (f : S → Except GraphError S) : Action S Unit := fun s =>
  match f s with
  | .ok s' => (.ok (), s')
  | .error e => (.err e, s)

/-- The result as a value, for a caller that looks at it. -/
def attempt (p : Action S α) : Action S (Except GraphError α) := fun s =>
  match p s with
  | (.ok a, s') => (.ok (.ok a), s')
  | (.err e, s') => (.ok (.error e), s')
  | (.panic, s') => (.panic, s')

/-- A call on a part of the state. -/
def zoom (part : S → T) (put : S → T → S) (p : Action T α) : Action S α := fun s =>
  let (r, t) := p (part s)
  (r, put s t)

/-- A call that is made under a condition. -/
def onlyIf (c : Bool) (p : Action S Unit) : Action S Unit := if c then p else pure ()

/-- A loop. -/
def forEach : List α → (α → Action S Unit) → Action S Unit
  | [], _ => pure ()
  | a :: as, body => do
    body a
    forEach as body

/-- A loop that keeps what it finds. -/
def collect : List α → (α → Action S (Option β)) → Action S (List β)
  | [], _ => pure []
  | a :: as, body => do
    let found ← body a
    let rest ← collect as body
    pure (found.toList ++ rest)

theorem run_pure (a : α) (s : S) : (pure a : Action S α) s = (.ok a, s) := rfl

theorem run_bind (p : Action S α) (f : α → Action S β) (s : S) : (p >>= f) s = andThen (p s) f := rfl

instance lawfulMonad : LawfulMonad (Action S) :=
  .mk' (Action S) (fun p => funext fun s => by
      show andThen (p s) _ = p s
      obtain ⟨_ | _ | _, _⟩ := p s <;> rfl)
    (fun _ _ => rfl)
    (fun p f k => funext fun s => by
      show andThen (andThen (p s) f) k = andThen (p s) fun a => f a >>= k
      obtain ⟨_ | _ | _, _⟩ := p s <;> rfl)

/-- What is behind a call that succeeds. -/
theorem run_then {p : Action S α} {s s' : S} {a : α} (h : p s = (.ok a, s')) (f : α → Action S β) : (p >>= f) s = f a s' := by
  rw [run_bind, h]
  rfl

theorem run_get (s : S) : (get : Action S S) s = (.ok s, s) := rfl

theorem run_reads (f : S → Outcome α) (s : S) : reads f s = (f s, s) := rfl

theorem run_update {f : S → Except GraphError S} {s s' : S} (h : f s = .ok s') :
    update f s = (.ok (), s') := by
  unfold update
  rw [h]

/-! ## What a call leaves behind -/

/-- The state behind a result. -/
def Post (Q : α → S → Prop) (E : S → Prop) : Outcome α × S → Prop
  | (.ok a, s) => Q a s
  | (.err _, s) => E s
  | (.panic, _) => True

/-- From a state of `P` the call leaves one of `Q`, or, behind an error, one of `E`. -/
def Meets (P : S → Prop) (p : Action S α) (Q : α → S → Prop) (E : S → Prop) : Prop :=
  ∀ s, P s → Post Q E (p s)

/-- The call keeps an invariant, whatever its outcome. -/
def Keeps (I : S → Prop) (p : Action S α) : Prop := Meets I p (fun _ => I) I

section Rules

variable {P P' E E' : S → Prop} {Q Q' : α → S → Prop} {R : β → S → Prop} {I : S → Prop}

theorem Post.mono (hQ : ∀ a s, Q a s → Q' a s) (hE : ∀ s, E s → E' s) {r : Outcome α × S}
    (h : Post Q E r) : Post Q' E' r := by
  obtain ⟨r | e | _, s⟩ := r
  · exact hQ _ _ h
  · exact hE _ h
  · trivial

theorem Meets.mono {p : Action S α} (h : Meets P p Q E) (hP : ∀ s, P' s → P s)
    (hQ : ∀ a s, Q a s → Q' a s) (hE : ∀ s, E s → E' s) : Meets P' p Q' E' :=
  fun s hs => (h s (hP s hs)).mono hQ hE

theorem Meets.pure {a : α} (h : ∀ s, P s → Q a s) : Meets P (Pure.pure a : Action S α) Q E := h

theorem Meets.throw {e : GraphError} (h : ∀ s, P s → E s) : Meets P (throw e : Action S α) Q E := h

theorem Meets.panic : Meets P (panic : Action S α) Q E := fun _ _ => trivial

theorem Meets.bind {p : Action S α} {f : α → Action S β} (hp : Meets P p Q E)
    (hf : ∀ a, Meets (Q a) (f a) R E) : Meets P (p >>= f) R E := by
  intro s hs
  have h := hp s hs
  rw [run_bind]
  cases hr : p s with
  | mk r s' =>
    rw [hr] at h
    cases r with
    | ok a => exact hf a s' h
    | err e => exact h
    | panic => trivial

theorem Meets.reads {f : S → Outcome α} (hQ : ∀ s a, P s → f s = .ok a → Q a s) (hE : ∀ s, P s → E s) :
    Meets P (reads f) Q E := by
  intro s hs
  show Post Q E (f s, s)
  cases hf : f s with
  | ok a => exact hQ s a hs hf
  | err e => exact hE s hs
  | panic => trivial

theorem Meets.get {R : S → S → Prop} (h : ∀ s, P s → R s s) : Meets P get R E := h

theorem Meets.ofExcept {r : Except GraphError α} (hQ : ∀ s a, P s → r = .ok a → Q a s)
    (hE : ∀ s, P s → E s) : Meets P (ofExcept r) Q E := by
  intro s hs
  cases r with
  | ok a => exact hQ s a hs rfl
  | error e => exact hE s hs

theorem Meets.update {f : S → Except GraphError S} {Q : Unit → S → Prop}
    (hQ : ∀ s s', P s → f s = .ok s' → Q () s') (hE : ∀ s, P s → E s) : Meets P (update f) Q E := by
  intro s hs
  unfold Action.update
  cases hf : f s with
  | ok s' => exact hQ s s' hs hf
  | error e => exact hE s hs

theorem Meets.attempt {p : Action S α} {Q' : Except GraphError α → S → Prop}
    (hp : Meets P p (fun a => Q' (.ok a)) (fun s => ∀ e, Q' (.error e) s)) : Meets P (attempt p) Q' E := by
  intro s hs
  have h := hp s hs
  unfold Action.attempt
  cases hr : p s with
  | mk r s' =>
    rw [hr] at h
    cases r with
    | ok a => exact h
    | err e => exact h e
    | panic => trivial

theorem Meets.zoom {part : S → T} {put : S → T → S} {p : Action T α} {PT : T → Prop} {QT : α → T → Prop}
    {ET : T → Prop} (hp : Meets PT p QT ET) (hP : ∀ s, P s → PT (part s))
    (hQ : ∀ s t a, P s → QT a t → Q a (put s t)) (hE : ∀ s t, P s → ET t → E (put s t)) :
    Meets P (zoom part put p) Q E := by
  intro s hs
  have h := hp (part s) (hP s hs)
  unfold Action.zoom
  cases hr : p (part s) with
  | mk r t =>
    rw [hr] at h
    cases r with
    | ok a => exact hQ s t a hs h
    | err e => exact hE s t hs h
    | panic => trivial

theorem Meets.exists {ι : Type} {P : ι → S → Prop} {p : Action S α} (h : ∀ i, Meets (P i) p Q E) :
    Meets (fun s => ∃ i, P i s) p Q E := fun s ⟨i, hi⟩ => h i s hi

/-- What is known about the values at hand. -/
theorem Meets.given {φ : Prop} {p : Action S α} (h : φ → Meets P p Q E) : Meets (fun s => φ ∧ P s) p Q E :=
  fun s ⟨hφ, hs⟩ => h hφ s hs

/-- A call that does not fail. -/
theorem Meets.sure {p : Action S α} (h : Meets P p Q fun _ => False) : Meets P p Q E :=
  h.mono (fun _ hs => hs) (fun _ _ hs => hs) fun _ hs => hs.elim

theorem Meets.both {p : Action S α} (h : Meets P p Q E) (h' : Meets P' p Q' E') :
    Meets (fun s => P s ∧ P' s) p (fun a s => Q a s ∧ Q' a s) fun s => E s ∧ E' s := by
  intro s ⟨hs, hs'⟩
  have hp := h s hs
  have hp' := h' s hs'
  cases hr : p s with
  | mk r t =>
    rw [hr] at hp hp'
    cases r with
    | ok a => exact ⟨hp, hp'⟩
    | err e => exact ⟨hp, hp'⟩
    | panic => trivial

/-- A call whose run is known. -/
theorem Meets.run {p : Action S α} {a : α} {f : α → Action S β} (hp : ∀ s, P s → ∃ s', p s = (.ok a, s') ∧ P' s')
    (hf : Meets P' (f a) R E) : Meets P (p >>= f) R E := by
  intro s hs
  obtain ⟨s', hrun, hs'⟩ := hp s hs
  rw [run_bind, hrun]
  exact hf s' hs'

/-- A loop whose body keeps an invariant keeps it. -/
theorem Keeps.forEach {as : List α} {body : α → Action S Unit} (h : ∀ a ∈ as, Keeps I (body a)) :
    Keeps I (forEach as body) := by
  induction as with
  | nil => exact Meets.pure fun s hs => hs
  | cons a as ih =>
    exact Meets.bind (h a (List.mem_cons_self)) fun _ => ih fun b hb => h b (List.mem_cons_of_mem _ hb)

theorem Keeps.collect {as : List α} {body : α → Action S (Option β)} (h : ∀ a ∈ as, Keeps I (body a)) :
    Keeps I (collect as body) := by
  induction as with
  | nil => exact Meets.pure fun s hs => hs
  | cons a as ih =>
    refine Meets.bind (h a List.mem_cons_self) fun found => ?_
    exact Meets.bind (ih fun b hb => h b (List.mem_cons_of_mem _ hb)) fun rest => Meets.pure fun s hs => hs

end Rules

/-! ## Lookups -/

/-- A call that only reads. -/
def Still (p : Action S α) : Prop := ∀ s, (p s).2 = s

namespace Still

variable {p : Action S α}

theorem keeps (hp : Still p) (I : S → Prop) : Keeps I p := by
  intro s hs
  have hsame := hp s
  cases hr : p s with
  | mk r s' =>
    rw [hr] at hsame
    obtain rfl : s' = s := hsame
    cases r with
    | ok a => exact hs
    | err e => exact hs
    | panic => trivial

theorem pure (a : α) : Still (Pure.pure a : Action S α) := fun _ => rfl

theorem throw (e : GraphError) : Still (Action.throw e : Action S α) := fun _ => rfl

theorem ofExcept (r : Except GraphError α) : Still (Action.ofExcept r : Action S α) := fun _ => rfl

theorem reads (f : S → Outcome α) : Still (Action.reads f) := fun _ => rfl

theorem get : Still (Action.get : Action S S) := fun _ => rfl

theorem bind {f : α → Action S β} (hp : Still p) (hf : ∀ a, Still (f a)) : Still (p >>= f) := by
  intro s
  have hsame := hp s
  rw [run_bind]
  cases hr : p s with
  | mk r s' =>
    rw [hr] at hsame
    obtain rfl : s' = s := hsame
    cases r with
    | ok a => exact hf a s'
    | err e => rfl
    | panic => rfl

theorem attempt (hp : Still p) : Still (Action.attempt p) := by
  intro s
  have hsame := hp s
  unfold Action.attempt
  cases hr : p s with
  | mk r s' =>
    rw [hr] at hsame
    cases r <;> exact hsame

theorem ite {c : Prop} [Decidable c] {p q : Action S α} (hp : Still p) (hq : Still q) : Still (if c then p else q) := by
  split
  · exact hp
  · exact hq

theorem forEach {as : List α} {body : α → Action S Unit} (h : ∀ a, Still (body a)) : Still (Action.forEach as body) := by
  induction as with
  | nil => exact pure _
  | cons a as ih => exact (h a).bind fun _ => ih

theorem collect {as : List α} {body : α → Action S (Option β)} (h : ∀ a, Still (body a)) :
    Still (Action.collect as body) := by
  induction as with
  | nil => exact pure _
  | cons a as ih => exact (h a).bind fun _ => ih.bind fun _ => pure _

end Still

/-- What a loop of lookups keeps is all that its bodies find. -/
theorem mem_of_collect {as : List α} {body : α → Action S (Option β)} (h : ∀ a, Still (body a)) {out : List β} {s s' : S}
    (hrun : collect as body s = (.ok out, s')) {a : α} (ha : a ∈ as) {b : β} (hb : body a s = (.ok (some b), s)) :
    b ∈ out := by
  induction as generalizing out s s' with
  | nil => cases ha
  | cons a' as ih =>
    rw [collect, run_bind] at hrun
    have hsame := h a' s
    cases hr : body a' s with
    | mk r s₁ =>
      rw [hr] at hrun hsame
      obtain rfl : s₁ = s := hsame
      cases r with
      | ok found =>
        rw [andThen, run_bind] at hrun
        cases hrest : collect as body s₁ with
        | mk r₂ s₂ =>
          rw [hrest] at hrun
          cases r₂ with
          | ok rest =>
            cases hrun
            rcases List.mem_cons.1 ha with rfl | ha
            · rw [hb] at hr
              cases hr
              exact List.mem_append_left _ (by simp)
            · exact List.mem_append_right _ (ih hrest ha hb)
          | err e => cases hrun
          | panic => cases hrun
      | err e => cases hrun
      | panic => cases hrun

/-- From a state of `P` the call changes nothing and gives `r`. -/
def Finds (P : S → Prop) (p : Action S α) (r : Except GraphError α) : Prop := ∀ s, P s → p s = (.ofExcept r, s)

section Finds

variable {P E : S → Prop} {Q : β → S → Prop} {p : Action S α} {r : Except GraphError α}

theorem Finds.pure (a : α) : Finds P (Pure.pure a : Action S α) (.ok a) := fun _ _ => rfl

theorem Finds.throw (e : GraphError) : Finds P (Action.throw e : Action S α) (.error e) := fun _ _ => rfl

theorem Finds.ofExcept (r : Except GraphError α) : Finds P (Action.ofExcept r : Action S α) r := fun _ _ => rfl

theorem Finds.get {f : S → Action S β} {r : Except GraphError β} (h : ∀ s, P s → Finds P (f s) r) :
    Finds P (Action.get >>= f) r := fun s hs => h s hs s hs

theorem Finds.bind {f : α → Action S β} {u : α → Except GraphError β} (hp : Finds P p r)
    (hf : ∀ a, r = .ok a → Finds P (f a) (u a)) : Finds P (p >>= f) (r >>= u) := by
  intro s hs
  rw [run_bind, hp s hs]
  cases r with
  | ok a => exact hf a rfl s hs
  | error e => rfl

theorem Finds.attempt (hp : Finds P p r) : Finds P (Action.attempt p) (.ok r) := by
  intro s hs
  unfold Action.attempt
  rw [hp s hs]
  cases r <;> rfl

theorem Finds.mono {P' : S → Prop} (hp : Finds P p r) (h : ∀ s, P' s → P s) : Finds P' p r := fun s hs => hp s (h s hs)

/-- A loop whose bodies find nothing wrong. -/
theorem Finds.forEach {as : List α} {body : α → Action S Unit} (h : ∀ a ∈ as, Finds P (body a) (.ok ())) :
    Finds P (Action.forEach as body) (.ok ()) := by
  induction as with
  | nil => exact Finds.pure _
  | cons a as ih =>
    exact (h a List.mem_cons_self).bind (u := fun _ => .ok ()) fun _ _ => ih fun b hb => h b (List.mem_cons_of_mem _ hb)

/-- A loop of lookups keeps what its bodies find. -/
theorem Finds.collect {as : List α} {body : α → Action S (Option β)} {f : α → Option β}
    (h : ∀ a ∈ as, Finds P (body a) (.ok (f a))) : Finds P (Action.collect as body) (.ok (as.filterMap f)) := by
  induction as with
  | nil => exact Finds.pure _
  | cons a as ih =>
    have hrest := ih fun b hb => h b (List.mem_cons_of_mem _ hb)
    have hall := (h a List.mem_cons_self).bind (u := fun found => .ok (found.toList ++ as.filterMap f)) fun found _ =>
      hrest.bind (u := fun rest => .ok (found.toList ++ rest)) fun _ _ => Finds.pure _
    intro s hs
    rw [show Action.collect (a :: as) body = (body a >>= fun found => Action.collect as body >>= fun rest =>
      Pure.pure (found.toList ++ rest)) from rfl, hall s hs, List.filterMap_cons]
    cases f a <;> rfl

/-- A lookup in front of a call. -/
theorem Meets.find {f : α → Action S β} (hp : Finds P p r) (hE : ∀ s, P s → E s)
    (hf : ∀ a, r = .ok a → Meets P (f a) Q E) : Meets P (p >>= f) Q E := by
  intro s hs
  rw [run_bind, hp s hs]
  cases r with
  | ok a => exact hf a rfl s hs
  | error e => exact hE s hs

theorem Meets.found {a : α} {f : α → Action S β} (hp : Finds P p (.ok a)) (hf : Meets P (f a) Q E) :
    Meets P (p >>= f) Q E := by
  intro s hs
  rw [run_bind, hp s hs]
  exact hf s hs

theorem Meets.refused {e : GraphError} {f : α → Action S β} (hp : Finds P p (.error e)) (hE : ∀ s, P s → E s) :
    Meets P (p >>= f) Q E := by
  intro s hs
  rw [run_bind, hp s hs]
  exact hE s hs

end Finds

/-! ## Runs -/

section Runs

variable {K : Type} {init : S} {call : K → Action S Unit} {allowed : K → S → Prop}

/-- The states behind runs of allowed calls, each of which has returned, with a value or an error. -/
inductive Reached (init : S) (call : K → Action S Unit) (allowed : K → S → Prop) : S → Prop
  | init : Reached init call allowed init
  | step {k : K} {s s' : S} {r : Outcome Unit} (h : Reached init call allowed s) (hk : allowed k s)
      (hrun : call k s = (r, s')) (hr : r ≠ .panic) : Reached init call allowed s'

/-- **What every call keeps holds at all times.** -/
theorem Reached.invariant {I : S → Prop} (hinit : I init)
    (hcall : ∀ k, Meets (fun s => I s ∧ allowed k s) (call k) (fun _ => I) I) {s : S} (h : Reached init call allowed s) :
    I s := by
  induction h with
  | init => exact hinit
  | @step k s s' r _ hk hrun hr ih =>
    have hpost := hcall k s ⟨ih, hk⟩
    rw [hrun] at hpost
    cases r with
    | ok a => exact hpost
    | err e => exact hpost
    | panic => exact absurd rfl hr

end Runs

end Action

end ChiffonDB

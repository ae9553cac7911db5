import ChiffonDB.Graph.Action

/-!
# Commands

The commands of the client, which call the database and give errors of their own.

* `Command` — a call with a second kind of error, a monad; `Command.call` — `with_context` on a call.
* `Command.Meets`, `Command.Finds` — what a command leaves behind, and what it finds.
-/

set_option autoImplicit false

namespace ChiffonDB

/-- An `anyhow` error: a text, and the error of the database under it. -/
inductive CommandError where
  | message (text : String)
  | context (text : String) (cause : GraphError)
  deriving DecidableEq, Repr

/-- A command on a state; the calls in it do not fail. -/
def Command (S α : Type) : Type := Action S (Except CommandError α)

namespace Command

variable {S α β : Type}

instance : Monad (Command S) where
  pure a := (pure (.ok a) : Action S (Except CommandError _))
  bind p f := Action.instMonad.bind p fun
    | .ok a => f a
    | .error e => (pure (.error e) : Action S (Except CommandError _))

def ofExcept (r : Except CommandError α) : Command S α := (pure r : Action S (Except CommandError α))

/-- `bail!`. -/
def bail (text : String) : Command S α := ofExcept (.error (.message text))

/-- `with_context` on an option. -/
def ofOption (text : String) : Option α → Command S α
  | some a => ofExcept (.ok a)
  | none => bail text

/-- A call that does not fail. -/
def lift (p : Action S α) : Command S α := (do
  let a ← p
  pure (.ok a) : Action S (Except CommandError α))

/-- `with_context` on a call of the database. -/
def call (text : String) (p : Action S α) : Command S α := (do
  let r ← Action.attempt p
  pure (r.mapError (.context text)) : Action S (Except CommandError α))

/-- A call of the database with a default for an error. -/
def callOr (default : α) (p : Action S α) : Command S α := (do
  let r ← Action.attempt p
  pure (.ok (r.toOption.getD default)) : Action S (Except CommandError α))

/-- A loop that keeps its results. -/
def each : List α → (α → Command S β) → Command S (List β)
  | [], _ => pure []
  | a :: as, body => do
    let b ← body a
    let rest ← each as body
    pure (b :: rest)

/-! ## Rules -/

/-- From a state of `P` the command leaves one of `Q`, or, behind an error of its own, one of `E`. -/
def Meets (P : S → Prop) (p : Command S α) (Q : α → S → Prop) (E : S → Prop) : Prop :=
  Action.Meets P (p : Action S (Except CommandError α)) (fun r s => match r with
    | .ok a => Q a s
    | .error _ => E s) fun _ => False

/-- From a state of `P` the command changes nothing and gives `r`. -/
def Finds (P : S → Prop) (p : Command S α) (r : Except CommandError α) : Prop :=
  Action.Finds P (p : Action S (Except CommandError α)) (.ok r)

/-! ## Runs -/

section Runs

variable {p : Command S α} {s s' : S} {a : α} {e : CommandError}

/-- What is behind a command that succeeds. -/
theorem run_then (h : p s = (.ok (.ok a), s')) (f : α → Command S β) : (p >>= f) s = f a s' := by
  show Action.andThen (p s) _ = _
  rw [h]
  rfl

/-- Nothing is run behind a command that fails. -/
theorem run_stop (h : p s = (.ok (.error e), s')) (f : α → Command S β) : (p >>= f) s = (.ok (.error e), s') := by
  show Action.andThen (p s) _ = _
  rw [h]
  rfl

theorem run_call {p : Action S α} (h : p s = (.ok a, s')) (text : String) : call text p s = (.ok (.ok a), s') := by
  show Action.andThen (Action.attempt p s) _ = _
  unfold Action.attempt
  rw [h]
  rfl

theorem run_call_err {p : Action S α} {e : GraphError} (h : p s = (.err e, s')) (text : String) :
    call text p s = (.ok (.error (.context text e)), s') := by
  show Action.andThen (Action.attempt p s) _ = _
  unfold Action.attempt
  rw [h]
  rfl

end Runs

section Rules

variable {P P' E E' : S → Prop} {Q Q' : α → S → Prop} {R : β → S → Prop} {p : Command S α} {f : α → Command S β}

theorem Meets.mono (h : Meets P p Q E) (hP : ∀ s, P' s → P s) (hQ : ∀ a s, Q a s → Q' a s) (hE : ∀ s, E s → E' s) :
    Meets P' p Q' E' := by
  refine Action.Meets.mono h hP (fun r s hs => ?_) fun _ hs => hs
  cases r with
  | ok a => exact hQ a s hs
  | error e => exact hE s hs

theorem Meets.pure {a : α} (h : ∀ s, P s → Q a s) : Meets P (Pure.pure a : Command S α) Q E := h

theorem Meets.bail {text : String} (h : ∀ s, P s → E s) : Meets P (bail text : Command S α) Q E := h

theorem Meets.bind (hp : Meets P p Q E) (hf : ∀ a, Meets (Q a) (f a) R E) : Meets P (p >>= f) R E := by
  refine Action.Meets.bind hp fun r => ?_
  cases r with
  | ok a => exact hf a
  | error e => exact Action.Meets.pure fun s hs => hs

theorem Meets.call {text : String} {p : Action S α} (hp : Action.Meets P p Q E) : Meets P (call text p) Q E := by
  refine Action.Meets.bind (Q := fun r s => (∀ a, r = .ok a → Q a s) ∧ ∀ e, r = .error e → E s)
    (Action.Meets.attempt (hp.mono (fun _ hs => hs) (fun a s hs => ?_) fun s hs e => ?_)) fun r => ?_
  · exact ⟨fun _ ha => Except.ok.inj ha ▸ hs, nofun⟩
  · exact ⟨nofun, fun _ _ => hs⟩
  · cases r with
    | ok a => exact Action.Meets.pure fun _ hs => hs.1 a rfl
    | error e => exact Action.Meets.pure fun _ hs => hs.2 e rfl

theorem Meets.exists {ι : Type} {P : ι → S → Prop} (h : ∀ i, Meets (P i) p Q E) : Meets (fun s => ∃ i, P i s) p Q E :=
  Action.Meets.exists h

/-- What is known about the values at hand. -/
theorem Meets.given {φ : Prop} (h : φ → Meets P p Q E) : Meets (fun s => φ ∧ P s) p Q E := Action.Meets.given h

/-- A lookup in front of a command. -/
theorem Meets.found {a : α} (hp : Finds P p (.ok a)) (hf : Meets P (f a) R E) : Meets P (p >>= f) R E :=
  Action.Meets.found hp hf

theorem Meets.refused {e : CommandError} (hp : Finds P p (.error e)) (hE : ∀ s, P s → E s) : Meets P (p >>= f) R E :=
  Action.Meets.found hp (Action.Meets.pure hE)

theorem Finds.pure (a : α) : Finds P (Pure.pure a : Command S α) (.ok a) := fun _ _ => rfl

theorem Finds.ofExcept (r : Except CommandError α) : Finds P (ofExcept r : Command S α) r := fun _ _ => rfl

theorem Finds.ofOption (text : String) (a : α) : Finds P (ofOption text (some a) : Command S α) (.ok a) := fun _ _ => rfl

theorem Finds.bind {a : α} {u : Except CommandError β} (hp : Finds P p (.ok a)) (hf : Finds P (f a) u) :
    Finds P (p >>= f) u := by
  intro s hs
  show Action.andThen (p s) _ = _
  rw [hp s hs]
  exact hf s hs

theorem Finds.call {text : String} {p : Action S α} {a : α} (hp : Action.Finds P p (.ok a)) :
    Finds P (call text p) (.ok a) := by
  intro s hs
  show Action.andThen (Action.attempt p s) _ = _
  rw [hp.attempt s hs]
  rfl

theorem Finds.callOr {default : α} {p : Action S α} {a : α} (hp : Action.Finds P p (.ok a)) :
    Finds P (callOr default p) (.ok a) := by
  intro s hs
  show Action.andThen (Action.attempt p s) _ = _
  rw [hp.attempt s hs]
  rfl

theorem Finds.lift {p : Action S α} {a : α} (hp : Action.Finds P p (.ok a)) : Finds P (lift p) (.ok a) := by
  intro s hs
  show Action.andThen (p s) _ = _
  rw [hp s hs]
  rfl

/-- A loop of lookups. -/
theorem Finds.each {as : List α} {body : α → Command S β} {u : α → β} (h : ∀ a ∈ as, Finds P (body a) (.ok (u a))) :
    Finds P (each as body) (.ok (as.map u)) := by
  induction as with
  | nil => exact Finds.pure _
  | cons a as ih =>
    exact (h a List.mem_cons_self).bind ((ih fun b hb => h b (List.mem_cons_of_mem _ hb)).bind (Finds.pure _))

end Rules

end Command

end ChiffonDB

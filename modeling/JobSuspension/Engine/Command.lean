import JobSuspension.Engine.Call

/-!
# Commands

A command is a tree of calls: it makes a call, and what it does next depends on the answer.  The
first call that is refused ends it, and what was done before stays done.

* `Command α`            the commands that end with an `α` or an error;
* `Command.call c`       the command that makes one call;
* `p.run env s`          the outcome of `p` and the stores afterwards;
* `p.calls env s`        the calls `p` makes, in order, each with the stores it finds.

`run_bind` says how commands follow one another.
-/

namespace JobSuspension

inductive Command (α : Type) where
  | done (a : α)
  | fail (e : EngineError)
  | next (c : Call) (k : c.Reply → Command α)

namespace Command

variable {α β γ : Type}

def call (c : Call) : Command c.Reply := .next c .done

def ofExcept : Except EngineError α → Command α
  | .ok a => .done a
  | .error e => .fail e

def bind : Command α → (α → Command β) → Command β
  | .done a, f => f a
  | .fail e, _ => .fail e
  | .next c k, f => .next c fun r => (k r).bind f

instance : Monad Command where
  pure := .done
  bind := bind

instance : MonadLift (Except EngineError) Command := ⟨ofExcept⟩

/-! ## running -/

def run (env : Environment) : Command α → Stores → Except EngineError α × Stores
  | .done a, s => (.ok a, s)
  | .fail e, s => (.error e, s)
  | .next c k, s =>
    match c.answer env s with
    | .ok (r, s') => (k r).run env s'
    | .error e => (.error e, s)

/-- the calls made, the last of them perhaps refused -/
def calls (env : Environment) : Command α → Stores → List (Call × Stores)
  | .done _, _ => []
  | .fail _, _ => []
  | .next c k, s =>
    match c.answer env s with
    | .ok (r, s') => (c, s) :: (k r).calls env s'
    | .error _ => [(c, s)]

section
variable (env : Environment) (s : Stores)

@[simp] theorem run_pure (a : α) : (pure a : Command α).run env s = (.ok a, s) := rfl

@[simp] theorem run_fail (e : EngineError) : (fail e : Command α).run env s = (.error e, s) := rfl

theorem run_next (c : Call) (k : c.Reply → Command α) :
    (next c k).run env s =
      match c.answer env s with
      | .ok (r, s') => (k r).run env s'
      | .error e => (.error e, s) := by
  rw [run]

theorem run_bind (p : Command α) (f : α → Command β) :
    (p >>= f).run env s =
      match p.run env s with
      | (.ok a, s') => (f a).run env s'
      | (.error e, s') => (.error e, s') := by
  induction p generalizing s with
  | done a => rfl
  | fail e => rfl
  | next c k ih =>
    change (next c fun r => (k r).bind f).run env s = _
    rw [run_next, run_next]
    cases c.answer env s with
    | error e => rfl
    | ok x => exact ih x.1 x.2

theorem run_ofExcept (x : Except EngineError α) : (ofExcept x).run env s = (x, s) := by
  cases x <;> rfl

end

/-! ## laws -/

theorem bind_done (p : Command α) : p.bind .done = p := by
  induction p with
  | done a => rfl
  | fail e => rfl
  | next c k ih => simp [bind, ih]

theorem bind_assoc (p : Command α) (f : α → Command β) (g : β → Command γ) :
    (p.bind f).bind g = p.bind fun a => (f a).bind g := by
  induction p with
  | done a => rfl
  | fail e => rfl
  | next c k ih => simp [bind, ih]

instance : LawfulMonad Command :=
  LawfulMonad.mk' Command bind_done (fun _ _ => rfl) bind_assoc

end Command
end JobSuspension

/-!
Functions that call each other, run on a stack of calls. Where each body asks only smaller
questions, and gives the right answer if it is given right answers, the machine comes to an end with
the right answer.
-/

set_option autoImplicit false

namespace RefGraph

/-- Code that ends with a result, or asks a question and goes on with the answer. -/
inductive Code (Q : Type) (A : Q → Type) (α : Type) where
  | done (a : α)
  | ask (q : Q) (next : A q → Code Q A α)

namespace Code

variable {Q : Type} {A : Q → Type} {α β : Type}

def bind (f : α → Code Q A β) : Code Q A α → Code Q A β
  | done a => f a
  | ask q next => ask q fun a => bind f (next a)

instance : Monad (Code Q A) where
  pure := done
  bind x f := x.bind f

def eval (answer : ∀ q, A q) : Code Q A α → α
  | done a => a
  | ask q next => eval answer (next (answer q))

/-- All questions that may be asked, whatever the answers are, have the property. -/
def Asks (P : Q → Prop) : Code Q A α → Prop
  | done _ => True
  | ask q next => P q ∧ ∀ a, Asks P (next a)

variable {answer : ∀ q, A q} {P : Q → Prop}

theorem eval_bind (x : Code Q A α) (f : α → Code Q A β) :
    (x >>= f).eval answer = (f (x.eval answer)).eval answer := by
  induction x with
  | done a => rfl
  | ask q next ih => exact ih (answer q)

theorem Asks.bind {x : Code Q A α} {f : α → Code Q A β} (first : x.Asks P)
    (rest : ∀ a, (f a).Asks P) :
    (x >>= f).Asks P := by
  induction x with
  | done a => exact rest a
  | ask q next ih => exact ⟨first.1, fun a => ih a (first.2 a)⟩

end Code

variable {Q : Type} {A : Q → Type}

inductive Frames (A : Q → Type) (first : Q) : Q → Type
  | nil : Frames A first first
  | push {p q : Q} (next : A q → Code Q A (A p)) (rest : Frames A first p) : Frames A first q

structure Machine (A : Q → Type) (first : Q) where
  question : Q
  code : Code Q A (A question)
  frames : Frames A first question

namespace Machine

variable (body : ∀ q, Code Q A (A q)) {first : Q}

def start (q : Q) : Machine A q := ⟨q, body q, .nil⟩

def finish (q : Q) (a : A q) : Machine A q := ⟨q, .done a, .nil⟩

def step : Machine A first → Option (Machine A first)
  | ⟨_, .ask q next, frames⟩ => some ⟨q, body q, .push next frames⟩
  | ⟨_, .done a, .push next rest⟩ => some ⟨_, next a, rest⟩
  | ⟨_, .done _, .nil⟩ => none

inductive Runs : Machine A first → Nat → Machine A first → Prop
  | refl (m : Machine A first) : Runs m 0 m
  | step {m next last : Machine A first} {n : Nat} (steps : m.step body = some next)
      (runs : Runs next n last) :
      Runs m (n + 1) last

/-- The machine ends with an answer after so many steps, and there is no longer run. -/
def Returns (q : Q) (a : A q) : Prop :=
  ∃ n, Runs body (start body q) n (finish q a) ∧ ∀ k last, Runs body (start body q) k last → k ≤ n

namespace Runs

variable {body}

theorem trans {m m' m'' : Machine A first} {n n' : Nat} (begins : Runs body m n m')
    (ends : Runs body m' n' m'') :
    Runs body m (n + n') m'' := by
  induction begins with
  | refl => rwa [Nat.zero_add]
  | step steps _ ih =>
    rw [Nat.succ_add]
    exact .step steps (ih ends)

-- There is one step at most, so no run is longer than one to the end.
theorem le_of_stuck {m last last' : Machine A first} {n n' : Nat} (runs : Runs body m n last)
    (stuck : last.step body = none) (runs' : Runs body m n' last') :
    n' ≤ n ∧ (last'.step body = none → last' = last) := by
  induction runs generalizing n' with
  | refl m =>
    cases runs' with
    | refl => exact ⟨Nat.le_refl 0, fun _ => rfl⟩
    | step steps => rw [stuck] at steps; cases steps
  | step steps _ ih =>
    cases runs' with
    | refl =>
      refine ⟨Nat.zero_le _, fun stuck' => ?_⟩
      rw [stuck'] at steps
      cases steps
    | step steps' runs' =>
      obtain rfl := Option.some.inj (steps.symm.trans steps')
      obtain ⟨shorter, same⟩ := ih stuck runs'
      exact ⟨Nat.succ_le_succ shorter, same⟩

end Runs

variable {body}

theorem Returns.unique {q : Q} {a a' : A q} (returns : Returns body q a)
    (returns' : Returns body q a') : a' = a := by
  obtain ⟨n, runs, -⟩ := returns
  obtain ⟨n', runs', -⟩ := returns'
  have same := (runs.le_of_stuck rfl runs').2 rfl
  simpa [finish] using same

theorem runs_of_smaller {less : Q → Q → Prop} (wellFounded : WellFounded less) {answer : ∀ q, A q}
    (smaller : ∀ q, (body q).Asks fun p => less p q)
    (right : ∀ q, (body q).eval answer = answer q) (q : Q) (frames : Frames A first q) :
    ∃ n, Runs body ⟨q, body q, frames⟩ n ⟨q, .done (answer q), frames⟩ := by
  induction q using wellFounded.induction with
  | h q ih =>
    have code (x : Code Q A (A q)) (asks : x.Asks fun p => less p q) :
        ∃ n, Runs body ⟨q, x, frames⟩ n ⟨q, .done (x.eval answer), frames⟩ := by
      induction x with
      | done a => exact ⟨0, .refl _⟩
      | ask p next inner =>
        obtain ⟨n, called⟩ := ih p asks.1 (.push next frames)
        obtain ⟨n', goesOn⟩ := inner (answer p) (asks.2 (answer p))
        exact ⟨_, .step rfl (called.trans (.step rfl goesOn))⟩
    have ends := code (body q) (smaller q)
    rwa [right q] at ends

theorem returns_of_smaller {less : Q → Q → Prop} (wellFounded : WellFounded less)
    {answer : ∀ q, A q} (smaller : ∀ q, (body q).Asks fun p => less p q)
    (right : ∀ q, (body q).eval answer = answer q) (q : Q) :
    Returns body q (answer q) := by
  obtain ⟨n, runs⟩ := runs_of_smaller wellFounded smaller right q .nil
  exact ⟨n, runs, fun k last other => (runs.le_of_stuck rfl other).1⟩

end Machine

end RefGraph

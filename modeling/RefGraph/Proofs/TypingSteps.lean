import RefGraph.Expression.Typing

set_option autoImplicit false

namespace RefGraph

namespace Typing

variable {α β : Type}

@[simp] theorem run_pure (a : α) (known : LocalTypes) :
    (pure a : Typing α).run known = (.ok a, known) := rfl

@[simp] theorem run_throw (e : Failure) (known : LocalTypes) :
    (throw e : Typing α).run known = (.error e, known) := rfl

@[simp] theorem run_lift (x : Except Failure α) (known : LocalTypes) :
    (liftM x : Typing α).run known = (x, known) := rfl

theorem run_bind (x : Typing α) (f : α → Typing β) (known : LocalTypes) :
    (x >>= f).run known =
      match x.run known with
      | (.ok a, later) => (f a).run later
      | (.error e, later) => (.error e, later) := by
  show (match x.run known with | (r, later) => ExceptT.bindCont f r later) = _
  cases h : x.run known with
  | mk result later => cases result <;> rfl

theorem run_tryCatch (x : Typing α) (handle : Failure → Typing α) (known : LocalTypes) :
    (tryCatch x handle).run known =
      match x.run known with
      | (.ok a, later) => (.ok a, later)
      | (.error e, later) => (handle e).run later := by
  simp only [tryCatch, tryCatchThe, MonadExceptOf.tryCatch, ExceptT.tryCatch, ExceptT.run,
    ExceptT.mk, bind, StateT.bind]
  cases x known with
  | mk result later => cases result <;> rfl

theorem run_attempt (x : Typing α) (quiet : Failure → Bool) (known : LocalTypes) :
    (attempt x quiet).run known =
      match x.run known with
      | (.ok a, later) => (.ok (some a), later)
      | (.error e, later) => (if quiet e then .ok none else .error e, later) := by
  have mapped : (some <$> x : Typing (Option α)).run known =
      match x.run known with
      | (.ok a, later) => (.ok (some a), later)
      | (.error e, later) => (.error e, later) := by
    rw [map_eq_pure_bind, run_bind]
    rfl
  rw [attempt, run_tryCatch, mapped]
  cases x.run known with
  | mk result later =>
    cases result with
    | ok a => rfl
    | error e => cases h : quiet e <;> simp [h]

theorem run_get (known : LocalTypes) : (get : Typing LocalTypes).run known = (.ok known, known) :=
  rfl

def Ensures (x : Typing α) (post : α → Prop) : Prop := ∀ known a, (x.run known).1 = .ok a → post a

namespace Ensures

variable {P : α → Prop} {Q : β → Prop}

theorem pure {a : α} (holds : P a) : Ensures (Pure.pure a) P := by
  intro known b result
  cases result
  exact holds

theorem throw (e : Failure) : Ensures (MonadExcept.throw e) P := by
  intro known b result
  cases result

theorem lift {x : Except Failure α} (holds : ∀ a, x = .ok a → P a) :
    Ensures (liftM x : Typing α) P := by
  intro known a result
  exact holds a result

theorem bind {x : Typing α} {f : α → Typing β} (first : Ensures x P)
    (next : ∀ a, P a → Ensures (f a) Q) :
    Ensures (x >>= f) Q := by
  intro known b result
  rw [run_bind] at result
  split at result
  next a later ran => exact next a (first known a (by rw [ran])) later b result
  next => cases result

theorem any (x : Typing α) : Ensures x fun _ => True := by
  intro known a result
  trivial

theorem mapM (f : α → Typing β) (xs : List α) :
    Ensures (xs.mapM f) fun ys => ys.length = xs.length := by
  induction xs with
  | nil =>
    rw [List.mapM_nil]
    exact pure rfl
  | cons x xs ih =>
    rw [List.mapM_cons]
    refine bind (any (f x)) fun y _ => bind ih fun ys same => pure ?_
    simp [same]

end Ensures

end Typing

end RefGraph

import RefGraph.Proofs.TypingSteps

/-!
Two runs of typing side by side. The second gives what the first gives, up to a renaming of the
answer, unless a limit stops a run that may be stopped.
-/

set_option autoImplicit false

namespace RefGraph

/-- How two runs are compared: what the types found so far have to do with each other, and whether a
limit may stop the first or the second run. -/
structure Pairing where
  same : LocalTypes → LocalTypes → Prop
  firstStops : Prop := False
  secondStops : Prop := False

-- A run that may not be stopped has at least the levels of the other one.
def Pairing.Levels (p : Pairing) (m n : Nat) :
    Prop := (p.firstStops ∨ n ≤ m) ∧ (p.secondStops ∨ m ≤ n)

def Stopped {α : Type} (result : Except Failure α) :
    Prop := ∃ e, result = .error e ∧ e.isTooDeep = true

instance {α : Type} : (result : Except Failure α) → Decidable (Stopped result)
  | .ok _ => isFalse fun ⟨_, failed, _⟩ => nomatch failed
  | .error e => decidable_of_iff (e.isTooDeep = true)
    ⟨fun deep => ⟨e, rfl, deep⟩, fun ⟨_, failed, deep⟩ => Except.error.inj failed ▸ deep⟩

namespace Typing

variable {α β γ δ : Type}

def Paired (p : Pairing) (f : α → β) (x : Typing α) (y : Typing β) : Prop :=
  ∀ known known', p.same known known' →
    (p.firstStops ∧ Stopped (x.run known).1) ∨ (p.secondStops ∧ Stopped (y.run known').1) ∨
      ((y.run known').1 = (x.run known).1.map f ∧ p.same (x.run known).2 (y.run known').2)

theorem stopped_bind {x : Typing α} (next : α → Typing γ) {known : LocalTypes}
    (stopped : Stopped (x.run known).1) : Stopped ((x >>= next).run known).1 := by
  obtain ⟨e, failed, deep⟩ := stopped
  refine ⟨e, ?_, deep⟩
  rw [run_bind]
  generalize x.run known = ran at failed ⊢
  obtain ⟨result, later⟩ := ran
  dsimp only at failed
  rw [failed]

theorem stopped_attempt {x : Typing α} {quiet : Failure → Bool}
    (loud : ∀ e, e.isTooDeep = true → quiet e = false) {known : LocalTypes}
    (stopped : Stopped (x.run known).1) : Stopped ((attempt x quiet).run known).1 := by
  obtain ⟨e, failed, deep⟩ := stopped
  refine ⟨e, ?_, deep⟩
  rw [run_attempt]
  generalize x.run known = ran at failed ⊢
  obtain ⟨result, later⟩ := ran
  dsimp only at failed
  rw [failed]
  simp [loud e deep]

namespace Paired

variable {p : Pairing} {f : α → β} {g : γ → δ}

theorem pure (a : α) : Paired p f (Pure.pure a) (Pure.pure (f a)) :=
  fun _ _ same => .inr (.inr ⟨rfl, same⟩)

theorem throw (e : Failure) : Paired p f (MonadExcept.throw e) (MonadExcept.throw e) :=
  fun _ _ same => .inr (.inr ⟨rfl, same⟩)

theorem lift {x : Except Failure α} {y : Except Failure β} (alike : y = x.map f) :
    Paired p f (liftM x : Typing α) (liftM y : Typing β) :=
  fun _ _ same => .inr (.inr ⟨alike, same⟩)

-- What is known of the first answer is known of the second by the renaming.
theorem bindOf {P : α → Prop} {x : Typing α} {y : Typing β} {next : α → Typing γ}
    {next' : β → Typing δ} (first : Paired p f x y) (answers : Ensures x P)
    (rest : ∀ a, P a → Paired p g (next a) (next' (f a))) :
    Paired p g (x >>= next) (y >>= next') := by
  intro known known' same
  rcases first known known' same with ⟨may, stopped⟩ | ⟨may, stopped⟩ | ⟨answer, same⟩
  · exact .inl ⟨may, stopped_bind next stopped⟩
  · exact .inr (.inl ⟨may, stopped_bind next' stopped⟩)
  · have holds := answers known
    rw [run_bind, run_bind]
    generalize x.run known = ran at answer same holds
    generalize y.run known' = ran' at answer same
    obtain ⟨result, later⟩ := ran
    obtain ⟨result', later'⟩ := ran'
    dsimp only at answer same holds
    rw [answer]
    cases result with
    | error e => exact .inr (.inr ⟨rfl, same⟩)
    | ok a => exact rest a (holds a rfl) later later' same

theorem bind {x : Typing α} {y : Typing β} {next : α → Typing γ} {next' : β → Typing δ}
    (first : Paired p f x y) (rest : ∀ a, Paired p g (next a) (next' (f a))) :
    Paired p g (x >>= next) (y >>= next') :=
  first.bindOf (.any x) fun a _ => rest a

theorem attempt {x : Typing α} {y : Typing β} {quiet : Failure → Bool} (paired : Paired p f x y)
    (loud : ∀ e, e.isTooDeep = true → quiet e = false) :
    Paired p (Option.map f) (Typing.attempt x quiet) (Typing.attempt y quiet) := by
  intro known known' same
  rcases paired known known' same with ⟨may, stopped⟩ | ⟨may, stopped⟩ | ⟨answer, same⟩
  · exact .inl ⟨may, stopped_attempt loud stopped⟩
  · exact .inr (.inl ⟨may, stopped_attempt loud stopped⟩)
  · rw [run_attempt, run_attempt]
    generalize x.run known = ran at answer same
    generalize y.run known' = ran' at answer same
    obtain ⟨result, later⟩ := ran
    obtain ⟨result', later'⟩ := ran'
    dsimp only at answer same
    rw [answer]
    cases result with
    | ok a => exact .inr (.inr ⟨rfl, same⟩)
    | error e =>
      refine .inr (.inr ⟨?_, same⟩)
      cases h : quiet e <;> simp [Except.map, h]

theorem mapM {ι : Type} {x : ι → Typing α} {y : ι → Typing β} (is : List ι)
    (each : ∀ i ∈ is, Paired p f (x i) (y i)) : Paired p (List.map f) (is.mapM x) (is.mapM y) := by
  induction is with
  | nil =>
    rw [List.mapM_nil, List.mapM_nil]
    exact pure []
  | cons i is ih =>
    rw [List.mapM_cons, List.mapM_cons]
    refine (each i List.mem_cons_self).bind fun a => ?_
    exact (ih fun j listed => each j (List.mem_cons_of_mem _ listed)).bind fun as => pure (a :: as)

end Paired

end Typing

end RefGraph

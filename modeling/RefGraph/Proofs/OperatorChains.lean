import RefGraph.Proofs.DepthLimit
import RefGraph.Proofs.ResolutionEnds

set_option autoImplicit false

namespace RefGraph

namespace Typing

variable {α β γ δ : Type}

def OnlyStops (x : Typing α) : Prop := ∀ known e, (x.run known).1 = .error e → e.isTooDeep = true

def orNone (x : Typing α) : Typing (Option α) := attempt x fun e => !e.isTooDeep

theorem onlyStops_orNone (x : Typing α) : OnlyStops (orNone x) := by
  intro known e failed
  rw [orNone, run_attempt] at failed
  generalize x.run known = ran at failed
  obtain ⟨result, later⟩ := ran
  cases result with
  | ok a => cases failed
  | error e' =>
    cases deep : e'.isTooDeep with
    | true =>
      simp only [deep, Bool.not_true, Bool.false_eq_true, if_false] at failed
      cases failed
      exact deep
    | false => simp [deep] at failed

theorem OnlyStops.pure (a : α) : OnlyStops (Pure.pure a : Typing α) := by
  intro known e failed
  cases failed

theorem OnlyStops.bind {x : Typing α} {f : α → Typing β} (first : OnlyStops x)
    (rest : ∀ a, OnlyStops (f a)) :
    OnlyStops (x >>= f) := by
  intro known e failed
  have deep := first known
  rw [run_bind] at failed
  generalize x.run known = ran at failed deep
  obtain ⟨result, later⟩ := ran
  cases result with
  | ok a => exact rest a later e failed
  | error e' =>
    cases failed
    exact deep e rfl

theorem OnlyStops.orNone_bind {x : Typing α} (first : OnlyStops x) (f : α → Typing β) :
    orNone (x >>= f) = x >>= fun a => orNone (f a) := by
  funext known
  change (orNone (x >>= f)).run known = (x >>= fun a => orNone (f a)).run known
  have deep := first known
  rw [orNone, run_attempt, run_bind, run_bind]
  generalize x.run known = ran at deep
  obtain ⟨result, later⟩ := ran
  cases result with
  | ok a =>
    dsimp only
    rw [orNone, run_attempt]
  | error e =>
    dsimp only
    rw [deep e rfl]
    rfl

theorem stopped_orNone {x : Typing α} {known : LocalTypes} :
    Stopped ((orNone x).run known).1 ↔ Stopped (x.run known).1 := by
  constructor
  · rw [orNone, run_attempt]
    generalize x.run known = ran
    obtain ⟨result, later⟩ := ran
    rintro ⟨e, failed, deep⟩
    cases result with
    | ok a => cases failed
    | error e' =>
      refine ⟨e', rfl, ?_⟩
      cases quiet : e'.isTooDeep with
      | true => rfl
      | false => simp [quiet] at failed
  · exact stopped_attempt (by simp)

/-- Two steps are stopped together, or both answer and have found the same types. -/
def StopTogether (x : Typing α) (y : Typing β) : Prop :=
  ∀ known, (Stopped (x.run known).1 ∧ Stopped (y.run known).1) ∨
    ∃ a b later, x.run known = (.ok a, later) ∧ y.run known = (.ok b, later)

theorem StopTogether.bind {x : Typing α} {y : Typing β} {f : α → Typing γ} {g : β → Typing δ}
    (first : StopTogether x y) (rest : ∀ a b, StopTogether (f a) (g b)) :
    StopTogether (x >>= f) (y >>= g) := by
  intro known
  rcases first known with ⟨stopped, stopped'⟩ | ⟨a, b, later, ran, ran'⟩
  · exact .inl ⟨stopped_bind f stopped, stopped_bind g stopped'⟩
  · rw [run_bind, run_bind, ran, ran']
    exact rest a b later

theorem StopTogether.pure (a : α) (b : β) : StopTogether (Pure.pure a) (Pure.pure b) :=
  fun known => .inr ⟨a, b, known, rfl, rfl⟩

theorem StopTogether.map {x : Typing α} {y : Typing β} (first : StopTogether x y) (g : β → γ) :
    StopTogether x (y >>= fun b => Pure.pure (g b)) := by
  intro known
  rcases first known with ⟨stopped, stopped'⟩ | ⟨a, b, later, ran, ran'⟩
  · exact .inl ⟨stopped, stopped_bind _ stopped'⟩
  · exact .inr ⟨a, g b, later, ran, by rw [run_bind, ran']; rfl⟩

theorem StopTogether.lift {x : Except Failure α} (shallow : ∀ e, x = .error e → e.isTooDeep = false)
    (b : β) :
    StopTogether (orNone (liftM x : Typing α)) (Pure.pure b) := by
  intro known
  rw [orNone, run_attempt, run_lift]
  cases x with
  | ok a => exact .inr ⟨some a, b, known, rfl, rfl⟩
  | error e => exact .inr ⟨none, b, known, by simp [shallow e rfl], rfl⟩

theorem OnlyStops.together {x : Typing α} (only : OnlyStops x) : StopTogether x x := by
  intro known
  have deep := only known
  cases ran : x.run known with
  | mk result later =>
    rw [ran] at deep
    cases result with
    | ok a => exact .inr ⟨a, a, later, rfl, rfl⟩
    | error e => exact .inl ⟨⟨e, rfl, deep e rfl⟩, ⟨e, rfl, deep e rfl⟩⟩

theorem StopTogether.iff {x : Typing α} {y : Typing β} (together : StopTogether x y)
    (known : LocalTypes) :
    Stopped (x.run known).1 ↔ Stopped (y.run known).1 := by
  rcases together known with ⟨stopped, stopped'⟩ | ⟨a, b, later, ran, ran'⟩
  · exact iff_of_true stopped stopped'
  · rw [ran, ran']
    exact iff_of_false (by rintro ⟨e, failed, -⟩; cases failed)
      (by rintro ⟨e, failed, -⟩; cases failed)

theorem stopped_of_bind {x : Typing α} {f : α → Typing β} {known : LocalTypes}
    (stopped : Stopped ((x >>= f).run known).1) :
    Stopped (x.run known).1 ∨ ∃ a later, x.run known = (.ok a, later) ∧
      Stopped ((f a).run later).1 := by
  rw [run_bind] at stopped
  generalize x.run known = ran at stopped
  obtain ⟨result, later⟩ := ran
  cases result with
  | ok a => exact .inr ⟨a, later, rfl, stopped⟩
  | error e =>
    obtain ⟨_, failed, deep⟩ := stopped
    cases failed
    exact .inl ⟨e, rfl, deep⟩

theorem stopped_mapM {f : α → Typing β} {xs : List α} {known : LocalTypes}
    (stopped : Stopped ((xs.mapM f).run known).1) :
    ∃ before x after, xs = before ++ x :: after ∧
      Stopped ((f x).run ((before.mapM f).run known).2).1 := by
  induction xs generalizing known with
  | nil =>
    obtain ⟨e, failed, -⟩ := stopped
    cases failed
  | cons x xs ih =>
    rw [List.mapM_cons] at stopped
    rcases stopped_of_bind stopped with here | ⟨b, later, ran, stopped⟩
    · exact ⟨[], x, xs, rfl, here⟩
    · rcases stopped_of_bind stopped with rest | ⟨bs, after, -, e, failed, -⟩
      · obtain ⟨before, y, after, rfl, there⟩ := ih rest
        refine ⟨x :: before, y, after, rfl, ?_⟩
        have found : (((x :: before).mapM f).run known).2 = ((before.mapM f).run later).2 := by
          rw [List.mapM_cons, run_bind, ran]
          dsimp only
          rw [run_bind]
          cases (before.mapM f).run later with
          | mk result found => cases result <;> rfl
        rwa [found]
      · cases failed

end Typing

namespace Tree

def rightOperands (t : Tree) : List Tree :=
  if comparisons.contains ((t.childText? "operator").getD "") then [] else (t.child? "right").toList

mutual
/-- The operands of a chain: the leftmost one, then the right ones from inside out. -/
def chainOperands : Tree → List Tree
  | t@{ kind, children, .. } =>
    if kind == "binary_expression" then leftOperands children ++ t.rightOperands else [t]

def leftOperands : List Tree → List Tree
  | [] => []
  | c :: cs => if c.role == some "left" then chainOperands c else leftOperands cs
end

theorem chainOperands_eq (t : Tree) :
    t.chainOperands =
      if t.kind == "binary_expression" then leftOperands t.children ++ t.rightOperands
        else [t] := by
  cases t
  rw [chainOperands]

theorem leftOperands_eq (t : Tree) :
    leftOperands t.children = ((t.child? "left").map chainOperands).getD [] := by
  rw [child?]
  generalize t.children = cs
  induction cs with
  | nil => rw [leftOperands]; rfl
  | cons c cs ih =>
    rw [leftOperands, List.find?_cons]
    cases c.role == some "left" <;> simp [ih]

end Tree

namespace Env

open Typing

variable (env : Env) (inside : TypeInside)

def plainBinary (t : Tree) : Typing RType := do
  let left ← match t.child? "left" with
    | some l => env.typeIfKnown inside l
    | none => pure none
  env.combine inside t left

/-- Typing with plain recursion for binary expressions, wherever they stand. -/
def plainBy (t : Tree) : Typing RType :=
  if t.kind == "binary_expression" then env.plainBinary inside t else env.typeBy inside t

def plainWithin : Nat → TypeInside
  | 0, env, t => throw (.tooDeep env.limit t.excerpt)
  | levels + 1, env, t => env.plainBy (plainWithin levels) t

theorem typeBy_binary {t : Tree} (isBinary : t.kind = "binary_expression") :
    env.typeBy inside t = env.binary inside t := by
  simp only [typeBy, isBinary]
  rfl

variable {env inside}

theorem onlyStops_leftTypeIn {t : Tree}
    (each : ∀ c ∈ t.children, OnlyStops (env.leftType inside c)) :
    OnlyStops (env.leftTypeIn inside t.children) := by
  rw [leftTypeIn_eq]
  cases isLeft : t.child? "left" with
  | none => exact .pure none
  | some l => exact each l (Tree.child?_mem isLeft)

theorem onlyStops_leftType (t : Tree) : OnlyStops (env.leftType inside t) := by
  induction t using Tree.induction with
  | node t ih =>
    rw [leftType_eq]
    split
    · exact .bind (onlyStops_leftTypeIn ih) fun left => onlyStops_orNone _
    · exact onlyStops_orNone _

theorem leftType_binary {t : Tree} (isBinary : t.kind = "binary_expression") :
    env.leftType inside t = orNone (env.binary inside t) := by
  have left : OnlyStops (env.leftTypeIn inside t.children) :=
    onlyStops_leftTypeIn fun c _ => onlyStops_leftType c
  rw [leftType_eq, if_pos (by simp [isBinary]), binary, left.orNone_bind]
  rfl

theorem leftType_other {t : Tree} (other : t.kind ≠ "binary_expression") :
    env.leftType inside t = env.typeIfKnown inside t := by
  rw [leftType_eq, if_neg (by simp [other])]

-- One level of plain recursion is what a chain saves.
theorem typeIfKnown_succ {levels : Nat} {t : Tree} (isBinary : t.kind = "binary_expression") :
    env.typeIfKnown (typeWithin (levels + 1)) t = env.leftType (typeWithin levels) t := by
  rw [leftType_binary isBinary, ← typeBy_binary _ _ isBinary]
  rfl

theorem Linked.plainBinary {p : Pairing} {σ : Nat → Nat} {root t : Tree} {inside' : TypeInside}
    {env' : Env} (linked : Linked p σ root inside inside' env env') (covered : root.Covers t)
    (left : ∀ l, t.child? "left" = some l →
      Paired p (Option.map (RType.rename σ)) (env.typeIfKnown inside l) (env'.leftType inside' l)) :
    Paired p (RType.rename σ) (env.plainBinary inside t) (env'.binary inside' t) := by
  rw [Env.plainBinary, Env.binary, leftTypeIn_eq]
  cases isLeft : t.child? "left" with
  | none =>
    exact Paired.bind (f := Option.map (RType.rename σ)) (.pure none) (linked.combine covered)
  | some l => exact (left l isLeft).bind (linked.combine covered)

theorem linked_typeWithin {m n : Nat} (more : m ≤ n) (busy : List Nat) (root : Tree) :
    Linked (.renaming id True) id root (typeWithin m) (typeWithin n) { env with busy }
      { env with busy } := by
  have levels : (Pairing.renaming id True).Levels m n := ⟨.inl trivial, .inr more⟩
  exact (Renamed.refl env).linked_of_expressions
    ((Renamed.refl env).typeWithin (.inl trivial) levels) busy root

theorem paired_leftType (levels : Nat) (l : Tree) :
    Paired (.renaming id True) (Option.map (RType.rename id))
      (env.typeIfKnown (typeWithin levels) l) (env.leftType (typeWithin levels) l) := by
  by_cases isBinary : l.kind = "binary_expression"
  · cases levels with
    | zero => exact fun known _ _ => .inl ⟨trivial, .tooDeep env.limit l.excerpt, rfl, rfl⟩
    | succ levels =>
      rw [typeIfKnown_succ isBinary]
      exact (linked_typeWithin (Nat.le_succ levels) env.busy l).leftType l (.self l)
  · rw [leftType_other isBinary]
    exact (linked_typeWithin (Nat.le_refl levels) env.busy l).typeIfKnown (.self l)

theorem goesOn_leftType (levels : Nat) (l : Tree) :
    GoesOn (env.typeIfKnown (typeWithin levels) l) (env.leftType (typeWithin levels) l) := by
  have paired : Paired (.renaming id True) _ (env.typeIfKnown (typeWithin levels) l) _ :=
    paired_leftType levels l
  rw [RType.rename_id, Option.map_id] at paired
  exact paired.goesOn

theorem paired_plainBinary (levels : Nat) (t : Tree) :
    Paired (.renaming id True) (RType.rename id) (env.plainBinary (typeWithin levels) t)
      (env.binary (typeWithin levels) t) :=
  (linked_typeWithin (Nat.le_refl levels) env.busy t).plainBinary (.self t) fun l _ =>
    paired_leftType levels l

-- Both kinds of typing agree on a binary expression if they do on expressions and on left operands
-- that are chains.
theorem plainBinary_of_expressions {m n : Nat}
    (expressions : ∀ busy t, Paired (.renaming id True) (RType.rename id)
      (plainWithin m { env with busy } t) (typeWithin n { env with busy } t))
    (chains : ∀ busy (l : Tree), l.kind = "binary_expression" →
      Paired (.renaming id True) (Option.map (RType.rename id))
    (typeIfKnown { env with busy } (plainWithin m) l) (leftType { env with busy } (typeWithin n) l))
    (busy : List Nat) (t : Tree) :
    Paired (.renaming id True) (RType.rename id) (plainBinary { env with busy } (plainWithin m) t)
      (binary { env with busy } (typeWithin n) t) := by
  have linked := (Renamed.refl env).linked_of_expressions expressions busy t
  refine linked.plainBinary (.self t) fun l isLeft => ?_
  by_cases isBinary : l.kind = "binary_expression"
  · exact chains busy l isBinary
  · rw [leftType_other isBinary]
    exact linked.typeIfKnown (.of_mem (Tree.child?_mem isLeft))

theorem paired_plainWithin {m n : Nat} (more : m ≤ n) :
    (∀ busy t, Paired (.renaming id True) (RType.rename id) (plainWithin m { env with busy } t)
      (typeWithin n { env with busy } t)) ∧
    ∀ busy t, Paired (.renaming id True) (RType.rename id)
      (plainBinary { env with busy } (plainWithin m) t)
      (binary { env with busy } (typeWithin n) t) := by
  induction m generalizing n with
  | zero =>
    have stopped (busy : List Nat) (t : Tree) (known : LocalTypes) :
        Stopped ((plainWithin 0 { env with busy } t).run known).1 :=
      ⟨.tooDeep env.limit t.excerpt, rfl, rfl⟩
    have expressions :
        ∀ busy t, Paired (.renaming id True) (RType.rename id) (plainWithin 0 { env with busy } t)
          (typeWithin n { env with busy } t) :=
          fun busy t known _ _ => .inl ⟨trivial, stopped busy t known⟩
    refine ⟨expressions, plainBinary_of_expressions expressions fun busy l _ known _ _ =>
      .inl ⟨trivial, ?_⟩⟩
    exact stopped_attempt (by simp) (stopped busy l known)
  | succ m ih =>
    obtain ⟨n, rfl⟩ : ∃ k, n = k + 1 := ⟨n - 1, by omega⟩
    have expressions : ∀ busy t, Paired (.renaming id True) (RType.rename id)
        (plainWithin (m + 1) { env with busy } t) (typeWithin (n + 1) { env with busy } t) := by
      intro busy t
      obtain ⟨below, binaries⟩ := ih (Nat.le_of_succ_le_succ more)
      rw [plainWithin, typeWithin, plainBy]
      split
      next isBinary =>
        rw [typeBy_binary _ _ (beq_iff_eq.1 isBinary)]
        exact binaries busy t
      next => exact ((Renamed.refl env).linked_of_expressions below busy t).typeBy (.self t)
    refine ⟨expressions, plainBinary_of_expressions expressions fun busy l isBinary => ?_⟩
    -- The recursion goes down one level here, the chain none.
    obtain ⟨-, binaries⟩ := ih (n := n + 1) (by omega)
    have plain : typeIfKnown { env with busy } (plainWithin (m + 1)) l =
        orNone (plainBinary { env with busy } (plainWithin m) l) := by
      rw [typeIfKnown, plainWithin, plainBy, if_pos (by simp [isBinary])]
      rfl
    rw [plain, leftType_binary isBinary]
    exact (binaries busy l).attempt (by simp)

theorem isTooDeep_operate {operator : String} {left right : Option RType} {e : Failure}
    (failed : env.operate operator left right = .error e) : e.isTooDeep = false := by
  unfold operate at failed
  split at failed
  next =>
    unfold World.known at failed
    split at failed <;> cases failed
    rfl
  next =>
    repeat' split at failed
    all_goals cases failed
    all_goals rfl

theorem onlyStops_typeIfKnown (t : Tree) : OnlyStops (env.typeIfKnown inside t) :=
  onlyStops_orNone _

-- An operator itself is never stopped.
theorem together_combine (t : Tree) (left : Option RType) :
    StopTogether (orNone (env.combine inside t left))
      (t.rightOperands.mapM (env.typeIfKnown inside)) := by
  unfold combine Tree.rightOperands
  dsimp only
  split
  · exact .pure _ []
  · cases t.child? "right" with
    | none => exact .lift (fun e => isTooDeep_operate) []
    | some r =>
      rw [(onlyStops_typeIfKnown r).orNone_bind, Option.toList_some, List.mapM_cons]
      exact (onlyStops_typeIfKnown r).together.bind fun right type =>
        .lift (fun e => isTooDeep_operate) [type]

theorem together_binary {t : Tree} (each : ∀ l, t.child? "left" = some l →
      StopTogether (env.leftType inside l) (l.chainOperands.mapM (env.typeIfKnown inside))) :
    StopTogether (orNone (env.binary inside t))
      ((Tree.leftOperands t.children ++ t.rightOperands).mapM (env.typeIfKnown inside)) := by
  have left : OnlyStops (env.leftTypeIn inside t.children) :=
    onlyStops_leftTypeIn fun c _ => onlyStops_leftType c
  rw [binary, left.orNone_bind, List.mapM_append, leftTypeIn_eq, Tree.leftOperands_eq]
  refine StopTogether.bind ?_ fun l ls => (together_combine t l).map _
  cases isLeft : t.child? "left" with
  | none => exact .pure none []
  | some l => exact each l isLeft

theorem together_leftType (t : Tree) :
    StopTogether (env.leftType inside t) (t.chainOperands.mapM (env.typeIfKnown inside)) := by
  induction t using Tree.induction with
  | node t ih =>
    rw [Tree.chainOperands_eq]
    split
    next isBinary =>
      rw [leftType_binary (beq_iff_eq.1 isBinary)]
      exact together_binary fun l isLeft => ih l (Tree.child?_mem isLeft)
    next other =>
      rw [leftType_other (by simpa using other), List.mapM_cons]
      exact (onlyStops_typeIfKnown t).together.map _

theorem stopped_binary {t : Tree} {known : LocalTypes} :
    Stopped ((env.binary inside t).run known).1 ↔
      Stopped (((Tree.leftOperands t.children ++ t.rightOperands).mapM (env.typeIfKnown inside)).run
        known).1 :=
  stopped_orNone.symm.trans ((together_binary fun l _ => together_leftType l).iff known)

/-- A chain of binary operators is typed as plain recursion types it, and is stopped exactly if one
of its operands is, one level down. -/
theorem chain_agrees_with_recursion (env : Env) (t : Tree) :
    (∀ levels, GoesOn (env.plainBinary (typeWithin levels) t) (env.binary (typeWithin levels) t)) ∧
    (∀ levels, GoesOn (env.plainBinary (plainWithin levels) t) (env.binary (typeWithin levels) t)) ∧
    (∀ levels, GoesOn (plainWithin levels env t) (typeWithin levels env t)) ∧
    ∀ inside known,
      (Stopped ((env.binary inside t).run known).1 ↔
        Stopped (((Tree.leftOperands t.children ++ t.rightOperands).mapM
          (env.typeIfKnown inside)).run known).1) ∧
      (Stopped ((env.binary inside t).run known).1 →
        ∃ before operand after, Tree.leftOperands t.children ++ t.rightOperands = before ++
          operand :: after ∧
          Stopped
            ((inside env operand).run ((before.mapM (env.typeIfKnown inside)).run known).2).1) := by
  have goesOn {x y : Typing RType} (paired : Paired (.renaming id True) (RType.rename id) x y) :
      GoesOn x y := by
    rw [RType.rename_id] at paired
    exact paired.goesOn
  refine ⟨fun levels => goesOn (paired_plainBinary levels t), fun levels => ?_,
    fun levels => ?_, fun inside known => ?_⟩
  · exact goesOn ((paired_plainWithin (Nat.le_refl levels)).2 env.busy t)
  · exact goesOn ((paired_plainWithin (Nat.le_refl levels)).1 env.busy t)
  · refine ⟨stopped_binary, fun stopped => ?_⟩
    obtain ⟨before, operand, after, operands, there⟩ := stopped_mapM (stopped_binary.1 stopped)
    exact ⟨before, operand, after, operands, stopped_orNone.1 there⟩

-- `1 + … + 1`
def sumOf : Nat → Tree
  | 0 => { kind := "decimal_integer_literal", text := "1", role := some "left" }
  | n + 1 =>
    { kind := "binary_expression", role := some "left", children := [
      sumOf n, { kind := "+", text := "+", role := some "operator" },
      { kind := "decimal_integer_literal", text := "1", role := some "right" }] }

-- Plain recursion needs a level for each operator, the chain one in all.
theorem chain_agrees_with_recursion_sumOf :
    let env : Env := { world := {}, context := World.unitContext 0, limit := 3 }
    ¬ Stopped ((env.plainBinary (plainWithin 3) (sumOf 3)).run []).1 ∧
      (env.binary (typeWithin 3) (sumOf 3)).run [] =
        (env.plainBinary (plainWithin 3) (sumOf 3)).run [] ∧
      Stopped ((env.plainBinary (plainWithin 2) (sumOf 3)).run []).1 ∧
      ¬ Stopped ((env.binary (typeWithin 1) (sumOf 3)).run []).1 ∧
      Stopped ((env.binary (typeWithin 0) (sumOf 3)).run []).1 := by
  intro env
  obtain ⟨-, plain, -, stops⟩ := chain_agrees_with_recursion env (sumOf 3)
  have answered : ¬ Stopped ((env.plainBinary (plainWithin 3) (sumOf 3)).run []).1 := by
    decide +kernel
  have operands := (stops (typeWithin 1) []).1
  exact ⟨answered, plain 3 [] answered,
    by decide +kernel, mt operands.1 (by decide +kernel), by decide +kernel⟩

end Env

end RefGraph

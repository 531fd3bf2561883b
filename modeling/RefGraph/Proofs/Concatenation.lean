import RefGraph.Proofs.Makers
import RefGraph.Proofs.OperatorChains
import RefGraph.Proofs.SimpleNames

set_option autoImplicit false

namespace RefGraph

namespace Tree

structure Adds (t left right : Tree) : Prop where
  kind : t.kind = "binary_expression"
  operator : t.childText? "operator" = some "+"
  left : t.child? "left" = some left
  right : t.child? "right" = some right

/-- The expression `e₀ + e₁ + … + eₙ`, which nests to the left. -/
inductive SumOf : List Tree → Tree → Prop
  | two {t e e' : Tree} (adds : t.Adds e e') : SumOf [e, e'] t
  | more {t sum e : Tree} {es : List Tree} (before : SumOf es sum) (adds : t.Adds sum e) :
    SumOf (es ++ [e]) t

theorem SumOf.ne_nil {es : List Tree} {t : Tree} (sum : SumOf es t) : es ≠ [] := by
  cases sum <;> simp

theorem SumOf.kind {es : List Tree} {t : Tree} (sum : SumOf es t) :
    t.kind = "binary_expression" := by
  cases sum with
  | two adds => exact adds.kind
  | more before adds => exact adds.kind

end Tree

namespace World

variable {w : World}

theorem qualified?_of_find? {s : Source} (fits : s.Over w.units) (firm : s.isFallback = false)
    {n : Name} {d : Decl} (found : s.find? n = some d) : w.qualified? d = some n := by
  cases fits with
  | library l =>
    obtain ⟨t, held, rfl⟩ := Option.map_eq_some_iff.1 found
    exact congrArg some (NameTable.name_of_find? held)
  | catalog numbered loaded =>
    obtain ⟨e, held, rfl⟩ := Option.map_eq_some_iff.1 found
    obtain ⟨u, -, i, -, qualified⟩ := exists_of_catalog loaded held
    exact qualified
  | placeholders rs => cases firm

theorem known_of_library (sources : ∀ s ∈ w.sources, s.Over w.units) {l : Library}
    (asked : .library l ∈ w.sources) {n : Name} (listed : l.contains n = true)
    (spelt : n.isEmpty = false) :
    ∃ d, w.qualified? d = some n ∧ w.known n [] = .ok ⟨d, []⟩ := by
  have firm : .library l ∈ w.firm := List.mem_filter.2 ⟨asked, rfl⟩
  obtain ⟨d, found⟩ : ∃ d, w.firm.findSome? (fun s => s.find? n) = some d := by
    rw [← Option.isSome_iff_exists, List.findSome?_isSome_iff]
    refine ⟨_, firm, ?_⟩
    simpa [Source.find?, NameTable.contains] using listed
  have resolved : w.resolve? none n = some d := by
    simp [resolve?, resolveFirm?, resolveFirmWith?, spelt, solveWritten?, fromSources?, found]
  obtain ⟨s, asked', held⟩ := List.exists_of_findSome?_eq_some found
  obtain ⟨among, notFallback⟩ := List.mem_filter.1 asked'
  refine ⟨d, qualified?_of_find? (sources s among) (by simpa using notFallback) held, ?_⟩
  rw [known, resolved]

end World

namespace Typing

variable {α β : Type}

theorem not_stopped_ok (a : α) : ¬ Stopped (.ok a) := by
  rintro ⟨e, failed, -⟩
  cases failed

theorem ok_of_run_bind {x : Typing α} {f : α → Typing β} {known later : LocalTypes} {b : β}
    (ran : (x >>= f).run known = (.ok b, later)) :
    ∃ a middle, x.run known = (.ok a, middle) ∧ (f a).run middle = (.ok b, later) := by
  rw [run_bind] at ran
  cases first : x.run known with
  | mk result middle =>
    rw [first] at ran
    cases result with
    | ok a => exact ⟨a, middle, rfl, ran⟩
    | error e => cases ran

variable {f : α → Typing β} {known later : LocalTypes} {ys : List β}

theorem ok_of_mapM_cons {x : α} {xs : List α}
    (ran : ((x :: xs).mapM f).run known = (.ok ys, later)) :
    ∃ y rest middle, (f x).run known = (.ok y, middle) ∧
      (xs.mapM f).run middle = (.ok rest, later) ∧ ys = y :: rest := by
  rw [List.mapM_cons] at ran
  obtain ⟨y, middle, first, ran⟩ := ok_of_run_bind ran
  obtain ⟨rest, last, others, ran⟩ := ok_of_run_bind ran
  cases ran
  exact ⟨y, rest, middle, first, others, rfl⟩

theorem ok_of_mapM_singleton {x : α} (ran : ([x].mapM f).run known = (.ok ys, later)) :
    ∃ y, (f x).run known = (.ok y, later) ∧ ys = [y] := by
  obtain ⟨y, rest, middle, here, nothing, rfl⟩ := ok_of_mapM_cons ran
  cases nothing
  exact ⟨y, here, rfl⟩

theorem ok_of_mapM_append {xs zs : List α} (ran : ((xs ++ zs).mapM f).run known = (.ok ys, later)) :
    ∃ before after middle, (xs.mapM f).run known = (.ok before, middle) ∧
      (zs.mapM f).run middle = (.ok after, later) ∧
      ys = before ++ after := by
  rw [List.mapM_append] at ran
  obtain ⟨before, middle, first, ran⟩ := ok_of_run_bind ran
  obtain ⟨after, last, others, ran⟩ := ok_of_run_bind ran
  cases ran
  exact ⟨before, after, middle, first, others, rfl⟩

end Typing

namespace Env

open Typing

variable {env : Env} {inside : TypeInside}

theorem operate_string {c : ClassType} (isKnown : env.world.known stringName [] = .ok c)
    {left right : Option RType} (string : env.isString left = true ∨ env.isString right = true) :
    env.operate "+" left right = .ok c.toType := by
  unfold operate
  rw [if_pos ⟨rfl, string⟩, isKnown]
  rfl

theorem not_stopped_operate (operator : String) (left right : Option RType) :
    ¬ Stopped (env.operate operator left right) := by
  rintro ⟨e, failed, deep⟩
  rw [isTooDeep_operate failed] at deep
  cases deep

theorem run_combine {t l r : Tree} (adds : t.Adds l r) (left : Option RType) {right : Option RType}
    {known later : LocalTypes} (typed : (env.typeIfKnown inside r).run known = (.ok right, later)) :
    (env.combine inside t left).run known = (env.operate "+" left right, later) := by
  have adding : ¬ comparisons.contains "+" = true := by decide
  simp only [combine, adds.operator, adds.right, Option.getD_some]
  rw [if_neg adding, run_bind, typed]
  rfl

theorem run_binary {t l r : Tree} (adds : t.Adds l r) {left right : Option RType}
    {known middle later : LocalTypes}
    (first : (env.leftType inside l).run known = (.ok left, middle))
    (second : (env.typeIfKnown inside r).run middle = (.ok right, later)) :
    (env.binary inside t).run known = (env.operate "+" left right, later) := by
  rw [binary, leftTypeIn_eq, adds.left, Option.map_some, Option.getD_some, run_bind, first]
  exact run_combine adds left second

theorem run_orNone {x : Typing RType} {result : Except Failure RType} {known later : LocalTypes}
    (ran : x.run known = (result, later)) (goesOn : ¬ Stopped result) :
    (orNone x).run known = (.ok result.toOption, later) := by
  rw [orNone, run_attempt, ran]
  cases result with
  | ok a => rfl
  | error e =>
    have quiet : e.isTooDeep = false := Bool.eq_false_iff.2 fun deep => goesOn ⟨e, rfl, deep⟩
    simp [quiet, Except.toOption]

theorem typeIfKnown_of_ok {t : Tree} {type : RType} {known : LocalTypes}
    (typed : ((inside env t).run known).1 = .ok type) :
    ((env.typeIfKnown inside t).run known).1 = .ok (some type) := by
  rw [typeIfKnown, run_attempt]
  generalize (inside env t).run known = ran at typed
  obtain ⟨result, later⟩ := ran
  cases typed
  rfl

theorem run_sum {c : ClassType} (isKnown : env.world.known stringName [] = .ok c)
    (isString : env.isString (some c.toType) = true) {levels : Nat}
    {operands : List Tree} {t : Tree} (sum : Tree.SumOf operands t) {known later : LocalTypes}
    {types : List (Option RType)}
    (typed : (operands.mapM (env.typeIfKnown (typeWithin levels))).run known = (.ok types, later)) :
    ∃ result, (env.binary (typeWithin levels) t).run known = (result, later) ∧ ¬ Stopped result ∧
      (types.any env.isString = true → result = .ok c.toType) := by
  induction sum generalizing known later types with
  | two adds =>
    obtain ⟨left, rest, middle, first, others, rfl⟩ := ok_of_mapM_cons typed
    obtain ⟨right, second, rfl⟩ := ok_of_mapM_singleton others
    have operand := goesOn_leftType levels _ known (by rw [first]; exact not_stopped_ok left)
    refine ⟨_, run_binary adds (operand.trans first) second, not_stopped_operate _ _ _,
      fun found => ?_⟩
    exact operate_string isKnown (by simpa using found)
  | @more t sum e es before adds ih =>
    obtain ⟨parts, rest, middle, first, others, rfl⟩ := ok_of_mapM_append typed
    obtain ⟨right, second, rfl⟩ := ok_of_mapM_singleton others
    obtain ⟨result, ran, goesOn, string⟩ := ih first
    have left :
        (env.leftType (typeWithin levels) sum).run known = (.ok result.toOption, middle) := by
      rw [leftType_binary before.kind]
      exact run_orNone ran goesOn
    refine ⟨_, run_binary adds left second, not_stopped_operate _ _ _, fun found => ?_⟩
    rw [List.any_append, Bool.or_eq_true] at found
    refine operate_string isKnown (found.imp (fun among => ?_) fun last => by simpa using last)
    rw [string among]
    exact isString

namespace Orderly

variable (orderly : env.Orderly) {known later : LocalTypes} (sound : env.Sound known)

include orderly sound

theorem sound_of_mapM (levels : Nat) (ts : List Tree) :
    env.Sound ((ts.mapM (env.typeIfKnown (typeWithin levels))).run known).2 := by
  have alike := fun v (visible : env.Sees v) => (orderly.alike_keeping sound visible).2
  have linked (t : Tree) :=
    linked_of_alike orderly.idle alike ⟨.inr levels.le_refl, .inr levels.le_refl⟩ t
  have paired := Paired.mapM ts fun t _ => (linked t).typeIfKnown (.self t)
  rcases paired known known ⟨rfl, .refl known⟩ with ⟨⟨⟩, _⟩ | ⟨⟨⟩, _⟩ | ⟨_, _, grown⟩
  exact orderly.sound_of_grown sound grown

theorem mem_types {levels : Nat} {operands : List Tree} {types : List (Option RType)}
    (typed : (operands.mapM (env.typeIfKnown (typeWithin levels))).run known = (.ok types, later))
    {e : Tree} (listed : e ∈ operands) {type : RType}
    (alone : ((typeWithin levels env e).run known).1 = .ok type) :
    some type ∈ types := by
  obtain ⟨before, after, rfl⟩ := List.append_of_mem listed
  obtain ⟨parts, rest, middle, first, others, rfl⟩ := ok_of_mapM_append typed
  obtain ⟨found, rest, middle', here, -, rfl⟩ := ok_of_mapM_cons others
  have sound' : env.Sound middle := by
    have kept := orderly.sound_of_mapM sound levels before
    rwa [first] at kept
  have linked := linked_of_alike orderly.idle (fun v visible => orderly.alike_comparing visible)
    ⟨.inr levels.le_refl, .inr levels.le_refl⟩ e
  rcases linked.expressions e (.self e) known middle ⟨sound, sound'⟩ with ⟨-, stopped⟩
    | ⟨-, stopped⟩ | ⟨answer, -⟩
  · rw [alone] at stopped
    exact absurd stopped (not_stopped_ok type)
  · have stops : Stopped ((env.typeIfKnown (typeWithin levels) e).run middle).1 :=
      stopped_orNone.2 stopped
    rw [here] at stops
    exact absurd stops (not_stopped_ok found)
  · rw [alone, RType.rename_id] at answer
    have attempted := typeIfKnown_of_ok answer
    rw [here] at attempted
    cases attempted
    exact List.mem_append_right _ List.mem_cons_self

end Orderly

def operandTyping (env : Env) : TypeInside := typeWithin (env.limit.toNat - 1)

theorem typeOf_sum {operands : List Tree} {t : Tree} (sum : Tree.SumOf operands t)
    {known later : LocalTypes} {types : List (Option RType)}
    (typed : (operands.mapM (env.typeIfKnown env.operandTyping)).run known = (.ok types, later)) :
    env.typeOf t = env.binary env.operandTyping t := by
  rw [typeOf, typeInside]
  unfold operandTyping at typed ⊢
  generalize env.limit.toNat = levels at typed ⊢
  cases levels with
  | zero =>
    -- Without a level to go down, the first operand is stopped.
    obtain ⟨e, es, rfl⟩ := List.exists_cons_of_ne_nil sum.ne_nil
    obtain ⟨_, _, _, first, -⟩ := ok_of_mapM_cons typed
    cases first
  | succ levels => exact typeBy_binary _ _ sum.kind

/-- A sum is a string if typing its operands one after the other is not stopped and finds a string.
-/
theorem string_operand_decides_sum (env : Env)
    (sources : ∀ s ∈ env.world.sources, s.Over env.world.units) {library : Library}
    (asked : .library library ∈ env.world.sources) (hasString : library.contains stringName = true)
    {operands : List Tree} {t : Tree} (sum : Tree.SumOf operands t) {known later : LocalTypes}
    {types : List (Option RType)}
    (typed : (operands.mapM (env.typeIfKnown env.operandTyping)).run known = (.ok types, later))
    (string : (∃ s, some s ∈ types ∧ env.world.qualifiedType? s = some stringName) ∨
      env.Orderly ∧ env.Sound known ∧ ∃ e ∈ operands, ∃ s,
        ((env.operandTyping env e).run known).1 = .ok s ∧
        env.world.qualifiedType? s = some stringName) :
    ∃ d, env.world.qualified? d = some stringName ∧
      (env.typeOf t).run known = (.ok (.ref d []), later) := by
  obtain ⟨d, qualified, isKnown⟩ := World.known_of_library sources asked hasString rfl
  have isString : env.isString (some (ClassType.toType ⟨d, []⟩)) = true := by
    simp [Env.isString, ClassType.toType, World.qualifiedType?, qualified]
  have found : types.any env.isString = true := by
    obtain ⟨s, among, isName⟩ : ∃ s, some s ∈ types ∧
      env.world.qualifiedType? s = some stringName := by
      rcases string with here | ⟨orderly, sound, e, listed, s, alone, isName⟩
      · exact here
      · exact ⟨s, orderly.mem_types sound typed listed alone, isName⟩
    exact List.any_eq_true.2 ⟨some s, among, by simp [Env.isString, isName]⟩
  obtain ⟨result, ran, -, decided⟩ := run_sum isKnown isString sum typed
  refine ⟨d, qualified, ?_⟩
  rw [typeOf_sum sum typed]
  exact ran.trans (by rw [decided found]; rfl)

-- `true + x + "s" + null`
def mixedOperands : List Tree :=
  [Node.leaf "true" "true" "left", Node.leaf "identifier" "x" "right",
    Node.leaf "string_literal" "\"s\"" "right", Node.leaf "null_literal" "null" "right"]

def mixedPrefix : Tree :=
  Node.sum (Node.leaf "true" "true" "left") (Node.leaf "identifier" "x" "right")

def mixedSum : Tree :=
  Node.sum (Node.sum mixedPrefix (Node.leaf "string_literal" "\"s\"" "right"))
    (Node.leaf "null_literal" "null" "right")

-- The name `x` denotes nothing, and the sum before the string has no type.
theorem string_operand_decides_sum_mixed :
    let env : Env := {
      world := World.ofGroups (NameTable.ofList [{ name := stringName }]) [] []
      context := World.unitContext 0
      limit := 2 }
    ((env.binary env.operandTyping mixedPrefix).run []).1 = .error (.unresolved .operand) ∧
      ∃ d, env.world.qualified? d = some stringName ∧
        (env.typeOf mixedSum).run [] = (.ok (.ref d []), []) := by
  intro env
  have sum : Tree.SumOf mixedOperands mixedSum :=
    .more (.more (.two ⟨rfl, rfl, rfl, rfl⟩) ⟨rfl, rfl, rfl, rfl⟩) ⟨rfl, rfl, rfl, rfl⟩
  have typed : (mixedOperands.mapM (env.typeIfKnown env.operandTyping)).run [] =
      (.ok [some (.prim .boolean), none, some (.ref (.library stringName) []), some .null],
        []) := by
    rfl
  refine ⟨rfl, ?_⟩
  exact string_operand_decides_sum env (World.over_ofGroups _ _ _) List.mem_cons_self
    (by decide +kernel) sum typed (.inl ⟨.ref (.library stringName) [], by simp, rfl⟩)

end Env

end RefGraph

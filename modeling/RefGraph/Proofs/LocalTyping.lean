import RefGraph.Proofs.Renaming.Typing

/-!
The types of local variables at one place. As long as no variable is needed for its own type, what
has been found before does not matter: typings that start from types which the variables have at the
place end with such types.
-/

set_option autoImplicit false

namespace RefGraph

theorem World.Renamed.refl (w : World) : World.Renamed id w w where
  injective := Function.injective_id
  unit _ := rfl
  firm n := by simp
  searchBound := rfl
  fallback n := by simp
  libraryType _ := rfl

theorem Env.Renamed.refl (env : Env) : Env.Renamed id env env :=
  ⟨.refl env.world, by simp⟩

def LocalTypes.type? (known : LocalTypes) (id : Nat) : Option RType :=
  (known.find? fun e => e.1 == id).map (·.2)

@[simp] theorem LocalTypes.type?_nil (id : Nat) : LocalTypes.type? [] id = none := rfl

theorem LocalTypes.type?_cons (known : LocalTypes) (id i : Nat) (t : RType) :
    LocalTypes.type? ((id, t) :: known) i = if id = i then some t else known.type? i := by
  by_cases same : id = i <;> simp [LocalTypes.type?, same]

namespace Env

open Typing

variable (env : Env)

def Sees (v : LocalVar) : Prop := ∃ name, env.context.scope.var? name = some v

/-- A variable without a written type needs the variables that its initializer mentions; both are
given by their numbers. -/
inductive Needs : Nat → Nat → Prop
  | mention {u v : LocalVar} {init t : Tree} (visible : env.Sees v) (untyped : v.type = none)
      (isInit : v.initializer = some init) (inside : init.Covers t) (isName : t.kind = "identifier")
      (denotes : env.context.scope.var? t.text = some u) : Needs u.id v.id

def Grounded : Prop := ∀ v, env.Sees v → Acc env.Needs v.id

/-- The types of a variable at a place: what typing it gives, in any number of levels, once some
variables have been given types that they have. -/
inductive HasType : LocalVar → RType → Prop
  | found {v : LocalVar} {t : RType} (levels : Nat) (known : LocalTypes)
      (before : ∀ u, env.Sees u → ∀ s, known.type? u.id = some s → HasType u s)
      (typed : ((env.freshType (typeWithin levels) v).run known).1 = .ok t) : HasType v t

def Sound (known : LocalTypes) : Prop := ∀ u, env.Sees u → ∀ s, known.type? u.id = some s →
    env.HasType u s

def during (busy : List Nat) : Env := { env with busy }

-- The variables being typed are there because they need the given one.
def Above (id : Nat) (busy : List Nat) : Prop := ∀ b ∈ busy, Relation.TransGen env.Needs id b

-- Typing a variable runs alike however many levels there are and whatever is being typed around it.
def Alike (p : Pairing) (typing : Env → TypeInside → LocalVar → Typing RType) (v : LocalVar) :
    Prop :=
  ∀ m n busy busy', p.Levels m n → env.Above v.id busy → env.Above v.id busy' →
    Paired p id (typing (env.during busy) (typeWithin m) v)
      (typing (env.during busy') (typeWithin n) v)

variable {env}

theorem Above.below {i j : Nat} {busy : List Nat} (above : env.Above i busy)
    (needs : env.Needs j i) :
    env.Above j (i :: busy) := by
  intro b listed
  rcases List.mem_cons.1 listed with rfl | before
  · exact .single needs
  · exact .trans (.single needs) (above b before)

theorem not_self_of_acc {α : Type} {r : α → α → Prop} {a : α} (acc : Acc r a) : ¬ r a a := by
  induction acc with
  | intro a _ ih => exact fun self => ih a self self

theorem Above.free {i : Nat} {busy : List Nat} (above : env.Above i busy) (acc : Acc env.Needs i) :
    busy.contains i = false := by
  refine Bool.eq_false_iff.2 fun listed => ?_
  exact not_self_of_acc acc.transGen (above i (List.contains_iff_mem.1 listed))

theorem alike_of_grounded {p : Pairing} (grounded : env.Grounded)
    (record : ∀ v, env.Sees v → env.Alike p freshType v → env.Alike p localType v) {v : LocalVar}
    (visible : env.Sees v) : env.Alike p freshType v ∧ env.Alike p localType v := by
  have acc := grounded v visible
  generalize number : v.id = i at acc
  induction acc generalizing v with
  | intro i _ ih =>
    subst number
    have fresh : env.Alike p freshType v := by
      intro m n busy busy' levels above above'
      have same : Renamed id (env.during busy) (env.during busy') :=
        (Renamed.refl env).withBusy busy busy'
      rw [← RType.rename_id]
      refine same.freshType ?_ fun init untyped isInit _ => ?_
      · intro _
        exact (above'.free (grounded v visible)).trans (above.free (grounded v visible)).symm
      · -- The variables that the initializer mentions come before this one.
        have linked : Linked p id init (typeWithin m) (typeWithin n) (env.during (v.id :: busy))
            (env.during (v.id :: busy')) := by
          refine (same.withBusy (v.id :: busy) (v.id :: busy')).linked_typeWithin rfl ?_ levels
          intro m n levels t inside isName u denotes
          have needs : env.Needs u.id v.id := .mention visible untyped isInit inside isName denotes
          rw [RType.rename_id]
          exact (ih u.id needs ⟨_, denotes⟩ rfl).2 m n _ _ levels (above.below needs)
            (above'.below needs)
        exact linked.expressions init (.self init)
    exact ⟨fresh, record v visible fresh⟩

/-- A place where typing starts: nothing is being typed, no variable needs itself, and numbers tell
variables apart. -/
structure Orderly (env : Env) : Prop where
  idle : env.busy = []
  grounded : env.Grounded
  unique : ∀ u v, env.Sees u → env.Sees v → u.id = v.id → u = v

-- What is recorded was there at the start, or is a type that a variable in scope has.
def Grown (env : Env) (start known : LocalTypes) : Prop :=
  ∀ i t, known.type? i = some t → start.type? i = some t ∨ ∃ v, env.Sees v ∧ v.id = i ∧
    env.HasType v t

-- One run against itself.
def keeping (env : Env) (start : LocalTypes) : Pairing where
  same known known' := known' = known ∧ env.Grown start known

-- Two runs from types that the variables have.
def comparing (env : Env) : Pairing where
  same known known' := env.Sound known ∧ env.Sound known'
  firstStops := True
  secondStops := True

theorem during_nil (idle : env.busy = []) : env.during [] = env := by
  cases env
  simp_all [during]

theorem Above.nil (id : Nat) : env.Above id [] := by simp [Above]

theorem Grown.refl (known : LocalTypes) : env.Grown known known := fun _ _ found => .inl found

theorem Grown.record {start known : LocalTypes} (grown : env.Grown start known) {v : LocalVar}
    {t : RType} (visible : env.Sees v) (typed : env.HasType v t) :
    env.Grown start ((v.id, t) :: known) := by
  intro i s found
  rw [LocalTypes.type?_cons] at found
  split at found
  next same =>
    cases found
    exact .inr ⟨v, visible, same, typed⟩
  next => exact grown i s found

theorem linked_of_alike {p : Pairing} (idle : env.busy = [])
    (alike : ∀ v, env.Sees v → env.Alike p localType v) {m n : Nat} (levels : p.Levels m n)
    (root : Tree) : Linked p id root (typeWithin m) (typeWithin n) env env := by
  refine (Renamed.refl env).linked_typeWithin rfl ?_ levels
  intro m n levels t inside isName v denotes
  have typed := alike v ⟨_, denotes⟩ m n [] [] levels (.nil _) (.nil _)
  rw [during_nil idle] at typed
  rwa [RType.rename_id]

theorem paired_targetOf {p : Pairing} (idle : env.busy = [])
    (alike : ∀ v, env.Sees v → env.Alike p localType v) (t : Tree) :
    Paired p id (env.targetOf t) (env.targetOf t) := by
  have levels : p.Levels env.limit.toNat env.limit.toNat :=
    ⟨.inr (Nat.le_refl _), .inr (Nat.le_refl _)⟩
  rw [← Target.rename_id]
  exact (Renamed.refl env).targetOf (linked_of_alike idle alike levels t)

namespace Orderly

variable (orderly : env.Orderly)

include orderly

theorem sound_of_grown {start known : LocalTypes} (sound : env.Sound start)
    (grown : env.Grown start known) :
    env.Sound known := by
  intro u visible s found
  rcases grown u.id s found with before | ⟨v, seen, same, typed⟩
  · exact sound u visible s before
  · exact orderly.unique v u seen visible same ▸ typed

theorem alike_keeping {start : LocalTypes} (sound : env.Sound start) {v : LocalVar}
    (visible : env.Sees v) :
    env.Alike (env.keeping start) freshType v ∧ env.Alike (env.keeping start) localType v := by
  refine alike_of_grounded orderly.grounded (fun v visible fresh => ?_) visible
  rintro m n busy busy' levels above above' _ known ⟨rfl, grown⟩
  rcases fresh m n busy busy' levels above above' known known ⟨rfl, grown⟩ with
    ⟨⟨⟩, _⟩ | ⟨⟨⟩, _⟩ | ⟨answer, same, later⟩
  rcases fresh m n busy [] levels above (.nil _) known known ⟨rfl, grown⟩ with
    ⟨⟨⟩, _⟩ | ⟨⟨⟩, _⟩ | ⟨alone, _, _⟩
  rw [during_nil orderly.idle] at alone
  refine .inr (.inr ?_)
  rw [run_localType, run_localType]
  cases known.find? fun e => e.1 == v.id with
  | some e => exact ⟨rfl, rfl, grown⟩
  | none =>
    dsimp only
    generalize ((env.during busy).freshType (typeWithin m) v).run known =
      ran at answer same later alone
    generalize ((env.during busy').freshType (typeWithin n) v).run known = ran' at answer same
    obtain ⟨result, after⟩ := ran
    obtain ⟨result', after'⟩ := ran'
    dsimp only at answer same later alone
    subst answer same
    cases result with
    | error e => exact ⟨rfl, rfl, later⟩
    | ok t =>
      have typed : env.HasType v t := .found n known (orderly.sound_of_grown sound grown) alone
      exact ⟨rfl, rfl, later.record visible typed⟩

-- A recorded type comes from a run that had nothing recorded for the variable.
theorem fresh_of_local {m : Nat} {busy : List Nat} {known : LocalTypes} (sound : env.Sound known)
    {v : LocalVar} (visible : env.Sees v) (above : env.Above v.id busy) :
    ∃ m' busy' known', env.Above v.id busy' ∧ env.Sound known' ∧
      (((env.during busy).localType (typeWithin m) v).run known).1 =
        (((env.during busy').freshType (typeWithin m') v).run known').1 := by
  rw [run_localType]
  cases recorded : known.find? fun e => e.1 == v.id with
  | none =>
    refine ⟨m, busy, known, above, sound, ?_⟩
    dsimp only
    generalize ((env.during busy).freshType (typeWithin m) v).run known = ran
    obtain ⟨result, after⟩ := ran
    cases result <;> rfl
  | some e =>
    obtain ⟨m', known', before, typed⟩ := sound v visible e.2 (by simp [LocalTypes.type?, recorded])
    refine ⟨m', [], known', .nil _, before, ?_⟩
    rw [during_nil orderly.idle, typed]

theorem alike_comparing {v : LocalVar} (visible : env.Sees v) :
    env.Alike env.comparing localType v := by
  refine (alike_of_grounded orderly.grounded (fun v visible fresh => ?_) visible).2
  rintro m n busy busy' levels above above' known known' ⟨sound, sound'⟩
  have keeps {m : Nat} {busy : List Nat} {known : LocalTypes} (sound : env.Sound known)
      (above : env.Above v.id busy) :
      env.Sound (((env.during busy).localType (typeWithin m) v).run known).2 := by
    have alike := (orderly.alike_keeping sound visible).2 m m busy busy
      ⟨.inr m.le_refl, .inr m.le_refl⟩ above above
    rcases alike known known ⟨rfl, .refl known⟩ with ⟨⟨⟩, _⟩ | ⟨⟨⟩, _⟩ | ⟨_, _, grown⟩
    exact orderly.sound_of_grown sound grown
  obtain ⟨m₁, busy₁, known₁, above₁, sound₁, first⟩ := orderly.fresh_of_local sound visible above
  obtain ⟨m₂, busy₂, known₂, above₂, sound₂, second⟩ := orderly.fresh_of_local sound' visible above'
  rw [first, second]
  rcases fresh m₁ m₂ busy₁ busy₂ ⟨.inl trivial, .inl trivial⟩ above₁ above₂ known₁ known₂
    ⟨sound₁, sound₂⟩ with
    stopped | stopped | ⟨answer, _⟩
  · exact .inl stopped
  · exact .inr (.inl stopped)
  · exact .inr (.inr ⟨answer, keeps sound above, keeps sound' above'⟩)

theorem grown_targetOf {known : LocalTypes} (sound : env.Sound known) (t : Tree) :
    env.Grown known ((env.targetOf t).run known).2 := by
  have paired :=
    paired_targetOf orderly.idle (fun v visible => (orderly.alike_keeping sound visible).2) t
  rcases paired known known ⟨rfl, .refl known⟩ with ⟨⟨⟩, _⟩ | ⟨⟨⟩, _⟩ | ⟨_, _, grown⟩
  exact grown

theorem targetOf_same {known known' : LocalTypes} (sound : env.Sound known)
    (sound' : env.Sound known') (t : Tree) :
    Stopped ((env.targetOf t).run known).1 ∨ Stopped ((env.targetOf t).run known').1 ∨
      ((env.targetOf t).run known').1 = ((env.targetOf t).run known).1 := by
  have paired := paired_targetOf orderly.idle (fun v visible => orderly.alike_comparing visible) t
  rcases paired known known' ⟨sound, sound'⟩ with ⟨_, stopped⟩ | ⟨_, stopped⟩ | ⟨answer, _⟩
  · exact .inl stopped
  · exact .inr (.inl stopped)
  · refine .inr (.inr ?_)
    rw [answer]
    cases ((env.targetOf t).run known).1 <;> rfl

end Orderly

end Env

end RefGraph

import RefGraph.Dependency
import RefGraph.Proofs.Renaming.Sites
import RefGraph.Proofs.Renaming.Typing

set_option autoImplicit false

namespace RefGraph

open Typing

def LocalTypes.rename (σ : Nat → Nat) (known : LocalTypes) :
    LocalTypes := known.map fun e => (e.1, e.2.rename σ)

-- The second run has found the same types, renamed; it may go on where a limit cuts off the first.
def Pairing.renaming (σ : Nat → Nat) (cut : Prop) : Pairing where
  same known known' := known' = known.rename σ
  firstStops := cut

theorem LocalTypes.find?_rename (σ : Nat → Nat) (known : LocalTypes) (id : Nat) :
    ((known.rename σ).find? fun e => e.1 == id) =
      (known.find? fun e => e.1 == id).map fun e => (e.1, e.2.rename σ) := by
  simp only [rename, List.find?_map]
  rfl

namespace Env.Renamed

variable {σ : Nat → Nat} {cut : Prop} {env env' : Env}

theorem paired_localType {inside inside' : TypeInside} {v : LocalVar}
    (fresh : Paired (.renaming σ cut) (RType.rename σ) (env.freshType inside v)
      (env'.freshType inside' v)) :
    Paired (.renaming σ cut) (RType.rename σ) (env.localType inside v)
      (env'.localType inside' v) := by
  rintro known _ rfl
  rw [run_localType, run_localType, LocalTypes.find?_rename]
  cases known.find? fun e => e.1 == v.id with
  | some e => exact .inr (.inr ⟨rfl, rfl⟩)
  | none =>
    dsimp only [Option.map_none]
    have fresh := fresh known (known.rename σ) rfl
    generalize (env.freshType inside v).run known = ran at fresh
    generalize (env'.freshType inside' v).run (known.rename σ) = ran' at fresh
    obtain ⟨result, later⟩ := ran
    obtain ⟨result', later'⟩ := ran'
    dsimp only at fresh
    rcases fresh with ⟨may, e, failed, deep⟩ | ⟨⟨⟩, _⟩ | ⟨answer, same⟩
    · rw [failed]
      exact .inl ⟨may, e, rfl, deep⟩
    · rw [answer]
      cases result with
      | error e => exact .inr (.inr ⟨rfl, same⟩)
      | ok t =>
        refine .inr (.inr ⟨rfl, ?_⟩)
        show _ :: later' = LocalTypes.rename σ (_ :: later)
        rw [show later' = later.rename σ from same]
        rfl

-- Whatever variables are being typed, expressions and so local variables are typed alike.
theorem linked_of_expressions (renamed : Renamed σ env env') {inside inside' : TypeInside}
    (expressions : ∀ busy t, Paired (.renaming σ cut) (RType.rename σ) (inside { env with busy } t)
      (inside' { env' with busy } t)) (busy : List Nat) (root : Tree) :
    Linked (.renaming σ cut) σ root inside inside' { env with busy } { env' with busy } := by
  refine ⟨renamed.withBusy busy busy, fun t _ => expressions busy t,
    fun t _ _ v _ => paired_localType ?_⟩
  exact (renamed.withBusy busy busy).freshType (fun _ => rfl) fun init _ _ _ =>
    expressions (v.id :: busy) init

-- Where no run may be cut off, both have the same levels and the same limit to report.
theorem typeWithin (renamed : Renamed σ env env') (limit : cut ∨ env'.limit = env.limit) {m n : Nat}
    (levels : (Pairing.renaming σ cut).Levels m n) (busy : List Nat) (t : Tree) :
    Paired (.renaming σ cut) (RType.rename σ) (Env.typeWithin m { env with busy } t)
      (Env.typeWithin n { env' with busy } t) := by
  induction m generalizing n busy t with
  | zero =>
    have cutOff (may : cut) :
        Paired (.renaming σ cut) (RType.rename σ) (Env.typeWithin 0 { env with busy } t)
          (Env.typeWithin n { env' with busy } t) := fun _ _ _ => .inl ⟨may, _, rfl, rfl⟩
    rcases limit with may | limit
    · exact cutOff may
    · rcases levels.1 with may | below
      · exact cutOff may
      · obtain rfl := Nat.le_zero.1 below
        show Paired _ _ (throw _) (throw _)
        rw [limit]
        exact .throw _
  | succ m ih =>
    have second : m + 1 ≤ n := levels.2.resolve_left id
    obtain ⟨n, rfl⟩ : ∃ k, n = k + 1 := ⟨n - 1, by omega⟩
    have inner : (Pairing.renaming σ cut).Levels m n :=
      ⟨levels.1.imp_right Nat.le_of_succ_le_succ, .inr (Nat.le_of_succ_le_succ second)⟩
    exact (renamed.linked_of_expressions (ih inner) busy t).typeBy (.self t)

theorem linked_typeInside (renamed : Renamed σ env env') (limit : cut ∨ env'.limit = env.limit)
    (levels : (Pairing.renaming σ cut).Levels env.limit.toNat env'.limit.toNat)
    (busy : env'.busy = env.busy) (root : Tree) :
    Linked (.renaming σ cut) σ root env.typeInside env'.typeInside env env' := by
  have linked := renamed.linked_of_expressions (renamed.typeWithin limit levels) env.busy root
  have same : ({ env' with busy := env.busy } : Env) = env' := by rw [← busy]
  rw [same] at linked
  exact linked

end Env.Renamed

namespace Corpus

structure Alike (σ : Nat → Nat) (c c' : Corpus) : Prop where
  world : World.Renamed σ c.world c'.world
  keyOf : ∀ unit, c'.keyOf (σ unit) = c.keyOf unit
  limit : c'.limit = c.limit

namespace Alike

variable {σ : Nat → Nat} {c c' : Corpus} (alike : Alike σ c c')

include alike

theorem env (s : Site) : Env.Renamed σ (c.env s) (c'.env (s.rename σ)) :=
  ⟨alike.world, rfl⟩

theorem edgeTo? (s : Site) (m : MemberOf) :
    c'.edgeTo? (s.rename σ) (m.rename σ) = c.edgeTo? s m := by
  have key : c'.keyOf (s.rename σ).context.unit = c.keyOf s.context.unit :=
    alike.keyOf s.context.unit
  have targetKey : c'.keyOf (m.rename σ).owner.unit = c.keyOf m.owner.unit :=
    alike.keyOf m.owner.unit
  have target : c'.world.decl (m.rename σ).owner = c.world.decl m.owner := alike.world.decl m.owner
  have source : c'.world.decl (s.rename σ).owner.owner = c.world.decl s.owner.owner :=
    alike.world.decl s.owner.owner
  simp only [Corpus.edgeTo?, key, targetKey, target, source]
  rfl

theorem report? (s : Site) (target : Except Failure Target) :
    c'.report? (s.rename σ) (target.map (Target.rename σ)) = c.report? s target := by
  have unit : c'.world.unit (s.rename σ).context.unit = c.world.unit s.context.unit :=
    alike.world.unit s.context.unit
  have node : (s.rename σ).node = s.node := rfl
  rcases target with e | target
  · simp only [Corpus.report?, Except.map, unit, node]
  · cases target with
    | member m =>
      cases m with
      | declared m => rfl
      | external m =>
        simp only [Corpus.report?, Except.map, Target.rename, MemberRef.rename,
          ExternalMember.rename, unit, node]
        cases m.on <;> rfl
    | _ => rfl

theorem resolveSite (s : Site) (known : LocalTypes) :
    (c'.resolveSite (s.rename σ) (known.rename σ)).1.edge = (c.resolveSite s known).1.edge ∧
      (c'.resolveSite (s.rename σ) (known.rename σ)).1.reported =
        (c.resolveSite s known).1.reported ∧
      (c'.resolveSite (s.rename σ) (known.rename σ)).2 = (c.resolveSite s known).2.rename σ := by
  have limit : (c'.env (s.rename σ)).limit = (c.env s).limit := alike.limit
  have levels : (Pairing.renaming σ False).Levels (c.env s).limit.toNat
      (c'.env (s.rename σ)).limit.toNat := by
    rw [limit]
    exact ⟨.inr (Nat.le_refl _), .inr (Nat.le_refl _)⟩
  have linked := (alike.env s).linked_typeInside (.inr limit) levels rfl s.node
  have paired := (alike.env s).targetOf linked
  rcases paired known (known.rename σ) rfl with ⟨⟨⟩, _⟩ | ⟨⟨⟩, _⟩ | ⟨answer, same⟩
  have node : (s.rename σ).node = s.node := rfl
  have same : _ = LocalTypes.rename σ _ := same
  simp only [Corpus.resolveSite, node]
  generalize ((c.env s).targetOf s.node).run known = ran at answer same
  generalize ((c'.env (s.rename σ)).targetOf s.node).run (known.rename σ) = ran' at answer same
  obtain ⟨target, later⟩ := ran
  obtain ⟨target', later'⟩ := ran'
  dsimp only at answer same ⊢
  rw [answer, same, alike.report?]
  refine ⟨?_, rfl, rfl⟩
  rcases target with e | target
  · rfl
  · cases target with
    | member m =>
      cases m with
      | declared m => exact alike.edgeTo? s m
      | external m => rfl
    | _ => rfl

theorem resolveSites (known : LocalTypes) (sites : List Site) :
    (c'.resolveSites (known.rename σ) (sites.map (Site.rename σ))).map
      (fun o => (o.edge, o.reported)) =
      (c.resolveSites known sites).map fun o => (o.edge, o.reported) := by
  induction sites generalizing known with
  | nil => rfl
  | cons s ss ih =>
    obtain ⟨edge, reported, later⟩ := alike.resolveSite s known
    simp only [List.map_cons, Corpus.resolveSites]
    rw [edge, reported, later, ih]

theorem sites (unit : Nat) : c'.sites (σ unit) = (c.sites unit).map (Site.rename σ) := by
  rw [Corpus.sites, Corpus.sites, alike.keyOf, alike.world.ofUnit]
  split <;> rfl

theorem dependencies (unit : Nat) : c'.dependencies (σ unit) = c.dependencies unit := by
  have split (outcomes : List Outcome) : ofOutcomes outcomes =
        ((outcomes.map fun o => (o.edge, o.reported)).filterMap fun o =>
          o.1.map Relation.dependency,
          (outcomes.map fun o => (o.edge, o.reported)).flatMap (·.2)) := by
    rw [ofOutcomes, List.filterMap_map, List.flatMap_map]
    rfl
  have outcomes := alike.resolveSites [] (c.sites unit)
  rw [← alike.sites] at outcomes
  rw [Corpus.dependencies, Corpus.dependencies, split, split, ← outcomes]
  rfl

end Alike

structure Renamed (σ : Nat → Nat) (c c' : Corpus) : Prop where
  world : World.Renamed σ c.world c'.world
  roots : c'.roots = c.roots
  limit : c'.limit = c.limit

theorem Renamed.dependencies {σ : Nat → Nat} {c c' : Corpus} (renamed : Renamed σ c c')
    (unit : Nat) :
    c'.dependencies (σ unit) = c.dependencies unit := by
  have keyOf (unit : Nat) : c'.keyOf (σ unit) = c.keyOf unit := by
    rw [Corpus.keyOf, Corpus.keyOf, renamed.roots, renamed.world.unit]
  exact Alike.dependencies ⟨renamed.world, keyOf, renamed.limit⟩ unit

end Corpus

end RefGraph

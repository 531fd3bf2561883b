import RefGraph.Proofs.Renaming.Lookup
import RefGraph.Proofs.Walk

set_option autoImplicit false

namespace RefGraph

variable (σ : Nat → Nat)

namespace Scope

@[simp] theorem rename_push (s : Scope TypeId) : s.push.rename σ = (s.rename σ).push := rfl

@[simp] theorem rename_pop (s : Scope TypeId) : s.pop.rename σ = (s.rename σ).pop := by
  obtain ⟨frames⟩ := s
  cases frames <;> rfl

@[simp] theorem rename_declare (s : Scope TypeId) (v : LocalVar) :
    (s.declare v).rename σ = (s.rename σ).declare v := by
  obtain ⟨frames⟩ := s
  cases frames <;> rfl

@[simp] theorem rename_declareType (s : Scope TypeId) (name : String) (t : TypeId) :
    (s.declareType name t).rename σ = (s.rename σ).declareType name (t.rename σ) := by
  obtain ⟨frames⟩ := s
  cases frames <;> rfl

end Scope

def Site.rename (s : Site) : Site := ⟨s.node, s.context.rename σ, s.owner.rename σ⟩

namespace Sites

def Surroundings.rename (s : Surroundings) : Surroundings where
  scope := s.scope.rename σ
  types := s.types.map (TypeId.rename σ)
  members := s.members.map (MemberOf.rename σ)
  owners := s.owners.map (MemberOf.rename σ)
  nextVar := s.nextVar

namespace Surroundings

theorem rename_declareAll (s : Surroundings) (vs : List LocalVar) :
    (s.declareAll vs).rename σ = (s.rename σ).declareAll vs := by
  induction vs generalizing s with
  | nil => rfl
  | cons v vs ih =>
    have first : (s.declare v).rename σ = (s.rename σ).declare v := by
      simp [declare, rename]
    exact (ih (s.declare v)).trans (by rw [first]; rfl)

theorem rename_leave (s : Surroundings) (opened : Opened) :
    (s.leave opened).rename σ = (s.rename σ).leave opened := by
  obtain ⟨scope, owner, type, member⟩ := opened
  cases scope <;> cases owner <;> cases type <;> cases member <;> simp [leave, rename]

end Surroundings

end Sites

namespace World.RenamedFirm

open Sites

variable {σ : Nat → Nat} {w w' : World} (renamed : RenamedFirm σ w w')

include renamed

theorem enterType (s : Surroundings) (id : TypeId) :
    (s.rename σ).enterType w' (id.rename σ) = (s.enterType w id).rename σ := by
  simp only [Surroundings.enterType, renamed.decl, Surroundings.rename, List.map_cons]
  split <;> simp

theorem enterDeclaration (unit : Nat) (s : Surroundings) (t : Tree) :
    (s.rename σ).enterDeclaration w' (σ unit) t =
      ((s.enterDeclaration w unit t).1.rename σ, (s.enterDeclaration w unit t).2) := by
  have inside (i : Nat) : ((s.rename σ).types.head? == some (⟨σ unit, i⟩ : TypeId)) =
      (s.types.head? == some ⟨unit, i⟩) := by
    have same (t : TypeId) : t.rename σ = ⟨σ unit, i⟩ ↔ t = ⟨unit, i⟩ :=
      (TypeId.rename_injective renamed.injective).eq_iff' (b := ⟨unit, i⟩) rfl
    simp only [Surroundings.rename, List.head?_map]
    cases s.types.head? with
    | none => rfl
    | some t =>
      apply Bool.eq_iff_iff.2
      simp only [Option.map_some, beq_iff_eq, Option.some.injEq, same]
  have owner (i : Nat) : w'.decl ⟨σ unit, i⟩ = w.decl ⟨unit, i⟩ := renamed.decl ⟨unit, i⟩
  unfold Surroundings.enterDeclaration
  rw [renamed.unit]
  cases (w.unit unit).declarationAt? t with
  | none => rfl
  | some r =>
    cases r with
    | type i => exact Prod.ext (renamed.enterType s ⟨unit, i⟩) rfl
    | _ i j =>
      simp only [owner, inside]
      cases s.types.head? == some ⟨unit, i⟩ with
      | false => rfl
      | true =>
        generalize (w.decl ⟨unit, i⟩).member? _ = member
        rcases member with _ | m
        · rfl
        · cases m <;> cases named : (w.decl ⟨unit, i⟩).isNamed <;> rfl

theorem enter (unit : Nat) (s : Surroundings) (t : Tree) :
    (s.rename σ).enter w' (σ unit) t = ((s.enter w unit t).1.rename σ, (s.enter w unit t).2) := by
  have entered := renamed.enterDeclaration unit s t
  have params : ((s.enterDeclaration w unit t).1.rename σ).members.head?.map (fun m =>
      Surroundings.paramVars m.member) =
      (s.enterDeclaration w unit t).1.members.head?.map fun m =>
        Surroundings.paramVars m.member := by
    simp only [Surroundings.rename, List.head?_map, Option.map_map]
    rfl
  simp only [Surroundings.enter, entered, params]
  split
  · rw [Surroundings.rename_declareAll]
    rfl
  · rw [Surroundings.rename_declareAll]

theorem siteContext (s : Surroundings) (innermost : TypeId) (owner : MemberOf) :
    (s.rename σ).context w' (innermost.rename σ) (owner.rename σ) =
      (s.context w innermost owner).rename σ := by
  have inside := renamed.typeContext innermost s.scope
  have params : ((s.members.map (MemberOf.rename σ)).reverse.foldl
      (fun b m => bindParams b m.member.typeParams) (w.typeContext innermost s.scope).typeParams) =
      s.members.reverse.foldl (fun b m => bindParams b m.member.typeParams)
        (w.typeContext innermost s.scope).typeParams := by
    rw [← List.map_reverse, List.foldl_map]
    rfl
  simp only [Surroundings.context, Surroundings.rename, inside]
  simp only [Context.rename, params]
  rfl

theorem site? (s : Surroundings) (parent : Option Tree) (t : Tree) :
    (s.rename σ).site? w' parent t = (s.site? w parent t).map (Site.rename σ) := by
  have owners : (s.rename σ).owners = s.owners.map (MemberOf.rename σ) := rfl
  have types : (s.rename σ).types = s.types.map (TypeId.rename σ) := rfl
  unfold Surroundings.site?
  rw [owners, types]
  split
  · rcases s.owners with _ | ⟨owner, _⟩
    · rfl
    · rcases s.types with _ | ⟨innermost, _⟩
      · rfl
      · simp only [List.map_cons, renamed.siteContext]
        rfl
  · rfl

omit renamed in
theorem walkAll (unit : Nat) (parent : Option Tree) (s : Surroundings) (ts : List Tree)
    (each : ∀ t ∈ ts, ∀ s : Surroundings, walk w' (σ unit) parent (s.rename σ) t =
      ((walk w unit parent s t).1.rename σ, (walk w unit parent s t).2.map (Site.rename σ))) :
    Sites.walkAll w' (σ unit) parent (s.rename σ) ts =
      ((Sites.walkAll w unit parent s ts).1.rename σ,
        (Sites.walkAll w unit parent s ts).2.map (Site.rename σ)) := by
  induction ts generalizing s with
  | nil => simp [Sites.walkAll]
  | cons t ts ih =>
    have rest s := ih s fun u listed => each u (List.mem_cons_of_mem _ listed)
    rw [Sites.walkAll, Sites.walkAll]
    split
    · simp only [each t List.mem_cons_self s, rest, List.map_append]
    · exact rest s

theorem walk (unit : Nat) (parent : Option Tree) (s : Surroundings) (t : Tree) :
    Sites.walk w' (σ unit) parent (s.rename σ) t =
      ((Sites.walk w unit parent s t).1.rename σ,
        (Sites.walk w unit parent s t).2.map (Site.rename σ)) := by
  induction t using Tree.induction generalizing parent s with
  | node t ih =>
    have inner := RenamedFirm.walkAll unit (some t) (s.enter w unit t).1 t.children
        fun c listed s =>
      ih c listed (some t) s
    simp only [walk_eq, renamed.enter, inner, renamed.site?, Surroundings.rename_leave,
      List.map_append]
    cases (s.enter w unit t).1.site? w parent t <;> rfl

theorem ofUnit (unit : Nat) :
    Sites.ofUnit w' (σ unit) = (Sites.ofUnit w unit).map (Site.rename σ) := by
  have walked := renamed.walk unit none {} (w.unit unit).tree
  rw [Sites.ofUnit, Sites.ofUnit, renamed.unit]
  exact congrArg Prod.snd walked

end World.RenamedFirm

end RefGraph

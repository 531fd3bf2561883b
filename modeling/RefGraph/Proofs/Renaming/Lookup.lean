import RefGraph.Lookup
import RefGraph.Proofs.Renaming.Basic

/-!
Names are looked up alike in two worlds that hold the same units at other positions, if the sources
of the two answer alike.
-/

set_option autoImplicit false

namespace RefGraph

namespace World

/-- The units of the first world stand in the second at the positions that `σ` gives, and the firm
sources answer every name alike. -/
structure RenamedFirm (σ : Nat → Nat) (w w' : World) : Prop where
  injective : Function.Injective σ
  unit : ∀ i, w'.unit (σ i) = w.unit i
  firm : ∀ n, (w'.firm.findSome? fun s => s.find? n) =
    (w.firm.findSome? fun s => s.find? n).map (Decl.rename σ)
  searchBound : w'.searchBound = w.searchBound

structure Renamed (σ : Nat → Nat) (w w' : World) : Prop extends RenamedFirm σ w w' where
  fallback : ∀ n, (w'.fallback.findSome? fun s => s.find? n) =
    (w.fallback.findSome? fun s => s.find? n).map (Decl.rename σ)
  libraryType : ∀ n, w'.libraryType n = w.libraryType n

-- Searches for member types in the two worlds.
def Commutes (σ : Nat → Nat) (search search' : MemberSearch) : Prop :=
  ∀ t name, search' (t.rename σ) name = (search t name).map (TypeId.rename σ)

namespace RenamedFirm

variable {σ : Nat → Nat} {w w' : World} (renamed : RenamedFirm σ w w')

include renamed

theorem decl (id : TypeId) : w'.decl (id.rename σ) = w.decl id := by
  simp [World.decl, renamed.unit]

theorem declaring? (id : TypeId) :
    w'.declaring? (id.rename σ) = (w.declaring? id).map (TypeId.rename σ) := by
  simp only [World.declaring?, renamed.decl, Option.map_map]
  rfl

theorem enclosing (id : TypeId) :
    w'.enclosing (id.rename σ) = (w.enclosing id).map (TypeId.rename σ) := by
  simp only [World.enclosing, TypeId.unit_rename, TypeId.index_rename, renamed.unit, List.map_map]
  rfl

theorem ownMember? (id : TypeId) (name : String) :
    w'.ownMember? (id.rename σ) name = (w.ownMember? id name).map (TypeId.rename σ) := by
  simp only [World.ownMember?, TypeId.unit_rename, TypeId.index_rename, renamed.unit,
    Option.map_map]
  rfl

theorem typeContext (id : TypeId) (scope : Scope TypeId) :
    w'.typeContext (id.rename σ) (scope.rename σ) = (w.typeContext id scope).rename σ := by
  simp only [World.typeContext, renamed.enclosing, Context.rename, ← List.map_reverse,
    List.foldl_map, renamed.decl]
  rfl

theorem headerContext (id : TypeId) :
    w'.headerContext (id.rename σ) = (w.headerContext id).rename σ := by
  simp only [World.headerContext, renamed.declaring?, renamed.decl]
  cases w.declaring? id with
  | none => rfl
  | some outer =>
    have outside := renamed.typeContext outer {}
    rw [Scope.rename_empty] at outside
    simp only [Option.map_some, outside]
    rfl

theorem memberContext (m : MemberOf) :
    w'.memberContext (m.rename σ) = (w.memberContext m).rename σ := by
  have inside := renamed.typeContext m.owner {}
  rw [Scope.rename_empty] at inside
  simp only [World.memberContext, MemberOf.rename, inside]
  rfl

theorem localType? (ctx : Context) (name : String) :
    w'.localType? (ctx.rename σ) name = (w.localType? ctx name).map (TypeId.rename σ) := by
  have visible (i : Nat) : (ctx.enclosing.map (TypeId.rename σ)).contains ⟨σ ctx.unit, i⟩ =
      ctx.enclosing.contains ⟨ctx.unit, i⟩ :=
    contains_map (TypeId.rename_injective renamed.injective) ctx.enclosing ⟨ctx.unit, i⟩
  simp only [World.localType?, Context.rename, Scope.type?_rename, renamed.unit, visible,
    Option.map_or, Option.map_map]
  rfl

theorem unitType? (ctx : Context) (name : String) :
    w'.unitType? (ctx.rename σ) name = (w.unitType? ctx name).map (TypeId.rename σ) := by
  simp only [World.unitType?, Context.rename, renamed.unit, Option.map_map]
  rfl

theorem candidateNames (ctx : Context) (n : Name) :
    w'.candidateNames (ctx.rename σ) n = w.candidateNames ctx n := by
  simp only [World.candidateNames, Context.rename, renamed.unit]

theorem lexical? {search search' : MemberSearch} (commutes : Commutes σ search search')
    (ctx : Context) (name : String) :
    w'.lexical? search' (ctx.rename σ) name =
      (w.lexical? search ctx name).map (TypeId.rename σ) := by
  have around : ((ctx.rename σ).enclosing.findSome? fun t =>
      if (w'.decl t).isNamed && (w'.decl t).name == name then some t else search' t name) =
      (ctx.enclosing.findSome? fun t =>
        if (w.decl t).isNamed && (w.decl t).name == name then some t else search t name).map
        (TypeId.rename σ) := by
    refine findSome?_rename ctx.enclosing fun t _ => ?_
    rw [renamed.decl]
    split
    · rfl
    · exact commutes t name
  simp only [World.lexical?, around, renamed.localType?, renamed.unitType?, Option.map_or]

omit renamed in
theorem descend? {search search' : MemberSearch} (commutes : Commutes σ search search') (t : TypeId)
    (path : List String) :
    World.descend? search' (t.rename σ) path =
      (World.descend? search t path).map (TypeId.rename σ) := by
  induction path generalizing t with
  | nil => rfl
  | cons s ss ih =>
    rw [World.descend?, World.descend?, commutes]
    cases search t s with
    | none => rfl
    | some u => exact ih u

theorem fromSources? (names : List Name) :
    w'.fromSources? names = (w.fromSources? names).map (Decl.rename σ) := by
  simp only [World.fromSources?]
  induction names with
  | nil => rfl
  | cons n ns ih =>
    rw [List.findSome?_cons, List.findSome?_cons, renamed.firm, ih]
    cases w.firm.findSome? fun s => s.find? n <;> rfl

theorem solveWritten? {search search' : MemberSearch} (commutes : Commutes σ search search')
    (ctx? : Option Context) (n : Name) :
    w'.solveWritten? search' (ctx?.map (Context.rename σ)) n =
      (w.solveWritten? search ctx? n).map (Decl.rename σ) := by
  cases ctx? with
  | none => exact renamed.fromSources? [n]
  | some ctx =>
    simp only [World.solveWritten?, Option.map_some, renamed.lexical? commutes,
      renamed.candidateNames]
    cases w.lexical? search ctx n.first with
    | none => exact renamed.fromSources? _
    | some t =>
      simp only [Option.map_some, descend? commutes, Option.map_map]
      rfl

theorem resolveFirmWith? {search search' : MemberSearch} (commutes : Commutes σ search search')
    (ctx? : Option Context) (n : Name) :
    w'.resolveFirmWith? search' (ctx?.map (Context.rename σ)) n =
      (w.resolveFirmWith? search ctx? n).map (Decl.rename σ) := by
  simp only [World.resolveFirmWith?, renamed.solveWritten? commutes]
  split
  · rfl
  · split <;> simp [Option.map_or]

theorem corpusSupertypes {search search' : MemberSearch} (commutes : Commutes σ search search')
    (t : TypeId) :
    w'.corpusSupertypes search' (t.rename σ) =
      (w.corpusSupertypes search t).map (TypeId.rename σ) := by
  have resolved (r : TypeRef) := renamed.resolveFirmWith? commutes (some (w.headerContext t)) r.name
  simp only [Option.map_some] at resolved
  simp only [World.corpusSupertypes, renamed.headerContext, renamed.decl,
    List.map_filterMap, resolved]
  congr 1
  funext r
  rcases w.resolveFirmWith? search (some (w.headerContext t)) r.name with _ | d
  · rfl
  · cases d <;> rfl

-- One level of the search finds alike, visits alike and goes on alike.
theorem scanLevel {search search' : MemberSearch} (commutes : Commutes σ search search')
    (name : String) (level visited next : List TypeId) :
    w'.scanLevel search' name (level.map (TypeId.rename σ)) (visited.map (TypeId.rename σ))
        (next.map (TypeId.rename σ)) =
      (w.scanLevel search name level visited next).map (TypeId.rename σ)
        (Prod.map (List.map (TypeId.rename σ)) (List.map (TypeId.rename σ))) := by
  induction level generalizing visited next with
  | nil => rfl
  | cons t ts ih =>
    rw [List.map_cons, World.scanLevel, World.scanLevel,
      contains_map (TypeId.rename_injective renamed.injective), renamed.ownMember?]
    split
    · exact ih visited next
    · cases w.ownMember? t name with
      | some m => rfl
      | none =>
        rw [renamed.corpusSupertypes commutes, ← List.map_cons, ← List.map_append]
        exact ih _ _

theorem inheritedMember? {search search' : MemberSearch} (commutes : Commutes σ search search')
    (name : String) (depth : Nat) (visited level : List TypeId) :
    w'.inheritedMember? search' name depth (visited.map (TypeId.rename σ))
      (level.map (TypeId.rename σ)) =
      (w.inheritedMember? search name depth visited level).map (TypeId.rename σ) := by
  induction depth generalizing visited level with
  | zero => rfl
  | succ depth ih =>
    have scan := renamed.scanLevel commutes name level visited []
    rw [List.map_nil] at scan
    rw [World.inheritedMember?, World.inheritedMember?, scan]
    rcases w.scanLevel search name level visited [] with m | ⟨seen, next⟩
    · rfl
    · cases next with
      | nil => rfl
      | cons t ts => exact ih seen (t :: ts)

theorem memberSearch (fuel : Nat) (busy : List (TypeId × String)) :
    Commutes σ (w.memberSearch fuel busy)
      (w'.memberSearch fuel (busy.map fun e => (e.1.rename σ, e.2))) := by
  induction fuel generalizing busy with
  | zero => exact fun _ _ => rfl
  | succ fuel ih =>
    intro t name
    have pairs : Function.Injective fun e : TypeId × String => (e.1.rename σ, e.2) := by
      rintro ⟨t, s⟩ ⟨u, s'⟩ same
      simp only [Prod.mk.injEq] at same
      rw [TypeId.rename_injective renamed.injective same.1, same.2]
    have under : (busy.map fun e => (e.1.rename σ, e.2)).contains (t.rename σ, name) =
        busy.contains (t, name) := contains_map pairs busy (t, name)
    rw [World.memberSearch, World.memberSearch, renamed.ownMember?, under]
    cases w.ownMember? t name with
    | some m => rfl
    | none =>
      simp only [Option.map_none]
      split
      · rfl
      · exact renamed.inheritedMember? (ih ((t, name) :: busy)) name (hierarchyLimit + 1) [] [t]

theorem memberType? : Commutes σ w.memberType? w'.memberType? := by
  rw [World.memberType?, World.memberType?, renamed.searchBound]
  exact renamed.memberSearch w.searchBound []

theorem resolveFirm? (ctx? : Option Context) (n : Name) :
    w'.resolveFirm? (ctx?.map (Context.rename σ)) n = (w.resolveFirm? ctx? n).map (Decl.rename σ) :=
  renamed.resolveFirmWith? renamed.memberType? ctx? n

end RenamedFirm

namespace Renamed

variable {σ : Nat → Nat} {w w' : World} (renamed : Renamed σ w w')

include renamed

theorem resolveFallback? (n : Name) :
    w'.resolveFallback? n = (w.resolveFallback? n).map (Decl.rename σ) := by
  simp only [World.resolveFallback?, renamed.fallback]
  split <;> simp [Option.map_or]

theorem resolve? (ctx? : Option Context) (n : Name) :
    w'.resolve? (ctx?.map (Context.rename σ)) n = (w.resolve? ctx? n).map (Decl.rename σ) := by
  simp only [World.resolve?, renamed.resolveFirm?, renamed.resolveFallback?, Option.map_or]

end Renamed

end World

end RefGraph

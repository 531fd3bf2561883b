import RefGraph.Proofs.Synthesis

set_option autoImplicit false

namespace RefGraph

namespace Mention

variable (σ : Nat → Nat)

def rename (m : Mention) : Mention := ⟨m.type, m.context.rename σ⟩

theorem expand_rename (m : Mention) :
    (m.rename σ).expand = m.expand.map (Prod.map id (rename σ)) := by
  simp only [expand, List.map_map]
  rfl

theorem fitting_rename (limit : Int) (ms : List Mention) :
    fitting limit (ms.map (rename σ)) = (fitting limit ms).map (rename σ) := by
  have all :
      (ms.map (rename σ)).flatMap expand = (ms.flatMap expand).map (Prod.map id (rename σ)) := by
    rw [List.flatMap_map, List.map_flatMap]
    simp only [expand_rename]
  rw [fitting, all, List.takeWhile_map, List.map_map, fitting, List.map_map]
  rfl

theorem ofImport_rename (unit : Nat) (i : Import) :
    ofImport (σ unit) i = (ofImport unit i).map (rename σ) := by
  unfold ofImport
  split <;> rfl

end Mention

namespace World

-- A placeholder knows nothing of library types, wherever it is asked.
theorem libraryType_eq (w : World) (n : Name) : w.libraryType n =
    (w.firm.findSome? fun | .library l => l.find? n | _ => none).getD { name := n } := by
  rw [libraryType, World.firm]
  congr 1
  induction w.sources with
  | nil => rfl
  | cons t ts ih => cases t <;> simp [Source.isFallback, List.findSome?_cons, ih]

theorem libraryType_addSource (w : World) {s : Source} (fallback : s.isFallback = true) (n : Name) :
    (w.addSource s).libraryType n = w.libraryType n := by
  rw [libraryType_eq, libraryType_eq, w.firm_addSource fallback]

end World

namespace World.RenamedFirm

variable {σ : Nat → Nat} {w w' : World} (renamed : RenamedFirm σ w w')

include renamed

theorem mentionsOf (id : TypeId) :
    Mention.ofType w' (id.rename σ) = (Mention.ofType w id).map (Mention.rename σ) := by
  have body := renamed.typeContext id {}
  rw [Scope.rename_empty] at body
  have inside (m : Member) :
      w'.memberContext ⟨id.rename σ, m⟩ = (w.memberContext ⟨id, m⟩).rename σ :=
    renamed.memberContext ⟨id, m⟩
  simp only [Mention.ofType, renamed.decl, renamed.headerContext, body, inside, List.map_append,
    List.map_flatMap, List.map_map]
  rfl

theorem mentionGroups (unit : Nat) :
    w'.mentionGroups (σ unit) = (w.mentionGroups unit).map (List.map (Mention.rename σ)) := by
  have types (i : Nat) :
      Mention.ofType w' ⟨σ unit, i⟩ = (Mention.ofType w ⟨unit, i⟩).map (Mention.rename σ) :=
    renamed.mentionsOf ⟨unit, i⟩
  have imports : (w.unit unit).imports.filterMap (Mention.ofImport (σ unit)) =
      ((w.unit unit).imports.filterMap (Mention.ofImport unit)).map (Mention.rename σ) := by
    rw [List.map_filterMap]
    congr 1
    funext i
    exact Mention.ofImport_rename σ unit i
  simp only [World.mentionGroups, renamed.unit, types, imports, List.map_append, List.map_map]
  rfl

theorem registration? (m : Mention) : (m.rename σ).registration? w' = m.registration? w := by
  have undeclared : (m.rename σ).isUndeclared w' = m.isUndeclared w := by
    have found (n : Name) := renamed.resolveFirm? (some m.context) n
    simp only [Option.map_some] at found
    simp only [Mention.isUndeclared, Mention.rename, found, Option.isNone_map]
    rfl
  rw [Mention.registration?, undeclared]
  rfl

theorem unitRegistrations (limit : Int) (unit : Nat) :
    w'.unitRegistrations limit (σ unit) = w.unitRegistrations limit unit := by
  have group (ms : List Mention) :
      Mention.registrations w' limit (ms.map (Mention.rename σ)) =
        Mention.registrations w limit ms := by
    simp only [Mention.registrations, Mention.fitting_rename, List.filterMap_map, Function.comp_def,
      renamed.registration?]
  simp only [World.unitRegistrations, renamed.mentionGroups, List.flatMap_map, group]

theorem withPlaceholders {limit : Int} (bare : w.fallback = []) (bare' : w'.fallback = [])
    (libraryType : ∀ n, w'.libraryType n = w.libraryType n)
    (alike : ∀ s, Registry.best? (w'.registrations limit) s =
      Registry.best? (w.registrations limit) s) :
    Renamed σ (w.withPlaceholders limit) (w'.withPlaceholders limit) where
  injective := renamed.injective
  unit := renamed.unit
  firm n := by
    rw [World.withPlaceholders, World.withPlaceholders, firm_addSource _ rfl, firm_addSource _ rfl]
    exact renamed.firm n
  searchBound := renamed.searchBound
  fallback n := by
    rw [fallback_withPlaceholders, fallback_withPlaceholders, bare, bare']
    simp only [List.nil_append, List.findSome?_singleton, Source.find?, Registry.solve?_ofList,
      alike, Option.map_map]
    rfl
  libraryType n := by
    rw [World.withPlaceholders, World.withPlaceholders, libraryType_addSource _ rfl,
      libraryType_addSource _ rfl]
    exact libraryType n

end World.RenamedFirm

end RefGraph

import RefGraph.Proofs.Registry
import RefGraph.Proofs.Renaming.Lookup

set_option autoImplicit false

namespace RefGraph

theorem Name.bare_eq_self {n : Name} (simple : n.isQualified = false) : n.bare = n := by
  obtain ⟨first, rest⟩ := n
  obtain rfl : rest = [] := by simpa [isQualified] using simple
  rfl

namespace World

def addSources (w : World) (ss : List Source) : World := ss.foldl addSource w

theorem units_addSources (w : World) (ss : List Source) : (w.addSources ss).units = w.units := by
  induction ss generalizing w with
  | nil => rfl
  | cons s ss ih => exact ih (w.addSource s)

theorem firm_addSources (w : World) (ss : List Source) :
    (w.addSources ss).firm = w.firm ++ ss.filter fun s => !s.isFallback := by
  induction ss generalizing w with
  | nil => simp [addSources]
  | cons s ss ih =>
    have step : (w.addSource s).firm = w.firm ++ [s].filter fun s => !s.isFallback := by
      simp [firm, addSource, Source.settle]
    rw [addSources, List.foldl_cons, ← addSources, ih, step, List.append_assoc,
      ← List.filter_append]
    rfl

theorem fallback_addSources (w : World) (ss : List Source) :
    (w.addSources ss).fallback = w.fallback ++ ss.filter Source.isFallback := by
  induction ss generalizing w with
  | nil => simp [addSources]
  | cons s ss ih =>
    have step : (w.addSource s).fallback = w.fallback ++ [s].filter Source.isFallback := by
      simp [fallback, addSource, Source.settle]
    rw [addSources, List.foldl_cons, ← addSources, ih, step, List.append_assoc,
      ← List.filter_append]
    rfl

theorem resolveFirm?_congr {w w' : World} (units : w'.units = w.units) (firm : w'.firm = w.firm)
    (ctx? : Option Context) (n : Name) : w'.resolveFirm? ctx? n = w.resolveFirm? ctx? n := by
  have renamed : RenamedFirm id w w' := {
    injective := fun _ _ same => same
    unit := fun i => by simp [World.unit, units]
    firm := fun n => by simp [firm]
    searchBound := by simp [searchBound, supertypeSegments, units] }
  have same := renamed.resolveFirm? ctx? n
  rwa [Context.rename_id, Decl.rename_id, Option.map_id_fun, Option.map_id_fun] at same

-- The last segment was tried already.
theorem resolveFirm?_bare {w : World} {ctx? : Option Context} {n : Name}
    (unresolved : w.resolveFirm? ctx? n = none) : w.resolveFirm? ctx? n.bare = none := by
  by_cases qualified : n.isQualified = true
  · by_cases empty : n.bare.isEmpty = true
    · simp [resolveFirm?, resolveFirmWith?, empty]
    · have named : n.isEmpty = false := by
        simp only [Name.isQualified, Bool.not_eq_true'] at qualified
        simp [Name.isEmpty, qualified]
      have notQualified : n.bare.isQualified = false := rfl
      simp only [resolveFirm?, resolveFirmWith?, named, qualified, if_true, Bool.false_eq_true,
        if_false, Option.or_eq_none_iff] at unresolved
      simp [resolveFirm?, resolveFirmWith?, notQualified, unresolved.2]
  · rw [Name.bare_eq_self (by simpa using qualified)]
    exact unresolved

theorem resolveFallback?_eq {w : World} {rs : List (Name × Int)}
    (one : w.fallback = [.placeholders (.ofList rs)]) (n : Name) :
    w.resolveFallback? n = (Registry.best? rs n.last).map .placeholder := by
  simp only [resolveFallback?, one, List.findSome?_singleton, Source.find?, Registry.solve?_ofList,
    Name.last_bare]
  cases Registry.best? rs n.last <;> simp

section Layered

variable (units : List SourceUnit) (firm : List Source)

/-- The world made by adding firm sources in turn, and a registry after the first few of them. -/
def layered (i : Nat) (r : Registry) : World :=
  addSources { units } (firm.take i ++ .placeholders r :: firm.drop i)

variable {firm} (solid : ∀ s ∈ firm, s.isFallback = false)

include solid

theorem firm_layered (i : Nat) (r : Registry) : (layered units firm i r).firm = firm := by
  have kept : firm.filter (fun s => !s.isFallback) = firm := by
    rw [List.filter_eq_self]
    simpa using solid
  rw [layered, firm_addSources, List.filter_append,
    List.filter_cons_of_neg (by simp [Source.isFallback]),
    ← List.filter_append, List.take_append_drop, kept]
  rfl

theorem fallback_layered (i : Nat) (r : Registry) :
    (layered units firm i r).fallback = [.placeholders r] := by
  have dropped {ss : List Source} (among : ∀ s ∈ ss, s ∈ firm) :
      ss.filter Source.isFallback = [] := by
    rw [List.filter_eq_nil_iff]
    intro s listed
    simp [solid s (among s listed)]
  rw [layered, fallback_addSources, List.filter_append, List.filter_cons_of_pos rfl,
    dropped fun s => List.mem_of_mem_take, dropped fun s => List.mem_of_mem_drop]
  rfl

/-- What sources find comes before placeholders, wherever the registry stands; a name and its last
segment fall back alike. -/
theorem resolve_layered (i : Nat) (rs : List (Name × Int)) (ctx? : Option Context) (q : Name) :
    let w := layered units firm i (.ofList rs)
    (∀ d, w.resolveFirm? ctx? q = some d → ∀ j r,
      (layered units firm j r).resolve? ctx? q = some d) ∧
    (w.resolveFirm? ctx? q = none →
      (∃ p, w.resolve? ctx? q = some (.placeholder p) ∧
        w.resolve? ctx? q.bare = some (.placeholder p)) ∨
        w.resolve? ctx? q = none ∧ w.resolve? ctx? q.bare = none) := by
  intro w
  constructor
  · intro d found j r
    have same : (layered units firm j r).resolveFirm? ctx? q = w.resolveFirm? ctx? q := by
      apply resolveFirm?_congr
      · rw [layered, units_addSources]
        exact (units_addSources _ _).symm
      · rw [firm_layered units solid, firm_layered units solid]
    rw [resolve?, same, found, Option.some_or]
  · intro unresolved
    have one : w.fallback = [.placeholders (.ofList rs)] := fallback_layered units solid i _
    simp only [resolve?, unresolved, resolveFirm?_bare unresolved, Option.none_or,
      resolveFallback?_eq one, Name.last_bare]
    cases Registry.best? rs q.last with
    | none => exact .inr ⟨rfl, rfl⟩
    | some p => exact .inl ⟨p, rfl, rfl⟩

end Layered

-- A library with one type, and a placeholder for the last segment of another name.
def boxLibrary : List Source := [.library (NameTable.ofList [{ name := ⟨"lib", ["Box"]⟩ }])]

theorem resolve_layered_boxLibrary :
    (∀ s ∈ boxLibrary, s.isFallback = false) ∧
      (layered [] boxLibrary 1 (.ofList [(⟨"c", ["Box"]⟩, 5)])).resolve? none ⟨"lib", ["Box"]⟩ =
        some (.library ⟨"lib", ["Box"]⟩) ∧
      ∃ p, (layered [] boxLibrary 0 (.ofList [(⟨"c", ["Map"]⟩, 2)])).resolve? none
          ⟨"a", ["", "Map"]⟩ =
          some (.placeholder p) ∧
        (layered [] boxLibrary 0 (.ofList [(⟨"c", ["Map"]⟩, 2)])).resolve? none
          (Name.simple "Map") =
          some (.placeholder p) := by
  have solid : ∀ s ∈ boxLibrary, s.isFallback = false := by simp [boxLibrary, Source.isFallback]
  have firmFound :
      (layered [] boxLibrary 0 (.ofList [(⟨"c", ["Map"]⟩, 2)])).resolveFirm? none ⟨"lib", ["Box"]⟩ =
      some (.library ⟨"lib", ["Box"]⟩) := by decide +kernel
  have unresolved : (layered [] boxLibrary 0 (.ofList [(⟨"c", ["Map"]⟩, 2)])).resolveFirm? none
      ⟨"a", ["", "Map"]⟩ = none := by decide +kernel
  refine ⟨solid, (resolve_layered [] solid 0 _ none _).1 _ firmFound 1 _, ?_⟩
  rcases (resolve_layered [] solid 0 _ none _).2 unresolved with placeholder | ⟨nothing, _⟩
  · exact placeholder
  · have found : (layered [] boxLibrary 0 (.ofList [(⟨"c", ["Map"]⟩, 2)])).resolve? none
        ⟨"a", ["", "Map"]⟩ ≠ none := by
      decide +kernel
    exact absurd nothing found

end World

end RefGraph

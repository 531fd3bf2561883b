import RefGraph.Proofs.EdgeSoundness
import RefGraph.Proofs.Renaming.Mentions
import RefGraph.Proofs.Renaming.Relations
import RefGraph.Proofs.Run

set_option autoImplicit false

namespace RefGraph

theorem Mention.rename_id : Mention.rename id = id := by
  funext m
  simp [rename]

namespace World

-- The named types of the units with the given indices.
def declaredIn (units : List SourceUnit) (group : List Nat) : List (Name × TypeId) :=
  (group.filterMap fun i => units[i]?.map (i, ·)).flatMap fun (i, u) => Catalog.entriesOf i u

theorem declaredIn_append (units : List SourceUnit) (group more : List Nat) :
    declaredIn units (group ++ more) = declaredIn units group ++ declaredIn units more := by
  simp [declaredIn]

theorem findSome?_catalogs (units : List SourceUnit) (groups : List (List Nat)) (n : Name) :
    ((groups.map fun group => Source.catalog
        (Catalog.ofUnits (group.filterMap fun i => units[i]?.map (i, ·)))).findSome? fun s =>
          s.find? n) =
      ((declaredIn units groups.flatten).find? fun e => e.1 == n).map fun e => .corpus e.2 := by
  induction groups with
  | nil => rfl
  | cons group groups ih =>
    have here :
        (Source.catalog (Catalog.ofUnits (group.filterMap fun i => units[i]?.map (i, ·)))).find? n =
        ((declaredIn units group).find? fun e => e.1 == n).map fun e => .corpus e.2 := by
      rw [Source.find?, NameTable.find?_eq]
      rfl
    rw [List.map_cons, List.findSome?_cons, here, ih, List.flatten_cons, declaredIn_append,
      List.find?_append, Option.map_or]
    cases (declaredIn units group).find? fun e => e.1 == n <;> rfl

theorem firm_ofGroups (library : Library) (units : List SourceUnit) (groups : List (List Nat)) :
    (ofGroups library units groups).firm = (ofGroups library units groups).sources := by
  refine List.filter_eq_self.2 fun s listed => ?_
  rcases List.mem_cons.1 listed with rfl | catalog
  · rfl
  · obtain ⟨group, -, rfl⟩ := List.mem_map.1 catalog
    rfl

theorem fallback_ofGroups (library : Library) (units : List SourceUnit) (groups : List (List Nat)) :
    (ofGroups library units groups).fallback = [] := by
  refine List.filter_eq_nil_iff.2 fun s listed => ?_
  rcases List.mem_cons.1 listed with rfl | catalog
  · exact Bool.false_ne_true
  · obtain ⟨group, -, rfl⟩ := List.mem_map.1 catalog
    exact Bool.false_ne_true

theorem libraryType_ofGroups (library : Library) (units : List SourceUnit)
    (groups : List (List Nat)) (n : Name) :
    (ofGroups library units groups).libraryType n = (library.find? n).getD { name := n } := by
  have silent : (groups.findSome? fun _ => (none : Option LibraryType)) = none :=
    List.findSome?_eq_none_iff.2 fun _ _ => rfl
  cases found : library.find? n <;>
    simp [libraryType, ofGroups, found, List.findSome?_map, Function.comp_def, silent]

variable {library : Library} {units : List SourceUnit} {groups groups' : List (List Nat)}

theorem renamedFirm_regroup (same : groups'.flatten = groups.flatten) :
    RenamedFirm id (ofGroups library units groups) (ofGroups library units groups') where
  injective := Function.injective_id
  unit _ := rfl
  firm n := by
    rw [firm_ofGroups, firm_ofGroups, Decl.rename_id, Option.map_id_fun, id]
    simp only [ofGroups, List.findSome?_cons, findSome?_catalogs, same]
  searchBound := rfl

theorem registrations_regroup (same : groups'.flatten = groups.flatten) (limit : Int) :
    (ofGroups library units groups').registrations limit =
      (ofGroups library units groups).registrations limit := by
  have each : (ofGroups library units groups').unitRegistrations limit =
      (ofGroups library units groups).unitRegistrations limit := by
    funext unit
    exact (renamedFirm_regroup same).unitRegistrations limit unit
  rw [registrations, registrations, each]
  rfl

theorem synthesize_regroup (same : groups'.flatten = groups.flatten) (limit : Int) :
    (ofGroups library units groups').synthesize limit =
      (ofGroups library units groups).synthesize limit := by
  have mentions (unit : Nat) : (ofGroups library units groups').mentionGroups unit =
      (ofGroups library units groups).mentionGroups unit := by
    have renamed : (ofGroups library units groups').mentionGroups unit = _ :=
      (renamedFirm_regroup same).mentionGroups unit
    simpa [Mention.rename_id] using renamed
  simp only [synthesize_eq, registrations_regroup same, mentions]
  rfl

theorem renamed_regroup (same : groups'.flatten = groups.flatten) (limit : Int) :
    Renamed id ((ofGroups library units groups).withPlaceholders limit)
      ((ofGroups library units groups').withPlaceholders limit) := by
  refine (renamedFirm_regroup same).withPlaceholders (fallback_ofGroups _ _ _)
    (fallback_ofGroups _ _ _) (fun n => ?_) (fun s => ?_)
  · rw [libraryType_ofGroups, libraryType_ofGroups]
  · rw [registrations_regroup same]

end World

namespace Run

theorem flatten_indexGroups {α : Type} (start : Nat) (groups : List (List α)) :
    (indexGroups start (groups.map List.length)).flatten =
      List.range' start groups.flatten.length := by
  induction groups generalizing start with
  | nil => rfl
  | cons g gs ih =>
    rw [List.map_cons, indexGroups, List.flatten_cons, ih, List.flatten_cons, List.length_append]
    exact List.range'_append_1

-- The world that names are resolved in before there are placeholders.
def firmWorld (d : Disk) (roots : List Path) : World :=
  World.ofGroups Library.standard (roots.flatMap fun root => (loadRoot d root).units)
    (indexGroups 0 (roots.map fun root => (loadRoot d root).units.length))

theorem corpus_eq (d : Disk) (roots : List Path) (mode : Mode) (log : List LogLine) :
    (ofRoots d roots mode log).corpus =
      { world := (firmWorld d roots).withPlaceholders placeholderLimit, roots := roots } := by
  simp only [ofRoots, ofFound, corpusOf, firmWorld, World.withPlaceholders, List.map_map,
    List.flatMap_map, Function.comp_def]

theorem registry_eq (d : Disk) (roots : List Path) (mode : Mode) (log : List LogLine) :
    (ofRoots d roots mode log).registry = ((firmWorld d roots).synthesize placeholderLimit).1 := by
  simp only [ofRoots, ofFound, corpusOf, firmWorld, List.map_map, List.flatMap_map,
    Function.comp_def]

theorem lines_eq (r : Run) (d : Disk) (roots : List Path) (mode : Mode) (log : List LogLine)
    (ran : ofRoots d roots mode log = r) :
    r.lines = (r.corpus.unitIndices.flatMap fun unit => (r.corpus.relations mode unit).1).map
      Relation.line := by
  subst ran
  simp only [ofRoots, ofFound, List.flatMap_map]

theorem diagnostics_eq (r : Run) (d : Disk) (roots : List Path) (mode : Mode) (log : List LogLine)
    (ran : ofRoots d roots mode log = r) :
    r.diagnostics = (roots.flatMap fun root => (loadRoot d root).reports) ++
      (((firmWorld d roots).synthesize placeholderLimit).2 ++
        r.corpus.unitIndices.flatMap fun unit => (r.corpus.relations mode unit).2) := by
  subst ran
  simp only [ofRoots, ofFound, corpusOf, firmWorld, List.map_map, List.flatMap_map,
    Function.comp_def, List.append_assoc]

theorem event_of_synthesize (w : World) (limit : Int) {x : Diagnostic}
    (reported : x ∈ (w.synthesize limit).2) :
    x.event ≠ .parseFailure := by
  rw [World.synthesize_eq] at reported
  obtain ⟨unit, -, inUnit⟩ := List.mem_flatMap.1 reported
  obtain ⟨group, -, inGroup⟩ := List.mem_flatMap.1 inUnit
  obtain ⟨m, -, rfl⟩ := Option.map_eq_some_iff.1 (Option.mem_toList.1 inGroup)
  exact Event.noConfusion

theorem event_of_report? {c : Corpus} {s : Site} {target : Except Failure Target} {x : Diagnostic}
    (reported : c.report? s target = some x) : x.event ≠ .parseFailure := by
  cases target with
  | error e =>
    rw [Corpus.report?, Option.ite_none_left_eq_some] at reported
    obtain rfl := Option.some.inj reported.2
    show Event.ofFailure e.kind ≠ _
    cases e.kind <;> decide
  | ok target =>
    unfold Corpus.report? at reported
    split at reported
    · cases ‹Except.ok target = .error _›
    · split at reported
      · obtain rfl := Option.some.inj reported
        exact Event.noConfusion
      · cases reported
    · cases reported

theorem event_of_relations (c : Corpus) (mode : Mode) (unit : Nat) {x : Diagnostic}
    (reported : x ∈ (c.relations mode unit).2) : x.event ≠ .parseFailure := by
  cases mode with
  | dependencies =>
    obtain ⟨o, among, inOutcome⟩ := List.mem_flatMap.1 reported
    obtain ⟨s, -, known, rfl⟩ := Corpus.mem_resolveSites among
    exact event_of_report? (Option.mem_toList.1 inOutcome)
  | inheritance => cases reported
  | fieldTypes => cases reported

theorem flatten_rootGroups (d : Disk) (roots : List Path) :
    (indexGroups 0 (roots.map fun root => (loadRoot d root).units.length)).flatten =
      List.range' 0 (roots.flatMap fun root => (loadRoot d root).units).length := by
  have flat := flatten_indexGroups 0 (roots.map fun root => (loadRoot d root).units)
  rwa [List.map_map, ← List.flatMap_def] at flat

section SameUnits

variable {d d' : Disk} {roots roots' : List Path}
  (units : (roots'.flatMap fun root => (loadRoot d' root).units) = roots.flatMap fun root =>
    (loadRoot d root).units)

include units

theorem firmWorld_congr : ∃ groups groups', groups'.flatten = groups.flatten ∧
    firmWorld d roots = .ofGroups Library.standard (roots.flatMap fun root =>
      (loadRoot d root).units) groups ∧
    firmWorld d' roots' = .ofGroups Library.standard (roots.flatMap fun root =>
      (loadRoot d root).units) groups' := by
  refine ⟨_, _, ?_, rfl, by rw [firmWorld, units]⟩
  rw [flatten_rootGroups, flatten_rootGroups, units]

theorem synthesize_congr :
    (firmWorld d' roots').synthesize placeholderLimit =
      (firmWorld d roots).synthesize placeholderLimit := by
  obtain ⟨groups, groups', same, first, second⟩ := firmWorld_congr units
  rw [first, second]
  exact World.synthesize_regroup same placeholderLimit

theorem alike_ofRoots (mode : Mode) (log log' : List LogLine)
    (keys : ∀ root ∈ roots, ∀ u ∈ (loadRoot d root).units,
      UnitKey.ofPath? roots' u.path = UnitKey.ofPath? roots u.path) :
    Corpus.Alike id (ofRoots d roots mode log).corpus (ofRoots d' roots' mode log').corpus := by
  obtain ⟨groups, groups', same, first, second⟩ := firmWorld_congr units
  rw [corpus_eq, corpus_eq, first, second]
  refine ⟨World.renamed_regroup same placeholderLimit, fun unit => ?_, rfl⟩
  show UnitKey.ofPath? roots'
    ((roots.flatMap fun root => (loadRoot d root).units)[unit]?.getD default).path =
    UnitKey.ofPath? roots
      ((roots.flatMap fun root => (loadRoot d root).units)[unit]?.getD default).path
  cases here : (roots.flatMap fun root => (loadRoot d root).units)[unit]? with
  | none => rfl
  | some u =>
    obtain ⟨root, listed, among⟩ := List.mem_flatMap.1 (List.mem_of_getElem? here)
    exact keys root listed u among

theorem ofRoots_congr (mode : Mode) (log log' : List LogLine)
    (keys : ∀ root ∈ roots, ∀ u ∈ (loadRoot d root).units,
      UnitKey.ofPath? roots' u.path = UnitKey.ofPath? roots u.path) :
    (ofRoots d' roots' mode log').lines = (ofRoots d roots mode log).lines ∧
      (ofRoots d' roots' mode log').registry = (ofRoots d roots mode log).registry ∧
      ∃ later, (∀ x ∈ later, x.event ≠ .parseFailure) ∧
        (ofRoots d roots mode log).diagnostics =
          (roots.flatMap fun root => (loadRoot d root).reports) ++ later ∧
        (ofRoots d' roots' mode log').diagnostics =
          (roots'.flatMap fun root => (loadRoot d' root).reports) ++ later := by
  have relations (unit : Nat) := (alike_ofRoots units mode log log' keys).relations mode unit
  have indices : (ofRoots d' roots' mode log').corpus.unitIndices =
      (ofRoots d roots mode log).corpus.unitIndices := by
    rw [Corpus.unitIndices, Corpus.unitIndices, units_ofRoots, units_ofRoots, units]
  refine ⟨?_, ?_, _, ?_, diagnostics_eq _ d roots mode log rfl, ?_⟩
  · rw [lines_eq _ d' roots' mode log' rfl, lines_eq _ d roots mode log rfl, indices]
    simp only [← relations, id]
  · rw [registry_eq, registry_eq, synthesize_congr units]
  · intro x reported
    rcases List.mem_append.1 reported with early | late
    · exact event_of_synthesize _ _ early
    · obtain ⟨unit, -, inUnit⟩ := List.mem_flatMap.1 late
      exact event_of_relations _ _ _ inUnit
  · rw [diagnostics_eq _ d' roots' mode log' rfl, synthesize_congr units, indices]
    simp only [← relations, id]

end SameUnits

end Run

end RefGraph

import RefGraph.Proofs.Crawl
import RefGraph.Run

set_option autoImplicit false

namespace RefGraph

namespace SourceUnit

theorem path_of_read {path : Option Path} {content : SourceFile} {u : SourceUnit}
    (made : read path content = .ok u) : u.path = path := by
  unfold read at made
  split at made
  · cases made
  · dsimp only at made
    split at made
    · cases made
    · unfold ofTree? at made
      split at made
      · cases made
      · exact Except.ok.inj made ▸ rfl

theorem load_eq (d : Disk) (p : Path) :
    load d p = match d.open? p with
      | .error e => .error (.unreadable ⟨e, p⟩)
      | .ok (.dir _ _ access) =>
        .error (.unreadable ⟨if access.list then .isADirectory else .permissionDenied, p⟩)
      | .ok (.socket _) => .error (.unreadable ⟨.noDevice, p⟩)
      | .ok (.file _ content readable) =>
        if readable then (read (some p) content).mapError .rejected
        else .error (.unreadable ⟨.permissionDenied, p⟩) := by
  rw [load, Disk.read]
  cases d.open? p with
  | error e => rfl
  | ok t =>
    cases t with
    | file name content readable => cases readable <;> rfl
    | _ => rfl

theorem load_eq_ok {d : Disk} {p : Path} {u : SourceUnit} :
    load d p = .ok u ↔
      ∃ name content, d.open? p = .ok (.file name content) ∧ read (some p) content = .ok u := by
  rw [load_eq]
  cases d.open? p with
  | error e => simp
  | ok t =>
    cases t with
    | file name content readable =>
      cases readable with
      | false => simp
      | true => cases made : read (some p) content <;> simp [made, Except.mapError]
    | _ => simp

theorem path_of_load {d : Disk} {p : Path} {u : SourceUnit} (loaded : load d p = .ok u) :
    u.path = some p := by
  obtain ⟨_, _, _, made⟩ := load_eq_ok.1 loaded
  exact path_of_read made

end SourceUnit

namespace UnitKey

theorem key?_eq (roots : List Path) {path : Option Path} (free : ∀ p ∈ path, p.hasZero = false) :
    key? roots path = .ok (ofPath? roots path) := by
  have none : path.toList.find? Path.hasZero = none := by
    refine List.find?_eq_none.2 fun p listed => ?_
    simp [free p (Option.mem_toList.1 listed)]
  rw [key?, Path.checkResolve, none]
  rfl

theorem sortRoots?_eq {roots : List Path} (free : ∀ root ∈ roots, root.hasZero = false) :
    sortRoots? roots = .ok (sortRoots roots) := by
  have none : roots.find? Path.hasZero = none :=
    List.find?_eq_none.2 fun root listed => by simp [free root listed]
  rw [sortRoots?, Path.checkResolve, none]
  rfl

end UnitKey

namespace Corpus

variable {c : Corpus}

section Keyed

variable (keyed : ∀ unit, c.keyOf? unit = .ok (c.keyOf unit))

include keyed

theorem visit_eq (s : Site) (known : LocalTypes) :
    c.visit s known = .ok (c.resolveSite s known) := by
  rw [visit]
  dsimp only
  cases (c.resolveSite s known).1.targetUnit? c with
  | none => rfl
  | some unit =>
    dsimp only
    rw [keyed]
    rfl

theorem visitAll_eq (known : LocalTypes) (ss : List Site) :
    c.visitAll known ss = .ok (c.resolveSites known ss) := by
  induction ss generalizing known with
  | nil => rfl
  | cons s ss ih =>
    rw [visitAll, visit_eq keyed, resolveSites]
    simp only [bind, Except.bind, ih]
    rfl

theorem relations?_eq (mode : Mode) (unit : Nat) :
    c.relations? mode unit = .ok (c.relations mode unit) := by
  cases mode with
  | dependencies =>
    rw [relations?, dependencies?, keyed, visitAll_eq keyed]
    rfl
  | _ =>
    simp only [relations?, keyed]
    rfl

end Keyed

theorem extract_eq (roots : ∀ root ∈ c.roots, root.hasZero = false)
    (units : ∀ u ∈ c.world.units, ∀ p ∈ u.path, p.hasZero = false) (mode : Mode) :
    c.extract mode = .ok (c.unitIndices.map (c.relations mode)) := by
  have keyed (unit : Nat) : c.keyOf? unit = .ok (c.keyOf unit) := by
    refine UnitKey.key?_eq c.roots fun p path => ?_
    rw [World.unit] at path
    cases here : c.world.units[unit]? with
    | none =>
      rw [here] at path
      cases path
    | some u =>
      rw [here] at path
      exact units u (List.mem_of_getElem? here) p path
  have each : c.relations? mode = fun unit => pure (c.relations mode unit) :=
    funext (relations?_eq keyed mode)
  rw [extract, UnitKey.sortRoots?_eq roots, each]
  exact List.mapM_pure

end Corpus

namespace Run

/-- Why the walks of roots that are there end early, if one does. -/
def stop? (d : Disk) (roots : List Path) : Option PathError :=
  (roots.flatMap (Crawl.steps d)).findSome? Crawl.Step.failure?

def ofRoots (d : Disk) (roots : List Path) (mode : Mode) (log : List LogLine) : Run :=
  let loaded := roots.map (loadRoot d)
  let c := (corpusOf roots loaded).1
  ofFound roots mode log loaded (c.unitIndices.map (c.relations mode))

def overRoots (d : Disk) (roots : List Path) (mode : Mode) (log : List LogLine) :
    Except RunError Run :=
  if roots = [] then .error .noRoot
  else match stop? d roots with
    | some e => .error (.unreachable e)
    | none => .ok (ofRoots d roots mode log)

theorem overRoots_eq_unreachable {d : Disk} {roots : List Path} {mode : Mode}
    {log : List LogLine} {e : PathError} :
    overRoots d roots mode log = .error (.unreachable e) ↔ stop? d roots = some e := by
  rw [overRoots]
  by_cases given : roots = []
  · simp [given, stop?]
  · cases stop? d roots <;> simp [given]

theorem overRoots_eq_ok {d : Disk} {roots : List Path} {mode : Mode} {log : List LogLine}
    {r : Run} : overRoots d roots mode log = .ok r ↔
      roots ≠ [] ∧ stop? d roots = none ∧ ofRoots d roots mode log = r := by
  rw [overRoots]
  by_cases given : roots = []
  · simp [given]
  · cases stop? d roots <;> simp [given]

theorem overRoots_eq_noRoot {d : Disk} {roots : List Path} {mode : Mode} {log : List LogLine} :
    overRoots d roots mode log = .error .noRoot ↔ roots = [] := by
  rw [overRoots]
  by_cases given : roots = []
  · simp [given]
  · cases stop? d roots <;> simp [given]

theorem units_ofRoots (d : Disk) (roots : List Path) (mode : Mode) (log : List LogLine) :
    (ofRoots d roots mode log).corpus.world.units =
      roots.flatMap fun root => (loadRoot d root).units := by
  rw [← List.flatMap_map]
  rfl

theorem stop?_eq_none {d : Disk} {roots : List Path} :
    stop? d roots = none ↔
      ∀ root ∈ roots, (Crawl.steps d root).findSome? Crawl.Step.failure? = none := by
  simp only [stop?, List.findSome?_eq_none_iff, List.mem_flatMap]
  constructor
  · exact fun none root listed s noted => none s ⟨root, listed, noted⟩
  · rintro none s ⟨root, listed, noted⟩
    exact none root listed s noted

section Loading

variable {d : Disk} (tidy : d.Tidy) {root : Path} (there : root.Resolved ∧ d.has root = true)

include tidy there

theorem failed_loadRoot :
    (loadRoot d root).failed = (Crawl.steps d root).findSome? Crawl.Step.failure? := by
  obtain ⟨t, lies⟩ := Option.isSome_iff_exists.1 there.2
  rw [← Crawl.findSome?_untilFailure, ← Crawl.walk_eq tidy there.1 lies]
  rfl

variable (ended : (Crawl.steps d root).findSome? Crawl.Step.failure? = none)

include ended

theorem files_loadRoot :
    (Crawl.walk d sourceSuffix root).filterMap Crawl.Step.file? = Crawl.found d root := by
  obtain ⟨t, lies⟩ := Option.isSome_iff_exists.1 there.2
  rw [Crawl.walk_eq tidy there.1 lies, Crawl.untilFailure_eq ended,
    Crawl.found_eq tidy there.1 lies ended]

theorem units_loadRoot :
    (loadRoot d root).units =
      (Crawl.found d root).filterMap fun p => (SourceUnit.load d p).toOption := by
  rw [← files_loadRoot tidy there ended]
  rfl

theorem reports_loadRoot :
    (loadRoot d root).reports = (Crawl.found d root).filterMap (failure? d) := by
  rw [← files_loadRoot tidy there ended]
  rfl

theorem mem_units_loadRoot {u : SourceUnit} :
    u ∈ (loadRoot d root).units ↔ ∃ p ∈ Crawl.found d root, SourceUnit.load d p = .ok u := by
  rw [units_loadRoot tidy there ended, List.mem_filterMap]
  refine exists_congr fun p => and_congr_right fun _ => ?_
  cases SourceUnit.load d p <;> simp [Except.toOption]

theorem has_of_found {p : Path} (listed : p ∈ Crawl.found d root) :
    p.Resolved ∧ d.has p = true := by
  obtain ⟨t, lies⟩ := Option.isSome_iff_exists.1 there.2
  rw [Crawl.found_eq tidy there.1 lies ended, Crawl.mem_filterMap_file?] at listed
  exact Crawl.has_of_mem_steps tidy there.1 lies listed

end Loading

section Roots

variable {d : Disk} (tidy : d.Tidy) {roots : List Path}
  (there : ∀ root ∈ roots, root.Resolved ∧ d.has root = true)

include tidy there

-- The first walk that fails ends the run.
theorem error_aborted? : (aborted? (roots.map (loadRoot d))).map (·.error) = stop? d roots := by
  induction roots with
  | nil => rfl
  | cons root roots ih =>
    obtain ⟨here, later⟩ := List.forall_mem_cons.1 there
    rw [List.map_cons, aborted?, failed_loadRoot tidy here, stop?, List.flatMap_cons,
      List.findSome?_append]
    cases (Crawl.steps d root).findSome? Crawl.Step.failure? with
    | some e => rfl
    | none =>
      rw [Option.none_or, ← stop?, ← ih later, Option.map_map]
      rfl

theorem extract_corpusOf (ended : stop? d roots = none) (mode : Mode) :
    let c := (corpusOf roots (roots.map (loadRoot d))).1
    c.extract mode = .ok (c.unitIndices.map (c.relations mode)) := by
  have free {p : Path} (lies : d.has p = true) : p.hasZero = false := by
    obtain ⟨t, lies⟩ := Option.isSome_iff_exists.1 lies
    exact tidy.hasZero lies
  refine Corpus.extract_eq (fun root listed => free (there root listed).2)
    (fun u listed p path => free ?_) mode
  have loaded : u ∈ (roots.map (loadRoot d)).flatMap (·.units) := listed
  rw [List.flatMap_map, List.mem_flatMap] at loaded
  obtain ⟨root, among, inner⟩ := loaded
  have ends := stop?_eq_none.1 ended root among
  obtain ⟨q, found, made⟩ := (mem_units_loadRoot tidy (there root among) ends).1 inner
  rw [SourceUnit.path_of_load made, Option.mem_some_iff] at path
  exact path ▸ (has_of_found tidy (there root among) ends found).2

theorem ofRoots?_eq (given : roots ≠ []) (mode : Mode) (log : List LogLine) :
    ((ofRoots? d roots mode log).mapError fun a => RunError.unreachable a.error) =
      overRoots d roots mode log := by
  rw [overRoots, if_neg given]
  have stops := error_aborted? tidy there
  rw [ofRoots?]
  cases aborted : aborted? (roots.map (loadRoot d)) with
  | some a =>
    rw [aborted] at stops
    rw [← stops]
    rfl
  | none =>
    rw [aborted] at stops
    simp only [extract_corpusOf tidy there stops.symm]
    rw [← stops]
    rfl

end Roots

-- Roots that cannot be looked up end the check.
theorem keepRoots_kept {d : Disk} {kept roots : List Path} (distinct : kept.Nodup)
    (looked : (keepRoots d kept roots).failed = none) :
    (keepRoots d kept roots).kept.Nodup ∧ ∀ q, q ∈ (keepRoots d kept roots).kept ↔
      q ∈ kept ∨ ∃ root ∈ roots, d.contains root = .ok true ∧ d.resolve root = q := by
  induction roots generalizing kept with
  | nil => simpa [keepRoots] using distinct
  | cons root roots ih =>
    rw [keepRoots] at looked ⊢
    cases there : d.contains root with
    | error e =>
      rw [there] at looked
      cases looked
    | ok b =>
      rw [there] at looked
      cases b with
      | false =>
        obtain ⟨nodup, members⟩ := ih distinct looked
        refine ⟨nodup, fun q => (members q).trans ?_⟩
        simp [there]
      | true =>
        dsimp only at looked ⊢
        split at looked
        · rename_i repeated
          rw [if_pos repeated]
          obtain ⟨nodup, members⟩ := ih distinct looked
          refine ⟨nodup, fun q => (members q).trans ?_⟩
          have old : d.resolve root = q → q ∈ kept := fun same => by simpa [same] using repeated
          simp only [List.mem_cons, exists_eq_or_imp, there, true_and, ← or_assoc,
            or_iff_left_of_imp old]
        · rename_i fresh
          rw [if_neg fresh]
          have distinct' : (kept ++ [d.resolve root]).Nodup := by
            refine List.nodup_append.2 ⟨distinct, List.nodup_singleton _,
              fun q old q' new same => ?_⟩
            obtain rfl := List.mem_singleton.1 new
            exact fresh (by simpa [← same] using old)
          obtain ⟨nodup, members⟩ := ih distinct' looked
          refine ⟨nodup, fun q => (members q).trans ?_⟩
          simp only [List.mem_cons, exists_eq_or_imp, there, true_and, List.mem_append,
            List.not_mem_nil, or_false, or_assoc, eq_comm (a := q)]

theorem has_of_contains {d : Disk} (absolute : d.workDir.isAbsolute = true) {root : Path}
    (there : d.contains root = .ok true) : d.has (d.resolve root) = true := by
  rw [Disk.contains] at there
  cases opened : d.open? root with
  | ok t =>
    rw [Disk.has, Disk.at?_resolve absolute opened]
    rfl
  | error e =>
    rw [opened] at there
    cases silent : e.isSilent <;> simp [silent] at there

theorem exists_of_kept {d : Disk} {roots : List Path}
    (looked : (keepRoots d [] roots).failed = none) {q : Path}
    (kept : q ∈ (keepRoots d [] roots).kept) :
    ∃ root ∈ roots, d.contains root = .ok true ∧ d.resolve root = q :=
  (((keepRoots_kept List.nodup_nil looked).2 q).1 kept).resolve_left List.not_mem_nil

theorem resolved_of_kept {d : Disk} (absolute : d.workDir.isAbsolute = true) {roots : List Path}
    (looked : (keepRoots d [] roots).failed = none) :
    ∀ q ∈ (keepRoots d [] roots).kept, q.Resolved ∧ d.has q = true := by
  intro q kept
  obtain ⟨root, -, there, rfl⟩ := exists_of_kept looked kept
  exact ⟨Disk.resolved_resolve absolute root, has_of_contains absolute there⟩

theorem collect_eq {d : Disk} (tidy : d.Tidy) (roots : List Path) (mode : Mode) :
    collect d roots mode = match (keepRoots d [] roots).failed with
      | some e => .error (.unreachable e)
      | none => overRoots d (keepRoots d [] roots).kept mode (keepRoots d [] roots).log := by
  have there (looked : (keepRoots d [] roots).failed = none) := resolved_of_kept tidy.workDir looked
  rw [collect]
  generalize keepRoots d [] roots = checked at there ⊢
  obtain ⟨kept, log, failed⟩ := checked
  cases failed with
  | some e => rfl
  | none =>
    cases kept with
    | nil => rfl
    | cons root kept => exact ofRoots?_eq tidy (there rfl) (List.cons_ne_nil root kept) mode log

theorem collect_eq_ok {d : Disk} (tidy : d.Tidy) {roots : List Path} {mode : Mode} {r : Run} :
    collect d roots mode = .ok r ↔ (keepRoots d [] roots).failed = none ∧
      (keepRoots d [] roots).kept ≠ [] ∧ stop? d (keepRoots d [] roots).kept = none ∧
      ofRoots d (keepRoots d [] roots).kept mode (keepRoots d [] roots).log = r := by
  rw [collect_eq tidy]
  cases (keepRoots d [] roots).failed with
  | some e => simp
  | none => simpa using overRoots_eq_ok

end Run

end RefGraph

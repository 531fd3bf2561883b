import RefGraph.Proofs.Run

set_option autoImplicit false

namespace RefGraph

namespace Crawl

/-- Whether the crawl of a root comes to a source file if it is there: it has the suffix, and the
directories from the root on are listed and, below the root, not skipped. -/
def covers (d : Disk) (root p : Path) : Bool :=
  (root.relativeTo? p).any fun names => p.suffix == sourceSuffix &&
    names.dropLast.all (!skippedDirs.contains ·) && (d.at? root).any (·.allows Access.list names)

theorem covers_iff {d : Disk} {root p : Path} (fromRoot : root.anchor = .root)
    (fromRoot' : p.anchor = .root) {t : FileTree} (lies : d.at? root = some t) :
    covers d root p = true ↔ ∃ names, p = root.into names ∧ p.suffix = sourceSuffix ∧
      (∀ s ∈ names.dropLast, s ∉ skippedDirs) ∧ t.allows Access.list names = true := by
  simp only [covers, Option.any_eq_true, Path.relativeTo?_eq_some fromRoot fromRoot', lies,
    Bool.and_eq_true, beq_iff_eq, List.all_eq_true, Bool.not_eq_true', List.contains_eq_mem,
    decide_eq_false_iff_not, Option.any_some, and_assoc]

theorem into_of_covers {d : Disk} {root p : Path} (fromRoot : root.anchor = .root)
    (fromRoot' : p.anchor = .root) (covered : covers d root p = true) :
    ∃ names, p = root.into names := by
  obtain ⟨names, below, -⟩ := (Option.any_eq_true _ _).1 covered
  exact ⟨names, (Path.relativeTo?_eq_some fromRoot fromRoot').1 below⟩

section Found

variable {d : Disk} (tidy : d.Tidy) {root : Path} (there : root.Resolved ∧ d.has root = true)
  (ended : (steps d root).findSome? Step.failure? = none)

include tidy there ended

theorem nodup_found : (found d root).Nodup := by
  obtain ⟨t, lies⟩ := Option.isSome_iff_exists.1 there.2
  rw [found_eq tidy there.1 lies ended]
  refine List.pairwise_filterMap.2 ((pairwise_steps tidy there.1 lies).imp ?_)
  intro s s' before p here q here' same
  cases s <;> cases here
  cases s' <;> cases here'
  rw [Step.path, Step.path, same] at before
  exact Std.lt_irrefl before

theorem mem_found {p : Path} {u : SourceUnit} (loaded : SourceUnit.load d p = .ok u) :
    p ∈ found d root ↔ p.Resolved ∧ covers d root p = true := by
  obtain ⟨t, lies⟩ := Option.isSome_iff_exists.1 there.2
  constructor
  · intro listed
    have resolved' := (Run.has_of_found tidy there ended listed).1
    rw [found_eq tidy there.1 lies ended, mem_filterMap_file?,
      mem_steps tidy there.1 lies] at listed
    obtain ⟨names, reached, noted⟩ := listed
    obtain ⟨rfl, fits, -⟩ := Step.of?_eq_file.1 noted
    exact ⟨resolved', (covers_iff there.1.1 resolved'.1 lies).2
      ⟨names, rfl, fits, reached.meets.kept, reached.meets.listed⟩⟩
  · rintro ⟨resolved', covered⟩
    obtain ⟨names, rfl, fits, kept, listed⟩ := (covers_iff there.1.1 resolved'.1 lies).1 covered
    obtain ⟨name, content, opened, -⟩ := SourceUnit.load_eq_ok.1 loaded
    have below := ((d.open?_eq_ok resolved').1 opened).2.1
    rw [Disk.at?_into lies] at below
    rw [found_eq tidy there.1 lies ended, mem_filterMap_file?, mem_steps tidy there.1 lies]
    refine ⟨names, ⟨⟨Option.isSome_of_mem below, kept, listed⟩, fun before first _ => ?_⟩, ?_⟩
    · obtain ⟨more, rfl⟩ := first
      have plain := (tidy.root.at? lies).plain_at? below
      rw [List.mem_append, not_or] at plain
      rw [← Path.into_append] at opened
      obtain ⟨v, opened', -⟩ := Disk.exists_open?_of_into (there.1.into plain.1) plain.2 opened
      exact ⟨v, opened'⟩
    · exact Step.of?_eq_file.2 ⟨rfl, fits, .inl ⟨name, content, true, opened⟩⟩

end Found

end Crawl

namespace Run

-- What one place in a list gives.
theorem filterMap_at {α β : Type} [DecidableEq α] (a : α) (b : β) {xs : List α}
    (distinct : xs.Nodup) :
    (xs.filterMap fun x => if x = a then some b else none) = if a ∈ xs then [b] else [] := by
  induction xs with
  | nil => simp
  | cons x xs ih =>
    rw [List.nodup_cons] at distinct
    by_cases here : x = a
    · subst here
      simp [ih distinct.2, distinct.1]
    · simp [ih distinct.2, here, Ne.symm here]

theorem filter_units_loadRoot {d : Disk} (tidy : d.Tidy) {root p : Path}
    (there : root.Resolved ∧ d.has root = true)
    (ended : (Crawl.steps d root).findSome? Crawl.Step.failure? = none) (resolved' : p.Resolved)
    {u : SourceUnit} (loaded : SourceUnit.load d p = .ok u) :
    ((loadRoot d root).units.filter fun v => v.path == some p) =
      if Crawl.covers d root p then [u] else [] := by
  have paths (q : Path) : (((SourceUnit.load d q).toOption).filter fun v => v.path == some p) =
      if q = p then some u else none := by
    by_cases same : q = p
    · subst same
      simp [loaded, Except.toOption, SourceUnit.path_of_load loaded]
    · cases other : SourceUnit.load d q with
      | error e => simp [Except.toOption, same]
      | ok v => simp [Except.toOption, SourceUnit.path_of_load other, same]
  rw [units_loadRoot tidy there ended, List.filter_filterMap]
  simp only [paths, filterMap_at p u (Crawl.nodup_found tidy there ended),
    Crawl.mem_found tidy there ended loaded, resolved', true_and]

theorem filter_units {d : Disk} (tidy : d.Tidy) {roots : List Path}
    (there : ∀ root ∈ roots, root.Resolved ∧ d.has root = true) (ended : stop? d roots = none)
    {p : Path} (resolved' : p.Resolved) {u : SourceUnit} (loaded : SourceUnit.load d p = .ok u) :
    ((roots.flatMap fun root => (loadRoot d root).units).filter fun v => v.path == some p) =
      List.replicate (roots.countP (Crawl.covers d · p)) u := by
  rw [stop?_eq_none] at ended
  induction roots with
  | nil => rfl
  | cons root roots ih =>
    obtain ⟨here, later⟩ := List.forall_mem_cons.1 there
    obtain ⟨ends, endLater⟩ := List.forall_mem_cons.1 ended
    rw [List.flatMap_cons, List.filter_append,
      filter_units_loadRoot tidy here ends resolved' loaded, ih later endLater, List.countP_cons]
    cases Crawl.covers d root p
    · simp
    · simp [List.replicate_succ]

-- Two roots above one file lie one inside the other.
theorem nested_of_covers {d : Disk} {root root' p : Path} (resolved : root.Resolved)
    (resolved' : root'.Resolved) (resolvedFile : p.Resolved)
    (covered : Crawl.covers d root p = true) (covered' : Crawl.covers d root' p = true) :
    root.segments <+: root'.segments ∨ root'.segments <+: root.segments := by
  obtain ⟨names, same⟩ := Crawl.into_of_covers resolved.1 resolvedFile.1 covered
  obtain ⟨names', same'⟩ := Crawl.into_of_covers resolved'.1 resolvedFile.1 covered'
  have above : root.segments <+: p.segments := ⟨names, by rw [same, Path.segments_into]⟩
  have above' : root'.segments <+: p.segments := ⟨names', by rw [same', Path.segments_into]⟩
  exact List.prefix_or_prefix_of_prefix above above'

theorem countP_eq_one_iff {α : Type} {xs : List α} (distinct : xs.Nodup) {p : α → Bool} {x : α}
    (listed : x ∈ xs) (holds : p x = true) : xs.countP p = 1 ↔ ∀ y ∈ xs, p y = true → y = x := by
  rw [List.countP_eq_length_filter]
  constructor
  · intro single y among holds'
    obtain ⟨z, only⟩ := List.length_eq_one_iff.1 single
    have isOnly (a : α) (among : a ∈ xs) (holds : p a = true) : a = z :=
      List.mem_singleton.1 (only ▸ List.mem_filter.2 ⟨among, holds⟩)
    rw [isOnly y among holds', isOnly x listed holds]
  · intro unique
    have same : (xs.filter p).Perm [x] :=
      (List.perm_ext_iff_of_nodup (distinct.filter p) (List.nodup_singleton x)).2 fun y => by
        rw [List.mem_filter, List.mem_singleton]
        exact ⟨fun among => unique y among.1 among.2, fun same => same ▸ ⟨listed, holds⟩⟩
    exact same.length_eq

/-- A file makes a unit for each root whose crawl comes to it, so one unit exactly where no two
roots share a file. -/
theorem unit_per_root_above (d : Disk) (tidy : d.Tidy) (roots : List Path) (mode : Mode) (r : Run)
    (ran : collect d roots mode = .ok r) :
    (r.roots.Nodup ∧ ∀ q, q ∈ r.roots ↔ ∃ root ∈ roots, d.contains root = .ok true ∧
      d.resolve root = q) ∧
      (∀ u ∈ r.corpus.world.units, ∃ p, u.path = some p ∧ p.Resolved ∧
        SourceUnit.load d p = .ok u) ∧
      (∀ p u, p.Resolved → SourceUnit.load d p = .ok u →
        (r.corpus.world.units.filter fun v => v.path == some p) =
          List.replicate (r.roots.countP (Crawl.covers d · p)) u) ∧
      ((∀ p u, p.Resolved → SourceUnit.load d p = .ok u → (∃ q ∈ r.roots, Crawl.covers d q p) →
          (r.corpus.world.units.filter fun v => v.path == some p) = [u]) ↔
        ∀ q ∈ r.roots, ∀ q' ∈ r.roots, q ≠ q' → q.segments <+: q'.segments →
          ∀ p u, p.Resolved → SourceUnit.load d p = .ok u →
            ¬(Crawl.covers d q p ∧ Crawl.covers d q' p)) := by
  obtain ⟨looked, -, ended, rfl⟩ := (collect_eq_ok tidy).1 ran
  obtain ⟨nodup, members⟩ := keepRoots_kept List.nodup_nil looked
  have there := resolved_of_kept tidy.workDir looked
  generalize (keepRoots d [] roots).kept = kept at *
  have copies {p : Path} {u : SourceUnit} (resolved' : p.Resolved)
      (loaded : SourceUnit.load d p = .ok u) :
      ((ofRoots d kept mode (keepRoots d [] roots).log).corpus.world.units.filter fun v =>
        v.path == some p) =
        List.replicate (kept.countP (Crawl.covers d · p)) u := by
    rw [units_ofRoots]
    exact filter_units tidy there ended resolved' loaded
  refine ⟨⟨nodup, fun q => (members q).trans (or_iff_right List.not_mem_nil)⟩,
    fun u listed => ?_, fun p u => copies, fun once => ?_, fun apart p u resolved' loaded => ?_⟩
  · rw [units_ofRoots] at listed
    obtain ⟨root, among, inRoot⟩ := List.mem_flatMap.1 listed
    have ends := stop?_eq_none.1 ended root among
    obtain ⟨p, found, loaded⟩ := (mem_units_loadRoot tidy (there root among) ends).1 inRoot
    exact ⟨p, SourceUnit.path_of_load loaded, (has_of_found tidy (there root among) ends found).1,
      loaded⟩
  · intro q listed q' listed' differ _ p u resolved' loaded
    rintro ⟨covered, covered'⟩
    have single := once p u resolved' loaded ⟨q, listed, covered⟩
    rw [copies resolved' loaded] at single
    have one : kept.countP (Crawl.covers d · p) = 1 := by simpa using congrArg List.length single
    exact differ ((countP_eq_one_iff nodup listed' covered').1 one q listed covered)
  · rintro ⟨q, listed, covered⟩
    have one : kept.countP (Crawl.covers d · p) = 1 := by
      refine (countP_eq_one_iff nodup listed covered).2 fun q' listed' covered' => ?_
      refine Classical.byContradiction fun differ => ?_
      rcases nested_of_covers (there q listed).1 (there q' listed').1 resolved' covered covered'
        with inside | inside
      · exact apart q listed q' listed' (Ne.symm differ) inside p u resolved' loaded
          ⟨covered, covered'⟩
      · exact apart q' listed' q listed differ inside p u resolved' loaded ⟨covered', covered⟩
    rw [copies resolved' loaded, one]
    rfl

-- The file `/a/b/X.java`, which is empty.
def emptyFile : Disk where
  workDir := ⟨.root, []⟩
  entries := [.dir "a" [.dir "b" [.file "X.java" .empty]]]

def emptyUnit (p : Path) : SourceUnit := SourceUnit.ofTree (some p) { kind := "program" }

theorem tidy_emptyFile : emptyFile.Tidy := by
  refine ⟨rfl, .dir (by decide) (by decide) (List.forall_mem_singleton.2 ?_)⟩
  refine .dir (by decide) (by decide) (List.forall_mem_singleton.2 ?_)
  exact .dir (by decide) (by decide) (List.forall_mem_singleton.2 .file)

theorem load_emptyFile : SourceUnit.load emptyFile ⟨.root, ["a", "b", "X.java"]⟩ =
    .ok (emptyUnit ⟨.root, ["a", "b", "X.java"]⟩) := by
  refine SourceUnit.load_eq_ok.2 ⟨"X.java", .empty, rfl, ?_⟩
  have entries : (Text.split '\n' "program 0 0").mapM Tree.Entry.ofLine? =
      some [⟨"program", true, false, 0, 0, 0, none⟩] := by decide +kernel
  have listed : SourceFile.empty.listing.bind
      (Tree.ofListing? ((String.fromUTF8? SourceFile.empty.bytes).getD "")) =
      some { kind := "program" } := by
    change Tree.ofListing? _ "program 0 0" = _
    rw [Tree.ofListing?, entries]
    rfl
  have valid : Text.utf8Fault? SourceFile.empty.bytes.toList = none := by decide +kernel
  rw [SourceUnit.read, valid]
  dsimp only
  rw [listed]
  rfl

-- The second is the first in another spelling, and the third is missing.
def spellings : List Path := [⟨.here, ["a"]⟩, ⟨.root, ["a", "b", ".."]⟩, ⟨.here, ["c"]⟩]

theorem unit_per_root_above_spellings :
    emptyFile.Tidy ∧ ∃ r, collect emptyFile spellings .inheritance = .ok r ∧
      r.roots = [⟨.root, ["a"]⟩] ∧
      (r.corpus.world.units.filter fun v => v.path == some ⟨.root, ["a", "b", "X.java"]⟩) =
        [emptyUnit ⟨.root, ["a", "b", "X.java"]⟩] := by
  have ran : collect emptyFile spellings .inheritance =
      .ok (ofRoots emptyFile [⟨.root, ["a"]⟩] .inheritance [missingRoot ⟨.here, ["c"]⟩]) :=
    (collect_eq_ok tidy_emptyFile).2 ⟨rfl, List.cons_ne_nil _ _, by decide +kernel, rfl⟩
  have copies := (unit_per_root_above _ tidy_emptyFile _ _ _ ran).2.2.1
  exact ⟨tidy_emptyFile, _, ran, rfl, copies _ _ (by decide) load_emptyFile⟩

-- A root inside another is crawled again.
theorem unit_per_root_above_nested :
    ∃ r, collect emptyFile [⟨.here, ["a"]⟩, ⟨.here, ["a", "b"]⟩] .inheritance = .ok r ∧
      r.corpus.world.units =
        [emptyUnit ⟨.root, ["a", "b", "X.java"]⟩, emptyUnit ⟨.root, ["a", "b", "X.java"]⟩] := by
  have ran : collect emptyFile [⟨.here, ["a"]⟩, ⟨.here, ["a", "b"]⟩] .inheritance =
      .ok (ofRoots emptyFile [⟨.root, ["a"]⟩, ⟨.root, ["a", "b"]⟩] .inheritance []) :=
    (collect_eq_ok tidy_emptyFile).2 ⟨rfl, List.cons_ne_nil _ _, by decide +kernel, rfl⟩
  refine ⟨_, ran, ?_⟩
  have found : ∀ root ∈ [⟨.root, ["a"]⟩, ⟨.root, ["a", "b"]⟩],
      Crawl.found emptyFile root = [⟨.root, ["a", "b", "X.java"]⟩] := by
    decide +kernel
  have units : ∀ root ∈ [⟨.root, ["a"]⟩, ⟨.root, ["a", "b"]⟩],
      (loadRoot emptyFile root).units = [emptyUnit ⟨.root, ["a", "b", "X.java"]⟩] := by
    intro root listed
    have present : root.Resolved ∧ emptyFile.has root = true := by
      revert root
      decide +kernel
    have ends : (Crawl.steps emptyFile root).findSome? Crawl.Step.failure? = none := by
      revert root
      decide +kernel
    rw [units_loadRoot tidy_emptyFile present ends, found root listed]
    simp only [List.filterMap_cons, load_emptyFile, Except.toOption]
    rfl
  rw [List.forall_mem_cons, List.forall_mem_singleton] at units
  rw [units_ofRoots, List.flatMap_cons, List.flatMap_cons, List.flatMap_nil, units.1, units.2]
  rfl

end Run

end RefGraph

import RefGraph.Proofs.Crawl

set_option autoImplicit false

namespace RefGraph

namespace FileTree

/-- The same files and directories, but some directories list their entries in another order. -/
inductive Reordered : FileTree → FileTree → Prop
  | refl (t : FileTree) : Reordered t t
  | here {name : String} {entries entries' : List FileTree} {access : Access}
      (shuffled : entries.Perm entries') :
      Reordered (.dir name entries access) (.dir name entries' access)
  | inside {name : String} {access : Access} (before after : List FileTree) {t t' : FileTree}
      (inner : Reordered t t') :
      Reordered (.dir name (before ++ t :: after) access) (.dir name (before ++ t' :: after) access)
  | trans {t u v : FileTree} (first : Reordered t u) (second : Reordered u v) : Reordered t v

namespace Reordered

variable {t t' : FileTree}

theorem name_eq (same : Reordered t t') : t'.name = t.name := by
  induction same with
  | trans _ _ ih ih' => rw [ih', ih]
  | _ => rfl

theorem isSkipped_eq (same : Reordered t t') : t'.isSkipped = t.isSkipped := by
  induction same with
  | trans _ _ ih ih' => rw [ih', ih]
  | _ => rfl

theorem tidy (same : Reordered t t') (tidy : t.Tidy) : t'.Tidy := by
  induction same with
  | refl t => exact tidy
  | here shuffled =>
    cases tidy with
    | dir distinct proper each =>
      refine .dir ((shuffled.map FileTree.name).nodup_iff.1 distinct)
        (fun u listed => ?_) (fun u listed => ?_)
      · exact proper u (shuffled.mem_iff.2 listed)
      · exact each u (shuffled.mem_iff.2 listed)
  | @inside name access before after t t' inner ih =>
    cases tidy with
    | dir distinct proper each =>
      have listed : t ∈ before ++ t :: after := by simp
      have names : (before ++ t' :: after).map FileTree.name =
          (before ++ t :: after).map FileTree.name := by
        simp [inner.name_eq]
      have others {u : FileTree} (among : u ∈ before ++ t' :: after) :
          u = t' ∨ u ∈ before ++ t :: after := by grind
      refine .dir (names ▸ distinct) (fun u among => ?_) (fun u among => ?_)
      · rcases others among with rfl | other
        · exact inner.name_eq ▸ proper t listed
        · exact proper u other
      · rcases others among with rfl | other
        · exact ih (each t listed)
        · exact each u other
  | trans _ _ ih ih' => exact ih' (ih tidy)

theorem at? (same : Reordered t t') (tidy : t.Tidy) {ss : List String} {u : FileTree}
    (found : t.at? ss = some u) :
    ∃ u', t'.at? ss = some u' ∧ Reordered u u' ∧ ∀ may, t'.allows may ss = t.allows may ss := by
  induction same generalizing ss u with
  | refl t => exact ⟨u, found, .refl u, fun _ => rfl⟩
  | @here name entries entries' access shuffled =>
    cases ss with
    | nil =>
      obtain rfl := Option.some.inj found
      exact ⟨_, rfl, .here shuffled, fun _ => by simp⟩
    | cons s ss =>
      rw [at?_dir, Option.bind_eq_some_iff] at found
      obtain ⟨v, first, below⟩ := found
      obtain ⟨listed, rfl⟩ := mem_of_find? first
      cases (Reordered.here shuffled).tidy tidy with
      | dir distinct =>
        have first' := find?_of_mem distinct (shuffled.mem_iff.1 listed)
        refine ⟨u, ?_, .refl u, fun may => ?_⟩
        · rw [at?_dir, first', Option.bind_some, below]
        · rw [allows_dir, allows_dir, first', first]
  | @inside name access before after t t' inner ih =>
    cases ss with
    | nil =>
      obtain rfl := Option.some.inj found
      exact ⟨_, rfl, .inside before after inner, fun _ => by simp⟩
    | cons s ss =>
      rw [at?_dir, Option.bind_eq_some_iff] at found
      obtain ⟨v, first, below⟩ := found
      obtain ⟨listed, rfl⟩ := mem_of_find? first
      cases (Reordered.inside before after inner).tidy tidy with
      | dir distinct =>
        have others : v = t ∨ v ∈ before ++ t' :: after := by grind
        rcases others with rfl | other
        · cases tidy with
          | dir _ _ each =>
            obtain ⟨u', below', same, allowed⟩ := ih (each v listed) below
            have first' : (before ++ t' :: after).find? (·.name == v.name) = some t' := by
              rw [← inner.name_eq]
              exact find?_of_mem distinct (by simp)
            refine ⟨u', ?_, same, fun may => ?_⟩
            · rw [at?_dir, first', Option.bind_some, below']
            · rw [allows_dir, allows_dir, first', first, Option.all_some, Option.all_some, allowed]
        · have first' := find?_of_mem distinct other
          refine ⟨u, ?_, .refl u, fun may => ?_⟩
          · rw [at?_dir, first', Option.bind_some, below]
          · rw [allows_dir, allows_dir, first', first]
  | trans first second ih ih' =>
    obtain ⟨v, found', same, allowed⟩ := ih tidy found
    obtain ⟨w, found'', same', allowed'⟩ := ih' (first.tidy tidy) found'
    exact ⟨w, found'', same.trans same', fun may => (allowed' may).trans (allowed may)⟩

end Reordered

theorem properName_ofList {cs : List Char} (onward : cs ≠ ['.', '.']) (free : '\x00' ∉ cs) :
    properName (String.ofList cs) = true := by
  have other : String.ofList cs ≠ ".." :=
    fun same => onward (by simpa using congrArg String.toList same)
  simp [properName, other, free]

def nest (names : List String) (ts : List FileTree) : List FileTree :=
  names.foldr (fun s inner => [.dir s inner]) ts

theorem tidy_nest {names : List String} {ts : List FileTree}
    (proper : ∀ s ∈ names, properName s = true) (inside : ∀ name, (FileTree.dir name ts).Tidy)
    (name : String) : (FileTree.dir name (nest names ts)).Tidy := by
  induction names generalizing name with
  | nil => exact inside name
  | cons s ss ih =>
    obtain ⟨here, later⟩ := List.forall_mem_cons.1 proper
    exact .dir (List.nodup_singleton _) (List.forall_mem_singleton.2 here)
      (List.forall_mem_singleton.2 (ih later s))

theorem at?_nest (names : List String) (ts : List FileTree) (name : String) :
    (FileTree.dir name (nest names ts)).at? names = some (.dir (names.getLastD name) ts) := by
  induction names generalizing name with
  | nil => rfl
  | cons s ss ih =>
    rw [nest, List.foldr_cons, at?_dir, List.find?_cons_of_pos (by simp [FileTree.name])]
    exact (ih s).trans (by rw [List.getLastD_cons])

theorem allows_nest {may : Access → Bool} (free : may {} = true) (names : List String)
    (ts : List FileTree) (name : String) :
    (FileTree.dir name (nest names ts)).allows may names = true := by
  induction names generalizing name with
  | nil => simp
  | cons s ss ih =>
    rw [nest, List.foldr_cons, allows_dir, free, List.find?_cons_of_pos (by simp [FileTree.name])]
    exact ih s

end FileTree

namespace Path

theorem into_inj {p : Path} {names names' : List String} :
    p.into names = p.into names' ↔ names = names' := by
  simp [into]

-- After a common beginning, segments are compared from there on.
theorem segments_into_lt {p : Path} {names names' : List String} :
    (p.into names).segments < (p.into names').segments ↔ names < names' := by
  rw [segments_into, segments_into]
  induction p.segments with
  | nil => rfl
  | cons s ss ih =>
    rw [List.cons_append, List.cons_append, List.cons_lt_cons_iff, ih]
    simp only [Std.lt_irrefl, true_and, false_or]

end Path

namespace Crawl

theorem inNameOrder_perm {steps steps' : List (String × List Step)}
    (distinct : (steps.map Prod.fst).Nodup) (shuffled : steps.Perm steps') :
    inNameOrder steps' = inNameOrder steps := by
  have distinct' : (steps'.map Prod.fst).Nodup := (shuffled.map Prod.fst).nodup_iff.1 distinct
  have sorted : steps'.mergeSort nameOrder = steps.mergeSort nameOrder := by
    refine eq_of_mem_iff (·.1) (pairwise_mergeSort distinct') (pairwise_mergeSort distinct)
      fun e => ?_
    rw [List.mem_mergeSort, List.mem_mergeSort, shuffled.mem_iff]
  rw [inNameOrder, inNameOrder, sorted]

theorem stepsAt_reordered (suffix : String) (path : Path) {t t' : FileTree} (same : t.Reordered t')
    (tidy : t.Tidy) : stepsAt suffix path t' = stepsAt suffix path t := by
  induction same generalizing path with
  | refl t => rfl
  | here shuffled =>
    cases tidy with
    | dir distinct =>
      rw [stepsAt_dir, stepsAt_dir, inNameOrder_perm _ (shuffled.map _)]
      rw [List.map_map]
      exact distinct
  | @inside name access before after t t' inner ih =>
    cases tidy with
    | dir _ _ each =>
      have entry : entrySteps suffix path access t' = entrySteps suffix path access t := by
        rw [entrySteps, entrySteps, inner.name_eq, inner.isSkipped_eq, ih _ (each t (by simp))]
      rw [stepsAt_dir, stepsAt_dir]
      simp only [List.map_append, List.map_cons, entry, inner.name_eq]
  | trans first _ ih ih' => rw [ih' _ (first.tidy tidy), ih _ tidy]

variable {d : Disk} {suffix : String} {path : Path} {t : FileTree}

theorem exists_filterMap_stepsAt (suffix : String) (path : Path) (tidy : t.Tidy) :
    ∃ found : List (List String),
      (stepsAt suffix path t).filterMap Step.file? = found.map path.into ∧
        found.Pairwise (· < ·) ∧
        ∀ names, names ∈ found ↔ .file (path.into names) ∈ stepsAt suffix path t := by
  have below {p : Path} (listed : p ∈ (stepsAt suffix path t).filterMap Step.file?) :
      path.into (p.segments.drop path.segments.length) = p := by
    obtain ⟨names, same⟩ := path_stepsAt tidy (mem_filterMap_file?.1 listed)
    obtain rfl : p = path.into names := same
    simp
  have listing : (stepsAt suffix path t).filterMap Step.file? =
      (((stepsAt suffix path t).filterMap Step.file?).map
        fun p => p.segments.drop path.segments.length).map path.into := by
    rw [List.map_map]
    exact (List.map_id _).symm.trans (List.map_congr_left fun p listed => (below listed).symm)
  have sorted : ((stepsAt suffix path t).filterMap Step.file?).Pairwise
      fun p q => p.segments < q.segments := by
    refine List.pairwise_filterMap.2 ((pairwise_stepsAt suffix path tidy).imp ?_)
    intro s s' before p here q here'
    cases s <;> cases here
    cases s' <;> cases here'
    exact before
  rw [listing, List.pairwise_map] at sorted
  refine ⟨_, listing, sorted.imp Path.segments_into_lt.1, fun names => ?_⟩
  rw [← mem_filterMap_file?]
  constructor
  · intro listed
    rw [listing]
    exact List.mem_map_of_mem listed
  · exact fun listed => List.mem_map.2 ⟨_, listed, by simp⟩

-- Below a directory, what a walk lists are files only.
theorem file_mem_stepsAt (tidy : t.Tidy) (resolved : path.Resolved) (opened : d.open? path = .ok t)
    (isDir : t.isDir = true) (clear : Clear d path t) {names : List String} :
    .file (path.into names) ∈ stepsAt suffix path t ↔
      (∃ name content readable, t.at? names = some (.file name content readable)) ∧
        (path.into names).suffix = suffix ∧ (∀ s ∈ names.dropLast, s ∉ skippedDirs) ∧
        t.allows Access.list names = true := by
  have lies := ((d.open?_eq_ok resolved).1 opened).2.1
  have asked {u : FileTree} (meets : t.Meets names) (below : t.at? names = some u) :
      d.open? (path.into names) = .ok u := by
    obtain ⟨v, opens⟩ := clear names meets
    have found := ((d.open?_eq_ok (resolved.into (tidy.plain_at? below))).1 opens).2.1
    rw [Disk.at?_into lies, below] at found
    exact Option.some.inj found ▸ opens
  rw [mem_stepsAt tidy resolved opened]
  constructor
  · rintro ⟨names', reached, noted⟩
    obtain ⟨same, fits, kind⟩ := Step.of?_eq_file.1 noted
    obtain rfl := Path.into_inj.1 same
    obtain ⟨u, below⟩ := Option.isSome_iff_exists.1 reached.meets.there
    rw [asked reached.meets below] at kind
    refine ⟨?_, fits, reached.meets.kept, reached.meets.listed⟩
    rcases kind with ⟨name, content, readable, isFile⟩ | ⟨start, name, isSocket⟩
    · exact ⟨name, content, readable, below.trans (congrArg some (Except.ok.inj isFile))⟩
    · rw [List.isEmpty_iff.1 start] at below
      obtain rfl := Option.some.inj below
      cases Except.ok.inj isSocket
      cases isDir
  · rintro ⟨⟨name, content, readable, below⟩, fits, kept, listed⟩
    have meets : t.Meets names := ⟨Option.isSome_of_mem below, kept, listed⟩
    refine ⟨names, ⟨meets, fun before first _ => ?_⟩, Step.of?_eq_file.2 ⟨rfl, fits, .inl ?_⟩⟩
    · obtain ⟨more, rfl⟩ := first
      exact clear before meets.before
    · exact ⟨name, content, readable, asked meets below⟩

/-- A crawl that can ask for all it meets lists the files with the suffix whose directories are
listed and not skipped, each once and in the order of their segments. -/
theorem crawl_sorted (d : Disk) (tidy : d.Tidy) (suffix : String) (root : Path) (t : FileTree)
    (asked : root.hasZero = false) (opened : d.open? (d.resolve root) = .ok t) :
    (t.isDir = false → files d suffix root =
        .ok (if (d.resolve root).suffix = suffix then [d.resolve root] else [])) ∧
      (t.isDir = true → ((∃ e, files d suffix root = .error e) ↔ ¬Clear d (d.resolve root) t) ∧
        (Clear d (d.resolve root) t →
          ∃ found : List (List String),
            files d suffix root = .ok (found.map (d.resolve root).into) ∧
              found.Pairwise (· < ·) ∧
              ∀ names, names ∈ found ↔
                (∃ name content readable, t.at? names = some (.file name content readable)) ∧
                  ((d.resolve root).into names).suffix = suffix ∧
                  (∀ s ∈ names.dropLast, s ∉ skippedDirs) ∧
                  t.allows Access.list names = true)) ∧
      ∀ entries, d.root.Reordered (.dir "" entries) →
        files { d with entries } suffix root = files d suffix root := by
  have resolved := Disk.resolved_resolve tidy.workDir root
  obtain ⟨fits, start, enters, short⟩ := (d.open?_eq_ok resolved).1 opened
  have inside : t.Tidy := tidy.root.at? start
  rw [files_eq asked opened]
  refine ⟨fun isLeaf => ?_, fun isDir => ⟨?_, fun clear => ?_⟩, fun entries shuffled => ?_⟩
  · rw [stepsAt_of_not_isDir _ _ isLeaf]
    by_cases matching : (d.resolve root).suffix = suffix
    · rw [if_pos matching, if_pos matching]
      rfl
    · rw [if_neg matching, if_neg matching]
      rfl
  · rw [← findSome?_stepsAt inside resolved opened, outcome]
    cases (stepsAt suffix (d.resolve root) t).findSome? Step.failure? <;> simp
  · obtain ⟨found, listing, sorted, members⟩ :=
      exists_filterMap_stepsAt suffix (d.resolve root) inside
    rw [outcome_eq_ok ((findSome?_stepsAt inside resolved opened).2 clear)]
    exact ⟨found, congrArg _ listing, sorted, fun names =>
      (members names).trans (file_mem_stepsAt inside resolved opened isDir clear)⟩
  · obtain ⟨t', start', same, allowed⟩ := shuffled.at? tidy.root start
    have opened' : Disk.open? { d with entries } (Disk.resolve { d with entries } root) = .ok t' :=
      (Disk.open?_eq_ok _ resolved).2 ⟨fits, start', (allowed _).trans enters, short⟩
    rw [files_eq asked opened']
    exact congrArg outcome (stepsAt_reordered suffix (d.resolve root) same inside)

-- A directory that is called like a source file, one that is skipped, one that is not listed, and
-- two names of which one goes on with a sign that comes before the slash.
def mixedEntries : List FileTree :=
  [.dir "a-b" [.file "A.java" .empty], .dir ".git" [.file "B.java" .empty], .file "C.txt" .empty,
    .dir "b" [.file "F.java" .empty] { list := false },
    .dir "a" [.file "Z.java" .empty, .dir "D.java" [.file "E.java" .empty]]]

def mixedDisk (entries : List FileTree) : Disk where
  workDir := ⟨.root, ["w"]⟩
  entries := [.dir "w" entries]

theorem tidy_mixedDisk : (mixedDisk mixedEntries).Tidy := by
  have single (name : String) {inner : String} {access : Access}
      (proper : FileTree.properName inner = true) :
      FileTree.Tidy (.dir name [.file inner .empty] access) :=
    .dir (List.nodup_singleton _) (List.forall_mem_singleton.2 proper)
      (List.forall_mem_singleton.2 .file)
  refine ⟨rfl, .dir (by decide) (by decide +kernel) (List.forall_mem_singleton.2 ?_)⟩
  refine .dir (by decide) (by decide +kernel) ?_
  simp only [mixedEntries, List.forall_mem_cons, List.not_mem_nil, false_implies, implies_true,
    and_true]
  refine ⟨single _ ?_, single _ ?_, .file, single _ ?_, .dir (by decide) (by decide +kernel) ?_⟩
  · decide +kernel
  · decide +kernel
  · decide +kernel
  · exact List.forall_mem_cons.2 ⟨.file, List.forall_mem_singleton.2 (single _ (by decide +kernel))⟩

theorem clear_mixedDisk :
    Clear (mixedDisk mixedEntries) ⟨.root, ["w"]⟩ (.dir "w" mixedEntries) := by
  have lies : (mixedDisk mixedEntries).root.at? ["w"] = some (.dir "w" mixedEntries) := rfl
  have ends (path : Path) (name : String) {entries : List FileTree}
      (each : ∀ t ∈ entries, ∀ s ∈ entrySteps ".java" path {} t, s.failure? = none) :
      ∀ s ∈ stepsAt ".java" path (.dir name entries), s.failure? = none := by
    intro s noted
    obtain ⟨t, listed, inner⟩ := (mem_stepsAt_dir rfl).1 noted
    exact each t listed s inner
  refine (findSome?_stepsAt (tidy_mixedDisk.root.at? lies) (by decide) rfl).1
    (List.findSome?_eq_none_iff.2 (ends _ _ ?_))
  simp only [mixedEntries, List.forall_mem_cons, List.not_mem_nil, false_implies, implies_true,
    and_true]
  refine ⟨by decide +kernel, by decide +kernel, by decide +kernel, by decide +kernel, ?_⟩
  exact ends ⟨.root, ["w", "a"]⟩ "a" (by decide +kernel)

theorem crawl_sorted_mixed :
    let d := mixedDisk mixedEntries
    let root : Path := ⟨.here, ["a", ".."]⟩
    d.Tidy ∧ Clear d ⟨.root, ["w"]⟩ (.dir "w" mixedEntries) ∧
      (∃ found : List (List String),
        files d ".java" root = .ok (found.map (⟨.root, ["w"]⟩ : Path).into) ∧
          found.Pairwise (· < ·) ∧ ["a-b", "A.java"] ∈ found ∧ ["a", "D.java", "E.java"] ∈ found ∧
          ["a", "D.java"] ∉ found ∧ [".git", "B.java"] ∉ found ∧ ["C.txt"] ∉ found ∧
          ["b", "F.java"] ∉ found) ∧
      files (mixedDisk mixedEntries.reverse) ".java" root = files d ".java" root := by
  intro d root
  obtain ⟨-, ordered, unchanged⟩ :=
    crawl_sorted d tidy_mixedDisk ".java" root (.dir "w" mixedEntries) rfl rfl
  obtain ⟨found, listing, sorted, members⟩ := (ordered rfl).2 clear_mixedDisk
  refine ⟨tidy_mixedDisk, clear_mixedDisk, ⟨found, listing, sorted, ?_, ?_, ?_, ?_, ?_, ?_⟩,
    unchanged _ (.inside [] [] (.here (List.reverse_perm _).symm))⟩
  · exact (members _).2 ⟨⟨_, _, _, rfl⟩, by decide +kernel, by decide, by decide +kernel⟩
  · exact (members _).2 ⟨⟨_, _, _, rfl⟩, by decide +kernel, by decide, by decide +kernel⟩
  · rintro listed
    obtain ⟨⟨name, content, readable, found⟩, -⟩ := (members _).1 listed
    cases found
  · exact fun listed => ((members _).1 listed).2.2.1 ".git" (by decide) (by decide)
  · exact fun listed => absurd ((members _).1 listed).2.1 (by decide +kernel)
  · exact fun listed => absurd ((members _).1 listed).2.2.2 (by decide +kernel)

-- The path of the directory has 4020 bytes, and the path of a file in it 4106.
def deepDir : Path := ⟨.root, List.replicate 20 (String.ofList (List.replicate 200 'd'))⟩

def longName : String := String.ofList (List.replicate 80 'x' ++ ".java".toList)

def deepDisk (entries : List FileTree) : Disk where
  workDir := ⟨.root, []⟩
  entries := FileTree.nest deepDir.segments entries

theorem forall_deepDir {p : String → Prop} (each : p (String.ofList (List.replicate 200 'd'))) :
    ∀ s ∈ deepDir.segments, p s :=
  fun _ listed => (List.mem_replicate.1 listed).2 ▸ each

theorem resolved_deepDir : deepDir.Resolved :=
  ⟨rfl, fun listed => forall_deepDir (p := (· ≠ "..")) (by decide +kernel) _ listed rfl⟩

theorem at?_deepDisk (entries : List FileTree) :
    ∃ name, (deepDisk entries).at? deepDir = some (.dir name entries) :=
  ⟨_, FileTree.at?_nest deepDir.segments entries ""⟩

theorem tidy_deepDisk {entries : List FileTree}
    (inside : ∀ name, FileTree.Tidy (.dir name entries)) :
    (deepDisk entries).Tidy :=
  ⟨rfl, FileTree.tidy_nest
    (forall_deepDir (FileTree.properName_ofList (by decide) (by decide))) inside ""⟩

theorem open?_deepDir {entries : List FileTree} (tidy : (deepDisk entries).Tidy) :
    ∃ name, (deepDisk entries).open? deepDir = .ok (.dir name entries) := by
  obtain ⟨name, lies⟩ := at?_deepDisk entries
  have fits : deepDir.text.utf8ByteSize ≤ pathLimit := by decide +kernel
  exact ⟨name, ((deepDisk entries).open?_eq_ok resolved_deepDir).2
    ⟨Path.check_eq_ok.2 ⟨tidy.hasZero lies, fits⟩, lies,
      FileTree.allows_nest rfl deepDir.segments entries "", forall_deepDir (by decide +kernel)⟩⟩

theorem tidy_longName (content : SourceFile) (name : String) :
    FileTree.Tidy (.dir name [.file longName content]) :=
  .dir (List.nodup_singleton _)
    (List.forall_mem_singleton.2
      (FileTree.properName_ofList (by decide +kernel) (by decide +kernel)))
    (List.forall_mem_singleton.2 .file)

theorem steps_longName (content : SourceFile) :
    steps (deepDisk [.file longName content]) deepDir =
      [.failed ⟨.nameTooLong, deepDir.push longName⟩] := by
  have tidy := tidy_deepDisk (tidy_longName content)
  obtain ⟨name, opened⟩ := open?_deepDir tidy
  obtain ⟨name', lies⟩ := at?_deepDisk [.file longName content]
  have below : (deepDisk [.file longName content]).at? (deepDir.push longName) =
      some (.file longName content) := by
    rw [← Path.into_nil (deepDir.push longName), Path.into_push, Disk.at?_into lies]
    simp [FileTree.name]
  have long : pathLimit < (deepDir.push longName).text.utf8ByteSize := by decide +kernel
  have refused : Access.check {} (deepDir.push longName) = .error .nameTooLong := by
    rw [Access.check, Path.check, tidy.hasZero below, if_neg Bool.false_ne_true, if_pos long]
    rfl
  rw [steps, opened]
  simp [stepsAt_dir, inNameOrder, entrySteps, FileTree.name, refused, FileError.isSilent,
    FileError.isAbsence]

-- The file of a directory that is not listed is left out, and no file is listed where a path is
-- too long.
theorem crawl_sorted_unreachable :
    (mixedDisk [.dir "a" [.file "A.java" .empty] { list := false }]).at?
        ⟨.root, ["w", "a", "A.java"]⟩ = some (.file "A.java" .empty) ∧
      files (mixedDisk [.dir "a" [.file "A.java" .empty] { list := false }]) ".java" ⟨.here, []⟩ =
        .ok [] ∧
      (deepDisk [.file longName .empty]).Tidy ∧
      files (deepDisk [.file longName .empty]) ".java" deepDir =
        .error ⟨.nameTooLong, deepDir.push longName⟩ := by
  have tidy := tidy_deepDisk (tidy_longName .empty)
  obtain ⟨name, lies⟩ := at?_deepDisk [.file longName .empty]
  refine ⟨rfl, by decide +kernel, tidy, ?_⟩
  show outcome (walk _ sourceSuffix deepDir) = _
  rw [walk_eq tidy resolved_deepDir lies, outcome_untilFailure, steps_longName]
  rfl

end Crawl

end RefGraph

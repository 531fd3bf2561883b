import Mathlib.Data.List.Sort
import RefGraph.Crawl
import RefGraph.Proofs.FileTree

set_option autoImplicit false

namespace RefGraph

theorem Access.isSilent_of_check {access : Access} {p : Path} (free : p.hasZero = false)
    {e : FileError} (refused : access.check p = .error e) : e.isSilent = false := by
  simp only [check, Path.check, free, Bool.false_eq_true, if_false] at refused
  split at refused
  · obtain rfl := Except.error.inj refused
    rfl
  · simp only [Except.bind] at refused
    split at refused
    · obtain rfl := Except.error.inj refused
      rfl
    · split at refused
      · obtain rfl := Except.error.inj refused
        rfl
      · cases refused

-- What an entry is asked for in a directory is what opening its path asks.
theorem Disk.open?_push {d : Disk} {path : Path} (resolved : path.Resolved) {name s : String}
    {entries : List FileTree} {access : Access} {t : FileTree}
    (opened : d.open? path = .ok (.dir name entries access)) (plain : s ≠ "..")
    (found : entries.find? (·.name == s) = some t) :
    d.open? (path.push s) = (access.check (path.push s)).map fun _ => t := by
  have below : (path.push s).Resolved := resolved.push plain
  rw [d.open?_eq resolved] at opened
  have start : FileTree.go [] d.root path.segments = .ok (.dir name entries access) := by
    cases asked : path.check with
    | error e =>
      rw [asked] at opened
      cases opened
    | ok _ =>
      rw [asked] at opened
      exact opened
  obtain ⟨through, onward⟩ := FileTree.go_append resolved.2 start
  have named : (path.push s).name = s := by simp [Path.push, Path.name]
  rw [d.open?_eq below, Path.push, onward [s], FileTree.go_enter _ _ _ _ plain, found,
    Access.check, ← Path.push, named]
  cases (path.push s).check with
  | error e => rfl
  | ok _ =>
    simp only [Except.bind]
    split
    · rfl
    · split <;> rfl

/-- The directories on the way to what has these names are listed and not skipped. -/
structure FileTree.Meets (t : FileTree) (names : List String) : Prop where
  there : (t.at? names).isSome
  kept : ∀ s ∈ names.dropLast, s ∉ skippedDirs
  listed : t.allows Access.list names = true

theorem FileTree.meets_nil (t : FileTree) : t.Meets [] :=
  ⟨rfl, by simp, by simp⟩

theorem FileTree.Meets.before {t : FileTree} {before more : List String}
    (meets : t.Meets (before ++ more)) : t.Meets before := by
  obtain ⟨there, kept, listed⟩ := meets
  rw [at?_append] at there
  obtain ⟨u, found⟩ : ∃ u, t.at? before = some u := by
    cases found : t.at? before with
    | none => simp [found] at there
    | some u => exact ⟨u, rfl⟩
  rw [allows_append found, Bool.and_eq_true] at listed
  refine ⟨Option.isSome_of_mem found, fun s onTheWay => kept s ?_, listed.1⟩
  cases more with
  | nil => simpa using onTheWay
  | cons s' ss =>
    rw [List.dropLast_append_of_ne_nil (List.cons_ne_nil s' ss)]
    exact List.mem_append_left _ (List.dropLast_subset _ onTheWay)

theorem FileTree.meets_cons {name s : String} {entries : List FileTree} {access : Access}
    {ss : List String} :
    (FileTree.dir name entries access).Meets (s :: ss) ↔ access.list = true ∧
      ∃ t, entries.find? (·.name == s) = some t ∧ (ss = [] ∨ s ∉ skippedDirs) ∧ t.Meets ss := by
  have onTheWay : (∀ x ∈ (s :: ss).dropLast, x ∉ skippedDirs) ↔
      (ss = [] ∨ s ∉ skippedDirs) ∧ ∀ x ∈ ss.dropLast, x ∉ skippedDirs := by
    cases ss <;> simp
  constructor
  · rintro ⟨there, kept, listed⟩
    rw [at?_dir] at there
    rw [allows_dir, Bool.and_eq_true] at listed
    obtain ⟨u, found⟩ := Option.isSome_iff_exists.1 there
    obtain ⟨t, here, below⟩ := Option.bind_eq_some_iff.1 found
    obtain ⟨first, later⟩ := onTheWay.1 kept
    have further : t.allows Access.list ss = true := by simpa [here] using listed.2
    exact ⟨listed.1, t, here, first, Option.isSome_of_mem below, later, further⟩
  · rintro ⟨list, t, here, first, there, later, further⟩
    exact ⟨by simpa [here] using there, onTheWay.2 ⟨first, later⟩, by simp [list, here, further]⟩

theorem FileTree.Meets.isSkipped_iff {t : FileTree} {s : String} {ss : List String}
    (meets : t.Meets (s :: ss)) : t.isSkipped = true ↔ t.name ∈ skippedDirs := by
  cases t with
  | dir => simp [isSkipped, name]
  | file | socket => cases meets.there

theorem Disk.hasZero_push {d : Disk} {path : Path} (resolved : path.Resolved) {t : FileTree}
    (opened : d.open? path = .ok t) {s : String} (proper : FileTree.properName s = true) :
    (path.push s).hasZero = false := by
  have start := (Path.check_eq_ok.1 ((d.open?_eq_ok resolved).1 opened).1).1
  rw [Path.hasZero] at start ⊢
  rw [FileTree.properName, Bool.and_eq_true, Bool.not_eq_true'] at proper
  rw [Path.push, List.any_append, start, List.any_cons, proper.2]
  rfl

namespace Crawl

theorem nameOrder_iff {a b : String × List Step} : nameOrder a b = true ↔ a.1 ≤ b.1 := Text.le_iff

theorem mem_inNameOrder {steps : List (String × List Step)} {s : Step} :
    s ∈ inNameOrder steps ↔ ∃ e ∈ steps, s ∈ e.2 := by
  simp [inNameOrder, List.mem_flatMap]

theorem pairwise_mergeSort {steps : List (String × List Step)}
    (distinct : (steps.map Prod.fst).Nodup) :
    (steps.mergeSort nameOrder).Pairwise fun a b => a.1 < b.1 := by
  have sorted : (steps.mergeSort nameOrder).Pairwise fun a b => nameOrder a b := by
    refine List.pairwise_mergeSort (fun a b c first second => ?_) (fun a b => ?_) steps
    · exact nameOrder_iff.2 (String.le_trans (nameOrder_iff.1 first) (nameOrder_iff.1 second))
    · simpa [nameOrder_iff] using String.le_total a.1 b.1
  have differ : ((steps.mergeSort nameOrder).map Prod.fst).Nodup :=
    ((List.mergeSort_perm steps nameOrder).map Prod.fst).nodup_iff.2 distinct
  refine (sorted.and (List.pairwise_map.1 differ)).imp fun {a b} both => ?_
  have below : a.1 ≤ b.1 := nameOrder_iff.1 both.1
  exact (Std.le_iff_lt_or_eq.1 below).resolve_right both.2

-- In a strict order there is one list of given things.
theorem eq_of_mem_iff {α β : Type} [LT β] [Std.Irrefl (α := β) (· < ·)] [Std.Asymm (α := β) (· < ·)]
    (key : α → β) {xs ys : List α} (sorted : xs.Pairwise fun x y => key x < key y)
    (sorted' : ys.Pairwise fun x y => key x < key y)
    (same : ∀ x, x ∈ xs ↔ x ∈ ys) : xs = ys := by
  have irrefl : Std.Irrefl fun x y : α => key x < key y := ⟨fun _ => Std.Irrefl.irrefl _⟩
  have antisymm : Std.Antisymm fun x y : α => key x < key y :=
    ⟨fun _ _ before after => absurd after (Std.Asymm.asymm _ _ before)⟩
  exact sorted.eq_of_mem_iff sorted' same

def entrySteps (suffix : String) (path : Path) (access : Access) (t : FileTree) : List Step :=
  match access.check (path.push t.name) with
  | .error e => if e.isSilent then [] else [.failed ⟨e, path.push t.name⟩]
  | .ok _ => if t.isSkipped then [] else stepsAt suffix (path.push t.name) t

theorem stepsByName_eq (suffix : String) (path : Path) (access : Access) (ts : List FileTree) :
    stepsByName suffix path access ts =
      ts.map fun t => (t.name, entrySteps suffix path access t) := by
  induction ts with
  | nil => rfl
  | cons t ts ih =>
    rw [stepsByName, ih]
    rfl

theorem stepsAt_dir (suffix : String) (path : Path) (name : String) (entries : List FileTree)
    (access : Access) :
    stepsAt suffix path (.dir name entries access) =
      if access.list then
        inNameOrder (entries.map fun t => (t.name, entrySteps suffix path access t))
      else [.unlisted ⟨.permissionDenied, path⟩] := by
  rw [stepsAt, stepsByName_eq]

theorem mem_stepsAt_dir {suffix name : String} {path : Path} {entries : List FileTree}
    {access : Access} (list : access.list = true) {s : Step} :
    s ∈ stepsAt suffix path (.dir name entries access) ↔
      ∃ t ∈ entries, s ∈ entrySteps suffix path access t := by
  rw [stepsAt_dir, if_pos list, mem_inNameOrder]
  simp only [List.mem_map, exists_exists_and_eq_and]

theorem stepsAt_unlisted {suffix name : String} {path : Path} {entries : List FileTree}
    {access : Access} (unlisted : access.list = false) :
    stepsAt suffix path (.dir name entries access) = [.unlisted ⟨.permissionDenied, path⟩] := by
  rw [stepsAt_dir, unlisted, if_neg Bool.false_ne_true]

theorem stepsAt_of_not_isDir (suffix : String) (path : Path) {t : FileTree}
    (leaf : t.isDir = false) :
    stepsAt suffix path t = if path.suffix = suffix then [.file path] else [] := by
  cases t with
  | dir => cases leaf
  | _ => simp [stepsAt]

theorem path_entrySteps {suffix : String} {path : Path} {access : Access} {t : FileTree}
    (below : ∀ path, ∀ s ∈ stepsAt suffix path t, ∃ names, s.path = path.into names) {s : Step}
    (listed : s ∈ entrySteps suffix path access t) :
    ∃ names, s.path = path.into (t.name :: names) := by
  rw [entrySteps] at listed
  split at listed
  · split at listed
    · cases listed
    · obtain rfl := List.mem_singleton.1 listed
      exact ⟨[], by simp [Step.path, Path.push, Path.into]⟩
  · split at listed
    · cases listed
    · obtain ⟨names, same⟩ := below _ s listed
      exact ⟨names, by rw [same, Path.into_push]⟩

theorem path_stepsAt {suffix : String} {path : Path} {t : FileTree} (tidy : t.Tidy) {s : Step}
    (listed : s ∈ stepsAt suffix path t) : ∃ names, s.path = path.into names := by
  have leaf {path : Path} {s : Step}
      (listed : s ∈ if path.suffix = suffix then [Step.file path] else []) :
      ∃ names, s.path = path.into names := by
    split at listed
    · obtain rfl := List.mem_singleton.1 listed
      exact ⟨[], (Path.into_nil path).symm⟩
    · cases listed
  induction tidy generalizing path s with
  | file | socket => exact leaf (by rwa [stepsAt_of_not_isDir _ _ rfl] at listed)
  | @dir name entries access distinct proper each ih =>
    cases list : access.list with
    | true =>
      obtain ⟨t, here, inner⟩ := (mem_stepsAt_dir list).1 listed
      obtain ⟨names, same⟩ := path_entrySteps (fun _ _ => ih t here) inner
      exact ⟨_, same⟩
    | false =>
      rw [stepsAt_unlisted list] at listed
      obtain rfl := List.mem_singleton.1 listed
      exact ⟨[], (Path.into_nil path).symm⟩

theorem pairwise_stepsAt (suffix : String) (path : Path) {t : FileTree} (tidy : t.Tidy) :
    (stepsAt suffix path t).Pairwise fun s s' => s.path.segments < s'.path.segments := by
  induction tidy generalizing path with
  | file | socket =>
    rw [stepsAt_of_not_isDir _ _ rfl]
    split <;> simp
  | @dir name entries access distinct proper each ih =>
    rw [stepsAt_dir]
    split
    · rw [inNameOrder, List.pairwise_flatMap]
      constructor
      · intro e listed
        obtain ⟨t, here, rfl⟩ := List.mem_map.1 (List.mem_mergeSort.1 listed)
        dsimp only [entrySteps]
        split
        · split <;> simp
        · split
          · exact .nil
          · exact ih t here (path.push t.name)
      · have differ :
            ((entries.map fun t => (t.name, entrySteps suffix path access t)).map
              Prod.fst).Nodup := by
          rw [List.map_map]
          exact distinct
        refine (pairwise_mergeSort differ).imp_of_mem
          fun {a b} listed listed' before s among s' among' => ?_
        obtain ⟨t, here, rfl⟩ := List.mem_map.1 (List.mem_mergeSort.1 listed)
        obtain ⟨t', here', rfl⟩ := List.mem_map.1 (List.mem_mergeSort.1 listed')
        obtain ⟨names, same⟩ := path_entrySteps (fun _ _ => path_stepsAt (each t here)) among
        obtain ⟨names', same'⟩ := path_entrySteps (fun _ _ => path_stepsAt (each t' here')) among'
        rw [same, same']
        exact List.append_left_lt (List.cons_lt_cons_iff.2 (.inl before))
    · exact List.pairwise_singleton ..

def Step.of? (suffix : String) (p : Path) (start : Bool) : Except FileError FileTree → Option Step
  | .ok (.file ..) => if p.suffix = suffix then some (.file p) else none
  | .ok (.socket _) => if start ∧ p.suffix = suffix then some (.file p) else none
  | .ok (.dir name _ access) =>
    if access.list ∨ ¬start ∧ name ∈ skippedDirs then none
    else some (.unlisted ⟨.permissionDenied, p⟩)
  | .error e => some (.failed ⟨e, p⟩)

theorem Step.of?_kept (suffix : String) (p : Path) {t : FileTree} (kept : t.isSkipped = false) :
    Step.of? suffix p false (.ok t) = Step.of? suffix p true (.ok t) := by
  cases t with
  | file => rfl
  | dir name entries access =>
    have other : name ∉ skippedDirs := by simpa [FileTree.isSkipped] using kept
    simp [Step.of?, other]
  | socket => cases kept

theorem Step.of?_skipped (suffix : String) (p : Path) {t : FileTree}
    (skipped : t.isSkipped = true) :
    Step.of? suffix p false (.ok t) = none := by
  cases t with
  | file => cases skipped
  | dir name entries access =>
    have member : name ∈ skippedDirs := by simpa [FileTree.isSkipped] using skipped
    simp [Step.of?, member]
  | socket => rfl

/-- A walk comes to these names: it meets them, and could ask for all that is on the way. -/
structure Reached (d : Disk) (path : Path) (t : FileTree) (names : List String) : Prop where
  meets : t.Meets names
  opens : ∀ before, before <+: names → before ≠ names → ∃ u, d.open? (path.into before) = .ok u

theorem reached_nil (d : Disk) (path : Path) (t : FileTree) : Reached d path t [] :=
  ⟨t.meets_nil, fun _ first other => absurd (List.prefix_nil.1 first) other⟩

theorem reached_cons {d : Disk} {path : Path} {name s : String} {entries : List FileTree}
    {access : Access} (opened : d.open? path = .ok (.dir name entries access)) {ss : List String} :
    Reached d path (.dir name entries access) (s :: ss) ↔ access.list = true ∧
      ∃ t, entries.find? (·.name == s) = some t ∧
        (ss = [] ∨ s ∉ skippedDirs ∧ ∃ u, d.open? (path.push s) = .ok u) ∧
        Reached d (path.push s) t ss := by
  constructor
  · rintro ⟨meets, opens⟩
    obtain ⟨list, t, here, first, later⟩ := FileTree.meets_cons.1 meets
    refine ⟨list, t, here, ?_, later, fun before first other => ?_⟩
    · rcases first with rfl | kept
      · exact .inl rfl
      · cases ss with
        | nil => exact .inl rfl
        | cons s' ss =>
          exact .inr ⟨kept, opens [s] (List.prefix_cons_inj s |>.2 (List.nil_prefix)) (by simp)⟩
    · rw [Path.into_push]
      exact opens _ ((List.prefix_cons_inj s).2 first) (by simpa using other)
  · rintro ⟨list, t, here, first, meets, opens⟩
    refine ⟨FileTree.meets_cons.2 ⟨list, t, here, first.imp_right And.left, meets⟩, ?_⟩
    intro before prior other
    rcases List.prefix_cons_iff.1 prior with rfl | ⟨more, rfl, short⟩
    · exact ⟨_, by rwa [Path.into_nil]⟩
    · rw [← Path.into_push]
      have differ : more ≠ ss := by simpa using other
      rcases first with rfl | ⟨-, further⟩
      · exact absurd (List.prefix_nil.1 short) differ
      · exact opens more short differ

variable {d : Disk} {suffix : String} {path : Path}

theorem mem_entrySteps (suffix : String) (s : Step) {access : Access} {name : String}
    {entries : List FileTree} (resolved : path.Resolved)
    (opened : d.open? path = .ok (.dir name entries access)) {t : FileTree}
    (found : entries.find? (·.name == t.name) = some t)
    (proper : FileTree.properName t.name = true)
    (below : d.open? (path.push t.name) = .ok t → (s ∈ stepsAt suffix (path.push t.name) t ↔
      ∃ names, Reached d (path.push t.name) t names ∧
        Step.of? suffix ((path.push t.name).into names) names.isEmpty
          (d.open? ((path.push t.name).into names)) = some s)) :
    s ∈ entrySteps suffix path access t ↔
      ∃ names, Reached d (path.push t.name) t names ∧
        (names = [] ∨ t.name ∉ skippedDirs ∧ ∃ u, d.open? (path.push t.name) = .ok u) ∧
        Step.of? suffix ((path.push t.name).into names) false
          (d.open? ((path.push t.name).into names)) = some s := by
  have asked := Disk.open?_push resolved opened (FileTree.ne_of_properName proper) found
  rw [entrySteps]
  cases checked : access.check (path.push t.name) with
  | error e =>
    rw [checked] at asked
    have free := Disk.hasZero_push resolved opened proper
    simp only [Access.isSilent_of_check free checked, Bool.false_eq_true, if_false,
      List.mem_singleton]
    constructor
    · rintro rfl
      exact ⟨[], reached_nil .., .inl rfl, by rw [Path.into_nil, asked]; rfl⟩
    · rintro ⟨names, reached, first, noted⟩
      rcases first with rfl | ⟨-, u, opens⟩
      · rw [Path.into_nil, asked] at noted
        exact (Option.some.inj noted).symm
      · rw [asked] at opens
        cases opens
  | ok _ =>
    replace asked : d.open? (path.push t.name) = .ok t := by rw [asked, checked]; rfl
    cases skipped : t.isSkipped with
    | true =>
      simp only [if_true, List.not_mem_nil, false_iff]
      rintro ⟨names, reached, first, noted⟩
      cases names with
      | nil =>
        rw [Path.into_nil, asked, Step.of?_skipped _ _ skipped] at noted
        cases noted
      | cons s ss =>
        obtain ⟨kept, -⟩ := first.resolve_left (List.cons_ne_nil s ss)
        exact kept (reached.meets.isSkipped_iff.1 skipped)
    | false =>
      simp only [Bool.false_eq_true, if_false]
      rw [below asked]
      refine exists_congr fun names => and_congr_right fun reached => ?_
      cases names with
      | nil => simp [asked, Step.of?_kept _ _ skipped]
      | cons s ss =>
        have kept : t.name ∉ skippedDirs := by simp [← reached.meets.isSkipped_iff, skipped]
        simp [kept, asked]

theorem mem_stepsAt_leaf {t : FileTree} (isLeaf : t.isDir = false) (opened : d.open? path = .ok t)
    (s : Step) :
    s ∈ stepsAt suffix path t ↔ ∃ names, Reached d path t names ∧
      Step.of? suffix (path.into names) names.isEmpty (d.open? (path.into names)) = some s := by
  rw [stepsAt_of_not_isDir _ _ isLeaf]
  constructor
  · intro listed
    refine ⟨[], reached_nil .., ?_⟩
    rw [Path.into_nil, opened]
    cases t with
    | dir => cases isLeaf
    | _ => split at listed <;> simp_all [Step.of?]
  · rintro ⟨names, reached, noted⟩
    cases names with
    | nil =>
      rw [Path.into_nil, opened] at noted
      cases t with
      | dir => cases isLeaf
      | _ => simp_all [Step.of?]
    | cons s ss =>
      have there := reached.meets.there
      cases t with
      | dir => cases isLeaf
      | _ => simp at there

theorem mem_stepsAt {t : FileTree} (tidy : t.Tidy) (resolved : path.Resolved)
    (opened : d.open? path = .ok t) (s : Step) :
    s ∈ stepsAt suffix path t ↔ ∃ names, Reached d path t names ∧
      Step.of? suffix (path.into names) names.isEmpty (d.open? (path.into names)) = some s := by
  induction tidy generalizing path with
  | file | socket => exact mem_stepsAt_leaf rfl opened s
  | @dir name entries access distinct proper each ih =>
    have inner {t : FileTree} (here : t ∈ entries) :=
      mem_entrySteps suffix s resolved opened (FileTree.find?_of_mem distinct here) (proper t here)
        (ih t here (resolved.push (FileTree.ne_of_properName (proper t here))))
    cases list : access.list with
    | false =>
      rw [stepsAt_unlisted list, List.mem_singleton]
      constructor
      · rintro rfl
        exact ⟨[], reached_nil .., by simp [opened, Step.of?, list]⟩
      · rintro ⟨names, reached, noted⟩
        cases names with
        | nil =>
          rw [Path.into_nil, opened] at noted
          simpa [Step.of?, list, eq_comm] using noted
        | cons s ss =>
          rw [reached_cons opened, list] at reached
          cases reached.1
    | true =>
      rw [mem_stepsAt_dir list]
      constructor
      · rintro ⟨t, here, listed⟩
        obtain ⟨names, reached, first, noted⟩ := (inner here).1 listed
        refine ⟨t.name :: names, (reached_cons opened).2 ⟨list, t, ?_, first, reached⟩, ?_⟩
        · exact FileTree.find?_of_mem distinct here
        · rwa [Path.into_push] at noted
      · rintro ⟨names, reached, noted⟩
        cases names with
        | nil =>
          rw [Path.into_nil, opened] at noted
          simp [Step.of?, list] at noted
        | cons s ss =>
          obtain ⟨-, t, found, first, further⟩ := (reached_cons opened).1 reached
          obtain ⟨here, rfl⟩ := FileTree.mem_of_find? found
          exact ⟨t, here, (inner here).2 ⟨ss, further, first, by rwa [Path.into_push]⟩⟩

theorem findSome?_untilFailure (ss : List Step) :
    (untilFailure ss).findSome? Step.failure? = ss.findSome? Step.failure? := by
  induction ss with
  | nil => rfl
  | cons s ss ih =>
    cases s with
    | failed e => rfl
    | _ => exact ih

theorem untilFailure_eq {ss : List Step} (ended : ss.findSome? Step.failure? = none) :
    untilFailure ss = ss := by
  induction ss with
  | nil => rfl
  | cons s ss ih =>
    cases s with
    | failed e => cases ended
    | _ => exact congrArg _ (ih ended)

theorem outcome_untilFailure (ss : List Step) : outcome (untilFailure ss) = outcome ss := by
  rw [outcome, outcome, findSome?_untilFailure]
  cases ended : ss.findSome? Step.failure? with
  | some e => rfl
  | none => rw [untilFailure_eq ended]

theorem outcome_eq_ok {ss : List Step} (ended : ss.findSome? Step.failure? = none) :
    outcome ss = .ok (ss.filterMap Step.file?) := by
  rw [outcome, ended]

theorem files_eq {root : Path} {t : FileTree} (asked : root.hasZero = false)
    (opened : d.open? (d.resolve root) = .ok t) :
    files d suffix root = outcome (stepsAt suffix (d.resolve root) t) := by
  simp only [files, walk, asked, opened, Bool.false_eq_true, if_false, outcome_untilFailure]

theorem Step.path_of? {p : Path} {start : Bool} {found : Except FileError FileTree} {s : Step}
    (noted : Step.of? suffix p start found = some s) : s.path = p := by
  unfold Step.of? at noted
  split at noted
  · obtain rfl := Option.some.inj (Option.ite_none_right_eq_some.1 noted).2
    rfl
  · obtain rfl := Option.some.inj (Option.ite_none_right_eq_some.1 noted).2
    rfl
  · obtain rfl := Option.some.inj (Option.ite_none_left_eq_some.1 noted).2
    rfl
  · obtain rfl := Option.some.inj noted
    rfl

theorem Step.of?_eq_file {p q : Path} {start : Bool} {found : Except FileError FileTree} :
    Step.of? suffix p start found = some (.file q) ↔ p = q ∧ p.suffix = suffix ∧
      ((∃ name content readable, found = .ok (.file name content readable)) ∨
        start = true ∧ ∃ name, found = .ok (.socket name)) := by
  unfold Step.of?
  split <;> simp <;> grind

theorem Step.failure?_of? {p : Path} {start : Bool} {t : FileTree} {s : Step}
    (noted : Step.of? suffix p start (.ok t) = some s) : s.failure? = none := by
  unfold Step.of? at noted
  split at noted <;> grind [Step.failure?]

/-- Whatever a walk meets can be asked for. -/
def Clear (d : Disk) (path : Path) (t : FileTree) : Prop :=
  ∀ names, t.Meets names → ∃ u, d.open? (path.into names) = .ok u

theorem findSome?_stepsAt {t : FileTree} (tidy : t.Tidy) (resolved : path.Resolved)
    (opened : d.open? path = .ok t) :
    (stepsAt suffix path t).findSome? Step.failure? = none ↔ Clear d path t := by
  rw [List.findSome?_eq_none_iff]
  constructor
  · intro ended names
    induction len : names.length using Nat.strong_induction_on generalizing names with
    | _ n ih =>
      subst len
      intro meets
      have reached : Reached d path t names := by
        refine ⟨meets, fun before first other => ?_⟩
        obtain ⟨more, rfl⟩ := first
        have shorter : before.length < (before ++ more).length := by
          have := List.length_pos_iff.2 fun none : more = [] => other (by simp [none])
          simpa using this
        exact ih _ shorter before rfl meets.before
      cases asked : d.open? (path.into names) with
      | ok u => exact ⟨u, rfl⟩
      | error e =>
        have noted : .failed ⟨e, path.into names⟩ ∈ stepsAt suffix path t :=
          (mem_stepsAt tidy resolved opened _).2 ⟨names, reached, by rw [asked]; rfl⟩
        cases ended _ noted
  · intro clear s noted
    obtain ⟨names, reached, step⟩ := (mem_stepsAt tidy resolved opened s).1 noted
    obtain ⟨u, asked⟩ := clear names reached.meets
    rw [asked] at step
    exact Step.failure?_of? step

def steps (d : Disk) (root : Path) : List Step :=
  match d.open? root with
  | .ok t => stepsAt sourceSuffix root t
  | .error e => [.failed ⟨e, root⟩]

section Roots

variable {root : Path} {t : FileTree} (tidy : d.Tidy) (resolved : root.Resolved)
  (lies : d.at? root = some t)

include tidy resolved lies

theorem walk_eq : walk d sourceSuffix root = untilFailure (steps d root) := by
  rw [walk, steps, d.resolve_eq resolved]
  simp only [tidy.hasZero lies, Bool.false_eq_true, if_false]
  rcases tidy.open?_of_at? resolved lies with opened | ⟨e, refused, loud⟩
  · rw [opened]
  · have there : e.isAbsence = false := by
      rw [FileError.isSilent, Bool.or_eq_false_iff] at loud
      exact loud.1
    rw [refused]
    simp [there, untilFailure]

theorem mem_steps (s : Step) :
    s ∈ steps d root ↔ ∃ names, Reached d root t names ∧
      Step.of? sourceSuffix (root.into names) names.isEmpty (d.open? (root.into names)) =
        some s := by
  rw [steps]
  rcases tidy.open?_of_at? resolved lies with opened | ⟨e, refused, -⟩
  · rw [opened]
    exact mem_stepsAt (tidy.root.at? lies) resolved opened s
  · rw [refused]
    refine List.mem_singleton.trans ⟨?_, ?_⟩
    · rintro rfl
      exact ⟨[], reached_nil .., by rw [Path.into_nil, refused]; rfl⟩
    · rintro ⟨names, reached, noted⟩
      cases names with
      | nil =>
        rw [Path.into_nil, refused] at noted
        exact (Option.some.inj noted).symm
      | cons s ss =>
        obtain ⟨u, opens⟩ := reached.opens [] List.nil_prefix (List.cons_ne_nil s ss).symm
        rw [Path.into_nil, refused] at opens
        cases opens

theorem pairwise_steps :
    (steps d root).Pairwise fun s s' => s.path.segments < s'.path.segments := by
  rw [steps]
  rcases tidy.open?_of_at? resolved lies with opened | ⟨e, refused, -⟩
  · rw [opened]
    exact pairwise_stepsAt _ _ (tidy.root.at? lies)
  · rw [refused]
    exact List.pairwise_singleton ..

theorem has_of_mem_steps {s : Step} (noted : s ∈ steps d root) :
    s.path.Resolved ∧ d.has s.path = true := by
  obtain ⟨names, reached, step⟩ := (mem_steps tidy resolved lies s).1 noted
  obtain ⟨u, below⟩ := Option.isSome_iff_exists.1 reached.meets.there
  rw [Step.path_of? step, Disk.has, Disk.at?_into lies, below]
  exact ⟨resolved.into ((tidy.root.at? lies).plain_at? below), rfl⟩

end Roots

def found (d : Disk) (root : Path) : List Path := (files d sourceSuffix root).toOption.getD []

theorem found_eq {root : Path} {t : FileTree} (tidy : d.Tidy) (resolved : root.Resolved)
    (lies : d.at? root = some t) (ended : (steps d root).findSome? Step.failure? = none) :
    found d root = (steps d root).filterMap Step.file? := by
  rw [found, files, walk_eq tidy resolved lies, outcome_untilFailure, outcome_eq_ok ended]
  rfl

theorem mem_filterMap_file? {ss : List Step} {p : Path} :
    p ∈ ss.filterMap Step.file? ↔ .file p ∈ ss := by
  have isFile (s : Step) : s.file? = some p ↔ s = .file p := by
    cases s <;> simp [Step.file?]
  simp [List.mem_filterMap, isFile]

end Crawl

end RefGraph

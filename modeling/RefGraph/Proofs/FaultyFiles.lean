import RefGraph.Proofs.CrawlOrder
import RefGraph.Proofs.UnitGroups
import RefGraph.Proofs.UnitKey

set_option autoImplicit false

namespace RefGraph

/-- A file that is not UTF-8, or whose tree holds an error or a missing node. -/
def SourceFile.Faulty (f : SourceFile) : Prop :=
  (Text.utf8Fault? f.bytes.toList).isSome ∨
    ∃ t, f.listing.bind (Tree.ofListing? ((String.fromUTF8? f.bytes).getD "")) = some t ∧
      t.fault?.isSome

theorem SourceFile.Faulty.read {f : SourceFile} (faulty : f.Faulty) (p : Option Path) :
    (SourceUnit.read p f).toOption = none := by
  rw [SourceUnit.read]
  cases fault : Text.utf8Fault? f.bytes.toList with
  | some fault => rfl
  | none =>
    obtain ⟨t, parsed, bad⟩ := faulty.resolve_left (by simp [fault])
    obtain ⟨node, bad⟩ := Option.isSome_iff_exists.1 bad
    dsimp only
    rw [parsed]
    dsimp only
    rw [SourceUnit.ofTree?, bad]
    rfl

namespace FileTree

/-- The second list has what the first has, and files besides that cannot be read or are faulty, in
the list and in the directories below. -/
inductive Grown : List FileTree → List FileTree → Prop
  | nil : Grown [] []
  | leaf {t : FileTree} {ts ts' : List FileTree} (isLeaf : t.isDir = false) (rest : Grown ts ts') :
      Grown (t :: ts) (t :: ts')
  | dir {name : String} {entries entries' ts ts' : List FileTree} {access : Access}
      (inside : Grown entries entries') (rest : Grown ts ts') :
      Grown (.dir name entries access :: ts) (.dir name entries' access :: ts')
  | added {name : String} {content : SourceFile} {readable : Bool} {ts ts' : List FileTree}
      (faulty : readable = true → content.Faulty) (rest : Grown ts ts') :
      Grown ts (.file name content readable :: ts')

inductive Kept : FileTree → FileTree → Prop
  | leaf {t : FileTree} (isLeaf : t.isDir = false) : Kept t t
  | dir {name : String} {entries entries' : List FileTree} {access : Access}
      (inside : Grown entries entries') :
      Kept (.dir name entries access) (.dir name entries' access)

-- What a name leads to before and after.
inductive Led : Option FileTree → Option FileTree → Prop
  | kept {t t' : FileTree} (kept : Kept t t') : Led (some t) (some t')
  | nowhere : Led none none
  | added {name : String} {content : SourceFile} {readable : Bool}
      (faulty : readable = true → content.Faulty) : Led none (some (.file name content readable))

theorem Kept.name_eq {t t' : FileTree} (kept : Kept t t') : t'.name = t.name := by
  cases kept <;> rfl

theorem Grown.names {ts ts' : List FileTree} (grown : Grown ts ts') :
    (ts.map FileTree.name).Sublist (ts'.map FileTree.name) := by
  induction grown with
  | nil => exact .slnil
  | leaf _ rest ih => exact ih.cons_cons _
  | dir inside rest _ ih => exact ih.cons_cons _
  | added faulty rest ih => exact ih.cons _

theorem Grown.tidy {ts ts' : List FileTree} (grown : Grown ts ts') (tidy : ∀ t ∈ ts', t.Tidy) :
    ∀ t ∈ ts, t.Tidy := by
  induction grown with
  | nil => exact tidy
  | leaf _ rest ih =>
    obtain ⟨here, later⟩ := List.forall_mem_cons.1 tidy
    exact List.forall_mem_cons.2 ⟨here, ih later⟩
  | @dir name entries entries' ts ts' access inside rest ih ih' =>
    obtain ⟨here, later⟩ := List.forall_mem_cons.1 tidy
    cases here with
    | dir distinct proper each =>
      refine List.forall_mem_cons.2
        ⟨.dir (distinct.sublist inside.names) (fun t listed => ?_) (ih each), ih' later⟩
      obtain ⟨t', listed', named⟩ :=
        List.mem_map.1 (inside.names.subset (List.mem_map_of_mem listed))
      exact named ▸ proper t' listed'
  | added faulty rest ih => exact ih (List.forall_mem_cons.1 tidy).2

theorem grown_nest {ts ts' : List FileTree} (grown : Grown ts ts') (names : List String) :
    Grown (nest names ts) (nest names ts') := by
  induction names with
  | nil => exact grown
  | cons s ss ih => exact .dir ih .nil

theorem Kept.tidy {t t' : FileTree} (kept : Kept t t') (tidy : t'.Tidy) : t.Tidy := by
  have grown : Grown [t] [t'] := by
    cases kept with
    | leaf isLeaf => exact .leaf isLeaf .nil
    | dir inside => exact .dir inside .nil
  exact grown.tidy (List.forall_mem_singleton.2 tidy) t List.mem_cons_self

theorem Kept.find?_cons {t t' : FileTree} {ts ts' : List FileTree} {s : String} (kept : Kept t t')
    (rest : Led (ts.find? (·.name == s)) (ts'.find? (·.name == s))) :
    Led ((t :: ts).find? (·.name == s)) ((t' :: ts').find? (·.name == s)) := by
  rw [List.find?_cons, List.find?_cons, kept.name_eq]
  cases t.name == s with
  | true => exact .kept kept
  | false => exact rest

-- A new name is no old one, so nothing is hidden behind it.
theorem Grown.find? {ts ts' : List FileTree} (grown : Grown ts ts')
    (distinct : (ts'.map FileTree.name).Nodup) (s : String) :
    Led (ts.find? (·.name == s)) (ts'.find? (·.name == s)) := by
  induction grown with
  | nil => exact .nowhere
  | leaf isLeaf rest ih => exact Kept.find?_cons (.leaf isLeaf) (ih (List.nodup_cons.1 distinct).2)
  | dir inside rest _ ih => exact Kept.find?_cons (.dir inside) (ih (List.nodup_cons.1 distinct).2)
  | @added name content readable ts ts' faulty rest ih =>
    rw [List.map_cons, List.nodup_cons] at distinct
    by_cases here : name = s
    · have free : ts.find? (·.name == s) = none := by
        refine List.find?_eq_none.2 fun t listed same => distinct.1 (rest.names.subset ?_)
        rw [FileTree.name, here, ← eq_of_beq same]
        exact List.mem_map_of_mem listed
      rw [free, List.find?_cons_of_pos (by simpa [FileTree.name] using here)]
      exact .added faulty
    · rw [List.find?_cons_of_neg (by simpa [FileTree.name] using here)]
      exact ih distinct.2

-- What is below an old name lies where it was, and the directories on the way allow the same.
theorem Kept.at? {t t' : FileTree} (kept : Kept t t') (tidy : t'.Tidy) {ss : List String}
    {u : FileTree} (found : t.at? ss = some u) :
    ∃ u', t'.at? ss = some u' ∧ Kept u u' ∧ ∀ may, t'.allows may ss = t.allows may ss := by
  induction ss generalizing t t' with
  | nil =>
    obtain rfl := Option.some.inj found
    exact ⟨t', rfl, kept, fun _ => by simp⟩
  | cons s ss ih =>
    cases kept with
    | leaf isLeaf =>
      cases t with
      | dir => cases isLeaf
      | _ => cases found
    | @dir name entries entries' access inside =>
      cases tidy with
      | dir distinct proper each =>
        rw [at?_dir, Option.bind_eq_some_iff] at found
        obtain ⟨v, here, below⟩ := found
        have led := inside.find? distinct s
        rw [here] at led
        generalize here' : entries'.find? (·.name == s) = result at led
        cases led with
        | @kept _ v' kept =>
          obtain ⟨u', below', kept', allowed⟩ := ih kept (each v' (mem_of_find? here').1) below
          refine ⟨u', ?_, kept', fun may => ?_⟩
          · rw [at?_dir, here', Option.bind_some, below']
          · rw [allows_dir, allows_dir, here', here, Option.all_some, Option.all_some, allowed]

inductive Opened (missing : Prop) :
    Except FileError FileTree → Except FileError FileTree → Prop
  | kept {t t' : FileTree} (kept : Kept t t') : Opened missing (.ok t) (.ok t')
  | failed (e : FileError) : Opened missing (.error e) (.error e)
  | absent {e e' : FileError} (before : e.isAbsence = true) (after : e'.isAbsence = true) :
      Opened missing (.error e) (.error e')
  | added {e : FileError} {name : String} {content : SourceFile} {readable : Bool}
      (before : e.isAbsence = true) (faulty : readable = true → content.Faulty) (free : missing) :
      Opened missing (.error e) (.ok (.file name content readable))

-- The two walks go through the same directories, up to faulty files.
theorem opened_go {root here here' : FileTree} {done : List String}
    {through through' : List FileTree} (walked : Walked root done through here)
    (kept : Kept here here') (tidy : here'.Tidy)
    (above : List.Forall₂ (fun t t' => Kept t t' ∧ t'.Tidy) through through') (ss : List String) :
    Opened (root.at? (Path.resolveOnto true done ss) = none)
      (go through here ss) (go through' here' ss) := by
  induction ss generalizing done through through' here here' with
  | nil => exact .kept kept
  | cons s ss ih =>
    cases kept with
    | leaf isLeaf =>
      cases here with
      | dir => cases isLeaf
      | _ => exact .failed _
    | @dir name entries entries' access inside =>
      rw [Path.resolveOnto]
      by_cases back : s = ".."
      · rw [if_pos back, Path.stepUp_plain walked.plain]
        subst back
        simp only [go, if_true]
        split
        · exact .failed _
        · cases above with
          | nil =>
            cases walked
            exact ih .start (.dir inside) tidy .nil
          | cons up above =>
            cases walked with
            | enter walked _ _ _ _ => exact ih walked up.1 up.2 above
      · rw [if_neg back, go_enter _ _ _ _ back, go_enter _ _ _ _ back]
        cases enters : access.enter with
        | false => exact .failed _
        | true =>
          by_cases long : s.utf8ByteSize > nameLimit
          · rw [if_pos long, if_pos long]
            exact .failed _
          · rw [if_neg long, if_neg long]
            have tidyAll := tidy
            cases tidy with
            | dir distinct proper each =>
              have led := inside.find? distinct s
              generalize first : entries.find? (·.name == s) = found at led
              generalize second : entries'.find? (·.name == s) = found' at led
              cases led with
              | nowhere => exact .failed _
              | kept kept =>
                exact ih (.enter walked enters back (Nat.le_of_not_gt long) first) kept
                  (each _ (mem_of_find? second).1) (.cons ⟨.dir inside, tidyAll⟩ above)
              | added faulty =>
                cases ss with
                | nil =>
                  refine .added rfl faulty ?_
                  simp [Path.resolveOnto, at?_append, walked.at?_reverse, first]
                | cons s' ss => exact .absent rfl rfl

end FileTree

namespace Disk

structure Grown (d d' : Disk) : Prop where
  workDir : d'.workDir = d.workDir
  entries : FileTree.Grown d.entries d'.entries

theorem not_has_into {d : Disk} {p : Path} (free : d.has p = false) (names : List String) :
    d.has (p.into names) = false := by
  rw [has, Option.isSome_eq_false_iff, Option.isNone_iff_eq_none, at?] at free
  rw [has, at?, Path.segments_into, FileTree.at?_append, free]
  rfl

theorem load_of_not_has {d : Disk} {p : Path} (resolved : p.Resolved) (free : d.has p = false) :
    (SourceUnit.load d p).toOption = none := by
  cases loaded : SourceUnit.load d p with
  | error e => rfl
  | ok u =>
    obtain ⟨name, content, opened, -⟩ := SourceUnit.load_eq_ok.1 loaded
    rw [has, ((d.open?_eq_ok resolved).1 opened).2.1] at free
    cases free

namespace Grown

variable {d d' : Disk} (grown : d.Grown d') (tidy : d'.Tidy)

include grown

theorem kept : FileTree.Kept d.root d'.root := .dir grown.entries

theorem resolve_eq (p : Path) : d'.resolve p = d.resolve p := by
  rw [resolve, resolve, absolute, absolute, grown.workDir]

include tidy

theorem tidy_before : d.Tidy := ⟨grown.workDir ▸ tidy.workDir, grown.kept.tidy tidy.root⟩

theorem opened (p : Path) :
    FileTree.Opened (d.at? (d.resolve p) = none) (d.open? p) (d'.open? p) := by
  have absolute : d'.absolute p = d.absolute p := by
    rw [Disk.absolute, Disk.absolute, grown.workDir]
  have fromRoot := isAbsolute_absolute (grown.workDir ▸ tidy.workDir) p
  rw [open?, open?, absolute, at?, resolve, Path.resolve, fromRoot]
  cases p.check with
  | error e => exact .failed e
  | ok _ => exact FileTree.opened_go .start grown.kept tidy.root .nil _

-- A path at which something lies is opened as before, also where that fails.
theorem opened_of_has {p : Path} (resolved : p.Resolved) (has : d.has p = true) :
    (∃ t t', FileTree.Kept t t' ∧ d.open? p = .ok t ∧ d'.open? p = .ok t') ∨
      ∃ e, d.open? p = .error e ∧ d'.open? p = .error e := by
  obtain ⟨t, found⟩ := Option.isSome_iff_exists.1 has
  have there := (grown.tidy_before tidy).open?_of_at? resolved found
  have opened := grown.opened tidy p
  generalize d.open? p = first at opened there
  generalize d'.open? p = second at opened
  have loud {e : FileError} (failed : first = .error e) : e.isAbsence = false := by
    rcases there with ok | ⟨e', failed', late⟩
    · cases ok.symm.trans failed
    · obtain rfl := Except.error.inj (failed.symm.trans failed')
      exact (Bool.or_eq_false_iff.1 late).1
  cases opened with
  | kept kept => exact .inl ⟨_, _, kept, rfl, rfl⟩
  | failed e => exact .inr ⟨e, rfl, rfl⟩
  | absent before _ => cases before.symm.trans (loud rfl)
  | added before _ _ => cases before.symm.trans (loud rfl)

theorem toOption_load (p : Path) :
    (SourceUnit.load d' p).toOption = (SourceUnit.load d p).toOption := by
  have opened := grown.opened tidy p
  rw [SourceUnit.load_eq, SourceUnit.load_eq]
  generalize d.open? p = first at opened
  generalize d'.open? p = second at opened
  cases opened with
  | kept kept => cases kept <;> rfl
  | failed e => rfl
  | absent => rfl
  | @added _ _ content readable _ faulty _ =>
    cases readable with
    | false => rfl
    | true =>
      have fails := (faulty rfl).read (some p)
      dsimp only
      cases made : SourceUnit.read (some p) content with
      | error e => rfl
      | ok u =>
        rw [made] at fails
        cases fails

theorem load_of_has {p : Path} (resolved : p.Resolved) (has : d.has p = true) :
    SourceUnit.load d' p = SourceUnit.load d p := by
  rw [SourceUnit.load_eq, SourceUnit.load_eq]
  rcases grown.opened_of_has tidy resolved has with ⟨t, t', kept, first, second⟩
    | ⟨e, first, second⟩
  · rw [first, second]
    cases kept <;> rfl
  · rw [first, second]

end Grown

end Disk

namespace Crawl

variable {d d' : Disk} (grown : d.Grown d') (tidy : d'.Tidy)

theorem Step.of?_eq_failed {suffix : String} {p : Path} {start : Bool}
    {found : Except FileError FileTree} {e : PathError} :
    Step.of? suffix p start found = some (.failed e) ↔ found = .error e.error ∧ e.path = p := by
  rcases e with ⟨error, q⟩
  unfold Step.of?
  split <;> grind

include grown tidy

theorem of?_grown {p : Path} (resolved : p.Resolved) (has : d.has p = true) (start : Bool) :
    Step.of? sourceSuffix p start (d'.open? p) = Step.of? sourceSuffix p start (d.open? p) := by
  rcases grown.opened_of_has tidy resolved has with ⟨t, t', kept, first, second⟩
    | ⟨e, first, second⟩
  · rw [first, second]
    cases kept <;> rfl
  · rw [first, second]

theorem reached_grown {root : Path} (resolved : root.Resolved) {t t' u : FileTree}
    (lies : d.at? root = some t) (kept : t.Kept t') (inside : t'.Tidy) {names : List String}
    (below : t.at? names = some u) : Reached d' root t' names ↔ Reached d root t names := by
  obtain ⟨u', below', -, allowed⟩ := kept.at? inside below
  have opens {before : List String} (first : before <+: names) :
      (∃ v, d'.open? (root.into before) = .ok v) ↔ ∃ v, d.open? (root.into before) = .ok v := by
    obtain ⟨more, rfl⟩ := first
    obtain ⟨v, here, -⟩ := Option.bind_eq_some_iff.1 ((t.at?_append before more).symm.trans below)
    have plain := (kept.tidy inside).plain_at? here
    have has : d.has (root.into before) = true := by
      rw [Disk.has, Disk.at?_into lies, here]
      rfl
    rcases grown.opened_of_has tidy (resolved.into plain) has
      with ⟨v, v', -, first, second⟩ | ⟨e, first, second⟩
    · simp [first, second]
    · simp [first, second]
  constructor
  · rintro ⟨⟨-, onTheWay, listed⟩, opened⟩
    exact ⟨⟨Option.isSome_of_mem below, onTheWay, allowed _ ▸ listed⟩,
      fun before first other => (opens first).1 (opened before first other)⟩
  · rintro ⟨⟨-, onTheWay, listed⟩, opened⟩
    exact ⟨⟨Option.isSome_of_mem below', onTheWay, (allowed _).trans listed⟩,
      fun before first other => (opens first).2 (opened before first other)⟩

theorem steps_of_has {root : Path} (resolved : root.Resolved) (has : d.has root = true) :
    ((steps d' root).filter fun s => d.has s.path) = steps d root := by
  have tidyBefore := grown.tidy_before tidy
  obtain ⟨t, lies⟩ := Option.isSome_iff_exists.1 has
  obtain ⟨t', lies', kept, -⟩ := grown.kept.at? tidy.root lies
  have inside : t'.Tidy := tidy.root.at? lies'
  refine eq_of_mem_iff (·.path.segments) ((pairwise_steps tidy resolved lies').filter _)
    (pairwise_steps tidyBefore resolved lies) fun s => ?_
  rw [List.mem_filter, mem_steps tidy resolved lies', mem_steps tidyBefore resolved lies]
  constructor
  · rintro ⟨⟨names, reached, noted⟩, old⟩
    rw [Step.path_of? noted, Disk.has, Disk.at?_into lies] at old
    obtain ⟨u, below⟩ := Option.isSome_iff_exists.1 old
    have plain := (kept.tidy inside).plain_at? below
    rw [of?_grown grown tidy (resolved.into plain) (by rwa [Disk.has, Disk.at?_into lies])] at noted
    exact ⟨names, (reached_grown grown tidy resolved lies kept inside below).1 reached, noted⟩
  · rintro ⟨names, reached, noted⟩
    obtain ⟨u, below⟩ := Option.isSome_iff_exists.1 reached.meets.there
    have plain := (kept.tidy inside).plain_at? below
    have old : d.has (root.into names) = true := by
      rw [Disk.has, Disk.at?_into lies, below]
      rfl
    refine ⟨⟨names, (reached_grown grown tidy resolved lies kept inside below).2 reached, ?_⟩, ?_⟩
    · rwa [of?_grown grown tidy (resolved.into plain) old]
    · rwa [Step.path_of? noted]

omit grown in
theorem steps_of_not_has {root : Path} (there : root.Resolved ∧ d'.has root = true)
    (free : d.has root = false) : ((steps d' root).filter fun s => d.has s.path) = [] := by
  obtain ⟨t', lies⟩ := Option.isSome_iff_exists.1 there.2
  refine List.filter_eq_nil_iff.2 fun s noted old => ?_
  obtain ⟨names, -, step⟩ := (mem_steps tidy there.1 lies s).1 noted
  rw [Step.path_of? step, Disk.not_has_into free] at old
  cases old

end Crawl

namespace Run

def isAdded (d : Disk) (x : Diagnostic) : Bool :=
  x.event == .parseFailure && x.path.any fun p => !d.has p

-- The first of some things is the first of those that are kept, or is not kept.
theorem findSome?_filter {α β : Type} {f : α → Option β} (keep : α → Bool) {xs : List α} {b : β}
    (found : xs.findSome? f = some b) :
    (xs.filter keep).findSome? f = some b ∨ ∃ x ∈ xs, keep x = false ∧ f x = some b := by
  obtain ⟨before, x, after, rfl, here, earlier⟩ := List.findSome?_eq_some_iff.1 found
  cases kept : keep x with
  | false => exact .inr ⟨x, by simp, kept, here⟩
  | true =>
    refine .inl
      (List.findSome?_eq_some_iff.2 ⟨before.filter keep, x, after.filter keep, ?_, here, ?_⟩)
    · simp [kept]
    · exact fun y listed => earlier y (List.mem_of_mem_filter listed)

theorem flatMap_kept {α β : Type} {keep : α → Bool} {f g : α → List β} {xs : List α}
    (each : ∀ x ∈ xs, f x = if keep x then g x else []) :
    xs.flatMap f = (xs.filter keep).flatMap g := by
  induction xs with
  | nil => rfl
  | cons x xs ih =>
    obtain ⟨here, later⟩ := List.forall_mem_cons.1 each
    rw [List.flatMap_cons, here, ih later, List.filter_cons]
    split <;> simp

section Loading

variable {d d' : Disk} (grown : d.Grown d') (tidy : d'.Tidy) {root : Path}
  (there : root.Resolved ∧ d'.has root = true)

include grown tidy there

theorem steps_grown : ((Crawl.steps d' root).filter fun s => d.has s.path) =
    if d.has root then Crawl.steps d root else [] := by
  cases here : d.has root with
  | true => exact Crawl.steps_of_has grown tidy there.1 here
  | false => exact Crawl.steps_of_not_has tidy there here

variable (ended : (Crawl.steps d' root).findSome? Crawl.Step.failure? = none)

include ended

theorem ended_before (here : d.has root = true) :
    (Crawl.steps d root).findSome? Crawl.Step.failure? = none := by
  rw [← Crawl.steps_of_has grown tidy there.1 here]
  exact List.findSome?_eq_none_iff.2 fun s noted =>
    List.findSome?_eq_none_iff.1 ended s (List.mem_of_mem_filter noted)

theorem found_grown : (Crawl.found d' root).filter d.has =
    if d.has root then Crawl.found d root else [] := by
  obtain ⟨t', lies'⟩ := Option.isSome_iff_exists.1 there.2
  have onFiles (ss : List Crawl.Step) : (ss.filterMap Crawl.Step.file?).filter d.has =
      (ss.filter fun s => d.has s.path).filterMap Crawl.Step.file? := by
    rw [List.filter_filterMap, List.filterMap_filter]
    refine List.filterMap_congr fun s _ => ?_
    cases s with
    | file p => by_cases old : d.has p <;> simp [Crawl.Step.file?, Crawl.Step.path, old]
    | _ => simp [Crawl.Step.file?]
  rw [Crawl.found_eq tidy there.1 lies' ended, onFiles, steps_grown grown tidy there]
  cases here : d.has root with
  | false => rfl
  | true =>
    obtain ⟨t, lies⟩ := Option.isSome_iff_exists.1 here
    rw [if_pos rfl, if_pos rfl, Crawl.found_eq (grown.tidy_before tidy) there.1 lies
      (ended_before grown tidy there ended here)]

-- What comes of the files of a crawl if nothing comes of the new ones.
theorem filterMap_found {α : Type} {f g : Path → Option α}
    (old : ∀ p, p.Resolved → d.has p = true → f p = g p)
    (new : ∀ p, p.Resolved → d.has p = false → f p = none) :
    (Crawl.found d' root).filterMap f =
      if d.has root then (Crawl.found d root).filterMap g else [] := by
  have split : (Crawl.found d' root).filterMap f =
      ((Crawl.found d' root).filter d.has).filterMap g := by
    rw [List.filterMap_filter]
    refine List.filterMap_congr fun p listed => ?_
    have resolved := (has_of_found tidy there ended listed).1
    cases here : d.has p with
    | true => exact old p resolved here
    | false => exact new p resolved here
  rw [split, found_grown grown tidy there ended]
  split <;> rfl

theorem units_grown :
    (loadRoot d' root).units = if d.has root then (loadRoot d root).units else [] := by
  have same := filterMap_found grown tidy there ended (fun p _ _ => grown.toOption_load tidy p)
    fun p resolved free => by rw [grown.toOption_load tidy, Disk.load_of_not_has resolved free]
  rw [units_loadRoot tidy there ended, same]
  cases here : d.has root with
  | false => rfl
  | true =>
    rw [if_pos rfl, if_pos rfl, units_loadRoot (grown.tidy_before tidy) ⟨there.1, here⟩
      (ended_before grown tidy there ended here)]

theorem reports_grown : ((loadRoot d' root).reports.filter fun x => !isAdded d x) =
    if d.has root then (loadRoot d root).reports else [] := by
  have same := filterMap_found grown tidy there ended (g := failure? d)
    (f := fun p => (failure? d' p).filter fun x => !isAdded d x)
    (fun p resolved here => by
      rw [failure?, failure?, grown.load_of_has tidy resolved here]
      cases SourceUnit.load d p <;> simp [isAdded, here])
    (fun p resolved free => by
      rw [failure?]
      cases SourceUnit.load d' p <;> simp [isAdded, free])
  rw [reports_loadRoot tidy there ended, List.filter_filterMap, same]
  cases here : d.has root with
  | false => rfl
  | true =>
    rw [if_pos rfl, if_pos rfl, reports_loadRoot (grown.tidy_before tidy) ⟨there.1, here⟩
      (ended_before grown tidy there ended here)]

theorem added_grown : ((loadRoot d' root).reports.filter (isAdded d)).map (·.path) =
    ((Crawl.found d' root).filter fun p => !d.has p).map some := by
  rw [reports_loadRoot tidy there ended, List.filter_filterMap, List.map_filterMap,
    ← List.filterMap_eq_map, List.filterMap_filter]
  refine List.filterMap_congr fun p listed => ?_
  have resolved := (has_of_found tidy there ended listed).1
  rw [failure?]
  cases here : d.has p with
  | true => cases SourceUnit.load d' p <;> simp [isAdded, here]
  | false =>
    have fails := (grown.toOption_load tidy p).trans (Disk.load_of_not_has resolved here)
    cases loaded : SourceUnit.load d' p with
    | error e => simp [isAdded, here]
    | ok u =>
      rw [loaded] at fails
      cases fails

end Loading

section Runs

variable {d d' : Disk} (grown : d.Grown d') (tidy : d'.Tidy)

include grown tidy

-- A root argument is there as before, or names an added file.
theorem contains_grown (root : Path) :
    (d.contains root = .ok true ∧ d'.contains root = .ok true ∧
        d.has (d.resolve root) = true) ∨
      (d.contains root ≠ .ok true ∧ d'.contains root = d.contains root) ∨
      (d.contains root = .ok false ∧ d'.contains root = .ok true ∧
        d.has (d.resolve root) = false) := by
  have opened := grown.opened tidy root
  unfold Disk.contains
  generalize first : d.open? root = result at opened ⊢
  generalize d'.open? root = result' at opened ⊢
  have silent {e : FileError} (absent : e.isAbsence = true) : e.isSilent = true := by
    rw [FileError.isSilent, absent, Bool.true_or]
  cases opened with
  | kept kept =>
    refine .inl ⟨rfl, rfl, ?_⟩
    rw [Disk.has, Disk.at?_resolve (grown.workDir ▸ tidy.workDir) first]
    rfl
  | failed e =>
    refine .inr (.inl ⟨?_, rfl⟩)
    dsimp only
    split <;> simp
  | @absent e e' before after =>
    refine .inr (.inl ?_)
    simp [silent before, silent after]
  | @added e _ _ _ before faulty free =>
    refine .inr (.inr ⟨?_, rfl, ?_⟩)
    · simp [silent before]
    · rw [Disk.has, free]
      rfl

theorem keepRoots_grown {kept kept' : List Path} (same : kept'.filter d.has = kept)
    (roots : List Path) :
    (keepRoots d' kept' roots).failed = (keepRoots d kept roots).failed ∧
      (keepRoots d' kept' roots).kept.filter d.has = (keepRoots d kept roots).kept := by
  induction roots generalizing kept kept' with
  | nil => exact ⟨rfl, same⟩
  | cons root roots ih =>
    rw [keepRoots, keepRoots, grown.resolve_eq]
    rcases contains_grown grown tidy root
      with ⟨there, there', old⟩ | ⟨missing, there'⟩ | ⟨there, there', new⟩
    · have listed : kept.contains (d.resolve root) = kept'.contains (d.resolve root) := by
        rw [← same, Bool.eq_iff_iff]
        simp [old]
      simp only [there, there', listed]
      split
      · exact ih same
      · exact ih (by rw [List.filter_append, same]; simp [old])
    · rw [there']
      cases there : d.contains root with
      | error e => exact ⟨rfl, same⟩
      | ok b =>
        cases b with
        | false => exact ih same
        | true => exact absurd there missing
    · simp only [there, there']
      split
      · exact ih same
      · exact ih (by rw [List.filter_append, same]; simp [new])

end Runs

-- An added file is above no other.
theorem key_filter {d : Disk} {roots' : List Path} (resolved : ∀ root ∈ roots', root.Resolved)
    {p : Path} (resolved' : p.Resolved) (has : d.has p = true) :
    UnitKey.ofPath? roots' (some p) = UnitKey.ofPath? (roots'.filter d.has) (some p) := by
  refine UnitKey.ofPath_congr fun q above => ?_
  rw [UnitKey.mem_sortRoots_of_resolved resolved,
    UnitKey.mem_sortRoots_of_resolved fun root kept => resolved root (List.mem_of_mem_filter kept),
    List.mem_filter]
  refine ⟨fun kept => ⟨kept, ?_⟩, And.left⟩
  obtain ⟨names, below⟩ := Option.isSome_iff_exists.1 above
  rw [resolved'.resolve_eq, Path.relativeTo?_eq_some (resolved q kept).1 resolved'.1] at below
  cases old : d.has q with
  | true => rfl
  | false =>
    rw [below, Disk.not_has_into old] at has
    cases has

/-- The second run shows the given lines, placeholders and reports, and besides them it reports the
files that are not on the first disk, once for each of its crawls that comes to them. -/
structure Shows (d d' : Disk) (r' : Run) (lines : List String) (registry : Registry)
    (diagnostics : List Diagnostic) : Prop where
  lines : r'.lines = lines
  registry : r'.registry = registry
  diagnostics : (r'.diagnostics.filter fun x => !isAdded d x) = diagnostics
  added : (r'.diagnostics.filter (isAdded d)).map (·.path) =
    r'.roots.flatMap fun root => ((Crawl.found d' root).filter fun p => !d.has p).map some

/-- An added file that a crawl comes to, but cannot ask for. -/
structure Stuck (d d' : Disk) (roots : List Path) (e : PathError) : Prop where
  added : d.has e.path = false
  refused : d'.open? e.path = .error e.error
  reached : ∃ root ∈ roots, d'.contains root = .ok true ∧ ∃ t names,
    d'.at? (d'.resolve root) = some t ∧ Crawl.Reached d' (d'.resolve root) t names ∧
      e.path = (d'.resolve root).into names

section Roots

variable {d d' : Disk} (grown : d.Grown d') (tidy : d'.Tidy) {roots' : List Path}
  (there : ∀ root ∈ roots', root.Resolved ∧ d'.has root = true)

include grown tidy there

theorem stop?_grown : stop? d (roots'.filter d.has) =
    ((roots'.flatMap (Crawl.steps d')).filter fun s => d.has s.path).findSome?
      Crawl.Step.failure? := by
  rw [stop?, List.filter_flatMap,
    flatMap_kept fun root listed => steps_grown grown tidy (there root listed)]

theorem stop?_before (ended : stop? d' roots' = none) : stop? d (roots'.filter d.has) = none := by
  rw [stop?_grown grown tidy there]
  exact List.findSome?_eq_none_iff.2 fun s noted =>
    List.findSome?_eq_none_iff.1 ended s (List.mem_of_mem_filter noted)

theorem shows_ofRoots (ended : stop? d' roots' = none) (mode : Mode) (log log' : List LogLine) :
    Shows d d' (ofRoots d' roots' mode log') (ofRoots d (roots'.filter d.has) mode log).lines
      (ofRoots d (roots'.filter d.has) mode log).registry
      (ofRoots d (roots'.filter d.has) mode log).diagnostics := by
  have ends := stop?_eq_none.1 ended
  have units := flatMap_kept fun root listed =>
    units_grown grown tidy (there root listed) (ends root listed)
  obtain ⟨lines, registry, later, events, before, after⟩ := ofRoots_congr units mode log log'
    fun root kept u among => by
      obtain ⟨listed, old⟩ := List.mem_filter.1 kept
      have here : root.Resolved ∧ d.has root = true := ⟨(there root listed).1, old⟩
      have ended' := ended_before grown tidy (there root listed) (ends root listed) old
      obtain ⟨p, found, loaded⟩ := (mem_units_loadRoot (grown.tidy_before tidy) here ended').1 among
      obtain ⟨resolved, has⟩ := has_of_found (grown.tidy_before tidy) here ended' found
      rw [SourceUnit.path_of_load loaded]
      exact key_filter (fun root listed => (there root listed).1) resolved has
  have notAdded : ∀ x ∈ later, isAdded d x = false := by
    intro x reported
    simp [isAdded, events x reported]
  have stays : (later.filter fun x => !isAdded d x) = later :=
    List.filter_eq_self.2 fun x reported => by simp [notAdded x reported]
  have goes : later.filter (isAdded d) = [] :=
    List.filter_eq_nil_iff.2 fun x reported => by simp [notAdded x reported]
  refine ⟨lines, registry, ?_, ?_⟩
  · rw [after, before, List.filter_append, List.filter_flatMap, stays]
    rw [flatMap_kept fun root listed =>
      reports_grown grown tidy (there root listed) (ends root listed)]
  · rw [after, List.filter_append, List.filter_flatMap, goes, List.append_nil, List.map_flatMap,
      List.flatMap_def]
    exact congrArg List.flatten (List.map_congr_left fun root listed =>
      added_grown grown tidy (there root listed) (ends root listed))

end Roots

section Stuck

variable {d d' : Disk} (tidy : d'.Tidy) {roots : List Path}
  (looked : (keepRoots d' [] roots).failed = none)

include tidy looked

theorem stuck_of_failure {s : Crawl.Step} {e : PathError}
    (noted : s ∈ (keepRoots d' [] roots).kept.flatMap (Crawl.steps d'))
    (new : d.has s.path = false) (failed : s.failure? = some e) : Stuck d d' roots e := by
  obtain ⟨q, kept, noted⟩ := List.mem_flatMap.1 noted
  obtain ⟨root, listed, there, rfl⟩ := exists_of_kept looked kept
  obtain ⟨resolved, has⟩ := resolved_of_kept tidy.workDir looked _ kept
  obtain ⟨t, lies⟩ := Option.isSome_iff_exists.1 has
  obtain ⟨names, reached, step⟩ := (Crawl.mem_steps tidy resolved lies s).1 noted
  cases s <;> cases failed
  obtain ⟨refused, path⟩ := Crawl.Step.of?_eq_failed.1 step
  exact ⟨new, path ▸ refused, root, listed, there, t, names, lies, reached, path⟩

theorem stop?_of_stuck {e : PathError} (stuck : Stuck d d' roots e) :
    ∃ e', stop? d' (keepRoots d' [] roots).kept = some e' := by
  obtain ⟨root, listed, there, t, names, lies, reached, path⟩ := stuck.reached
  have kept : d'.resolve root ∈ (keepRoots d' [] roots).kept :=
    ((keepRoots_kept List.nodup_nil looked).2 _).2 (.inr ⟨root, listed, there, rfl⟩)
  have noted : .failed e ∈ Crawl.steps d' (d'.resolve root) := by
    refine (Crawl.mem_steps tidy (Disk.resolved_resolve tidy.workDir root) lies _).2
      ⟨names, reached, Crawl.Step.of?_eq_failed.2 ⟨?_, path⟩⟩
    rw [← path]
    exact stuck.refused
  cases stopped : stop? d' (keepRoots d' [] roots).kept with
  | some e' => exact ⟨e', rfl⟩
  | none => cases List.findSome?_eq_none_iff.1 (stop?_eq_none.1 stopped _ kept) _ noted

end Stuck

/-- Files that cannot be parsed add a report for each crawl that comes to them and change nothing
else, unless a crawl comes to one of them that it cannot ask for: then there is no run. -/
theorem faulty_files_invisible (d d' : Disk) (grown : d.Grown d') (tidy : d'.Tidy)
    (roots : List Path) (mode : Mode) :
    ((¬∃ e, Stuck d d' roots e) →
      (∀ e, collect d roots mode = .error (.unreachable e) →
        collect d' roots mode = .error (.unreachable e)) ∧
      (∀ r, collect d roots mode = .ok r →
        ∃ r', collect d' roots mode = .ok r' ∧ Shows d d' r' r.lines r.registry r.diagnostics) ∧
      (collect d roots mode = .error .noRoot → collect d' roots mode = .error .noRoot ∨
        ∃ r', collect d' roots mode = .ok r' ∧ Shows d d' r' [] {} [])) ∧
    ((∃ e, Stuck d d' roots e) → ∃ e, collect d' roots mode = .error (.unreachable e) ∧
      (Stuck d d' roots e ∨ collect d roots mode = .error (.unreachable e))) := by
  obtain ⟨failed, kept⟩ := keepRoots_grown grown tidy List.filter_nil roots
  rw [collect_eq (grown.tidy_before tidy), collect_eq tidy, ← failed, ← kept]
  cases looked : (keepRoots d' [] roots).failed with
  | some e =>
    refine ⟨fun _ => ⟨fun _ same => same, fun r ran => ?_, fun ran => ?_⟩,
      fun _ => ⟨e, rfl, .inr rfl⟩⟩
    · cases ran
    · cases ran
  | none =>
    have there := resolved_of_kept tidy.workDir looked
    dsimp only
    generalize logged : (keepRoots d [] roots).log = log
    cases stopped : stop? d' (keepRoots d' [] roots).kept with
    | some e =>
      have cause : Stuck d d' roots e ∨
          stop? d ((keepRoots d' [] roots).kept.filter d.has) = some e := by
        rw [stop?_grown grown tidy there]
        rcases findSome?_filter (fun s => d.has s.path) stopped with old | ⟨s, step, new, failed⟩
        · exact .inr old
        · exact .inl (stuck_of_failure tidy looked step new failed)
      rw [overRoots_eq_unreachable.2 stopped]
      refine ⟨fun free => ?_, fun _ => ⟨e, rfl, cause.imp_right overRoots_eq_unreachable.2⟩⟩
      rw [overRoots_eq_unreachable.2 (cause.resolve_left fun stuck => free ⟨e, stuck⟩)]
      refine ⟨fun _ same => same, fun r ran => ?_, fun ran => ?_⟩
      · cases ran
      · cases ran
    | none =>
      have ended := stop?_before grown tidy there stopped
      have shows := shows_ofRoots grown tidy there stopped mode log (keepRoots d' [] roots).log
      refine ⟨fun _ => ⟨fun e ran => ?_, fun r ran => ?_, fun ran => ?_⟩, fun stuck => ?_⟩
      · cases ended.symm.trans (overRoots_eq_unreachable.1 ran)
      · obtain ⟨given, -, rfl⟩ := overRoots_eq_ok.1 ran
        refine ⟨_, overRoots_eq_ok.2 ⟨fun noRoot => given ?_, stopped, rfl⟩, shows⟩
        rw [noRoot, List.filter_nil]
      · rw [overRoots_eq_noRoot.1 ran] at shows
        by_cases noRoot : (keepRoots d' [] roots).kept = []
        · exact .inl (overRoots_eq_noRoot.2 noRoot)
        · exact .inr ⟨_, overRoots_eq_ok.2 ⟨noRoot, stopped, rfl⟩, shows⟩
      · obtain ⟨e, stuck⟩ := stuck
        obtain ⟨e', stops⟩ := stop?_of_stuck tidy looked stuck
        cases stopped.symm.trans stops

-- One file is not UTF-8, and the tree of the other is an error.
def notText : SourceFile where
  bytes := ⟨#[0xff]⟩
  listing := none

def notParsed : SourceFile where
  bytes := ByteArray.empty
  listing := some "ERROR 0 0"

theorem faulty_notText : notText.Faulty := .inl (by decide +kernel)

theorem faulty_notParsed : notParsed.Faulty := by
  refine .inr ((Option.any_eq_true _ _).1 ?_)
  decide +kernel

-- The file `/a/X.java`, and a faulty file on either side of it.
def before : Disk where
  workDir := ⟨.root, []⟩
  entries := [.dir "a" [.file "X.java" .empty]]

def after : Disk where
  workDir := ⟨.root, []⟩
  entries :=
    [.dir "a" [.file "A.java" notParsed, .file "X.java" .empty, .file "Y.java" notText]]

theorem grown_after : before.Grown after :=
  ⟨rfl, .dir (.added (fun _ => faulty_notParsed)
    (.leaf rfl (.added (fun _ => faulty_notText) .nil))) .nil⟩

theorem tidy_after : after.Tidy := by
  refine ⟨rfl, .dir (by decide) (by decide) (List.forall_mem_singleton.2 ?_)⟩
  refine .dir (by decide) (by decide) fun t listed => ?_
  simp only [List.mem_cons, List.not_mem_nil, or_false] at listed
  rcases listed with rfl | rfl | rfl <;> exact .file

theorem steps_after :
    Crawl.steps after ⟨.root, ["a"]⟩ =
      [.file ⟨.root, ["a", "A.java"]⟩, .file ⟨.root, ["a", "X.java"]⟩,
        .file ⟨.root, ["a", "Y.java"]⟩] := by
  change Crawl.inNameOrder (Crawl.stepsByName _ _ _ _) = _
  rw [Crawl.inNameOrder, List.mergeSort_of_pairwise (by decide +kernel)]
  decide +kernel

theorem faulty_files_invisible_after :
    before.Grown after ∧ after.Tidy ∧ (¬∃ e, Stuck before after [⟨.here, ["a"]⟩] e) ∧
      ∃ r r', collect before [⟨.here, ["a"]⟩] .dependencies = .ok r ∧
        collect after [⟨.here, ["a"]⟩] .dependencies = .ok r' ∧ r'.lines = r.lines ∧
        r'.registry = r.registry ∧
        (r'.diagnostics.filter fun x => !isAdded before x) = r.diagnostics ∧
        (r'.diagnostics.filter (isAdded before)).map (·.path) =
          [some ⟨.root, ["a", "A.java"]⟩, some ⟨.root, ["a", "Y.java"]⟩] := by
  have ended : stop? after [⟨.root, ["a"]⟩] = none := by
    rw [stop?, List.flatMap_singleton, steps_after]
    rfl
  have free : ¬∃ e, Stuck before after [⟨.here, ["a"]⟩] e := by
    rintro ⟨e, stuck⟩
    obtain ⟨e', stopped⟩ := stop?_of_stuck tidy_after rfl stuck
    cases ended.symm.trans stopped
  have ran : collect before [⟨.here, ["a"]⟩] .dependencies =
      .ok (ofRoots before [⟨.root, ["a"]⟩] .dependencies []) :=
    (collect_eq_ok (grown_after.tidy_before tidy_after)).2
      ⟨rfl, List.cons_ne_nil _ _, by decide +kernel, rfl⟩
  obtain ⟨r', ran', shows⟩ := ((faulty_files_invisible before after grown_after tidy_after
    [⟨.here, ["a"]⟩] .dependencies).1 free).2.1 _ ran
  obtain ⟨-, -, -, rfl⟩ := (collect_eq_ok tidy_after).1 ran'
  refine ⟨grown_after, tidy_after, free, _, _, ran, ran', shows.lines, shows.registry,
    shows.diagnostics, shows.added.trans ?_⟩
  have found : Crawl.found after ⟨.root, ["a"]⟩ =
      [⟨.root, ["a", "A.java"]⟩, ⟨.root, ["a", "X.java"]⟩, ⟨.root, ["a", "Y.java"]⟩] := by
    rw [Crawl.found_eq tidy_after (by decide) rfl (by rw [steps_after]; rfl), steps_after]
    rfl
  show List.flatMap _ [(⟨.root, ["a"]⟩ : Path)] = _
  rw [List.flatMap_singleton, found]
  decide +kernel

theorem keepRoots_deepDir {entries : List FileTree} (tidy : (Crawl.deepDisk entries).Tidy) :
    keepRoots (Crawl.deepDisk entries) [] [Crawl.deepDir] = { kept := [Crawl.deepDir] } := by
  obtain ⟨name, opened⟩ := Crawl.open?_deepDir tidy
  have there : (Crawl.deepDisk entries).contains Crawl.deepDir = .ok true := by
    rw [Disk.contains, opened]
  rw [keepRoots, there, Disk.resolve_eq _ Crawl.resolved_deepDir]
  rfl

-- A file that is not UTF-8 is added where its path is too long.
theorem faulty_files_invisible_longName :
    (Crawl.deepDisk []).Grown (Crawl.deepDisk [.file Crawl.longName notText]) ∧
      (Crawl.deepDisk [.file Crawl.longName notText]).Tidy ∧
      (∃ r, collect (Crawl.deepDisk []) [Crawl.deepDir] .dependencies = .ok r) ∧
      collect (Crawl.deepDisk [.file Crawl.longName notText]) [Crawl.deepDir] .dependencies =
        .error (.unreachable ⟨.nameTooLong, Crawl.deepDir.push Crawl.longName⟩) := by
  have grown : (Crawl.deepDisk []).Grown (Crawl.deepDisk [.file Crawl.longName notText]) :=
    ⟨rfl, FileTree.grown_nest (.added (fun _ => faulty_notText) .nil) _⟩
  have tidy := Crawl.tidy_deepDisk (Crawl.tidy_longName notText)
  have tidyBefore := grown.tidy_before tidy
  have empty : Crawl.steps (Crawl.deepDisk []) Crawl.deepDir = [] := by
    obtain ⟨name, opened⟩ := Crawl.open?_deepDir tidyBefore
    rw [Crawl.steps, opened]
    simp [Crawl.stepsAt_dir, Crawl.inNameOrder]
  refine ⟨grown, tidy, ?_, ?_⟩
  · rw [collect_eq tidyBefore, keepRoots_deepDir tidyBefore]
    refine ⟨_, overRoots_eq_ok.2 ⟨List.cons_ne_nil _ _, ?_, rfl⟩⟩
    rw [stop?, List.flatMap_singleton, empty]
    rfl
  · rw [collect_eq tidy, keepRoots_deepDir tidy]
    refine overRoots_eq_unreachable.2 ?_
    rw [stop?, List.flatMap_singleton, Crawl.steps_longName]
    rfl

end Run

end RefGraph

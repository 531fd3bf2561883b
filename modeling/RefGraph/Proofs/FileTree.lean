import RefGraph.FileTree

set_option autoImplicit false

namespace RefGraph

theorem Text.le_iff {s t : String} : (decide (s < t) || s == t) = true ↔ s ≤ t := by
  rw [Bool.or_eq_true, decide_eq_true_iff, beq_iff_eq, Std.le_iff_lt_or_eq]

namespace Path

def into (p : Path) (names : List String) : Path := { p with segments := p.segments ++ names }

@[simp] theorem segments_into (p : Path) (names : List String) :
    (p.into names).segments = p.segments ++ names := rfl

@[simp] theorem into_nil (p : Path) : p.into [] = p := by
  rw [into, List.append_nil]

theorem into_append (p : Path) (names more : List String) :
    (p.into names).into more = p.into (names ++ more) := by
  simp [into]

@[simp] theorem into_push (p : Path) (name : String) (names : List String) :
    (p.push name).into names = p.into (name :: names) := by
  simp [into, push]

def Resolved (p : Path) : Prop := p.anchor = .root ∧ ".." ∉ p.segments

instance (p : Path) : Decidable p.Resolved := inferInstanceAs (Decidable (_ ∧ _))

theorem resolveOnto_plain (absolute : Bool) (done : List String) {segments : List String}
    (plain : ".." ∉ segments) :
    resolveOnto absolute done segments = done.reverse ++ segments := by
  induction segments generalizing done with
  | nil => simp [resolveOnto]
  | cons s ss ih =>
    obtain ⟨here, later⟩ := List.ne_and_not_mem_of_not_mem_cons plain
    rw [resolveOnto, if_neg here.symm, ih _ later]
    simp

theorem stepUp_plain {done : List String} (plain : ".." ∉ done) : stepUp true done = done.tail := by
  cases done with
  | nil => rfl
  | cons s ss => rw [stepUp, if_neg (List.ne_of_not_mem_cons plain).symm, List.tail_cons]

theorem plain_resolveOnto {done : List String} (plain : ".." ∉ done) (segments : List String) :
    ".." ∉ resolveOnto true done segments := by
  induction segments generalizing done with
  | nil => simpa [resolveOnto] using plain
  | cons s ss ih =>
    rw [resolveOnto]
    split
    · exact ih (stepUp_plain plain ▸ fun listed => plain (List.mem_of_mem_tail listed))
    · rename_i onward
      exact ih (List.not_mem_cons_of_ne_of_not_mem (Ne.symm onward) plain)

theorem resolved_resolve {p : Path} (absolute : p.isAbsolute = true) : p.resolve.Resolved := by
  refine ⟨?_, ?_⟩
  · rcases p with ⟨anchor, segments⟩
    cases anchor with
    | here => cases absolute
    | _ => rfl
  · rw [resolve, absolute]
    exact plain_resolveOnto List.not_mem_nil p.segments

theorem isAbsolute_below {dir : Path} (absolute : dir.isAbsolute = true) (p : Path) :
    (dir.below p).isAbsolute = true := by
  rw [below]
  split
  · assumption
  · exact absolute

namespace Resolved

variable {p : Path} (resolved : p.Resolved)

include resolved

theorem isAbsolute : p.isAbsolute = true := by
  rw [Path.isAbsolute, resolved.1]
  rfl

theorem resolve_eq : p.resolve = p := by
  rcases p with ⟨anchor, segments⟩
  obtain rfl : anchor = .root := resolved.1
  rw [resolve, resolveOnto_plain _ _ resolved.2]
  rfl

theorem below_eq (dir : Path) : dir.below p = p := by
  rw [below, if_pos resolved.isAbsolute]

theorem into {names : List String} (plain : ".." ∉ names) : (p.into names).Resolved :=
  ⟨resolved.1, fun listed => (List.mem_append.1 listed).elim resolved.2 plain⟩

theorem push {name : String} (plain : name ≠ "..") : (p.push name).Resolved :=
  into resolved (by simpa using plain.symm)

end Resolved

theorem relativeTo?_eq_some {dir p : Path} (fromRoot : dir.anchor = .root)
    (fromRoot' : p.anchor = .root) {names : List String} :
    dir.relativeTo? p = some names ↔ p = dir.into names := by
  rcases dir with ⟨anchor, segments⟩
  rcases p with ⟨anchor', segments'⟩
  obtain rfl : anchor = .root := fromRoot
  obtain rfl : anchor' = .root := fromRoot'
  simp only [relativeTo?, Path.isAbsolute, true_and, Option.ite_none_right_eq_some,
    Option.some.injEq, Path.into, mk.injEq]
  constructor
  · rintro ⟨⟨names', rfl⟩, rfl⟩
    simp
  · rintro rfl
    simp

theorem hasZero_into (p : Path) (names : List String) (free : (p.into names).hasZero = false) :
    p.hasZero = false := by
  simp only [hasZero, segments_into, List.any_append, Bool.or_eq_false_iff] at free
  exact free.1

theorem size_text_into {p : Path} (fromRoot : p.anchor = .root) (names : List String) :
    p.text.utf8ByteSize ≤ (p.into names).text.utf8ByteSize := by
  have shape {q : Path} (same : q.anchor = .root) : q.text = "/" ++ "/".intercalate q.segments := by
    rw [text, same]
    simp [Anchor.text]
  rw [shape fromRoot, shape (q := p.into names) fromRoot, String.utf8ByteSize_append,
    String.utf8ByteSize_append, segments_into]
  refine Nat.add_le_add_left ?_ _
  by_cases start : p.segments = []
  · simp [start]
  · by_cases stop : names = []
    · simp [stop]
    · rw [String.intercalate_append_of_ne_nil start stop, String.utf8ByteSize_append,
        String.utf8ByteSize_append]
      omega

theorem check_eq_ok {p : Path} : p.check = .ok () ↔ p.hasZero = false ∧
    p.text.utf8ByteSize ≤ pathLimit := by
  rw [check]
  by_cases zero : p.hasZero
  · simp [zero]
  · by_cases long : p.text.utf8ByteSize > pathLimit
    · simp [zero, long]
    · simp [zero, long, Nat.le_of_not_gt long]

theorem check_of_into {p : Path} (fromRoot : p.anchor = .root) {names : List String}
    (asked : (p.into names).check = .ok ()) : p.check = .ok () := by
  rw [check_eq_ok] at asked ⊢
  exact ⟨hasZero_into p names asked.1, Nat.le_trans (size_text_into fromRoot names) asked.2⟩

end Path

namespace FileTree

def at? (t : FileTree) : List String → Option FileTree
  | [] => some t
  | s :: ss =>
    match t with
    | .dir _ entries _ => (entries.find? (·.name == s)).bind fun u => u.at? ss
    | _ => none

/-- Whether all directories on the way to what has the given names allow something. -/
def allows (t : FileTree) (may : Access → Bool) : List String → Bool
  | [] => true
  | s :: ss =>
    match t with
    | .dir _ entries access =>
      may access && (entries.find? (·.name == s)).all fun u => u.allows may ss
    | _ => true

@[simp] theorem at?_nil (t : FileTree) : t.at? [] = some t := by
  rw [at?]

@[simp] theorem at?_file (name : String) (content : SourceFile) (readable : Bool) (s : String)
    (ss : List String) : (file name content readable).at? (s :: ss) = none := by
  simp [at?]

@[simp] theorem at?_socket (name s : String) (ss : List String) :
    (socket name).at? (s :: ss) = none := by
  simp [at?]

@[simp] theorem at?_dir (name : String) (entries : List FileTree) (access : Access) (s : String)
    (ss : List String) :
    (dir name entries access).at? (s :: ss) =
      (entries.find? (·.name == s)).bind fun u => u.at? ss := by
  rw [at?]

@[simp] theorem allows_nil (t : FileTree) (may : Access → Bool) : t.allows may [] = true := by
  rw [allows]

@[simp] theorem allows_dir (name : String) (entries : List FileTree) (access : Access)
    (may : Access → Bool) (s : String) (ss : List String) :
    (dir name entries access).allows may (s :: ss) =
      (may access && (entries.find? (·.name == s)).all fun u => u.allows may ss) := by
  rw [allows]

theorem at?_append (t : FileTree) (ss more : List String) :
    t.at? (ss ++ more) = (t.at? ss).bind (·.at? more) := by
  induction ss generalizing t with
  | nil => rfl
  | cons s ss ih =>
    cases t with
    | dir name entries access => cases found : entries.find? (·.name == s) <;> simp [found, ih]
    | _ => rfl

theorem allows_append {t u : FileTree} {may : Access → Bool} {ss : List String}
    (found : t.at? ss = some u) (more : List String) :
    t.allows may (ss ++ more) = (t.allows may ss && u.allows may more) := by
  induction ss generalizing t with
  | nil =>
    obtain rfl := Option.some.inj found
    simp
  | cons s ss ih =>
    cases t with
    | dir name entries access =>
      rw [at?_dir, Option.bind_eq_some_iff] at found
      obtain ⟨v, here, later⟩ := found
      simp [here, ih later, Bool.and_assoc]
    | _ => cases found

def properName (s : String) : Bool := s != ".." && !s.toList.contains '\x00'

/-- The names in each directory differ, and each is one that file systems take. -/
inductive Tidy : FileTree → Prop
  | file {name : String} {content : SourceFile} {readable : Bool} :
    Tidy (.file name content readable)
  | dir {name : String} {entries : List FileTree} {access : Access}
      (distinct : (entries.map FileTree.name).Nodup)
      (proper : ∀ t ∈ entries, properName t.name = true) (each : ∀ t ∈ entries, Tidy t) :
      Tidy (.dir name entries access)
  | socket {name : String} : Tidy (.socket name)

theorem ne_of_properName {s : String} (proper : properName s = true) : s ≠ ".." := by
  rw [properName, Bool.and_eq_true, bne_iff_ne] at proper
  exact proper.1

theorem find?_of_mem {entries : List FileTree} (distinct : (entries.map FileTree.name).Nodup)
    {t : FileTree} (listed : t ∈ entries) : entries.find? (·.name == t.name) = some t := by
  induction entries with
  | nil => cases listed
  | cons u us ih =>
    rw [List.map_cons, List.nodup_cons] at distinct
    rcases List.mem_cons.1 listed with rfl | later
    · simp
    · have other : u.name ≠ t.name := fun same => distinct.1 (same ▸ List.mem_map_of_mem later)
      rw [List.find?_cons_of_neg (by simpa using other), ih distinct.2 later]

theorem mem_of_find? {entries : List FileTree} {s : String} {t : FileTree}
    (found : entries.find? (·.name == s) = some t) : t ∈ entries ∧ t.name = s :=
  ⟨List.mem_of_find?_eq_some found, by simpa using List.find?_some found⟩

theorem Tidy.proper_at? {t u : FileTree} (tidy : t.Tidy) {ss : List String}
    (found : t.at? ss = some u) : ∀ s ∈ ss, properName s = true := by
  induction ss generalizing t with
  | nil => simp
  | cons s ss ih =>
    cases tidy with
    | dir distinct proper each =>
      rw [at?_dir, Option.bind_eq_some_iff] at found
      obtain ⟨v, here, later⟩ := found
      obtain ⟨listed, rfl⟩ := mem_of_find? here
      exact List.forall_mem_cons.2 ⟨proper v listed, ih (each v listed) later⟩
    | _ => cases found

theorem Tidy.plain_at? {t u : FileTree} (tidy : t.Tidy) {ss : List String}
    (found : t.at? ss = some u) : ".." ∉ ss :=
  fun listed => ne_of_properName (tidy.proper_at? found _ listed) rfl

theorem Tidy.at? {t u : FileTree} (tidy : t.Tidy) {ss : List String} (found : t.at? ss = some u) :
    u.Tidy := by
  induction ss generalizing t with
  | nil => exact Option.some.inj found ▸ tidy
  | cons s ss ih =>
    cases tidy with
    | dir distinct proper each =>
      rw [at?_dir, Option.bind_eq_some_iff] at found
      obtain ⟨v, here, later⟩ := found
      exact ih (each v (mem_of_find? here).1) later
    | _ => cases found

theorem go_enter (through : List FileTree) (name : String) (entries : List FileTree)
    (access : Access) {s : String} (onward : s ≠ "..") (ss : List String) :
    go through (dir name entries access) (s :: ss) =
      if !access.enter then .error .permissionDenied
      else if s.utf8ByteSize > nameLimit then .error .nameTooLong
      else (entries.find? (·.name == s)).elim (.error .notFound)
        fun t => go (dir name entries access :: through) t ss := by
  simp only [go, if_neg onward]
  cases entries.find? (·.name == s) <;> rfl

theorem go_enter_eq_ok {through : List FileTree} {name : String} {entries : List FileTree}
    {access : Access} {s : String} (onward : s ≠ "..") {ss : List String} {t : FileTree} :
    go through (dir name entries access) (s :: ss) = .ok t ↔
      access.enter = true ∧ s.utf8ByteSize ≤ nameLimit ∧
        ∃ u, entries.find? (·.name == s) = some u ∧
          go (dir name entries access :: through) u ss = .ok t := by
  rw [go_enter _ _ _ _ onward]
  cases enters : access.enter with
  | false => simp
  | true =>
    by_cases long : s.utf8ByteSize > nameLimit
    · simp [long, Nat.not_le.2 long]
    · cases entries.find? (·.name == s) <;> simp [long, Nat.le_of_not_gt long]

-- Where no step goes back, the directories that were gone through do not matter.
theorem go_eq_ok {ss : List String} (plain : ".." ∉ ss) (through : List FileTree)
    {here t : FileTree} :
    go through here ss = .ok t ↔ here.at? ss = some t ∧ here.allows Access.enter ss = true ∧
      ∀ s ∈ ss, s.utf8ByteSize ≤ nameLimit := by
  induction ss generalizing through here with
  | nil => simp [go]
  | cons s ss ih =>
    obtain ⟨onward, later⟩ := List.ne_and_not_mem_of_not_mem_cons plain
    cases here with
    | file | socket => simp [go]
    | dir name entries access =>
      rw [go_enter_eq_ok onward.symm, at?_dir, allows_dir]
      cases found : entries.find? (·.name == s) with
      | none => simp
      | some u => simp [ih later, and_left_comm, and_assoc]

-- What is there can only be kept from one.
theorem go_of_at? {ss : List String} (plain : ".." ∉ ss) (through : List FileTree)
    {here t : FileTree} (found : here.at? ss = some t) :
    go through here ss = .ok t ∨ ∃ e, go through here ss = .error e ∧ e.isSilent = false := by
  induction ss generalizing through here with
  | nil =>
    obtain rfl := Option.some.inj found
    exact .inl rfl
  | cons s ss ih =>
    obtain ⟨onward, later⟩ := List.ne_and_not_mem_of_not_mem_cons plain
    cases here with
    | file | socket => cases found
    | dir name entries access =>
      rw [at?_dir, Option.bind_eq_some_iff] at found
      obtain ⟨u, here, below⟩ := found
      rw [go_enter _ _ _ _ onward.symm]
      split
      · exact .inr ⟨_, rfl, rfl⟩
      · split
        · exact .inr ⟨_, rfl, rfl⟩
        · simp only [here]
          exact ih later _ below

theorem go_append {xs : List String} (plain : ".." ∉ xs) {through : List FileTree}
    {here t : FileTree} (found : go through here xs = .ok t) :
    ∃ through', ∀ ys, go through here (xs ++ ys) = go through' t ys := by
  induction xs generalizing through here with
  | nil =>
    obtain rfl := Except.ok.inj found
    exact ⟨through, fun _ => rfl⟩
  | cons s ss ih =>
    obtain ⟨onward, later⟩ := List.ne_and_not_mem_of_not_mem_cons plain
    cases here with
    | file | socket => cases found
    | dir name entries access =>
      obtain ⟨enters, short, u, here, found⟩ := (go_enter_eq_ok onward.symm).1 found
      obtain ⟨through', same⟩ := ih later found
      refine ⟨through', fun ys => ?_⟩
      rw [List.cons_append, go_enter _ _ _ _ onward.symm, if_neg (by simp [enters]),
        if_neg (Nat.not_lt.2 short), here]
      exact same ys

inductive Walked (root : FileTree) : List String → List FileTree → FileTree → Prop
  | start : Walked root [] [] root
  | enter {done : List String} {through : List FileTree} {name : String} {entries : List FileTree}
      {access : Access} {s : String} {t : FileTree}
      (walked : Walked root done through (.dir name entries access)) (enters : access.enter = true)
      (plain : s ≠ "..") (short : s.utf8ByteSize ≤ nameLimit)
      (found : entries.find? (·.name == s) = some t) :
      Walked root (s :: done) (.dir name entries access :: through) t

namespace Walked

variable {root here : FileTree} {done : List String} {through : List FileTree}

theorem plain (walked : Walked root done through here) : ".." ∉ done := by
  induction walked with
  | start => exact List.not_mem_nil
  | enter _ _ plain _ _ ih => exact List.not_mem_cons_of_ne_of_not_mem plain.symm ih

theorem short (walked : Walked root done through here) :
    ∀ s ∈ done, s.utf8ByteSize ≤ nameLimit := by
  induction walked with
  | start => simp
  | enter _ _ _ short _ ih => exact List.forall_mem_cons.2 ⟨short, ih⟩

theorem at?_reverse (walked : Walked root done through here) :
    root.at? done.reverse = some here := by
  induction walked with
  | start => rfl
  | enter _ _ _ _ found ih => simp [at?_append, ih, found]

theorem enters_reverse (walked : Walked root done through here) :
    root.allows Access.enter done.reverse = true := by
  induction walked with
  | start => simp
  | enter walked enters _ _ found ih =>
    rw [List.reverse_cons, allows_append walked.at?_reverse, ih]
    simp [enters, found]

end Walked

-- The walk so far is the resolved path so far: a step back leaves the last directory entered.
theorem go_resolveOnto {root here t : FileTree} {done : List String} {through : List FileTree}
    (walked : Walked root done through here) (ss : List String)
    (found : go through here ss = .ok t) :
    go [] root (Path.resolveOnto true done ss) = .ok t := by
  induction ss generalizing done through here with
  | nil =>
    obtain rfl := Except.ok.inj found
    have plain : ".." ∉ done.reverse := fun listed => walked.plain (List.mem_reverse.1 listed)
    rw [Path.resolveOnto, go_eq_ok plain]
    exact ⟨walked.at?_reverse, walked.enters_reverse,
      fun s listed => walked.short s (List.mem_reverse.1 listed)⟩
  | cons s ss ih =>
    cases here with
    | file | socket => cases found
    | dir name entries access =>
      rw [Path.resolveOnto]
      by_cases onward : s = ".."
      · rw [if_pos onward, Path.stepUp_plain walked.plain]
        subst onward
        simp only [go] at found
        split at found
        · cases found
        · cases walked with
          | start => exact ih .start found
          | enter walked _ _ _ _ => exact ih walked found
      · obtain ⟨enters, short, u, here, found⟩ := (go_enter_eq_ok onward).1 found
        rw [if_neg onward]
        exact ih (.enter walked enters onward short here) found

end FileTree

namespace Disk

structure Tidy (d : Disk) : Prop where
  workDir : d.workDir.isAbsolute = true
  root : d.root.Tidy

def at? (d : Disk) (p : Path) : Option FileTree := d.root.at? p.segments

def has (d : Disk) (p : Path) : Bool := (d.at? p).isSome

theorem isAbsolute_absolute {d : Disk} (absolute : d.workDir.isAbsolute = true) (p : Path) :
    (d.absolute p).isAbsolute = true :=
  Path.isAbsolute_below absolute p

theorem resolved_resolve {d : Disk} (absolute : d.workDir.isAbsolute = true) (p : Path) :
    (d.resolve p).Resolved :=
  Path.resolved_resolve (isAbsolute_absolute absolute p)

theorem resolve_eq (d : Disk) {p : Path} (resolved : p.Resolved) : d.resolve p = p := by
  rw [resolve, absolute, resolved.below_eq, resolved.resolve_eq]

theorem open?_eq (d : Disk) {p : Path} (resolved : p.Resolved) :
    d.open? p = (p.check).bind fun _ => FileTree.go [] d.root p.segments := by
  rw [open?, absolute, resolved.below_eq]
  rfl

theorem open?_eq_ok (d : Disk) {p : Path} (resolved : p.Resolved) {t : FileTree} :
    d.open? p = .ok t ↔ p.check = .ok () ∧ d.at? p = some t ∧
      d.root.allows Access.enter p.segments = true ∧
        ∀ s ∈ p.segments, s.utf8ByteSize ≤ nameLimit := by
  rw [d.open?_eq resolved, at?, ← FileTree.go_eq_ok resolved.2 []]
  cases p.check <;> simp [Except.bind]

theorem check_of_open? {d : Disk} {p : Path} {t : FileTree} (opened : d.open? p = .ok t) :
    p.check = .ok () ∧ FileTree.go [] d.root (d.absolute p).segments = .ok t := by
  rw [open?] at opened
  cases asked : p.check with
  | error e =>
    rw [asked] at opened
    cases opened
  | ok _ =>
    rw [asked] at opened
    exact ⟨rfl, opened⟩

theorem at?_resolve {d : Disk} (absolute : d.workDir.isAbsolute = true) {p : Path} {t : FileTree}
    (opened : d.open? p = .ok t) : d.at? (d.resolve p) = some t := by
  have resolved := FileTree.go_resolveOnto .start _ (check_of_open? opened).2
  rw [← isAbsolute_absolute absolute p] at resolved
  exact ((FileTree.go_eq_ok (resolved_resolve absolute p).2 []).1 resolved).1

theorem Tidy.hasZero {d : Disk} (tidy : d.Tidy) {p : Path} {t : FileTree}
    (found : d.at? p = some t) :
    p.hasZero = false := by
  refine List.any_eq_false.2 fun s listed => ?_
  have proper := tidy.root.proper_at? found s listed
  rw [FileTree.properName, Bool.and_eq_true, Bool.not_eq_true'] at proper
  exact Bool.eq_false_iff.1 proper.2

theorem Tidy.open?_of_at? {d : Disk} (tidy : d.Tidy) {p : Path} (resolved : p.Resolved)
    {t : FileTree} (found : d.at? p = some t) :
    d.open? p = .ok t ∨ ∃ e, d.open? p = .error e ∧ e.isSilent = false := by
  rw [d.open?_eq resolved, Path.check, if_neg (by simp [tidy.hasZero found])]
  split
  · exact .inr ⟨_, rfl, rfl⟩
  · exact FileTree.go_of_at? resolved.2 [] found

theorem at?_into {d : Disk} {p : Path} {t : FileTree} (found : d.at? p = some t)
    (names : List String) : d.at? (p.into names) = t.at? names := by
  rw [at?] at found
  rw [at?, Path.segments_into, FileTree.at?_append, found, Option.bind_some]

-- Whoever opens a place can open all that is on the way.
theorem exists_open?_of_into {d : Disk} {p : Path} (resolved : p.Resolved) {names : List String}
    (plain : ".." ∉ names) {u : FileTree} (opened : d.open? (p.into names) = .ok u) :
    ∃ t, d.open? p = .ok t ∧ t.at? names = some u := by
  obtain ⟨asked, lies, enters, short⟩ := (d.open?_eq_ok (resolved.into plain)).1 opened
  rw [at?, Path.segments_into, FileTree.at?_append, Option.bind_eq_some_iff] at lies
  obtain ⟨t, start, below⟩ := lies
  rw [Path.segments_into, FileTree.allows_append start, Bool.and_eq_true] at enters
  refine ⟨t, (d.open?_eq_ok resolved).2 ⟨Path.check_of_into resolved.1 asked, start, enters.1, ?_⟩,
    below⟩
  exact fun s listed => short s (List.mem_append_left _ listed)

end Disk

end RefGraph

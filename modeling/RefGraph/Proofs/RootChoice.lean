import RefGraph.Proofs.UnitKey

set_option autoImplicit false

namespace RefGraph

namespace Path

/-- Where a piece between slashes leads: an empty one and a dot stay, two dots go back, which at the
root does nothing. -/
def follow (place : List String) (piece : String) : List String :=
  if piece = "" ∨ piece = "." then place
  else if piece = ".." then place.dropLast
  else place ++ [piece]

def placeOf (start : List String) (s : String) : List String :=
  (Text.split '/' s).foldl follow (if s.toList.head? = some '/' then [] else start)

theorem resolveOnto_append (absolute : Bool) (done ss more : List String) :
    resolveOnto absolute done (ss ++ more) = resolveOnto absolute
      (resolveOnto absolute done ss).reverse more := by
  induction ss generalizing done with
  | nil => simp [resolveOnto]
  | cons s ss ih =>
    rw [List.cons_append, resolveOnto, resolveOnto]
    split
    · exact ih _
    · exact ih _

-- The segments so far are kept backwards, and no step back is among them.
theorem resolveOnto_pieces {done : List String} (plain : ".." ∉ done) (pieces : List String) :
    resolveOnto true done (pieces.filter fun x => x != "" && x != ".") =
      pieces.foldl follow done.reverse := by
  induction pieces generalizing done with
  | nil => rfl
  | cons piece pieces ih =>
    rw [List.foldl_cons, follow]
    by_cases stays : piece = "" ∨ piece = "."
    · rw [if_pos stays, List.filter_cons_of_neg (by grind), ih plain]
    · rw [if_neg stays, List.filter_cons_of_pos (by grind), resolveOnto]
      by_cases back : piece = ".."
      · have kept : ".." ∉ done.tail := fun listed => plain (List.mem_of_mem_tail listed)
        rw [if_pos back, if_pos back, stepUp_plain plain, ih kept, ← List.dropLast_reverse]
      · rw [if_neg back, if_neg back, ih (List.not_mem_cons_of_ne_of_not_mem (Ne.symm back) plain),
          List.reverse_cons]

theorem isAbsolute_ofString (s : String) : (ofString s).isAbsolute = true ↔
    s.toList.head? = some '/' := by
  cases chars : s.toList with
  | nil => simp [isAbsolute, ofString, chars, Anchor.isAbsolute, Anchor.ofSlashes]
  | cons c cs =>
    by_cases slash : c = '/'
    · have anchored (n : Nat) : Anchor.ofSlashes (n + 1) ≠ .here := by
        rcases n with - | - | n <;> exact Anchor.noConfusion
      simpa [isAbsolute, ofString, chars, Anchor.isAbsolute, slash] using anchored _
    · simp [isAbsolute, ofString, chars, Anchor.isAbsolute, slash, Anchor.ofSlashes]

theorem segments_resolve {p : Path} (absolute : p.isAbsolute = true) :
    p.resolve.segments = resolveOnto true [] p.segments := by
  rw [resolve, absolute]

theorem segments_resolve_below {dir : Path} (absolute : dir.isAbsolute = true) (s : String) :
    (dir.below (ofString s)).resolve.segments = placeOf dir.resolve.segments s := by
  rw [segments_resolve (isAbsolute_below absolute _), below, placeOf]
  by_cases slash : s.toList.head? = some '/'
  · rw [if_pos ((isAbsolute_ofString s).2 slash), if_pos slash]
    exact resolveOnto_pieces List.not_mem_nil _
  · rw [if_neg fun absolute' => slash ((isAbsolute_ofString s).1 absolute'), if_neg slash]
    have plain : ".." ∉ dir.resolve.segments.reverse := fun listed =>
      (resolved_resolve absolute).2 (List.mem_reverse.1 listed)
    have onward := resolveOnto_pieces plain (Text.split '/' s)
    rw [List.reverse_reverse, segments_resolve absolute] at onward
    rw [segments_resolve absolute, ← onward]
    exact resolveOnto_append true [] dir.segments _

theorem resolve_below {dir : Path} (absolute : dir.isAbsolute = true) (s : String) :
    (dir.below (ofString s)).resolve = ⟨.root, placeOf dir.resolve.segments s⟩ := by
  rw [← segments_resolve_below absolute,
    ← (resolved_resolve (isAbsolute_below absolute (ofString s))).1]

end Path

namespace UnitKey

theorem ofSegments_ne_empty (segments : List String) : ofSegments segments ≠ "" := by
  intro empty
  have size := congrArg String.length empty
  rw [ofSegments, String.length_append] at size
  exact absurd size (by simp [mark])

/-- Of the places that a place lies at or below, the longest one. -/
def Longest (places : List (List String)) (place root : List String) : Prop :=
  root ∈ places ∧ root <+: place ∧ ∀ other ∈ places, other <+: place → other.length ≤ root.length

instance (places : List (List String)) (place root : List String) :
    Decidable (Longest places place root) :=
  inferInstanceAs (Decidable (_ ∧ _ ∧ _))

theorem Longest.unique {places : List (List String)} {place root other : List String}
    (longest : Longest places place root) (longest' : Longest places place other) :
    other = root := by
  obtain ⟨listed, above, most⟩ := longest
  obtain ⟨listed', above', most'⟩ := longest'
  have length : other.length = root.length :=
    Nat.le_antisymm (most other listed' above') (most' root listed above)
  exact (List.prefix_of_prefix_length_le above' above (Nat.le_of_eq length)).eq_of_length length

theorem ofPath_cases (roots : List Path) (p : Path) :
    (∀ q ∈ sortRoots roots, q.relativeTo? p.resolve = none) ∧ ofPath roots p = "" ∨
      ∃ q ∈ sortRoots roots, ∃ names, q.relativeTo? p.resolve = some names ∧
        (∀ q' ∈ sortRoots roots, (q'.relativeTo? p.resolve).isSome →
          q'.segments.length ≤ q.segments.length) ∧
        ofPath roots p = ofSegments (if names = [] then [p.resolve.name] else names) := by
  cases found : (sortRoots roots).findSome? (·.relativeTo? p.resolve) with
  | none => exact .inl ⟨List.findSome?_eq_none_iff.1 found, by rw [ofPath, found]⟩
  | some names =>
    obtain ⟨q, listed, below, longest⟩ := findSome?_sortRoots.1 found
    refine .inr ⟨q, listed, names, below, longest, ?_⟩
    rw [ofPath, found]
    cases names with
    | nil => rfl
    | cons s ss => rfl

section

variable {dir : Path} (absolute : dir.isAbsolute = true)

include absolute

theorem mem_sortRoots_below {roots : List String} {q : Path} :
    q ∈ sortRoots (roots.map fun root => dir.below (.ofString root)) ↔
      ∃ place ∈ roots.map (Path.placeOf dir.resolve.segments), q = ⟨.root, place⟩ := by
  rw [mem_sortRoots]
  constructor
  · rintro ⟨root, listed, rfl⟩
    obtain ⟨s, written, rfl⟩ := List.mem_map.1 listed
    exact ⟨_, List.mem_map_of_mem written, Path.resolve_below absolute s⟩
  · rintro ⟨place, listed, rfl⟩
    obtain ⟨s, written, rfl⟩ := List.mem_map.1 listed
    exact ⟨_, List.mem_map_of_mem written, Path.resolve_below absolute s⟩

theorem relativeTo?_below {file : String} {root names : List String} :
    (⟨.root, root⟩ : Path).relativeTo? (dir.below (.ofString file)).resolve = some names ↔
      Path.placeOf dir.resolve.segments file = root ++ names := by
  rw [Path.resolve_below absolute, Path.relativeTo?_eq_some rfl rfl, Path.into, Path.mk.injEq]
  exact and_iff_right rfl

theorem isSome_relativeTo?_below {file : String} {root : List String} :
    ((⟨.root, root⟩ : Path).relativeTo? (dir.below (.ofString file)).resolve).isSome ↔
      root <+: Path.placeOf dir.resolve.segments file := by
  rw [Option.isSome_iff_exists]
  exact exists_congr fun names => (relativeTo?_below absolute).trans eq_comm

theorem ofPath_below_cases (roots : List String) (file : String) :
    let place := Path.placeOf dir.resolve.segments
    let key :=
      ofPath (roots.map fun root => dir.below (.ofString root)) (dir.below (.ofString file))
    (∀ root ∈ roots.map place, ¬root <+: place file) ∧ key = "" ∨
      ∃ root names, Longest (roots.map place) (place file) root ∧ place file = root ++ names ∧
        key = ofSegments (if names = [] then [(place file).getLastD ""] else names) := by
  intro place key
  rcases ofPath_cases (roots.map fun root => dir.below (.ofString root))
    (dir.below (.ofString file)) with
    ⟨outside, empty⟩ | ⟨q, listed, names, below, longest, key⟩
  · refine .inl ⟨fun root listed isAbove => ?_, empty⟩
    have found := (isSome_relativeTo?_below absolute).2 isAbove
    rw [outside _ ((mem_sortRoots_below absolute).2 ⟨root, listed, rfl⟩)] at found
    cases found
  · obtain ⟨root, written, rfl⟩ := (mem_sortRoots_below absolute).1 listed
    have split : place file = root ++ names := (relativeTo?_below absolute).1 below
    refine .inr
      ⟨root, names, ⟨written, ⟨names, split.symm⟩, fun other written' isAbove => ?_⟩, split, ?_⟩
    · exact longest ⟨.root, other⟩ ((mem_sortRoots_below absolute).2 ⟨other, written', rfl⟩)
        ((isSome_relativeTo?_below absolute).2 isAbove)
    · rw [Path.resolve_below absolute] at key
      exact key

/-- A key is made of the names below the longest root above the file, and no other roots matter for
it. -/
theorem key_starts_at_longest_root (roots : List String) (file : String) :
    let place := Path.placeOf dir.resolve.segments
    let key (roots : List String) :=
      ofPath (roots.map fun root => dir.below (.ofString root)) (dir.below (.ofString file))
    (key roots ≠ "" ↔ ∃ root ∈ roots, place root <+: place file) ∧
      (key roots ≠ "" → ∃ root names, (∀ other, Longest (roots.map place) (place file) other ↔
        other = root) ∧
        place file = root ++ names ∧
        key roots = "_".intercalate (if names = [] then [(place file).getLastD ""]
          else names) ++ mark) ∧
      ∀ roots', (∀ above, above <+: place file →
        (above ∈ roots'.map place ↔ above ∈ roots.map place)) →
        key roots' = key roots := by
  intro place key
  refine ⟨?_, fun keyed => ?_, fun roots' same => ofPath_congr fun q isAbove => ?_⟩
  · rcases ofPath_below_cases absolute roots file with ⟨outside, empty⟩
      | ⟨root, names, longest, -, made⟩
    · refine iff_of_false (fun keyed => keyed empty) ?_
      rintro ⟨root, listed, isAbove⟩
      exact outside _ (List.mem_map_of_mem listed) isAbove
    · obtain ⟨s, listed, rfl⟩ := List.mem_map.1 longest.1
      exact iff_of_true (fun empty => ofSegments_ne_empty _ (made.symm.trans empty))
        ⟨s, listed, longest.2.1⟩
  · rcases ofPath_below_cases absolute roots file with ⟨-, empty⟩
      | ⟨root, names, longest, split, made⟩
    · exact absurd empty keyed
    · refine ⟨root, names, fun other => ⟨longest.unique, ?_⟩, split, made⟩
      rintro rfl
      exact longest
  · constructor
    all_goals
      intro listed
      obtain ⟨above, written, rfl⟩ := (mem_sortRoots_below absolute).1 listed
      have onTheWay := (isSome_relativeTo?_below absolute).1 isAbove
    · exact (mem_sortRoots_below absolute).2 ⟨above, (same above onTheWay).1 written, rfl⟩
    · exact (mem_sortRoots_below absolute).2 ⟨above, (same above onTheWay).2 written, rfl⟩

end

-- The file lies below three of these roots, the deepest of which is spelled in two ways.
def nestedRoots : List String := [".", "a/b/c/..", "/w/a", "a/bb", "//w//a/b/"]

theorem key_starts_at_longest_root_nested :
    let dir : Path := ⟨.root, ["w"]⟩
    let key (roots : List String) :=
      ofPath (roots.map fun root => dir.below (.ofString root))
        (dir.below (.ofString "x/../a/.//b/p/A.java"))
    dir.isAbsolute = true ∧ key nestedRoots = "p_A.java/[CN]/" ∧
      key ["c", "a/b", "a", "x/.."] = key nestedRoots := by
  intro dir key
  have absolute : dir.isAbsolute = true := rfl
  obtain ⟨keyed, made, unchanged⟩ :=
    key_starts_at_longest_root absolute nestedRoots "x/../a/.//b/p/A.java"
  obtain ⟨root, names, longest, split, same⟩ :=
    made (keyed.2 ⟨"/w/a", by decide, by decide +kernel⟩)
  obtain rfl : ["w", "a", "b"] = root := (longest _).1 (by decide +kernel)
  have place : Path.placeOf dir.resolve.segments "x/../a/.//b/p/A.java" = ["w", "a", "b"] ++
      ["p", "A.java"] := by
    decide +kernel
  obtain rfl : names = ["p", "A.java"] := List.append_cancel_left (split.symm.trans place)
  refine ⟨absolute, same, unchanged _ fun above isAbove => ?_⟩
  have places : nestedRoots.map (Path.placeOf dir.resolve.segments) =
      [["w"], ["w", "a", "b"], ["w", "a"], ["w", "a", "bb"], ["w", "a", "b"]] := by
    decide +kernel
  have places' : ["c", "a/b", "a", "x/.."].map (Path.placeOf dir.resolve.segments) =
      [["w", "c"], ["w", "a", "b"], ["w", "a"], ["w"]] := by
    decide +kernel
  rw [places, places']
  rw [place] at isAbove
  constructor
  · intro listed
    simp only [List.mem_cons, List.not_mem_nil, or_false] at listed
    rcases listed with rfl | rfl | rfl | rfl <;> simp at isAbove ⊢
  · intro listed
    simp only [List.mem_cons, List.not_mem_nil, or_false] at listed
    rcases listed with rfl | rfl | rfl | rfl | rfl <;> simp at isAbove ⊢

end UnitKey

end RefGraph

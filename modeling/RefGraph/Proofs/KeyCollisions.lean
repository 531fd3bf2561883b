import RefGraph.Proofs.UnitKey

set_option autoImplicit false

namespace RefGraph

namespace Text

variable {sep : String} {c : Char} (one : sep.toList = [c])

include one

theorem intercalate_flatMap_split {xs : List String} (some : xs ≠ []) :
    sep.intercalate (xs.flatMap (split c)) = sep.intercalate xs := by
  induction xs with
  | nil => exact absurd rfl some
  | cons x xs ih =>
    cases xs with
    | nil => simp [intercalate_split one]
    | cons y ys =>
      have first : split c x ≠ [] := by simp [split]
      have later : (y :: ys).flatMap (split c) ≠ [] := by simp [split]
      rw [List.flatMap_cons, String.intercalate_append_of_ne_nil first later, intercalate_split one,
        ih (List.cons_ne_nil _ _), String.intercalate_cons_cons]

theorem intercalate_eq_iff {xs ys : List String} (some : xs ≠ []) (some' : ys ≠ []) :
    sep.intercalate xs = sep.intercalate ys ↔ xs.flatMap (split c) = ys.flatMap (split c) := by
  have pieces {zs : List String} (some : zs ≠ []) :
      split c (sep.intercalate zs) = zs.flatMap (split c) := by
    rw [← intercalate_flatMap_split one some]
    refine split_intercalate one ?_ fun piece listed => ?_
    · obtain ⟨z, zs, rfl⟩ := List.exists_cons_of_ne_nil some
      simp [split]
    · obtain ⟨z, -, among⟩ := List.mem_flatMap.1 listed
      exact notMem_split c z piece among
  constructor
  · intro same
    rw [← pieces some, same, pieces some']
  · intro same
    rw [← intercalate_flatMap_split one some, same, intercalate_flatMap_split one some']

end Text

theorem Path.relativeTo?_into (dir : Path) (names : List String) :
    dir.relativeTo? (dir.into names) = some names := by
  simp [relativeTo?, into, isAbsolute]

namespace UnitKey

theorem ofPath_singleton {root p : Path} {names : List String}
    (below : p.resolve = root.resolve.into names) (inside : names ≠ []) :
    ofPath [root] p = ofSegments names := by
  have only {q : Path} : q ∈ sortRoots [root] ↔ root.resolve = q := by
    simp [mem_sortRoots]
  have found : (sortRoots [root]).findSome? (·.relativeTo? p.resolve) = some names := by
    rw [findSome?_sortRoots, below]
    refine ⟨root.resolve, only.2 rfl, Path.relativeTo?_into _ _, fun q listed _ => ?_⟩
    obtain rfl := only.1 listed
    exact Nat.le_refl _
  rw [ofPath, found]
  cases names with
  | nil => exact absurd rfl inside
  | cons s ss => rfl

/-- Two files have one key exactly if the underscores divide their names alike. -/
theorem keys_agree_iff (root p p' : Path) (names names' : List String)
    (below : p.resolve = root.resolve.into names) (below' : p'.resolve = root.resolve.into names')
    (inside : names ≠ []) (inside' : names' ≠ []) :
    (ofPath [root] p = ofPath [root] p' ↔
      names.flatMap (Text.split '_') = names'.flatMap (Text.split '_')) ∧
      (p.resolve ≠ p'.resolve → ofPath [root] p = ofPath [root] p' →
        ∃ s ∈ names ++ names', '_' ∈ s.toList) := by
  rw [ofPath_singleton below inside, ofPath_singleton below' inside', ofSegments, ofSegments,
    String.append_left_inj]
  refine ⟨Text.intercalate_eq_iff rfl inside inside', fun differ same => ?_⟩
  refine Classical.byContradiction fun none => differ ?_
  have free (s : String) (listed : s ∈ names ++ names') : '_' ∉ s.toList :=
    fun held => none ⟨s, listed, held⟩
  have pieces {zs : List String} (inside : zs ≠ []) (free : ∀ s ∈ zs, '_' ∉ s.toList) :
      Text.split '_' ("_".intercalate zs) = zs := Text.split_intercalate rfl inside free
  rw [below, below', ← pieces inside fun s listed => free s (List.mem_append_left _ listed), same,
    pieces inside' fun s listed => free s (List.mem_append_right _ listed)]

theorem keys_agree_iff_underscoreDir :
    let root : Path := ⟨.root, ["src"]⟩
    ofPath [root] (root.into ["a_b", "C.java"]) ≠ ofPath [root] (root.into ["a", "C.java"]) := by
  intro root same
  have pieces := (keys_agree_iff root (root.into ["a_b", "C.java"]) (root.into ["a", "C.java"]) _ _
    rfl rfl (List.cons_ne_nil _ _) (List.cons_ne_nil _ _)).1.1 same
  revert pieces
  decide +kernel

-- An underscore in a name is not told from a directory's end.
theorem keys_agree_iff_flattened :
    let root : Path := ⟨.root, ["src"]⟩
    (root.into ["a", "B.java"]).resolve ≠ (root.into ["a_B.java"]).resolve ∧
      ofPath [root] (root.into ["a", "B.java"]) = ofPath [root] (root.into ["a_B.java"]) := by
  decide +kernel

end UnitKey

end RefGraph

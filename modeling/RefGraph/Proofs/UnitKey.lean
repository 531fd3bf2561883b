import RefGraph.Proofs.FileTree
import RefGraph.UnitKey

set_option autoImplicit false

namespace RefGraph.UnitKey

theorem rootOrder_iff {p q : Path} : rootOrder p q = true ↔
    q.segments.length < p.segments.length ∨ p.segments.length = q.segments.length ∧
      p.text ≤ q.text := by
  rw [rootOrder, Bool.or_eq_true, Bool.and_eq_true, Text.le_iff, decide_eq_true_iff, beq_iff_eq]

theorem mem_sortRoots {roots : List Path} {q : Path} :
    q ∈ sortRoots roots ↔ ∃ root ∈ roots, root.resolve = q := by
  rw [sortRoots, List.mem_mergeSort, List.mem_eraseDups, List.mem_map]

theorem mem_sortRoots_of_resolved {roots : List Path} (resolved : ∀ root ∈ roots, root.Resolved)
    {q : Path} :
    q ∈ sortRoots roots ↔ q ∈ roots := by
  rw [mem_sortRoots]
  constructor
  · rintro ⟨root, listed, rfl⟩
    rwa [(resolved root listed).resolve_eq]
  · exact fun listed => ⟨q, listed, (resolved q listed).resolve_eq⟩

theorem pairwise_sortRoots (roots : List Path) :
    (sortRoots roots).Pairwise fun p q => q.segments.length ≤ p.segments.length := by
  have sorted : (sortRoots roots).Pairwise fun p q => rootOrder p q := by
    refine List.pairwise_mergeSort (fun p q r first second => ?_) (fun p q => ?_) _
    · rw [rootOrder_iff] at first second ⊢
      rcases first with deeper | ⟨same, before⟩
      · omega
      · rcases second with deeper | ⟨same', before'⟩
        · omega
        · exact .inr ⟨same.trans same', String.le_trans before before'⟩
    · rw [Bool.or_eq_true, rootOrder_iff, rootOrder_iff]
      rcases Nat.lt_trichotomy p.segments.length q.segments.length with less | same | more
      · exact .inr (.inl less)
      · exact (String.le_total p.text q.text).imp (fun before => .inr ⟨same, before⟩) fun after =>
          .inr ⟨same.symm, after⟩
      · exact .inl (.inl more)
  refine sorted.imp fun {p q} ordered => ?_
  rcases rootOrder_iff.1 ordered with deeper | ⟨same, -⟩ <;> omega

theorem names_of_relativeTo? {dir p : Path} {names : List String}
    (below : dir.relativeTo? p = some names) :
    names = p.segments.drop dir.segments.length := by
  rw [Path.relativeTo?, Option.ite_none_right_eq_some] at below
  exact (Option.some.inj below.2).symm

theorem findSome?_sortRoots {roots : List Path} {p : Path} {names : List String} :
    (sortRoots roots).findSome? (·.relativeTo? p) = some names ↔
      ∃ q ∈ sortRoots roots, q.relativeTo? p = some names ∧
        ∀ q' ∈ sortRoots roots, (q'.relativeTo? p).isSome →
          q'.segments.length ≤ q.segments.length := by
  have first {names : List String} (found : (sortRoots roots).findSome? (·.relativeTo? p) =
      some names) :
      ∃ q ∈ sortRoots roots, q.relativeTo? p = some names ∧
        ∀ q' ∈ sortRoots roots, (q'.relativeTo? p).isSome →
          q'.segments.length ≤ q.segments.length := by
    have sorted := pairwise_sortRoots roots
    generalize sortRoots roots = deepest at found sorted
    obtain ⟨before, q, after, rfl, below, others⟩ := List.findSome?_eq_some_iff.1 found
    refine ⟨q, by simp, below, fun q' listed above => ?_⟩
    rcases List.mem_append.1 listed with early | late
    · rw [others q' early] at above
      cases above
    · rcases List.mem_cons.1 late with rfl | late
      · exact Nat.le_refl _
      · exact (List.pairwise_cons.1 (List.pairwise_append.1 sorted).2.1).1 q' late
  refine ⟨first, fun longestAbove => ?_⟩
  obtain ⟨q, listed, below, longest⟩ := longestAbove
  cases found : (sortRoots roots).findSome? (·.relativeTo? p) with
  | none =>
    rw [List.findSome?_eq_none_iff.1 found q listed] at below
    cases below
  | some names' =>
    obtain ⟨q', listed', below', longest'⟩ := first found
    have shorter := longest q' listed' (by rw [below']; rfl)
    have longer := longest' q listed (by rw [below]; rfl)
    rw [names_of_relativeTo? below, names_of_relativeTo? below', Nat.le_antisymm shorter longer]

theorem ofPath_congr {roots roots' : List Path} {p : Path}
    (same : ∀ q, (q.relativeTo? p.resolve).isSome → (q ∈ sortRoots roots ↔ q ∈ sortRoots roots')) :
    ofPath roots p = ofPath roots' p := by
  have first : (sortRoots roots).findSome? (·.relativeTo? p.resolve) =
      (sortRoots roots').findSome? (·.relativeTo? p.resolve) := by
    ext names
    rw [findSome?_sortRoots, findSome?_sortRoots]
    refine exists_congr fun q => ?_
    constructor
    · rintro ⟨listed, below, longest⟩
      exact ⟨(same q (by rw [below]; rfl)).1 listed, below, fun q' listed' above =>
        longest q' ((same q' above).2 listed') above⟩
    · rintro ⟨listed, below, longest⟩
      exact ⟨(same q (by rw [below]; rfl)).2 listed, below, fun q' listed' above =>
        longest q' ((same q' above).1 listed') above⟩
  rw [ofPath, ofPath, first]

end RefGraph.UnitKey

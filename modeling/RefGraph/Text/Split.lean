set_option autoImplicit false

namespace RefGraph.Text

def cut (sep : Char) : List Char → List Char × List (List Char)
  | [] => ([], [])
  | c :: cs =>
    let (piece, pieces) := cut sep cs
    if c = sep then ([], piece :: pieces) else (c :: piece, pieces)

def split (sep : Char) (s : String) : List String :=
  let (piece, pieces) := cut sep s.toList
  String.ofList piece :: pieces.map String.ofList

theorem notMem_cut (sep : Char) (cs : List Char) :
    ∀ piece ∈ (cut sep cs).1 :: (cut sep cs).2, sep ∉ piece := by
  induction cs with
  | nil => simp [cut]
  | cons c cs ih =>
    by_cases divides : c = sep
    · simpa [cut, divides] using ih
    · simpa [cut, divides, Ne.symm divides] using ih

theorem intercalate_cut (sep : Char) (cs : List Char) :
    [sep].intercalate ((cut sep cs).1 :: (cut sep cs).2) = cs := by
  induction cs with
  | nil => rfl
  | cons c cs ih =>
    by_cases here : c = sep
    · subst here
      simpa [cut] using ih
    · cases pieces : (cut sep cs).2 with
      | nil => simpa [cut, here, pieces] using ih
      | cons piece more => simpa [cut, here, pieces] using ih

theorem notMem_split (sep : Char) (s : String) : ∀ piece ∈ split sep s, sep ∉ piece.toList := by
  have free := notMem_cut sep s.toList
  simp only [split, List.mem_cons, List.mem_map]
  rintro piece (rfl | ⟨later, among, rfl⟩)
  · simpa using free _ List.mem_cons_self
  · simpa using free later (List.mem_cons_of_mem _ among)

theorem cut_of_notMem {sep : Char} {cs : List Char} (free : sep ∉ cs) : cut sep cs = (cs, []) := by
  induction cs with
  | nil => rfl
  | cons c cs ih =>
    obtain ⟨here, later⟩ := List.ne_and_not_mem_of_not_mem_cons free
    simp [cut, ih later, here.symm]

theorem cut_append {sep : Char} {cs : List Char} (free : sep ∉ cs) (more : List Char) :
    cut sep (cs ++ sep :: more) = (cs, (cut sep more).1 :: (cut sep more).2) := by
  induction cs with
  | nil => simp [cut]
  | cons c cs ih =>
    obtain ⟨here, later⟩ := List.ne_and_not_mem_of_not_mem_cons free
    simp [cut, ih later, here.symm]

theorem split_append {sep : String} {c : Char} (one : sep.toList = [c]) {x : String}
    (free : c ∉ x.toList) (s : String) :
    split c (x ++ sep ++ s) = x :: split c s := by
  have text : (x ++ sep ++ s).toList = x.toList ++ c :: s.toList := by simp [one]
  simp only [split, text, cut_append free, String.ofList_toList, List.map_cons]

theorem split_intercalate {sep : String} {c : Char} (one : sep.toList = [c]) {xs : List String}
    (some : xs ≠ []) (free : ∀ x ∈ xs, c ∉ x.toList) : split c (sep.intercalate xs) = xs := by
  induction xs with
  | nil => exact absurd rfl some
  | cons x xs ih =>
    obtain ⟨here, later⟩ := List.forall_mem_cons.1 free
    cases xs with
    | nil => simp [split, cut_of_notMem here]
    | cons y ys => rw [String.intercalate_cons_cons, split_append one here,
      ih (List.cons_ne_nil _ _) later]

theorem intercalate_split {sep : String} {c : Char} (one : sep.toList = [c]) (s : String) :
    sep.intercalate (split c s) = s := by
  refine String.toList_inj.1 ?_
  simpa [split, one, Function.comp_def] using intercalate_cut c s.toList

end RefGraph.Text

import RefGraph.Proofs.TypeTextReading

set_option autoImplicit false

namespace RefGraph.TypeRef

/-- Whether so many open lists are closed one after the other, with nothing stray on the way. -/
def closes : Nat → List Char → Bool
  | 0, _ => true
  | _ + 1, [] => false
  | d + 1, '<' :: cs => closes (d + 2) cs
  | d + 1, '>' :: cs => closes d cs
  | d + 1, '[' :: ']' :: cs => closes (d + 1) cs
  | d + 1, c :: cs => (isNameChar c || c == '?' || c == ',') && closes (d + 1) cs

/-- A reading comes to a list of arguments that is in no other list: the one after the bracket. -/
inductive OpensList : List Char → List Char → Prop
  | type {cs inside : List Char} (plain : cs.head? ≠ some '?')
      (opened : cs.dropWhile isNameChar = '<' :: inside) :
      OpensList cs inside
  | upper {cs after inside : List Char} (word : dropKeyword? Variance.upper.keyword.toList cs =
      some after) (bound : OpensList after inside) : OpensList ('?' :: cs) inside
  | lower {cs middle after inside : List Char} (passed : ReadsBound .upper cs none middle)
      (word : dropKeyword? Variance.lower.keyword.toList middle = some after)
      (bound : OpensList after inside) :
      OpensList ('?' :: cs) inside

section Closes

variable (d : Nat)

theorem closes_cons {c : Char} (taken : isNameChar c = true ∨ c = '?' ∨ c = ',') (cs : List Char) :
    closes (d + 1) (c :: cs) = closes (d + 1) cs := by
  have other (sign : Char) (bracket : sign ∈ ['<', '>', '[']) : c ≠ sign := by
    rintro rfl
    have among : ['<', '>', '['] ⊆ ['?', ',', '<', '>', '[', ']', ' '] := by simp
    rw [isNameChar_of_punctuation (among bracket)] at taken
    rcases taken with name | rfl | rfl <;> simp_all
  rw [closes.eq_6 d c cs (other '<' (by simp)) (other '>' (by simp)) fun rest first =>
    absurd first (other '[' (by simp))]
  rcases taken with name | rfl | rfl
  · simp [name]
  · simp
  · simp

theorem closes_name {name : List Char} (chars : ∀ c ∈ name, isNameChar c = true) (cs : List Char) :
    closes (d + 1) (name ++ cs) = closes (d + 1) cs := by
  induction name with
  | nil => rfl
  | cons c name ih =>
    rw [List.cons_append, closes_cons d (.inl (chars c (by simp))), ih fun c listed =>
      chars c (by simp [listed])]

theorem closes_dropWhile (cs : List Char) :
    closes (d + 1) (cs.dropWhile isNameChar) = closes (d + 1) cs := by
  have chars : ∀ c ∈ cs.takeWhile isNameChar, isNameChar c = true :=
    List.all_eq_true.1 List.all_takeWhile
  rw [← closes_name d chars (cs.dropWhile isNameChar), List.takeWhile_append_dropWhile]

theorem closes_keyword {v : Variance} {cs after : List Char}
    (word : dropKeyword? v.keyword.toList cs = some after) :
    closes (d + 1) after = closes (d + 1) cs := by
  rw [dropKeyword?_eq_some.1 word]
  refine (closes_name d ?_ after).symm
  cases v <;> exact List.all_eq_true.1 (by decide)

theorem closes_cutBrackets (cs : List Char) : closes (d + 1) (cutBrackets cs).2 =
    closes (d + 1) cs := by
  fun_induction cutBrackets cs with
  | case1 rest n left cut ih =>
    rw [cut] at ih
    exact ih
  | case2 => rfl

theorem closes_dropComma (cs : List Char) : closes (d + 1) (dropComma cs) = closes (d + 1) cs := by
  unfold dropComma
  split
  · exact (closes_cons d (.inr (.inr rfl)) _).symm
  · rfl

end Closes

mutual
theorem ReadsArg.closes_eq {cs rest : List Char} {a : Arg TypeRef} :
    ReadsArg cs a rest → (d : Nat) → closes (d + 1) rest = closes (d + 1) cs
  | .type _ inside, d => by rw [closes_cutBrackets, inside.closes_eq d, closes_dropWhile]
  | .upper bound, d => by rw [bound.closes_eq d, closes_cons d (.inr (.inl rfl))]
  | .lower passed bound, d =>
    by rw [bound.closes_eq d, passed.closes_eq d, closes_cons d (.inr (.inl rfl))]

theorem ReadsBound.closes_eq {v : Variance} {cs rest : List Char} {a? : Option (Arg TypeRef)} :
    ReadsBound v cs a? rest → (d : Nat) → closes (d + 1) rest = closes (d + 1) cs
  | .absent _, _ => rfl
  | .type word bound, d => (bound.closes_eq d).trans (closes_keyword d word)
  | .wildcard word bound _, d => (bound.closes_eq d).trans (closes_keyword d word)

theorem ReadsList.closes_eq {cs rest : List Char} {as : List (Arg TypeRef)} :
    ReadsList cs as rest → (d : Nat) → closes (d + 1) rest = closes (d + 1) cs
  | .absent _, _ => rfl
  | .args inside, d => inside.closes_eq (d + 1)

-- A list that is read closes one of the open lists.
theorem ReadsArgs.closes_eq {cs rest : List Char} {as : List (Arg TypeRef)} :
    ReadsArgs cs as rest → (d : Nat) → closes d rest = closes (d + 1) cs
  | .close, _ => rfl
  | .next _ first others, d => by rw [others.closes_eq d, closes_dropComma, first.closes_eq d]
end

theorem not_stray_of_closes {d : Nat} {cs : List Char} (closed : closes (d + 1) cs = true) :
    stray cs = false := by
  cases cs with
  | nil => simp [closes] at closed
  | cons c cs =>
    rw [stray_cons]
    unfold closes at closed
    split at closed <;> grind

theorem exists_readsBound {v : Variance} {cs : List Char}
    (bound : ∀ after, dropKeyword? v.keyword.toList cs = some after →
      ∃ a rest, ReadsArg after a rest) :
    ∃ a? rest, ReadsBound v cs a? rest := by
  cases word : dropKeyword? v.keyword.toList cs with
  | none => exact ⟨none, cs, .absent word⟩
  | some after =>
    obtain ⟨arg, rest, read⟩ := bound after word
    cases arg with
    | type t => exact ⟨_, rest, .type word read⟩
    | unbounded => exact ⟨_, rest, .wildcard word read (by simp)⟩
    | bounded v t => exact ⟨_, rest, .wildcard word read (by simp)⟩

theorem exists_readsArg_wildcard {cs : List Char}
    (upper : ∀ after, dropKeyword? Variance.upper.keyword.toList cs = some after →
      ∃ a rest, ReadsArg after a rest)
    (lower : ∀ middle after, ReadsBound .upper cs none middle →
      dropKeyword? Variance.lower.keyword.toList middle = some after →
        ∃ a rest, ReadsArg after a rest) :
    ∃ a rest, ReadsArg ('?' :: cs) a rest := by
  obtain ⟨upper?, middle, first⟩ := exists_readsBound upper
  cases upper? with
  | some arg => exact ⟨arg, middle, .upper first⟩
  | none =>
    obtain ⟨lower?, rest, second⟩ := exists_readsBound fun after => lower middle after first
    exact ⟨_, rest, .lower first second⟩

theorem exists_readsArg_type {cs : List Char} (plain : cs.head? ≠ some '?')
    (list : ∀ inside, cs.dropWhile isNameChar = '<' :: inside →
      ∃ as rest, ReadsArgs inside as rest) :
    ∃ a rest, ReadsArg cs a rest := by
  by_cases opened : (cs.dropWhile isNameChar).head? = some '<'
  · obtain ⟨inside, text⟩ := List.head?_eq_some_iff.1 opened
    obtain ⟨args, rest, read⟩ := list inside text
    exact ⟨_, _, .type plain (text ▸ ReadsList.args read)⟩
  · exact ⟨_, _, .type plain (.absent opened)⟩

mutual
theorem exists_readsArg_of_closes {d : Nat} (cs : List Char) (closed : closes (d + 1) cs = true) :
    ∃ a rest, ReadsArg cs a rest := by
  by_cases wild : cs.head? = some '?'
  · obtain ⟨ds, text⟩ := List.head?_eq_some_iff.1 wild
    have length : cs.length = ds.length + 1 := by rw [text, List.length_cons]
    rw [text, closes_cons d (.inr (.inl rfl))] at closed
    rw [text]
    refine exists_readsArg_wildcard (fun after word => ?_) fun middle after passed word => ?_
    · have shorter := (dropKeyword?_suffix word).length_le
      exact exists_readsArg_of_closes after ((closes_keyword d word).trans closed)
    · have shorter := ((dropKeyword?_suffix word).trans passed.suffix).length_le
      exact exists_readsArg_of_closes after ((closes_keyword d word).trans
        ((passed.closes_eq d).trans closed))
  · refine exists_readsArg_type wild fun inside list => ?_
    have shorter : inside.length + 1 ≤ cs.length := by
      simpa [list] using (List.dropWhile_suffix isNameChar (l := cs)).length_le
    rw [← closes_dropWhile, list] at closed
    exact exists_readsArgs_of_closes inside (d := d + 1) closed
termination_by 2 * cs.length

-- Each argument takes something away, so the rest of the list is shorter.
theorem exists_readsArgs_of_closes {d : Nat} (cs : List Char) (closed : closes (d + 1) cs = true) :
    ∃ as rest, ReadsArgs cs as rest := by
  by_cases close : cs.head? = some '>'
  · obtain ⟨rest, rfl⟩ := List.head?_eq_some_iff.1 close
    exact ⟨[], rest, .close⟩
  · obtain ⟨arg, middle, first⟩ := exists_readsArg_of_closes cs closed
    have shorter := first.length_lt close (not_stray_of_closes closed)
    have still : closes (d + 1) (dropComma middle) = true := by
      rw [closes_dropComma, first.closes_eq d, closed]
    obtain ⟨args, rest, others⟩ := exists_readsArgs_of_closes (dropComma middle) still
    exact ⟨_, rest, .next close first others⟩
termination_by 2 * cs.length + 1
end

theorem exists_readsArgs_iff {cs : List Char} :
    (∃ as rest, ReadsArgs cs as rest) ↔ closes 1 cs = true := by
  constructor
  · rintro ⟨as, rest, read⟩
    rw [← read.closes_eq 0, closes]
  · exact exists_readsArgs_of_closes cs

theorem ReadsBound.unique {v : Variance} {cs rest rest' : List Char} {a? b? : Option (Arg TypeRef)}
    (read : ReadsBound v cs a? rest) (read' : ReadsBound v cs b? rest') :
    a? = b? ∧ rest = rest' := by
  have same := (read.readBound_eq (Nat.le_refl _)).symm.trans (read'.readBound_eq (Nat.le_refl _))
  simpa using same

theorem ReadsBound.exists_arg {v : Variance} {cs after rest : List Char} {a? : Option (Arg TypeRef)}
    (word : dropKeyword? v.keyword.toList cs = some after) (read : ReadsBound v cs a? rest) :
    ∃ a, ReadsArg after a rest := by
  cases read with
  | absent without => simp [without] at word
  | type word' bound =>
    obtain rfl : after = _ := Option.some.inj (word.symm.trans word')
    exact ⟨_, bound⟩
  | wildcard word' bound wild =>
    obtain rfl : after = _ := Option.some.inj (word.symm.trans word')
    exact ⟨_, bound⟩

theorem closes_of_readsArg {cs inside : List Char} (opens : OpensList cs inside) :
    (∃ a rest, ReadsArg cs a rest) → closes 1 inside = true := by
  induction opens with
  | type plain opened =>
    rintro ⟨a, rest, read⟩
    cases read with
    | upper bound => exact absurd rfl plain
    | lower passed bound => exact absurd rfl plain
    | type plain inside =>
      rw [opened] at inside
      cases inside with
      | absent notOpen => exact absurd rfl notOpen
      | args read => exact exists_readsArgs_iff.1 ⟨_, _, read⟩
  | upper word bound ih =>
    rintro ⟨a, rest, read⟩
    cases read with
    | type plain inside => exact absurd rfl plain
    | upper first =>
      obtain ⟨arg, read⟩ := first.exists_arg word
      exact ih ⟨arg, _, read⟩
    | lower first second =>
      obtain ⟨arg, read⟩ := first.exists_arg word
      exact ih ⟨arg, _, read⟩
  | lower passed word bound ih =>
    rintro ⟨a, rest, read⟩
    cases read with
    | type plain inside => exact absurd rfl plain
    | upper first => simpa using (passed.unique first).1
    | lower first second =>
      obtain ⟨-, rfl⟩ := passed.unique first
      obtain ⟨arg, read⟩ := second.exists_arg word
      exact ih ⟨arg, _, read⟩

theorem exists_readsArg_of_opens (cs : List Char)
    (closed : ∀ inside, OpensList cs inside → closes 1 inside = true) :
    ∃ a rest, ReadsArg cs a rest := by
  by_cases wild : cs.head? = some '?'
  · obtain ⟨ds, text⟩ := List.head?_eq_some_iff.1 wild
    have length : cs.length = ds.length + 1 := by rw [text, List.length_cons]
    rw [text] at closed ⊢
    refine exists_readsArg_wildcard (fun after word => ?_) fun middle after passed word => ?_
    · have shorter := (dropKeyword?_suffix word).length_le
      exact exists_readsArg_of_opens after fun inside opens => closed inside (.upper word opens)
    · have shorter := ((dropKeyword?_suffix word).trans passed.suffix).length_le
      exact exists_readsArg_of_opens after fun inside opens =>
        closed inside (.lower passed word opens)
  · exact exists_readsArg_type wild fun inside list =>
      exists_readsArgs_iff.2 (closed inside (.type wild list))
termination_by cs.length

theorem exists_readsArg_iff {cs : List Char} :
    (∃ a rest, ReadsArg cs a rest) ↔ ∀ inside, OpensList cs inside → closes 1 inside = true :=
  ⟨fun read _ opens => closes_of_readsArg opens read, exists_readsArg_of_opens cs⟩

theorem isSome_ofText?_iff {s : String} : (ofText? s).isSome = true ↔
    ∃ a rest, ReadsArg (unspaced s) a rest := by
  simp [Option.isSome_iff_exists, ofText?_eq_some]

/-- A type is read from a text exactly if each list of arguments that it comes to outside all others
is closed, with nothing stray inside. -/
theorem reading_ends_iff_closed (s : String) :
    ((ofText? s).isSome = true ↔ ∃ a rest, ReadsArg (unspaced s) a rest) ∧
      ((ofText? s).isSome = true ↔ ∀ inside, OpensList (unspaced s) inside →
        closes 1 inside = true) ∧
      ∀ here a rest, ReadsArg here a rest → here.head? ≠ some '>' →
        ((dropComma rest).length < here.length ↔ stray here = false) ∧
          (stray here = true → dropComma rest = here ∧ ¬∃ as left, ReadsArgs here as left) := by
  refine ⟨isSome_ofText?_iff, isSome_ofText?_iff.trans exists_readsArg_iff,
    fun here a rest read opened => ⟨?_, fun lost => ?_⟩⟩
  · refine ⟨fun shorter => ?_, read.length_lt opened⟩
    by_contra lost
    rw [read.of_stray (by simpa using lost)] at shorter
    exact Nat.lt_irrefl _ shorter
  · refine ⟨read.of_stray lost, ?_⟩
    rintro ⟨as, left, list⟩
    rw [list.not_stray] at lost
    contradiction

theorem reading_ends_iff_closed_emptyArgs :
    OpensList (unspaced "A<,B[],? <C>>[<") [',', 'B', '[', ']', ',', '?', '<', 'C', '>', '>', '[',
      '<'] ∧
      (ofText? "A<,B[],? <C>>[<").isSome = true ∧
      ReadsArg ['[', ']', '>'] (.type { head := .named (.simple ""), dims := 1 }) ['>'] ∧
      (dropComma ['>']).length < ['[', ']', '>'].length := by
  obtain ⟨-, closed, moves⟩ := reading_ends_iff_closed "A<,B[],? <C>>[<"
  have text : unspaced "A<,B[],? <C>>[<" =
      ['A', '<', ',', 'B', '[', ']', ',', '?', '<', 'C', '>', '>', '[', '<'] := by decide
  have read : ReadsArg ['[', ']', '>'] (.type { head := .named (.simple ""), dims := 1 }) ['>'] :=
    .type (by decide) (.absent (by decide))
  refine ⟨.type (by rw [text]; decide) (by rw [text]; decide),
    closed.2 fun inside opens => ?_, read, (moves _ _ _ read (by decide)).1.2 (by decide)⟩
  rw [text] at opens
  cases opens with
  | type plain opened =>
    obtain ⟨-, rfl⟩ := List.cons.inj opened
    decide

/-- A list that the text does not close, and one with a stray bracket: no reading comes to an end.
-/
theorem reading_ends_iff_closed_unclosed :
    ofText? "java.util.List<E" = none ∧ ofText? "A<B]>" = none ∧
      ReadsArg [] (.type { head := .named (.simple "") }) [] ∧
        ¬∃ as rest, ReadsArgs [] as rest := by
  have never (s : String) (inside : List Char) (opens : OpensList (unspaced s) inside)
      (unclosed : closes 1 inside = false) : ofText? s = none := by
    rw [← Option.not_isSome_iff_eq_none, isSome_ofText?_iff, exists_readsArg_iff]
    intro closed
    rw [closed inside opens] at unclosed
    contradiction
  refine ⟨never _ ['E'] (.type (by decide) (by decide)) (by decide),
    never _ ['B', ']', '>'] (.type (by decide) (by decide)) (by decide),
    .type (by decide) (.absent (by decide)), ?_⟩
  rintro ⟨as, rest, list⟩
  exact absurd list.not_stray (by decide)

end RefGraph.TypeRef

import Mathlib.Data.List.Infix
import RefGraph.TypeRef.Text

/-!
Reading a written type from text, as a relation between a text, what is read from its beginning and
what is left of it. The relation has no limit on the number of calls; the reader finds exactly the
readings that come to an end.
-/

set_option autoImplicit false

namespace RefGraph.TypeRef

mutual
/-- An argument is read from the beginning of a text. -/
inductive ReadsArg : List Char → Arg TypeRef → List Char → Prop
  | type {cs rest : List Char} {args : List (Arg TypeRef)} (plain : cs.head? ≠ some '?')
      (inside : ReadsList (cs.dropWhile isNameChar) args rest) :
      ReadsArg cs
        (.type { head := headOfText (String.ofList (cs.takeWhile isNameChar)), args, dims :=
          (cutBrackets rest).1 })
        (cutBrackets rest).2
  | upper {cs rest : List Char} {arg : Arg TypeRef} (bound : ReadsBound .upper cs (some arg) rest) :
      ReadsArg ('?' :: cs) arg rest
  | lower {cs middle rest : List Char} {arg? : Option (Arg TypeRef)}
      (passed : ReadsBound .upper cs none middle) (bound : ReadsBound .lower middle arg? rest) :
        ReadsArg ('?' :: cs) (arg?.getD .unbounded) rest

inductive ReadsBound : Variance → List Char → Option (Arg TypeRef) → List Char → Prop
  | absent {v : Variance} {cs : List Char} (without : dropKeyword? v.keyword.toList cs = none) :
    ReadsBound v cs none cs
  | type {v : Variance} {cs after rest : List Char} {t : TypeRef}
      (word : dropKeyword? v.keyword.toList cs = some after)
      (bound : ReadsArg after (.type t) rest) : ReadsBound v cs (some (.bounded v t)) rest
  | wildcard {v : Variance} {cs after rest : List Char} {arg : Arg TypeRef}
      (word : dropKeyword? v.keyword.toList cs = some after) (bound : ReadsArg after arg rest)
      (wild : ∀ t, arg ≠ .type t) : ReadsBound v cs none rest

inductive ReadsList : List Char → List (Arg TypeRef) → List Char → Prop
  | absent {cs : List Char} (plain : cs.head? ≠ some '<') : ReadsList cs [] cs
  | args {cs rest : List Char} {args : List (Arg TypeRef)} (inside : ReadsArgs cs args rest) :
      ReadsList ('<' :: cs) args rest

inductive ReadsArgs : List Char → List (Arg TypeRef) → List Char → Prop
  | close {rest : List Char} : ReadsArgs ('>' :: rest) [] rest
  | next {cs middle rest : List Char} {arg : Arg TypeRef} {args : List (Arg TypeRef)}
      (opened : cs.head? ≠ some '>') (first : ReadsArg cs arg middle)
      (others : ReadsArgs (dropComma middle) args rest) :
      ReadsArgs cs (arg :: args) rest
end

theorem dropKeyword?_eq_some {word cs rest : List Char} :
    dropKeyword? word cs = some rest ↔ cs = word ++ rest := by
  fun_induction dropKeyword? word cs with
  | case1 => simp [eq_comm]
  | case2 k ks cs ih => simp [ih]
  | case3 k ks c cs differ => simp [Ne.symm differ]
  | case4 => simp

theorem dropKeyword?_suffix {word cs rest : List Char} (found : dropKeyword? word cs = some rest) :
    rest <:+ cs :=
  ⟨word, (dropKeyword?_eq_some.1 found).symm⟩

theorem cutBrackets_suffix (cs : List Char) : (cutBrackets cs).2 <:+ cs := by
  fun_induction cutBrackets cs with
  | case1 rest n left cut ih =>
    rw [cut] at ih
    exact ih.trans ⟨['[', ']'], rfl⟩
  | case2 => exact List.suffix_refl _

theorem cutBrackets_eq_self {cs : List Char} (plain : ∀ rest, cs ≠ '[' :: ']' :: rest) :
    cutBrackets cs = (0, cs) := by
  unfold cutBrackets
  split
  · exact absurd rfl (plain _)
  · rfl

theorem dropComma_suffix (cs : List Char) : dropComma cs <:+ cs := by
  unfold dropComma
  split
  · exact List.suffix_cons ..
  · exact List.suffix_refl _

theorem dropComma_eq_self {cs : List Char} (plain : cs.head? ≠ some ',') : dropComma cs = cs := by
  unfold dropComma
  split
  · exact absurd rfl plain
  · rfl

mutual
theorem ReadsArg.suffix {cs rest : List Char} {a : Arg TypeRef} : ReadsArg cs a rest → rest <:+ cs
  | .type _ inside => (cutBrackets_suffix _).trans (inside.suffix.trans (List.dropWhile_suffix _))
  | .upper bound => bound.suffix.trans (List.suffix_cons ..)
  | .lower passed bound => (bound.suffix.trans passed.suffix).trans (List.suffix_cons ..)

theorem ReadsBound.suffix {v : Variance} {cs rest : List Char} {a? : Option (Arg TypeRef)} :
    ReadsBound v cs a? rest → rest <:+ cs
  | .absent _ => List.suffix_refl _
  | .type word bound => bound.suffix.trans (dropKeyword?_suffix word)
  | .wildcard word bound _ => bound.suffix.trans (dropKeyword?_suffix word)

theorem ReadsList.suffix {cs rest : List Char} {as : List (Arg TypeRef)} :
    ReadsList cs as rest → rest <:+ cs
  | .absent _ => List.suffix_refl _
  | .args inside => inside.suffix.trans (List.suffix_cons ..)

theorem ReadsArgs.suffix {cs rest : List Char} {as : List (Arg TypeRef)} :
    ReadsArgs cs as rest → rest <:+ cs
  | .close => List.suffix_cons ..
  | .next _ first others => others.suffix.trans ((dropComma_suffix _).trans first.suffix)
end

/-- Whether the text begins with nothing that can stand in a list of arguments: it is at its end, or
a bracket or another sign is in the way. -/
def stray : List Char → Bool
  | [] => true
  | '[' :: cs => cs.head? != some ']'
  | c :: _ => !(isNameChar c || ['?', ',', '<', '>'].contains c)

theorem isNameChar_of_punctuation {c : Char} (sign : c ∈ ['?', ',', '<', '>', '[', ']', ' ']) :
    isNameChar c = false := by
  simp only [List.mem_cons, List.not_mem_nil, or_false] at sign
  rcases sign with rfl | rfl | rfl | rfl | rfl | rfl | rfl <;> decide

theorem stray_cons {c : Char} {cs : List Char} :
    stray (c :: cs) = false ↔ isNameChar c = true ∨ c ∈ ['?', ',', '<', '>'] ∨ c = '[' ∧
      cs.head? = some ']' := by
  by_cases bracket : c = '['
  · subst bracket
    simp [stray, isNameChar_of_punctuation]
  · simp only [stray.eq_3 c cs bracket, Bool.not_eq_false', Bool.or_eq_true, List.contains_iff_mem,
      bracket, false_and, or_false]

-- A stray sign ends a name, opens no list and is no pair of brackets: nothing of it is read.
theorem ReadsArg.of_stray {cs rest : List Char} {a : Arg TypeRef} (read : ReadsArg cs a rest)
    (lost : stray cs = true) :
    dropComma rest = cs := by
  have sign (c : Char) (listed : c ∈ ['?', ',', '<', '>']) : cs.head? ≠ some c := by
    intro first
    obtain ⟨ds, rfl⟩ := List.head?_eq_some_iff.1 first
    rw [stray_cons.2 (.inr (.inl listed))] at lost
    contradiction
  cases read with
  | upper bound => exact absurd rfl (sign '?' (by simp))
  | lower passed bound => exact absurd rfl (sign '?' (by simp))
  | type plain inside =>
    have name : cs.dropWhile isNameChar = cs := by
      cases cs with
      | nil => rfl
      | cons c cs =>
        refine List.dropWhile_cons_of_neg fun taken => ?_
        rw [stray_cons.2 (.inl taken)] at lost
        contradiction
    have pair (ds : List Char) : cs ≠ '[' :: ']' :: ds := by
      rintro rfl
      simp [stray] at lost
    rw [name] at inside
    cases inside with
    | args inside => exact absurd rfl (sign '<' (by simp))
    | absent plain =>
      rw [cutBrackets_eq_self pair]
      exact dropComma_eq_self (sign ',' (by simp))

theorem length_dropComma_le {cs rest : List Char} (left : rest <:+ cs) :
    (dropComma rest).length ≤ cs.length :=
  ((dropComma_suffix rest).trans left).length_le

-- Whatever else the text begins with is taken by the name, the list, the brackets or the comma.
theorem ReadsArg.length_lt {cs rest : List Char} {a : Arg TypeRef} (read : ReadsArg cs a rest)
    (opened : cs.head? ≠ some '>') (taken : stray cs = false) :
    (dropComma rest).length < cs.length := by
  cases read with
  | upper bound => exact Nat.lt_succ_of_le (length_dropComma_le bound.suffix)
  | lower passed bound =>
    exact Nat.lt_succ_of_le (length_dropComma_le (bound.suffix.trans passed.suffix))
  | type plain inside =>
    cases cs with
    | nil => simp [stray] at taken
    | cons c cs =>
      by_cases name : isNameChar c = true
      · rw [List.dropWhile_cons_of_pos name] at inside
        exact Nat.lt_succ_of_le
          (length_dropComma_le
            ((cutBrackets_suffix _).trans (inside.suffix.trans (List.dropWhile_suffix _))))
      · rw [List.dropWhile_cons_of_neg name] at inside
        cases inside with
        | args inside =>
          exact Nat.lt_succ_of_le (length_dropComma_le ((cutBrackets_suffix _).trans inside.suffix))
        | absent notOpen =>
          rcases stray_cons.1 taken with isName | sign | ⟨rfl, pair⟩
          · exact absurd isName name
          · obtain rfl : c = ',' := by simp_all
            rw [cutBrackets_eq_self (by simp)]
            exact Nat.lt_succ_self _
          · obtain ⟨ds, rfl⟩ := List.head?_eq_some_iff.1 pair
            have left : (cutBrackets ('[' :: ']' :: ds)).2 <:+ ds := cutBrackets_suffix ds
            have := length_dropComma_le left
            simp only [List.length_cons]
            omega

theorem ReadsArgs.not_stray {cs rest : List Char} {as : List (Arg TypeRef)} :
    ReadsArgs cs as rest → stray cs = false
  | .close => by simp [stray]
  | .next opened first others => by
    by_contra lost
    have same := first.of_stray (by simpa using lost)
    have := others.not_stray
    rw [same] at this
    exact lost this

section Calls

variable {fuel : Nat} {cs rest : List Char} {a : Arg TypeRef}

def readList (fuel : Nat) : List Char → Option (List (Arg TypeRef) × List Char)
  | '<' :: rest => readArgs fuel rest
  | rest => some ([], rest)

theorem readList_eq_some {as : List (Arg TypeRef)} :
    readList fuel cs = some (as, rest) ↔
      (∃ ds, cs = '<' :: ds ∧ readArgs fuel ds = some (as, rest)) ∨ cs.head? ≠ some '<' ∧ as = [] ∧
        cs = rest := by
  unfold readList
  split
  · simp
  · next plain =>
    have notOpen : cs.head? ≠ some '<' := fun first => by
      obtain ⟨ds, rfl⟩ := List.head?_eq_some_iff.1 first
      exact plain ds rfl
    have noList (ds : List Char) : cs ≠ '<' :: ds := fun same => plain ds same
    simp [notOpen, noList, eq_comm]

theorem readArg_plain (plain : cs.head? ≠ some '?') :
    readArg (fuel + 1) cs = some (a, rest) ↔
      ∃ args middle, readList fuel (cs.dropWhile isNameChar) = some (args, middle) ∧
        (cutBrackets middle).2 = rest ∧
        .type { head := headOfText (String.ofList (cs.takeWhile isNameChar)), args, dims :=
          (cutBrackets middle).1 } = a := by
  rw [readArg.eq_3 cs fuel (fun rest h => plain (by simp [h]))]
  split
  · next opened =>
    rw [opened]
    simp [readList, Option.bind_eq_some_iff, and_comm]
  · next plain =>
    rw [readList.eq_2 fuel _ plain]
    simp [and_comm]

theorem readArg_wildcard :
    readArg (fuel + 1) ('?' :: cs) = some (a, rest) ↔
      readBound fuel .upper cs = some (some a, rest) ∨
        ∃ middle arg?, readBound fuel .upper cs = some (none, middle) ∧
          readBound fuel .lower middle = some (arg?, rest) ∧
          arg?.getD .unbounded = a := by
  rw [readArg]
  rcases readBound fuel .upper cs with _ | ⟨_ | arg, middle⟩
  · simp
  · simp [Option.bind_eq_some_iff, and_comm]
  · simp

theorem readBound_succ {v : Variance} {a? : Option (Arg TypeRef)} :
    readBound (fuel + 1) v cs = some (a?, rest) ↔
      (dropKeyword? v.keyword.toList cs = none ∧ a? = none ∧ cs = rest) ∨
        ∃ after arg, dropKeyword? v.keyword.toList cs = some after ∧
          readArg fuel after = some (arg, rest) ∧
          ((∃ t, arg = .type t ∧ a? = some (.bounded v t)) ∨ (∀ t, arg ≠ .type t) ∧ a? = none) := by
  rw [readBound]
  cases dropKeyword? v.keyword.toList cs with
  | none => simp [eq_comm]
  | some after =>
    rcases h : readArg fuel after with _ | ⟨arg, left⟩
    · simp [h]
    · cases arg <;> simp [h, eq_comm, and_comm]

theorem readArgs_succ {as : List (Arg TypeRef)} (opened : cs.head? ≠ some '>') :
    readArgs (fuel + 1) cs = some (as, rest) ↔
      ∃ arg middle args, readArg fuel cs = some (arg, middle) ∧
        (dropComma middle).length < cs.length ∧
        readArgs fuel (dropComma middle) = some (args, rest) ∧ arg :: args = as := by
  rw [readArgs.eq_3 cs fuel (fun rest h => opened (by simp [h]))]
  rcases readArg fuel cs with _ | ⟨arg, middle⟩
  · simp
  · by_cases shorter : (dropComma middle).length < cs.length
    · simp [shorter, Option.bind_eq_some_iff, and_comm]
    · simp [shorter]

end Calls

mutual
theorem readsArg_of_readArg : (fuel : Nat) → {cs rest : List Char} → {a : Arg TypeRef} →
    readArg fuel cs = some (a, rest) → ReadsArg cs a rest
  | 0, _, _, _, found => by simp [readArg] at found
  | fuel + 1, cs, rest, a, found => by
    by_cases wild : cs.head? = some '?'
    · obtain ⟨cs, rfl⟩ := List.head?_eq_some_iff.1 wild
      rcases readArg_wildcard.1 found with upper | ⟨middle, arg?, passed, bound, rfl⟩
      · exact .upper (readsBound_of_readBound fuel upper)
      · exact .lower (readsBound_of_readBound fuel passed) (readsBound_of_readBound fuel bound)
    · obtain ⟨args, middle, inside, rfl, rfl⟩ := (readArg_plain wild).1 found
      rcases readList_eq_some.1 inside with ⟨ds, opened, args⟩ | ⟨notOpen, rfl, rfl⟩
      · exact .type wild (opened ▸ .args (readsArgs_of_readArgs fuel args))
      · exact .type wild (.absent notOpen)

theorem readsBound_of_readBound : (fuel : Nat) → {v : Variance} → {cs rest : List Char} →
    {a? : Option (Arg TypeRef)} →
    readBound fuel v cs = some (a?, rest) → ReadsBound v cs a? rest
  | 0, _, _, _, _, found => by simp [readBound] at found
  | fuel + 1, v, cs, rest, a?, found => by
    rcases readBound_succ.1 found with ⟨without, rfl, rfl⟩
      | ⟨after, arg, word, read, ⟨t, rfl, rfl⟩ | ⟨wild, rfl⟩⟩
    · exact .absent without
    · exact .type word (readsArg_of_readArg fuel read)
    · exact .wildcard word (readsArg_of_readArg fuel read) wild

theorem readsArgs_of_readArgs : (fuel : Nat) → {cs rest : List Char} → {as : List (Arg TypeRef)} →
    readArgs fuel cs = some (as, rest) → ReadsArgs cs as rest
  | 0, _, _, _, found => by simp [readArgs] at found
  | fuel + 1, cs, rest, as, found => by
    by_cases closed : cs.head? = some '>'
    · obtain ⟨cs, rfl⟩ := List.head?_eq_some_iff.1 closed
      obtain ⟨rfl, rfl⟩ : [] = as ∧ cs = rest := by simpa [readArgs] using found
      exact .close
    · obtain ⟨arg, middle, args, first, -, others, rfl⟩ := (readArgs_succ closed).1 found
      exact .next closed (readsArg_of_readArg fuel first) (readsArgs_of_readArgs fuel others)
end

mutual
theorem ReadsArg.readArg_eq {cs rest : List Char} {a : Arg TypeRef} :
    ReadsArg cs a rest → ∀ {fuel : Nat}, 3 * cs.length + 1 ≤ fuel → readArg fuel cs = some (a, rest)
  | .type plain inside, fuel + 1, enough => by
    have := (List.dropWhile_suffix isNameChar (l := cs)).length_le
    exact (readArg_plain plain).2 ⟨_, _, inside.readList_eq (by omega), rfl, rfl⟩
  | .upper bound, fuel + 1, enough =>
    readArg_wildcard.2 (.inl (bound.readBound_eq (by simp at enough; omega)))
  | .lower passed bound, fuel + 1, enough => by
    have := passed.suffix.length_le
    simp only [List.length_cons] at enough
    exact readArg_wildcard.2
      (.inr ⟨_, _, passed.readBound_eq (by omega), bound.readBound_eq (by omega), rfl⟩)

theorem ReadsBound.readBound_eq {v : Variance} {cs rest : List Char} {a? : Option (Arg TypeRef)} :
    ReadsBound v cs a? rest → ∀ {fuel : Nat}, 3 * cs.length + 2 ≤ fuel →
      readBound fuel v cs = some (a?, rest)
  | .absent without, fuel + 1, _ => readBound_succ.2 (.inl ⟨without, rfl, rfl⟩)
  | .type word bound, fuel + 1, enough => by
    have := (dropKeyword?_suffix word).length_le
    exact readBound_succ.2 (.inr ⟨_, _, word, bound.readArg_eq (by omega), .inl ⟨_, rfl, rfl⟩⟩)
  | .wildcard word bound wild, fuel + 1, enough => by
    have := (dropKeyword?_suffix word).length_le
    exact readBound_succ.2 (.inr ⟨_, _, word, bound.readArg_eq (by omega), .inr ⟨wild, rfl⟩⟩)

theorem ReadsList.readList_eq {cs rest : List Char} {as : List (Arg TypeRef)} :
    ReadsList cs as rest → ∀ {fuel : Nat}, 3 * cs.length ≤ fuel → readList fuel cs = some (as, rest)
  | .absent plain, _, _ => readList_eq_some.2 (.inr ⟨plain, rfl, rfl⟩)
  | .args inside, _, enough =>
    readList_eq_some.2 (.inl ⟨_, rfl, inside.readArgs_eq (by simp at enough; omega)⟩)

-- An argument of a list that is read to its end takes something away, as the reader asks.
theorem ReadsArgs.readArgs_eq {cs rest : List Char} {as : List (Arg TypeRef)} :
    ReadsArgs cs as rest → ∀ {fuel : Nat}, 3 * cs.length + 2 ≤ fuel →
      readArgs fuel cs = some (as, rest)
  | .close, fuel + 1, _ => by rw [readArgs]
  | .next opened first others, fuel + 1, enough => by
    have shorter := first.length_lt opened (ReadsArgs.next opened first others).not_stray
    exact (readArgs_succ opened).2
      ⟨_, _, _, first.readArg_eq (by omega), shorter, others.readArgs_eq (by omega), rfl⟩
end

theorem readArg_eq_some {fuel : Nat} {cs rest : List Char} {a : Arg TypeRef}
    (enough : readFuel cs ≤ fuel) :
    readArg fuel cs = some (a, rest) ↔ ReadsArg cs a rest := by
  unfold readFuel at enough
  exact ⟨readsArg_of_readArg fuel, fun read => read.readArg_eq (by omega)⟩

def unspaced (s : String) : List Char := s.toList.filter (· != ' ')

def ofArg : Arg TypeRef → TypeRef
  | .type t => t
  | _ => top

theorem ofText?_eq_some {s : String} {t : TypeRef} :
    ofText? s = some t ↔ ∃ a rest, ReadsArg (unspaced s) a rest ∧ ofArg a = t := by
  have unfolded : ofText? s = (readArg (readFuel (unspaced s)) (unspaced s)).map (ofArg ·.1) := rfl
  simp only [unfolded, Option.map_eq_some_iff, Prod.exists, readArg_eq_some (Nat.le_refl _)]

end RefGraph.TypeRef

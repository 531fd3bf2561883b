import RefGraph.Proofs.TypeTextReading

set_option autoImplicit false

namespace RefGraph

theorem Name.text_ofString (s : String) : (ofString s).text = s := by
  refine String.toList_inj.1 ?_
  simpa [ofString, text, segments, Function.comp_def] using Text.intercalate_cut '.' s.toList

namespace TypeRef

theorem unspaced_append (s s' : String) : unspaced (s ++ s') = unspaced s ++ unspaced s' := by
  simp [unspaced]

theorem unspaced_name {s : String} (name : ∀ c ∈ s.toList, isNameChar c = true) :
    unspaced s = s.toList := by
  refine List.filter_eq_self.2 fun c listed => ?_
  rw [bne_iff_ne]
  rintro rfl
  simpa [isNameChar_of_punctuation] using name ' ' listed

end TypeRef

/-- A primitive type, or a name that is none: a text of characters that a name can have, and not
empty. -/
def TypeHead.Spelled : TypeHead → Prop
  | .primitive _ => True
  | .named n => ∃ s : String, n = Name.ofString s ∧ s ≠ "" ∧
      (∀ c ∈ s.toList, TypeRef.isNameChar c = true) ∧
      s ∉ Primitive.all.map (·.name)

theorem TypeHead.text_primitive (p : Primitive) : (primitive p).name.text = p.name := by
  simp [name, Name.text, Name.segments, Name.simple]

namespace TypeHead.Spelled

variable {head : TypeHead} (spelled : head.Spelled)

include spelled

theorem isNameChar : ∀ c ∈ head.name.text.toList, TypeRef.isNameChar c = true := by
  cases head with
  | named n =>
    obtain ⟨s, rfl, -, chars, -⟩ := spelled
    rwa [TypeHead.name, Name.text_ofString]
  | primitive p =>
    rw [text_primitive]
    cases p <;> exact List.all_eq_true.1 (by decide)

theorem ne_nil : head.name.text.toList ≠ [] := by
  cases head with
  | named n =>
    obtain ⟨s, rfl, nonempty, -, -⟩ := spelled
    rwa [TypeHead.name, Name.text_ofString, Ne, String.toList_eq_nil_iff]
  | primitive p =>
    rw [text_primitive]
    cases p <;> decide

theorem headOfText_text : TypeRef.headOfText head.name.text = head := by
  unfold TypeRef.headOfText
  cases head with
  | primitive p => rw [text_primitive, Primitive.ofName?_name]
  | named n =>
    obtain ⟨s, rfl, -, -, other⟩ := spelled
    have notPrimitive : Primitive.ofName? s = none := by
      simpa [Primitive.ofName?] using other
    rw [TypeHead.name, Name.text_ofString, notPrimitive]

end TypeHead.Spelled

namespace TypeRef

mutual
def Spelled : TypeRef → Prop
  | { head, args, .. } => head.Spelled ∧ SpelledAll args

def SpelledArg : Arg TypeRef → Prop
  | .type t => Spelled t
  | .unbounded => True
  | .bounded _ t => Spelled t

def SpelledAll : List (Arg TypeRef) → Prop
  | [] => True
  | a :: as => SpelledArg a ∧ SpelledAll as
end

def EndsArg (rest : List Char) : Prop := ∀ c ∈ rest.head?, c = ',' ∨ c = '>'

theorem EndsArg.head?_ne {rest : List Char} (ends : EndsArg rest) {c : Char}
    (other : c ≠ ',' ∧ c ≠ '>') :
    rest.head? ≠ some c := fun first => (ends c first).elim other.1 other.2

theorem unspaced_brackets_succ (n : Nat) : unspaced (brackets (n + 1)) = '[' ::
    ']' :: unspaced (brackets n) := by
  simp [unspaced, brackets, List.replicate_succ, String.join_cons]

theorem cutBrackets_brackets (n : Nat) {rest : List Char} (plain : rest.head? ≠ some '[') :
    cutBrackets (unspaced (brackets n) ++ rest) = (n, rest) := by
  induction n with
  | zero => exact cutBrackets_eq_self fun more
    same => plain (by simp [brackets, unspaced] at same; simp [same])
  | succ n ih =>
    rw [unspaced_brackets_succ, List.cons_append, List.cons_append, cutBrackets, ih]

theorem first_brackets (n : Nat) {rest : List Char} (ends : EndsArg rest) :
    ∀ c ∈ (unspaced (brackets n) ++ rest).head?, c ∈ ['[', ',', '>'] := by
  cases n with
  | zero => exact fun c first =>
    List.mem_cons_of_mem _ (by simpa using ends c (by simpa [brackets, unspaced] using first))
  | succ n => simp [unspaced_brackets_succ]

def joined (as : List (Arg TypeRef)) : List Char := unspaced (",".intercalate (argTexts as))

theorem joined_singleton (a : Arg TypeRef) : joined [a] = unspaced (argText a) := by
  simp [joined, argTexts]

theorem joined_cons_cons (a b : Arg TypeRef) (as : List (Arg TypeRef)) :
    joined (a :: b :: as) = unspaced (argText a) ++ ',' :: joined (b :: as) := by
  rw [joined, argTexts, argTexts, String.intercalate_cons_cons, unspaced_append, unspaced_append]
  simp [joined, argTexts, unspaced]

theorem unspaced_text_plain (head : TypeHead) (dims : Nat) :
    unspaced (text { head, dims }) = unspaced head.name.text ++ unspaced (brackets dims) := by
  rw [text, unspaced_append]

theorem unspaced_text_args (head : TypeHead) (a : Arg TypeRef) (as : List (Arg TypeRef))
    (dims : Nat) :
    unspaced (text { head, args := a :: as, dims }) =
      unspaced head.name.text ++ '<' :: (joined (a :: as) ++ '>' :: unspaced (brackets dims)) := by
  simp only [text, unspaced_append, List.append_assoc]
  rfl

theorem exists_unspaced_text (t : TypeRef) :
    ∃ tail, unspaced t.text = unspaced t.head.name.text ++ tail := by
  obtain ⟨head, args, dims⟩ := t
  cases args with
  | nil => exact ⟨_, unspaced_text_plain head dims⟩
  | cons a as => exact ⟨_, unspaced_text_args head a as dims⟩

theorem unspaced_bounded (v : Variance) (t : TypeRef) :
    unspaced (argText (.bounded v t)) = '?' :: (v.keyword.toList ++ unspaced t.text) := by
  rw [argText, unspaced_append, unspaced_append, unspaced_append]
  cases v <;> rfl

theorem takeWhile_name {name tail : List Char} (chars : ∀ c ∈ name, isNameChar c = true)
    (stop : ∀ c ∈ tail.head?, isNameChar c = false) :
    (name ++ tail).takeWhile isNameChar = name ∧ (name ++ tail).dropWhile isNameChar = tail := by
  have ended : tail.takeWhile isNameChar = [] ∧ tail.dropWhile isNameChar = tail := by
    cases tail with
    | nil => exact ⟨rfl, rfl⟩
    | cons c tail => simp [stop c rfl]
  rw [List.takeWhile_append_of_pos chars, List.dropWhile_append_of_pos chars, ended.1, ended.2,
    List.append_nil]
  exact ⟨rfl, rfl⟩

-- The list of arguments and the brackets of a type, once its name is read.
theorem readsArg_of_list {head : TypeHead} {args : List (Arg TypeRef)} {dims : Nat}
    {tail rest : List Char} (spelled : head.Spelled) (stop : ∀ c ∈ tail.head?, isNameChar c = false)
    (inside : ReadsList tail args (unspaced (brackets dims) ++ rest))
    (plain : rest.head? ≠ some '[') :
    ReadsArg (unspaced head.name.text ++ tail) (.type { head, args, dims }) rest := by
  rw [unspaced_name spelled.isNameChar]
  obtain ⟨name, after⟩ := takeWhile_name spelled.isNameChar stop
  have notWild : (head.name.text.toList ++ tail).head? ≠ some '?' := by
    obtain ⟨c, cs, chars⟩ := List.exists_cons_of_ne_nil spelled.ne_nil
    rw [chars]
    rintro ⟨⟩
    have := spelled.isNameChar '?' (by simp [chars])
    simp [isNameChar_of_punctuation] at this
  have read := ReadsArg.type notWild (after.symm ▸ inside)
  rw [name, String.ofList_toList, spelled.headOfText_text, cutBrackets_brackets dims plain] at read
  exact read

-- No keyword begins with what may follow an argument.
theorem ReadsBound.absent_of_ends (v : Variance) {rest : List Char} (ends : EndsArg rest) :
    ReadsBound v rest none rest := by
  refine .absent (Option.eq_none_iff_forall_not_mem.2 fun after word => ?_)
  rw [dropKeyword?_eq_some.1 word] at ends
  cases v with
  | upper => exact ends.head?_ne (c := 'e') (by decide) rfl
  | lower => exact ends.head?_ne (c := 's') (by decide) rfl

theorem readsArg_bounded (v : Variance) {cs rest : List Char} {t : TypeRef}
    (bound : ReadsArg cs (.type t) rest) :
    ReadsArg ('?' :: (v.keyword.toList ++ cs)) (.bounded v t) rest := by
  cases v with
  | upper => exact .upper (.type (dropKeyword?_eq_some.2 rfl) bound)
  | lower => exact .lower (.absent rfl) (.type (dropKeyword?_eq_some.2 rfl) bound)

theorem unspaced_argText {a : Arg TypeRef} (spelled : SpelledArg a) :
    ∃ c cs, unspaced (argText a) = c :: cs ∧ (c = '?' ∨ isNameChar c = true) := by
  cases a with
  | unbounded => exact ⟨'?', [], rfl, .inl rfl⟩
  | bounded v t => exact ⟨'?', _, unspaced_bounded v t, .inl rfl⟩
  | type t =>
    have head : t.head.Spelled := by
      obtain ⟨head, args, dims⟩ := t
      exact spelled.1
    obtain ⟨c, cs, chars⟩ := List.exists_cons_of_ne_nil head.ne_nil
    obtain ⟨tail, text⟩ := exists_unspaced_text t
    rw [unspaced_name head.isNameChar, chars] at text
    exact ⟨c, cs ++ tail,
      by rw [argText, text, List.cons_append], .inr (head.isNameChar c (by simp [chars]))⟩

theorem head?_argText {a : Arg TypeRef} (spelled : SpelledArg a) (more : List Char) :
    (unspaced (argText a) ++ more).head? ≠ some '>' := by
  obtain ⟨c, cs, text, first⟩ := unspaced_argText spelled
  rw [text]
  rintro ⟨⟩
  simp [isNameChar_of_punctuation] at first

mutual
theorem readsArg_text {rest : List Char} (ends : EndsArg rest) :
    (t : TypeRef) → t.Spelled → ReadsArg (unspaced t.text ++ rest) (.type t) rest
  | { head, args := [], dims }, spelled => by
    rw [unspaced_text_plain, List.append_assoc]
    have first := first_brackets dims ends
    refine readsArg_of_list spelled.1 (fun c here => ?_) (.absent fun here => ?_)
      (ends.head?_ne (by decide))
    · have sign : ['[', ',', '>'] ⊆ ['?', ',', '<', '>', '[', ']', ' '] := by simp
      exact isNameChar_of_punctuation (sign (first c here))
    · simpa using first '<' here
  | { head, args := a :: as, dims }, spelled => by
    rw [unspaced_text_args, List.append_assoc]
    refine readsArg_of_list spelled.1 (fun c first => ?_) ?_ (ends.head?_ne (by decide))
    · obtain rfl : '<' = c := by simpa using first
      decide
    · rw [List.cons_append, List.append_assoc]
      exact .args (readsArgs_joined (a :: as) (by simp) spelled.2)

theorem readsArg_argText {rest : List Char} (ends : EndsArg rest) :
    (a : Arg TypeRef) → SpelledArg a → ReadsArg (unspaced (argText a) ++ rest) a rest
  | .type t, spelled => by
    rw [argText]
    exact readsArg_text ends t spelled
  | .unbounded, _ => .lower (.absent_of_ends .upper ends) (.absent_of_ends .lower ends)
  | .bounded v t, spelled => by
    rw [unspaced_bounded, List.cons_append, List.append_assoc]
    exact readsArg_bounded v (readsArg_text ends t spelled)

theorem readsArgs_joined {rest : List Char} :
    (as : List (Arg TypeRef)) → as ≠ [] → SpelledAll as →
      ReadsArgs (joined as ++ '>' :: rest) as rest
  | [], nonempty, _ => absurd rfl nonempty
  | [a], _, spelled => by
    rw [joined_singleton]
    exact .next (head?_argText spelled.1 _)
      (readsArg_argText (by simp [EndsArg]) a spelled.1) .close
  | a :: b :: as, _, spelled => by
    rw [joined_cons_cons, List.append_assoc]
    exact .next (head?_argText spelled.1 _) (readsArg_argText (by simp [EndsArg]) a spelled.1)
      (readsArgs_joined (b :: as) (by simp) spelled.2)
end

/-- The text of a type reads back as the type; and whatever may follow an argument is left as it is.
-/
theorem text_reads_back (t : TypeRef) (spelled : t.Spelled) :
    ofText? t.text = some t ∧
      ∀ rest : List Char, EndsArg rest →
        readArg (readFuel (unspaced t.text ++ rest)) (unspaced t.text ++ rest) =
          some (.type t, rest) := by
  have read (rest : List Char) (ends : EndsArg rest) :
      ReadsArg (unspaced t.text ++ rest) (.type t) rest :=
    readsArg_text ends t spelled
  constructor
  · have alone := read [] (by simp [EndsArg])
    rw [List.append_nil] at alone
    exact ofText?_eq_some.2 ⟨.type t, [], alone, rfl⟩
  · intro rest ends
    exact (readArg_eq_some (Nat.le_refl _)).2 (read rest ends)

def nestedWildcards : TypeRef where
  head := .named (.ofString "java.util.Map")
  args := [.unbounded,
    .bounded .upper { head := .named (.ofString "extendsList"), args :=
      [.type { head := .primitive .int, dims := 1 }] },
    .bounded .lower { head := .named (.ofString "super_.V$1") }]
  dims := 2

theorem text_reads_back_nestedWildcards :
    nestedWildcards.Spelled ∧ EndsArg [',', 'x'] ∧
      ofText? "java.util.Map<?,? extends extendsList<int[]>,? super super_.V$1>[][]" =
        some nestedWildcards ∧
      readArg (readFuel (unspaced nestedWildcards.text ++ [',', 'x']))
        (unspaced nestedWildcards.text ++ [',', 'x']) =
        some (.type nestedWildcards, [',', 'x']) := by
  have named (s : String) (plain : s ≠ "" ∧ s.toList.all isNameChar = true ∧
      s ∉ Primitive.all.map (·.name)) :
      (TypeHead.named (.ofString s)).Spelled :=
    ⟨s, rfl, plain.1, List.all_eq_true.1 plain.2.1, plain.2.2⟩
  have spelled : nestedWildcards.Spelled :=
    ⟨named _ (by decide), trivial, ⟨named _ (by decide), ⟨trivial, trivial⟩, trivial⟩,
      ⟨named _ (by decide), trivial⟩, trivial⟩
  have ends : EndsArg [',', 'x'] := by simp [EndsArg]
  obtain ⟨back, before⟩ := text_reads_back nestedWildcards spelled
  exact ⟨spelled, ends, back, before _ ends⟩

end TypeRef

end RefGraph

import Mathlib.Data.List.Basic
import RefGraph.Inheritance
import RefGraph.Proofs.EdgeSoundness
import RefGraph.Proofs.FieldNames
import RefGraph.Proofs.Makers

set_option autoImplicit false

namespace RefGraph

namespace Text

/-- The text of a name: not empty, and free of what divides the names in a line. -/
def Plain (s : String) : Prop := s ≠ "" ∧ ∀ c ∈ [' ', '/', '(', ')', ','], c ∉ s.toList

-- The five characters are tried, not all there are.
instance (s : String) : Decidable (Plain s) :=
  @instDecidableAnd _ _ inferInstance (List.decidableBAll _ _)

theorem mem_intercalate {sep : String} {xs : List String} {c : Char}
    (held : c ∈ (sep.intercalate xs).toList) :
    c ∈ sep.toList ∨ ∃ s ∈ xs, c ∈ s.toList := by
  induction xs with
  | nil => simp at held
  | cons x xs ih =>
    cases xs with
    | nil => exact .inr ⟨x, by simp, by simpa using held⟩
    | cons y ys =>
      rw [String.intercalate_cons_cons, String.toList_append, String.toList_append, List.mem_append,
        List.mem_append] at held
      rcases held with (first | between) | later
      · exact .inr ⟨x, by simp, first⟩
      · exact .inl between
      · rcases ih later with between | ⟨s, listed, inside⟩
        · exact .inl between
        · exact .inr ⟨s, List.mem_cons_of_mem _ listed, inside⟩

variable {c : Char} {sep : String}

-- Pieces without the separator are the ones that cutting at it gives.
theorem pieces_of_intercalate (one : sep.toList = [c]) {xs ys : List String}
    (inXs : ∀ s ∈ xs, c ∉ s.toList) (inYs : ∀ s ∈ ys, c ∉ s.toList) (someXs : xs ≠ [])
    (someYs : ys ≠ [])
    (same : sep.intercalate xs = sep.intercalate ys) : xs = ys := by
  have pieces {zs : List String} (free : ∀ s ∈ zs, c ∉ s.toList) (some : zs ≠ []) :
      (sep.intercalate zs).toList.splitOn c = zs.map String.toList := by
    rw [String.toList_intercalate, one]
    exact List.splitOn_intercalate c (by simpa using free) (by simpa using some)
  have mapped : xs.map String.toList = ys.map String.toList := by
    rw [← pieces inXs someXs, same, pieces inYs someYs]
  exact List.map_injective_iff.2 (fun _ _ => String.toList_inj.1) mapped

-- Of two parts that both end before the first separator, neither goes on beyond the other.
theorem parts_of_append (one : sep.toList = [c]) {a a' b b' : String} (inA : c ∉ a.toList)
    (inA' : c ∉ a'.toList) (same : a ++ sep ++ b = a' ++ sep ++ b') : a = a' ∧ b = b' := by
  have lists : a.toList ++ c :: b.toList = a'.toList ++ c :: b'.toList := by
    have := congrArg String.toList same
    simpa [String.toList_append, one] using this
  obtain ⟨more, longer, rest⟩ | ⟨more, longer, rest⟩ := List.append_eq_append_iff.1 lists
  · cases more with
    | nil => exact ⟨String.toList_inj.1 (by simpa using longer.symm),
      String.toList_inj.1 (by simpa using rest)⟩
    | cons m ms =>
      obtain ⟨rfl, _⟩ := List.cons.inj rest
      exact absurd (by simp [longer]) inA'
  · cases more with
    | nil => exact ⟨String.toList_inj.1 (by simpa using longer),
      String.toList_inj.1 (by simpa using rest.symm)⟩
    | cons m ms =>
      obtain ⟨rfl, _⟩ := List.cons.inj rest
      exact absurd (by simp [longer]) inA

end Text

namespace Descriptor

structure Plain (d : Descriptor) : Prop where
  name : Text.Plain d.name
  params : ∀ ps ∈ d.params, ∀ p ∈ ps, Text.Plain p

theorem eq_nil_of_intercalate {ps : List String} (plain : ∀ p ∈ ps, Text.Plain p)
    (empty : ",".intercalate ps = "") :
    ps = [] := by
  cases ps with
  | nil => rfl
  | cons p ps =>
    have nonempty := (plain p List.mem_cons_self).1
    cases ps with
    | nil => exact absurd (by simpa using empty) nonempty
    | cons q qs =>
      rw [String.intercalate_cons_cons, String.append_eq_empty_iff,
        String.append_eq_empty_iff] at empty
      exact absurd empty.1.1 nonempty

-- No parameters and one are told apart because no name is empty.
theorem params_of_intercalate {ps qs : List String} (plain : ∀ p ∈ ps, Text.Plain p)
    (plain' : ∀ q ∈ qs, Text.Plain q) (same : ",".intercalate ps = ",".intercalate qs) :
    ps = qs := by
  by_cases none : ps = []
  · subst none
    exact (eq_nil_of_intercalate plain' (by rw [← same, String.intercalate_nil])).symm
  · by_cases none' : qs = []
    · subst none'
      exact eq_nil_of_intercalate plain (by rw [same, String.intercalate_nil])
    · exact Text.pieces_of_intercalate rfl (fun p listed => (plain p listed).2 ',' (by simp))
        (fun q listed => (plain' q listed).2 ',' (by simp)) none none' same

variable {d d' : Descriptor}

theorem Plain.notMem_text (plain : d.Plain) {c : Char} (divides : c ∈ [' ', '/']) :
    c ∉ d.text.toList := by
  have divider : c ∈ [' ', '/', '(', ')', ','] := List.mem_append_left ['(', ')', ','] divides
  have inName := plain.name.2 c divider
  cases params : d.params with
  | none => simpa [text, params] using inName
  | some ps =>
    have inParams : c ∉ (",".intercalate ps).toList := by
      intro held
      rcases Text.mem_intercalate held with comma | ⟨p, listed, inside⟩
      · obtain rfl : c = ',' := by simpa using comma
        simp at divides
      · exact (plain.params ps params p listed).2 c divider inside
    have bracket : c ≠ '(' ∧ c ≠ ')' := by
      constructor <;> rintro rfl <;> simp at divides
    simp only [text, params, String.toList_append, List.mem_append, not_or]
    exact ⟨⟨⟨inName, by simpa using bracket.1⟩, inParams⟩, by simpa using bracket.2⟩

theorem eq_of_text (plain : d.Plain) (plain' : d'.Plain) (kind : d.kind = d'.kind)
    (same : d.text = d'.text) :
    d = d' := by
  obtain ⟨_, name, params⟩ := d
  obtain ⟨_, name', params'⟩ := d'
  obtain rfl := kind
  have bracket {s : String} (plain : Text.Plain s) : '(' ∉ s.toList := plain.2 '(' (by simp)
  have bracketed (n ps : String) : '(' ∈ (n ++ "(" ++ ps ++ ")").toList := by
    simp [String.toList_append]
  cases params with
  | none =>
    cases params' with
    | none => exact congrArg (Descriptor.mk _ · none) same
    | some ps =>
      have written : name = name' ++ "(" ++ ",".intercalate ps ++ ")" := same
      exact absurd (written ▸ bracketed name' _) (bracket plain.name)
  | some ps =>
    cases params' with
    | none =>
      have written : name ++ "(" ++ ",".intercalate ps ++ ")" = name' := same
      exact absurd (written ▸ bracketed name _) (bracket plain'.name)
    | some qs =>
      have whole : name ++ "(" ++ (",".intercalate ps ++ ")") = name' ++ "(" ++
          (",".intercalate qs ++ ")") := by
        simpa [text, String.append_assoc] using same
      obtain ⟨rfl, lists⟩ :=
        Text.parts_of_append rfl (bracket plain.name) (bracket plain'.name) whole
      rw [String.append_left_inj] at lists
      rw [params_of_intercalate (plain.params ps rfl) (plain'.params qs rfl) lists]

end Descriptor

structure Reference where
  stem : Option String
  owner : String
  member : Descriptor
deriving DecidableEq

namespace Reference

def key (r : Reference) : String := r.stem.elim "" (· ++ UnitKey.mark)

def text (r : Reference) :
    String := r.key ++ r.owner ++ "/[" ++ r.member.kind.tag ++ "]/" ++ r.member.text

theorem exists_stem_of_key {r : Reference} (keyed : r.key ≠ "") : ∃ s, r.stem = some s := by
  cases stem : r.stem with
  | none => simp [key, stem] at keyed
  | some s => exact ⟨s, rfl⟩

structure Plain (r : Reference) : Prop where
  stem : ∀ s ∈ r.stem, '/' ∉ s.toList
  owner : Text.Plain r.owner
  member : r.member.Plain

def tagPiece (k : MemberKind) : String := "[" ++ k.tag ++ "]"

theorem tagPiece_inj {k k' : MemberKind} (same : tagPiece k = tagPiece k') : k = k' := by
  cases k <;> cases k' <;> first | rfl | exact absurd same (by decide +kernel)

theorem notMem_tagPiece (k : MemberKind) : '/' ∉ (tagPiece k).toList := by
  cases k <;> decide +kernel

def pieces (r : Reference) : List String :=
  r.stem.elim [] (fun s => [s, "[CN]"]) ++ [r.owner, tagPiece r.member.kind, r.member.text]

theorem text_eq (r : Reference) : r.text = "/".intercalate r.pieces := by
  apply String.toList_inj.1
  obtain ⟨stem, owner, member⟩ := r
  cases stem with
  | none => simp [text, key, pieces, tagPiece, String.toList_append]
  | some s => simp [text, key, pieces, tagPiece, UnitKey.mark, String.toList_append]

variable {r r' q q' : Reference}

theorem Plain.notMem_pieces (plain : r.Plain) : ∀ s ∈ r.pieces, '/' ∉ s.toList := by
  have owner := plain.owner.2 '/' (by simp)
  have member := plain.member.notMem_text (c := '/') (by simp)
  obtain ⟨stem, _, _⟩ := r
  cases stem with
  | none => simpa [pieces, notMem_tagPiece] using ⟨owner, member⟩
  | some s =>
    have stem := plain.stem s rfl
    simpa [pieces, notMem_tagPiece] using ⟨stem, owner, member⟩

theorem eq_of_parts (plain : r.Plain) (plain' : r'.Plain) (stem : r.stem = r'.stem)
    (owner : r.owner = r'.owner) (tag : tagPiece r.member.kind = tagPiece r'.member.kind)
    (text : r.member.text = r'.member.text) : r = r' := by
  obtain ⟨_, _, _⟩ := r
  obtain ⟨_, _, _⟩ := r'
  have member := Descriptor.eq_of_text plain.member plain'.member (tagPiece_inj tag) text
  simp_all

-- A reference without a key has two pieces less.
theorem eq_of_text (plain : r.Plain) (plain' : r'.Plain) (same : r.text = r'.text) : r = r' := by
  rw [text_eq, text_eq] at same
  have cut := Text.pieces_of_intercalate (c := '/') rfl plain.notMem_pieces plain'.notMem_pieces
    (by simp [pieces]) (by simp [pieces]) same
  have parts : r.stem = r'.stem ∧ r.owner = r'.owner ∧
      tagPiece r.member.kind = tagPiece r'.member.kind ∧
      r.member.text = r'.member.text := by
    cases stem : r.stem with
    | none =>
      cases stem' : r'.stem with
      | none => simpa [pieces, stem, stem'] using cut
      | some s' => simp [pieces, stem, stem'] at cut
    | some s =>
      cases stem' : r'.stem with
      | none => simp [pieces, stem, stem'] at cut
      | some s' => simpa [pieces, stem, stem'] using cut
  exact eq_of_parts plain plain' parts.1 parts.2.1 parts.2.2.1 parts.2.2.2

def divided (sep : String) (r : Reference) (target : String) (rest : List String) : List String :=
  [r.stem.getD "", "[CN]", r.owner, tagPiece r.member.kind, r.member.text ++ sep ++ target,
    "[CN]"] ++ rest

theorem text_divided {s : String} (keyed : r.stem = some s) (sep target : String) :
    r.text ++ sep ++ (target ++ UnitKey.mark) = "/".intercalate (r.divided sep target [""]) := by
  apply String.toList_inj.1
  simp [text, key, divided, keyed, tagPiece, UnitKey.mark, String.toList_append]

theorem text_divided_text {s s' : String} (keyed : r.stem = some s) (keyed' : r'.stem = some s')
    (sep : String) :
    r.text ++ sep ++ r'.text =
      "/".intercalate (r.divided sep s' [r'.owner, tagPiece r'.member.kind, r'.member.text]) := by
  apply String.toList_inj.1
  simp [text, key, divided, keyed, keyed', tagPiece, UnitKey.mark, String.toList_append]

section Divided

variable {c : Char} {sep : String} (one : sep.toList = [c]) (notSlash : c ≠ '/')

include one notSlash

theorem notMem_divided {s target : String} {rest : List String} (plain : r.Plain)
    (keyed : r.stem = some s) (inTarget : '/' ∉ target.toList)
    (inRest : ∀ s ∈ rest, '/' ∉ s.toList) :
    ∀ s ∈ r.divided sep target rest, '/' ∉ s.toList := by
  have stem := plain.stem s keyed
  have owner := plain.owner.2 '/' (by simp)
  have member := plain.member.notMem_text (c := '/') (by simp)
  have middle : '/' ∉ (r.member.text ++ sep ++ target).toList := by
    simp [String.toList_append, one, member, inTarget, notSlash.symm]
  intro piece listed
  rcases List.mem_append.1 listed with first | later
  · have mark : '/' ∉ "[CN]".toList := by decide +kernel
    simp only [keyed, Option.getD_some, List.mem_cons, List.not_mem_nil, or_false] at first
    rcases first with rfl | rfl | rfl | rfl | rfl | rfl
    exacts [stem, mark, owner, notMem_tagPiece _, middle, mark]
  · exact inRest piece later

theorem eq_of_divided {s t target target' : String} {rest rest' : List String} (plain : r.Plain)
    (plain' : q.Plain) (keyed : r.stem = some s) (keyed' : q.stem = some t)
    (inMember : c ∉ r.member.text.toList)
    (inMember' : c ∉ q.member.text.toList) (inTarget : '/' ∉ target.toList)
    (inTarget' : '/' ∉ target'.toList) (inRest : ∀ s ∈ rest, '/' ∉ s.toList)
    (inRest' : ∀ s ∈ rest', '/' ∉ s.toList)
    (same : "/".intercalate (r.divided sep target rest) =
      "/".intercalate (q.divided sep target' rest')) :
    r = q ∧ target = target' ∧ rest = rest' := by
  have cut := Text.pieces_of_intercalate (c := '/') rfl
    (notMem_divided one notSlash plain keyed inTarget inRest) (notMem_divided one notSlash plain'
      keyed' inTarget' inRest') (by simp [divided]) (by simp [divided]) same
  simp only [divided, keyed, keyed', Option.getD_some, List.cons_append, List.nil_append,
    List.cons.injEq, true_and] at cut
  obtain ⟨stem, owner, tag, middle, rest⟩ := cut
  obtain ⟨member, target⟩ := Text.parts_of_append one inMember inMember' middle
  exact ⟨eq_of_parts plain plain' (by rw [keyed, keyed', stem]) owner tag member, target, rest⟩

end Divided

theorem eq_of_line {s s' t t' : String} (plain : r.Plain) (plain' : r'.Plain) (plainQ : q.Plain)
    (plainQ' : q'.Plain) (keyed : r.stem = some s) (keyed' : r'.stem = some s')
    (keyedQ : q.stem = some t) (keyedQ' : q'.stem = some t')
    (same : r.text ++ " " ++ r'.text = q.text ++ " " ++ q'.text) : r = q ∧ r' = q' := by
  rw [text_divided_text keyed keyed', text_divided_text keyedQ keyedQ'] at same
  have rest {p : Reference} (plain : p.Plain) :
      ∀ s ∈ [p.owner, tagPiece p.member.kind, p.member.text], '/' ∉ s.toList :=
    fun s listed => plain.notMem_pieces s (List.mem_append_right _ listed)
  obtain ⟨first, stem, second⟩ := eq_of_divided (c := ' ') rfl (by decide) plain plainQ keyed keyedQ
    (plain.member.notMem_text (by simp)) (plainQ.member.notMem_text (by simp))
    (plain'.stem s' keyed')
    (plainQ'.stem t' keyedQ') (rest plain') (rest plainQ') same
  simp only [List.cons.injEq, and_true] at second
  exact ⟨first, eq_of_parts plain' plainQ' (by rw [keyed', keyedQ', stem]) second.1
    second.2.1 second.2.2⟩

theorem eq_of_fieldLine {s t target target' : String} (plain : r.Plain) (plainQ : q.Plain)
    (keyed : r.stem = some s) (keyedQ : q.stem = some t) (inMember : '\t' ∉ r.member.text.toList)
    (inMember' : '\t' ∉ q.member.text.toList)
    (inTarget : '/' ∉ target.toList) (inTarget' : '/' ∉ target'.toList)
    (same : r.text ++ "\t" ++ (target ++ UnitKey.mark) = q.text ++ "\t" ++
      (target' ++ UnitKey.mark)) :
    r = q ∧ target = target' := by
  rw [text_divided keyed, text_divided keyedQ] at same
  obtain ⟨first, stem, _⟩ := eq_of_divided rfl (by decide) plain plainQ keyed keyedQ inMember
    inMember' inTarget
    inTarget' (by simp) (by simp) same
  exact ⟨first, stem⟩

end Reference

namespace Path

def Plain (p : Path) : Prop := ∀ s ∈ p.segments, '/' ∉ s.toList

theorem plain_ofString (s : String) : (ofString s).Plain := fun piece listed =>
  Text.notMem_split '/' s piece (List.mem_filter.1 listed).1

theorem mem_stepUp {absolute : Bool} {done : List String} {s : String}
    (listed : s ∈ stepUp absolute done) :
    s ∈ done ∨ s = ".." := by
  unfold stepUp at listed
  split at listed
  · split at listed <;> simp_all
  · split at listed <;> simp_all

theorem mem_resolveOnto {absolute : Bool} {done ss : List String} {s : String}
    (listed : s ∈ resolveOnto absolute done ss) : s ∈ done ∨ s ∈ ss ∨ s = ".." := by
  induction ss generalizing done with
  | nil => exact .inl (by simpa [resolveOnto] using listed)
  | cons x xs ih =>
    rw [resolveOnto] at listed
    split at listed
    · rcases ih listed with up | later | dots
      · rcases mem_stepUp up with before | dots
        · exact .inl before
        · exact .inr (.inr dots)
      · exact .inr (.inl (List.mem_cons_of_mem _ later))
      · exact .inr (.inr dots)
    · rcases ih listed with done | later | dots
      · rcases List.mem_cons.1 done with rfl | before
        · exact .inr (.inl List.mem_cons_self)
        · exact .inl before
      · exact .inr (.inl (List.mem_cons_of_mem _ later))
      · exact .inr (.inr dots)

theorem Plain.resolve {p : Path} (plain : p.Plain) : p.resolve.Plain := by
  intro s listed
  rcases mem_resolveOnto listed with none | written | rfl
  · simp at none
  · exact plain s written
  · decide +kernel

end Path

namespace UnitKey

theorem notMem_ofSegments {segments : List String} (plain : ∀ s ∈ segments, '/' ∉ s.toList) :
    '/' ∉ ("_".intercalate segments).toList := by
  intro held
  rcases Text.mem_intercalate held with joint | ⟨s, listed, inside⟩
  · simp at joint
  · exact plain s listed inside

theorem exists_stem (roots : List Path) {p? : Option Path} (plain : ∀ p ∈ p?, p.Plain) :
    ∃ stem : Option String, (∀ s ∈ stem, '/' ∉ s.toList) ∧
      ofPath? roots p? = stem.elim "" (· ++ mark) := by
  have marked {segments : List String} (plain : ∀ s ∈ segments, '/' ∉ s.toList) :
      ∃ stem : Option String, (∀ s ∈ stem, '/' ∉ s.toList) ∧
        ofSegments segments = stem.elim "" (· ++ mark) :=
    ⟨some ("_".intercalate segments), by simpa using notMem_ofSegments plain, rfl⟩
  cases p? with
  | none => exact ⟨none, by simp, rfl⟩
  | some p =>
    have resolved := (plain p rfl).resolve
    rw [ofPath?, ofPath]
    split
    next => exact ⟨none, by simp, rfl⟩
    next =>
      refine marked fun s listed => ?_
      obtain rfl := List.mem_singleton.1 listed
      unfold Path.name
      rw [List.getLastD_eq_getLast?]
      cases last : p.resolve.segments.getLast? with
      | none => simp
      | some s => exact resolved s (List.mem_of_getLast? last)
    next segments _ below =>
      obtain ⟨root, _, inside⟩ := List.exists_of_findSome?_eq_some below
      unfold Path.relativeTo? at inside
      split at inside
      · obtain rfl := Option.some.inj inside
        exact marked fun s listed => resolved s (List.mem_of_mem_drop listed)
      · cases inside

end UnitKey

namespace Member

/-- A member as its signature describes it, where a method named like its type is a method. -/
def written : Member → Descriptor
  | .method m => { kind := .method, name := m.name, params := some (rawTypes m.params) }
  | .constructor c => { kind := .constructor, name := c.name, params := some (rawTypes c.params) }
  | .field f => { kind := .field, name := f.name }

structure Plain (m : Member) : Prop where
  name : Text.Plain m.name
  params : ∀ raw ∈ rawTypes m.params, Text.Plain raw

instance (m : Member) : Decidable m.Plain :=
  decidable_of_iff (Text.Plain m.name ∧ ∀ raw ∈ rawTypes m.params, Text.Plain raw)
    ⟨fun h => ⟨h.1, h.2⟩, fun h => ⟨h.name, h.params⟩⟩

variable {m : Member}

theorem Plain.written (plain : m.Plain) : m.written.Plain := by
  refine ⟨?_, fun ps given => ?_⟩
  · cases m <;> exact plain.name
  · cases m with
    | method m => exact Option.some.inj given ▸ plain.params
    | constructor c => exact Option.some.inj given ▸ plain.params
    | field f => cases given

-- References and signatures differ at most in the tag.
theorem Plain.descriptor (plain : m.Plain) (owner : String) : (m.descriptor owner).Plain := by
  have name : (m.descriptor owner).name = m.written.name := by cases m <;> rfl
  have params : (m.descriptor owner).params = m.written.params := by cases m <;> rfl
  exact ⟨name ▸ plain.written.name, params ▸ plain.written.params⟩

-- A signature gives the name of a constructor in place of its type's.
theorem text_signature {owner : String} (named : ∀ c, m = .constructor c → c.name = owner)
    (stem : Option String) :
    m.signature (Reference.key ⟨stem, owner, m.written⟩) owner =
      Reference.text ⟨stem, owner, m.written⟩ := by
  cases m with
  | method m => rfl
  | constructor c =>
    obtain rfl := named c rfl
    rfl
  | field f => rfl

end Member

theorem Outline.Declared.name_of_constructor {d : TypeDecl} (declared : Declared d)
    {c : Constructor} (listed : c ∈ d.constructors) : c.name = d.name := by
  have written {owner : String} {components : List Param} {nodes : List Tree}
      (listed : c ∈ nodes.filterMap (constructor? owner components)) : c.name = owner := by
    obtain ⟨t, _, made⟩ := List.mem_filterMap.1 listed
    unfold constructor? at made
    split at made
    · obtain rfl := Option.some.inj made
      rfl
    · obtain rfl := Option.some.inj made
      rfl
    · cases made
  cases declared with
  | named spot kind t declares =>
    rw [name_declare]
    simp only [declare] at listed
    split at listed
    · simp only [withComponents] at listed
      split at listed
      · exact written listed
      · rcases List.mem_append.1 listed with before | canonical
        · exact written before
        · obtain rfl := List.mem_singleton.1 canonical
          rfl
    · exact written listed
  | anonymous owner base body => exact written listed

namespace Corpus

/-- A parsed corpus whose paths and names are plain; types without a name are not written in lines.
-/
structure Plain (c : Corpus) : Prop where
  parsed : ∀ u ∈ c.world.units, u.Parsed
  paths : ∀ u ∈ c.world.units, ∀ p ∈ u.path, p.Plain
  types : ∀ u ∈ c.world.units, ∀ d ∈ u.types, d.isNamed = true → Text.Plain d.name
  members : ∀ u ∈ c.world.units, ∀ d ∈ u.types, d.isNamed = true → ∀ m ∈ d.members, m.Plain

namespace Plain

variable {c : Corpus} (plain : c.Plain)

include plain

theorem exists_stem (unit : Nat) :
    ∃ stem : Option String, (∀ s ∈ stem, '/' ∉ s.toList) ∧
      c.keyOf unit = stem.elim "" (· ++ UnitKey.mark) := by
  refine UnitKey.exists_stem c.roots fun p given => ?_
  rcases Nat.lt_or_ge unit c.world.units.length with loaded | beyond
  · exact plain.paths _ (World.unit_mem loaded) p given
  · have empty : c.world.unit unit = default := by simp [World.unit, beyond]
    rw [empty] at given
    cases given

-- A key that is not empty has a stem.
theorem exists_stem_of_ne {unit : Nat} (keyed : c.keyOf unit ≠ "") :
    ∃ s, '/' ∉ s.toList ∧ c.keyOf unit = s ++ UnitKey.mark := by
  obtain ⟨stem, free, key⟩ := plain.exists_stem unit
  cases stem with
  | none => exact absurd key keyed
  | some s => exact ⟨s, free s rfl, key⟩

theorem exists_reference {m : MemberOf} (declares : c.Declares m) (unit : Nat) :
    ∃ r : Reference, r.Plain ∧ r.key = c.keyOf unit ∧ r.owner = (c.world.decl m.owner).name ∧
      r.member = m.member.written ∧
      m.member.signature (c.keyOf unit) (c.world.decl m.owner).name = r.text := by
  obtain ⟨stem, free, key⟩ := plain.exists_stem unit
  have type := World.type?_of_mem_members declares.member
  have loaded := World.unit_mem declares.loaded
  have listed := List.mem_of_getElem? type
  have named : ∀ k, m.member = .constructor k → k.name = (c.world.decl m.owner).name := by
    intro k isConstructor
    have among : k ∈ (c.world.decl m.owner).constructors := by
      simpa [isConstructor, TypeDecl.members] using declares.member
    exact ((plain.parsed _ loaded).declared type).name_of_constructor among
  refine ⟨⟨stem, (c.world.decl m.owner).name, m.member.written⟩, ⟨free, ?_, ?_⟩, key.symm,
    rfl, rfl, ?_⟩
  · exact plain.types _ loaded _ listed declares.named
  · exact (plain.members _ loaded _ listed declares.named _ declares.member).written
  · rw [key]
    exact Member.text_signature named stem

end Plain

-- What a site refers to is a member of its type, and the edge is made of the two.
theorem edgeTo?_of_mem_dependencies {c : Corpus} {unit : Nat} {e : DependencyEdge}
    (emitted : .dependency e ∈ (c.dependencies unit).1) :
    ∃ s ∈ c.sites unit, ∃ m, m.member ∈ (c.world.decl m.owner).members ∧
      c.edgeTo? s m = some e := by
  obtain ⟨outcome, made, written⟩ := List.mem_filterMap.1 emitted
  obtain ⟨edge, isEdge, same⟩ := Option.map_eq_some_iff.1 written
  obtain rfl := Relation.dependency.inj same
  obtain ⟨s, visited, known, rfl⟩ := mem_resolveSites made
  have site := Sites.ofUnit_justified (mem_sites visited).2
  obtain ⟨m, target, made⟩ := edge_of_resolveSite isEdge
  exact ⟨s, visited, m,
    ((c.env s).ensures_targetOf s.node site.kind known _ target m rfl).mem_members, made⟩

theorem mem_of_mem_firstDeclarators {seen : List NodeKey} {fs : List Field} {f : Field}
    (first : f ∈ firstDeclarators seen fs) : f ∈ fs := by
  induction fs generalizing seen with
  | nil => simp [firstDeclarators] at first
  | cons g gs ih =>
    rw [firstDeclarators] at first
    split at first
    · exact List.mem_cons_of_mem _ (ih first)
    · split at first
      · exact List.mem_cons_of_mem _ (ih first)
      · rcases List.mem_cons.1 first with rfl | later
        · exact List.mem_cons_self
        · exact List.mem_cons_of_mem _ (ih later)

namespace Plain

variable {c : Corpus} (plain : c.Plain)

include plain

theorem references_of_edge {unit : Nat} {e : DependencyEdge}
    (emitted : .dependency e ∈ (c.dependencies unit).1) :
    ∃ (r r' : Reference) (s s' : String), r.Plain ∧ r'.Plain ∧ r.stem = some s ∧ r'.stem = some s' ∧
      e = { source := r.text, sourceKey := r.key, targetType := r'.owner, targetKey :=
        r'.key, target := r'.member } := by
  obtain ⟨site, visited, m, member, made⟩ := edgeTo?_of_mem_dependencies emitted
  obtain ⟨rooted, walked⟩ := mem_sites visited
  have justified := Sites.ofUnit_justified walked
  obtain ⟨_, _, _, declared⟩ := justified.owner.above
  have source := declares_of_mem plain.parsed declared.member justified.owner.named
  unfold edgeTo? at made
  dsimp only at made
  split at made
  next => cases made
  next nonempty =>
    obtain rfl := Option.some.inj made
    rw [not_or] at nonempty
    have type := World.type?_of_mem_members member
    have loaded := World.unit_mem (World.loaded_of_type? type)
    have named := ((plain.parsed _ loaded).declared type).isNamed_of_name_ne nonempty.1
    have listed := List.mem_of_getElem? type
    obtain ⟨s', free, targetKey⟩ := plain.exists_stem_of_ne nonempty.2
    obtain ⟨r, plainSource, key, _, _, signature⟩ := plain.exists_reference source site.context.unit
    have keyed : r.key ≠ "" := by
      rw [key, justified.unit_eq]
      exact rooted
    obtain ⟨s, stem⟩ := Reference.exists_stem_of_key keyed
    refine ⟨r, ⟨some s', (c.world.decl m.owner).name,
      m.member.descriptor (c.world.decl m.owner).name⟩, s, s',
      plainSource, ⟨?_, ?_, ?_⟩, stem, rfl, ?_⟩
    · rintro _ ⟨⟩
      exact free
    · exact plain.types _ loaded _ listed named
    · exact (plain.members _ loaded _ listed named _ member).descriptor _
    · rw [signature, targetKey, key]
      rfl

theorem exists_stem_of_targetKey? {target : TypeId} {key : String}
    (found : c.targetKey? target = some key) :
    ∃ s, '/' ∉ s.toList ∧ key = s ++ UnitKey.mark := by
  unfold targetKey? at found
  dsimp only at found
  split at found
  next => cases found
  next keyed =>
    obtain rfl := Option.some.inj found
    exact plain.exists_stem_of_ne keyed

theorem stems_of_inheritance {unit : Nat} {rel : Relation} (made : rel ∈ c.inheritance unit) :
    ∃ s s' : String, '/' ∉ s.toList ∧ '/' ∉ s'.toList ∧
      rel = .inheritance (s ++ UnitKey.mark) (s' ++ UnitKey.mark) := by
  unfold inheritance at made
  dsimp only at made
  split at made
  next => simp at made
  next keyed =>
    obtain ⟨id, _, listed⟩ := List.mem_flatMap.1 made
    unfold inheritanceOf at listed
    dsimp only at listed
    split at listed
    · obtain ⟨written, _, relates⟩ := List.mem_filterMap.1 listed
      obtain ⟨target, _, relates⟩ := Option.bind_eq_some_iff.1 relates
      obtain ⟨key, targetKey, relates⟩ := Option.bind_eq_some_iff.1 relates
      obtain rfl := Option.some.inj relates
      obtain ⟨s, free, stem⟩ := plain.exists_stem_of_ne keyed
      obtain ⟨s', free', stem'⟩ := plain.exists_stem_of_targetKey? targetKey
      exact ⟨s, s', free, free', by rw [stem, stem']⟩
    · simp at listed

theorem reference_of_fieldType {unit : Nat} {rel : Relation} (made : rel ∈ c.fieldTypes unit) :
    ∃ (r : Reference) (s s' : String), r.Plain ∧ r.stem = some s ∧ '/' ∉ s'.toList ∧
      (∃ id, ∃ f ∈ (c.world.decl id).fields, r.member = (Member.field f).written) ∧
      rel = .fieldType r.text (s' ++ UnitKey.mark) := by
  unfold fieldTypes at made
  dsimp only at made
  split at made
  next => simp at made
  next keyed =>
    obtain ⟨id, _, listed⟩ := List.mem_flatMap.1 made
    unfold fieldTypesOf at listed
    dsimp only at listed
    split at listed
    next => simp at listed
    next notAnonymous =>
      obtain ⟨f, first, relates⟩ := List.mem_filterMap.1 listed
      obtain ⟨target, _, relates⟩ := Option.bind_eq_some_iff.1 relates
      obtain ⟨key, targetKey, relates⟩ := Option.bind_eq_some_iff.1 relates
      obtain rfl := Option.some.inj relates
      have field := mem_of_mem_firstDeclarators first
      have member : Member.field f ∈ (c.world.decl id).members :=
        List.mem_append_right _ (List.mem_map.2 ⟨f, field, rfl⟩)
      have declares : c.Declares ⟨id, .field f⟩ :=
        declares_of_mem plain.parsed member (by simpa [TypeDecl.isNamed] using notAnonymous)
      obtain ⟨r, plainSource, sourceKey, _, written, signature⟩ :=
        plain.exists_reference declares unit
      obtain ⟨s, stem⟩ := Reference.exists_stem_of_key (sourceKey ▸ keyed)
      obtain ⟨s', free', stem'⟩ := plain.exists_stem_of_targetKey? targetKey
      exact ⟨r, s, s', plainSource, stem, free', ⟨id, f, field, written⟩,
        by rw [← signature, stem']⟩

end Plain

theorem Plain.notMem_fieldText {c : Corpus} (plain : c.Plain)
    (lexed : ∀ u ∈ c.world.units, u.tree.Lexed) {id : TypeId} {f : Field}
    (field : f ∈ (c.world.decl id).fields) : '\t' ∉ (Member.field f).written.text.toList := by
  have member : Member.field f ∈ (c.world.decl id).members :=
    List.mem_append_right _ (List.mem_map.2 ⟨f, field, rfl⟩)
  have type := World.type?_of_mem_members member
  have loaded := World.unit_mem (World.loaded_of_type? type)
  exact (plain.parsed _ loaded).notMem_fieldName (lexed _ loaded) (List.mem_of_getElem? type) field

theorem stems_of_line {s s' t t' : String} (free : '/' ∉ s.toList) (free' : '/' ∉ s'.toList)
    (freeT : '/' ∉ t.toList) (freeT' : '/' ∉ t'.toList)
    (same : (s ++ UnitKey.mark) ++ "\t" ++ (s' ++ UnitKey.mark) = (t ++ UnitKey.mark) ++ "\t" ++
      (t' ++ UnitKey.mark)) :
    s = t ∧ s' = t' := by
  have line (a b : String) : (a ++ UnitKey.mark) ++ "\t" ++ (b ++ UnitKey.mark) =
      "/".intercalate [a, "[CN]", "\t" ++ b, "[CN]", ""] := by
    apply String.toList_inj.1
    simp [UnitKey.mark, String.toList_append]
  rw [line, line] at same
  have cut := Text.pieces_of_intercalate (c :=
    '/') rfl (by simp [free, free']) (by simp [freeT, freeT']) (by simp) (by simp) same
  simpa using cut

/-- Lines with the same text are the same relation, and signatures with the same text are those of
the same member of the same type. -/
theorem lines_are_decodable (c c' : Corpus) (plain : c.Plain) (plain' : c'.Plain)
    (lexed : ∀ u ∈ c.world.units, u.tree.Lexed) (lexed' : ∀ u ∈ c'.world.units, u.tree.Lexed)
    (unit unit' : Nat) :
    (∀ e e', .dependency e ∈ (c.dependencies unit).1 → .dependency e' ∈ (c'.dependencies unit').1 →
      e.line = e'.line → e = e') ∧
    (∀ m m', c.Declares m → c'.Declares m' →
      m.member.signature (c.keyOf unit) (c.world.decl m.owner).name =
        m'.member.signature (c'.keyOf unit') (c'.world.decl m'.owner).name →
      c.keyOf unit = c'.keyOf unit' ∧ (c.world.decl m.owner).name = (c'.world.decl m'.owner).name ∧
        m.member.written = m'.member.written) ∧
    (∀ r ∈ c.inheritance unit, ∀ r' ∈ c'.inheritance unit', r.line = r'.line → r = r') ∧
    ∀ r ∈ c.fieldTypes unit, ∀ r' ∈ c'.fieldTypes unit', r.line = r'.line → r = r' := by
  refine ⟨?_, ?_, ?_, ?_⟩
  · intro e e' emitted emitted' same
    obtain ⟨r, r', s, s', plainR, plainR', keyed, keyed', rfl⟩ := plain.references_of_edge emitted
    obtain ⟨q, q', t, t', plainQ, plainQ', keyedQ, keyedQ', rfl⟩ :=
      plain'.references_of_edge emitted'
    have line (a b : Reference) : DependencyEdge.line
        { source := a.text, sourceKey := a.key, targetType := b.owner, targetKey := b.key,
          target := b.member } =
          a.text ++ " " ++ b.text := by
      simp [DependencyEdge.line, Reference.text, String.append_assoc]
    rw [line, line] at same
    obtain ⟨rfl, rfl⟩ :=
      Reference.eq_of_line plainR plainR' plainQ plainQ' keyed keyed' keyedQ keyedQ' same
    rfl
  · intro m m' declares declares' same
    obtain ⟨r, plainR, key, owner, member, signature⟩ := plain.exists_reference declares unit
    obtain ⟨q, plainQ, key', owner', member', signature'⟩ := plain'.exists_reference declares' unit'
    rw [signature, signature'] at same
    obtain rfl := Reference.eq_of_text plainR plainQ same
    exact ⟨key.symm.trans key', owner.symm.trans owner', member.symm.trans member'⟩
  · intro r made r' made' same
    obtain ⟨s, s', free, free', rfl⟩ := plain.stems_of_inheritance made
    obtain ⟨t, t', freeT, freeT', rfl⟩ := plain'.stems_of_inheritance made'
    obtain ⟨rfl, rfl⟩ := stems_of_line free free' freeT freeT' same
    rfl
  · intro r made r' made' same
    obtain ⟨p, s, s', plainP, keyed, free, ⟨_, f, field, member⟩, rfl⟩ :=
      plain.reference_of_fieldType made
    obtain ⟨q, t, t', plainQ, keyed', free', ⟨_, g, field', member'⟩, rfl⟩ :=
      plain'.reference_of_fieldType made'
    obtain ⟨rfl, rfl⟩ := Reference.eq_of_fieldLine plainP plainQ keyed keyed'
      (member ▸ plain.notMem_fieldText lexed field)
      (member' ▸ plain'.notMem_fieldText lexed' field')
      free free' same
    rfl

theorem plain_ofFiles {files : List (String × Tree)}
    (types : ∀ file ∈ files, ∀ d ∈ Outline.visitTop none 0 file.2.namedChildren, d.isNamed = true →
      Text.Plain d.name ∧ ∀ m ∈ d.members, m.Plain) : (ofFiles files).Plain := by
  have unit {u : SourceUnit} (listed : u ∈ (ofFiles files).world.units) :
      ∃ file ∈ files, u = SourceUnit.ofTree (some (.ofString file.1)) file.2 := by
    obtain ⟨file, among, rfl⟩ := List.mem_map.1 listed
    exact ⟨file, among, rfl⟩
  constructor
  · intro u listed
    obtain ⟨file, _, rfl⟩ := unit listed
    exact ⟨_, _, rfl⟩
  · intro u listed p given
    obtain ⟨file, _, rfl⟩ := unit listed
    obtain rfl := Option.some.inj given
    exact Path.plain_ofString file.1
  · intro u listed d declared named
    obtain ⟨file, among, rfl⟩ := unit listed
    exact (types file among d declared named).1
  · intro u listed d declared named
    obtain ⟨file, among, rfl⟩ := unit listed
    exact (types file among d declared named).2

-- The file `class A { A self; m() { m(); } }`, with a blank, a tab and a mark in its path.
def blankPath : Corpus :=
  ofFiles [("/my src/[CN]\tA.java", Node.file [
    Node.classDecl 0 "A" [] [
      Node.field 1 (Node.type "A") "self" [], Node.method 2 [] "m" [] [Node.call 4 [] "m" []]]])]

def blankPathEdge : DependencyEdge where
  source := "my src_[CN]\tA.java/[CN]/A/[MT]/m()"
  sourceKey := "my src_[CN]\tA.java/[CN]/"
  targetType := "A"
  targetKey := "my src_[CN]\tA.java/[CN]/"
  target := ⟨.method, "m", some []⟩

def blankPathField : Relation :=
  .fieldType "my src_[CN]\tA.java/[CN]/A/[FE]/self" "my src_[CN]\tA.java/[CN]/"

theorem lines_are_decodable_blankPath :
    blankPath.Plain ∧ (∀ u ∈ blankPath.world.units, u.tree.Lexed) ∧
      .dependency blankPathEdge ∈ (blankPath.dependencies 0).1 ∧
      blankPathField ∈ blankPath.fieldTypes 0 ∧
      (∀ e, .dependency e ∈ (blankPath.dependencies 0).1 →
        e.line = blankPathEdge.line → e = blankPathEdge) ∧
      ∀ r ∈ blankPath.fieldTypes 0, r.line = blankPathField.line → r = blankPathField := by
  have plain : blankPath.Plain := plain_ofFiles (by decide +kernel)
  have lexed : ∀ u ∈ blankPath.world.units, u.tree.Lexed := by decide +kernel
  have edge : .dependency blankPathEdge ∈ (blankPath.dependencies 0).1 := by decide +kernel
  have field : blankPathField ∈ blankPath.fieldTypes 0 := by decide +kernel
  obtain ⟨edges, _, _, fields⟩ :=
    lines_are_decodable blankPath blankPath plain plain lexed lexed 0 0
  exact ⟨plain, lexed, edge, field, fun e emitted same => edges e _ emitted edge same,
    fun r made same => fields r made _ field same⟩

end Corpus

end RefGraph

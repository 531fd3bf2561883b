import RefGraph.World

set_option autoImplicit false

namespace RefGraph

namespace Outline

inductive Declared : TypeDecl → Prop
  | named (spot : Spot) (kind : TypeKind) (t : Tree)
      (declares : TypeKind.ofNodeKind? t.kind = some kind) :
      Declared (declare spot kind t)
  | anonymous (owner : Owner) (base : TypeRef) (body : Tree) :
    Declared (declareAnonymous owner base body)

/-- Declarations listed from an index on: the type around each is the given one, or one listed
before it. -/
def Placed (outer : Option Nat) (next : Nat) (ds : List TypeDecl) : Prop :=
  ∀ j d, ds[j]? = some d → Declared d ∧
    (d.place.outer? = outer ∨ ∃ o, d.place.outer? = some o ∧ next ≤ o ∧ o < next + j)

theorem place_declare (spot : Spot) (kind : TypeKind) (t : Tree) :
    (declare spot kind t).place = spot.place := by
  simp only [declare]
  split <;> rfl

theorem kind_declare (spot : Spot) (kind : TypeKind) (t : Tree) :
    (declare spot kind t).kind = kind := by
  simp only [declare]
  split <;> rfl

theorem node_declare (spot : Spot) (kind : TypeKind) (t : Tree) :
    (declare spot kind t).node = t := by
  simp only [declare]
  split <;> rfl

theorem name_declare (spot : Spot) (kind : TypeKind) (t : Tree) :
    (declare spot kind t).name = (t.childText? "name").getD "" := by
  simp only [declare]
  split <;> rfl

theorem qualified_declare (spot : Spot) (kind : TypeKind) (t : Tree) :
    (declare spot kind t).qualified = spot.qualify (declare spot kind t).name := by
  rw [name_declare]
  simp only [declare]
  split <;> rfl

theorem ofNodeKind?_ne_anonymous (s : String) : TypeKind.ofNodeKind? s ≠ some .anonymousKind := by
  unfold TypeKind.ofNodeKind?
  split <;> simp

theorem isAnonymous_declare (spot : Spot) {kind : TypeKind} {t : Tree}
    (declares : TypeKind.ofNodeKind? t.kind = some kind) :
    (declare spot kind t).isAnonymous = false := by
  rw [TypeDecl.isAnonymous, kind_declare, beq_eq_false_iff_ne]
  rintro rfl
  exact ofNodeKind?_ne_anonymous t.kind declares

namespace Declared

theorem exists_of_anonymous {d : TypeDecl} (declared : Declared d)
    (anonymous : d.isAnonymous = true) :
    ∃ owner base body, d = declareAnonymous owner base body := by
  cases declared with
  | named spot kind t declares => simp [isAnonymous_declare spot declares] at anonymous
  | anonymous owner base body => exact ⟨owner, base, body, rfl⟩

theorem name_of_anonymous {d : TypeDecl} (declared : Declared d)
    (anonymous : d.isAnonymous = true) :
    d.name = "" := by
  obtain ⟨owner, base, body, rfl⟩ := declared.exists_of_anonymous anonymous
  rfl

theorem place_of_anonymous {d : TypeDecl} (declared : Declared d)
    (anonymous : d.isAnonymous = true) :
    ∃ outer, d.place = .code outer := by
  obtain ⟨owner, base, body, rfl⟩ := declared.exists_of_anonymous anonymous
  exact ⟨owner.index, rfl⟩

theorem isNamed_of_name_ne {d : TypeDecl} (declared : Declared d) (named : d.name ≠ "") :
    d.isNamed = true := by
  cases h : d.isAnonymous
  · simp [TypeDecl.isNamed, h]
  · exact absurd (declared.name_of_anonymous h) named

end Declared

namespace Placed

theorem nil (outer : Option Nat) (next : Nat) : Placed outer next [] := by
  intro j d found
  simp at found

theorem append {outer : Option Nat} {next : Nat} {ds es : List TypeDecl}
    (first : Placed outer next ds) (second : Placed outer (next + ds.length) es) :
    Placed outer next (ds ++ es) := by
  intro j d found
  rw [List.getElem?_append] at found
  split at found
  · exact first j d found
  · rename_i beyond
    obtain ⟨declared, same | ⟨o, ho, low, high⟩⟩ := second _ d found
    · exact ⟨declared, .inl same⟩
    · exact ⟨declared, .inr ⟨o, ho, by omega, by omega⟩⟩

theorem cons {outer : Option Nat} {next : Nat} {d : TypeDecl} {ds : List TypeDecl}
    (declared : Declared d) (place : d.place.outer? = outer)
    (inside : Placed (some next) (next + 1) ds) :
    Placed outer next (d :: ds) := by
  intro j e found
  cases j with
  | zero =>
    obtain rfl : d = e := by simpa using found
    exact ⟨declared, .inl place⟩
  | succ j =>
    obtain ⟨declared, same | ⟨o, ho, low, high⟩⟩ := inside j e (by simpa using found)
    · exact ⟨declared, .inr ⟨next, same, by omega, by omega⟩⟩
    · exact ⟨declared, .inr ⟨o, ho, by omega, by omega⟩⟩

end Placed

mutual
theorem placed_visit (spot : Spot) (next : Nat) :
    (t : Tree) → Placed spot.place.outer? next (visit spot next t)
  | t@{ kind, children, .. } => by
    unfold visit
    split
    next k declares =>
      exact .cons (.named _ _ _ declares) (by rw [place_declare])
        (placed_visitRole "body" _ (next + 1) children)
    next =>
      split
      · exact .nil _ _
      · rename_i owner
        -- The constants of an enum hold code in their arguments and in a body of their own.
        split
        · exact placed_visitAll (.code owner) next children
        · split
          · exact placed_visitAll (.body owner) next children
          · split
            · exact .append (placed_visitRole "arguments" (.code owner) next children)
                (placed_visitClassBody owner _ _ children)
            · exact .nil _ _
      · rename_i owner
        split
        · exact .append (placed_visitClassBody owner _ next children)
            (placed_visitBesideBody (.code owner) _ children)
        · exact placed_visitAll (.code owner) next children

theorem placed_visitAll (spot : Spot) (next : Nat) :
    (ts : List Tree) → Placed spot.place.outer? next (visitAll spot next ts)
  | [] => .nil _ _
  | t :: ts => by
    unfold visitAll
    refine .append ?_ (placed_visitAll spot _ ts)
    split
    · exact placed_visit spot next t
    · exact .nil _ _

theorem placed_visitRole (role : String) (spot : Spot) (next : Nat) :
    (ts : List Tree) → Placed spot.place.outer? next (visitRole role spot next ts)
  | [] => .nil _ _
  | t :: ts => by
    unfold visitRole
    split
    · exact placed_visitInside spot next t
    · exact placed_visitRole role spot next ts

theorem placed_visitInside (spot : Spot) (next : Nat) :
    (t : Tree) → Placed spot.place.outer? next (visitInside spot next t)
  | { children, .. } => by
    unfold visitInside
    exact placed_visitAll spot next children

theorem placed_visitClassBody (owner : Owner) (base : TypeRef) (next : Nat) :
    (ts : List Tree) → Placed (some owner.index) next (visitClassBody owner base next ts)
  | [] => .nil _ _
  | t :: ts => by
    unfold visitClassBody
    split
    · exact .cons (.anonymous _ _ _) rfl (placed_visitInside (.body ⟨next, "", none⟩) (next + 1) t)
    · exact placed_visitClassBody owner base next ts

theorem placed_visitBesideBody (spot : Spot) (next : Nat) :
    (ts : List Tree) → Placed spot.place.outer? next (visitBesideBody spot next ts)
  | [] => .nil _ _
  | t :: ts => by
    unfold visitBesideBody
    refine .append ?_ (placed_visitBesideBody spot _ ts)
    split
    · exact placed_visit spot next t
    · exact .nil _ _
end

theorem placed_visitTop (package : Option Name) (next : Nat) (ts : List Tree) :
    Placed none next (visitTop package next ts) := by
  induction ts generalizing package next with
  | nil => exact .nil _ _
  | cons t ts ih => exact .append (placed_visit (.top _) next t) (ih _ _)

end Outline

namespace SourceUnit

/-- A unit is parsed if it is what some tree declares. -/
def Parsed (u : SourceUnit) : Prop := ∃ path tree, u = ofTree path tree

theorem parsed_of_read {path : Option Path} {file : SourceFile} {u : SourceUnit}
    (made : read path file = .ok u) : u.Parsed := by
  unfold read at made
  split at made
  · simp at made
  · dsimp only at made
    split at made
    · simp at made
    · next tree _ =>
      unfold ofTree? at made
      split at made
      · simp at made
      · exact ⟨path, tree, by simpa using made.symm⟩

theorem Parsed.placed {u : SourceUnit} (parsed : u.Parsed) : Outline.Placed none 0 u.types := by
  obtain ⟨path, tree, rfl⟩ := parsed
  exact Outline.placed_visitTop none 0 _

theorem Parsed.declared {u : SourceUnit} (parsed : u.Parsed) {i : Nat} {d : TypeDecl}
    (found : u.type? i = some d) : Outline.Declared d := (parsed.placed i d found).1

theorem mem_indicesWhere {u : SourceUnit} {p : TypeDecl → Bool} {i : Nat} :
    i ∈ u.indicesWhere p ↔ ∃ d, u.type? i = some d ∧ p d = true := by
  simp only [indicesWhere, type?, List.mem_map, List.mem_filter, Prod.exists,
    List.mem_zipIdx_iff_getElem?]
  constructor
  · rintro ⟨d, j, ⟨found, holds⟩, rfl⟩
    exact ⟨d, found, holds⟩
  · rintro ⟨d, found, holds⟩
    exact ⟨d, i, ⟨found, holds⟩, rfl⟩

theorem mem_typeLevels_of_mem (u : SourceUnit) (depth : Nat) {level : List Nat} {i : Nat}
    (listed : i ∈ level) : i ∈ u.typeLevels (depth + 1) level := by
  cases level with
  | nil => simp at listed
  | cons j js => exact List.mem_append_left _ listed

theorem typeLevels_mono (u : SourceUnit) {depth more : Nat} (deeper : depth ≤ more)
    (level : List Nat) :
    u.typeLevels depth level ⊆ u.typeLevels more level := by
  induction depth generalizing more level with
  | zero => simp [typeLevels]
  | succ depth ih =>
    obtain ⟨more, rfl⟩ : ∃ k, more = k + 1 := ⟨more - 1, by omega⟩
    cases level with
    | nil => simp [typeLevels]
    | cons j js =>
      have below := ih (Nat.le_of_succ_le_succ deeper) ((j :: js).flatMap u.memberTypes)
      exact List.append_subset.2 ⟨List.subset_append_left ..,
        List.subset_append_of_subset_right _ below⟩

theorem mem_typeLevels_succ (u : SourceUnit) {depth : Nat} {level : List Nat} {outer i : Nat}
    (listed : outer ∈ u.typeLevels depth level) (member : i ∈ u.memberTypes outer) :
    i ∈ u.typeLevels (depth + 1) level := by
  induction depth generalizing level with
  | zero => simp [typeLevels] at listed
  | succ depth ih =>
    cases level with
    | nil => simp [typeLevels] at listed
    | cons j js =>
      rcases List.mem_append.1 listed with here | below
      · have next : i ∈ (j :: js).flatMap u.memberTypes := List.mem_flatMap.2 ⟨outer, here, member⟩
        exact List.mem_append_right _ (u.mem_typeLevels_of_mem depth next)
      · exact List.mem_append_right _ (ih below)

theorem Parsed.mem_allTypes {u : SourceUnit} (parsed : u.Parsed) {i : Nat} {d : TypeDecl}
    (found : u.type? i = some d) : i ∈ u.allTypes := by
  have listed : i ∈ u.typeLevels (i + 1) (u.topTypes ++ u.localTypes ++ u.anonymousTypes) := by
    -- The type around stands before, so strong induction on the index follows the levels.
    induction i using Nat.strongRecOn generalizing d with
    | ind i ih =>
      cases place : d.place with
      | top =>
        apply mem_typeLevels_of_mem
        simp [topTypes, mem_indicesWhere, found, place]
      | code outer =>
        apply mem_typeLevels_of_mem
        simp [localTypes, anonymousTypes, mem_indicesWhere, found, TypeDecl.isLocal,
          TypeDecl.isNamed, place]
      | body outer =>
        have before : outer < i := by
          obtain ⟨-, top | ⟨o, same, -, before⟩⟩ := parsed.placed i d found
          · simp [place, Place.outer?] at top
          · simp only [place, Place.outer?, Option.some.injEq] at same
            omega
        have inside : i < u.types.length := (List.getElem?_eq_some_iff.1 found).1
        obtain ⟨e, outerFound⟩ : ∃ e, u.type? outer = some e :=
          ⟨_, List.getElem?_eq_getElem (by omega)⟩
        have member : i ∈ u.memberTypes outer := by
          simp [memberTypes, mem_indicesWhere, found, place]
        exact u.typeLevels_mono (by omega) _
          (u.mem_typeLevels_succ (ih outer before outerFound) member)
  have inside : i < u.types.length := (List.getElem?_eq_some_iff.1 found).1
  exact u.typeLevels_mono inside _ listed

end SourceUnit

end RefGraph

import Mathlib.Logic.Relation
import RefGraph.Proofs.DeclarationIndex
import RefGraph.Proofs.Makers

set_option autoImplicit false

namespace RefGraph

namespace SourceUnit

open Outline Outline.Occurrence

section AllTypes

variable {u : SourceUnit}

theorem nodup_indicesWhere (u : SourceUnit) (p : TypeDecl → Bool) : (u.indicesWhere p).Nodup := by
  have all : (u.types.zipIdx.map (·.2)).Nodup := by
    rw [List.zipIdx_map_snd]
    exact List.nodup_range'
  exact (List.filter_sublist.map _).nodup all

theorem mem_memberTypes {outer i : Nat} : i ∈ u.memberTypes outer ↔ ∃ d, u.type? i = some d ∧
    d.place = .body outer := by
  simp [memberTypes, mem_indicesWhere]

def Inner (u : SourceUnit) (outer i : Nat) : Prop := i ∈ u.memberTypes outer

theorem Inner.unique {outer outer' i : Nat} (first : u.Inner outer i) (second : u.Inner outer' i) :
    outer = outer' := by
  obtain ⟨d, type, place⟩ := mem_memberTypes.1 first
  obtain ⟨d', type', place'⟩ := mem_memberTypes.1 second
  obtain rfl := Option.some.inj (type.symm.trans type')
  exact Place.body.inj (place.symm.trans place')

theorem exists_of_mem_typeLevels {depth : Nat} {level : List Nat} {i : Nat}
    (listed : i ∈ u.typeLevels depth level) :
    ∃ a ∈ level, Relation.ReflTransGen u.Inner a i := by
  induction depth generalizing level with
  | zero => simp [typeLevels] at listed
  | succ depth ih =>
    cases level with
    | nil => simp [typeLevels] at listed
    | cons j js =>
      rcases List.mem_append.1 listed with here | below
      · exact ⟨i, here, .refl⟩
      · obtain ⟨b, next, reaches⟩ := ih below
        obtain ⟨a, here, inner⟩ := List.mem_flatMap.1 next
        exact ⟨a, here, .head inner reaches⟩

def Unnested (u : SourceUnit) (level : List Nat) : Prop :=
  ∀ a ∈ level, ∀ b ∈ level, ¬ Relation.TransGen u.Inner a b

-- A way between two member types is one between their owners, shifted by a step at each end.
theorem Unnested.below {level : List Nat} (unnested : u.Unnested level) :
    u.Unnested (level.flatMap u.memberTypes) := by
  intro a' listed b' listed' way
  obtain ⟨a, here, inner⟩ := List.mem_flatMap.1 listed
  obtain ⟨b, here', inner'⟩ := List.mem_flatMap.1 listed'
  obtain ⟨c, reaches, last⟩ := Relation.TransGen.tail'_iff.1 way
  obtain rfl : c = b := Inner.unique last inner'
  exact unnested a here c here' (.head' inner reaches)

theorem nodup_flatMap_memberTypes {level : List Nat} (nodup : level.Nodup) :
    (level.flatMap u.memberTypes).Nodup := by
  rw [List.nodup_flatMap]
  refine ⟨fun a _ => u.nodup_indicesWhere _, nodup.imp fun {a b} different => ?_⟩
  intro i inner inner'
  exact different (Inner.unique inner inner')

theorem nodup_typeLevels {depth : Nat} {level : List Nat} (nodup : level.Nodup)
    (unnested : u.Unnested level) :
    (u.typeLevels depth level).Nodup := by
  induction depth generalizing level with
  | zero => simp [typeLevels]
  | succ depth ih =>
    cases level with
    | nil => simp [typeLevels]
    | cons j js =>
      refine List.nodup_append'.2 ⟨nodup, ih (nodup_flatMap_memberTypes nodup) unnested.below, ?_⟩
      intro i here below
      obtain ⟨b, next, reaches⟩ := exists_of_mem_typeLevels below
      obtain ⟨a, owner, inner⟩ := List.mem_flatMap.1 next
      exact unnested a owner i here (.head' inner reaches)

theorem disjoint_indicesWhere {p q : TypeDecl → Bool}
    (never : ∀ i d, u.type? i = some d → p d = true → q d = true → False) :
    List.Disjoint (u.indicesWhere p) (u.indicesWhere q) := by
  intro i listed listed'
  obtain ⟨d, type, holds⟩ := mem_indicesWhere.1 listed
  obtain ⟨d', type', holds'⟩ := mem_indicesWhere.1 listed'
  obtain rfl := Option.some.inj (type.symm.trans type')
  exact never i d type holds holds'

-- The types that the listing starts from.
theorem Parsed.not_inner (parsed : u.Parsed) {outer i : Nat}
    (listed : i ∈ u.topTypes ++ u.localTypes ++ u.anonymousTypes) : ¬ u.Inner outer i := by
  intro inner
  obtain ⟨d, type, inBody⟩ := mem_memberTypes.1 inner
  simp only [topTypes, localTypes, anonymousTypes, List.mem_append, mem_indicesWhere] at listed
  rcases listed with (⟨e, type', top⟩ | ⟨e, type', code⟩) | ⟨e, type', anonymous⟩
  · obtain rfl := Option.some.inj (type.symm.trans type')
    simp [inBody] at top
  · obtain rfl := Option.some.inj (type.symm.trans type')
    simp [TypeDecl.isLocal, inBody] at code
  · obtain rfl := Option.some.inj (type.symm.trans type')
    obtain ⟨outer', inCode⟩ := (parsed.declared type).place_of_anonymous anonymous
    cases inBody.symm.trans inCode

theorem Parsed.unnested (parsed : u.Parsed) :
    u.Unnested (u.topTypes ++ u.localTypes ++ u.anonymousTypes) := by
  intro a _ b listed way
  obtain ⟨outer, -, last⟩ := Relation.TransGen.tail'_iff.1 way
  exact parsed.not_inner listed last

theorem Parsed.nodup_allTypes (parsed : u.Parsed) : u.allTypes.Nodup := by
  have named : (u.topTypes ++ u.localTypes).Nodup := by
    refine List.nodup_append'.2 ⟨nodup_indicesWhere .., nodup_indicesWhere ..,
      disjoint_indicesWhere ?_⟩
    intro i d _ top code
    simp_all [TypeDecl.isLocal]
  have anonymous : (u.topTypes ++ u.localTypes).Disjoint u.anonymousTypes := by
    refine List.disjoint_append_left.2 ⟨disjoint_indicesWhere ?_, disjoint_indicesWhere ?_⟩
    · intro i d type top anonymous
      obtain ⟨outer, inCode⟩ := (parsed.declared type).place_of_anonymous anonymous
      simp [inCode] at top
    · intro i d _ code anonymous
      simp [TypeDecl.isNamed, anonymous] at code
  exact nodup_typeLevels (List.nodup_append'.2 ⟨named, nodup_indicesWhere .., anonymous⟩)
    parsed.unnested

end AllTypes

end SourceUnit

namespace Outline

open Occurrence

theorem package?_of_isTypeDeclaration {t : Tree} (declares : t.isTypeDeclaration = true) :
    package? t = none := by
  unfold package?
  split
  next kind =>
    rw [beq_iff_eq] at kind
    simp [Tree.isTypeDeclaration, TypeKind.ofNodeKind?, kind] at declares
  next => rfl

theorem package_of_topModes {ts : List Tree} {package : Option Name} {next : Nat}
    {around : List Nat} {o : Occurrence} (placed : o ∈ place (topModes package next ts) around ts)
    {package' : Option Name} {next' : Nat}
    (met : o.mode = .visit (.top package') next') (declares : o.node.isTypeDeclaration = true)
    (packageFirst : ((ts.filter (·.named)).dropWhile fun t => !t.isTypeDeclaration).filterMap
      package? = []) :
    package' = ((ts.filter (·.named)).filterMap package?).getLast?.or package := by
  induction ts generalizing package next with
  | nil => simp [place] at placed
  | cons t ts ih =>
    rw [topModes] at placed
    by_cases named : t.named = true
    · rw [List.filter_cons_of_pos named] at packageFirst ⊢
      rw [if_pos named] at placed
      by_cases isType : t.isTypeDeclaration = true
      · -- From here on there are no packages.
        have holds := package?_of_isTypeDeclaration isType
        rw [List.dropWhile_cons_of_neg (by simp [isType])] at packageFirst
        rw [packageFirst]
        rw [List.filterMap_cons_none holds] at packageFirst
        rcases List.mem_cons.1 placed with rfl | later
        · obtain ⟨same, -⟩ := Mode.visit.inj met
          rw [← Spot.top.inj same, holds]
          rfl
        · have rest : ((ts.filter (·.named)).dropWhile fun t => !t.isTypeDeclaration).filterMap
              package? = [] := by
            rw [← List.sublist_nil, ← packageFirst]
            exact (List.dropWhile_sublist _).filterMap package?
          rw [ih later rest, packageFirst, holds]
          rfl
      · rw [List.dropWhile_cons_of_pos (by simpa using isType)] at packageFirst
        rcases List.mem_cons.1 placed with rfl | later
        · exact absurd declares isType
        · rw [ih later packageFirst]
          cases holds : package? t with
          | none => rw [List.filterMap_cons_none holds, Option.none_or]
          | some name =>
            rw [List.filterMap_cons_some holds, List.getLast?_cons, Option.some_or, Option.some_or]
            cases ((ts.filter (·.named)).filterMap package?).getLast? with
            | none => rfl
            | some name' => rfl
    · rw [List.filter_cons_of_neg named] at packageFirst ⊢
      rw [if_neg named] at placed
      rcases List.mem_cons.1 placed with rfl | later
      · cases met
      · exact ih later packageFirst

variable {file : Tree} {o : Occurrence}

namespace Occurrence

-- The mode of the parent has a name of its own, so that the ways to meet a node can be told apart.
theorem root_or_met (inside : Within (ofFile file) o) (met : o.mode ≠ .skip) :
    o = ofFile file ∨ ∃ parent mode, Within (ofFile file) parent ∧ o ∈ parent.children ∧
      parent.mode = mode ∧
      Meets mode parent.node o.mode o.node := by
  cases inside with
  | root => exact .inl rfl
  | child within listed =>
    exact .inr ⟨_, _, within, listed, rfl, (meets_of_child listed).resolve_left met⟩

theorem not_inside_top (inside : Within (ofFile file) o) (package : Option Name) (next : Nat) :
    o.mode ≠ .inside (.top package) next := by
  intro met
  rcases root_or_met inside (by simp [met]) with rfl | ⟨parent, mode, -, -, -, meets⟩
  · cases met
  · rw [met] at meets
    cases meets

theorem eq_root_of_unit (inside : Within (ofFile file) o) (met : o.mode = .unit) :
    o = ofFile file := by
  rcases root_or_met inside (by simp [met]) with root | ⟨parent, mode, -, -, -, meets⟩
  · exact root
  · rw [met] at meets
    cases meets

theorem mem_children_of_top (inside : Within (ofFile file) o) {package : Option Name} {next : Nat}
    (met : o.mode = .visit (.top package) next) : o ∈ (ofFile file).children := by
  rcases root_or_met inside (by simp [met]) with rfl | ⟨parent, mode, within, listed, isMode, meets⟩
  · cases met
  · rw [met] at meets
    cases meets with
    | top => rwa [← eq_root_of_unit within isMode]
    | inside => exact absurd isMode (not_inside_top within _ _)

end Occurrence

end Outline

namespace SourceUnit

def typesAround (u : SourceUnit) (i : Nat) : List TypeDecl := (u.enclosing i).filterMap u.type?

def packageSegments (u : SourceUnit) : List String := (u.package.map Name.segments).getD []

def TypeOf (u : SourceUnit) (t : Tree) (i : Nat) : Prop := ∃ d, u.type? i = some d ∧ d.node = t

open Outline Outline.Occurrence

variable {u : SourceUnit}

theorem typesAround_outermost {i : Nat} {d : TypeDecl} (type : u.type? i = some d)
    (outermost : d.place.outer? = none) :
    u.typesAround i = [d] := by
  simp [typesAround, enclosing, enclosingFrom, type, outermost]

theorem Parsed.typesAround_inner (parsed : u.Parsed) {i outer : Nat} {d : TypeDecl}
    (type : u.type? i = some d) (isOuter : d.place.outer? = some outer) :
    u.typesAround i = d :: u.typesAround outer := by
  have before := parsed.outer_lt type isOuter
  simp only [typesAround, enclosing, enclosingFrom, type, Option.bind_some, isOuter,
    List.filterMap_cons]
  rw [parsed.enclosingFrom_eq before]
  rfl

section Regular

variable (parsed : u.Parsed) (regular : Regular u.tree)

include parsed regular

theorem package_of_top {o : Occurrence} {k : TypeKind} {package : Option Name} {next : Nat}
    (inside : Within u.root o) (met : o.mode = .visit (.top package) next)
    (declares : TypeKind.ofNodeKind? o.node.kind = some k) :
    package = u.package := by
  obtain ⟨path, tree, rfl⟩ := parsed
  have placed := mem_children_of_top inside met
  have holds := package_of_topModes placed met (isTypeDeclaration_of declares) regular.packageFirst
  rw [Option.or_none] at holds
  exact holds

theorem anonymous_or_declared {i : Nat} {d : TypeDecl} (type : u.type? i = some d) :
    (∃ owner base body, d = declareAnonymous owner base body) ∨
      d.isAnonymous = false ∧ ∃ spot : Spot, d.place = spot.place ∧
        d.qualified = spot.qualify d.name ∧
        (∀ package, spot = .top package → package = u.package) ∧
        ∀ owner, spot = .body owner → ∃ e, u.type? owner.index = some e ∧
          e.qualified = owner.qualified := by
  obtain ⟨o, inside, declares⟩ := (parsed.exists_decl?_iff regular.arguments).2 type
  have grounded := grounded_of_within inside
  obtain ⟨t, mode, around⟩ := o
  cases mode with
  | skip | unit | inside => cases declares
  | anonymous owner base next =>
    obtain ⟨-, rfl⟩ := Prod.mk.inj (Option.some.inj declares)
    exact .inl ⟨owner, base, t, rfl⟩
  | visit spot next =>
    obtain ⟨k, isType, same⟩ := Option.map_eq_some_iff.1 declares
    obtain ⟨-, rfl⟩ := Prod.mk.inj same
    refine .inr ⟨isAnonymous_declare spot isType, spot, place_declare spot k t,
      qualified_declare spot k t, ?_, ?_⟩
    · rintro package rfl
      exact package_of_top parsed regular inside rfl isType
    · rintro owner rfl
      obtain ⟨region, -, standing⟩ := grounded
      obtain ⟨node, -, o', e, inside', -, declares', -, qualified⟩ :=
        Region.body_of_matches standing
      exact ⟨e, (parsed.exists_decl?_iff regular.arguments).1 ⟨o', inside', declares'⟩, qualified⟩

theorem qualified_of_type {i : Nat} {d : TypeDecl} (type : u.type? i = some d) :
    (d.qualified = none ↔ ∃ e ∈ u.typesAround i, e.isLocal = true ∨ e.isAnonymous = true) ∧
      ∀ n, d.qualified = some n → n.segments = u.packageSegments ++
        (u.typesAround i).reverse.map (·.name) := by
  -- The type around stands before, and what it has settles what a member type has.
  induction i using Nat.strongRecOn generalizing d with
  | ind i ih =>
    rcases anonymous_or_declared parsed regular type with ⟨owner, base, body, rfl⟩ |
      ⟨named, spot, place, qualified, package, outer⟩
    · rw [parsed.typesAround_inner type rfl]
      exact ⟨⟨fun _ => ⟨_, List.mem_cons_self, .inl rfl⟩, fun _ => rfl⟩, fun n is => by cases is⟩
    · cases spot with
      | top holds =>
        obtain rfl := package holds rfl
        have isLocal : d.isLocal = false := by simp [TypeDecl.isLocal, place, Spot.place]
        rw [typesAround_outermost type (by rw [place]; rfl), qualified]
        cases isPackage : u.package with
        | none => simp [Spot.qualify, isLocal, named, packageSegments, isPackage, Name.segments,
          Name.simple]
        | some package =>
          simp [Spot.qualify, isLocal, named, packageSegments, isPackage, Name.segments, Name.push,
            Name.append]
      | code owner =>
        have isLocal : d.isLocal = true := by simp [TypeDecl.isLocal, place, Spot.place]
        rw [parsed.typesAround_inner type (by rw [place]; rfl), qualified]
        exact ⟨⟨fun _ => ⟨d, List.mem_cons_self, .inl isLocal⟩, fun _ => rfl⟩,
          fun n is => by cases is⟩
      | body owner =>
        obtain ⟨e, outerType, same⟩ := outer owner rfl
        have isOuter : d.place.outer? = some owner.index := by rw [place]; rfl
        obtain ⟨noName, names⟩ := ih owner.index (parsed.outer_lt type isOuter) outerType
        have isLocal : d.isLocal = false := by simp [TypeDecl.isLocal, place, Spot.place]
        rw [parsed.typesAround_inner type isOuter, qualified, Spot.qualify, ← same]
        constructor
        · simp [noName, isLocal, named]
        · intro n is
          obtain ⟨m, isOwner, rfl⟩ := Option.map_eq_some_iff.1 is
          rw [List.reverse_cons, List.map_append, ← List.append_assoc, ← names m isOwner]
          simp [Name.segments, Name.push, Name.append]

theorem numbered_iff (t : Tree) (i : Nat) : Numbered u.tree t i ↔ u.TypeOf t i := by
  constructor
  · rintro ⟨o, d, inside, rfl, declares⟩
    exact ⟨d, (parsed.exists_decl?_iff regular.arguments).1 ⟨o, inside, declares⟩,
      node_of_decl? declares⟩
  · rintro ⟨d, type, rfl⟩
    obtain ⟨o, inside, declares⟩ := (parsed.exists_decl?_iff regular.arguments).2 type
    exact ⟨o, d, inside, (node_of_decl? declares).symm, declares⟩

theorem declarationAt?_of_type {i : Nat} {d : TypeDecl} (type : u.type? i = some d) :
    u.declarationAt? d.node = some (.type i) :=
  declarationAt?_of_entry parsed regular (mem_index_of_type? type)

theorem typeOf_unique {t : Tree} {i j : Nat} (isType : u.TypeOf t i) (isType' : u.TypeOf t j) :
    i = j := by
  obtain ⟨d, type, rfl⟩ := isType
  obtain ⟨e, type', same⟩ := isType'
  have found := declarationAt?_of_type parsed regular type
  rw [← same, declarationAt?_of_type parsed regular type'] at found
  exact (DeclRef.type.inj (Option.some.inj found)).symm

theorem exists_type {region : Region} {t : Tree} (isType : TypeNode u.tree region t) :
    ∃ i d, u.type? i = some d ∧ d.node = t ∧ region.At u.TypeOf d.place := by
  obtain ⟨o, i, d, inside, rfl, declares, stands⟩ := exists_decl regular isType
  have same : Numbered u.tree = u.TypeOf := by
    funext t i
    exact propext (numbered_iff parsed regular t i)
  rw [same] at stands
  exact ⟨i, d, (parsed.exists_decl?_iff regular.arguments).1 ⟨o, inside, declares⟩,
    node_of_decl? declares, stands⟩

end Regular

/-- A node of a type has one type, whose place is that of the node; it is listed once, and named
after what is around it. -/
theorem types_modelled_once (parsed : u.Parsed) (regular : Regular u.tree) :
    (∀ region t, TypeNode u.tree region t → ∃! i, u.TypeOf t i) ∧
    (∀ region i d, u.type? i = some d → TypeNode u.tree region d.node →
      region.At u.TypeOf d.place) ∧
    (∀ i d, u.type? i = some d →
      (∃ region, TypeNode u.tree region d.node) ∧ u.allTypes.count i = 1 ∧
        u.declarationAt? d.node = some (.type i) ∧
      (d.qualified = none ↔ ∃ e ∈ u.typesAround i, e.isLocal = true ∨ e.isAnonymous = true) ∧
      ∀ n, d.qualified = some n → n.segments = u.packageSegments ++
        (u.typesAround i).reverse.map (·.name)) ∧
    ∀ r d m n, u.type? r.typeIndex = some d → d.member? r = some m → m.node? = some n →
      u.declarationAt? n = some r := by
  refine ⟨?_, ?_, ?_, ?_⟩
  · intro region t isType
    obtain ⟨i, d, type, node, -⟩ := exists_type parsed regular isType
    exact ⟨i, ⟨d, type, node⟩,
      fun j isType' => typeOf_unique parsed regular isType' ⟨d, type, node⟩⟩
  · intro region i d type isType
    obtain ⟨j, e, type', node, stands⟩ := exists_type parsed regular isType
    obtain rfl : j = i := typeOf_unique parsed regular ⟨e, type', node⟩ ⟨d, type, rfl⟩
    obtain rfl := Option.some.inj (type.symm.trans type')
    exact stands
  · intro i d type
    obtain ⟨o, inside, declares⟩ := (parsed.exists_decl?_iff regular.arguments).2 type
    obtain ⟨region, isType, -⟩ := typeNode_of_decl? inside declares
    have once := List.count_eq_one_of_mem parsed.nodup_allTypes (parsed.mem_allTypes type)
    rw [← node_of_decl? declares] at isType
    exact ⟨⟨region, isType⟩, once, declarationAt?_of_type parsed regular type,
      qualified_of_type parsed regular type⟩
  · intro r d m n type member node
    exact declarationAt?_of_entry parsed regular
      (mem_index_iff.2 ⟨d, type, .inr ⟨m, n, member, node, rfl⟩⟩)

-- The file `package p; class A { void m() { new B(new C() { int f; }) { class D {} }; } }`: the
-- body of `C` is in the arguments of the creation that the body of `B` follows.
def nestedBodies : Tree :=
  let f : Tree := Node.field 5 (Node.leaf "integral_type" "int" "type") "f" []
  let code : Tree := Node.creation 3 "B" [Node.creation 4 "C" [] [f]] [Node.classDecl 6 "D" [] []]
  Node.file [
    { kind := "package_declaration", children := [{ kind := "identifier", text := "p" }] },
    Node.classDecl 1 "A" [] [Node.method 2 [] "m" [] [code]]]

theorem types_modelled_once_nestedBodies :
    let u := ofTree none nestedBodies
    Regular u.tree ∧ ∃ d region, u.type? 3 = some d ∧ TypeNode u.tree region d.node ∧
      region.At u.TypeOf d.place ∧
      u.allTypes.count 3 = 1 ∧ u.declarationAt? d.node = some (.type 3) ∧ d.qualified = none := by
  intro u
  have regular : Regular u.tree := by decide +kernel
  obtain ⟨-, place, each, -⟩ := types_modelled_once ⟨none, nestedBodies, rfl⟩ regular
  obtain ⟨d, type⟩ : ∃ d, u.type? 3 = some d := Option.isSome_iff_exists.1 (by decide +kernel)
  obtain ⟨⟨region, isType⟩, once, found, noName, -⟩ := each 3 d type
  refine ⟨regular, d, region, type, isType, place region 3 d type isType, once, found,
    noName.2 ⟨d, ?_, .inr ?_⟩⟩
  · exact List.mem_filterMap.2 ⟨3, by decide +kernel, type⟩
  · have anonymous : (u.type? 3).all (·.isAnonymous) = true := by decide +kernel
    rwa [type] at anonymous

-- The file `void f() { class M {} }`.
def topMethod : Tree := Node.file [Node.method 1 [] "f" [] [Node.classDecl 2 "M" [] []]]

-- The file `class A { void m() { @X(new B() {}) class L {} } }`.
def annotatedLocal : Tree :=
  let mark : Tree := { kind := "annotation", children := [
    Node.name "X",
    { kind := "annotation_argument_list", role := some "arguments"
      children := [Node.creation 4 "B" [] []] }] }
  let annotated (t : Tree) : Tree :=
    { t with children := { kind := "modifiers", children := [mark] } :: t.children }
  Node.file [
    Node.classDecl 1 "A" [] [Node.method 2 [] "m" [] [annotated (Node.classDecl 3 "L" [] [])]]]

/-- Types in the code of a method at the top are not modelled, and neither are those in the header
of a type in code. -/
theorem types_modelled_once_besideBodies :
    (Regular topMethod ∧ ∃ m ∈ topMethod.nodes, m.kind = "method_declaration" ∧
      ∃ t ∈ m.nodes, t.isTypeDeclaration = true ∧ ∀ i, ¬ (ofTree none topMethod).TypeOf t i) ∧
    Regular annotatedLocal ∧ ∃ m ∈ annotatedLocal.nodes, m.kind = "method_declaration" ∧
      ∃ t ∈ m.nodes, t.kind = "object_creation_expression" ∧
        ∃ body, t.childOf? ["class_body"] = some body ∧
        ∀ i, ¬ (ofTree none annotatedLocal).TypeOf body i := by
  have regular : Regular topMethod := by decide +kernel
  have regular' : Regular annotatedLocal := by decide +kernel
  refine ⟨⟨regular, _, List.mem_of_getElem? (i := 1) rfl, rfl, _, List.mem_of_getElem? (i := 4) rfl,
    rfl, ?_⟩,
    regular', _, List.mem_of_getElem? (i := 4) rfl, rfl, _, List.mem_of_getElem? (i := 9) rfl,
    rfl, _, rfl, ?_⟩
  · rintro i ⟨d, type, -⟩
    cases type
  · rintro i ⟨d, type, node⟩
    have kinds : ∀ d ∈ (ofTree none annotatedLocal).types, d.node.kind = "class_declaration" := by
      decide +kernel
    have kind := kinds d (List.mem_of_getElem? type)
    rw [node] at kind
    exact absurd kind (by decide)

end SourceUnit

end RefGraph

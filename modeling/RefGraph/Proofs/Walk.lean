import RefGraph.Proofs.Outline
import RefGraph.Sites.Walk

set_option autoImplicit false

namespace RefGraph

namespace Tree

theorem induction {motive : Tree → Prop} (node : ∀ t, (∀ c ∈ t.children, motive c) → motive t)
    (t : Tree) :
    motive t := by
  refine @Tree.rec motive (fun ts => ∀ c ∈ ts, motive c) ?_ ?_ ?_ t
  · intro kind named missing start stop line text role children inside
    exact node _ inside
  · intro c listed
    simp at listed
  · intro c cs here rest d listed
    rcases List.mem_cons.1 listed with rfl | later
    · exact here
    · exact rest d later

inductive Covers : Tree → Tree → Prop
  | self (t : Tree) : Covers t t
  | child {t c u : Tree} (listed : c ∈ t.children) (below : Covers c u) : Covers t u

namespace Covers

theorem trans {t u v : Tree} (upper : Covers t u) (lower : Covers u v) : Covers t v := by
  induction upper with
  | self => exact lower
  | child listed _ ih => exact .child listed (ih lower)

theorem of_mem {t c : Tree} (listed : c ∈ t.children) : Covers t c := .child listed (.self c)

end Covers

end Tree

def Member.node? : Member → Option Tree
  | .method m => m.node
  | .constructor c => c.node
  | .field f => f.node

def DeclRef.typeIndex : DeclRef → Nat
  | .type i | .method i _ | .constructor i _ | .field i _ => i

theorem TypeDecl.member?_mem {d : TypeDecl} {r : DeclRef} {m : Member}
    (found : d.member? r = some m) :
    m ∈ d.members := by
  cases r with
  | type i => simp [member?] at found
  | method i j =>
    obtain ⟨x, here, rfl⟩ := Option.map_eq_some_iff.1 found
    simp [members, List.mem_of_getElem? here]
  | constructor i j =>
    obtain ⟨x, here, rfl⟩ := Option.map_eq_some_iff.1 found
    simp [members, List.mem_of_getElem? here]
  | field i j =>
    obtain ⟨x, here, rfl⟩ := Option.map_eq_some_iff.1 found
    simp [members, List.mem_of_getElem? here]

theorem DeclRef.ne_type_of_member? {d : TypeDecl} {r : DeclRef} {m : Member}
    (found : d.member? r = some m) :
    r ≠ .type r.typeIndex := by
  intro isType
  rw [isType] at found
  cases found

namespace World

-- An index where a unit has no type stands for a type without members.
theorem type?_of_mem_members {w : World} {id : TypeId} {m : Member}
    (listed : m ∈ (w.decl id).members) :
    (w.unit id.unit).type? id.index = some (w.decl id) := by
  cases found : (w.unit id.unit).type? id.index with
  | none =>
    rw [decl, found, Option.getD_none] at listed
    exact absurd listed List.not_mem_nil
  | some d => simp [decl, found]

end World

namespace SourceUnit

theorem mem_keyed {make : Nat → DeclRef} {nodes : List (Option Tree)} {entry : NodeKey × DeclRef} :
    entry ∈ keyed make nodes ↔ ∃ j t, nodes[j]? = some (some t) ∧ entry = (t.key, make j) := by
  simp only [keyed, List.mem_filterMap, Prod.exists, List.mem_zipIdx_iff_getElem?,
    Option.map_eq_some_iff]
  constructor
  · rintro ⟨node, j, found, t, rfl, same⟩
    exact ⟨j, t, found, same.symm⟩
  · rintro ⟨j, t, found, rfl⟩
    exact ⟨some t, j, found, t, rfl, rfl⟩

theorem mem_index_iff {u : SourceUnit} {key : NodeKey} {r : DeclRef} :
    (key, r) ∈ u.index ↔ ∃ d, u.type? r.typeIndex = some d ∧
      (r = .type r.typeIndex ∧ key = d.node.key ∨ ∃ m n, d.member? r = some m ∧ m.node? = some n ∧
        key = n.key) := by
  simp only [index, List.mem_flatMap, Prod.exists, List.mem_zipIdx_iff_getElem?, List.mem_cons,
    List.mem_append, mem_keyed, Prod.mk.injEq, List.getElem?_map, Option.map_eq_some_iff]
  constructor
  · rintro ⟨d, i, listed,
      ⟨rfl, rfl⟩ | (⟨j, n, ⟨x, here, node⟩, rfl, rfl⟩ | ⟨j, n, ⟨x, here, node⟩, rfl, rfl⟩) |
      ⟨j, n, ⟨x, here, node⟩, rfl, rfl⟩⟩
    · exact ⟨d, listed, .inl ⟨rfl, rfl⟩⟩
    · exact ⟨d, listed, .inr ⟨.method x, n, by simp [TypeDecl.member?, here], node, rfl⟩⟩
    · exact ⟨d, listed, .inr ⟨.constructor x, n, by simp [TypeDecl.member?, here], node, rfl⟩⟩
    · exact ⟨d, listed, .inr ⟨.field x, n, by simp [TypeDecl.member?, here], node, rfl⟩⟩
  · rintro ⟨d, type, ⟨same, rfl⟩ | ⟨m, n, found, node, rfl⟩⟩
    · exact ⟨d, _, type, .inl ⟨rfl, same⟩⟩
    · cases r with
      | type i => simp [TypeDecl.member?] at found
      | method i j =>
        obtain ⟨x, here, rfl⟩ := Option.map_eq_some_iff.1 found
        exact ⟨d, i, type, .inr (.inl (.inl ⟨j, n, ⟨x, here, node⟩, rfl, rfl⟩))⟩
      | constructor i j =>
        obtain ⟨x, here, rfl⟩ := Option.map_eq_some_iff.1 found
        exact ⟨d, i, type, .inr (.inl (.inr ⟨j, n, ⟨x, here, node⟩, rfl, rfl⟩))⟩
      | field i j =>
        obtain ⟨x, here, rfl⟩ := Option.map_eq_some_iff.1 found
        exact ⟨d, i, type, .inr (.inr ⟨j, n, ⟨x, here, node⟩, rfl, rfl⟩)⟩

theorem mem_index_of_declarationAt? {u : SourceUnit} {t : Tree} {r : DeclRef}
    (found : u.declarationAt? t = some r) :
    (t.key, r) ∈ u.index := by
  obtain ⟨⟨key, r'⟩, hit, rfl⟩ := Option.map_eq_some_iff.1 found
  obtain rfl : key = t.key := by simpa using List.find?_some hit
  exact List.mem_of_find?_eq_some hit

theorem node_of_declarationAt? {u : SourceUnit} {t : Tree} {r : DeclRef} {d : TypeDecl} {m : Member}
    (found : u.declarationAt? t = some r) (type : u.type? r.typeIndex = some d)
    (member : d.member? r = some m) : ∃ n, m.node? = some n ∧ n.key = t.key := by
  obtain ⟨e, type', ⟨isType, -⟩ | ⟨m', n, member', node, key⟩⟩ :=
    mem_index_iff.1 (mem_index_of_declarationAt? found)
  · exact absurd isType (DeclRef.ne_type_of_member? member)
  · obtain rfl := Option.some.inj (type.symm.trans type')
    obtain rfl := Option.some.inj (member.symm.trans member')
    exact ⟨n, node, key.symm⟩

end SourceUnit

namespace Sites

-- A member of a type of the unit whose node is known by the key of the given one.
structure DeclaredAt (w : World) (unit : Nat) (t : Tree) (m : MemberOf) : Prop where
  unit_eq : m.owner.unit = unit
  type : (w.unit unit).type? m.owner.index = some (w.decl m.owner)
  member : m.member ∈ (w.decl m.owner).members
  node : ∃ n, m.member.node? = some n ∧ n.key = t.key

namespace Surroundings

-- Everything that entering the declaration of a node can do.
inductive Entered (w : World) (unit : Nat) (s : Surroundings) (t : Tree) :
    Surroundings × Opened → Prop
  | nothing : Entered w unit s t (s, {})
  | type (i : Nat) : Entered w unit s t (s.enterType w ⟨unit, i⟩, { type := true })
  | field (m : MemberOf) (declared : DeclaredAt w unit t m)
      (named : (w.decl m.owner).isNamed = true) :
      Entered w unit s t (s.enterOwner m, { owner := true })
  | member (m : MemberOf) (declared : DeclaredAt w unit t m)
      (named : (w.decl m.owner).isNamed = true) :
      Entered w unit s t ((s.enterMember m).enterOwner m, { member := true, owner := true })
  | anonymous (m : MemberOf) : Entered w unit s t (s.enterMember m, { member := true })

theorem declaredAt_of_member? {w : World} {unit : Nat} {t : Tree} {r : DeclRef} {m : Member}
    (found : (w.unit unit).declarationAt? t = some r)
    (member : (w.decl ⟨unit, r.typeIndex⟩).member? r = some m) :
    DeclaredAt w unit t ⟨⟨unit, r.typeIndex⟩, m⟩ := by
  have listed := TypeDecl.member?_mem member
  have type := World.type?_of_mem_members listed
  exact ⟨rfl, type, listed, SourceUnit.node_of_declarationAt? found type member⟩

theorem entered_of_member {w : World} {unit : Nat} {s : Surroundings} {t : Tree} {r : DeclRef}
    (found : (w.unit unit).declarationAt? t = some r) :
    Entered w unit s t
      (match s.types.head? == some ⟨unit, r.typeIndex⟩, (w.decl ⟨unit, r.typeIndex⟩).member? r with
      | true, some (.field f) =>
        if (w.decl ⟨unit, r.typeIndex⟩).isNamed then
          (s.enterOwner ⟨⟨unit, r.typeIndex⟩, .field f⟩, { owner := true })
        else (s, {})
      | true, some m =>
        let inside := s.enterMember ⟨⟨unit, r.typeIndex⟩, m⟩
        if (w.decl ⟨unit, r.typeIndex⟩).isNamed then
          (inside.enterOwner ⟨⟨unit, r.typeIndex⟩, m⟩, { member := true, owner := true })
        else (inside, { member := true })
      | _, _ => (s, {})) := by
  split
  next f _ member =>
    split
    next named => exact .field _ (declaredAt_of_member? found member) named
    next => exact .nothing
  next m _ _ member =>
    dsimp only
    split
    next named => exact .member _ (declaredAt_of_member? found member) named
    next => exact .anonymous _
  next => exact .nothing

theorem entered_enterDeclaration (w : World) (unit : Nat) (s : Surroundings) (t : Tree) :
    Entered w unit s t (s.enterDeclaration w unit t) := by
  unfold enterDeclaration
  split
  next => exact .nothing
  next i _ => exact .type i
  all_goals
    next found => exact entered_of_member found

-- The stacks that entering a node pushes on and leaving it pops from.
structure SameStacks (s s' : Surroundings) : Prop where
  types : s'.types = s.types
  members : s'.members = s.members
  owners : s'.owners = s.owners

namespace SameStacks

theorem refl (s : Surroundings) : SameStacks s s := ⟨rfl, rfl, rfl⟩

theorem trans {s s' s'' : Surroundings} (first : SameStacks s s') (second : SameStacks s' s'') :
    SameStacks s s'' :=
  ⟨second.types.trans first.types, second.members.trans first.members,
    second.owners.trans first.owners⟩

end SameStacks

theorem sameStacks_declareAll (s : Surroundings) (vs : List LocalVar) :
    SameStacks s (s.declareAll vs) := by
  induction vs generalizing s with
  | nil => exact .refl s
  | cons v vs ih =>
    have first : SameStacks s (s.declare v) := ⟨rfl, rfl, rfl⟩
    exact first.trans (ih (s.declare v))

-- A node's own scope comes after what its declaration opens.
theorem sameStacks_enter (w : World) (unit : Nat) (s : Surroundings) (t : Tree) :
    SameStacks (s.enterDeclaration w unit t).1 (s.enter w unit t).1 := by
  simp only [enter]
  split
  · have pushed (s : Surroundings) : SameStacks s { s with scope := s.scope.push } :=
      ⟨rfl, rfl, rfl⟩
    exact (pushed _).trans (sameStacks_declareAll _ _)
  · exact sameStacks_declareAll _ _

theorem opened_enter (w : World) (unit : Nat) (s : Surroundings) (t : Tree) :
    (s.enter w unit t).2 = { (s.enterDeclaration w unit t).2 with
      scope := (s.enter w unit t).2.scope } := by
  simp only [enter]
  split <;> rfl

-- Leaving a node undoes what entering it did to the stacks, whatever happens in between.
theorem sameStacks_leave (w : World) (unit : Nat) (s : Surroundings) (t : Tree)
    {after : Surroundings} (kept : SameStacks (s.enter w unit t).1 after) :
    SameStacks s (after.leave (s.enter w unit t).2) := by
  have entered := entered_enterDeclaration w unit s t
  have same := (sameStacks_enter w unit s t).trans kept
  rw [opened_enter]
  generalize s.enterDeclaration w unit t = result at entered same
  cases entered with
  | nothing => exact ⟨same.types, same.members, same.owners⟩
  | type i =>
    refine ⟨?_, same.members, same.owners⟩
    simp [leave, same.types, enterType]
  | field m =>
    refine ⟨same.types, same.members, ?_⟩
    simp [leave, same.owners, enterOwner]
  | member m =>
    refine ⟨same.types, ?_, ?_⟩
    · simp [leave, same.members, enterMember, enterOwner]
    · simp [leave, same.owners, enterMember, enterOwner]
  | anonymous m =>
    refine ⟨same.types, ?_, same.owners⟩
    simp [leave, same.members, enterMember]

end Surroundings

theorem walk_eq (w : World) (unit : Nat) (parent : Option Tree) (s : Surroundings) (t : Tree) :
    walk w unit parent s t =
      ((walkAll w unit (some t) (s.enter w unit t).1 t.children).1.leave (s.enter w unit t).2,
        ((s.enter w unit t).1.site? w parent t).toList ++
          (walkAll w unit (some t) (s.enter w unit t).1 t.children).2) := by
  cases t
  rw [walk]

theorem sameStacks_walkAll (w : World) (unit : Nat) (parent : Option Tree) (s : Surroundings)
    (ts : List Tree)
    (each : ∀ t ∈ ts, ∀ s, Surroundings.SameStacks s (walk w unit parent s t).1) :
    Surroundings.SameStacks s (walkAll w unit parent s ts).1 := by
  induction ts generalizing s with
  | nil => exact .refl s
  | cons t ts ih =>
    have rest s := ih s fun u listed => each u (List.mem_cons_of_mem _ listed)
    rw [walkAll]
    split
    · exact (each t List.mem_cons_self s).trans (rest _)
    · exact rest s

theorem sameStacks_walk (w : World) (unit : Nat) (parent : Option Tree) (s : Surroundings)
    (t : Tree) :
    Surroundings.SameStacks s (walk w unit parent s t).1 := by
  induction t using Tree.induction generalizing parent s with
  | node t ih =>
    rw [walk_eq]
    exact Surroundings.sameStacks_leave w unit s t
      (sameStacks_walkAll w unit (some t) _ t.children fun c listed s => ih c listed (some t) s)

-- A member of a named type that is declared at a node between the root and the given one.
structure Owns (w : World) (unit : Nat) (root t : Tree) (m : MemberOf) : Prop where
  named : (w.decl m.owner).isNamed = true
  above : ∃ a, root.Covers a ∧ a.Covers t ∧ DeclaredAt w unit a m

structure Justified (w : World) (unit : Nat) (root t : Tree) (s : Surroundings) : Prop where
  types : ∀ id ∈ s.types, id.unit = unit
  owners : ∀ m ∈ s.owners, Owns w unit root t m

namespace Justified

variable {w : World} {unit : Nat} {root t : Tree} {s s' : Surroundings}

theorem of_sameStacks (holds : Justified w unit root t s) (same : Surroundings.SameStacks s s') :
    Justified w unit root t s' :=
  ⟨same.types ▸ holds.types, same.owners ▸ holds.owners⟩

theorem below {c : Tree} (holds : Justified w unit root t s) (listed : c ∈ t.children) :
    Justified w unit root c s where
  types := holds.types
  owners m around := by
    obtain ⟨a, upper, lower, declared⟩ := (holds.owners m around).above
    exact ⟨(holds.owners m around).named, a, upper, lower.trans (.of_mem listed), declared⟩

theorem enter (holds : Justified w unit root t s) (inside : root.Covers t) :
    Justified w unit root t (s.enter w unit t).1 := by
  refine of_sameStacks ?_ (Surroundings.sameStacks_enter w unit s t)
  have entered := Surroundings.entered_enterDeclaration w unit s t
  generalize s.enterDeclaration w unit t = result at entered
  have owns {m : MemberOf} (declared : DeclaredAt w unit t m)
      (named : (w.decl m.owner).isNamed = true) :
      ∀ o ∈ m :: s.owners, Owns w unit root t o := by
    intro o around
    rcases List.mem_cons.1 around with rfl | before
    · exact ⟨named, t, inside, .self t, declared⟩
    · exact holds.owners o before
  cases entered with
  | nothing => exact holds
  | type i =>
    refine ⟨?_, holds.owners⟩
    intro id around
    rcases List.mem_cons.1 around with rfl | before
    · rfl
    · exact holds.types id before
  | field m declared named => exact ⟨holds.types, owns declared named⟩
  | member m declared named => exact ⟨holds.types, owns declared named⟩
  | anonymous m => exact ⟨holds.types, holds.owners⟩

end Justified

-- Of every site: its node and its owner are in the tree, the owner's node at or above it.
structure SiteJustified (w : World) (unit : Nat) (root : Tree) (site : Site) : Prop where
  inside : root.Covers site.node
  kind : site.node.is siteNodes = true
  unit_eq : site.context.unit = unit
  owner : Owns w unit root site.node site.owner

theorem siteJustified_of_site? {w : World} {unit : Nat} {root : Tree} {parent : Option Tree}
    {s : Surroundings} {t : Tree} {site : Site} (holds : Justified w unit root t s)
    (inside : root.Covers t) (found : s.site? w parent t = some site) :
    SiteJustified w unit root site := by
  unfold Surroundings.site? at found
  split at found
  next isSite =>
    split at found
    next owner _ innermost _ owners types =>
      obtain rfl := Option.some.inj found
      rw [Bool.and_eq_true] at isSite
      exact ⟨inside, isSite.1, holds.types innermost (by simp [types]),
        holds.owners owner (by simp [owners])⟩
    next => simp at found
  next => simp at found

theorem walkAll_justified {w : World} {unit : Nat} {root t : Tree} (parent : Option Tree)
    (ts : List Tree) {s : Surroundings} (below : ts ⊆ t.children)
    (holds : Justified w unit root t s)
    (each : ∀ c ∈ ts, ∀ s, Justified w unit root c s →
      ∀ site ∈ (walk w unit parent s c).2, SiteJustified w unit root site) :
    ∀ site ∈ (walkAll w unit parent s ts).2, SiteJustified w unit root site := by
  induction ts generalizing s with
  | nil => simp [walkAll]
  | cons c cs ih =>
    obtain ⟨here, later⟩ := List.cons_subset.1 below
    have rest {s} (holds : Justified w unit root t s) :=
      ih later holds fun u listed => each u (List.mem_cons_of_mem _ listed)
    rw [walkAll]
    split
    · intro site found
      rcases List.mem_append.1 found with first | second
      · exact each c List.mem_cons_self s (holds.below here) site first
      · exact rest (holds.of_sameStacks (sameStacks_walk w unit parent s c)) site second
    · exact rest holds

theorem walk_justified {w : World} {unit : Nat} {root : Tree} (parent : Option Tree)
    {s : Surroundings} {t : Tree} (inside : root.Covers t) (holds : Justified w unit root t s) :
    ∀ site ∈ (walk w unit parent s t).2, SiteJustified w unit root site := by
  induction t using Tree.induction generalizing parent s with
  | node t ih =>
    intro site found
    rw [walk_eq] at found
    have entered := holds.enter inside
    rcases List.mem_append.1 found with here | below
    · exact siteJustified_of_site? entered inside (by simpa using here)
    · exact walkAll_justified (some t) t.children (List.Subset.refl _) entered
        (fun c listed s holds =>
          ih c listed (some t) (inside.trans (.of_mem listed)) holds) site below

theorem ofUnit_justified {w : World} {unit : Nat} {site : Site} (visited : site ∈ ofUnit w unit) :
    SiteJustified w unit (w.unit unit).tree site :=
  walk_justified none (.self _) ⟨by simp, by simp⟩ site visited

end Sites

end RefGraph

import Mathlib.Tactic.MkIffOfInductiveProp
import RefGraph.Proofs.DeclarationIndex

set_option autoImplicit false

namespace RefGraph

namespace Tree

def nameTokens : List String := ["identifier", "underscore_pattern"]

def variableNodes : List String := ["variable_declarator", "enum_constant", "formal_parameter"]

/-- As the parser makes trees: a variable is named by one token, and such tokens hold no tab. -/
@[mk_iff]
structure Lexed (t : Tree) : Prop where
  tokens : ∀ n ∈ t.nodes, n.is nameTokens = true → '\t' ∉ n.text.toList
  names : ∀ n ∈ t.nodes, n.is variableNodes = true ∨ n.role = some "declarator" →
    ∀ name ∈ n.child? "name", name.is nameTokens = true

instance (t : Tree) : Decidable t.Lexed := decidable_of_iff _ (lexed_iff t).symm

namespace Lexed

variable {t : Tree}

theorem inside (lexed : t.Lexed) {u : Tree} (below : u.nodes ⊆ t.nodes) : u.Lexed :=
  ⟨fun n listed => lexed.tokens n (below listed), fun n listed => lexed.names n (below listed)⟩

theorem child (lexed : t.Lexed) {c : Tree} (child : c ∈ t.children) : c.Lexed :=
  lexed.inside (nodes_sublist_of_mem child).subset

theorem notMem_childText? (lexed : t.Lexed)
    (declares : t.is variableNodes = true ∨ t.role = some "declarator") {name : String}
    (named : t.childText? "name" = some name) : '\t' ∉ name.toList := by
  obtain ⟨c, isName, rfl⟩ := Option.map_eq_some_iff.1 named
  have here (u : Tree) : u ∈ u.nodes := List.singleton_sublist.1 u.sublist_nodes_singleton
  exact (lexed.child (child?_mem isName)).tokens c (here c)
    (lexed.names t (here t) declares c isName)

end Lexed

end Tree

namespace Outline

-- The outline goes from a tree to trees inside it.
mutual
theorem lexed_visit (spot : Spot) (next : Nat) :
    (t : Tree) → t.Lexed → ∀ d ∈ visit spot next t, d.node.Lexed
  | t@{ kind, children, .. }, lexed => by
    have below : ∀ c ∈ children, c.Lexed := fun c child => lexed.child child
    unfold visit
    split
    · refine List.forall_mem_cons.2 ⟨?_, lexed_visitRole "body" _ _ children below⟩
      rw [node_declare]
      exact lexed
    · split
      · simp
      · split
        · exact lexed_visitAll _ _ children below
        · split
          · exact lexed_visitAll _ _ children below
          · split
            · exact List.forall_mem_append.2 ⟨lexed_visitRole _ _ _ children below,
                lexed_visitClassBody _ _ _ children below⟩
            · simp
      · split
        · exact List.forall_mem_append.2 ⟨lexed_visitClassBody _ _ _ children below,
            lexed_visitBesideBody _ _ children below⟩
        · exact lexed_visitAll _ _ children below

theorem lexed_visitAll (spot : Spot) (next : Nat) :
    (ts : List Tree) → (∀ t ∈ ts, t.Lexed) → ∀ d ∈ visitAll spot next ts, d.node.Lexed
  | [], _ => by simp [visitAll]
  | t :: ts, lexed => by
    obtain ⟨here, later⟩ := List.forall_mem_cons.1 lexed
    unfold visitAll
    refine List.forall_mem_append.2 ⟨?_, lexed_visitAll spot _ ts later⟩
    split
    · exact lexed_visit spot next t here
    · simp

theorem lexed_visitRole (role : String) (spot : Spot) (next : Nat) :
    (ts : List Tree) → (∀ t ∈ ts, t.Lexed) → ∀ d ∈ visitRole role spot next ts, d.node.Lexed
  | [], _ => by simp [visitRole]
  | t :: ts, lexed => by
    obtain ⟨here, later⟩ := List.forall_mem_cons.1 lexed
    unfold visitRole
    split
    · exact lexed_visitInside spot next t here
    · exact lexed_visitRole role spot next ts later

theorem lexed_visitInside (spot : Spot) (next : Nat) :
    (t : Tree) → t.Lexed → ∀ d ∈ visitInside spot next t, d.node.Lexed
  | { children, .. }, lexed => by
    unfold visitInside
    exact lexed_visitAll spot next children fun c child => lexed.child child

theorem lexed_visitClassBody (owner : Owner) (base : TypeRef) (next : Nat) :
    (ts : List Tree) → (∀ t ∈ ts, t.Lexed) → ∀ d ∈ visitClassBody owner base next ts, d.node.Lexed
  | [], _ => by simp [visitClassBody]
  | t :: ts, lexed => by
    obtain ⟨here, later⟩ := List.forall_mem_cons.1 lexed
    unfold visitClassBody
    split
    · exact List.forall_mem_cons.2 ⟨here, lexed_visitInside _ _ t here⟩
    · exact lexed_visitClassBody owner base next ts later

theorem lexed_visitBesideBody (spot : Spot) (next : Nat) :
    (ts : List Tree) → (∀ t ∈ ts, t.Lexed) → ∀ d ∈ visitBesideBody spot next ts, d.node.Lexed
  | [], _ => by simp [visitBesideBody]
  | t :: ts, lexed => by
    obtain ⟨here, later⟩ := List.forall_mem_cons.1 lexed
    unfold visitBesideBody
    refine List.forall_mem_append.2 ⟨?_, lexed_visitBesideBody spot _ ts later⟩
    split
    · exact lexed_visit spot next t here
    · simp
end

theorem lexed_visitTop (package : Option Name) (next : Nat) (ts : List Tree)
    (lexed : ∀ t ∈ ts, t.Lexed) : ∀ d ∈ visitTop package next ts, d.node.Lexed := by
  induction ts generalizing package next with
  | nil => simp [visitTop]
  | cons t ts ih =>
    obtain ⟨here, later⟩ := List.forall_mem_cons.1 lexed
    exact List.forall_mem_append.2 ⟨lexed_visit _ _ t here, ih _ _ later⟩

theorem notMem_name_of_fieldsOf {owner : String} {kind : TypeKind} {t : Tree} (lexed : t.Lexed)
    {f : Field} (listed : f ∈ fieldsOf owner kind t) : '\t' ∉ f.name.toList := by
  have ofDeclarator {isStatic : Bool}
      (listed : f ∈ (t.childrenIn "declarator").filterMap (declarator? isStatic t)) :
      '\t' ∉ f.name.toList := by
    obtain ⟨c, among, made⟩ := List.mem_filterMap.1 listed
    obtain ⟨child, role⟩ := List.mem_filter.1 among
    simp only [declarator?, Option.bind_eq_bind, Option.bind_eq_some_iff, Option.pure_def,
      Option.some.injEq] at made
    obtain ⟨name, named, type, -, rfl⟩ := made
    exact (lexed.child child).notMem_childText? (.inr (beq_iff_eq.1 role)) named
  unfold fieldsOf at listed
  split at listed
  next => exact ofDeclarator listed
  next => exact ofDeclarator listed
  next isConstant =>
    rw [Option.mem_toList] at listed
    obtain ⟨name, named, rfl⟩ := Option.map_eq_some_iff.1 listed
    exact lexed.notMem_childText? (.inl (by simp [Tree.is, isConstant, Tree.variableNodes])) named
  next => cases listed

theorem notMem_name_of_param? {t : Tree} (lexed : t.Lexed) {p : Param} (made : param? t = some p) :
    '\t' ∉ p.name.toList := by
  unfold param? at made
  split at made
  next kind =>
    simp only [Option.bind_eq_bind, Option.bind_eq_some_iff, Option.pure_def,
      Option.some.injEq] at made
    obtain ⟨type, -, name, named, rfl⟩ := made
    exact lexed.notMem_childText? (.inl (by simp [Tree.is, kind, Tree.variableNodes])) named
  next kind =>
    simp only [Option.bind_eq_bind, Option.bind_eq_some_iff, Option.pure_def,
      Option.some.injEq] at made
    obtain ⟨type, -, name, ⟨c, declarator, named⟩, rfl⟩ := made
    have child := Tree.childOf?_mem declarator
    have kind : c.kind = "variable_declarator" := by
      simpa [Tree.is] using List.find?_some declarator
    exact (lexed.child child).notMem_childText?
      (.inl (by simp [Tree.is, kind, Tree.variableNodes])) named
  next => cases made

theorem notMem_name_of_withMembers {components : List Param} {body : Option Tree} {d : TypeDecl}
    (lexed : ∀ b ∈ body, b.Lexed) {f : Field}
    (listed : f ∈ (withMembers components body d).fields) :
    '\t' ∉ f.name.toList := by
  obtain ⟨t, member, made⟩ := List.mem_flatMap.1 listed
  cases body with
  | none => cases member
  | some b =>
    refine notMem_name_of_fieldsOf ((lexed b rfl).inside fun n below => ?_) made
    exact (memberNodes_sublist b).subset (List.mem_flatMap.2 ⟨t, member, below⟩)

theorem Declared.notMem_fieldName {d : TypeDecl} (declared : Declared d) (lexed : d.node.Lexed)
    {f : Field} (listed : f ∈ d.fields) : '\t' ∉ f.name.toList := by
  cases declared with
  | named spot kind t =>
    rw [node_declare] at lexed
    have inBody : ∀ b ∈ t.child? "body", b.Lexed :=
      fun b isBody => lexed.child (Tree.child?_mem isBody)
    simp only [declare] at listed
    split at listed
    · rcases List.mem_append.1 listed with written | component
      · exact notMem_name_of_withMembers inBody written
      · obtain ⟨p, among, rfl⟩ := List.mem_map.1 component
        unfold paramsOf at among
        cases params : t.child? "parameters" with
        | none =>
          rw [params] at among
          cases among
        | some c =>
          rw [params] at among
          obtain ⟨n, child, made⟩ := List.mem_filterMap.1 among
          exact notMem_name_of_param?
            ((lexed.child (Tree.child?_mem params)).child (List.mem_of_mem_filter child)) made
    · exact notMem_name_of_withMembers inBody listed
  | anonymous owner base body =>
    refine notMem_name_of_withMembers (fun b isBody => ?_) listed
    obtain rfl := Option.some.inj isBody
    exact lexed

end Outline

theorem SourceUnit.Parsed.notMem_fieldName {u : SourceUnit} (parsed : u.Parsed)
    (lexed : u.tree.Lexed) {d : TypeDecl} (listed : d ∈ u.types) {f : Field}
    (field : f ∈ d.fields) :
    '\t' ∉ f.name.toList := by
  obtain ⟨i, found⟩ := List.getElem?_of_mem listed
  refine (parsed.declared found).notMem_fieldName ?_ field
  obtain ⟨path, tree, rfl⟩ := parsed
  exact Outline.lexed_visitTop none 0 _ (fun t child => lexed.child (List.mem_of_mem_filter child))
    d
    listed

end RefGraph

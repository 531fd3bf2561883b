import Mathlib.Data.List.Flatten
import Mathlib.Data.List.Nodup
import RefGraph.Proofs.TypeNesting
import RefGraph.Proofs.TypeRegions

set_option autoImplicit false

namespace RefGraph

theorem Tree.nodes_eq (t : Tree) : t.nodes = t :: t.children.flatMap nodes := by
  have below (parent : Option Tree) (ts : List Tree)
      (each : ∀ c ∈ ts, ∀ parent, (c.withParents parent).map (·.1) = c.nodes) :
      (withParentsAll parent ts).map (·.1) = ts.flatMap nodes := by
    induction ts with
    | nil => simp [withParentsAll]
    | cons c cs ih =>
      rw [withParentsAll, List.map_append, List.flatMap_cons, each c List.mem_cons_self,
        ih fun d listed => each d (List.mem_cons_of_mem _ listed)]
  have anyParent (t : Tree) (parent : Option Tree) :
      (t.withParents parent).map (·.1) = t.nodes := by
    cases t
    rw [nodes, withParents, withParents]
    rfl
  have self : t.nodes = t :: (withParentsAll (some t) t.children).map (·.1) := by
    cases t
    rw [nodes, withParents]
    rfl
  rw [self, below _ _ fun c _ parent => anyParent c parent]

theorem Tree.nodes_sublist_of_mem {t c : Tree} (child : c ∈ t.children) :
    c.nodes.Sublist t.nodes := by
  rw [t.nodes_eq]
  exact (List.sublist_flatten_of_mem (List.mem_map_of_mem child)).cons _

theorem Tree.sublist_nodes_singleton (t : Tree) : [t].Sublist t.nodes := by
  rw [t.nodes_eq]
  exact List.singleton_sublist.2 List.mem_cons_self

namespace Outline

open Occurrence

theorem Occurrence.nodes_sublist {root o : Occurrence} (inside : Within root o) :
    o.node.nodes.Sublist root.node.nodes := by
  induction inside with
  | root => exact .refl _
  | child within listed ih =>
    exact (Tree.nodes_sublist_of_mem (node_mem_of_place listed).1).trans ih

theorem memberNodes_sublist (body : Tree) :
    ((memberNodes body).flatMap Tree.nodes).Sublist body.nodes := by
  have ofChildren (ts : List Tree)
      (each : ∀ t ∈ ts, ((memberNodes t).flatMap Tree.nodes).Sublist t.nodes) :
      ((memberNodesIn ts).flatMap Tree.nodes).Sublist (ts.flatMap Tree.nodes) := by
    induction ts with
    | nil => exact .slnil
    | cons t ts ih =>
      rw [memberNodesIn, List.flatMap_append, List.flatMap_cons]
      refine List.Sublist.append ?_ (ih fun u listed => each u (List.mem_cons_of_mem _ listed))
      split
      · exact List.nil_sublist _
      · split
        · exact each t List.mem_cons_self
        · simp
  induction body using Tree.induction with
  | node t ih =>
    rw [memberNodes_eq, t.nodes_eq]
    exact (ofChildren t.children ih).cons _

-- What a function picks out of a list by giving back the element itself.
theorem filterMap_sublist_self {α : Type} {f : α → Option α} (same : ∀ x y, f x = some y → y = x)
    (xs : List α) :
    (xs.filterMap f).Sublist xs := by
  induction xs with
  | nil => exact .slnil
  | cons x xs ih =>
    cases picked : f x with
    | none =>
      rw [List.filterMap_cons_none picked]
      exact ih.cons _
    | some y =>
      obtain rfl := same x y picked
      rw [List.filterMap_cons_some picked]
      exact ih.cons_cons _

theorem fieldsOf_sublist (owner : String) (kind : TypeKind) (t : Tree) :
    ((fieldsOf owner kind t).filterMap (·.node)).Sublist t.nodes := by
  have declarators (isStatic : Bool) :
      (((t.childrenIn "declarator").filterMap (declarator? isStatic t)).filterMap (·.node)).Sublist
        t.nodes := by
    rw [List.filterMap_filterMap]
    have children : t.children.Sublist t.nodes := by
      rw [t.nodes_eq]
      have each := List.Sublist.flatMap_right t.children fun c _ => c.sublist_nodes_singleton
      rw [List.flatMap_singleton'] at each
      exact each.cons _
    refine (filterMap_sublist_self (fun c n picked => ?_) _).trans
      (List.filter_sublist.trans children)
    obtain ⟨f, made, node⟩ := Option.bind_eq_some_iff.1 picked
    simp only [declarator?, Option.bind_eq_bind, Option.bind_eq_some_iff, Option.pure_def,
      Option.some.injEq] at made
    obtain ⟨name, -, type, -, rfl⟩ := made
    exact (Option.some.inj node).symm
  unfold fieldsOf
  split
  · exact declarators _
  · exact declarators _
  · cases t.childText? "name" with
    | none => exact List.nil_sublist _
    | some name => exact t.sublist_nodes_singleton
  · exact List.nil_sublist _

structure InOrder (ns : List Tree) (d : TypeDecl) : Prop where
  methods : (d.methods.filterMap (·.node)).Sublist ns
  constructors : (d.constructors.filterMap (·.node)).Sublist ns
  fields : (d.fields.filterMap (·.node)).Sublist ns

theorem inOrder_withMembers (components : List Param) (body : Option Tree) (d : TypeDecl)
    {ns : List Tree} (inBody : ∀ b ∈ body, b.nodes.Sublist ns) :
    InOrder ns (withMembers components body d) := by
  have members {α : Type} (node : α → Option Tree) (make : Tree → List α)
      (own : ∀ t, ((make t).filterMap node).Sublist t.nodes) :
      ((((body.map memberNodes).getD []).flatMap make).filterMap node).Sublist ns := by
    cases body with
    | none => exact List.nil_sublist _
    | some b =>
      rw [List.filterMap_flatMap]
      exact ((List.Sublist.flatMap_right _ fun t _ => own t).trans (memberNodes_sublist b)).trans
        (inBody b rfl)
  have picked {α : Type} (node : α → Option Tree) (make : Tree → Option α)
      (own : ∀ t x, make t = some x → node x = some t) :
      ((((body.map memberNodes).getD []).filterMap make).filterMap node).Sublist ns := by
    rw [List.filterMap_eq_flatMap_toList make]
    refine members node _ fun t => ?_
    cases made : make t with
    | none => exact List.nil_sublist _
    | some x =>
      rw [Option.toList_some, List.filterMap_cons_some (own t x made)]
      exact t.sublist_nodes_singleton
  exact ⟨picked _ _ fun t x made => node_of_method? made,
    picked _ _ fun t x made => node_of_constructor? made,
    members _ _ fun t => fieldsOf_sublist _ _ t⟩

-- What comes with the components of a record has no node.
theorem inOrder_withComponents {ns : List Tree} {d : TypeDecl} (inOrder : InOrder ns d)
    (components : List Param) :
    InOrder ns (withComponents components d) := by
  constructor
  · simpa [withComponents, List.filterMap_append] using inOrder.methods
  · simp only [withComponents]
    split
    · exact inOrder.constructors
    · simpa [List.filterMap_append] using inOrder.constructors
  · simpa [withComponents, List.filterMap_append] using inOrder.fields

theorem inOrder_of_decl? {o : Occurrence} {i : Nat} {d : TypeDecl}
    (declares : o.decl? = some (i, d)) :
    InOrder o.node.nodes d := by
  obtain ⟨t, mode, around⟩ := o
  cases mode with
  | skip | unit | inside => cases declares
  | visit spot next =>
    obtain ⟨k, -, same⟩ := Option.map_eq_some_iff.1 declares
    obtain ⟨rfl, rfl⟩ := Prod.mk.inj same
    have inBody : ∀ b ∈ t.child? "body", b.nodes.Sublist t.nodes := fun b isBody =>
      Tree.nodes_sublist_of_mem (Tree.child?_mem isBody)
    simp only [declare]
    split
    · exact inOrder_withComponents (inOrder_withMembers _ _ _ inBody) _
    · exact inOrder_withMembers _ _ _ inBody
  | anonymous owner base next =>
    obtain ⟨rfl, rfl⟩ := Prod.mk.inj (Option.some.inj declares)
    refine inOrder_withMembers _ _ _ fun b isBody => ?_
    obtain rfl := Option.some.inj isBody
    exact .refl _

end Outline

def DeclRef.nodeKinds : DeclRef → List String
  | .type _ =>
      ["class_declaration", "interface_declaration", "enum_declaration", "record_declaration",
      "annotation_type_declaration", "class_body"]
  | .method _ _ => ["method_declaration"]
  | .constructor _ _ => ["constructor_declaration", "compact_constructor_declaration"]
  | .field _ _ => ["variable_declarator", "enum_constant"]

theorem DeclRef.mem_declarationKinds (r : DeclRef) {kind : String} (listed : kind ∈ r.nodeKinds) :
    kind ∈ Outline.declarationKinds := by
  cases r <;> simp only [nodeKinds, Outline.declarationKinds, List.mem_cons, List.not_mem_nil,
    or_false] at listed ⊢ <;>
    tauto

def DeclRef.Alike : DeclRef → DeclRef → Prop
  | .type _, .type _ | .method _ _, .method _ _ | .constructor _ _, .constructor _ _ | .field _ _,
    .field _ _ => True
  | _, _ => False

theorem DeclRef.alike_of_kind {r r' : DeclRef} {kind : String} (first : kind ∈ r.nodeKinds)
    (second : kind ∈ r'.nodeKinds) : r.Alike r' := by
  cases r <;> cases r' <;> simp only [nodeKinds, List.mem_cons, List.not_mem_nil,
    or_false] at first second <;>
    first | trivial | grind

namespace Outline

open Occurrence

theorem kind_of_decl? {o : Occurrence} {i : Nat} {d : TypeDecl} (fits : o.Fits)
    (declares : o.decl? = some (i, d)) :
    o.node.kind ∈ (DeclRef.type i).nodeKinds := by
  by_contra other
  have noBody : o.node.kind ≠ "class_body" := by
    intro kind
    exact other (by simp [kind, DeclRef.nodeKinds])
  have noType : TypeKind.ofNodeKind? o.node.kind = none := by
    unfold TypeKind.ofNodeKind?
    split
    all_goals simp_all [DeclRef.nodeKinds]
  rw [decl?_eq_none fits noType noBody] at declares
  cases declares

theorem kind_of_method? {t : Tree} {m : Method} (made : method? t = some m) :
    t.kind = "method_declaration" := by
  unfold method? at made
  split at made
  · cases made
  · simp_all

theorem kind_of_constructor? {owner : String} {components : List Param} {t : Tree} {c : Constructor}
    (made : constructor? owner components t = some c) :
    t.kind ∈ ["constructor_declaration", "compact_constructor_declaration"] := by
  unfold constructor? at made
  split at made
  · simp_all
  · simp_all
  · cases made

theorem kind_of_fieldsOf {owner : String} {kind : TypeKind} {t n : Tree} {f : Field}
    (listed : f ∈ fieldsOf owner kind t) (node : f.node = some n) :
    n.kind = "enum_constant" ∨ n.role = some "declarator" := by
  have ofDeclarator {isStatic : Bool}
      (listed : f ∈ (t.childrenIn "declarator").filterMap (declarator? isStatic t)) :
        n.role = some "declarator" := by
    obtain ⟨c, isChild, made⟩ := List.mem_filterMap.1 listed
    simp only [declarator?, Option.bind_eq_bind, Option.bind_eq_some_iff, Option.pure_def,
      Option.some.injEq] at made
    obtain ⟨name, -, type, -, rfl⟩ := made
    obtain rfl := Option.some.inj node
    exact beq_iff_eq.1 (List.mem_filter.1 isChild).2
  unfold fieldsOf at listed
  split at listed
  next => exact .inr (ofDeclarator listed)
  next => exact .inr (ofDeclarator listed)
  next kind =>
    rw [Option.mem_toList] at listed
    obtain ⟨name, -, rfl⟩ := Option.map_eq_some_iff.1 listed
    exact .inl (Option.some.inj node ▸ kind)
  next => cases listed

def memberKinds : Member → List String
  | .method _ => (DeclRef.method 0 0).nodeKinds
  | .constructor _ => (DeclRef.constructor 0 0).nodeKinds
  | .field _ => (DeclRef.field 0 0).nodeKinds

theorem mem_declarationKinds_of_member {m : Member} {kind : String}
    (listed : kind ∈ memberKinds m) :
    kind ∈ declarationKinds := by
  cases m with
  | method => exact (DeclRef.method 0 0).mem_declarationKinds listed
  | constructor => exact (DeclRef.constructor 0 0).mem_declarationKinds listed
  | field => exact (DeclRef.field 0 0).mem_declarationKinds listed

theorem kind_of_withMembers {components : List Param} {body : Option Tree} {d : TypeDecl}
    {m : Member} {n : Tree} (listed : m ∈ (withMembers components body d).members)
    (node : m.node? = some n)
    (declarator : n.role = some "declarator" → n.kind = "variable_declarator") :
    n.kind ∈ memberKinds m := by
  simp only [TypeDecl.members, withMembers, List.mem_append, List.mem_map, List.mem_filterMap,
    List.mem_flatMap] at listed
  rcases listed with (⟨y, ⟨x, -, made⟩, rfl⟩ | ⟨y, ⟨x, -, made⟩, rfl⟩) | ⟨y, ⟨x, -, made⟩, rfl⟩
  · obtain rfl := Option.some.inj ((node_of_method? made).symm.trans node)
    simp [memberKinds, DeclRef.nodeKinds, kind_of_method? made]
  · obtain rfl := Option.some.inj ((node_of_constructor? made).symm.trans node)
    exact kind_of_constructor? made
  · rcases kind_of_fieldsOf made node with constant | role
    · simp [memberKinds, DeclRef.nodeKinds, constant]
    · simp [memberKinds, DeclRef.nodeKinds, declarator role]

theorem kind_of_member {file : Tree} (regular : Regular file) {o : Occurrence} {i : Nat}
    {d : TypeDecl} {m : Member} {n : Tree} (declares : o.decl? = some (i, d))
    (listed : m ∈ d.members) (node : m.node? = some n)
    (inFile : n ∈ file.nodes) : n.kind ∈ memberKinds m := by
  have declarator := regular.declarators n inFile
  obtain ⟨t, mode, around⟩ := o
  cases mode with
  | skip | unit | inside => cases declares
  | visit spot next =>
    obtain ⟨k, -, same⟩ := Option.map_eq_some_iff.1 declares
    obtain ⟨rfl, rfl⟩ := Prod.mk.inj same
    simp only [declare] at listed
    split at listed
    · exact kind_of_withMembers (mem_members_of_withComponents listed node) node declarator
    · exact kind_of_withMembers listed node declarator
  | anonymous owner base next =>
    obtain ⟨rfl, rfl⟩ := Prod.mk.inj (Option.some.inj declares)
    exact kind_of_withMembers listed node declarator

end Outline

theorem memberKinds_of_member? {d : TypeDecl} {r : DeclRef} {m : Member}
    (found : d.member? r = some m) :
    Outline.memberKinds m = r.nodeKinds := by
  cases r with
  | type => simp [TypeDecl.member?] at found
  | method | constructor | field =>
    obtain ⟨x, -, rfl⟩ := Option.map_eq_some_iff.1 found
    rfl

namespace SourceUnit

open Outline Outline.Occurrence

-- In a list whose elements have different keys, an element is known by its key.
theorem position_unique {α : Type} {key? : α → Option NodeKey} {xs : List α}
    (nodup : (xs.filterMap key?).Nodup) {j j' : Nat} {x x' : α} {key : NodeKey}
    (here : xs[j]? = some x) (here' : xs[j']? = some x')
    (hasKey : key? x = some key) (hasKey' : key? x' = some key) : j = j' := by
  have held {xs : List α} {j : Nat} {x : α} (here : xs[j]? = some x) (hasKey : key? x = some key) :
      key ∈ xs.filterMap key? := List.mem_filterMap.2 ⟨x, List.mem_of_getElem? here, hasKey⟩
  induction xs generalizing j j' with
  | nil => cases here
  | cons y ys ih =>
    cases j with
    | zero =>
      cases j' with
      | zero => rfl
      | succ j' =>
        obtain rfl : y = x := Option.some.inj here
        rw [List.filterMap_cons_some hasKey, List.nodup_cons] at nodup
        rw [List.getElem?_cons_succ] at here'
        exact absurd (held here' hasKey') nodup.1
    | succ j =>
      cases j' with
      | zero =>
        obtain rfl : y = x' := Option.some.inj here'
        rw [List.filterMap_cons_some hasKey', List.nodup_cons] at nodup
        rw [List.getElem?_cons_succ] at here
        exact absurd (held here hasKey) nodup.1
      | succ j' =>
        have rest : (ys.filterMap key?).Nodup := by
          cases first : key? y with
          | none => rwa [List.filterMap_cons_none first] at nodup
          | some k =>
            rw [List.filterMap_cons_some first] at nodup
            exact nodup.of_cons
        rw [ih rest here here']

section Regular

variable {u : SourceUnit} (parsed : u.Parsed) (regular : Regular u.tree)

include regular

theorem declaration_eq_of_key {o o' : Occurrence} (inside : Within u.root o)
    (inside' : Within u.root o') (kind : o.node.kind ∈ declarationKinds)
    (same : o'.node.key = o.node.key) : o' = o := by
  have sameKind : o'.node.kind = o.node.kind := congrArg NodeKey.kind same
  apply occurrence_eq_of_key regular.keys inside inside' _ _ same
  · simpa [Tree.is] using kind
  · simpa [Tree.is, sameKind] using kind

-- The nodes of one sort of members of a type have different keys.
theorem keys_nodup {α : Type} {node : α → Option Tree} {xs : List α} {o : Occurrence}
    (inside : Within u.root o) (inOrder : (xs.filterMap node).Sublist o.node.nodes)
    (kinds : ∀ x ∈ xs, ∀ n, node x = some n → n.kind ∈ declarationKinds) :
    (xs.filterMap fun x => (node x).map Tree.key).Nodup := by
  have all : (xs.filterMap node).filter (·.is declarationKinds) = xs.filterMap node := by
    rw [List.filter_eq_self]
    intro n listed
    obtain ⟨x, among, isNode⟩ := List.mem_filterMap.1 listed
    simpa [Tree.is] using kinds x among n isNode
  have among : (xs.filterMap node).Sublist (u.tree.nodes.filter (·.is declarationKinds)) := by
    rw [← all]
    exact (inOrder.trans (nodes_sublist inside)).filter _
  rw [← List.map_filterMap]
  exact (among.map Tree.key).nodup regular.keys

include parsed

theorem member_position {i : Nat} {d : TypeDecl} (type : u.type? i = some d) {α : Type}
    {xs : List α} {node : α → Option Tree} {wrap : α → Member}
    (listed : ∀ x ∈ xs, wrap x ∈ d.members)
    (isNode : ∀ x, (wrap x).node? = node x) (inOrder : ∀ ns, InOrder ns d →
      (xs.filterMap node).Sublist ns)
    {j j' : Nat} {x x' : α} {n n' : Tree} (here : xs[j]? = some x) (here' : xs[j']? = some x')
    (written : node x = some n) (written' : node x' = some n') (same : n'.key = n.key) :
    j = j' := by
  obtain ⟨o, inside, declares⟩ := (parsed.exists_decl?_iff regular.arguments).2 type
  have kinds : ∀ x ∈ xs, ∀ n, node x = some n → n.kind ∈ declarationKinds := by
    intro x among n written
    rw [← isNode] at written
    obtain ⟨c, within, rfl, -⟩ := exists_member fits_root inside declares (listed x among) written
    exact mem_declarationKinds_of_member
      (kind_of_member regular declares (listed x among) written (mem_nodes_of_within within))
  have nodup := keys_nodup regular inside (inOrder _ (inOrder_of_decl? declares)) kinds
  exact position_unique nodup here here' (by rw [written, Option.map_some])
    (by rw [written', Option.map_some, same])

theorem exists_occurrence {key : NodeKey} {r : DeclRef} (entry : (key, r) ∈ u.index) :
    ∃ o, Within u.root o ∧ o.node.key = key ∧ o.node.kind ∈ r.nodeKinds ∧
      if r = .type r.typeIndex then ∃ d, o.decl? = some (r.typeIndex, d)
        else o.around.head? = some r.typeIndex := by
  obtain ⟨d, type, found⟩ := mem_index_iff.1 entry
  obtain ⟨o, inside, declares⟩ := (parsed.exists_decl?_iff regular.arguments).2 type
  rcases found with ⟨isType, rfl⟩ | ⟨m, n, member, node, rfl⟩
  · refine ⟨o, inside, by rw [node_of_decl? declares], ?_, ?_⟩
    · rw [isType]
      exact kind_of_decl? (inside.fits fits_root) declares
    · rw [if_pos isType]
      exact ⟨d, declares⟩
  · have listed := TypeDecl.member?_mem member
    obtain ⟨c, within, rfl, around⟩ := exists_member fits_root inside declares listed node
    refine ⟨c, within, rfl, ?_, ?_⟩
    · rw [← memberKinds_of_member? member]
      exact kind_of_member regular declares listed node (mem_nodes_of_within within)
    · rwa [if_neg (DeclRef.ne_type_of_member? member)]

theorem member_unique {i : Nat} {d : TypeDecl} (type : u.type? i = some d) {r r' : DeclRef}
    (alike : r.Alike r') (sameType : r.typeIndex = r'.typeIndex) {m m' : Member} {n n' : Tree}
    (member : d.member? r = some m)
    (member' : d.member? r' = some m') (node : m.node? = some n) (node' : m'.node? = some n')
    (same : n'.key = n.key) : r = r' := by
  cases r with
  | type => cases member
  | method k j =>
    cases r' with
    | type | constructor | field => exact alike.elim
    | method k' j' =>
      obtain rfl : k = k' := sameType
      obtain ⟨x, here, rfl⟩ := Option.map_eq_some_iff.1 member
      obtain ⟨x', here', rfl⟩ := Option.map_eq_some_iff.1 member'
      rw [member_position parsed regular type (fun x listed => by simp [TypeDecl.members, listed])
        (fun _ => rfl) (fun ns inOrder => inOrder.methods) here here' node node' same]
  | constructor k j =>
    cases r' with
    | type | method | field => exact alike.elim
    | constructor k' j' =>
      obtain rfl : k = k' := sameType
      obtain ⟨x, here, rfl⟩ := Option.map_eq_some_iff.1 member
      obtain ⟨x', here', rfl⟩ := Option.map_eq_some_iff.1 member'
      rw [member_position parsed regular type (fun x listed => by simp [TypeDecl.members, listed])
        (fun _ => rfl) (fun ns inOrder => inOrder.constructors) here here' node node' same]
  | field k j =>
    cases r' with
    | type | method | constructor => exact alike.elim
    | field k' j' =>
      obtain rfl : k = k' := sameType
      obtain ⟨x, here, rfl⟩ := Option.map_eq_some_iff.1 member
      obtain ⟨x', here', rfl⟩ := Option.map_eq_some_iff.1 member'
      rw [member_position parsed regular type (fun x listed => by simp [TypeDecl.members, listed])
        (fun _ => rfl) (fun ns inOrder => inOrder.fields) here here' node node' same]

theorem index_functional {key : NodeKey} {r r' : DeclRef} (entry : (key, r) ∈ u.index)
    (entry' : (key, r') ∈ u.index) :
    r = r' := by
  obtain ⟨o, inside, rfl, kind, stated⟩ := exists_occurrence parsed regular entry
  obtain ⟨o', inside', same, kind', stated'⟩ := exists_occurrence parsed regular entry'
  obtain rfl := declaration_eq_of_key regular inside inside' (r.mem_declarationKinds kind) same
  have alike := DeclRef.alike_of_kind kind kind'
  obtain ⟨d, type, found⟩ := mem_index_iff.1 entry
  obtain ⟨d', type', found'⟩ := mem_index_iff.1 entry'
  rcases found with ⟨isType, _⟩ | ⟨m, n, member, node, key⟩
  · rcases found' with ⟨isType', _⟩ | ⟨m', n', member', -⟩
    · rw [if_pos isType] at stated
      rw [if_pos isType'] at stated'
      obtain ⟨e, declares⟩ := stated
      obtain ⟨e', declares'⟩ := stated'
      have index : r.typeIndex = r'.typeIndex :=
        (Prod.mk.inj (Option.some.inj (declares.symm.trans declares'))).1
      rw [isType, isType', index]
    · rw [isType] at alike
      cases r' with
      | type => cases member'
      | method | constructor | field => exact alike.elim
  · rcases found' with ⟨isType', _⟩ | ⟨m', n', member', node', key'⟩
    · rw [isType'] at alike
      cases r with
      | type => cases member
      | method | constructor | field => exact alike.elim
    · rw [if_neg (DeclRef.ne_type_of_member? member)] at stated
      rw [if_neg (DeclRef.ne_type_of_member? member')] at stated'
      have index : r.typeIndex = r'.typeIndex := Option.some.inj (stated.symm.trans stated')
      obtain rfl : d = d' := Option.some.inj (type.symm.trans (index ▸ type'))
      exact member_unique parsed regular type alike index member member' node node'
        (key'.symm.trans key)

theorem declarationAt?_of_entry {t : Tree} {r : DeclRef} (entry : (t.key, r) ∈ u.index) :
    u.declarationAt? t = some r :=
  declarationAt?_eq_some entry fun _ entry' => index_functional parsed regular entry' entry

end Regular

end SourceUnit

end RefGraph

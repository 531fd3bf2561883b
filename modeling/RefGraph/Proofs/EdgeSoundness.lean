import RefGraph.Dependency
import RefGraph.Proofs.Found
import RefGraph.Proofs.Makers
import RefGraph.Proofs.TypingSteps
import RefGraph.Proofs.Walk

set_option autoImplicit false

namespace RefGraph

/-- A member of a type fits a node: a call has its name and number of arguments, a constructor call
its number of arguments, an access or a bare name its name. -/
inductive Tree.Denotes (t : Tree) (d : TypeDecl) : Member → Prop
  | method (m : Method) (kind : t.kind = "method_invocation") (listed : m ∈ d.methods)
      (name : t.childText? "name" = some m.name) (arity : Accepts m.params t.arguments.length) :
      Denotes t d (.method m)
  | constructor (c : Constructor) (kind : t.kind = "explicit_constructor_invocation")
      (listed : c ∈ d.constructors) (arity : Accepts c.params t.arguments.length) :
      Denotes t d (.constructor c)
  | access (f : Field) (kind : t.kind = "field_access") (listed : f ∈ d.fields)
      (name : t.childText? "field" = some f.name) : Denotes t d (.field f)
  | name (f : Field) (kind : t.kind = "identifier") (listed : f ∈ d.fields)
      (name : t.text = f.name) :
      Denotes t d (.field f)

theorem Tree.Denotes.mem_members {t : Tree} {d : TypeDecl} {m : Member} (denotes : t.Denotes d m) :
    m ∈ d.members := by
  cases denotes <;> simp [TypeDecl.members, *]

namespace Env

open Typing

variable (env : Env) (typeInside : TypeInside)

-- A field that a referent stands for has the name; other referents are no members.
def Refers (name : String) (r : Referent) : Prop := ∀ f, r = .field f → env.world.FieldNamed name f

theorem refers_of_simpleName {name : String} {r : Referent} (found : env.simpleName name = .ok r) :
    env.Refers name r := by
  rintro f rfl
  unfold simpleName at found
  split at found
  next => cases found
  next =>
    obtain ⟨declared, search, found⟩ := ok_of_bind found
    cases declared with
    | some g =>
      cases found
      exact World.fieldNamed_of_fieldInScope search
    | none =>
      dsimp only at found
      split at found
      next => cases found
      next =>
        obtain ⟨outside, search, found⟩ := ok_of_bind found
        cases outside with
        | some g =>
          cases found
          exact World.fieldNamed_of_outsideFieldInScope search
        | none => cases found

theorem refers_of_memberOf {r : Receiver} {name : String} {referent : Referent}
    (found : env.memberOf r name = .ok referent) : env.Refers name referent := by
  rintro f rfl
  unfold memberOf at found
  split at found
  next => cases found; trivial
  next =>
    obtain ⟨field, search, found⟩ := ok_of_bind found
    cases field with
    | some g =>
      cases found
      exact World.fieldNamed_of_findField search
    | none =>
      dsimp only at found
      split at found
      next => cases found
      next => cases found

theorem refers_dotted (t : Tree) (name : String) : env.Refers name (env.dotted t) := by
  intro f isField
  unfold dotted at isField
  dsimp only at isField
  split at isField
  next => cases isField
  next => cases isField

theorem ensures_access (t : Tree) :
    Ensures (env.access typeInside t) fun r => ∃ name, t.childText? "field" = some name ∧
      env.Refers name r := by
  unfold access accessOn
  split
  next obj field _ isField =>
    have written : t.childText? "field" = some field.text := by simp [Tree.childText?, isField]
    split
    next =>
      refine .bind (.any _) fun d _ => .pure ⟨field.text, written, ?_⟩
      rintro f ⟨⟩
    next =>
      refine .bind (.any _) fun r _ => ?_
      cases r with
      | none =>
        dsimp only
        exact .pure ⟨field.text, written, env.refers_dotted t field.text⟩
      | some r =>
        refine .lift fun referent found => ?_
        exact ⟨field.text, written, env.refers_of_memberOf found⟩
  next => exact .throw _

theorem declared_of_referentTarget {r : Referent} {m : MemberOf}
    (declared : env.referentTarget r = .member (.declared m)) :
    ∃ owner args f, r = .field (.declared owner args f) ∧ m = ⟨owner, .field f⟩ := by
  cases r with
  | field f =>
    cases f with
    | declared owner args f =>
      cases declared
      exact ⟨owner, args, f, rfl, rfl⟩
    | external e owner => cases declared
    | arrayLength => cases declared
  | _ => cases declared

theorem ensures_argTypes (t : Tree) :
    Ensures (env.argTypes typeInside t) fun args => args.length = t.arguments.length := .mapM _ _

theorem ensures_call (t : Tree) :
    Ensures (env.call typeInside t) fun call => ∀ m, call.member = .declared m →
      ∃ name, t.childText? "name" = some name ∧ env.world.MethodNamed name m ∧
        Accepts m.member.params t.arguments.length := by
  unfold call
  dsimp only
  split
  next => exact .throw _
  next name written =>
    refine .bind (env.ensures_argTypes typeInside t) fun args count => ?_
    have settle {made : Call} (calls : env.world.CallsMethod name args.length made) :
        ∀ m, made.member = .declared m → ∃ name, t.childText? "name" = some name ∧
          env.world.MethodNamed name m ∧ Accepts m.member.params t.arguments.length := by
      intro m declared
      obtain ⟨named, accepts⟩ := calls m declared
      exact ⟨name, written, named, count ▸ accepts⟩
    split
    next => exact .lift fun made found => settle (World.callsMethod_of_bareCall found)
    next obj _ =>
      split
      next =>
        refine .bind (.any _) fun id _ => .lift fun made found => ?_
        exact settle (World.callsMethod_of_callOn found)
      next =>
        refine .bind (.any _) fun r _ => ?_
        split
        next => exact .throw _
        next => exact .lift fun made found => settle (World.callsMethod_of_callOn found)

theorem ensures_constructorCall (t : Tree) :
    Ensures (env.constructorCall typeInside t) fun call =>
      env.world.CallsConstructor t.arguments.length call := by
  unfold constructorCall
  refine .bind (.any _) fun id _ => .bind (env.ensures_argTypes typeInside t) fun args count => ?_
  refine .lift fun made found => ?_
  rw [← count]
  exact World.callsConstructor_of_constructorCall found

theorem ensures_targetOf (t : Tree) (isSite : t.is Sites.siteNodes = true) :
    Ensures (env.targetOf t) fun target => ∀ m, target = .member (.declared m) →
      t.Denotes (env.world.decl m.owner) m.member := by
  unfold targetOf
  split
  next kind =>
    refine .bind (env.ensures_call env.typeInside t) fun call holds => .pure ?_
    intro m declared
    obtain ⟨name, written, ⟨method, isMethod, listed, rfl⟩, accepts⟩ :=
      holds m (Target.member.inj declared)
    rw [isMethod] at accepts ⊢
    exact .method method kind listed written accepts
  next kind =>
    refine .bind (env.ensures_constructorCall env.typeInside t) fun call holds => .pure ?_
    intro m declared
    obtain ⟨c, isConstructor, listed, accepts⟩ := holds m (Target.member.inj declared)
    rw [isConstructor]
    exact .constructor c kind listed accepts
  next kind =>
    refine .bind (env.ensures_access env.typeInside t) fun r refers => .pure ?_
    intro m declared
    obtain ⟨owner, args, f, rfl, rfl⟩ := env.declared_of_referentTarget declared
    obtain ⟨name, written, refers⟩ := refers
    obtain ⟨listed, rfl⟩ := refers _ rfl
    exact .access f kind listed written
  next other₁ other₂ other₃ =>
    have kind : t.kind = "identifier" := by
      simp only [Tree.is, Sites.siteNodes, List.contains_eq_mem, List.mem_cons, List.not_mem_nil,
        or_false, decide_eq_true_eq] at isSite
      rcases isSite with h | h | h | h
      · exact absurd h other₁
      · exact absurd h other₃
      · exact h
      · exact absurd h other₂
    refine .bind (.lift fun r => env.refers_of_simpleName) fun r refers => .pure ?_
    intro m declared
    obtain ⟨owner, args, f, rfl, rfl⟩ := env.declared_of_referentTarget declared
    obtain ⟨listed, named⟩ := refers _ rfl
    exact .name f kind listed named.symm

end Env

namespace World

theorem loaded_of_type? {w : World} {unit index : Nat} {d : TypeDecl}
    (found : (w.unit unit).type? index = some d) : unit < w.units.length := by
  rcases Nat.lt_or_ge unit w.units.length with inside | beyond
  · exact inside
  · have empty : w.unit unit = default := by
      rw [World.unit, List.getElem?_eq_none beyond, Option.getD_none]
    rw [empty] at found
    cases found

theorem unit_mem {w : World} {unit : Nat} (loaded : unit < w.units.length) :
    w.unit unit ∈ w.units := by
  rw [World.unit, List.getElem?_eq_getElem loaded, Option.getD_some]
  exact List.getElem_mem loaded

end World

namespace Corpus

structure Declares (c : Corpus) (m : MemberOf) : Prop where
  loaded : m.owner.unit < c.world.units.length
  listed : m.owner ∈ c.typesOf m.owner.unit
  named : (c.world.decl m.owner).isNamed = true
  member : m.member ∈ (c.world.decl m.owner).members

/-- The reference of a site in a unit, with everything that makes it a true one. -/
structure Links (c : Corpus) (unit : Nat) (s : Site) (target : MemberOf) (e : DependencyEdge) :
    Prop where
  resolved : ∃ known, (c.resolveSite s known).1.edge = some e
  sourceDeclared : c.Declares s.owner
  sourceUnit : s.owner.owner.unit = unit
  sourceNode : ∃ n a, s.owner.member.node? = some n ∧ n.key = a.key ∧
    (c.world.unit unit).tree.Covers a ∧ a.Covers s.node
  signature : e.source = s.owner.member.signature e.sourceKey (c.world.decl s.owner.owner).name
  sourceKey : e.sourceKey = c.keyOf unit ∧ e.sourceKey ≠ ""
  targetDeclared : c.Declares target
  denotes : s.node.Denotes (c.world.decl target.owner) target.member
  targetType : e.targetType = (c.world.decl target.owner).name ∧ e.targetType ≠ ""
  targetKey : e.targetKey = c.keyOf target.owner.unit ∧ e.targetKey ≠ ""
  descriptor : e.target = target.member.descriptor e.targetType

theorem mem_resolveSites {c : Corpus} {known : LocalTypes} {sites : List Site} {o : Outcome}
    (made : o ∈ c.resolveSites known sites) :
    ∃ s ∈ sites, ∃ before, (c.resolveSite s before).1 = o := by
  induction sites generalizing known with
  | nil => simp [resolveSites] at made
  | cons s ss ih =>
    rcases List.mem_cons.1 made with rfl | later
    · exact ⟨s, List.mem_cons_self, known, rfl⟩
    · obtain ⟨s', listed, before, same⟩ := ih later
      exact ⟨s', List.mem_cons_of_mem _ listed, before, same⟩

theorem mem_sites {c : Corpus} {unit : Nat} {s : Site} (visited : s ∈ c.sites unit) :
    c.keyOf unit ≠ "" ∧ s ∈ Sites.ofUnit c.world unit := by
  unfold sites at visited
  split at visited
  next => simp at visited
  next rooted => exact ⟨rooted, visited⟩

theorem declares_of_mem {c : Corpus} (parsed : ∀ u ∈ c.world.units, u.Parsed) {m : MemberOf}
    (member : m.member ∈ (c.world.decl m.owner).members)
    (named : (c.world.decl m.owner).isNamed = true) :
    c.Declares m := by
  have type := World.type?_of_mem_members member
  have loaded := World.loaded_of_type? type
  have listed := (parsed _ (World.unit_mem loaded)).mem_allTypes type
  exact ⟨loaded, List.mem_map.2 ⟨m.owner.index, listed, rfl⟩, named, member⟩

theorem edge_of_resolveSite {c : Corpus} {s : Site} {known : LocalTypes} {e : DependencyEdge}
    (made : (c.resolveSite s known).1.edge = some e) :
    ∃ m, (((c.env s).targetOf s.node).run known).1 = .ok (.member (.declared m)) ∧
      c.edgeTo? s m = some e := by
  cases run : ((c.env s).targetOf s.node).run known with
  | mk target later =>
    simp only [resolveSite, run] at made
    split at made
    next m => exact ⟨m, rfl, made⟩
    next => cases made

/-- Every reference that a unit gives comes from a site of it, and links the two members that it
names. -/
theorem dependency_links (c : Corpus) (parsed : ∀ u ∈ c.world.units, u.Parsed) (unit : Nat)
    (e : DependencyEdge) (emitted : .dependency e ∈ (c.dependencies unit).1) :
    ∃ s ∈ c.sites unit, ∃ target, c.Links unit s target e := by
  obtain ⟨outcome, made, written⟩ := List.mem_filterMap.1 emitted
  obtain ⟨edge, isEdge, same⟩ := Option.map_eq_some_iff.1 written
  obtain rfl : edge = e := Relation.dependency.inj same
  obtain ⟨s, visited, known, rfl⟩ := mem_resolveSites made
  obtain ⟨rooted, walked⟩ := mem_sites visited
  have site := Sites.ofUnit_justified walked
  obtain ⟨m, target, made⟩ := edge_of_resolveSite isEdge
  have denotes := (c.env s).ensures_targetOf s.node site.kind known _ target m rfl
  obtain ⟨a, upper, lower, declared⟩ := site.owner.above
  obtain ⟨n, node, key⟩ := declared.node
  unfold edgeTo? at made
  dsimp only at made
  split at made
  next => cases made
  next nonempty =>
    obtain rfl := Option.some.inj made
    rw [not_or] at nonempty
    have valid := World.type?_of_mem_members denotes.mem_members
    have targetParsed := parsed _ (World.unit_mem (World.loaded_of_type? valid))
    have named := (targetParsed.declared valid).isNamed_of_name_ne nonempty.1
    exact ⟨s, visited, m, {
      resolved := ⟨known, isEdge⟩
      sourceDeclared := declares_of_mem parsed declared.member site.owner.named
      sourceUnit := declared.unit_eq
      sourceNode := ⟨n, a, node, key, upper, lower⟩
      signature := rfl
      sourceKey := ⟨congrArg c.keyOf site.unit_eq, by rw [site.unit_eq]; exact rooted⟩
      targetDeclared := declares_of_mem parsed denotes.mem_members named
      denotes := denotes
      targetType := ⟨rfl, nonempty.1⟩
      targetKey := ⟨rfl, nonempty.2⟩
      descriptor := rfl }⟩

-- The file `class A { m() { m(); } }`.
def selfCall : Corpus :=
  Corpus.ofFiles [("/A.java", Node.file [
    Node.classDecl 0 "A" [] [Node.method 0 [] "m" [] [Node.call 0 [] "m" []]]])]

def selfCallEdge : DependencyEdge where
  source := "A.java/[CN]/A/[MT]/m()"
  sourceKey := "A.java/[CN]/"
  targetType := "A"
  targetKey := "A.java/[CN]/"
  target := ⟨.method, "m", some []⟩

theorem dependency_links_selfCall :
    (∀ u ∈ selfCall.world.units, u.Parsed) ∧
      .dependency selfCallEdge ∈ (selfCall.dependencies 0).1 ∧
      ∃ s ∈ selfCall.sites 0, ∃ target, selfCall.Links 0 s target selfCallEdge := by
  have parsed : ∀ u ∈ selfCall.world.units, u.Parsed := by
    intro u listed
    obtain rfl := List.mem_singleton.1 listed
    exact ⟨_, _, rfl⟩
  have emitted : .dependency selfCallEdge ∈ (selfCall.dependencies 0).1 := by decide +kernel
  exact ⟨parsed, emitted, dependency_links selfCall parsed 0 selfCallEdge emitted⟩

end Corpus

end RefGraph

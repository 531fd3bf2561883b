import RefGraph.Expression.Typing
import RefGraph.Proofs.Renaming.Call

set_option autoImplicit false

namespace RefGraph

variable (σ : Nat → Nat)

def Referent.rename : Referent → Referent
  | .localVar v => .localVar v
  | .field f => .field (f.rename σ)
  | .type d => .type (d.rename σ)
  | .package name => .package name

def Receiver.rename (r : Receiver) : Receiver := ⟨r.type.rename σ, r.isType⟩

def Target.rename : Target → Target
  | .member m => .member (m.rename σ)
  | .localVar v => .localVar v
  | .type d => .type (d.rename σ)
  | .package name => .package name

@[simp] theorem Target.rename_id : Target.rename id = id := by
  funext target
  cases target <;> simp [rename]

namespace Env

structure Renamed (σ : Nat → Nat) (env env' : Env) : Prop where
  world : World.Renamed σ env.world env'.world
  context : env'.context = env.context.rename σ

namespace Renamed

variable {σ : Nat → Nat} {env env' : Env} (renamed : Renamed σ env env')

include renamed

theorem resolve? (n : Name) : env'.resolve? n = (env.resolve? n).map (Decl.rename σ) := by
  rw [Env.resolve?, Env.resolve?, renamed.context]
  exact renamed.world.resolve? (some env.context) n

theorem simpleName (name : String) :
    env'.simpleName name = (env.simpleName name).map (Referent.rename σ) := by
  rw [Env.simpleName, Env.simpleName, renamed.context, Context.scope_rename, Scope.var?_rename,
    renamed.world.fieldInScope, renamed.world.outsideFieldInScope, renamed.resolve?]
  cases env.context.scope.var? name with
  | some v => rfl
  | none =>
    refine bind_rename _ fun found => ?_
    cases found with
    | some f => rfl
    | none =>
      cases env.resolve? (Name.simple name) with
      | some d => rfl
      | none =>
        refine bind_rename _ fun found => ?_
        cases found <;> rfl

theorem typeNamed (t : Tree) : env'.typeNamed t = (env.typeNamed t).map (Decl.rename σ) := by
  simp only [Env.typeNamed, renamed.resolve?]
  cases env.resolve? (((TypeRef.ofNode? t).map (·.name)).getD (Name.ofString (Text.squeeze t.text)))
    <;> rfl

theorem dotted (t : Tree) : env'.dotted t = (env.dotted t).rename σ := by
  -- Unfolding by its equation is slow here.
  delta Env.dotted
  dsimp only
  rw [renamed.resolve?]
  cases env.resolve? (Name.ofString (Text.squeeze t.text)) <;> rfl

theorem memberType? (r : Receiver) (name : String) :
    env'.memberType? (r.rename σ) name = (env.memberType? r name).map (TypeId.rename σ) := by
  obtain ⟨type, isType⟩ := r
  cases isType with
  | false => rfl
  | true =>
    cases type with
    | ref d args =>
      simp only [Env.memberType?, Receiver.rename, RType.rename_ref]
      cases d with
      | corpus id => exact renamed.world.memberType? id name
      | library n => rfl
      | placeholder p => rfl
    | _ => simp [Env.memberType?, Receiver.rename]

theorem memberOf (r : Receiver) (name : String) :
    env'.memberOf (r.rename σ) name = (env.memberOf r name).map (Referent.rename σ) := by
  have array : (r.rename σ).type.isArray = r.type.isArray := RType.isArray_rename σ r.type
  have classes : (r.rename σ).type.classes env'.world.top =
      (r.type.classes env.world.top).map (ClassType.rename σ) := by
    rw [renamed.world.top]
    exact renamed.world.classes env.world.top r.type
  have described : env'.world.describe (r.rename σ).type = env.world.describe r.type :=
    renamed.world.describe r.type
  rw [Env.memberOf, Env.memberOf, array, classes, described, renamed.world.findField,
    renamed.memberType?]
  split
  · rfl
  · refine bind_rename _ fun found => ?_
    cases found with
    | some f => rfl
    | none => cases env.memberType? r name <;> rfl

theorem innermost : env'.innermost = env.innermost.map (TypeId.rename σ) := by
  rw [Env.innermost, Env.innermost, renamed.context, Context.enclosing_rename]
  cases env.context.enclosing <;> rfl

theorem resolveWritten (t : TypeRef) :
    env'.resolveWritten t = (env.resolveWritten t).map (RType.rename σ) := by
  have resolved := renamed.world.resolveRef_some env.context {} t
  rw [Bindings.map_empty] at resolved
  rw [Env.resolveWritten, Env.resolveWritten, renamed.context, resolved]

theorem explicitArgs (t : Tree) :
    env'.explicitArgs t = (env.explicitArgs t).map (RType.rename σ) := by
  have reading := renamed.world.reading (some env.context) {}
  rw [Bindings.map_empty, Option.map_some] at reading
  rw [Env.explicitArgs, Env.explicitArgs, renamed.context]
  cases t.child? "type_arguments" with
  | none => rfl
  | some node => exact reading.resolveArgs (TypeRef.argsOf node)

theorem isString (t : Option RType) : env'.isString (t.map (RType.rename σ)) = env.isString t := by
  cases t with
  | none => rfl
  | some t => simp [Env.isString, renamed.world.qualifiedType?]

theorem operate (operator : String) (left right : Option RType) :
    env'.operate operator (left.map (RType.rename σ)) (right.map (RType.rename σ)) =
      (env.operate operator left right).map (RType.rename σ) := by
  have known := renamed.world.known stringName []
  rw [List.map_nil] at known
  have shifted (t : RType) :
      (if shifts.contains operator then .ok (t.rename σ)
        else .error (Failure.unresolved (.arithmetic operator))) =
      Except.map (RType.rename σ)
        (if shifts.contains operator then .ok t
          else .error (Failure.unresolved (.arithmetic operator))) := by
    split <;> rfl
  simp only [Env.operate, renamed.isString, known]
  split
  · cases env.world.known stringName [] <;> simp [Except.map]
  · cases left with
    | none => rfl
    | some left =>
      cases right with
      | none => rfl
      | some right =>
        simp only [Option.map_some, renamed.world.promote]
        generalize env.world.promote left = p
        generalize env.world.promote right = q
        cases p with
        | prim p =>
          cases q with
          | prim q =>
            simp only [RType.rename_prim]
            split
            · simp [Except.map]
            · split
              · simp [Except.map]
              · cases p.wider? q <;> simp [Except.map]
          | _ => simpa using shifted (.prim p)
        | ref d args => simpa using shifted (.ref d args)
        | array c => simpa using shifted (.array c)
        | unbounded => simpa using shifted .unbounded
        | bounded v b => simpa using shifted (.bounded v b)
        | var n bounds => simpa using shifted (.var n bounds)
        | null => simpa using shifted .null

theorem referentTarget (r : Referent) :
    env'.referentTarget (r.rename σ) = (env.referentTarget r).rename σ := by
  cases r with
  | field f =>
    cases f with
    | declared owner args f => rfl
    | external m owner => rfl
    | arrayLength =>
      simp only [Env.referentTarget, Referent.rename, FoundField.rename, FoundField.memberRef,
        Target.rename, MemberRef.rename, ExternalMember.rename, renamed.world.top,
        ClassType.decl_rename]
  | localVar v => rfl
  | type d => rfl
  | package name => rfl

end Renamed

end Env

end RefGraph

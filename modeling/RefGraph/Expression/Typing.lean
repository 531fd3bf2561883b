import RefGraph.Expression.Form
import RefGraph.Expression.Operator

set_option autoImplicit false

namespace RefGraph

def classLiteralName : Name := ⟨"java", ["lang", "Class"]⟩

def commentKinds : List String := ["line_comment", "block_comment"]

def Tree.operands (t : Tree) : List Tree := t.namedChildren.filter fun c => !c.is commentKinds

def Tree.arguments (t : Tree) : List Tree := ((t.child? "arguments").map Tree.operands).getD []

def Tree.excerpt (t : Tree) : String := Text.clip 80 t.text

def Tree.writtenType? (t : Tree) : Option TypeRef := (t.child? "type").bind TypeRef.ofNode?

def endsWithEither (s : String) (lower upper : Char) : Bool :=
  s.toList.getLast?.any fun c => c == lower || c == upper

inductive Target where
  | member (m : MemberRef)
  | localVar (v : LocalVar)
  | type (d : Decl)
  | package (name : String)

def FoundField.memberRef (top : Decl) : FoundField → MemberRef
  | .declared owner _ f => .declared ⟨owner, .field f⟩
  | .external m _ => .external m
  | .arrayLength => .external ⟨"length", .field, top, none⟩

namespace Env

def innermost (env : Env) : Except Failure TypeId :=
  match env.context.enclosing with
  | t :: _ => .ok t
  | [] => .error (.untypable .thisOutsideType)

def resolveWritten (env : Env) (t : TypeRef) : Except Failure RType :=
  env.world.resolveRef (some env.context) {} t

def explicitArgs (env : Env) (t : Tree) : List RType :=
  match t.child? "type_arguments" with
  | none => []
  | some node => (env.world.reading (some env.context) {}).resolveArgs (TypeRef.argsOf node)

def argTypes (env : Env) (typeInside : TypeInside) (t : Tree) : Typing (List (Option RType)) :=
  t.arguments.mapM (env.typeIfKnown typeInside)

def call (env : Env) (typeInside : TypeInside) (t : Tree) : Typing Call :=
  let w := env.world
  match t.childText? "name" with
  | none => throw (.untypable .namelessCall)
  | some name => do
    let passed : Passed := { args := ← env.argTypes typeInside t, explicit := env.explicitArgs t }
    match t.child? "object" with
    | none => w.bareCall env.context name passed
    | some obj =>
      if obj.kind == "super" then
        let id ← env.innermost
        w.callOn name passed none (w.directSupertypes (World.selfType id))
      else
        let r ← env.receiver typeInside obj
        match r.type.classes w.top with
        | [] => throw (.unresolved (.receiver name (w.describe r.type)))
        | types => w.callOn name passed none types

def constructorCall (env : Env) (typeInside : TypeInside) (t : Tree) : Typing Call := do
  let id ← env.innermost
  let args ← env.argTypes typeInside t
  let target :=
    if (t.child? "constructor").any (·.kind == "this") then World.selfType id
    else env.world.superclass id
  env.world.constructorCall target { args }

def accessValue (env : Env) (typeInside : TypeInside) (t : Tree) : Typing Receiver :=
  match t.child? "field", t.child? "object" with
  | some field, some obj =>
    if field.is selfWords then do
      match ← env.typeNamed obj with
      | .corpus id =>
        let c := if field.kind == "this" then World.selfType id else env.world.superclass id
        return ⟨c.toType, false⟩
      | _ => throw (.unresolved .foreignThis)
    else env.receiver typeInside t
  | _, _ => env.receiver typeInside t

def valueType (t : Tree) (r : Receiver) : Except Failure RType :=
  if r.isType then .error (.unresolved (.typeAsValue t.text)) else .ok r.type

def arrayDims (t : Tree) : Nat :=
  t.namedChildren.foldl (fun dims c =>
    match c.kind with
    | "dimensions_expr" => dims + 1
    | "dimensions" => dims + TypeRef.countDims c
    | _ => dims) 0

def conditional (env : Env) (typeInside : TypeInside) (t : Tree) : Typing RType := do
  let first ← match t.child? "consequence" with
    | some c => env.typeIfKnown typeInside c
    | none => pure none
  let second := match t.child? "alternative" with
    | some c => typeInside env c
    | none => throw (.untypable .conditional)
  match first with
  | none | some .null => second
  | some type => return type

def typeBy (env : Env) (typeInside : TypeInside) (t : Tree) : Typing RType :=
  let w := env.world
  match ExprForm.ofKind t.kind with
  | .name => do valueType t (← env.receiver typeInside t)
  | .fieldAccess => do valueType t (← env.accessValue typeInside t)
  | .thisValue => return (World.selfType (← env.innermost)).toType
  | .superValue => return (w.superclass (← env.innermost)).toType
  | .call => do w.returnType (← env.call typeInside t)
  | .creation =>
    match t.writtenType? with
    | some written => env.resolveWritten written
    | none => throw (.untypable (.createdType t.excerpt))
  | .arrayCreation =>
    match t.writtenType? with
    | some written => env.resolveWritten (written.addDims (arrayDims t))
    | none => throw (.untypable (.arrayType t.excerpt))
  | .arrayAccess =>
    match t.child? "array" with
    | none => throw (.unresolved .notAnArray)
    | some array => do
      match ← typeInside env array with
      | .array component => return component
      | _ => throw (.unresolved .notAnArray)
  | .cast =>
    match t.writtenType? with
    | some written => env.resolveWritten written
    | none => throw (.untypable (.castType t.excerpt))
  | .parentheses =>
    match t.operands with
    | inner :: _ => typeInside env inner
    | [] => throw (.untypable .emptyParentheses)
  | .conditional => env.conditional typeInside t
  | .assignment =>
    match t.child? "left" with
    | some left => typeInside env left
    | none => throw (.untypable .assignment)
  | .binary => env.binary typeInside t
  | .unary =>
    if t.childText? "operator" = some "!" then return .prim .boolean
    else match t.child? "operand" with
      | some operand => return w.promote (← typeInside env operand)
      | none => throw (.untypable .unary)
  | .update =>
    match t.operands with
    | operand :: _ => typeInside env operand
    | [] => throw (.untypable .update)
  | .truthValue => return .prim .boolean
  | .classLiteral => return (← w.known classLiteralName []).toType
  | .stringLiteral => return (← w.known stringName []).toType
  | .charLiteral => return .prim .char
  | .integerLiteral => return .prim (if endsWithEither t.text 'l' 'L' then .long else .int)
  | .floatLiteral => return .prim (if endsWithEither t.text 'f' 'F' then .float else .double)
  | .nullLiteral => return .null
  | .untyped => throw (.untypable (.noStandaloneType t.kind))
  | .unknown => throw (.untypable (.unsupported t.kind))

/-- The type of an expression that may nest so many levels. -/
def typeWithin : Nat → TypeInside
  | 0, env, t => throw (.tooDeep env.limit t.excerpt)
  | levels + 1, env, t => env.typeBy (typeWithin levels) t

def typeInside (env : Env) : TypeInside := typeWithin env.limit.toNat

def typeOf (env : Env) (t : Tree) : Typing RType := env.typeInside env t

def referentTarget (env : Env) : Referent → Target
  | .localVar v => .localVar v
  | .field f => .member (f.memberRef env.world.top.decl)
  | .type d => .type d
  | .package name => .package name

def targetOf (env : Env) (t : Tree) : Typing Target :=
  match t.kind with
  | "method_invocation" => return .member (← env.call env.typeInside t).member
  | "explicit_constructor_invocation" =>
    return .member (← env.constructorCall env.typeInside t).member
  | "field_access" => return env.referentTarget (← env.access env.typeInside t)
  | _ => return env.referentTarget (← env.simpleName t.text)

end Env

end RefGraph

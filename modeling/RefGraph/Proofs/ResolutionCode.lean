import RefGraph.Proofs.CallMachine
import RefGraph.Proofs.Renaming.Typing

/-!
Resolution as code for the machine of calls. Only the question for the type of an expression counts
nesting, and it counts upwards to the limit.
-/

set_option autoImplicit false

namespace RefGraph

namespace Resolution

inductive Params where
  | bound (b : Bindings RType)
  | bare

def Params.reading (w : World) (ctx? : Option Context) : Params → Reading
  | bound b => w.reading ctx? b
  | bare => w.bareReading ctx?

inductive Question where
  | typeOf (depth : Nat) (env : Env) (t : Tree)
  | receiver (depth : Nat) (env : Env) (t : Tree)
  | access (depth : Nat) (env : Env) (t : Tree)
  | call (depth : Nat) (env : Env) (t : Tree)
  | constructorCall (depth : Nat) (env : Env) (t : Tree)
  -- The left operand of a binary expression.
  | operand (depth : Nat) (env : Env) (t : Tree)
  | localType (depth : Nat) (env : Env) (v : LocalVar)
  | name (env : Env) (text : String)
  | written (w : World) (ctx? : Option Context) (params : Params) (t : TypeRef)
  | argument (w : World) (ctx? : Option Context) (params : Params) (a : Arg TypeRef)

abbrev Question.Value : Question → Type
  | typeOf .. | localType .. | written .. | argument .. => RType
  | receiver .. => Receiver
  | access .. | name .. => Referent
  | call .. | constructorCall .. => Call
  | operand .. => Option RType

-- A question is asked when some types of local variables have been found.
abbrev Asked := Question × LocalTypes

abbrev Reply (q : Asked) : Type := Except Failure q.1.Value × LocalTypes

abbrev Working := ExceptT Failure (StateT LocalTypes (Code Asked Reply))

def ask (q : Question) : Working q.Value := fun known => .ask (q, known) .done

variable {α β ι : Type}

def attempt (x : Working α) (quiet : Failure → Bool) : Working (Option α) := fun known => do
  let (result, later) ← x known
  return match result with
    | .ok a => (.ok (some a), later)
    | .error e => (if quiet e then .ok none else .error e, later)

def forEach (x : ι → Working α) : List ι → Working (List α)
  | [] => return []
  | i :: is => do
    let a ← x i
    let as ← forEach x is
    return a :: as

section Written

variable (w : World) (ctx? : Option Context)

def bounds (p : TypeParam) : Working (List RType) := do
  let found ← forEach
    (fun b => attempt (ask (.written w ctx? .bare b)) Failure.isUnresolved) p.bounds
  return found.filterMap id

def boundName (name : String) : Params → Working (Option RType)
  | .bare => return (ctx?.bind (·.typeParams.get? name)).map fun p => .var p.name []
  | .bound b =>
    match b.get? name, ctx?.bind (·.typeParams.get? name) with
    | some t, _ => return some t
    | none, some p => return some (.var p.name (← bounds w ctx? p))
    | none, none => return none

def named (params : Params) (t : TypeRef) (n : Name) : Option RType → Working RType
  | some type => return RType.arrays t.dims type
  | none =>
    match w.resolve? ctx? n with
    | none => throw (.unresolved (.name n.text))
    | some d => return RType.arrays t.dims (.ref d
      (← forEach (fun a => ask (.argument w ctx? params a)) t.args))

def written (params : Params) (t : TypeRef) : Working RType :=
  match t.head with
  | .primitive p => return RType.arrays t.dims (.prim p)
  | .named n =>
    if n.isQualified then named w ctx? params t n none
    else do named w ctx? params t n (← boundName w ctx? n.first params)

def argument (params : Params) : Arg TypeRef → Working RType
  | .unbounded => return .unbounded
  | .type t =>
    return (← attempt (ask (.written w ctx? params t)) Failure.isUnresolved).getD .unbounded
  | .bounded v t => do
    let bound ← attempt (ask (.written w ctx? params t)) Failure.isUnresolved
    return (bound.map (RType.bounded v)).getD .unbounded

end Written

def fieldType (w : World) : FoundField → Working RType
  | .declared owner args f =>
    ask (.written w (some (w.typeContext owner {}))
      (.bound (w.bindings ⟨.corpus owner, args⟩)) f.type)
  | .external m owner =>
    match m.returns with
    | some t => ask (.written w none (.bound (w.bindings owner)) t)
    | none => throw (.unresolved (.fieldType m.name))
  | .arrayLength => return .prim .int

def returnType (w : World) (call : Call) : Working RType :=
  match call.member with
  | .declared m =>
    match m.member with
    | .method method =>
      ask (.written w (some (w.memberContext m)) (.bound call.bindings) method.returns)
    | _ => throw (.unresolved (.returnType m.member.name))
  | .external m =>
    match m.returns with
    | some t => ask (.written w none (.bound call.bindings) t)
    | none => throw (.unresolved (.returnType m.name))

section Expressions

variable (depth : Nat) (env : Env)

def typeIfKnown (t : Tree) : Working (Option RType) :=
  attempt (ask (.typeOf depth env t)) fun e => !e.isTooDeep

def resolveWritten (t : TypeRef) : Working RType :=
  ask (.written env.world (some env.context) (.bound {}) t)

-- The initializer is no part of the expression that the variable stands in.
def inferLocal (v : LocalVar) : Working RType :=
  match v.initializer with
  | none => throw (.unresolved (.localType v.name))
  | some init =>
    if env.busy.contains v.id then throw (.unresolved (.selfReference v.name))
    else do
      let t ← ask (.typeOf depth { env with busy := v.id :: env.busy } init)
      if v.iterated then env.world.elementType t else return t

def localType (v : LocalVar) : Working RType := do
  match (← get).find? fun e => e.1 == v.id with
  | some e => return e.2
  | none =>
    let t ← match v.type with
      | some written => resolveWritten env written
      | none => inferLocal depth env v
    modify fun known => (v.id, t) :: known
    return t

def asReceiver : Referent → Working Receiver
  | .localVar v => return ⟨← ask (.localType depth env v), false⟩
  | .field f => return ⟨← fieldType env.world f, false⟩
  | .type d => return ⟨.ref d [], true⟩
  | .package name => throw (.unresolved (.package name))

def access (t : Tree) : Working Referent :=
  match t.child? "object", t.child? "field" with
  | some obj, some field =>
    if field.is Env.selfWords then return .type (← env.typeNamed obj)
    else do
      match ← attempt (ask (.receiver depth env obj)) fun e =>
        e.isUnresolved && Env.isNameChain t with
      | none => return env.dotted t
      | some r => env.memberOf r field.text
  | _, _ => throw (.untypable (.fieldAccess t.text))

def receiver (t : Tree) : Working Receiver :=
  if t.kind == "identifier" then do asReceiver depth env (← ask (.name env t.text))
  else if t.kind == "field_access" then
    if (t.child? "field").any (·.is Env.selfWords) then return ⟨← ask (.typeOf depth env t), false⟩
    else do asReceiver depth env (← ask (.access depth env t))
  else if Env.typeNameKinds.contains t.kind then return ⟨.ref (← env.typeNamed t) [], true⟩
  else return ⟨← ask (.typeOf depth env t), false⟩

def argTypes (t : Tree) : Working (List (Option RType)) :=
  forEach (typeIfKnown depth env) t.arguments

def explicitArgs (t : Tree) : Working (List RType) :=
  match t.child? "type_arguments" with
  | none => return []
  | some node =>
    forEach (fun a => ask (.argument env.world (some env.context) (.bound {}) a))
      (TypeRef.argsOf node)

def callPassing (t : Tree) (name : String) (passed : Passed) : Working Call :=
  let w := env.world
  match t.child? "object" with
  | none => w.bareCall env.context name passed
  | some obj =>
    if obj.kind == "super" then do
      let id ← env.innermost
      w.callOn name passed none (w.directSupertypes (World.selfType id))
    else do
      let r ← ask (.receiver depth env obj)
      match r.type.classes w.top with
      | [] => throw (.unresolved (.receiver name (w.describe r.type)))
      | types => w.callOn name passed none types

def call (t : Tree) : Working Call :=
  match t.childText? "name" with
  | none => throw (.untypable .namelessCall)
  | some name => do
    let args ← argTypes depth env t
    let explicit ← explicitArgs env t
    callPassing depth env t name { args, explicit }

def constructorCall (t : Tree) : Working Call := do
  let id ← env.innermost
  let args ← argTypes depth env t
  let target :=
    if (t.child? "constructor").any (·.kind == "this") then World.selfType id
    else env.world.superclass id
  env.world.constructorCall target { args }

def combine (t : Tree) (left : Option RType) : Working RType := do
  let operator := (t.childText? "operator").getD ""
  if comparisons.contains operator then return .prim .boolean
  else
    let right ← match t.child? "right" with
      | some r => typeIfKnown depth env r
      | none => pure none
    env.operate operator left right

def leftOperand (t : Tree) : Working (Option RType) :=
  match t.child? "left" with
  | some left => ask (.operand depth env left)
  | none => return none

-- The left operands of a chain are typed from the innermost outwards, all at one depth.
def operand (t : Tree) : Working (Option RType) :=
  if t.kind == "binary_expression" then do
    let left ← leftOperand depth env t
    attempt (combine depth env t left) fun e => !e.isTooDeep
  else typeIfKnown depth env t

def accessValue (t : Tree) : Working Receiver :=
  match t.child? "field", t.child? "object" with
  | some field, some obj =>
    if field.is Env.selfWords then do
      match ← env.typeNamed obj with
      | .corpus id =>
        let c := if field.kind == "this" then World.selfType id else env.world.superclass id
        return ⟨c.toType, false⟩
      | _ => throw (.unresolved .foreignThis)
    else ask (.receiver depth env t)
  | _, _ => ask (.receiver depth env t)

def conditional (t : Tree) : Working RType := do
  let first ← match t.child? "consequence" with
    | some c => typeIfKnown depth env c
    | none => pure none
  let second := match t.child? "alternative" with
    | some c => ask (.typeOf depth env c)
    | none => throw (.untypable .conditional)
  match first with
  | none | some .null => second
  | some type => return type

def dispatch (t : Tree) : Working RType :=
  let w := env.world
  match ExprForm.ofKind t.kind with
  | .name => do Env.valueType t (← ask (.receiver depth env t))
  | .fieldAccess => do Env.valueType t (← accessValue depth env t)
  | .thisValue => return (World.selfType (← env.innermost)).toType
  | .superValue => return (w.superclass (← env.innermost)).toType
  | .call => do returnType w (← ask (.call depth env t))
  | .creation =>
    match t.writtenType? with
    | some written => resolveWritten env written
    | none => throw (.untypable (.createdType t.excerpt))
  | .arrayCreation =>
    match t.writtenType? with
    | some written => resolveWritten env (written.addDims (Env.arrayDims t))
    | none => throw (.untypable (.arrayType t.excerpt))
  | .arrayAccess =>
    match t.child? "array" with
    | none => throw (.unresolved .notAnArray)
    | some array => do
      match ← ask (.typeOf depth env array) with
      | .array component => return component
      | _ => throw (.unresolved .notAnArray)
  | .cast =>
    match t.writtenType? with
    | some written => resolveWritten env written
    | none => throw (.untypable (.castType t.excerpt))
  | .parentheses =>
    match t.operands with
    | inner :: _ => ask (.typeOf depth env inner)
    | [] => throw (.untypable .emptyParentheses)
  | .conditional => conditional depth env t
  | .assignment =>
    match t.child? "left" with
    | some left => ask (.typeOf depth env left)
    | none => throw (.untypable .assignment)
  | .binary => do combine depth env t (← leftOperand depth env t)
  | .unary =>
    if t.childText? "operator" = some "!" then return .prim .boolean
    else match t.child? "operand" with
      | some operand => return w.promote (← ask (.typeOf depth env operand))
      | none => throw (.untypable .unary)
  | .update =>
    match t.operands with
    | operand :: _ => ask (.typeOf depth env operand)
    | [] => throw (.untypable .update)
  | .truthValue => return .prim .boolean
  | .classLiteral => return (← w.known classLiteralName []).toType
  | .stringLiteral => return (← w.known stringName []).toType
  | .charLiteral => return .prim .char
  | .integerLiteral => return .prim (if endsWithEither t.text 'l' 'L' then .long else .int)
  | .floatLiteral => return .prim (if endsWithEither t.text 'f' 'F' then .float else .double)
  | .nullLiteral => return .null
  | .untyped => throw (.untypable (.noStandaloneType t.kind))
  | .unknown => throw (.untypable (.unsupported t.kind))

end Expressions

def body : (q : Question) → Working q.Value
  | .typeOf depth env t =>
    if depth < env.limit then dispatch (depth + 1) env t else throw (.tooDeep env.limit t.excerpt)
  | .receiver depth env t => receiver depth env t
  | .access depth env t => access depth env t
  | .call depth env t => call depth env t
  | .constructorCall depth env t => constructorCall depth env t
  | .operand depth env t => operand depth env t
  | .localType depth env v => localType depth env v
  | .name env text => liftM (env.simpleName text)
  | .written w ctx? params t => written w ctx? params t
  | .argument w ctx? params a => argument w ctx? params a

def levels (env : Env) (depth : Nat) : Nat := (env.limit - depth).toNat

def answer : (q : Question) → Typing q.Value
  | .typeOf depth env t => Env.typeWithin (levels env depth) env t
  | .receiver depth env t => env.receiver (Env.typeWithin (levels env depth)) t
  | .access depth env t => env.access (Env.typeWithin (levels env depth)) t
  | .call depth env t => env.call (Env.typeWithin (levels env depth)) t
  | .constructorCall depth env t => env.constructorCall (Env.typeWithin (levels env depth)) t
  | .operand depth env t => env.leftType (Env.typeWithin (levels env depth)) t
  | .localType depth env v => env.localType (Env.typeWithin (levels env depth)) v
  | .name env text => liftM (env.simpleName text)
  | .written w ctx? params t => liftM ((params.reading w ctx?).resolve t)
  | .argument w ctx? params a => return (params.reading w ctx?).resolveArg a

def reply (q : Asked) : Reply q := (answer q.1).run q.2

end Resolution

end RefGraph

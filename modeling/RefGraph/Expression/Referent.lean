import RefGraph.Call
import RefGraph.Text.Blank
import RefGraph.TypeRef.Node

set_option autoImplicit false

namespace RefGraph

abbrev LocalTypes := List (Nat × RType)

abbrev Typing := ExceptT Failure (StateM LocalTypes)

/-- Where an expression stands; `busy` holds the variables whose initializers are being typed. -/
structure Env where
  world : World
  context : Context
  limit : Int
  busy : List Nat := []

abbrev TypeInside := Env → Tree → Typing RType

inductive Referent where
  | localVar (v : LocalVar)
  | field (f : FoundField)
  | type (d : Decl)
  | package (name : String)

structure Receiver where
  type : RType
  isType : Bool

namespace Typing

/-- Runs a step whose failures, if of the given kind, count as no answer. -/
def attempt {α : Type} (x : Typing α) (quiet : Failure → Bool) : Typing (Option α) :=
  tryCatch (some <$> x) fun e => if quiet e then pure none else throw e

end Typing

namespace Env

def resolve? (env : Env) (n : Name) : Option Decl := env.world.resolve? (some env.context) n

def typeIfKnown (env : Env) (typeInside : TypeInside) (t : Tree) : Typing (Option RType) :=
  Typing.attempt (typeInside env t) fun e => !e.isTooDeep

/-- A bare name is a local variable, a field that is declared, a type, or a field from outside. -/
def simpleName (env : Env) (name : String) : Except Failure Referent :=
  match env.context.scope.var? name with
  | some v => .ok (.localVar v)
  | none => do
    match ← env.world.fieldInScope env.context name with
    | some f => return .field f
    | none =>
      match env.resolve? (Name.simple name) with
      | some d => return .type d
      | none =>
        match ← env.world.outsideFieldInScope env.context name with
        | some f => return .field f
        | none => throw (.unresolved (.name name))

def inferLocal (env : Env) (typeInside : TypeInside) (v : LocalVar) : Typing RType :=
  match v.initializer with
  | none => throw (.unresolved (.localType v.name))
  | some init =>
    if env.busy.contains v.id then throw (.unresolved (.selfReference v.name))
    else do
      let t ← typeInside { env with busy := v.id :: env.busy } init
      if v.iterated then env.world.elementType t else return t

def localType (env : Env) (typeInside : TypeInside) (v : LocalVar) : Typing RType := do
  match (← get).find? fun e => e.1 == v.id with
  | some e => return e.2
  | none =>
    let t ← match v.type with
      | some written => env.world.resolveRef (some env.context) {} written
      | none => env.inferLocal typeInside v
    modify fun known => (v.id, t) :: known
    return t

def typeNamed (env : Env) (t : Tree) : Except Failure Decl :=
  let n := ((TypeRef.ofNode? t).map (·.name)).getD (Name.ofString (Text.squeeze t.text))
  match env.resolve? n with
  | some d => .ok d
  | none => .error (.unresolved (.name n.text))

def asReceiver (env : Env) (typeInside : TypeInside) : Referent → Typing Receiver
  | .localVar v => return ⟨← env.localType typeInside v, false⟩
  | .field f => return ⟨← env.world.fieldType f, false⟩
  | .type d => return ⟨.ref d [], true⟩
  | .package name => throw (.unresolved (.package name))

/-- A dotted name that is no value is the name of a type, or else of a package. -/
def dotted (env : Env) (t : Tree) : Referent :=
  let text := Text.squeeze t.text
  match env.resolve? (Name.ofString text) with
  | some d => .type d
  | none => .package text

def memberType? (env : Env) (r : Receiver) (name : String) : Option TypeId :=
  match r.isType, r.type with
  | true, .ref (.corpus id) _ => env.world.memberType? id name
  | _, _ => none

def memberOf (env : Env) (r : Receiver) (name : String) : Except Failure Referent :=
  if r.type.isArray && name == "length" then .ok (.field .arrayLength)
  else do
    match ← env.world.findField name (r.type.classes env.world.top) with
    | some f => return .field f
    | none =>
      match env.memberType? r name with
      | some id => return .type (.corpus id)
      | none => throw (.unresolved (.field name (env.world.describe r.type)))

def selfWords : List String := ["this", "super"]

mutual
def isNameChain : Tree → Bool
  | t@{ kind, children, .. } =>
    if kind == "field_access" then
      (t.child? "field").any (·.kind == "identifier") && objectIsNameChain children
    else kind == "identifier"

def objectIsNameChain : List Tree → Bool
  | [] => false
  | c :: cs => if c.role == some "object" then isNameChain c else objectIsNameChain cs
end

def accessOn (env : Env) (t : Tree) (object : Typing Receiver) : Typing Referent :=
  match t.child? "object", t.child? "field" with
  | some obj, some field =>
    if field.is selfWords then return .type (← env.typeNamed obj)
    else do
      match ← Typing.attempt object fun e => e.isUnresolved && isNameChain t with
      | none => return env.dotted t
      | some r => env.memberOf r field.text
  | _, _ => throw (.untypable (.fieldAccess t.text))

def typeNameKinds : List String :=
  ["scoped_identifier", "type_identifier", "scoped_type_identifier", "generic_type"]

mutual
def receiver (env : Env) (typeInside : TypeInside) : Tree → Typing Receiver
  | t@{ kind, children, .. } =>
    if kind == "identifier" then do
      env.asReceiver typeInside (← env.simpleName t.text)
    else if kind == "field_access" then
      if (t.child? "field").any (·.is selfWords) then return ⟨← typeInside env t, false⟩
      else do
        env.asReceiver typeInside (← env.accessOn t (objectReceiver env typeInside children))
    else if typeNameKinds.contains kind then return ⟨.ref (← env.typeNamed t) [], true⟩
    else return ⟨← typeInside env t, false⟩

def objectReceiver (env : Env) (typeInside : TypeInside) : List Tree → Typing Receiver
  | [] => throw (.untypable (.fieldAccess ""))
  | c :: cs =>
    if c.role == some "object" then receiver env typeInside c
    else objectReceiver env typeInside cs
end

def access (env : Env) (typeInside : TypeInside) (t : Tree) : Typing Referent :=
  env.accessOn t (objectReceiver env typeInside t.children)

end Env

end RefGraph

import RefGraph.Members

set_option autoImplicit false

namespace RefGraph

namespace RType

def peel? : Nat → RType → Option RType
  | 0, t => some t
  | n + 1, .array t => peel? n t
  | _ + 1, _ => none

def evidence? : RType → Option RType
  | .unbounded => none
  | .bounded _ b => some b
  | t => some t

end RType

namespace World

def boxed (w : World) : RType → RType
  | .prim p => ((p.box?.bind fun n => (w.known n []).toOption).map ClassType.toType).getD (.prim p)
  | t => t

def bind (w : World) (name : String) (actual : RType) (inferred : Bindings RType) :
    Except Failure (Bindings RType) :=
  if actual = .null then .ok inferred
  else
    let actual := w.boxed actual
    match inferred.get? name with
    | none => .ok (inferred.set name actual)
    | some previous => do
      if ← w.passes previous actual then return inferred.set name actual
      else if ← w.passes actual previous then return inferred
      else throw (.conflicting name [w.describe previous, w.describe actual])

mutual
def unify (w : World) (names : List String) (inferred : Bindings RType) :
    TypeRef → RType → Except Failure (Bindings RType)
  | { head, args, dims }, actual =>
    match actual.peel? dims with
    | none => .ok inferred
    | some actual =>
      match args with
      | [] =>
        if !head.name.isQualified && names.contains head.name.first then
          w.bind head.name.first actual inferred
        else .ok inferred
      | args =>
        match actual with
        | .ref d actuals =>
          if w.nameOf d = head.name.last ∧ actuals.length = args.length then
            unifyAll w names inferred args actuals
          else .ok inferred
        | _ => .ok inferred

def unifyArg (w : World) (names : List String) (inferred : Bindings RType) :
    Arg TypeRef → RType → Except Failure (Bindings RType)
  | .type t, actual | .bounded _ t, actual =>
    match actual.evidence? with
    | none => .ok inferred
    | some actual => unify w names inferred t actual
  | .unbounded, _ => .ok inferred

def unifyAll (w : World) (names : List String) (inferred : Bindings RType) :
    List (Arg TypeRef) → List RType → Except Failure (Bindings RType)
  | a :: as, t :: ts => do unifyAll w names (← unifyArg w names inferred a t) as ts
  | _, _ => .ok inferred
end

def writtenFor? (params : List Param) (index : Nat) (actual : RType) : Option TypeRef :=
  match params[index]? with
  | some p =>
    let asArray := index + 1 == params.length && actual.isArray
    some (if p.varargs && !asArray then p.type else p.effectiveType)
  | none => (params.getLast?.filter (·.varargs)).map (·.type)

def inferFrom (w : World) (names : List String) (params : List Param) (inferred : Bindings RType) :
    List (Option RType × Nat) → Except Failure (Bindings RType)
  | [] => .ok inferred
  | (none, _) :: rest => w.inferFrom names params inferred rest
  | (some actual, index) :: rest =>
    match writtenFor? params index actual with
    | none => .ok inferred
    | some written => do
      w.inferFrom names params (← w.unify names inferred written actual) rest

def infer (w : World) (c : Candidate) (args : List (Option RType)) (explicit : List RType) :
    Except Failure (Bindings RType) := do
  let b := w.bindings c.on
  let names := c.member.member.typeParams.map (·.name)
  if names.isEmpty then return b
  else if !explicit.isEmpty && explicit.length == names.length then
    return b.setAll (names.zip explicit)
  else return b.merge (← w.inferFrom names c.params {} args.zipIdx)

end World

end RefGraph

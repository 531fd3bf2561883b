import RefGraph.Expression.Referent

set_option autoImplicit false

namespace RefGraph

def stringName : Name := ⟨"java", ["lang", "String"]⟩

def comparisons : List String := ["==", "!=", "<", ">", "<=", ">=", "&&", "||"]

def shifts : List String := ["<<", ">>", ">>>"]

def bitwise : List String := ["&", "|", "^"]

namespace Primitive

def wider? (p q : Primitive) : Option Primitive := do
  let i ← p.rank?
  let j ← q.rank?
  return if i < j then q else p

end Primitive

namespace Env

def isString (env : Env) (t : Option RType) : Bool :=
  t.any fun t => env.world.qualifiedType? t == some stringName

def operate (env : Env) (operator : String) (left right : Option RType) : Except Failure RType :=
  if operator = "+" ∧ (env.isString left ∨ env.isString right) then
    (env.world.known stringName []).map ClassType.toType
  else
    match left, right with
    | some left, some right =>
      match env.world.promote left, env.world.promote right with
      | .prim p, .prim q =>
        if bitwise.contains operator && p == .boolean && q == .boolean then .ok (.prim .boolean)
        else if shifts.contains operator then .ok (.prim p)
        else match p.wider? q with
          | some r => .ok (.prim r)
          | none => .error (.unresolved (.arithmetic operator))
      | left, _ =>
        if shifts.contains operator then .ok left
        else .error (.unresolved (.arithmetic operator))
    | _, _ => .error (.unresolved .operand)

def combine (env : Env) (typeInside : TypeInside) (t : Tree) (left : Option RType) :
    Typing RType := do
  let operator := (t.childText? "operator").getD ""
  if comparisons.contains operator then return .prim .boolean
  else
    let right ← match t.child? "right" with
      | some r => env.typeIfKnown typeInside r
      | none => pure none
    env.operate operator left right

mutual
def leftType (env : Env) (typeInside : TypeInside) : Tree → Typing (Option RType)
  | t@{ kind, children, .. } =>
    if kind == "binary_expression" then do
      let left ← leftTypeIn env typeInside children
      Typing.attempt (env.combine typeInside t left) fun e => !e.isTooDeep
    else env.typeIfKnown typeInside t

def leftTypeIn (env : Env) (typeInside : TypeInside) : List Tree → Typing (Option RType)
  | [] => return none
  | c :: cs => if c.role == some "left" then leftType env typeInside c
    else leftTypeIn env typeInside cs
end

def binary (env : Env) (typeInside : TypeInside) (t : Tree) : Typing RType := do
  env.combine typeInside t (← env.leftTypeIn typeInside t.children)

end Env

end RefGraph

import RefGraph.Corpus
import RefGraph.Diagnostics
import RefGraph.Expression.Typing
import RefGraph.Sites.Walk

set_option autoImplicit false

namespace RefGraph

namespace Corpus

def env (c : Corpus) (s : Site) :
    Env := { world := c.world, context := s.context, limit := c.limit }

structure Outcome where
  target : Except Failure Target
  edge : Option DependencyEdge := none
  reported : List Diagnostic := []

def edgeTo? (c : Corpus) (s : Site) (m : MemberOf) : Option DependencyEdge :=
  let key := c.keyOf s.context.unit
  let d := c.world.decl m.owner
  let targetKey := c.keyOf m.owner.unit
  if d.name = "" ∨ targetKey = "" then none
  else some {
    source := s.owner.member.signature key (c.world.decl s.owner.owner).name
    sourceKey := key
    targetType := d.name
    targetKey
    target := m.member.descriptor d.name }

def report? (c : Corpus) (s : Site) : Except Failure Target → Option Diagnostic
  | .error e =>
    if s.node.kind = "identifier" then none
    else some (.ofFailure e.kind e.detail (c.world.unit s.context.unit).path (some s.node.line))
  | .ok (.member (.external m)) =>
    match m.on with
    | .placeholder p => some {
        event := .placeholderHit
        detail := s!"{m.name} on {p.name.text}"
        path := (c.world.unit s.context.unit).path
        line := some s.node.line }
    | _ => none
  | .ok _ => none

def resolveSite (c : Corpus) (s : Site) (known : LocalTypes) : Outcome × LocalTypes :=
  let (target, known) := ((c.env s).targetOf s.node).run known
  let edge := match target with
    | .ok (.member (.declared m)) => c.edgeTo? s m
    | _ => none
  ({ target, edge, reported := (c.report? s target).toList }, known)

-- The unit whose key the edge of a site needs.
def Outcome.targetUnit? (c : Corpus) (o : Outcome) : Option Nat :=
  match o.target with
  | .ok (.member (.declared m)) =>
    if (c.world.decl m.owner).name = "" then none else some m.owner.unit
  | _ => none

def visit (c : Corpus) (s : Site) (known : LocalTypes) : Except PathError (Outcome × LocalTypes) :=
  let (outcome, known) := c.resolveSite s known
  match outcome.targetUnit? c with
  | some unit => (c.keyOf? unit).map fun _ => (outcome, known)
  | none => .ok (outcome, known)

def resolveSites (c : Corpus) (known : LocalTypes) : List Site → List Outcome
  | [] => []
  | s :: ss =>
    let (outcome, known) := c.resolveSite s known
    outcome :: c.resolveSites known ss

def sites (c : Corpus) (unit : Nat) : List Site :=
  if c.keyOf unit = "" then [] else Sites.ofUnit c.world unit

def ofOutcomes (outcomes : List Outcome) : List Relation × List Diagnostic :=
  (outcomes.filterMap fun o => o.edge.map .dependency, outcomes.flatMap (·.reported))

def dependencies (c : Corpus) (unit : Nat) : List Relation × List Diagnostic :=
  ofOutcomes (c.resolveSites [] (c.sites unit))

def visitAll (c : Corpus) (known : LocalTypes) : List Site → Except PathError (List Outcome)
  | [] => .ok []
  | s :: ss => do
    let (outcome, known) ← c.visit s known
    return outcome :: (← c.visitAll known ss)

def dependencies? (c : Corpus) (unit : Nat) :
    Except PathError (List Relation × List Diagnostic) := do
  let _ ← c.keyOf? unit
  return ofOutcomes (← c.visitAll [] (c.sites unit))

end Corpus

end RefGraph

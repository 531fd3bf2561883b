import RefGraph.Sites.Locals
import RefGraph.Sites.Value
import RefGraph.World

set_option autoImplicit false

namespace RefGraph

structure Site where
  node : Tree
  context : Context
  owner : MemberOf
deriving Inhabited

namespace Sites

-- Innermost first in every list.
structure Surroundings where
  scope : Scope TypeId := {}
  types : List TypeId := []
  members : List MemberOf := []
  owners : List MemberOf := []
  nextVar : Nat := 0

structure Opened where
  scope : Bool := false
  owner : Bool := false
  type : Bool := false
  member : Bool := false

def scopeNodes : List String :=
  ["method_declaration", "constructor_declaration", "compact_constructor_declaration",
    "lambda_expression", "block", "constructor_body", "for_statement", "enhanced_for_statement",
    "catch_clause", "try_with_resources_statement", "switch_block_statement_group", "switch_rule",
    "class_body"]

def siteNodes : List String :=
  ["method_invocation", "field_access", "identifier", "explicit_constructor_invocation"]

namespace Surroundings

def declare (s : Surroundings) (v : LocalVar) : Surroundings :=
  { s with scope := s.scope.declare { v with id := s.nextVar }, nextVar := s.nextVar + 1 }

def declareAll (s : Surroundings) (vs : List LocalVar) : Surroundings := vs.foldl declare s

def enterType (w : World) (s : Surroundings) (id : TypeId) : Surroundings :=
  let d := w.decl id
  { s with
    scope := if d.isLocal && d.isNamed then s.scope.declareType d.name id else s.scope
    types := id :: s.types }

def enterMember (s : Surroundings) (m : MemberOf) : Surroundings :=
  { s with members := m :: s.members }

def enterOwner (s : Surroundings) (m : MemberOf) : Surroundings :=
  { s with owners := m :: s.owners }

/-- Enters what a node declares; a member counts only inside its own type, and owns sites if that
type has a name. -/
def enterDeclaration (w : World) (unit : Nat) (s : Surroundings) (t : Tree) :
    Surroundings × Opened :=
  match (w.unit unit).declarationAt? t with
  | none => (s, {})
  | some (.type i) => (s.enterType w ⟨unit, i⟩, { type := true })
  | some r@(.method i _) | some r@(.constructor i _) | some r@(.field i _) =>
    let owner : TypeId := ⟨unit, i⟩
    let d := w.decl owner
    match s.types.head? == some owner, d.member? r with
    | true, some (.field f) =>
      if d.isNamed then (s.enterOwner ⟨owner, .field f⟩, { owner := true }) else (s, {})
    | true, some m =>
      let inside := s.enterMember ⟨owner, m⟩
      if d.isNamed then (inside.enterOwner ⟨owner, m⟩, { member := true, owner := true })
      else (inside, { member := true })
    | _, _ => (s, {})

def paramVars (m : Member) : List LocalVar :=
  m.params.map fun p => { name := p.name, type := some p.effectiveType }

def enter (w : World) (unit : Nat) (s : Surroundings) (t : Tree) : Surroundings × Opened :=
  let (s, opened) := s.enterDeclaration w unit t
  if t.is scopeNodes then
    let pushed := { s with scope := s.scope.push }
    let params :=
      if opened.member then (s.members.head?.map fun m => paramVars m.member).getD [] else []
    (pushed.declareAll (params ++ localsOf t), { opened with scope := true })
  else (s.declareAll (localsOf t), opened)

def leave (s : Surroundings) (opened : Opened) : Surroundings where
  scope := if opened.scope then s.scope.pop else s.scope
  types := if opened.type then s.types.tail else s.types
  members := if opened.member then s.members.tail else s.members
  owners := if opened.owner then s.owners.tail else s.owners
  nextVar := s.nextVar

def context (w : World) (s : Surroundings) (innermost : TypeId) (owner : MemberOf) : Context :=
  let inside := w.typeContext innermost s.scope
  { inside with
    member := some owner
    typeParams := s.members.reverse.foldl (fun b m => bindParams b m.member.typeParams)
      inside.typeParams }

def site? (w : World) (s : Surroundings) (parent : Option Tree) (t : Tree) : Option Site :=
  if t.is siteNodes && (t.kind != "identifier" || isValue t parent) then
    match s.owners, s.types with
    | owner :: _, innermost :: _ => some ⟨t, s.context w innermost owner, owner⟩
    | _, _ => none
  else none

end Surroundings

mutual
def walk (w : World) (unit : Nat) (parent : Option Tree) (s : Surroundings) :
    Tree → Surroundings × List Site
  | t@{ children, .. } =>
    let (inside, opened) := s.enter w unit t
    let (after, inner) := walkAll w unit (some t) inside children
    (after.leave opened, (inside.site? w parent t).toList ++ inner)

def walkAll (w : World) (unit : Nat) (parent : Option Tree) (s : Surroundings) :
    List Tree → Surroundings × List Site
  | [] => (s, [])
  | t :: ts =>
    if t.named then
      let (s, here) := walk w unit parent s t
      let (s, rest) := walkAll w unit parent s ts
      (s, here ++ rest)
    else walkAll w unit parent s ts
end

def ofUnit (w : World) (unit : Nat) : List Site := (walk w unit none {} (w.unit unit).tree).2

end Sites

end RefGraph

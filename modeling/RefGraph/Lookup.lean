import RefGraph.World

set_option autoImplicit false

namespace RefGraph

def hierarchyLimit : Nat := 48

abbrev MemberSearch := TypeId → String → Option TypeId

namespace World

def lexical? (w : World) (search : MemberSearch) (ctx : Context) (name : String) : Option TypeId :=
  (ctx.enclosing.findSome? fun t =>
    let d := w.decl t
    if d.isNamed && d.name == name then some t else search t name).or
  ((w.localType? ctx name).or (w.unitType? ctx name))

def descend? (search : MemberSearch) (t : TypeId) : List String → Option TypeId
  | [] => some t
  | s :: ss => (search t s).bind fun u => descend? search u ss

def fromSources? (w : World) (names : List Name) : Option Decl :=
  names.findSome? fun n => w.firm.findSome? fun s => s.find? n

def solveWritten? (w : World) (search : MemberSearch) (ctx? : Option Context) (n : Name) :
    Option Decl :=
  match ctx? with
  | none => w.fromSources? [n]
  | some ctx =>
    match w.lexical? search ctx n.first with
    | some t => (descend? search t n.path).map .corpus
    | none => w.fromSources? (w.candidateNames ctx n)

def resolveFirmWith? (w : World) (search : MemberSearch) (ctx? : Option Context) (n : Name) :
    Option Decl :=
  if n.isEmpty then none
  else (w.solveWritten? search ctx? n).or
    (if n.isQualified then w.solveWritten? search ctx? n.bare else none)

def corpusSupertypes (w : World) (search : MemberSearch) (t : TypeId) : List TypeId :=
  let header := w.headerContext t
  (w.decl t).supertypes.filterMap fun r =>
    match w.resolveFirmWith? search (some header) r.name with
    | some (.corpus id) => some id
    | _ => none

-- One level of the search: a type that declares the member, or what was visited and the next level.
def scanLevel (w : World) (search : MemberSearch) (name : String) :
    List TypeId → (visited next : List TypeId) → TypeId ⊕ (List TypeId × List TypeId)
  | [], visited, next => .inr (visited, next)
  | t :: ts, visited, next =>
    if visited.contains t then scanLevel w search name ts visited next
    else match w.ownMember? t name with
      | some m => .inl m
      | none => scanLevel w search name ts (t :: visited) (next ++ w.corpusSupertypes search t)

def inheritedMember? (w : World) (search : MemberSearch) (name : String) :
    Nat → (visited level : List TypeId) → Option TypeId
  | 0, _, _ => none
  | depth + 1, visited, level =>
    match w.scanLevel search name level visited [] with
    | .inl m => some m
    | .inr (_, []) => none
    | .inr (visited, next) => w.inheritedMember? search name depth visited next

def memberSearch (w : World) : Nat → (busy : List (TypeId × String)) → MemberSearch
  | 0, _, _, _ => none
  | fuel + 1, busy, t, name =>
    match w.ownMember? t name with
    | some m => some m
    | none =>
      if busy.contains (t, name) then none
      else w.inheritedMember? (w.memberSearch fuel ((t, name) :: busy)) name
        (hierarchyLimit + 1) [] [t]

def supertypeSegments (w : World) : List String :=
  w.units.flatMap fun u => u.types.flatMap fun d => d.supertypes.flatMap fun r => r.name.segments

/-- More than there are pairs of a type and a name to search for, so that nesting never reaches it.
-/
def searchBound (w : World) : Nat :=
  (w.units.flatMap (·.types)).length * (w.supertypeSegments.length + 1) + 2

def memberType? (w : World) : MemberSearch := w.memberSearch w.searchBound []

def resolveFirm? (w : World) (ctx? : Option Context) (n : Name) : Option Decl :=
  w.resolveFirmWith? w.memberType? ctx? n

def resolveFallback? (w : World) (n : Name) : Option Decl :=
  (w.fallback.findSome? fun s => s.find? n).or
    (if n.isQualified then w.fallback.findSome? fun s => s.find? n.bare else none)

def resolve? (w : World) (ctx? : Option Context) (n : Name) : Option Decl :=
  (w.resolveFirm? ctx? n).or (w.resolveFallback? n)

end World

end RefGraph

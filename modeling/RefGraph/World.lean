import RefGraph.Library
import RefGraph.ResolvedType
import RefGraph.Scope
import RefGraph.SourceUnit

set_option autoImplicit false

namespace RefGraph

abbrev Catalog := NameTable (Prod.fst : Name × TypeId → Name)

namespace Catalog

def entriesOf (unit : Nat) (u : SourceUnit) : List (Name × TypeId) :=
  u.allTypes.filterMap fun i => ((u.type? i).bind (·.qualified)).map fun n => (n, ⟨unit, i⟩)

def ofUnits (units : List (Nat × SourceUnit)) : Catalog :=
  NameTable.ofList (units.flatMap fun (i, u) => entriesOf i u)

end Catalog

inductive Source where
  | library (l : Library)
  | catalog (c : Catalog)
  | placeholders (r : Registry)

namespace Source

def isFallback : Source → Bool
  | .placeholders _ => true
  | _ => false

def find? (n : Name) : Source → Option Decl
  | .library l => (l.find? n).map fun t => .library t.name
  | .catalog c => (c.find? n).map fun e => .corpus e.2
  | .placeholders r => (r.solve? n).map .placeholder

def size : Source → Nat
  | .library l => l.size
  | .catalog c => c.size
  | .placeholders r => r.size

def settle {α : Type} (isFallback : α → Bool) (xs : List α) : List α :=
  (xs.filter fun x => !isFallback x) ++ xs.filter isFallback

end Source

structure World where
  units : List SourceUnit := []
  sources : List Source := []
deriving Inhabited

structure Context where
  unit : Nat
  enclosing : List TypeId := []
  member : Option MemberOf := none
  scope : Scope TypeId := {}
  typeParams : Bindings TypeParam := {}
deriving Inhabited

namespace World

def addSource (w : World) (s : Source) : World :=
  { w with sources := Source.settle Source.isFallback (w.sources ++ [s]) }

def firm (w : World) : List Source := w.sources.filter fun s => !s.isFallback

def fallback (w : World) : List Source := w.sources.filter Source.isFallback

def unit (w : World) (i : Nat) : SourceUnit := w.units[i]?.getD default

def decl (w : World) (id : TypeId) : TypeDecl := ((w.unit id.unit).type? id.index).getD default

def libraryType (w : World) (n : Name) : LibraryType :=
  (w.sources.findSome? fun
    | .library l => l.find? n
    | _ => none).getD { name := n }

def declaring? (w : World) (id : TypeId) : Option TypeId :=
  (w.decl id).place.outer?.map fun i => ⟨id.unit, i⟩

def enclosing (w : World) (id : TypeId) : List TypeId :=
  ((w.unit id.unit).enclosing id.index).map fun i => ⟨id.unit, i⟩

def ownMember? (w : World) (id : TypeId) (name : String) : Option TypeId :=
  ((w.unit id.unit).memberType? id.index name).map fun i => ⟨id.unit, i⟩

end World

def bindParams (b : Bindings TypeParam) (params : List TypeParam) : Bindings TypeParam :=
  b.setAll (params.map fun p => (p.name, p))

namespace World

def unitContext (i : Nat) : Context := { unit := i }

def typeContext (w : World) (id : TypeId) (scope : Scope TypeId) : Context :=
  let around := w.enclosing id
  { unit := id.unit
    enclosing := around
    scope
    typeParams := around.reverse.foldl (fun b t => bindParams b (w.decl t).typeParams) {} }

def headerContext (w : World) (id : TypeId) : Context :=
  let outside := match w.declaring? id with
    | some outer => w.typeContext outer {}
    | none => unitContext id.unit
  { outside with typeParams := bindParams outside.typeParams (w.decl id).typeParams }

def memberContext (w : World) (m : MemberOf) : Context :=
  let inside := w.typeContext m.owner {}
  { inside with
    member := some m
    typeParams := bindParams inside.typeParams m.member.typeParams }

def localType? (w : World) (ctx : Context) (name : String) : Option TypeId :=
  (ctx.scope.type? name).or <|
    ((w.unit ctx.unit).types.findIdx? fun d =>
      d.isLocal && d.isNamed && d.name == name &&
        d.place.outer?.any fun i => ctx.enclosing.contains ⟨ctx.unit, i⟩).map fun i => ⟨ctx.unit, i⟩

def unitType? (w : World) (ctx : Context) (name : String) : Option TypeId :=
  ((w.unit ctx.unit).topType? name).map fun i => ⟨ctx.unit, i⟩

/-- The qualified names that a written name may stand for, in the order of precedence: imports of
one type, the package, imports on demand, the implicit package, and the name itself. -/
def candidateNames (w : World) (ctx : Context) (n : Name) : List Name :=
  let u := w.unit ctx.unit
  let single := u.imports.filter fun i => !i.onDemand && i.name.last == n.first
  let onDemand := u.imports.filter (·.onDemand)
  let bases :=
    single.map (·.name) ++
    (u.package.map (·.push n.first)).toList ++
    onDemand.map (·.name.push n.first) ++
    [⟨"java", ["lang", n.first]⟩, Name.simple n.first]
  (bases.map (·.append n.path)).eraseDups

end World

end RefGraph

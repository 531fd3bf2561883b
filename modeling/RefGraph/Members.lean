import RefGraph.Conversion
import RefGraph.Signature

set_option autoImplicit false

namespace RefGraph

structure ExternalMember where
  name : String
  kind : MemberKind
  on : Decl
  returns : Option TypeRef := none

inductive FoundField where
  | declared (owner : TypeId) (args : List RType) (field : Field)
  | external (member : ExternalMember) (owner : ClassType)
  | arrayLength

structure Candidate where
  member : MemberOf
  on : ClassType

namespace Candidate

def name (c : Candidate) : String := c.member.member.name

def params (c : Candidate) : List Param := c.member.member.params

end Candidate

namespace World

def selfType (id : TypeId) : ClassType := ⟨.corpus id, []⟩

def isPlaceholder : Decl → Bool
  | .placeholder _ => true
  | _ => false

def isCorpus : Decl → Bool
  | .corpus _ => true
  | _ => false

def returns? (w : World) (name : String) : Decl → Option TypeRef
  | .library n => (w.libraryType n).returns.get? name
  | _ => none

def declaredField? (w : World) (name : String) (c : ClassType) : Option FoundField :=
  match c.decl with
  | .corpus id => ((w.decl id).field? name).map (.declared id c.args)
  | _ => none

def knownField? (w : World) (name : String) (c : ClassType) : Option FoundField :=
  (w.returns? name c.decl).map fun t => .external ⟨name, .field, c.decl, some t⟩ c

def outsideField? (w : World) (name : String) (c : ClassType) : Option FoundField :=
  if isCorpus c.decl || w.qualified? c.decl == some topName then none
  else some (.external ⟨name, .field, c.decl, none⟩ c)

def findDeclaredField (w : World) (name : String) (c : ClassType) :
    Except Failure (Option FoundField) :=
  w.firstAbove (w.declaredField? name) c

def findField (w : World) (name : String) : List ClassType → Except Failure (Option FoundField)
  | [] => .ok none
  | c :: cs => do
    match ← w.findDeclaredField name c with
    | some f => return some f
    | none =>
      let above := (w.ancestry c).found
      match (above.findSome? (w.knownField? name)).or (above.findSome? (w.outsideField? name)) with
      | some f => return some f
      | none => w.findField name cs

/-- A static import that may provide a member of its owner; a single one names the member itself. -/
structure StaticImport where
  owner : Name
  single : Bool

def staticImports (w : World) (ctx : Context) (name : String) : List StaticImport :=
  let imports := (w.unit ctx.unit).imports.filter (·.isStatic)
  let single := imports.filter fun i => !i.onDemand && i.name.last == name
  let onDemand := imports.filter (·.onDemand)
  single.map (fun i => ⟨i.name.owner, true⟩) ++ onDemand.map fun i => ⟨i.name, false⟩

def ownerOf? (w : World) (ctx : Context) (i : StaticImport) : Option ClassType :=
  (w.resolve? (some (unitContext ctx.unit)) i.owner).map (⟨·, []⟩)

def importedField (w : World) (ctx : Context) (name : String) (i : StaticImport) :
    Except Failure (Option FoundField) :=
  match w.ownerOf? ctx i with
  | some c => w.findDeclaredField name c
  | none => .ok none

def fieldInScope (w : World) (ctx : Context) (name : String) :
    Except Failure (Option FoundField) := do
  match ← ctx.enclosing.findSomeM? fun t => w.findDeclaredField name (selfType t) with
  | some f => return some f
  | none => (w.staticImports ctx name).findSomeM? (w.importedField ctx name)

def placeholderAbove (w : World) (t : TypeId) : Except Failure (Option ClassType) :=
  w.firstAbove (fun c => if isPlaceholder c.decl then some c else none) (selfType t)

def outsideImport? (w : World) (ctx : Context) (name : String) (i : StaticImport) :
    Option FoundField :=
  if i.single then
    ((w.ownerOf? ctx i).filter fun c => !isCorpus c.decl).map fun c =>
      .external ⟨name, .field, c.decl, w.returns? name c.decl⟩ c
  else none

/-- A field that only a type outside the corpus can have: a placeholder above a type around, or the
owner of a static import. -/
def outsideFieldInScope (w : World) (ctx : Context) (name : String) :
    Except Failure (Option FoundField) := do
  match ← ctx.enclosing.findSomeM? w.placeholderAbove with
  | some c => return some (.external ⟨name, .field, c.decl, none⟩ c)
  | none => return (w.staticImports ctx name).findSome? (w.outsideImport? ctx name)

def fieldType (w : World) : FoundField → Except Failure RType
  | .declared owner args f =>
    w.resolveRef (some (w.typeContext owner {})) (w.bindings ⟨.corpus owner, args⟩) f.type
  | .external m owner =>
    match m.returns with
    | some t => w.resolveRef none (w.bindings owner) t
    | none => .error (.unresolved (.fieldType m.name))
  | .arrayLength => .ok (.prim .int)

/-- The methods of a name on a type and above it, the nearest type outside the corpus, and the
nearest library type that knows the name. -/
structure MethodSearch where
  methods : List Candidate
  outside : Option ClassType
  library : Option ClassType

-- A method whose raw parameter types were seen nearer by is overridden.
def nearestMethods (seen : List (List String)) : List Candidate → List Candidate
  | [] => []
  | c :: cs =>
    let types := rawTypes c.params
    if seen.contains types then nearestMethods seen cs
    else c :: nearestMethods (types :: seen) cs

def declaredMethods (w : World) (name : String) (c : ClassType) : List Candidate :=
  match c.decl with
  | .corpus id => ((w.decl id).methodsNamed name).map fun m => ⟨⟨id, .method m⟩, c⟩
  | _ => []

def findMethods (w : World) (name : String) (c : ClassType) : Except Failure MethodSearch := do
  let above ← w.ancestors c
  return {
    methods := nearestMethods [] (above.flatMap (w.declaredMethods name))
    outside := above.find? fun a => !isCorpus a.decl
    library := above.find? fun a => (w.returns? name a.decl).isSome }

end World

end RefGraph

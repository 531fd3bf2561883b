import RefGraph.Inference
import RefGraph.Overload

set_option autoImplicit false

namespace RefGraph

inductive MemberRef where
  | declared (m : MemberOf)
  | external (m : ExternalMember)

structure Call where
  member : MemberRef
  bindings : Bindings RType := {}

def MemberRef.name : MemberRef → String
  | .declared m => m.member.name
  | .external m => m.name

structure Passed where
  args : List (Option RType)
  explicit : List RType := []

def objectMethods : List String :=
  ["equals", "hashCode", "toString", "getClass", "notify", "notifyAll", "wait", "clone", "finalize"]

namespace World

def resolvedCall (w : World) (c : Candidate) (p : Passed) : Except Failure Call := do
  return ⟨.declared c.member, ← w.infer c p.args p.explicit⟩

def selectCall (w : World) (name : String) (methods : List Candidate) (p : Passed) :
    Except Failure (Option Call) := do
  match ← w.select name methods p.args with
  | none => return none
  | some c => return some (← w.resolvedCall c p)

def libraryCall (w : World) (name : String) (owner : ClassType) : Call where
  member := .external ⟨name, .method, owner.decl, w.returns? name owner.decl⟩
  bindings := w.bindings owner

def outsideCall (w : World) (name : String) (owner : ClassType) : Call where
  member := .external ⟨name, .method, owner.decl, none⟩
  bindings := w.bindings owner

def callOn (w : World) (name : String) (p : Passed) (outside : Option ClassType) :
    List ClassType → Except Failure Call
  | [] =>
    match outside with
    | some c => .ok (w.outsideCall name c)
    | none => .error (.unresolved (.method name p.args.length))
  | c :: cs => do
    let found ← w.findMethods name c
    match ← w.selectCall name found.methods p with
    | some call => return call
    | none =>
      match found.library with
      | some l => return w.libraryCall name l
      | none => w.callOn name p (outside.or found.outside) cs

def importedCall (w : World) (ctx : Context) (name : String) (p : Passed) (i : StaticImport) :
    Except Failure (Option Call) :=
  match w.ownerOf? ctx i with
  | none => .ok none
  | some owner => do
    let found ← w.findMethods name owner
    match ← w.selectCall name found.methods p with
    | some call => return some call
    | none =>
      match found.library, found.outside with
      | some l, _ => return some (w.libraryCall name l)
      | none, some c => return if i.single then some (w.outsideCall name c) else none
      | none, none => return none

def inheritedOutside? (w : World) (name : String) (s : MethodSearch) : Option Call :=
  match s.library, s.outside with
  | some l, _ => some (w.libraryCall name l)
  | none, some c =>
    if isPlaceholder c.decl || objectMethods.contains name then
      some (w.outsideCall name c) else none
  | none, none => none

/-- A call without a receiver: methods of the types around, innermost first, then static imports,
then methods that the types around have from outside the corpus. -/
def bareCall (w : World) (ctx : Context) (name : String) (p : Passed) : Except Failure Call := do
  let around ← ctx.enclosing.mapM fun t => w.findMethods name (selfType t)
  match ← around.findSomeM? fun s => w.selectCall name s.methods p with
  | some call => return call
  | none =>
    match ← (w.staticImports ctx name).findSomeM? (w.importedCall ctx name p) with
    | some call => return call
    | none =>
      match around.findSome? (w.inheritedOutside? name) with
      | some call => return call
      | none => throw (.unresolved (.methodInScope name p.args.length))

def constructorCall (w : World) (target : ClassType) (p : Passed) : Except Failure Call :=
  let name := w.nameOf target.decl
  match target.decl with
  | .corpus id =>
    match (w.decl id).constructors with
    | [] => .error (.unresolved (.noConstructors name))
    | constructors => do
      let candidates := constructors.map fun c => (⟨⟨id, .constructor c⟩, target⟩ : Candidate)
      match ← w.selectCall name candidates p with
      | some call => return call
      | none => throw (.unresolved (.constructor name p.args.length))
  | d => .ok { member := .external ⟨name, .constructor, d, none⟩ }

def returnType (w : World) (call : Call) : Except Failure RType :=
  match call.member with
  | .declared m =>
    match m.member with
    | .method method => w.resolveRef (some (w.memberContext m)) call.bindings method.returns
    | _ => .error (.unresolved (.returnType m.member.name))
  | .external m =>
    match m.returns with
    | some t => w.resolveRef none call.bindings t
    | none => .error (.unresolved (.returnType m.name))

end World

end RefGraph

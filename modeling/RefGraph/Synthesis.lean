import RefGraph.Corpus
import RefGraph.Diagnostics
import RefGraph.Hierarchy

set_option autoImplicit false

namespace RefGraph

namespace TypeRef

mutual
def nested (depth : Nat) : TypeRef → List (Nat × TypeRef)
  | t@{ head, args, .. } =>
    (depth, t) :: match head with
      | .primitive _ => []
      | .named _ => nestedIn (depth + 1) args

def nestedArg (depth : Nat) : Arg TypeRef → List (Nat × TypeRef)
  | .type t | .bounded _ t => nested depth t
  | .unbounded => []

def nestedIn (depth : Nat) : List (Arg TypeRef) → List (Nat × TypeRef)
  | [] => []
  | a :: as => nestedArg depth a ++ nestedIn depth as
end

end TypeRef

structure Mention where
  type : TypeRef
  context : Context

namespace Mention

mutual
/-- The types that are created in a piece of code, but not those inside classes in it. -/
def creations : Tree → List TypeRef
  | t@{ kind, children, .. } =>
    let here :=
      if kind == "object_creation_expression" then ((t.child? "type").bind TypeRef.ofNode?).toList
      else []
    here ++ creationsIn children

def creationsIn : List Tree → List TypeRef
  | [] => []
  | t :: ts =>
    let here :=
      if t.named && !t.isTypeDeclaration && t.kind != "class_body" then creations t else []
    here ++ creationsIn ts
end

def looseCode (d : TypeDecl) : List Tree :=
  let body := if d.isAnonymous then some d.node else d.node.child? "body"
  ((body.map Outline.memberNodes).getD []).filterMap fun t =>
    match t.kind with
    | "field_declaration" | "constant_declaration" | "block" | "static_initializer" => some t
    | "enum_constant" => t.child? "arguments"
    | _ => none

def boundsIn (params : List TypeParam) : List TypeRef := params.flatMap (·.bounds)

def ofMethod (m : Method) : List TypeRef :=
  boundsIn m.typeParams ++ [m.returns] ++ m.params.map (·.type) ++
    (m.node.map creations).getD []

def ofConstructor (c : Constructor) : List TypeRef :=
  c.params.map (·.type) ++ (c.node.map creations).getD []

def ofType (w : World) (id : TypeId) : List Mention :=
  let d := w.decl id
  let body := w.typeContext id {}
  let on (ctx : Context) (types : List TypeRef) : List Mention := types.map fun t => ⟨t, ctx⟩
  on (w.headerContext id) d.supertypes ++
    on body (boundsIn d.typeParams ++ d.fields.map (·.type)) ++
    d.methods.flatMap (fun m => on (w.memberContext ⟨id, .method m⟩) (ofMethod m)) ++
    d.constructors.flatMap (fun c => on (w.memberContext ⟨id, .constructor c⟩) (ofConstructor c)) ++
    on body ((looseCode d).flatMap creations)

def ofImport (unit : Nat) (i : Import) : Option Mention :=
  if i.isStatic && !i.onDemand then
    some ⟨TypeRef.ofName i.name.owner, World.unitContext unit⟩ else none

def expand (m : Mention) : List (Nat × Mention) :=
  (m.type.nested 0).map fun (depth, t) => (depth, ⟨t, m.context⟩)

def isUndeclared (w : World) (m : Mention) : Bool :=
  match m.type.head with
  | .primitive _ => false
  | .named n =>
    let isParam := !n.isQualified && (m.context.typeParams.get? n.first).isSome
    !isParam && (w.resolveFirm? (some m.context) n).isNone

def register (w : World) (r : Registry) (m : Mention) : Registry :=
  if m.isUndeclared w then (r.register m.type.name m.type.args.length).1 else r

end Mention

namespace World

/-- Registers what one declaration mentions, up to the first type that nests too deep. -/
def registerMentions (w : World) (limit : Int) (path : Option Path) (r : Registry)
    (ms : List Mention) : Registry × List Diagnostic :=
  let all := ms.flatMap Mention.expand
  let fits := fun (m : Nat × Mention) => decide ((m.1 : Int) ≤ limit)
  let registry := ((all.takeWhile fits).map (·.2)).foldl (Mention.register w) r
  let tooDeep := (all.dropWhile fits).head?.map fun m =>
    let e := Failure.tooDeep limit m.2.type.text
    Diagnostic.ofFailure e.kind e.detail path none
  (registry, tooDeep.toList)

def mentionGroups (w : World) (unit : Nat) : List (List Mention) :=
  let u := w.unit unit
  (u.imports.filterMap (Mention.ofImport unit)).map ([·]) ++
    u.allTypes.map fun i => Mention.ofType w ⟨unit, i⟩

def registerUnit (w : World) (limit : Int) (r : Registry) (unit : Nat) :
    Registry × List Diagnostic :=
  (w.mentionGroups unit).foldl (fun (r, ds) ms =>
    let (r, more) := w.registerMentions limit (w.unit unit).path r ms
    (r, ds ++ more)) (r, [])

def registerUnits (w : World) (limit : Int) (r : Registry) (units : List Nat) :
    Registry × List Diagnostic :=
  units.foldl (fun (r, ds) unit =>
    let (r, more) := w.registerUnit limit r unit
    (r, ds ++ more)) (r, [])

def synthesize (w : World) (limit : Int) : Registry × List Diagnostic :=
  w.registerUnits limit {} (List.range w.units.length)

end World

end RefGraph

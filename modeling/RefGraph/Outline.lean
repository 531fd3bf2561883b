import RefGraph.Declaration
import RefGraph.TypeRef.Node

set_option autoImplicit false

namespace RefGraph

namespace Outline

def hasModifier (t : Tree) (word : String) : Bool :=
  match t.childOf? ["modifiers"] with
  | none => false
  | some mods => mods.children.any fun c => !c.is TypeRef.annotationNodes && c.text == word

def typesOf (nodes : List Tree) : List TypeRef := nodes.filterMap TypeRef.ofNode?

def typeList (clause : Tree) : List TypeRef :=
  typesOf ((clause.childOf? ["type_list"]).getD clause).namedChildren

def superclassesOf (kind : TypeKind) (t : Tree) : List TypeRef :=
  let written := ((t.child? "superclass").map fun c => typesOf c.namedChildren).getD []
  let extended :=
    if kind = .interfaceKind then ((t.childOf? ["extends_interfaces"]).map typeList).getD [] else []
  written ++ extended

def interfacesOf (t : Tree) : List TypeRef := ((t.child? "interfaces").map typeList).getD []

def typeParam? (t : Tree) : Option TypeParam :=
  if t.kind != "type_parameter" then none
  else (t.childOf? ["type_identifier", "identifier"]).map fun name =>
    { name := name.text
      bounds := ((t.childOf? ["type_bound"]).map fun b => typesOf b.namedChildren).getD [] }

def typeParamsOf (t : Tree) : List TypeParam :=
  ((t.child? "type_parameters").map fun c => c.namedChildren.filterMap typeParam?).getD []

def typeWithDims? (typed named : Tree) : Option TypeRef :=
  ((typed.child? "type").bind TypeRef.ofNode?).map fun r =>
    r.addDims (((named.child? "dimensions").map TypeRef.countDims).getD 0)

def param? (t : Tree) : Option Param :=
  match t.kind with
  | "formal_parameter" => do
    let type ← typeWithDims? t t
    let name ← t.childText? "name"
    return { name, type }
  | "spread_parameter" => do
    let type ← (t.namedChildren.find? (·.is TypeRef.typeNodes)).bind TypeRef.ofNode?
    let name ← (t.childOf? ["variable_declarator"]).bind (·.childText? "name")
    return { name, type, varargs := true }
  | _ => none

def paramsOf (t : Tree) : List Param :=
  ((t.child? "parameters").map fun c => c.namedChildren.filterMap param?).getD []

mutual
/-- The declarations in a type's body; those after the constants of an enum count as its own. -/
def memberNodes : Tree → List Tree
  | { children, .. } => memberNodesIn children

def memberNodesIn : List Tree → List Tree
  | [] => []
  | t :: ts =>
    let here :=
      if !t.named then []
      else if t.kind == "enum_body_declarations" then memberNodes t
      else [t]
    here ++ memberNodesIn ts
end

def method? (t : Tree) : Option Method :=
  if t.kind != "method_declaration" then none
  else (t.childText? "name").map fun name =>
    { name
      params := paramsOf t
      returns := (typeWithDims? t t).getD TypeRef.void
      typeParams := typeParamsOf t
      node := some t
      isStatic := hasModifier t "static" }

def constructor? (owner : String) (components : List Param) (t : Tree) : Option Constructor :=
  match t.kind with
  | "constructor_declaration" =>
    some { name := owner, params := paramsOf t, typeParams := typeParamsOf t, node := some t }
  | "compact_constructor_declaration" =>
    some { name := owner, params := components, typeParams := typeParamsOf t, node := some t }
  | _ => none

def declarator? (isStatic : Bool) (declaration t : Tree) : Option Field := do
  let name ← t.childText? "name"
  let type ← typeWithDims? declaration t
  return { name, type, node := some t, declaration := some declaration, isStatic }

def fieldsOf (owner : String) (kind : TypeKind) (t : Tree) : List Field :=
  match t.kind with
  | "field_declaration" | "constant_declaration" =>
    let isStatic := hasModifier t "static" || kind == .interfaceKind
    (t.childrenIn "declarator").filterMap (declarator? isStatic t)
  | "enum_constant" =>
    ((t.childText? "name").map fun name =>
      ({ name, type := TypeRef.ofName (Name.simple owner), node := some t, declaration := some t
         isStatic := true } : Field)).toList
  | _ => []

def withMembers (components : List Param) (body : Option Tree) (d : TypeDecl) : TypeDecl :=
  let nodes := (body.map memberNodes).getD []
  { d with
    methods := nodes.filterMap method?
    constructors := nodes.filterMap (constructor? d.name components)
    fields := nodes.flatMap (fieldsOf d.name d.kind) }

def withComponents (components : List Param) (d : TypeDecl) : TypeDecl :=
  let written := d.methods.filter (·.params.isEmpty)
  let accessors := components.filter fun c => !written.any (·.name == c.name)
  let canonical := d.constructors.any fun c => c.params.length == components.length
  { d with
    fields := d.fields ++ components.map fun c => { name := c.name, type := c.type }
    methods := d.methods ++
      accessors.map fun c => { name := c.name, returns := c.type, synthetic := true }
    constructors :=
      if canonical then d.constructors
      else d.constructors ++ [{ name := d.name, params := components }] }

structure Owner where
  index : Nat
  name : String
  qualified : Option Name

inductive Spot where
  | top (package : Option Name)
  | body (owner : Owner)
  | code (owner : Owner)

def Spot.place : Spot → Place
  | .top _ => .top
  | .body o => .body o.index
  | .code o => .code o.index

/-- Types in code have no qualified name, and neither has what they contain. -/
def Spot.qualify (name : String) : Spot → Option Name
  | .top none => some (Name.simple name)
  | .top (some package) => some (package.push name)
  | .body o => o.qualified.map (·.push name)
  | .code _ => none

def declare (spot : Spot) (kind : TypeKind) (t : Tree) : TypeDecl :=
  let name := (t.childText? "name").getD ""
  let components := paramsOf t
  let written := withMembers components (t.child? "body") {
    name, kind, node := t
    place := spot.place
    qualified := spot.qualify name
    typeParams := typeParamsOf t
    superclasses := superclassesOf kind t
    interfaces := interfacesOf t
    isStatic := hasModifier t "static" || (spot.place != .top && kind != .classKind) }
  if kind = .recordKind then withComponents components written else written

def declareAnonymous (owner : Owner) (base : TypeRef) (body : Tree) : TypeDecl :=
  withMembers [] (some body)
    { name := "", kind := .anonymousKind, node := body, place := .code owner.index
      superclasses := [base] }

def codeNodes : List String :=
  ["method_declaration", "constructor_declaration", "compact_constructor_declaration",
    "field_declaration", "constant_declaration", "block", "static_initializer"]

mutual
def visit (spot : Spot) (next : Nat) : Tree → List TypeDecl
  | t@{ kind, children, .. } =>
    match TypeKind.ofNodeKind? kind with
    | some k =>
      let d := declare spot k t
      d :: visitRole "body" (.body ⟨next, d.name, d.qualified⟩) (next + 1) children
    | none =>
      match spot with
      | .top _ => []
      | .body owner =>
        if codeNodes.contains kind then visitAll (.code owner) next children
        else if kind == "enum_body_declarations" then visitAll spot next children
        else if kind == "enum_constant" && (t.child? "name").isSome then
          let inArgs := visitRole "arguments" (.code owner) next children
          inArgs ++ visitClassBody owner (TypeRef.ofName (Name.simple owner.name))
            (next + inArgs.length) children
        else []
      | .code owner =>
        if kind == "object_creation_expression" then
          let base := ((t.child? "type").bind TypeRef.ofNode?).getD TypeRef.top
          let inBody := visitClassBody owner base next children
          inBody ++ visitBesideBody spot (next + inBody.length) children
        else visitAll spot next children

def visitAll (spot : Spot) (next : Nat) : List Tree → List TypeDecl
  | [] => []
  | t :: ts =>
    let here := if t.named then visit spot next t else []
    here ++ visitAll spot (next + here.length) ts

def visitRole (role : String) (spot : Spot) (next : Nat) : List Tree → List TypeDecl
  | [] => []
  | t :: ts =>
    if t.role == some role then visitInside spot next t else visitRole role spot next ts

def visitInside (spot : Spot) (next : Nat) : Tree → List TypeDecl
  | { children, .. } => visitAll spot next children

def visitClassBody (owner : Owner) (base : TypeRef) (next : Nat) : List Tree → List TypeDecl
  | [] => []
  | t :: ts =>
    if t.kind == "class_body" then
      declareAnonymous owner base t :: visitInside (.body ⟨next, "", none⟩) (next + 1) t
    else visitClassBody owner base next ts

def visitBesideBody (spot : Spot) (next : Nat) : List Tree → List TypeDecl
  | [] => []
  | t :: ts =>
    let here := if t.named && t.kind != "class_body" then visit spot next t else []
    here ++ visitBesideBody spot (next + here.length) ts
end

def nameIn? (t : Tree) : Option Name :=
  (t.childOf? ["identifier", "scoped_identifier"]).map fun n =>
    Name.ofString (Text.dropSpaces n.text)

def package? (t : Tree) : Option Name :=
  if t.kind == "package_declaration" then nameIn? t else none

def import? (t : Tree) : Option Import :=
  if t.kind != "import_declaration" then none
  else (nameIn? t).map fun name =>
    { name
      isStatic := (t.childOf? ["static"]).isSome
      onDemand := (t.childOf? ["asterisk"]).isSome }

/-- A package declaration holds for the types after it. -/
def visitTop (package : Option Name) (next : Nat) : List Tree → List TypeDecl
  | [] => []
  | t :: ts =>
    let package := (package? t).or package
    let here := visit (.top package) next t
    here ++ visitTop package (next + here.length) ts

end Outline

end RefGraph

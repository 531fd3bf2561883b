import RefGraph.Tree
import RefGraph.TypeRef

set_option autoImplicit false

namespace RefGraph

inductive TypeKind where
  | classKind | interfaceKind | enumKind | recordKind | annotationKind | anonymousKind
deriving DecidableEq, Inhabited

namespace TypeKind

def label : TypeKind → String
  | .classKind => "class"
  | .interfaceKind => "interface"
  | .enumKind => "enum"
  | .recordKind => "record"
  | .annotationKind => "annotation"
  | .anonymousKind => "anonymous"

def all : List TypeKind :=
  [.classKind, .interfaceKind, .enumKind, .recordKind, .annotationKind, .anonymousKind]

def ofLabel? (s : String) : Option TypeKind := all.find? fun k => k.label == s

def ofNodeKind? : String → Option TypeKind
  | "class_declaration" => some .classKind
  | "interface_declaration" => some .interfaceKind
  | "enum_declaration" => some .enumKind
  | "record_declaration" => some .recordKind
  | "annotation_type_declaration" => some .annotationKind
  | _ => none

end TypeKind

def Tree.isTypeDeclaration (t : Tree) : Bool := (TypeKind.ofNodeKind? t.kind).isSome

structure Method where
  name : String
  params : List Param := []
  returns : TypeRef := TypeRef.void
  typeParams : List TypeParam := []
  node : Option Tree := none
  isStatic : Bool := false
  synthetic : Bool := false
deriving Inhabited

structure Constructor where
  name : String
  params : List Param := []
  typeParams : List TypeParam := []
  node : Option Tree := none
deriving Inhabited

-- The node is the declarator; the declaration node covers all declarators of one statement.
structure Field where
  name : String
  type : TypeRef := TypeRef.top
  node : Option Tree := none
  declaration : Option Tree := none
  isStatic : Bool := false
deriving Inhabited

def isVarargs (params : List Param) : Bool := params.getLast?.any (·.varargs)

def rawTypes (params : List Param) : List String := params.map fun p => p.effectiveType.raw

inductive Place where
  | top
  | body (outer : Nat)
  | code (outer : Nat)
deriving DecidableEq, Inhabited

def Place.outer? : Place → Option Nat
  | .top => none
  | .body outer | .code outer => some outer

structure TypeDecl where
  name : String
  kind : TypeKind
  node : Tree
  place : Place := .top
  qualified : Option Name := none
  typeParams : List TypeParam := []
  superclasses : List TypeRef := []
  interfaces : List TypeRef := []
  methods : List Method := []
  constructors : List Constructor := []
  fields : List Field := []
  isStatic : Bool := false
deriving Inhabited

namespace TypeDecl

def supertypes (d : TypeDecl) : List TypeRef := d.superclasses ++ d.interfaces

def isAnonymous (d : TypeDecl) : Bool := d.kind == .anonymousKind

def isNamed (d : TypeDecl) : Bool := !d.isAnonymous

def isLocal (d : TypeDecl) : Bool :=
  match d.place with
  | .code _ => true
  | _ => false

def field? (d : TypeDecl) (name : String) : Option Field := d.fields.find? (·.name == name)

def methodsNamed (d : TypeDecl) (name : String) : List Method := d.methods.filter (·.name == name)

end TypeDecl

inductive DeclRef where
  | type (i : Nat)
  | method (i j : Nat)
  | constructor (i j : Nat)
  | field (i j : Nat)
deriving DecidableEq

structure TypeId where
  unit : Nat
  index : Nat
deriving DecidableEq, Inhabited

inductive Member where
  | method (m : Method)
  | constructor (c : Constructor)
  | field (f : Field)
deriving Inhabited

namespace Member

def name : Member → String
  | .method m => m.name
  | .constructor c => c.name
  | .field f => f.name

def params : Member → List Param
  | .method m => m.params
  | .constructor c => c.params
  | .field _ => []

def typeParams : Member → List TypeParam
  | .method m => m.typeParams
  | .constructor c => c.typeParams
  | .field _ => []

end Member

structure MemberOf where
  owner : TypeId
  member : Member
deriving Inhabited

def TypeDecl.members (d : TypeDecl) : List Member :=
  d.methods.map .method ++ d.constructors.map .constructor ++ d.fields.map .field

def TypeDecl.member? (d : TypeDecl) : DeclRef → Option Member
  | .type _ => none
  | .method _ j => d.methods[j]?.map .method
  | .constructor _ j => d.constructors[j]?.map .constructor
  | .field _ j => d.fields[j]?.map .field

structure Import where
  name : Name
  isStatic : Bool := false
  onDemand : Bool := false
deriving Inhabited

end RefGraph

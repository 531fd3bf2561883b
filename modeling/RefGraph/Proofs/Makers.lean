import RefGraph.Corpus

set_option autoImplicit false

namespace RefGraph

namespace Node

def leaf (kind text role : String) : Tree := { kind, text, role := some role }

def name (text : String) : Tree := leaf "identifier" text "name"

def type (text : String) : Tree := leaf "type_identifier" text "type"

def file (types : List Tree) : Tree := { kind := "program", children := types }

def body (kind : String) (start : Nat) (children : List Tree) : Tree :=
  { kind, start, role := some "body", children }

def params (children : List Tree) : Tree :=
  { kind := "formal_parameters", role := some "parameters", children }

def param (type : Tree) (text : String) : Tree :=
  { kind := "formal_parameter", children := [type, name text] }

def typeParams (ps : List (String × List Tree)) : Tree :=
  { kind := "type_parameters", role := some "type_parameters"
    children := ps.map fun p => { kind := "type_parameter", children := type p.1 :: p.2 } }

-- Declarations of one kind are told apart by where they start.
def classDecl (start : Nat) (text : String) (header members : List Tree) : Tree :=
  { kind := "class_declaration", start
    children := name text :: header ++ [body "class_body" start members] }

def method (start : Nat) (header : List Tree) (text : String) (ps code : List Tree) : Tree :=
  { kind := "method_declaration", start
    children := header ++ [name text, params ps, body "block" start code] }

def field (start : Nat) (type : Tree) (text : String) (value : List Tree) : Tree :=
  { kind := "field_declaration", start, children := [type,
    { kind := "variable_declarator", start, role := some "declarator", children :=
      name text :: value }] }

def arguments (children : List Tree) : Tree :=
  { kind := "argument_list", role := some "arguments", children }

def call (start : Nat) (object : List Tree) (text : String) (args : List Tree) : Tree :=
  { kind := "method_invocation", start, children := object ++ [name text, arguments args] }

def creation (start : Nat) (text : String) (args members : List Tree) : Tree :=
  { kind := "object_creation_expression", start
    children := [type text, arguments args, { kind := "class_body", start, children := members }] }

def sum (left right : Tree) : Tree :=
  { kind := "binary_expression", role := some "left"
    children := [left, leaf "+" "+" "operator", right] }

def access (object : Tree) (text field : String) : Tree :=
  { kind := "field_access", text, role := some "object"
    children := [object, leaf "identifier" field "field"] }

end Node

namespace TypeRef

def simple (name : String) : TypeRef := .ofName (.simple name)

def applied (name : String) (args : List TypeRef) : TypeRef :=
  { head := .named (.simple name), args := args.map .type }

end TypeRef

def TypeDecl.ofClass (name : String) (superclasses : List TypeRef) (methods : List Method) :
    TypeDecl :=
  { name, kind := .classKind, node := default, superclasses, methods }

def SourceUnit.ofTypes (types : List TypeDecl) : SourceUnit :=
  { path := none, package := none, imports := [], tree := default, types }

/-- A corpus of files that are given by their paths from one root. -/
def Corpus.ofFiles (files : List (String × Tree)) : Corpus where
  world := World.ofGroups default
    (files.map fun file => SourceUnit.ofTree (some (.ofString file.1)) file.2)
    [List.range files.length]
  roots := [⟨.root, []⟩]

end RefGraph

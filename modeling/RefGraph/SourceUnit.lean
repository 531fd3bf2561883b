import RefGraph.Outline
import RefGraph.Path
import RefGraph.Text.Utf8
import RefGraph.Tree.Listing

set_option autoImplicit false

namespace RefGraph

structure SourceUnit where
  path : Option Path
  package : Option Name
  imports : List Import
  types : List TypeDecl
  tree : Tree
deriving Inhabited

inductive ReadError where
  | notUtf8 (fault : Text.Utf8Fault)
  | badSyntax (line : Nat)
  | noTree
deriving DecidableEq

def ReadError.reason : ReadError → String
  | .notUtf8 fault => "not valid UTF-8: " ++ fault.message
  | .badSyntax line => s!"syntax error near line {line}"
  | .noTree => "no parse tree"

structure SourceFile where
  bytes : ByteArray
  listing : Option String
deriving Inhabited

def SourceFile.empty : SourceFile where
  bytes := ByteArray.empty
  listing := some "program 0 0"

namespace SourceUnit

def ofTree (path : Option Path) (tree : Tree) : SourceUnit where
  path := path
  package := (tree.namedChildren.filterMap Outline.package?).getLast?
  imports := tree.namedChildren.filterMap Outline.import?
  types := Outline.visitTop none 0 tree.namedChildren
  tree := tree

def ofTree? (path : Option Path) (tree : Tree) : Except ReadError SourceUnit :=
  match tree.fault? with
  | some t => .error (.badSyntax t.line)
  | none => .ok (ofTree path tree)

def read (path : Option Path) (file : SourceFile) : Except ReadError SourceUnit :=
  match Text.utf8Fault? file.bytes.toList with
  | some fault => .error (.notUtf8 fault)
  | none =>
    let source := (String.fromUTF8? file.bytes).getD ""
    match file.listing.bind (Tree.ofListing? source) with
    | none => .error .noTree
    | some tree => ofTree? path tree

def type? (u : SourceUnit) (i : Nat) : Option TypeDecl := u.types[i]?

def indicesWhere (u : SourceUnit) (p : TypeDecl → Bool) : List Nat :=
  (u.types.zipIdx.filter fun d => p d.1).map (·.2)

def topTypes (u : SourceUnit) : List Nat := u.indicesWhere fun d => d.place == .top

def memberTypes (u : SourceUnit) (i : Nat) : List Nat := u.indicesWhere fun d => d.place == .body i

def localTypes (u : SourceUnit) : List Nat := u.indicesWhere fun d => d.isLocal && d.isNamed

def anonymousTypes (u : SourceUnit) : List Nat := u.indicesWhere (·.isAnonymous)

def topType? (u : SourceUnit) (name : String) : Option Nat :=
  u.types.findIdx? fun d => d.place == .top && d.name == name

def memberType? (u : SourceUnit) (i : Nat) (name : String) : Option Nat :=
  u.types.findIdx? fun d => d.place == .body i && d.name == name

-- Each level holds the member types of the one before.
def typeLevels (u : SourceUnit) : Nat → List Nat → List Nat
  | 0, _ => []
  | _, [] => []
  | depth + 1, level => level ++ typeLevels u depth (level.flatMap u.memberTypes)

/-- Every type: those at the top, in code and anonymous, then their members, then theirs. -/
def allTypes (u : SourceUnit) : List Nat :=
  u.typeLevels u.types.length (u.topTypes ++ u.localTypes ++ u.anonymousTypes)

def enclosingFrom (u : SourceUnit) : Nat → Nat → List Nat
  | 0, _ => []
  | depth + 1, i =>
    i :: match (u.type? i).bind (·.place.outer?) with
      | none => []
      | some outer => u.enclosingFrom depth outer

def enclosing (u : SourceUnit) (i : Nat) : List Nat := u.enclosingFrom (i + 1) i

def keyed (make : Nat → DeclRef) (nodes : List (Option Tree)) : List (NodeKey × DeclRef) :=
  nodes.zipIdx.filterMap fun (node, j) => node.map fun t => (t.key, make j)

def index (u : SourceUnit) : List (NodeKey × DeclRef) :=
  u.types.zipIdx.flatMap fun (d, i) =>
    (d.node.key, .type i) ::
      (keyed (.method i) (d.methods.map (·.node)) ++
        keyed (.constructor i) (d.constructors.map (·.node)) ++
        keyed (.field i) (d.fields.map (·.node)))

def declarationAt? (u : SourceUnit) (t : Tree) : Option DeclRef :=
  (u.index.find? fun entry => entry.1 == t.key).map (·.2)

end SourceUnit

end RefGraph

import RefGraph.Name
import RefGraph.Primitive

set_option autoImplicit false

namespace RefGraph

inductive Variance where
  | upper
  | lower
deriving DecidableEq

def Variance.keyword : Variance → String
  | .upper => "extends"
  | .lower => "super"

inductive Arg (α : Type) where
  | type (a : α)
  | unbounded
  | bounded (variance : Variance) (bound : α)

inductive TypeHead where
  | primitive (p : Primitive)
  | named (n : Name)
deriving DecidableEq

def TypeHead.name : TypeHead → Name
  | .primitive p => Name.simple p.name
  | .named n => n

structure TypeRef where
  head : TypeHead
  args : List (Arg TypeRef) := []
  dims : Nat := 0

abbrev TypeArg := Arg TypeRef

instance : Inhabited TypeRef := ⟨{ head := .primitive .void }⟩

def topName : Name := ⟨"java", ["lang", "Object"]⟩

namespace TypeRef

def ofName (n : Name) : TypeRef := { head := .named n }

def top : TypeRef := ofName topName

def void : TypeRef := { head := .primitive .void }

def name (t : TypeRef) : Name := t.head.name

def isPrimitive (t : TypeRef) : Bool :=
  match t.head with
  | .primitive _ => true
  | .named _ => false

def isQualified (t : TypeRef) : Bool := t.name.isQualified

def isArray (t : TypeRef) : Bool := t.dims > 0

def isClassOrInterface (t : TypeRef) : Bool := !t.isPrimitive && !t.isArray

def element (t : TypeRef) : TypeRef := { t with dims := t.dims - 1 }

def addDims (t : TypeRef) (n : Nat) : TypeRef := { t with dims := t.dims + n }

def brackets (n : Nat) : String := String.join (List.replicate n "[]")

def raw (t : TypeRef) : String := t.name.last ++ brackets t.dims

mutual
def text : TypeRef → String
  | { head, args, dims } =>
    let name := head.name.text
    match args with
    | [] => name ++ brackets dims
    | args => name ++ "<" ++ ",".intercalate (argTexts args) ++ ">" ++ brackets dims

def argText : Arg TypeRef → String
  | .type t => text t
  | .unbounded => "?"
  | .bounded v t => "? " ++ v.keyword ++ " " ++ text t

def argTexts : List (Arg TypeRef) → List String
  | [] => []
  | a :: as => argText a :: argTexts as
end

end TypeRef

structure TypeParam where
  name : String
  bounds : List TypeRef := []
deriving Inhabited

structure Param where
  name : String
  type : TypeRef
  varargs : Bool := false
deriving Inhabited

def Param.effectiveType (p : Param) : TypeRef := if p.varargs then p.type.addDims 1 else p.type

end RefGraph

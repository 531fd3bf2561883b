set_option autoImplicit false

namespace RefGraph

inductive Primitive where
  | byte | short | char | int | long | float | double | boolean | void
deriving DecidableEq, Inhabited

namespace Primitive

def all : List Primitive :=
  [.byte, .short, .char, .int, .long, .float, .double, .boolean, .void]

def name : Primitive → String
  | .byte => "byte"
  | .short => "short"
  | .char => "char"
  | .int => "int"
  | .long => "long"
  | .float => "float"
  | .double => "double"
  | .boolean => "boolean"
  | .void => "void"

def ofName? (s : String) : Option Primitive :=
  all.find? fun p => p.name == s

theorem ofName?_name (p : Primitive) : ofName? p.name = some p := by
  cases p <;> decide

def rank? : Primitive → Option Nat
  | .byte => some 0
  | .short => some 1
  | .char => some 2
  | .int => some 3
  | .long => some 4
  | .float => some 5
  | .double => some 6
  | .boolean | .void => none

def widened : Primitive → List Primitive
  | .byte => [.short, .int, .long, .float, .double]
  | .short | .char => [.int, .long, .float, .double]
  | .int => [.long, .float, .double]
  | .long => [.float, .double]
  | .float => [.double]
  | .double | .boolean | .void => []

def fits (p q : Primitive) : Bool := p == q || (widened p).contains q

def promoted : Primitive → Primitive
  | .byte | .short | .char => .int
  | p => p

end Primitive

end RefGraph

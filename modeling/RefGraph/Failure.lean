set_option autoImplicit false

namespace RefGraph

inductive FailureKind where
  | unresolvedSymbol | ambiguousOverload | conflictingBounds | recursionLimit | other
deriving DecidableEq, Inhabited

namespace FailureKind

def label : FailureKind → String
  | .unresolvedSymbol => "unresolved_symbol"
  | .ambiguousOverload => "ambiguous_overload"
  | .conflictingBounds => "conflicting_generic_bounds"
  | .recursionLimit => "recursion_limit"
  | .other => "other"

def all : List FailureKind :=
  [.unresolvedSymbol, .ambiguousOverload, .conflictingBounds, .recursionLimit, .other]

def ofLabel? (s : String) : Option FailureKind := all.find? fun k => k.label == s

end FailureKind

inductive Unresolved where
  | name (name : String)
  | field (name onType : String)
  | fieldType (name : String)
  | package (name : String)
  | localType (name : String)
  | selfReference (name : String)
  | iteration (overType : String)
  | typeAsValue (text : String)
  | notAnArray
  | foreignThis
  | operand
  | arithmetic (operator : String)
  | receiver (method onType : String)
  | methodInScope (name : String) (count : Nat)
  | method (name : String) (count : Nat)
  | returnType (name : String)
  | noConstructors (type : String)
  | constructor (name : String) (count : Nat)
  | overload (name : String)
  | explained (detail : String)
deriving DecidableEq

def Unresolved.detail : Unresolved → String
  | .name n => s!"cannot resolve {n}"
  | .field n t => s!"no field {n} on {t}"
  | .fieldType n => s!"type of field {n} is unknown"
  | .package n => s!"{n} is not a type or value"
  | .localType n => s!"cannot infer the type of {n}"
  | .selfReference n => s!"{n} refers to itself"
  | .iteration t => s!"cannot iterate over {t}"
  | .typeAsValue t => s!"{t} is a type, not a value"
  | .notAnArray => "indexed expression is not an array"
  | .foreignThis => "qualified this of a non-corpus type"
  | .operand => "operand type unknown"
  | .arithmetic op => s!"no numeric type for {op}"
  | .receiver m t => s!"{m} invoked on {t}"
  | .methodInScope n count => s!"no method {n} with {count} argument(s) in scope"
  | .method n count => s!"no method {n} with {count} argument(s)"
  | .returnType n => s!"return type of {n} is unknown"
  | .noConstructors t => s!"{t} declares no constructors"
  | .constructor n count => s!"no constructor {n} with {count} argument(s)"
  | .overload n => s!"no applicable overload of {n}"
  | .explained detail => detail

inductive Untypable where
  | fieldAccess (text : String)
  | createdType (text : String)
  | arrayType (text : String)
  | castType (text : String)
  | emptyParentheses
  | conditional
  | assignment
  | unary
  | update
  | namelessCall
  | thisOutsideType
  | noStandaloneType (kind : String)
  | unsupported (kind : String)
  | explained (detail : String)
deriving DecidableEq

def Untypable.detail : Untypable → String
  | .fieldAccess text => s!"malformed field access {text}"
  | .createdType text => s!"cannot read created type in {text}"
  | .arrayType text => s!"cannot read array type in {text}"
  | .castType text => s!"cannot read cast type in {text}"
  | .emptyParentheses => "empty parentheses"
  | .conditional => "malformed conditional expression"
  | .assignment => "malformed assignment"
  | .unary => "malformed unary expression"
  | .update => "malformed update expression"
  | .namelessCall => "method invocation without a name"
  | .thisOutsideType => "`this` outside of a type"
  | .noStandaloneType kind => s!"{kind} has no standalone type"
  | .unsupported kind => s!"unsupported expression {kind}"
  | .explained detail => detail

inductive Failure where
  | unresolved (cause : Unresolved)
  | ambiguous (name : String) (candidates : List String)
  | conflicting (param : String) (bindings : List String)
  | tooDeep (limit : Int) (what : String)
  | untypable (cause : Untypable)
deriving DecidableEq

namespace Failure

def kind : Failure → FailureKind
  | .unresolved _ => .unresolvedSymbol
  | .ambiguous _ _ => .ambiguousOverload
  | .conflicting _ _ => .conflictingBounds
  | .tooDeep _ _ => .recursionLimit
  | .untypable _ => .other

def detail : Failure → String
  | .unresolved cause => cause.detail
  | .ambiguous name candidates => s!"ambiguous call {name}: " ++ ", ".intercalate candidates
  | .conflicting param bindings =>
    s!"conflicting bindings for {param}: " ++ " vs ".intercalate bindings
  | .tooDeep limit what => s!"recursion limit {limit} exceeded while resolving {what}"
  | .untypable cause => cause.detail

def isTooDeep : Failure → Bool
  | .tooDeep _ _ => true
  | _ => false

def isUnresolved : Failure → Bool
  | .unresolved _ => true
  | _ => false

end Failure

end RefGraph

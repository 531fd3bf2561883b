import RefGraph.Members

set_option autoImplicit false

namespace RefGraph

def Candidate.takes (c : Candidate) (count : Nat) : Bool :=
  c.params.length == count || (isVarargs c.params && count + 1 ≥ c.params.length)

def Candidate.text (c : Candidate) : String :=
  c.name ++ "(" ++ ",".intercalate (rawTypes c.params) ++ ")"

structure Choice where
  candidate : Candidate
  types : List (Option RType)

namespace World

def paramTypes (w : World) (c : Candidate) : List (Option RType) :=
  let ctx := w.memberContext c.member
  let b := w.bindings c.on
  c.params.map fun p => (w.resolveRef (some ctx) b p.effectiveType).toOption

def choice (w : World) (c : Candidate) : Choice := ⟨c, w.paramTypes c⟩

def allAssignable (w : World) : List (Option RType) → List (Option RType) → Except Failure Bool
  | a :: as, p :: ps => do
    if ← w.assignable a p then w.allAssignable as ps else return false
  | _, _ => .ok true

def fixedArity (w : World) (args : List (Option RType)) (c : Choice) : Except Failure Bool :=
  if c.types.length = args.length then w.allAssignable args c.types else .ok false

def variableArity (w : World) (args : List (Option RType)) (c : Choice) : Except Failure Bool :=
  if isVarargs c.candidate.params then do
    let fixed := c.types.dropLast
    let element := match c.types.getLast? with
      | some (some (.array t)) => some t
      | _ => none
    if ← w.allAssignable args fixed then
      (args.drop fixed.length).allM fun a => w.assignable a element
    else return false
  else .ok false

/-- The choices that the arguments can be passed to; repeating the last parameter comes second. -/
def applicable (w : World) (args : List (Option RType)) (cs : List Choice) :
    Except Failure (List Choice) := do
  match ← cs.filterM (w.fixedArity args) with
  | [] => cs.filterM (w.variableArity args)
  | pool => return pool

def moreSpecific (w : World) (c d : Choice) : Except Failure Bool := w.allAssignable c.types d.types

def beatsOthers (w : World) (pool : List Choice) (i : Nat) (c : Choice) : Except Failure Bool :=
  (pool.zipIdx.filter fun d => d.2 != i).allM fun d => w.moreSpecific c d.1

def mostSpecific (w : World) (pool : List Choice) : Except Failure (List Choice) := do
  let best ← pool.zipIdx.filterM fun c => w.beatsOthers pool c.2 c.1
  return best.map (·.1)

/-- The candidate that a call means; none if no candidate takes that many arguments. -/
def select (w : World) (name : String) (candidates : List Candidate) (args : List (Option RType)) :
    Except Failure (Option Candidate) :=
  match candidates.filter (·.takes args.length) with
  | [] => .ok none
  | taking => do
    match ← w.applicable args (taking.map w.choice) with
    | [] =>
      match taking with
      | [c] => return some c
      | _ => throw (.unresolved (.overload name))
    | [c] => return some c.candidate
    | pool =>
      match ← w.mostSpecific pool with
      | [c] => return some c.candidate
      | _ => throw (.ambiguous name (pool.map (·.candidate.text)))

end World

end RefGraph

import RefGraph.Name

set_option autoImplicit false

namespace RefGraph

structure Placeholder where
  name : Name
  arity : Int := 0
deriving DecidableEq, Inhabited

structure Registry where
  entries : List (Name × Placeholder) := []
deriving Inhabited

namespace Registry

def get? (r : Registry) (n : Name) : Option Placeholder :=
  (r.entries.find? fun e => e.1 == n).map (·.2)

def contains (r : Registry) (n : Name) : Bool := (r.get? n).isSome

def size (r : Registry) : Nat := r.entries.length

def set (r : Registry) (n : Name) (p : Placeholder) : Registry :=
  if r.contains n then ⟨r.entries.map fun e => if e.1 = n then (n, p) else e⟩
  else ⟨r.entries ++ [(n, p)]⟩

def keysOf (n : Name) : List Name := if n.bare = n then [n] else [n, n.bare]

def widest? : List Placeholder → Option Placeholder
  | [] => none
  | p :: ps =>
    match widest? ps with
    | none => some p
    | some q => if p.arity < q.arity then some q else some p

def choose (known : List Placeholder) (n : Name) (arity : Int) : Placeholder :=
  match widest? known with
  | some p => if arity ≤ p.arity then p else ⟨n, arity⟩
  | none => ⟨n, arity⟩

def repoint (r : Registry) (old : List Placeholder) (p : Placeholder) : Registry :=
  ⟨r.entries.map fun e => if old.contains e.2 then (e.1, p) else e⟩

def register (r : Registry) (n : Name) (arity : Int) : Registry × Placeholder :=
  let known := (keysOf n).filterMap r.get?
  let p := choose known n arity
  let moved := r.repoint (known.filter (· != p)) p
  ((keysOf n).foldl (fun r k => r.set k p) moved, p)

/-- A dotted name that is not registered is looked up by its last segment. -/
def solve? (r : Registry) (n : Name) : Option Placeholder :=
  (r.get? n).or (if n.isQualified then r.get? n.bare else none)

def sorted (r : Registry) : List (Name × Placeholder) :=
  r.entries.mergeSort fun a b => a.1.text < b.1.text || a.1.text == b.1.text

end Registry

end RefGraph

import RefGraph.Text.Split

set_option autoImplicit false

namespace RefGraph

structure Name where
  first : String
  rest : List String := []
deriving DecidableEq, Inhabited

namespace Name

def ofString (s : String) : Name :=
  let (piece, pieces) := Text.cut '.' s.toList
  ⟨String.ofList piece, pieces.map String.ofList⟩

def simple (s : String) : Name := ⟨s, []⟩

def ofSegments : List String → Name
  | [] => simple ""
  | s :: ss => ⟨s, ss⟩

def segments (n : Name) : List String := n.first :: n.rest

def text (n : Name) : String := ".".intercalate n.segments

def last (n : Name) : String := n.rest.getLastD n.first

def bare (n : Name) : Name := simple n.last

/-- All segments but the last; a name of one segment is its own owner. -/
def owner (n : Name) : Name :=
  match n.rest with
  | [] => n
  | rest => ⟨n.first, rest.dropLast⟩

def isQualified (n : Name) : Bool := !n.rest.isEmpty

def isEmpty (n : Name) : Bool := n.first.isEmpty && n.rest.isEmpty

def append (n : Name) (more : List String) : Name := ⟨n.first, n.rest ++ more⟩

def push (n : Name) (segment : String) : Name := n.append [segment]

/-- The segments to descend through after the first; a single dot at the end adds none. -/
def path (n : Name) : List String :=
  if n.rest = [""] then [] else n.rest

@[simp] theorem segments_ne_nil (n : Name) : n.segments ≠ [] := by simp [segments]

@[simp] theorem last_push (n : Name) (s : String) : (n.push s).last = s := by
  simp [push, append, last]

@[simp] theorem last_simple (s : String) : (simple s).last = s := rfl

@[simp] theorem last_bare (n : Name) : n.bare.last = n.last := rfl

theorem getLast?_segments (n : Name) : n.segments.getLast? = some n.last := by
  simp only [segments, last]
  cases n.rest with
  | nil => rfl
  | cons s ss => simp [List.getLast?_cons]

end Name

end RefGraph

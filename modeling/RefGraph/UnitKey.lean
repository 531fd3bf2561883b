import RefGraph.FileError

set_option autoImplicit false

namespace RefGraph

namespace UnitKey

def mark : String := "/[CN]/"

-- Deeper roots come first, roots of one depth in the order of their text.
def rootOrder (p q : Path) : Bool :=
  p.segments.length > q.segments.length ||
    (p.segments.length == q.segments.length && (p.text < q.text || p.text == q.text))

def sortRoots (roots : List Path) : List Path :=
  (roots.map Path.resolve).eraseDups.mergeSort rootOrder

def ofSegments (segments : List String) : String := "_".intercalate segments ++ mark

def ofPath (roots : List Path) (p : Path) : String :=
  match (sortRoots roots).findSome? (·.relativeTo? p.resolve) with
  | none => ""
  | some [] => ofSegments [p.resolve.name]
  | some segments => ofSegments segments

def ofPath? (roots : List Path) : Option Path → String
  | none => ""
  | some p => ofPath roots p

def sortRoots? (roots : List Path) : Except PathError (List Path) := do
  Path.checkResolve roots
  return sortRoots roots

def key? (roots : List Path) (path : Option Path) : Except PathError String := do
  Path.checkResolve path.toList
  return ofPath? roots path

end UnitKey

end RefGraph

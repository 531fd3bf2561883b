import RefGraph.Text.Split

set_option autoImplicit false

namespace RefGraph

inductive Anchor where
  | here | root | doubleSlash
deriving DecidableEq, Inhabited

namespace Anchor

def ofSlashes : Nat → Anchor
  | 0 => .here
  | 2 => .doubleSlash
  | _ => .root

def text : Anchor → String
  | .here => ""
  | .root => "/"
  | .doubleSlash => "//"

def isAbsolute (a : Anchor) : Bool := a != .here

def plain : Anchor → Anchor
  | .doubleSlash => .root
  | a => a

end Anchor

structure Path where
  anchor : Anchor
  segments : List String
deriving DecidableEq, Inhabited

namespace Path

def ofString (s : String) : Path where
  anchor := Anchor.ofSlashes (s.toList.takeWhile (· == '/')).length
  segments := (Text.split '/' s).filter fun x => x != "" && x != "."

def text (p : Path) : String :=
  if p.anchor = .here ∧ p.segments = [] then "." else p.anchor.text ++ "/".intercalate p.segments

def isAbsolute (p : Path) : Bool := p.anchor.isAbsolute

def hasZero (p : Path) : Bool := p.segments.any fun s => s.toList.contains '\x00'

def below (dir p : Path) : Path :=
  if p.isAbsolute then p else { dir with segments := dir.segments ++ p.segments }

def push (p : Path) (name : String) : Path := { p with segments := p.segments ++ [name] }

def parent (p : Path) : Path := { p with segments := p.segments.dropLast }

def way (p : Path) : List Path :=
  (List.range (p.segments.length + 1)).map fun n => { p with segments := p.segments.take n }

-- Segments so far, the last one first.
def stepUp (absolute : Bool) (done : List String) : List String :=
  match done with
  | [] => if absolute then [] else [".."]
  | s :: ss => if s = ".." then ".." :: s :: ss else ss

def resolveOnto (absolute : Bool) : List String → List String → List String
  | done, [] => done.reverse
  | done, s :: ss =>
    if s = ".." then resolveOnto absolute (stepUp absolute done) ss
    else resolveOnto absolute (s :: done) ss

def resolve (p : Path) : Path where
  anchor := p.anchor.plain
  segments := resolveOnto p.isAbsolute [] p.segments

def name (p : Path) : String := p.segments.getLastD ""

-- The last dot with the characters after it, when both sides of the dot have characters.
def suffixOf (s : List Char) : List Char :=
  let tail := (s.reverse.takeWhile (· != '.')).reverse
  if tail.isEmpty || tail.length + 1 ≥ s.length then [] else '.' :: tail

/-- The file suffix with its dot; `.x` and `x.` have none. -/
def suffix (p : Path) : String := String.ofList (suffixOf p.name.toList)

def relativeTo? (dir p : Path) : Option (List String) :=
  if dir.isAbsolute = p.isAbsolute ∧ dir.segments <+: p.segments then
    some (p.segments.drop dir.segments.length)
  else none

end Path

end RefGraph

import RefGraph.TypeRef
import RefGraph.Text.Alphanumeric

set_option autoImplicit false

namespace RefGraph.TypeRef

def isNameChar (c : Char) : Bool := Text.isAlphanumeric c || c == '.' || c == '_' || c == '$'

def headOfText (s : String) : TypeHead :=
  match Primitive.ofName? s with
  | some p => .primitive p
  | none => .named (Name.ofString s)

def dropKeyword? : List Char → List Char → Option (List Char)
  | [], rest => some rest
  | k :: ks, c :: cs => if k = c then dropKeyword? ks cs else none
  | _ :: _, [] => none

def cutBrackets : List Char → Nat × List Char
  | '[' :: ']' :: rest => let (n, rest) := cutBrackets rest; (n + 1, rest)
  | rest => (0, rest)

def dropComma : List Char → List Char
  | ',' :: rest => rest
  | rest => rest

mutual
def readArg : Nat → List Char → Option (Arg TypeRef × List Char)
  | 0, _ => none
  | fuel + 1, '?' :: rest => do
    let (arg?, rest) ← readBound fuel .upper rest
    match arg? with
    | some arg => some (arg, rest)
    | none =>
      let (arg?, rest) ← readBound fuel .lower rest
      some (arg?.getD .unbounded, rest)
  | fuel + 1, cs => do
    let head := headOfText (String.ofList (cs.takeWhile isNameChar))
    let (args, rest) ←
      match cs.dropWhile isNameChar with
      | '<' :: rest => readArgs fuel rest
      | rest => some ([], rest)
    let (dims, rest) := cutBrackets rest
    some (.type { head, args, dims }, rest)

-- A bound that is a wildcard itself is passed over.
def readBound : Nat → Variance → List Char → Option (Option (Arg TypeRef) × List Char)
  | 0, _, _ => none
  | fuel + 1, v, cs =>
    match dropKeyword? v.keyword.toList cs with
    | none => some (none, cs)
    | some cs => do
      let (bound, rest) ← readArg fuel cs
      match bound with
      | .type t => some (some (.bounded v t), rest)
      | _ => some (none, rest)

-- Arguments up to the closing bracket; a step that reads nothing would repeat for ever.
def readArgs : Nat → List Char → Option (List (Arg TypeRef) × List Char)
  | 0, _ => none
  | _ + 1, '>' :: rest => some ([], rest)
  | fuel + 1, cs => do
    let (arg, rest) ← readArg fuel cs
    let rest := dropComma rest
    if rest.length < cs.length then
      let (args, rest) ← readArgs fuel rest
      some (arg :: args, rest)
    else none
end

/-- Enough for any text: each round of three calls reads a character. -/
def readFuel (cs : List Char) : Nat := 3 * cs.length + 3

/-- The type that a text writes; a wildcard alone stands for the top class. -/
def ofText? (s : String) : Option TypeRef :=
  let cs := s.toList.filter (· != ' ')
  (readArg (readFuel cs) cs).map fun (arg, _) =>
    match arg with
    | .type t => t
    | _ => top

end RefGraph.TypeRef

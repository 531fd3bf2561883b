import RefGraph.Text.Split

set_option autoImplicit false

namespace RefGraph.Text

def ofLines (lines : List String) : String := String.join (lines.map (· ++ "\n"))

/-- What stands before each line feed; text after the last one is no line. -/
def lines (cs : List Char) : List String := (split '\n' (String.ofList cs)).dropLast

def joinBreaks : List Char → List Char
  | [] => []
  | '\r' :: '\n' :: cs => '\n' :: joinBreaks cs
  | c :: cs => c :: joinBreaks cs

def breakFor (c : Char) : Char := if c = '\r' then '\n' else c

def printedLines (s : String) : List String := lines (joinBreaks s.toList)

def fileLines (s : String) : List String := lines ((joinBreaks s.toList).map breakFor)

end RefGraph.Text

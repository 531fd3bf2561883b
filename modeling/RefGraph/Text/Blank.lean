set_option autoImplicit false

namespace RefGraph.Text

def blankRanges : List (Nat × Nat) :=
  [(0x9, 0xd), (0x1c, 0x20), (0x85, 0x85), (0xa0, 0xa0), (0x1680, 0x1680), (0x2000, 0x200a),
    (0x2028, 0x2029), (0x202f, 0x202f), (0x205f, 0x205f), (0x3000, 0x3000)]

def isBlank (c : Char) : Bool :=
  blankRanges.any fun (lo, hi) => lo ≤ c.toNat && c.toNat ≤ hi

def squeeze (s : String) : String := String.ofList (s.toList.filter fun c => !isBlank c)

def dropSpaces (s : String) : String := String.ofList (s.toList.filter fun c => c != ' ')

def clip (n : Nat) (s : String) : String := String.ofList (s.toList.take n)

def countChar (c : Char) (s : String) : Nat := s.toList.count c

end RefGraph.Text

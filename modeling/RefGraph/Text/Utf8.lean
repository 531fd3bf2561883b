set_option autoImplicit false

namespace RefGraph.Text

inductive Utf8Fault where
  | start
  | continuation
  | cutShort
deriving DecidableEq

def Utf8Fault.message : Utf8Fault → String
  | .start => "invalid start byte"
  | .continuation => "invalid continuation byte"
  | .cutShort => "unexpected end of data"

-- How many bytes follow a first byte, and the range that the second one must lie in.
def utf8Lead (b : UInt8) : Option (Nat × UInt8 × UInt8) :=
  if b < 0x80 then some (0, 0, 0)
  else if b < 0xc2 then none
  else if b < 0xe0 then some (1, 0x80, 0xbf)
  else if b = 0xe0 then some (2, 0xa0, 0xbf)
  else if b = 0xed then some (2, 0x80, 0x9f)
  else if b < 0xf0 then some (2, 0x80, 0xbf)
  else if b = 0xf0 then some (3, 0x90, 0xbf)
  else if b < 0xf4 then some (3, 0x80, 0xbf)
  else if b = 0xf4 then some (3, 0x80, 0x8f)
  else none

-- `due` bytes are still expected, the next of them between `lo` and `hi`.
def utf8Scan : (due : Nat) → (lo hi : UInt8) → List UInt8 → Option Utf8Fault
  | 0, _, _, [] => none
  | 0, _, _, b :: bs =>
    match utf8Lead b with
    | none => some .start
    | some (due, lo, hi) => utf8Scan due lo hi bs
  | _ + 1, _, _, [] => some .cutShort
  | due + 1, lo, hi, b :: bs =>
    if lo ≤ b ∧ b ≤ hi then utf8Scan due 0x80 0xbf bs else some .continuation

def utf8Fault? (bytes : List UInt8) : Option Utf8Fault := utf8Scan 0 0 0 bytes

end RefGraph.Text

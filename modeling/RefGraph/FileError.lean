import RefGraph.Path
import RefGraph.Text.Quoted

set_option autoImplicit false

namespace RefGraph

def nameLimit : Nat := 255

def pathLimit : Nat := 4095

inductive FileError where
  | notFound | notADirectory | isADirectory | nameTooLong | permissionDenied | noDevice
  | zeroCharacter
deriving DecidableEq

namespace FileError

-- A path with a zero character is refused before the system is asked, so there is no number.
def code? : FileError → Option Nat
  | .notFound => some 2
  | .noDevice => some 6
  | .permissionDenied => some 13
  | .notADirectory => some 20
  | .isADirectory => some 21
  | .nameTooLong => some 36
  | .zeroCharacter => none

def text : FileError → String
  | .notFound => "No such file or directory"
  | .noDevice => "No such device or address"
  | .permissionDenied => "Permission denied"
  | .notADirectory => "Not a directory"
  | .isADirectory => "Is a directory"
  | .nameTooLong => "File name too long"
  | .zeroCharacter => "embedded null byte"

def message (e : FileError) (p : Path) : String :=
  match e.code? with
  | some n => s!"[Errno {n}] {e.text}: " ++ Text.quoted p.text
  | none => e.text

def isAbsence : FileError → Bool
  | .notFound | .notADirectory => true
  | _ => false

/-- Whether a path is taken to lead nowhere, where the other errors end the run. -/
def isSilent (e : FileError) : Bool := e.isAbsence || e == .zeroCharacter

end FileError

structure PathError where
  error : FileError
  path : Path
deriving DecidableEq

def PathError.message (e : PathError) : String := e.error.message e.path

namespace Path

def check (p : Path) : Except FileError Unit :=
  if p.hasZero then .error .zeroCharacter
  else if p.text.utf8ByteSize > pathLimit then .error .nameTooLong
  else .ok ()

-- Resolving goes through all names of a path, however long it is.
def checkResolve (ps : List Path) : Except PathError Unit :=
  match ps.find? hasZero with
  | some p => .error ⟨.zeroCharacter, p⟩
  | none => .ok ()

end Path

end RefGraph

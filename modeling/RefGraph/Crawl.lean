import RefGraph.FileTree

set_option autoImplicit false

namespace RefGraph

def sourceSuffix : String := ".java"

def skippedDirs : List String := [".git", ".svn", ".hg", ".idea"]

def FileTree.isSkipped : FileTree → Bool
  | .file .. => false
  | .dir name .. => skippedDirs.contains name
  | .socket _ => true

def Access.check (access : Access) (p : Path) : Except FileError Unit :=
  p.check.bind fun _ =>
    if !access.enter then .error .permissionDenied
    else if p.name.utf8ByteSize > nameLimit then .error .nameTooLong
    else .ok ()

namespace Crawl

inductive Step where
  | file (path : Path)
  | unlisted (e : PathError)
  | failed (e : PathError)
deriving DecidableEq

namespace Step

def path : Step → Path
  | .file p => p
  | .unlisted e | .failed e => e.path

def file? : Step → Option Path
  | .file p => some p
  | _ => none

def failure? : Step → Option PathError
  | .failed e => some e
  | _ => none

end Step

def nameOrder (a b : String × List Step) : Bool := a.1 < b.1 || a.1 == b.1

def inNameOrder (steps : List (String × List Step)) : List Step :=
  (steps.mergeSort nameOrder).flatMap (·.2)

mutual
def stepsAt (suffix : String) (path : Path) : FileTree → List Step
  | .dir _ entries access =>
    if access.list then inNameOrder (stepsByName suffix path access entries)
    else [.unlisted ⟨.permissionDenied, path⟩]
  | _ => if path.suffix = suffix then [.file path] else []

def stepsByName (suffix : String) (path : Path) (access : Access) :
    List FileTree → List (String × List Step)
  | [] => []
  | t :: ts =>
    let here := match access.check (path.push t.name) with
      | .error e => if e.isSilent then [] else [.failed ⟨e, path.push t.name⟩]
      | .ok _ => if t.isSkipped then [] else stepsAt suffix (path.push t.name) t
    (t.name, here) :: stepsByName suffix path access ts
end

def untilFailure : List Step → List Step
  | [] => []
  | .failed e :: _ => [.failed e]
  | s :: ss => s :: untilFailure ss

/-- A walk from a root; a root that is not there stands for itself. -/
def walk (d : Disk) (suffix : String) (root : Path) : List Step :=
  let path := d.resolve root
  if root.hasZero then [.failed ⟨.zeroCharacter, root⟩]
  else
    match d.open? path with
    | .ok t => untilFailure (stepsAt suffix path t)
    | .error e =>
      if !e.isAbsence then [.failed ⟨e, path⟩]
      else if path.suffix = suffix then [.file path] else []

def outcome (steps : List Step) : Except PathError (List Path) :=
  match steps.findSome? Step.failure? with
  | some e => .error e
  | none => .ok (steps.filterMap Step.file?)

def files (d : Disk) (suffix : String) (root : Path) : Except PathError (List Path) :=
  outcome (walk d suffix root)

end Crawl

end RefGraph

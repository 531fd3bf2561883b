import RefGraph.FileError
import RefGraph.SourceUnit

set_option autoImplicit false

namespace RefGraph

/-- What a directory allows: to list its names, and to ask for what they name. -/
structure Access where
  list : Bool := true
  enter : Bool := true
deriving DecidableEq, Inhabited

inductive FileTree where
  | file (name : String) (content : SourceFile) (readable : Bool := true)
  | dir (name : String) (entries : List FileTree) (access : Access := {})
  -- Neither a file nor a directory, and nothing that can be read.
  | socket (name : String)
deriving Inhabited

namespace FileTree

def name : FileTree → String
  | .file name .. | .dir name .. | .socket name => name

def isDir : FileTree → Bool
  | .dir .. => true
  | _ => false

-- The directories that were gone through are kept, the last one first; above the first there is
-- only itself.
def go (through : List FileTree) (here : FileTree) : List String → Except FileError FileTree
  | [] => .ok here
  | s :: ss =>
    match here with
    | .file .. | .socket _ => .error .notADirectory
    | .dir _ entries access =>
      if !access.enter then .error .permissionDenied
      else if s = ".." then
        match through with
        | [] => go [] here ss
        | up :: rest => go rest up ss
      else if s.utf8ByteSize > nameLimit then .error .nameTooLong
      else
        match entries.find? (·.name == s) with
        | none => .error .notFound
        | some t => go (here :: through) t ss

def replace (t : FileTree) (ts : List FileTree) : List FileTree :=
  if ts.any (·.name == t.name) then ts.map fun u => if u.name == t.name then t else u
  else ts ++ [t]

-- A directory that is not there yet is empty.
def inside (name : String) (ts : List FileTree) : List FileTree × Access :=
  match ts.find? (·.name == name) with
  | some (.dir _ entries access) => (entries, access)
  | _ => ([], {})

def addDir (change : Access → Access) : List String → List FileTree → List FileTree
  | [], ts => ts
  | [name], ts =>
    let (entries, access) := inside name ts
    replace (.dir name entries (change access)) ts
  | name :: more, ts =>
    let (entries, access) := inside name ts
    replace (.dir name (addDir change more entries) access) ts

def addLeaf (make : String → FileTree) : List String → List FileTree → List FileTree
  | [], ts => ts
  | [name], ts => replace (make name) ts
  | name :: more, ts =>
    let (entries, access) := inside name ts
    replace (.dir name (addLeaf make more entries) access) ts

end FileTree

/-- Everything from the root on, and the directory that relative paths start at. -/
structure Disk where
  workDir : Path
  entries : List FileTree := []
deriving Inhabited

namespace Disk

def root (d : Disk) : FileTree := .dir "" d.entries

def absolute (d : Disk) (p : Path) : Path := d.workDir.below p

def resolve (d : Disk) (p : Path) : Path := (d.absolute p).resolve

def open? (d : Disk) (p : Path) : Except FileError FileTree := do
  p.check
  FileTree.go [] d.root (d.absolute p).segments

def contains (d : Disk) (p : Path) : Except FileError Bool :=
  match d.open? p with
  | .ok _ => .ok true
  | .error e => if e.isSilent then .ok false else .error e

def read (d : Disk) (p : Path) : Except FileError SourceFile := do
  match ← d.open? p with
  | .file _ content readable => if readable then return content else throw .permissionDenied
  | .dir _ _ access => throw (if access.list then .isADirectory else .permissionDenied)
  | .socket _ => throw .noDevice

def mapEntries (d : Disk) (f : List FileTree → List FileTree) : Disk :=
  { d with entries := f d.entries }

def addDir (d : Disk) (p : Path) : Disk :=
  (d.absolute p).way.foldl
    (fun d q => d.mapEntries (FileTree.addDir id q.resolve.segments)) d

def setAccess (d : Disk) (p : Path) (access : Access) : Disk :=
  d.mapEntries (FileTree.addDir (fun _ => access) (d.resolve p).segments)

def addLeaf (d : Disk) (p : Path) (make : String → FileTree) : Disk :=
  (d.addDir p.parent).mapEntries (FileTree.addLeaf make (d.resolve p).segments)

def addFile (d : Disk) (p : Path) (content : SourceFile) (readable : Bool := true) : Disk :=
  d.addLeaf p (.file · content readable)

def write (d : Disk) (p : Path) (content : SourceFile) : Except FileError Disk :=
  match d.open? p with
  | .ok (.dir ..) => .error .isADirectory
  | .ok (.socket _) => .error .noDevice
  | .ok (.file _ _ readable) => .ok (d.addFile p content readable)
  | .error e =>
    match e.isAbsence, d.open? p.parent with
    | true, .ok (.dir ..) => .ok (d.addFile p content)
    | _, _ => .error e

end Disk

inductive LoadError where
  | unreadable (e : PathError)
  | rejected (e : ReadError)

def LoadError.reason : LoadError → String
  | .unreadable e => e.message
  | .rejected e => e.reason

def SourceUnit.load (d : Disk) (p : Path) : Except LoadError SourceUnit :=
  match d.read p with
  | .error e => .error (.unreadable ⟨e, p⟩)
  | .ok content => (SourceUnit.read (some p) content).mapError .rejected

end RefGraph

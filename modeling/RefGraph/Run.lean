import RefGraph.Crawl
import RefGraph.Dependency
import RefGraph.Inheritance
import RefGraph.Library.Standard
import RefGraph.Synthesis

set_option autoImplicit false

namespace RefGraph

inductive Mode where
  | dependencies | inheritance | fieldTypes
deriving DecidableEq, Inhabited

namespace Mode

def label : Mode → String
  | .dependencies => "dependencies"
  | .inheritance => "inheritance"
  | .fieldTypes => "field-types"

def all : List Mode := [.dependencies, .inheritance, .fieldTypes]

def ofLabel? (s : String) : Option Mode := all.find? fun m => m.label == s

end Mode

inductive RunError where
  | noRoot
  | unreachable (e : PathError)

namespace RunError

def reason : RunError → String
  | .noRoot => "no valid source root supplied"
  | .unreachable e => e.message

def message : RunError → String
  | .noRoot => "Invalid configuration: " ++ reason .noRoot
  | .unreachable e => e.message

end RunError

namespace Corpus

def relations (c : Corpus) (mode : Mode) (unit : Nat) : List Relation × List Diagnostic :=
  match mode with
  | .dependencies => c.dependencies unit
  | .inheritance => (c.inheritance unit, [])
  | .fieldTypes => (c.fieldTypes unit, [])

-- A class or a field may mean a type of a unit without a key; that unit fails in its own turn.
def relations? (c : Corpus) (mode : Mode) (unit : Nat) :
    Except PathError (List Relation × List Diagnostic) :=
  match mode with
  | .dependencies => c.dependencies? unit
  | _ => (c.keyOf? unit).map fun _ => c.relations mode unit

def extract (c : Corpus) (mode : Mode) :
    Except PathError (List (List Relation × List Diagnostic)) := do
  let _ ← UnitKey.sortRoots? c.roots
  c.unitIndices.mapM (c.relations? mode)

end Corpus

structure Run where
  mode : Mode
  roots : List Path
  corpus : Corpus
  registry : Registry
  lines : List String
  diagnostics : List Diagnostic
  log : List LogLine

namespace Run

def missingRoot (root : Path) : LogLine :=
  ⟨.warning, .pipeline, "missing_root path=" ++ root.text⟩

/-- The roots that are there, each once, and a warning for each of the others; the check stops at a
root that cannot be looked up. -/
structure Roots where
  kept : List Path
  log : List LogLine := []
  failed : Option PathError := none

def keepRoots (d : Disk) (kept : List Path) : List Path → Roots
  | [] => { kept }
  | root :: more =>
    match d.contains root with
    | .error e => { kept, failed := some ⟨e, root⟩ }
    | .ok false =>
      let rest := keepRoots d kept more
      { rest with log := missingRoot root :: rest.log }
    | .ok true =>
      if kept.contains (d.resolve root) then keepRoots d kept more
      else keepRoots d (kept ++ [d.resolve root]) more

def unreadableDirectory (e : PathError) : LogLine :=
  ⟨.warning, .crawler, "unreadable_directory path=" ++ e.path.text ++ " reason=" ++ e.message⟩

/-- What comes of a root: the units of its files, a report for each file that makes none, the lines
of the log, and why the walk ended early. -/
structure Loaded where
  units : List SourceUnit
  reports : List Diagnostic
  log : List LogLine
  failed : Option PathError

def failure? (d : Disk) (p : Path) : Option Diagnostic :=
  match SourceUnit.load d p with
  | .error e => some { event := .parseFailure, detail := e.reason, path := some p }
  | .ok _ => none

def logLine? (d : Disk) : Crawl.Step → Option LogLine
  | .file p => (failure? d p).map Diagnostic.logLine
  | .unlisted e => some (unreadableDirectory e)
  | .failed _ => none

def loadRoot (d : Disk) (root : Path) : Loaded :=
  let steps := Crawl.walk d sourceSuffix root
  let files := steps.filterMap Crawl.Step.file?
  { units := files.filterMap fun p => (SourceUnit.load d p).toOption
    reports := files.filterMap (failure? d)
    log := steps.filterMap (logLine? d)
    failed := steps.findSome? Crawl.Step.failure? }

-- Consecutive indices, in groups of the given sizes.
def indexGroups (start : Nat) : List Nat → List (List Nat)
  | [] => []
  | n :: ns => List.range' start n :: indexGroups (start + n) ns

structure Abort where
  error : PathError
  log : List LogLine

-- Roots are loaded one after the other, up to one whose walk fails.
def aborted? : List Loaded → Option Abort
  | [] => none
  | l :: ls =>
    match l.failed with
    | some error => some { error, log := l.log }
    | none => (aborted? ls).map fun a => { a with log := l.log ++ a.log }

def corpusOf (roots : List Path) (loaded : List Loaded) : Corpus × Registry × List Diagnostic :=
  let groups := indexGroups 0 (loaded.map fun l => l.units.length)
  let firm := World.ofGroups Library.standard (loaded.flatMap (·.units)) groups
  let (registry, nested) := firm.synthesize placeholderLimit
  ({ world := firm.addSource (.placeholders registry), roots }, registry, nested)

def info (c : Component) (message : String) : LogLine := ⟨.info, c, message⟩

def loadLog (log : List LogLine) (roots : List Path) (loaded : List Loaded) : List LogLine :=
  let (corpus, registry, nested) := corpusOf roots loaded
  let units := corpus.world.units.length
  log ++ loaded.flatMap (·.log) ++ nested.map Diagnostic.logLine ++
    [info .pipeline
      s!"corpus_loaded roots={roots.length} units={units} placeholders={registry.size}"]

def ofFound (roots : List Path) (mode : Mode) (log : List LogLine) (loaded : List Loaded)
    (found : List (List Relation × List Diagnostic)) : Run :=
  let (corpus, registry, nested) := corpusOf roots loaded
  let lines := (found.flatMap (·.1)).map Relation.line
  let late := found.flatMap (·.2)
  let diagnostics := loaded.flatMap (·.reports) ++ nested ++ late
  { mode, roots, corpus, registry, lines, diagnostics
    log := loadLog log roots loaded ++ late.map Diagnostic.logLine ++
      [info .pipeline s!"relations_written mode={mode.label} count={lines.length}",
        info .diagnostics (Diagnostic.summary diagnostics)] }

def ofRoots? (d : Disk) (roots : List Path) (mode : Mode) (log : List LogLine) :
    Except Abort Run :=
  let loaded := roots.map (loadRoot d)
  match aborted? loaded with
  | some a => .error { a with log := log ++ a.log }
  | none =>
    match (corpusOf roots loaded).1.extract mode with
    | .error error => .error { error, log := loadLog log roots loaded }
    | .ok found => .ok (ofFound roots mode log loaded found)

end Run

def collect (d : Disk) (roots : List Path) (mode : Mode) : Except RunError Run :=
  match Run.keepRoots d [] roots with
  | { failed := some e, .. } => .error (.unreachable e)
  | { kept := [], .. } => .error .noRoot
  | { kept, log, .. } => (Run.ofRoots? d kept mode log).mapError fun a => .unreachable a.error

end RefGraph

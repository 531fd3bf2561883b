import RefGraph.Failure
import RefGraph.Path

set_option autoImplicit false

namespace RefGraph

inductive Event where
  | parseFailure | unresolvedSymbol | ambiguousOverload | conflictingBounds | recursionLimit
  | placeholderHit | resolutionError
deriving DecidableEq, Inhabited

namespace Event

def label : Event → String
  | .parseFailure => "parse_failure"
  | .unresolvedSymbol => "unresolved_symbol"
  | .ambiguousOverload => "ambiguous_overload"
  | .conflictingBounds => "conflicting_generic_bounds"
  | .recursionLimit => "recursion_limit"
  | .placeholderHit => "placeholder_hit"
  | .resolutionError => "resolution_error"

def all : List Event :=
  [.ambiguousOverload, .conflictingBounds, .parseFailure, .placeholderHit, .recursionLimit,
    .resolutionError, .unresolvedSymbol]

def ofLabel? (s : String) : Option Event := all.find? fun e => e.label == s

def ofFailure : FailureKind → Event
  | .unresolvedSymbol => .unresolvedSymbol
  | .ambiguousOverload => .ambiguousOverload
  | .conflictingBounds => .conflictingBounds
  | .recursionLimit => .recursionLimit
  | .other => .resolutionError

end Event

structure Diagnostic where
  event : Event
  detail : String
  path : Option Path := none
  line : Option Int := none
deriving DecidableEq

namespace Diagnostic

def ofFailure (kind : FailureKind) (detail : String) (path : Option Path) (line : Option Int) :
    Diagnostic :=
  { event := Event.ofFailure kind, detail, path, line }

def message (d : Diagnostic) : String :=
  let file := (d.path.map Path.text).getD "-"
  let line := (d.line.map fun n => toString n).getD "-"
  s!"{d.event.label} file={file} line={line} detail={d.detail}"

def counts (ds : List Diagnostic) : List (Event × Nat) :=
  (Event.all.map fun e => (e, ds.countP fun d => d.event == e)).filter fun (_, n) => n > 0

def summary (ds : List Diagnostic) : String :=
  let parts := (counts ds).map fun (e, n) => s!"{e.label}={n}"
  s!"diagnostics_summary total={ds.length} " ++ " ".intercalate parts

end Diagnostic

inductive Level where
  | info | warning | error
deriving DecidableEq

namespace Level

def label : Level → String
  | .info => "INFO"
  | .warning => "WARNING"
  | .error => "ERROR"

def rank : Level → Nat
  | .info => 0
  | .warning => 1
  | .error => 2

end Level

inductive Component where
  | crawler | pipeline | diagnostics | commandLine
deriving DecidableEq

def Component.label : Component → String
  | .crawler => "depcollector.crawler"
  | .pipeline => "depcollector.pipeline"
  | .diagnostics => "depcollector.diagnostics"
  | .commandLine => "depcollector.cli"

structure LogLine where
  level : Level
  component : Component
  message : String
deriving DecidableEq

def Diagnostic.logLine (d : Diagnostic) : LogLine := ⟨.warning, .diagnostics, d.message⟩

def LogLine.text (l : LogLine) : String :=
  l.level.label ++ " " ++ l.component.label ++ " " ++ l.message

def LogLine.brief (l : LogLine) : String := l.level.label ++ " " ++ l.message

end RefGraph

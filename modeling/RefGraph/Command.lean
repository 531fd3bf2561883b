import RefGraph.Command.Options
import RefGraph.Text.Lines

set_option autoImplicit false

namespace RefGraph.Command

structure Outcome where
  exitCode : Nat
  usage : Bool := false
  output : List String := []
  messages : List String := []
  disk : Disk
  written : Option (Path × List String) := none

def textFile (lines : List String) : SourceFile where
  bytes := (Text.ofLines lines).toUTF8
  listing := none

def shown (level : Option Level) (log : List LogLine) : List String :=
  let visible := log.filter fun l => level.all fun low => low.rank ≤ l.level.rank
  visible.map LogLine.text

def runInto (d : Disk) (path : Path) (roots : List Path) (mode : Mode) (level : Option Level)
    (log : List LogLine) : Outcome :=
  match d.write path SourceFile.empty with
  | .error _ => { exitCode := 1, messages := shown level log, disk := d }
  | .ok emptied =>
    match Run.ofRoots? emptied roots mode log with
    | .error a =>
      { exitCode := 1
        messages := shown level a.log
        disk := emptied
        written := some (path, []) }
    | .ok run =>
      { exitCode := 0
        messages := shown level run.log
        disk := emptied.addFile path (textFile run.lines)
        written := some (path, run.lines) }

def runOrder (d : Disk) : Order → Outcome
  | .help => { exitCode := 0, disk := d }
  | .run mode roots output level =>
    match Run.keepRoots d [] (roots.map Path.ofString) with
    | { failed := some _, log, .. } => { exitCode := 1, messages := shown level log, disk := d }
    | { kept := [], log, .. } =>
      let e := RunError.noRoot
      let fatal : LogLine := ⟨.error, .commandLine, "fatal_configuration reason=" ++ e.reason⟩
      { exitCode := 2, messages := shown level (log ++ [fatal]) ++ [e.message], disk := d }
    | { kept, log, .. } =>
      match output with
      | none =>
        match Run.ofRoots? d kept mode log with
        | .error a => { exitCode := 1, messages := shown level a.log, disk := d }
        | .ok run =>
          { exitCode := 0, output := run.lines, messages := shown level run.log, disk := d }
      | some file => runInto d (Path.ofString file) kept mode level log

def pathsIn (words : List String) : List Path :=
  match order? words with
  | some (.run _ roots output _) => (roots ++ output.toList).map Path.ofString
  | _ => []

def run (d : Disk) (words : List String) : Outcome :=
  match order? words with
  | none => { exitCode := 2, usage := true, disk := d }
  | some order => runOrder d order

end RefGraph.Command

import RefGraph.Command

set_option autoImplicit false

open RefGraph

namespace RefGraph.Main

def listingSuffix : String := ".tree"

def usageText : String :=
  "Usage: [--mode dependencies|inheritance|field-types] [--inheritance] [--field-types] " ++
    "[-o|--output FILE] [-v|--verbose] [-q|--quiet] ROOT..."

def attempt {α : Type} (x : IO α) : IO (Option α) :=
  try return some (← x) catch _ => return none

def readSource (p : Path) : IO (Option SourceFile) := do
  match ← attempt (IO.FS.readBinFile p.text) with
  | none => return none
  | some bytes =>
    if bytes.isEmpty then return some SourceFile.empty
    else return some { bytes, listing := ← attempt (IO.FS.readFile (p.text ++ listingSuffix)) }

def kindAt (p : Path) : IO (Option IO.FS.FileType) := do
  let here := (← IO.currentDir) / p.text
  return (← attempt here.metadata).map (·.type)

def namesIn (p : Path) : IO (Option (List String)) := do
  let here := (← IO.currentDir) / p.text
  return (← attempt here.readDir).map fun entries => entries.toList.map (·.fileName)

partial def gather (d : Disk) (p : Path) : IO Disk := do
  match ← kindAt p with
  | some .dir =>
    match ← namesIn p with
    | none => return (d.addDir p).setAccess p { list := false }
    | some names =>
      let mut d := d.addDir p
      for name in names do
        let entry := p.push name
        if (← kindAt entry).isSome then d ← gather d entry
        else
          d := d.addLeaf entry .socket
          -- An entry that could be asked for but does not answer lies in a closed directory.
          if entry.check.isOk then d := d.setAccess p { enter := false }
      return d
  | some .other => return d.addLeaf p .socket
  | some _ =>
    match ← readSource p with
    | some f => return d.addFile p f
    | none => return d.addFile p SourceFile.empty false
  | none => return d

def gatherWay (d : Disk) (p : Path) : IO Disk :=
  p.way.foldlM (fun d step => do
    return if (← namesIn step).isSome then d.addDir step else d) d

end RefGraph.Main

def main (words : List String) : IO UInt32 := do
  let empty : Disk := { workDir := Path.ofString (← IO.currentDir).toString }
  let paths := (Command.pathsIn words).map empty.absolute
  let disk ← paths.foldlM (fun d p => do Main.gather (← Main.gatherWay d p) p.resolve) empty
  let outcome := Command.run disk words
  if outcome.usage then IO.eprintln Main.usageText
  for line in outcome.messages do IO.eprintln line
  for line in outcome.output do IO.println line
  match outcome.written with
  | some (p, lines) => IO.FS.writeFile p.text (Text.ofLines lines)
  | none => pure ()
  return outcome.exitCode.toUInt32

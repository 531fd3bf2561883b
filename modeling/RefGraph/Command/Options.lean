import RefGraph.Run

set_option autoImplicit false

namespace RefGraph.Command

inductive Flag where
  | inheritance | fieldTypes | verbose | quiet | help
deriving DecidableEq

inductive Setting where
  | mode | output
deriving DecidableEq

inductive OptionName where
  | flag (f : Flag)
  | setting (s : Setting)

def longOption? : String → Option OptionName
  | "--mode" => some (.setting .mode)
  | "--output" => some (.setting .output)
  | "--inheritance" => some (.flag .inheritance)
  | "--field-types" => some (.flag .fieldTypes)
  | "--verbose" => some (.flag .verbose)
  | "--quiet" => some (.flag .quiet)
  | "--help" => some (.flag .help)
  | _ => none

def shortOption? : Char → Option OptionName
  | 'o' => some (.setting .output)
  | 'v' => some (.flag .verbose)
  | 'q' => some (.flag .quiet)
  | _ => none

structure Request where
  flags : List Flag := []
  setting : Option (Setting × Option String) := none

inductive Word where
  | root (s : String)
  | endOfOptions
  | request (r : Request)
  | invalid

def readShort (flags : List Flag) : List Char → Option Request
  | [] => some { flags }
  | c :: cs =>
    match shortOption? c with
    | some (.flag f) => readShort (flags ++ [f]) cs
    | some (.setting s) =>
      some { flags, setting := some (s, if cs.isEmpty then none else some (String.ofList cs)) }
    | none => none

def cutValue (cs : List Char) : String × Option String :=
  let name := cs.takeWhile (· != '=')
  (String.ofList name, match cs.dropWhile (· != '=') with
    | [] => none
    | _ :: value => some (String.ofList value))

def readOption (cs : List Char) : Option Request :=
  let (name, value) := cutValue cs
  match longOption? name, value with
  | some (.setting s), value => some { setting := some (s, value) }
  | some (.flag f), none => some { flags := [f] }
  | some (.flag _), some _ => none
  | none, _ =>
    match cs with
    | '-' :: '-' :: _ => none
    | _ => readShort [] cs.tail

def readWord (s : String) : Word :=
  match s.toList with
  | ['-', '-'] => .endOfOptions
  | '-' :: c :: cs =>
    match readOption ('-' :: c :: cs) with
    | some r => .request r
    | none => .invalid
  | _ => .root s

structure Options where
  roots : List String := []
  mode : Option String := none
  output : Option String := none
  flags : List Flag := []

namespace Options

def addFlags (o : Options) (flags : List Flag) : Options := { o with flags := o.flags ++ flags }

def addRoots (o : Options) (roots : List String) : Options := { o with roots := o.roots ++ roots }

def set (o : Options) (s : Setting) (value : String) : Options :=
  match s with
  | .mode => { o with mode := some value }
  | .output => { o with output := some value }

def has (o : Options) (f : Flag) : Bool := o.flags.contains f

def readFrom (o : Options) : List String → Option Options
  | [] => some o
  | w :: ws =>
    match readWord w with
    | .root s => readFrom (o.addRoots [s]) ws
    | .endOfOptions => some (o.addRoots ws)
    | .invalid => none
    | .request r =>
      match r.setting, ws with
      | none, ws => readFrom (o.addFlags r.flags) ws
      | some (s, some value), ws => readFrom ((o.addFlags r.flags).set s value) ws
      | some (s, none), value :: rest => readFrom ((o.addFlags r.flags).set s value) rest
      | some (_, none), [] => none

def read? (words : List String) : Option Options := readFrom {} words

end Options

inductive Order where
  | help
  | run (mode : Mode) (roots : List String) (output : Option String) (level : Option Level)

/-- The mode that options select; the two shorthands exclude each other and win over the option. -/
def selectMode (o : Options) : Option Mode := do
  let mode ← match o.mode with
    | none => some .dependencies
    | some label => Mode.ofLabel? label
  match o.has .inheritance, o.has .fieldTypes with
  | true, true => none
  | true, false => some .inheritance
  | false, true => some .fieldTypes
  | false, false => some mode

def logLevel (o : Options) : Option Level :=
  if o.has .verbose then none else if o.has .quiet then some .error else some .warning

def Options.paths (o : Options) : List String := o.roots ++ o.output.toList

/-- What the words ask for. Help comes before all else; a word for a file may not hold a zero
character. -/
def order? (words : List String) : Option Order := do
  let o ← Options.read? words
  if o.has .help then return .help
  else if o.roots.isEmpty || o.paths.any fun s => s.toList.contains '\x00' then none
  else return .run (← selectMode o) o.roots o.output (logLevel o)

end RefGraph.Command

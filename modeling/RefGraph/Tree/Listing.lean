import RefGraph.Text.Split
import RefGraph.Tree

set_option autoImplicit false

namespace RefGraph.Tree

structure Entry where
  kind : String
  named : Bool
  missing : Bool
  start : Nat
  stop : Nat
  count : Nat
  role : Option String
deriving DecidableEq

private def cutMark (mark : Char) (s : List Char) : Bool × List Char :=
  match s with
  | c :: cs => if c = mark then (true, cs) else (false, s)
  | [] => (false, [])

private def number? (s : String) : Option Nat :=
  let digits := s.toList
  if digits.isEmpty || !digits.all Char.isDigit then none
  else some (digits.foldl (fun n c => 10 * n + (c.toNat - '0'.toNat)) 0)

def Entry.ofLine? (line : String) : Option Entry :=
  match Text.split ' ' line with
  | label :: start :: stop :: more => do
    let (missing, label) := cutMark '?' label.toList
    let (unnamed, label) := cutMark '\'' label
    return {
      kind := String.ofList label
      named := !unnamed
      missing
      start := ← number? start
      stop := ← number? stop
      count := (more[0]?.bind number?).getD 0
      role := more[1]? }
  | _ => none

def lineFeeds (offset : Nat) : List Char → List Nat
  | [] => []
  | c :: cs =>
    let later := lineFeeds (offset + c.utf8Size) cs
    if c = '\n' then offset :: later else later

def lineAt (feeds : List Nat) (offset : Nat) : Nat := feeds.countP (· < offset) + 1

def Entry.toTree (source : String) (feeds : List Nat) (e : Entry) (children : List Tree) :
    Tree where
  kind := e.kind
  named := e.named
  missing := e.missing
  start := e.start
  stop := e.stop
  line := lineAt feeds e.start
  text := String.Pos.Raw.extract source ⟨e.start⟩ ⟨e.stop⟩
  role := e.role
  children := children

/-- Reads entries from the last to the first: the trees read so far begin with the children of the
next. -/
def ofEntries (source : String) (entries : List Entry) : List Tree :=
  let feeds := lineFeeds 0 source.toList
  entries.foldr (fun e later => e.toTree source feeds (later.take e.count) :: later.drop e.count) []

def ofListing? (source listing : String) : Option Tree := do
  let entries ← (Text.split '\n' listing).mapM Entry.ofLine?
  match ofEntries source entries with
  | [root] => some root
  | _ => none

end RefGraph.Tree

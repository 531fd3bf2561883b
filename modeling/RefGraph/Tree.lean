set_option autoImplicit false

namespace RefGraph

structure Tree where
  kind : String
  named : Bool := true
  missing : Bool := false
  start : Nat := 0
  stop : Nat := 0
  line : Nat := 1
  text : String := ""
  role : Option String := none
  children : List Tree := []
deriving Inhabited

structure NodeKey where
  start : Nat
  stop : Nat
  kind : String
deriving DecidableEq, Inhabited

namespace Tree

def key (t : Tree) : NodeKey := ⟨t.start, t.stop, t.kind⟩

def is (t : Tree) (kinds : List String) : Bool := kinds.contains t.kind

def namedChildren (t : Tree) : List Tree := t.children.filter (·.named)

def child? (t : Tree) (role : String) : Option Tree := t.children.find? (·.role == some role)

def childrenIn (t : Tree) (role : String) : List Tree := t.children.filter (·.role == some role)

def childOf? (t : Tree) (kinds : List String) : Option Tree := t.children.find? (·.is kinds)

def childText? (t : Tree) (role : String) : Option String := (t.child? role).map (·.text)

mutual
def size : Tree → Nat
  | { children, .. } => sizeAll children + 1

def sizeAll : List Tree → Nat
  | [] => 0
  | t :: ts => size t + sizeAll ts
end

mutual
def fault? : Tree → Option Tree
  | t@{ children, .. } => if t.kind == "ERROR" || t.missing then some t else faultAll? children

def faultAll? : List Tree → Option Tree
  | [] => none
  | t :: ts => (fault? t).orElse fun _ => faultAll? ts
end

mutual
def withParents (parent : Option Tree) : Tree → List (Tree × Option Tree)
  | t@{ children, .. } => (t, parent) :: withParentsAll (some t) children

def withParentsAll (parent : Option Tree) : List Tree → List (Tree × Option Tree)
  | [] => []
  | t :: ts => withParents parent t ++ withParentsAll parent ts
end

theorem child?_mem {t c : Tree} {role : String} (h : t.child? role = some c) : c ∈ t.children :=
  List.mem_of_find?_eq_some h

theorem childOf?_mem {t c : Tree} {kinds : List String} (h : t.childOf? kinds = some c) :
    c ∈ t.children :=
  List.mem_of_find?_eq_some h

end Tree

end RefGraph

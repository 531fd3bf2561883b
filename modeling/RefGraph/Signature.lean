import RefGraph.Declaration

set_option autoImplicit false

namespace RefGraph

inductive MemberKind where
  | method | field | constructor
deriving DecidableEq, Inhabited

namespace MemberKind

def tag : MemberKind → String
  | .method => "MT"
  | .field => "FE"
  | .constructor => "CS"

def all : List MemberKind := [.method, .field, .constructor]

def ofTag? (s : String) : Option MemberKind := all.find? fun k => k.tag == s

end MemberKind

structure Descriptor where
  kind : MemberKind
  name : String
  params : Option (List String) := none
deriving DecidableEq, Inhabited

def Descriptor.text (d : Descriptor) : String :=
  match d.params with
  | none => d.name
  | some params => d.name ++ "(" ++ ",".intercalate params ++ ")"

namespace Member

/-- How a member is referred to; a method named like its type is written as a constructor. -/
def descriptor (owner : String) : Member → Descriptor
  | .method m =>
    { kind := if m.name = owner then .constructor else .method
      name := m.name
      params := some (rawTypes m.params) }
  | .constructor c => { kind := .constructor, name := c.name, params := some (rawTypes c.params) }
  | .field f => { kind := .field, name := f.name }

private def tagged (key owner : String) (d : Descriptor) : String :=
  key ++ owner ++ "/[" ++ d.kind.tag ++ "]/" ++ d.text

def signature (key owner : String) : Member → String
  | .method m =>
    tagged key owner { kind := .method, name := m.name, params := some (rawTypes m.params) }
  | .constructor c =>
    tagged key c.name { kind := .constructor, name := c.name, params := some (rawTypes c.params) }
  | .field f => tagged key owner { kind := .field, name := f.name }

end Member

end RefGraph

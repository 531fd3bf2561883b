import RefGraph.Tree
import RefGraph.TypeRef

set_option autoImplicit false

namespace RefGraph

/-- A variable without a written type takes the type of its initializer, or of the elements of it.
-/
structure LocalVar where
  id : Nat := 0
  name : String
  type : Option TypeRef := none
  initializer : Option Tree := none
  iterated : Bool := false
deriving Inhabited

structure Frame (τ : Type) where
  vars : List LocalVar := []
  types : List (String × τ) := []

structure Scope (τ : Type) where
  frames : List (Frame τ) := []

namespace Scope

variable {τ : Type}

instance : Inhabited (Scope τ) := ⟨{}⟩

def depth (s : Scope τ) : Nat := s.frames.length

def push (s : Scope τ) : Scope τ := ⟨{} :: s.frames⟩

def pop (s : Scope τ) : Scope τ := ⟨s.frames.tail⟩

def update (f : Frame τ → Frame τ) (s : Scope τ) : Scope τ :=
  match s.frames with
  | [] => ⟨[f {}]⟩
  | frame :: outer => ⟨f frame :: outer⟩

def declare (s : Scope τ) (v : LocalVar) : Scope τ :=
  s.update fun frame => { frame with vars := v :: frame.vars }

def declareType (s : Scope τ) (name : String) (t : τ) : Scope τ :=
  s.update fun frame => { frame with types := (name, t) :: frame.types }

def var? (s : Scope τ) (name : String) : Option LocalVar :=
  s.frames.findSome? fun frame => frame.vars.find? (·.name == name)

def type? (s : Scope τ) (name : String) : Option τ :=
  s.frames.findSome? fun frame => (frame.types.find? (·.1 == name)).map (·.2)

@[simp] theorem pop_push (s : Scope τ) : s.push.pop = s := rfl

@[simp] theorem depth_push (s : Scope τ) : s.push.depth = s.depth + 1 := rfl

end Scope

end RefGraph

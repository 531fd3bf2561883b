set_option autoImplicit false

namespace RefGraph

structure Bindings (α : Type) where
  entries : List (String × α) := []

namespace Bindings

variable {α : Type}

instance : Inhabited (Bindings α) := ⟨{}⟩

def get? (b : Bindings α) (name : String) : Option α :=
  (b.entries.find? fun e => e.1 == name).map (·.2)

def set (b : Bindings α) (name : String) (a : α) : Bindings α :=
  ⟨(name, a) :: b.entries.filter fun e => e.1 != name⟩

def setAll (b : Bindings α) (entries : List (String × α)) : Bindings α :=
  entries.foldl (fun b e => b.set e.1 e.2) b

def ofList (entries : List (String × α)) : Bindings α := setAll {} entries

def merge (b c : Bindings α) : Bindings α := b.setAll c.entries.reverse

def isEmpty (b : Bindings α) : Bool := b.entries.isEmpty

def names (b : Bindings α) : List String := b.entries.map (·.1)

def sorted (b : Bindings α) : List (String × α) :=
  b.entries.mergeSort fun x y => x.1 < y.1 || x.1 == y.1

@[simp] theorem get?_empty (name : String) : ({} : Bindings α).get? name = none := rfl

@[simp] theorem get?_set_self (b : Bindings α) (name : String) (a : α) :
    (b.set name a).get? name = some a := by
  simp [get?, set]

theorem get?_set_of_ne (b : Bindings α) {name other : String} (a : α) (h : other ≠ name) :
    (b.set name a).get? other = b.get? other := by
  have hn : (name == other) = false := by simp [Ne.symm h]
  simp only [get?, set, List.find?_cons, hn]
  congr 1
  induction b.entries with
  | nil => rfl
  | cons e es ih =>
    by_cases he : e.1 = name
    · have hne : (e.1 == other) = false := by simp [he, Ne.symm h]
      simp [he, hn, ih]
    · by_cases ho : e.1 = other
      · simp [ho, h]
      · simp [he, ho, ih]

end Bindings

end RefGraph

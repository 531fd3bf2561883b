import RefGraph.Name
import Std.Data.TreeMap.Lemmas

set_option autoImplicit false

namespace RefGraph

variable {α : Type}

def byLast (name : α → Name) (entries : List α) : Std.TreeMap String (List α) :=
  entries.foldr (fun a index => index.alter (name a).last fun as => some (a :: as.getD [])) ∅

structure NameTable (name : α → Name) where
  entries : List α := []
  index : Std.TreeMap String (List α) := byLast name entries
  index_eq : index = byLast name entries := by rfl

namespace NameTable

variable {name : α → Name}

instance : Inhabited (NameTable name) := ⟨{}⟩

def ofList (entries : List α) : NameTable name := { entries }

def find? (t : NameTable name) (n : Name) : Option α :=
  (t.index.getD n.last []).find? fun a => name a == n

def contains (t : NameTable name) (n : Name) : Bool := (t.find? n).isSome

def size (t : NameTable name) : Nat := (t.entries.map name).eraseDups.length

theorem getD_byLast (entries : List α) (s : String) :
    (byLast name entries).getD s [] = entries.filter fun a => (name a).last == s := by
  induction entries with
  | nil => simp [byLast]
  | cons a as ih =>
    rw [byLast, List.foldr_cons, ← byLast, Std.TreeMap.getD_alter]
    by_cases h : (name a).last = s
    · subst h
      simp [← Std.TreeMap.getD_eq_getD_getElem?, ih]
    · simp [h, ih]

theorem find?_eq (t : NameTable name) (n : Name) :
    t.find? n = t.entries.find? fun a => name a == n := by
  simp only [find?, t.index_eq, getD_byLast, List.find?_filter]
  congr 1
  funext a
  by_cases h : name a = n <;> simp [h]

theorem name_of_find? {t : NameTable name} {n : Name} {a : α} (h : t.find? n = some a) :
    name a = n := by
  rw [find?_eq] at h
  simpa using List.find?_some h

end NameTable

end RefGraph

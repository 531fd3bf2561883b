import RefGraph.Bindings
import RefGraph.Declaration
import RefGraph.Placeholder

set_option autoImplicit false

namespace RefGraph

inductive Decl where
  | corpus (id : TypeId)
  | library (name : Name)
  | placeholder (p : Placeholder)
deriving DecidableEq, Inhabited

inductive RType where
  | ref (decl : Decl) (args : List RType)
  | prim (p : Primitive)
  | array (component : RType)
  | unbounded
  | bounded (variance : Variance) (bound : RType)
  | var (name : String) (bounds : List RType)
  | null
deriving Inhabited

structure ClassType where
  decl : Decl
  args : List RType := []
deriving Inhabited

def ClassType.toType (c : ClassType) : RType := .ref c.decl c.args

namespace RType

def arrays : Nat → RType → RType
  | 0, t => t
  | n + 1, t => arrays n (.array t)

def isArray : RType → Bool
  | .array _ => true
  | _ => false

mutual
def same : RType → RType → Bool
  | .ref d as, .ref e bs => d == e && sameAll as bs
  | .prim p, .prim q => p == q
  | .array a, .array b => same a b
  | .unbounded, .unbounded => true
  | .bounded v a, .bounded w b => v == w && same a b
  | .var n as, .var m bs => n == m && sameAll as bs
  | .null, .null => true
  | _, _ => false

def sameAll : List RType → List RType → Bool
  | [], [] => true
  | a :: as, b :: bs => same a b && sameAll as bs
  | _, _ => false
end

mutual
theorem same_self : (a : RType) → same a a = true
  | .ref d as => by simp [same, sameAll_self as]
  | .prim p => by simp [same]
  | .array a => by simp [same, same_self a]
  | .unbounded => by simp [same]
  | .bounded v a => by simp [same, same_self a]
  | .var n as => by simp [same, sameAll_self as]
  | .null => by simp [same]

theorem sameAll_self : (as : List RType) → sameAll as as = true
  | [] => by simp [sameAll]
  | a :: as => by simp [sameAll, same_self a, sameAll_self as]
end

mutual
theorem eq_of_same : (a b : RType) → same a b = true → a = b
  | .ref d as, b, h => by
    cases b with
    | ref e bs =>
      simp only [same, Bool.and_eq_true, beq_iff_eq] at h
      rw [h.1, eq_of_sameAll as bs h.2]
    | _ => simp [same] at h
  | .prim p, b, h => by
    cases b with
    | prim q => simp only [same, beq_iff_eq] at h; rw [h]
    | _ => simp [same] at h
  | .array a, b, h => by
    cases b with
    | array b => simp only [same] at h; rw [eq_of_same a b h]
    | _ => simp [same] at h
  | .unbounded, b, h => by
    cases b with
    | unbounded => rfl
    | _ => simp [same] at h
  | .bounded v a, b, h => by
    cases b with
    | bounded w b =>
      simp only [same, Bool.and_eq_true, beq_iff_eq] at h
      rw [h.1, eq_of_same a b h.2]
    | _ => simp [same] at h
  | .var n as, b, h => by
    cases b with
    | var m bs =>
      simp only [same, Bool.and_eq_true, beq_iff_eq] at h
      rw [h.1, eq_of_sameAll as bs h.2]
    | _ => simp [same] at h
  | .null, b, h => by
    cases b with
    | null => rfl
    | _ => simp [same] at h

theorem eq_of_sameAll : (as bs : List RType) → sameAll as bs = true → as = bs
  | [], bs, h => by
    cases bs with
    | nil => rfl
    | cons b bs => simp [sameAll] at h
  | a :: as, bs, h => by
    cases bs with
    | nil => simp [sameAll] at h
    | cons b bs =>
      simp only [sameAll, Bool.and_eq_true] at h
      rw [eq_of_same a b h.1, eq_of_sameAll as bs h.2]
end

theorem same_iff {a b : RType} : same a b = true ↔ a = b :=
  ⟨eq_of_same a b, fun h => h ▸ same_self a⟩

instance : DecidableEq RType := fun _ _ => decidable_of_iff _ same_iff

end RType

deriving instance DecidableEq for ClassType

end RefGraph

import RefGraph.Hierarchy

set_option autoImplicit false

namespace RefGraph

/-- A map of types that replaces declarations and may replace type variables, at any depth. -/
structure RType.GoesThrough (f : RType → RType) (g : Decl → Decl) : Prop where
  ref : ∀ d args, f (.ref d args) = .ref (g d) (args.map f)
  prim : ∀ p, f (.prim p) = .prim p
  array : ∀ t, f (.array t) = .array (f t)
  unbounded : f .unbounded = .unbounded
  bounded : ∀ v t, f (.bounded v t) = .bounded v (f t)

theorem RType.GoesThrough.arrays {f : RType → RType} {g : Decl → Decl} (through : GoesThrough f g)
    (n : Nat) (t : RType) : f (RType.arrays n t) = RType.arrays n (f t) := by
  induction n generalizing t with
  | zero => rfl
  | succ n ih => rw [RType.arrays, ih, through.array, RType.arrays]

namespace Reading

structure Mapped (f : RType → RType) (g : Decl → Decl) (r r' : Reading) : Prop where
  known : ∀ name, r'.known name = (r.known name).map f
  find : ∀ n, r'.find n = (r.find n).map g

variable {f : RType → RType} {g : Decl → Decl} {r r' : Reading}

mutual
theorem Mapped.resolve (mapped : Mapped f g r r') (through : RType.GoesThrough f g) :
    (t : TypeRef) → r'.resolve t = (r.resolve t).map f
  | { head := .primitive p, args, dims } => by
    rw [Reading.resolve, Reading.resolve, Except.map, through.arrays, through.prim]
  | { head := .named n, args, dims } => by
    have known : (if n.isQualified then none else r'.known n.first) =
        (if n.isQualified then none else r.known n.first).map f := by
      split
      · rfl
      · exact mapped.known n.first
    rw [Reading.resolve, Reading.resolve, known, mapped.find, mapped.resolveArgs through args]
    cases if n.isQualified then none else r.known n.first with
    | some t => simp [Except.map, through.arrays]
    | none => cases r.find n <;> simp [Except.map, through.arrays, through.ref]

theorem Mapped.resolveArg (mapped : Mapped f g r r') (through : RType.GoesThrough f g) :
    (a : Arg TypeRef) → r'.resolveArg a = f (r.resolveArg a)
  | .type t => by
    rw [Reading.resolveArg, Reading.resolveArg, mapped.resolve through t]
    cases r.resolve t <;> simp [Except.map, Except.toOption, through.unbounded]
  | .unbounded => by rw [Reading.resolveArg, Reading.resolveArg, through.unbounded]
  | .bounded v t => by
    rw [Reading.resolveArg, Reading.resolveArg, mapped.resolve through t]
    cases r.resolve t <;> simp [Except.map, Except.toOption, through.unbounded, through.bounded]

theorem Mapped.resolveArgs (mapped : Mapped f g r r') (through : RType.GoesThrough f g) :
    (as : List (Arg TypeRef)) → r'.resolveArgs as = (r.resolveArgs as).map f
  | [] => by rw [Reading.resolveArgs, Reading.resolveArgs, List.map_nil]
  | a :: as => by
    rw [Reading.resolveArgs, Reading.resolveArgs, mapped.resolveArg through a,
      mapped.resolveArgs through as, List.map_cons]
end

end Reading

end RefGraph

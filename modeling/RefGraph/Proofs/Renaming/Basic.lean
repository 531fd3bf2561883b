import RefGraph.World

set_option autoImplicit false

namespace RefGraph

theorem contains_map {α β : Type} [BEq α] [LawfulBEq α] [BEq β] [LawfulBEq β] {f : α → β}
    (injective : Function.Injective f) (xs : List α) (x : α) :
    (xs.map f).contains (f x) = xs.contains x := by
  apply Bool.eq_iff_iff.2
  simp only [List.contains_iff_mem, List.mem_map]
  constructor
  · rintro ⟨y, listed, same⟩
    exact injective same ▸ listed
  · intro listed
    exact ⟨x, listed, rfl⟩

theorem findSome?_rename {α β γ δ : Type} {f : α → β} {g : γ → δ} (xs : List α) {p : α → Option γ}
    {q : β → Option δ} (each : ∀ x ∈ xs, q (f x) = (p x).map g) :
    (xs.map f).findSome? q = (xs.findSome? p).map g := by
  induction xs with
  | nil => rfl
  | cons x xs ih =>
    have rest := ih fun y listed => each y (List.mem_cons_of_mem _ listed)
    rw [List.map_cons, List.findSome?_cons, List.findSome?_cons, each x List.mem_cons_self, rest]
    cases p x <;> rfl

variable (σ : Nat → Nat)

def TypeId.rename (t : TypeId) : TypeId := ⟨σ t.unit, t.index⟩

@[simp] theorem TypeId.unit_rename (t : TypeId) : (t.rename σ).unit = σ t.unit := rfl

@[simp] theorem TypeId.index_rename (t : TypeId) : (t.rename σ).index = t.index := rfl

theorem TypeId.rename_injective {σ : Nat → Nat} (injective : Function.Injective σ) :
    Function.Injective (TypeId.rename σ) := by
  rintro ⟨unit, index⟩ ⟨unit', index'⟩ same
  simp only [rename, TypeId.mk.injEq] at same
  rw [injective same.1, same.2]

def MemberOf.rename (m : MemberOf) : MemberOf := ⟨m.owner.rename σ, m.member⟩

def Frame.rename (f : Frame TypeId) : Frame TypeId :=
  { f with types := f.types.map fun e => (e.1, e.2.rename σ) }

def Scope.rename (s : Scope TypeId) : Scope TypeId := ⟨s.frames.map (Frame.rename σ)⟩

def Context.rename (ctx : Context) : Context where
  unit := σ ctx.unit
  enclosing := ctx.enclosing.map (TypeId.rename σ)
  member := ctx.member.map (MemberOf.rename σ)
  scope := ctx.scope.rename σ
  typeParams := ctx.typeParams

@[simp] theorem Context.enclosing_rename (ctx : Context) :
    (ctx.rename σ).enclosing = ctx.enclosing.map (TypeId.rename σ) := rfl

@[simp] theorem Context.scope_rename (ctx : Context) :
    (ctx.rename σ).scope = ctx.scope.rename σ := rfl

def Decl.rename : Decl → Decl
  | .corpus id => .corpus (id.rename σ)
  | d => d

theorem Decl.rename_injective {σ : Nat → Nat} (injective : Function.Injective σ) :
    Function.Injective (Decl.rename σ) := by
  intro d e same
  cases d <;> cases e <;> simp_all [rename]
  exact TypeId.rename_injective injective same

namespace RType

mutual
def rename : RType → RType
  | .ref d args => .ref (d.rename σ) (renameAll args)
  | .prim p => .prim p
  | .array c => .array (rename c)
  | .unbounded => .unbounded
  | .bounded v b => .bounded v (rename b)
  | .var n bounds => .var n (renameAll bounds)
  | .null => .null

def renameAll : List RType → List RType
  | [] => []
  | t :: ts => rename t :: renameAll ts
end

theorem renameAll_eq (ts : List RType) : renameAll σ ts = ts.map (rename σ) := by
  induction ts with
  | nil => rfl
  | cons t ts ih => rw [renameAll, ih, List.map_cons]

@[simp] theorem rename_ref (d : Decl) (args : List RType) :
    rename σ (.ref d args) = .ref (d.rename σ) (args.map (rename σ)) := by
  rw [rename, renameAll_eq]

@[simp] theorem rename_var (n : String) (bounds : List RType) :
    rename σ (.var n bounds) = .var n (bounds.map (rename σ)) := by
  rw [rename, renameAll_eq]

@[simp] theorem rename_prim (p : Primitive) : rename σ (.prim p) = .prim p := by rw [rename]

@[simp] theorem rename_array (t : RType) : rename σ (.array t) = .array (t.rename σ) := by
  rw [rename]

@[simp] theorem rename_unbounded : rename σ .unbounded = .unbounded := by rw [rename]

@[simp] theorem rename_bounded (v : Variance) (t : RType) :
    rename σ (.bounded v t) = .bounded v (t.rename σ) := by rw [rename]

@[simp] theorem rename_null : rename σ .null = .null := by rw [rename]

-- Induction through type arguments and bounds.
theorem induction {motive : RType → Prop}
    (ref : ∀ d args, (∀ a ∈ args, motive a) → motive (.ref d args))
    (prim : ∀ p, motive (.prim p)) (array : ∀ c, motive c → motive (.array c))
    (unbounded : motive .unbounded) (bounded : ∀ v b, motive b → motive (.bounded v b))
    (var : ∀ n bounds, (∀ b ∈ bounds, motive b) → motive (.var n bounds)) (null : motive .null)
    (t : RType) : motive t := by
  refine @RType.rec motive (fun ts => ∀ t ∈ ts, motive t) ref prim array unbounded bounded var
    null ?_ ?_ t
  · simp
  · intro t ts here rest u listed
    rcases List.mem_cons.1 listed with rfl | later
    · exact here
    · exact rest u later

theorem map_injective_of_mem {f : RType → RType} {ts us : List RType}
    (each : ∀ t ∈ ts, ∀ ⦃u⦄, f t = f u → t = u) (same : ts.map f = us.map f) : ts = us := by
  induction ts generalizing us with
  | nil => simpa using same.symm
  | cons t ts ih =>
    cases us with
    | nil => simp at same
    | cons u us =>
      obtain ⟨head, tail⟩ := List.cons.inj same
      rw [each t List.mem_cons_self head,
        ih (fun v listed => each v (List.mem_cons_of_mem _ listed)) tail]

theorem rename_injective {σ : Nat → Nat} (injective : Function.Injective σ) :
    Function.Injective (rename σ) := by
  intro t
  induction t using RType.induction with
  | ref d args ih =>
    intro u same
    cases u <;> simp only [rename_ref, rename_prim, rename_array, rename_unbounded, rename_bounded,
      rename_var, rename_null, RType.ref.injEq, reduceCtorEq] at same
    rw [Decl.rename_injective injective same.1, map_injective_of_mem ih same.2]
  | prim p => intro u same; cases u <;> simp_all
  | array c ih =>
    intro u same
    cases u <;> simp only [rename_ref, rename_prim, rename_array, rename_unbounded, rename_bounded,
      rename_var, rename_null, RType.array.injEq, reduceCtorEq] at same
    rw [ih same]
  | unbounded => intro u same; cases u <;> simp_all
  | bounded v b ih =>
    intro u same
    cases u <;> simp only [rename_ref, rename_prim, rename_array, rename_unbounded, rename_bounded,
      rename_var, rename_null, RType.bounded.injEq, reduceCtorEq] at same
    rw [same.1, ih same.2]
  | var n bounds ih =>
    intro u same
    cases u <;> simp only [rename_ref, rename_prim, rename_array, rename_unbounded, rename_bounded,
      rename_var, rename_null, RType.var.injEq, reduceCtorEq] at same
    rw [same.1, map_injective_of_mem ih same.2]
  | null => intro u same; cases u <;> simp_all

end RType

def ClassType.rename (c : ClassType) : ClassType := ⟨c.decl.rename σ, c.args.map (RType.rename σ)⟩

@[simp] theorem ClassType.decl_rename (c : ClassType) : (c.rename σ).decl = c.decl.rename σ := rfl

@[simp] theorem ClassType.toType_rename (c : ClassType) :
    (c.rename σ).toType = c.toType.rename σ := by
  simp [toType, rename]

theorem ClassType.rename_injective {σ : Nat → Nat} (injective : Function.Injective σ) :
    Function.Injective (ClassType.rename σ) := by
  rintro ⟨d, args⟩ ⟨e, more⟩ same
  simp only [rename, ClassType.mk.injEq] at same
  have each (t : RType) (_ : t ∈ args) : ∀ ⦃u⦄, t.rename σ = u.rename σ → t = u :=
    fun u => @RType.rename_injective σ injective t u
  rw [Decl.rename_injective injective same.1, RType.map_injective_of_mem each same.2]

namespace Bindings

variable {α β : Type}

def map (f : α → β) (b : Bindings α) : Bindings β := ⟨b.entries.map fun e => (e.1, f e.2)⟩

@[simp] theorem get?_map (f : α → β) (b : Bindings α) (name : String) :
    (b.map f).get? name = (b.get? name).map f := by
  simp [get?, map, List.find?_map, Function.comp_def]

@[simp] theorem map_empty (f : α → β) : ({} : Bindings α).map f = {} := rfl

@[simp] theorem map_set (f : α → β) (b : Bindings α) (name : String) (a : α) :
    (b.set name a).map f = (b.map f).set name (f a) := by
  simp [set, map, List.filter_map, Function.comp_def]

@[simp] theorem map_setAll (f : α → β) (b : Bindings α) (entries : List (String × α)) :
    (b.setAll entries).map f = (b.map f).setAll (entries.map fun e => (e.1, f e.2)) := by
  induction entries generalizing b with
  | nil => rfl
  | cons e es ih => simpa [setAll] using ih (b.set e.1 e.2)

@[simp] theorem map_ofList (f : α → β) (entries : List (String × α)) :
    (ofList entries).map f = ofList (entries.map fun e => (e.1, f e.2)) := by
  simp [ofList]

@[simp] theorem map_merge (f : α → β) (b c : Bindings α) :
    (b.merge c).map f = (b.map f).merge (c.map f) := by
  rw [merge, map_setAll, List.map_reverse]
  rfl

@[simp] theorem isEmpty_map (f : α → β) (b : Bindings α) : (b.map f).isEmpty = b.isEmpty := by
  simp [isEmpty, map]

end Bindings

namespace Scope

@[simp] theorem var?_rename (s : Scope TypeId) (name : String) :
    (s.rename σ).var? name = s.var? name := by
  simp [var?, rename, List.findSome?_map, Function.comp_def, Frame.rename]

@[simp] theorem type?_rename (s : Scope TypeId) (name : String) :
    (s.rename σ).type? name = (s.type? name).map (TypeId.rename σ) := by
  refine findSome?_rename s.frames fun frame _ => ?_
  simp [Frame.rename, List.find?_map, Function.comp_def]

@[simp] theorem rename_empty : ({} : Scope TypeId).rename σ = {} := rfl

end Scope

@[simp] theorem TypeId.rename_id : TypeId.rename id = id := rfl

@[simp] theorem MemberOf.rename_id : MemberOf.rename id = id := rfl

@[simp] theorem Scope.rename_id (s : Scope TypeId) : s.rename id = s := by
  have same : Frame.rename id = id := by
    funext frame
    simp [Frame.rename]
  simp [rename, same]

@[simp] theorem Context.rename_id : Context.rename id = id := by
  funext ctx
  simp [rename]

@[simp] theorem Decl.rename_id : Decl.rename id = id := by
  funext d
  cases d <;> rfl

@[simp] theorem RType.rename_id : RType.rename id = id := by
  funext t
  induction t using RType.induction with
  | ref d args ih => simp [List.map_congr_left ih]
  | var n bounds ih => simp [List.map_congr_left ih]
  | array c ih => simp [ih]
  | bounded v b ih => simp [ih]
  | prim | unbounded | null => simp

@[simp] theorem ClassType.rename_id : ClassType.rename id = id := by
  funext c
  simp [rename]

end RefGraph

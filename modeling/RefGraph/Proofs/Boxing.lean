import RefGraph.Inference
import RefGraph.Library.Standard
import RefGraph.Proofs.Makers
import RefGraph.Proofs.OverloadRule
import RefGraph.Proofs.Renaming.Members
import RefGraph.Proofs.SupertypeSearch

set_option autoImplicit false

namespace RefGraph

theorem filterM_congr {α : Type} {p q : α → Except Failure Bool} {xs : List α}
    (same : ∀ x ∈ xs, p x = q x) :
    xs.filterM p = xs.filterM q := by
  have collect (kept : List α) : xs.filterAuxM p kept = xs.filterAuxM q kept := by
    induction xs generalizing kept with
    | nil => rfl
    | cons x xs ih =>
      rw [List.filterAuxM, List.filterAuxM, same x List.mem_cons_self]
      simp only [ih fun y listed => same y (List.mem_cons_of_mem _ listed)]
  rw [List.filterM, List.filterM, collect]

def numberName : Name := ⟨"java", ["lang", "Number"]⟩

def comparableName : Name := ⟨"java", ["lang", "Comparable"]⟩

namespace Primitive

def boxSupers : Primitive → List Name
  | .boolean | .char => [comparableName]
  | .byte | .short | .float => [numberName]
  | .int | .long | .double => [numberName, comparableName]
  | .void => []

/-- The classes that every boxed value counts as, though they are not above this box. -/
def surplus (p : Primitive) : List Name := boxSupertypes.filter fun n => n ∉ topName :: p.boxSupers

theorem mem_surplus {p : Primitive} {n : Name} :
    n ∈ p.surplus ↔ n ∈ boxSupertypes ∧ n ∉ topName :: p.boxSupers := by
  simp [surplus]

theorem mem_boxSupertypes {p : Primitive} {n : Name} :
    n ∈ boxSupertypes ↔ n ∈ topName :: p.boxSupers ∨ n ∈ p.surplus := by
  have below : topName :: p.boxSupers ⊆ boxSupertypes := by cases p <;> decide
  rw [mem_surplus]
  constructor
  · intro listed
    by_cases above : n ∈ topName :: p.boxSupers
    · exact .inl above
    · exact .inr ⟨listed, above⟩
  · rintro (above | ⟨listed, -⟩)
    · exact below above
    · exact listed

theorem ofBox?_box {p : Primitive} {n : Name} (boxes : p.box? = some n) : ofBox? n = some p := by
  cases p <;> cases boxes <;> decide

theorem box_notMem_boxSupertypes {p : Primitive} {n : Name} (boxes : p.box? = some n) :
    n ∉ boxSupertypes := by
  cases p <;> cases boxes <;> decide

theorem isQualified_box {p : Primitive} {n : Name} (boxes : p.box? = some n) :
    n.isQualified = true := by
  cases p <;> cases boxes <;> rfl

theorem boxSupers_ne_nil {p : Primitive} {n : Name} (boxes : p.box? = some n) :
    p.boxSupers ≠ [] := by
  cases p <;> cases boxes <;> simp [boxSupers]

theorem eq_of_mem_boxSupers {p : Primitive} {n : Name} (above : n ∈ p.boxSupers) :
    n = numberName ∨ n = comparableName := by
  cases p <;> simp_all [boxSupers]

end Primitive

structure LibraryType.Writes (t : LibraryType) (supers : List Name) : Prop where
  names : t.supertypes.map (·.name) = supers
  classes : ∀ r ∈ t.supertypes, r.isClassOrInterface = true ∧ r.isQualified = true

instance (t : LibraryType) (supers : List Name) : Decidable (t.Writes supers) :=
  decidable_of_iff (_ ∧ _) ⟨fun h => ⟨h.1, h.2⟩, fun h => ⟨h.names, h.classes⟩⟩

namespace Library

/-- A library that has all types of another, and tells the same of them. -/
def Extends (l base : Library) : Prop := ∀ n t, base.find? n = some t → l.find? n = some t

def boxHierarchy : List (Name × List Name) :=
  [(topName, []), (numberName, []), (comparableName, [])] ++
    Primitive.all.filterMap fun p => p.box?.map (·, p.boxSupers)

theorem writes_standard :
    ∀ e ∈ boxHierarchy, (standardTypes.find? fun t => t.name == e.1).any
      (fun t => decide (t.Writes e.2)) = true := by
  decide +kernel

variable {l : Library} (more : l.Extends standard)

include more

theorem exists_writes {n : Name} {supers : List Name} (listed : (n, supers) ∈ boxHierarchy) :
    ∃ t, l.find? n = some t ∧ t.Writes supers := by
  have told := writes_standard _ listed
  cases found : standardTypes.find? fun t => t.name == n with
  | none => simp [found] at told
  | some t =>
    have here : standard.find? n = some t := (NameTable.find?_eq standard n).trans found
    exact ⟨t, more n t here, by simpa [found] using told⟩

theorem exists_top : ∃ t, l.find? topName = some t ∧ t.Writes [] :=
  exists_writes more (show (topName, []) ∈ boxHierarchy by decide)

theorem exists_boxSuper {p : Primitive} {n : Name} (above : n ∈ p.boxSupers) :
    ∃ t, l.find? n = some t ∧ t.Writes [] := by
  rcases Primitive.eq_of_mem_boxSupers above with rfl | rfl <;> exact exists_writes more (by decide)

theorem exists_box {p : Primitive} {n : Name} (boxes : p.box? = some n) :
    ∃ t, l.find? n = some t ∧ t.Writes p.boxSupers := by
  cases p <;> cases boxes <;> exact exists_writes more (by decide)

end Library

namespace World

def InSurplus (w : World) (p : Primitive) (t : RType) :
    Prop := ∃ s ∈ p.surplus, w.qualifiedType? t = some s

instance (w : World) (p : Primitive) (t : RType) :
    Decidable (w.InSurplus p t) := List.decidableBEx _ _

def Meets (w : World) (c : Candidate) (t : RType) : Prop :=
  some t ∈ w.paramTypes c ∨ (w.paramTypes c).getLast? = some (some (.array t))

variable {w : World} {l : Library} {rest : List Source} (first : w.sources = .library l :: rest)

section

include first

theorem libraryType_of_find? {n : Name} {t : LibraryType} (found : l.find? n = some t) :
    w.libraryType n = t := by
  simp [libraryType, first, found]

theorem resolve?_of_find? {n : Name} {t : LibraryType} (found : l.find? n = some t)
    (full : n.isQualified = true) :
    w.resolve? none n = some (.library n) := by
  have filled : n.isEmpty = false := by
    cases n with
    | mk head rest => cases rest <;> simp_all [Name.isEmpty, Name.isQualified]
  have named := NameTable.name_of_find? found
  have here : w.firm.findSome? (fun s => s.find? n) = some (.library n) := by
    simp [firm, first, Source.isFallback, Source.find?, found, named]
  simp [resolve?, resolveFirm?, resolveFirmWith?, filled, solveWritten?, fromSources?, here]

theorem decl_resolveClass?_of_find? {r : TypeRef} {t : LibraryType}
    (found : l.find? r.name = some t) (isClass : r.isClassOrInterface = true)
    (full : r.isQualified = true) (b : Bindings RType) :
    (w.resolveClass? none b r).map (·.decl) = some (.library r.name) := by
  obtain ⟨head, args, dims⟩ := r
  cases head with
  | primitive p => cases full
  | named n =>
    obtain rfl : dims = 0 := by
      simpa [TypeRef.isClassOrInterface, TypeRef.isPrimitive, TypeRef.isArray] using isClass
    have qualified : n.isQualified = true := full
    have denotes : w.resolve? none n = some (.library n) := resolve?_of_find? first found qualified
    simp [resolveClass?, resolveRef, Reading.resolve, qualified, reading, denotes, Except.toOption,
      RType.arrays, asClass?, TypeRef.name, TypeHead.name]

theorem top_of_find? {t : LibraryType} (found : l.find? topName = some t) :
    w.top = ⟨.library topName, []⟩ := by
  rw [top, resolve?_of_find? first found rfl]
  rfl

-- A library class has the classes that it writes, each with some arguments, or else the top class.
theorem decl_directSupertypes_library {n : Name} {t root : LibraryType} {supers : List Name}
    (found : l.find? n = some t) (writes : t.Writes supers)
    (listed : ∀ s ∈ supers, ∃ u, l.find? s = some u) (rooted : l.find? topName = some root)
    (args : List RType) :
    (w.directSupertypes ⟨.library n, args⟩).map (·.decl) =
      (if supers = [] ∧ n ≠ topName then [topName] else supers).map Decl.library := by
  have written (b : Bindings RType) :
      (t.supertypes.filterMap (w.resolveClass? none b)).map (·.decl) = supers.map Decl.library := by
    rw [List.map_filterMap, ← writes.names, List.map_map, ← List.filterMap_eq_map]
    refine List.filterMap_congr fun r here => ?_
    obtain ⟨isClass, full⟩ := writes.classes r here
    obtain ⟨u, known⟩ := listed r.name (writes.names ▸ List.mem_map_of_mem here)
    exact decl_resolveClass?_of_find? first known isClass full b
  have empty (b : Bindings RType) :
      (t.supertypes.filterMap (w.resolveClass? none b)).isEmpty = supers.isEmpty := by
    rw [← List.isEmpty_map (f := (·.decl)), written, List.isEmpty_map]
  simp only [directSupertypes, libraryType_of_find? first found, empty, top_of_find? first rooted]
  cases supers with
  | nil => by_cases isTop : n = topName <;> simp_all
  | cons s ss => simpa using written _

end

-- A search that comes to an end answers, and finds a class by its declaration or by its name.
theorem isSubtype_of_ends {c r : ClassType} (ends : w.layer c (hierarchyLimit + 1) = []) :
    ∃ sub, w.isSubtype c r = .ok sub ∧
      (sub = true ↔ w.qualified? r.decl = some topName ∨ ∃ t ∈ (w.ancestry c).found,
        t.decl = r.decl ∨ (w.qualified? t.decl).isSome ∧
          w.qualified? t.decl = w.qualified? r.decl) := by
  unfold isSubtype
  split
  next isTop => exact ⟨true, rfl, by simp [isTop]⟩
  next notTop =>
    have beyond : (w.ancestry c).beyond = none := by rw [ancestry_eq, ends]; rfl
    rw [firstAbove_eq, Ancestry.first, beyond]
    cases hit : (w.ancestry c).found.findSome? _ with
    | some x =>
      obtain ⟨t, found, same⟩ := List.exists_of_findSome?_eq_some hit
      refine ⟨true, rfl, iff_of_true rfl (.inr ⟨t, found, ?_⟩)⟩
      by_contra other
      rw [if_neg other] at same
      cases same
    | none =>
      refine ⟨false, rfl, iff_of_false Bool.false_ne_true ?_⟩
      rintro (isTop | ⟨t, found, same⟩)
      · exact notTop isTop
      · have missed := List.findSome?_eq_none_iff.1 hit t found
        rw [if_pos same] at missed
        cases missed

theorem decl_below_of_layer {c t : ClassType} {k : Nat} (here : t ∈ w.layer c (k + 1)) :
    ∃ u ∈ w.layer c k, t.decl ∈ (w.directSupertypes u).map (·.decl) := by
  obtain ⟨u, below, step⟩ := below_of_layer here
  exact ⟨u, below, List.mem_map_of_mem step⟩

section

variable (more : l.Extends Library.standard)

include first more

theorem directSupertypes_top (args : List RType) :
    w.directSupertypes ⟨.library topName, args⟩ = [] := by
  obtain ⟨t, found, writes⟩ := Library.exists_top more
  simpa using decl_directSupertypes_library first found writes (by simp) found args

theorem decl_directSupertypes_boxSuper {p : Primitive} {n : Name} (above : n ∈ p.boxSupers)
    (args : List RType) :
    (w.directSupertypes ⟨.library n, args⟩).map (·.decl) = [.library topName] := by
  have lower : n ≠ topName := by
    rcases Primitive.eq_of_mem_boxSupers above with rfl | rfl <;> decide
  obtain ⟨t, found, writes⟩ := Library.exists_boxSuper more above
  obtain ⟨root, rooted, -⟩ := Library.exists_top more
  simpa [lower] using decl_directSupertypes_library first found writes (by simp) rooted args

variable {p : Primitive} {n : Name} (boxes : p.box? = some n)

include boxes

theorem decl_directSupertypes_box (args : List RType) :
    (w.directSupertypes ⟨.library n, args⟩).map (·.decl) = p.boxSupers.map Decl.library := by
  obtain ⟨t, found, writes⟩ := Library.exists_box more boxes
  obtain ⟨root, rooted, -⟩ := Library.exists_top more
  have listed : ∀ s ∈ p.boxSupers, ∃ u, l.find? s = some u := fun s above =>
    (Library.exists_boxSuper more above).imp fun _ told => told.1
  simpa [Primitive.boxSupers_ne_nil boxes] using decl_directSupertypes_library first found writes
    listed rooted args

theorem known_box : w.known n [] = .ok ⟨.library n, []⟩ := by
  obtain ⟨t, found, -⟩ := Library.exists_box more boxes
  rw [known, resolve?_of_find? first found (Primitive.isQualified_box boxes)]

-- One step up from the box are the classes that it writes, and two steps up is the top class.
theorem layer_box :
    (∀ t ∈ w.layer ⟨.library n, []⟩ 1, ∃ s ∈ p.boxSupers, t.decl = .library s) ∧
      (∀ t ∈ w.layer ⟨.library n, []⟩ 2, t.decl = .library topName) ∧
        w.layer ⟨.library n, []⟩ 3 = [] := by
  have one : ∀ t ∈ w.layer ⟨.library n, []⟩ 1, ∃ s ∈ p.boxSupers, t.decl = .library s := by
    intro t here
    obtain ⟨u, below, step⟩ := decl_below_of_layer here
    obtain rfl := List.mem_singleton.1 below
    rw [decl_directSupertypes_box first more boxes] at step
    obtain ⟨s, above, same⟩ := List.mem_map.1 step
    exact ⟨s, above, same.symm⟩
  have two : ∀ t ∈ w.layer ⟨.library n, []⟩ 2, t.decl = .library topName := by
    intro t here
    obtain ⟨⟨d, args⟩, below, step⟩ := decl_below_of_layer here
    obtain ⟨s, above, rfl⟩ := one _ below
    rw [decl_directSupertypes_boxSuper first more above] at step
    exact List.mem_singleton.1 step
  refine ⟨one, two, List.eq_nil_iff_forall_not_mem.2 fun t here => ?_⟩
  obtain ⟨⟨d, args⟩, below, step⟩ := below_of_layer here
  obtain rfl := two _ below
  rw [directSupertypes_top first more] at step
  exact List.not_mem_nil step

theorem layer_box_ends : w.layer ⟨.library n, []⟩ (hierarchyLimit + 1) = [] :=
  layer_eq_nil (layer_box first more boxes).2.2 (by decide)

theorem mem_found_box (d : Decl) :
    d ∈ (w.ancestry ⟨.library n, []⟩).found.map (·.decl) ↔
      ∃ s ∈ n :: topName :: p.boxSupers, d = .library s := by
  obtain ⟨one, two, three⟩ := layer_box first more boxes
  have self : ⟨.library n, []⟩ ∈ (w.ancestry ⟨.library n, []⟩).found :=
    mem_found.2 ⟨0, by decide, List.mem_singleton_self _⟩
  -- What is above a class that the search has found, it finds as well.
  have closed {c : Decl} {args : List RType} {s : Name}
      (found : ⟨c, args⟩ ∈ (w.ancestry ⟨.library n, []⟩).found)
      (step : .library s ∈ (w.directSupertypes ⟨c, args⟩).map (·.decl)) :
      .library s ∈ (w.ancestry ⟨.library n, []⟩).found.map (·.decl) := by
    obtain ⟨t, step, same⟩ := List.mem_map.1 step
    exact same ▸ closed_of_done (layer_box_ends first more boxes) found step
  have upper : ∀ s ∈ p.boxSupers, .library s ∈
      (w.ancestry ⟨.library n, []⟩).found.map (·.decl) := fun s above =>
    closed self (decl_directSupertypes_box first more boxes [] ▸ List.mem_map_of_mem above)
  constructor
  · intro listed
    obtain ⟨t, found, rfl⟩ := List.mem_map.1 listed
    obtain ⟨k, -, here⟩ := mem_found.1 found
    rcases k with _ | _ | _ | k
    · exact ⟨n, List.mem_cons_self, by rw [List.mem_singleton.1 here]⟩
    · obtain ⟨s, above, same⟩ := one t here
      exact ⟨s, by simp [above], same⟩
    · exact ⟨topName, by simp, two t here⟩
    · rw [layer_eq_nil three (Nat.le_add_left 3 k)] at here
      exact absurd here List.not_mem_nil
  · rintro ⟨s, listed, rfl⟩
    rcases List.mem_cons.1 listed with rfl | listed
    · exact List.mem_map_of_mem self
    rcases List.mem_cons.1 listed with rfl | above
    · obtain ⟨s, above⟩ := List.exists_mem_of_ne_nil _ (Primitive.boxSupers_ne_nil boxes)
      obtain ⟨⟨d, args⟩, found, rfl⟩ := List.mem_map.1 (upper s above)
      exact closed found
        (by rw [decl_directSupertypes_boxSuper first more above]; exact List.mem_singleton_self _)
    · exact upper s above

theorem isSubtype_box (r : ClassType) :
    ∃ sub, w.isSubtype ⟨.library n, []⟩ r = .ok sub ∧
      (sub = true ↔ ∃ s ∈ n :: topName :: p.boxSupers, w.qualified? r.decl = some s) := by
  obtain ⟨sub, answers, holds⟩ := isSubtype_of_ends (r := r) (layer_box_ends first more boxes)
  refine ⟨sub, answers, holds.trans ?_⟩
  have found := mem_found_box first more boxes
  constructor
  · rintro (isTop | ⟨t, above, same⟩)
    · exact ⟨topName, by simp, isTop⟩
    · obtain ⟨s, listed, library⟩ := (found t.decl).1 (List.mem_map_of_mem above)
      refine ⟨s, listed, ?_⟩
      rcases same with same | ⟨-, same⟩
      · rw [← same, library]
        rfl
      · rw [← same, library]
        rfl
  · rintro ⟨s, listed, named⟩
    obtain ⟨t, above, library⟩ := List.mem_map.1 ((found (.library s)).2 ⟨s, listed, rfl⟩)
    refine .inr ⟨t, above, .inr ?_⟩
    rw [library, named]
    exact ⟨rfl, rfl⟩

theorem passes_prim (r : ClassType) :
    ∃ sub, w.isSubtype ⟨.library n, []⟩ r = .ok sub ∧
      w.passes (.prim p) r.toType = .ok (sub || decide (w.InSurplus p r.toType)) ∧
      (w.InSurplus p r.toType → sub = false) := by
  obtain ⟨sub, answers, holds⟩ := isSubtype_box first more boxes r
  refine ⟨sub, answers, ?_, ?_⟩
  · have listed : w.passes (.prim p) r.toType =
        .ok (w.qualified? r.decl == p.box? ||
          (w.qualified? r.decl).any boxSupertypes.contains) := by
      rw [ClassType.toType, passes]
    have either : (∃ s ∈ boxSupertypes, w.qualified? r.decl = some s) ↔
        (∃ s ∈ topName :: p.boxSupers, w.qualified? r.decl = some s) ∨ w.InSurplus p r.toType := by
      simp only [Primitive.mem_boxSupertypes (p := p), or_and_right, exists_or]
      rfl
    rw [listed, boxes, Except.ok.injEq, Bool.eq_iff_iff, Bool.or_eq_true, Bool.or_eq_true, holds,
      List.exists_mem_cons_iff, decide_eq_true_iff, beq_iff_eq, or_assoc, ← either]
    cases w.qualified? r.decl <;> simp [eq_comm]
  · rintro ⟨s, extra, named⟩
    refine Bool.eq_false_iff.2 fun above => ?_
    obtain ⟨m, listed, same⟩ := holds.1 above
    obtain rfl : s = m := Option.some.inj (named.symm.trans same)
    obtain ⟨counted, apart⟩ := Primitive.mem_surplus.1 extra
    rcases List.mem_cons.1 listed with rfl | listed
    · exact Primitive.box_notMem_boxSupertypes boxes counted
    · exact apart listed

theorem boxed_prim : w.boxed (.prim p) = .ref (.library n) [] := by
  simp [boxed, boxes, known_box first more boxes, Except.toOption, ClassType.toType]

end

section

variable (more : l.Extends Library.standard)

include first more

theorem passes_boxed {t q : RType} (outside : ∀ p, t = .prim p → ¬ w.InSurplus p q) :
    w.passes (w.boxed t) q = w.passes t q := by
  cases t with
  | prim p =>
    cases boxes : p.box? with
    | none => simp [boxed, boxes]
    | some n =>
      rw [boxed_prim first more boxes]
      cases q with
      | ref d args =>
        obtain ⟨sub, answers, passes, -⟩ := passes_prim first more boxes ⟨d, args⟩
        have apart : ¬ w.InSurplus p (ClassType.toType ⟨d, args⟩) := outside p rfl
        rw [decide_eq_false apart, Bool.or_false, ← answers] at passes
        rw [World.passes]
        exact passes.symm
      | prim q => simp [passes, qualified?, Primitive.ofBox?_box boxes]
      | _ => simp [passes]
  | _ => rfl

theorem assignable_boxed {a q : Option RType}
    (outside : ∀ p t, a = some (.prim p) → q = some t → ¬ w.InSurplus p t) :
    w.assignable (a.map w.boxed) q = w.assignable a q := by
  cases a with
  | none => rfl
  | some a =>
    cases q with
    | none => rfl
    | some q => exact passes_boxed first more fun p isPrim => outside p q (congrArg some isPrim) rfl

theorem allAssignable_boxed {args params : List (Option RType)}
    (outside : ∀ p t, some (.prim p) ∈ args → some t ∈ params → ¬ w.InSurplus p t) :
    w.allAssignable (args.map (Option.map w.boxed)) params = w.allAssignable args params := by
  induction args generalizing params with
  | nil => rfl
  | cons a as ih =>
    cases params with
    | nil => rfl
    | cons q qs =>
      have here : w.assignable (a.map w.boxed) q = w.assignable a q := assignable_boxed first more
        fun p t isPrim isParam =>
          outside p t (isPrim ▸ List.mem_cons_self) (isParam ▸ List.mem_cons_self)
      have later := ih fun p t passed listed =>
        outside p t (List.mem_cons_of_mem _ passed) (List.mem_cons_of_mem _ listed)
      rw [List.map_cons, allAssignable, allAssignable, here, later]

section

variable {args : List (Option RType)} {c : Candidate}
  (outside : ∀ p t, some (.prim p) ∈ args → w.Meets c t → ¬ w.InSurplus p t)

include outside

theorem fixedArity_boxed :
    w.fixedArity (args.map (Option.map w.boxed)) (w.choice c) = w.fixedArity args (w.choice c) := by
  have all : w.allAssignable (args.map (Option.map w.boxed)) (w.choice c).types =
      w.allAssignable args (w.choice c).types :=
    allAssignable_boxed first more fun p t passed listed => outside p t passed (.inl listed)
  rw [fixedArity, fixedArity, List.length_map, all]

theorem variableArity_boxed :
    w.variableArity (args.map (Option.map w.boxed)) (w.choice c) =
      w.variableArity args (w.choice c) := by
  have fixed : w.allAssignable (args.map (Option.map w.boxed)) (w.paramTypes c).dropLast =
      w.allAssignable args (w.paramTypes c).dropLast :=
    allAssignable_boxed first more
      fun p t passed listed => outside p t passed (.inl (List.dropLast_subset _ listed))
  have unfolded (args : List (Option RType)) : w.variableArity args (w.choice c) =
      if isVarargs c.params then
        w.allAssignable args (w.paramTypes c).dropLast >>= fun ok =>
          if ok then (args.drop (w.paramTypes c).dropLast.length).allM fun a =>
            w.assignable a (Renamed.lastElement? (w.paramTypes c))
          else pure false
      else .ok false := rfl
  rw [unfolded, unfolded, fixed, ← List.map_drop, allM_rename]
  intro a passed
  refine assignable_boxed first more fun p t isPrim isElement => ?_
  refine outside p t (isPrim ▸ List.mem_of_mem_drop passed) (.inr ?_)
  unfold Renamed.lastElement? at isElement
  split at isElement
  next e last => exact Option.some.inj isElement ▸ last
  next => cases isElement

end

theorem select_boxed {name : String} {cs : List Candidate} {args : List (Option RType)}
    (outside : ∀ c ∈ cs, ∀ p t, some (.prim p) ∈ args → w.Meets c t → ¬ w.InSurplus p t) :
    w.select name cs (args.map (Option.map w.boxed)) = w.select name cs args := by
  have among : ∀ d ∈ (cs.filter (·.takes args.length)).map w.choice, ∃ c ∈ cs, w.choice c = d := by
    intro d listed
    obtain ⟨c, taking, same⟩ := List.mem_map.1 listed
    exact ⟨c, (List.mem_filter.1 taking).1, same⟩
  have pools : w.applicable (args.map (Option.map w.boxed))
      ((cs.filter (·.takes args.length)).map w.choice) =
      w.applicable args ((cs.filter (·.takes args.length)).map w.choice) := by
    generalize (cs.filter (·.takes args.length)).map w.choice = choices at among
    have fixed :
        ∀ d ∈ choices, w.fixedArity (args.map (Option.map w.boxed)) d = w.fixedArity args d := by
      intro d listed
      obtain ⟨c, candidate, rfl⟩ := among d listed
      exact fixedArity_boxed first more (outside c candidate)
    have repeated : ∀ d ∈ choices, w.variableArity (args.map (Option.map w.boxed)) d =
        w.variableArity args d := by
      intro d listed
      obtain ⟨c, candidate, rfl⟩ := among d listed
      exact variableArity_boxed first more (outside c candidate)
    rw [applicable, applicable, filterM_congr fixed, filterM_congr repeated]
  rw [select, select, List.length_map]
  generalize cs.filter (·.takes args.length) = taking at pools
  cases taking with
  | nil => rfl
  | cons c taking =>
    dsimp only
    rw [pools]

end

/-- A primitive can be passed as what is found above its box, and as the classes of the surplus,
which are not. -/
theorem primitive_passes_as_box (w : World) (l : Library) (rest : List Source)
    (first : w.sources = .library l :: rest) (more : l.Extends Library.standard) :
    (∀ p n, p.box? = some n → w.known n [] = .ok ⟨.library n, []⟩ ∧
      ∀ r : ClassType, ∃ sub, w.isSubtype ⟨.library n, []⟩ r = .ok sub ∧
        w.passes (.prim p) r.toType = .ok (sub || decide (w.InSurplus p r.toType)) ∧
        (w.InSurplus p r.toType → sub = false)) ∧
    ∀ name cs args, (∀ c ∈ cs, ∀ p t, some (.prim p) ∈ args → w.Meets c t → ¬ w.InSurplus p t) →
      w.select name cs (args.map (Option.map w.boxed)) = w.select name cs args :=
  ⟨fun _ _ boxes => ⟨known_box first more boxes, passes_prim first more boxes⟩,
    fun _ _ _ outside => select_boxed first more outside⟩

-- `class C { f(C) f(long...) }`, with the standard library.
def boxCalls : World where
  units := [SourceUnit.ofTypes [TypeDecl.ofClass "C" [] [
    { name := "f", params := [{ name := "x", type := .simple "C" }] },
    { name := "f", params :=
      [{ name := "x", type := { head := .primitive .long }, varargs := true }] }]]]
  sources := [.library Library.standard]

def boxCallsOfC : List Candidate := boxCalls.declaredMethods "f" ⟨.corpus ⟨0, 0⟩, []⟩

-- An `int` can be passed as a number, and `f(1, 2)` selects as it does for the boxes.
theorem primitive_passes_as_box_boxCalls :
    boxCalls.passes (.prim .int) (.ref (.library numberName) []) = .ok true ∧
      boxCalls.isSubtype ⟨.library ⟨"java", ["lang", "Integer"]⟩, []⟩
        ⟨.library numberName, []⟩ = .ok true ∧
      boxCalls.select "f" boxCallsOfC
        ([some (.prim .int), some (.prim .int)].map (Option.map boxCalls.boxed)) =
        boxCalls.select "f" boxCallsOfC [some (.prim .int), some (.prim .int)] := by
  obtain ⟨alike, selects⟩ :=
    primitive_passes_as_box boxCalls Library.standard [] rfl fun _ _ found => found
  have passes : boxCalls.passes (.prim .int) (.ref (.library numberName) []) = .ok true := by rfl
  obtain ⟨sub, answers, same, -⟩ := (alike .int _ rfl).2 ⟨.library numberName, []⟩
  have apart : ¬ boxCalls.InSurplus .int (ClassType.toType ⟨.library numberName, []⟩) := by decide
  rw [decide_eq_false apart, Bool.or_false] at same
  obtain rfl : true = sub := Except.ok.inj (passes.symm.trans same)
  refine ⟨passes, answers, selects _ _ _ ?_⟩
  have types : boxCallsOfC.map boxCalls.paramTypes =
      [[some (.ref (.corpus ⟨0, 0⟩) [])], [some (.array (.prim .long))]] := by decide +kernel
  have unnamed : ∀ c ∈ boxCallsOfC, ∀ t, boxCalls.Meets c t → boxCalls.qualifiedType? t = none := by
    intro c listed t meets
    have here : boxCalls.paramTypes c ∈ boxCallsOfC.map boxCalls.paramTypes :=
      List.mem_map_of_mem listed
    rw [types, List.mem_pair] at here
    rcases here with here | here
    · obtain rfl : t = .ref (.corpus ⟨0, 0⟩) [] := by simpa [Meets, here] using meets
      rfl
    · have either : t = .array (.prim .long) ∨ t = .prim .long := by
        simpa [Meets, here, eq_comm] using meets
      rcases either with rfl | rfl <;> rfl
  rintro c listed p t - meets ⟨s, -, named⟩
  rw [unnamed c listed t meets] at named
  cases named

-- A `boolean` can be passed as a number, a `byte` as comparable and an `int` as serializable, but
-- their boxes cannot.
theorem primitive_passes_as_box_surplus :
    let w : World := { sources := [.library Library.standard] }
    let type (names : List String) : ClassType := ⟨.library ⟨"java", names⟩, []⟩
    (w.passes (.prim .boolean) (type ["lang", "Number"]).toType = .ok true ∧
        w.isSubtype (type ["lang", "Boolean"]) (type ["lang", "Number"]) = .ok false) ∧
      (w.passes (.prim .byte) (type ["lang", "Comparable"]).toType = .ok true ∧
        w.isSubtype (type ["lang", "Byte"]) (type ["lang", "Comparable"]) = .ok false) ∧
      w.passes (.prim .int) (type ["io", "Serializable"]).toType = .ok true ∧
        w.isSubtype (type ["lang", "Integer"]) (type ["io", "Serializable"]) = .ok false := by
  intro w type
  have differ {p : Primitive} {n : Name} (boxes : p.box? = some n) (r : ClassType)
      (extra : w.InSurplus p r.toType) :
      w.passes (.prim p) r.toType = .ok true ∧ w.isSubtype ⟨.library n, []⟩ r = .ok false := by
    obtain ⟨sub, answers, passes, apart⟩ :=
      passes_prim (w := w) rfl (fun _ _ found => found) boxes r
    rw [decide_eq_true extra, Bool.or_true] at passes
    exact ⟨passes, apart extra ▸ answers⟩
  exact ⟨differ rfl _ (by decide), differ rfl _ (by decide), differ rfl _ (by decide)⟩

end World

end RefGraph

import Mathlib.Data.List.Basic
import RefGraph.Proofs.Found
import RefGraph.Proofs.Makers
import RefGraph.Proofs.Readings
import RefGraph.Proofs.Renaming.Basic
import RefGraph.Proofs.SupertypeSearch

set_option autoImplicit false

namespace RefGraph

namespace RType

mutual
def subst (σ : String → Option RType) : RType → RType
  | .ref d args => .ref d (substAll σ args)
  | .prim p => .prim p
  | .array t => .array (subst σ t)
  | .unbounded => .unbounded
  | .bounded v t => .bounded v (subst σ t)
  | .var n bounds => (σ n).getD (.var n bounds)
  | .null => .null

def substAll (σ : String → Option RType) : List RType → List RType
  | [] => []
  | t :: ts => subst σ t :: substAll σ ts
end

mutual
def vars : RType → List String
  | .ref _ args => varsOfAll args
  | .array t => vars t
  | .bounded _ t => vars t
  | .var n _ => [n]
  | .prim _ | .unbounded | .null => []

def varsOfAll : List RType → List String
  | [] => []
  | t :: ts => vars t ++ varsOfAll ts
end

variable (σ τ : String → Option RType)

theorem substAll_eq (ts : List RType) : substAll σ ts = ts.map (subst σ) := by
  induction ts with
  | nil => rfl
  | cons t ts ih => rw [substAll, ih, List.map_cons]

@[simp] theorem subst_ref (d : Decl) (args : List RType) :
    subst σ (.ref d args) = .ref d (args.map (subst σ)) := by
  rw [subst, substAll_eq]

theorem mem_varsOfAll {ts : List RType} {n : String} : n ∈ varsOfAll ts ↔ ∃ t ∈ ts, n ∈ t.vars := by
  induction ts with
  | nil => simp [varsOfAll]
  | cons t ts ih => simp [varsOfAll, ih]

theorem goesThrough_subst : GoesThrough (subst σ) id where
  ref := subst_ref σ
  prim p := by rw [subst]
  array t := by rw [subst]
  unbounded := by rw [subst]
  bounded v t := by rw [subst]

theorem subst_subst {t : RType} (bound : ∀ n ∈ t.vars, (τ n).isSome) :
    subst σ (subst τ t) = subst (fun n => (τ n).map (subst σ)) t := by
  induction t using RType.induction with
  | ref d args ih =>
    have each :
        ∀ a ∈ args, subst σ (subst τ a) = subst (fun n => (τ n).map (subst σ)) a := fun a listed =>
      ih a listed fun n inside => bound n (by rw [vars]; exact mem_varsOfAll.2 ⟨a, listed, inside⟩)
    rw [subst_ref, subst_ref, subst_ref, List.map_map, ← List.map_congr_left each]
    rfl
  | array t ih =>
    rw [vars] at bound
    rw [subst, subst, subst, ih bound]
  | bounded v t ih =>
    rw [vars] at bound
    rw [subst, subst, subst, ih bound]
  | var n bounds =>
    obtain ⟨t, put⟩ := Option.isSome_iff_exists.1 (bound n (by simp [vars]))
    simp [subst, put]
  | prim | unbounded | null => simp [subst]

end RType

def ClassType.subst (σ : String → Option RType) (c : ClassType) :
    ClassType := ⟨c.decl, c.args.map (RType.subst σ)⟩

namespace World

variable (w : World)

def Supplied (c : ClassType) : Prop := (w.paramNames c.decl).length = c.args.length

instance (c : ClassType) : Decidable (w.Supplied c) := inferInstanceAs (Decidable (_ = _))

/-- The argument for a parameter; of parameters with one name the last counts. -/
def argument? (c : ClassType) (name : String) : Option RType :=
  ((w.paramNames c.decl).zip c.args).reverse.lookup name

def rawSupertype? (d : Decl) (r : TypeRef) : Option RType :=
  (w.resolveRef (w.header? d) (w.bindings ⟨d, []⟩) r).toOption

/-- A step to a direct supertype: to one of those written, counted from zero, or to the one that
goes without saying. -/
inductive Step where
  | written (i : Nat)
  | implied

def stepTo? (c : ClassType) : Step → Option ClassType
  | .written i => do
    let r ← (w.supertypeRefs c.decl)[i]?
    let t ← w.rawSupertype? c.decl r
    asClass? (t.subst (w.argument? c))
  | .implied => w.impliedSupertype? c

/-- Where a path leads if each type that it goes on from is supplied. The last step stands first. -/
def composed (c : ClassType) : List Step → Option ClassType
  | [] => some c
  | last :: steps => ((composed c steps).filter fun u => w.Supplied u).bind (w.stepTo? · last)

variable {w}

theorem isSome_argument? {c : ClassType} (supplied : w.Supplied c) {name : String}
    (listed : name ∈ w.paramNames c.decl) : (w.argument? c name).isSome := by
  have names : ((w.paramNames c.decl).zip c.args).map (·.1) = w.paramNames c.decl :=
    List.map_fst_zip (Nat.le_of_eq supplied)
  rw [← names] at listed
  exact Bindings.isSome_lookup_reverse listed

theorem argument?_of_notMem {c : ClassType} {name : String} (absent : name ∉ w.paramNames c.decl) :
    w.argument? c name = none := by
  rw [argument?, ← Bindings.get?_ofList]
  exact Bindings.get?_ofList_of_notMem (Bindings.notMem_zip c.args absent)

theorem get?_ownBindings (c : ClassType) (supplied : w.Supplied c) (name : String) :
    (w.ownBindings c).get? name = w.argument? c name := by
  have own : w.ownBindings c = Bindings.ofList ((w.paramNames c.decl).zip c.args) := if_pos supplied
  rw [own, Bindings.get?_ofList]
  rfl

theorem isEmpty_ownBindings {c : ClassType} (supplied : w.Supplied c)
    (empty : (w.ownBindings c).isEmpty = true) :
    w.paramNames c.decl = [] := by
  refine List.eq_nil_iff_forall_not_mem.2 fun name listed => ?_
  have bound := isSome_argument? supplied listed
  rw [← get?_ownBindings c supplied, Bindings.get?, List.isEmpty_iff.1 empty] at bound
  cases bound

theorem get?_bindings_of_supplied {c : ClassType} (supplied : w.Supplied c) (name : String) :
    (w.bindings c).get? name = w.argument? c name := by
  have own := get?_ownBindings c supplied name
  unfold bindings
  dsimp only
  split
  · split
    · next empty =>
      have none := isEmpty_ownBindings supplied empty
      rw [none, argument?_of_notMem (by rw [none]; exact List.not_mem_nil)]
      rfl
    · exact own
  · exact own

-- A type without arguments has none bound, whether or not there are parameters.
theorem ownBindings_raw (d : Decl) : w.ownBindings ⟨d, []⟩ = {} := by
  rw [ownBindings]
  dsimp only
  split
  · rw [List.zip_nil_right]
    rfl
  · rfl

theorem get?_bindings_corpus (id : TypeId) (name : String) :
    (w.bindings ⟨.corpus id, []⟩).get? name = none := by
  rw [bindings, ownBindings_raw]
  rfl

theorem get?_bindings_library (n : Name) (name : String) :
    (w.bindings ⟨.library n, []⟩).get? name =
      if name ∈ w.paramNames (.library n) then some (.var name []) else none := by
  have own : w.bindings ⟨.library n, []⟩ =
      Bindings.ofList ((w.paramNames (.library n)).map fun n => (n, .var n [])) := by
    rw [bindings, ownBindings_raw]
    rfl
  have looked (names : List String) : (names.map fun n => (n, RType.var n [])).lookup name =
      if name ∈ names then some (.var name []) else none := by
    induction names with
    | nil => rfl
    | cons x xs ih =>
      rw [List.map_cons, List.lookup_cons, ih]
      by_cases same : name = x
      · simp [same]
      · rw [beq_eq_false_iff_ne.2 same]
        simp [same]
  rw [own, Bindings.get?_ofList, ← List.map_reverse, looked]
  simp only [List.mem_reverse]

end World

def paramOf? (params : List TypeParam) (name : String) : Option TypeParam :=
  params.reverse.find? fun p => p.name == name

theorem get?_bindParams (b : Bindings TypeParam) (params : List TypeParam) (name : String) :
    (bindParams b params).get? name = (paramOf? params name).or (b.get? name) := by
  have found (ps : List TypeParam) : (ps.map fun p => (p.name, p)).lookup name = ps.find? fun p =>
      p.name == name := by
    induction ps with
    | nil => rfl
    | cons p ps ih =>
      rw [List.map_cons, List.lookup_cons, List.find?_cons, ih, BEq.comm]
  rw [bindParams, Bindings.get?_setAll, ← List.map_reverse, found, paramOf?]

def NamedParams (b : Bindings TypeParam) : Prop := ∀ name p, b.get? name = some p → p.name = name

theorem NamedParams.bindParams {b : Bindings TypeParam} (named : NamedParams b)
    (params : List TypeParam) :
    NamedParams (bindParams b params) := by
  intro name p bound
  rw [RefGraph.bindParams, Bindings.get?_setAll, Option.or_eq_some_iff] at bound
  rcases bound with here | ⟨-, before⟩
  · obtain ⟨before, after, entries, -⟩ := List.lookup_eq_some_iff.1 here
    have listed : (name, p) ∈ (params.map fun p => (p.name, p)).reverse := by simp [entries]
    obtain ⟨q, -, same⟩ := List.mem_map.1 (List.mem_reverse.1 listed)
    obtain ⟨rfl, rfl⟩ := Prod.mk.inj same
    rfl
  · exact named name p before

theorem isSome_bindParams (b : Bindings TypeParam) {params : List TypeParam} {name : String}
    (listed : name ∈ params.map (·.name)) : ((bindParams b params).get? name).isSome := by
  rw [bindParams, Bindings.get?_setAll, Option.isSome_or, Bool.or_eq_true]
  refine .inl (Bindings.isSome_lookup_reverse ?_)
  rwa [List.map_map]

namespace World

variable {w : World}

theorem namedParams_foldl (around : List TypeId) {b : Bindings TypeParam} (named : NamedParams b) :
    NamedParams (around.foldl (fun b t => bindParams b (w.decl t).typeParams) b) := by
  induction around generalizing b with
  | nil => exact named
  | cons t ts ih => exact ih (named.bindParams _)

theorem namedParams_typeContext (id : TypeId) : NamedParams (w.typeContext id {}).typeParams :=
  namedParams_foldl _ fun _ _ bound => by cases bound

variable (w) in
def Opens : Option Context → Decl → Prop
  | some ctx, .corpus id =>
    NamedParams ctx.typeParams ∧ ∀ name ∈ w.paramNames (.corpus id),
      (ctx.typeParams.get? name).isSome
  | none, .library _ | none, .placeholder _ => True
  | _, _ => False

theorem opens_header (d : Decl) : w.Opens (w.header? d) d := by
  cases d with
  | corpus id =>
    refine ⟨NamedParams.bindParams ?_ _, fun name listed => isSome_bindParams _ listed⟩
    cases w.declaring? id with
    | none =>
      intro name p bound
      cases bound
    | some outer => exact namedParams_typeContext outer
  | library n => trivial
  | placeholder p => trivial

theorem opens_typeContext (id : TypeId) : w.Opens (some (w.typeContext id {})) (.corpus id) := by
  refine ⟨namedParams_typeContext id, fun name listed => ?_⟩
  -- The type itself comes last of those around it.
  obtain ⟨outer, around⟩ : ∃ outer, w.enclosing id = id :: outer := ⟨_, rfl⟩
  rw [typeContext]
  dsimp only
  rw [around, List.reverse_cons, List.foldl_append]
  exact isSome_bindParams _ listed

section

variable {ctx? : Option Context} {c : ClassType} (opens : w.Opens ctx? c.decl)
    (supplied : w.Supplied c)

include opens supplied

theorem mapped_supplied :
    Reading.Mapped (RType.subst (w.argument? c)) id (w.reading ctx? (w.bindings ⟨c.decl, []⟩))
      (w.reading ctx? (w.bindings c)) where
  find n := by rw [Option.map_id, id]; rfl
  known name := by
    simp only [reading, get?_bindings_of_supplied supplied]
    by_cases own : name ∈ w.paramNames c.decl
    · obtain ⟨a, bound⟩ := Option.isSome_iff_exists.1 (isSome_argument? supplied own)
      obtain ⟨d, args⟩ := c
      cases d with
      | corpus id =>
        obtain ⟨ctx, rfl⟩ : ∃ ctx, ctx? = some ctx := by cases ctx? <;> simp_all [Opens]
        obtain ⟨p, visible⟩ := Option.isSome_iff_exists.1 (opens.2 name own)
        have named := opens.1 name p visible
        simp [get?_bindings_corpus, visible, bound, RType.subst, named]
      | library n => simp [get?_bindings_library, show name ∈ w.paramNames (.library n) from own,
        bound, RType.subst]
      | placeholder p => cases own
    · rw [argument?_of_notMem own, get?_bindings_of_notMem ⟨c.decl, []⟩ own]
      cases ctx? with
      | none => rfl
      | some ctx =>
        cases visible : ctx.typeParams.get? name with
        | none => simp [visible]
        | some p =>
          have named : p.name = name := by
            obtain ⟨d, args⟩ := c
            cases d with
            | corpus id => exact opens.1 name p visible
            | library n => cases opens
            | placeholder p => cases opens
          simp [visible, RType.subst, named, argument?_of_notMem own]

theorem resolveRef_supplied (r : TypeRef) :
    w.resolveRef ctx? (w.bindings c) r =
      (w.resolveRef ctx? (w.bindings ⟨c.decl, []⟩) r).map (RType.subst (w.argument? c)) :=
  (mapped_supplied opens supplied).resolve (RType.goesThrough_subst _) r

end

theorem supertypeOf?_supplied {c : ClassType} (supplied : w.Supplied c) (r : TypeRef) :
    w.supertypeOf? c r = (w.rawSupertype? c.decl r).bind fun t =>
      asClass? (t.subst (w.argument? c)) := by
  rw [supertypeOf?, resolveClass?, resolveRef_supplied (opens_header c.decl) supplied,
    rawSupertype?]
  cases w.resolveRef (w.header? c.decl) (w.bindings ⟨c.decl, []⟩) r <;> rfl

theorem mem_directSupertypes_supplied {c s : ClassType} (supplied : w.Supplied c) :
    s ∈ w.directSupertypes c ↔ ∃ step, w.stepTo? c step = some s := by
  rw [mem_directSupertypes]
  constructor
  · rintro (⟨r, listed, leads⟩ | leads)
    · obtain ⟨i, here⟩ := List.mem_iff_getElem?.1 listed
      rw [supertypeOf?_supplied supplied] at leads
      exact ⟨.written i, by simp [stepTo?, here, leads]⟩
    · exact ⟨.implied, leads⟩
  · rintro ⟨step, leads⟩
    cases step with
    | implied => exact .inr leads
    | written i =>
      obtain ⟨r, here, leads⟩ := Option.bind_eq_some_iff.1 leads
      refine .inl ⟨r, List.mem_of_getElem? here, ?_⟩
      rw [supertypeOf?_supplied supplied]
      exact leads

theorem composed_cons_eq_some {c t : ClassType} {last : Step} {steps : List Step} :
    w.composed c (last :: steps) = some t ↔
      ∃ u, w.composed c steps = some u ∧ w.Supplied u ∧ w.stepTo? u last = some t := by
  simp [composed, Option.bind_eq_some_iff, Option.filter_eq_some_iff, and_assoc]

-- The step up from the types at one distance; a path is lengthened at its end.
theorem mem_stepsUp_supplied {c t : ClassType} {n : Nat} :
    t ∈ w.stepsUp (fun u => w.Supplied u) c n ↔ ∃ steps, steps.length = n ∧
      w.composed c steps = some t := by
  induction n generalizing t with
  | zero => simp [stepsUp, composed, eq_comm]
  | succ n ih =>
    simp only [stepsUp, List.mem_flatMap, List.mem_filter, decide_eq_true_eq, ih]
    constructor
    · rintro ⟨u, ⟨⟨steps, rfl, below⟩, supplied⟩, up⟩
      obtain ⟨last, leads⟩ := (mem_directSupertypes_supplied supplied).1 up
      exact ⟨last :: steps, rfl, composed_cons_eq_some.2 ⟨u, below, supplied, leads⟩⟩
    · rintro ⟨steps, length, leads⟩
      cases steps with
      | nil => cases length
      | cons last steps =>
        obtain ⟨u, below, supplied, leads⟩ := composed_cons_eq_some.1 leads
        have up := (mem_directSupertypes_supplied supplied).2 ⟨last, leads⟩
        exact ⟨u, ⟨⟨steps, Nat.succ.inj length, below⟩, supplied⟩, up⟩

variable (w) in
/-- All supertypes are written as classes, and in terms of the parameters of the declaration alone:
none mentions a parameter of a type around. -/
def SelfContained (d : Decl) : Prop :=
  ∀ r ∈ w.supertypeRefs d, ∀ t ∈ w.rawSupertype? d r, (asClass? t).isSome ∧
    ∀ n ∈ t.vars, n ∈ w.paramNames d

instance (d : Decl) : Decidable (w.SelfContained d) := List.decidableBAll _ _

variable (w) in
def Through (p : Decl → Prop) (c : ClassType) : List Step → Prop
  | [] => True
  | _ :: steps => Through p c steps ∧ ∀ u ∈ w.composed c steps, p u.decl

section

variable (σ : String → Option RType)

theorem supplied_subst {c : ClassType} : w.Supplied (c.subst σ) ↔ w.Supplied c := by
  simp [Supplied, ClassType.subst]

theorem argument?_subst (c : ClassType) (name : String) :
    w.argument? (c.subst σ) name = (w.argument? c name).map (RType.subst σ) := by
  simp only [argument?, ClassType.subst, List.zip_map_right, ← List.map_reverse]
  induction ((w.paramNames c.decl).zip c.args).reverse with
  | nil => rfl
  | cons e es ih =>
    obtain ⟨key, a⟩ := e
    simp only [List.map_cons, Prod.map, id, List.lookup_cons, ih]
    cases name == key <;> rfl

theorem implicitSuper?_subst (c : ClassType) (kind : TypeKind) :
    w.implicitSuper? (c.subst σ) kind = (w.implicitSuper? c kind).map (ClassType.subst σ) := by
  have known (n : Name) (args : List RType) :
      (w.known n (args.map (RType.subst σ))).toOption.getD w.top =
      ((w.known n args).toOption.getD w.top).subst σ := by
    unfold World.known
    cases w.resolve? none n <;> rfl
  cases kind with
  | enumKind =>
    have self : (c.subst σ).toType = c.toType.subst σ := (RType.subst_ref σ _ _).symm
    simpa [implicitSuper?, self] using known ⟨"java", ["lang", "Enum"]⟩ [c.toType]
  | recordKind => exact congrArg some (known _ [])
  | _ => rfl

section

variable {c : ClassType} (supplied : w.Supplied c) (self : w.SelfContained c.decl)

include supplied self

theorem asClass?_subst {r : TypeRef} (listed : r ∈ w.supertypeRefs c.decl) {t : RType}
    (read : w.rawSupertype? c.decl r = some t) :
    asClass? (t.subst (w.argument? (c.subst σ))) =
      (asClass? (t.subst (w.argument? c))).map (ClassType.subst σ) := by
  obtain ⟨written, inside⟩ := self r listed t read
  have twice : t.subst (w.argument? (c.subst σ)) = (t.subst (w.argument? c)).subst σ := by
    rw [RType.subst_subst σ _ fun n mentioned => isSome_argument? supplied (inside n mentioned),
      funext (argument?_subst σ c)]
  rw [twice]
  cases t with
  | ref d args => simp [asClass?, ClassType.subst]
  | _ => cases written

theorem supertypeOf?_subst {r : TypeRef} (listed : r ∈ w.supertypeRefs c.decl) :
    w.supertypeOf? (c.subst σ) r = (w.supertypeOf? c r).map (ClassType.subst σ) := by
  rw [supertypeOf?_supplied ((supplied_subst σ).2 supplied), supertypeOf?_supplied supplied]
  change (w.rawSupertype? c.decl r).bind _ = _
  cases read : w.rawSupertype? c.decl r with
  | none => rfl
  | some t => exact asClass?_subst σ supplied self listed read

theorem filterMap_supertypeOf?_subst {rs : List TypeRef} (among : rs ⊆ w.supertypeRefs c.decl) :
    rs.filterMap (w.supertypeOf? (c.subst σ)) =
      (rs.filterMap (w.supertypeOf? c)).map (ClassType.subst σ) := by
  rw [List.map_filterMap]
  exact List.filterMap_congr fun r listed => supertypeOf?_subst σ supplied self (among listed)

theorem impliedSupertype?_subst :
    w.impliedSupertype? (c.subst σ) = (w.impliedSupertype? c).map (ClassType.subst σ) := by
  have top : w.top.subst σ = w.top := rfl
  obtain ⟨d, args⟩ := c
  cases d with
  | placeholder p => rfl
  | library n =>
    have found :=
      filterMap_supertypeOf?_subst σ supplied self (List.Subset.refl (w.libraryType n).supertypes)
    simp only [ClassType.subst] at found ⊢
    simp only [impliedSupertype?, found, List.isEmpty_map]
    split <;> simp [top]
  | corpus id =>
    have extended := filterMap_supertypeOf?_subst σ supplied self
      (List.subset_append_left (w.decl id).superclasses (w.decl id).interfaces)
    have implicit := w.implicitSuper?_subst σ ⟨.corpus id, args⟩ (w.decl id).kind
    simp only [ClassType.subst] at extended implicit ⊢
    simp only [impliedSupertype?, extended, implicit, Option.map_or, ne_eq, List.map_eq_nil_iff]
    congr 1
    split <;> simp [top]

theorem stepTo?_subst (step : Step) :
    w.stepTo? (c.subst σ) step = (w.stepTo? c step).map (ClassType.subst σ) := by
  cases step with
  | implied => exact impliedSupertype?_subst σ supplied self
  | written i =>
    simp only [stepTo?]
    change (w.supertypeRefs c.decl)[i]?.bind _ = _
    cases here : (w.supertypeRefs c.decl)[i]? with
    | none => rfl
    | some r =>
      change (w.rawSupertype? c.decl r).bind _ = _
      cases read : w.rawSupertype? c.decl r with
      | none => simp [read]
      | some t => simpa [read] using asClass?_subst σ supplied self (List.mem_of_getElem? here) read

end

theorem composed_subst {c : ClassType} {steps : List Step}
    (through : w.Through w.SelfContained c steps) :
    w.composed (c.subst σ) steps = (w.composed c steps).map (ClassType.subst σ) := by
  induction steps with
  | nil => rfl
  | cons last steps ih =>
    obtain ⟨before, self⟩ := through
    rw [composed, composed, ih before]
    cases below : w.composed c steps with
    | none => rfl
    | some u =>
      by_cases supplied : w.Supplied u
      · simp [Option.filter, supplied, supplied_subst, stepTo?_subst σ supplied (self u below)]
      · simp [Option.filter, supplied, supplied_subst]

end

theorem argument?_eq {c : ClassType} {name : String} {before after : List String} {a : RType}
    (params : w.paramNames c.decl = before ++ name :: after) (last : name ∉ after)
    (here : c.args[before.length]? = some a) : w.argument? c name = some a := by
  obtain ⟨args, args', split, same⟩ : ∃ args args', c.args = args ++ a :: args' ∧
    args.length = before.length := by
    obtain ⟨bound, rfl⟩ := List.getElem?_eq_some_iff.1 here
    refine ⟨c.args.take before.length, c.args.drop (before.length + 1), ?_, by simp; omega⟩
    rw [← List.drop_eq_getElem_cons bound, List.take_append_drop]
  rw [argument?, params, split, List.zip_append same.symm, List.zip_cons_cons, List.reverse_append,
    List.reverse_cons, List.append_assoc]
  refine List.lookup_eq_some_iff.2 ⟨_, _, rfl, fun e paired => ?_⟩
  have other := (List.of_mem_zip (List.mem_reverse.1 paired)).1
  exact bne_iff_ne.2 fun same => last (same ▸ other)

theorem fieldType_supplied {id : TypeId} {args : List RType}
    (supplied : w.Supplied ⟨.corpus id, args⟩) (f : Field) :
    w.fieldType (.declared id args f) =
      (w.fieldType (.declared id [] f)).map (RType.subst (w.argument? ⟨.corpus id, args⟩)) :=
  resolveRef_supplied (opens_typeContext id) supplied f.type

theorem fieldType_param {id : TypeId} {args : List RType} {f : Field} {name : String} {a : RType}
    (supplied : w.Supplied ⟨.corpus id, args⟩) (written : f.type = .ofName (.simple name))
    (bound : w.argument? ⟨.corpus id, args⟩ name = some a) :
    w.fieldType (.declared id args f) = .ok a := by
  have known : (w.bindings ⟨.corpus id, args⟩).get? name = some a :=
    (get?_bindings_of_supplied supplied name).trans bound
  rw [fieldType, written, resolveRef, TypeRef.ofName, Reading.resolve]
  simp [Name.simple, Name.isQualified, reading, known, RType.arrays]

theorem mem_stepsUp_of_found {c t : ClassType} (found : t ∈ (w.ancestry c).found) :
    ∃ n, t ∈ w.stepsUp (fun _ => true) c n := by
  obtain ⟨n, within, here⟩ := mem_found.1 found
  exact ⟨n, mem_stepsUp_of_layer (fun _ _ => rfl) (Nat.le_succ_of_le within) here⟩

theorem decl_of_declaredField? {name : String} {t : ClassType} {id : TypeId} {args : List RType}
    {f : Field} (hit : w.declaredField? name t = some (.declared id args f)) :
    t = ⟨.corpus id, args⟩ := by
  obtain ⟨d, args'⟩ := t
  cases d with
  | corpus id' =>
    obtain ⟨_, -, same⟩ := Option.map_eq_some_iff.1 hit
    cases same
    rfl
  | _ => cases hit

theorem stepsUp_of_findField {c : ClassType} {name : String} {id : TypeId} {args : List RType}
    {f : Field} (hit : w.findField name [c] = .ok (some (.declared id args f))) :
    ∃ n, ⟨.corpus id, args⟩ ∈ w.stepsUp (fun _ => true) c n := by
  rw [findField_singleton] at hit
  cases looked : (w.ancestry c).first w (w.declaredField? name) with
  | error e =>
    rw [looked] at hit
    cases hit
  | ok declared? =>
    rw [looked] at hit
    have answer := Except.ok.inj hit
    rcases Option.or_eq_some_iff.1 answer with rfl | ⟨-, outside⟩
    · obtain ⟨t, found, declares⟩ := first_ok looked
      exact decl_of_declaredField? declares ▸ mem_stepsUp_of_found found
    · -- No field from outside is a declared one.
      rcases Option.or_eq_some_iff.1 outside with known | ⟨-, guessed⟩
      · obtain ⟨t, -, told⟩ := List.exists_of_findSome?_eq_some known
        obtain ⟨_, -, same⟩ := Option.map_eq_some_iff.1 told
        cases same
      · obtain ⟨t, -, told⟩ := List.exists_of_findSome?_eq_some guessed
        unfold outsideField? at told
        split at told <;> cases told

/-- The types above a type, and those of the fields declared there, come from putting in the
arguments step after step. -/
theorem supertypes_composed (w : World) (c : ClassType) :
    (∀ n t, t ∈ w.stepsUp (fun u => w.Supplied u) c n ↔
      ∃ steps, steps.length = n ∧ w.composed c steps = some t) ∧
    (∀ σ steps, w.Through w.SelfContained c steps →
      w.composed (c.subst σ) steps = (w.composed c steps).map (ClassType.subst σ)) ∧
    ∀ field id args f, w.findField field [c] = .ok (some (.declared id args f)) →
      (∃ n, ⟨.corpus id, args⟩ ∈ w.stepsUp (fun _ => true) c n) ∧
      (w.Supplied ⟨.corpus id, args⟩ →
        w.fieldType (.declared id args f) =
          (w.fieldType (.declared id [] f)).map (RType.subst (w.argument? ⟨.corpus id, args⟩)) ∧
        ∀ before name after a, w.paramNames (.corpus id) = before ++ name :: after → name ∉ after →
          f.type = .ofName (.simple name) → args[before.length]? = some a →
            w.fieldType (.declared id args f) = .ok a) := by
  refine ⟨fun n t => mem_stepsUp_supplied,
    fun σ steps => composed_subst σ, fun field id args f hit => ?_⟩
  refine ⟨stepsUp_of_findField hit, fun supplied => ⟨fieldType_supplied supplied f, ?_⟩⟩
  intro before name after a params last written here
  exact fieldType_param supplied written (argument?_eq params last here)

-- `class Box<T> {} class Top<X, Y> { Y held; }`
-- `class Mid<A, B> extends Top<Box<? extends B[]>, A> {} class Low<K> extends Mid<K[], K> {}`
def swapped : World :=
  let applied (s : String) (args : List (Arg TypeRef)) : TypeRef :=
    { head := .named (.simple s), args }
  let arrayOf (s : String) : TypeRef := { TypeRef.simple s with dims := 1 }
  { units := [SourceUnit.ofTypes [
      { TypeDecl.ofClass "Box" [] [] with typeParams := [{ name := "T" }] },
      { TypeDecl.ofClass "Top" [] [] with
        typeParams := [{ name := "X" }, { name := "Y" }], fields :=
        [{ name := "held", type := .simple "Y" }] },
      { TypeDecl.ofClass "Mid" [applied "Top"
        [.type (applied "Box" [.bounded .upper (arrayOf "B")]), .type (.simple "A")]] [] with
        typeParams := [{ name := "A" }, { name := "B" }] },
      { TypeDecl.ofClass "Low" [applied "Mid" [.type (arrayOf "K"), .type (.simple "K")]] [] with
        typeParams := [{ name := "K" }] }]] }

-- Two steps up from `Low<int>` the arguments are swapped, and `held` is an `int[]`.
theorem supertypes_composed_swapped :
    let c : ClassType := ⟨.corpus ⟨0, 3⟩, [.prim .int]⟩
    let args : List RType :=
      [.ref (.corpus ⟨0, 0⟩) [.bounded .upper (.array (.prim .int))], .array (.prim .int)]
    let held : Field := { name := "held", type := .ofName (.simple "Y") }
    let up : List Step := [.written 0, .written 0]
    ⟨.corpus ⟨0, 1⟩, args⟩ ∈ swapped.stepsUp (fun u => swapped.Supplied u) c 2 ∧
      swapped.composed c up = (swapped.composed ⟨.corpus ⟨0, 3⟩, [.var "K" []]⟩ up).map
        (ClassType.subst fun n => if n = "K" then some (.prim .int) else none) ∧
      swapped.findField "held" [c] = .ok (some (.declared ⟨0, 1⟩ args held)) ∧
      swapped.fieldType (.declared ⟨0, 1⟩ args held) = .ok (.array (.prim .int)) := by
  intro c args held up
  obtain ⟨reached, -, fields⟩ := supertypes_composed swapped c
  obtain ⟨-, filled, -⟩ := supertypes_composed swapped ⟨.corpus ⟨0, 3⟩, [.var "K" []]⟩
  have found : swapped.findField "held" [c] = .ok (some (.declared ⟨0, 1⟩ args held)) := by rfl
  refine ⟨(reached 2 _).2 ⟨up, rfl, by decide +kernel⟩, ?_, found, ?_⟩
  · refine filled (fun n => if n = "K" then some (.prim .int) else none) up ⟨⟨trivial, ?_⟩, ?_⟩ <;>
      decide +kernel
  · exact ((fields _ _ _ _ found).2 (by decide +kernel)).2 ["X"] "Y" [] _ rfl (by decide) rfl rfl

end World

end RefGraph

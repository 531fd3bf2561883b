import RefGraph.Proofs.Makers
import RefGraph.Proofs.Supertypes
import RefGraph.Proofs.TypingSteps

set_option autoImplicit false

namespace RefGraph

namespace World

variable (w : World) (id : TypeId)

def impliedName : TypeKind → Name
  | .enumKind => ⟨"java", ["lang", "Enum"]⟩
  | .recordKind => ⟨"java", ["lang", "Record"]⟩
  | _ => topName

/-- The superclass of a type that extends none. An enum passes itself on, and an unknown class is
the top class. -/
def impliedSuperclass : ClassType :=
  let kind := (w.decl id).kind
  match w.resolve? none (impliedName kind) with
  | some d => ⟨d, if kind = .enumKind then [(selfType id).toType] else []⟩
  | none => w.top

def ruledSuperclass : ClassType :=
  match (w.decl id).superclasses with
  | r :: _ => (w.supertypeOf? (selfType id) r).getD w.top
  | [] => w.impliedSuperclass id

def SupertypesFound : Prop :=
  ∀ r ∈ (w.decl id).supertypes, (w.supertypeOf? (selfType id) r).isSome = true

instance : Decidable (w.SupertypesFound id) := List.decidableBAll _ _

/-- What `super` denotes in a type. -/
structure SuperIs (c : ClassType) : Prop where
  value (env : Env) (inside : TypeInside) (t : Tree) : env.world = w → env.innermost = .ok id →
    t.kind = "super" →
    env.typeBy inside t = pure c.toType
  named (env : Env) (inside : TypeInside) (t obj field : Tree) : env.world = w →
    t.child? "object" = some obj →
    env.typeNamed obj = .ok (.corpus id) → t.child? "field" = some field → field.kind = "super" →
    env.accessValue inside t = pure ⟨c.toType, false⟩
  constructs (env : Env) (inside : TypeInside) (t : Tree) : env.world = w → env.innermost = .ok id →
    (t.child? "constructor").any (·.kind == "this") = false →
    env.constructorCall inside t = (do
      let args ← env.argTypes inside t
      liftM (w.constructorCall c { args }))

theorem superIs_superclass : w.SuperIs id (w.superclass id) where
  value env inside t world here kind := by
    subst world
    rw [Env.typeBy, kind, here]
    rfl
  named env inside t obj field world object outer selected kind := by
    subst world
    have word : field.is Env.selfWords = true := by simp [Tree.is, kind, Env.selfWords]
    simp only [Env.accessValue, object, selected, word, if_true, outer, kind]
    rfl
  constructs env inside t world here notThis := by
    subst world
    rw [Env.constructorCall, here, notThis]
    rfl

theorem toType_injective {c c' : ClassType} (same : c.toType = c'.toType) : c = c' := by
  obtain ⟨d, args⟩ := c
  obtain ⟨d', args'⟩ := c'
  simpa [ClassType.toType] using same

variable {w id}

theorem SuperIs.unique {c c' : ClassType} (one : w.SuperIs id c) (other : w.SuperIs id c') :
    c = c' := by
  let env : Env := { world := w, context := { unit := id.unit, enclosing := [id] }, limit := 0 }
  let t : Tree := { kind := "super" }
  have same := (one.value env env.typeInside t rfl rfl rfl).symm.trans
    (other.value env env.typeInside t rfl rfl rfl)
  have run := congrArg (fun x : Typing RType => (x.run []).1) same
  exact toType_injective (Except.ok.inj run)

theorem superIs_iff {c : ClassType} : w.SuperIs id c ↔ w.superclass id = c := by
  constructor
  · exact (superIs_superclass w id).unique
  · rintro rfl
    exact superIs_superclass w id

theorem superclass_eq : w.superclass id =
    ((w.decl id).supertypes.filterMap (w.supertypeOf? (selfType id)) ++
      (w.impliedSupertype? (selfType id)).toList).head?.getD w.top := by
  rw [superclass, directSupertypes_eq]
  rfl

theorem superclass_of_written {r : TypeRef} {rs : List TypeRef} {c : ClassType}
    (written : (w.decl id).supertypes = r :: rs) (found : w.supertypeOf? (selfType id) r = some c) :
    w.superclass id = c := by
  rw [superclass_eq, written, List.filterMap_cons_some found]
  rfl

theorem known_getD (n : Name) (args : List RType) :
    (w.known n args).toOption.getD w.top =
      match w.resolve? none n with
      | some d => ⟨d, args⟩
      | none => w.top := by
  unfold known
  cases w.resolve? none n <;> rfl

theorem superclass_of_none (written : (w.decl id).supertypes = []) :
    w.superclass id = w.impliedSuperclass id := by
  have extended : (w.decl id).superclasses = [] := (List.append_eq_nil_iff.1 written).1
  have implied : w.impliedSupertype? (selfType id) = some (w.impliedSuperclass id) := by
    simp only [impliedSupertype?, impliedSuperclass, selfType, extended, List.filterMap_nil, ne_eq,
      not_true_eq_false, and_false, if_false]
    cases (w.decl id).kind with
    | enumKind => exact congrArg some (known_getD _ _)
    | recordKind => exact congrArg some (known_getD _ _)
    | _ => cases h : w.resolve? none topName <;> simp [implicitSuper?, impliedName, top, h]
  rw [superclass_eq, written, implied]
  rfl

theorem superclass_eq_ruled_iff (found : w.SupertypesFound id) :
    w.superclass id = w.ruledSuperclass id ↔
      ((w.decl id).superclasses = [] → ∀ i ∈ (w.decl id).interfaces.head?,
        w.supertypeOf? (selfType id) i = some (w.impliedSuperclass id)) := by
  cases extended : (w.decl id).superclasses with
  | cons r rs =>
    have written : (w.decl id).supertypes = r :: (rs ++ (w.decl id).interfaces) := by
      rw [TypeDecl.supertypes, extended]; rfl
    obtain ⟨c, meant⟩ := Option.isSome_iff_exists.1 (found r (by simp [written]))
    have ruled : w.ruledSuperclass id = c := by simp [ruledSuperclass, extended, meant]
    simp [superclass_of_written written meant, ruled]
  | nil =>
    have ruled : w.ruledSuperclass id = w.impliedSuperclass id := by
      simp [ruledSuperclass, extended]
    have supertypes : (w.decl id).supertypes = (w.decl id).interfaces := by
      rw [TypeDecl.supertypes, extended]; rfl
    cases implemented : (w.decl id).interfaces with
    | nil => simp [ruled, superclass_of_none (supertypes.trans implemented)]
    | cons i is =>
      obtain ⟨c, meant⟩ := Option.isSome_iff_exists.1 (found i (by simp [supertypes, implemented]))
      simp [ruled, superclass_of_written (supertypes.trans implemented) meant, meant]

theorem superclass_of_interface (extended : (w.decl id).superclasses = []) {i : TypeRef}
    {c : ClassType} (first : i ∈ (w.decl id).interfaces.head?)
    (meant : w.supertypeOf? (selfType id) i = some c) : w.superclass id = c := by
  obtain ⟨is, implemented⟩ := List.head?_eq_some_iff.1 first
  have written : (w.decl id).supertypes = i :: is := by
    rw [TypeDecl.supertypes, extended, implemented]; rfl
  exact superclass_of_written written meant

theorem constructorCall_of_none {c : ClassType} {s : TypeId} (corpus : c.decl = .corpus s)
    (without : (w.decl s).constructors = []) (p : Passed) :
    w.constructorCall c p = .error (.unresolved (.noConstructors (w.decl s).name)) := by
  simp [constructorCall, corpus, without, nameOf]

theorem constructorCall_of_outside {c : ClassType} (outside : isCorpus c.decl = false)
    (p : Passed) :
    w.constructorCall c p =
      .ok { member := .external ⟨w.nameOf c.decl, .constructor, c.decl, none⟩ } := by
  unfold constructorCall
  cases decl : c.decl with
  | corpus s => simp [decl, isCorpus] at outside
  | library n => rfl
  | placeholder q => rfl

/-- With all written supertypes found, `super` denotes the superclass exactly if the type extends a
class, implements nothing, or implements that very class first. -/
theorem super_denotes_superclass (w : World) (id : TypeId) (found : w.SupertypesFound id) :
    (w.SuperIs id (w.ruledSuperclass id) ↔
      ((w.decl id).superclasses = [] → ∀ i ∈ (w.decl id).interfaces.head?,
        w.supertypeOf? (selfType id) i = some (w.impliedSuperclass id))) ∧
    ((w.decl id).superclasses = [] → ∀ i ∈ (w.decl id).interfaces.head?, ∀ c,
      w.supertypeOf? (selfType id) i = some c →
      w.SuperIs id c ∧ ∀ s p, c.decl = .corpus s → (w.decl s).constructors = [] →
        w.constructorCall c p = .error (.unresolved (.noConstructors (w.decl s).name))) ∧
    ∀ p, isCorpus (w.ruledSuperclass id).decl = false →
      ∃ call, w.constructorCall (w.ruledSuperclass id) p = .ok call ∧ call.member =
        .external ⟨w.nameOf (w.ruledSuperclass id).decl, .constructor,
          (w.ruledSuperclass id).decl, none⟩ := by
  refine ⟨superIs_iff.trans (superclass_eq_ruled_iff found),
    fun extended i first c meant => ⟨?_, ?_⟩, ?_⟩
  · exact superIs_iff.2 (superclass_of_interface extended first meant)
  · exact fun s p corpus without => constructorCall_of_none corpus without p
  · exact fun p outside => ⟨_, constructorCall_of_outside outside p, rfl⟩

-- `class A {} interface I {} class C extends … implements I {}`
def classAndInterface (superclasses : List TypeRef) : World where
  units := [SourceUnit.ofTypes [
    TypeDecl.ofClass "A" [] [], { TypeDecl.ofClass "I" [] [] with kind := .interfaceKind },
    { TypeDecl.ofClass "C" superclasses [] with interfaces := [.ofName (.simple "I")] }]]

theorem super_denotes_superclass_extends :
    let w := classAndInterface [.ofName (.simple "A")]
    w.SupertypesFound ⟨0, 2⟩ ∧ w.ruledSuperclass ⟨0, 2⟩ = selfType ⟨0, 0⟩ ∧
      w.SuperIs ⟨0, 2⟩ (w.ruledSuperclass ⟨0, 2⟩) := by
  intro w
  have found : w.SupertypesFound ⟨0, 2⟩ := by decide +kernel
  have extended : (w.decl ⟨0, 2⟩).superclasses = [TypeRef.ofName (.simple "A")] := rfl
  exact ⟨found, by decide +kernel,
    (super_denotes_superclass w ⟨0, 2⟩ found).1.2 (by simp [extended])⟩

-- Without the class to extend, the interface is constructed, and it has no constructor.
theorem super_denotes_superclass_implements :
    let w := classAndInterface []
    w.SupertypesFound ⟨0, 2⟩ ∧ w.ruledSuperclass ⟨0, 2⟩ = ⟨.library topName, []⟩ ∧
      ¬ w.SuperIs ⟨0, 2⟩ (w.ruledSuperclass ⟨0, 2⟩) ∧ w.SuperIs ⟨0, 2⟩ (selfType ⟨0, 1⟩) ∧
      w.constructorCall (selfType ⟨0, 1⟩) { args := [] } =
        .error (.unresolved (.noConstructors "I")) := by
  intro w
  have first : w.superclass ⟨0, 2⟩ = selfType ⟨0, 1⟩ := by decide +kernel
  have ruled : w.ruledSuperclass ⟨0, 2⟩ = ⟨.library topName, []⟩ := by decide +kernel
  refine ⟨by decide +kernel, ruled, fun denoted => ?_, superIs_iff.2 first, ?_⟩
  · rw [superIs_iff, first, ruled] at denoted
    cases denoted
  · exact constructorCall_of_none (w := w) (s := ⟨0, 1⟩) rfl rfl _

end World

end RefGraph

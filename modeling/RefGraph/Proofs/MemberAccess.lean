import RefGraph.Proofs.Found
import RefGraph.Proofs.Makers
import RefGraph.Proofs.Renaming.Typing
import RefGraph.Proofs.ResolutionEnds

set_option autoImplicit false

namespace RefGraph

namespace World

variable (w : World)

def Silent (name : String) (d : Decl) : Prop :=
  isCorpus d = true ∨ w.qualified? d = some topName ∧ w.returns? name d = none

instance (name : String) (d : Decl) : Decidable (w.Silent name d) :=
  inferInstanceAs (Decidable (_ ∨ _))

def outsideMember? (name : String) (above : List ClassType) : Option FoundField :=
  (above.findSome? (w.knownField? name)).or (above.findSome? (w.outsideField? name))

variable {w} {name : String}

theorem silent_iff (c : ClassType) :
    w.Silent name c.decl ↔ w.knownField? name c = none ∧ w.outsideField? name c = none := by
  obtain ⟨d, args⟩ := c
  cases d with
  | corpus id => simp [Silent, isCorpus, knownField?, outsideField?, returns?]
  | library n => simp [Silent, isCorpus, knownField?, outsideField?, and_comm]
  | placeholder p => simp [Silent, isCorpus, knownField?, outsideField?, returns?]

theorem outsideMember?_eq_none {above : List ClassType} :
    w.outsideMember? name above = none ↔ ∀ u ∈ above, w.Silent name u.decl := by
  simp only [outsideMember?, Option.or_eq_none_iff, List.findSome?_eq_none_iff,
    silent_iff, forall_and]

theorem outsideMember?_eq_some {above : List ClassType} {f : FoundField}
    (hit : w.outsideMember? name above = some f) :
    ∃ member, ∃ owner ∈ above, f = .external member owner ∧ isCorpus owner.decl = false ∧
      member.name = name ∧ member.on = owner.decl := by
  rcases Option.or_eq_some_iff.1 hit with known | ⟨-, guessed⟩
  · obtain ⟨owner, listed, told⟩ := List.exists_of_findSome?_eq_some known
    obtain ⟨t, returns, rfl⟩ := Option.map_eq_some_iff.1 told
    refine ⟨_, owner, listed, rfl, ?_, rfl, rfl⟩
    cases h : owner.decl with
    | corpus id =>
      rw [h] at returns
      cases returns
    | library n => rfl
    | placeholder p => rfl
  · obtain ⟨owner, listed, told⟩ := List.exists_of_findSome?_eq_some guessed
    unfold outsideField? at told
    split at told
    · cases told
    · next outside =>
      cases told
      rw [Bool.or_eq_true, not_or] at outside
      exact ⟨_, owner, listed, rfl, Bool.eq_false_iff.2 outside.1, rfl, rfl⟩

theorem memberType?_of_ownMember? {c m : TypeId} (declares : w.ownMember? c name = some m) :
    w.memberType? c name = some m := by
  have bound : ∃ n, w.searchBound = n + 1 := ⟨_, rfl⟩
  obtain ⟨n, bound⟩ := bound
  rw [memberType?, bound, memberSearch, declares]

variable (w) in
def memberReferent (c m : TypeId) (name : String) : Except Failure Referent :=
  match (w.ancestry (selfType c)).beyond, w.outsideMember? name (w.ancestry (selfType c)).found with
  | some far, _ => .error (w.tooFar far)
  | none, some f => .ok (.field f)
  | none, none => .ok (.type (.corpus m))

section

variable {c m : TypeId}

theorem memberReferent_of_far {far : ClassType}
    (beyond : (w.ancestry (selfType c)).beyond = some far) :
    w.memberReferent c m name = .error (w.tooFar far) := by
  rw [memberReferent, beyond]

theorem memberReferent_of_silent (done : (w.ancestry (selfType c)).beyond = none)
    (silent : ∀ u ∈ (w.ancestry (selfType c)).found, w.Silent name u.decl) :
    w.memberReferent c m name = .ok (.type (.corpus m)) := by
  rw [memberReferent, done, outsideMember?_eq_none.2 silent]

theorem memberReferent_of_outside {f : FoundField} (done : (w.ancestry (selfType c)).beyond = none)
    (hit : w.outsideMember? name (w.ancestry (selfType c)).found = some f) :
    w.memberReferent c m name = .ok (.field f) := by
  rw [memberReferent, done, hit]

end

theorem findField_undeclared {c : ClassType}
    (undeclared : ∀ u ∈ (w.ancestry c).found, w.declaredField? name u = none) :
    w.findField name [c] =
      match (w.ancestry c).beyond with
      | some far => .error (w.tooFar far)
      | none => .ok (w.outsideMember? name (w.ancestry c).found) := by
  rw [findField_singleton, Ancestry.first, List.findSome?_eq_none_iff.2 undeclared]
  cases (w.ancestry c).beyond <;> rfl

end World

namespace Env

open World (selfType)

variable {env : Env} {t : Tree} {c m : TypeId} {name : String}

/-- The node is the name of a type of the corpus, a dot, and the name of a member type that it
declares; and no type above declares a field of that name. -/
structure NamesMember (env : Env) (t : Tree) (c m : TypeId) (name : String) : Prop where
  kind : t.kind = "field_access"
  outer : ∃ obj, t.child? "object" = some obj ∧ obj.kind = "identifier" ∧
    env.simpleName obj.text = .ok (.type (.corpus c))
  inner : ∃ field, t.child? "field" = some field ∧ field.is selfWords = false ∧ field.text = name
  declares : env.world.ownMember? c name = some m
  noField : ∀ u ∈ (env.world.ancestry (selfType c)).found, env.world.declaredField? name u = none

theorem memberOf_eq (declares : env.world.ownMember? c name = some m)
    (noField : ∀ u ∈ (env.world.ancestry (selfType c)).found,
      env.world.declaredField? name u = none) :
    env.memberOf ⟨.ref (.corpus c) [], true⟩ name = env.world.memberReferent c m name := by
  have searched := World.findField_undeclared noField
  rw [selfType] at searched
  have inner : env.memberType? ⟨.ref (.corpus c) [], true⟩ name = some m :=
    World.memberType?_of_ownMember? declares
  simp only [memberOf, RType.isArray, RType.classes, Bool.false_and, Bool.false_eq_true, if_false,
    searched, inner, World.memberReferent, selfType]
  cases (env.world.ancestry ⟨.corpus c, []⟩).beyond with
  | some far => rfl
  | none => cases env.world.outsideMember? name (env.world.ancestry ⟨.corpus c, []⟩).found <;> rfl

namespace NamesMember

variable (names : env.NamesMember t c m name) (inside : TypeInside)

include names

theorem access_eq : env.access inside t = liftM (env.world.memberReferent c m name) := by
  obtain ⟨obj, isObject, simple, denotes⟩ := names.outer
  obtain ⟨field, isField, plain, rfl⟩ := names.inner
  have object : env.objectReceiver inside t.children = pure ⟨.ref (.corpus c) [], true⟩ := by
    rw [objectReceiver_eq isObject, receiver_eq, if_pos (by simp [simple]), denotes]
    rfl
  rw [access, accessOn, isObject, isField, object, ← memberOf_eq names.declares names.noField]
  simp only [plain, Bool.false_eq_true, if_false]
  rfl

theorem receiver_eq :
    env.receiver inside t = liftM (env.world.memberReferent c m name) >>=
      env.asReceiver inside := by
  obtain ⟨field, isField, plain, -⟩ := names.inner
  have access := names.access_eq inside
  rw [Env.access] at access
  rw [Env.receiver_eq, if_neg (by simp [names.kind]), if_pos (by simp [names.kind]),
    if_neg (by simp [isField, plain]), access]

theorem targetOf_eq :
    env.targetOf t = liftM ((env.world.memberReferent c m name).map env.referentTarget) := by
  simp only [targetOf, names.kind, names.access_eq]
  cases env.world.memberReferent c m name <;> rfl

section

variable {call : Tree} {method : String} (object : call.child? "object" = some t)
  (called : call.childText? "name" = some method)

include object called

theorem call_of_type (meant : env.world.memberReferent c m name = .ok (.type (.corpus m))) :
    env.call inside call = (do
      let args ← env.argTypes inside call
      liftM (env.world.callOn method { args, explicit := env.explicitArgs call } none
        [selfType m])) := by
  simp only [Env.call, called, object, names.kind, names.receiver_eq, meant]
  rfl

theorem call_of_error {f : FoundField} {e : Failure}
    (meant : env.world.memberReferent c m name = .ok (.field f))
    (untyped : env.world.fieldType f = .error e) :
    env.call inside call = (do
      let _ ← env.argTypes inside call
      throw e) := by
  have stuck : env.asReceiver inside (.field f) = throw e := by
    rw [asReceiver, untyped]
    rfl
  simp only [Env.call, called, object, names.kind, names.receiver_eq, meant]
  refine bind_congr fun args => ?_
  change (env.asReceiver inside (.field f) >>= _) = _
  rw [stuck]
  rfl

end

end NamesMember

/-- A member type behind its outer type is meant exactly if the search up from the outer type ends,
and nothing that it finds outside the corpus may have such a field. -/
theorem member_type_meant (names : env.NamesMember t c m name) :
    let above := env.world.ancestry (selfType c)
    (env.targetOf t = pure (.type (.corpus m)) ↔
      above.beyond = none ∧ ∀ u ∈ above.found, env.world.Silent name u.decl) ∧
    (above.beyond = none → (∀ u ∈ above.found, env.world.Silent name u.decl) →
      ∀ inside call method, call.child? "object" = some t → call.childText? "name" = some method →
        env.call inside call = (do
          let args ← env.argTypes inside call
          liftM (env.world.callOn method { args, explicit := env.explicitArgs call } none
            [selfType m]))) ∧
    (above.beyond = none → (∃ u ∈ above.found, ¬ env.world.Silent name u.decl) →
      ∃ member, ∃ owner ∈ above.found, World.isCorpus owner.decl = false ∧ member.name = name ∧
        member.on = owner.decl ∧
        env.targetOf t = pure (.member (.external member)) ∧
        (member.returns = none →
          ∀ inside call method, call.child? "object" = some t →
            call.childText? "name" = some method →
            env.call inside call = (do
              let _ ← env.argTypes inside call
              throw (.unresolved (.fieldType name))))) ∧
    ∀ far, above.beyond = some far → env.targetOf t = throw (env.world.tooFar far) := by
  intro above
  have target := names.targetOf_eq
  have far : ∀ far, above.beyond = some far → env.targetOf t = throw (env.world.tooFar far) := by
    intro far beyond
    rw [target, World.memberReferent_of_far beyond]
    rfl
  have outside : above.beyond = none → (∃ u ∈ above.found, ¬ env.world.Silent name u.decl) →
      ∃ member, ∃ owner ∈ above.found, World.isCorpus owner.decl = false ∧ member.name = name ∧
        member.on = owner.decl ∧
        env.world.memberReferent c m name = .ok (.field (.external member owner)) := by
    rintro done ⟨u, above, heard⟩
    obtain ⟨f, hit⟩ := Option.ne_none_iff_exists'.1 fun none =>
      heard (World.outsideMember?_eq_none.1 none u above)
    obtain ⟨member, owner, listed, rfl, outside, named, on⟩ := World.outsideMember?_eq_some hit
    exact ⟨member, owner, listed, outside, named, on, World.memberReferent_of_outside done hit⟩
  refine ⟨?_, fun done silent inside call method object called => ?_, fun done heard => ?_, far⟩
  · constructor
    · intro meant
      have result : ((env.targetOf t).run []).1 = .ok (.type (.corpus m)) := by rw [meant]; rfl
      cases h : above.beyond with
      | some beyond =>
        rw [far beyond h] at result
        cases result
      | none =>
        refine ⟨rfl, ?_⟩
        by_contra heard
        simp only [not_forall, exists_prop] at heard
        obtain ⟨member, owner, -, -, -, -, field⟩ := outside h heard
        rw [target, field] at result
        cases result
    · rintro ⟨done, silent⟩
      rw [target, World.memberReferent_of_silent done silent]
      rfl
  · exact names.call_of_type inside object called (World.memberReferent_of_silent done silent)
  · obtain ⟨member, owner, listed, foreign, named, on, meant⟩ := outside done heard
    refine ⟨member, owner, listed, foreign, named, on, ?_,
      fun untold inside call method object called => ?_⟩
    · rw [target, meant]
      rfl
    · refine names.call_of_error inside object called meant ?_
      rw [World.fieldType, untold, named]

-- `class C implements … { static class M { static void f() {} } } class A {}`
def outerType (interfaces : List TypeRef) : World where
  units := [SourceUnit.ofTypes [
    { TypeDecl.ofClass "C" [] [] with interfaces },
    { TypeDecl.ofClass "M" [] [{ name := "f" }] with place := .body 0 },
    TypeDecl.ofClass "A" [] []]]
  sources := [.library (NameTable.ofList [{ name := ⟨"java", ["lang", "Runnable"]⟩ }])]

def insideA (interfaces : List TypeRef) : Env where
  world := outerType interfaces
  context := (outerType interfaces).typeContext ⟨0, 2⟩ {}
  limit := 48

-- `C.M`
def memberTree : Tree := Node.access (Node.leaf "identifier" "C" "object") "" "M"

-- `C.M.f()`
def memberCall : Tree := Node.call 0 [memberTree] "f" []

theorem namesMember_memberTree {interfaces : List TypeRef}
    (simple : (insideA interfaces).simpleName "C" = .ok (.type (.corpus ⟨0, 0⟩)))
    (noField : ∀ u ∈ ((outerType interfaces).ancestry (selfType ⟨0, 0⟩)).found,
      ((outerType interfaces).declaredField? "M" u).isNone) :
    (insideA interfaces).NamesMember memberTree ⟨0, 0⟩ ⟨0, 1⟩ "M" where
  kind := rfl
  outer := ⟨_, rfl, rfl, simple⟩
  inner := ⟨_, rfl, rfl, rfl⟩
  declares := rfl
  noField u above := Option.isNone_iff_eq_none.1 (noField u above)

theorem member_type_meant_alone :
    let env := insideA []
    env.targetOf memberTree = pure (.type (.corpus ⟨0, 1⟩)) ∧
      env.call env.typeInside memberCall = (do
        let args ← env.argTypes env.typeInside memberCall
        liftM (env.world.callOn "f" { args, explicit := env.explicitArgs memberCall } none
          [selfType ⟨0, 1⟩])) := by
  intro env
  have names : env.NamesMember memberTree ⟨0, 0⟩ ⟨0, 1⟩ "M" :=
    namesMember_memberTree (by rfl) (by decide +kernel)
  have silent : (env.world.ancestry (selfType ⟨0, 0⟩)).beyond = none ∧
      ∀ u ∈ (env.world.ancestry (selfType ⟨0, 0⟩)).found, env.world.Silent "M" u.decl := by
    decide +kernel
  obtain ⟨meant, called, -⟩ := member_type_meant names
  exact ⟨meant.2 silent, called silent.1 silent.2 _ memberCall "f" rfl rfl⟩

-- An interface from the library is enough: `C.M` is taken for a field of it.
theorem member_type_meant_runnable :
    let env := insideA [.ofName (.simple "Runnable")]
    env.NamesMember memberTree ⟨0, 0⟩ ⟨0, 1⟩ "M" ∧
      env.targetOf memberTree =
        pure (.member (.external ⟨"M", .field, .library ⟨"java", ["lang", "Runnable"]⟩, none⟩)) ∧
      env.call env.typeInside memberCall = (do
        let _ ← env.argTypes env.typeInside memberCall
        throw (.unresolved (.fieldType "M"))) := by
  intro env
  have names : env.NamesMember memberTree ⟨0, 0⟩ ⟨0, 1⟩ "M" :=
    namesMember_memberTree (by rfl) (by decide +kernel)
  have above : (env.world.ancestry (selfType ⟨0, 0⟩)).found =
      [selfType ⟨0, 0⟩, ⟨.library ⟨"java", ["lang", "Runnable"]⟩, []⟩, ⟨.library topName, []⟩] := by
    decide +kernel
  have meant : env.world.memberReferent ⟨0, 0⟩ ⟨0, 1⟩ "M" = .ok (.field (.external
      ⟨"M", .field, .library ⟨"java", ["lang", "Runnable"]⟩, none⟩
      ⟨.library ⟨"java", ["lang", "Runnable"]⟩, []⟩)) := by
    refine World.memberReferent_of_outside (by decide +kernel) ?_
    rw [above]
    rfl
  refine ⟨names, ?_, names.call_of_error _ rfl rfl meant rfl⟩
  rw [names.targetOf_eq, meant]
  rfl

end Env

end RefGraph

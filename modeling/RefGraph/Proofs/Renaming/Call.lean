import RefGraph.Call
import RefGraph.Proofs.Renaming.Members

set_option autoImplicit false

namespace RefGraph

variable (σ : Nat → Nat)

def MemberRef.rename : MemberRef → MemberRef
  | .declared m => .declared (m.rename σ)
  | .external m => .external (m.rename σ)

def Call.rename (c : Call) : Call := ⟨c.member.rename σ, c.bindings.map (RType.rename σ)⟩

def Passed.rename (p : Passed) : Passed :=
  ⟨p.args.map (Option.map (RType.rename σ)), p.explicit.map (RType.rename σ)⟩

@[simp] theorem MemberRef.rename_id : MemberRef.rename id = id := by
  funext m
  cases m <;> simp [rename, ExternalMember.rename]

@[simp] theorem RType.isArray_rename (t : RType) : (t.rename σ).isArray = t.isArray := by
  cases t <;> simp [RType.isArray]

theorem RType.peel?_rename (n : Nat) (t : RType) :
    (t.rename σ).peel? n = (t.peel? n).map (RType.rename σ) := by
  induction n generalizing t with
  | zero => rfl
  | succ n ih =>
    cases t with
    | array c => simpa [RType.peel?] using ih c
    | _ => simp [RType.peel?]

theorem RType.evidence?_rename (t : RType) :
    (t.rename σ).evidence? = t.evidence?.map (RType.rename σ) := by
  cases t <;> simp [RType.evidence?]

@[simp] theorem World.writtenFor?_rename (params : List Param) (index : Nat) (t : RType) :
    World.writtenFor? params index (t.rename σ) = World.writtenFor? params index t := by
  simp only [World.writtenFor?, RType.isArray_rename]

namespace World.Renamed

variable {σ : Nat → Nat} {w w' : World} (renamed : Renamed σ w w')

include renamed

theorem boxed (t : RType) : w'.boxed (t.rename σ) = (w.boxed t).rename σ := by
  cases t with
  | prim p =>
    have known (n : Name) := renamed.known n []
    simp only [List.map_nil] at known
    simp only [RType.rename_prim, World.boxed, known]
    rcases p.box? with _ | n
    · simp
    · simp only [Option.bind_some]
      cases w.known n [] <;> simp [Except.map, Except.toOption]
  | _ => simp [World.boxed]

theorem bind (name : String) (actual : RType) (inferred : Bindings RType) :
    w'.bind name (actual.rename σ) (inferred.map (RType.rename σ)) =
      (w.bind name actual inferred).map (Bindings.map (RType.rename σ)) := by
  have null : actual.rename σ = .null ↔ actual = .null := by
    cases actual <;> simp
  simp only [World.bind, null, renamed.boxed, Bindings.get?_map]
  split
  · rfl
  · cases inferred.get? name with
    | none => simp [Except.map]
    | some previous =>
      simp only [Option.map_some, renamed.passes, renamed.describe]
      refine bind_alike _ fun wider => ?_
      cases wider with
      | true => simp [Except.map, pure, Except.pure]
      | false =>
        refine bind_alike _ fun narrower => ?_
        cases narrower <;> rfl

omit renamed in
mutual
theorem unify (renamed : Renamed σ w w') (names : List String) (inferred : Bindings RType) :
    (t : TypeRef) → (actual : RType) →
    w'.unify names (inferred.map (RType.rename σ)) t (actual.rename σ) =
      (w.unify names inferred t actual).map (Bindings.map (RType.rename σ))
  | { head, args, dims }, actual => by
    rw [World.unify, World.unify, RType.peel?_rename]
    cases actual.peel? dims with
    | none => rfl
    | some actual =>
      simp only [Option.map_some]
      cases args with
      | nil =>
        dsimp only
        split
        · exact renamed.bind head.name.first actual inferred
        · rfl
      | cons a as =>
        cases actual with
        | ref d actuals =>
          have inside := renamed.unifyAll names inferred (a :: as) actuals
          simp only [RType.rename_ref, renamed.nameOf, List.length_map]
          split
          · exact inside
          · rfl
        | _ => simp [Except.map]

theorem unifyArg (renamed : Renamed σ w w') (names : List String) (inferred : Bindings RType) :
    (a : Arg TypeRef) → (actual : RType) →
    w'.unifyArg names (inferred.map (RType.rename σ)) a (actual.rename σ) =
      (w.unifyArg names inferred a actual).map (Bindings.map (RType.rename σ))
  | .type t, actual => by
    rw [World.unifyArg, World.unifyArg, RType.evidence?_rename]
    cases actual.evidence? with
    | none => rfl
    | some evidence => exact renamed.unify names inferred t evidence
  | .bounded v t, actual => by
    rw [World.unifyArg, World.unifyArg, RType.evidence?_rename]
    cases actual.evidence? with
    | none => rfl
    | some evidence => exact renamed.unify names inferred t evidence
  | .unbounded, actual => by
    rw [World.unifyArg, World.unifyArg]
    rfl

theorem unifyAll (renamed : Renamed σ w w') (names : List String) (inferred : Bindings RType) :
    (args : List (Arg TypeRef)) → (actuals : List RType) →
    w'.unifyAll names (inferred.map (RType.rename σ)) args (actuals.map (RType.rename σ)) =
      (w.unifyAll names inferred args actuals).map (Bindings.map (RType.rename σ))
  | [], actuals => by
    rw [World.unifyAll, World.unifyAll] <;> simp [Except.map]
  | a :: as, [] => by
    rw [List.map_nil, World.unifyAll, World.unifyAll] <;> simp [Except.map]
  | a :: as, t :: ts => by
    rw [List.map_cons, World.unifyAll, World.unifyAll, renamed.unifyArg names inferred a t]
    exact bind_rename _ fun found => renamed.unifyAll names found as ts
end

theorem inferFrom (names : List String) (params : List Param) (inferred : Bindings RType)
    (args : List (Option RType × Nat)) :
    w'.inferFrom names params (inferred.map (RType.rename σ))
        (args.map fun a => (a.1.map (RType.rename σ), a.2)) =
      (w.inferFrom names params inferred args).map (Bindings.map (RType.rename σ)) := by
  induction args generalizing inferred with
  | nil => rfl
  | cons a rest ih =>
    obtain ⟨actual, index⟩ := a
    cases actual with
    | none => exact ih inferred
    | some actual =>
      simp only [List.map_cons, Option.map_some, World.inferFrom, World.writtenFor?_rename]
      cases World.writtenFor? params index actual with
      | none => rfl
      | some written =>
        simp only [renamed.unify]
        exact bind_rename _ ih

theorem infer (c : Candidate) (args : List (Option RType)) (explicit : List RType) :
    w'.infer (c.rename σ) (args.map (Option.map (RType.rename σ))) (explicit.map (RType.rename σ)) =
      (w.infer c args explicit).map (Bindings.map (RType.rename σ)) := by
  have bindings : w'.bindings (c.rename σ).on = (w.bindings c.on).map (RType.rename σ) :=
    renamed.bindings c.on
  have names : (c.rename σ).member.member = c.member.member := rfl
  have indexed : (args.map (Option.map (RType.rename σ))).zipIdx =
      args.zipIdx.map fun a => (a.1.map (RType.rename σ), a.2) := by
    rw [List.zipIdx_map]
    rfl
  have inferred :=
    renamed.inferFrom (c.member.member.typeParams.map (·.name)) c.params {} args.zipIdx
  rw [Bindings.map_empty] at inferred
  rw [World.infer, World.infer]
  simp only [bindings, names, Candidate.params_rename, indexed, inferred, List.isEmpty_map,
    List.length_map]
  split
  · rfl
  · split
    · simp only [pure, Except.pure, Except.map, Bindings.map_setAll]
      rw [← List.map_id (c.member.member.typeParams.map (·.name)), List.zip_map, List.map_id]
      rfl
    · refine bind_rename _ fun found => ?_
      simp [Except.map, pure, Except.pure]

theorem resolvedCall (c : Candidate) (p : Passed) :
    w'.resolvedCall (c.rename σ) (p.rename σ) = (w.resolvedCall c p).map (Call.rename σ) := by
  rw [World.resolvedCall, World.resolvedCall, Passed.rename, renamed.infer]
  exact bind_rename _ fun found => rfl

theorem selectCall (name : String) (methods : List Candidate) (p : Passed) :
    w'.selectCall name (methods.map (Candidate.rename σ)) (p.rename σ) =
      (w.selectCall name methods p).map (Option.map (Call.rename σ)) := by
  have chosen := renamed.select name methods p.args
  rw [World.selectCall, World.selectCall]
  simp only [Passed.rename, chosen]
  refine bind_rename _ fun found => ?_
  cases found with
  | none => rfl
  | some c =>
    have called := renamed.resolvedCall c p
    simp only [Option.map_some, Passed.rename] at called ⊢
    rw [called]
    exact bind_rename _ fun call => rfl

theorem libraryCall (name : String) (owner : ClassType) :
    w'.libraryCall name (owner.rename σ) = (w.libraryCall name owner).rename σ := by
  simp only [World.libraryCall, Call.rename, MemberRef.rename, ExternalMember.rename,
    ClassType.decl_rename, renamed.returns?, renamed.bindings]

theorem outsideCall (name : String) (owner : ClassType) :
    w'.outsideCall name (owner.rename σ) = (w.outsideCall name owner).rename σ := by
  simp only [World.outsideCall, Call.rename, MemberRef.rename, ExternalMember.rename,
    ClassType.decl_rename, renamed.bindings]

theorem callOn (name : String) (p : Passed) (outside : Option ClassType) (cs : List ClassType) :
    w'.callOn name (p.rename σ) (outside.map (ClassType.rename σ)) (cs.map (ClassType.rename σ)) =
      (w.callOn name p outside cs).map (Call.rename σ) := by
  induction cs generalizing outside with
  | nil =>
    cases outside with
    | none => simp [World.callOn, Passed.rename, Except.map]
    | some c => simp [World.callOn, renamed.outsideCall, Except.map]
  | cons c cs ih =>
    rw [List.map_cons, World.callOn, World.callOn, renamed.findMethods]
    refine bind_rename _ fun found => ?_
    simp only [World.MethodSearch.rename, renamed.selectCall]
    refine bind_rename _ fun call => ?_
    cases call with
    | some call => rfl
    | none =>
      cases found.library with
      | some l => simp [renamed.libraryCall, Except.map, pure, Except.pure]
      | none =>
        have rest := ih (outside.or found.outside)
        rwa [Option.map_or] at rest

theorem importedCall (ctx : Context) (name : String) (p : Passed) (i : StaticImport) :
    w'.importedCall (ctx.rename σ) name (p.rename σ) i =
      (w.importedCall ctx name p i).map (Option.map (Call.rename σ)) := by
  rw [World.importedCall, World.importedCall, renamed.ownerOf?]
  cases w.ownerOf? ctx i with
  | none => rfl
  | some owner =>
    simp only [Option.map_some, renamed.findMethods]
    refine bind_rename _ fun found => ?_
    simp only [World.MethodSearch.rename, renamed.selectCall]
    refine bind_rename _ fun call => ?_
    cases call with
    | some call => rfl
    | none =>
      cases found.library with
      | some l => simp [renamed.libraryCall, Except.map, pure, Except.pure]
      | none =>
        cases found.outside with
        | none => rfl
        | some c => cases i.single <;> simp [renamed.outsideCall, Except.map, pure, Except.pure]

theorem inheritedOutside? (name : String) (s : World.MethodSearch) :
    w'.inheritedOutside? name (s.rename σ) = (w.inheritedOutside? name s).map (Call.rename σ) := by
  simp only [World.inheritedOutside?, World.MethodSearch.rename]
  cases s.library with
  | some l => simp [renamed.libraryCall]
  | none =>
    cases s.outside with
    | none => rfl
    | some c =>
      simp only [Option.map_none, Option.map_some, ClassType.decl_rename,
        World.isPlaceholder_rename, renamed.outsideCall]
      split <;> rfl

theorem mapM_findMethods (name : String) (around : List TypeId) :
    ((around.map (TypeId.rename σ)).mapM fun t => w'.findMethods name (World.selfType t)) =
      (around.mapM fun t => w.findMethods name (World.selfType t)).map
        (List.map (World.MethodSearch.rename σ)) := by
  induction around with
  | nil => rfl
  | cons t ts ih =>
    rw [List.map_cons, List.mapM_cons, List.mapM_cons, ← World.selfType_rename,
      renamed.findMethods, ih]
    refine bind_rename _ fun found => ?_
    exact bind_rename _ fun rest => rfl

theorem bareCall (ctx : Context) (name : String) (p : Passed) :
    w'.bareCall (ctx.rename σ) name (p.rename σ) = (w.bareCall ctx name p).map (Call.rename σ) := by
  have imported := renamed.findSomeM?_staticImports ctx name (renamed.importedCall ctx name p)
  rw [World.bareCall, World.bareCall, imported, Context.enclosing_rename, renamed.mapM_findMethods]
  refine bind_rename _ fun around => ?_
  have own : ((around.map (World.MethodSearch.rename σ)).findSomeM? fun s =>
      w'.selectCall name s.methods (p.rename σ)) =
      (around.findSomeM? fun s => w.selectCall name s.methods p).map (Option.map (Call.rename σ)) :=
    findSomeM?_rename around fun s => renamed.selectCall name s.methods p
  rw [own]
  refine bind_rename _ fun call => ?_
  cases call with
  | some call => rfl
  | none =>
    simp only [Option.map_none]
    refine bind_rename _ fun call => ?_
    cases call with
    | some call => rfl
    | none =>
      have outside := findSome?_rename around fun s _ => renamed.inheritedOutside? name s
      simp only [Option.map_none, outside]
      cases around.findSome? (w.inheritedOutside? name) with
      | some call => rfl
      | none => simp [Passed.rename, throw, throwThe, MonadExceptOf.throw, Except.map]

theorem constructorCall (target : ClassType) (p : Passed) :
    w'.constructorCall (target.rename σ) (p.rename σ) =
      (w.constructorCall target p).map (Call.rename σ) := by
  obtain ⟨d, args⟩ := target
  have name := renamed.nameOf d
  cases d with
  | corpus id =>
    simp only [World.constructorCall, ClassType.rename, Decl.rename] at name ⊢
    rw [name, renamed.decl]
    cases (w.decl id).constructors with
    | nil => rfl
    | cons c cs =>
      have chosen := renamed.selectCall (w.nameOf (.corpus id))
        ((c :: cs).map fun c => ⟨⟨id, .constructor c⟩, ⟨.corpus id, args⟩⟩) p
      rw [List.map_map] at chosen
      dsimp only
      refine Eq.trans (congrArg (· >>= _) chosen) (bind_rename _ fun call => ?_)
      cases call with
      | some call => rfl
      | none => simp [Passed.rename, throw, throwThe, MonadExceptOf.throw, Except.map]
  | library n => rfl
  | placeholder q => rfl

theorem returnType (call : Call) :
    w'.returnType (call.rename σ) = (w.returnType call).map (RType.rename σ) := by
  obtain ⟨member, bindings⟩ := call
  cases member with
  | declared m =>
    have context := renamed.memberContext m
    have member : (m.rename σ).member = m.member := rfl
    simp only [World.returnType, Call.rename, MemberRef.rename, context, member]
    cases m.member with
    | method method => exact renamed.resolveRef_some (w.memberContext m) bindings method.returns
    | constructor c => rfl
    | field f => rfl
  | external m =>
    simp only [World.returnType, Call.rename, MemberRef.rename, ExternalMember.rename]
    cases m.returns with
    | none => rfl
    | some t => exact renamed.resolveRef none bindings t

end World.Renamed

end RefGraph

import RefGraph.Overload
import RefGraph.Proofs.Renaming.Hierarchy

set_option autoImplicit false

namespace RefGraph

-- Two computations that give the same up to a renaming still do after steps that respect it.
theorem bind_rename {α β γ δ : Type} {f : α → β} {g : γ → δ} {next : α → Except Failure γ}
    {next' : β → Except Failure δ} (x : Except Failure α)
    (each : ∀ a, next' (f a) = (next a).map g) :
    (x.map f >>= next') = (x >>= next).map g := by
  cases x with
  | error e => rfl
  | ok a => exact each a

theorem bind_alike {α γ δ : Type} {g : γ → δ} {next : α → Except Failure γ}
    {next' : α → Except Failure δ} (x : Except Failure α) (each : ∀ a, next' a = (next a).map g) :
    (x >>= next') = (x >>= next).map g := by
  cases x with
  | error e => rfl
  | ok a => exact each a

theorem findSomeM?_rename {α β γ δ : Type} {f : α → β} {g : γ → δ} (xs : List α)
    {p : α → Except Failure (Option γ)} {q : β → Except Failure (Option δ)}
    (each : ∀ x, q (f x) = (p x).map (Option.map g)) :
    (xs.map f).findSomeM? q = (xs.findSomeM? p).map (Option.map g) := by
  induction xs with
  | nil => rfl
  | cons x xs ih =>
    rw [List.map_cons, List.findSomeM?, List.findSomeM?, each]
    refine bind_rename (p x) fun found => ?_
    cases found with
    | none => exact ih
    | some c => rfl

theorem allM_rename {α β : Type} {f : α → β} (xs : List α) {p : α → Except Failure Bool}
    {q : β → Except Failure Bool} (each : ∀ x ∈ xs, q (f x) = p x) :
    (xs.map f).allM q = xs.allM p := by
  induction xs with
  | nil => rfl
  | cons x xs ih =>
    rw [List.map_cons, List.allM, List.allM, each x List.mem_cons_self,
      ih fun y listed => each y (List.mem_cons_of_mem _ listed)]

theorem filterM_rename {α β : Type} {f : α → β} (xs : List α) {p : α → Except Failure Bool}
    {q : β → Except Failure Bool} (each : ∀ x, q (f x) = p x) :
    (xs.map f).filterM q = (xs.filterM p).map (List.map f) := by
  -- The kept elements are collected in reverse.
  have collect (xs kept : List α) :
      (xs.map f).filterAuxM q (kept.map f) = (xs.filterAuxM p kept).map (List.map f) := by
    induction xs generalizing kept with
    | nil => rfl
    | cons x xs ih =>
      rw [List.map_cons, List.filterAuxM, List.filterAuxM, each]
      cases p x with
      | error e => rfl
      | ok keep =>
        cases keep with
        | true => exact ih (x :: kept)
        | false => exact ih kept
  have collected := collect xs []
  rw [List.map_nil] at collected
  rw [List.filterM, List.filterM, collected]
  cases xs.filterAuxM p [] with
  | error e => rfl
  | ok kept => simp [Except.map, bind, Except.bind, pure, Except.pure]

variable (σ : Nat → Nat)

def ExternalMember.rename (m : ExternalMember) : ExternalMember := { m with on := m.on.rename σ }

def FoundField.rename : FoundField → FoundField
  | .declared owner args f => .declared (owner.rename σ) (args.map (RType.rename σ)) f
  | .external m owner => .external (m.rename σ) (owner.rename σ)
  | .arrayLength => .arrayLength

def Candidate.rename (c : Candidate) : Candidate := ⟨c.member.rename σ, c.on.rename σ⟩

def World.MethodSearch.rename (s : World.MethodSearch) : World.MethodSearch where
  methods := s.methods.map (Candidate.rename σ)
  outside := s.outside.map (ClassType.rename σ)
  library := s.library.map (ClassType.rename σ)

def Choice.rename (c : Choice) :
    Choice := ⟨c.candidate.rename σ, c.types.map (Option.map (RType.rename σ))⟩

@[simp] theorem Candidate.params_rename (c : Candidate) : (c.rename σ).params = c.params := rfl

@[simp] theorem Candidate.text_rename (c : Candidate) : (c.rename σ).text = c.text := rfl

@[simp] theorem World.isCorpus_rename (d : Decl) :
    World.isCorpus (d.rename σ) = World.isCorpus d := by
  cases d <;> rfl

@[simp] theorem World.isPlaceholder_rename (d : Decl) :
    World.isPlaceholder (d.rename σ) = World.isPlaceholder d := by
  cases d <;> rfl

@[simp] theorem World.selfType_rename (t : TypeId) :
    (World.selfType t).rename σ = World.selfType (t.rename σ) := rfl

namespace World.Renamed

variable {σ : Nat → Nat} {w w' : World} (renamed : Renamed σ w w')

include renamed

theorem returns? (name : String) (d : Decl) :
    w'.returns? name (d.rename σ) = w.returns? name d := by
  cases d with
  | library n => simp [World.returns?, renamed.libraryType]
  | corpus id => rfl
  | placeholder p => rfl

theorem declaredField? (name : String) (c : ClassType) :
    w'.declaredField? name (c.rename σ) = (w.declaredField? name c).map (FoundField.rename σ) := by
  obtain ⟨d, args⟩ := c
  cases d with
  | corpus id =>
    simp only [World.declaredField?, ClassType.rename, Decl.rename, renamed.decl, Option.map_map]
    rfl
  | library n => rfl
  | placeholder p => rfl

theorem knownField? (name : String) (c : ClassType) :
    w'.knownField? name (c.rename σ) = (w.knownField? name c).map (FoundField.rename σ) := by
  simp only [World.knownField?, ClassType.decl_rename, renamed.returns?, Option.map_map]
  rfl

theorem outsideField? (name : String) (c : ClassType) :
    w'.outsideField? name (c.rename σ) = (w.outsideField? name c).map (FoundField.rename σ) := by
  simp only [World.outsideField?, ClassType.decl_rename, World.isCorpus_rename, renamed.qualified?]
  split <;> rfl

theorem findDeclaredField (name : String) (c : ClassType) :
    w'.findDeclaredField name (c.rename σ) =
      (w.findDeclaredField name c).map (Option.map (FoundField.rename σ)) :=
  renamed.firstAbove (renamed.declaredField? name) c

theorem findField (name : String) (cs : List ClassType) :
    w'.findField name (cs.map (ClassType.rename σ)) =
      (w.findField name cs).map (Option.map (FoundField.rename σ)) := by
  induction cs with
  | nil => rfl
  | cons c cs ih =>
    rw [List.map_cons, World.findField, World.findField, renamed.findDeclaredField]
    refine bind_rename _ fun found => ?_
    cases found with
    | some f => rfl
    | none =>
      have known := findSome?_rename (w.ancestry c).found fun d _ => renamed.knownField? name d
      have outside := findSome?_rename (w.ancestry c).found fun d _ => renamed.outsideField? name d
      simp only [Option.map_none, renamed.ancestry, known, outside, ← Option.map_or]
      cases ((w.ancestry c).found.findSome? (w.knownField? name)).or
        ((w.ancestry c).found.findSome? (w.outsideField? name)) with
      | some f => rfl
      | none => exact ih

theorem staticImports (ctx : Context) (name : String) :
    w'.staticImports (ctx.rename σ) name = w.staticImports ctx name := by
  simp only [World.staticImports, Context.rename, renamed.unit]

theorem ownerOf? (ctx : Context) (i : StaticImport) :
    w'.ownerOf? (ctx.rename σ) i = (w.ownerOf? ctx i).map (ClassType.rename σ) := by
  have owner : w'.resolve? (some (World.unitContext (σ ctx.unit))) i.owner =
      (w.resolve? (some (World.unitContext ctx.unit)) i.owner).map (Decl.rename σ) :=
    renamed.resolve? (some (World.unitContext ctx.unit)) i.owner
  simp only [World.ownerOf?, Context.rename, owner, Option.map_map]
  rfl

theorem importedField (ctx : Context) (name : String) (i : StaticImport) :
    w'.importedField (ctx.rename σ) name i =
      (w.importedField ctx name i).map (Option.map (FoundField.rename σ)) := by
  rw [World.importedField, World.importedField, renamed.ownerOf?]
  cases w.ownerOf? ctx i with
  | none => rfl
  | some c => exact renamed.findDeclaredField name c

theorem findSomeM?_staticImports {γ δ : Type} {g : γ → δ} (ctx : Context) (name : String)
    {p : StaticImport → Except Failure (Option γ)} {q : StaticImport → Except Failure (Option δ)}
    (each : ∀ i, q i = (p i).map (Option.map g)) :
    (w'.staticImports (ctx.rename σ) name).findSomeM? q =
      ((w.staticImports ctx name).findSomeM? p).map (Option.map g) := by
  have found := findSomeM?_rename (w.staticImports ctx name) each
  rw [renamed.staticImports]
  rwa [List.map_id'] at found

theorem fieldInScope (ctx : Context) (name : String) :
    w'.fieldInScope (ctx.rename σ) name =
      (w.fieldInScope ctx name).map (Option.map (FoundField.rename σ)) := by
  have around :
      ((ctx.rename σ).enclosing.findSomeM? fun t => w'.findDeclaredField name (World.selfType t)) =
      (ctx.enclosing.findSomeM? fun t => w.findDeclaredField name (World.selfType t)).map
        (Option.map (FoundField.rename σ)) :=
    findSomeM?_rename ctx.enclosing fun t => renamed.findDeclaredField name (World.selfType t)
  have imported := renamed.findSomeM?_staticImports ctx name (renamed.importedField ctx name)
  rw [World.fieldInScope, World.fieldInScope, around, imported]
  refine bind_rename _ fun found => ?_
  cases found <;> rfl

theorem placeholderAbove (t : TypeId) :
    w'.placeholderAbove (t.rename σ) = (w.placeholderAbove t).map
      (Option.map (ClassType.rename σ)) := by
  refine renamed.firstAbove (fun c => ?_) (World.selfType t)
  rw [ClassType.decl_rename, World.isPlaceholder_rename]
  split <;> rfl

theorem outsideImport? (ctx : Context) (name : String) (i : StaticImport) :
    w'.outsideImport? (ctx.rename σ) name i =
      (w.outsideImport? ctx name i).map (FoundField.rename σ) := by
  simp only [World.outsideImport?, renamed.ownerOf?]
  split
  · cases w.ownerOf? ctx i with
    | none => rfl
    | some c =>
      simp only [Option.map_some, Option.filter_some, ClassType.decl_rename, World.isCorpus_rename]
      split
      · simp [FoundField.rename, ExternalMember.rename, renamed.returns?]
      · rfl
  · rfl

theorem outsideFieldInScope (ctx : Context) (name : String) :
    w'.outsideFieldInScope (ctx.rename σ) name =
      (w.outsideFieldInScope ctx name).map (Option.map (FoundField.rename σ)) := by
  have around := findSomeM?_rename ctx.enclosing renamed.placeholderAbove
  have imported : (w.staticImports ctx name).findSome? (w'.outsideImport? (ctx.rename σ) name) =
      ((w.staticImports ctx name).findSome? (w.outsideImport? ctx name)).map
        (FoundField.rename σ) := by
    have found := findSome?_rename (w.staticImports ctx name) fun i _ =>
      renamed.outsideImport? ctx name i
    rwa [List.map_id'] at found
  rw [World.outsideFieldInScope, World.outsideFieldInScope, renamed.staticImports, imported,
    Context.enclosing_rename, around]
  refine bind_rename _ fun found => ?_
  cases found <;> rfl

theorem fieldType (f : FoundField) :
    w'.fieldType (f.rename σ) = (w.fieldType f).map (RType.rename σ) := by
  cases f with
  | declared owner args f =>
    have inside := renamed.typeContext owner {}
    have bindings := renamed.bindings ⟨.corpus owner, args⟩
    rw [Scope.rename_empty] at inside
    show w'.resolveRef (some (w'.typeContext (owner.rename σ) {}))
      (w'.bindings (ClassType.rename σ ⟨.corpus owner, args⟩)) f.type = _
    rw [inside, bindings, renamed.resolveRef_some]
    rfl
  | external m owner =>
    simp only [FoundField.rename, ExternalMember.rename, World.fieldType, renamed.bindings]
    cases m.returns with
    | none => rfl
    | some t => exact renamed.resolveRef none (w.bindings owner) t
  | arrayLength => simp [FoundField.rename, World.fieldType, Except.map]

omit renamed in
theorem nearestMethods (seen : List (List String)) (cs : List Candidate) :
    World.nearestMethods seen (cs.map (Candidate.rename σ)) =
      (World.nearestMethods seen cs).map (Candidate.rename σ) := by
  induction cs generalizing seen with
  | nil => rfl
  | cons c cs ih =>
    rw [List.map_cons, World.nearestMethods, World.nearestMethods, Candidate.params_rename]
    split
    · exact ih seen
    · rw [List.map_cons, ih]

theorem declaredMethods (name : String) (c : ClassType) :
    w'.declaredMethods name (c.rename σ) = (w.declaredMethods name c).map (Candidate.rename σ) := by
  obtain ⟨d, args⟩ := c
  cases d with
  | corpus id =>
    simp only [World.declaredMethods, ClassType.rename, Decl.rename, renamed.decl, List.map_map]
    rfl
  | library n => rfl
  | placeholder p => rfl

theorem findMethods (name : String) (c : ClassType) :
    w'.findMethods name (c.rename σ) = (w.findMethods name c).map
      (World.MethodSearch.rename σ) := by
  have methods (above : List ClassType) :
      (above.map (ClassType.rename σ)).flatMap (w'.declaredMethods name) =
      (above.flatMap (w.declaredMethods name)).map (Candidate.rename σ) := by
    rw [List.flatMap_map, List.map_flatMap]
    congr 1
    funext a
    exact renamed.declaredMethods name a
  rw [World.findMethods, World.findMethods, renamed.ancestors]
  refine bind_rename _ fun above => ?_
  have overridden := @nearestMethods σ [] (above.flatMap (w.declaredMethods name))
  simp only [methods, overridden, List.find?_map, Function.comp_def, ClassType.decl_rename,
    World.isCorpus_rename, renamed.returns?]
  rfl

theorem paramTypes (c : Candidate) :
    w'.paramTypes (c.rename σ) = (w.paramTypes c).map (Option.map (RType.rename σ)) := by
  have context : w'.memberContext (c.rename σ).member = (w.memberContext c.member).rename σ :=
    renamed.memberContext c.member
  have bindings : w'.bindings (c.rename σ).on = (w.bindings c.on).map (RType.rename σ) :=
    renamed.bindings c.on
  simp only [World.paramTypes, context, bindings, Candidate.params_rename, renamed.resolveRef_some,
    List.map_map]
  congr 1
  funext p
  simp only [Function.comp_apply]
  cases w.resolveRef (some (w.memberContext c.member)) (w.bindings c.on) p.effectiveType <;> rfl

theorem choice (c : Candidate) : w'.choice (c.rename σ) = (w.choice c).rename σ := by
  rw [World.choice, World.choice, renamed.paramTypes]
  rfl

theorem allAssignable (args params : List (Option RType)) :
    w'.allAssignable (args.map (Option.map (RType.rename σ)))
      (params.map (Option.map (RType.rename σ))) =
      w.allAssignable args params := by
  induction args generalizing params with
  | nil => rfl
  | cons a as ih =>
    cases params with
    | nil => rfl
    | cons p ps =>
      rw [List.map_cons, List.map_cons, World.allAssignable, World.allAssignable,
        renamed.assignable, ih]

theorem fixedArity (args : List (Option RType)) (c : Choice) :
    w'.fixedArity (args.map (Option.map (RType.rename σ))) (c.rename σ) = w.fixedArity args c := by
  simp only [World.fixedArity, Choice.rename, List.length_map, renamed.allAssignable]

-- The last parameter is an array, or its elements are not known.
def lastElement? (types : List (Option RType)) : Option RType :=
  match types.getLast? with
  | some (some (.array t)) => some t
  | _ => none

omit renamed in
theorem lastElement?_rename (types : List (Option RType)) :
    lastElement? (types.map (Option.map (RType.rename σ))) =
      (lastElement? types).map (RType.rename σ) := by
  simp only [lastElement?, List.getLast?_map]
  rcases types.getLast? with _ | _ | t
  · rfl
  · rfl
  · cases t <;> simp

theorem variableArity (args : List (Option RType)) (c : Choice) :
    w'.variableArity (args.map (Option.map (RType.rename σ))) (c.rename σ) =
      w.variableArity args c := by
  have unfolded (v : World) (args : List (Option RType)) (c : Choice) : v.variableArity args c =
      if isVarargs c.candidate.params then
        v.allAssignable args c.types.dropLast >>= fun ok =>
          if ok then (args.drop c.types.dropLast.length).allM fun a =>
            v.assignable a (lastElement? c.types)
          else pure false
      else .ok false := rfl
  rw [unfolded, unfolded]
  simp only [Choice.rename, Candidate.params_rename, lastElement?_rename, ← List.map_dropLast,
    renamed.allAssignable, List.length_map, ← List.map_drop]
  rw [allM_rename _ fun a _ => renamed.assignable a (lastElement? c.types)]

theorem applicable (args : List (Option RType)) (cs : List Choice) :
    w'.applicable (args.map (Option.map (RType.rename σ))) (cs.map (Choice.rename σ)) =
      (w.applicable args cs).map (List.map (Choice.rename σ)) := by
  rw [World.applicable, World.applicable, filterM_rename cs (renamed.fixedArity args)]
  refine bind_rename _ fun pool => ?_
  cases pool with
  | nil => exact filterM_rename cs (renamed.variableArity args)
  | cons c cs => rfl

theorem moreSpecific (c d : Choice) :
    w'.moreSpecific (c.rename σ) (d.rename σ) = w.moreSpecific c d :=
  renamed.allAssignable c.types d.types

omit renamed in
theorem zipIdx_rename (pool : List Choice) :
    (pool.map (Choice.rename σ)).zipIdx = pool.zipIdx.map fun c => (c.1.rename σ, c.2) := by
  rw [List.zipIdx_map]
  rfl

theorem beatsOthers (pool : List Choice) (i : Nat) (c : Choice) :
    w'.beatsOthers (pool.map (Choice.rename σ)) i (c.rename σ) = w.beatsOthers pool i c := by
  rw [World.beatsOthers, World.beatsOthers, zipIdx_rename, List.filter_map]
  exact allM_rename _ fun d _ => renamed.moreSpecific c d.1

theorem mostSpecific (pool : List Choice) :
    w'.mostSpecific (pool.map (Choice.rename σ)) =
      (w.mostSpecific pool).map (List.map (Choice.rename σ)) := by
  rw [World.mostSpecific, World.mostSpecific, zipIdx_rename,
    filterM_rename pool.zipIdx fun c => renamed.beatsOthers pool c.2 c.1]
  refine bind_rename _ fun best => ?_
  simp [Except.map, pure, Except.pure]

theorem select (name : String) (candidates : List Candidate) (args : List (Option RType)) :
    w'.select name (candidates.map (Candidate.rename σ)) (args.map (Option.map (RType.rename σ))) =
      (w.select name candidates args).map (Option.map (Candidate.rename σ)) := by
  have taking : (candidates.map (Candidate.rename σ)).filter (·.takes args.length) =
      (candidates.filter (·.takes args.length)).map (Candidate.rename σ) := by
    rw [List.filter_map]
    rfl
  have choices (cs : List Candidate) :
      (cs.map (Candidate.rename σ)).map w'.choice = (cs.map w.choice).map (Choice.rename σ) := by
    simp [renamed.choice]
  rw [World.select, World.select, List.length_map, taking]
  cases candidates.filter (·.takes args.length) with
  | nil => rfl
  | cons c cs =>
    show (w'.applicable _ (((c :: cs).map (Candidate.rename σ)).map w'.choice) >>= _) = _
    rw [choices, renamed.applicable]
    refine bind_rename _ fun pool => ?_
    -- The pool decides: empty, one choice, or several of which one is most specific.
    rcases pool with _ | ⟨first, _ | ⟨second, others⟩⟩
    · cases cs <;> rfl
    · rfl
    · show (w'.mostSpecific ((first :: second :: others).map (Choice.rename σ)) >>= _) = _
      rw [renamed.mostSpecific]
      refine bind_rename _ fun best => ?_
      have texts : ((first :: second :: others).map (Choice.rename σ)).map (·.candidate.text) =
          (first :: second :: others).map (·.candidate.text) := by
        simp [Choice.rename]
      rcases best with _ | ⟨b, _ | ⟨c, more⟩⟩
      · simp only [List.map_cons] at texts ⊢
        rw [texts]
        rfl
      · rfl
      · simp only [List.map_cons] at texts ⊢
        rw [texts]
        rfl

end World.Renamed

end RefGraph

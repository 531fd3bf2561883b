import RefGraph.Overload
import RefGraph.Proofs.Makers
import RefGraph.Proofs.Registry
import RefGraph.Proofs.Renaming.Lookup
import RefGraph.Synthesis

set_option autoImplicit false

namespace RefGraph

-- A run that collects reports beside its state.
theorem foldl_collect {α β γ : Type} (step : β → α → β × List γ) (next : β → α → β)
    (reports : α → List γ) (each : ∀ b a, step b a = (next b a, reports a)) (xs : List α) (b : β)
    (ds : List γ) :
    xs.foldl (fun (b, ds) a => let (b, more) := step b a; (b, ds ++ more)) (b, ds) =
      (xs.foldl next b, ds ++ xs.flatMap reports) := by
  induction xs generalizing b ds with
  | nil => simp
  | cons x xs ih =>
    have here :
        (match step b x with | (b, more) => (b, ds ++ more)) = (next b x, ds ++ reports x) := by
      rw [each]
    rw [List.foldl_cons, List.foldl_cons, List.flatMap_cons, ← List.append_assoc, here]
    exact ih (next b x) (ds ++ reports x)

theorem foldl_flatMap {α β γ : Type} (step : γ → β → γ) (inner : α → List β) (xs : List α) (c : γ) :
    xs.foldl (fun c a => (inner a).foldl step c) c = (xs.flatMap inner).foldl step c := by
  induction xs generalizing c with
  | nil => rfl
  | cons x xs ih => simp [ih]

namespace Mention

def registration? (w : World) (m : Mention) : Option (Name × Int) :=
  if m.isUndeclared w then some (m.type.name, m.type.args.length) else none

-- The mentions in a declaration before the first that nests too deep.
def fitting (limit : Int) (ms : List Mention) : List Mention :=
  ((ms.flatMap expand).takeWhile fun m => decide ((m.1 : Int) ≤ limit)).map (·.2)

def registrations (w : World) (limit : Int) (ms : List Mention) : List (Name × Int) :=
  (fitting limit ms).filterMap (registration? w)

theorem foldl_register (w : World) (ms : List Mention) (r : Registry) :
    ms.foldl (register w) r =
      (ms.filterMap (registration? w)).foldl (fun r e => (r.register e.1 e.2).1) r := by
  induction ms generalizing r with
  | nil => rfl
  | cons m ms ih =>
    rw [List.foldl_cons, ih, List.filterMap_cons, register, registration?]
    split <;> rfl

end Mention

namespace World

def reports (limit : Int) (path : Option Path) (ms : List Mention) : List Diagnostic :=
  (((ms.flatMap Mention.expand).dropWhile fun m => decide ((m.1 : Int) ≤ limit)).head?.map fun m =>
    Diagnostic.ofFailure (Failure.tooDeep limit m.2.type.text).kind
      (Failure.tooDeep limit m.2.type.text).detail path none).toList

theorem registerMentions_eq (w : World) (limit : Int) (path : Option Path) (r : Registry)
    (ms : List Mention) :
    w.registerMentions limit path r ms =
      ((Mention.registrations w limit ms).foldl (fun r e => (r.register e.1 e.2).1) r,
        reports limit path ms) := by
  simp only [registerMentions, Mention.foldl_register]
  rfl

def unitRegistrations (w : World) (limit : Int) (unit : Nat) : List (Name × Int) :=
  (w.mentionGroups unit).flatMap (Mention.registrations w limit)

-- Everything that is registered, unit by unit and declaration by declaration.
def registrations (w : World) (limit : Int) : List (Name × Int) :=
  (List.range w.units.length).flatMap (w.unitRegistrations limit)

theorem registerUnit_eq (w : World) (limit : Int) (r : Registry) (unit : Nat) :
    w.registerUnit limit r unit =
      ((w.unitRegistrations limit unit).foldl (fun r e => (r.register e.1 e.2).1) r,
        (w.mentionGroups unit).flatMap (reports limit (w.unit unit).path)) := by
  rw [registerUnit, foldl_collect _ _ _ (w.registerMentions_eq limit (w.unit unit).path),
    foldl_flatMap, List.nil_append, unitRegistrations]

theorem registerUnits_eq (w : World) (limit : Int) (r : Registry) (units : List Nat) :
    w.registerUnits limit r units =
      ((units.flatMap (w.unitRegistrations limit)).foldl (fun r e => (r.register e.1 e.2).1) r,
        units.flatMap fun unit =>
          (w.mentionGroups unit).flatMap (reports limit (w.unit unit).path)) := by
  rw [registerUnits, foldl_collect _ _ _ (w.registerUnit_eq limit), foldl_flatMap, List.nil_append]

theorem synthesize_eq (w : World) (limit : Int) :
    w.synthesize limit =
      (Registry.ofList (w.registrations limit),
        (List.range w.units.length).flatMap fun unit =>
          (w.mentionGroups unit).flatMap (reports limit (w.unit unit).path)) := by
  rw [synthesize, registerUnits_eq]
  rfl

theorem firm_addSource (w : World) {s : Source} (fallback : s.isFallback = true) :
    (w.addSource s).firm = w.firm := by
  simp [firm, addSource, Source.settle, fallback]

theorem fallback_addSource (w : World) {s : Source} (fallback : s.isFallback = true) :
    (w.addSource s).fallback = w.fallback ++ [s] := by
  simp [World.fallback, addSource, Source.settle, fallback]

-- Units stay where they are, and firm sources are asked before placeholders.
theorem renamedFirm_addSource (w : World) {s : Source} (fallback : s.isFallback = true) :
    RenamedFirm id w (w.addSource s) where
  injective := fun _ _ same => same
  unit _ := rfl
  firm n := by rw [w.firm_addSource fallback, Decl.rename_id, Option.map_id_fun, id]
  searchBound := rfl

theorem resolveFirm?_addSource (w : World) {s : Source} (fallback : s.isFallback = true)
    (ctx? : Option Context) (n : Name) :
    (w.addSource s).resolveFirm? ctx? n = w.resolveFirm? ctx? n := by
  have same := (w.renamedFirm_addSource fallback).resolveFirm? ctx? n
  rwa [Context.rename_id, Decl.rename_id, Option.map_id_fun, Option.map_id_fun] at same

def withPlaceholders (w : World) (limit : Int) : World :=
  w.addSource (.placeholders (w.synthesize limit).1)

theorem fallback_withPlaceholders (w : World) (limit : Int) :
    (w.withPlaceholders limit).fallback =
      w.fallback ++ [.placeholders (Registry.ofList (w.registrations limit))] := by
  rw [withPlaceholders, w.fallback_addSource rfl, synthesize_eq]

theorem resolveFallback?_of_registered {w : World} {limit : Int} {e : Name × Int}
    (registered : e ∈ w.registrations limit) :
    ∃ d, (w.withPlaceholders limit).resolveFallback? e.1 = some d := by
  have held : ∃ p, (Registry.ofList (w.registrations limit)).solve? e.1 = some p := by
    rw [Registry.solve?_ofList]
    cases found : Registry.best? (w.registrations limit) e.1.last with
    | none => exact absurd rfl (Registry.last_ne_of_best? found registered)
    | some p => exact ⟨p, rfl⟩
  obtain ⟨p, held⟩ := held
  rw [resolveFallback?, fallback_withPlaceholders, List.findSome?_append]
  cases w.fallback.findSome? fun s => s.find? e.1 with
  | some d => exact ⟨d, rfl⟩
  | none => exact ⟨.placeholder p, by simp [Source.find?, held]⟩

theorem resolveRef_ok {w : World} {ctx : Context} {t : TypeRef} (b : Bindings RType)
    (found : ∀ n, t.head = .named n →
      (n.isQualified = false ∧ (ctx.typeParams.get? n.first).isSome = true) ∨
        ∃ d, w.resolve? (some ctx) n = some d) :
    ∃ r, w.resolveRef (some ctx) b t = .ok r := by
  obtain ⟨head, args, dims⟩ := t
  rw [resolveRef]
  cases head with
  | primitive p => exact ⟨_, Reading.resolve.eq_1 ..⟩
  | named n =>
    rw [Reading.resolve]
    split
    next => exact ⟨_, rfl⟩
    next unknown =>
      rcases found n rfl with ⟨simple, param⟩ | ⟨d, known⟩
      · -- A type parameter is known, bound or not.
        obtain ⟨p, isParam⟩ := Option.isSome_iff_exists.1 param
        simp [simple, reading, isParam] at unknown
      · have isKnown : (w.reading (some ctx) b).find n = some d := known
        rw [isKnown]
        exact ⟨_, rfl⟩

-- A mention that is declared resolves as before, and any other by its placeholder.
theorem resolveRef_of_fitting {w : World} {limit : Int} {ms : List Mention} {m : Mention}
    (registered : Mention.registrations w limit ms ⊆ w.registrations limit)
    (fits : m ∈ Mention.fitting limit ms) (b : Bindings RType) :
    ∃ r, (w.withPlaceholders limit).resolveRef (some m.context) b m.type = .ok r := by
  apply resolveRef_ok
  intro n named
  by_cases undeclared : m.isUndeclared w = true
  · right
    have listed : (n, (m.type.args.length : Int)) ∈ Mention.registrations w limit ms := by
      refine List.mem_filterMap.2 ⟨m, fits, ?_⟩
      simp [Mention.registration?, undeclared, TypeRef.name, TypeHead.name, named]
    obtain ⟨d, held⟩ := resolveFallback?_of_registered (registered listed)
    rw [resolve?, held]
    cases (w.withPlaceholders limit).resolveFirm? (some m.context) n with
    | none => exact ⟨d, rfl⟩
    | some e => exact ⟨e, rfl⟩
  · rw [Bool.not_eq_true] at undeclared
    simp only [Mention.isUndeclared, named, Bool.and_eq_false_iff, Bool.not_eq_false',
      Bool.and_eq_true, Option.isNone_eq_false_iff] at undeclared
    rcases undeclared with ⟨simple, param⟩ | declared
    · exact .inl ⟨by simpa using simple, param⟩
    · right
      obtain ⟨d, known⟩ := Option.isSome_iff_exists.1 declared
      refine ⟨d, ?_⟩
      rw [resolve?, withPlaceholders, w.resolveFirm?_addSource rfl, known, Option.some_or]

def typeReports (w : World) (limit : Int) (id : TypeId) : List Diagnostic :=
  reports limit (w.unit id.unit).path (Mention.ofType w id)

theorem fitting_of_reports {limit : Int} {path : Option Path} {ms : List Mention}
    (quiet : reports limit path ms = []) :
    Mention.fitting limit ms = (ms.flatMap Mention.expand).map (·.2) := by
  have none :
      (ms.flatMap Mention.expand).dropWhile (fun m => decide ((m.1 : Int) ≤ limit)) = [] := by
    simpa [reports] using quiet
  have all := List.takeWhile_append_dropWhile (p := fun m : Nat × Mention =>
    decide ((m.1 : Int) ≤ limit)) (l := ms.flatMap Mention.expand)
  rw [none, List.append_nil] at all
  rw [Mention.fitting, all]

/-- A written type resolves in a context, whatever is bound, and so does every type in its
arguments. -/
def ResolvesAll (w : World) (ctx : Context) (t : TypeRef) : Prop :=
  ∀ e ∈ t.nested 0, ∀ b, ∃ r, w.resolveRef (some ctx) b e.2 = .ok r

theorem resolvesAll_of_mention {w : World} {limit : Int} {id : TypeId}
    (loaded : id.unit < w.units.length) (listed : id.index ∈ (w.unit id.unit).allTypes)
    (quiet : w.typeReports limit id = []) {m : Mention} (mentioned : m ∈ Mention.ofType w id) :
    (w.withPlaceholders limit).ResolvesAll m.context m.type := by
  intro e inside b
  have registered :
      Mention.registrations w limit (Mention.ofType w id) ⊆ w.registrations limit := by
    intro r here
    refine List.mem_flatMap.2 ⟨id.unit, List.mem_range.2 loaded, List.mem_flatMap.2 ⟨_, ?_, here⟩⟩
    exact List.mem_append_right _ (List.mem_map.2 ⟨id.index, listed, rfl⟩)
  have fits : (⟨e.2, m.context⟩ : Mention) ∈ Mention.fitting limit (Mention.ofType w id) := by
    rw [fitting_of_reports quiet]
    refine List.mem_map.2 ⟨(e.1, ⟨e.2, m.context⟩), ?_, rfl⟩
    exact List.mem_flatMap.2 ⟨m, mentioned, List.mem_map.2 ⟨e, inside, rfl⟩⟩
  exact resolveRef_of_fitting registered fits b

-- More array dimensions change neither the name of a type nor its arguments.
theorem ResolvesAll.addDims {w : World} {ctx : Context} {t : TypeRef}
    (resolves : w.ResolvesAll ctx t) (n : Nat) : w.ResolvesAll ctx (t.addDims n) := by
  obtain ⟨head, args, dims⟩ := t
  intro e inside b
  have whole := resolves (0, ⟨head, args, dims⟩)
  cases head with
  | primitive p =>
    obtain rfl : e = (0, ⟨.primitive p, args, dims + n⟩) := by
      simpa [TypeRef.addDims, TypeRef.nested] using inside
    exact ⟨_, Reading.resolve.eq_1 ..⟩
  | named name =>
    simp only [TypeRef.addDims, TypeRef.nested, List.mem_cons] at inside
    rcases inside with rfl | below
    · obtain ⟨r, resolved⟩ := whole (by simp [TypeRef.nested]) b
      rw [resolveRef, Reading.resolve] at resolved ⊢
      repeat' split at resolved
      · exact ⟨_, rfl⟩
      · cases resolved
      · exact ⟨_, rfl⟩
    · exact resolves e (by simp [TypeRef.nested, below]) b

theorem ResolvesAll.resolves {w : World} {ctx : Context} {t : TypeRef} (all : w.ResolvesAll ctx t)
    (b : Bindings RType) : ∃ r, w.resolveRef (some ctx) b t = .ok r := by
  obtain ⟨head, args, dims⟩ := t
  refine all (0, ⟨head, args, dims⟩) ?_ b
  cases head <;> simp [TypeRef.nested]

structure Resolvable (w : World) (id : TypeId) : Prop where
  supertypes : ∀ t ∈ (w.decl id).supertypes, w.ResolvesAll (w.headerContext id) t
  fields : ∀ f ∈ (w.decl id).fields, w.ResolvesAll (w.typeContext id {}) f.type
  returns : ∀ m ∈ (w.decl id).methods, w.ResolvesAll (w.memberContext ⟨id, .method m⟩) m.returns
  params : ∀ m ∈ (w.decl id).members, ∀ p ∈ m.params,
    w.ResolvesAll (w.memberContext ⟨id, m⟩) p.type ∧
      w.ResolvesAll (w.memberContext ⟨id, m⟩) p.effectiveType
  paramTypes : ∀ m ∈ (w.decl id).members, ∀ on, none ∉ w.paramTypes ⟨⟨id, m⟩, on⟩
  directSupertypes : ∀ args, ∃ rs : List RType,
    (w.decl id).supertypes.map
        (w.resolveRef (some (w.headerContext id)) (w.bindings ⟨.corpus id, args⟩)) = rs.map .ok ∧
      rs.filterMap asClass? <+: w.directSupertypes ⟨.corpus id, args⟩

theorem map_ok {α β : Type} {f : α → Except Failure β} {xs : List α}
    (each : ∀ x ∈ xs, ∃ y, f x = .ok y) :
    ∃ ys : List β, xs.map f = ys.map .ok := by
  induction xs with
  | nil => exact ⟨[], rfl⟩
  | cons x xs ih =>
    obtain ⟨y, here⟩ := each x List.mem_cons_self
    obtain ⟨ys, rest⟩ := ih fun z listed => each z (List.mem_cons_of_mem _ listed)
    exact ⟨y :: ys, by rw [List.map_cons, List.map_cons, here, rest]⟩

-- The class types among the resolved supertypes come first, in the order in which they are written.
theorem directSupertypes_of_resolved {w : World} {id : TypeId} {args rs : List RType}
    (resolved : (w.decl id).supertypes.map
      (w.resolveRef (some (w.headerContext id)) (w.bindings ⟨.corpus id, args⟩)) = rs.map .ok) :
    rs.filterMap asClass? <+: w.directSupertypes ⟨.corpus id, args⟩ := by
  have written : (w.decl id).superclasses.filterMap
        (w.resolveClass? (some (w.headerContext id)) (w.bindings ⟨.corpus id, args⟩)) ++
      (w.decl id).interfaces.filterMap
        (w.resolveClass? (some (w.headerContext id)) (w.bindings ⟨.corpus id, args⟩)) =
      rs.filterMap asClass? := by
    rw [← List.filterMap_append, ← TypeDecl.supertypes]
    have classes := congrArg (List.filterMap fun r => r.toOption.bind asClass?) resolved
    rw [List.filterMap_map, List.filterMap_map] at classes
    exact classes
  simp only [directSupertypes, written]
  split
  · exact List.prefix_append _ _
  · split
    · exact List.prefix_rfl
    · exact List.prefix_append _ _

theorem resolvable_of_mentions {w : World} {id : TypeId} {mentions : List Mention}
    (all : ∀ m ∈ mentions, w.ResolvesAll m.context m.type)
    (supertypes : ∀ t ∈ (w.decl id).supertypes, ⟨t, w.headerContext id⟩ ∈ mentions)
    (fields : ∀ f ∈ (w.decl id).fields, ⟨f.type, w.typeContext id {}⟩ ∈ mentions)
    (returns : ∀ m ∈ (w.decl id).methods, ⟨m.returns, w.memberContext ⟨id, .method m⟩⟩ ∈ mentions)
    (params : ∀ m ∈ (w.decl id).members, ∀ p ∈ m.params,
      ⟨p.type, w.memberContext ⟨id, m⟩⟩ ∈ mentions) :
    w.Resolvable id := by
  have effective {m : Member} {p : Param} (listed : m ∈ (w.decl id).members)
      (among : p ∈ m.params) :
      w.ResolvesAll (w.memberContext ⟨id, m⟩) p.effectiveType := by
    have plain := all _ (params m listed p among)
    unfold Param.effectiveType
    split
    · exact plain.addDims 1
    · exact plain
  refine ⟨fun t listed => all _ (supertypes t listed), fun f listed => all _ (fields f listed),
    fun m listed => all _ (returns m listed),
    fun m listed p among => ⟨all _ (params m listed p among), effective listed among⟩, ?_, ?_⟩
  · intro m listed on missing
    obtain ⟨p, among, unresolved⟩ := List.mem_map.1 missing
    obtain ⟨r, resolved⟩ := (effective listed among).resolves (w.bindings on)
    rw [resolved] at unresolved
    cases unresolved
  · intro args
    obtain ⟨rs, resolved⟩ := map_ok fun t listed =>
      (all _ (supertypes t listed)).resolves (w.bindings ⟨.corpus id, args⟩)
    exact ⟨rs, resolved, directSupertypes_of_resolved resolved⟩

def importReports (w : World) (limit : Int) (unit : Nat) (i : Import) : List Diagnostic :=
  (Mention.ofImport unit i).toList.flatMap fun m => reports limit (w.unit unit).path [m]

theorem reported_mentionGroups (w : World) (limit : Int) (unit : Nat) :
    (w.mentionGroups unit).flatMap (reports limit (w.unit unit).path) =
      (w.unit unit).imports.flatMap (w.importReports limit unit) ++
        (w.unit unit).allTypes.flatMap fun i => w.typeReports limit ⟨unit, i⟩ := by
  rw [mentionGroups, List.flatMap_append, List.flatMap_map, List.flatMap_map]
  congr 1
  induction (w.unit unit).imports with
  | nil => rfl
  | cons i is ih =>
    rw [List.filterMap_cons, List.flatMap_cons, ← ih, importReports]
    cases Mention.ofImport unit i <;> simp

/-- A declaration for which nothing is reported has all its written types resolved, once there are
placeholders. -/
theorem resolvable_of_quiet (w : World) (limit : Int) :
    (w.synthesize limit).2 = ((List.range w.units.length).flatMap fun unit =>
        (w.unit unit).imports.flatMap (w.importReports limit unit) ++
          (w.unit unit).allTypes.flatMap fun i => w.typeReports limit ⟨unit, i⟩) ∧
      ∀ id, id.unit < w.units.length → id.index ∈ (w.unit id.unit).allTypes →
        w.typeReports limit id = [] → (w.withPlaceholders limit).Resolvable id := by
  constructor
  · rw [synthesize_eq]
    simp only [reported_mentionGroups]
  · intro id loaded listed quiet
    have each (m : Mention) (mentioned : m ∈ Mention.ofType w id) :=
      resolvesAll_of_mention loaded listed quiet mentioned
    refine resolvable_of_mentions each ?_ ?_ ?_ ?_
    · intro t among
      simp only [Mention.ofType, List.mem_append, List.mem_map]
      exact .inl (.inl (.inl (.inl ⟨t, among, rfl⟩)))
    · intro f among
      simp only [Mention.ofType, List.mem_append, List.mem_map]
      exact .inl (.inl (.inl (.inr ⟨f.type, .inr ⟨f, among, rfl⟩, rfl⟩)))
    · intro m among
      simp only [Mention.ofType, Mention.ofMethod, List.mem_append, List.mem_flatMap, List.mem_map]
      exact .inl (.inl (.inr ⟨m, among, m.returns, .inl (.inl (.inr (by simp))), rfl⟩))
    · intro m among p param
      simp only [Mention.ofType, Mention.ofMethod, Mention.ofConstructor, List.mem_append,
        List.mem_flatMap, List.mem_map]
      simp only [TypeDecl.members, List.mem_append, List.mem_map] at among
      rcases among with (⟨method, here, rfl⟩ | ⟨c, here, rfl⟩) | ⟨f, here, rfl⟩
      · exact .inl (.inl (.inr ⟨method, here, p.type, .inl (.inr ⟨p, param, rfl⟩), rfl⟩))
      · exact .inl (.inr ⟨c, here, p.type, .inl ⟨p, param, rfl⟩, rfl⟩)
      · simp [Member.params] at param

-- The class `A<T> extends q.Base<Item, ? super T> { void m(Part<T>... parts); }`, of which nothing
-- else is known.
def openClass : World where
  units := [.ofTypes [{
    TypeDecl.ofClass "A"
      [{ head := .named ⟨"q", ["Base"]⟩, args :=
        [.type (.simple "Item"), .bounded .lower (.simple "T")] }]
      [{ name := "m"
         params :=
        [{ name := "parts", type := .applied "Part" [.simple "T"], varargs := true }] }] with
    typeParams := [{ name := "T" }] }]]

theorem resolvable_openClass :
    (openClass.typeReports 1 ⟨0, 0⟩ = []) ∧ (openClass.withPlaceholders 1).Resolvable ⟨0, 0⟩ := by
  have listed : 0 ∈ (openClass.unit 0).allTypes := by decide +kernel
  have quiet : openClass.typeReports 1 ⟨0, 0⟩ = [] := by decide +kernel
  exact ⟨quiet, (resolvable_of_quiet openClass 1).2 ⟨0, 0⟩ (by decide) listed quiet⟩

end World

end RefGraph

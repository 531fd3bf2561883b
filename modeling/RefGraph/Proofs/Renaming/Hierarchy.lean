import RefGraph.Conversion
import RefGraph.Proofs.Readings
import RefGraph.Proofs.Renaming.Lookup

set_option autoImplicit false

namespace RefGraph

@[simp] theorem Decl.rename_library (σ : Nat → Nat) (n : Name) :
    (Decl.library n).rename σ = .library n := rfl

theorem RType.goesThrough_rename (σ : Nat → Nat) :
    RType.GoesThrough (RType.rename σ) (Decl.rename σ) where
  ref := RType.rename_ref σ
  prim := RType.rename_prim σ
  array := RType.rename_array σ
  unbounded := RType.rename_unbounded σ
  bounded := RType.rename_bounded σ

namespace Reading

structure Renamed (σ : Nat → Nat) (r r' : Reading) : Prop where
  known : ∀ name, r'.known name = (r.known name).map (RType.rename σ)
  find : ∀ n, r'.find n = (r.find n).map (Decl.rename σ)

variable {σ : Nat → Nat} {r r' : Reading}

theorem Renamed.mapped (renamed : Renamed σ r r') : Mapped (RType.rename σ) (Decl.rename σ) r r' :=
  ⟨renamed.known, renamed.find⟩

theorem Renamed.resolve (renamed : Renamed σ r r') (t : TypeRef) :
    r'.resolve t = (r.resolve t).map (RType.rename σ) :=
  renamed.mapped.resolve (RType.goesThrough_rename σ) t

theorem Renamed.resolveArgs (renamed : Renamed σ r r') (as : List (Arg TypeRef)) :
    r'.resolveArgs as = (r.resolveArgs as).map (RType.rename σ) :=
  renamed.mapped.resolveArgs (RType.goesThrough_rename σ) as

end Reading

namespace World.Renamed

variable {σ : Nat → Nat} {w w' : World} (renamed : Renamed σ w w')

include renamed

theorem bareReading (ctx? : Option Context) :
    (w.bareReading ctx?).Renamed σ (w'.bareReading (ctx?.map (Context.rename σ))) where
  known name := by
    cases ctx? with
    | none => rfl
    | some ctx =>
      simp only [World.bareReading, Option.map_some, Option.bind_some, Option.map_map,
        Context.rename]
      congr 1
  find n := renamed.resolve? ctx? n

theorem boundsOf (ctx? : Option Context) (p : TypeParam) :
    w'.boundsOf (ctx?.map (Context.rename σ)) p = (w.boundsOf ctx? p).map (RType.rename σ) := by
  simp only [World.boundsOf, List.map_filterMap, (renamed.bareReading ctx?).resolve]
  congr 1
  funext b
  cases (w.bareReading ctx?).resolve b <;> rfl

theorem reading (ctx? : Option Context) (b : Bindings RType) :
    (w.reading ctx? b).Renamed σ
      (w'.reading (ctx?.map (Context.rename σ)) (b.map (RType.rename σ))) where
  known name := by
    simp only [World.reading, Bindings.get?_map, Option.map_or]
    congr 1
    cases ctx? with
    | none => rfl
    | some ctx =>
      simp only [Option.map_some, Option.bind_some, Option.map_map, Context.rename]
      congr 1
      funext p
      have bounds := renamed.boundsOf (some ctx) p
      simp only [Option.map_some] at bounds
      simp [← bounds, Context.rename]
  find n := renamed.resolve? ctx? n

theorem resolveRef (ctx? : Option Context) (b : Bindings RType) (t : TypeRef) :
    w'.resolveRef (ctx?.map (Context.rename σ)) (b.map (RType.rename σ)) t =
      (w.resolveRef ctx? b t).map (RType.rename σ) :=
  (renamed.reading ctx? b).resolve t

-- The form that callers with a context need.
theorem resolveRef_some (ctx : Context) (b : Bindings RType) (t : TypeRef) :
    w'.resolveRef (some (ctx.rename σ)) (b.map (RType.rename σ)) t =
      (w.resolveRef (some ctx) b t).map (RType.rename σ) :=
  renamed.resolveRef (some ctx) b t

theorem resolve?_none (n : Name) : w'.resolve? none n = (w.resolve? none n).map (Decl.rename σ) :=
  renamed.resolve? none n

theorem known (n : Name) (args : List RType) :
    w'.known n (args.map (RType.rename σ)) = (w.known n args).map (ClassType.rename σ) := by
  simp only [World.known, renamed.resolve?_none]
  cases w.resolve? none n <;> rfl

theorem top : w'.top = w.top.rename σ := by
  simp only [World.top, renamed.resolve?_none]
  cases w.resolve? none topName <;> rfl

theorem qualified? (d : Decl) : w'.qualified? (d.rename σ) = w.qualified? d := by
  cases d with
  | corpus id => simp [Decl.rename, World.qualified?, renamed.decl]
  | library n => rfl
  | placeholder p => rfl

theorem nameOf (d : Decl) : w'.nameOf (d.rename σ) = w.nameOf d := by
  cases d with
  | corpus id => simp [Decl.rename, World.nameOf, renamed.decl]
  | library n => rfl
  | placeholder p => rfl

theorem describeDecl (d : Decl) : w'.describeDecl (d.rename σ) = w.describeDecl d := by
  simp only [World.describeDecl, renamed.qualified?, renamed.nameOf]

omit renamed in
theorem describeAll_eq (w : World) (ts : List RType) : w.describeAll ts = ts.map w.describe := by
  induction ts with
  | nil => rfl
  | cons t ts ih => rw [World.describeAll, ih, List.map_cons]

theorem describe (t : RType) : w'.describe (t.rename σ) = w.describe t := by
  induction t using RType.induction with
  | ref d args ih =>
    have each : (args.map (RType.rename σ)).map w'.describe = args.map w.describe := by
      rw [List.map_map]
      exact List.map_congr_left ih
    cases args with
    | nil => simp [World.describe, renamed.describeDecl]
    | cons a as => simp only [RType.rename_ref, List.map_cons, World.describe, describeAll_eq,
        renamed.describeDecl, List.map_cons] at each ⊢; rw [each]
  | prim p => simp [World.describe]
  | array c ih => simp [World.describe, ih]
  | unbounded => simp [World.describe]
  | bounded v b ih => simp [World.describe, ih]
  | var n bounds => simp [World.describe]
  | null => simp [World.describe]

theorem paramNames (d : Decl) : w'.paramNames (d.rename σ) = w.paramNames d := by
  cases d with
  | corpus id => simp [Decl.rename, World.paramNames, renamed.decl]
  | library n => simp [World.paramNames, renamed.libraryType]
  | placeholder p => rfl

theorem ownBindings (c : ClassType) :
    w'.ownBindings (c.rename σ) = (w.ownBindings c).map (RType.rename σ) := by
  simp only [World.ownBindings, ClassType.rename, renamed.paramNames, List.length_map]
  split
  · rw [Bindings.map_ofList, ← List.map_id (w.paramNames c.decl), List.zip_map, List.map_id]
    rfl
  · rfl

theorem bindings (c : ClassType) :
    w'.bindings (c.rename σ) = (w.bindings c).map (RType.rename σ) := by
  have own := renamed.ownBindings c
  obtain ⟨d, args⟩ := c
  cases d with
  | library n =>
    have names := renamed.paramNames (.library n)
    show (if (w'.ownBindings (ClassType.rename σ ⟨.library n, args⟩)).isEmpty then
        Bindings.ofList ((w'.paramNames (Decl.rename σ (.library n))).map fun n => (n, .var n []))
      else w'.ownBindings (ClassType.rename σ ⟨.library n, args⟩)) = _
    simp only [own, names, Bindings.isEmpty_map, World.bindings]
    split
    · simp [Function.comp_def]
    · rfl
  | corpus id => exact own
  | placeholder p => exact own

omit renamed in
theorem asClass? (t : RType) :
    World.asClass? (t.rename σ) = (World.asClass? t).map (ClassType.rename σ) := by
  cases t <;> simp [World.asClass?, ClassType.rename]

theorem resolveClass? (ctx? : Option Context) (b : Bindings RType) (t : TypeRef) :
    w'.resolveClass? (ctx?.map (Context.rename σ)) (b.map (RType.rename σ)) t =
      (w.resolveClass? ctx? b t).map (ClassType.rename σ) := by
  simp only [World.resolveClass?, renamed.resolveRef]
  cases w.resolveRef ctx? b t with
  | error e => rfl
  | ok r => exact asClass? r

theorem implicitSuper? (c : ClassType) (kind : TypeKind) :
    w'.implicitSuper? (c.rename σ) kind = (w.implicitSuper? c kind).map (ClassType.rename σ) := by
  have known (n : Name) (args : List RType) :
      ((w'.known n (args.map (RType.rename σ))).toOption.getD w'.top) =
        ((w.known n args).toOption.getD w.top).rename σ := by
    rw [renamed.known, renamed.top]
    cases w.known n args <;> rfl
  have enum := known ⟨"java", ["lang", "Enum"]⟩ [c.toType]
  have record := known ⟨"java", ["lang", "Record"]⟩ []
  rw [List.map_cons, List.map_nil] at enum
  rw [List.map_nil] at record
  cases kind <;> simp [World.implicitSuper?, enum, record]

theorem resolveClasses (ctx? : Option Context) (b : Bindings RType) (ts : List TypeRef) :
    ts.filterMap (w'.resolveClass? (ctx?.map (Context.rename σ)) (b.map (RType.rename σ))) =
      (ts.filterMap (w.resolveClass? ctx? b)).map (ClassType.rename σ) := by
  rw [List.map_filterMap]
  congr 1
  funext t
  exact renamed.resolveClass? ctx? b t

theorem directSupertypes (c : ClassType) :
    w'.directSupertypes (c.rename σ) = (w.directSupertypes c).map (ClassType.rename σ) := by
  obtain ⟨d, args⟩ := c
  have b := renamed.bindings ⟨d, args⟩
  cases d with
  | placeholder p => rfl
  | library n =>
    have found :=
      renamed.resolveClasses none (w.bindings ⟨.library n, args⟩) (w.libraryType n).supertypes
    simp only [World.directSupertypes, ClassType.rename, Decl.rename_library,
      Option.map_none] at b found ⊢
    simp only [b, renamed.libraryType, found, List.isEmpty_map, renamed.top]
    split <;> rfl
  | corpus id =>
    have resolved :=
      renamed.resolveClasses (some (w.headerContext id)) (w.bindings ⟨.corpus id, args⟩)
    have super := renamed.implicitSuper? ⟨.corpus id, args⟩ (w.decl id).kind
    simp only [World.directSupertypes, ClassType.rename, Decl.rename,
      Option.map_some] at b super resolved ⊢
    simp only [b, renamed.decl, renamed.headerContext, resolved, super, renamed.top, ne_eq,
      List.map_eq_nil_iff]
    cases w.implicitSuper? ⟨.corpus id, args⟩ (w.decl id).kind with
    | some s => simp
    | none =>
      simp only [Option.map_none]
      split <;> simp

theorem superclass (id : TypeId) : w'.superclass (id.rename σ) = (w.superclass id).rename σ := by
  have supers := renamed.directSupertypes ⟨.corpus id, []⟩
  simp only [ClassType.rename, Decl.rename, List.map_nil] at supers
  rw [World.superclass, World.superclass, supers, List.head?_map, renamed.top]
  cases (w.directSupertypes ⟨.corpus id, []⟩).head? <;> rfl

theorem fresh (seen : List Decl) (cs : List ClassType) :
    World.fresh (seen.map (Decl.rename σ)) (cs.map (ClassType.rename σ)) =
      (World.fresh seen cs).map (ClassType.rename σ) := by
  induction cs generalizing seen with
  | nil => rfl
  | cons c cs ih =>
    rw [List.map_cons, World.fresh, World.fresh, ClassType.decl_rename,
      contains_map (Decl.rename_injective renamed.injective)]
    split
    · exact ih seen
    · rw [List.map_cons, ← List.map_cons, ih]

omit renamed in
theorem map_decl_rename (cs : List ClassType) :
    (cs.map (ClassType.rename σ)).map (·.decl) = (cs.map (·.decl)).map (Decl.rename σ) := by
  simp [Function.comp_def]

theorem flatMap_directSupertypes (cs : List ClassType) :
    (cs.map (ClassType.rename σ)).flatMap w'.directSupertypes =
      (cs.flatMap w.directSupertypes).map (ClassType.rename σ) := by
  rw [List.flatMap_map, List.map_flatMap]
  congr 1
  funext c
  exact renamed.directSupertypes c

theorem ancestryFrom (depth : Nat) (seen : List Decl) (level : List ClassType) :
    w'.ancestryFrom depth (seen.map (Decl.rename σ)) (level.map (ClassType.rename σ)) =
      { found := (w.ancestryFrom depth seen level).found.map (ClassType.rename σ)
        beyond := (w.ancestryFrom depth seen level).beyond.map (ClassType.rename σ) } := by
  induction depth generalizing seen level with
  | zero => simp [World.ancestryFrom, renamed.fresh]
  | succ depth ih =>
    rw [World.ancestryFrom, World.ancestryFrom, renamed.fresh]
    cases World.fresh seen level with
    | nil => rfl
    | cons c cs =>
      have above := ih ((c :: cs).map (·.decl) ++ seen) ((c :: cs).flatMap w.directSupertypes)
      rw [List.map_append, ← map_decl_rename, ← renamed.flatMap_directSupertypes] at above
      simp only [List.map_cons] at above ⊢
      rw [above]
      simp

theorem ancestry (c : ClassType) :
    w'.ancestry (c.rename σ) =
      { found := (w.ancestry c).found.map (ClassType.rename σ)
        beyond := (w.ancestry c).beyond.map (ClassType.rename σ) } :=
  renamed.ancestryFrom (hierarchyLimit + 1) [] [c]

theorem tooFar (c : ClassType) : w'.tooFar (c.rename σ) = w.tooFar c := by
  rw [World.tooFar, World.tooFar, ClassType.toType_rename, renamed.describe]

theorem ancestors (c : ClassType) :
    w'.ancestors (c.rename σ) = (w.ancestors c).map (List.map (ClassType.rename σ)) := by
  simp only [World.ancestors, renamed.ancestry]
  cases (w.ancestry c).beyond with
  | none => rfl
  | some far => simp [renamed.tooFar, Except.map]

theorem firstAbove {α β : Type} {f : ClassType → Option α} {f' : ClassType → Option β} {g : α → β}
    (each : ∀ c, f' (c.rename σ) = (f c).map g) (c : ClassType) :
    w'.firstAbove f' (c.rename σ) = (w.firstAbove f c).map (Option.map g) := by
  have found (cs : List ClassType) :
      (cs.map (ClassType.rename σ)).findSome? f' = (cs.findSome? f).map g :=
    findSome?_rename cs fun c _ => each c
  rw [World.firstAbove_eq, World.firstAbove_eq, renamed.ancestry, Ancestry.first,
    Ancestry.first, found]
  cases (w.ancestry c).found.findSome? f with
  | some a => rfl
  | none =>
    cases (w.ancestry c).beyond with
    | none => rfl
    | some far => simp [renamed.tooFar, Except.map]

theorem isSubtype (sub sup : ClassType) :
    w'.isSubtype (sub.rename σ) (sup.rename σ) = w.isSubtype sub sup := by
  let probe (v : World) (sup c : ClassType) : Option Unit :=
    if c.decl = sup.decl ∨
      ((v.qualified? c.decl).isSome ∧ v.qualified? c.decl = v.qualified? sup.decl)
    then some () else none
  have unfolded (v : World) (sub sup : ClassType) : v.isSubtype sub sup =
      if v.qualified? sup.decl = some topName then .ok true
      else (v.firstAbove (probe v sup) sub).map (·.isSome) := by
    rw [World.isSubtype]
    split
    · rfl
    · cases v.firstAbove (probe v sup) sub <;> rfl
  have each (c : ClassType) : probe w' (sup.rename σ) (c.rename σ) = (probe w sup c).map id := by
    have same : c.decl.rename σ = sup.decl.rename σ ↔ c.decl = sup.decl :=
      (Decl.rename_injective renamed.injective).eq_iff
    simp only [probe, ClassType.decl_rename, renamed.qualified?, same, Option.map_id_fun, id]
  rw [unfolded, unfolded, renamed.firstAbove each, ClassType.decl_rename, renamed.qualified?]
  cases w.firstAbove (probe w sup) sub with
  | error e => rfl
  | ok a => cases a <;> rfl

theorem collected (found cs : List ClassType) :
    (cs.map (ClassType.rename σ)).foldl (fun fs c => if fs.contains c then fs else fs ++ [c])
        (found.map (ClassType.rename σ)) =
      (cs.foldl (fun fs c => if fs.contains c then fs else fs ++ [c]) found).map
        (ClassType.rename σ) := by
  induction cs generalizing found with
  | nil => rfl
  | cons c cs ih =>
    rw [List.map_cons, List.foldl_cons, List.foldl_cons,
      contains_map (ClassType.rename_injective renamed.injective)]
    split
    · exact ih found
    · have more := ih (found ++ [c])
      rwa [List.map_append, List.map_cons, List.map_nil] at more

theorem classesAll (top : ClassType) (found : List ClassType) (bounds : List RType)
    (each : ∀ b ∈ bounds, RType.classes (top.rename σ) (b.rename σ) =
      (RType.classes top b).map (ClassType.rename σ)) :
    RType.classesAll (top.rename σ) (found.map (ClassType.rename σ)) (bounds.map (RType.rename σ)) =
      (RType.classesAll top found bounds).map (ClassType.rename σ) := by
  induction bounds generalizing found with
  | nil => rw [List.map_nil, RType.classesAll, RType.classesAll]
  | cons b bs ih =>
    rw [List.map_cons, RType.classesAll, RType.classesAll, each b List.mem_cons_self,
      renamed.collected]
    exact ih _ fun c listed => each c (List.mem_cons_of_mem _ listed)

theorem classes (top : ClassType) (t : RType) :
    RType.classes (top.rename σ) (t.rename σ) = (RType.classes top t).map (ClassType.rename σ) := by
  induction t using RType.induction with
  | ref d args => simp [RType.classes, ClassType.rename]
  | prim p => simp [RType.classes]
  | array c => simp [RType.classes]
  | unbounded => simp [RType.classes]
  | bounded v b ih => simp [RType.classes, ih]
  | var n bounds ih =>
    have found := renamed.classesAll top [] bounds ih
    rw [List.map_nil] at found
    rw [RType.rename_var, RType.classes, RType.classes, found]
    cases RType.classesAll top [] bounds <;> rfl
  | null => simp [RType.classes]

theorem qualifiedType? (t : RType) : w'.qualifiedType? (t.rename σ) = w.qualifiedType? t := by
  cases t <;> simp [World.qualifiedType?, renamed.qualified?]

theorem promote (t : RType) : w'.promote (t.rename σ) = (w.promote t).rename σ := by
  cases t with
  | ref d args =>
    simp only [RType.rename_ref, World.promote, World.qualifiedType?, renamed.qualified?]
    cases (w.qualified? d).bind Primitive.ofBox? <;> simp
  | _ => simp [World.promote, World.qualifiedType?]

omit renamed in
theorem passesAny_of_each {bounds : List RType} {param : RType}
    (each : ∀ b ∈ bounds, w'.passes (b.rename σ) (param.rename σ) = w.passes b param) :
    w'.passesAny (bounds.map (RType.rename σ)) (param.rename σ) = w.passesAny bounds param := by
  induction bounds with
  | nil => rw [List.map_nil, World.passesAny, World.passesAny]
  | cons b bs ih =>
    rw [List.map_cons, World.passesAny, World.passesAny, each b List.mem_cons_self,
      ih fun c listed => each c (List.mem_cons_of_mem _ listed)]

theorem passes (arg param : RType) :
    w'.passes (arg.rename σ) (param.rename σ) = w.passes arg param := by
  induction arg using RType.induction generalizing param with
  | ref d args =>
    cases param with
    | ref e more =>
      have subtype := renamed.isSubtype ⟨d, args⟩ ⟨e, more⟩
      simpa [World.passes, ClassType.rename] using subtype
    | _ => simp [World.passes, renamed.qualified?]
  | prim p => cases param <;> simp [World.passes, renamed.qualified?]
  | array c ih =>
    cases param with
    | array b =>
      have inner := ih b
      cases c <;> cases b <;> simp_all [World.passes]
    | ref e more => simp [World.passes, World.qualifiedType?, renamed.qualified?]
    | _ => simp [World.passes, World.qualifiedType?]
  | unbounded => cases param <;> simp [World.passes]
  | bounded v b ih => cases param <;> simp [World.passes, ← ih]
  | var n bounds ih =>
    have any := passesAny_of_each fun b listed => ih b listed param
    have top := renamed.qualifiedType? param
    cases param <;> simp_all [World.passes]
  | null => cases param <;> simp [World.passes]

theorem assignable (arg param : Option RType) :
    w'.assignable (arg.map (RType.rename σ)) (param.map (RType.rename σ)) =
      w.assignable arg param := by
  cases arg <;> cases param <;> simp [World.assignable, renamed.passes]

-- What the elements are if the type is the one to iterate over.
def iterated? (v : World) (c : ClassType) : Option RType :=
  if v.qualified? c.decl = some ⟨"java", ["lang", "Iterable"]⟩ then
    match (v.bindings c).get? "T" with
    | some .unbounded => none
    | some (.bounded _ b) => some b
    | other => other
  else none

theorem iterated?_rename (c : ClassType) :
    iterated? w' (c.rename σ) = (iterated? w c).map (RType.rename σ) := by
  simp only [iterated?, ClassType.decl_rename, renamed.qualified?, renamed.bindings,
    Bindings.get?_map]
  split
  · rcases (w.bindings c).get? "T" with _ | b
    · rfl
    · cases b <;> simp
  · rfl

-- What is said about a type without elements does not depend on the world.
theorem elementOf_rename (t : RType) (found : Except Failure (Option RType)) :
    (found.map (Option.map (RType.rename σ)) >>= fun
      | some e => .ok e
      | none => .error (.unresolved (.iteration (w'.describe (t.rename σ))))) =
    Except.map (RType.rename σ) (found >>= fun
      | some e => .ok e
      | none => .error (.unresolved (.iteration (w.describe t)))) := by
  rw [renamed.describe]
  rcases found with e | _ | t <;> rfl

theorem elementType (t : RType) :
    w'.elementType (t.rename σ) = (w.elementType t).map (RType.rename σ) := by
  have settle := renamed.elementOf_rename t
  cases t with
  | ref d args =>
    have search := settle (w.firstAbove (iterated? w) ⟨d, args⟩)
    rw [← renamed.firstAbove renamed.iterated?_rename, RType.rename_ref] at search
    rw [RType.rename_ref]
    exact search
  | array c =>
    rw [RType.rename_array] at settle ⊢
    exact settle (.ok (some c))
  | prim p => rw [RType.rename_prim] at settle ⊢; exact settle (.ok none)
  | unbounded => rw [RType.rename_unbounded] at settle ⊢; exact settle (.ok none)
  | bounded v b => rw [RType.rename_bounded] at settle ⊢; exact settle (.ok none)
  | var n bounds => rw [RType.rename_var] at settle ⊢; exact settle (.ok none)
  | null => rw [RType.rename_null] at settle ⊢; exact settle (.ok none)

end World.Renamed

end RefGraph

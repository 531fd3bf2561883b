import RefGraph.Proofs.Makers
import RefGraph.Proofs.Renaming.Typing
import RefGraph.Proofs.ResolutionEnds
import RefGraph.Proofs.TypingSteps

set_option autoImplicit false

namespace RefGraph

def Text.Solid (s : String) : Prop := ∀ c ∈ s.toList, c ≠ '.' ∧ isBlank c = false

instance (s : String) : Decidable (Text.Solid s) := List.decidableBAll _ _

namespace Text

theorem squeeze_append (s s' : String) : squeeze (s ++ s') = squeeze s ++ squeeze s' := by
  simp [squeeze]

theorem Solid.squeeze_eq {s : String} (solid : Solid s) : squeeze s = s := by
  have kept : s.toList.filter (fun c => !isBlank c) = s.toList :=
    List.filter_eq_self.2 fun c listed => by rw [(solid c listed).2]; rfl
  rw [squeeze, kept, String.ofList_toList]

end Text

/-- A node that is identifiers with dots between them, and blanks but no comments around the dots.
-/
inductive NameChain : Tree → Name → Prop
  | name {t : Tree} (kind : t.kind = "identifier") (solid : Text.Solid t.text) :
    NameChain t (.simple t.text)
  | access {t object field : Tree} {n : Name} {gap gap' : String} (kind : t.kind = "field_access")
      (isObject : t.child? "object" = some object) (isField : t.child? "field" = some field)
      (fieldKind : field.kind = "identifier") (solid : Text.Solid field.text)
      (blank : Text.squeeze gap = "") (blank' : Text.squeeze gap' = "")
      (text : t.text = object.text ++ gap ++ "." ++ gap' ++ field.text)
      (front : NameChain object n) :
      NameChain t (n.push field.text)

theorem Name.text_push (n : Name) (s : String) : (n.push s).text = n.text ++ "." ++ s := by
  have shape : (n.push s).segments = n.segments ++ [s] := rfl
  rw [text, shape, String.intercalate_append_of_ne_nil n.segments_ne_nil (List.cons_ne_nil s []),
    String.intercalate_singleton]
  rfl

theorem Name.ofString_text {n : Name} (free : ∀ s ∈ n.segments, '.' ∉ s.toList) :
    ofString n.text = n := by
  have pieces : (ofString n.text).segments = n.segments :=
    Text.split_intercalate rfl n.segments_ne_nil free
  obtain ⟨first, rest⟩ := List.cons.inj pieces
  rcases n with ⟨f, r⟩
  exact congrArg₂ mk first rest

theorem Env.objectIsNameChain_eq {t object : Tree} (found : t.child? "object" = some object) :
    objectIsNameChain t.children = isNameChain object := by
  rw [Tree.child?] at found
  generalize t.children = cs at found
  induction cs with
  | nil => cases found
  | cons c cs ih =>
    rw [objectIsNameChain]
    rw [List.find?_cons] at found
    split at found
    next isObject =>
      cases found
      rw [if_pos isObject]
    next other =>
      rw [if_neg (by simp [other])]
      exact ih found

theorem Env.isNameChain_eq (t : Tree) :
    isNameChain t = if t.kind == "field_access" then
        (t.child? "field").any (·.kind == "identifier") && objectIsNameChain t.children
      else t.kind == "identifier" := by
  cases t
  rw [isNameChain]

namespace Name

def upTo (n : Name) (count : Nat) : Name := ⟨n.first, n.rest.take count⟩

theorem length_rest_push (n : Name) (s : String) : (n.push s).rest.length = n.rest.length + 1 := by
  simp [push, append]

theorem upTo_push {n : Name} {count : Nat} (within : count ≤ n.rest.length) (s : String) :
    (n.push s).upTo count = n.upTo count := by
  simp [upTo, push, append, List.take_append_of_le_length within]

theorem upTo_length (n : Name) : n.upTo n.rest.length = n := by
  simp [upTo]

end Name

namespace NameChain

variable {t : Tree} {n : Name}

theorem squeeze_text (chain : NameChain t n) : Text.squeeze t.text = n.text := by
  induction chain with
  | @name t _ solid => rw [solid.squeeze_eq]; simp [Name.text, Name.segments, Name.simple]
  | access _ _ _ _ solid blank blank' text _ ih =>
    have dot : Text.squeeze "." = "." := by decide
    rw [text, Name.text_push, Text.squeeze_append, Text.squeeze_append, Text.squeeze_append,
      Text.squeeze_append, ih, blank, blank', dot, solid.squeeze_eq, String.append_empty,
      String.append_empty]

theorem solid (chain : NameChain t n) : ∀ s ∈ n.segments, Text.Solid s := by
  induction chain with
  | name _ solid => simpa [Name.segments, Name.simple] using solid
  | @access _ _ field n _ _ _ _ _ _ solid _ _ _ _ ih =>
    have shape : (n.push field.text).segments = n.segments ++ [field.text] := rfl
    rw [shape]
    exact List.forall_mem_append.2 ⟨ih, List.forall_mem_singleton.2 solid⟩

theorem ofString_squeeze (chain : NameChain t n) : Name.ofString (Text.squeeze t.text) = n := by
  rw [chain.squeeze_text]
  exact Name.ofString_text fun s listed dot => (chain.solid s listed '.' dot).1 rfl

theorem isNameChain (chain : NameChain t n) : Env.isNameChain t = true := by
  induction chain with
  | name kind _ => simp [Env.isNameChain_eq, kind]
  | access kind isObject isField fieldKind _ _ _ _ _ ih =>
    rw [Env.isNameChain_eq, Env.objectIsNameChain_eq isObject, ih]
    simp [kind, isField, fieldKind]

end NameChain

theorem Typing.attempt_throw {α : Type} (e : Failure) (quiet : Failure → Bool) :
    attempt (throw e : Typing α) quiet = if quiet e then pure none else throw e := rfl

namespace World

variable {w : World} {ctx : Context} {name : String}

def anyFieldInScope (w : World) (ctx : Context) (name : String) :
    Except Failure (Option FoundField) := do
  match ← w.fieldInScope ctx name with
  | some f => return some f
  | none => w.outsideFieldInScope ctx name

theorem tooFar_of_fieldInScope {e : Failure} (failed : w.fieldInScope ctx name = .error e) :
    ∃ far, e = w.tooFar far := by
  rw [fieldInScope] at failed
  rcases error_of_bind failed with around | ⟨_ | f, -, imported⟩
  · obtain ⟨t, -, searched⟩ := findSomeM?_error around
    exact tooFar_of_firstAbove searched
  · obtain ⟨i, -, searched⟩ := findSomeM?_error imported
    rw [importedField] at searched
    split at searched
    · exact tooFar_of_firstAbove searched
    · cases searched
  · cases imported

theorem tooFar_of_outsideFieldInScope {e : Failure}
    (failed : w.outsideFieldInScope ctx name = .error e) :
    ∃ far, e = w.tooFar far := by
  rw [outsideFieldInScope] at failed
  rcases error_of_bind failed with around | ⟨_ | c, -, imported⟩
  · obtain ⟨t, -, searched⟩ := findSomeM?_error around
    exact tooFar_of_firstAbove searched
  · cases imported
  · cases imported

theorem tooFar_of_anyFieldInScope {e : Failure} (failed : w.anyFieldInScope ctx name = .error e) :
    ∃ far, e = w.tooFar far := by
  rw [anyFieldInScope] at failed
  rcases error_of_bind failed with declared | ⟨_ | f, -, outside⟩
  · exact tooFar_of_fieldInScope declared
  · exact tooFar_of_outsideFieldInScope outside
  · cases outside

theorem isUnresolved_of_fieldType {f : FoundField} {e : Failure}
    (failed : w.fieldType f = .error e) :
    e.isUnresolved = true := by
  cases f with
  | declared owner args field => exact Reading.isUnresolved_of_resolve failed
  | external m owner =>
    rw [fieldType] at failed
    split at failed
    · exact Reading.isUnresolved_of_resolve failed
    · cases failed
      rfl
  | arrayLength => cases failed

end World

namespace Env

variable {env : Env}

theorem simpleName_eq {name : String} (noVariable : env.context.scope.var? name = none)
    (noType : env.resolve? (.simple name) = none) :
    env.simpleName name = (do
      match ← env.world.anyFieldInScope env.context name with
      | some f => return .field f
      | none => throw (.unresolved (.name name))) := by
  rw [simpleName, noVariable, World.anyFieldInScope]
  dsimp only
  cases env.world.fieldInScope env.context name with
  | error e => rfl
  | ok declared =>
    cases declared with
    | some f => rfl
    | none =>
      simp only [noType]
      rfl

-- A name without a value: a field without a type or none, or the search goes too far up.
theorem asReceiver_of_simpleName {name : String} (noVariable : env.context.scope.var? name = none)
    (noType : env.resolve? (.simple name) = none)
    (noField : ∀ f type, env.world.anyFieldInScope env.context name = .ok (some f) →
      env.world.fieldType f ≠ .ok type)
    (inside : TypeInside) :
    ∃ e, (do env.asReceiver inside (← env.simpleName name) : Typing Receiver) = throw e ∧
      (∀ found, env.world.anyFieldInScope env.context name = .ok found → e.isUnresolved = true) ∧
      ∀ e', env.world.anyFieldInScope env.context name = .error e' → e = e' := by
  rw [simpleName_eq noVariable noType]
  cases searched : env.world.anyFieldInScope env.context name with
  | error e =>
    exact ⟨e, rfl, fun _ answered => (by cases answered), fun _ failed => Except.error.inj failed⟩
  | ok found =>
    cases found with
    | none => exact ⟨_, rfl, fun _ _ => rfl, fun _ failed => (by cases failed)⟩
    | some f =>
      cases typed : env.world.fieldType f with
      | ok type => exact absurd typed (noField f type searched)
      | error e =>
        refine ⟨e, ?_, fun _ _ => World.isUnresolved_of_fieldType typed,
          fun _ failed => (by cases failed)⟩
        have stuck : env.asReceiver inside (.field f) = throw e := by
          rw [asReceiver, typed]
          rfl
        exact stuck

end Env

namespace NameChain

variable {env : Env} {inside : TypeInside} {t object field : Tree} {n : Name} {e : Failure}

theorem dotted_eq (chain : NameChain t n) :
    env.dotted t = (env.resolve? n).elim (.package n.text) .type := by
  -- Unfolding by its equation is slow here.
  delta Env.dotted
  dsimp only
  rw [chain.ofString_squeeze, chain.squeeze_text]
  cases env.resolve? n <;> rfl

theorem access_eq (chain : NameChain t n) (isObject : t.child? "object" = some object)
    (isField : t.child? "field" = some field) (fieldKind : field.kind = "identifier")
    (failed : env.receiver inside object = throw e) :
    env.access inside t =
      if e.isUnresolved then pure ((env.resolve? n).elim (.package n.text) .type) else throw e := by
  have plain : field.is Env.selfWords = false := by rw [Tree.is, fieldKind]; rfl
  rw [Env.access, Env.accessOn, isObject, isField, Env.objectReceiver_eq isObject, failed,
    ← chain.dotted_eq]
  simp only [plain, chain.isNameChain, Typing.attempt_throw, Bool.and_true,
    Bool.false_eq_true, if_false]
  cases e.isUnresolved <;> rfl

theorem receiver_access (kind : t.kind = "field_access") (isField : t.child? "field" = some field)
    (fieldKind : field.kind = "identifier") :
    env.receiver inside t = env.access inside t >>= env.asReceiver inside := by
  have plain : field.is Env.selfWords = false := by rw [Tree.is, fieldKind]; rfl
  rw [Env.receiver_eq, if_neg (by simp [kind]), if_pos (by simp [kind]),
    if_neg (by simp [isField, plain])]
  rfl

variable (env) in
theorem noType_front {s : String}
    (noType : ∀ k < (n.push s).rest.length, env.resolve? ((n.push s).upTo k) = none) :
    ∀ k ≤ n.rest.length, env.resolve? (n.upTo k) = none := by
  intro k within
  rw [← Name.upTo_push within s]
  exact noType k (Name.length_rest_push n s ▸ Nat.lt_succ_of_le within)

-- By induction along the chain: each part fails as the first identifier does, or because it is only
-- a package.
theorem receiver_fails (chain : NameChain t n)
    (noType : ∀ k ≤ n.rest.length, env.resolve? (n.upTo k) = none)
    (first : (do env.asReceiver inside (← env.simpleName n.first) : Typing Receiver) = throw e) :
    ∃ e', env.receiver inside t = throw e' ∧ e'.isUnresolved = e.isUnresolved ∧
      (e.isUnresolved = false → e' = e) := by
  induction chain with
  | @name t kind _ =>
    refine ⟨e, ?_, rfl, fun _ => rfl⟩
    rw [Env.receiver_eq, if_pos (by simp [kind])]
    exact first
  | @access t object field n _ _ kind isObject isField fieldKind solid blank blank' text front ih =>
    have whole : env.resolve? (n.push field.text) = none := by
      rw [← Name.upTo_length (n.push field.text)]
      exact noType _ (Nat.le_refl _)
    obtain ⟨e', failed, same, kept⟩ :=
      ih (noType_front env fun k within => noType k (Nat.le_of_lt within)) first
    have chain := NameChain.access kind isObject isField fieldKind solid blank blank' text front
    rw [receiver_access kind isField fieldKind,
      chain.access_eq isObject isField fieldKind failed, whole]
    cases unresolved : e'.isUnresolved with
    | false => exact ⟨e', rfl, same, kept⟩
    | true =>
      rw [← same, unresolved]
      exact ⟨_, rfl, rfl, fun loud => Bool.noConfusion loud⟩

theorem access_whole (chain : NameChain t n) (isDotted : n.rest ≠ [])
    (noType : ∀ k < n.rest.length, env.resolve? (n.upTo k) = none)
    (first : (do env.asReceiver inside (← env.simpleName n.first) : Typing Receiver) = throw e) :
    env.access inside t =
      if e.isUnresolved then pure ((env.resolve? n).elim (.package n.text) .type) else throw e := by
  cases chain with
  | name => exact absurd rfl isDotted
  | access kind isObject isField fieldKind solid blank blank' text front =>
    obtain ⟨e', failed, same, kept⟩ := front.receiver_fails (noType_front env noType) first
    have chain := NameChain.access kind isObject isField fieldKind solid blank blank' text front
    rw [chain.access_eq isObject isField fieldKind failed, same]
    cases unresolved : e.isUnresolved with
    | true => rfl
    | false => rw [kept unresolved]

theorem kinds_of_dotted (chain : NameChain t n) (isDotted : n.rest ≠ []) :
    t.kind = "field_access" ∧ ∃ field, t.child? "field" = some field ∧
      field.kind = "identifier" := by
  cases chain with
  | name => exact absurd rfl isDotted
  | access kind _ isField fieldKind => exact ⟨kind, _, isField, fieldKind⟩

end NameChain

namespace Env

variable {env : Env} {t : Tree} {n : Name}

/-- The node is a dotted name whose first identifier stands for no variable and for no field of a
known type, and no shorter part of it is a type. -/
structure NamesWhole (env : Env) (t : Tree) (n : Name) : Prop where
  chain : NameChain t n
  isDotted : n.rest ≠ []
  noVariable : env.context.scope.var? n.first = none
  noField : ∀ f type, env.world.anyFieldInScope env.context n.first = .ok (some f) →
    env.world.fieldType f ≠ .ok type
  noType : ∀ k < n.rest.length, env.resolve? (n.upTo k) = none

namespace NamesWhole

variable (whole : env.NamesWhole t n)

include whole

theorem first_fails (inside : TypeInside) :
    ∃ e, (do env.asReceiver inside (← env.simpleName n.first) : Typing Receiver) = throw e ∧
      (∀ found, env.world.anyFieldInScope env.context n.first = .ok found → e.isUnresolved = true) ∧
      ∀ e', env.world.anyFieldInScope env.context n.first = .error e' → e = e' :=
  asReceiver_of_simpleName whole.noVariable
    (whole.noType 0 (List.length_pos_of_ne_nil whole.isDotted)) whole.noField
    inside

theorem access_of_found {found : Option FoundField}
    (searched : env.world.anyFieldInScope env.context n.first = .ok found) (inside : TypeInside) :
    env.access inside t = pure ((env.resolve? n).elim (.package n.text) .type) := by
  obtain ⟨e, stuck, unresolved, -⟩ := whole.first_fails inside
  rw [whole.chain.access_whole whole.isDotted whole.noType stuck,
    unresolved found searched, if_pos rfl]

theorem access_of_error {e : Failure}
    (failed : env.world.anyFieldInScope env.context n.first = .error e) (inside : TypeInside) :
    env.access inside t = throw e := by
  obtain ⟨e', stuck, -, same⟩ := whole.first_fails inside
  obtain rfl := same e failed
  obtain ⟨far, rfl⟩ := World.tooFar_of_anyFieldInScope failed
  exact whole.chain.access_whole whole.isDotted whole.noType stuck

theorem targetOf_eq : env.targetOf t = env.referentTarget <$> env.access env.typeInside t := by
  simp only [targetOf, (whole.chain.kinds_of_dotted whole.isDotted).1]
  rfl

theorem targetOf_of_error {e : Failure}
    (failed : env.world.anyFieldInScope env.context n.first = .error e) :
    env.targetOf t = throw e := by
  rw [whole.targetOf_eq, whole.access_of_error failed]
  rfl

theorem call_eq {found : Option FoundField}
    (searched : env.world.anyFieldInScope env.context n.first = .ok found) {d : Decl}
    (resolved : env.resolve? n = some d) (inside : TypeInside) {call : Tree} {method : String}
    (isObject : call.child? "object" = some t) (called : call.childText? "name" = some method) :
    env.call inside call = (do
      let args ← env.argTypes inside call
      liftM (env.world.callOn method { args, explicit := env.explicitArgs call } none
        [⟨d, []⟩])) := by
  obtain ⟨kind, field, isField, fieldKind⟩ := whole.chain.kinds_of_dotted whole.isDotted
  have receiver : env.receiver inside t = pure ⟨.ref d [], true⟩ := by
    rw [NameChain.receiver_access kind isField fieldKind,
      whole.access_of_found searched inside, resolved]
    rfl
  simp only [Env.call, called, isObject, kind, receiver]
  rfl

end NamesWhole

/-- A dotted name is the type that it names, or else a package; it fails exactly if the search for a
field of the first identifier goes too far up. -/
theorem dotted_name_meant (whole : env.NamesWhole t n) :
    (∀ found, env.world.anyFieldInScope env.context n.first = .ok found →
      env.targetOf t = pure ((env.resolve? n).elim (.package n.text) .type) ∧
      ∀ d, env.resolve? n = some d → ∀ inside call method, call.child? "object" = some t →
        call.childText? "name" = some method → env.call inside call = (do
          let args ← env.argTypes inside call
          liftM (env.world.callOn method { args, explicit := env.explicitArgs call } none
            [⟨d, []⟩]))) ∧
    ∀ e, env.world.anyFieldInScope env.context n.first = .error e →
      (∃ far, e = env.world.tooFar far) ∧ env.targetOf t = throw e := by
  refine ⟨fun found searched => ⟨?_, fun d resolved inside call method => ?_⟩, fun e failed => ?_⟩
  · rw [whole.targetOf_eq, whole.access_of_found searched]
    cases env.resolve? n <;> rfl
  · exact whole.call_eq searched resolved inside
  · exact ⟨World.tooFar_of_anyFieldInScope failed, whole.targetOf_of_error failed⟩

def gapAccess (object : Tree) (gap name : String) : Tree :=
  Node.access object (object.text ++ gap ++ "." ++ "" ++ name) name

theorem nameChain_gapAccess {object : Tree} (role : object.role = some "object")
    (front : NameChain object n) {gap : String} (blank : Text.squeeze gap = "") {name : String}
    (solid : Text.Solid name) :
    NameChain (gapAccess object gap name) (n.push name) := by
  have isObject : (gapAccess object gap name).child? "object" = some object :=
    List.find?_cons_of_pos (by simp [role])
  have isField :
      (gapAccess object gap name).child? "field" = some (Node.leaf "identifier" name "field") := by
    rw [Tree.child?, gapAccess, Node.access, List.find?_cons_of_neg (by simp [role])]
    rfl
  exact .access rfl isObject isField rfl solid blank (by decide) rfl front

-- `p .q.X`
def blankChain : Tree := gapAccess (gapAccess (Node.leaf "identifier" "p" "object") " " "q") "" "X"

-- `p .q.X.f()`
def blankChainCall : Tree := Node.call 0 [blankChain] "f" []

theorem nameChain_blankChain : NameChain blankChain ⟨"p", ["q", "X"]⟩ := by
  have first : NameChain (Node.leaf "identifier" "p" "object") (.simple "p") :=
    .name rfl (by decide)
  have second := nameChain_gapAccess rfl first (show Text.squeeze " " = "" by decide)
    (show Text.Solid "q" by decide)
  exact nameChain_gapAccess rfl second (show Text.squeeze "" = "" by decide)
    (show Text.Solid "X" by decide)

-- `class A extends U {}`, where `U` is unknown, and `package p.q; class X { void f() {} }`
def unknownAbove : World where
  units := [SourceUnit.ofTypes [TypeDecl.ofClass "A" [.simple "U"] []],
    SourceUnit.ofTypes
      [{ TypeDecl.ofClass "X" [] [{ name := "f" }] with qualified := some ⟨"p", ["q", "X"]⟩ }]]
  sources := [.catalog (NameTable.ofList [(⟨"p", ["q", "X"]⟩, ⟨1, 0⟩)]),
    .placeholders (Registry.register {} (.simple "U") 0).1]

def belowUnknown : Env where
  world := unknownAbove
  context := unknownAbove.typeContext ⟨0, 0⟩ {}
  limit := 64

theorem foundBelowUnknown : belowUnknown.world.anyFieldInScope belowUnknown.context "p" =
    .ok (some (.external ⟨"p", .field, .placeholder ⟨.simple "U", 0⟩,
      none⟩ ⟨.placeholder ⟨.simple "U", 0⟩, []⟩)) := by
  rfl

-- `p` may be a field of `U`, but nothing tells its type.
theorem dotted_name_meant_belowUnknown :
    let env := belowUnknown
    env.NamesWhole blankChain ⟨"p", ["q", "X"]⟩ ∧
      env.targetOf blankChain = pure (.type (.corpus ⟨1, 0⟩)) ∧
      env.call env.typeInside blankChainCall = (do
        let args ← env.argTypes env.typeInside blankChainCall
        liftM (env.world.callOn "f" { args, explicit := env.explicitArgs blankChainCall } none
          [⟨.corpus ⟨1, 0⟩, []⟩])) := by
  intro env
  have whole : env.NamesWhole blankChain ⟨"p", ["q", "X"]⟩ := by
    refine ⟨nameChain_blankChain, List.cons_ne_nil _ _, rfl,
      fun f type found typed => ?_, by decide +kernel⟩
    rw [foundBelowUnknown] at found
    cases found
    cases typed
  have resolved : env.resolve? ⟨"p", ["q", "X"]⟩ = some (.corpus ⟨1, 0⟩) := by decide +kernel
  obtain ⟨meant, called⟩ := (dotted_name_meant whole).1 _ foundBelowUnknown
  rw [resolved] at meant
  exact ⟨whole, meant, called _ resolved _ blankChainCall "f" rfl rfl⟩

-- `p.X`
def plainChain : Tree := gapAccess (Node.leaf "identifier" "p" "object") "" "X"

theorem nameChain_plainChain : NameChain plainChain ⟨"p", ["X"]⟩ := by
  have first : NameChain (Node.leaf "identifier" "p" "object") (.simple "p") :=
    .name rfl (by decide)
  exact nameChain_gapAccess rfl first (show Text.squeeze "" = "" by decide)
    (show Text.Solid "X" by decide)

-- `package p; class X {} class α extends β {} class β extends γ {} …`, 49 classes above `α`
def tower : World :=
  let level (n : Nat) : String := String.ofList [Char.ofNat (0x3b1 + n)]
  let levels := (List.range 49).map fun n => TypeDecl.ofClass (level n) [.simple (level (n + 1))] []
  { units := [.ofTypes ({ TypeDecl.ofClass "X" [] [] with qualified := some ⟨"p", ["X"]⟩ } :: levels)]
    sources := [.catalog (NameTable.ofList [(⟨"p", ["X"]⟩, ⟨0, 0⟩)])] }

def belowTower : Env where
  world := tower
  context := tower.typeContext ⟨0, 1⟩ {}
  limit := 64

theorem exists_error {α : Type} {x : Except Failure α} (failed : x.isOk = false) :
    ∃ e, x = .error e := by
  cases x with
  | error e => exact ⟨e, rfl⟩
  | ok a => cases failed

-- The top is one step too far from `α`, so nothing comes of looking for a field `p`.
theorem dotted_name_meant_belowTower :
    let env := belowTower
    env.NamesWhole plainChain ⟨"p", ["X"]⟩ ∧
      (∀ f, env.world.anyFieldInScope env.context "p" ≠ .ok (some f)) ∧
      env.resolve? ⟨"p", ["X"]⟩ = some (.corpus ⟨0, 0⟩) ∧
        ∃ far, env.targetOf plainChain = throw (env.world.tooFar far) := by
  intro env
  have evaluated : (env.world.anyFieldInScope env.context "p").isOk = false ∧
      (∀ k < 1, env.resolve? (Name.upTo ⟨"p", ["X"]⟩ k) = none) ∧
      env.resolve? ⟨"p", ["X"]⟩ = some (.corpus ⟨0, 0⟩) := by
    decide +kernel
  obtain ⟨e, searched⟩ := exists_error evaluated.1
  have noField (f : FoundField) : env.world.anyFieldInScope env.context "p" ≠ .ok (some f) :=
      fun found => by
    cases searched.symm.trans found
  have whole : env.NamesWhole plainChain ⟨"p", ["X"]⟩ :=
    ⟨nameChain_plainChain, List.cons_ne_nil _ _, rfl,
      fun f _ found => absurd found (noField f), evaluated.2.1⟩
  obtain ⟨far, rfl⟩ := World.tooFar_of_anyFieldInScope searched
  exact ⟨whole, noField, evaluated.2.2, far, whole.targetOf_of_error searched⟩

end Env

end RefGraph

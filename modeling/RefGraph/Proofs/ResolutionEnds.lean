import RefGraph.Proofs.HierarchyClimb
import RefGraph.Proofs.ResolutionCode
import RefGraph.Proofs.SearchTermination

set_option autoImplicit false

namespace RefGraph

namespace Tree

theorem size_le_sizeAll {c : Tree} {cs : List Tree} (listed : c ∈ cs) : c.size ≤ sizeAll cs := by
  induction cs with
  | nil => cases listed
  | cons d ds ih =>
    rw [sizeAll]
    cases listed with
    | head => omega
    | tail _ later =>
      have := ih later
      omega

theorem size_lt {t c : Tree} (listed : c ∈ t.children) : c.size < t.size := by
  have below := size_le_sizeAll listed
  cases t
  rw [size]
  exact Nat.lt_succ_of_le below

theorem size_pos (t : Tree) : 0 < t.size := by
  cases t
  rw [size]
  omega

end Tree

theorem TypeRef.sizeOf_arg_lt {t : TypeRef} {a : Arg TypeRef} (listed : a ∈ t.args) :
    sizeOf a < sizeOf t := by
  have inside := List.sizeOf_lt_of_mem listed
  cases t
  simp only at inside
  simp only [TypeRef.mk.sizeOf_spec]
  omega

namespace Reading

def named (r : Reading) (t : TypeRef) (n : Name) : Option RType → Except Failure RType
  | some type => .ok (RType.arrays t.dims type)
  | none =>
    match r.find n with
    | none => .error (.unresolved (.name n.text))
    | some d => .ok (RType.arrays t.dims (.ref d (r.resolveArgs t.args)))

theorem resolve_eq (r : Reading) (t : TypeRef) :
    r.resolve t =
      match t.head with
      | .primitive p => .ok (RType.arrays t.dims (.prim p))
      | .named n => r.named t n (if n.isQualified then none else r.known n.first) := by
  cases t
  rw [resolve.eq_def]
  rfl

theorem isUnresolved_of_resolve {r : Reading} {t : TypeRef} {e : Failure}
    (fails : r.resolve t = .error e) :
    e.isUnresolved := by
  rw [resolve_eq] at fails
  split at fails
  · cases fails
  · rw [named.eq_def] at fails
    repeat' split at fails
    all_goals cases fails
    rfl

theorem resolveArgs_eq_map (r : Reading) (args : List (Arg TypeRef)) :
    r.resolveArgs args = args.map r.resolveArg := by
  induction args with
  | nil => rw [resolveArgs, List.map_nil]
  | cons a as ih => rw [resolveArgs, List.map_cons, ih]

end Reading

namespace Env

theorem objectReceiver_eq {env : Env} {inside : TypeInside} {t obj : Tree}
    (found : t.child? "object" = some obj) :
    env.objectReceiver inside t.children = env.receiver inside obj := by
  rw [Tree.child?] at found
  generalize t.children = cs at found
  induction cs with
  | nil => cases found
  | cons c cs ih =>
    rw [objectReceiver]
    rw [List.find?_cons] at found
    split at found
    next isObject =>
      cases found
      rw [if_pos isObject]
    next other =>
      rw [if_neg (by simp [other])]
      exact ih found

theorem leftTypeIn_eq (env : Env) (inside : TypeInside) (t : Tree) :
    env.leftTypeIn inside t.children = ((t.child? "left").map (env.leftType inside)).getD
      (pure none) := by
  rw [Tree.child?]
  generalize t.children = cs
  induction cs with
  | nil => rw [leftTypeIn]; rfl
  | cons c cs ih =>
    rw [leftTypeIn, List.find?_cons]
    cases isLeft : c.role == some "left" with
    | true => simp
    | false => simpa using ih

def callPassing (env : Env) (inside : TypeInside) (t : Tree) (name : String) (passed : Passed) :
    Typing Call :=
  let w := env.world
  match t.child? "object" with
  | none => w.bareCall env.context name passed
  | some obj =>
    if obj.kind == "super" then do
      let id ← env.innermost
      w.callOn name passed none (w.directSupertypes (World.selfType id))
    else do
      let r ← env.receiver inside obj
      match r.type.classes w.top with
      | [] => throw (.unresolved (.receiver name (w.describe r.type)))
      | types => w.callOn name passed none types

theorem call_eq (env : Env) (inside : TypeInside) (t : Tree) :
    env.call inside t =
      match t.childText? "name" with
      | none => throw (.untypable .namelessCall)
      | some name => env.argTypes inside t >>= fun args =>
        env.callPassing inside t name { args, explicit := env.explicitArgs t } := rfl

end Env

namespace Resolution

variable {α β ι : Type} {P : Question → Prop}

/-- The code asks only questions with the property and, given right answers, does what typing does.
-/
def Mirrors (P : Question → Prop) (x : Working α) (y : Typing α) : Prop :=
  ∀ known, (x known).Asks (fun q => P q.1) ∧ (x known).eval reply = y.run known

namespace Mirrors

theorem pure (a : α) : Mirrors P (Pure.pure a) (Pure.pure a) := fun _ => ⟨trivial, rfl⟩

theorem throw (e : Failure) : Mirrors P (MonadExcept.throw e : Working α) (MonadExcept.throw e) :=
  fun _ => ⟨trivial, rfl⟩

theorem lift (x : Except Failure α) : Mirrors P (liftM x : Working α) (liftM x) := by
  intro known
  cases x <;> exact ⟨trivial, rfl⟩

theorem get : Mirrors P (MonadState.get : Working LocalTypes) MonadState.get :=
  fun _ => ⟨trivial, rfl⟩

theorem modify (f : LocalTypes → LocalTypes) :
    Mirrors P (modify f : Working PUnit) (modify f) := fun _ => ⟨trivial, rfl⟩

theorem ask {q : Question} (allowed : P q) : Mirrors P (Resolution.ask q) (answer q) :=
  fun _ => ⟨⟨allowed, fun _ => trivial⟩, rfl⟩

theorem bind {x : Working α} {y : Typing α} {f : α → Working β} {g : α → Typing β}
    (first : Mirrors P x y) (next : ∀ a, Mirrors P (f a) (g a)) :
    Mirrors P (x >>= f) (y >>= g) := by
  intro known
  have split : (x >>= f) known = (x known >>= fun r => ExceptT.bindCont f r.1 r.2) := rfl
  obtain ⟨asks, same⟩ := first known
  rw [split, Code.eval_bind, same, Typing.run_bind]
  refine ⟨asks.bind fun r => ?_, ?_⟩
  · obtain ⟨result, later⟩ := r
    cases result with
    | ok a => exact (next a later).1
    | error e => trivial
  · cases y.run known with
    | mk result later =>
      cases result with
      | ok a => exact (next a later).2
      | error e => rfl

theorem attempt {x : Working α} {y : Typing α} (mirrors : Mirrors P x y) (quiet : Failure → Bool) :
    Mirrors P (Resolution.attempt x quiet) (Typing.attempt y quiet) := by
  intro known
  obtain ⟨asks, same⟩ := mirrors known
  refine ⟨asks.bind fun _ => trivial, ?_⟩
  rw [Resolution.attempt, Code.eval_bind, same, Typing.run_attempt]
  cases y.run known with
  | mk result later => cases result <;> rfl

theorem forEach {f : ι → Working α} {g : ι → Typing α} {is : List ι}
    (each : ∀ i ∈ is, Mirrors P (f i) (g i)) :
    Mirrors P (Resolution.forEach f is) (is.mapM g) := by
  induction is with
  | nil =>
    rw [List.mapM_nil]
    exact pure []
  | cons i is ih =>
    rw [List.mapM_cons]
    have rest := ih fun j listed => each j (List.mem_cons_of_mem i listed)
    exact (each i List.mem_cons_self).bind fun a => rest.bind fun as => pure (a :: as)

end Mirrors

section Written

variable {w : World} {ctx? : Option Context}

-- Where a written type cannot be resolved the attempt gives nothing, and that is its only failure.
theorem attempt_resolve (r : Reading) (t : TypeRef) :
    Typing.attempt (liftM (r.resolve t)) Failure.isUnresolved = pure (r.resolve t).toOption := by
  apply funext
  intro known
  refine (Typing.run_attempt _ _ known).trans ?_
  rw [Typing.run_lift]
  cases found : r.resolve t with
  | ok type => rfl
  | error e =>
    simp only [Reading.isUnresolved_of_resolve found]
    rfl

theorem mirrors_readIfKnown {params : Params} {t : TypeRef}
    (allowed : P (.written w ctx? params t)) :
    Mirrors P (attempt (ask (.written w ctx? params t)) Failure.isUnresolved)
      (pure ((params.reading w ctx?).resolve t).toOption) := by
  rw [← attempt_resolve]
  exact (Mirrors.ask allowed).attempt _

theorem mirrors_forEach {f : ι → Working α} {g : ι → α} {is : List ι}
    (each : ∀ i ∈ is, Mirrors P (f i) (pure (g i))) :
    Mirrors P (forEach f is) (pure (is.map g)) := by
  have mirrors := Mirrors.forEach each
  rwa [List.mapM_pure] at mirrors

theorem mirrors_argument {params : Params} {a : Arg TypeRef}
    (allowed : ∀ t, sizeOf t < sizeOf a → P (.written w ctx? params t)) :
    Mirrors P (argument w ctx? params a) (answer (.argument w ctx? params a)) := by
  rw [answer]
  cases a with
  | unbounded =>
    rw [Reading.resolveArg]
    exact .pure _
  | type t =>
    rw [Reading.resolveArg]
    have smaller : sizeOf t < sizeOf (Arg.type t) := by
      rw [Arg.type.sizeOf_spec]
      omega
    exact (mirrors_readIfKnown (allowed t smaller)).bind fun found => .pure (found.getD .unbounded)
  | bounded v t =>
    rw [Reading.resolveArg]
    have smaller : sizeOf t < sizeOf (Arg.bounded v t) := by
      rw [Arg.bounded.sizeOf_spec]
      omega
    exact (mirrors_readIfKnown (allowed t smaller)).bind fun found =>
      .pure ((found.map (RType.bounded v)).getD .unbounded)

theorem mirrors_bounds {p : TypeParam} (allowed : ∀ t, P (.written w ctx? .bare t)) :
    Mirrors P (bounds w ctx? p) (pure (w.boundsOf ctx? p)) := by
  have bounds : w.boundsOf ctx? p = (p.bounds.map fun b =>
      ((w.bareReading ctx?).resolve b).toOption).filterMap id := by
    rw [World.boundsOf, List.filterMap_map]
    rfl
  rw [bounds]
  have each (b : TypeRef) := mirrors_readIfKnown (allowed b)
  exact (mirrors_forEach fun b _ => each b).bind fun found => .pure (found.filterMap id)

theorem mirrors_boundName {params : Params} {name : String}
    (allowed : ∀ b t, params = .bound b → P (.written w ctx? .bare t)) :
    Mirrors P (boundName w ctx? name params) (pure ((params.reading w ctx?).known name)) := by
  cases params with
  | bare => exact .pure _
  | bound b =>
    simp only [boundName, Params.reading, World.reading]
    cases b.get? name with
    | some t => exact .pure _
    | none =>
      cases ctx?.bind (·.typeParams.get? name) with
      | none => exact .pure _
      | some p =>
        have found : Mirrors P (bounds w ctx? p) (pure (w.boundsOf ctx? p)) :=
          mirrors_bounds fun t => allowed b t rfl
        exact found.bind fun bounds => .pure (some (RType.var p.name bounds))

theorem mirrors_named {params : Params} {t : TypeRef} {n : Name}
    (allowed : ∀ a ∈ t.args, P (.argument w ctx? params a)) (known : Option RType) :
    Mirrors P (named w ctx? params t n known)
      (liftM ((params.reading w ctx?).named t n known)) := by
  have find : (params.reading w ctx?).find = w.resolve? ctx? := by cases params <;> rfl
  cases known with
  | some type => exact .pure _
  | none =>
    simp only [named, Reading.named, find]
    cases w.resolve? ctx? n with
    | none => exact .throw _
    | some d =>
      rw [Reading.resolveArgs_eq_map]
      have each (a : Arg TypeRef) (listed : a ∈ t.args) := Mirrors.ask (allowed a listed)
      exact (mirrors_forEach each).bind fun args => .pure (RType.arrays t.dims (.ref d args))

theorem mirrors_written {params : Params} {t : TypeRef}
    (bounds : ∀ b t, params = .bound b → P (.written w ctx? .bare t))
    (args : ∀ a ∈ t.args, P (.argument w ctx? params a)) :
    Mirrors P (written w ctx? params t) (answer (.written w ctx? params t)) := by
  rw [answer, Reading.resolve_eq, written]
  cases t.head with
  | primitive p => exact .pure _
  | named n =>
    cases qualified : n.isQualified with
    | true =>
      simp only [qualified]
      exact mirrors_named args none
    | false =>
      simp only [qualified]
      exact (mirrors_boundName bounds).bind (mirrors_named args)

end Written

section Expressions

variable {depth : Nat} {env : Env}

structure Open (P : Question → Prop) (depth : Nat) (env : Env) : Prop where
  expression : ∀ busy t, P (.typeOf depth { env with busy } t)
  written : ∀ w ctx? params t, P (.written w ctx? params t)
  argument : ∀ w ctx? params a, P (.argument w ctx? params a)

theorem mirrors_fieldType (w : World) (written : ∀ ctx? params t, P (.written w ctx? params t))
    (f : FoundField) :
    Mirrors P (fieldType w f) (liftM (w.fieldType f)) := by
  cases f with
  | declared owner args f => exact .ask (written _ _ _)
  | external m owner =>
    rw [fieldType, World.fieldType]
    cases m.returns with
    | some t => exact .ask (written _ _ _)
    | none => exact .throw _
  | arrayLength => exact .pure _

theorem mirrors_returnType (w : World) (written : ∀ ctx? params t, P (.written w ctx? params t))
    (call : Call) :
    Mirrors P (returnType w call) (liftM (w.returnType call)) := by
  rw [returnType, World.returnType]
  cases call.member with
  | declared m =>
    cases returned : m.member with
    | method method =>
      simp only [returned]
      exact .ask (written _ _ _)
    | _ =>
      simp only [returned]
      exact .throw _
  | external m =>
    cases returned : m.returns with
    | some t =>
      simp only [returned]
      exact .ask (written _ _ _)
    | none =>
      simp only [returned]
      exact .throw _

namespace Open

variable (allowed : Open P depth env)

include allowed

theorem typeOf (t : Tree) :
    Mirrors P (ask (.typeOf depth env t)) (Env.typeWithin (levels env depth) env t) :=
  .ask (allowed.expression env.busy t)

theorem typeIfKnown (t : Tree) :
    Mirrors P (Resolution.typeIfKnown depth env t)
      (env.typeIfKnown (Env.typeWithin (levels env depth)) t) :=
  (allowed.typeOf t).attempt _

theorem resolveWritten (t : TypeRef) :
    Mirrors P (Resolution.resolveWritten env t) (liftM (env.resolveWritten t)) :=
  .ask (allowed.written _ _ _ _)

theorem inferLocal (v : LocalVar) :
    Mirrors P (Resolution.inferLocal depth env v)
      (env.inferLocal (Env.typeWithin (levels env depth)) v) := by
  rw [Resolution.inferLocal, Env.inferLocal]
  cases v.initializer with
  | none => exact .throw _
  | some init =>
    simp only
    split
    · exact .throw _
    · have inner := Mirrors.ask (allowed.expression (v.id :: env.busy) init)
      refine inner.bind fun t => ?_
      split
      · exact .lift _
      · exact .pure t

theorem localType (v : LocalVar) :
    Mirrors P (Resolution.localType depth env v)
      (env.localType (Env.typeWithin (levels env depth)) v) := by
  refine Mirrors.get.bind fun known => ?_
  cases known.find? fun e => e.1 == v.id with
  | some e => exact .pure e.2
  | none =>
    have found (t : RType) :=
      (Mirrors.modify (P := P) fun known => (v.id, t) :: known).bind fun _ => .pure t
    cases v.type with
    | some written => exact (allowed.resolveWritten written).bind found
    | none => exact (allowed.inferLocal v).bind found

theorem asReceiver (locals : ∀ v, P (.localType depth env v)) (r : Referent) :
    Mirrors P (Resolution.asReceiver
      depth env r) (env.asReceiver (Env.typeWithin (levels env depth)) r) := by
  cases r with
  | localVar v => exact (Mirrors.ask (locals v)).bind fun t => .pure (Receiver.mk t false)
  | field f => exact (mirrors_fieldType env.world
    (allowed.written _) f).bind fun t => .pure (Receiver.mk t false)
  | type d => exact .pure _
  | package name => exact .throw _

theorem receiver {t : Tree} (locals : ∀ v, P (.localType depth env v))
    (names : P (.name env t.text)) (accesses : P (.access depth env t)) :
    Mirrors P (Resolution.receiver depth env t) (answer (.receiver depth env t)) := by
  rw [answer, Env.receiver_eq, Resolution.receiver]
  have value := (allowed.typeOf t).bind fun type => .pure (Receiver.mk type false)
  split
  · exact (Mirrors.ask names).bind (allowed.asReceiver locals)
  · split
    · split
      · exact value
      · exact (Mirrors.ask accesses).bind (allowed.asReceiver locals)
    · split
      · exact (Mirrors.lift (env.typeNamed t)).bind fun d => .pure (Receiver.mk (.ref d []) true)
      · exact value

omit allowed in
theorem access {t : Tree} (objects : ∀ obj, t.child? "object" = some obj →
    P (.receiver depth env obj)) :
    Mirrors P (Resolution.access depth env t) (answer (.access depth env t)) := by
  rw [answer, Env.access, Env.accessOn, Resolution.access]
  cases isObject : t.child? "object" with
  | none => exact .throw _
  | some obj =>
    cases t.child? "field" with
    | none => exact .throw _
    | some field =>
      simp only
      split
      · exact (Mirrors.lift (env.typeNamed obj)).bind fun d => .pure (Referent.type d)
      · rw [Env.objectReceiver_eq isObject]
        refine ((Mirrors.ask (objects obj isObject)).attempt _).bind fun found => ?_
        cases found with
        | none => exact .pure _
        | some r => exact .lift _

theorem argTypes (t : Tree) :
    Mirrors P (Resolution.argTypes depth env t)
      (env.argTypes (Env.typeWithin (levels env depth)) t) :=
  .forEach fun arg _ => allowed.typeIfKnown arg

theorem explicitArgs (t : Tree) :
    Mirrors P (Resolution.explicitArgs env t) (pure (env.explicitArgs t)) := by
  rw [Resolution.explicitArgs, Env.explicitArgs]
  cases t.child? "type_arguments" with
  | none => exact .pure []
  | some node =>
    simp only
    rw [Reading.resolveArgs_eq_map]
    exact mirrors_forEach fun a _ => .ask (allowed.argument _ _ _ a)

omit allowed in
theorem callPassing {t : Tree} (objects : ∀ obj, t.child? "object" = some obj →
    P (.receiver depth env obj)) (name : String) (passed : Passed) :
    Mirrors P (Resolution.callPassing depth env t name passed)
      (env.callPassing (Env.typeWithin (levels env depth)) t name passed) := by
  rw [Resolution.callPassing, Env.callPassing]
  cases isObject : t.child? "object" with
  | none => exact .lift _
  | some obj =>
    simp only
    split
    · exact (Mirrors.lift env.innermost).bind fun id => .lift _
    · refine (Mirrors.ask (objects obj isObject)).bind fun r => ?_
      cases r.type.classes env.world.top with
      | nil => exact .throw _
      | cons type types => exact .lift _

theorem call {t : Tree} (objects : ∀ obj, t.child? "object" = some obj →
    P (.receiver depth env obj)) :
    Mirrors P (Resolution.call depth env t) (answer (.call depth env t)) := by
  rw [answer, Env.call_eq, Resolution.call]
  cases t.childText? "name" with
  | none => exact .throw _
  | some name =>
    refine (allowed.argTypes t).bind fun args => ?_
    exact (allowed.explicitArgs t).bind fun explicit => callPassing objects name { args, explicit }

theorem constructorCall (t : Tree) :
    Mirrors P (Resolution.constructorCall depth env t) (answer (.constructorCall depth env t)) :=
  (Mirrors.lift env.innermost).bind fun _ => (allowed.argTypes t).bind fun _ => .lift _

theorem combine (t : Tree) (left : Option RType) :
    Mirrors P (Resolution.combine depth env t left)
      (env.combine (Env.typeWithin (levels env depth)) t left) := by
  rw [Resolution.combine, Env.combine]
  split
  · exact .pure _
  · cases t.child? "right" with
    | some r => exact (allowed.typeIfKnown r).bind fun right => .lift _
    | none => exact .lift _

omit allowed in
theorem leftOperand {t : Tree} (lefts : ∀ left, t.child? "left" = some left →
    P (.operand depth env left)) :
    Mirrors P (Resolution.leftOperand depth env t)
      (env.leftTypeIn (Env.typeWithin (levels env depth)) t.children) := by
  rw [Resolution.leftOperand, Env.leftTypeIn_eq]
  cases isLeft : t.child? "left" with
  | some left => exact .ask (lefts left isLeft)
  | none => exact .pure none

theorem operand {t : Tree} (lefts : ∀ left, t.child? "left" = some left →
    P (.operand depth env left)) :
    Mirrors P (Resolution.operand depth env t) (answer (.operand depth env t)) := by
  rw [answer, Env.leftType_eq, Resolution.operand]
  split
  · exact (leftOperand lefts).bind fun left => (allowed.combine t left).attempt _
  · exact allowed.typeIfKnown t

omit allowed in
theorem accessValue (receivers : ∀ t, P (.receiver depth env t)) (t : Tree) :
    Mirrors P (Resolution.accessValue depth env t)
      (env.accessValue (Env.typeWithin (levels env depth)) t) := by
  rw [Resolution.accessValue, Env.accessValue]
  have object := Mirrors.ask (receivers t)
  cases t.child? "field" with
  | none => exact object
  | some field =>
    cases t.child? "object" with
    | none => exact object
    | some obj =>
      simp only
      split
      · refine (Mirrors.lift (env.typeNamed obj)).bind fun d => ?_
        cases d with
        | corpus id => exact .pure _
        | _ => exact .throw _
      · exact object

omit allowed in
theorem firstOrSecond (first : Option RType) {x : Working RType} {y : Typing RType}
    (second : Mirrors P x y) :
    Mirrors P
      (match first with
        | none | some .null => x
        | some type => pure type)
      (match first with
        | none | some .null => y
        | some type => pure type) := by
  cases first with
  | none => exact second
  | some type =>
    cases type with
    | null => exact second
    | _ => exact .pure _

theorem conditional (t : Tree) :
    Mirrors P (Resolution.conditional depth env t)
      (env.conditional (Env.typeWithin (levels env depth)) t) := by
  rw [Resolution.conditional, Env.conditional]
  cases t.child? "consequence" with
  | none =>
    cases t.child? "alternative" with
    | none => exact .throw _
    | some c => exact allowed.typeOf c
  | some c =>
    refine (allowed.typeIfKnown c).bind fun first => ?_
    cases t.child? "alternative" with
    | none => exact firstOrSecond first (.throw _)
    | some c => exact firstOrSecond first (allowed.typeOf c)

theorem dispatch (receivers : ∀ t, P (.receiver depth env t)) (calls : ∀ t, P (.call depth env t))
    (lefts : ∀ t, P (.operand depth env t)) (t : Tree) :
    Mirrors P (Resolution.dispatch depth env t)
      (env.typeBy (Env.typeWithin (levels env depth)) t) := by
  rw [Resolution.dispatch, Env.typeBy]
  cases ExprForm.ofKind t.kind with
  | name => exact (Mirrors.ask (receivers t)).bind fun r => .lift _
  | fieldAccess => exact (accessValue receivers t).bind fun r => .lift _
  | thisValue => exact (Mirrors.lift env.innermost).bind fun id => .pure _
  | superValue => exact (Mirrors.lift env.innermost).bind fun id => .pure _
  | call => exact (Mirrors.ask (calls t)).bind (mirrors_returnType env.world (allowed.written _))
  | creation =>
    cases t.writtenType? with
    | some written => exact allowed.resolveWritten written
    | none => exact .throw _
  | arrayCreation =>
    cases t.writtenType? with
    | some written => exact allowed.resolveWritten _
    | none => exact .throw _
  | arrayAccess =>
    cases t.child? "array" with
    | none => exact .throw _
    | some array =>
      refine (allowed.typeOf array).bind fun type => ?_
      cases type with
      | array component => exact .pure component
      | _ => exact .throw _
  | cast =>
    cases t.writtenType? with
    | some written => exact allowed.resolveWritten written
    | none => exact .throw _
  | parentheses =>
    cases t.operands with
    | cons inner _ => exact allowed.typeOf inner
    | nil => exact .throw _
  | conditional => exact allowed.conditional t
  | assignment =>
    cases t.child? "left" with
    | some left => exact allowed.typeOf left
    | none => exact .throw _
  | binary => exact (leftOperand fun left _ => lefts left).bind (allowed.combine t)
  | unary =>
    simp only
    split
    · exact .pure _
    · cases t.child? "operand" with
      | some operand => exact (allowed.typeOf operand).bind fun type => .pure _
      | none => exact .throw _
  | update =>
    cases t.operands with
    | cons operand _ => exact allowed.typeOf operand
    | nil => exact .throw _
  | classLiteral => exact (Mirrors.lift _).bind fun c => .pure c.toType
  | stringLiteral => exact (Mirrors.lift _).bind fun c => .pure c.toType
  | untyped => exact .throw _
  | unknown => exact .throw _
  | _ => exact .pure _

end Open

end Expressions

/-- Compared from the left: the levels that are left, and none for a written type; whether the code
stays on its level, or reads the bounds of type parameters; the size of what is asked about. A
receiver asks for the access at its own node, which the last number is for. -/
noncomputable def weight : Question → Nat × Nat × Nat × Nat
  | .typeOf depth env _ => (levels env depth + 1, 0, 0, 0)
  | .localType depth env _ => (levels env depth + 1, 1, 0, 0)
  | .access depth env t | .call depth env t | .constructorCall depth env t | .operand depth env t =>
    (levels env depth + 1, 1, t.size, 0)
  | .receiver depth env t => (levels env depth + 1, 1, t.size, 1)
  | .name _ _ => (0, 0, 0, 0)
  | .written _ _ (.bound _) t => (0, 1, sizeOf t, 0)
  | .written _ _ .bare t => (0, 0, sizeOf t, 0)
  | .argument _ _ (.bound _) a => (0, 1, sizeOf a, 0)
  | .argument _ _ .bare a => (0, 0, sizeOf a, 0)

def Lighter (p q : Question) : Prop :=
  Prod.Lex (· < ·) (Prod.Lex (· < ·) (Prod.Lex (· < ·) (· < ·))) (weight p) (weight q)

theorem lighter_wellFounded : WellFounded fun p q : Asked => Lighter p.1 q.1 :=
  InvImage.wf (fun q : Asked => weight q.1)
    (Prod.lex Nat.lt_wfRel (Prod.lex Nat.lt_wfRel (Prod.lex Nat.lt_wfRel Nat.lt_wfRel))).wf

theorem lighter_iff {p q : Question} :
    Lighter p q ↔ (weight p).1 < (weight q).1 ∨ (weight p).1 = (weight q).1 ∧
      ((weight p).2.1 < (weight q).2.1 ∨ (weight p).2.1 = (weight q).2.1 ∧
        ((weight p).2.2.1 < (weight q).2.2.1 ∨ (weight p).2.2.1 = (weight q).2.2.1 ∧
          (weight p).2.2.2 < (weight q).2.2.2)) := by
  simp only [Lighter, Prod.lex_def]

theorem levels_succ {env : Env} {depth : Nat} (below : depth < env.limit) :
    levels env depth = levels env (depth + 1) + 1 := by
  rw [levels, levels]
  omega

-- Written types stand below all levels.
theorem lighter_written {q : Question} (level : 0 < (weight q).1) (w : World)
    (ctx? : Option Context) (params : Params) (t : TypeRef) :
    Lighter (.written w ctx? params t) q := by
  apply Prod.Lex.left
  cases params <;> exact level

theorem lighter_argument {q : Question} (level : 0 < (weight q).1) (w : World)
    (ctx? : Option Context) (params : Params) (a : Arg TypeRef) :
    Lighter (.argument w ctx? params a) q := by
  apply Prod.Lex.left
  cases params <;> exact level

theorem lighter_next {p : Question} {depth : Nat} {env : Env} {t : Tree} (below : depth < env.limit)
    (level : (weight p).1 = levels env (depth + 1) + 1) : Lighter p (.typeOf depth env t) := by
  have above : (weight (.typeOf depth env t)).1 = levels env depth + 1 := rfl
  have fewer := levels_succ below
  rw [lighter_iff]
  omega

theorem open_next {depth : Nat} {env : Env} {t : Tree} (below : depth < env.limit) :
    Open (Lighter · (.typeOf depth env t)) (depth + 1) env where
  expression _ _ := lighter_next below rfl
  written := lighter_written (Nat.succ_pos _)
  argument := lighter_argument (Nat.succ_pos _)

theorem open_level {depth : Nat} {env : Env} {q : Question}
    (level : (weight q).1 = levels env depth + 1) (within : (weight q).2.1 = 1) :
    Open (Lighter · q) depth env where
  expression _ _ := by
    rw [lighter_iff, level, within]
    exact .inr ⟨rfl, .inl Nat.zero_lt_one⟩
  written := lighter_written (by omega)
  argument := lighter_argument (by omega)

theorem lighter_receiver {depth : Nat} {env : Env} {t obj : Tree} {q : Question}
    (found : t.child? "object" = some obj) (weighs : weight q =
      (levels env depth + 1, 1, t.size, 0)) :
    Lighter (.receiver depth env obj) q := by
  have smaller := Tree.size_lt (Tree.child?_mem found)
  rw [lighter_iff, weighs]
  exact .inr ⟨rfl, .inr ⟨rfl, .inl smaller⟩⟩

theorem mirrors_body (q : Question) : Mirrors (Lighter · q) (body q) (answer q) := by
  cases q with
  | typeOf depth env t =>
    rw [body, answer]
    split
    next below =>
      rw [levels_succ below, Env.typeWithin]
      apply (open_next below).dispatch
      · exact fun _ => lighter_next below rfl
      · exact fun _ => lighter_next below rfl
      · exact fun _ => lighter_next below rfl
    next atLimit =>
      have used : levels env depth = 0 := by
        rw [levels]
        omega
      rw [used, Env.typeWithin]
      exact .throw _
  | receiver depth env t =>
    refine (open_level rfl rfl).receiver (fun v => ?_) ?_ ?_
    · rw [lighter_iff]
      exact .inr ⟨rfl, .inr ⟨rfl, .inl t.size_pos⟩⟩
    · exact .left _ _ (Nat.succ_pos _)
    · rw [lighter_iff]
      exact .inr ⟨rfl, .inr ⟨rfl, .inr ⟨rfl, Nat.zero_lt_one⟩⟩⟩
  | access depth env t => exact Open.access fun obj isObject => lighter_receiver isObject rfl
  | call depth env t =>
    exact (open_level rfl rfl).call fun obj isObject => lighter_receiver isObject rfl
  | constructorCall depth env t => exact (open_level rfl rfl).constructorCall t
  | operand depth env t =>
    refine (open_level rfl rfl).operand fun left isLeft => ?_
    have smaller := Tree.size_lt (Tree.child?_mem isLeft)
    rw [lighter_iff]
    exact .inr ⟨rfl, .inr ⟨rfl, .inl smaller⟩⟩
  | localType depth env v => exact (open_level rfl rfl).localType v
  | name env text => exact .lift _
  | written w ctx? params t =>
    refine mirrors_written ?_ fun a listed => ?_
    · rintro b bound rfl
      rw [lighter_iff]
      exact .inr ⟨rfl, .inl Nat.zero_lt_one⟩
    · have smaller := TypeRef.sizeOf_arg_lt listed
      rw [lighter_iff]
      cases params <;> exact .inr ⟨rfl, .inr ⟨rfl, .inl smaller⟩⟩
  | argument w ctx? params a =>
    refine mirrors_argument fun t smaller => ?_
    rw [lighter_iff]
    cases params <;> exact .inr ⟨rfl, .inr ⟨rfl, .inl smaller⟩⟩

def Returns (q : Question) (known : LocalTypes) (result : Except Failure q.Value × LocalTypes) :
    Prop :=
  Machine.Returns (fun q : Asked => body q.1 q.2) (q, known) result

theorem returns_answer (q : Question) (known : LocalTypes) :
    Returns q known ((answer q).run known) := by
  have smaller (q : Asked) : (body q.1 q.2).Asks fun p => Lighter p.1 q.1 :=
    (mirrors_body q.1 q.2).1
  have right (q : Asked) : (body q.1 q.2).eval reply = reply q := (mirrors_body q.1 q.2).2
  exact Machine.returns_of_smaller lighter_wellFounded smaller right (q, known)

theorem levels_zero (env : Env) : levels env 0 = env.limit.toNat := by
  rw [levels]
  omega

/-- Calls, accesses, names, expressions and written types are resolved in finitely many steps, with
one result. -/
theorem resolution_ends (env : Env) (known : LocalTypes) :
    (∀ t, Returns (.call 0 env t) known ((env.call env.typeInside t).run known)) ∧
    (∀ t, Returns (.constructorCall 0 env t) known
      ((env.constructorCall env.typeInside t).run known)) ∧
    (∀ t, Returns (.access 0 env t) known ((env.access env.typeInside t).run known)) ∧
    (∀ text, Returns (.name env text) known (env.simpleName text, known)) ∧
    (∀ t, Returns (.typeOf 0 env t) known ((env.typeOf t).run known)) ∧
    (∀ ctx? b t, Returns (.written env.world ctx? (.bound b) t) known
      (env.world.resolveRef ctx? b t, known)) ∧
    (∀ q, ∃! result, Returns q known result) ∧
    (∀ c a, env.world.Climbs [] [(c, 0)] a ↔ a = env.world.ancestry c) ∧
    ∀ ctx? n d, env.world.Denotes ctx? n d ↔ d = env.world.resolve? ctx? n := by
  have within : env.typeInside = Env.typeWithin (levels env 0) := by
    rw [Env.typeInside, levels_zero]
  rw [within]
  refine ⟨fun t => returns_answer _ known, fun t => returns_answer _ known,
    fun t => returns_answer _ known, fun text => returns_answer _ known, fun t => ?_,
    fun ctx? b t => returns_answer _ known, fun q => ?_, fun c a => World.climbs_iff,
    fun ctx? n d => ⟨?_, ?_⟩⟩
  · rw [Env.typeOf, within]
    exact returns_answer _ known
  · have ends := returns_answer q known
    exact ⟨_, ends, fun result other => ends.unique other⟩
  · exact (World.denotes_resolve? ctx? n).unique
  · rintro rfl
    exact World.denotes_resolve? ctx? n

end Resolution

end RefGraph

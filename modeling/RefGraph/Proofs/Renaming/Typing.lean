import RefGraph.Proofs.Found
import RefGraph.Proofs.PairedRuns
import RefGraph.Proofs.Renaming.Referent
import RefGraph.Proofs.Walk

set_option autoImplicit false

namespace RefGraph

namespace Env

open Typing

-- A field access never refers to a local variable.
theorem ensures_accessOn (env : Env) (t : Tree) (object : Typing Receiver) :
    Ensures (env.accessOn t object) fun r => ∀ v, r ≠ .localVar v := by
  unfold accessOn
  split
  next obj field _ _ =>
    split
    next =>
      refine .bind (.any _) fun d _ => .pure ?_
      simp
    next =>
      refine .bind (.any _) fun r _ => ?_
      cases r with
      | none =>
        dsimp only
        refine .pure fun v => ?_
        unfold dotted
        dsimp only
        split <;> simp
      | some r =>
        refine .lift fun referent found v isLocal => ?_
        subst isLocal
        unfold memberOf at found
        split at found
        next => cases found
        next =>
          obtain ⟨field, _, found⟩ := ok_of_bind found
          cases field with
          | some f => cases found
          | none =>
            dsimp only at found
            split at found <;> cases found
  next => exact .throw _

theorem var?_of_simpleName {env : Env} {name : String} {v : LocalVar}
    (found : env.simpleName name = .ok (.localVar v)) : env.context.scope.var? name = some v := by
  unfold simpleName at found
  split at found
  next u visible =>
    cases found
    exact visible
  next =>
    obtain ⟨declared, _, found⟩ := ok_of_bind found
    cases declared with
    | some f => cases found
    | none =>
      dsimp only at found
      split at found
      next => cases found
      next =>
        obtain ⟨outside, _, found⟩ := ok_of_bind found
        cases outside <;> cases found

theorem receiver_eq (env : Env) (inside : TypeInside) (t : Tree) :
    env.receiver inside t =
      if t.kind == "identifier" then do env.asReceiver inside (← env.simpleName t.text)
      else if t.kind == "field_access" then
        if (t.child? "field").any (·.is selfWords) then return ⟨← inside env t, false⟩
        else do env.asReceiver inside (← env.accessOn t (env.objectReceiver inside t.children))
      else if typeNameKinds.contains t.kind then return ⟨.ref (← env.typeNamed t) [], true⟩
      else return ⟨← inside env t, false⟩ := by
  cases t
  rw [Env.receiver]

theorem leftType_eq (env : Env) (inside : TypeInside) (t : Tree) :
    env.leftType inside t =
      if t.kind == "binary_expression" then do
        let left ← env.leftTypeIn inside t.children
        Typing.attempt (env.combine inside t left) fun e => !e.isTooDeep
      else env.typeIfKnown inside t := by
  cases t
  rw [Env.leftType]

structure Linked (p : Pairing) (σ : Nat → Nat) (root : Tree) (inside inside' : TypeInside)
    (env env' : Env) :
    Prop extends Renamed σ env env' where
  expressions : ∀ t, root.Covers t → Paired p (RType.rename σ) (inside env t) (inside' env' t)
  locals : ∀ t, root.Covers t → t.kind = "identifier" →
    ∀ v, env.context.scope.var? t.text = some v →
    Paired p (RType.rename σ) (env.localType inside v) (env'.localType inside' v)

namespace Linked

variable {p : Pairing} {σ : Nat → Nat} {root : Tree} {inside inside' : TypeInside} {env env' : Env}
  (linked : Linked p σ root inside inside' env env')

include linked

theorem typeIfKnown {t : Tree} (covered : root.Covers t) :
    Paired p (Option.map (RType.rename σ)) (env.typeIfKnown inside t)
      (env'.typeIfKnown inside' t) := by
  refine (linked.expressions t covered).attempt fun e deep => ?_
  simp [deep]

theorem asReceiver {r : Referent}
    (isLocal : ∀ v, r = .localVar v →
      Paired p (RType.rename σ) (env.localType inside v) (env'.localType inside' v)) :
    Paired p (Receiver.rename σ)
      (env.asReceiver inside r) (env'.asReceiver inside' (r.rename σ)) := by
  cases r with
  | localVar v => exact (isLocal v rfl).bind fun t => .pure (Receiver.mk t false)
  | field f =>
    exact Paired.bind (.lift (linked.world.fieldType f)) fun t => .pure (Receiver.mk t false)
  | type d =>
    have answer := @Paired.pure _ _ p (Receiver.rename σ) ⟨.ref d [], true⟩
    rwa [Receiver.rename, RType.rename_ref, List.map_nil] at answer
  | package name => exact .throw _

theorem accessOn (t : Tree) {object object' : Typing Receiver}
    (alike : Paired p (Receiver.rename σ) object object') :
    Paired p (Referent.rename σ) (env.accessOn t object) (env'.accessOn t object') := by
  unfold Env.accessOn
  split
  next obj field _ _ =>
    split
    next => exact Paired.bind (.lift (linked.typeNamed obj)) fun d => .pure (Referent.type d)
    next =>
      refine Paired.bind (alike.attempt fun e deep => ?_) fun found => ?_
      · cases e <;> simp_all [Failure.isTooDeep, Failure.isUnresolved]
      · cases found with
        | none =>
          dsimp only [Option.map_none]
          rw [linked.dotted]
          exact .pure _
        | some r => exact .lift (linked.memberOf r field.text)
  next => exact .throw _

omit linked in
theorem objectReceiver (cs : List Tree)
    (each : ∀ c ∈ cs, Paired p (Receiver.rename σ) (env.receiver inside c)
      (env'.receiver inside' c)) :
    Paired p (Receiver.rename σ) (env.objectReceiver inside cs)
      (env'.objectReceiver inside' cs) := by
  induction cs with
  | nil =>
    rw [Env.objectReceiver, Env.objectReceiver]
    exact .throw _
  | cons c cs ih =>
    rw [Env.objectReceiver, Env.objectReceiver]
    split
    · exact each c List.mem_cons_self
    · exact ih fun d listed => each d (List.mem_cons_of_mem _ listed)

theorem receiver (t : Tree) (covered : root.Covers t) :
    Paired p (Receiver.rename σ) (env.receiver inside t) (env'.receiver inside' t) := by
  induction t using Tree.induction with
  | node t ih =>
    have value : Paired p (Receiver.rename σ) (do return ⟨← inside env t, false⟩)
        (do return ⟨← inside' env' t, false⟩) :=
      (linked.expressions t covered).bind fun type => .pure (Receiver.mk type false)
    rw [receiver_eq, receiver_eq]
    split
    next isName =>
      refine Paired.bindOf (.lift (linked.simpleName t.text)) (.lift fun r found => found)
        fun r found => ?_
      refine linked.asReceiver ?_
      rintro v rfl
      exact linked.locals t covered (beq_iff_eq.1 isName) v (var?_of_simpleName found)
    next =>
      split
      next =>
        split
        next => exact value
        next =>
          have object := objectReceiver t.children fun c listed =>
            ih c listed (covered.trans (.of_mem listed))
          refine Paired.bindOf (linked.accessOn t object) (env.ensures_accessOn t _) fun r
            noLocal => ?_
          exact linked.asReceiver fun v isLocal => absurd isLocal (noLocal v)
      next =>
        split
        next =>
          refine Paired.bind (.lift (linked.typeNamed t)) fun d => ?_
          have answer := @Paired.pure _ _ p (Receiver.rename σ) ⟨.ref d [], true⟩
          rwa [Receiver.rename, RType.rename_ref, List.map_nil] at answer
        next => exact value

theorem access {t : Tree} (covered : root.Covers t) :
    Paired p (Referent.rename σ) (env.access inside t) (env'.access inside' t) := by
  refine linked.accessOn t (objectReceiver t.children fun c listed => ?_)
  exact linked.receiver c (covered.trans (.of_mem listed))

omit linked in
theorem covers_argument {t a : Tree} (listed : a ∈ t.arguments) : t.Covers a := by
  unfold Tree.arguments at listed
  cases list : t.child? "arguments" with
  | none => simp [list] at listed
  | some args =>
    simp only [list, Option.map_some, Option.getD_some, Tree.operands, Tree.namedChildren,
      List.mem_filter] at listed
    exact .child (Tree.child?_mem list) (.of_mem listed.1.1)

theorem argTypes {t : Tree} (covered : root.Covers t) :
    Paired p (List.map (Option.map (RType.rename σ))) (env.argTypes inside t)
      (env'.argTypes inside' t) :=
  .mapM _ fun _ listed => linked.typeIfKnown (covered.trans (covers_argument listed))

theorem call {t : Tree} (covered : root.Covers t) :
    Paired p (Call.rename σ) (env.call inside t) (env'.call inside' t) := by
  unfold Env.call
  dsimp only
  split
  next => exact .throw _
  next name _ =>
    refine (linked.argTypes covered).bind fun args => ?_
    have passed :
        ({ args := args.map (Option.map (RType.rename σ)), explicit :=
          env'.explicitArgs t } : Passed) =
        Passed.rename σ { args, explicit := env.explicitArgs t } := by
      rw [linked.explicitArgs]
      rfl
    rw [passed]
    cases isObject : t.child? "object" with
    | none =>
      rw [linked.context]
      exact .lift (linked.world.bareCall env.context name _)
    | some obj =>
      dsimp only
      split
      next =>
        refine Paired.bind (.lift linked.innermost) fun id => .lift ?_
        rw [← World.selfType_rename, linked.world.directSupertypes]
        exact linked.world.callOn name _ none _
      next =>
        refine (linked.receiver obj (covered.trans (.of_mem (Tree.child?_mem isObject)))).bind
          fun r => ?_
        have types : (r.rename σ).type.classes env'.world.top =
            (r.type.classes env.world.top).map (ClassType.rename σ) := by
          rw [linked.world.top]
          exact linked.world.classes env.world.top r.type
        have described : env'.world.describe (r.rename σ).type = env.world.describe r.type :=
          linked.world.describe r.type
        rw [types, described]
        cases r.type.classes env.world.top with
        | nil => exact .throw _
        | cons c cs => exact .lift (linked.world.callOn name _ none (c :: cs))

theorem constructorCall {t : Tree} (covered : root.Covers t) :
    Paired p (Call.rename σ) (env.constructorCall inside t) (env'.constructorCall inside' t) := by
  refine Paired.bind (.lift linked.innermost) fun id => ?_
  refine (linked.argTypes covered).bind fun args => .lift ?_
  have target :
      (if (t.child? "constructor").any (·.kind == "this") then World.selfType (id.rename σ)
      else env'.world.superclass (id.rename σ)) =
      (if (t.child? "constructor").any (·.kind == "this") then World.selfType id
        else env.world.superclass id).rename σ := by
    rw [linked.world.superclass]
    split <;> rfl
  rw [target]
  exact linked.world.constructorCall _ { args }

omit linked in
theorem value (t : Tree) (r : Receiver) :
    Env.valueType t (r.rename σ) = (Env.valueType t r).map (RType.rename σ) := by
  obtain ⟨type, isType⟩ := r
  cases isType <;> rfl

theorem accessValue {t : Tree} (covered : root.Covers t) :
    Paired p (Receiver.rename σ) (env.accessValue inside t) (env'.accessValue inside' t) := by
  unfold Env.accessValue
  split
  next field obj _ _ =>
    split
    next =>
      refine Paired.bind (.lift (linked.typeNamed obj)) fun d => ?_
      cases d with
      | corpus id =>
        have around : (if field.kind == "this" then World.selfType (id.rename σ)
            else env'.world.superclass (id.rename σ)) =
            (if field.kind == "this" then World.selfType id
              else env.world.superclass id).rename σ := by
          rw [linked.world.superclass]
          split <;> rfl
        have answer := @Paired.pure _ _ p (Receiver.rename σ)
          ⟨(if field.kind == "this" then World.selfType id else env.world.superclass id).toType,
            false⟩
        rwa [Receiver.rename, ← ClassType.toType_rename, ← around] at answer
      | library n => exact .throw _
      | placeholder q => exact .throw _
    next => exact linked.receiver t covered
  next => exact linked.receiver t covered

theorem alternative {t : Tree} (covered : root.Covers t) (e : Failure) : Paired p (RType.rename σ)
    (match t.child? "alternative" with
      | some c => inside env c
      | none => MonadExcept.throw e)
    (match t.child? "alternative" with
      | some c => inside' env' c
      | none => MonadExcept.throw e) := by
  cases isSecond : t.child? "alternative" with
  | none => exact .throw _
  | some c => exact linked.expressions c (covered.trans (.of_mem (Tree.child?_mem isSecond)))

omit linked in
theorem firstOrSecond (first : Option RType) {x y : Typing RType}
    (alike : Paired p (RType.rename σ) x y) :
    Paired p (RType.rename σ)
      (match first with
        | none | some .null => x
        | some type => pure type)
      (match first.map (RType.rename σ) with
        | none | some .null => y
        | some type => pure type) := by
  rcases first with _ | type
  · exact alike
  · cases type with
    | null => simpa using alike
    | _ => exact .pure _

theorem conditional {t : Tree} (covered : root.Covers t) :
    Paired p (RType.rename σ) (env.conditional inside t) (env'.conditional inside' t) := by
  have second := linked.alternative covered (.untypable .conditional)
  unfold Env.conditional
  cases isFirst : t.child? "consequence" with
  | none => exact Paired.bind (f := Option.map (RType.rename σ)) (.pure none) fun first =>
    firstOrSecond first second
  | some c =>
    refine (linked.typeIfKnown (covered.trans (.of_mem (Tree.child?_mem isFirst)))).bind
      fun first => ?_
    exact firstOrSecond first second

theorem combine {t : Tree} (covered : root.Covers t) (left : Option RType) :
    Paired p (RType.rename σ) (env.combine inside t left)
      (env'.combine inside' t (left.map (RType.rename σ))) := by
  unfold Env.combine
  dsimp only
  split
  next =>
    have answer := @Paired.pure _ _ p (RType.rename σ) (.prim .boolean)
    rwa [RType.rename_prim] at answer
  next =>
    have operated (right : Option RType) :=
      linked.operate ((t.childText? "operator").getD "") left right
    cases isRight : t.child? "right" with
    | none =>
      exact Paired.bind (f := Option.map (RType.rename σ)) (.pure none) fun right =>
        .lift (operated right)
    | some c =>
      refine (linked.typeIfKnown (covered.trans (.of_mem (Tree.child?_mem isRight)))).bind
        fun right => ?_
      exact .lift (operated right)

omit linked in
theorem leftTypeIn (cs : List Tree) (each : ∀ c ∈ cs,
    Paired p (Option.map (RType.rename σ)) (env.leftType inside c) (env'.leftType inside' c)) :
    Paired p (Option.map (RType.rename σ)) (env.leftTypeIn inside cs)
      (env'.leftTypeIn inside' cs) := by
  induction cs with
  | nil =>
    rw [Env.leftTypeIn, Env.leftTypeIn]
    exact .pure none
  | cons c cs ih =>
    rw [Env.leftTypeIn, Env.leftTypeIn]
    split
    · exact each c List.mem_cons_self
    · exact ih fun d listed => each d (List.mem_cons_of_mem _ listed)

-- A chain of operators is followed down its left operands.
theorem leftType (t : Tree) (covered : root.Covers t) :
    Paired p (Option.map (RType.rename σ)) (env.leftType inside t) (env'.leftType inside' t) := by
  induction t using Tree.induction with
  | node t ih =>
    rw [leftType_eq, leftType_eq]
    split
    next =>
      have left := leftTypeIn t.children fun c listed =>
        ih c listed (covered.trans (.of_mem listed))
      refine left.bind fun left => (linked.combine covered left).attempt fun e deep => ?_
      simp [deep]
    next => exact linked.typeIfKnown covered

theorem binary {t : Tree} (covered : root.Covers t) :
    Paired p (RType.rename σ) (env.binary inside t) (env'.binary inside' t) := by
  have left := leftTypeIn t.children fun c listed =>
    linked.leftType c (covered.trans (.of_mem listed))
  exact left.bind fun left => linked.combine covered left

omit linked in
theorem operand_mem {t c : Tree} {cs : List Tree} (first : t.operands = c :: cs) :
    c ∈ t.children := by
  have listed : c ∈ t.operands := first ▸ List.mem_cons_self
  simp only [Tree.operands, Tree.namedChildren, List.mem_filter] at listed
  exact listed.1.1

theorem written (t : Tree) (e : Failure) (change : TypeRef → TypeRef) : Paired p (RType.rename σ)
    (match t.writtenType? with
      | some r => liftM (env.resolveWritten (change r))
      | none => MonadExcept.throw e)
    (match t.writtenType? with
      | some r => liftM (env'.resolveWritten (change r))
      | none => MonadExcept.throw e) := by
  cases t.writtenType? with
  | none => exact .throw e
  | some r => exact .lift (linked.resolveWritten (change r))

theorem operand {t : Tree} (covered : root.Covers t) (e : Failure) : Paired p (RType.rename σ)
    (match t.operands with
      | c :: _ => inside env c
      | [] => MonadExcept.throw e)
    (match t.operands with
      | c :: _ => inside' env' c
      | [] => MonadExcept.throw e) := by
  cases isFirst : t.operands with
  | nil => exact .throw e
  | cons c cs => exact linked.expressions c (covered.trans (.of_mem (operand_mem isFirst)))

theorem typeBy {t : Tree} (covered : root.Covers t) :
    Paired p (RType.rename σ) (env.typeBy inside t) (env'.typeBy inside' t) := by
  have child {role : String} {c : Tree} (isChild : t.child? role = some c) :=
    linked.expressions c (covered.trans (.of_mem (Tree.child?_mem isChild)))
  have fixed (type : RType) (same : type.rename σ = type) :
      Paired p (RType.rename σ) (pure type) (pure type) := by
    have answer := @Paired.pure _ _ p (RType.rename σ) type
    rwa [same] at answer
  have known (n : Name) : Paired p (RType.rename σ) (do return (← env.world.known n []).toType)
      (do return (← env'.world.known n []).toType) := by
    have found := linked.world.known n []
    rw [List.map_nil] at found
    refine Paired.bind (.lift found) fun c => ?_
    rw [ClassType.toType_rename]
    exact .pure _
  unfold Env.typeBy
  dsimp only
  cases ExprForm.ofKind t.kind with
  | name => exact (linked.receiver t covered).bind fun r => .lift (value t r)
  | fieldAccess => exact (linked.accessValue covered).bind fun r => .lift (value t r)
  | thisValue =>
    refine Paired.bind (.lift linked.innermost) fun id => ?_
    rw [← World.selfType_rename, ClassType.toType_rename]
    exact .pure _
  | superValue =>
    refine Paired.bind (.lift linked.innermost) fun id => ?_
    rw [linked.world.superclass, ClassType.toType_rename]
    exact .pure _
  | call => exact (linked.call covered).bind fun call => .lift (linked.world.returnType call)
  | creation => exact linked.written t _ id
  | arrayCreation => exact linked.written t _ fun r => r.addDims (Env.arrayDims t)
  | arrayAccess =>
    dsimp only
    cases isArray : t.child? "array" with
    | none => exact .throw _
    | some array =>
      refine (child isArray).bind fun type => ?_
      cases type with
      | array c =>
        rw [RType.rename_array]
        exact .pure c
      | _ => simpa using .throw _
  | cast => exact linked.written t _ id
  | parentheses => exact linked.operand covered _
  | conditional => exact linked.conditional covered
  | assignment =>
    dsimp only
    cases isLeft : t.child? "left" with
    | none => exact .throw _
    | some left => exact child isLeft
  | binary => exact linked.binary covered
  | unary =>
    dsimp only
    split
    next => exact fixed _ (RType.rename_prim σ _)
    next =>
      cases isOperand : t.child? "operand" with
      | none => exact .throw _
      | some operand =>
        refine (child isOperand).bind fun type => ?_
        rw [linked.world.promote]
        exact .pure _
  | update => exact linked.operand covered _
  | truthValue => exact fixed _ (RType.rename_prim σ _)
  | classLiteral => exact known classLiteralName
  | stringLiteral => exact known stringName
  | charLiteral => exact fixed _ (RType.rename_prim σ _)
  | integerLiteral => exact fixed _ (RType.rename_prim σ _)
  | floatLiteral => exact fixed _ (RType.rename_prim σ _)
  | nullLiteral => exact fixed _ (RType.rename_null σ)
  | untyped => exact .throw _
  | unknown => exact .throw _

end Linked

def freshType (env : Env) (inside : TypeInside) (v : LocalVar) : Typing RType :=
  match v.type with
  | some written => env.resolveWritten written
  | none => env.inferLocal inside v

theorem run_localType (env : Env) (inside : TypeInside) (v : LocalVar) (known : LocalTypes) :
    (env.localType inside v).run known =
      match known.find? fun e => e.1 == v.id with
      | some e => (.ok e.2, known)
      | none =>
        match (env.freshType inside v).run known with
        | (.ok t, later) => (.ok t, (v.id, t) :: later)
        | (.error e, later) => (.error e, later) := by
  have unfolded : env.localType inside v = get >>= fun (known : LocalTypes) =>
      match known.find? fun e => e.1 == v.id with
      | some e => pure e.2
      | none => env.freshType inside v >>= fun t =>
        modify (fun known => (v.id, t) :: known) >>= fun _ => pure t := by
    unfold localType freshType
    cases v.type <;> rfl
  rw [unfolded, run_bind, run_get]
  dsimp only
  cases known.find? fun e => e.1 == v.id with
  | some e => rfl
  | none =>
    dsimp only
    rw [run_bind]
    generalize (env.freshType inside v).run known = ran
    obtain ⟨result, later⟩ := ran
    cases result <;> rfl

namespace Renamed

variable {p : Pairing} {σ : Nat → Nat} {env env' : Env} (renamed : Renamed σ env env')

include renamed

theorem withBusy (busy busy' : List Nat) :
    Renamed σ { env with busy } { env' with busy := busy' } :=
  ⟨renamed.world, renamed.context⟩

theorem freshType {inside inside' : TypeInside} {v : LocalVar}
    (busy : v.type = none → env'.busy.contains v.id = env.busy.contains v.id)
    (initial : ∀ init, v.type = none → v.initializer = some init → env.busy.contains v.id = false →
      Paired p (RType.rename σ) (inside { env with busy := v.id :: env.busy } init)
        (inside' { env' with busy := v.id :: env'.busy } init)) :
    Paired p (RType.rename σ) (env.freshType inside v) (env'.freshType inside' v) := by
  unfold Env.freshType Env.inferLocal
  cases written : v.type with
  | some r => exact .lift (renamed.resolveWritten r)
  | none =>
    dsimp only
    cases isInit : v.initializer with
    | none => exact .throw _
    | some init =>
      dsimp only
      rw [busy written]
      split
      next => exact .throw _
      next free =>
        refine (initial init written isInit (Bool.eq_false_iff.2 free)).bind fun t => ?_
        split
        next => exact .lift (renamed.world.elementType t)
        next => exact .pure t

theorem linked_typeWithin {root : Tree} (limit : env'.limit = env.limit)
    (locals : ∀ m n, p.Levels m n → ∀ t, root.Covers t → t.kind = "identifier" →
      ∀ v, env.context.scope.var? t.text = some v →
        Paired p (RType.rename σ) (env.localType (typeWithin m) v)
          (env'.localType (typeWithin n) v))
    {m n : Nat} (levels : p.Levels m n) : Linked p σ root (typeWithin m) (typeWithin n)
      env env' := by
  refine ⟨renamed, ?_, locals m n levels⟩
  induction m generalizing n with
  | zero =>
    intro t covered known known' same
    have stops : Stopped ((typeWithin 0 env t).run known).1 := ⟨_, rfl, rfl⟩
    cases n with
    | zero =>
      refine .inr (.inr ⟨?_, same⟩)
      simp [typeWithin, limit, Except.map]
    | succ n =>
      rcases levels.1 with may | below
      · exact .inl ⟨may, stops⟩
      · exact absurd below (Nat.not_succ_le_zero n)
  | succ m ih =>
    intro t covered
    cases n with
    | zero =>
      intro known known' same
      rcases levels.2 with may | below
      · exact .inr (.inl ⟨may, _, rfl, rfl⟩)
      · exact absurd below (Nat.not_succ_le_zero m)
    | succ n =>
      have inner : p.Levels m n :=
        ⟨levels.1.imp_right Nat.le_of_succ_le_succ, levels.2.imp_right Nat.le_of_succ_le_succ⟩
      have linked : Linked p σ root (typeWithin m) (typeWithin n) env env' :=
        ⟨renamed, ih inner, locals m n inner⟩
      exact linked.typeBy covered

theorem targetOf {t : Tree} (linked : Linked p σ t env.typeInside env'.typeInside env env') :
    Paired p (Target.rename σ) (env.targetOf t) (env'.targetOf t) := by
  have target (r : Referent) : Paired p (Target.rename σ) (pure (env.referentTarget r))
      (pure (env'.referentTarget (r.rename σ))) := by
    rw [renamed.referentTarget]
    exact .pure _
  unfold Env.targetOf
  split
  next => exact (linked.call (.self t)).bind fun call => .pure (Target.member call.member)
  next =>
    exact (linked.constructorCall (.self t)).bind fun call => .pure (Target.member call.member)
  next => exact (linked.access (.self t)).bind target
  next => exact Paired.bind (.lift (renamed.simpleName t.text)) target

end Renamed

end Env

end RefGraph

import RefGraph.Call
import RefGraph.Proofs.Makers
import RefGraph.Proofs.TypeArguments

set_option autoImplicit false

namespace RefGraph

namespace Bindings

variable {α : Type}

def without (b : Bindings α) (names : List String) :
    Bindings α := ⟨b.entries.filter fun e => e.1 ∉ names⟩

theorem get?_eq_lookup (b : Bindings α) (name : String) : b.get? name = b.entries.lookup name := by
  rw [get?]
  induction b.entries with
  | nil => rfl
  | cons e es ih =>
    rw [List.find?_cons, List.lookup_cons, BEq.comm]
    cases name == e.1
    · exact ih
    · rfl

theorem get?_without (b : Bindings α) (names : List String) (name : String) :
    (b.without names).get? name = if name ∈ names then none else b.get? name := by
  rw [get?_eq_lookup, get?_eq_lookup, without]
  induction b.entries with
  | nil => simp
  | cons e es ih =>
    by_cases own : e.1 ∈ names
    · rw [List.filter_cons_of_neg (by simpa using own), ih, List.lookup_cons]
      by_cases same : name = e.1
      · simp [same, own]
      · rw [beq_eq_false_iff_ne.2 same]
    · rw [List.filter_cons_of_pos (by simpa using own), List.lookup_cons, List.lookup_cons, ih]
      by_cases same : name = e.1
      · simp [same, own]
      · rw [beq_eq_false_iff_ne.2 same]

theorem get?_merge (b c : Bindings α) (name : String) :
    (b.merge c).get? name = (c.get? name).or (b.get? name) := by
  rw [merge, get?_setAll, List.reverse_reverse, ← get?_eq_lookup]

end Bindings

namespace TypeRef

mutual
def mentions : TypeRef → List String
  | { head, args, .. } =>
    (match head with
    | .primitive _ => []
    | .named n => if n.isQualified then [] else [n.first]) ++ mentionedIn args

def mentionedInArg : Arg TypeRef → List String
  | .type t | .bounded _ t => mentions t
  | .unbounded => []

def mentionedIn : List (Arg TypeRef) → List String
  | [] => []
  | a :: as => mentionedInArg a ++ mentionedIn as
end

end TypeRef

namespace Reading

variable {r r' : Reading}

mutual
theorem resolve_congr (find : r'.find = r.find) :
    (t : TypeRef) → (∀ n ∈ t.mentions, r'.known n = r.known n) → r'.resolve t = r.resolve t
  | { head := .primitive p, args, dims }, _ => by rw [resolve, resolve]
  | { head := .named n, args, dims }, same => by
    rw [TypeRef.mentions] at same
    obtain ⟨here, inside⟩ := List.forall_mem_append.1 same
    have known : (if n.isQualified then none else r'.known n.first) =
        if n.isQualified then none else r.known n.first := by
      split
      next => rfl
      next simple => exact here n.first (by simp [simple])
    rw [resolve, resolve, known, find, resolveArgs_congr find args inside]

theorem resolveArg_congr (find : r'.find = r.find) :
    (a : Arg TypeRef) → (∀ n ∈ TypeRef.mentionedInArg a, r'.known n = r.known n) →
    r'.resolveArg a = r.resolveArg a
  | .type t, same => by
    rw [TypeRef.mentionedInArg] at same
    rw [resolveArg, resolveArg, resolve_congr find t same]
  | .unbounded, _ => by rw [resolveArg, resolveArg]
  | .bounded v t, same => by
    rw [TypeRef.mentionedInArg] at same
    rw [resolveArg, resolveArg, resolve_congr find t same]

theorem resolveArgs_congr (find : r'.find = r.find) :
    (as : List (Arg TypeRef)) → (∀ n ∈ TypeRef.mentionedIn as, r'.known n = r.known n) →
    r'.resolveArgs as = r.resolveArgs as
  | [], _ => by rw [resolveArgs, resolveArgs]
  | a :: as, same => by
    rw [TypeRef.mentionedIn] at same
    obtain ⟨here, inside⟩ := List.forall_mem_append.1 same
    rw [resolveArgs, resolveArgs, resolveArg_congr find a here, resolveArgs_congr find as inside]
end

end Reading

def Candidate.ownNames (c : Candidate) : List String := c.member.member.typeParams.map (·.name)

namespace World

variable (w : World)

def callBindings (c : Candidate) (p : Passed) : Except Failure (Bindings RType) :=
  if c.ownNames.isEmpty then .ok {}
  else if !p.explicit.isEmpty && p.explicit.length == c.ownNames.length then
    .ok (Bindings.ofList (c.ownNames.zip p.explicit))
  else w.inferFrom c.ownNames c.params {} p.args.zipIdx

/-- The receiver binds no own name that is written here, unless the call binds it too. -/
def Clear (c : Candidate) (called : Bindings RType) (t : TypeRef) : Prop :=
  ∀ n ∈ t.mentions, n ∈ c.ownNames → (called.get? n).isSome ∨ (w.bindings c.on).get? n = none

/-- How a call reads the own names of the member in the types of its parameters and in what it
returns. -/
structure ReadsOwnNames (c : Candidate) (p : Passed) : Prop where
  -- What binds no own name leaves it to the member's own variable.
  own : ∀ n ∈ c.ownNames, ∃ q ∈ c.member.member.typeParams, q.name = n ∧
    ∀ b : Bindings RType, b.get? n = none →
    w.resolveRef (some (w.memberContext c.member)) b (.ofName (.simple n)) =
      .ok (.var n (w.boundsOf (some (w.memberContext c.member)) q))
  params : ∀ (i : Nat) (q : Param), c.params[i]? = some q → w.Clear c {} q.effectiveType →
    (w.paramTypes c)[i]? = some (w.resolveRef (some (w.memberContext c.member))
      ((w.bindings c.on).without c.ownNames) q.effectiveType).toOption
  fails : ∀ e, w.callBindings c p = .error e → w.resolvedCall c p = .error e
  returns : ∀ m called, c.member.member = .method m → w.callBindings c p = .ok called →
    ∃ call, w.resolvedCall c p = .ok call ∧ (w.Clear c called m.returns →
      w.returnType call = w.resolveRef (some (w.memberContext c.member))
        (((w.bindings c.on).without c.ownNames).merge called) m.returns)
  -- A raw type of the corpus binds nothing, and so does the type around a bare call.
  raw : c.on.args = [] → isCorpus c.on.decl → ∀ called t, w.Clear c called t
  -- Else the receiver's type argument is put in.
  taken : ∀ n ∈ c.ownNames, ∀ t, (w.bindings c.on).get? n = some t →
    (∀ (i : Nat) (q : Param), c.params[i]? = some q → q.effectiveType = .ofName (.simple n) →
      (w.paramTypes c)[i]? = some (some t)) ∧
    ∀ m called call, c.member.member = .method m → m.returns = .ofName (.simple n) →
      w.callBindings c p = .ok called → called.get? n = none → w.resolvedCall c p = .ok call →
      w.returnType call = .ok t

variable {w} {c : Candidate} {p : Passed}

theorem resolveRef_congr {ctx? : Option Context} {b b' : Bindings RType} {t : TypeRef}
    (same : ∀ n ∈ t.mentions, (w.reading ctx? b').known n = (w.reading ctx? b).known n) :
    w.resolveRef ctx? b' t = w.resolveRef ctx? b t := by
  have find : (w.reading ctx? b').find = (w.reading ctx? b).find := rfl
  exact Reading.resolve_congr find t same

theorem resolveRef_simple {ctx? : Option Context} {b : Bindings RType} {n : String} {t : RType}
    (known : (w.reading ctx? b).known n = some t) :
    w.resolveRef ctx? b (.ofName (.simple n)) = .ok t := by
  simp [resolveRef, TypeRef.ofName, Reading.resolve, Name.simple, Name.isQualified, known,
    RType.arrays]

theorem known_of_bound {ctx? : Option Context} {b : Bindings RType} {n : String} {t : RType}
    (bound : b.get? n = some t) : (w.reading ctx? b).known n = some t := by
  simp [reading, bound]

theorem infer_eq_callBindings :
    (∀ e, w.callBindings c p = .error e → w.infer c p.args p.explicit = .error e) ∧
      ∀ called, w.callBindings c p = .ok called → ∃ b, w.infer c p.args p.explicit = .ok b ∧
        ∀ n, b.get? n = (called.get? n).or ((w.bindings c.on).get? n) := by
  have names : c.member.member.typeParams.map (·.name) = c.ownNames := rfl
  unfold callBindings infer
  dsimp only
  rw [names]
  split
  · constructor
    · intro e failed
      cases failed
    · intro called done
      cases done
      exact ⟨_, rfl, fun n => rfl⟩
  · split
    · constructor
      · intro e failed
        cases failed
      · intro called done
        cases done
        exact ⟨_, rfl, fun n => by rw [Bindings.get?_setAll, Bindings.get?_ofList]⟩
    · constructor
      · intro e failed
        rw [failed]
        rfl
      · intro called done
        rw [done]
        exact ⟨_, rfl, Bindings.get?_merge _ called⟩

-- The type is read with what the call binds over what the receiver binds.
theorem resolveRef_clear {ctx? : Option Context} {b called : Bindings RType} {t : TypeRef}
    (bound : ∀ n, b.get? n = (called.get? n).or ((w.bindings c.on).get? n))
    (clear : w.Clear c called t) :
    w.resolveRef ctx? b t = w.resolveRef ctx?
      (((w.bindings c.on).without c.ownNames).merge called) t := by
  refine resolveRef_congr fun n written => ?_
  simp only [reading, bound, Bindings.get?_merge, Bindings.get?_without]
  split
  next own =>
    rcases clear n written own with here | free
    · obtain ⟨t, here⟩ := Option.isSome_iff_exists.1 here
      simp [here]
    · simp [free]
  next => rfl

theorem get?_paramTypes {i : Nat} {q : Param} (listed : c.params[i]? = some q) :
    (w.paramTypes c)[i]? =
      some (w.resolveRef (some (w.memberContext c.member)) (w.bindings c.on)
        q.effectiveType).toOption := by
  simp [paramTypes, listed]

theorem exists_own_param {n : String} (own : n ∈ c.ownNames) :
    ∃ q ∈ c.member.member.typeParams, q.name = n ∧
      (w.memberContext c.member).typeParams.get? n = some q := by
  obtain ⟨q, found⟩ : ∃ q, paramOf? c.member.member.typeParams n = some q := by
    rw [← Option.isSome_iff_exists, paramOf?, List.find?_isSome]
    obtain ⟨q, declared, named⟩ := List.mem_map.1 own
    exact ⟨q, List.mem_reverse.2 declared, by simp [named]⟩
  refine ⟨q, List.mem_reverse.1 (List.mem_of_find?_eq_some found),
    by simpa using List.find?_some found, ?_⟩
  rw [memberContext, get?_bindParams, found]
  rfl

theorem resolvedCall_of_callBindings {called : Bindings RType}
    (done : w.callBindings c p = .ok called) :
    ∃ b, w.resolvedCall c p = .ok ⟨.declared c.member, b⟩ ∧
      ∀ n, b.get? n = (called.get? n).or ((w.bindings c.on).get? n) := by
  obtain ⟨b, inferred, bound⟩ := infer_eq_callBindings.2 called done
  exact ⟨b, by rw [resolvedCall, inferred]; rfl, bound⟩

theorem returnType_method {m : Method} (isMethod : c.member.member = .method m)
    (b : Bindings RType) :
    w.returnType ⟨.declared c.member, b⟩ = w.resolveRef (some (w.memberContext c.member)) b
      m.returns := by
  simp only [returnType, isMethod]

/-- The own names of a member hide what the receiver binds them to, where the receiver binds none
that is written or the call binds those itself. -/
theorem call_reads_own_names (w : World) (c : Candidate) (p : Passed) : w.ReadsOwnNames c p where
  own n listed := by
    obtain ⟨q, declared, named, visible⟩ := exists_own_param (w := w) listed
    refine ⟨q, declared, named, fun b free => resolveRef_simple ?_⟩
    simp [reading, free, visible, named]
  params i q listed clear := by
    have bound : ∀ n, (w.bindings c.on).get? n =
        (({} : Bindings RType).get? n).or ((w.bindings c.on).get? n) :=
      fun _ => rfl
    rw [get?_paramTypes listed, resolveRef_clear bound clear]
    rfl
  fails e failed := by
    rw [resolvedCall, infer_eq_callBindings.1 e failed]
    rfl
  returns m called isMethod done := by
    obtain ⟨b, resolved, bound⟩ := resolvedCall_of_callBindings done
    exact ⟨_, resolved, fun clear => (returnType_method isMethod b).trans
      (resolveRef_clear bound clear)⟩
  raw noArgs isType called t n _ _ := by
    refine .inr ?_
    obtain ⟨member, d, args⟩ := c
    obtain rfl : args = [] := noArgs
    cases d with
    | corpus id => exact get?_bindings_corpus id n
    | library | placeholder => cases isType
  taken n own t bound := by
    refine ⟨fun i q listed written => ?_,
      fun m called call isMethod written done free resolved => ?_⟩
    · rw [get?_paramTypes listed, written, resolveRef_simple (known_of_bound bound)]
      rfl
    · obtain ⟨b, resolved', bound'⟩ := resolvedCall_of_callBindings done
      obtain rfl := Except.ok.inj (resolved.symm.trans resolved')
      rw [returnType_method isMethod, written]
      exact resolveRef_simple (known_of_bound (by rw [bound', free, bound]; rfl))

-- `class A {} class B {} class Box<T> { <T> void put(T x) {} <T> T make() {} <T> T same(T x) {} }`
def genericBox : World :=
  let param : TypeRef := .simple "T"
  let own : List TypeParam := [{ name := "T" }]
  { units := [SourceUnit.ofTypes [
      TypeDecl.ofClass "A" [] [], TypeDecl.ofClass "B" [] [],
      { TypeDecl.ofClass "Box" [] [
          { name := "put", params := [{ name := "x", type := param }], typeParams := own },
          { name := "make", returns := param, typeParams := own },
          { name := "same", params := [{ name := "x", type := param }], returns :=
            param, typeParams := own }] with
        typeParams := own }]] }

def genericBoxMethod (i : Nat) (args : List RType) : Candidate :=
  let id : TypeId := ⟨0, 2⟩
  ⟨⟨id, .method (((genericBox.decl id).methods[i]?).getD default)⟩, ⟨.corpus id, args⟩⟩

-- On a `Box<A>`, what `put` takes and `make` returns is an `A`; what `same` returns is what it is
-- called with. On a raw `Box`, `put` takes its own variable.
theorem call_reads_own_names_genericBox :
    let a : RType := .ref (.corpus ⟨0, 0⟩) []
    let b : RType := .ref (.corpus ⟨0, 1⟩) []
    genericBox.paramTypes (genericBoxMethod 0 [a]) = [some a] ∧
      genericBox.resolvedCall (genericBoxMethod 1 [a]) ⟨[], []⟩ >>= genericBox.returnType = .ok a ∧
      genericBox.resolvedCall (genericBoxMethod 2 [a]) ⟨[some b], []⟩ >>=
        genericBox.returnType = .ok b ∧
      genericBox.paramTypes (genericBoxMethod 0 []) = [some (.var "T" [])] :=
  ⟨rfl, rfl, rfl, rfl⟩

end World

end RefGraph

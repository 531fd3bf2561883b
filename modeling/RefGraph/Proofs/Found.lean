import RefGraph.Call

set_option autoImplicit false

namespace RefGraph

theorem ok_of_bind {α β : Type} {x : Except Failure α} {f : α → Except Failure β} {b : β}
    (result : x >>= f = .ok b) : ∃ a, x = .ok a ∧ f a = .ok b := by
  cases x with
  | error e => cases result
  | ok a => exact ⟨a, rfl, result⟩

theorem error_of_bind {α β : Type} {x : Except Failure α} {f : α → Except Failure β} {e : Failure}
    (result : x >>= f = .error e) : x = .error e ∨ ∃ a, x = .ok a ∧ f a = .error e := by
  cases x with
  | error e' =>
    cases result
    exact .inl rfl
  | ok a => exact .inr ⟨a, rfl, result⟩

theorem filterAuxM_subset {α : Type} {p : α → Except Failure Bool} {xs acc ys : List α}
    (kept : xs.filterAuxM p acc = .ok ys) : ys ⊆ xs ++ acc := by
  induction xs generalizing acc with
  | nil =>
    cases kept
    exact List.Subset.refl _
  | cons x xs ih =>
    obtain ⟨b, -, kept⟩ := ok_of_bind kept
    have below := ih kept
    cases b
    · exact List.subset_cons_of_subset _ below
    · refine List.Subset.trans below ?_
      simp

theorem filterM_subset {α : Type} {p : α → Except Failure Bool} {xs ys : List α}
    (kept : xs.filterM p = .ok ys) : ys ⊆ xs := by
  obtain ⟨zs, chosen, kept⟩ := ok_of_bind kept
  cases kept
  have below := filterAuxM_subset chosen
  simpa using below

theorem findSomeM?_ok {α β : Type} {f : α → Except Failure (Option β)} {xs : List α} {b : β}
    (found : xs.findSomeM? f = .ok (some b)) : ∃ a ∈ xs, f a = .ok (some b) := by
  induction xs with
  | nil => cases found
  | cons x xs ih =>
    rw [List.findSomeM?] at found
    obtain ⟨answer, here, found⟩ := ok_of_bind found
    cases answer with
    | some c =>
      cases found
      exact ⟨x, List.mem_cons_self, here⟩
    | none =>
      obtain ⟨a, listed, hit⟩ := ih found
      exact ⟨a, List.mem_cons_of_mem _ listed, hit⟩

theorem findSomeM?_error {α β : Type} {f : α → Except Failure (Option β)} {xs : List α}
    {e : Failure} (failed : xs.findSomeM? f = .error e) : ∃ a ∈ xs, f a = .error e := by
  induction xs with
  | nil => cases failed
  | cons x xs ih =>
    rw [List.findSomeM?] at failed
    rcases error_of_bind failed with here | ⟨answer, -, later⟩
    · exact ⟨x, List.mem_cons_self, here⟩
    · cases answer with
      | some b => cases later
      | none =>
        obtain ⟨a, listed, hit⟩ := ih later
        exact ⟨a, List.mem_cons_of_mem _ listed, hit⟩

theorem mapM_ok_mem {α β : Type} {f : α → Except Failure β} {xs : List α} {ys : List β} {y : β}
    (made : xs.mapM f = .ok ys) (listed : y ∈ ys) : ∃ x ∈ xs, f x = .ok y := by
  induction xs generalizing ys with
  | nil =>
    cases made
    simp at listed
  | cons x xs ih =>
    rw [List.mapM_cons] at made
    obtain ⟨z, here, made⟩ := ok_of_bind made
    obtain ⟨zs, rest, made⟩ := ok_of_bind made
    cases made
    rcases List.mem_cons.1 listed with rfl | later
    · exact ⟨x, List.mem_cons_self, here⟩
    · obtain ⟨a, before, hit⟩ := ih rest later
      exact ⟨a, List.mem_cons_of_mem _ before, hit⟩

/-- A parameter list accepts as many arguments as it has parameters; with a variable-arity parameter
at the end, also more, or one less. -/
def Accepts (params : List Param) (count : Nat) : Prop :=
  params.length = count ∨ (isVarargs params = true ∧ params.length ≤ count + 1)

instance (params : List Param) (count : Nat) : Decidable (Accepts params count) :=
  inferInstanceAs (Decidable (_ ∨ _))

theorem Candidate.takes_iff (c : Candidate) (count : Nat) :
    c.takes count = true ↔ Accepts c.params count := by
  simp [takes, Accepts]

namespace World

variable {w : World}

theorem first_ok {α : Type} {f : ClassType → Option α} {a : Ancestry} {x : α}
    (hit : a.first w f = .ok (some x)) :
    ∃ above ∈ a.found, f above = some x := by
  rw [Ancestry.first] at hit
  split at hit
  next x here =>
    cases hit
    exact List.exists_of_findSome?_eq_some here
  next => cases hit
  next => cases hit

-- The inversion of a search up the hierarchy: some type above gives the answer.
theorem firstAbove_ok {α : Type} {f : ClassType → Option α} {c : ClassType} {a : α}
    (found : w.firstAbove f c = .ok (some a)) : ∃ above, f above = some a := by
  rw [firstAbove_eq] at found
  obtain ⟨above, -, answer⟩ := first_ok found
  exact ⟨above, answer⟩

theorem tooFar_of_firstAbove {α : Type} {f : ClassType → Option α} {c : ClassType} {e : Failure}
    (failed : w.firstAbove f c = .error e) : ∃ far, e = w.tooFar far := by
  rw [firstAbove_eq, Ancestry.first] at failed
  split at failed
  · cases failed
  · cases failed
    exact ⟨_, rfl⟩
  · cases failed

def FieldNamed (w : World) (name : String) : FoundField → Prop
  | .declared owner _ f => f ∈ (w.decl owner).fields ∧ f.name = name
  | .external _ _ | .arrayLength => True

theorem fieldNamed_of_declaredField? {name : String} {c : ClassType} {f : FoundField}
    (found : w.declaredField? name c = some f) : w.FieldNamed name f := by
  unfold declaredField? at found
  split at found
  next id _ =>
    obtain ⟨field, hit, rfl⟩ := Option.map_eq_some_iff.1 found
    exact ⟨List.mem_of_find?_eq_some hit, by simpa using List.find?_some hit⟩
  next => cases found

theorem fieldNamed_of_findDeclaredField {name : String} {c : ClassType} {f : FoundField}
    (found : w.findDeclaredField name c = .ok (some f)) : w.FieldNamed name f := by
  obtain ⟨above, hit⟩ := firstAbove_ok found
  exact fieldNamed_of_declaredField? hit

theorem fieldNamed_of_knownField? {name : String} {c : ClassType} {f : FoundField}
    (found : w.knownField? name c = some f) : w.FieldNamed name f := by
  obtain ⟨t, -, rfl⟩ := Option.map_eq_some_iff.1 found
  trivial

theorem fieldNamed_of_outsideField? {name : String} {c : ClassType} {f : FoundField}
    (found : w.outsideField? name c = some f) : w.FieldNamed name f := by
  unfold outsideField? at found
  split at found
  · cases found
  · cases found
    trivial

theorem findField_singleton (name : String) (c : ClassType) :
    w.findField name [c] = ((w.ancestry c).first w (w.declaredField? name)).map fun declared? =>
      declared?.or (((w.ancestry c).found.findSome? (w.knownField? name)).or
        ((w.ancestry c).found.findSome? (w.outsideField? name))) := by
  rw [findField, findDeclaredField, firstAbove_eq]
  cases (w.ancestry c).first w (w.declaredField? name) with
  | error e => rfl
  | ok declared? =>
    cases declared? with
    | some f => rfl
    | none =>
      dsimp only [bind, Except.bind, Except.map, Option.none_or]
      cases ((w.ancestry c).found.findSome? (w.knownField? name)).or
        ((w.ancestry c).found.findSome? (w.outsideField? name)) <;> rfl

theorem fieldNamed_of_findField {name : String} {types : List ClassType} {f : FoundField}
    (found : w.findField name types = .ok (some f)) : w.FieldNamed name f := by
  induction types with
  | nil => cases found
  | cons c cs ih =>
    rw [findField] at found
    obtain ⟨declared, here, found⟩ := ok_of_bind found
    cases declared with
    | some g =>
      cases found
      exact fieldNamed_of_findDeclaredField here
    | none =>
      dsimp only at found
      split at found
      next g hit =>
        cases found
        rcases Option.or_eq_some_iff.1 hit with known | ⟨-, outside⟩
        · obtain ⟨above, -, answer⟩ := List.exists_of_findSome?_eq_some known
          exact fieldNamed_of_knownField? answer
        · obtain ⟨above, -, answer⟩ := List.exists_of_findSome?_eq_some outside
          exact fieldNamed_of_outsideField? answer
      next => exact ih found

theorem fieldNamed_of_fieldInScope {ctx : Context} {name : String} {f : FoundField}
    (found : w.fieldInScope ctx name = .ok (some f)) : w.FieldNamed name f := by
  obtain ⟨around, here, found⟩ := ok_of_bind found
  cases around with
  | some g =>
    cases found
    obtain ⟨t, -, hit⟩ := findSomeM?_ok here
    exact fieldNamed_of_findDeclaredField hit
  | none =>
    obtain ⟨i, -, hit⟩ := findSomeM?_ok found
    unfold importedField at hit
    split at hit
    · exact fieldNamed_of_findDeclaredField hit
    · cases hit

theorem fieldNamed_of_outsideFieldInScope {ctx : Context} {name : String} {f : FoundField}
    (found : w.outsideFieldInScope ctx name = .ok (some f)) : w.FieldNamed name f := by
  obtain ⟨around, -, found⟩ := ok_of_bind found
  cases around with
  | some c =>
    cases found
    trivial
  | none =>
    obtain ⟨i, -, hit⟩ := List.exists_of_findSome?_eq_some (Except.ok.inj found)
    unfold outsideImport? at hit
    split at hit
    · obtain ⟨c, -, rfl⟩ := Option.map_eq_some_iff.1 hit
      trivial
    · cases hit

def MethodNamed (w : World) (name : String) (m : MemberOf) : Prop :=
  ∃ method, m.member = .method method ∧ method ∈ (w.decl m.owner).methods ∧ method.name = name

theorem nearestMethods_subset (seen : List (List String)) (cs : List Candidate) :
    nearestMethods seen cs ⊆ cs := by
  induction cs generalizing seen with
  | nil => exact List.Subset.refl _
  | cons c cs ih =>
    rw [nearestMethods]
    split
    · exact List.subset_cons_of_subset _ (ih _)
    · exact List.cons_subset_cons _ (ih _)

theorem methodNamed_of_findMethods {name : String} {c : ClassType} {found : MethodSearch}
    (search : w.findMethods name c = .ok found) {candidate : Candidate}
    (listed : candidate ∈ found.methods) : w.MethodNamed name candidate.member := by
  obtain ⟨above, -, made⟩ := ok_of_bind search
  cases made
  obtain ⟨a, -, here⟩ := List.mem_flatMap.1 (nearestMethods_subset _ _ listed)
  unfold declaredMethods at here
  split at here
  next id _ =>
    obtain ⟨m, among, rfl⟩ := List.mem_map.1 here
    obtain ⟨member, named⟩ := List.mem_filter.1 among
    exact ⟨m, rfl, member, by simpa using named⟩
  next => simp at here

theorem applicable_subset {args : List (Option RType)} {cs pool : List Choice}
    (made : w.applicable args cs = .ok pool) : pool ⊆ cs := by
  obtain ⟨fixed, kept, made⟩ := ok_of_bind made
  cases fixed with
  | nil => exact filterM_subset made
  | cons c fixed =>
    cases made
    exact filterM_subset kept

theorem mostSpecific_subset {pool best : List Choice} (made : w.mostSpecific pool = .ok best) :
    best ⊆ pool := by
  obtain ⟨kept, chosen, made⟩ := ok_of_bind made
  cases made
  intro c listed
  obtain ⟨⟨d, i⟩, here, rfl⟩ := List.mem_map.1 listed
  exact List.fst_mem_of_mem_zipIdx (filterM_subset chosen here)

theorem select_mem {name : String} {candidates : List Candidate} {args : List (Option RType)}
    {c : Candidate} (chosen : w.select name candidates args = .ok (some c)) :
    c ∈ candidates ∧ Accepts c.params args.length := by
  have taking : c ∈ candidates.filter (·.takes args.length) := by
    unfold select at chosen
    split at chosen
    next => cases chosen
    next =>
      obtain ⟨pool, made, chosen⟩ := ok_of_bind chosen
      have below := applicable_subset made
      have candidateOf {d : Choice} (listed : d ∈ pool) :
          d.candidate ∈ candidates.filter (·.takes args.length) := by
        obtain ⟨e, here, rfl⟩ := List.mem_map.1 (below listed)
        exact here
      split at chosen
      next =>
        -- Without an applicable choice, the only candidate that takes the arguments counts.
        split at chosen
        next only =>
          cases chosen
          simp [only]
        next => cases chosen
      next d =>
        cases chosen
        exact candidateOf List.mem_cons_self
      next =>
        obtain ⟨best, specific, chosen⟩ := ok_of_bind chosen
        split at chosen
        next d =>
          cases chosen
          exact candidateOf (mostSpecific_subset specific List.mem_cons_self)
        next => cases chosen
  obtain ⟨listed, takes⟩ := List.mem_filter.1 taking
  exact ⟨listed, (c.takes_iff _).1 takes⟩

theorem selectCall_ok {name : String} {methods : List Candidate} {p : Passed} {call : Call}
    (chosen : w.selectCall name methods p = .ok (some call)) :
    ∃ c ∈ methods, Accepts c.params p.args.length ∧ call.member = .declared c.member := by
  obtain ⟨answer, selected, chosen⟩ := ok_of_bind chosen
  cases answer with
  | none => cases chosen
  | some c =>
    obtain ⟨listed, accepts⟩ := select_mem selected
    obtain ⟨resolved, made, chosen⟩ := ok_of_bind chosen
    cases chosen
    obtain ⟨bindings, -, made⟩ := ok_of_bind made
    cases made
    exact ⟨c, listed, accepts, rfl⟩

def CallsMethod (w : World) (name : String) (count : Nat) (call : Call) : Prop :=
  ∀ m, call.member = .declared m → w.MethodNamed name m ∧ Accepts m.member.params count

theorem callsMethod_of_external {name : String} {count : Nat} {call : Call} {e : ExternalMember}
    (outside : call.member = .external e) : w.CallsMethod name count call := by
  intro m declared
  rw [outside] at declared
  cases declared

theorem callsMethod_of_selectCall {name : String} {c : ClassType} {found : MethodSearch}
    {p : Passed} {call : Call} (search : w.findMethods name c = .ok found)
    (chosen : w.selectCall name found.methods p = .ok (some call)) :
    w.CallsMethod name p.args.length call := by
  obtain ⟨candidate, listed, accepts, member⟩ := selectCall_ok chosen
  intro m declared
  obtain rfl : candidate.member = m := MemberRef.declared.inj (member.symm.trans declared)
  exact ⟨methodNamed_of_findMethods search listed, accepts⟩

theorem callsMethod_of_callOn {name : String} {p : Passed} {outside : Option ClassType}
    {types : List ClassType} {call : Call} (made : w.callOn name p outside types = .ok call) :
    w.CallsMethod name p.args.length call := by
  induction types generalizing outside with
  | nil =>
    cases outside with
    | none => cases made
    | some c =>
      cases made
      exact callsMethod_of_external rfl
  | cons c cs ih =>
    obtain ⟨found, search, made⟩ := ok_of_bind made
    obtain ⟨answer, chosen, made⟩ := ok_of_bind made
    cases answer with
    | some selected =>
      cases made
      exact callsMethod_of_selectCall search chosen
    | none =>
      dsimp only at made
      split at made
      · cases made
        exact callsMethod_of_external rfl
      · exact ih made

theorem callsMethod_of_importedCall {ctx : Context} {name : String} {p : Passed} {i : StaticImport}
    {call : Call} (made : w.importedCall ctx name p i = .ok (some call)) :
    w.CallsMethod name p.args.length call := by
  unfold importedCall at made
  split at made
  next => cases made
  next owner _ =>
    obtain ⟨found, search, made⟩ := ok_of_bind made
    obtain ⟨answer, chosen, made⟩ := ok_of_bind made
    cases answer with
    | some selected =>
      cases made
      exact callsMethod_of_selectCall search chosen
    | none =>
      dsimp only at made
      split at made
      · cases made
        exact callsMethod_of_external rfl
      · split at made
        · cases made
          exact callsMethod_of_external rfl
        · cases made
      · cases made

theorem callsMethod_of_inheritedOutside? {name : String} {count : Nat} {s : MethodSearch}
    {call : Call} (found : w.inheritedOutside? name s = some call) :
    w.CallsMethod name count call := by
  unfold inheritedOutside? at found
  split at found
  · cases found
    exact callsMethod_of_external rfl
  · split at found
    · cases found
      exact callsMethod_of_external rfl
    · cases found
  · cases found

theorem callsMethod_of_bareCall {ctx : Context} {name : String} {p : Passed} {call : Call}
    (made : w.bareCall ctx name p = .ok call) : w.CallsMethod name p.args.length call := by
  obtain ⟨around, searches, made⟩ := ok_of_bind made
  obtain ⟨answer, chosen, made⟩ := ok_of_bind made
  cases answer with
  | some selected =>
    cases made
    obtain ⟨found, listed, hit⟩ := findSomeM?_ok chosen
    obtain ⟨t, -, search⟩ := mapM_ok_mem searches listed
    exact callsMethod_of_selectCall search hit
  | none =>
    obtain ⟨imported, tried, made⟩ := ok_of_bind made
    cases imported with
    | some selected =>
      cases made
      obtain ⟨i, -, hit⟩ := findSomeM?_ok tried
      exact callsMethod_of_importedCall hit
    | none =>
      dsimp only at made
      split at made
      next selected hit =>
        cases made
        obtain ⟨found, -, answer⟩ := List.exists_of_findSome?_eq_some hit
        exact callsMethod_of_inheritedOutside? answer
      next => cases made

def CallsConstructor (w : World) (count : Nat) (call : Call) : Prop :=
  ∀ m, call.member = .declared m →
    ∃ c, m.member = .constructor c ∧ c ∈ (w.decl m.owner).constructors ∧ Accepts c.params count

theorem callsConstructor_of_constructorCall {target : ClassType} {p : Passed} {call : Call}
    (made : w.constructorCall target p = .ok call) : w.CallsConstructor p.args.length call := by
  unfold constructorCall at made
  dsimp only at made
  split at made
  next id _ =>
    split at made
    next => cases made
    next =>
      obtain ⟨answer, chosen, made⟩ := ok_of_bind made
      cases answer with
      | none => cases made
      | some selected =>
        cases made
        obtain ⟨candidate, listed, accepts, member⟩ := selectCall_ok chosen
        obtain ⟨c, among, rfl⟩ := List.mem_map.1 listed
        intro m declared
        obtain rfl := MemberRef.declared.inj (member.symm.trans declared)
        exact ⟨c, rfl, among, accepts⟩
  next =>
    cases made
    intro m declared
    cases declared

end World

end RefGraph

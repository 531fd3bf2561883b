import RefGraph.Corpus
import RefGraph.Proofs.Makers
import RefGraph.Proofs.OverloadRule

set_option autoImplicit false

namespace RefGraph

namespace World

def methodsAbove (w : World) (name : String) (c : ClassType) : List Candidate :=
  (w.ancestry c).found.flatMap (w.declaredMethods name)

/-- A candidate in a list, with none before that is like it in some respect. -/
def IsNearest {β : Type} (aspect : Candidate → β) (cs : List Candidate) (c : Candidate) : Prop :=
  ∃ before after, cs = before ++ c :: after ∧ ∀ d ∈ before, aspect d ≠ aspect c

theorem isNearest_cons {β : Type} {aspect : Candidate → β} {cs : List Candidate} {c d : Candidate} :
    IsNearest aspect (d :: cs) c ↔ d = c ∨ aspect d ≠ aspect c ∧ IsNearest aspect cs c := by
  constructor
  · rintro ⟨before, after, split, apart⟩
    cases before with
    | nil => exact .inl (List.cons.inj split).1
    | cons e before =>
      obtain ⟨rfl, rfl⟩ := List.cons.inj split
      rw [List.forall_mem_cons] at apart
      exact .inr ⟨apart.1, before, after, rfl, apart.2⟩
  · rintro (rfl | ⟨other, before, after, rfl, apart⟩)
    · exact ⟨[], cs, rfl, by simp⟩
    · exact ⟨d :: before, after, rfl, List.forall_mem_cons.2 ⟨other, apart⟩⟩

theorem IsNearest.mem {β : Type} {aspect : Candidate → β} {cs : List Candidate} {c : Candidate}
    (nearest : IsNearest aspect cs c) : c ∈ cs := by
  obtain ⟨before, after, rfl, -⟩ := nearest
  simp

theorem exists_isNearest {β : Type} (aspect : Candidate → β) {cs : List Candidate} {c : Candidate}
    (listed : c ∈ cs) :
    ∃ d, IsNearest aspect cs d ∧ aspect d = aspect c := by
  induction cs with
  | nil => simp at listed
  | cons d ds ih =>
    by_cases alike : aspect d = aspect c
    · exact ⟨d, isNearest_cons.2 (.inl rfl), alike⟩
    · have later : c ∈ ds := List.mem_of_ne_of_mem (fun same => alike (same ▸ rfl)) listed
      obtain ⟨e, nearest, same⟩ := ih later
      exact ⟨e, isNearest_cons.2 (.inr ⟨same ▸ alike, nearest⟩), same⟩

theorem IsNearest.congr {β γ : Type} {aspect : Candidate → β} {other : Candidate → γ}
    {cs : List Candidate} (agree : ∀ c ∈ cs, ∀ d ∈ cs, aspect c = aspect d ↔ other c = other d)
    (c : Candidate) :
    IsNearest aspect cs c ↔ IsNearest other cs c := by
  refine exists_congr fun before => exists_congr fun after => and_congr_right fun split => ?_
  have here : c ∈ cs := by simp [split]
  refine forall_congr' fun d => imp_congr_right fun earlier => not_congr (agree d ?_ c here)
  rw [split]
  exact List.mem_append_left _ earlier

theorem mem_nearestMethods {seen : List (List String)} {cs : List Candidate} {c : Candidate} :
    c ∈ nearestMethods seen cs ↔
      rawTypes c.params ∉ seen ∧ IsNearest (fun d => rawTypes d.params) cs c := by
  induction cs generalizing seen with
  | nil => simp [nearestMethods, IsNearest]
  | cons d ds ih =>
    rw [nearestMethods, isNearest_cons]
    split
    next met =>
      rw [ih]
      rw [List.contains_iff_mem] at met
      grind
    next new =>
      rw [List.mem_cons, ih]
      rw [List.contains_iff_mem] at new
      grind

-- No two methods that are listed have the same raw parameter types.
theorem nodup_nearestMethods (seen : List (List String)) (cs : List Candidate) :
    ((nearestMethods seen cs).map fun c => rawTypes c.params).Nodup := by
  induction cs generalizing seen with
  | nil => exact List.nodup_nil
  | cons d ds ih =>
    rw [nearestMethods]
    split
    · exact ih seen
    · rw [List.map_cons, List.nodup_cons]
      refine ⟨fun listed => ?_, ih _⟩
      obtain ⟨c, later, same⟩ := List.mem_map.1 listed
      exact (mem_nearestMethods.1 later).1 (same ▸ List.mem_cons_self)

theorem methods_of_findMethods {w : World} {name : String} {c : ClassType} {found : MethodSearch}
    (search : w.findMethods name c = .ok found) :
    found.methods = nearestMethods [] (w.methodsAbove name c) := by
  obtain ⟨above, climbed, made⟩ := ok_of_bind search
  cases made
  rw [ancestors] at climbed
  split at climbed
  · cases climbed
  · cases climbed
    rfl

variable {w : World} {args : List (Option RType)}

theorem length_paramTypes (c : Candidate) : (w.paramTypes c).length = c.params.length := by
  simp [paramTypes]

-- Whether the arguments can be passed one by one is a question of the types alone.
theorem appliesFixed_congr {c d : Candidate} (same : w.paramTypes c = w.paramTypes d) :
    w.AppliesFixed args c ↔ w.AppliesFixed args d := by
  rw [AppliesFixed, AppliesFixed, same]

-- What is listed keeps a candidate of each kind, so the arguments fit one by one there if they do
-- anywhere.
theorem pool_subset_of_nearest {cs ms : List Candidate}
    (nearest : ∀ c, c ∈ ms ↔ IsNearest w.paramTypes cs c) :
    w.pool args (taking ms args.length) ⊆ w.pool args (taking cs args.length) := by
  have below {c : Candidate} (listed : c ∈ taking ms args.length) : c ∈ taking cs args.length :=
    ⟨((nearest c).1 listed.1).mem, listed.2⟩
  rintro c ⟨listed, applies⟩
  refine ⟨below listed, applies.imp_right fun repeated => ⟨fun d among fits => ?_, repeated.2⟩⟩
  obtain ⟨e, first, same⟩ := exists_isNearest w.paramTypes among.1
  have fits' := (appliesFixed_congr same).2 fits
  refine repeated.1 e ⟨(nearest e).2 first, .inl ?_⟩ fits'
  rw [← length_paramTypes (w := w), fits'.1]

theorem pool_of_overrides {cs ms : List Candidate}
    (nearest : ∀ c, c ∈ ms ↔ IsNearest w.paramTypes cs c)
    (apart : ∀ c ∈ ms, ∀ d ∈ ms, w.paramTypes c = w.paramTypes d → c = d) {m : Candidate}
    (first : IsNearest w.paramTypes cs m) (fits : m ∈ w.pool args (taking cs args.length))
    (overrides : ∀ n ∈ w.pool args (taking cs args.length), w.paramTypes n = w.paramTypes m) :
    w.pool args (taking ms args.length) = {m} := by
  have listed := (nearest m).2 first
  refine Set.Subset.antisymm (fun c inPool => ?_) ?_
  · exact apart c inPool.1.1 m listed (overrides c (pool_subset_of_nearest nearest inPool))
  · rintro _ rfl
    refine ⟨⟨listed, fits.1.2⟩, fits.2.imp_right fun repeated => ⟨fun d among => ?_, repeated.2⟩⟩
    exact repeated.1 d ⟨((nearest d).1 among.1).mem, among.2⟩

theorem select_of_pool {name : String} {cs : List Candidate} {m : Candidate} (distinct : cs.Nodup)
    (one : w.pool args (taking cs args.length) = {m})
    (within : ¬ w.GivesUp args (taking cs args.length) (w.select name cs args)) :
    w.select name cs args = .ok (some m) := by
  have chosen := ((selects_select distinct).resolve_left within).unique (.fitting one)
  cases result : w.select name cs args with
  | error e => simp [result, Except.mapError] at chosen
  | ok c => simpa [result, Except.mapError] using chosen

/-- The search lists a method exactly if none nearer by has the same raw parameter types. -/
theorem overridden_methods_hidden (w : World) (name : String) (c : ClassType) (found : MethodSearch)
    (search : w.findMethods name c = .ok found) :
    (∀ m, m ∈ found.methods ↔ IsNearest (fun d => rawTypes d.params) (w.methodsAbove name c) m) ∧
      ((∀ m ∈ w.methodsAbove name c, ∀ n ∈ w.methodsAbove name c,
          rawTypes m.params = rawTypes n.params ↔ w.paramTypes m = w.paramTypes n) →
        (∀ m, m ∈ found.methods ↔ IsNearest w.paramTypes (w.methodsAbove name c) m) ∧
          ∀ args m, IsNearest w.paramTypes (w.methodsAbove name c) m →
            m ∈ w.pool args (taking (w.methodsAbove name c) args.length) →
            (∀ n ∈ w.pool args (taking (w.methodsAbove name c) args.length),
              w.paramTypes n = w.paramTypes m) →
            ¬ w.GivesUp args (taking found.methods args.length) (w.select name found.methods args) →
            w.select name found.methods args = .ok (some m)) := by
  have listed (m : Candidate) :
      m ∈ found.methods ↔ IsNearest (fun d => rawTypes d.params) (w.methodsAbove name c) m := by
    rw [methods_of_findMethods search, mem_nearestMethods]
    simp
  have raw : (found.methods.map fun d => rawTypes d.params).Nodup := by
    rw [methods_of_findMethods search]
    exact nodup_nearestMethods _ _
  refine ⟨listed, fun agree => ?_⟩
  have nearest (m : Candidate) : m ∈ found.methods ↔
      IsNearest w.paramTypes (w.methodsAbove name c) m :=
    (listed m).trans (IsNearest.congr agree m)
  refine ⟨nearest, fun args m first fits overrides within => ?_⟩
  have apart :
      ∀ m ∈ found.methods, ∀ n ∈ found.methods, w.paramTypes m = w.paramTypes n → m = n := by
    intro m here n there same
    refine List.inj_on_of_nodup_map raw here there ?_
    exact (agree m ((nearest m).1 here).mem n ((nearest n).1 there).mem).2 same
  exact select_of_pool (List.Nodup.of_map _ raw)
    (pool_of_overrides nearest apart first fits overrides) within

def methodOf (type : Name) :
    Method := { name := "f", params := [{ name := "x", type := .ofName type }] }

-- `class A {} class B {} class Base { f(A) f(B) } class Sub extends Base { f(A) }`
def plainOverride : World :=
  { units := [SourceUnit.ofTypes [
      TypeDecl.ofClass "A" [] [], TypeDecl.ofClass "B" [] [],
      TypeDecl.ofClass "Base" [] [methodOf (.simple "A"), methodOf (.simple "B")],
      TypeDecl.ofClass "Sub" [.simple "Base"] [methodOf (.simple "A")]]] }

-- On `Sub` the method `f(A)` of `Base` is left out and `f(B)` is not, and a call with an `A` means
-- that of `Sub`.
theorem overridden_methods_hidden_plainOverride :
    ∃ found, plainOverride.findMethods "f" ⟨.corpus ⟨0, 3⟩, []⟩ = .ok found ∧
      found.methods.map (fun m => (m.on.decl, m.text)) =
        [(.corpus ⟨0, 3⟩, "f(A)"), (.corpus ⟨0, 2⟩, "f(B)")] ∧
      ∃ m, m.on.decl = .corpus ⟨0, 3⟩ ∧ m.text = "f(A)" ∧
        plainOverride.select "f" found.methods [some (.ref (.corpus ⟨0, 0⟩) [])] =
          .ok (some m) := by
  obtain ⟨found, search, listed, result⟩ : ∃ found,
      plainOverride.findMethods "f" ⟨.corpus ⟨0, 3⟩, []⟩ = .ok found ∧
      found.methods.map (fun m => (m.on.decl, m.text)) =
        [(.corpus ⟨0, 3⟩, "f(A)"), (.corpus ⟨0, 2⟩, "f(B)")] ∧
      (plainOverride.select "f" found.methods [some (.ref (.corpus ⟨0, 0⟩) [])]).toOption.isSome =
        true :=
    ⟨_, rfl, rfl, rfl⟩
  have agree : ∀ m ∈ plainOverride.methodsAbove "f" ⟨.corpus ⟨0, 3⟩, []⟩,
      ∀ n ∈ plainOverride.methodsAbove "f" ⟨.corpus ⟨0, 3⟩, []⟩,
        rawTypes m.params = rawTypes n.params ↔
          plainOverride.paramTypes m = plainOverride.paramTypes n := by
    decide +kernel
  have nearest :
      IsNearest plainOverride.paramTypes (plainOverride.methodsAbove "f" ⟨.corpus ⟨0, 3⟩, []⟩)
        ⟨⟨⟨0, 3⟩, .method (methodOf (.simple "A"))⟩, ⟨.corpus ⟨0, 3⟩, []⟩⟩ := ⟨[], _, rfl, by simp⟩
  have within : ¬ plainOverride.GivesUp [some (.ref (.corpus ⟨0, 0⟩) [])] (taking found.methods 1)
      (plainOverride.select "f" found.methods [some (.ref (.corpus ⟨0, 0⟩) [])]) := by
    rintro ⟨a, p, far, -, -, failed⟩
    rw [failed] at result
    cases result
  refine ⟨found, search, listed, _, rfl, rfl,
    ((overridden_methods_hidden _ _ _ found search).2 agree).2 _ _ nearest
      ⟨⟨nearest.mem, .inl rfl⟩, .inl ⟨rfl, ?_⟩⟩ ?_ within⟩
  · intro e passed
    obtain rfl : e = (some (.ref (.corpus ⟨0, 0⟩) []), some (.ref (.corpus ⟨0, 0⟩) [])) :=
      List.mem_singleton.1 passed
    rfl
  · rintro n ⟨⟨above, -⟩, applies⟩
    change n ∈ [_, _, _] at above
    rcases List.mem_cons.1 above with rfl | above
    · rfl
    · rcases List.mem_cons.1 above with rfl | above
      · rfl
      · obtain rfl := List.mem_singleton.1 above
        -- An `A` is no `B`, and nothing is repeated.
        rcases applies with fixed | ⟨-, varargs, -⟩
        · cases fixed.2 (some (.ref (.corpus ⟨0, 0⟩) []), some (.ref (.corpus ⟨0, 1⟩) []))
            List.mem_cons_self
        · cases varargs

-- `class A {} class Base<T> { f(T) } class Sub extends Base<A> { f(A) }`
def genericOverride : World :=
  { units := [SourceUnit.ofTypes [
      TypeDecl.ofClass "A" [] [],
      { TypeDecl.ofClass "Base" [] [methodOf (.simple "T")] with typeParams := [{ name := "T" }] },
      TypeDecl.ofClass "Sub" [.applied "Base" [.simple "A"]]
        [methodOf (.simple "A")]]] }

-- `class Base { f(p.A) } class Sub extends Base { f(q.A) }`, with classes `p.A` and `q.A`
def sameNames : World :=
  let inPackage (package : String) : SourceUnit :=
    SourceUnit.ofTypes [{ TypeDecl.ofClass "A" [] [] with qualified := some ⟨package, ["A"]⟩ }]
  .ofGroups (NameTable.ofList []) [
    inPackage "p", inPackage "q",
    SourceUnit.ofTypes [
      TypeDecl.ofClass "Base" [] [methodOf ⟨"p", ["A"]⟩],
      TypeDecl.ofClass "Sub" [.simple "Base"] [methodOf ⟨"q", ["A"]⟩]]] [[0, 1, 2]]

-- Written names alone decide: `f(T)` with `A` for `T` stays beside the `f(A)` that overrides it, so
-- that a call is ambiguous, and `f(p.A)` is left out for `f(q.A)`.
theorem overridden_methods_hidden_writtenNames :
    (∃ found, genericOverride.findMethods "f" ⟨.corpus ⟨0, 2⟩, []⟩ = .ok found ∧
      found.methods.map genericOverride.paramTypes =
        [[some (.ref (.corpus ⟨0, 0⟩) [])], [some (.ref (.corpus ⟨0, 0⟩) [])]] ∧
      genericOverride.select "f" found.methods [some (.ref (.corpus ⟨0, 0⟩) [])] =
        .error (.ambiguous "f" ["f(A)", "f(T)"])) ∧
    ∃ found, sameNames.findMethods "f" ⟨.corpus ⟨2, 1⟩, []⟩ = .ok found ∧
      (sameNames.methodsAbove "f" ⟨.corpus ⟨2, 1⟩, []⟩).map sameNames.paramTypes =
        [[some (.ref (.corpus ⟨1, 0⟩) [])], [some (.ref (.corpus ⟨0, 0⟩) [])]] ∧
      found.methods.map sameNames.paramTypes = [[some (.ref (.corpus ⟨1, 0⟩) [])]] :=
  ⟨⟨_, rfl, rfl, rfl⟩, _, rfl, rfl, rfl⟩

end World

end RefGraph

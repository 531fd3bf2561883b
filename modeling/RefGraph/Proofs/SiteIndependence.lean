import RefGraph.Proofs.EdgeSoundness
import RefGraph.Proofs.LocalTyping
import RefGraph.Proofs.Makers
import RefGraph.Proofs.Numbering

set_option autoImplicit false

namespace RefGraph

namespace Corpus

def knownAfter (c : Corpus) (sites : List Site) : LocalTypes :=
  sites.foldl (fun known s => (c.resolveSite s known).2) []

def Agree (c : Corpus) (a b : Site) : Prop :=
  ∀ v, (c.env a).Sees v → (c.env b).Sees v → ∀ t, (c.env a).HasType v t → (c.env b).HasType v t

/-- Sites of a unit that agree with all later ones. -/
structure Consistent (c : Corpus) (unit : Nat) (sites : List Site) : Prop where
  visited : ∀ s ∈ sites, s ∈ c.sites unit
  grounded : ∀ s ∈ sites, (c.env s).Grounded
  agree : sites.Pairwise c.Agree

-- Every recorded type is one that a variable has at one of the sites.
def Recorded (c : Corpus) (sites : List Site) (known : LocalTypes) : Prop :=
  ∀ i t, known.type? i = some t → ∃ s ∈ sites, ∃ v, (c.env s).Sees v ∧ v.id = i ∧
    (c.env s).HasType v t

variable {c : Corpus} {unit : Nat}

theorem same_variable {a b : Site} (visitedA : a ∈ c.sites unit) (visitedB : b ∈ c.sites unit)
    {u v : LocalVar} (seenA : (c.env a).Sees u) (seenB : (c.env b).Sees v) (same : u.id = v.id) :
    u = v := by
  obtain ⟨name, seenA⟩ := seenA
  obtain ⟨name', seenB⟩ := seenB
  exact Sites.variable_unique (mem_sites visitedA).2 (mem_sites visitedB).2 seenA seenB same

theorem orderly {s : Site} (visited : s ∈ c.sites unit) (grounded : (c.env s).Grounded) :
    (c.env s).Orderly where
  idle := rfl
  grounded := grounded
  unique _ _ := same_variable visited visited

theorem sound_of_recorded {sites : List Site} {s : Site}
    (consistent : c.Consistent unit (sites ++ [s])) {known : LocalTypes}
    (recorded : c.Recorded sites known) : (c.env s).Sound known := by
  intro u visible t found
  obtain ⟨e, listed, v, seen, same, typed⟩ := recorded u.id t found
  have agree := (List.pairwise_append.1 consistent.agree).2.2 e listed s (List.mem_singleton.2 rfl)
  have visitedE := consistent.visited e (List.mem_append_left _ listed)
  have visitedS := consistent.visited s (List.mem_append_right _ (List.mem_singleton.2 rfl))
  obtain rfl := same_variable visitedE visitedS seen visible same
  exact agree v seen visible t typed

-- One more site records only types that its own variables have there.
theorem recorded_resolveSite {sites : List Site} {s : Site}
    (consistent : c.Consistent unit (sites ++ [s])) {known : LocalTypes}
    (recorded : c.Recorded sites known) :
    c.Recorded (sites ++ [s]) (c.resolveSite s known).2 := by
  have last : s ∈ sites ++ [s] := List.mem_append_right _ (List.mem_singleton.2 rfl)
  have start := orderly (consistent.visited s last) (consistent.grounded s last)
  have grown := start.grown_targetOf (sound_of_recorded consistent recorded) s.node
  intro i t found
  rcases grown i t found with before | here
  · obtain ⟨e, listed, witness⟩ := recorded i t before
    exact ⟨e, List.mem_append_left _ listed, witness⟩
  · exact ⟨s, last, here⟩

theorem Consistent.of_append {sites more : List Site}
    (consistent : c.Consistent unit (sites ++ more)) :
    c.Consistent unit sites where
  visited s listed := consistent.visited s (List.mem_append_left _ listed)
  grounded s listed := consistent.grounded s (List.mem_append_left _ listed)
  agree := (List.pairwise_append.1 consistent.agree).1

theorem recorded_foldl {before later : List Site} (consistent : c.Consistent unit (before ++ later))
    {known : LocalTypes} (recorded : c.Recorded before known) :
    c.Recorded (before ++ later)
      (later.foldl (fun known s => (c.resolveSite s known).2) known) := by
  induction later generalizing before known with
  | nil => simpa using recorded
  | cons s later ih =>
    have regrouped : before ++ s :: later = (before ++ [s]) ++ later := by simp
    rw [regrouped] at consistent ⊢
    exact ih consistent (recorded_resolveSite consistent.of_append recorded)

theorem recorded_knownAfter {sites : List Site} (consistent : c.Consistent unit sites) :
    c.Recorded sites (c.knownAfter sites) := by
  have nothing : c.Recorded [] [] := by simp [Recorded]
  exact recorded_foldl (by simpa using consistent) nothing

-- The outcome of a site is a matter of its target.
theorem outcome_eq {s : Site} {known known' : LocalTypes}
    (same : (c.resolveSite s known).1.target = (c.resolveSite s known').1.target) :
    (c.resolveSite s known).1 = (c.resolveSite s known').1 := by
  simp only [resolveSite] at same ⊢
  generalize ((c.env s).targetOf s.node).run known = ran at same
  generalize ((c.env s).targetOf s.node).run known' = ran' at same
  obtain ⟨target, later⟩ := ran
  obtain ⟨target', later'⟩ := ran'
  dsimp only at same
  rw [same]

/-- A site comes to the same after others as on its own, unless a limit stops it. -/
theorem resolveSite_after {earlier : List Site} {s : Site}
    (consistent : c.Consistent unit (earlier ++ [s])) :
    Stopped (c.resolveSite s []).1.target ∨
      Stopped (c.resolveSite s (c.knownAfter earlier)).1.target ∨
      (c.resolveSite s (c.knownAfter earlier)).1 = (c.resolveSite s []).1 := by
  have last : s ∈ earlier ++ [s] := List.mem_append_right _ (List.mem_singleton.2 rfl)
  have start := orderly (consistent.visited s last) (consistent.grounded s last)
  have alone : (c.env s).Sound [] := by simp [Env.Sound]
  have after := sound_of_recorded consistent (recorded_knownAfter consistent.of_append)
  rcases start.targetOf_same alone after s.node with stopped | stopped | same
  · exact .inl stopped
  · exact .inr (.inl stopped)
  · exact .inr (.inr (outcome_eq same))

theorem grounded_of_written {env : Env} (written : ∀ v, env.Sees v → v.type ≠ none) :
    env.Grounded := by
  intro v _
  generalize v.id = i
  refine .intro i fun j needs => ?_
  cases needs with
  | mention visible untyped => exact absurd untyped (written _ visible)

theorem agree_of_written {a b : Site} (written : ∀ v, (c.env a).Sees v → (c.env b).Sees v →
    ∃ r, v.type = some r ∧ ∀ t, (c.env a).resolveWritten r = .ok t →
      (c.env b).resolveWritten r = .ok t) :
    c.Agree a b := by
  intro v seenA seenB t typed
  obtain ⟨r, isWritten, same⟩ := written v seenA seenB
  have fresh (env : Env) (levels : Nat) (known : LocalTypes) :
      ((env.freshType (Env.typeWithin levels) v).run known).1 = env.resolveWritten r := by
    simp [Env.freshType, isWritten]
  cases typed with
  | found levels known before typed =>
    rw [fresh] at typed
    refine .found levels [] (by simp) ?_
    rw [fresh]
    exact same t typed

-- The file `class A { m(A x) { x.m(x); x.m(x); } }`.
def twoCallsTree : Tree :=
  let call := Node.call 0 [Node.leaf "identifier" "x" "object"] "m"
    [{ kind := "identifier", text := "x" }]
  Node.file [
    Node.classDecl 0 "A" [] [
      Node.method 0 [] "m" [Node.param (Node.type "A") "x"] [call, call]]]

def twoCalls : Corpus := .ofFiles [("/A.java", twoCallsTree)]

def twoCallsSite (i : Nat) : Site := (twoCalls.sites 0)[i]?.getD default

theorem edge_of_stopped {s : Site} {known : LocalTypes}
    (stopped : Stopped (c.resolveSite s known).1.target) :
    (c.resolveSite s known).1.edge = none := by
  obtain ⟨e, failed, _⟩ := stopped
  simp only [resolveSite] at failed ⊢
  generalize ((c.env s).targetOf s.node).run known = ran at failed
  obtain ⟨target, later⟩ := ran
  dsimp only at failed
  rw [failed]

theorem mem_vars_of_sees {env : Env} {v : LocalVar} (seen : env.Sees v) :
    v ∈ env.context.scope.frames.flatMap (·.vars) := by
  obtain ⟨name, visible⟩ := seen
  obtain ⟨frame, inScope, found⟩ := List.exists_of_findSome?_eq_some visible
  exact List.mem_flatMap.2 ⟨frame, inScope, List.mem_of_find?_eq_some found⟩

-- The first call finds the type of the parameter, and the second one uses it.
theorem resolveSite_after_twoCalls :
    twoCalls.Consistent 0 ([twoCallsSite 0] ++ [twoCallsSite 2]) ∧
      (twoCalls.knownAfter [twoCallsSite 0]).length = 1 ∧
      (twoCalls.resolveSite (twoCallsSite 2) (twoCalls.knownAfter [twoCallsSite 0])).1 =
        (twoCalls.resolveSite (twoCallsSite 2) []).1 := by
  have four : (twoCalls.sites 0).length = 4 := by decide +kernel
  have isSite {i : Nat} (below : i < 4) : twoCallsSite i ∈ twoCalls.sites 0 := by
    rw [← four] at below
    rw [twoCallsSite, List.getElem?_eq_getElem below, Option.getD_some]
    exact List.getElem_mem below
  have checked :
      ∀ i ∈ [0, 2], ((twoCallsSite i).context.scope.frames.flatMap (·.vars)).all (fun v =>
      v.type.any fun r => ((twoCalls.env (twoCallsSite 2)).resolveWritten r).toOption ==
        ((twoCalls.env (twoCallsSite 0)).resolveWritten r).toOption) = true := by
    decide +kernel
  have written {i : Nat} (listed : i ∈ [0, 2]) {v : LocalVar}
      (seen : (twoCalls.env (twoCallsSite i)).Sees v) :
      ∃ r, v.type = some r ∧ ((twoCalls.env (twoCallsSite 2)).resolveWritten r).toOption =
        ((twoCalls.env (twoCallsSite 0)).resolveWritten r).toOption := by
    have holds := List.all_eq_true.1 (checked i listed) v (mem_vars_of_sees seen)
    cases isWritten : v.type with
    | none => simp [isWritten] at holds
    | some r => exact ⟨r, rfl, by simpa [isWritten] using holds⟩
  have ground {i : Nat} (listed : i ∈ [0, 2]) : (twoCalls.env (twoCallsSite i)).Grounded := by
    refine grounded_of_written fun v seen untyped => ?_
    obtain ⟨r, isWritten, _⟩ := written listed seen
    simp [untyped] at isWritten
  have consistent : twoCalls.Consistent 0 ([twoCallsSite 0] ++ [twoCallsSite 2]) := by
    refine ⟨?_, ?_, ?_⟩
    · simp [isSite]
    · simp [ground]
    · refine List.pairwise_pair.2 (agree_of_written fun v seen _ => ?_)
      obtain ⟨r, isWritten, same⟩ := written (by simp) seen
      refine ⟨r, isWritten, fun t typed => ?_⟩
      rw [typed] at same
      cases later : (twoCalls.env (twoCallsSite 2)).resolveWritten r with
      | error e => simp [later, Except.toOption] at same
      | ok t' => simpa [later, Except.toOption] using same
  refine ⟨consistent, by decide +kernel, ?_⟩
  have found : (twoCalls.resolveSite (twoCallsSite 2) []).1.edge.isSome ∧
      (twoCalls.resolveSite (twoCallsSite 2)
        (twoCalls.knownAfter [twoCallsSite 0])).1.edge.isSome := by
    decide +kernel
  rcases resolveSite_after consistent with stopped | stopped | same
  · rw [edge_of_stopped stopped] at found
    exact absurd found.1 (by simp)
  · rw [edge_of_stopped stopped] at found
    exact absurd found.2 (by simp)
  · exact same

-- `class Foo { bar() {} } class A { m(Foo x) { new Object() { class Foo {} g() { x.bar(); } }; … } }`
-- Inside the anonymous class the type name `Foo` means another class.
def shadowedTree : Tree :=
  let call := Node.call 0 [Node.leaf "identifier" "x" "object"] "bar" []
  let anonymous := Node.creation 4 "Object" []
    [Node.classDecl 5 "Foo" [] [], Node.method 6 [] "g" [] [call]]
  Node.file [
    Node.classDecl 1 "Foo" [] [Node.method 1 [] "bar" [] []],
    Node.classDecl 2 "A" [] [
      Node.method 3 [] "m" [Node.param (Node.type "Foo") "x"] [anonymous, call]]]

def shadowed : Corpus := .ofFiles [("/A.java", shadowedTree)]

def shadowedSite (i : Nat) : Site := (shadowed.sites 0)[i]?.getD default

-- After the call inside the anonymous class the other call finds no method, on its own it does.
theorem resolveSite_after_shadowed :
    shadowed.sites 0 = [shadowedSite 0, shadowedSite 1] ∧
      (shadowed.resolveSite (shadowedSite 1) (shadowed.knownAfter [shadowedSite 0])).1 ≠
        (shadowed.resolveSite (shadowedSite 1) []).1 := by
  constructor
  · have two : (shadowed.sites 0).length = 2 := by decide +kernel
    unfold shadowedSite
    generalize shadowed.sites 0 = sites at two
    match sites, two with
    | [a, b], _ => rfl
  · intro same
    have edges := congrArg Outcome.edge same
    have differ :
        (shadowed.resolveSite (shadowedSite 1) (shadowed.knownAfter [shadowedSite 0])).1.edge ≠
        (shadowed.resolveSite (shadowedSite 1) []).1.edge := by decide +kernel
    exact differ edges

end Corpus

end RefGraph

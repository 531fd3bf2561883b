import RefGraph.Proofs.Walk

set_option autoImplicit false

namespace RefGraph

namespace Sites

-- The variables of a scope stand in a list at the positions that their numbers say.
def Listed (declared : List LocalVar) (scope : Scope TypeId) : Prop :=
  ∀ frame ∈ scope.frames, ∀ v ∈ frame.vars, declared[v.id]? = some v

structure Numbered (declared : List LocalVar) (s : Surroundings) : Prop where
  next : s.nextVar = declared.length
  listed : Listed declared s.scope

namespace Listed

variable {declared later : List LocalVar} {scope : Scope TypeId}

theorem mono (listed : Listed declared scope) (more : declared <+: later) : Listed later scope := by
  intro frame inScope v declaredThere
  have found := listed frame inScope v declaredThere
  obtain ⟨rest, rfl⟩ := more
  rw [List.getElem?_append_left (List.getElem?_eq_some_iff.1 found).1]
  exact found

theorem push (listed : Listed declared scope) : Listed declared scope.push := by
  intro frame inScope v declaredThere
  rcases List.mem_cons.1 inScope with rfl | outer
  · cases declaredThere
  · exact listed frame outer v declaredThere

theorem pop (listed : Listed declared scope) : Listed declared scope.pop :=
  fun frame inScope => listed frame (List.mem_of_mem_tail inScope)

theorem declareType (listed : Listed declared scope) (name : String) (t : TypeId) :
    Listed declared (scope.declareType name t) := by
  intro frame inScope v declaredThere
  obtain ⟨frames⟩ := scope
  cases frames with
  | nil =>
    obtain rfl := List.mem_singleton.1 inScope
    cases declaredThere
  | cons inner outer =>
    rcases List.mem_cons.1 inScope with rfl | outer
    · exact listed inner List.mem_cons_self v declaredThere
    · exact listed frame (List.mem_cons_of_mem _ outer) v declaredThere

-- A variable goes to the innermost frame.
theorem declare (listed : Listed declared scope) {v : LocalVar} (found : declared[v.id]? = some v) :
    Listed declared (scope.declare v) := by
  intro frame inScope u declaredThere
  obtain ⟨frames⟩ := scope
  cases frames with
  | nil =>
    obtain rfl := List.mem_singleton.1 inScope
    obtain rfl := List.mem_singleton.1 declaredThere
    exact found
  | cons inner outer =>
    rcases List.mem_cons.1 inScope with rfl | outer
    · rcases List.mem_cons.1 declaredThere with rfl | before
      · exact found
      · exact listed inner List.mem_cons_self u before
    · exact listed frame (List.mem_cons_of_mem _ outer) u declaredThere

theorem of_var? (listed : Listed declared scope) {name : String} {v : LocalVar}
    (visible : scope.var? name = some v) : declared[v.id]? = some v := by
  obtain ⟨frame, inScope, found⟩ := List.exists_of_findSome?_eq_some visible
  exact listed frame inScope v (List.mem_of_find?_eq_some found)

end Listed

namespace Numbered

variable {declared : List LocalVar} {s : Surroundings} (numbered : Numbered declared s)

include numbered

theorem declare (v : LocalVar) :
    Numbered (declared ++ [{ v with id := s.nextVar }]) (s.declare v) where
  next := by simp [Surroundings.declare, numbered.next]
  listed := by
    refine (numbered.listed.mono (List.prefix_append _ _)).declare ?_
    simp [numbered.next]

theorem declareAll (vs : List LocalVar) :
    ∃ later, declared <+: later ∧ Numbered later (s.declareAll vs) := by
  induction vs generalizing s declared with
  | nil => exact ⟨declared, List.prefix_rfl, numbered⟩
  | cons v vs ih =>
    obtain ⟨later, more, rest⟩ := ih (numbered.declare v)
    exact ⟨later, (List.prefix_append _ _).trans more, rest⟩

theorem enterDeclaration (w : World) (unit : Nat) (t : Tree) :
    Numbered declared (s.enterDeclaration w unit t).1 := by
  have entered := Surroundings.entered_enterDeclaration w unit s t
  generalize s.enterDeclaration w unit t = result at entered
  cases entered with
  | type i =>
    refine ⟨numbered.next, ?_⟩
    show Listed declared (if _ then _ else _)
    split
    · exact numbered.listed.declareType _ _
    · exact numbered.listed
  | nothing => exact numbered
  | field m => exact ⟨numbered.next, numbered.listed⟩
  | member m => exact ⟨numbered.next, numbered.listed⟩
  | anonymous m => exact ⟨numbered.next, numbered.listed⟩

theorem enter (w : World) (unit : Nat) (t : Tree) :
    ∃ later, declared <+: later ∧ Numbered later (s.enter w unit t).1 := by
  have entered := numbered.enterDeclaration w unit t
  simp only [Surroundings.enter]
  split
  · have pushed : Numbered declared { (s.enterDeclaration w unit t).1 with
        scope := (s.enterDeclaration w unit t).1.scope.push } := ⟨entered.next, entered.listed.push⟩
    exact pushed.declareAll _
  · exact entered.declareAll _

theorem leave (opened : Opened) : Numbered declared (s.leave opened) := by
  refine ⟨numbered.next, ?_⟩
  show Listed declared (if opened.scope then s.scope.pop else s.scope)
  split
  · exact numbered.listed.pop
  · exact numbered.listed

end Numbered

theorem scope_of_site? {w : World} {parent : Option Tree} {s : Surroundings} {t : Tree}
    {site : Site} (found : s.site? w parent t = some site) : site.context.scope = s.scope := by
  unfold Surroundings.site? at found
  split at found
  next =>
    split at found
    next =>
      obtain rfl := Option.some.inj found
      rfl
    next => simp at found
  next => simp at found

-- What a part of the walk gives: more variables, among them those in scope at its sites.
structure Extends (declared : List LocalVar) (result : Surroundings × List Site)
    (later : List LocalVar) :
    Prop where
  more : declared <+: later
  after : Numbered later result.1
  sites : ∀ site ∈ result.2, Listed later site.context.scope

theorem walkAll_numbered {w : World} {unit : Nat} (parent : Option Tree) (ts : List Tree)
    {declared : List LocalVar} {s : Surroundings} (numbered : Numbered declared s)
    (each : ∀ t ∈ ts, ∀ {declared s}, Numbered declared s →
      ∃ later, Extends declared (walk w unit parent s t) later) :
    ∃ later, Extends declared (walkAll w unit parent s ts) later := by
  induction ts generalizing s declared with
  | nil => exact ⟨declared, List.prefix_rfl, numbered, by simp [walkAll]⟩
  | cons t ts ih =>
    have rest {declared s} (numbered : Numbered declared s) :=
      ih numbered fun u listed => each u (List.mem_cons_of_mem _ listed)
    rw [walkAll]
    split
    · obtain ⟨middle, first⟩ := each t List.mem_cons_self numbered
      obtain ⟨later, second⟩ := rest first.after
      refine ⟨later, first.more.trans second.more, second.after, ?_⟩
      intro site visited
      rcases List.mem_append.1 visited with here | there
      · exact (first.sites site here).mono second.more
      · exact second.sites site there
    · exact rest numbered

theorem walk_numbered {w : World} {unit : Nat} (parent : Option Tree) (t : Tree)
    {declared : List LocalVar} {s : Surroundings} (numbered : Numbered declared s) :
    ∃ later, Extends declared (walk w unit parent s t) later := by
  induction t using Tree.induction generalizing parent s declared with
  | node t ih =>
    obtain ⟨middle, more, entered⟩ := numbered.enter w unit t
    obtain ⟨later, inner⟩ := walkAll_numbered (some t) t.children entered
      fun c listed _ _ numbered => ih c listed (some t) numbered
    rw [walk_eq]
    refine ⟨later, more.trans inner.more, inner.after.leave _, ?_⟩
    intro site visited
    rcases List.mem_append.1 visited with here | below
    · rw [scope_of_site? (by simpa using here)]
      exact entered.listed.mono inner.more
    · exact inner.sites site below

theorem variable_unique {w : World} {unit : Nat} {a b : Site} (visitedA : a ∈ ofUnit w unit)
    (visitedB : b ∈ ofUnit w unit) {name name' : String} {u v : LocalVar}
    (seenA : a.context.scope.var? name = some u) (seenB : b.context.scope.var? name' = some v)
    (same : u.id = v.id) : u = v := by
  have start : Numbered [] {} := ⟨rfl, by simp [Listed]⟩
  obtain ⟨declared, all⟩ := walk_numbered none (w.unit unit).tree start
  have first := (all.sites a visitedA).of_var? seenA
  have second := (all.sites b visitedB).of_var? seenB
  rw [same, second] at first
  exact (Option.some.inj first).symm

end Sites

end RefGraph

import Mathlib.Data.List.Nodup
import Mathlib.Order.Nat
import RefGraph.Proofs.HierarchyClimb
import RefGraph.Proofs.Makers
import RefGraph.Proofs.Supertypes

set_option autoImplicit false

namespace RefGraph

namespace World

variable (w : World)

def stepsUp (via : ClassType → Bool) (c : ClassType) : Nat → List ClassType
  | 0 => [c]
  | n + 1 => ((stepsUp via c n).filter via).flatMap w.directSupertypes

def FirstAt (via : ClassType → Bool) (c : ClassType) (n : Nat) (d : Decl) : Prop :=
  d ∈ (w.stepsUp via c n).map (·.decl) ∧ ∀ m < n, d ∉ (w.stepsUp via c m).map (·.decl)

instance (via : ClassType → Bool) (c : ClassType) (n : Nat) (d : Decl) :
    Decidable (w.FirstAt via c n d) :=
  inferInstanceAs (Decidable (_ ∧ _))

/-- What the search up from a type finds, against the distances of declarations. -/
structure BreadthFirst (via : ClassType → Bool) (c : ClassType) : Prop where
  start : (w.ancestry c).found.head? = some c
  once : ((w.ancestry c).found.map (·.decl)).Nodup
  above : ∀ before s after, (w.ancestry c).found = before ++ s :: after → before ≠ [] →
    ∃ t ∈ before, s ∈ w.directSupertypes t
  ordered : (w.ancestry c).found.Pairwise fun s t =>
    ∀ m n, w.FirstAt via c m s.decl → w.FirstAt via c n t.decl → m ≤ n
  near : ∀ d, d ∈ (w.ancestry c).found.map (·.decl) ↔ ∃ n ≤ hierarchyLimit, w.FirstAt via c n d
  finished : ∀ all, w.ancestors c = .ok all →
    all = (w.ancestry c).found ∧ ∀ t ∈ all, ∀ s ∈ w.directSupertypes t, s.decl ∈ all.map (·.decl)
  givesUp : (∃ far, w.ancestors c = .error (w.tooFar far)) ↔ ∃ n d, hierarchyLimit < n ∧
    w.FirstAt via c n d

variable {w}

theorem FirstAt.unique {via : ClassType → Bool} {c : ClassType} {m n : Nat} {d : Decl}
    (first : w.FirstAt via c m d) (other : w.FirstAt via c n d) : m = n := by
  rcases Nat.lt_trichotomy m n with less | same | more
  · exact absurd first.1 (other.2 m less)
  · exact same
  · exact absurd other.1 (first.2 n more)

theorem mem_fresh {seen : List Decl} {level : List ClassType} {t : ClassType}
    (listed : t ∈ fresh seen level) :
    t ∈ level ∧ t.decl ∉ seen := by
  induction level generalizing seen with
  | nil => simp [fresh] at listed
  | cons c cs ih =>
    by_cases met : c.decl ∈ seen
    · rw [fresh_of_mem met] at listed
      exact ⟨List.mem_cons_of_mem _ (ih listed).1, (ih listed).2⟩
    · rw [fresh_of_notMem met] at listed
      rcases List.mem_cons.1 listed with rfl | later
      · exact ⟨List.mem_cons_self, met⟩
      · obtain ⟨among, new⟩ := ih later
        exact ⟨List.mem_cons_of_mem _ among, fun old => new (List.mem_cons_of_mem _ old)⟩

theorem decl_mem_fresh (seen : List Decl) {level : List ClassType} {t : ClassType}
    (listed : t ∈ level) :
    t.decl ∈ seen ∨ t.decl ∈ (fresh seen level).map (·.decl) := by
  induction level generalizing seen with
  | nil => simp at listed
  | cons c cs ih =>
    by_cases met : c.decl ∈ seen
    · rw [fresh_of_mem met]
      rcases List.mem_cons.1 listed with rfl | later
      · exact .inl met
      · exact ih seen later
    · rw [fresh_of_notMem met, List.map_cons]
      rcases List.mem_cons.1 listed with rfl | later
      · exact .inr List.mem_cons_self
      · have met := ih (c.decl :: seen) later
        grind

theorem nodup_fresh (seen : List Decl) (level : List ClassType) :
    ((fresh seen level).map (·.decl)).Nodup := by
  induction level generalizing seen with
  | nil => exact List.nodup_nil
  | cons c cs ih =>
    by_cases met : c.decl ∈ seen
    · rw [fresh_of_mem met]
      exact ih seen
    · rw [fresh_of_notMem met, List.map_cons, List.nodup_cons]
      refine ⟨fun again => ?_, ih _⟩
      obtain ⟨t, later, same⟩ := List.mem_map.1 again
      exact (mem_fresh later).2 (same ▸ List.mem_cons_self)

variable (w) in
/-- The types that the search meets so many levels on, given what it has met and the level that it
looks at. -/
def layerFrom : List Decl → List ClassType → Nat → List ClassType
  | seen, level, 0 => fresh seen level
  | seen, level, n + 1 =>
    layerFrom ((fresh seen level).map (·.decl) ++ seen)
      ((fresh seen level).flatMap w.directSupertypes) n

variable {seen : List Decl} {level : List ClassType} {m n : Nat} {t u : ClassType}

theorem layerFrom_eq_nil (done : fresh seen level = []) (n : Nat) :
    w.layerFrom seen level n = [] := by
  induction n generalizing seen level with
  | zero => exact done
  | succ n ih =>
    rw [layerFrom, done]
    exact ih rfl

theorem decl_notMem_of_layerFrom (listed : t ∈ w.layerFrom seen level n) : t.decl ∉ seen := by
  induction n generalizing seen level with
  | zero => exact (mem_fresh listed).2
  | succ n ih => exact fun old => ih listed (List.mem_append_right _ old)

theorem below_of_layerFrom (listed : t ∈ w.layerFrom seen level (n + 1)) :
    ∃ u ∈ w.layerFrom seen level n, t ∈ w.directSupertypes u := by
  induction n generalizing seen level with
  | zero => exact List.mem_flatMap.1 (mem_fresh listed).1
  | succ n ih => exact ih listed

theorem nodup_layerFrom (n : Nat) : ((w.layerFrom seen level n).map (·.decl)).Nodup := by
  induction n generalizing seen level with
  | zero => exact nodup_fresh seen level
  | succ n ih => exact ih

theorem decl_ne_of_layerFrom (less : m < n) (nearer : t ∈ w.layerFrom seen level m)
    (farther : u ∈ w.layerFrom seen level n) : t.decl ≠ u.decl := by
  obtain ⟨n, rfl⟩ : ∃ k, n = k + 1 := ⟨n - 1, by omega⟩
  induction m generalizing seen level n with
  | zero =>
    rw [layerFrom] at farther
    intro same
    refine decl_notMem_of_layerFrom farther (List.mem_append_left _ ?_)
    exact same ▸ List.mem_map_of_mem nearer
  | succ m ih =>
    obtain ⟨k, rfl⟩ : ∃ k, n = k + 1 := ⟨n - 1, by omega⟩
    exact ih nearer k (by omega) farther

-- What is one step up from a level was met before, or is met on the next level at the latest.
theorem decl_mem_layerFrom_of_step (listed : t ∈ w.layerFrom seen level n)
    (step : u ∈ w.directSupertypes t) :
    u.decl ∈ seen ∨ ∃ m ≤ n + 1, u.decl ∈ (w.layerFrom seen level m).map (·.decl) := by
  induction n generalizing seen level with
  | zero =>
    rcases decl_mem_fresh ((fresh seen level).map (·.decl) ++ seen)
      (List.mem_flatMap.2 ⟨t, listed, step⟩) with met | new
    · rcases List.mem_append.1 met with here | before
      · exact .inr ⟨0, Nat.zero_le _, here⟩
      · exact .inl before
    · exact .inr ⟨1, Nat.le_refl _, new⟩
  | succ n ih =>
    rcases ih listed with met | ⟨m, within, later⟩
    · rcases List.mem_append.1 met with here | before
      · exact .inr ⟨0, Nat.zero_le _, here⟩
      · exact .inl before
    · exact .inr ⟨m + 1, by omega, later⟩

theorem ancestryFrom_eq (levels : Nat) (seen : List Decl) (level : List ClassType) :
    w.ancestryFrom levels seen level =
      { found := (List.range levels).flatMap (w.layerFrom seen level)
        beyond := (w.layerFrom seen level levels).head? } := by
  induction levels generalizing seen level with
  | zero => rfl
  | succ levels ih =>
    rw [ancestryFrom, List.range_succ_eq_map, List.flatMap_cons, List.flatMap_map]
    cases here : fresh seen level with
    | nil =>
      have empty := layerFrom_eq_nil (w := w) here
      simp [empty]
    | cons c cs =>
      simp only [ih, layerFrom, here]

variable (w) in
def layer (c : ClassType) (n : Nat) : List ClassType := w.layerFrom [] [c] n

variable {c : ClassType}

theorem ancestry_eq (c : ClassType) :
    w.ancestry c =
      { found := (List.range (hierarchyLimit + 1)).flatMap (w.layer c)
        beyond := (w.layer c (hierarchyLimit + 1)).head? } :=
  ancestryFrom_eq _ _ _

theorem mem_found : t ∈ (w.ancestry c).found ↔ ∃ n ≤ hierarchyLimit, t ∈ w.layer c n := by
  rw [ancestry_eq, List.mem_flatMap]
  simp only [List.mem_range, Nat.lt_succ_iff]

theorem layer_zero (c : ClassType) : w.layer c 0 = [c] := rfl

theorem below_of_layer (here : t ∈ w.layer c (n + 1)) :
    ∃ u ∈ w.layer c n, t ∈ w.directSupertypes u :=
  below_of_layerFrom here

theorem exists_layer_of_step (here : t ∈ w.layer c n) (step : u ∈ w.directSupertypes t) :
    ∃ m ≤ n + 1, u.decl ∈ (w.layer c m).map (·.decl) :=
  (decl_mem_layerFrom_of_step here step).resolve_left List.not_mem_nil

theorem layer_unique (here : t ∈ w.layer c m) (there : u ∈ w.layer c n) (same : t.decl = u.decl) :
    m = n := by
  rcases Nat.lt_trichotomy m n with less | equal | more
  · exact absurd same (decl_ne_of_layerFrom less here there)
  · exact equal
  · exact absurd same.symm (decl_ne_of_layerFrom more there here)

theorem eq_of_found (here : t ∈ (w.ancestry c).found) (there : u ∈ (w.ancestry c).found)
    (same : t.decl = u.decl) :
    t = u := by
  obtain ⟨m, -, here⟩ := mem_found.1 here
  obtain ⟨n, -, there⟩ := mem_found.1 there
  obtain rfl := layer_unique here there same
  exact List.inj_on_of_nodup_map (nodup_layerFrom _) here there same

theorem layer_eq_nil (done : w.layer c m = []) (more : m ≤ n) : w.layer c n = [] := by
  induction n, more using Nat.le_induction with
  | base => exact done
  | succ n _ ih =>
    refine List.eq_nil_iff_forall_not_mem.2 fun t listed => ?_
    obtain ⟨u, below, -⟩ := below_of_layer listed
    rw [ih] at below
    exact List.not_mem_nil below

theorem head?_found (c : ClassType) : (w.ancestry c).found.head? = some c := by
  rw [ancestry_eq, List.range_succ_eq_map, List.flatMap_cons, layer_zero]
  rfl

theorem nodup_found (c : ClassType) : ((w.ancestry c).found.map (·.decl)).Nodup := by
  rw [ancestry_eq, List.map_flatMap, List.nodup_flatMap]
  refine ⟨fun n _ => nodup_layerFrom n,
    List.pairwise_lt_range.imp fun {m n} less d here there => ?_⟩
  obtain ⟨t, nearer, rfl⟩ := List.mem_map.1 here
  obtain ⟨u, farther, same⟩ := List.mem_map.1 there
  exact decl_ne_of_layerFrom less nearer farther same.symm

theorem pairwise_found (c : ClassType) :
    (w.ancestry c).found.Pairwise fun s t => ∀ m n, s ∈ w.layer c m → t ∈ w.layer c n → m ≤ n := by
  rw [ancestry_eq, List.pairwise_flatMap]
  constructor
  · intro k _
    refine List.pairwise_of_forall_mem_list fun s here t there m n first second => ?_
    rw [layer_unique first here rfl, layer_unique second there rfl]
  · refine List.pairwise_lt_range.imp fun {k l} less s here t there m n first second => ?_
    rw [layer_unique first here rfl, layer_unique second there rfl]
    exact less.le

theorem found_above {before after : List ClassType}
    (found : (w.ancestry c).found = before ++ t :: after) (later : before ≠ []) :
    ∃ u ∈ before, t ∈ w.directSupertypes u := by
  obtain ⟨n, within, here⟩ := mem_found.1 (show t ∈ (w.ancestry c).found by simp [found])
  cases n with
  | zero =>
    -- The type itself comes first and not again.
    obtain rfl : t = c := List.mem_singleton.1 here
    obtain ⟨b, bs, rfl⟩ := List.exists_cons_of_ne_nil later
    have first := head?_found (w := w) t
    have once := nodup_found (w := w) t
    rw [found] at first once
    obtain rfl : b = t := Option.some.inj first
    simp at once
  | succ n =>
    obtain ⟨u, below, step⟩ := below_of_layer here
    have among : u ∈ before ++ t :: after := found ▸ mem_found.2 ⟨n, by omega, below⟩
    rcases List.mem_append.1 among with earlier | after
    · exact ⟨u, earlier, step⟩
    · rcases List.mem_cons.1 after with rfl | after
      · have := layer_unique below here rfl
        omega
      · have order := pairwise_found (w := w) c
        rw [found, List.pairwise_append, List.pairwise_cons] at order
        have := order.2.1.1 u after _ _ here below
        omega

theorem ancestors_eq_ok {all : List ClassType} :
    w.ancestors c = .ok all ↔ w.layer c (hierarchyLimit + 1) = [] ∧ all = (w.ancestry c).found := by
  rw [ancestors, ancestry_eq]
  cases w.layer c (hierarchyLimit + 1) with
  | nil => simp [eq_comm]
  | cons t ts => simp

theorem ancestors_eq_error :
    (∃ far, w.ancestors c = .error (w.tooFar far)) ↔ w.layer c (hierarchyLimit + 1) ≠ [] := by
  rw [ancestors, ancestry_eq]
  cases w.layer c (hierarchyLimit + 1) with
  | nil => simp
  | cons t ts => simp

theorem closed_of_done (done : w.layer c (hierarchyLimit + 1) = [])
    (here : t ∈ (w.ancestry c).found) (step : u ∈ w.directSupertypes t) :
    u.decl ∈ (w.ancestry c).found.map (·.decl) := by
  obtain ⟨n, -, here⟩ := mem_found.1 here
  obtain ⟨m, -, met⟩ := exists_layer_of_step here step
  obtain ⟨v, there, same⟩ := List.mem_map.1 met
  refine List.mem_map.2 ⟨v, mem_found.2 ⟨m, Nat.le_of_not_lt fun beyond => ?_, there⟩, same⟩
  rw [layer_eq_nil done beyond] at there
  exact List.not_mem_nil there

section

variable {via : ClassType → Bool} (listed : ∀ t ∈ (w.ancestry c).found, via t = true)
  (alike : ∀ t ∈ (w.ancestry c).found, ∀ u, via u = true → u.decl = t.decl →
    (w.directSupertypes u).map (·.decl) = (w.directSupertypes t).map (·.decl))

include listed in
theorem mem_stepsUp_of_layer (within : n ≤ hierarchyLimit + 1) (here : t ∈ w.layer c n) :
    t ∈ w.stepsUp via c n := by
  induction n generalizing t with
  | zero => exact here
  | succ n ih =>
    obtain ⟨u, below, step⟩ := below_of_layer here
    refine List.mem_flatMap.2 ⟨u, List.mem_filter.2 ⟨ih (by omega) below, listed u ?_⟩, step⟩
    exact mem_found.2 ⟨n, by omega, below⟩

include alike in
-- A step from any type that is gone on from leads to a declaration that the search meets as early.
theorem exists_layer_of_stepsUp (within : n ≤ hierarchyLimit + 1 ∨
    w.layer c (hierarchyLimit + 1) = []) (reached : t ∈ w.stepsUp via c n) :
    ∃ m ≤ n, t.decl ∈ (w.layer c m).map (·.decl) := by
  induction n generalizing t with
  | zero => exact ⟨0, Nat.le_refl _, List.mem_map_of_mem reached⟩
  | succ n ih =>
    obtain ⟨u, kept, step⟩ := List.mem_flatMap.1 reached
    obtain ⟨below, through⟩ := List.mem_filter.1 kept
    obtain ⟨m, le, met⟩ := ih (within.imp_left (by omega)) below
    obtain ⟨v, here, rep⟩ := List.mem_map.1 met
    have near : m ≤ hierarchyLimit := by
      rcases within with short | done
      · omega
      · refine Nat.le_of_not_lt fun beyond => ?_
        rw [layer_eq_nil done beyond] at here
        exact List.not_mem_nil here
    have stepDecl : t.decl ∈ (w.directSupertypes v).map (·.decl) := by
      rw [← alike v (mem_found.2 ⟨m, near, here⟩) u through rep.symm]
      exact List.mem_map_of_mem step
    obtain ⟨s, next, same⟩ := List.mem_map.1 stepDecl
    obtain ⟨k, le', later⟩ := exists_layer_of_step here next
    exact ⟨k, by omega, same ▸ later⟩

include listed alike

theorem firstAt_iff (within : n ≤ hierarchyLimit + 1) (d : Decl) :
    w.FirstAt via c n d ↔ d ∈ (w.layer c n).map (·.decl) := by
  constructor
  · rintro ⟨reached, first⟩
    obtain ⟨t, up, rfl⟩ := List.mem_map.1 reached
    obtain ⟨m, le, met⟩ := exists_layer_of_stepsUp alike (.inl within) up
    obtain ⟨u, here, same⟩ := List.mem_map.1 met
    have up := mem_stepsUp_of_layer listed (by omega) here
    rcases Nat.lt_or_eq_of_le le with less | rfl
    · exact absurd (same ▸ List.mem_map_of_mem up) (first m less)
    · exact met
  · intro met
    obtain ⟨t, here, rfl⟩ := List.mem_map.1 met
    refine ⟨List.mem_map_of_mem (mem_stepsUp_of_layer listed within here), fun m less reached => ?_⟩
    obtain ⟨u, up, same⟩ := List.mem_map.1 reached
    obtain ⟨k, le, earlier⟩ := exists_layer_of_stepsUp alike (.inl (by omega)) up
    obtain ⟨v, there, same'⟩ := List.mem_map.1 earlier
    have := layer_unique there here (same'.trans same)
    omega

theorem firstAt_beyond :
    w.layer c (hierarchyLimit + 1) ≠ [] ↔ ∃ n d, hierarchyLimit < n ∧ w.FirstAt via c n d := by
  constructor
  · intro more
    obtain ⟨t, ts, beyond⟩ := List.exists_cons_of_ne_nil more
    refine ⟨hierarchyLimit + 1, t.decl, Nat.lt_succ_self _, ?_⟩
    rw [firstAt_iff listed alike (Nat.le_refl _), beyond]
    exact List.mem_cons_self
  · rintro ⟨n, d, beyond, reached, first⟩ done
    obtain ⟨t, up, rfl⟩ := List.mem_map.1 reached
    obtain ⟨m, le, met⟩ := exists_layer_of_stepsUp alike (.inr done) up
    obtain ⟨u, here, same⟩ := List.mem_map.1 met
    have near : m ≤ hierarchyLimit := by
      refine Nat.le_of_not_lt fun far => ?_
      rw [layer_eq_nil done far] at here
      exact List.not_mem_nil here
    have up := mem_stepsUp_of_layer listed (by omega) here
    exact first m (by omega) (same ▸ List.mem_map_of_mem up)

theorem breadthFirst : w.BreadthFirst via c where
  start := head?_found c
  once := nodup_found c
  above _ _ _ found later := found_above found later
  ordered := by
    refine (pairwise_found c).imp_of_mem fun {s t} here there order m n first other => ?_
    obtain ⟨k, near, here⟩ := mem_found.1 here
    obtain ⟨l, near', there⟩ := mem_found.1 there
    have level : w.FirstAt via c k s.decl :=
      (firstAt_iff listed alike (by omega) _).2 (List.mem_map_of_mem here)
    have level' : w.FirstAt via c l t.decl :=
      (firstAt_iff listed alike (by omega) _).2 (List.mem_map_of_mem there)
    rw [first.unique level, other.unique level']
    exact order k l here there
  near d := by
    rw [List.mem_map]
    constructor
    · rintro ⟨t, here, rfl⟩
      obtain ⟨n, near, here⟩ := mem_found.1 here
      exact ⟨n, near, (firstAt_iff listed alike (by omega) _).2 (List.mem_map_of_mem here)⟩
    · rintro ⟨n, near, first⟩
      obtain ⟨t, here, same⟩ := List.mem_map.1 ((firstAt_iff listed alike (by omega) d).1 first)
      exact ⟨t, mem_found.2 ⟨n, near, here⟩, same⟩
  finished all ended := by
    obtain ⟨done, rfl⟩ := ancestors_eq_ok.1 ended
    exact ⟨rfl, fun t here s step => closed_of_done done here step⟩
  givesUp := ancestors_eq_error.trans (firstAt_beyond listed alike)

end

/-- The search up from a type goes breadth first over the types that it finds, and over all types
above if these name their supertypes. -/
theorem ancestry_breadth_first (w : World) (c : ClassType) :
    w.BreadthFirst (fun t => t ∈ (w.ancestry c).found) c ∧
      ((∀ t ∈ (w.ancestry c).found, w.NamesSupertypes t.decl) →
        w.BreadthFirst (fun _ => true) c) := by
  constructor
  · apply breadthFirst
    · intro t here
      exact decide_eq_true here
    · intro t here u there same
      rw [eq_of_found (of_decide_eq_true there) here same]
  · intro named
    apply breadthFirst
    · intro t _
      rfl
    · rintro ⟨d, args⟩ here ⟨_, args'⟩ - rfl
      exact decl_directSupertypes (named _ here) args' args

-- `class A<T> extends B<T> implements I<A<T>> {} class B<U> extends A<B<U>> implements I<U> {}`
-- `interface I<V> extends I<I<V>> {}`
def circle : World :=
  { units := [SourceUnit.ofTypes [
      { TypeDecl.ofClass "A" [.applied "B" [.simple "T"]] [] with
        typeParams := [{ name := "T" }], interfaces :=
        [.applied "I" [.applied "A" [.simple "T"]]] },
      { TypeDecl.ofClass "B" [.applied "A" [.applied "B" [.simple "U"]]] [] with
        typeParams := [{ name := "U" }], interfaces := [.applied "I" [.simple "U"]] },
      { TypeDecl.ofClass "I" [.applied "I" [.applied "I" [.simple "V"]]] [] with
        typeParams := [{ name := "V" }], kind := .interfaceKind }]] }

-- `A` is met again with other arguments, two steps up, and `I` at two distances and from itself.
theorem ancestry_breadth_first_circle :
    let c : ClassType := ⟨.corpus ⟨0, 0⟩, [.prim .int]⟩
    (∀ t ∈ (circle.ancestry c).found, circle.NamesSupertypes t.decl) ∧
      (circle.ancestry c).found =
        [c, ⟨.corpus ⟨0, 1⟩, [.prim .int]⟩, ⟨.corpus ⟨0, 2⟩, [c.toType]⟩, ⟨.library topName, []⟩] ∧
      circle.BreadthFirst (fun _ => true) c := by
  intro c
  have named : ∀ t ∈ (circle.ancestry c).found, circle.NamesSupertypes t.decl := by decide +kernel
  exact ⟨named, by decide +kernel, (ancestry_breadth_first circle c).2 named⟩

-- `C<C<…<B>…>>`
def wrapped : Nat → TypeRef
  | 0 => .simple "B"
  | n + 1 => .applied "C" [wrapped n]

-- `class A {} class B {} class C<T> extends T {} class R implements C<A>, C<C<…<B>…>> {}`
def parameterAbove : World :=
  { units := [SourceUnit.ofTypes [
      TypeDecl.ofClass "A" [] [], TypeDecl.ofClass "B" [] [],
      { TypeDecl.ofClass "C" [.simple "T"] [] with typeParams := [{ name := "T" }] },
      { TypeDecl.ofClass "R" [] [] with
        interfaces := [.applied "C" [.simple "A"], wrapped 49] }]] }

-- Only the first `C` is gone on from, so the search ends, although `B` is fifty steps up.
theorem ancestry_breadth_first_parameterAbove :
    parameterAbove.FirstAt (fun _ => true) ⟨.corpus ⟨0, 3⟩, []⟩ 50 (.corpus ⟨0, 1⟩) ∧
      parameterAbove.ancestors ⟨.corpus ⟨0, 3⟩, []⟩ =
        .ok [⟨.corpus ⟨0, 3⟩, []⟩, ⟨.corpus ⟨0, 2⟩, [.ref (.corpus ⟨0, 0⟩) []]⟩,
          ⟨.library topName, []⟩, ⟨.corpus ⟨0, 0⟩, []⟩] ∧
      ¬ parameterAbove.BreadthFirst (fun _ => true) ⟨.corpus ⟨0, 3⟩, []⟩ := by
  have far : parameterAbove.FirstAt (fun _ => true) ⟨.corpus ⟨0, 3⟩, []⟩ 50 (.corpus ⟨0, 1⟩) := by
    decide +kernel
  have ends : parameterAbove.ancestors ⟨.corpus ⟨0, 3⟩, []⟩ =
      .ok [⟨.corpus ⟨0, 3⟩, []⟩, ⟨.corpus ⟨0, 2⟩, [.ref (.corpus ⟨0, 0⟩) []]⟩,
        ⟨.library topName, []⟩, ⟨.corpus ⟨0, 0⟩, []⟩] := by rfl
  refine ⟨far, ends, fun search => ?_⟩
  obtain ⟨type, stopped⟩ := search.givesUp.2 ⟨50, _, by decide, far⟩
  rw [ends] at stopped
  cases stopped

end World

end RefGraph

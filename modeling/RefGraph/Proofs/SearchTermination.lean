import RefGraph.Lookup
import Mathlib.Data.Finset.Card
import Mathlib.Data.List.ProdSigma

/-!
Looking up a name comes to an end. A search for a name in a type that is under way is not started
again, and there are only so many types and names to search for.
-/

set_option autoImplicit false

namespace RefGraph

namespace World

variable (w : World)

mutual

/-- The search for a member type ends with an answer, while the searches in the list are under way.
-/
inductive Finds : List (TypeId × String) → TypeId → String → Option TypeId → Prop
  | own {busy t name m} (declared : w.ownMember? t name = some m) : Finds busy t name (some m)
  | underWay {busy t name} (undeclared : w.ownMember? t name = none) (started : (t, name) ∈ busy) :
      Finds busy t name none
  | inherited {busy t name r} (undeclared : w.ownMember? t name = none) (free : (t, name) ∉ busy)
      (scan : Scans ((t, name) :: busy) name [] [(t, 0)] r) : Finds busy t name r

inductive Scans : List (TypeId × String) → String → List TypeId → List (TypeId × Nat) →
    Option TypeId → Prop
  | done {busy name visited} : Scans busy name visited [] none
  | skip {busy name visited t depth pending r} (passed : t ∈ visited ∨ hierarchyLimit < depth)
      (rest : Scans busy name visited pending r) : Scans busy name visited ((t, depth) :: pending) r
  | hit {busy name visited t depth pending m} (new : t ∉ visited) (near : depth ≤ hierarchyLimit)
      (declared : w.ownMember? t name = some m) :
        Scans busy name visited ((t, depth) :: pending) (some m)
  | expand {busy name visited t depth pending supers r} (new : t ∉ visited)
      (near : depth ≤ hierarchyLimit) (undeclared : w.ownMember? t name = none)
      (above : Collects busy (w.headerContext t) (w.decl t).supertypes supers)
      (rest : Scans busy name (t :: visited) (pending ++ supers.map (·, depth + 1)) r) :
      Scans busy name visited ((t, depth) :: pending) r

inductive Collects : List (TypeId × String) → Context → List TypeRef → List TypeId → Prop
  | none {busy ctx} : Collects busy ctx [] []
  | corpus {busy ctx r rs id ids} (resolved : Resolves busy (some ctx) r.name (some (.corpus id)))
      (rest : Collects busy ctx rs ids) : Collects busy ctx (r :: rs) (id :: ids)
  | other {busy ctx r rs d ids} (resolved : Resolves busy (some ctx) r.name d)
      (outside : ∀ id, d ≠ some (.corpus id)) (rest : Collects busy ctx rs ids) :
        Collects busy ctx (r :: rs) ids

inductive Resolves : List (TypeId × String) → Option Context → Name → Option Decl → Prop
  | empty {busy ctx? n} (empty : n.isEmpty = true) : Resolves busy ctx? n none
  | written {busy ctx? n d} (named : n.isEmpty = false) (solved : Solves busy ctx? n (some d)) :
      Resolves busy ctx? n (some d)
  | bare {busy ctx? n d} (named : n.isEmpty = false) (unsolved : Solves busy ctx? n none)
      (qualified : n.isQualified = true) (again : Solves busy ctx? n.bare d) :
        Resolves busy ctx? n d
  | unknown {busy ctx? n} (named : n.isEmpty = false) (unsolved : Solves busy ctx? n none)
      (simple : n.isQualified = false) : Resolves busy ctx? n none

inductive Solves : List (TypeId × String) → Option Context → Name → Option Decl → Prop
  | anywhere {busy n} : Solves busy none n (w.fromSources? [n])
  | inside {busy ctx n t r} (lexical : Sees busy ctx n.first ctx.enclosing (some t))
      (descent : Descends busy t n.path r) : Solves busy (some ctx) n (r.map .corpus)
  | outside {busy ctx n} (unseen : Sees busy ctx n.first ctx.enclosing none) :
      Solves busy (some ctx) n (w.fromSources? (w.candidateNames ctx n))

inductive Sees : List (TypeId × String) → Context → String → List TypeId → Option TypeId → Prop
  | itself {busy ctx name t ts} (called : ((w.decl t).isNamed && (w.decl t).name == name) = true) :
      Sees busy ctx name (t :: ts) (some t)
  | member {busy ctx name t ts m} (other : ((w.decl t).isNamed && (w.decl t).name == name) = false)
      (found : Finds busy t name (some m)) : Sees busy ctx name (t :: ts) (some m)
  | outward {busy ctx name t ts r} (other : ((w.decl t).isNamed && (w.decl t).name == name) = false)
      (missing : Finds busy t name none) (rest : Sees busy ctx name ts r) :
        Sees busy ctx name (t :: ts) r
  | beyond {busy ctx name} :
    Sees busy ctx name [] ((w.localType? ctx name).or (w.unitType? ctx name))

inductive Descends : List (TypeId × String) → TypeId → List String → Option TypeId → Prop
  | here {busy t} : Descends busy t [] (some t)
  | into {busy t s ss u r} (found : Finds busy t s (some u)) (rest : Descends busy u ss r) :
      Descends busy t (s :: ss) r
  | lost {busy t s ss} (missing : Finds busy t s none) : Descends busy t (s :: ss) none

end

variable {w}

mutual

theorem Finds.unique {busy : List (TypeId × String)} {t : TypeId} {name : String}
    {r r' : Option TypeId} :
    w.Finds busy t name r → w.Finds busy t name r' → r' = r
  | .own declared, other => by cases other <;> simp_all
  | .underWay undeclared started, other => by cases other <;> simp_all
  | .inherited undeclared free scan, other => by
    cases other with
    | own => simp_all
    | underWay => simp_all
    | inherited _ _ again => exact scan.unique again
termination_by structural first => first

theorem Scans.unique {busy : List (TypeId × String)} {name : String} {visited : List TypeId}
    {pending : List (TypeId × Nat)} {r r' : Option TypeId} :
    w.Scans busy name visited pending r → w.Scans busy name visited pending r' → r' = r
  | .done, other => by cases other; rfl
  | .skip passed rest, other => by
    cases other with
    | skip _ again => exact rest.unique again
    | hit new near => exact absurd passed (not_or.2 ⟨new, Nat.not_lt.2 near⟩)
    | expand new near => exact absurd passed (not_or.2 ⟨new, Nat.not_lt.2 near⟩)
  | .hit new near declared, other => by
    cases other with
    | skip passed => exact absurd passed (not_or.2 ⟨new, Nat.not_lt.2 near⟩)
    | hit => simp_all
    | expand => simp_all
  | .expand new near undeclared above rest, other => by
    cases other with
    | skip passed => exact absurd passed (not_or.2 ⟨new, Nat.not_lt.2 near⟩)
    | hit => simp_all
    | expand _ _ _ above' again =>
      rw [above.unique above'] at again
      exact rest.unique again
termination_by structural first => first

theorem Collects.unique {busy : List (TypeId × String)} {ctx : Context} {rs : List TypeRef}
    {ids ids' : List TypeId} :
    w.Collects busy ctx rs ids → w.Collects busy ctx rs ids' → ids' = ids
  | .none, other => by cases other; rfl
  | .corpus resolved rest, other => by
    cases other with
    | corpus resolved' again =>
      cases resolved.unique resolved'
      rw [rest.unique again]
    | other resolved' outside => exact absurd (resolved.unique resolved') (outside _)
  | .other resolved outside rest, other => by
    cases other with
    | corpus resolved' => exact absurd (resolved.unique resolved').symm (outside _)
    | other _ _ again => exact rest.unique again
termination_by structural first => first

theorem Resolves.unique {busy : List (TypeId × String)} {ctx? : Option Context} {n : Name}
    {d d' : Option Decl} :
    w.Resolves busy ctx? n d → w.Resolves busy ctx? n d' → d' = d
  | .empty empty, other => by cases other <;> simp_all
  | .written named solved, other => by
    cases other with
    | empty => simp_all
    | written _ solved' => exact solved.unique solved'
    | bare _ unsolved => exact nomatch solved.unique unsolved
    | unknown _ unsolved => exact nomatch solved.unique unsolved
  | .bare named unsolved qualified again, other => by
    cases other with
    | empty => simp_all
    | written _ solved => exact nomatch unsolved.unique solved
    | bare _ _ _ again' => exact again.unique again'
    | unknown => simp_all
  | .unknown named unsolved simple, other => by
    cases other with
    | empty => simp_all
    | written _ solved => exact nomatch unsolved.unique solved
    | bare => simp_all
    | unknown => rfl
termination_by structural first => first

theorem Solves.unique {busy : List (TypeId × String)} {ctx? : Option Context} {n : Name}
    {d d' : Option Decl} :
    w.Solves busy ctx? n d → w.Solves busy ctx? n d' → d' = d
  | .anywhere, other => by cases other; rfl
  | .inside lexical descent, other => by
    cases other with
    | inside lexical' descent' =>
      have same := Option.some.inj (lexical.unique lexical')
      rw [same] at descent'
      rw [descent.unique descent']
    | outside unseen => exact nomatch lexical.unique unseen
  | .outside unseen, other => by
    cases other with
    | inside lexical => exact nomatch unseen.unique lexical
    | outside => rfl
termination_by structural first => first

theorem Sees.unique {busy : List (TypeId × String)} {ctx : Context} {name : String}
    {ts : List TypeId} {r r' : Option TypeId} :
    w.Sees busy ctx name ts r → w.Sees busy ctx name ts r' → r' = r
  | .itself called, other => by cases other <;> simp_all
  | .member differs found, other => by
    cases other with
    | itself => simp_all
    | member _ found' => exact found.unique found'
    | outward _ missing => exact nomatch found.unique missing
  | .outward differs missing rest, other => by
    cases other with
    | itself => simp_all
    | member _ found => exact nomatch missing.unique found
    | outward _ _ again => exact rest.unique again
  | .beyond, other => by cases other; rfl
termination_by structural first => first

theorem Descends.unique {busy : List (TypeId × String)} {t : TypeId} {path : List String}
    {r r' : Option TypeId} :
    w.Descends busy t path r → w.Descends busy t path r' → r' = r
  | .here, other => by cases other; rfl
  | .into found rest, other => by
    cases other with
    | into found' again =>
      rw [Option.some.inj (found.unique found')] at again
      exact rest.unique again
    | lost missing => exact nomatch found.unique missing
  | .lost missing, other => by
    cases other with
    | into found => exact nomatch missing.unique found
    | lost => rfl
termination_by structural first => first

end

section Layers

variable {busy : List (TypeId × String)} {search : MemberSearch}

theorem sees_lexical? {name : String} (asked : ∀ t, w.Finds busy t name (search t name))
    (ctx : Context) :
    w.Sees busy ctx name ctx.enclosing (w.lexical? search ctx name) := by
  unfold lexical?
  dsimp only
  generalize ctx.enclosing = around
  induction around with
  | nil => exact .beyond
  | cons t ts ih =>
    rw [List.findSome?_cons]
    cases called : (w.decl t).isNamed && (w.decl t).name == name with
    | true => exact .itself called
    | false =>
      have found := asked t
      cases answer : search t name with
      | some m =>
        rw [answer] at found
        exact .member called found
      | none =>
        rw [answer] at found
        exact .outward called found ih

theorem descends_descend? {path : List String}
    (asked : ∀ t, ∀ s ∈ path, w.Finds busy t s (search t s)) (t : TypeId) :
    w.Descends busy t path (descend? search t path) := by
  induction path generalizing t with
  | nil => exact .here
  | cons s ss ih =>
    have found := asked t s List.mem_cons_self
    rw [descend?]
    cases answer : search t s with
    | none =>
      rw [answer] at found
      exact .lost found
    | some u =>
      rw [answer] at found
      exact .into found (ih (fun t s listed => asked t s (List.mem_cons_of_mem _ listed)) u)

variable {n : Name} (asked : ∀ t, ∀ s ∈ n.segments, w.Finds busy t s (search t s))

include asked

theorem solves_solveWritten? (ctx? : Option Context) :
    w.Solves busy ctx? n (w.solveWritten? search ctx? n) := by
  cases ctx? with
  | none => exact .anywhere
  | some ctx =>
    have seen := sees_lexical? (fun t => asked t n.first List.mem_cons_self) ctx
    have inPath : ∀ s ∈ n.path, s ∈ n.segments := by
      intro s listed
      unfold Name.path at listed
      split at listed
      · cases listed
      · exact List.mem_cons_of_mem _ listed
    rw [solveWritten?]
    cases lexical : w.lexical? search ctx n.first with
    | none =>
      rw [lexical] at seen
      exact .outside seen
    | some t =>
      rw [lexical] at seen
      exact .inside seen (descends_descend? (fun t s listed => asked t s (inPath s listed)) t)

theorem resolves_resolveFirmWith? (ctx? : Option Context) :
    w.Resolves busy ctx? n (w.resolveFirmWith? search ctx? n) := by
  have written := solves_solveWritten? asked ctx?
  have bare : w.Solves busy ctx? n.bare (w.solveWritten? search ctx? n.bare) := by
    refine solves_solveWritten? (fun t s listed => asked t s ?_) ctx?
    have last : s = n.last := by simpa [Name.bare, Name.simple, Name.segments] using listed
    rw [last]
    exact List.mem_of_getLast? n.getLast?_segments
  rw [resolveFirmWith?]
  by_cases empty : n.isEmpty = true
  · rw [if_pos empty]
    exact .empty empty
  · rw [if_neg empty]
    rw [Bool.not_eq_true] at empty
    cases solved : w.solveWritten? search ctx? n with
    | some d =>
      rw [solved] at written
      exact .written empty written
    | none =>
      rw [solved] at written
      by_cases qualified : n.isQualified = true
      · rw [if_pos qualified, Option.none_or]
        exact .bare empty written qualified bare
      · rw [if_neg qualified, Option.none_or]
        exact .unknown empty written (Bool.eq_false_iff.2 qualified)

omit asked

theorem collects_corpusSupertypes {t : TypeId}
    (asked : ∀ u, ∀ r ∈ (w.decl t).supertypes, ∀ s ∈ r.name.segments,
      w.Finds busy u s (search u s)) :
    w.Collects busy (w.headerContext t) (w.decl t).supertypes (w.corpusSupertypes search t) := by
  unfold corpusSupertypes
  dsimp only
  generalize (w.decl t).supertypes = rs at asked
  induction rs with
  | nil => exact .none
  | cons r rs ih =>
    have resolved :=
      resolves_resolveFirmWith? (fun u => asked u r List.mem_cons_self) (some (w.headerContext t))
    have rest := ih fun u r listed => asked u r (List.mem_cons_of_mem _ listed)
    rw [List.filterMap_cons]
    cases answer : w.resolveFirmWith? search (some (w.headerContext t)) r.name with
    | none =>
      rw [answer] at resolved
      exact .other resolved (by simp) rest
    | some d =>
      rw [answer] at resolved
      cases d with
      | corpus id => exact .corpus resolved rest
      | library n => exact .other resolved (by simp) rest
      | placeholder p => exact .other resolved (by simp) rest

variable (name : String)
  (above : ∀ t, w.Collects busy (w.headerContext t) (w.decl t).supertypes
    (w.corpusSupertypes search t))

include above

-- The queue holds the rest of a level and then the next level as far as it is known.
theorem scans_scanLevel {depth levels : Nat} (near : depth ≤ hierarchyLimit)
    (deeper : ∀ visited next, w.Scans busy name visited (next.map (·, depth + 1))
      (w.inheritedMember? search name levels visited next)) (visited level next : List TypeId) :
    w.Scans busy name visited (level.map (·, depth) ++ next.map (·, depth + 1))
      (match w.scanLevel search name level visited next with
        | .inl m => some m
        | .inr (_, []) => none
        | .inr (visited, next) => w.inheritedMember? search name levels visited next) := by
  induction level generalizing visited next with
  | nil =>
    rw [scanLevel]
    cases next with
    | nil => exact .done
    | cons u us => exact deeper visited (u :: us)
  | cons t ts ih =>
    rw [scanLevel]
    by_cases passed : visited.contains t = true
    · rw [if_pos passed]
      exact .skip (.inl (List.contains_iff_mem.1 passed)) (ih visited next)
    · rw [if_neg passed]
      have new : t ∉ visited := fun listed => passed (List.contains_iff_mem.2 listed)
      cases declared : w.ownMember? t name with
      | some m => exact .hit new near declared
      | none =>
        apply Scans.expand new near declared (above t)
        have rest := ih (t :: visited) (next ++ w.corpusSupertypes search t)
        rwa [List.map_append, ← List.append_assoc] at rest

theorem scans_inheritedMember? {depth levels : Nat} (limit : depth + levels = hierarchyLimit + 1)
    (visited level : List TypeId) :
    w.Scans busy name visited (level.map (·, depth))
      (w.inheritedMember? search name levels visited level) := by
  induction levels generalizing depth visited level with
  | zero =>
    rw [inheritedMember?]
    induction level with
    | nil => exact .done
    | cons t ts ih => exact .skip (.inr (by omega)) ih
  | succ levels ih =>
    have deeper := ih (show depth + 1 + levels = hierarchyLimit + 1 by omega)
    have all :=
      scans_scanLevel name above (show depth ≤ hierarchyLimit by omega) deeper visited level []
    rwa [List.map_nil, List.append_nil] at all

end Layers

section Bound

variable (w) in
-- The types of the corpus.
def typeIds : List TypeId :=
  w.units.zipIdx.flatMap fun (u, i) => (List.range u.types.length).map fun j => ⟨i, j⟩

variable (w) in
-- How many pairs of a type and a segment of a supertype's name are not being searched for.
def unasked (busy : List (TypeId × String)) : Nat :=
  ((w.typeIds ×ˢ w.supertypeSegments).toFinset \ busy.toFinset).card

theorem mem_typeIds_of_supertype {t : TypeId} {r : TypeRef} (written : r ∈ (w.decl t).supertypes) :
    t ∈ w.typeIds ∧ ∀ s ∈ r.name.segments, s ∈ w.supertypeSegments := by
  unfold decl World.unit SourceUnit.type? at written
  cases isUnit : w.units[t.unit]? with
  | none =>
    rw [isUnit] at written
    cases written
  | some u =>
    rw [isUnit, Option.getD_some] at written
    cases isType : u.types[t.index]? with
    | none =>
      rw [isType] at written
      cases written
    | some d =>
      rw [isType, Option.getD_some] at written
      obtain ⟨below, _⟩ := List.getElem?_eq_some_iff.1 isType
      constructor
      · refine List.mem_flatMap.2 ⟨(u, t.unit), List.mk_mem_zipIdx_iff_getElem?.2 isUnit, ?_⟩
        exact List.mem_map.2 ⟨t.index, List.mem_range.2 below, rfl⟩
      · intro s listed
        refine List.mem_flatMap.2 ⟨u, List.mem_of_getElem? isUnit, ?_⟩
        exact List.mem_flatMap.2 ⟨d, List.mem_of_getElem? isType,
          List.mem_flatMap.2 ⟨r, written, listed⟩⟩

theorem unasked_cons_le (busy : List (TypeId × String)) (p : TypeId × String) :
    w.unasked (p :: busy) ≤ w.unasked busy := by
  apply Finset.card_le_card
  apply Finset.sdiff_subset_sdiff (Finset.Subset.refl _)
  rw [List.toFinset_cons]
  exact Finset.subset_insert _ _

theorem unasked_cons_lt {busy : List (TypeId × String)} {t : TypeId} {name : String}
    (isType : t ∈ w.typeIds) (known : name ∈ w.supertypeSegments) (free : (t, name) ∉ busy) :
    w.unasked ((t, name) :: busy) < w.unasked busy := by
  apply Finset.card_lt_card
  rw [List.toFinset_cons, Finset.sdiff_insert]
  apply Finset.erase_ssubset
  rw [Finset.mem_sdiff, List.mem_toFinset, List.mem_toFinset]
  exact ⟨List.mem_product.2 ⟨isType, known⟩, free⟩

theorem unasked_nil_lt : w.unasked [] + 1 < w.searchBound := by
  have pairs : w.unasked [] ≤ w.typeIds.length * w.supertypeSegments.length := by
    rw [unasked, List.toFinset_nil, Finset.sdiff_empty, ← List.length_product]
    exact List.toFinset_card_le _
  have count : w.typeIds.length = (w.units.flatMap (·.types)).length := by
    conv_rhs => rw [← List.zipIdx_map_fst 0 w.units, List.flatMap_map]
    simp [typeIds, List.length_flatMap]
  rw [count] at pairs
  rw [searchBound, Nat.mul_succ]
  omega

end Bound

theorem finds_of_nested {busy : List (TypeId × String)} {t : TypeId} {name : String}
    {search : MemberSearch} (undeclared : w.ownMember? t name = none) (free : (t, name) ∉ busy)
    (nested : ∀ u, ∀ s ∈ w.supertypeSegments, w.Finds ((t, name) :: busy) u s (search u s)) :
    w.Finds busy t name (w.inheritedMember? search name (hierarchyLimit + 1) [] [t]) := by
  refine .inherited undeclared free
    (scans_inheritedMember? name (fun u => ?_) (Nat.zero_add _) [] [t])
  exact collects_corpusSupertypes fun v r written s listed =>
    nested v s ((mem_typeIds_of_supertype written).2 s listed)

-- Outside the corpus there are no supertypes to go on with.
theorem finds_outside {busy : List (TypeId × String)} {t : TypeId} {name : String}
    {search : MemberSearch} (undeclared : w.ownMember? t name = none) (free : (t, name) ∉ busy)
    (outside : t ∉ w.typeIds) :
    w.Finds busy t name (w.inheritedMember? search name (hierarchyLimit + 1) [] [t]) := by
  have none : (w.decl t).supertypes = [] :=
    List.eq_nil_iff_forall_not_mem.2 fun r written => outside (mem_typeIds_of_supertype written).1
  have above : w.Collects ((t, name) :: busy) (w.headerContext t) (w.decl t).supertypes [] := by
    rw [none]
    exact .none
  have answer : w.inheritedMember? search name (hierarchyLimit + 1) [] [t] = Option.none := by
    simp [inheritedMember?, scanLevel, undeclared, corpusSupertypes, none]
  rw [answer]
  exact .inherited undeclared free (.expand (by simp) (Nat.zero_le _) undeclared above .done)

theorem finds_succ {fuel : Nat} {busy : List (TypeId × String)} {t : TypeId} {name : String}
    (search : w.ownMember? t name = none → (t, name) ∉ busy →
      w.Finds busy t name
        (w.inheritedMember? (w.memberSearch fuel ((t, name) :: busy)) name
          (hierarchyLimit + 1) [] [t])) :
    w.Finds busy t name (w.memberSearch (fuel + 1) busy t name) := by
  rw [memberSearch]
  cases declared : w.ownMember? t name with
  | some m => exact .own declared
  | none =>
    dsimp only
    by_cases started : busy.contains (t, name) = true
    · rw [if_pos started]
      exact .underWay declared (List.contains_iff_mem.1 started)
    · rw [if_neg started]
      exact search declared fun listed => started (List.contains_iff_mem.2 listed)

-- Each search that is started leaves one pair less.
theorem finds_memberSearch {fuel : Nat} {busy : List (TypeId × String)} {name : String}
    (known : name ∈ w.supertypeSegments) (enough : w.unasked busy < fuel) (t : TypeId) :
    w.Finds busy t name (w.memberSearch fuel busy t name) := by
  induction fuel generalizing busy name t with
  | zero => exact absurd enough (Nat.not_lt_zero _)
  | succ fuel ih =>
    apply finds_succ
    intro undeclared free
    by_cases isType : t ∈ w.typeIds
    · refine finds_of_nested undeclared free fun u s listed => ih listed ?_ u
      have fewer := unasked_cons_lt isType known free
      omega
    · exact finds_outside undeclared free isType

theorem finds_memberSearch_of_lt {fuel : Nat} {busy : List (TypeId × String)}
    (enough : w.unasked busy + 1 < fuel) (t : TypeId) (name : String) :
    w.Finds busy t name (w.memberSearch fuel busy t name) := by
  cases fuel with
  | zero => exact absurd enough (Nat.not_lt_zero _)
  | succ fuel =>
    apply finds_succ
    intro undeclared free
    refine finds_of_nested undeclared free fun u s listed => finds_memberSearch listed ?_ u
    have noMore := unasked_cons_le (w := w) busy (t, name)
    omega

variable (w) in
inductive Denotes : Option Context → Name → Option Decl → Prop
  | firm {ctx? n d} (resolved : w.Resolves [] ctx? n (some d)) : Denotes ctx? n (some d)
  | fallback {ctx? n} (unresolved : w.Resolves [] ctx? n none) :
    Denotes ctx? n (w.resolveFallback? n)

theorem finds_memberType? (t : TypeId) (name : String) : w.Finds [] t name (w.memberType? t name) :=
  finds_memberSearch_of_lt unasked_nil_lt t name

theorem resolves_resolveFirm? (ctx? : Option Context) (n : Name) :
    w.Resolves [] ctx? n (w.resolveFirm? ctx? n) :=
  resolves_resolveFirmWith? (fun t s _ => finds_memberType? t s) ctx?

theorem denotes_resolve? (ctx? : Option Context) (n : Name) :
    w.Denotes ctx? n (w.resolve? ctx? n) := by
  have resolved := resolves_resolveFirm? (w := w) ctx? n
  rw [resolve?]
  cases answer : w.resolveFirm? ctx? n with
  | some d =>
    rw [answer] at resolved
    exact .firm resolved
  | none =>
    rw [answer] at resolved
    exact .fallback resolved

theorem Denotes.unique {ctx? : Option Context} {n : Name} {d d' : Option Decl}
    (first : w.Denotes ctx? n d) (other : w.Denotes ctx? n d') : d' = d := by
  cases first with
  | firm resolved =>
    cases other with
    | firm resolved' => exact resolved.unique resolved'
    | fallback unresolved => exact nomatch resolved.unique unresolved
  | fallback unresolved =>
    cases other with
    | firm resolved => exact nomatch unresolved.unique resolved
    | fallback => rfl

/-- Every search, also one inside others, comes to an end with one answer; from the top these are
the answers of `memberType?`, `resolveFirm?` and `resolve?`. -/
theorem lookup_terminates (w : World) :
    (∀ busy t name, ∃! r, w.Finds busy t name r) ∧
    (∀ t name r, w.Finds [] t name r ↔ r = w.memberType? t name) ∧
    (∀ ctx? n d, w.Resolves [] ctx? n d ↔ d = w.resolveFirm? ctx? n) ∧
    (∀ ctx? n d, w.Denotes ctx? n d ↔ d = w.resolve? ctx? n) ∧
    ∀ extra, w.memberSearch (w.searchBound + extra) [] = w.memberType? := by
  refine ⟨fun busy t name => ?_, fun t name r => ⟨?_, ?_⟩, fun ctx? n d => ⟨?_, ?_⟩,
    fun ctx? n d => ⟨?_, ?_⟩, fun extra => ?_⟩
  · have ended := finds_memberSearch_of_lt (Nat.lt_succ_self (w.unasked busy + 1)) t name
    exact ⟨_, ended, fun r other => ended.unique other⟩
  · exact (finds_memberType? t name).unique
  · rintro rfl
    exact finds_memberType? t name
  · exact (resolves_resolveFirm? ctx? n).unique
  · rintro rfl
    exact resolves_resolveFirm? ctx? n
  · exact (denotes_resolve? ctx? n).unique
  · rintro rfl
    exact denotes_resolve? ctx? n
  · funext t name
    have enough : w.unasked [] + 1 < w.searchBound + extra := Nat.lt_add_right extra unasked_nil_lt
    exact (finds_memberType? t name).unique (finds_memberSearch_of_lt enough t name)

end World

end RefGraph

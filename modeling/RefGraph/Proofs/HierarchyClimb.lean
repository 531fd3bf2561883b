import RefGraph.Hierarchy

set_option autoImplicit false

namespace RefGraph

namespace World

variable (w : World)

/-- The types that wait for their turn, each with its distance, are gone through, given the
declarations met before. -/
inductive Climbs : List Decl → List (ClassType × Nat) → Ancestry → Prop
  | done {seen} : Climbs seen [] { found := [] }
  | again {seen c distance pending a} (met : c.decl ∈ seen) (rest : Climbs seen pending a) :
      Climbs seen ((c, distance) :: pending) a
  | far {seen c distance pending} (new : c.decl ∉ seen) (beyond : hierarchyLimit < distance) :
      Climbs seen ((c, distance) :: pending) { found := [], beyond := some c }
  | new {seen c distance pending a} (new : c.decl ∉ seen) (near : distance ≤ hierarchyLimit)
      (rest : Climbs (c.decl :: seen) (pending ++ (w.directSupertypes c).map (·, distance + 1)) a) :
      Climbs seen ((c, distance) :: pending) { a with found := c :: a.found }

variable {w}

theorem fresh_of_mem {seen : List Decl} {c : ClassType} {cs : List ClassType}
    (met : c.decl ∈ seen) :
    fresh seen (c :: cs) = fresh seen cs := by
  rw [fresh, if_pos (List.contains_iff_mem.2 met)]

theorem fresh_of_notMem {seen : List Decl} {c : ClassType} {cs : List ClassType}
    (new : c.decl ∉ seen) :
    fresh seen (c :: cs) = c :: fresh (c.decl :: seen) cs := by
  rw [fresh, if_neg (mt List.contains_iff_mem.1 new)]

namespace Climbs

theorem unique {seen : List Decl} {pending : List (ClassType × Nat)} {a a' : Ancestry}
    (first : w.Climbs seen pending a) (other : w.Climbs seen pending a') : a' = a := by
  induction first generalizing a' with
  | done =>
    cases other
    rfl
  | again met _ ih =>
    cases other with
    | again _ rest => exact ih rest
    | far new => exact absurd met new
    | new new => exact absurd met new
  | far new beyond =>
    cases other with
    | again met => exact absurd met new
    | far => rfl
    | new _ near => omega
  | new new near _ ih =>
    cases other with
    | again met => exact absurd met new
    | far _ beyond => omega
    | new _ _ rest => rw [ih rest]

-- Of the declarations met before it matters only which they are.
theorem congr {seen seen' : List Decl} {pending : List (ClassType × Nat)} {a : Ancestry}
    (climbs : w.Climbs seen pending a) (same : ∀ d, d ∈ seen ↔ d ∈ seen') :
    w.Climbs seen' pending a := by
  induction climbs generalizing seen' with
  | done => exact .done
  | again met _ ih => exact .again ((same _).1 met) (ih same)
  | far new beyond => exact .far (mt (same _).2 new) beyond
  | new new near _ ih =>
    apply Climbs.new (mt (same _).2 new) near
    apply ih
    intro d
    rw [List.mem_cons, List.mem_cons, same]

theorem level {distance : Nat} {a : Ancestry} (near : distance ≤ hierarchyLimit)
    (here : List ClassType) {seen : List Decl} {next : List (ClassType × Nat)}
    (rest : w.Climbs ((fresh seen here).map (·.decl) ++ seen)
      (next ++ ((fresh seen here).flatMap w.directSupertypes).map (·, distance + 1)) a) :
    w.Climbs seen (here.map (·, distance) ++ next)
      { a with found := fresh seen here ++ a.found } := by
  induction here generalizing seen next a with
  | nil => simpa [fresh] using rest
  | cons c cs ih =>
    rw [List.map_cons, List.cons_append]
    by_cases met : c.decl ∈ seen
    · rw [fresh_of_mem met] at rest ⊢
      exact .again met (ih rest)
    · rw [fresh_of_notMem met] at rest ⊢
      have same (d : Decl) : d ∈ (c :: fresh (c.decl :: seen) cs).map (·.decl) ++ seen ↔
          d ∈ (fresh (c.decl :: seen) cs).map (·.decl) ++ c.decl :: seen := by
        simp only [List.map_cons, List.cons_append, List.mem_append, List.mem_cons]
        grind
      have later := rest.congr same
      rw [List.flatMap_cons, List.map_append, ← List.append_assoc] at later
      have all := ih later
      rw [← List.append_assoc] at all
      exact .new met near all

theorem beyond (level : List ClassType) (seen : List Decl) :
    w.Climbs seen (level.map (·, hierarchyLimit + 1)) { found := [], beyond :=
      (fresh seen level).head? } := by
  induction level with
  | nil => exact .done
  | cons c cs ih =>
    by_cases met : c.decl ∈ seen
    · rw [fresh_of_mem met]
      exact .again met ih
    · rw [fresh_of_notMem met]
      exact .far met (Nat.lt_succ_self _)

theorem ancestryFrom {distance levels : Nat} (limit : distance + levels = hierarchyLimit + 1)
    (seen : List Decl) (level : List ClassType) :
    w.Climbs seen (level.map (·, distance)) (w.ancestryFrom levels seen level) := by
  induction levels generalizing distance seen level with
  | zero =>
    obtain rfl : distance = hierarchyLimit + 1 := limit
    exact beyond level seen
  | succ levels ih =>
    have near : distance ≤ hierarchyLimit := by omega
    have above := ih (show distance + 1 + levels = hierarchyLimit + 1 by omega)
    rw [World.ancestryFrom, ← List.append_nil (level.map (·, distance))]
    cases here : fresh seen level with
    | nil =>
      have all : w.Climbs seen (level.map (·, distance) ++ []) _ :=
        Climbs.level near level (by rw [here]; exact .done)
      rwa [here] at all
    | cons c cs =>
      have all : w.Climbs seen (level.map (·, distance) ++ []) _ :=
        Climbs.level near level (above _ _)
      rwa [here] at all

end Climbs

theorem climbs_iff {c : ClassType} {a : Ancestry} : w.Climbs [] [(c, 0)] a ↔ a = w.ancestry c := by
  have ends : w.Climbs [] [(c, 0)] (w.ancestry c) := Climbs.ancestryFrom (Nat.zero_add _) [] [c]
  constructor
  · exact ends.unique
  · rintro rfl
    exact ends

end World

end RefGraph

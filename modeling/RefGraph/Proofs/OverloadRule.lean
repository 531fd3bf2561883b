import Mathlib.Data.List.Nodup
import Mathlib.Data.Set.Subsingleton
import RefGraph.Proofs.Found
import RefGraph.Proofs.Makers
import RefGraph.Proofs.Renaming.Basic

set_option autoImplicit false

namespace RefGraph

def taking (cs : List Candidate) (count : Nat) :
    Set Candidate := {c | c ∈ cs ∧ Accepts c.params count}

theorem mem_filter_takes {cs : List Candidate} {count : Nat} {c : Candidate} :
    c ∈ cs.filter (·.takes count) ↔ c ∈ taking cs count := by
  rw [List.mem_filter, Candidate.takes_iff]
  rfl

namespace World

variable (w : World)

def Fits (a p : Option RType) : Prop := w.assignable a p = .ok true

def AllFit (as ps : List (Option RType)) : Prop := ∀ e ∈ as.zip ps, w.Fits e.1 e.2

def AppliesFixed (args : List (Option RType)) (c : Candidate) : Prop :=
  (w.paramTypes c).length = args.length ∧ w.AllFit args (w.paramTypes c)

def AppliesVariable (args : List (Option RType)) (c : Candidate) : Prop :=
  isVarargs c.params = true ∧ w.AllFit args (w.paramTypes c).dropLast ∧
    ∀ a ∈ args.drop ((w.paramTypes c).length - 1), ∀ e,
      (w.paramTypes c).getLast? = some (some (.array e)) →
      w.Fits a (some e)

/-- The candidates that the arguments can be passed to: one by one, or if there are none, with the
last parameter repeated. -/
def pool (args : List (Option RType)) (S : Set Candidate) : Set Candidate :=
  {c | c ∈ S ∧
    (w.AppliesFixed args c ∨ (∀ d ∈ S, ¬ w.AppliesFixed args d) ∧ w.AppliesVariable args c)}

/-- The candidates whose parameters can be passed to those of all the others. -/
def best (P : Set Candidate) : Set Candidate :=
  {c | c ∈ P ∧ ∀ d ∈ P, d ≠ c → w.AllFit (w.paramTypes c) (w.paramTypes d)}

/-- What a selection from a set of candidates that take the arguments comes to. -/
inductive Selects (name : String) (args : List (Option RType)) (S : Set Candidate) :
    Except Failure (Option Candidate) → Prop
  | nothing (empty : S = ∅) : Selects name args S (.ok none)
  | sole {c} (only : S = {c}) (unfit : w.pool args S = ∅) : Selects name args S (.ok (some c))
  | fitting {c} (one : w.pool args S = {c}) : Selects name args S (.ok (some c))
  | narrowest {c} (several : (w.pool args S).Nontrivial) (one : w.best (w.pool args S) = {c}) :
      Selects name args S (.ok (some c))
  | unfit (several : S.Nontrivial) (unfit : w.pool args S = ∅) :
      Selects name args S (.error (.unresolved (.overload name)))
  | ambiguous {texts} (several : (w.pool args S).Nontrivial)
      (tied : ∀ c, w.best (w.pool args S) ≠ {c}) (named : ∀ s, s ∈ texts ↔
        ∃ c ∈ w.pool args S, c.text = s) :
      Selects name args S (.error (.ambiguous name texts))

inductive Compares (args : List (Option RType)) (S : Set Candidate) :
    Option RType → Option RType → Prop
  | argument {a p c} (passed : a ∈ args) (among : c ∈ S) (listed : p ∈ w.paramTypes c) :
    Compares args S a p
  | element {a e c} (passed : a ∈ args) (among : c ∈ S)
      (listed : some (.array e) ∈ w.paramTypes c) :
      Compares args S a (some e)
  | parameter {a p c d} (among : c ∈ S) (among' : d ∈ S) (listed : a ∈ w.paramTypes c)
      (listed' : p ∈ w.paramTypes d) : Compares args S a p

/-- A comparison goes too far up a hierarchy, and with it ends the selection. -/
def GivesUp {α : Type} (args : List (Option RType)) (S : Set Candidate) (r : Except Failure α) :
    Prop :=
  ∃ a p far, w.Compares args S a p ∧ w.assignable a p = .error (w.tooFar far) ∧
    r = .error (w.tooFar far)

variable {w} {args : List (Option RType)} {S : Set Candidate}

theorem tooFar_of_isSubtype {sub sup : ClassType} {e : Failure}
    (failed : w.isSubtype sub sup = .error e) :
    ∃ far, e = w.tooFar far := by
  rw [isSubtype] at failed
  split at failed
  · cases failed
  · rcases error_of_bind failed with searched | ⟨_, _, answered⟩
    · exact tooFar_of_firstAbove searched
    · cases answered

theorem tooFar_of_passesAny {bounds : List RType} {param : RType} {e : Failure}
    (each : ∀ b ∈ bounds, ∀ e, w.passes b param = .error e → ∃ far, e = w.tooFar far)
    (failed : w.passesAny bounds param = .error e) : ∃ far, e = w.tooFar far := by
  induction bounds with
  | nil =>
    rw [passesAny] at failed
    cases failed
  | cons b bs ih =>
    rw [passesAny] at failed
    cases here : w.passes b param with
    | error e' =>
      rw [here] at failed
      cases failed
      exact each b List.mem_cons_self e here
    | ok passed =>
      rw [here] at failed
      cases passed with
      | true => cases failed
      | false => exact ih (fun c listed => each c (List.mem_cons_of_mem _ listed)) failed

-- The bounds of variables and wildcards and the elements of arrays are compared in their place.
theorem tooFar_of_passes {arg param : RType} {e : Failure}
    (failed : w.passes arg param = .error e) :
    ∃ far, e = w.tooFar far := by
  induction arg using RType.induction generalizing param e with
  | ref d args _ =>
    cases param with
    | ref f more => exact tooFar_of_isSubtype (by simpa [passes] using failed)
    | _ => simp [passes] at failed
  | array c ih =>
    cases param with
    | array b =>
      have inner (failed : w.passes c b = .error e) := ih failed
      cases c <;> cases b <;> simp_all [passes]
    | _ => simp [passes] at failed
  | bounded v b ih =>
    have inner : w.passes (.bounded v b) param = .ok true ∨
        w.passes (.bounded v b) param = w.passes b param := by
      cases param <;> simp [passes]
    rcases inner with inner | inner
    · cases inner.symm.trans failed
    · exact ih (inner ▸ failed)
  | var n bounds ih =>
    have inner : w.passes (.var n bounds) param = .ok true ∨
        w.passes (.var n bounds) param = w.passesAny bounds param := by
      cases param with
      | unbounded | bounded | var => simp [passes]
      | _ =>
        simp only [passes]
        split <;> simp
    rcases inner with inner | inner
    · cases inner.symm.trans failed
    · exact tooFar_of_passesAny (fun b listed _ => ih b listed) (inner ▸ failed)
  | prim | unbounded | null => cases param <;> simp [passes] at failed

theorem tooFar_of_assignable {a p : Option RType} {e : Failure}
    (failed : w.assignable a p = .error e) :
    ∃ far, e = w.tooFar far := by
  cases a <;> cases p <;> first | cases failed | exact tooFar_of_passes failed

theorem GivesUp.of_bind {α β : Type} {x : Except Failure α} {f : α → Except Failure β}
    (stops : w.GivesUp args S x) : w.GivesUp args S (x >>= f) := by
  obtain ⟨a, p, far, compared, failed, rfl⟩ := stops
  exact ⟨a, p, far, compared, failed, rfl⟩

variable (w args S) in
structure Decides (test : Except Failure Bool) (P : Prop) : Prop where
  passed : test = .ok true ↔ P
  failed : ∀ e, test = .error e → w.GivesUp args S test

namespace Decides

theorem yes : w.Decides args S (.ok true) True := ⟨by simp, by simp⟩

theorem no : w.Decides args S (.ok false) False := ⟨by simp, by simp⟩

theorem assignable {a p : Option RType} (compared : w.Compares args S a p) :
    w.Decides args S (w.assignable a p) (w.Fits a p) := by
  refine ⟨Iff.rfl, fun e failed => ?_⟩
  obtain ⟨far, rfl⟩ := tooFar_of_assignable failed
  exact ⟨a, p, far, compared, failed, failed⟩

theorem iff {test : Except Failure Bool} {P Q : Prop} (decides : w.Decides args S test P)
    (same : P ↔ Q) :
    w.Decides args S test Q :=
  ⟨decides.passed.trans same, decides.failed⟩

-- The second test is made only if the first is passed.
theorem and {test : Except Failure Bool} {next : Except Failure Bool} {P Q : Prop}
    (first : w.Decides args S test P) (second : w.Decides args S next Q) :
    w.Decides args S (do if ← test then next else return false) (P ∧ Q) := by
  cases test with
  | error e =>
    have stops := first.failed e rfl
    have fails : ¬ P := fun holds => by cases first.passed.2 holds
    refine ⟨⟨fun passed => ?_, fun both => absurd both.1 fails⟩, fun _ _ => stops.of_bind⟩
    cases passed
  | ok b =>
    cases b with
    | false =>
      have fails : ¬ P := fun holds => by cases first.passed.2 holds
      exact no.iff ⟨False.elim, fun both => fails both.1⟩
    | true => exact second.iff ⟨fun holds => ⟨first.passed.1 rfl, holds⟩, And.right⟩

theorem allM {α : Type} {test : α → Except Failure Bool} {P : α → Prop} {xs : List α}
    (each : ∀ x ∈ xs, w.Decides args S (test x) (P x)) :
    w.Decides args S (xs.allM test) (∀ x ∈ xs, P x) := by
  induction xs with
  | nil => exact yes.iff ⟨fun _ _ listed => by simp at listed, fun _ => trivial⟩
  | cons x xs ih =>
    have rest := ih fun y listed => each y (List.mem_cons_of_mem _ listed)
    have both := (each x List.mem_cons_self).and rest
    have unfolded : (x :: xs).allM test = (do if ← test x then xs.allM test else return false) := by
      rw [List.allM]
      congr 1
      funext b
      cases b <;> rfl
    rw [unfolded]
    exact both.iff List.forall_mem_cons.symm

theorem allAssignable {as ps : List (Option RType)}
    (compared : ∀ a ∈ as, ∀ p ∈ ps, w.Compares args S a p) :
    w.Decides args S (w.allAssignable as ps) (w.AllFit as ps) := by
  induction as generalizing ps with
  | nil => exact yes.iff (by simp [AllFit])
  | cons a as ih =>
    cases ps with
    | nil => exact yes.iff (by simp [AllFit])
    | cons p ps =>
      have here := assignable (compared a List.mem_cons_self p List.mem_cons_self)
      have rest := ih fun b listed q listed' =>
        compared b (List.mem_cons_of_mem _ listed) q (List.mem_cons_of_mem _ listed')
      exact (here.and rest).iff (by simp [AllFit])

theorem fixedArity {c : Candidate} (among : c ∈ S) :
    w.Decides args S (w.fixedArity args (w.choice c)) (w.AppliesFixed args c) := by
  have fit :
      w.Decides args S (w.allAssignable args (w.paramTypes c)) (w.AllFit args (w.paramTypes c)) :=
    allAssignable fun _ passed _ listed => .argument passed among listed
  rw [World.fixedArity, World.choice]
  split
  next same => exact fit.iff ⟨fun holds => ⟨same, holds⟩, And.right⟩
  next other => exact no.iff ⟨False.elim, fun holds => other holds.1⟩

-- The elements of the last parameter are unknown unless it is known to be an array.
theorem variableArity {c : Candidate} (among : c ∈ S) :
    w.Decides args S (w.variableArity args (w.choice c)) (w.AppliesVariable args c) := by
  have fixed : w.Decides args S (w.allAssignable args (w.paramTypes c).dropLast)
      (w.AllFit args (w.paramTypes c).dropLast) :=
    allAssignable fun _ passed _ listed => .argument passed among (List.dropLast_subset _ listed)
  have rest {element : Option RType}
      (known : ∀ e, element = some e ↔ (w.paramTypes c).getLast? = some (some (.array e))) :
      w.Decides args S ((args.drop (w.paramTypes c).dropLast.length).allM fun a =>
        w.assignable a element) (∀ a ∈ args.drop ((w.paramTypes c).length - 1), ∀ e,
          (w.paramTypes c).getLast? = some (some (.array e)) → w.Fits a (some e)) := by
    rw [List.length_dropLast]
    refine allM fun a passed => ?_
    cases element with
    | none =>
      have unknown : w.assignable a none = .ok true := by cases a <;> rfl
      rw [unknown]
      refine yes.iff ⟨fun _ e last => ?_, fun _ => trivial⟩
      cases (known e).2 last
    | some e =>
      have last := (known e).1 rfl
      have compared :=
        Compares.element (List.mem_of_mem_drop passed) among (List.mem_of_getLast? last)
      refine (assignable compared).iff ⟨fun fits f last' => ?_, fun fits => fits e last⟩
      obtain rfl : e = f := by simpa [last] using last'
      exact fits
  rw [World.variableArity]
  split
  next varargs =>
    refine (fixed.and (rest fun e => ?_)).iff ⟨fun both => ⟨varargs, both⟩, And.right⟩
    simp only [World.choice]
    split <;> simp_all
  next fixedOnly => exact no.iff ⟨False.elim, fun applies => fixedOnly applies.1⟩

theorem moreSpecific {c d : Candidate} (among : c ∈ S) (among' : d ∈ S) :
    w.Decides args S (w.moreSpecific (w.choice c) (w.choice d))
      (w.AllFit (w.paramTypes c) (w.paramTypes d)) :=
  allAssignable fun _ listed _ listed' => .parameter among among' listed listed'

theorem filterM {α : Type} {test : α → Except Failure Bool} {P : α → Prop} (xs : List α)
    (each : ∀ x ∈ xs, w.Decides args S (test x) (P x)) :
    w.GivesUp args S (xs.filterM test) ∨
      ∃ ys, xs.filterM test = .ok ys ∧ ys.Sublist xs ∧ ∀ x, x ∈ ys ↔ x ∈ xs ∧ P x := by
  -- The kept elements are collected in reverse, after those of before.
  have collect (xs kept : List α) (each : ∀ x ∈ xs, w.Decides args S (test x) (P x)) :
      w.GivesUp args S (xs.filterAuxM test kept) ∨
        ∃ ys : List α, xs.filterAuxM test kept = .ok (ys.reverse ++ kept) ∧ ys.Sublist xs ∧
          ∀ x, x ∈ ys ↔ x ∈ xs ∧ P x := by
    induction xs generalizing kept with
    | nil => exact .inr ⟨[], rfl, .refl _, by simp⟩
    | cons x xs ih =>
      have here := each x List.mem_cons_self
      rw [List.filterAuxM]
      cases tested : test x with
      | error e => exact .inl (tested ▸ here.failed e tested).of_bind
      | ok passes =>
        have holds : passes = true ↔ P x := by
          rw [← here.passed, tested, Except.ok.injEq]
        rcases ih (bif passes then x :: kept else kept) fun y listed =>
          each y (List.mem_cons_of_mem _ listed) with
          stops | ⟨ys, done, below, among⟩
        · exact .inl stops
        · cases passes with
          | true =>
            refine .inr ⟨x :: ys, ?_, below.cons_cons x, fun y => ?_⟩
            · rw [List.reverse_cons, List.append_assoc]
              exact done
            have isHeld := holds.1 rfl
            simp only [List.mem_cons, among]
            grind
          | false =>
            refine .inr ⟨ys, done, below.cons x, fun y => ?_⟩
            have notHeld : ¬ P x := by simp [← holds]
            simp only [List.mem_cons, among]
            grind
  rcases collect xs [] each with stops | ⟨ys, done, below, among⟩
  · exact .inl stops.of_bind
  · refine .inr ⟨ys, ?_, below, among⟩
    rw [List.filterM, done, List.append_nil]
    exact congrArg Except.ok ys.reverse_reverse

end Decides

theorem choice_injective : Function.Injective w.choice :=
  fun _ _ same => congrArg Choice.candidate same

-- Candidates and their choices are kept alike.
theorem filterM_choices {test : Choice → Except Failure Bool} {Q : Candidate → Prop}
    {T : List Candidate} (each : ∀ c ∈ T, w.Decides args S (test (w.choice c)) (Q c)) :
    w.GivesUp args S ((T.map w.choice).filterM test) ∨
      ∃ P : List Candidate, (T.map w.choice).filterM test = .ok (P.map w.choice) ∧ P.Sublist T ∧
        ∀ c, c ∈ P ↔ c ∈ T ∧ Q c := by
  have tests : ∀ x ∈ T.map w.choice, w.Decides args S (test x) (Q x.candidate) := by
    intro x listed
    obtain ⟨c, among, rfl⟩ := List.mem_map.1 listed
    exact each c among
  rcases Decides.filterM _ tests with stops | ⟨ys, done, below, among⟩
  · exact .inl stops
  · obtain ⟨P, inside, rfl⟩ := List.sublist_map_iff.1 below
    refine .inr ⟨P, done, inside, fun c => ?_⟩
    have kept := among (w.choice c)
    rwa [List.mem_map_of_injective choice_injective,
      List.mem_map_of_injective choice_injective] at kept

theorem applicable_choices {T : List Candidate} (members : ∀ c, c ∈ T ↔ c ∈ S) :
    w.GivesUp args S (w.applicable args (T.map w.choice)) ∨
      ∃ P : List Candidate, w.applicable args (T.map w.choice) = .ok (P.map w.choice) ∧
        P.Sublist T ∧
        ∀ c, c ∈ P ↔ c ∈ w.pool args S := by
  have oneByOne :
      ∀ c ∈ T, w.Decides args S (w.fixedArity args (w.choice c)) (w.AppliesFixed args c) :=
    fun c listed => .fixedArity ((members c).1 listed)
  have repeated :
      ∀ c ∈ T, w.Decides args S (w.variableArity args (w.choice c)) (w.AppliesVariable args c) :=
    fun c listed => .variableArity ((members c).1 listed)
  rw [applicable]
  rcases filterM_choices oneByOne with stops | ⟨P, done, below, among⟩
  · exact .inl stops.of_bind
  · rw [done]
    cases P with
    | cons c P =>
      refine .inr ⟨c :: P, rfl, below, fun d => ?_⟩
      have first := (among c).1 List.mem_cons_self
      rw [among, members]
      refine and_congr_right fun _ => ⟨.inl, fun applies => ?_⟩
      exact applies.resolve_right fun none => none.1 c ((members c).1 first.1) first.2
    | nil =>
      have none : ∀ d ∈ S, ¬ w.AppliesFixed args d := by
        intro d listed applies
        simpa using (among d).2 ⟨(members d).2 listed, applies⟩
      rcases filterM_choices repeated with stops | ⟨P, done, below, among⟩
      · exact .inl stops
      · refine .inr ⟨P, done, below, fun d => ?_⟩
        rw [among, members]
        exact and_congr_right fun listed => ⟨fun applies => .inr ⟨none, applies⟩,
          fun applies => (applies.resolve_left (none d listed)).2⟩

-- Different positions hold different candidates, so the others are those at the other positions.
theorem decides_beatsOthers {P : List Candidate} (nodup : P.Nodup) (below : ∀ c ∈ P, c ∈ S)
    {i : Nat} {c : Candidate} (here : P[i]? = some c) :
    w.Decides args S (w.beatsOthers (P.map w.choice) i (w.choice c))
      (∀ d ∈ P, d ≠ c → w.AllFit (w.paramTypes c) (w.paramTypes d)) := by
  have among := below c (List.mem_of_getElem? here)
  have listed {x : Choice × Nat} : x ∈ (P.map w.choice).zipIdx.filter (fun d => d.2 != i) ↔
      ∃ d, P[x.2]? = some d ∧ d ≠ c ∧ w.choice d = x.1 := by
    obtain ⟨x, j⟩ := x
    rw [List.mem_filter, List.mk_mem_zipIdx_iff_getElem?, List.getElem?_map, Option.map_eq_some_iff]
    constructor
    · rintro ⟨⟨d, there, rfl⟩, apart⟩
      refine ⟨d, there, ?_, rfl⟩
      rintro rfl
      have inside := (List.getElem?_eq_some_iff.1 here).1
      have same := (List.getElem?_inj inside nodup).1 (here.trans there.symm)
      simp [same] at apart
    · rintro ⟨d, there, other, rfl⟩
      refine ⟨⟨d, there, rfl⟩, ?_⟩
      have apart : j ≠ i := by
        rintro rfl
        exact other (Option.some.inj (there.symm.trans here))
      simpa using apart
  have each : ∀ x ∈ (P.map w.choice).zipIdx.filter (fun d => d.2 != i),
      w.Decides args S (w.moreSpecific (w.choice c) x.1) (w.AllFit (w.paramTypes c) x.1.types) := by
    intro x inPool
    obtain ⟨d, there, -, same⟩ := listed.1 inPool
    rw [← same]
    exact .moreSpecific among (below d (List.mem_of_getElem? there))
  refine (Decides.allM each).iff ⟨fun all d inP other => ?_, fun all x inPool => ?_⟩
  · obtain ⟨j, there⟩ := List.getElem?_of_mem inP
    exact all (w.choice d, j) (listed.2 ⟨d, there, other, rfl⟩)
  · obtain ⟨d, there, other, same⟩ := listed.1 inPool
    rw [← same]
    exact all d (List.mem_of_getElem? there) other

theorem mostSpecific_choices {P : List Candidate} (nodup : P.Nodup) (below : ∀ c ∈ P, c ∈ S) :
    w.GivesUp args S (w.mostSpecific (P.map w.choice)) ∨
      ∃ B : List Candidate, w.mostSpecific (P.map w.choice) = .ok (B.map w.choice) ∧ B.Sublist P ∧
        ∀ c, c ∈ B ↔ c ∈ P ∧ ∀ d ∈ P, d ≠ c → w.AllFit (w.paramTypes c) (w.paramTypes d) := by
  have listed {x : Choice × Nat} (inPool : x ∈ (P.map w.choice).zipIdx) :
      ∃ c, P[x.2]? = some c ∧ w.choice c = x.1 := by
    rw [List.mem_zipIdx_iff_getElem?, List.getElem?_map, Option.map_eq_some_iff] at inPool
    exact inPool
  have each :
      ∀ x ∈ (P.map w.choice).zipIdx, w.Decides args S (w.beatsOthers (P.map w.choice) x.2 x.1)
        (∀ d ∈ P, d ≠ x.1.candidate → w.AllFit x.1.types (w.paramTypes d)) := by
    intro x inPool
    obtain ⟨c, here, same⟩ := listed inPool
    rw [← same]
    exact decides_beatsOthers nodup below here
  rw [mostSpecific]
  rcases Decides.filterM _ each with stops | ⟨ys, done, within, among⟩
  · exact .inl stops.of_bind
  · have kept : (ys.map (·.1)).Sublist (P.map w.choice) := by
      simpa using within.map (·.1)
    obtain ⟨B, inside, same⟩ := List.sublist_map_iff.1 kept
    refine .inr ⟨B, by rw [done]; exact congrArg Except.ok same, inside, fun c => ?_⟩
    rw [← List.mem_map_of_injective (w.choice_injective), ← same]
    constructor
    · intro chosen
      obtain ⟨x, inBest, isChoice⟩ := List.mem_map.1 chosen
      obtain ⟨inPool, beats⟩ := (among x).1 inBest
      obtain ⟨d, here, made⟩ := listed inPool
      obtain rfl : d = c := choice_injective (made.trans isChoice)
      rw [← made] at beats
      exact ⟨List.mem_of_getElem? here, beats⟩
    · rintro ⟨inP, beats⟩
      obtain ⟨i, here⟩ := List.getElem?_of_mem inP
      refine List.mem_map.2 ⟨(w.choice c, i), (among _).2 ⟨?_, beats⟩, rfl⟩
      rw [List.mk_mem_zipIdx_iff_getElem?, List.getElem?_map, here, Option.map_some]

theorem pool_subset : w.pool args S ⊆ S := fun _ listed => listed.1

namespace Selects

variable {name : String}

-- The cases of the rule exclude each other.
theorem unique {r r' : Except Failure (Option Candidate)} (first : w.Selects name args S r)
    (other : w.Selects name args S r') : r.mapError Failure.kind = r'.mapError Failure.kind := by
  have empty (none : S = ∅) : w.pool args S = ∅ := Set.subset_empty_iff.1 (none ▸ pool_subset)
  cases first <;> cases other <;> simp_all [Except.mapError, Failure.kind]

end Selects

-- How many elements a set has is seen on a list of them.
theorem eq_empty_of_list {A : Set Candidate} (members : ∀ c, c ∈ ([] : List Candidate) ↔ c ∈ A) :
    A = ∅ :=
  Set.eq_empty_of_forall_notMem fun c listed => by simpa using (members c).2 listed

theorem eq_singleton_of_list {A : Set Candidate} {c : Candidate} (members : ∀ d, d ∈ [c] ↔ d ∈ A) :
    A = {c} :=
  Set.ext fun d => by rw [← members, List.mem_singleton, Set.mem_singleton_iff]

theorem nontrivial_of_list {A : Set Candidate} {c d : Candidate} {cs : List Candidate}
    (nodup : (c :: d :: cs).Nodup) (members : ∀ e, e ∈ c :: d :: cs ↔ e ∈ A) : A.Nontrivial := by
  refine ⟨c, (members c).1 (by simp), d, (members d).1 (by simp), ?_⟩
  rintro rfl
  simp at nodup

-- Without exactly one best candidate the call is ambiguous, and all that are left are named.
theorem selects_ambiguous {name : String} {P B : List Candidate} {c d : Candidate}
    (nodup : (c :: d :: P).Nodup) (members : ∀ e, e ∈ c :: d :: P ↔ e ∈ w.pool args S)
    (nodupBest : B.Nodup) (tied : B.length ≠ 1)
    (isBest : ∀ e, e ∈ B ↔ e ∈ w.best (w.pool args S)) :
    w.Selects name args S
      (.error (.ambiguous name (((c :: d :: P).map w.choice).map (·.candidate.text)))) := by
  refine .ambiguous (nontrivial_of_list nodup members) (fun e one => ?_) fun s => ?_
  · cases B with
    | nil =>
      have listed := (isBest e).2 (one ▸ Set.mem_singleton e)
      simp at listed
    | cons f B =>
      cases B with
      | nil => simp at tied
      | cons g B => exact Set.not_nontrivial_singleton (one ▸ nontrivial_of_list nodupBest isBest)
  · simp only [List.map_map, List.mem_map, members]
    rfl

theorem selects_select {name : String} {cs : List Candidate} (distinct : cs.Nodup) :
    w.GivesUp args (taking cs args.length) (w.select name cs args) ∨
      w.Selects name args (taking cs args.length) (w.select name cs args) := by
  rw [select]
  have members (c : Candidate) : c ∈ cs.filter (·.takes args.length) ↔ c ∈ taking cs args.length :=
    mem_filter_takes
  have nodup := distinct.filter (·.takes args.length)
  generalize taking cs args.length = S at *
  generalize cs.filter (·.takes args.length) = T at *
  cases T with
  | nil => exact .inr (.nothing (eq_empty_of_list members))
  | cons c T =>
    dsimp only
    rcases (applicable_choices members : w.GivesUp args S _ ∨ _) with stops
      | ⟨P, done, below, among⟩
    · exact .inl stops.of_bind
    · rw [done]
      cases P with
      | nil =>
        have unfit := eq_empty_of_list among
        cases T with
        | nil => exact .inr (.sole (eq_singleton_of_list members) unfit)
        | cons d T => exact .inr (.unfit (nontrivial_of_list nodup members) unfit)
      | cons c P =>
        cases P with
        | nil => exact .inr (.fitting (eq_singleton_of_list among))
        | cons d P =>
          have nodupPool := below.nodup nodup
          show w.GivesUp args S (w.mostSpecific _ >>= _) ∨
            w.Selects name args S (w.mostSpecific _ >>= _)
          rcases mostSpecific_choices nodupPool fun e listed =>
            pool_subset ((among e).1 listed) with
            stops | ⟨B, specific, within, beats⟩
          · exact .inl stops.of_bind
          · have isBest (e : Candidate) : e ∈ B ↔ e ∈ w.best (w.pool args S) := by
              simp only [beats, among]
              rfl
            have ambiguous (tied : B.length ≠ 1) :
                w.Selects name args S (.error (.ambiguous name _)) :=
              selects_ambiguous nodupPool among (within.nodup nodupPool) tied isBest
            rw [List.map_cons] at specific
            right
            rw [specific]
            cases B with
            | nil => exact ambiguous (by simp)
            | cons e B =>
              cases B with
              | nil =>
                exact .narrowest (nontrivial_of_list nodupPool among) (eq_singleton_of_list isBest)
              | cons f B => exact ambiguous (by simp)

/-- The selection follows the rule, and is the same for all lists of which the same candidates take
the arguments. -/
theorem select_follows_rule (w : World) (name : String) (cs : List Candidate)
    (args : List (Option RType)) (distinct : (cs.map Candidate.member).Nodup) :
    (w.GivesUp args (taking cs args.length) (w.select name cs args) ∨
        w.Selects name args (taking cs args.length) (w.select name cs args)) ∧
      ∀ others : List Candidate, (others.map Candidate.member).Nodup →
        taking others args.length = taking cs args.length →
        ¬ w.GivesUp args (taking cs args.length) (w.select name cs args) →
        ¬ w.GivesUp args (taking others args.length) (w.select name others args) →
        (w.select name others args).mapError Failure.kind =
          (w.select name cs args).mapError Failure.kind := by
  have apart : cs.Nodup := .of_map _ distinct
  refine ⟨selects_select apart, fun others distinct' same within within' => ?_⟩
  have rule := (selects_select apart).resolve_left within
  have rule' := (selects_select (.of_map _ distinct')).resolve_left within'
  rw [same] at rule'
  exact rule'.unique rule

-- `class A {} class B extends A {} class C { f(A) f(B) f(A...) f(A, B) }`
def overloads : World :=
  let method (types : List String) (varargs : Bool) : Method :=
    { name := "f", params := types.map fun s => { name := "x", type := .simple s, varargs } }
  { units := [SourceUnit.ofTypes [
      TypeDecl.ofClass "A" [] [], TypeDecl.ofClass "B" [.simple "A"] [],
      TypeDecl.ofClass "C" [] [method ["A"] false, method ["B"] false, method ["A"] true,
        method ["A", "B"] false]]] }

def overloadsOfC : List Candidate := overloads.declaredMethods "f" ⟨.corpus ⟨0, 2⟩, []⟩

-- A value of `B` fits `f(A)` and `f(B)` one by one; `f(B)` is meant, in whatever order.
theorem select_follows_rule_overloads :
    (overloadsOfC.map Candidate.member).Nodup ∧
      (overloads.select "f" overloadsOfC [some (.ref (.corpus ⟨0, 1⟩) [])]).toOption.map
        (·.map Candidate.text) =
        some (some "f(B)") ∧
      (overloads.select "f" overloadsOfC.reverse [some (.ref (.corpus ⟨0, 1⟩) [])]).mapError
        Failure.kind =
        (overloads.select "f" overloadsOfC [some (.ref (.corpus ⟨0, 1⟩) [])]).mapError
          Failure.kind := by
  have distinct : (overloadsOfC.map Candidate.member).Nodup := by
    have raw :
        ((overloadsOfC.map Candidate.member).map fun m => rawTypes m.member.params).Nodup := by
      decide +kernel
    exact List.Nodup.of_map _ raw
  have chosen : (overloads.select "f" overloadsOfC [some (.ref (.corpus ⟨0, 1⟩) [])]).toOption.map
      (·.map Candidate.text) = some (some "f(B)") := by
    decide +kernel
  have chosen' :
      (overloads.select "f" overloadsOfC.reverse [some (.ref (.corpus ⟨0, 1⟩) [])]).toOption.map
      (·.map Candidate.text) = some (some "f(B)") := by
    decide +kernel
  refine ⟨distinct, chosen, (select_follows_rule _ _ _ _ distinct).2 _ ?_ ?_ ?_ ?_⟩
  · rw [List.map_reverse]
    exact List.nodup_reverse.2 distinct
  · exact Set.ext fun c => and_congr_left' List.mem_reverse
  · rintro ⟨a, p, far, -, -, failed⟩
    rw [failed] at chosen
    cases chosen
  · rintro ⟨a, p, far, -, -, failed⟩
    rw [failed] at chosen'
    cases chosen'

end World

end RefGraph

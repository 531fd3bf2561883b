import Mathlib.Data.List.Perm.Basic
import RefGraph.Inference
import RefGraph.Proofs.Makers
import RefGraph.Proofs.Renaming.Basic
import RefGraph.Proofs.SupertypeSearch

set_option autoImplicit false

namespace RefGraph

namespace Candidate

structure AllWrittenAs (c : Candidate) (name : String) : Prop where
  declared : name ∈ c.member.member.typeParams.map (·.name)
  written : ∀ p ∈ c.params, p.effectiveType = .ofName (.simple name)

end Candidate

namespace World

variable (w : World)

def evidence (args : List (Option RType)) : List RType :=
  args.filterMap fun a => (a.filter (· ≠ .null)).map w.boxed

def widen (name : String) (t x : RType) : Except Failure RType := do
  if ← w.passes t x then return x
  else if ← w.passes x t then return t
  else throw (.conflicting name [w.describe t, w.describe x])

def settle (name : String) : List RType → Except Failure (Bindings RType)
  | [] => .ok {}
  | t :: ts => (ts.foldlM (w.widen name) t).map (({} : Bindings RType).set name)

def Related (x y : RType) : Prop := w.passes x y = .ok true ∨ w.passes y x = .ok true

def AllRelated (ts : List RType) : Prop := ∀ x ∈ ts, ∀ y ∈ ts, w.Related x y

/-- Whether one of the types can be passed as another is known, for each two of them. -/
def Decided (ts : List RType) : Prop := ∀ x ∈ ts, ∀ y ∈ ts, ∃ b, w.passes x y = .ok b

/-- What can be passed on can be passed at once. -/
def Chained (ts : List RType) : Prop :=
  ∀ x ∈ ts, ∀ y ∈ ts, ∀ z ∈ ts, w.passes x y = .ok true → w.passes y z = .ok true →
    w.passes x z = .ok true

def TakesAll (ts : List RType) (t : RType) : Prop := t ∈ ts ∧ ∀ x ∈ ts, w.passes x t = .ok true

def Conflicts (c : Candidate) (name : String) (args : List (Option RType)) (explicit : List RType) :
    Prop :=
  ∃ texts, w.infer c args explicit = .error (.conflicting name texts)

def BindsAbove (c : Candidate) (name : String) (args : List (Option RType))
    (explicit : List RType) : Prop :=
  ∀ b, w.infer c args explicit = .ok b → ∀ x ∈ w.evidence args,
    ∃ t, b.get? name = some t ∧ w.passes x t = .ok true

variable {w} {name : String}

theorem isSubtype_self (c : ClassType) : w.isSubtype c c = .ok true := by
  obtain ⟨rest, found⟩ := List.head?_eq_some_iff.1 (head?_found (w := w) c)
  unfold isSubtype
  split
  · rfl
  · simp [firstAbove_eq, Ancestry.first, found]

theorem passes_self (t : RType) : w.passes t t = .ok true := by
  induction t using RType.induction with
  | ref d args _ => rw [passes, isSubtype_self]
  | array t ih => cases t <;> simp_all [passes]
  | prim p => cases p <;> rfl
  | _ => simp [passes]

theorem ne_of_unrelated {x y : RType} (apart : ¬ w.Related x y) : x ≠ y := by
  rintro rfl
  exact apart (.inl (passes_self x))

theorem widen_cases {ts : List RType} (decided : w.Decided ts) (name : String) {t x : RType}
    (here : t ∈ ts) (next : x ∈ ts) :
    w.widen name t x = .ok x ∧ w.passes t x = .ok true ∨
      w.widen name t x = .ok t ∧ w.passes x t = .ok true ∨
      (∃ texts, w.widen name t x = .error (.conflicting name texts)) ∧ ¬ w.Related t x := by
  obtain ⟨up, isUp⟩ := decided t here x next
  obtain ⟨down, isDown⟩ := decided x next t here
  rw [widen, Related, isUp, isDown]
  cases up with
  | true => exact .inl ⟨rfl, rfl⟩
  | false =>
    cases down with
    | true => exact .inr (.inl ⟨rfl, rfl⟩)
    | false => exact .inr (.inr ⟨⟨_, rfl⟩, by simp⟩)

section

variable {ts xs : List RType} {t : RType} (decided : w.Decided ts) (here : t ∈ ts)
    (within : xs ⊆ ts)

include decided here within

-- A run gives one of the types, or ends with two that are unrelated.
theorem foldlM_widen_cases (name : String) :
    (∃ g ∈ ts, xs.foldlM (w.widen name) t = .ok g) ∨
      (∃ texts, xs.foldlM (w.widen name) t = .error (.conflicting name texts)) ∧
        ∃ x ∈ ts, ∃ y ∈ ts, ¬ w.Related x y := by
  induction xs generalizing t with
  | nil => exact .inl ⟨t, here, rfl⟩
  | cons x xs ih =>
    obtain ⟨next, within⟩ := List.cons_subset.1 within
    rw [List.foldlM_cons]
    rcases widen_cases decided name here next with ⟨step, -⟩ | ⟨step, -⟩ | ⟨⟨texts, step⟩, apart⟩
    · rw [step]
      exact ih next within
    · rw [step]
      exact ih here within
    · rw [step]
      exact .inr ⟨⟨texts, rfl⟩, t, here, x, next, apart⟩

variable (chained : w.Chained ts)

include chained

theorem above_of_foldlM_widen {g : RType} (done : xs.foldlM (w.widen name) t = .ok g) :
    g ∈ ts ∧ ∀ x ∈ t :: xs, w.passes x g = .ok true := by
  induction xs generalizing t with
  | nil =>
    cases done
    exact ⟨here, by simpa using passes_self _⟩
  | cons x xs ih =>
    obtain ⟨next, within⟩ := List.cons_subset.1 within
    rw [List.foldlM_cons] at done
    rcases widen_cases decided name here next with ⟨step, up⟩ | ⟨step, down⟩ | ⟨⟨texts, step⟩, -⟩
    · rw [step] at done
      obtain ⟨kept, above⟩ := ih next within done
      obtain ⟨widest, rest⟩ := List.forall_mem_cons.1 above
      exact ⟨kept, List.forall_mem_cons.2 ⟨chained t here x next g kept up widest, above⟩⟩
    · rw [step] at done
      obtain ⟨kept, above⟩ := ih here within done
      obtain ⟨widest, rest⟩ := List.forall_mem_cons.1 above
      exact ⟨kept, List.forall_mem_cons.2
        ⟨widest, List.forall_mem_cons.2 ⟨chained x next t here g kept down widest, rest⟩⟩⟩
    · rw [step] at done
      cases done

-- From a type that takes all the others, a run only moves to types that do so too.
theorem foldlM_widen_of_takesAll (name : String) (widest : ∀ x ∈ ts, w.passes x t = .ok true) :
    ∃ g, xs.foldlM (w.widen name) t = .ok g := by
  induction xs generalizing t with
  | nil => exact ⟨t, rfl⟩
  | cons x xs ih =>
    obtain ⟨next, within⟩ := List.cons_subset.1 within
    rw [List.foldlM_cons]
    rcases widen_cases decided name here next with ⟨step, up⟩ | ⟨step, -⟩ | ⟨-, apart⟩
    · rw [step]
      exact ih next within fun y listed => chained y listed t here x next (widest y listed) up
    · rw [step]
      exact ih here within widest
    · exact absurd (.inr (widest x next)) apart

end

theorem evidence_null (args : List (Option RType)) :
    w.evidence (some .null :: args) = w.evidence args := by
  simp [evidence]

theorem evidence_some {a : RType} (told : a ≠ .null) (args : List (Option RType)) :
    w.evidence (some a :: args) = w.boxed a :: w.evidence args := by
  simp [evidence, Option.filter, told]

theorem unify_ofName {names : List String} (declared : name ∈ names) (inferred : Bindings RType)
    (a : RType) :
    w.unify names inferred (.ofName (.simple name)) a = w.bind name a inferred := by
  simp [TypeRef.ofName, unify, RType.peel?, TypeHead.name, Name.simple, Name.isQualified, declared]

theorem bind_null (name : String) (inferred : Bindings RType) :
    w.bind name .null inferred = .ok inferred := by
  simp [World.bind]

theorem bind_first {a : RType} (told : a ≠ .null) (name : String) :
    w.bind name a {} = .ok (({} : Bindings RType).set name (w.boxed a)) := by
  simp [World.bind, told]

theorem bind_next {a : RType} (told : a ≠ .null) (name : String) (t : RType) :
    w.bind name a (({} : Bindings RType).set name t) =
      (w.widen name t (w.boxed a)).map (({} : Bindings RType).set name) := by
  have replaced (x : RType) :
      (({} : Bindings RType).set name t).set name x = ({} : Bindings RType).set name x := by
    simp [Bindings.set]
  simp only [World.bind, if_neg told, Bindings.get?_set_self, widen, replaced]
  cases w.passes t (w.boxed a) with
  | error e => rfl
  | ok up =>
    cases up with
    | true => rfl
    | false =>
      cases w.passes (w.boxed a) t with
      | error e => rfl
      | ok down => cases down <;> rfl

section

variable {c : Candidate} (uniform : c.AllWrittenAs name)

include uniform

theorem writtenFor?_eq {i : Nat} (within : i < c.params.length) (a : RType) :
    writtenFor? c.params i a = some (.ofName (.simple name)) := by
  have written := uniform.written _ (List.getElem_mem within)
  have single : c.params[i].varargs = false := by
    cases isVarargs : c.params[i].varargs with
    | false => rfl
    | true =>
      have dims := congrArg TypeRef.dims written
      simp [Param.effectiveType, isVarargs, TypeRef.addDims, TypeRef.ofName] at dims
  simp [writtenFor?, within, single, written]

theorem inferFrom_next {entries : List (Option RType × Nat)}
    (within : ∀ e ∈ entries, e.2 < c.params.length) (t : RType) :
    w.inferFrom (c.member.member.typeParams.map (·.name)) c.params
      (({} : Bindings RType).set name t) entries =
      ((w.evidence (entries.map (·.1))).foldlM (w.widen name) t).map
        (({} : Bindings RType).set name) := by
  induction entries generalizing t with
  | nil => rfl
  | cons e entries ih =>
    obtain ⟨a, i⟩ := e
    obtain ⟨here, later⟩ := List.forall_mem_cons.1 within
    cases a with
    | none => exact ih later t
    | some a =>
      simp only [inferFrom, writtenFor?_eq uniform here, unify_ofName uniform.declared,
        List.map_cons]
      by_cases told : a = .null
      · subst told
        rw [bind_null, evidence_null]
        exact ih later t
      · rw [bind_next told, evidence_some told, List.foldlM_cons]
        cases w.widen name t (w.boxed a) with
        | error e => rfl
        | ok t => exact ih later t

theorem inferFrom_eq {entries : List (Option RType × Nat)}
    (within : ∀ e ∈ entries, e.2 < c.params.length) :
    w.inferFrom (c.member.member.typeParams.map (·.name)) c.params {} entries =
      w.settle name (w.evidence (entries.map (·.1))) := by
  induction entries with
  | nil => rfl
  | cons e entries ih =>
    obtain ⟨a, i⟩ := e
    obtain ⟨here, later⟩ := List.forall_mem_cons.1 within
    cases a with
    | none => exact ih later
    | some a =>
      simp only [inferFrom, writtenFor?_eq uniform here, unify_ofName uniform.declared,
        List.map_cons]
      by_cases told : a = .null
      · subst told
        rw [bind_null, evidence_null]
        exact ih later
      · rw [bind_first told, evidence_some told]
        exact inferFrom_next uniform later _

theorem infer_eq {args : List (Option RType)} {explicit : List RType}
    (fewer : args.length ≤ c.params.length)
    (unwritten : explicit.length ≠ c.member.member.typeParams.length) :
    w.infer c args explicit = (w.settle name (w.evidence args)).map (w.bindings c.on).merge := by
  have some : (c.member.member.typeParams.map (·.name)).isEmpty = false := by
    rw [List.isEmpty_eq_false_iff_exists_mem]
    exact ⟨name, uniform.declared⟩
  have within : ∀ e ∈ args.zipIdx, e.2 < c.params.length := by
    rintro ⟨a, i⟩ listed
    have := (List.mem_zipIdx listed).2.1
    simp at this ⊢
    omega
  have inferred := inferFrom_eq (w := w) uniform within
  rw [List.zipIdx_map_fst] at inferred
  have implicit :
      (!explicit.isEmpty && explicit.length == c.member.member.typeParams.length) = false := by
    simp [unwritten]
  simp only [infer, some, List.length_map, implicit, inferred]
  cases w.settle name (w.evidence args) <;> rfl

end

section

variable {ts : List RType} (decided : w.Decided ts)

include decided

theorem settle_cases (name : String) :
    (∃ b, w.settle name ts = .ok b) ∨
      (∃ texts, w.settle name ts = .error (.conflicting name texts)) ∧
        ∃ x ∈ ts, ∃ y ∈ ts, ¬ w.Related x y := by
  cases ts with
  | nil => exact .inl ⟨{}, rfl⟩
  | cons t ts =>
    rcases foldlM_widen_cases decided List.mem_cons_self (List.subset_cons_self t ts) name with
      ⟨g, -, done⟩ | ⟨⟨texts, stopped⟩, apart⟩
    · exact .inl ⟨({} : Bindings RType).set name g, by rw [settle, done]; rfl⟩
    · exact .inr ⟨⟨texts, by rw [settle, stopped]; rfl⟩, apart⟩

theorem takesAll_of_settle (chained : w.Chained ts) (some : ts ≠ []) {b : Bindings RType}
    (done : w.settle name ts = .ok b) : ∃ g, w.TakesAll ts g ∧
      b = ({} : Bindings RType).set name g := by
  cases ts with
  | nil => exact absurd rfl some
  | cons t ts =>
    rw [settle] at done
    cases run : ts.foldlM (w.widen name) t with
    | error e =>
      rw [run] at done
      cases done
    | ok g =>
      rw [run] at done
      exact ⟨g, above_of_foldlM_widen decided List.mem_cons_self (List.subset_cons_self t ts)
        chained run, (Except.ok.inj done).symm⟩

end

theorem settle_of_takesAll {t : RType} {ts : List RType} (decided : w.Decided (t :: ts))
    (chained : w.Chained (t :: ts)) (widest : w.TakesAll (t :: ts) t) (name : String) :
    ∃ b, w.settle name (t :: ts) = .ok b := by
  obtain ⟨g, done⟩ :=
    foldlM_widen_of_takesAll decided List.mem_cons_self (List.subset_cons_self t ts) chained
      name widest.2
  exact ⟨_, by rw [settle, done]; rfl⟩

theorem settle_of_unrelated {x y : RType} {ts : List RType} (decided : w.Decided (x :: y :: ts))
    (apart : ¬ w.Related x y) (name : String) :
    ∃ texts, w.settle name (x :: y :: ts) = .error (.conflicting name texts) := by
  rcases widen_cases decided name List.mem_cons_self
    (List.mem_cons_of_mem x List.mem_cons_self) with
    ⟨-, up⟩ | ⟨-, down⟩ | ⟨⟨texts, stopped⟩, -⟩
  · exact absurd (.inl up) apart
  · exact absurd (.inr down) apart
  · exact ⟨texts, by rw [settle, List.foldlM_cons, stopped]; rfl⟩

theorem Decided.perm {ts us : List RType} (decided : w.Decided ts) (moved : us.Perm ts) :
    w.Decided us :=
  fun x here y there => decided x (moved.subset here) y (moved.subset there)

theorem Chained.perm {ts us : List RType} (chained : w.Chained ts) (moved : us.Perm ts) :
    w.Chained us :=
  fun x xs y ys z zs => chained x (moved.subset xs) y (moved.subset ys) z (moved.subset zs)

theorem TakesAll.perm {ts us : List RType} {t : RType} (widest : w.TakesAll ts t)
    (moved : us.Perm ts) :
    w.TakesAll us t :=
  ⟨moved.symm.subset widest.1, fun x here => widest.2 x (moved.subset here)⟩

theorem evidence_perm {args other : List (Option RType)} (moved : other.Perm args) :
    (w.evidence other).Perm (w.evidence args) := moved.filterMap _

-- An argument that tells a type can be brought to the front.
theorem exists_perm_of_mem_evidence {args : List (Option RType)} {x : RType}
    (told : x ∈ w.evidence args) :
    ∃ a rest, (a :: rest).Perm args ∧ ∀ more, w.evidence (a :: more) = x :: w.evidence more := by
  obtain ⟨a, passed, gives⟩ := List.mem_filterMap.1 told
  refine ⟨a, args.erase a, (List.perm_cons_erase passed).symm, fun more => ?_⟩
  rw [evidence, List.filterMap_cons, gives]
  rfl

theorem eq_of_length_le_two {ts : List RType} (few : ts.length ≤ 2) {x y z : RType} (xs : x ∈ ts)
    (ys : y ∈ ts) (zs : z ∈ ts) : x = y ∨ y = z ∨ z = x := by
  rcases ts with _ | ⟨a, _ | ⟨b, _ | ⟨c, ts⟩⟩⟩
  · cases xs
  · simp_all
  · rw [List.mem_pair] at xs ys zs
    rcases xs with rfl | rfl <;> rcases ys with rfl | rfl <;> rcases zs with rfl | rfl <;> simp
  · simp at few

theorem chained_of_length_le_two {ts : List RType} (few : ts.length ≤ 2) : w.Chained ts := by
  intro x xs y ys z zs up on
  rcases eq_of_length_le_two few xs ys zs with rfl | rfl | rfl
  · exact on
  · exact up
  · exact passes_self z

theorem allRelated_of_length_le_two {ts : List RType} (few : ts.length ≤ 2) {t : RType}
    (widest : w.TakesAll ts t) :
    w.AllRelated ts := by
  intro x xs y ys
  rcases eq_of_length_le_two few xs ys widest.1 with rfl | rfl | rfl
  · exact .inl (passes_self x)
  · exact .inl (widest.2 x xs)
  · exact .inr (widest.2 y ys)

section

variable {c : Candidate} (uniform : c.AllWrittenAs name) {args : List (Option RType)}
    {explicit : List RType}
  (fewer : args.length ≤ c.params.length) (unwritten : explicit.length ≠
    c.member.member.typeParams.length)

include uniform fewer unwritten

theorem infer_ok_iff : (∃ b, w.infer c args explicit = .ok b) ↔
    ∃ b, w.settle name (w.evidence args) = .ok b := by
  rw [infer_eq uniform fewer unwritten]
  cases w.settle name (w.evidence args) <;> simp [Except.map]

theorem conflicts_iff : w.Conflicts c name args explicit ↔
    ∃ texts, w.settle name (w.evidence args) = .error (.conflicting name texts) := by
  rw [Conflicts, infer_eq uniform fewer unwritten]
  cases w.settle name (w.evidence args) <;> simp [Except.map]

variable (decided : w.Decided (w.evidence args))

include decided

theorem conflicts_iff_not_ok : w.Conflicts c name args explicit ↔
    ¬ ∃ b, w.infer c args explicit = .ok b := by
  rw [conflicts_iff uniform fewer unwritten, infer_ok_iff uniform fewer unwritten]
  rcases settle_cases decided name with ⟨b, done⟩ | ⟨⟨texts, stopped⟩, -⟩
  · simp [done]
  · simp [stopped]

theorem bindsAbove_of_chained (chained : w.Chained (w.evidence args)) :
    w.BindsAbove c name args explicit := by
  intro b done x told
  rw [infer_eq uniform fewer unwritten] at done
  cases settled : w.settle name (w.evidence args) with
  | error e =>
    rw [settled] at done
    cases done
  | ok inferred =>
    rw [settled] at done
    cases done
    obtain ⟨g, ⟨-, widest⟩, rfl⟩ :=
      takesAll_of_settle decided chained (List.ne_nil_of_mem told) settled
    exact ⟨g, by simp [Bindings.merge, Bindings.setAll, Bindings.set, Bindings.get?], widest x told⟩

theorem every_order_settles_iff :
    (∀ other, other.Perm args → ∃ b, w.infer c other explicit = .ok b) ↔
      w.AllRelated (w.evidence args) := by
  constructor
  · intro settles x xs y ys
    by_contra apart
    -- The two arguments first, and the conflict shows at once.
    obtain ⟨a, rest, front, tells⟩ := exists_perm_of_mem_evidence xs
    have later : y ∈ w.evidence rest := by
      have listed := (evidence_perm (w := w) front).symm.subset ys
      rw [tells, List.mem_cons] at listed
      exact listed.resolve_left (ne_of_unrelated apart).symm
    obtain ⟨a', rest', next, tells'⟩ := exists_perm_of_mem_evidence later
    have moved : (a :: a' :: rest').Perm args := (next.cons a).trans front
    have decided' := decided.perm (evidence_perm moved)
    obtain ⟨b, done⟩ :=
      (infer_ok_iff uniform (moved.length_eq ▸ fewer) unwritten).1 (settles _ moved)
    rw [tells, tells'] at done decided'
    obtain ⟨texts, stopped⟩ := settle_of_unrelated decided' apart name
    cases done.symm.trans stopped
  · intro related other moved
    refine (infer_ok_iff uniform (moved.length_eq ▸ fewer) unwritten).2 ?_
    rcases settle_cases (decided.perm (evidence_perm moved)) name with done
      | ⟨-, x, xs, y, ys, apart⟩
    · exact done
    · exact absurd
        (related x ((evidence_perm moved).subset xs) y ((evidence_perm moved).subset ys)) apart

theorem every_order_conflicts_iff (chained : w.Chained (w.evidence args)) :
    (∀ other, other.Perm args → w.Conflicts c name other explicit) ↔
      w.evidence args ≠ [] ∧ ∀ t, ¬ w.TakesAll (w.evidence args) t := by
  constructor
  · intro conflicts
    constructor
    · intro nothing
      obtain ⟨texts, stopped⟩ :=
        (conflicts_iff uniform fewer unwritten).1 (conflicts args (.refl args))
      rw [nothing] at stopped
      cases stopped
    · intro t widest
      -- The type that takes all the others first, and nothing conflicts with it.
      obtain ⟨a, rest, front, tells⟩ := exists_perm_of_mem_evidence widest.1
      have moved := evidence_perm (w := w) front
      obtain ⟨texts, stopped⟩ :=
        (conflicts_iff uniform (front.length_eq ▸ fewer) unwritten).1 (conflicts _ front)
      have decided' := decided.perm moved
      have chained' := chained.perm moved
      have widest' := widest.perm moved
      rw [tells] at stopped decided' chained' widest'
      obtain ⟨b, done⟩ := settle_of_takesAll decided' chained' widest' name
      cases done.symm.trans stopped
  · rintro ⟨some, none⟩ other moved
    have moved' := evidence_perm (w := w) moved
    have fewer' : other.length ≤ c.params.length := moved.length_eq ▸ fewer
    rw [conflicts_iff_not_ok uniform fewer' unwritten (decided.perm moved'),
      infer_ok_iff uniform fewer' unwritten]
    rintro ⟨b, done⟩
    have some' : w.evidence other ≠ [] := fun nothing => some (List.nil_perm.1 (nothing ▸ moved'))
    obtain ⟨g, widest, -⟩ :=
      takesAll_of_settle (decided.perm moved') (chained.perm moved') some' done
    exact none g (widest.perm moved'.symm)

theorem order_free_iff (chained : w.Chained (w.evidence args)) :
    (∀ other, other.Perm args →
      (w.Conflicts c name other explicit ↔ w.Conflicts c name args explicit)) ↔
      w.AllRelated (w.evidence args) ∨ ∀ t, ¬ w.TakesAll (w.evidence args) t := by
  have settles := every_order_settles_iff uniform fewer unwritten decided
  have conflicts := every_order_conflicts_iff uniform fewer unwritten decided chained
  have failed {other : List (Option RType)} (moved : other.Perm args) :=
    conflicts_iff_not_ok uniform (moved.length_eq ▸ fewer) unwritten
      (decided.perm (evidence_perm moved))
  constructor
  · intro same
    by_cases here : w.Conflicts c name args explicit
    · exact .inr (conflicts.1 fun other moved => (same other moved).2 here).2
    · refine .inl (settles.1 fun other moved => ?_)
      exact not_not.1 fun fails => here ((same other moved).1 ((failed moved).2 fails))
  · intro either other moved
    have either : w.AllRelated (w.evidence args) ∨ w.evidence args ≠ [] ∧
        ∀ t, ¬ w.TakesAll (w.evidence args) t := by
      by_cases nothing : w.evidence args = []
      · exact .inl (by simp [AllRelated, nothing])
      · exact either.imp_right fun none => ⟨nothing, none⟩
    rw [← settles, ← conflicts] at either
    rcases either with done | stops
    · rw [failed moved, failed (.refl args)]
      exact iff_of_false (not_not.2 (done other moved)) (not_not.2 (done args (.refl args)))
    · exact iff_of_true (stops other moved) (stops args (.refl args))

end

/-- Where all parameters are written as one type parameter, every order of the arguments goes
through exactly if each two of the types that they tell are related. -/
theorem inference_in_any_order (w : World) (c : Candidate) (name : String)
    (args : List (Option RType)) (explicit : List RType) (uniform : c.AllWrittenAs name)
    (fewer : args.length ≤ c.params.length)
    (unwritten : explicit.length ≠ c.member.member.typeParams.length)
    (decided : w.Decided (w.evidence args)) :
    ((∀ other, other.Perm args → ∃ b, w.infer c other explicit = .ok b) ↔
      w.AllRelated (w.evidence args)) ∧
    ((w.evidence args).length ≤ 2 → w.BindsAbove c name args explicit ∧
      ∀ other, other.Perm args →
        (w.Conflicts c name other explicit ↔ w.Conflicts c name args explicit)) ∧
    (w.Chained (w.evidence args) → w.BindsAbove c name args explicit ∧
      ((∀ other, other.Perm args → w.Conflicts c name other explicit) ↔
        w.evidence args ≠ [] ∧ ∀ t, ¬ w.TakesAll (w.evidence args) t) ∧
      ((∀ other, other.Perm args →
        (w.Conflicts c name other explicit ↔ w.Conflicts c name args explicit)) ↔
        w.AllRelated (w.evidence args) ∨ ∀ t, ¬ w.TakesAll (w.evidence args) t)) := by
  refine ⟨every_order_settles_iff uniform fewer unwritten decided, fun few => ?_, fun chained => ?_⟩
  · have chained : w.Chained (w.evidence args) := chained_of_length_le_two few
    have either : w.AllRelated (w.evidence args) ∨ ∀ t, ¬ w.TakesAll (w.evidence args) t := by
      by_cases taken : ∃ t, w.TakesAll (w.evidence args) t
      · obtain ⟨t, widest⟩ := taken
        exact .inl (allRelated_of_length_le_two few widest)
      · exact .inr (not_exists.1 taken)
    exact ⟨bindsAbove_of_chained uniform fewer unwritten decided chained,
      (order_free_iff uniform fewer unwritten decided chained).2 either⟩
  · exact ⟨bindsAbove_of_chained uniform fewer unwritten decided chained,
      every_order_conflicts_iff uniform fewer unwritten decided chained,
      order_free_iff uniform fewer unwritten decided chained⟩

-- `class A {} class B extends A {} class C {} class D { <T> void pick(T x, T y, T z, T u) {} }`
def picks : World :=
  { units := [SourceUnit.ofTypes [
      TypeDecl.ofClass "A" [] [], TypeDecl.ofClass "B" [.simple "A"] [], TypeDecl.ofClass "C" [] [],
      TypeDecl.ofClass "D" [] [{
        name := "pick"
        params := ["x", "y", "z", "u"].map fun s => { name := s, type := .simple "T" }
        typeParams := [{ name := "T" }] }]]] }

def pick : Candidate :=
  let id : TypeId := ⟨0, 3⟩
  ⟨⟨id, .method ((picks.decl id).methods.headD default)⟩, ⟨.corpus id, []⟩⟩

def pickClass (i : Nat) : RType := .ref (.corpus ⟨0, i⟩) []

theorem pick_allWrittenAs : pick.AllWrittenAs "T" where
  declared := by decide
  written := by
    have types : pick.params.map (·.effectiveType) = List.replicate 4 (.ofName (.simple "T")) := rfl
    intro p listed
    exact List.eq_of_mem_replicate (types ▸ List.mem_map_of_mem listed)

-- `B`, the top class and `A`, with an argument of unknown type among them.
theorem inference_in_any_order_picks :
    let args := [some (pickClass 1), some picks.top.toType, none, some (pickClass 0)]
    picks.Decided (picks.evidence args) ∧ picks.Chained (picks.evidence args) ∧
      (∀ other, other.Perm args → ∃ b, picks.infer pick other [] = .ok b) ∧
      picks.BindsAbove pick "T" args [] := by
  intro args
  let rank (t : RType) : Nat := [pickClass 1, pickClass 0, picks.top.toType].idxOf t
  have compared : ∀ x ∈ picks.evidence args, ∀ y ∈ picks.evidence args,
      picks.passes x y = .ok (decide (rank x ≤ rank y)) := by
    have told : picks.evidence args = [pickClass 1, picks.top.toType, pickClass 0] := rfl
    rw [told]
    intro x xs y ys
    simp only [List.mem_cons, List.not_mem_nil, or_false] at xs ys
    rcases xs with rfl | rfl | rfl <;> rcases ys with rfl | rfl | rfl <;> rfl
  have decided : picks.Decided (picks.evidence args) := fun x xs y ys => ⟨_, compared x xs y ys⟩
  have chained : picks.Chained (picks.evidence args) := by
    intro x xs y ys z zs
    rw [compared x xs y ys, compared y ys z zs, compared x xs z zs]
    simp only [Except.ok.injEq, decide_eq_true_iff]
    exact Nat.le_trans
  obtain ⟨settles, -, binds⟩ :=
    inference_in_any_order picks pick "T" args [] pick_allWrittenAs (by decide) (by decide) decided
  refine ⟨decided, chained, settles.2 fun x xs y ys => ?_, (binds chained).1⟩
  rw [Related, compared x xs y ys, compared y ys x xs]
  simpa using Nat.le_total (rank x) (rank y)

-- `A` and `C` are unrelated, but are not compared with a type variable or the top between them.
theorem inference_in_any_order_masked :
    let u : RType := .var "U" []
    picks.passes (pickClass 0) (pickClass 2) = .ok false ∧
      picks.Conflicts pick "T" [some (pickClass 0), some (pickClass 2), some u, none] [] ∧
      (∃ b, picks.infer pick [some (pickClass 0), some u, some (pickClass 2), none] [] = .ok b ∧
        b.get? "T" = some (pickClass 2)) ∧
      picks.Conflicts pick "T" [some (pickClass 0), some (pickClass 2),
        some picks.top.toType, none] [] ∧
      ∃ b, picks.infer pick [some (pickClass 0), some picks.top.toType, some (pickClass 2), none]
        [] = .ok b :=
  ⟨rfl, ⟨_, rfl⟩, ⟨_, rfl, rfl⟩, ⟨_, rfl⟩, _, rfl⟩

end World

end RefGraph

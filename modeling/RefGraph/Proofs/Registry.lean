import RefGraph.Placeholder

set_option autoImplicit false

namespace RefGraph

namespace Registry

def ofList (rs : List (Name × Int)) : Registry := rs.foldl (fun r e => (r.register e.1 e.2).1) {}

def keys (rs : List (Name × Int)) : List Name := rs.flatMap fun e => keysOf e.1

def best? (rs : List (Name × Int)) (s : String) : Option Placeholder :=
  widest? ((rs.filter fun e => e.1.last == s).map fun e => ⟨e.1, e.2⟩)

theorem get?_cons (e : Name × Placeholder) (es : List (Name × Placeholder)) (k : Name) :
    (⟨e :: es⟩ : Registry).get? k = if e.1 = k then some e.2 else (⟨es⟩ : Registry).get? k := by
  by_cases here : e.1 = k <;> simp [get?, here]

theorem get?_repoint (es : List (Name × Placeholder)) (old : List Placeholder) (p : Placeholder)
    (k : Name) :
    ((⟨es⟩ : Registry).repoint old p).get? k =
      ((⟨es⟩ : Registry).get? k).map fun q => if q ∈ old then p else q := by
  simp only [repoint, List.contains_iff_mem]
  induction es with
  | nil => rfl
  | cons e es ih =>
    rw [List.map_cons, get?_cons, get?_cons, ih]
    by_cases here : e.1 = k <;> by_cases moved : e.2 ∈ old <;> simp [here, moved]

theorem get?_replace (es : List (Name × Placeholder)) (n k : Name) (p : Placeholder) :
    (⟨es.map fun e => if e.1 = n then (n, p) else e⟩ : Registry).get? k =
      if k = n then ((⟨es⟩ : Registry).get? k).map fun _ => p else (⟨es⟩ : Registry).get? k := by
  induction es with
  | nil => simp [get?]
  | cons e es ih =>
    rw [List.map_cons, get?_cons, get?_cons, ih]
    by_cases here : e.1 = n <;> by_cases asked : k = n <;> by_cases same : e.1 = k <;> simp_all

theorem get?_set (r : Registry) (n k : Name) (p : Placeholder) :
    (r.set n p).get? k = if k = n then some p else r.get? k := by
  unfold set
  split
  next present =>
    obtain ⟨q, held⟩ := Option.isSome_iff_exists.1 present
    rw [get?_replace]
    by_cases asked : k = n
    · simp [asked, held]
    · simp [asked]
  next absent =>
    have missing : r.get? n = none := by simpa [contains] using absent
    rw [get?, List.find?_append, Option.map_or, ← get?]
    by_cases asked : k = n
    · simp [asked, missing]
    · have other : n ≠ k := fun same => asked same.symm
      simp [asked, other]

theorem last_of_mem_keysOf {n k : Name} (listed : k ∈ keysOf n) : k.last = n.last := by
  unfold keysOf at listed
  split at listed
  · rw [List.mem_singleton.1 listed]
  · rcases List.mem_cons.1 listed with rfl | rest
    · rfl
    · rw [List.mem_singleton.1 rest, Name.last_bare]

theorem bare_mem_keysOf (n : Name) : n.bare ∈ keysOf n := by
  unfold keysOf
  split
  next same => simp [same]
  next => simp

theorem get?_setAll (r : Registry) (p : Placeholder) (ks : List Name) (k : Name) :
    (ks.foldl (fun r k => r.set k p) r).get? k = if k ∈ ks then some p else r.get? k := by
  induction ks generalizing r with
  | nil => simp
  | cons j js ih =>
    rw [List.foldl_cons, ih, get?_set]
    by_cases first : k = j <;> by_cases later : k ∈ js <;> simp [first, later]

theorem widest?_append (ps qs : List Placeholder) :
    widest? (ps ++ qs) = match widest? ps, widest? qs with
      | none, found => found
      | some p, none => some p
      | some p, some q => some (if q.arity ≤ p.arity then p else q) := by
  induction ps with
  | nil => rfl
  | cons p ps ih =>
    rw [List.cons_append, widest?, ih, widest?]
    cases widest? ps <;> cases widest? qs <;> grind

theorem mem_of_widest? {ps : List Placeholder} {p : Placeholder} (found : widest? ps = some p) :
    p ∈ ps := by
  induction ps with
  | nil => cases found
  | cons q ps ih => grind [widest?]

theorem widest?_eq_none {ps : List Placeholder} (none : widest? ps = none) : ps = [] := by
  cases ps with
  | nil => rfl
  | cons p ps => grind [widest?]

theorem mem_keys {rs : List (Name × Int)} {k : Name} : k ∈ keys rs ↔ ∃ e ∈ rs, k ∈ keysOf e.1 := by
  simp [keys]

theorem mem_of_best? {rs : List (Name × Int)} {s : String} {p : Placeholder}
    (held : best? rs s = some p) :
    (p.name, p.arity) ∈ rs := by
  obtain ⟨e, kept, rfl⟩ := List.mem_map.1 (mem_of_widest? held)
  exact (List.mem_filter.1 kept).1

theorem last_of_best? {rs : List (Name × Int)} {s : String} {p : Placeholder}
    (held : best? rs s = some p) :
    p.name.last = s := by
  obtain ⟨e, kept, rfl⟩ := List.mem_map.1 (mem_of_widest? held)
  simpa using (List.mem_filter.1 kept).2

theorem best?_append (rs more : List (Name × Int)) (s : String) :
    best? (rs ++ more) s = match best? rs s, best? more s with
      | none, found => found
      | some p, none => some p
      | some p, some q => some (if q.arity ≤ p.arity then p else q) := by
  rw [best?, List.filter_append, List.map_append, widest?_append]
  rfl

theorem best?_register (rs : List (Name × Int)) (n : Name) (arity : Int) (s : String) :
    best? (rs ++ [(n, arity)]) s =
      if n.last = s then some (match best? rs s with
        | none => ⟨n, arity⟩
        | some q => if arity ≤ q.arity then q else ⟨n, arity⟩)
      else best? rs s := by
  by_cases same : n.last = s
  · have one : best? [(n, arity)] s = some ⟨n, arity⟩ := by simp [best?, same, widest?]
    rw [best?_append, one, if_pos same]
    cases best? rs s <;> rfl
  · have none : best? [(n, arity)] s = none := by simp [best?, same, widest?]
    rw [best?_append, none, if_neg same]
    cases best? rs s <;> rfl

theorem last_ne_of_best? {rs : List (Name × Int)} {s : String} (none : best? rs s = none)
    {e : Name × Int} (listed : e ∈ rs) : e.1.last ≠ s := by
  have empty := List.map_eq_nil_iff.1 (widest?_eq_none none)
  rw [List.filter_eq_nil_iff] at empty
  simpa using empty e listed

-- What a registry holds after the registrations.
def Holds (r : Registry) (rs : List (Name × Int)) : Prop :=
  ∀ k, r.get? k = if k ∈ keys rs then best? rs k.last else none

namespace Holds

variable {r : Registry} {rs : List (Name × Int)}

-- A bare name is a key as soon as some name with this last segment is registered.
theorem get?_bare (holds : Holds r rs) (n : Name) : r.get? n.bare = best? rs n.last := by
  rw [holds, Name.last_bare]
  split
  next => rfl
  next absent =>
    cases held : best? rs n.last with
    | none => rfl
    | some p =>
      have bare : n.bare = p.name.bare := by simp [Name.bare, last_of_best? held]
      exact absurd (mem_keys.2 ⟨_, mem_of_best? held, bare ▸ bare_mem_keysOf p.name⟩) absent

-- All that is known of a name is the placeholder of its last segment.
theorem known_eq (holds : Holds r rs) (n : Name) :
    ∀ p ∈ (keysOf n).filterMap r.get?, best? rs n.last = some p := by
  intro p listed
  obtain ⟨k, isKey, held⟩ := List.mem_filterMap.1 listed
  rw [holds, last_of_mem_keysOf isKey] at held
  split at held
  · exact held
  · cases held

theorem choose_eq (holds : Holds r rs) (n : Name) (arity : Int) :
    choose ((keysOf n).filterMap r.get?) n arity = (match best? rs n.last with
      | none => ⟨n, arity⟩
      | some q => if arity ≤ q.arity then q else ⟨n, arity⟩) := by
  have widest : widest? ((keysOf n).filterMap r.get?) = best? rs n.last := by
    cases found : widest? ((keysOf n).filterMap r.get?) with
    | none =>
      have empty := widest?_eq_none found
      rw [List.filterMap_eq_nil_iff] at empty
      rw [← holds.get?_bare n, empty _ (bare_mem_keysOf n)]
    | some p => exact (holds.known_eq n p (mem_of_widest? found)).symm
  rw [choose, widest]
  cases best? rs n.last <;> rfl

theorem best?_of_key {k : Name} (isKey : k ∈ keys rs) : ∃ q, best? rs k.last = some q := by
  obtain ⟨e, listed, among⟩ := mem_keys.1 isKey
  cases held : best? rs k.last with
  | none => exact absurd (last_of_mem_keysOf among).symm (last_ne_of_best? held listed)
  | some q => exact ⟨q, rfl⟩

-- Registering moves every key with the last segment to the new placeholder, and no other.
theorem get?_moved (holds : Holds r rs) (n k : Name) (p : Placeholder) :
    (r.repoint (((keysOf n).filterMap r.get?).filter (· != p)) p).get? k =
      if k ∈ keys rs then (if k.last = n.last then some p else best? rs k.last) else none := by
  rw [get?_repoint, holds]
  split
  next isKey =>
    obtain ⟨q, held⟩ := best?_of_key isKey
    rw [held, Option.map_some]
    by_cases same : k.last = n.last
    · have known : q ∈ (keysOf n).filterMap r.get? :=
        List.mem_filterMap.2 ⟨n.bare, bare_mem_keysOf n, by rw [holds.get?_bare, ← same, held]⟩
      by_cases kept : q = p
      · simp [kept, same]
      · have moved : q ∈ ((keysOf n).filterMap r.get?).filter (· != p) :=
          List.mem_filter.2 ⟨known, by simpa using kept⟩
        rw [if_pos moved, if_pos same]
    · have unmoved : q ∉ ((keysOf n).filterMap r.get?).filter (· != p) := by
        intro moved
        have sameLast := last_of_best? (holds.known_eq n q (List.mem_filter.1 moved).1)
        exact same ((last_of_best? held).symm.trans sameLast)
      rw [if_neg unmoved, if_neg same]
  next => rfl

theorem register (holds : Holds r rs) (n : Name) (arity : Int) :
    Holds (r.register n arity).1 (rs ++ [(n, arity)]) := by
  intro k
  have keys_append : k ∈ keys (rs ++ [(n, arity)]) ↔ k ∈ keys rs ∨ k ∈ keysOf n := by simp [keys]
  simp only [Registry.register, get?_setAll, holds.get?_moved, best?_register, keys_append]
  by_cases here : k ∈ keysOf n
  · have same := last_of_mem_keysOf here
    simp [here, same, holds.choose_eq]
  · by_cases isKey : k ∈ keys rs
    · by_cases same : k.last = n.last
      · simp [here, isKey, same, holds.choose_eq]
      · have other : ¬ n.last = k.last := fun h => same h.symm
        simp [here, isKey, same, other]
    · simp [here, isKey]

end Holds

theorem holds_ofList (rs : List (Name × Int)) : Holds (ofList rs) rs := by
  have run : ∀ (todo done : List (Name × Int)) (r : Registry), Holds r done →
      Holds (todo.foldl (fun r e => (r.register e.1 e.2).1) r) (done ++ todo) := by
    intro todo
    induction todo with
    | nil => simp
    | cons e todo ih =>
      intro done r holds
      simpa using ih (done ++ [e]) _ (holds.register e.1 e.2)
  exact run rs [] {} fun k => rfl

theorem get?_ofList (rs : List (Name × Int)) (k : Name) :
    (ofList rs).get? k = if k ∈ keys rs then best? rs k.last else none := holds_ofList rs k

theorem solve?_ofList (rs : List (Name × Int)) (n : Name) :
    (ofList rs).solve? n = best? rs n.last := by
  have bare := (holds_ofList rs).get?_bare n
  by_cases qualified : n.isQualified = true
  · rw [solve?, get?_ofList, bare, if_pos qualified]
    split
    · cases best? rs n.last <;> rfl
    · rfl
  · have isBare : n.bare = n := by
      obtain ⟨first, rest⟩ := n
      obtain rfl : rest = [] := by simpa [Name.isQualified] using qualified
      rfl
    rw [isBare] at bare
    simp [solve?, qualified, bare]

structure Widest (groups : List (List (Name × Int))) (s : String) (p : Placeholder) : Prop where
  held : ∃ g ∈ groups, best? g s = some p
  widest : ∀ g ∈ groups, ∀ q, best? g s = some q → q.arity ≤ p.arity

-- The groups that register a name with the most arguments of all have one placeholder for it.
def Uniform (groups : List (List (Name × Int))) : Prop :=
  ∀ s p q, Widest groups s p → Widest groups s q → p = q

variable {groups : List (List (Name × Int))} {s : String}

theorem best?_flatten_eq_none : best? groups.flatten s = none ↔ ∀ g ∈ groups, best? g s = none := by
  induction groups with
  | nil => simp [best?, widest?]
  | cons g gs ih =>
    rw [List.flatten_cons, best?_append, List.forall_mem_cons, ← ih]
    cases best? g s <;> cases best? gs.flatten s <;> simp

-- A group that is as wide as all later ones decides.
theorem best?_flatten_cons {g : List (Name × Int)} {p : Placeholder} (first : best? g s = some p)
    (widest : ∀ h ∈ groups, ∀ q, best? h s = some q → q.arity ≤ p.arity) :
    best? (g :: groups).flatten s = some p := by
  induction groups generalizing g with
  | nil => simpa using first
  | cons h hs ih =>
    obtain ⟨here, later⟩ := List.forall_mem_cons.1 widest
    have joined : best? (g ++ h) s = some p := by
      rw [best?_append, first]
      cases second : best? h s with
      | none => rfl
      | some q => simp [here q second]
    simpa using ih joined later

theorem widest_of_best? {p : Placeholder} (found : best? groups.flatten s = some p) :
    Widest groups s p := by
  induction groups generalizing p with
  | nil => cases found
  | cons g gs ih =>
    rw [List.flatten_cons, best?_append] at found
    cases first : best? g s with
    | none =>
      rw [first] at found
      obtain ⟨⟨h, listed, held⟩, widest⟩ := ih found
      exact ⟨⟨h, List.mem_cons_of_mem _ listed, held⟩,
        List.forall_mem_cons.2 ⟨by simp [first], widest⟩⟩
    | some q =>
      cases later : best? gs.flatten s with
      | none =>
        have nothing := best?_flatten_eq_none.1 later
        obtain rfl : q = p := by simpa [first, later] using found
        refine ⟨⟨g, List.mem_cons_self, first⟩, List.forall_mem_cons.2 ⟨by simp [first], ?_⟩⟩
        intro h listed r held
        simp [nothing h listed] at held
      | some r =>
        obtain ⟨⟨h, listed, held⟩, widest⟩ := ih later
        by_cases wide : r.arity ≤ q.arity
        · obtain rfl : q = p := by simpa [first, later, wide] using found
          refine ⟨⟨g, List.mem_cons_self, first⟩, List.forall_mem_cons.2 ⟨by simp [first], ?_⟩⟩
          exact fun h listed t held => Int.le_trans (widest h listed t held) wide
        · obtain rfl : r = p := by simpa [first, later, wide] using found
          refine ⟨⟨h, List.mem_cons_of_mem _ listed, held⟩, List.forall_mem_cons.2 ⟨?_, widest⟩⟩
          intro t held
          obtain rfl : q = t := by simpa [first] using held
          omega

theorem Widest.of_perm {groups' : List (List (Name × Int))} (perm : groups'.Perm groups)
    {p : Placeholder} (widest : Widest groups' s p) : Widest groups s p := by
  obtain ⟨⟨g, listed, held⟩, rest⟩ := widest
  exact ⟨⟨g, perm.mem_iff.1 listed, held⟩, fun h among => rest h (perm.mem_iff.2 among)⟩

theorem Uniform.best?_perm (uniform : Uniform groups) {groups' : List (List (Name × Int))}
    (perm : groups'.Perm groups) (s : String) :
    best? groups'.flatten s = best? groups.flatten s := by
  cases found : best? groups.flatten s with
  | none =>
    rw [best?_flatten_eq_none] at found ⊢
    exact fun g listed => found g (perm.mem_iff.1 listed)
  | some p =>
    cases found' : best? groups'.flatten s with
    | none =>
      have nothing := best?_flatten_eq_none.1 found'
      obtain ⟨g, listed, held⟩ := (widest_of_best? found).held
      simp [nothing g (perm.mem_iff.2 listed)] at held
    | some q => rw [uniform s q p ((widest_of_best? found').of_perm perm) (widest_of_best? found)]

end Registry

end RefGraph

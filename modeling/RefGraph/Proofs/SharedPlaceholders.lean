import RefGraph.Proofs.Registry

set_option autoImplicit false

namespace RefGraph

namespace Registry

structure FirstWidest (rs : List (Name × Int)) (s : String) (p : Placeholder) : Prop where
  last : p.name.last = s
  first : ∃ before after, rs = before ++ (p.name, p.arity) :: after ∧
    (∀ e ∈ before, e.1.last = s → e.2 < p.arity) ∧ ∀ e ∈ after, e.1.last = s → e.2 ≤ p.arity

theorem best?_cons (e : Name × Int) (rs : List (Name × Int)) (s : String) :
    best? (e :: rs) s =
      if e.1.last = s then some (match best? rs s with
        | none => ⟨e.1, e.2⟩
        | some q => if q.arity ≤ e.2 then ⟨e.1, e.2⟩ else q)
      else best? rs s := by
  rw [← List.singleton_append, best?_append]
  by_cases same : e.1.last = s
  · have one : best? [e] s = some ⟨e.1, e.2⟩ := by simp [best?, same, widest?]
    rw [one, if_pos same]
    cases best? rs s <;> simp
  · have none : best? [e] s = none := by simp [best?, same, widest?]
    rw [none, if_neg same]

theorem FirstWidest.arity_le {rs : List (Name × Int)} {s : String} {p : Placeholder}
    (widest : FirstWidest rs s p) {e : Name × Int} (listed : e ∈ rs) (same : e.1.last = s) :
    e.2 ≤ p.arity := by
  obtain ⟨before, after, rfl, narrower, wide⟩ := widest.first
  rcases List.mem_append.1 listed with early | late
  · exact Int.le_of_lt (narrower e early same)
  · rcases List.mem_cons.1 late with rfl | late
    · exact Int.le_refl _
    · exact wide e late same

theorem firstWidest_of_best? {rs : List (Name × Int)} {s : String} {p : Placeholder}
    (held : best? rs s = some p) : FirstWidest rs s p := by
  refine ⟨last_of_best? held, ?_⟩
  induction rs generalizing p with
  | nil => cases held
  | cons e rs ih =>
    -- A registration that does not decide comes before the one that decides the rest.
    have extend {q : Placeholder} (later : best? rs s = some q) (narrow : e.1.last = s →
        e.2 < q.arity) :
        ∃ before after, e :: rs = before ++ (q.name, q.arity) :: after ∧
          (∀ f ∈ before, f.1.last = s → f.2 < q.arity) ∧ ∀ f ∈ after, f.1.last = s →
            f.2 ≤ q.arity := by
      obtain ⟨before, after, split, narrower, wide⟩ := ih later
      exact ⟨e :: before, after,
        by rw [split, List.cons_append], List.forall_mem_cons.2 ⟨narrow, narrower⟩, wide⟩
    rw [best?_cons] at held
    by_cases same : e.1.last = s
    · rw [if_pos same] at held
      cases later : best? rs s with
      | none =>
        obtain rfl : ⟨e.1, e.2⟩ = p := by simpa [later] using held
        refine ⟨[], rs, rfl, by simp, fun f listed sameLast => ?_⟩
        exact absurd sameLast (last_ne_of_best? later listed)
      | some q =>
        by_cases enough : q.arity ≤ e.2
        · obtain rfl : ⟨e.1, e.2⟩ = p := by simpa [later, enough] using held
          have widest : FirstWidest rs s q := ⟨last_of_best? later, ih later⟩
          refine ⟨[], rs, rfl, by simp, fun f listed sameLast => ?_⟩
          exact Int.le_trans (widest.arity_le listed sameLast) enough
        · obtain rfl : q = p := by simpa [later, enough] using held
          exact extend later fun _ => Int.not_le.1 enough
    · rw [if_neg same] at held
      exact extend held fun sameLast => absurd sameLast same

theorem best?_eq_none_iff {rs : List (Name × Int)} {s : String} :
    best? rs s = none ↔ ∀ e ∈ rs, e.1.last ≠ s := by
  constructor
  · exact fun none e listed => last_ne_of_best? none listed
  · intro absent
    cases held : best? rs s with
    | none => rfl
    | some p => exact absurd (last_of_best? held) (absent _ (mem_of_best? held))

-- The arity of a last segment is the largest registered one, so the order does not matter.
theorem arity_best?_perm {rs rs' : List (Name × Int)} (perm : rs'.Perm rs) (s : String) :
    (best? rs' s).map (·.arity) = (best? rs s).map (·.arity) := by
  cases held : best? rs s with
  | none =>
    have absent : best? rs' s = none :=
      best?_eq_none_iff.2 fun e listed => best?_eq_none_iff.1 held e (perm.mem_iff.1 listed)
    rw [absent]
  | some p =>
    cases held' : best? rs' s with
    | none =>
      have absent := best?_eq_none_iff.1 held' _ (perm.mem_iff.2 (mem_of_best? held))
      exact absurd (last_of_best? held) absent
    | some q =>
      have le := (firstWidest_of_best? held).arity_le (perm.mem_iff.1 (mem_of_best? held'))
        (last_of_best? held')
      have ge := (firstWidest_of_best? held').arity_le (perm.mem_iff.2 (mem_of_best? held))
        (last_of_best? held)
      simp only [Option.map_some, Option.some.injEq]
      exact Int.le_antisymm le ge

/-- Names hold numbers of objects; objects are numbered in the order in which they are made. -/
structure Objects where
  made : List Placeholder := []
  number? : Name → Option Nat := fun _ => none

namespace Objects

def object (o : Objects) (i : Nat) : Placeholder := o.made.getD i default

def get? (o : Objects) (n : Name) : Option Placeholder := (o.number? n).map o.object

def widest? (o : Objects) : List Nat → Option Nat
  | [] => none
  | i :: is =>
    match o.widest? is with
    | none => some i
    | some j => if (o.object i).arity < (o.object j).arity then some j else some i

-- The objects that a name and its last segment hold.
def known (o : Objects) (n : Name) : List Nat := (keysOf n).filterMap o.number?

-- All objects with the chosen one, and its number. One is made only if no known one is wide enough.
def chosen (o : Objects) (n : Name) (arity : Int) : List Placeholder × Nat :=
  match o.widest? (o.known n) with
  | some i => if arity ≤ (o.object i).arity then (o.made, i)
    else (o.made ++ [⟨n, arity⟩], o.made.length)
  | none => (o.made ++ [⟨n, arity⟩], o.made.length)

def register (o : Objects) (n : Name) (arity : Int) : Objects where
  made := (o.chosen n arity).1
  number? k :=
    let i := (o.chosen n arity).2
    if k ∈ keysOf n then some i
    else (o.number? k).map fun j => if j ∈ o.known n ∧ j ≠ i then i else j

def ofList (rs : List (Name × Int)) : Objects := rs.foldl (fun o e => o.register e.1 e.2) {}

theorem mem_of_widest? {o : Objects} {is : List Nat} {i : Nat} (found : o.widest? is = some i) :
    i ∈ is := by
  induction is with
  | nil => cases found
  | cons j is ih => grind [widest?]

theorem widest?_eq_none {o : Objects} {is : List Nat} (none : o.widest? is = none) : is = [] := by
  cases is with
  | nil => rfl
  | cons i is => grind [widest?]

structure Shares (o : Objects) (rs : List (Name × Int)) : Prop where
  shows : ∀ k, o.get? k = if k ∈ keys rs then best? rs k.last else none
  made : ∀ k i, o.number? k = some i → i < o.made.length
  shared : ∀ k k' i i', o.number? k = some i → o.number? k' = some i' → k.last = k'.last → i = i'

namespace Shares

variable {o : Objects} {rs : List (Name × Int)}

theorem last_of_number? (shares : Shares o rs) {k : Name} {i : Nat} (holds : o.number? k = some i) :
    (o.object i).name.last = k.last := by
  have shown := shares.shows k
  rw [Objects.get?, holds, Option.map_some] at shown
  split at shown
  · exact last_of_best? shown.symm
  · cases shown

-- A name whose last segment has no object is registered for the first time.
theorem best?_of_unknown (shares : Shares o rs) {n : Name} (unknown : o.known n = []) :
    best? rs n.last = none := by
  have bare : o.number? n.bare = none := List.filterMap_eq_nil_iff.1 unknown _ (bare_mem_keysOf n)
  have shown := shares.shows n.bare
  rw [Objects.get?, bare, Option.map_none, Name.last_bare] at shown
  split at shown
  next => exact shown.symm
  next absent =>
    refine best?_eq_none_iff.2 fun e listed same => absent (mem_keys.2 ⟨e, listed, ?_⟩)
    have sameBare : e.1.bare = n.bare := by rw [Name.bare, Name.bare, same]
    exact sameBare ▸ bare_mem_keysOf e.1

-- The numbers known for a name are those of all names with its last segment.
theorem mem_known_iff (shares : Shares o rs) (n : Name) {k : Name} {i : Nat}
    (holds : o.number? k = some i) :
    i ∈ o.known n ↔ k.last = n.last := by
  constructor
  · intro known
    obtain ⟨j, isKey, same⟩ := List.mem_filterMap.1 known
    rw [← shares.last_of_number? holds, shares.last_of_number? same, last_of_mem_keysOf isKey]
  · intro same
    cases known : o.known n with
    | nil =>
      have shown := shares.shows k
      rw [same, shares.best?_of_unknown known, Objects.get?, holds] at shown
      simp at shown
    | cons j js =>
      have listed : j ∈ o.known n := known ▸ List.mem_cons_self
      obtain ⟨k', isKey, held⟩ := List.mem_filterMap.1 listed
      obtain rfl := shares.shared k k' i j holds held (same.trans (last_of_mem_keysOf isKey).symm)
      exact List.mem_cons_self

theorem number?_register (shares : Shares o rs) (n : Name) (arity : Int) (k : Name) :
    (o.register n arity).number? k =
      if k ∈ keysOf n ∨ k.last = n.last ∧ (o.number? k).isSome then some (o.chosen n arity).2
      else o.number? k := by
  dsimp only [Objects.register]
  by_cases isKey : k ∈ keysOf n
  · simp [isKey]
  · cases holds : o.number? k with
    | none => simp [isKey]
    | some i =>
      have known := shares.mem_known_iff n holds
      by_cases same : k.last = n.last
      · by_cases kept : i = (o.chosen n arity).2 <;> simp [isKey, known, same, kept]
      · simp [isKey, known, same]

-- The chosen object is the best one for the last segment, and no other object changes.
theorem object_register (shares : Shares o rs) (n : Name) (arity : Int) :
    (o.chosen n arity).2 < (o.register n arity).made.length ∧
    some ((o.register n arity).object (o.chosen n arity).2) = best? (rs ++ [(n, arity)]) n.last ∧
    ∀ i < o.made.length, i < (o.register n arity).made.length ∧
      (o.register n arity).object i = o.object i := by
  have made : (o.register n arity).made = (o.chosen n arity).1 := rfl
  have appended (p : Placeholder) (i : Nat) (below : i < o.made.length) :
      i < (o.made ++ [p]).length ∧ (o.made ++ [p]).getD i default = o.made.getD i default := by
    simp [List.getElem?_append_left below]
    omega
  rw [best?_register, if_pos rfl]
  simp only [object, made]
  unfold chosen
  cases found : o.widest? (o.known n) with
  | none =>
    rw [shares.best?_of_unknown (widest?_eq_none found)]
    exact ⟨by simp, by simp, appended _⟩
  | some i =>
    obtain ⟨k, isKey, holds⟩ := List.mem_filterMap.1 (mem_of_widest? found)
    have best : best? rs n.last = some (o.object i) := by
      have shown := shares.shows k
      rw [Objects.get?, holds, Option.map_some, last_of_mem_keysOf isKey] at shown
      split at shown
      · exact shown.symm
      · cases shown
    rw [best]
    by_cases enough : arity ≤ (o.object i).arity
    · simp only [enough, if_true]
      exact ⟨shares.made k i holds, rfl, fun j below => ⟨below, trivial⟩⟩
    · simp only [enough, if_false]
      exact ⟨by simp, by simp, appended _⟩

theorem isSome_number? (shares : Shares o rs) (k : Name) : (o.number? k).isSome ↔ k ∈ keys rs := by
  have shown := congrArg Option.isSome (shares.shows k)
  rw [Objects.get?, Option.isSome_map] at shown
  rw [shown]
  by_cases isKey : k ∈ keys rs
  · obtain ⟨q, held⟩ := Holds.best?_of_key isKey
    simp [isKey, held]
  · simp [isKey]

theorem register (shares : Shares o rs) (n : Name) (arity : Int) :
    Shares (o.register n arity) (rs ++ [(n, arity)]) := by
  obtain ⟨isMade, best, unchanged⟩ := shares.object_register n arity
  have moved (k : Name) := shares.number?_register n arity k
  constructor
  case shows =>
    intro k
    have keys_append : k ∈ keys (rs ++ [(n, arity)]) ↔ k ∈ keys rs ∨ k ∈ keysOf n := by simp [keys]
    have isKey := shares.isSome_number? k
    rw [Objects.get?, moved]
    by_cases here : k ∈ keysOf n ∨ k.last = n.last ∧ (o.number? k).isSome
    · have listed : k ∈ keys (rs ++ [(n, arity)]) := by
        rw [keys_append]
        exact here.symm.imp_left fun held => isKey.1 held.2
      have same : k.last = n.last := here.elim last_of_mem_keysOf And.left
      rw [if_pos here, if_pos listed, Option.map_some, best, same]
    · rw [if_neg here]
      obtain ⟨notKey, other⟩ := not_or.1 here
      cases holds : o.number? k with
      | none =>
        have unlisted : k ∉ keys (rs ++ [(n, arity)]) := by simp_all
        rw [if_neg unlisted, Option.map_none]
      | some i =>
        have held : (o.number? k).isSome := by simp [holds]
        have shown := shares.shows k
        rw [Objects.get?, holds, if_pos (isKey.1 held)] at shown
        have apart : ¬ n.last = k.last := fun same => other ⟨same.symm, held⟩
        rw [if_pos (keys_append.2 (.inl (isKey.1 held))), best?_register, if_neg apart, ← shown,
          Option.map_some, Option.map_some, (unchanged i (shares.made k i holds)).2]
  case made =>
    intro k i holds
    rw [moved] at holds
    split at holds
    · cases holds
      exact isMade
    · exact (unchanged i (shares.made k i holds)).1
  case shared =>
    intro k k' i i' holds holds' same
    -- A name with the last segment that holds something now holds the chosen object.
    have chosen {k : Name} {i : Nat} (holds : (o.register n arity).number? k = some i)
        (same : k.last = n.last) :
        i = (o.chosen n arity).2 := by
      rw [moved] at holds
      split at holds
      next => cases holds; rfl
      next apart => exact absurd (.inr ⟨same, by simp [holds]⟩) apart
    have before {k : Name} {i : Nat} (holds : (o.register n arity).number? k = some i)
        (apart : k.last ≠ n.last) :
        o.number? k = some i := by
      rw [moved, if_neg] at holds
      · exact holds
      · exact fun here => apart (here.elim last_of_mem_keysOf And.left)
    by_cases here : k.last = n.last
    · rw [chosen holds here, chosen holds' (same ▸ here)]
    · exact shares.shared k k' i i' (before holds here) (before holds' (same ▸ here)) same

theorem empty : Shares {} [] where
  shows _ := rfl
  made _ _ holds := by cases holds
  shared _ _ _ _ holds := by cases holds

theorem foldl {before : List (Name × Int)} (shares : Shares o before) (later : List (Name × Int)) :
    Shares (later.foldl (fun o e => o.register e.1 e.2) o) (before ++ later) := by
  induction later generalizing o before with
  | nil => simpa using shares
  | cons e later ih => simpa using ih (shares.register e.1 e.2)

theorem number?_eq_iff (shares : Shares o rs) {k k' : Name} (isKey : k ∈ keys rs)
    (isKey' : k' ∈ keys rs) :
    o.number? k = o.number? k' ↔ k.last = k'.last := by
  obtain ⟨i, holds⟩ := Option.isSome_iff_exists.1 ((shares.isSome_number? k).2 isKey)
  obtain ⟨i', holds'⟩ := Option.isSome_iff_exists.1 ((shares.isSome_number? k').2 isKey')
  constructor
  · intro same
    rw [same, holds'] at holds
    cases holds
    rw [← shares.last_of_number? (same.trans holds'), shares.last_of_number? holds']
  · intro same
    rw [holds, holds', shares.shared k k' i i' holds holds' same]

end Shares

theorem shares_ofList (rs : List (Name × Int)) : Shares (ofList rs) rs := Shares.empty.foldl rs

end Objects

variable (rs : List (Name × Int))

theorem contains_ofList_iff (k : Name) : (ofList rs).contains k ↔ k ∈ keys rs := by
  rw [contains, get?_ofList]
  by_cases isKey : k ∈ keys rs
  · obtain ⟨q, held⟩ := Holds.best?_of_key isKey
    simp [isKey, held]
  · simp [isKey]

theorem mem_keys_iff (k : Name) : k ∈ keys rs ↔ ∃ e ∈ rs, k = e.1 ∨ k = e.1.bare := by
  rw [mem_keys]
  refine exists_congr fun e => and_congr_right fun _ => ?_
  unfold keysOf
  split
  next same => simp [same]
  next => simp

theorem best?_of_get? {rs : List (Name × Int)} {k : Name} {p : Placeholder}
    (held : (ofList rs).get? k = some p) :
    k ∈ keys rs ∧ best? rs k.last = some p := by
  rw [get?_ofList] at held
  split at held
  next isKey => exact ⟨isKey, held⟩
  next => cases held

theorem get?_eq_iff {rs : List (Name × Int)} {k k' : Name} (isKey : k ∈ keys rs)
    (isKey' : k' ∈ keys rs) :
    (ofList rs).get? k = (ofList rs).get? k' ↔ k.last = k'.last := by
  obtain ⟨p, held⟩ := Holds.best?_of_key isKey
  rw [get?_ofList, get?_ofList, if_pos isKey, if_pos isKey']
  constructor
  · intro same
    rw [← last_of_best? held, last_of_best? (same ▸ held)]
  · intro same
    rw [same]

theorem arity_le_register {rs : List (Name × Int)} {k : Name} {p : Placeholder}
    (held : (ofList rs).get? k = some p) (n : Name) (arity : Int) :
    ∃ q, ((ofList rs).register n arity).1.get? k = some q ∧ p.arity ≤ q.arity := by
  obtain ⟨isKey, best⟩ := best?_of_get? held
  have listed : k ∈ keys (rs ++ [(n, arity)]) := by
    rw [keys, List.flatMap_append]
    exact List.mem_append_left _ isKey
  rw [(holds_ofList rs).register n arity k, if_pos listed, best?_register, best]
  by_cases same : n.last = k.last
  · by_cases enough : arity ≤ p.arity
    · exact ⟨p, by simp [same, enough], Int.le_refl _⟩
    · exact ⟨⟨n, arity⟩, by simp [same, enough], Int.le_of_lt (Int.not_le.1 enough)⟩
  · exact ⟨p, by simp [same], Int.le_refl _⟩

theorem mem_keys_perm {rs rs' : List (Name × Int)} (perm : rs'.Perm rs) (k : Name) :
    k ∈ keys rs' ↔ k ∈ keys rs := by
  simp only [mem_keys, perm.mem_iff]

theorem arity_get?_perm {rs rs' : List (Name × Int)} (perm : rs'.Perm rs) (k : Name) :
    ((ofList rs').get? k).map (·.arity) = ((ofList rs).get? k).map (·.arity) := by
  have isKey := mem_keys_perm perm k
  rw [get?_ofList, get?_ofList]
  by_cases listed : k ∈ keys rs
  · rw [if_pos (isKey.2 listed), if_pos listed, arity_best?_perm perm]
  · rw [if_neg (fun later => listed (isKey.1 later)), if_neg listed]

/-- Names of one last segment share the first of their widest placeholders, and its arity does not
depend on the order of registrations. -/
theorem contents_ofList :
    (∀ k, (ofList rs).contains k ↔ ∃ e ∈ rs, k = e.1 ∨ k = e.1.bare) ∧
    (∀ k k', (ofList rs).contains k → (ofList rs).contains k' →
      ((ofList rs).get? k = (ofList rs).get? k' ↔ k.last = k'.last) ∧
      ((Objects.ofList rs).number? k = (Objects.ofList rs).number? k' ↔ k.last = k'.last)) ∧
    (∀ k, (Objects.ofList rs).get? k = (ofList rs).get? k) ∧
    (∀ k p, (ofList rs).get? k = some p → FirstWidest rs k.last p) ∧
    (∀ n arity k p, (ofList rs).get? k = some p →
      ∃ q, ((ofList rs).register n arity).1.get? k = some q ∧ p.arity ≤ q.arity) ∧
    (∀ rs', rs'.Perm rs → ∀ k, ((ofList rs').contains k ↔ (ofList rs).contains k) ∧
      ((ofList rs').get? k).map (·.arity) = ((ofList rs).get? k).map (·.arity)) ∧
    ∀ q, (ofList rs).solve? q = (ofList rs).get? q.bare := by
  have shares := Objects.shares_ofList rs
  refine ⟨?_, ?_, ?_, ?_, ?_, ?_, ?_⟩
  · intro k
    rw [contains_ofList_iff, mem_keys_iff]
  · intro k k' isKey isKey'
    rw [contains_ofList_iff] at isKey isKey'
    exact ⟨get?_eq_iff isKey isKey', shares.number?_eq_iff isKey isKey'⟩
  · intro k
    rw [shares.shows, get?_ofList]
  · intro k p held
    exact firstWidest_of_best? (best?_of_get? held).2
  · intro n arity k p held
    exact arity_le_register held n arity
  · intro rs' perm k
    simp only [contains_ofList_iff]
    exact ⟨mem_keys_perm perm k, arity_get?_perm perm k⟩
  · intro q
    rw [solve?_ofList, (holds_ofList rs).get?_bare]

-- A qualified name, a wider one of another package, the bare name again, and a name of its own.
def boxes : List (Name × Int) :=
  [(⟨"a", ["Box"]⟩, 1), (⟨"b", ["Box"]⟩, 2), (Name.simple "Box", 2), (⟨"a", ["Map"]⟩, -3)]

theorem contents_ofList_boxes :
    ((ofList boxes).contains ⟨"a", ["Box"]⟩ ∧ (ofList boxes).contains ⟨"a", ["Map"]⟩) ∧
      (ofList boxes).get? ⟨"a", ["Box"]⟩ = some ⟨⟨"b", ["Box"]⟩, 2⟩ ∧
      FirstWidest boxes "Box" ⟨⟨"b", ["Box"]⟩, 2⟩ ∧
      (Objects.ofList boxes).number? ⟨"a", ["Box"]⟩ =
        (Objects.ofList boxes).number? (Name.simple "Box") ∧
      (Objects.ofList boxes).number? ⟨"a", ["Box"]⟩ ≠
        (Objects.ofList boxes).number? ⟨"a", ["Map"]⟩ := by
  obtain ⟨_, shared, _, first, _⟩ := contents_ofList boxes
  have qualified : (ofList boxes).contains ⟨"a", ["Box"]⟩ := by decide
  have bare : (ofList boxes).contains (Name.simple "Box") := by decide
  have other : (ofList boxes).contains ⟨"a", ["Map"]⟩ := by decide
  have held : (ofList boxes).get? ⟨"a", ["Box"]⟩ = some ⟨⟨"b", ["Box"]⟩, 2⟩ := by decide
  refine ⟨⟨qualified, other⟩, held, first _ _ held, (shared _ _ qualified bare).2.2 rfl,
    fun same => ?_⟩
  have last := (shared _ _ qualified other).2.1 same
  simp [Name.last] at last

end Registry

end RefGraph

import RefGraph.Proofs.Walk

/-!
The outline seen from the nodes. Every node gets the way in which the outline meets it, and the
types around it; both are handed down from a node to its children.
-/

set_option autoImplicit false

namespace RefGraph

namespace Outline

/-- How the outline meets a node; `next` is the index of the first type in it. -/
inductive Mode where
  | skip
  -- The root of a file.
  | unit
  | visit (spot : Spot) (next : Nat)
  -- Only the children are looked at.
  | inside (spot : Spot) (next : Nat)
  -- The body of an anonymous type.
  | anonymous (owner : Owner) (base : TypeRef) (next : Nat)

def visitModes (spot : Spot) (next : Nat) : List Tree → List Mode
  | [] => []
  | t :: ts =>
    if t.named then .visit spot next :: visitModes spot (next + (visit spot next t).length) ts
    else .skip :: visitModes spot next ts

def roleModes (role : String) (spot : Spot) (next : Nat) : List Tree → List Mode
  | [] => []
  | t :: ts => if t.role == some role then [.inside spot next]
    else .skip :: roleModes role spot next ts

def bodyModes (owner : Owner) (base : TypeRef) (next : Nat) : List Tree → List Mode
  | [] => []
  | t :: ts => if t.kind == "class_body" then [.anonymous owner base next]
    else .skip :: bodyModes owner base next ts

def besideModes (spot : Spot) (next : Nat) : List Tree → List Mode
  | [] => []
  | t :: ts =>
    if t.named && t.kind != "class_body" then
      .visit spot next :: besideModes spot (next + (visit spot next t).length) ts
    else .skip :: besideModes spot next ts

def topModes (package : Option Name) (next : Nat) : List Tree → List Mode
  | [] => []
  | t :: ts =>
    if t.named then
      let package := (package? t).or package
      .visit (.top package) next :: topModes package
        (next + (visit (.top package) next t).length) ts
    else .skip :: topModes package next ts

def Mode.or : Mode → Mode → Mode
  | skip, m => m
  | m, _ => m

-- The outline goes over the children of some nodes twice; no child is met both times.
def merge : List Mode → List Mode → List Mode
  | [], ms => ms
  | ms, [] => ms
  | m :: ms, n :: ns => m.or n :: merge ms ns

namespace Mode

def next : Mode → Nat
  | skip | unit => 0
  | visit _ next | inside _ next | anonymous _ _ next => next

def outline : Mode → Tree → List TypeDecl
  | skip, _ => []
  | unit, t => visitTop none 0 t.namedChildren
  | visit spot next, t => Outline.visit spot next t
  | inside spot next, t => visitAll spot next t.children
  | anonymous owner base next, t =>
    declareAnonymous owner base t :: visitAll (.body ⟨next, "", none⟩) (next + 1) t.children

def decl? : Mode → Tree → Option (Nat × TypeDecl)
  | visit spot next, t => (TypeKind.ofNodeKind? t.kind).map fun k => (next, declare spot k t)
  | anonymous owner base next, t => some (next, declareAnonymous owner base t)
  | _, _ => none

def below : Mode → Tree → List Mode
  | skip, _ => []
  | unit, t => topModes none 0 t.children
  | visit spot next, t =>
    match TypeKind.ofNodeKind? t.kind with
    | some k =>
      let d := declare spot k t
      roleModes "body" (.body ⟨next, d.name, d.qualified⟩) (next + 1) t.children
    | none =>
      match spot with
      | .top _ => []
      | .body owner =>
        if codeNodes.contains t.kind then visitModes (.code owner) next t.children
        else if t.kind == "enum_body_declarations" then visitModes spot next t.children
        else if t.kind == "enum_constant" && (t.child? "name").isSome then
          merge (roleModes "arguments" (.code owner) next t.children)
            (bodyModes owner (TypeRef.ofName (Name.simple owner.name))
              (next + (visitRole "arguments" (.code owner) next t.children).length) t.children)
        else []
      | .code owner =>
        if t.kind == "object_creation_expression" then
          let base := ((t.child? "type").bind TypeRef.ofNode?).getD TypeRef.top
          merge (bodyModes owner base next t.children)
            (besideModes spot
              (next + (visitClassBody owner base next t.children).length) t.children)
        else visitModes spot next t.children
  | inside spot next, t => visitModes spot next t.children
  | anonymous _ _ next, t => visitModes (.body ⟨next, "", none⟩) (next + 1) t.children

end Mode

-- A declaration in a list whose first index is the given one.
def Listed (next : Nat) (ds : List TypeDecl) (i : Nat) (d : TypeDecl) :
    Prop := next ≤ i ∧ ds[i - next]? = some d

section Listed

variable {next i : Nat} {ds es : List TypeDecl} {d e : TypeDecl}

theorem listed_nil : ¬ Listed next [] i d := by simp [Listed]

theorem listed_append : Listed next (ds ++ es) i d ↔ Listed next ds i d ∨
    Listed (next + ds.length) es i d := by
  unfold Listed
  by_cases inFirst : i - next < ds.length
  · rw [List.getElem?_append_left inFirst]
    constructor
    · exact .inl
    · rintro (first | ⟨beyond, -⟩)
      · exact first
      · omega
  · have beyond : ds.length ≤ i - next := Nat.le_of_not_lt inFirst
    rw [List.getElem?_append_right beyond, List.getElem?_eq_none beyond, Nat.sub_sub]
    constructor
    · rintro ⟨low, found⟩
      have nonempty : i - (next + ds.length) < es.length := (List.getElem?_eq_some_iff.1 found).1
      by_cases reached : next + ds.length ≤ i
      · exact .inr ⟨reached, found⟩
      · omega
    · rintro (⟨-, absent⟩ | ⟨low, found⟩)
      · cases absent
      · exact ⟨by omega, found⟩

theorem listed_cons : Listed next (e :: ds) i d ↔ (i = next ∧ d = e) ∨
    Listed (next + 1) ds i d := by
  rw [← List.singleton_append, listed_append]
  apply or_congr_left
  unfold Listed
  constructor
  · rintro ⟨low, found⟩
    have first : i - next < 1 := (List.getElem?_eq_some_iff.1 found).1
    obtain rfl : i = next := by omega
    simpa [eq_comm] using found
  · rintro ⟨rfl, rfl⟩
    simp

end Listed

namespace Mode

def Lists (m : Mode) (t : Tree) (i : Nat) (d : TypeDecl) : Prop := Listed m.next (m.outline t) i d

theorem not_lists_skip {t : Tree} {i : Nat} {d : TypeDecl} : ¬ skip.Lists t i d := listed_nil

end Mode

def ListsAll : List Mode → List Tree → Nat → TypeDecl → Prop
  | _, [], _, _ => False
  | ms, t :: ts, i, d => (ms.headD .skip).Lists t i d ∨ ListsAll ms.tail ts i d

section ListsAll

variable {i : Nat} {d : TypeDecl}

theorem not_listsAll_nil (ts : List Tree) : ¬ ListsAll [] ts i d := by
  induction ts with
  | nil => exact id
  | cons t ts ih =>
    rintro (here | later)
    · exact Mode.not_lists_skip here
    · exact ih later

theorem listsAll_singleton (m : Mode) (t : Tree) (ts : List Tree) :
    ListsAll [m] (t :: ts) i d ↔ m.Lists t i d := by
  simp [ListsAll, not_listsAll_nil]

theorem listsAll_skip (ms : List Mode) (t : Tree) (ts : List Tree) :
    ListsAll (.skip :: ms) (t :: ts) i d ↔ ListsAll ms ts i d := by
  simp [ListsAll, Mode.not_lists_skip]

theorem visitInside_eq (spot : Spot) (next : Nat) (t : Tree) :
    visitInside spot next t = visitAll spot next t.children := by
  cases t
  rw [visitInside]

theorem listsAll_visitModes (spot : Spot) (next : Nat) (ts : List Tree) :
    ListsAll (visitModes spot next ts) ts i d ↔ Listed next (visitAll spot next ts) i d := by
  induction ts generalizing next with
  | nil => simp [ListsAll, visitAll, listed_nil]
  | cons t ts ih =>
    rw [visitModes, visitAll]
    cases t.named with
    | true =>
      simp only [if_true]
      rw [listed_append, ← ih]
      rfl
    | false =>
      simp only [Bool.false_eq_true, if_false, List.nil_append, List.length_nil, Nat.add_zero]
      rw [listsAll_skip, ih]

theorem listsAll_besideModes (spot : Spot) (next : Nat) (ts : List Tree) :
    ListsAll (besideModes spot next ts) ts i d ↔
      Listed next (visitBesideBody spot next ts) i d := by
  induction ts generalizing next with
  | nil => simp [ListsAll, visitBesideBody, listed_nil]
  | cons t ts ih =>
    rw [besideModes, visitBesideBody]
    cases t.named && t.kind != "class_body" with
    | true =>
      simp only [if_true]
      rw [listed_append, ← ih]
      rfl
    | false =>
      simp only [Bool.false_eq_true, if_false, List.nil_append, List.length_nil, Nat.add_zero]
      rw [listsAll_skip, ih]

theorem listsAll_roleModes (role : String) (spot : Spot) (next : Nat) (ts : List Tree) :
    ListsAll (roleModes role spot next ts) ts i d ↔
      Listed next (visitRole role spot next ts) i d := by
  induction ts with
  | nil => simp [ListsAll, visitRole, listed_nil]
  | cons t ts ih =>
    rw [roleModes, visitRole]
    split
    · rw [listsAll_singleton, visitInside_eq]
      rfl
    · rw [listsAll_skip, ih]

theorem listsAll_bodyModes (owner : Owner) (base : TypeRef) (next : Nat) (ts : List Tree) :
    ListsAll (bodyModes owner base next ts) ts i d ↔
      Listed next (visitClassBody owner base next ts) i d := by
  induction ts with
  | nil => simp [ListsAll, visitClassBody, listed_nil]
  | cons t ts ih =>
    rw [bodyModes, visitClassBody]
    split
    · rw [listsAll_singleton, visitInside_eq]
      rfl
    · rw [listsAll_skip, ih]

theorem listsAll_topModes (package : Option Name) (next : Nat) (ts : List Tree) :
    ListsAll (topModes package next ts) ts i d ↔
      Listed next (visitTop package next (ts.filter (·.named))) i d := by
  induction ts generalizing package next with
  | nil => simp [ListsAll, visitTop, listed_nil]
  | cons t ts ih =>
    rw [topModes]
    cases named : t.named with
    | true =>
      rw [List.filter_cons_of_pos named, visitTop]
      simp only [if_true]
      rw [listed_append, ← ih]
      rfl
    | false =>
      rw [List.filter_cons_of_neg (by simp [named]), if_neg Bool.false_ne_true, listsAll_skip, ih]

-- No child is met by both.
def Apart (ms ns : List Mode) : Prop :=
  ∀ j : Nat, ms[j]?.getD Mode.skip = Mode.skip ∨ ns[j]?.getD Mode.skip = Mode.skip

theorem Apart.tail {ms ns : List Mode} (apart : Apart ms ns) : Apart ms.tail ns.tail := by
  intro j
  rw [List.getElem?_tail, List.getElem?_tail]
  exact apart (j + 1)

theorem Apart.cons {m n : Mode} {ms ns : List Mode} (here : m = .skip ∨ n = .skip)
    (later : Apart ms ns) :
    Apart (m :: ms) (n :: ns) := by
  intro j
  cases j with
  | zero => exact here
  | succ j => exact later j

theorem Apart.nil_left (ns : List Mode) : Apart [] ns := fun _ => .inl rfl

theorem Apart.nil_right (ms : List Mode) : Apart ms [] := fun _ => .inr rfl

theorem headD_merge (ms ns : List Mode) :
    (merge ms ns).headD .skip = (ms.headD .skip).or (ns.headD .skip) := by
  cases ms with
  | nil => rfl
  | cons m ms =>
    cases ns with
    | nil => cases m <;> rfl
    | cons n ns => rfl

theorem tail_merge (ms ns : List Mode) : (merge ms ns).tail = merge ms.tail ns.tail := by
  cases ms with
  | nil => simp [merge]
  | cons m ms =>
    cases ns with
    | nil => cases ms <;> rfl
    | cons n ns => rfl

theorem Mode.lists_or {m n : Mode} (one : m = skip ∨ n = skip) (t : Tree) :
    (m.or n).Lists t i d ↔ m.Lists t i d ∨ n.Lists t i d := by
  rcases one with rfl | rfl
  · simp [Mode.or, not_lists_skip]
  · cases m <;> simp [Mode.or, not_lists_skip]

theorem listsAll_merge {ms ns : List Mode} (apart : Apart ms ns) (ts : List Tree) :
    ListsAll (merge ms ns) ts i d ↔ ListsAll ms ts i d ∨ ListsAll ns ts i d := by
  induction ts generalizing ms ns with
  | nil => simp [ListsAll]
  | cons t ts ih =>
    have one : ms.headD .skip = .skip ∨ ns.headD .skip = .skip := by
      simpa [List.headD_eq_head?_getD, List.head?_eq_getElem?] using apart 0
    simp only [ListsAll, headD_merge, tail_merge, ih apart.tail, Mode.lists_or one]
    exact or_or_or_comm

theorem apart_body_beside (owner : Owner) (base : TypeRef) (next : Nat) (spot : Spot) (next' : Nat)
    (ts : List Tree) : Apart (bodyModes owner base next ts) (besideModes spot next' ts) := by
  induction ts generalizing next' with
  | nil => exact .nil_left _
  | cons t ts ih =>
    rw [bodyModes, besideModes]
    split
    next isBody =>
      rw [if_neg (by simp [beq_iff_eq.1 isBody])]
      exact .cons (.inr rfl) (.nil_left _)
    next =>
      split
      · exact .cons (.inl rfl) (ih _)
      · exact .cons (.inl rfl) (ih _)

theorem apart_role_body (role : String) (spot : Spot) (next : Nat) (owner : Owner) (base : TypeRef)
    (next' : Nat) (ts : List Tree) (noBody : ∀ t, ts.find? (·.role == some role) = some t →
      t.kind ≠ "class_body") :
    Apart (roleModes role spot next ts) (bodyModes owner base next' ts) := by
  induction ts with
  | nil => exact .nil_left _
  | cons t ts ih =>
    rw [roleModes, bodyModes]
    split
    next hit =>
      have kind := noBody t (List.find?_cons_of_pos hit)
      rw [if_neg (by simpa using kind)]
      exact .cons (.inr rfl) (.nil_left _)
    next missed =>
      have later := ih fun u found =>
        noBody u
          ((List.find?_cons_of_neg (p := fun x : Tree => x.role == some role) missed).trans found)
      split
      · exact .cons (.inl rfl) (.nil_right _)
      · exact .cons (.inl rfl) later

end ListsAll

-- The arguments of an enum constant are not a class body.
def ArgumentsApart (t : Tree) : Prop :=
  t.kind = "enum_constant" → ∀ c ∈ t.child? "arguments", c.kind ≠ "class_body"

instance (t : Tree) : Decidable (ArgumentsApart t) := inferInstanceAs (Decidable (_ → _))

theorem visit_eq_of_kind {t : Tree} {k : TypeKind} (declares : TypeKind.ofNodeKind? t.kind = some k)
    (spot : Spot) (next : Nat) :
    visit spot next t = declare spot k t :: visitRole "body"
      (.body ⟨next, (declare spot k t).name, (declare spot k t).qualified⟩) (next + 1)
        t.children := by
  cases t
  rw [visit.eq_def]
  simp only at declares
  simp only [declares]

theorem lists_iff {m : Mode} {t : Tree} {i : Nat} {d : TypeDecl} (apart : ArgumentsApart t) :
    m.Lists t i d ↔ m.decl? t = some (i, d) ∨ ListsAll (m.below t) t.children i d := by
  unfold Mode.Lists
  cases m with
  | skip => simp [Mode.outline, Mode.decl?, Mode.below, listed_nil, not_listsAll_nil]
  | unit =>
    simp only [Mode.outline, Mode.decl?, Mode.below, Mode.next, listsAll_topModes,
      Tree.namedChildren]
    simp
  | inside spot next => simp [Mode.outline, Mode.decl?, Mode.below, Mode.next, listsAll_visitModes]
  | anonymous owner base next =>
    simp only [Mode.outline, Mode.decl?, Mode.below, Mode.next, listsAll_visitModes, listed_cons,
      Option.some.injEq, Prod.mk.injEq]
    simp only [eq_comm]
  | visit spot next =>
    cases declares : TypeKind.ofNodeKind? t.kind with
    | some k =>
      simp only [Mode.outline, Mode.decl?, Mode.below, Mode.next, declares,
        visit_eq_of_kind declares, listed_cons, listsAll_roleModes, Option.map_some,
        Option.some.injEq, Prod.mk.injEq]
      simp only [eq_comm]
    | none =>
      simp only [Mode.outline, Mode.decl?, Mode.below, Mode.next, declares, Option.map_none,
        reduceCtorEq, false_or]
      cases t with
      | mk kind named missing start stop line text role children =>
        rw [visit.eq_def]
        simp only at declares
        simp only [declares]
        cases spot with
        | top package => simp [listed_nil, not_listsAll_nil]
        | body owner =>
          dsimp only
          split
          · rw [listsAll_visitModes]
          · split
            · rw [listsAll_visitModes]
            · split
              next isConstant =>
                rw [Bool.and_eq_true, beq_iff_eq] at isConstant
                rw [listsAll_merge, listsAll_roleModes, listsAll_bodyModes, listed_append]
                exact apart_role_body _ _ _ _ _ _ _ (apart isConstant.1)
              next => simp [listed_nil, not_listsAll_nil]
        | code owner =>
          dsimp only
          split
          · rw [listsAll_merge (apart_body_beside _ _ _ _ _ _), listsAll_bodyModes,
              listsAll_besideModes, listed_append]
          · rw [listsAll_visitModes]

/-- A node in its place: how the outline meets it, and the types around it, innermost first. -/
structure Occurrence where
  node : Tree
  mode : Mode
  around : List Nat

namespace Occurrence

def decl? (o : Occurrence) : Option (Nat × TypeDecl) := o.mode.decl? o.node

-- The types around the children.
def inner (o : Occurrence) : List Nat := (o.decl?.map (·.1)).toList ++ o.around

def place (ms : List Mode) (around : List Nat) : List Tree → List Occurrence
  | [] => []
  | t :: ts => ⟨t, ms.headD .skip, around⟩ :: place ms.tail around ts

def children (o : Occurrence) : List Occurrence :=
  place (o.mode.below o.node) o.inner o.node.children

theorem exists_place_iff {ms : List Mode} {around : List Nat} {ts : List Tree} {i : Nat}
    {d : TypeDecl} :
    (∃ o ∈ place ms around ts, o.mode.Lists o.node i d) ↔ ListsAll ms ts i d := by
  induction ts generalizing ms with
  | nil => simp [place, ListsAll]
  | cons t ts ih => simp [place, ListsAll, ih]

theorem node_mem_of_place {ms : List Mode} {around : List Nat} {ts : List Tree} {o : Occurrence}
    (listed : o ∈ place ms around ts) : o.node ∈ ts ∧ o.around = around := by
  induction ts generalizing ms with
  | nil => simp [place] at listed
  | cons t ts ih =>
    rcases List.mem_cons.1 listed with rfl | later
    · exact ⟨List.mem_cons_self, rfl⟩
    · exact ⟨List.mem_cons_of_mem _ (ih later).1, (ih later).2⟩

theorem exists_place_of_mem {ts : List Tree} {t : Tree} (listed : t ∈ ts) (ms : List Mode)
    (around : List Nat) :
    ∃ o ∈ place ms around ts, o.node = t := by
  induction ts generalizing ms with
  | nil => simp at listed
  | cons u us ih =>
    rcases List.mem_cons.1 listed with rfl | later
    · exact ⟨_, List.mem_cons_self, rfl⟩
    · obtain ⟨o, placed, node⟩ := ih later ms.tail
      exact ⟨o, List.mem_cons_of_mem _ placed, node⟩

end Occurrence

mutual
def occurrences (mode : Mode) (around : List Nat) : Tree → List Occurrence
  | t@{ children, .. } =>
    ⟨t, mode, around⟩ :: occurrencesAll (mode.below t) (Occurrence.mk t mode around).inner children

def occurrencesAll (ms : List Mode) (around : List Nat) : List Tree → List Occurrence
  | [] => []
  | t :: ts => occurrences (ms.headD .skip) around t ++ occurrencesAll ms.tail around ts
end

namespace Occurrence

def all (o : Occurrence) : List Occurrence := occurrences o.mode o.around o.node

theorem occurrencesAll_eq (ms : List Mode) (around : List Nat) (ts : List Tree) :
    occurrencesAll ms around ts = (place ms around ts).flatMap all := by
  induction ts generalizing ms with
  | nil => rfl
  | cons t ts ih =>
    rw [occurrencesAll, ih]
    rfl

theorem all_eq (o : Occurrence) : o.all = o :: o.children.flatMap all := by
  obtain ⟨t, mode, around⟩ := o
  have below := occurrencesAll_eq (mode.below t) (Occurrence.mk t mode around).inner t.children
  rw [all]
  cases t
  rw [occurrences, below]
  rfl

theorem mem_all {o root : Occurrence} : o ∈ root.all ↔
    o = root ∨ ∃ c ∈ root.children, o ∈ c.all := by
  rw [all_eq, List.mem_cons, List.mem_flatMap]

-- Induction on an occurrence through its children.
theorem induction {motive : Occurrence → Prop} (step : ∀ o, (∀ c ∈ o.children, motive c) → motive o)
    (o : Occurrence) : motive o := by
  obtain ⟨t, mode, around⟩ := o
  induction t using Tree.induction generalizing mode around with
  | node t ih =>
    apply step
    intro c listed
    exact ih c.node (node_mem_of_place listed).1 c.mode c.around

inductive Within (root : Occurrence) : Occurrence → Prop
  | root : Within root root
  | child {o c : Occurrence} (inside : Within root o) (listed : c ∈ o.children) : Within root c

theorem Within.trans {root o o' : Occurrence} (first : Within root o) (second : Within o o') :
    Within root o' := by
  induction second with
  | root => exact first
  | child _ listed ih => exact .child ih listed

theorem mem_all_of_children {root o c : Occurrence} (inside : o ∈ root.all)
    (listed : c ∈ o.children) :
    c ∈ root.all := by
  induction root using Occurrence.induction with
  | step root ih =>
    rw [mem_all]
    rcases mem_all.1 inside with rfl | ⟨b, isChild, below⟩
    · exact .inr ⟨c, listed, mem_all.2 (.inl rfl)⟩
    · exact .inr ⟨b, isChild, ih b isChild below⟩

theorem mem_all_iff {root o : Occurrence} : o ∈ root.all ↔ Within root o := by
  constructor
  · intro inside
    induction root using Occurrence.induction with
    | step root ih =>
      rcases mem_all.1 inside with rfl | ⟨c, isChild, below⟩
      · exact .root
      · exact (Within.root.child isChild).trans (ih c isChild below)
  · intro inside
    induction inside with
    | root => exact mem_all.2 (.inl rfl)
    | child _ listed ih => exact mem_all_of_children ih listed

theorem map_node_all (o : Occurrence) (parent : Option Tree) :
    o.all.map (·.node) = (o.node.withParents parent).map (·.1) := by
  have allChildren (ts : List Tree) (ms : List Mode) (around : List Nat) (parent : Option Tree)
      (each : ∀ c ∈ place ms around ts, ∀ parent,
        c.all.map (·.node) = (c.node.withParents parent).map (·.1)) :
      ((place ms around ts).flatMap all).map (·.node) =
        (Tree.withParentsAll parent ts).map (·.1) := by
    induction ts generalizing ms with
    | nil => simp [place, Tree.withParentsAll]
    | cons t ts ih =>
      rw [place, List.flatMap_cons, List.map_append, Tree.withParentsAll, List.map_append,
        each _ List.mem_cons_self parent, ih _ fun c listed =>
          each c (List.mem_cons_of_mem _ listed)]
  induction o using Occurrence.induction generalizing parent with
  | step o ih =>
    have below := allChildren o.node.children (o.mode.below o.node) o.inner (some o.node)
      fun c listed parent => ih c listed parent
    rw [all_eq, List.map_cons, children, below]
    obtain ⟨t, mode, around⟩ := o
    cases t
    rw [Tree.withParents]
    rfl

theorem exists_decl?_iff {root : Occurrence} {i : Nat} {d : TypeDecl}
    (apart : ∀ o ∈ root.all, ArgumentsApart o.node) :
    (∃ o ∈ root.all, o.decl? = some (i, d)) ↔ root.mode.Lists root.node i d := by
  induction root using Occurrence.induction with
  | step root ih =>
    have children : (∃ c ∈ root.children, ∃ o ∈ c.all, o.decl? = some (i, d)) ↔
        ∃ c ∈ root.children, c.mode.Lists c.node i d := by
      apply exists_congr
      intro c
      apply and_congr_right
      intro listed
      exact ih c listed fun o below => apart o (mem_all.2 (.inr ⟨c, listed, below⟩))
    have self := apart root (mem_all.2 (.inl rfl))
    have placed : (∃ c ∈ root.children, c.mode.Lists c.node i d) ↔ _ := exists_place_iff
    rw [lists_iff self, ← placed, ← children]
    constructor
    · rintro ⟨o, inside, declares⟩
      rcases mem_all.1 inside with rfl | ⟨c, listed, below⟩
      · exact .inl declares
      · exact .inr ⟨c, listed, o, below, declares⟩
    · rintro (declares | ⟨c, listed, o, below, declares⟩)
      · exact ⟨root, mem_all.2 (.inl rfl), declares⟩
      · exact ⟨o, mem_all.2 (.inr ⟨c, listed, below⟩), declares⟩

end Occurrence

def Mode.Fits (t : Tree) (around : List Nat) : Mode → Prop
  | skip => True
  | unit => around = []
  | visit spot _ | inside spot _ => around.head? = spot.place.outer?
  | anonymous owner _ _ => around.head? = some owner.index ∧ t.kind = "class_body"

namespace Occurrence

def Fits (o : Occurrence) : Prop := o.mode.Fits o.node o.around

section Children

variable {around : List Nat}

theorem fits_visitModes {spot : Spot} (outer : around.head? = spot.place.outer?) (next : Nat)
    (ts : List Tree) :
    ∀ o ∈ place (visitModes spot next ts) around ts, o.Fits := by
  induction ts generalizing next with
  | nil => simp [place]
  | cons t ts ih =>
    rw [visitModes]
    split
    · exact List.forall_mem_cons.2 ⟨outer, ih _⟩
    · exact List.forall_mem_cons.2 ⟨trivial, ih _⟩

theorem fits_besideModes {spot : Spot} (outer : around.head? = spot.place.outer?) (next : Nat)
    (ts : List Tree) :
    ∀ o ∈ place (besideModes spot next ts) around ts, o.Fits := by
  induction ts generalizing next with
  | nil => simp [place]
  | cons t ts ih =>
    rw [besideModes]
    split
    · exact List.forall_mem_cons.2 ⟨outer, ih _⟩
    · exact List.forall_mem_cons.2 ⟨trivial, ih _⟩

theorem fits_topModes (package : Option Name) (next : Nat) (ts : List Tree) :
    ∀ o ∈ place (topModes package next ts) [] ts, o.Fits := by
  induction ts generalizing package next with
  | nil => simp [place]
  | cons t ts ih =>
    rw [topModes]
    split
    · exact List.forall_mem_cons.2 ⟨rfl, ih _ _⟩
    · exact List.forall_mem_cons.2 ⟨trivial, ih _ _⟩

theorem fits_skipped (ts : List Tree) : ∀ o ∈ place [] around ts, o.Fits := by
  induction ts with
  | nil => simp [place]
  | cons t ts ih => exact List.forall_mem_cons.2 ⟨trivial, ih⟩

theorem fits_roleModes (role : String) {spot : Spot} (outer : around.head? = spot.place.outer?)
    (next : Nat) (ts : List Tree) :
    ∀ o ∈ place (roleModes role spot next ts) around ts, o.Fits := by
  induction ts with
  | nil => simp [place]
  | cons t ts ih =>
    rw [roleModes]
    split
    · exact List.forall_mem_cons.2 ⟨outer, fits_skipped ts⟩
    · exact List.forall_mem_cons.2 ⟨trivial, ih⟩

theorem fits_bodyModes {owner : Owner} (outer : around.head? = some owner.index) (base : TypeRef)
    (next : Nat) (ts : List Tree) :
    ∀ o ∈ place (bodyModes owner base next ts) around ts, o.Fits := by
  induction ts with
  | nil => simp [place]
  | cons t ts ih =>
    rw [bodyModes]
    split
    next isBody => exact List.forall_mem_cons.2 ⟨⟨outer, beq_iff_eq.1 isBody⟩, fits_skipped ts⟩
    next => exact List.forall_mem_cons.2 ⟨trivial, ih⟩

theorem fits_merge {ms ns : List Mode} {ts : List Tree} (first : ∀ o ∈ place ms around ts, o.Fits)
    (second : ∀ o ∈ place ns around ts, o.Fits) : ∀ o ∈ place (merge ms ns) around ts, o.Fits := by
  induction ts generalizing ms ns with
  | nil => simp [place]
  | cons t ts ih =>
    obtain ⟨here, later⟩ := List.forall_mem_cons.1 first
    obtain ⟨here', later'⟩ := List.forall_mem_cons.1 second
    rw [place, headD_merge, tail_merge]
    refine List.forall_mem_cons.2 ⟨?_, ih later later'⟩
    generalize ms.headD .skip = m at here
    cases m with
    | skip => exact here'
    | unit | visit | inside | anonymous => exact here

end Children

theorem fits_children {o : Occurrence} (fits : o.Fits) : ∀ c ∈ o.children, c.Fits := by
  obtain ⟨t, mode, around⟩ := o
  cases mode with
  | skip => exact fits_skipped _
  | unit =>
    obtain rfl : around = [] := fits
    exact fits_topModes none 0 _
  | inside spot next => exact fits_visitModes fits _ _
  | anonymous owner base next => exact fits_visitModes rfl _ _
  | visit spot next =>
    unfold children inner decl?
    dsimp only [Mode.below, Mode.decl?]
    cases TypeKind.ofNodeKind? t.kind with
    | some k => exact fits_roleModes "body" rfl _ _
    | none =>
      have same : around.head? = spot.place.outer? := fits
      cases spot with
      | top package => exact fits_skipped _
      | body owner =>
        have inCode : around.head? = (Spot.code owner).place.outer? := same
        dsimp only
        split
        · exact fits_visitModes inCode _ _
        · split
          · exact fits_visitModes same _ _
          · split
            · exact fits_merge (fits_roleModes _ inCode _ _) (fits_bodyModes same _ _ _)
            · exact fits_skipped _
      | code owner =>
        dsimp only
        split
        · exact fits_merge (fits_bodyModes same _ _ _) (fits_besideModes same _ _)
        · exact fits_visitModes same _ _

theorem Within.fits {root o : Occurrence} (inside : Within root o) (fits : root.Fits) : o.Fits := by
  induction inside with
  | root => exact fits
  | child _ listed ih => exact fits_children ih _ listed

-- Only the kinds of type declarations and class bodies declare a type.
theorem decl?_eq_none {o : Occurrence} (fits : o.Fits)
    (noType : TypeKind.ofNodeKind? o.node.kind = none) (noBody : o.node.kind ≠ "class_body") :
    o.decl? = none := by
  obtain ⟨t, mode, around⟩ := o
  cases mode with
  | skip | unit | inside => rfl
  | visit spot next => simp [decl?, Mode.decl?, show TypeKind.ofNodeKind? t.kind = none from noType]
  | anonymous owner base next => exact absurd fits.2 noBody

theorem inner_of_decl? {o : Occurrence} {i : Nat} {d : TypeDecl}
    (declares : o.decl? = some (i, d)) :
    o.inner = i :: o.around := by
  simp [inner, declares]

theorem inner_eq_around {o : Occurrence} (declares : o.decl? = none) : o.inner = o.around := by
  simp [inner, declares]

theorem node_of_decl? {o : Occurrence} {i : Nat} {d : TypeDecl} (declares : o.decl? = some (i, d)) :
    d.node = o.node := by
  obtain ⟨t, mode, around⟩ := o
  cases mode with
  | skip | unit | inside => cases declares
  | visit spot next =>
    obtain ⟨k, -, same⟩ := Option.map_eq_some_iff.1 declares
    obtain ⟨rfl, rfl⟩ := Prod.mk.inj same
    exact node_declare spot k t
  | anonymous owner base next =>
    obtain ⟨rfl, rfl⟩ := Prod.mk.inj (Option.some.inj declares)
    rfl

theorem outer_of_decl? {o : Occurrence} {i : Nat} {d : TypeDecl} (fits : o.Fits)
    (declares : o.decl? = some (i, d)) : o.around.head? = d.place.outer? := by
  obtain ⟨t, mode, around⟩ := o
  cases mode with
  | skip | unit | inside => cases declares
  | visit spot next =>
    obtain ⟨k, -, same⟩ := Option.map_eq_some_iff.1 declares
    obtain ⟨rfl, rfl⟩ := Prod.mk.inj same
    rw [place_declare]
    exact fits
  | anonymous owner base next =>
    obtain ⟨rfl, rfl⟩ := Prod.mk.inj (Option.some.inj declares)
    exact fits.1

theorem exists_role_child {ts : List Tree} {role : String} {b : Tree}
    (found : ts.find? (·.role == some role) = some b) (spot : Spot) (next : Nat)
    (around : List Nat) :
    ⟨b, .inside spot next, around⟩ ∈ place (roleModes role spot next ts) around ts := by
  induction ts with
  | nil => cases found
  | cons t ts ih =>
    rw [roleModes]
    cases hit : t.role == some role with
    | true =>
      simp only [List.find?_cons, hit, Option.some.injEq] at found
      obtain rfl := found
      exact List.mem_cons_self
    | false =>
      simp only [List.find?_cons, hit] at found
      exact List.mem_cons_of_mem _ (ih found)

end Occurrence

def Holds (body n : Tree) : Prop :=
  ∃ m ∈ memberNodes body, n = m ∨
    ((m.kind = "field_declaration" ∨ m.kind = "constant_declaration") ∧ n ∈ m.children)

section Members

variable {n : Tree}

theorem node_of_method? {t : Tree} {m : Method} (made : method? t = some m) : m.node = some t := by
  unfold method? at made
  split at made
  · cases made
  · obtain ⟨name, -, rfl⟩ := Option.map_eq_some_iff.1 made
    rfl

theorem node_of_constructor? {owner : String} {components : List Param} {t : Tree} {c : Constructor}
    (made : constructor? owner components t = some c) : c.node = some t := by
  unfold constructor? at made
  split at made
  · obtain rfl := Option.some.inj made
    rfl
  · obtain rfl := Option.some.inj made
    rfl
  · cases made

theorem node_of_fieldsOf {owner : String} {kind : TypeKind} {t : Tree} {f : Field}
    (listed : f ∈ fieldsOf owner kind t) (node : f.node = some n) :
    n = t ∨
      ((t.kind = "field_declaration" ∨ t.kind = "constant_declaration") ∧ n ∈ t.children) := by
  have ofDeclarator {isStatic : Bool}
      (listed : f ∈ (t.childrenIn "declarator").filterMap (declarator? isStatic t)) :
        n ∈ t.children := by
    obtain ⟨c, isChild, made⟩ := List.mem_filterMap.1 listed
    simp only [declarator?, Option.bind_eq_bind, Option.bind_eq_some_iff, Option.pure_def,
      Option.some.injEq] at made
    obtain ⟨name, -, type, -, rfl⟩ := made
    obtain rfl := Option.some.inj node
    exact (List.mem_filter.1 isChild).1
  unfold fieldsOf at listed
  split at listed
  next kind => exact .inr ⟨.inl kind, ofDeclarator listed⟩
  next kind => exact .inr ⟨.inr kind, ofDeclarator listed⟩
  next kind =>
    rw [Option.mem_toList] at listed
    obtain ⟨name, -, rfl⟩ := Option.map_eq_some_iff.1 listed
    exact .inl (Option.some.inj node).symm
  next => cases listed

theorem holds_of_withMembers {components : List Param} {body : Option Tree} {d : TypeDecl}
    {m : Member} (listed : m ∈ (withMembers components body d).members) (node : m.node? = some n) :
    ∃ b, body = some b ∧ Holds b n := by
  have inBody {x : Tree} (member : x ∈ (body.map memberNodes).getD []) :
      ∃ b, body = some b ∧ x ∈ memberNodes b := by
    cases body with
    | none => cases member
    | some b => exact ⟨b, rfl, member⟩
  simp only [TypeDecl.members, withMembers, List.mem_append, List.mem_map, List.mem_filterMap,
    List.mem_flatMap] at listed
  rcases listed with (⟨y, ⟨x, member, made⟩, rfl⟩ | ⟨y, ⟨x, member, made⟩, rfl⟩)
    | ⟨y, ⟨x, member, made⟩, rfl⟩
  · obtain ⟨b, isBody, inside⟩ := inBody member
    have same := (node_of_method? made).symm.trans node
    exact ⟨b, isBody, x, inside, .inl (Option.some.inj same).symm⟩
  · obtain ⟨b, isBody, inside⟩ := inBody member
    have same := (node_of_constructor? made).symm.trans node
    exact ⟨b, isBody, x, inside, .inl (Option.some.inj same).symm⟩
  · obtain ⟨b, isBody, inside⟩ := inBody member
    exact ⟨b, isBody, x, inside, node_of_fieldsOf made node⟩

-- What comes with the components of a record has no node.
theorem mem_members_of_withComponents {components : List Param} {d : TypeDecl} {m : Member}
    (listed : m ∈ (withComponents components d).members) (node : m.node? = some n) :
    m ∈ d.members := by
  have constructors {c : Constructor} (made : c ∈ (withComponents components d).constructors)
      (node : c.node = some n) : c ∈ d.constructors := by
    simp only [withComponents] at made
    split at made
    · exact made
    · rcases List.mem_append.1 made with written | canonical
      · exact written
      · obtain rfl := List.mem_singleton.1 canonical
        cases node
  simp only [TypeDecl.members, List.mem_append, List.mem_map] at listed ⊢
  rcases listed with (⟨y, made, rfl⟩ | ⟨y, made, rfl⟩) | ⟨y, made, rfl⟩
  · rcases List.mem_append.1 made with written | accessor
    · exact .inl (.inl ⟨y, written, rfl⟩)
    · obtain ⟨p, -, rfl⟩ := List.mem_map.1 accessor
      cases node
  · exact .inl (.inr ⟨y, constructors made node, rfl⟩)
  · rcases List.mem_append.1 made with written | component
    · exact .inr ⟨y, written, rfl⟩
    · obtain ⟨p, -, rfl⟩ := List.mem_map.1 component
      cases node

theorem holds_of_declare {spot : Spot} {kind : TypeKind} {t : Tree} {m : Member}
    (listed : m ∈ (declare spot kind t).members) (node : m.node? = some n) :
    ∃ b, t.child? "body" = some b ∧ Holds b n := by
  simp only [declare] at listed
  split at listed
  · exact holds_of_withMembers (mem_members_of_withComponents listed node) node
  · exact holds_of_withMembers listed node

theorem memberNodes_eq (t : Tree) : memberNodes t = memberNodesIn t.children := by
  cases t
  rw [memberNodes]

theorem mem_memberNodesIn {m : Tree} {ts : List Tree} (listed : m ∈ memberNodesIn ts) :
    ∃ t ∈ ts, m = t ∨ (t.kind = "enum_body_declarations" ∧ m ∈ memberNodes t) := by
  induction ts with
  | nil => simp [memberNodesIn] at listed
  | cons t ts ih =>
    rw [memberNodesIn] at listed
    rcases List.mem_append.1 listed with here | later
    · refine ⟨t, List.mem_cons_self, ?_⟩
      split at here
      · cases here
      · split at here
        next isRest => exact .inr ⟨beq_iff_eq.1 isRest, here⟩
        next => exact .inl (List.mem_singleton.1 here)
    · obtain ⟨u, isChild, found⟩ := ih later
      exact ⟨u, List.mem_cons_of_mem _ isChild, found⟩

end Members

namespace Occurrence

variable {root : Occurrence}

theorem exists_child (o : Occurrence) {t : Tree} (listed : t ∈ o.node.children) :
    ∃ c ∈ o.children, c.node = t ∧ c.around = o.inner := by
  obtain ⟨c, placed, node⟩ := exists_place_of_mem listed (o.mode.below o.node) o.inner
  exact ⟨c, placed, node, (node_mem_of_place placed).2⟩

theorem exists_memberNode {o : Occurrence} {m : Tree} (fits : root.Fits) (inside : Within root o)
    (listed : m ∈ memberNodes o.node) : ∃ c, Within root c ∧ c.node = m ∧ c.around = o.inner := by
  induction o using Occurrence.induction with
  | step o ih =>
    rw [memberNodes_eq] at listed
    obtain ⟨t, isChild, found⟩ := mem_memberNodesIn listed
    obtain ⟨c, child, node, around⟩ := o.exists_child isChild
    have below := inside.child child
    rcases found with rfl | ⟨kind, deeper⟩
    · exact ⟨c, below, node, around⟩
    · have plain : c.decl? = none := decl?_eq_none (below.fits fits) (by rw [node, kind]; rfl)
        (by simp [node, kind])
      obtain ⟨e, within, isMember, same⟩ := ih c child below (node ▸ deeper)
      exact ⟨e, within, isMember, by rw [same, inner_eq_around plain, around]⟩

theorem exists_held {o : Occurrence} {n : Tree} (fits : root.Fits) (inside : Within root o)
    (holds : Holds o.node n) : ∃ c, Within root c ∧ c.node = n ∧ c.around = o.inner := by
  obtain ⟨m, listed, member⟩ := holds
  obtain ⟨c, below, node, around⟩ := exists_memberNode fits inside listed
  rcases member with rfl | ⟨kind, isChild⟩
  · exact ⟨c, below, node, around⟩
  · have plain : c.decl? = none := by
      rw [← node] at kind
      rcases kind with kind | kind
      · exact decl?_eq_none (below.fits fits) (by rw [kind]; rfl) (by simp [kind])
      · exact decl?_eq_none (below.fits fits) (by rw [kind]; rfl) (by simp [kind])
    obtain ⟨e, child, isNode, same⟩ := c.exists_child (node ▸ isChild)
    exact ⟨e, below.child child, isNode, by rw [same, inner_eq_around plain, around]⟩

theorem exists_member {o : Occurrence} {i : Nat} {d : TypeDecl} {m : Member} {n : Tree}
    (fits : root.Fits) (inside : Within root o) (declares : o.decl? = some (i, d))
    (listed : m ∈ d.members)
    (node : m.node? = some n) : ∃ c, Within root c ∧ c.node = n ∧ c.around.head? = some i := by
  have around := inner_of_decl? declares
  obtain ⟨t, mode, outer⟩ := o
  cases mode with
  | skip | unit | inside => cases declares
  | visit spot next =>
    obtain ⟨k, isType, same⟩ := Option.map_eq_some_iff.1 declares
    obtain ⟨rfl, rfl⟩ := Prod.mk.inj same
    obtain ⟨b, isBody, holds⟩ := holds_of_declare listed node
    have body : ⟨b, .inside (.body ⟨next, (declare spot k t).name, (declare spot k t).qualified⟩)
        (next + 1), (Occurrence.mk t (.visit spot next) outer).inner⟩ ∈
          (Occurrence.mk t (.visit spot next) outer).children := by
      unfold children
      dsimp only [Mode.below]
      rw [isType]
      exact exists_role_child isBody _ _ _
    obtain ⟨c, within, isNode, same⟩ := exists_held fits (inside.child body) holds
    exact ⟨c, within, isNode, by rw [same, inner_eq_around rfl, around]; rfl⟩
  | anonymous owner base next =>
    obtain ⟨rfl, rfl⟩ := Prod.mk.inj (Option.some.inj declares)
    obtain ⟨b, isBody, holds⟩ := holds_of_withMembers listed node
    obtain rfl := Option.some.inj isBody
    obtain ⟨c, within, isNode, same⟩ := exists_held fits inside holds
    exact ⟨c, within, isNode, by rw [same, around]; rfl⟩

end Occurrence

end Outline

end RefGraph

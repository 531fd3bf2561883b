import Mathlib.Data.List.Nodup
import RefGraph.Proofs.Makers
import RefGraph.Proofs.Occurrences
import RefGraph.Proofs.WalkLoop

set_option autoImplicit false

namespace RefGraph

namespace SourceUnit

def nodes (u : SourceUnit) : List Tree := (u.tree.withParents none).map (·.1)

def declarationNodes (u : SourceUnit) : List Tree :=
  u.nodes.filter fun t => (u.declarationAt? t).isSome

structure Distinct (u : SourceUnit) : Prop where
  declarations : (u.index.map (·.1)).Nodup
  nodes : (u.declarationNodes.map Tree.key).Nodup
  -- By the grammar of the language these are in parentheses; a class body there would be met twice.
  arguments : ∀ t ∈ u.nodes, Outline.ArgumentsApart t

/-- Types from the inside out: the type around each is the next one, and the last is at the top. -/
def Chained (u : SourceUnit) : List Nat → Prop
  | [] => True
  | i :: is => (∃ d, u.type? i = some d ∧ d.place.outer? = is.head?) ∧ u.Chained is

variable {u : SourceUnit}

theorem Parsed.outer_lt (parsed : u.Parsed) {i o : Nat} {d : TypeDecl} (found : u.type? i = some d)
    (outer : d.place.outer? = some o) : o < i := by
  obtain ⟨-, top | ⟨o', same, -, before⟩⟩ := parsed.placed i d found
  · simp [outer] at top
  · obtain rfl := Option.some.inj (same.symm.trans outer)
    omega

-- More depth than there are types before a type adds nothing.
theorem Parsed.enclosingFrom_eq (parsed : u.Parsed) {i depth : Nat} (enough : i < depth) :
    u.enclosingFrom depth i = u.enclosing i := by
  induction i using Nat.strongRecOn generalizing depth with
  | ind i ih =>
    obtain ⟨depth, rfl⟩ : ∃ k, depth = k + 1 := ⟨depth - 1, by omega⟩
    unfold enclosing
    rw [enclosingFrom, enclosingFrom]
    cases outer : (u.type? i).bind (·.place.outer?) with
    | none => rfl
    | some o =>
      obtain ⟨d, found, isOuter⟩ := Option.bind_eq_some_iff.1 outer
      have before := parsed.outer_lt found isOuter
      dsimp only
      rw [ih o before (Nat.lt_of_lt_of_le before (Nat.le_of_lt_succ enough)), ih o before before]

theorem Parsed.enclosing_of_chained (parsed : u.Parsed) {i : Nat} {is : List Nat}
    (chained : u.Chained (i :: is)) :
    u.enclosing i = i :: is := by
  induction is generalizing i with
  | nil =>
    obtain ⟨⟨d, found, outer⟩, -⟩ := chained
    simp only [enclosing, enclosingFrom, found, Option.bind_some, outer]
    rfl
  | cons o is ih =>
    obtain ⟨⟨d, found, outer⟩, rest⟩ := chained
    have isOuter : d.place.outer? = some o := outer
    simp only [enclosing, enclosingFrom, found, Option.bind_some, isOuter]
    rw [parsed.enclosingFrom_eq (parsed.outer_lt found isOuter), ih rest]

theorem mem_index_of_type? {i : Nat} {d : TypeDecl} (found : u.type? i = some d) :
    (d.node.key, DeclRef.type i) ∈ u.index := mem_index_iff.2 ⟨d, found, .inl ⟨rfl, rfl⟩⟩

theorem declarationAt?_congr {t t' : Tree} (same : t.key = t'.key) :
    u.declarationAt? t = u.declarationAt? t' := by
  unfold declarationAt?
  rw [same]

theorem declarationAt?_eq_some {t : Tree} {r : DeclRef} (listed : (t.key, r) ∈ u.index)
    (only : ∀ r', (t.key, r') ∈ u.index → r' = r) : u.declarationAt? t = some r := by
  obtain ⟨entry, hit⟩ : ∃ entry, u.index.find? (fun entry => entry.1 == t.key) = some entry := by
    rw [← Option.isSome_iff_exists, List.find?_isSome]
    exact ⟨_, listed, beq_self_eq_true _⟩
  have same : entry.1 = t.key := by simpa using List.find?_some hit
  have among : (t.key, entry.2) ∈ u.index := by
    rw [← same]
    exact List.mem_of_find?_eq_some hit
  rw [declarationAt?, hit, Option.map_some, only _ among]

theorem exists_member_of_declarationAt? {t : Tree} {r : DeclRef}
    (found : u.declarationAt? t = some r) (isMember : ∀ i, r ≠ .type i) :
    ∃ d m n, u.type? r.typeIndex = some d ∧ m ∈ d.members ∧ m.node? = some n ∧ n.key = t.key := by
  obtain ⟨d, type, ⟨isType, -⟩ | ⟨m, n, member, node, key⟩⟩ :=
    mem_index_iff.1 (mem_index_of_declarationAt? found)
  · exact absurd isType (isMember _)
  · exact ⟨d, m, n, type, TypeDecl.member?_mem member, node, key.symm⟩

-- The type that a node declares.
def typeAt? (u : SourceUnit) (t : Tree) : Option Nat :=
  match u.declarationAt? t with
  | some (.type i) => some i
  | _ => none

theorem typeAt?_eq_some {t : Tree} {i : Nat} :
    u.typeAt? t = some i ↔ u.declarationAt? t = some (.type i) := by
  unfold typeAt?
  split <;> simp_all

def root (u : SourceUnit) : Outline.Occurrence := ⟨u.tree, .unit, []⟩

open Outline Outline.Occurrence

theorem fits_root : u.root.Fits := rfl

theorem map_node_root : u.root.all.map (·.node) = u.nodes := u.root.map_node_all none

theorem Parsed.lists_iff (parsed : u.Parsed) {i : Nat} {d : TypeDecl} :
    u.root.mode.Lists u.root.node i d ↔ u.type? i = some d := by
  obtain ⟨path, tree, rfl⟩ := parsed
  simp [Mode.Lists, Listed, Mode.next, Mode.outline, root, ofTree, type?]

theorem Parsed.exists_decl?_iff (parsed : u.Parsed) (arguments : ∀ t ∈ u.nodes, ArgumentsApart t)
    {i : Nat} {d : TypeDecl} : (∃ o, Within u.root o ∧ o.decl? = some (i, d)) ↔
      u.type? i = some d := by
  rw [← parsed.lists_iff, ← Occurrence.exists_decl?_iff]
  · simp only [mem_all_iff]
  · intro o inside
    apply arguments
    rw [← map_node_root]
    exact List.mem_map_of_mem inside

-- Where keys tell nodes of some sort apart, such a node occurs once.
theorem occurrence_eq_of_key {p : Tree → Bool} (keys : ((u.nodes.filter p).map Tree.key).Nodup)
    {o o' : Occurrence} (inside : Within u.root o) (inside' : Within u.root o')
    (holds : p o.node = true) (holds' : p o'.node = true)
    (same : o'.node.key = o.node.key) : o' = o := by
  rw [← map_node_root, List.filter_map, List.map_map] at keys
  apply List.inj_on_of_nodup_map keys
  · exact List.mem_filter.2 ⟨mem_all_iff.2 inside', holds'⟩
  · exact List.mem_filter.2 ⟨mem_all_iff.2 inside, holds⟩
  · exact same

namespace Distinct

variable (distinct : u.Distinct)

include distinct

theorem declarationAt?_of_mem {t : Tree} {r : DeclRef} (listed : (t.key, r) ∈ u.index) :
    u.declarationAt? t = some r := by
  apply declarationAt?_eq_some listed
  intro r' listed'
  exact congrArg Prod.snd (List.inj_on_of_nodup_map distinct.declarations listed' listed rfl)

-- A node that is taken for a declaration occurs once.
theorem occurrence_unique {o o' : Occurrence} (inside : Within u.root o)
    (inside' : Within u.root o') (declared : (u.declarationAt? o.node).isSome)
    (same : o'.node.key = o.node.key) : o' = o := by
  apply occurrence_eq_of_key distinct.nodes inside inside' declared _ same
  rwa [declarationAt?_congr same]

theorem exists_decl?_iff (parsed : u.Parsed) {i : Nat} {d : TypeDecl} :
    (∃ o, Within u.root o ∧ o.decl? = some (i, d)) ↔ u.type? i = some d :=
  parsed.exists_decl?_iff distinct.arguments

theorem typeAt?_eq (parsed : u.Parsed) {o : Occurrence} (inside : Within u.root o) :
    u.typeAt? o.node = o.decl?.map (·.1) := by
  apply Option.ext
  intro i
  rw [typeAt?_eq_some, Option.map_eq_some_iff]
  constructor
  · intro found
    obtain ⟨d, type, key⟩ := type?_of_declarationAt? found
    obtain ⟨o', inside', declares⟩ := (distinct.exists_decl?_iff parsed).2 type
    rw [node_of_decl? declares] at key
    obtain rfl := distinct.occurrence_unique inside inside' (by simp [found]) key
    exact ⟨(i, d), declares, rfl⟩
  · rintro ⟨⟨j, d⟩, declares, rfl⟩
    have type := (distinct.exists_decl?_iff parsed).1 ⟨o, inside, declares⟩
    have entry := mem_index_of_type? type
    rw [node_of_decl? declares] at entry
    exact distinct.declarationAt?_of_mem entry

theorem chained_inner (parsed : u.Parsed) {o : Occurrence} (inside : Within u.root o)
    (chained : u.Chained o.around) : u.Chained o.inner := by
  cases declares : o.decl? with
  | none => rwa [inner_eq_around declares]
  | some entry =>
    obtain ⟨i, d⟩ := entry
    have type := (distinct.exists_decl?_iff parsed).1 ⟨o, inside, declares⟩
    have outer := outer_of_decl? (inside.fits fits_root) declares
    rw [inner_of_decl? declares]
    exact ⟨⟨d, type, outer.symm⟩, chained⟩

theorem chained_around (parsed : u.Parsed) {o : Occurrence} (inside : Within u.root o) :
    u.Chained o.around := by
  induction inside with
  | root => trivial
  | child within listed ih =>
    rw [(node_mem_of_place listed).2]
    exact distinct.chained_inner parsed within ih

theorem around_of_member (parsed : u.Parsed) {o : Occurrence} (inside : Within u.root o)
    {r : DeclRef} (found : u.declarationAt? o.node = some r) (isMember : ∀ i, r ≠ .type i) :
    o.around.head? = some r.typeIndex := by
  obtain ⟨d, m, n, type, listed, node, key⟩ := exists_member_of_declarationAt? found isMember
  obtain ⟨o', inside', declares⟩ := (distinct.exists_decl?_iff parsed).2 type
  obtain ⟨c, within, rfl, around⟩ := exists_member fits_root inside' declares listed node
  obtain rfl := distinct.occurrence_unique inside within (by simp [found]) key
  exact around

end Distinct

end SourceUnit

def World.Nested (w : World) : List TypeId → Prop
  | [] => True
  | id :: ids => w.declaring? id = ids.head? ∧ w.Nested ids

theorem World.nested_of_chained {w : World} {unit : Nat} {is : List Nat}
    (chained : (w.unit unit).Chained is) :
    w.Nested (is.map (TypeId.mk unit)) := by
  induction is with
  | nil => trivial
  | cons i is ih =>
    obtain ⟨⟨d, found, outer⟩, rest⟩ := chained
    refine ⟨?_, ih rest⟩
    rw [declaring?, decl, found, Option.getD_some, outer, List.head?_map]

namespace Sites

open Outline Outline.Occurrence

variable {c : Corpus} {unit : Nat}

theorem types_enterDeclaration (w : World) (unit : Nat) (s : Surroundings) (t : Tree) :
    (s.enterDeclaration w unit t).1.types =
      (((w.unit unit).typeAt? t).map (TypeId.mk unit)).toList ++ s.types ∧
      (s.enterDeclaration w unit t).2.type = ((w.unit unit).typeAt? t).isSome := by
  unfold Surroundings.enterDeclaration SourceUnit.typeAt?
  generalize (w.unit unit).declarationAt? t = found
  split
  next => exact ⟨rfl, rfl⟩
  next => exact ⟨rfl, rfl⟩
  all_goals
    dsimp only
    split
    next => split <;> exact ⟨rfl, rfl⟩
    next => split <;> exact ⟨rfl, rfl⟩
    next => exact ⟨rfl, rfl⟩

theorem types_enter (w : World) (unit : Nat) (s : Surroundings) (t : Tree) :
    (s.enter w unit t).1.types = (((w.unit unit).typeAt? t).map (TypeId.mk unit)).toList ++
      s.types ∧
      (s.enter w unit t).2.type = ((w.unit unit).typeAt? t).isSome := by
  obtain ⟨types, opened⟩ := types_enterDeclaration w unit s t
  rw [(Surroundings.sameStacks_enter w unit s t).types, Surroundings.opened_enter]
  exact ⟨types, opened⟩

-- Every pending node waits in its place, with the types around it that will be open in its turn.
def Waits (u : SourceUnit) : List Task → List Nat → Prop
  | [], around => u.Chained around
  | .walk _ t :: rest, around => (∃ o, Within u.root o ∧ o.node = t ∧ o.around = around) ∧
    Waits u rest around
  | .leave _ opened :: rest, around => u.Chained around ∧
    Waits u rest (if opened.type then around.tail else around)

theorem waits_walkAll {u : SourceUnit} {around : List Nat} {rest : List Task} (parent : Option Tree)
    {ts : List Tree} (each : ∀ t ∈ ts, ∃ o, Within u.root o ∧ o.node = t ∧ o.around = around)
    (later : Waits u rest around) : Waits u (ts.map (Task.walk parent) ++ rest) around := by
  induction ts with
  | nil => exact later
  | cons t ts ih =>
    exact ⟨each t List.mem_cons_self, ih fun u listed => each u (List.mem_cons_of_mem _ listed)⟩

namespace Loop

def Nested (c : Corpus) (unit : Nat) (loop : Loop) : Prop :=
  ∃ around, loop.now.around.types = around.map (TypeId.mk unit) ∧
    Waits (c.world.unit unit) loop.tasks around

variable (parsed : (c.world.unit unit).Parsed) (distinct : (c.world.unit unit).Distinct)

include parsed distinct

theorem chained_of_waits {tasks : List Task} {around : List Nat}
    (waits : Waits (c.world.unit unit) tasks around) :
    (c.world.unit unit).Chained around := by
  cases tasks with
  | nil => exact waits
  | cons task rest =>
    cases task with
    | walk parent t =>
      obtain ⟨⟨o, inside, -, rfl⟩, -⟩ := waits
      exact distinct.chained_around parsed inside
    | leave t opened => exact waits.1

theorem nested_step {loop next : Loop} {events : List Event}
    (steps : loop.step c unit = some (events, next)) (nested : loop.Nested c unit) :
    next.Nested c unit := by
  obtain ⟨tasks, now⟩ := loop
  obtain ⟨around, types, waits⟩ := nested
  cases tasks with
  | nil => cases steps
  | cons task rest =>
    cases task with
    | leave t opened =>
      obtain ⟨-, rfl⟩ := Prod.mk.inj (Option.some.inj steps)
      refine ⟨_, ?_, waits.2⟩
      dsimp only [Moment.leave, Surroundings.leave]
      have same : now.around.types = around.map (TypeId.mk unit) := types
      rw [same]
      split
      · exact List.map_tail.symm
      · rfl
    | walk parent t =>
      obtain ⟨-, rfl⟩ := Prod.mk.inj (Option.some.inj steps)
      obtain ⟨⟨o, inside, rfl, rfl⟩, later⟩ := waits
      have entered := types_enter c.world unit now.around o.node
      have same : now.around.types = o.around.map (TypeId.mk unit) := types
      rw [distinct.typeAt?_eq parsed inside, same] at entered
      refine ⟨o.inner, ?_, waits_walkAll _ ?_ ?_⟩
      · rw [(follows_visit c parent o.node (now.enter c unit o.node)).around]
        refine entered.1.trans ?_
        cases declares : o.decl? <;> simp [Occurrence.inner, declares]
      · intro u listed
        obtain ⟨child, isChild, node, around⟩ := o.exists_child (List.mem_filter.1 listed).1
        exact ⟨child, inside.child isChild, node, around⟩
      · refine ⟨distinct.chained_inner parsed inside (distinct.chained_around parsed inside), ?_⟩
        rw [entered.2]
        cases declares : o.decl? with
        | none => simpa [Occurrence.inner, declares] using later
        | some entry => simpa [Occurrence.inner, declares] using later

theorem nested_of_runs {loop last : Loop} {events : List Event}
    (runs : Loop.Runs c unit loop events last) (nested : loop.Nested c unit) :
    last.Nested c unit := by
  induction runs with
  | refl => exact nested
  | step steps _ ih => exact ih (nested_step parsed distinct steps nested)

omit parsed distinct in
theorem nested_start : (Loop.start (c.world.unit unit).tree).Nested c unit :=
  ⟨[], rfl, ⟨_, .root, rfl, rfl⟩, trivial⟩

theorem enclosing_of_nested {loop : Loop} (nested : loop.Nested c unit) :
    c.world.Nested loop.now.around.types ∧
      ∀ id ids, loop.now.around.types = id :: ids → c.world.enclosing id = id :: ids := by
  obtain ⟨around, types, waits⟩ := nested
  have chained := chained_of_waits parsed distinct waits
  rw [types]
  refine ⟨World.nested_of_chained chained, ?_⟩
  intro id ids same
  cases around with
  | nil => cases same
  | cons i is =>
    obtain ⟨rfl, rfl⟩ := List.cons.inj same
    rw [World.enclosing, parsed.enclosing_of_chained chained]
    rfl

end Loop

/-- At every moment of the walk the types around are those that the outline has around the innermost
of them. -/
theorem types_nest_as_declared (c : Corpus) (unit : Nat) (parsed : (c.world.unit unit).Parsed)
    (distinct : (c.world.unit unit).Distinct) {events : List Event} {loop : Loop}
    (reached : Loop.Runs c unit (.start (c.world.unit unit).tree) events loop) :
    c.world.Nested loop.now.around.types ∧
    (∀ id ids, loop.now.around.types = id :: ids → c.world.enclosing id = id :: ids) ∧
    ∀ parent t rest, loop.tasks = .walk parent t :: rest →
      (∀ r, (c.world.unit unit).declarationAt? t = some r → (∀ i, r ≠ .type i) →
        loop.now.around.types.head? = some ⟨unit, r.typeIndex⟩) ∧
      ∀ site, (loop.now.enter c unit t).around.site? c.world parent t = some site →
        site.context.enclosing = (loop.now.enter c unit t).around.types := by
  have nested := Loop.nested_of_runs parsed distinct reached Loop.nested_start
  obtain ⟨chain, enclosing⟩ := Loop.enclosing_of_nested parsed distinct nested
  refine ⟨chain, enclosing, ?_⟩
  intro parent t rest pending
  obtain ⟨tasks, now⟩ := loop
  obtain rfl : tasks = .walk parent t :: rest := pending
  constructor
  · intro r found isMember
    obtain ⟨around, types, ⟨o, inside, rfl, rfl⟩, -⟩ := nested
    have member := distinct.around_of_member parsed inside found isMember
    rw [types, List.head?_map, member]
    rfl
  · intro site isSite
    -- The types after entering are those of the next moment.
    have next := Loop.nested_step parsed distinct rfl nested
    obtain ⟨-, after⟩ := Loop.enclosing_of_nested parsed distinct next
    dsimp only at after
    rw [(follows_visit c parent t (now.enter c unit t)).around] at after
    unfold Surroundings.site? at isSite
    split at isSite
    · split at isSite
      next owner _ innermost rest _ types =>
        obtain rfl := Option.some.inj isSite
        exact (after innermost rest types).trans types.symm
      next => cases isSite
    · cases isSite

def Loop.runFor (c : Corpus) (unit : Nat) : Nat → Loop → List Event × Loop
  | 0, loop => ([], loop)
  | steps + 1, loop =>
    match loop.step c unit with
    | none => ([], loop)
    | some (first, next) => (first ++ (runFor c unit steps next).1, (runFor c unit steps next).2)

theorem Loop.runs_runFor (steps : Nat) (loop : Loop) :
    Loop.Runs c unit loop (loop.runFor c unit steps).1 (loop.runFor c unit steps).2 := by
  induction steps generalizing loop with
  | zero => exact .refl loop
  | succ steps ih =>
    rw [runFor]
    split
    next => exact .refl loop
    next first next taken => exact .step taken (ih next)

-- The file `enum E { X(new Object() { g() {} }) { m() { class L { k() {} } } } }`: types in the
-- arguments and in the body of a constant, and a class in the code of a member.
def enumBodies : Corpus where
  world :=
    let anonymous := Node.creation 3 "Object" [] [Node.method 4 [] "g" [] []]
    let members := [Node.method 6 [] "m" [] [Node.classDecl 7 "L" [] [Node.method 8 [] "k" [] []]]]
    let constant : Tree := { kind := "enum_constant", start := 2, children := [
      Node.name "X", Node.arguments [anonymous], Node.body "class_body" 5 members] }
    let tree := Node.file [{ kind := "enum_declaration", start := 1, children := [
      Node.name "E", Node.body "enum_body" 1 [constant]] }]
    { units := [SourceUnit.ofTree none tree] }

theorem types_nest_as_declared_enumBodies :
    let loop := ((Loop.start (enumBodies.world.unit 0).tree).runFor enumBodies 0 37).2
    (enumBodies.world.unit 0).Distinct ∧ loop.now.around.types = [⟨0, 3⟩, ⟨0, 2⟩, ⟨0, 0⟩] ∧
      enumBodies.world.enclosing ⟨0, 3⟩ = [⟨0, 3⟩, ⟨0, 2⟩, ⟨0, 0⟩] := by
  intro loop
  have parsed : (enumBodies.world.unit 0).Parsed := ⟨none, _, rfl⟩
  have distinct : (enumBodies.world.unit 0).Distinct := by
    constructor
    · decide +kernel
    · decide +kernel
    · decide +kernel
  have types : loop.now.around.types = [⟨0, 3⟩, ⟨0, 2⟩, ⟨0, 0⟩] := by decide +kernel
  obtain ⟨-, enclosing, -⟩ :=
    types_nest_as_declared enumBodies 0 parsed distinct (Loop.runs_runFor 37 _)
  exact ⟨distinct, types, enclosing _ _ types⟩

end Sites

end RefGraph

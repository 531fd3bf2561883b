import RefGraph.Dependency
import RefGraph.Proofs.LocalFrames

/-!
The walk over a unit as a loop. The tasks that are left stand on a stack: nodes that are still to be
entered, and nodes that are still to be left, with what entering them opened.
-/

set_option autoImplicit false

namespace RefGraph

namespace Tree

mutual
def preorder : Tree → List Tree
  | t@{ children, .. } => t :: preorderAll children

def preorderAll : List Tree → List Tree
  | [] => []
  | t :: ts => (if t.named then preorder t else []) ++ preorderAll ts
end

mutual
def postorder : Tree → List Tree
  | t@{ children, .. } => postorderAll children ++ [t]

def postorderAll : List Tree → List Tree
  | [] => []
  | t :: ts => (if t.named then postorder t else []) ++ postorderAll ts
end

theorem preorder_eq (t : Tree) : t.preorder = t :: preorderAll t.children := by
  cases t
  rw [preorder]

theorem postorder_eq (t : Tree) : t.postorder = postorderAll t.children ++ [t] := by
  cases t
  rw [postorder]

end Tree

namespace Corpus

variable (c : Corpus)

-- The types of local variables after the sites, given those before.
def knownFrom (known : LocalTypes) (sites : List Site) : LocalTypes :=
  sites.foldl (fun known s => (c.resolveSite s known).2) known

theorem knownFrom_append (known : LocalTypes) (first second : List Site) :
    c.knownFrom known (first ++ second) = c.knownFrom (c.knownFrom known first) second :=
  List.foldl_append

theorem resolveSites_append (known : LocalTypes) (first second : List Site) :
    c.resolveSites known (first ++ second) =
      c.resolveSites known first ++ c.resolveSites (c.knownFrom known first) second := by
  induction first generalizing known with
  | nil => rfl
  | cons s ss ih => exact congrArg (_ :: ·) (ih _)

end Corpus

namespace Sites

-- What the loop has collected: the surroundings of the next node, the types of local variables.
structure Moment where
  around : Surroundings := {}
  known : LocalTypes := []

inductive Event where
  | entered (t : Tree)
  | visited (t : Tree) (outcome : Option Corpus.Outcome)
  | left (t : Tree)

namespace Event

def entered? : Event → Option Tree
  | entered t => some t
  | _ => none

def visited? : Event → Option Tree
  | visited t _ => some t
  | _ => none

def left? : Event → Option Tree
  | left t => some t
  | _ => none

def outcome? : Event → Option Corpus.Outcome
  | visited _ outcome => outcome
  | _ => none

end Event

inductive Task where
  | walk (parent : Option Tree) (t : Tree)
  | leave (t : Tree) (opened : Opened)

structure Loop where
  tasks : List Task
  now : Moment := {}

def Loop.start (tree : Tree) : Loop where
  tasks := [.walk none tree]

variable (c : Corpus) (unit : Nat)

def visit (parent : Option Tree) (t : Tree) (now : Moment) : List Event × Moment :=
  if t.is siteNodes then
    match now.around.site? c.world parent t with
    | some s =>
      let (outcome, known) := c.resolveSite s now.known
      ([.visited t (some outcome)], { now with known })
    | none => ([.visited t none], now)
  else ([], now)

def Moment.enter (now : Moment) (t : Tree) : Moment :=
  { now with around := (now.around.enter c.world unit t).1 }

def Moment.leave (now : Moment) (opened : Opened) :
    Moment := { now with around := now.around.leave opened }

def Loop.step : Loop → Option (List Event × Loop)
  | ⟨[], _⟩ => none
  | ⟨.leave t opened :: rest, now⟩ => some ([.left t], ⟨rest, now.leave opened⟩)
  | ⟨.walk parent t :: rest, now⟩ =>
    let visited := visit c parent t (now.enter c unit t)
    let inside := t.namedChildren.map (Task.walk (some t))
    some (.entered t :: visited.1,
      ⟨inside ++ .leave t (now.around.enter c.world unit t).2 :: rest, visited.2⟩)

inductive Loop.Runs : Loop → List Event → Loop → Prop
  | refl (loop : Loop) : Runs loop [] loop
  | step {loop next last : Loop} {first rest : List Event}
      (steps : loop.step c unit = some (first, next)) (runs : Runs next rest last) :
        Runs loop (first ++ rest) last

mutual
/-- The recursion: enter a node, visit it, do the same with its named children, leave it. -/
def trace (parent : Option Tree) (now : Moment) : Tree → List Event × Moment
  | t@{ children, .. } =>
    let visited := visit c parent t (now.enter c unit t)
    let below := traceAll (some t) visited.2 children
    (.entered t :: visited.1 ++ below.1 ++ [.left t],
      below.2.leave (now.around.enter c.world unit t).2)

def traceAll (parent : Option Tree) (now : Moment) : List Tree → List Event × Moment
  | [] => ([], now)
  | t :: ts =>
    if t.named then
      let here := trace parent now t
      let rest := traceAll parent here.2 ts
      (here.1 ++ rest.1, rest.2)
    else traceAll parent now ts
end

theorem trace_eq (parent : Option Tree) (now : Moment) (t : Tree) :
    trace c unit parent now t =
      (.entered t :: (visit c parent t (now.enter c unit t)).1 ++
          (traceAll c unit (some t) (visit c parent t (now.enter c unit t)).2 t.children).1 ++
            [.left t],
        (traceAll c unit (some t) (visit c parent t (now.enter c unit t)).2 t.children).2.leave
          (now.around.enter c.world unit t).2) := by
  cases t
  rw [trace]

namespace Loop.Runs

variable {c unit}

theorem trans {loop next last : Loop} {first second : List Event}
    (begins : Runs c unit loop first next) (ends : Runs c unit next second last) :
    Runs c unit loop (first ++ second) last := by
  induction begins with
  | refl => exact ends
  | step steps _ ih =>
    rw [List.append_assoc]
    exact .step steps (ih ends)

theorem one {loop next : Loop} {events : List Event}
    (steps : loop.step c unit = some (events, next)) :
    Runs c unit loop events next := by
  have once := Runs.step steps (.refl next)
  rwa [List.append_nil] at once

theorem eq_of_done {loop last : Loop} {events : List Event} (runs : Runs c unit loop events last)
    (done : loop.tasks = []) : events = [] ∧ last = loop := by
  cases runs with
  | refl => exact ⟨rfl, rfl⟩
  | step steps =>
    obtain ⟨tasks, now⟩ := loop
    obtain rfl : tasks = [] := done
    cases steps

-- There is one step at most, so there is one run to the end.
theorem unique {loop last last' : Loop} {events events' : List Event}
    (runs : Runs c unit loop events last) (done : last.tasks = [])
    (runs' : Runs c unit loop events' last') (done' : last'.tasks = []) :
    events' = events ∧ last' = last := by
  induction runs generalizing events' with
  | refl loop => exact runs'.eq_of_done done
  | step steps _ ih =>
    cases runs' with
    | refl =>
      obtain ⟨tasks, now⟩ := last'
      obtain rfl : tasks = [] := done'
      cases steps
    | step steps' runs' =>
      obtain ⟨rfl, rfl⟩ := Prod.mk.inj (Option.some.inj (steps.symm.trans steps'))
      obtain ⟨rfl, rfl⟩ := ih done runs'
      exact ⟨rfl, rfl⟩

theorem walkAll (parent : Option Tree) (ts : List Tree) (rest : List Task) (now : Moment)
    (each : ∀ t ∈ ts, ∀ rest now, Runs c unit ⟨.walk parent t :: rest, now⟩
      (trace c unit parent now t).1
      ⟨rest, (trace c unit parent now t).2⟩) :
    Runs c unit ⟨(ts.filter (·.named)).map (Task.walk parent) ++ rest, now⟩
      (traceAll c unit parent now ts).1
      ⟨rest, (traceAll c unit parent now ts).2⟩ := by
  induction ts generalizing now with
  | nil => exact .refl _
  | cons t ts ih =>
    have later now := ih now fun u listed => each u (List.mem_cons_of_mem _ listed)
    rw [traceAll]
    cases named : t.named with
    | true =>
      rw [List.filter_cons_of_pos named, List.map_cons, List.cons_append, if_pos rfl]
      exact (each t List.mem_cons_self _ now).trans (later _)
    | false =>
      rw [List.filter_cons_of_neg (by simp [named]), if_neg Bool.false_ne_true]
      exact later now

-- The tasks below a node on the stack wait until it is done, whatever they are.
theorem walk (parent : Option Tree) (t : Tree) (rest : List Task) (now : Moment) :
    Runs c unit ⟨.walk parent t :: rest, now⟩ (trace c unit parent now t).1
      ⟨rest, (trace c unit parent now t).2⟩ := by
  induction t using Tree.induction generalizing parent rest now with
  | node t ih =>
    rw [trace_eq, List.append_assoc]
    refine .step rfl
      (.trans (walkAll (some t) t.children _ _ fun c listed => ih c listed (some t)) ?_)
    exact .one rfl

end Loop.Runs

section Order

variable {α : Type} (view : Event → Option α)

theorem filterMap_traceAll (list : Tree → List α) (listAll : List Tree → List α)
    (nil : listAll [] = [])
    (cons : ∀ t ts, listAll (t :: ts) = (if t.named then list t else []) ++ listAll ts)
    (parent : Option Tree) (now : Moment) (ts : List Tree)
    (each : ∀ t ∈ ts, ∀ now, (trace c unit parent now t).1.filterMap view = list t) :
    (traceAll c unit parent now ts).1.filterMap view = listAll ts := by
  induction ts generalizing now with
  | nil => rw [nil, traceAll, List.filterMap_nil]
  | cons t ts ih =>
    have later now := ih now fun u listed => each u (List.mem_cons_of_mem _ listed)
    rw [traceAll, cons]
    cases t.named with
    | true =>
      simp only [if_true, List.filterMap_append]
      rw [each t List.mem_cons_self, later]
    | false => exact later now

theorem filterMap_trace (parent : Option Tree) (now : Moment) (t : Tree) :
    (trace c unit parent now t).1.filterMap view =
      (view (.entered t)).toList ++ (visit c parent t (now.enter c unit t)).1.filterMap view ++
        (traceAll c unit (some t) (visit c parent t (now.enter c unit t)).2 t.children).1.filterMap
          view ++
        (view (.left t)).toList := by
  rw [trace_eq]
  cases entered : view (.entered t) <;> cases left : view (.left t) <;>
    simp [List.filterMap_append, entered, left]

theorem filterMap_visit_eq_nil (parent : Option Tree) (t : Tree) (now : Moment)
    (blind : ∀ t o, view (.visited t o) = none) : (visit c parent t now).1.filterMap view = [] := by
  unfold visit
  split
  · split <;> simp [blind]
  · rfl

theorem filterMap_visited?_visit (parent : Option Tree) (t : Tree) (now : Moment) :
    (visit c parent t now).1.filterMap Event.visited? = [t].filter (·.is siteNodes) := by
  unfold visit
  cases isSite : t.is siteNodes with
  | false => simp [isSite]
  | true =>
    rw [if_pos rfl]
    split <;> simp [isSite, Event.visited?]

theorem entered_trace (parent : Option Tree) (now : Moment) (t : Tree) :
    (trace c unit parent now t).1.filterMap Event.entered? = t.preorder := by
  induction t using Tree.induction generalizing parent now with
  | node t ih =>
    have below := filterMap_traceAll c unit Event.entered? Tree.preorder Tree.preorderAll
      Tree.preorderAll.eq_1
      Tree.preorderAll.eq_2 (some t) (visit c parent t (now.enter c unit t)).2 t.children
      fun c listed => ih c listed (some t)
    have quiet :=
      filterMap_visit_eq_nil c Event.entered? parent t (now.enter c unit t) fun _ _ => rfl
    rw [filterMap_trace, below, quiet, Tree.preorder_eq]
    simp [Event.entered?]

theorem left_trace (parent : Option Tree) (now : Moment) (t : Tree) :
    (trace c unit parent now t).1.filterMap Event.left? = t.postorder := by
  induction t using Tree.induction generalizing parent now with
  | node t ih =>
    have below := filterMap_traceAll c unit Event.left? Tree.postorder Tree.postorderAll
      Tree.postorderAll.eq_1
      Tree.postorderAll.eq_2 (some t) (visit c parent t (now.enter c unit t)).2 t.children
      fun c listed => ih c listed (some t)
    have quiet := filterMap_visit_eq_nil c Event.left? parent t (now.enter c unit t) fun _ _ => rfl
    rw [filterMap_trace, below, quiet, Tree.postorder_eq]
    simp [Event.left?]

theorem visited_trace (parent : Option Tree) (now : Moment) (t : Tree) :
    (trace c unit parent now t).1.filterMap Event.visited? =
      t.preorder.filter (·.is siteNodes) := by
  induction t using Tree.induction generalizing parent now with
  | node t ih =>
    have below := filterMap_traceAll c unit Event.visited?
      (fun t => t.preorder.filter (·.is siteNodes))
      (fun ts => (Tree.preorderAll ts).filter (·.is siteNodes)) (by simp [Tree.preorderAll])
      (by intro t ts; rw [Tree.preorderAll]; split <;> simp) (some t)
      (visit c parent t (now.enter c unit t)).2 t.children fun c listed => ih c listed (some t)
    have here := filterMap_visited?_visit c parent t (now.enter c unit t)
    rw [filterMap_trace, below, here, Tree.preorder_eq]
    simp [Event.visited?, List.filter_cons]
    split <;> rfl

end Order

-- A part of the recursion that starts at the given moment leaves what walking leaves, and resolves
-- the same sites.
structure Follows (now : Moment) (traced : List Event × Moment)
    (walked : Surroundings × List Site) : Prop where
  around : traced.2.around = walked.1
  outcomes : traced.1.filterMap Event.outcome? = c.resolveSites now.known walked.2
  known : traced.2.known = c.knownFrom now.known walked.2

theorem site?_eq_none {w : World} {s : Surroundings} {t : Tree} (noSite : t.is siteNodes = false)
    (parent : Option Tree) : s.site? w parent t = none := by
  simp [Surroundings.site?, noSite]

theorem follows_visit (parent : Option Tree) (t : Tree) (now : Moment) :
    Follows c now (visit c parent t now) (now.around,
      (now.around.site? c.world parent t).toList) := by
  unfold visit
  cases isSite : t.is siteNodes with
  | false =>
    rw [site?_eq_none isSite]
    exact ⟨rfl, rfl, rfl⟩
  | true =>
    rw [if_pos rfl]
    split
    next s found =>
      rw [found]
      exact ⟨rfl, rfl, rfl⟩
    next found =>
      rw [found]
      exact ⟨rfl, rfl, rfl⟩

variable {c} in
theorem Follows.append {now : Moment} {traced traced' : List Event × Moment} {s s' : Surroundings}
    {sites sites' : List Site} (first : Follows c now traced (s, sites))
    (second : Follows c traced.2 traced' (s', sites')) :
    Follows c now (traced.1 ++ traced'.1, traced'.2) (s', sites ++ sites') where
  around := second.around
  outcomes := by
    rw [List.filterMap_append, first.outcomes, second.outcomes, first.known, c.resolveSites_append]
  known := by
    rw [second.known, first.known, c.knownFrom_append]

theorem follows_traceAll (parent : Option Tree) (now : Moment) (ts : List Tree)
    (each : ∀ t ∈ ts, ∀ now, Follows c now (trace c unit parent now t)
      (walk c.world unit parent now.around t)) :
    Follows c now (traceAll c unit parent now ts) (walkAll c.world unit parent now.around ts) := by
  induction ts generalizing now with
  | nil => exact ⟨rfl, rfl, rfl⟩
  | cons t ts ih =>
    have later now := ih now fun u listed => each u (List.mem_cons_of_mem _ listed)
    rw [traceAll, walkAll]
    split
    · have here := each t List.mem_cons_self now
      have rest := later (trace c unit parent now t).2
      rw [here.around] at rest
      exact Follows.append here rest
    · exact later now

theorem follows_trace (parent : Option Tree) (now : Moment) (t : Tree) :
    Follows c now (trace c unit parent now t) (walk c.world unit parent now.around t) := by
  induction t using Tree.induction generalizing parent now with
  | node t ih =>
    have here := follows_visit c parent t (now.enter c unit t)
    have below := follows_traceAll c unit (some t) (visit c parent t (now.enter c unit t)).2
      t.children
      fun c listed => ih c listed (some t)
    rw [here.around] at below
    have both := here.append below
    rw [walk_eq]
    refine ⟨?_, ?_, ?_⟩
    · rw [trace_eq]
      exact congrArg (Surroundings.leave · _) both.around
    · rw [filterMap_trace]
      simp only [Event.outcome?, Option.toList_none, List.nil_append, List.append_nil,
        ← List.filterMap_append]
      exact both.outcomes
    · rw [trace_eq]
      exact both.known

/-- The loop enters and leaves every node once, visits sites in the order of the text, and leaves a
node with the stacks that it was entered with. -/
theorem loop_does_recursion (tree : Tree) :
    (∀ events last, (Loop.Runs c unit (.start tree) events last ∧ last.tasks = []) ↔
      events = (trace c unit none {} tree).1 ∧ last = ⟨[], (trace c unit none {} tree).2⟩) ∧
    (trace c unit none {} tree).1.filterMap Event.entered? = tree.preorder ∧
    (trace c unit none {} tree).1.filterMap Event.left? = tree.postorder ∧
    (trace c unit none {} tree).1.filterMap Event.visited? = tree.preorder.filter (·.is siteNodes) ∧
    (let outcomes := (trace c unit none {} (c.world.unit unit).tree).1.filterMap Event.outcome?
     c.dependencies unit = if c.keyOf unit = "" then ([], [])
       else (outcomes.filterMap fun o => o.edge.map .dependency, outcomes.flatMap (·.reported))) ∧
    ∀ parent t rest now, ∃ inner after,
      Loop.Runs c unit ⟨.walk parent t :: rest, now⟩ (.entered t :: inner ++ [.left t])
        ⟨rest, after⟩ ∧
      Surroundings.SameStacks now.around after.around ∧
      (now.around.scope.frames ≠ [] → after.around.scope.depth = now.around.scope.depth) := by
  have complete : Loop.Runs c unit (.start tree) (trace c unit none {} tree).1
      ⟨[], (trace c unit none {} tree).2⟩ :=
    .walk none tree [] {}
  refine ⟨?_, entered_trace c unit none {} tree, left_trace c unit none {} tree,
    visited_trace c unit none {} tree, ?_, ?_⟩
  · intro events last
    constructor
    · rintro ⟨runs, done⟩
      exact complete.unique rfl runs done
    · rintro ⟨rfl, rfl⟩
      exact ⟨complete, rfl⟩
  · intro outcomes
    have resolved : outcomes = c.resolveSites [] (ofUnit c.world unit) :=
      (follows_trace c unit none {} (c.world.unit unit).tree).outcomes
    unfold Corpus.dependencies Corpus.sites
    split
    · rfl
    · rw [resolved]
      rfl
  · intro parent t rest now
    have runs : Loop.Runs c unit ⟨.walk parent t :: rest, now⟩ _ _ := .walk parent t rest now
    have around := (follows_trace c unit parent now t).around
    refine ⟨(visit c parent t (now.enter c unit t)).1 ++
        (traceAll c unit (some t) (visit c parent t (now.enter c unit t)).2 t.children).1,
      (trace c unit parent now t).2, ?_, ?_, ?_⟩
    · rw [trace_eq] at runs ⊢
      simpa using runs
    · rw [around]
      exact sameStacks_walk c.world unit parent now.around t
    · intro isOpen
      rw [around]
      exact (extends_walk c.world unit parent now.around t).depth_eq isOpen

-- The variable of the field's type test stays in the frame that is open, and no frame is added.
theorem loop_does_recursion_typeTest :
    let field := typeTestMember true 0
    let now : Moment := { around := { scope := ⟨[{}]⟩ } }
    now.around.scope.frames ≠ [] ∧ ∃ inner after,
      Loop.Runs { world := typeTestWorld true, roots := [] } 0 ⟨[.walk none field], now⟩
        (.entered field :: inner ++ [.left field]) ⟨[], after⟩ ∧
      after.around.scope.depth = 1 := by
  intro field now
  have isOpen : now.around.scope.frames ≠ [] := List.cons_ne_nil _ _
  obtain ⟨-, -, -, -, -, done⟩ :=
    loop_does_recursion { world := typeTestWorld true, roots := [] } 0 field
  obtain ⟨inner, after, runs, -, depth⟩ := done none field [] now
  exact ⟨isOpen, inner, after, runs, depth isOpen⟩

end Sites

end RefGraph

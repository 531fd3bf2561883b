import RefGraph.Proofs.Makers
import RefGraph.Proofs.TypeArguments
import RefGraph.Proofs.TypeNesting

set_option autoImplicit false

namespace RefGraph

namespace Tree

inductive Lineage (root : Tree) : List Tree → Prop
  | root : Lineage root [root]
  | child {t above : Tree} {rest : List Tree} (upper : Lineage root (above :: rest))
      (listed : t ∈ above.namedChildren) : Lineage root (t :: above :: rest)

end Tree

-- The declarations are listed innermost first, and bound from the outside in.
theorem get?_bindEach {α : Type} (f : α → List TypeParam) (xs : List α) (b : Bindings TypeParam)
    (name : String) :
    (xs.reverse.foldl (fun b x => bindParams b (f x)) b).get? name =
      (xs.findSome? fun x => paramOf? (f x) name).or (b.get? name) := by
  induction xs with
  | nil => rfl
  | cons x xs ih =>
    rw [List.reverse_cons, List.foldl_append, List.foldl_cons, List.foldl_nil, get?_bindParams, ih,
      List.findSome?_cons]
    cases paramOf? (f x) name <;> rfl

-- A search with two tests is a search with the first and then with the second, if the second never
-- hits before the first does.
theorem findSome?_or {α β : Type} {f g : α → Option β} {xs : List α}
    (apart : ∀ inner x outer, xs = inner ++ x :: outer → (g x).isSome →
      (∀ y ∈ inner, (f y).or (g y) = none) →
      ∀ y ∈ outer, f y = none) :
    (xs.findSome? f).or (xs.findSome? g) = xs.findSome? fun x => (f x).or (g x) := by
  induction xs with
  | nil => rfl
  | cons x xs ih =>
    simp only [List.findSome?_cons]
    cases first : f x with
    | some a => rfl
    | none =>
      cases second : g x with
      | some a =>
        have later := apart [] x xs rfl (by simp [second]) (by simp)
        rw [List.findSome?_eq_none_iff.2 later]
        rfl
      | none =>
        refine ih fun inner y outer split hit before => ?_
        refine apart (x :: inner) y outer (by rw [split, List.cons_append]) hit ?_
        exact List.forall_mem_cons.2 ⟨by simp [first, second], before⟩

def Member.isField : Member → Bool
  | .field _ => true
  | _ => false

namespace Sites

section

variable (w : World) (unit : Nat)

def typeIdAt? (t : Tree) : Option TypeId := ((w.unit unit).typeAt? t).map (TypeId.mk unit)

def invocableAt? (t : Tree) : Option MemberOf :=
  ((w.unit unit).declarationAt? t).bind fun r =>
    (((w.decl ⟨unit, r.typeIndex⟩).member? r).filter fun m => !m.isField).map
      (MemberOf.mk ⟨unit, r.typeIndex⟩)

def typeParamAt? (name : String) (t : Tree) : Option TypeParam :=
  (typeIdAt? w unit t).bind fun id => paramOf? (w.decl id).typeParams name

def memberParamAt? (name : String) (t : Tree) : Option TypeParam :=
  (invocableAt? w unit t).bind fun m => paramOf? m.member.typeParams name

def paramAt? (name : String) (t : Tree) : Option TypeParam :=
  (memberParamAt? w unit name t).or (typeParamAt? w unit name t)

end

variable {w : World} {unit : Nat}

theorem members_enterDeclaration {s : Surroundings} {t : Tree}
    (own : ∀ r, (w.unit unit).declarationAt? t = some r → (∀ i, r ≠ .type i) →
      s.types.head? = some ⟨unit, r.typeIndex⟩) :
    (s.enterDeclaration w unit t).1.members = (invocableAt? w unit t).toList ++ s.members ∧
      (s.enterDeclaration w unit t).2.member = (invocableAt? w unit t).isSome := by
  unfold Surroundings.enterDeclaration invocableAt?
  cases found : (w.unit unit).declarationAt? t with
  | none => exact ⟨rfl, rfl⟩
  | some r =>
    have inside := own r found
    cases r with
    | type i => exact ⟨rfl, rfl⟩
    | _ =>
      rw [inside (by simp)]
      simp only [beq_self_eq_true, DeclRef.typeIndex, Option.bind_some]
      generalize TypeDecl.member? _ _ = member
      rcases member with _ | (m | k | f)
      · exact ⟨rfl, rfl⟩
      all_goals
        dsimp only
        split <;> exact ⟨rfl, rfl⟩

theorem members_enter {s : Surroundings} {t : Tree}
    (own : ∀ r, (w.unit unit).declarationAt? t = some r → (∀ i, r ≠ .type i) →
      s.types.head? = some ⟨unit, r.typeIndex⟩) :
    (s.enter w unit t).1.members = (invocableAt? w unit t).toList ++ s.members ∧
      (s.enter w unit t).2.member = (invocableAt? w unit t).isSome := by
  rw [(Surroundings.sameStacks_enter w unit s t).members, Surroundings.opened_enter]
  exact members_enterDeclaration own

namespace Task

def node : Task → Tree
  | walk _ t | leave t _ => t

def leaving? : Task → Option Tree
  | walk _ _ => none
  | leave t _ => some t

end Task

-- The nodes that have been entered and not left yet, innermost first.
def openNodes (tasks : List Task) : List Tree := tasks.filterMap Task.leaving?

theorem openNodes_walks (parent : Option Tree) (ts : List Tree) (rest : List Task) :
    openNodes (ts.map (Task.walk parent) ++ rest) = openNodes rest := by
  induction ts with
  | nil => rfl
  | cons t ts ih => exact ih

-- Every task is about a node right below the next node that is open.
def Placed (root : Tree) : List Task → Prop
  | [] => True
  | task :: rest => root.Lineage (task.node :: openNodes rest) ∧ Placed root rest

theorem placed_walks {root t : Tree} {rest : List Task} {opened : Opened}
    (placed : Placed root (.leave t opened :: rest)) {ts : List Tree}
    (children : ts ⊆ t.namedChildren) :
    Placed root (ts.map (Task.walk (some t)) ++ .leave t opened :: rest) := by
  induction ts with
  | nil => exact placed
  | cons u us ih =>
    obtain ⟨listed, others⟩ := List.cons_subset.1 children
    refine ⟨?_, ih others⟩
    show root.Lineage (u :: openNodes (us.map (Task.walk (some t)) ++ .leave t opened :: rest))
    rw [openNodes_walks]
    exact .child placed.1 listed

-- Leaving the node will close what entering it has opened.
def Closes (w : World) (unit : Nat) : Task → Prop
  | .walk _ _ => True
  | .leave t opened => opened.type = (typeIdAt? w unit t).isSome ∧
    opened.member = (invocableAt? w unit t).isSome

variable {c : Corpus}

/-- The stacks of the walk hold the types and members of the nodes that are open. -/
structure Loop.Stacked (c : Corpus) (unit : Nat) (loop : Loop) : Prop where
  types : loop.now.around.types = (openNodes loop.tasks).filterMap (typeIdAt? c.world unit)
  members : loop.now.around.members = (openNodes loop.tasks).filterMap (invocableAt? c.world unit)
  closes : ∀ task ∈ loop.tasks, Closes c.world unit task
  placed : Placed (c.world.unit unit).tree loop.tasks

namespace Loop

theorem stacked_start : (Loop.start (c.world.unit unit).tree).Stacked c unit where
  types := rfl
  members := rfl
  closes := by simp [start, Closes]
  placed := ⟨.root, trivial⟩

-- What a node opens comes off the stack, and nothing else.
theorem filterMap_leave {α : Type} (f : Tree → Option α) (t : Tree) (ts : List Tree) :
    (if (f t).isSome then ((t :: ts).filterMap f).tail else (t :: ts).filterMap f) =
      ts.filterMap f := by
  cases hit : f t <;> simp [hit]

theorem filterMap_enter {α : Type} (f : Tree → Option α) (t : Tree) (ts : List Tree) :
    (t :: ts).filterMap f = (f t).toList ++ ts.filterMap f := by
  cases hit : f t <;> simp [hit]

variable (parsed : (c.world.unit unit).Parsed) (distinct : (c.world.unit unit).Distinct)

include parsed distinct

theorem head?_types_of_nested {parent : Option Tree} {t : Tree} {rest : List Task} {now : Moment}
    (nested : Nested c unit ⟨.walk parent t :: rest, now⟩) (r : DeclRef)
    (found : (c.world.unit unit).declarationAt? t = some r) (isMember : ∀ i, r ≠ .type i) :
    now.around.types.head? = some ⟨unit, r.typeIndex⟩ := by
  obtain ⟨around, types, ⟨o, inside, rfl, rfl⟩, -⟩ := nested
  have member := distinct.around_of_member parsed inside found isMember
  rw [types, List.head?_map, member]
  rfl

theorem stacked_enter {parent : Option Tree} {t : Tree} {rest : List Task} {now : Moment}
    (nested : Nested c unit ⟨.walk parent t :: rest, now⟩)
    (stacked : Stacked c unit ⟨.walk parent t :: rest, now⟩) :
    (now.enter c unit t).around.types = (t :: openNodes rest).filterMap (typeIdAt? c.world unit) ∧
      (now.enter c unit t).around.members = (t :: openNodes rest).filterMap
        (invocableAt? c.world unit) := by
  have types := (types_enter c.world unit now.around t).1
  have members := (members_enter (head?_types_of_nested parsed distinct nested)).1
  rw [show now.around.types = _ from stacked.types] at types
  rw [show now.around.members = _ from stacked.members] at members
  rw [filterMap_enter, filterMap_enter]
  exact ⟨types, members⟩

theorem stacked_step {loop next : Loop} {events : List Event}
    (steps : loop.step c unit = some (events, next)) (nested : loop.Nested c unit)
    (stacked : loop.Stacked c unit) : next.Stacked c unit := by
  obtain ⟨tasks, now⟩ := loop
  cases tasks with
  | nil => cases steps
  | cons task rest =>
    cases task with
    | leave t opened =>
      obtain ⟨-, rfl⟩ := Prod.mk.inj (Option.some.inj steps)
      obtain ⟨⟨type, member⟩, closes⟩ := List.forall_mem_cons.1 stacked.closes
      refine ⟨?_, ?_, closes, stacked.placed.2⟩
      · dsimp only [Moment.leave, Surroundings.leave]
        rw [type, show now.around.types = _ from stacked.types]
        exact filterMap_leave _ t _
      · dsimp only [Moment.leave, Surroundings.leave]
        rw [member, show now.around.members = _ from stacked.members]
        exact filterMap_leave _ t _
    | walk parent t =>
      obtain ⟨-, rfl⟩ := Prod.mk.inj (Option.some.inj steps)
      obtain ⟨types, members⟩ := stacked_enter parsed distinct nested stacked
      have same := (follows_visit c parent t (now.enter c unit t)).around
      have inside := openNodes_walks (some t) t.namedChildren
        (.leave t (now.around.enter c.world unit t).2 :: rest)
      constructor
      · rw [same, inside]
        exact types
      · rw [same, inside]
        exact members
      · intro task listed
        rcases List.mem_append.1 listed with child | listed
        · obtain ⟨u, -, rfl⟩ := List.mem_map.1 child
          trivial
        rcases List.mem_cons.1 listed with rfl | later
        · have type := (types_enter c.world unit now.around t).2
          refine ⟨by rw [type, typeIdAt?, Option.isSome_map], ?_⟩
          exact (members_enter (head?_types_of_nested parsed distinct nested)).2
        · exact stacked.closes task (List.mem_cons_of_mem _ later)
      · exact placed_walks stacked.placed (List.Subset.refl _)

theorem stacked_of_runs {loop last : Loop} {events : List Event}
    (runs : Loop.Runs c unit loop events last) (nested : loop.Nested c unit)
    (stacked : loop.Stacked c unit) : last.Stacked c unit := by
  induction runs with
  | refl => exact stacked
  | step steps _ ih =>
    exact ih (nested_step parsed distinct steps nested)
      (stacked_step parsed distinct steps nested stacked)

end Loop

theorem get?_typeParams_of_site {s : Surroundings} {parent : Option Tree} {t : Tree} {site : Site}
    (isSite : s.site? w parent t = some site)
    (enclosing : ∀ id ids, s.types = id :: ids → w.enclosing id = id :: ids) (name : String) :
    site.context.typeParams.get? name =
      (s.members.findSome? fun m => paramOf? m.member.typeParams name).or
        (s.types.findSome? fun id => paramOf? (w.decl id).typeParams name) := by
  unfold Surroundings.site? at isSite
  split at isSite
  · split at isSite
    next owner _ innermost rest _ types =>
      obtain rfl := Option.some.inj isSite
      simp only [Surroundings.context, World.typeContext, get?_bindEach,
        enclosing innermost rest types, types, Bindings.get?_empty, Option.or_none]
    next => cases isSite
  · cases isSite

theorem findSome?_filterMap {α β γ : Type} (f : α → Option β) (g : β → Option γ) (xs : List α) :
    (xs.filterMap f).findSome? g = xs.findSome? fun x => (f x).bind g := by
  rw [← List.head?_filterMap, List.filterMap_filterMap, List.head?_filterMap]

def Loop.nextSite? (c : Corpus) (unit : Nat) : Loop → Option (Site × List Tree)
  | ⟨.walk parent t :: rest, now⟩ =>
    ((now.enter c unit t).around.site? c.world parent t).map fun site => (site, openNodes rest)
  | _ => none

def Meets (c : Corpus) (unit : Nat) (start : Loop) (site : Site) (above : List Tree) : Prop :=
  ∃ events loop, Loop.Runs c unit start events loop ∧ loop.nextSite? c unit = some (site, above)

theorem Meets.after {start next : Loop} {events : List Event} {site : Site} {above : List Tree}
    (runs : Loop.Runs c unit start events next) (meets : Meets c unit next site above) :
    Meets c unit start site above := by
  obtain ⟨_, loop, more, isNext⟩ := meets
  exact ⟨_, loop, runs.trans more, isNext⟩

theorem node_of_site? {s : Surroundings} {parent : Option Tree} {t : Tree} {site : Site}
    (isSite : s.site? w parent t = some site) : site.node = t := by
  unfold Surroundings.site? at isSite
  split at isSite
  · split at isSite
    next => exact (Option.some.inj isSite) ▸ rfl
    next => cases isSite
  · cases isSite

theorem exists_of_nextSite? {loop : Loop} {site : Site} {above : List Tree}
    (isNext : loop.nextSite? c unit = some (site, above)) :
    ∃ parent rest now, loop = ⟨.walk parent site.node :: rest, now⟩ ∧
      (now.enter c unit site.node).around.site? c.world parent site.node = some site ∧
        openNodes rest = above := by
  unfold Loop.nextSite? at isNext
  split at isNext
  next parent t rest now =>
    obtain ⟨_, isSite, same⟩ := Option.map_eq_some_iff.1 isNext
    cases same
    obtain rfl := node_of_site? isSite
    exact ⟨parent, rest, now, rfl, isSite, rfl⟩
  next => cases isNext

theorem exists_meets_walkAll {parent : Option Tree} {ts : List Tree} {now : Moment} {site : Site}
    (each : ∀ t ∈ ts, ∀ rest now, site ∈ (walk c.world unit parent now.around t).2 →
      ∃ above, Meets c unit ⟨.walk parent t :: rest, now⟩ site above)
    (rest : List Task) (listed : site ∈ (walkAll c.world unit parent now.around ts).2) :
    ∃ above, Meets c unit ⟨(ts.filter (·.named)).map (Task.walk parent) ++ rest, now⟩
      site above := by
  induction ts generalizing now with
  | nil =>
    rw [walkAll] at listed
    cases listed
  | cons t ts ih =>
    have later {now : Moment} (listed : site ∈ (walkAll c.world unit parent now.around ts).2) :=
      ih (fun u among => each u (List.mem_cons_of_mem _ among)) listed
    rw [walkAll] at listed
    cases named : t.named with
    | false =>
      rw [List.filter_cons_of_neg (by simp [named])]
      rw [named, if_neg Bool.false_ne_true] at listed
      exact later listed
    | true =>
      rw [List.filter_cons_of_pos named, List.map_cons, List.cons_append]
      rw [named, if_pos rfl] at listed
      rcases List.mem_append.1 listed with here | listed
      · exact each t List.mem_cons_self _ now here
      · rw [← (follows_trace c unit parent now t).around] at listed
        obtain ⟨above, meets⟩ := later listed
        exact ⟨above, meets.after (.walk parent t _ now)⟩

theorem exists_meets_walk {parent : Option Tree} {t : Tree} {now : Moment} {site : Site}
    (rest : List Task) (listed : site ∈ (walk c.world unit parent now.around t).2) :
    ∃ above, Meets c unit ⟨.walk parent t :: rest, now⟩ site above := by
  induction t using Tree.induction generalizing parent now rest with
  | node t ih =>
    rw [walk_eq] at listed
    rcases List.mem_append.1 listed with here | below
    · have isSite := Option.mem_toList.1 here
      obtain rfl := node_of_site? isSite
      exact ⟨openNodes rest, _, _, .refl _,
        congrArg (Option.map fun site => (site, openNodes rest)) isSite⟩
    · have same := (follows_visit c parent t (now.enter c unit t)).around
      rw [show (now.around.enter c.world unit t).1 = _ from same.symm] at below
      obtain ⟨above, meets⟩ :=
        exists_meets_walkAll (fun u among rest now => ih u among rest) _ below
      exact ⟨above, meets.after (.one rfl)⟩

/-- At a site a name denotes the parameter of the innermost member around that declares it, or else
of the innermost type. -/
theorem member_params_over_type_params (c : Corpus) (unit : Nat)
    (parsed : (c.world.unit unit).Parsed) (distinct : (c.world.unit unit).Distinct) :
    (∀ site ∈ ofUnit c.world unit, ∃ above, Meets c unit (.start (c.world.unit unit).tree)
      site above) ∧
    ∀ site above, Meets c unit (.start (c.world.unit unit).tree) site above →
      (c.world.unit unit).tree.Lineage (site.node :: above) ∧ ∀ name,
        site.context.typeParams.get? name =
          ((site.node :: above).findSome? (memberParamAt? c.world unit name)).or
            ((site.node :: above).findSome? (typeParamAt? c.world unit name)) ∧
        ((∀ inner t outer, site.node :: above = inner ++ t :: outer →
            (typeParamAt? c.world unit name t).isSome →
            (∀ u ∈ inner, paramAt? c.world unit name u = none) →
            ∀ u ∈ outer, memberParamAt? c.world unit name u = none) →
          site.context.typeParams.get? name =
            (site.node :: above).findSome? (paramAt? c.world unit name)) := by
  refine ⟨fun site listed => exists_meets_walk [] listed, ?_⟩
  rintro site above ⟨events, loop, reached, isNext⟩
  have nested := Loop.nested_of_runs parsed distinct reached Loop.nested_start
  have stacked := Loop.stacked_of_runs parsed distinct reached Loop.nested_start Loop.stacked_start
  obtain ⟨parent, rest, now, rfl, isSite, rfl⟩ := exists_of_nextSite? isNext
  obtain ⟨types, members⟩ := Loop.stacked_enter parsed distinct nested stacked
  -- The types after entering are those of the next moment.
  have next := Loop.nested_step parsed distinct rfl nested
  obtain ⟨-, enclosing⟩ := Loop.enclosing_of_nested parsed distinct next
  dsimp only at enclosing
  rw [(follows_visit c parent site.node (now.enter c unit site.node)).around] at enclosing
  refine ⟨stacked.placed.1, fun name => ?_⟩
  have bound := get?_typeParams_of_site isSite enclosing name
  rw [types, members, findSome?_filterMap, findSome?_filterMap] at bound
  exact ⟨bound, fun apart => bound.trans (findSome?_or apart)⟩

-- `class C<S> { <T extends A> void m() { class L<T extends B, U> { void g() { f(); } } } }`
def genericLocal : Corpus where
  world :=
    let params (ps : List (String × List String)) : Tree :=
      Node.typeParams (ps.map fun p =>
        (p.1, [{ kind := "type_bound", children := p.2.map Node.type }]))
    let inner := Node.classDecl 3 "L" [params [("T", ["B"]), ("U", [])]]
      [Node.method 4 [] "g" [] [Node.call 5 [] "f" []]]
    let outer := Node.classDecl 1 "C" [params [("S", [])]]
      [Node.method 2 [params [("T", ["A"])]] "m" [] [inner]]
    { units := [SourceUnit.ofTree none (Node.file [outer])] }

theorem parsed_genericLocal : (genericLocal.world.unit 0).Parsed := ⟨none, _, rfl⟩

theorem distinct_genericLocal : (genericLocal.world.unit 0).Distinct := by
  constructor
  · decide +kernel
  · decide +kernel
  · decide +kernel

-- The call, with the nodes above it.
def genericLocalCall? : Option (Site × List Tree) :=
  ((Loop.start (genericLocal.world.unit 0).tree).runFor genericLocal 0 55).2.nextSite?
    genericLocal 0

theorem exists_genericLocalCall (p : Site × List Tree → Bool)
    (holds : genericLocalCall?.any p = true) :
    ∃ site above, Meets genericLocal 0 (.start (genericLocal.world.unit 0).tree) site above ∧
      p (site, above) = true := by
  obtain ⟨⟨site, above⟩, isNext, here⟩ := (Option.any_eq_true _ _).1 holds
  exact ⟨site, above, ⟨_, _, Loop.runs_runFor 55 _, isNext⟩, here⟩

-- No method declares `S` or `U`, so the classes' parameters are meant.
theorem member_params_over_type_params_genericLocal :
    ∃ site above, Meets genericLocal 0 (.start (genericLocal.world.unit 0).tree) site above ∧
      ∀ name ∈ ["S", "U"], (site.context.typeParams.get? name).isSome ∧
        site.context.typeParams.get? name = (site.node :: above).findSome?
          (paramAt? genericLocal.world 0 name) := by
  obtain ⟨site, above, meets, holds⟩ := exists_genericLocalCall (fun e => ["S", "U"].all fun name =>
      (e.1.context.typeParams.get? name).isSome &&
        (e.1.node :: e.2).all fun t =>
          (memberParamAt? genericLocal.world 0 name t).isNone) (by decide +kernel)
  refine ⟨site, above, meets, fun name listed => ?_⟩
  obtain ⟨bound, none⟩ := Bool.and_eq_true_iff.1 (List.all_eq_true.1 holds name listed)
  obtain ⟨-, sites⟩ :=
    member_params_over_type_params genericLocal 0 parsed_genericLocal distinct_genericLocal
  refine ⟨bound, ((sites site above meets).2 name).2 ?_⟩
  intro inner t outer split _ _ u among
  refine Option.isNone_iff_eq_none.1 (List.all_eq_true.1 none u ?_)
  rw [split]
  exact List.mem_append_right _ (List.mem_cons_of_mem _ among)

-- The local class has the innermost `T`, but that of the method around it is meant.
theorem member_params_over_type_params_reversed :
    ∃ site above, Meets genericLocal 0 (.start (genericLocal.world.unit 0).tree) site above ∧
      ((site.node :: above).findSome? (paramAt? genericLocal.world 0 "T")).map
        (·.bounds.map TypeRef.text) =
        some ["B"] ∧
      (site.context.typeParams.get? "T").map (·.bounds.map TypeRef.text) = some ["A"] := by
  obtain ⟨site, above, meets, holds⟩ := exists_genericLocalCall (fun e =>
    ((e.1.node :: e.2).findSome? (paramAt? genericLocal.world 0 "T")).map
        (·.bounds.map TypeRef.text) ==
        some ["B"] &&
      (e.1.context.typeParams.get? "T").map (·.bounds.map TypeRef.text) ==
        some ["A"]) (by decide +kernel)
  simp only [Bool.and_eq_true, beq_iff_eq] at holds
  exact ⟨site, above, meets, holds⟩

end Sites

end RefGraph

import RefGraph.Proofs.Makers
import RefGraph.Proofs.Numbering

set_option autoImplicit false

namespace RefGraph

namespace Scope

variable {τ : Type}

-- The frame that the next declaration goes to; a new one if none is open.
def innermost (s : Scope τ) : Frame τ := s.frames.headD {}

-- All frames but the innermost are the same, and the innermost has lost nothing.
structure Extends (s s' : Scope τ) : Prop where
  outer : s'.frames.tail = s.frames.tail
  vars : s.innermost.vars <:+ s'.innermost.vars
  types : s.innermost.types <:+ s'.innermost.types
  stillOpen : s.frames ≠ [] → s'.frames ≠ []

-- How much is declared in the innermost frame.
def declarations (s : Scope τ) : Nat := s.innermost.vars.length + s.innermost.types.length

namespace Extends

theorem refl (s : Scope τ) : Extends s s := ⟨rfl, List.suffix_rfl, List.suffix_rfl, id⟩

theorem trans {s s' s'' : Scope τ} (first : Extends s s') (second : Extends s' s'') :
    Extends s s'' where
  outer := second.outer.trans first.outer
  vars := first.vars.trans second.vars
  types := first.types.trans second.types
  stillOpen isOpen := second.stillOpen (first.stillOpen isOpen)

theorem update {f : Frame τ → Frame τ} (vars : ∀ frame, frame.vars <:+ (f frame).vars)
    (types : ∀ frame, frame.types <:+ (f frame).types) (s : Scope τ) : Extends s (s.update f) := by
  obtain ⟨frames⟩ := s
  cases frames with
  | nil => exact ⟨rfl, vars {}, types {}, fun isOpen => absurd rfl isOpen⟩
  | cons frame outer => exact ⟨rfl, vars frame, types frame, fun _ => List.cons_ne_nil _ _⟩

theorem declare (s : Scope τ) (v : LocalVar) : Extends s (s.declare v) :=
  update (f := fun frame => { frame with vars := v :: frame.vars }) (fun _ => List.suffix_cons _ _)
    (fun _ => List.suffix_rfl) s

theorem declareType (s : Scope τ) (name : String) (t : τ) : Extends s (s.declareType name t) :=
  update (f := fun frame => { frame with types := (name, t) :: frame.types })
    (fun _ => List.suffix_rfl) (fun _ => List.suffix_cons _ _) s

variable {s s' : Scope τ}

theorem declarations_le (more : Extends s s') : s.declarations ≤ s'.declarations :=
  Nat.add_le_add more.vars.length_le more.types.length_le

-- Whatever is declared in a frame goes with it.
theorem pop_eq (more : Extends s.push s') : s'.pop = s := by
  obtain ⟨frames⟩ := s
  obtain ⟨frames'⟩ := s'
  exact congrArg Scope.mk more.outer

theorem depth_eq (more : Extends s s') (isOpen : s.frames ≠ []) : s'.depth = s.depth := by
  have nonempty := List.length_pos_iff.2 isOpen
  have nonempty' := List.length_pos_iff.2 (more.stillOpen isOpen)
  have outer := congrArg List.length more.outer
  rw [List.length_tail, List.length_tail] at outer
  unfold depth
  omega

end Extends

theorem declarations_declare (s : Scope τ) (v : LocalVar) :
    (s.declare v).declarations = s.declarations + 1 := by
  obtain ⟨frames⟩ := s
  cases frames with
  | nil => rfl
  | cons frame outer =>
    simp only [declarations, innermost, declare, update, List.headD_cons, List.length_cons]
    omega

theorem declarations_declareType (s : Scope τ) (name : String) (t : τ) :
    (s.declareType name t).declarations = s.declarations + 1 := by
  obtain ⟨frames⟩ := s
  cases frames with
  | nil => rfl
  | cons frame outer =>
    simp only [declarations, innermost, declareType, update, List.headD_cons, List.length_cons]
    omega

end Scope

namespace Sites

namespace Surroundings

-- The type in code that a node declares by its name.
def localType? (w : World) (unit : Nat) (t : Tree) : Option TypeId :=
  match (w.unit unit).declarationAt? t with
  | some (.type i) =>
    if (w.decl ⟨unit, i⟩).isLocal && (w.decl ⟨unit, i⟩).isNamed then some ⟨unit, i⟩ else none
  | _ => none

variable (w : World) (unit : Nat) (s : Surroundings) (t : Tree)

theorem scope_enterDeclaration :
    (s.enterDeclaration w unit t).1.scope =
      (localType? w unit t).elim s.scope fun id => s.scope.declareType (w.decl id).name id := by
  unfold enterDeclaration localType?
  generalize (w.unit unit).declarationAt? t = found
  split
  next => rfl
  next i =>
    dsimp only [enterType]
    split <;> rfl
  all_goals
    dsimp only
    split
    next => split <;> rfl
    next => split <;> rfl
    next => rfl

theorem extends_enterDeclaration : s.scope.Extends (s.enterDeclaration w unit t).1.scope := by
  rw [scope_enterDeclaration]
  cases localType? w unit t with
  | none => exact .refl s.scope
  | some id => exact .declareType s.scope _ id

theorem extends_declareAll (vs : List LocalVar) : s.scope.Extends (s.declareAll vs).scope := by
  induction vs generalizing s with
  | nil => exact .refl s.scope
  | cons v vs ih => exact (Scope.Extends.declare s.scope _).trans (ih (s.declare v))

theorem declarations_declareAll (vs : List LocalVar) :
    (s.declareAll vs).scope.declarations = s.scope.declarations + vs.length := by
  induction vs generalizing s with
  | nil => rfl
  | cons v vs ih =>
    have first : (s.declare v).scope.declarations = s.scope.declarations + 1 :=
      Scope.declarations_declare _ _
    rw [declareAll, List.foldl_cons, ← declareAll, ih, first, List.length_cons]
    omega

theorem opened_scope_enter : (s.enter w unit t).2.scope = t.is scopeNodes := by
  have closed : (s.enterDeclaration w unit t).2.scope = false := by
    have entered := entered_enterDeclaration w unit s t
    generalize s.enterDeclaration w unit t = result at entered
    cases entered <;> rfl
  simp only [enter]
  split
  next frame => exact frame.symm
  next frameless => rw [closed, Bool.eq_false_iff.2 frameless]

theorem enter_of_frameless (frameless : t.is scopeNodes = false) :
    (s.enter w unit t).1 = (s.enterDeclaration w unit t).1.declareAll (localsOf t) := by
  simp [enter, frameless]

-- What a node declares beside its own type goes to the frame that it opens.
theorem extends_push_enter (frame : t.is scopeNodes = true) :
    (s.enterDeclaration w unit t).1.scope.push.Extends (s.enter w unit t).1.scope := by
  simp only [enter, frame, if_true]
  exact extends_declareAll { (s.enterDeclaration w unit t).1 with scope := _ } _

end Surroundings

variable (w : World) (unit : Nat)

-- A relation that every node keeps is kept by a list of nodes.
theorem walkAll_rel {R : Surroundings → Surroundings → Prop} (refl : ∀ s, R s s)
    (trans : ∀ {a b c}, R a b → R b c → R a c) (parent : Option Tree) (s : Surroundings)
    (ts : List Tree) (each : ∀ t ∈ ts, ∀ s, R s (walk w unit parent s t).1) :
    R s (walkAll w unit parent s ts).1 := by
  induction ts generalizing s with
  | nil => exact refl s
  | cons t ts ih =>
    have rest s := ih s fun u listed => each u (List.mem_cons_of_mem _ listed)
    rw [walkAll]
    split
    · exact trans (each t List.mem_cons_self s) (rest _)
    · exact rest s

theorem scope_walk_of_frameless {t : Tree} (frameless : t.is scopeNodes = false)
    (parent : Option Tree) (s : Surroundings) :
    (walk w unit parent s t).1.scope =
      (walkAll w unit (some t) ((s.enterDeclaration w unit t).1.declareAll (localsOf t))
        t.children).1.scope := by
  rw [walk_eq, ← s.enter_of_frameless w unit t frameless]
  simp [Surroundings.leave, Surroundings.opened_scope_enter, frameless]

theorem scope_walk_of_frame {t : Tree} (frame : t.is scopeNodes = true) (parent : Option Tree)
    (s : Surroundings) (inside : (s.enter w unit t).1.scope.Extends
      (walkAll w unit (some t) (s.enter w unit t).1 t.children).1.scope) :
    (walk w unit parent s t).1.scope = (s.enterDeclaration w unit t).1.scope := by
  rw [walk_eq]
  simp only [Surroundings.leave, Surroundings.opened_scope_enter, frame, if_true]
  exact ((s.extends_push_enter w unit t frame).trans inside).pop_eq

theorem extends_walkAll (parent : Option Tree) (s : Surroundings) (ts : List Tree)
    (each : ∀ t ∈ ts, ∀ s : Surroundings, s.scope.Extends (walk w unit parent s t).1.scope) :
    s.scope.Extends (walkAll w unit parent s ts).1.scope :=
  walkAll_rel w unit (R := fun s s' => s.scope.Extends s'.scope) (fun s => .refl s.scope) .trans
    parent s ts each

theorem extends_walk (parent : Option Tree) (s : Surroundings) (t : Tree) :
    s.scope.Extends (walk w unit parent s t).1.scope := by
  induction t using Tree.induction generalizing parent s with
  | node t ih =>
    have inside s := extends_walkAll w unit (some t) s t.children fun c listed s =>
      ih c listed (some t) s
    have declared := s.extends_enterDeclaration w unit t
    cases frame : t.is scopeNodes with
    | true =>
      rw [scope_walk_of_frame w unit frame parent s (inside _)]
      exact declared
    | false =>
      rw [scope_walk_of_frameless w unit frame]
      exact (declared.trans (Surroundings.extends_declareAll _ _)).trans (inside _)

mutual
/-- The nodes at and below a node whose declarations go to a frame that is open before the node is
entered. -/
def loose : Tree → List Tree
  | t@{ children, .. } =>
    let below := if t.is scopeNodes then [] else looseAll children
    if (Surroundings.localType? w unit t).isSome ||
      (!t.is scopeNodes && !(localsOf t).isEmpty) then t :: below
    else below

def looseAll : List Tree → List Tree
  | [] => []
  | t :: ts => if t.named then loose t ++ looseAll ts else looseAll ts
end

theorem loose_eq_nil_iff (t : Tree) :
    loose w unit t = [] ↔ Surroundings.localType? w unit t = none ∧
      (t.is scopeNodes = false → localsOf t = [] ∧ looseAll w unit t.children = []) := by
  cases t with
  | mk kind named missing start stop line text role children =>
    rw [loose]
    dsimp only
    generalize ({ kind, named, missing, start, stop, line, text, role, children } : Tree) = t
    cases t.is scopeNodes <;> cases Surroundings.localType? w unit t <;> cases localsOf t <;> simp

theorem looseAll_eq_nil_iff (ts : List Tree) :
    looseAll w unit ts = [] ↔ ∀ t ∈ ts, t.named = true → loose w unit t = [] := by
  induction ts with
  | nil => simp [looseAll]
  | cons t ts ih =>
    rw [looseAll]
    cases named : t.named <;> simp [named, ih]

theorem scope_walkAll_of_tidy (parent : Option Tree) (s : Surroundings) (ts : List Tree)
    (each : ∀ t ∈ ts, t.named = true → ∀ s, (walk w unit parent s t).1.scope = s.scope) :
    (walkAll w unit parent s ts).1.scope = s.scope := by
  induction ts generalizing s with
  | nil => rfl
  | cons t ts ih =>
    have rest s := ih s fun u listed => each u (List.mem_cons_of_mem _ listed)
    rw [walkAll]
    split
    next named => exact (rest _).trans (each t List.mem_cons_self named s)
    next => exact rest s

theorem scope_walk_of_tidy {t : Tree} (tidy : loose w unit t = []) (parent : Option Tree)
    (s : Surroundings) :
    (walk w unit parent s t).1.scope = s.scope := by
  induction t using Tree.induction generalizing parent s with
  | node t ih =>
    obtain ⟨noType, inside⟩ := (loose_eq_nil_iff w unit t).1 tidy
    have declared : (s.enterDeclaration w unit t).1.scope = s.scope := by
      rw [Surroundings.scope_enterDeclaration, noType, Option.elim_none]
    cases frame : t.is scopeNodes with
    | true =>
      rw [scope_walk_of_frame w unit frame parent s, declared]
      exact extends_walkAll w unit (some t) _ t.children fun c _ s =>
        extends_walk w unit (some t) s c
    | false =>
      obtain ⟨noLocals, below⟩ := inside frame
      rw [scope_walk_of_frameless w unit frame, noLocals, scope_walkAll_of_tidy]
      · exact declared
      · intro c listed named s
        exact ih c listed
          ((looseAll_eq_nil_iff w unit t.children).1 below c listed named) (some t) s

theorem declarations_walkAll_le (parent : Option Tree) (s : Surroundings) (ts : List Tree) :
    s.scope.declarations ≤ (walkAll w unit parent s ts).1.scope.declarations :=
  (extends_walkAll w unit parent s ts fun t _ s => extends_walk w unit parent s t).declarations_le

theorem declarations_walkAll_lt (parent : Option Tree) (s : Surroundings) (ts : List Tree)
    (each : ∀ t ∈ ts, loose w unit t ≠ [] → ∀ s : Surroundings,
      s.scope.declarations < (walk w unit parent s t).1.scope.declarations)
    (untidy : looseAll w unit ts ≠ []) :
    s.scope.declarations < (walkAll w unit parent s ts).1.scope.declarations := by
  induction ts generalizing s with
  | nil => exact absurd rfl untidy
  | cons t ts ih =>
    have later s (untidy : looseAll w unit ts ≠ []) :=
      ih s (fun u listed => each u (List.mem_cons_of_mem _ listed)) untidy
    rw [looseAll] at untidy
    rw [walkAll]
    split at untidy
    next named =>
      rw [if_pos named]
      have here := (extends_walk w unit parent s t).declarations_le
      by_cases tidy : loose w unit t = []
      · rw [tidy, List.nil_append] at untidy
        exact Nat.lt_of_le_of_lt here (later _ untidy)
      · exact Nat.lt_of_lt_of_le (each t List.mem_cons_self tidy s)
          (declarations_walkAll_le w unit parent _ ts)
    next unnamed =>
      rw [if_neg unnamed]
      exact later s untidy

-- A declaration that goes to a frame around the node stays there.
theorem declarations_walk_lt {t : Tree} (untidy : loose w unit t ≠ []) (parent : Option Tree)
    (s : Surroundings) :
    s.scope.declarations < (walk w unit parent s t).1.scope.declarations := by
  induction t using Tree.induction generalizing parent s with
  | node t ih =>
    have start := (s.extends_enterDeclaration w unit t).declarations_le
    have typed (isType : Surroundings.localType? w unit t ≠ none) :
        s.scope.declarations < (s.enterDeclaration w unit t).1.scope.declarations := by
      obtain ⟨id, isType⟩ := Option.ne_none_iff_exists'.1 isType
      rw [Surroundings.scope_enterDeclaration, isType, Option.elim_some,
        Scope.declarations_declareType]
      omega
    rw [Ne, loose_eq_nil_iff] at untidy
    cases frame : t.is scopeNodes with
    | true =>
      rw [scope_walk_of_frame w unit frame parent s]
      · exact typed fun noType => untidy ⟨noType, fun frameless => by simp [frame] at frameless⟩
      · exact extends_walkAll w unit (some t) _ t.children fun c _ s =>
          extends_walk w unit (some t) s c
    | false =>
      rw [scope_walk_of_frameless w unit frame]
      have locals := (s.enterDeclaration w unit t).1.declarations_declareAll (localsOf t)
      generalize (s.enterDeclaration w unit t).1.declareAll (localsOf t) = inside at locals ⊢
      have rest := declarations_walkAll_le w unit (some t) inside t.children
      by_cases isType : Surroundings.localType? w unit t = none
      · by_cases noLocals : localsOf t = []
        · have below : looseAll w unit t.children ≠ [] := fun tidy =>
            untidy ⟨isType, fun _ => ⟨noLocals, tidy⟩⟩
          have deeper := declarations_walkAll_lt w unit (some t) inside t.children
            (fun c listed untidy s => ih c listed untidy (some t) s) below
          omega
        · have several := List.length_pos_iff.2 noLocals
          omega
      · have first := typed isType
        omega

theorem scope_walk_eq_iff (parent : Option Tree) (s : Surroundings) (t : Tree) :
    (walk w unit parent s t).1.scope = s.scope ↔ loose w unit t = [] := by
  constructor
  · intro same
    apply Classical.byContradiction
    intro untidy
    have more := declarations_walk_lt w unit untidy parent s
    rw [same] at more
    exact Nat.lt_irrefl _ more
  · intro tidy
    exact scope_walk_of_tidy w unit tidy parent s

end Sites

namespace Scope

variable {τ : Type}

-- All variables in scope, hidden ones included.
def vars (s : Scope τ) : List LocalVar := s.frames.flatMap (·.vars)

theorem mem_vars_declare {s : Scope τ} {u v : LocalVar} :
    v ∈ (s.declare u).vars ↔ v = u ∨ v ∈ s.vars := by
  obtain ⟨frames⟩ := s
  cases frames <;> simp [vars, declare, update]

theorem vars_declareType (s : Scope τ) (name : String) (t : τ) :
    (s.declareType name t).vars = s.vars := by
  obtain ⟨frames⟩ := s
  cases frames <;> simp [vars, declareType, update]

theorem vars_push (s : Scope τ) : s.push.vars = s.vars := by simp [vars, push]

theorem vars_pop_subset (s : Scope τ) : s.pop.vars ⊆ s.vars := by
  obtain ⟨frames⟩ := s
  cases frames <;> simp [vars, pop]

end Scope

namespace Sites

namespace Surroundings

-- Every variable of a scope was in scope before, or has been declared since, with a number below
-- the given one.
def Shows (s : Surroundings) (bound : Nat) (scope : Scope TypeId) : Prop :=
  ∀ v ∈ scope.vars, v ∈ s.scope.vars ∨ (s.nextVar ≤ v.id ∧ v.id < bound)

structure Since (s s' : Surroundings) : Prop where
  later : s.nextVar ≤ s'.nextVar
  shows : s.Shows s'.nextVar s'.scope

namespace Since

variable {s s' s'' : Surroundings}

theorem refl (s : Surroundings) : Since s s := ⟨Nat.le_refl _, fun _ before => .inl before⟩

theorem shows_of {bound : Nat} {scope : Scope TypeId} (first : Since s s')
    (below : s'.nextVar ≤ bound) (second : s'.Shows bound scope) : s.Shows bound scope := by
  intro v inScope
  have later := first.later
  rcases second v inScope with before | ⟨_, _⟩
  · rcases first.shows v before with before | ⟨_, _⟩
    · exact .inl before
    · exact .inr (by omega)
  · exact .inr (by omega)

theorem trans (first : Since s s') (second : Since s' s'') : Since s s'' :=
  ⟨Nat.le_trans first.later second.later, first.shows_of second.later second.shows⟩

theorem of_subset (same : s'.nextVar = s.nextVar) (fewer : s'.scope.vars ⊆ s.scope.vars) :
    Since s s' :=
  ⟨Nat.le_of_eq same.symm, fun _ inScope => .inl (fewer inScope)⟩

theorem declareAll (s : Surroundings) (vs : List LocalVar) : Since s (s.declareAll vs) := by
  induction vs generalizing s with
  | nil => exact refl s
  | cons v vs ih =>
    have first : Since s (s.declare v) := by
      refine ⟨Nat.le_succ _, fun u inScope => ?_⟩
      rcases Scope.mem_vars_declare.1 inScope with rfl | before
      · exact .inr ⟨Nat.le_refl _, Nat.lt_succ_self _⟩
      · exact .inl before
    exact first.trans (ih (s.declare v))

theorem enter (w : World) (unit : Nat) (s : Surroundings) (t : Tree) :
    Since s (s.enter w unit t).1 := by
  have declared : Since s (s.enterDeclaration w unit t).1 := by
    apply of_subset
    · have entered := entered_enterDeclaration w unit s t
      generalize s.enterDeclaration w unit t = result at entered
      cases entered <;> rfl
    · rw [scope_enterDeclaration]
      cases localType? w unit t <;> simp [Scope.vars_declareType]
  cases frame : t.is scopeNodes with
  | true =>
    simp only [Surroundings.enter, frame, if_true]
    have pushed : Since s { (s.enterDeclaration w unit t).1 with
        scope := (s.enterDeclaration w unit t).1.scope.push } :=
      declared.trans (of_subset rfl (by simp [Scope.vars_push]))
    exact pushed.trans (declareAll _ _)
  | false =>
    rw [enter_of_frameless w unit s t frame]
    exact declared.trans (declareAll _ _)

theorem leave (s : Surroundings) (opened : Opened) : Since s (s.leave opened) := by
  have fewer : (s.leave opened).scope.vars ⊆ s.scope.vars := by
    simp only [Surroundings.leave]
    split
    · exact s.scope.vars_pop_subset
    · exact List.Subset.refl _
  exact of_subset rfl fewer

end Since

end Surroundings

variable (w : World) (unit : Nat)

theorem since_walk (parent : Option Tree) (s : Surroundings) (t : Tree) :
    Surroundings.Since s (walk w unit parent s t).1 := by
  induction t using Tree.induction generalizing parent s with
  | node t ih =>
    rw [walk_eq]
    have inside := walkAll_rel w unit Surroundings.Since.refl Surroundings.Since.trans (some t)
      (s.enter w unit t).1 t.children fun c listed s => ih c listed (some t) s
    exact ((Surroundings.Since.enter w unit s t).trans inside).trans (.leave _ _)

theorem shows_walkAll (parent : Option Tree) (s : Surroundings) (ts : List Tree)
    (each : ∀ t ∈ ts, ∀ s : Surroundings, ∀ site ∈ (walk w unit parent s t).2,
      s.Shows (walk w unit parent s t).1.nextVar site.context.scope) :
    ∀ site ∈ (walkAll w unit parent s ts).2,
      s.Shows (walkAll w unit parent s ts).1.nextVar site.context.scope := by
  induction ts generalizing s with
  | nil => simp [walkAll]
  | cons t ts ih =>
    have rest s := ih s fun u listed => each u (List.mem_cons_of_mem _ listed)
    have after (s : Surroundings) : Surroundings.Since s (walkAll w unit parent s ts).1 :=
      walkAll_rel w unit Surroundings.Since.refl Surroundings.Since.trans parent s ts
        fun u _ s => since_walk w unit parent s u
    rw [walkAll]
    split
    · intro site visited
      have here := since_walk w unit parent s t
      have later := after (walk w unit parent s t).1
      rcases List.mem_append.1 visited with first | second
      · intro v inScope
        rcases each t List.mem_cons_self s site first v inScope with before | ⟨_, _⟩
        · exact .inl before
        · exact .inr ⟨by assumption, Nat.lt_of_lt_of_le (by assumption) later.later⟩
      · exact here.shows_of later.later (rest _ site second)
    · exact rest s

theorem shows_walk (parent : Option Tree) (s : Surroundings) (t : Tree) :
    ∀ site ∈ (walk w unit parent s t).2,
      s.Shows (walk w unit parent s t).1.nextVar site.context.scope := by
  induction t using Tree.induction generalizing parent s with
  | node t ih =>
    have entered := Surroundings.Since.enter w unit s t
    have inside := shows_walkAll w unit (some t) (s.enter w unit t).1 t.children
      fun c listed s => ih c listed (some t) s
    have later := walkAll_rel w unit Surroundings.Since.refl Surroundings.Since.trans (some t)
      (s.enter w unit t).1 t.children fun c _ s => since_walk w unit (some t) s c
    rw [walk_eq]
    intro site visited
    rcases List.mem_append.1 visited with here | below
    · rw [scope_of_site? (by simpa using here)]
      exact entered.shows_of later.later fun _ inScope => .inl inScope
    · exact entered.shows_of later.later (inside site below)

end Sites

namespace SourceUnit

variable {u : SourceUnit} {t : Tree} {i : Nat}

theorem type?_of_declarationAt? (found : u.declarationAt? t = some (.type i)) :
    ∃ d, u.type? i = some d ∧ d.node.key = t.key := by
  obtain ⟨d, type, ⟨-, key⟩ | ⟨m, n, member, -⟩⟩ :=
    mem_index_iff.1 (mem_index_of_declarationAt? found)
  · exact ⟨d, type, key.symm⟩
  · cases member

-- Only a type without a name of its own is declared by its body.
theorem Parsed.kind_of_declarationAt? (parsed : u.Parsed)
    (found : u.declarationAt? t = some (.type i)) {d : TypeDecl} (type : u.type? i = some d)
    (named : d.isNamed = true) :
    TypeKind.ofNodeKind? t.kind = some d.kind := by
  obtain ⟨e, same, key⟩ := type?_of_declarationAt? found
  obtain rfl : d = e := Option.some.inj (type.symm.trans same)
  have kind : d.node.kind = t.kind := congrArg NodeKey.kind key
  rw [← kind]
  cases parsed.declared type with
  | named spot k n declares => rw [Outline.node_declare, Outline.kind_declare, declares]
  | anonymous owner base body => simp [TypeDecl.isNamed, TypeDecl.isAnonymous,
      Outline.declareAnonymous, Outline.withMembers] at named

end SourceUnit

namespace Sites

variable (w : World) (unit : Nat)

theorem is_scopeNodes_of_ofNodeKind? {t : Tree} {k : TypeKind}
    (declares : TypeKind.ofNodeKind? t.kind = some k) :
    t.is scopeNodes = false := by
  unfold TypeKind.ofNodeKind? at declares
  unfold Tree.is
  split at declares <;> simp_all [scopeNodes]

theorem loose_of_frame {t : Tree} (parsed : (w.unit unit).Parsed) (frame : t.is scopeNodes = true) :
    loose w unit t = [] := by
  rw [loose_eq_nil_iff]
  refine ⟨?_, fun frameless => by simp [frame] at frameless⟩
  unfold Surroundings.localType?
  split
  next i found =>
    obtain ⟨d, type, -⟩ := SourceUnit.type?_of_declarationAt? found
    have decl : w.decl ⟨unit, i⟩ = d := by simp [World.decl, type]
    rw [decl]
    split
    next localNamed =>
      rw [Bool.and_eq_true] at localNamed
      have declares := parsed.kind_of_declarationAt? found type localNamed.2
      rw [is_scopeNodes_of_ofNodeKind? declares] at frame
      cases frame
    next => rfl
  next => rfl

/-- A node leaves the local scope as it was exactly if none of its declarations is loose. -/
theorem locals_stay_inside (parent : Option Tree) (s : Surroundings) (t : Tree) :
    ((walk w unit parent s t).1.scope = s.scope ↔ loose w unit t = []) ∧
    ((w.unit unit).Parsed → t.is scopeNodes = true → loose w unit t = []) ∧
    ∀ before : List Tree, (∀ u ∈ before, u.named = true → loose w unit u = []) →
      let s' := (walkAll w unit parent s before).1
      s'.scope = s.scope ∧
      ∀ site ∈ (walk w unit parent s' t).2, ∀ v ∈ site.context.scope.vars,
        v ∈ s.scope.vars ∨ (s'.nextVar ≤ v.id ∧ v.id < (walk w unit parent s' t).1.nextVar) := by
  refine ⟨scope_walk_eq_iff w unit parent s t, loose_of_frame w unit, ?_⟩
  intro before tidy s'
  have same : s'.scope = s.scope := scope_walkAll_of_tidy w unit parent s before
    fun u listed named s => scope_walk_of_tidy w unit (tidy u listed named) parent s
  refine ⟨same, ?_⟩
  intro site visited v inScope
  rw [← same]
  exact shows_walk w unit parent s' t site visited v inScope

-- The file `class Foo {} class A { Object o; boolean b = o instanceof Foo x; m() { x.bar(); } }`,
-- and the same with `o instanceof Foo` in place of the test that declares a variable.
def typeTest (declares : Bool) : Tree :=
  let test : Tree :=
    { kind := "instanceof_expression", role := some "value", children := [
      { Node.leaf "identifier" "o" "left" with start := 5 },
      Node.leaf "type_identifier" "Foo" "right"] ++
        if declares then [Node.name "x"] else [] }
  let object : Tree := { Node.leaf "identifier" "x" "object" with start := 6 }
  Node.file [
    Node.classDecl 1 "Foo" [] [],
    Node.classDecl 2 "A" [] [
      Node.field 3 (Node.leaf "boolean_type" "boolean" "type") "b" [test],
      Node.method 4 [] "m" [] [Node.call 0 [object] "bar" []]]]

def typeTestWorld (declares : Bool) : World :=
  { units := [SourceUnit.ofTree none (typeTest declares)] }

-- The member declarations of the class `A`.
def typeTestMembers (declares : Bool) : List Tree :=
  ((typeTest declares).children[1]?.bind (·.child? "body")).elim [] Tree.children

def typeTestMember (declares : Bool) (i : Nat) : Tree := (typeTestMembers declares)[i]?.getD default

theorem locals_stay_inside_typeTest :
    let w := typeTestWorld false
    let field := typeTestMember false 0
    let method := typeTestMember false 1
    (∀ u ∈ [field], u.named = true → loose w 0 u = []) ∧ method.is scopeNodes = true ∧
      loose w 0 method = [] ∧
      ∀ site ∈ (walk w 0 none (walkAll w 0 none {} [field]).1 method).2,
        ∀ v ∈ site.context.scope.vars,
        (walkAll w 0 none {} [field]).1.nextVar ≤ v.id := by
  intro w field method
  have tidy : ∀ u ∈ [field], u.named = true → loose w 0 u = [] := by
    have empty : (loose w 0 field).isEmpty = true := by decide +kernel
    simpa using fun _ => List.isEmpty_iff.1 empty
  have frame : method.is scopeNodes = true := by decide +kernel
  obtain ⟨-, inFrame, sees⟩ := locals_stay_inside w 0 none {} method
  refine ⟨tidy, frame, inFrame ⟨none, typeTest false, rfl⟩ frame, ?_⟩
  intro site visited v inScope
  rcases (sees [field] tidy).2 site visited v inScope with before | ⟨since, -⟩
  · exact absurd before List.not_mem_nil
  · exact since

-- The variable of the field's initializer stays in scope, and the call in the method sees it.
theorem locals_stay_inside_typeTest_declares :
    let w := typeTestWorld true
    let field := typeTestMember true 0
    (walk w 0 none {} field).1.scope.vars.map (·.name) = ["x"] ∧
      (ofUnit w 0).map (fun site =>
        (site.node.kind, site.node.text, site.context.scope.vars.map (·.name))) =
        [("identifier", "o", ["x"]), ("method_invocation", "", ["x"]),
          ("identifier", "x", ["x"])] := by
  decide +kernel

end Sites

end RefGraph

import Mathlib.Tactic.MkIffOfInductiveProp
import RefGraph.Proofs.Occurrences

/-!
The nodes of a file that stand for types, said without the outline: a node stands at the top of the
file, in the body of a type or in the code of its members.
-/

set_option autoImplicit false

namespace RefGraph

def Tree.nodes (t : Tree) : List Tree := (t.withParents none).map (·.1)

namespace Outline

def declarationKinds : List String :=
  ["class_declaration", "interface_declaration", "enum_declaration", "record_declaration",
    "annotation_type_declaration", "class_body", "method_declaration", "constructor_declaration",
    "compact_constructor_declaration", "variable_declarator", "enum_constant"]

/-- A tree as the grammar of the language makes it. -/
@[mk_iff]
structure Regular (file : Tree) : Prop where
  -- Keys tell the declarations of the file apart.
  keys : ((file.nodes.filter (·.is declarationKinds)).map Tree.key).Nodup
  packageFirst :
    (file.namedChildren.dropWhile fun t => !t.isTypeDeclaration).filterMap package? = []
  -- The arguments of enum constants are in parentheses, and no class bodies.
  arguments : ∀ t ∈ file.nodes, ArgumentsApart t
  named : ∀ t ∈ file.nodes, t.kind = "enum_constant" → (t.child? "name").isSome
  declarators : ∀ t ∈ file.nodes, t.role = some "declarator" → t.kind = "variable_declarator"

instance (file : Tree) : Decidable (Regular file) := decidable_of_iff _ (regular_iff file).symm

/-- Where a node stands: at the top of the file, or in the body or the code of the type with the
given node. -/
inductive Region where
  | top
  | body (type : Tree)
  | code (type : Tree)

def membersIn? (t : Tree) : Option Tree := if t.isTypeDeclaration then t.child? "body" else some t

mutual
/-- A node in a region. The code of a member goes down to the types in it, which are regions of
their own. -/
inductive Stands (file : Tree) : Region → Tree → Prop
  | top {t : Tree} (child : t ∈ file.namedChildren) : Stands file .top t
  | member {region : Region} {type body t : Tree} (isType : TypeNode file region type)
      (isBody : membersIn? type = some body) (child : t ∈ body.namedChildren) :
        Stands file (.body type) t
  | afterConstants {type rest t : Tree} (stands : Stands file (.body type) rest)
      (kind : rest.kind = "enum_body_declarations") (child : t ∈ rest.namedChildren) :
        Stands file (.body type) t
  | code {type member t : Tree} (stands : Stands file (.body type) member)
      (kind : member.kind ∈ codeNodes) (child : t ∈ member.namedChildren) :
        Stands file (.code type) t
  | argument {type constant arguments t : Tree} (stands : Stands file (.body type) constant)
      (kind : constant.kind = "enum_constant")
      (isArguments : constant.child? "arguments" = some arguments)
      (child : t ∈ arguments.namedChildren) : Stands file (.code type) t
  | deeper {type outer t : Tree} (stands : Stands file (.code type) outer)
      (noType : outer.isTypeDeclaration = false) (child : t ∈ outer.namedChildren)
      (noBody : outer.kind = "object_creation_expression" → t.kind ≠ "class_body") :
        Stands file (.code type) t

inductive TypeNode (file : Tree) : Region → Tree → Prop
  | declaration {region : Region} {t : Tree} (stands : Stands file region t)
      (declares : t.isTypeDeclaration = true) :
      TypeNode file region t
  | creation {type creation body : Tree} (stands : Stands file (.code type) creation)
      (kind : creation.kind = "object_creation_expression")
      (isBody : creation.childOf? ["class_body"] = some body) :
      TypeNode file (.code type) body
  | constant {type constant body : Tree} (stands : Stands file (.body type) constant)
      (kind : constant.kind = "enum_constant")
      (isBody : constant.childOf? ["class_body"] = some body) :
      TypeNode file (.code type) body
end

theorem Mode.or_eq (m n : Mode) : m.or n = m ∨ m.or n = n := by
  cases m with
  | skip => exact .inr rfl
  | unit | visit | inside | anonymous => exact .inl rfl

namespace Occurrence

section Children

def MetWhere (p : Tree → Bool) (met : Mode → Prop) : List Mode → List Tree → Prop
  | m :: ms, t :: ts => (if p t then met m else m = .skip) ∧ MetWhere p met ms ts
  | [], [] => True
  | _, _ => False

theorem metWhere_visitModes (spot : Spot) (next : Nat) (ts : List Tree) :
    MetWhere (·.named) (fun m => ∃ next, m = .visit spot next) (visitModes spot next ts) ts := by
  induction ts generalizing next with
  | nil => trivial
  | cons t ts ih =>
    rw [visitModes]
    split
    next named => exact ⟨by simp [named], ih _⟩
    next unnamed => exact ⟨by simp [unnamed], ih _⟩

theorem metWhere_besideModes (spot : Spot) (next : Nat) (ts : List Tree) :
    MetWhere (fun t => t.named && t.kind != "class_body") (fun m => ∃ next, m = .visit spot next)
      (besideModes spot next ts) ts := by
  induction ts generalizing next with
  | nil => trivial
  | cons t ts ih =>
    rw [besideModes]
    split
    next beside => exact ⟨by simp [beside], ih _⟩
    next body => exact ⟨by simp [body], ih _⟩

theorem metWhere_topModes (package : Option Name) (next : Nat) (ts : List Tree) :
    MetWhere (·.named) (fun m => ∃ package next, m = .visit (.top package) next)
      (topModes package next ts) ts := by
  induction ts generalizing package next with
  | nil => trivial
  | cons t ts ih =>
    rw [topModes]
    split
    next named => exact ⟨by simp [named], ih _ _⟩
    next unnamed => exact ⟨by simp [unnamed], ih _ _⟩

def firstModes (p : Tree → Bool) (m : Mode) : List Tree → List Mode
  | [] => []
  | t :: ts => if p t then [m] else .skip :: firstModes p m ts

theorem roleModes_eq (role : String) (spot : Spot) (next : Nat) (ts : List Tree) :
    roleModes role spot next ts = firstModes (·.role == some role) (.inside spot next) ts := by
  induction ts with
  | nil => rfl
  | cons t ts ih => rw [roleModes, firstModes, ih]

theorem bodyModes_eq (owner : Owner) (base : TypeRef) (next : Nat) (ts : List Tree) :
    bodyModes owner base next ts = firstModes (·.kind == "class_body")
      (.anonymous owner base next) ts := by
  induction ts with
  | nil => rfl
  | cons t ts ih => rw [bodyModes, firstModes, ih]

variable {around : List Nat} {ts : List Tree} {ms ns : List Mode} {p : Tree → Bool} {o : Occurrence}

theorem mode_of_nil (placed : o ∈ place [] around ts) : o.mode = .skip := by
  induction ts with
  | nil => simp [place] at placed
  | cons t ts ih =>
    rcases List.mem_cons.1 placed with rfl | later
    · rfl
    · exact ih later

theorem MetWhere.mode {met : Mode → Prop} (metThere : MetWhere p met ms ts)
    (placed : o ∈ place ms around ts) :
    o.mode = .skip ∨ o.node ∈ ts ∧ p o.node = true ∧ met o.mode := by
  induction ts generalizing ms with
  | nil => simp [place] at placed
  | cons t ts ih =>
    cases ms with
    | nil => exact metThere.elim
    | cons m ms =>
      obtain ⟨here, later⟩ := metThere
      rcases List.mem_cons.1 placed with rfl | below
      · split at here
        next holds => exact .inr ⟨List.mem_cons_self, holds, here⟩
        next => exact .inl here
      · exact (ih later below).imp_right fun met => ⟨List.mem_cons_of_mem _ met.1, met.2⟩

theorem MetWhere.exists_placed {met : Mode → Prop} (metThere : MetWhere p met ms ts) {t : Tree}
    (listed : t ∈ ts) (holds : p t = true) (around : List Nat) :
    ∃ m, met m ∧ ⟨t, m, around⟩ ∈ place ms around ts := by
  induction ts generalizing ms with
  | nil => simp at listed
  | cons u us ih =>
    cases ms with
    | nil => exact metThere.elim
    | cons m ms =>
      obtain ⟨here, later⟩ := metThere
      rcases List.mem_cons.1 listed with rfl | further
      · rw [if_pos holds] at here
        exact ⟨m, here, List.mem_cons_self⟩
      · obtain ⟨m', met, placed⟩ := ih later further
        exact ⟨m', met, List.mem_cons_of_mem _ placed⟩

theorem mode_of_firstModes {m : Mode} (placed : o ∈ place (firstModes p m ts) around ts) :
    o.mode = .skip ∨ ts.find? p = some o.node ∧ o.mode = m := by
  induction ts with
  | nil => simp [place] at placed
  | cons t ts ih =>
    rw [firstModes] at placed
    split at placed
    next first =>
      rcases List.mem_cons.1 placed with rfl | later
      · exact .inr ⟨List.find?_cons_of_pos first, rfl⟩
      · exact .inl (mode_of_nil later)
    next other =>
      rcases List.mem_cons.1 placed with rfl | later
      · exact .inl rfl
      · rw [List.find?_cons_of_neg other]
        exact ih later

theorem placed_firstModes {t : Tree} (found : ts.find? p = some t) (m : Mode) (around : List Nat) :
    ⟨t, m, around⟩ ∈ place (firstModes p m ts) around ts := by
  induction ts with
  | nil => cases found
  | cons u us ih =>
    rw [firstModes]
    split
    next first =>
      rw [List.find?_cons_of_pos first] at found
      obtain rfl := Option.some.inj found
      exact List.mem_cons_self
    next other =>
      rw [List.find?_cons_of_neg other] at found
      exact List.mem_cons_of_mem _ (ih found)

theorem placed_of_merge (placed : o ∈ place (merge ms ns) around ts) :
    o ∈ place ms around ts ∨ o ∈ place ns around ts := by
  induction ts generalizing ms ns with
  | nil => simp [place] at placed
  | cons t ts ih =>
    rw [place, headD_merge, tail_merge] at placed
    rcases List.mem_cons.1 placed with rfl | later
    · rcases (ms.headD .skip).or_eq (ns.headD .skip) with same | same
      · rw [same]
        exact .inl List.mem_cons_self
      · rw [same]
        exact .inr List.mem_cons_self
    · exact (ih later).imp (List.mem_cons_of_mem _) (List.mem_cons_of_mem _)

theorem placed_merge_left (placed : o ∈ place ms around ts) (met : o.mode ≠ .skip)
    (ns : List Mode) :
    o ∈ place (merge ms ns) around ts := by
  induction ts generalizing ms ns with
  | nil => simp [place] at placed
  | cons t ts ih =>
    rw [place, headD_merge, tail_merge]
    rcases List.mem_cons.1 placed with rfl | later
    · cases first : ms.headD .skip with
      | skip => exact absurd first met
      | unit | visit | inside | anonymous => exact List.mem_cons_self
    · exact List.mem_cons_of_mem _ (ih later _)

theorem placed_merge_right (placed : o ∈ place ns around ts) (met : o.mode ≠ .skip)
    (apart : Apart ms ns) :
    o ∈ place (merge ms ns) around ts := by
  induction ts generalizing ms ns with
  | nil => simp [place] at placed
  | cons t ts ih =>
    rw [place, headD_merge, tail_merge]
    rcases List.mem_cons.1 placed with rfl | later
    · have one : ms.headD .skip = .skip ∨ ns.headD .skip = .skip := by
        simpa [List.headD_eq_head?_getD, List.head?_eq_getElem?] using apart 0
      rw [one.resolve_right met]
      exact List.mem_cons_self
    · exact List.mem_cons_of_mem _ (ih later apart.tail)

end Children

inductive Meets : Mode → Tree → Mode → Tree → Prop
  | top {t c : Tree} {package : Option Name} {next : Nat} (child : c ∈ t.namedChildren) :
      Meets .unit t (.visit (.top package) next) c
  | body {spot : Spot} {next : Nat} {t c : Tree} {k : TypeKind}
      (declares : TypeKind.ofNodeKind? t.kind = some k) (isBody : t.child? "body" = some c) :
      Meets (.visit spot next) t
        (.inside (.body ⟨next, (declare spot k t).name, (declare spot k t).qualified⟩) (next + 1)) c
  | code {owner : Owner} {next next' : Nat} {t c : Tree} (kind : t.kind ∈ codeNodes)
      (child : c ∈ t.namedChildren) :
      Meets (.visit (.body owner) next) t (.visit (.code owner) next') c
  | afterConstants {owner : Owner} {next next' : Nat} {t c : Tree}
      (kind : t.kind = "enum_body_declarations") (child : c ∈ t.namedChildren) :
        Meets (.visit (.body owner) next) t (.visit (.body owner) next') c
  | arguments {owner : Owner} {next next' : Nat} {t c : Tree} (kind : t.kind = "enum_constant")
      (isArguments : t.child? "arguments" = some c) :
      Meets (.visit (.body owner) next) t (.inside (.code owner) next') c
  | constantBody {owner : Owner} {base : TypeRef} {next next' : Nat} {t c : Tree}
      (kind : t.kind = "enum_constant") (isBody : t.childOf? ["class_body"] = some c) :
      Meets (.visit (.body owner) next) t (.anonymous owner base next') c
  | creationBody {owner : Owner} {base : TypeRef} {next next' : Nat} {t c : Tree}
      (kind : t.kind = "object_creation_expression") (isBody : t.childOf? ["class_body"] = some c) :
      Meets (.visit (.code owner) next) t (.anonymous owner base next') c
  | deeper {owner : Owner} {next next' : Nat} {t c : Tree}
      (noType : TypeKind.ofNodeKind? t.kind = none) (child : c ∈ t.namedChildren)
      (noBody : t.kind = "object_creation_expression" → c.kind ≠ "class_body") :
      Meets (.visit (.code owner) next) t (.visit (.code owner) next') c
  | inside {spot : Spot} {next next' : Nat} {t c : Tree} (child : c ∈ t.namedChildren) :
      Meets (.inside spot next) t (.visit spot next') c
  | anonymous {owner : Owner} {base : TypeRef} {next next' : Nat} {t c : Tree}
      (child : c ∈ t.namedChildren) :
      Meets (.anonymous owner base next) t (.visit (.body ⟨next, "", none⟩) next') c

theorem childOf?_classBody (t : Tree) :
    t.childOf? ["class_body"] = t.children.find? (·.kind == "class_body") := by
  simp only [Tree.childOf?, Tree.is, List.contains_cons, List.contains_nil, Bool.or_false]

section Meets

variable {around : List Nat} {t : Tree} {c : Occurrence}

theorem visited_of_visitModes {spot : Spot} {next : Nat}
    (placed : c ∈ place (visitModes spot next t.children) around t.children) :
    c.mode = .skip ∨ c.node ∈ t.namedChildren ∧ ∃ next', c.mode = .visit spot next' := by
  refine ((metWhere_visitModes spot next t.children).mode placed).imp_right ?_
  rintro ⟨listed, named, met⟩
  exact ⟨List.mem_filter.2 ⟨listed, named⟩, met⟩

theorem met_of_bodyModes {owner : Owner} {base : TypeRef} {next : Nat}
    (placed : c ∈ place (bodyModes owner base next t.children) around t.children) :
    c.mode = .skip ∨ t.childOf? ["class_body"] = some c.node ∧
      c.mode = .anonymous owner base next := by
  rw [bodyModes_eq] at placed
  rw [childOf?_classBody]
  exact mode_of_firstModes placed

theorem met_of_roleModes {role : String} {spot : Spot} {next : Nat}
    (placed : c ∈ place (roleModes role spot next t.children) around t.children) :
    c.mode = .skip ∨ t.child? role = some c.node ∧ c.mode = .inside spot next := by
  rw [roleModes_eq] at placed
  exact mode_of_firstModes placed

end Meets

theorem meets_of_child {o c : Occurrence} (child : c ∈ o.children) :
    c.mode = .skip ∨ Meets o.mode o.node c.mode c.node := by
  obtain ⟨t, mode, around⟩ := o
  cases mode with
  | skip => exact .inl (mode_of_nil child)
  | unit =>
    refine ((metWhere_topModes none 0 t.children).mode child).imp_right ?_
    rintro ⟨listed, named, package, next, met⟩
    rw [met]
    exact .top (List.mem_filter.2 ⟨listed, named⟩)
  | inside spot next =>
    refine (visited_of_visitModes child).imp_right ?_
    rintro ⟨listed, next', met⟩
    rw [met]
    exact .inside listed
  | anonymous owner base next =>
    refine (visited_of_visitModes child).imp_right ?_
    rintro ⟨listed, next', met⟩
    rw [met]
    exact .anonymous listed
  | visit spot next =>
    unfold children at child
    dsimp only [Mode.below] at child
    cases declares : TypeKind.ofNodeKind? t.kind with
    | some k =>
      rw [declares] at child
      refine (met_of_roleModes child).imp_right ?_
      rintro ⟨isBody, met⟩
      rw [met]
      exact .body declares isBody
    | none =>
      rw [declares] at child
      cases spot with
      | top package => exact .inl (mode_of_nil child)
      | body owner =>
        dsimp only at child
        split at child
        next kind =>
          refine (visited_of_visitModes child).imp_right ?_
          rintro ⟨listed, next', met⟩
          rw [met]
          exact .code (by simpa using kind) listed
        next =>
          split at child
          next kind =>
            refine (visited_of_visitModes child).imp_right ?_
            rintro ⟨listed, next', met⟩
            rw [met]
            exact .afterConstants (by simpa using kind) listed
          next =>
            split at child
            next constant =>
              rw [Bool.and_eq_true, beq_iff_eq] at constant
              rcases placed_of_merge child with inArguments | isBody
              · refine (met_of_roleModes inArguments).imp_right ?_
                rintro ⟨isArguments, met⟩
                rw [met]
                exact .arguments constant.1 isArguments
              · refine (met_of_bodyModes isBody).imp_right ?_
                rintro ⟨isBody, met⟩
                rw [met]
                exact .constantBody constant.1 isBody
            next => exact .inl (mode_of_nil child)
      | code owner =>
        dsimp only at child
        split at child
        next creation =>
          have kind : t.kind = "object_creation_expression" := by simpa using creation
          rcases placed_of_merge child with isBody | beside
          · refine (met_of_bodyModes isBody).imp_right ?_
            rintro ⟨isBody, met⟩
            rw [met]
            exact .creationBody kind isBody
          · refine ((metWhere_besideModes _ _ _).mode beside).imp_right ?_
            rintro ⟨listed, holds, next', met⟩
            rw [Bool.and_eq_true, bne_iff_ne] at holds
            rw [met]
            exact .deeper declares (List.mem_filter.2 ⟨listed, holds.1⟩) fun _ => holds.2
        next notCreation =>
          refine (visited_of_visitModes child).imp_right ?_
          rintro ⟨listed, next', met⟩
          rw [met]
          exact .deeper declares listed fun kind => absurd kind (by simpa using notCreation)

def ofFile (file : Tree) : Occurrence := ⟨file, .unit, []⟩

end Occurrence

open Occurrence

def Owns (file type : Tree) (owner : Owner) : Prop :=
  ∃ o d, Within (ofFile file) o ∧ o.node = type ∧ o.decl? = some (owner.index, d) ∧
    d.name = owner.name ∧
    d.qualified = owner.qualified

namespace Region

def Matches (file : Tree) : Region → Spot → Prop
  | top, .top _ => True
  | body type, .body owner | code type, .code owner => Owns file type owner
  | _, _ => False

variable {file : Tree} {region : Region} {owner : Owner}

theorem body_of_matches (same : region.Matches file (.body owner)) :
    ∃ type, region = .body type ∧ Owns file type owner := by
  cases region with
  | body type => exact ⟨type, rfl, same⟩
  | top | code => exact same.elim

theorem code_of_matches (same : region.Matches file (.code owner)) :
    ∃ type, region = .code type ∧ Owns file type owner := by
  cases region with
  | code type => exact ⟨type, rfl, same⟩
  | top | body => exact same.elim

theorem spot_of_body {type : Tree} {spot : Spot} (same : (Region.body type).Matches file spot) :
    ∃ owner, spot = .body owner := by
  cases spot with
  | body owner => exact ⟨owner, rfl⟩
  | top | code => exact same.elim

theorem spot_of_code {type : Tree} {spot : Spot} (same : (Region.code type).Matches file spot) :
    ∃ owner, spot = .code owner := by
  cases spot with
  | code owner => exact ⟨owner, rfl⟩
  | top | body => exact same.elim

end Region

theorem isTypeDeclaration_of {t : Tree} {k : TypeKind}
    (declares : TypeKind.ofNodeKind? t.kind = some k) :
    t.isTypeDeclaration = true := by
  simp [Tree.isTypeDeclaration, declares]

def Grounded (file : Tree) (o : Occurrence) : Prop :=
  match o.mode with
  | .skip => True
  | .unit => o.node = file
  | .visit spot _ => ∃ region, Stands file region o.node ∧ region.Matches file spot
  | .inside spot _ => ∃ region, (∀ t ∈ o.node.namedChildren, Stands file region t) ∧
    region.Matches file spot
  | .anonymous owner _ _ => ∃ type, TypeNode file (.code type) o.node ∧ Owns file type owner

theorem grounded_child {file : Tree} {o c : Occurrence} (inside : Within (ofFile file) o)
    (grounded : Grounded file o) (child : c ∈ o.children) : Grounded file c := by
  obtain ⟨t, mode, around⟩ := o
  obtain ⟨t', mode', around'⟩ := c
  rcases meets_of_child child with skipped | meets
  · obtain rfl : mode' = .skip := skipped
    trivial
  dsimp only at meets
  cases meets with
  | top child =>
    obtain rfl : t = file := grounded
    exact ⟨.top, .top child, trivial⟩
  | body declares isBody =>
    obtain ⟨region, stands, -⟩ := grounded
    have isType := isTypeDeclaration_of declares
    refine ⟨.body t, fun x listed => ?_, _, _, inside, rfl, ?_, rfl, rfl⟩
    · exact .member (.declaration stands isType) (by rw [membersIn?, if_pos isType, isBody]) listed
    · simp [Occurrence.decl?, Mode.decl?, declares]
  | code kind child =>
    obtain ⟨region, stands, same⟩ := grounded
    obtain ⟨type, rfl, owns⟩ := Region.body_of_matches same
    exact ⟨.code type, .code stands kind child, owns⟩
  | afterConstants kind child =>
    obtain ⟨region, stands, same⟩ := grounded
    obtain ⟨type, rfl, owns⟩ := Region.body_of_matches same
    exact ⟨.body type, .afterConstants stands kind child, owns⟩
  | arguments kind isArguments =>
    obtain ⟨region, stands, same⟩ := grounded
    obtain ⟨type, rfl, owns⟩ := Region.body_of_matches same
    exact ⟨.code type, fun x listed => .argument stands kind isArguments listed, owns⟩
  | constantBody kind isBody =>
    obtain ⟨region, stands, same⟩ := grounded
    obtain ⟨type, rfl, owns⟩ := Region.body_of_matches same
    exact ⟨type, .constant stands kind isBody, owns⟩
  | creationBody kind isBody =>
    obtain ⟨region, stands, same⟩ := grounded
    obtain ⟨type, rfl, owns⟩ := Region.code_of_matches same
    exact ⟨type, .creation stands kind isBody, owns⟩
  | deeper noType child noBody =>
    obtain ⟨region, stands, same⟩ := grounded
    obtain ⟨type, rfl, owns⟩ := Region.code_of_matches same
    exact ⟨.code type, .deeper stands (by simp [Tree.isTypeDeclaration, noType]) child noBody, owns⟩
  | inside child =>
    obtain ⟨region, stands, same⟩ := grounded
    exact ⟨region, stands t' child, same⟩
  | @anonymous owner base next next' _ _ child =>
    obtain ⟨type, isType, -⟩ := grounded
    have kind : t.kind = "class_body" := (inside.fits rfl).2
    have members : membersIn? t = some t := by
      simp [membersIn?, Tree.isTypeDeclaration, TypeKind.ofNodeKind?, kind]
    exact ⟨.body t, .member isType members child, _, _, inside, rfl, rfl, rfl, rfl⟩

theorem grounded_of_within {file : Tree} {o : Occurrence} (inside : Within (ofFile file) o) :
    Grounded file o := by
  induction inside with
  | root => rfl
  | child within listed ih => exact grounded_child within ih listed

def Numbered (file type : Tree) (i : Nat) : Prop :=
  ∃ o d, Within (ofFile file) o ∧ o.node = type ∧ o.decl? = some (i, d)

def Region.At (isType : Tree → Nat → Prop) : Region → Place → Prop
  | top, .top => True
  | body type, .body i | code type, .code i => isType type i
  | _, _ => False

theorem Owns.numbered {file type : Tree} {owner : Owner} (owns : Owns file type owner) :
    Numbered file type owner.index := by
  obtain ⟨o, d, inside, node, declares, -⟩ := owns
  exact ⟨o, d, inside, node, declares⟩

theorem Region.Matches.at_place {file : Tree} {region : Region} {spot : Spot}
    (same : region.Matches file spot) :
    region.At (Numbered file) spot.place := by
  cases spot with
  | top package =>
    cases region with
    | top => trivial
    | body | code => exact same.elim
  | body owner =>
    obtain ⟨type, rfl, owns⟩ := body_of_matches same
    exact owns.numbered
  | code owner =>
    obtain ⟨type, rfl, owns⟩ := code_of_matches same
    exact owns.numbered

theorem typeNode_of_decl? {file : Tree} {o : Occurrence} {i : Nat} {d : TypeDecl}
    (inside : Within (ofFile file) o) (declares : o.decl? = some (i, d)) :
    ∃ region, TypeNode file region o.node ∧ region.At (Numbered file) d.place := by
  have grounded := grounded_of_within inside
  obtain ⟨t, mode, around⟩ := o
  cases mode with
  | skip | unit | inside => cases declares
  | visit spot next =>
    obtain ⟨k, isType, same⟩ := Option.map_eq_some_iff.1 declares
    obtain ⟨rfl, rfl⟩ := Prod.mk.inj same
    obtain ⟨region, stands, same⟩ := grounded
    rw [place_declare]
    exact ⟨region, .declaration stands (isTypeDeclaration_of isType), same.at_place⟩
  | anonymous owner base next =>
    obtain ⟨rfl, rfl⟩ := Prod.mk.inj (Option.some.inj declares)
    obtain ⟨type, isType, owns⟩ := grounded
    exact ⟨.code type, isType, owns.numbered⟩

namespace Occurrence

variable {t : Tree} {owner : Owner} {next : Nat}

theorem ofNodeKind?_of_mem_codeNodes {kind : String} (isCode : kind ∈ codeNodes) :
    TypeKind.ofNodeKind? kind = none := by
  revert kind
  decide

theorem below_code (kind : t.kind ∈ codeNodes) :
    (Mode.visit (.body owner) next).below t = visitModes (.code owner) next t.children := by
  simp [Mode.below, ofNodeKind?_of_mem_codeNodes kind, kind]

theorem below_afterConstants (kind : t.kind = "enum_body_declarations") :
    (Mode.visit (.body owner) next).below t = visitModes (.body owner) next t.children := by
  simp [Mode.below, TypeKind.ofNodeKind?, codeNodes, kind]

theorem below_constant (kind : t.kind = "enum_constant") (named : (t.child? "name").isSome) :
    ∃ base next', (Mode.visit (.body owner) next).below t =
      merge (roleModes "arguments" (.code owner) next t.children)
        (bodyModes owner base next' t.children) := by
  refine ⟨TypeRef.ofName (Name.simple owner.name),
    next + (visitRole "arguments" (.code owner) next t.children).length, ?_⟩
  simp [Mode.below, TypeKind.ofNodeKind?, codeNodes, kind, named]

theorem below_creation (kind : t.kind = "object_creation_expression") :
    ∃ base next', (Mode.visit (.code owner) next).below t =
      merge (bodyModes owner base next t.children)
        (besideModes (.code owner) next' t.children) := by
  let base := ((t.child? "type").bind TypeRef.ofNode?).getD TypeRef.top
  refine ⟨base, next + (visitClassBody owner base next t.children).length, ?_⟩
  simp [Mode.below, TypeKind.ofNodeKind?, kind, base]

theorem below_deeper (noType : t.isTypeDeclaration = false)
    (kind : t.kind ≠ "object_creation_expression") :
    (Mode.visit (.code owner) next).below t = visitModes (.code owner) next t.children := by
  have none : TypeKind.ofNodeKind? t.kind = none := by simpa [Tree.isTypeDeclaration] using noType
  simp [Mode.below, none, kind]

variable {o : Occurrence} {c : Tree}

theorem exists_visited (o : Occurrence) {spot : Spot}
    (below : o.mode.below o.node = visitModes spot next o.node.children)
    (child : c ∈ o.node.namedChildren) : ∃ next', ⟨c, .visit spot next', o.inner⟩ ∈ o.children := by
  obtain ⟨listed, named⟩ := List.mem_filter.1 child
  obtain ⟨m, ⟨next', rfl⟩, placed⟩ :=
    (metWhere_visitModes spot next o.node.children).exists_placed listed named o.inner
  exact ⟨next', by rw [children, below]; exact placed⟩

-- The members of a type are met as such, whether it has a name or not.
theorem exists_visited_member {i : Nat} {d : TypeDecl} {body : Tree} (fits : o.Fits)
    (declares : o.decl? = some (i, d)) (isBody : membersIn? o.node = some body)
    (child : c ∈ body.namedChildren) :
    ∃ m, Within o m ∧ m.node = c ∧
      ∃ next, m.mode = .visit (.body ⟨i, d.name, d.qualified⟩) next := by
  obtain ⟨t, mode, around⟩ := o
  cases mode with
  | skip | unit | inside => cases declares
  | visit spot next =>
    obtain ⟨k, isType, same⟩ := Option.map_eq_some_iff.1 declares
    obtain ⟨rfl, rfl⟩ := Prod.mk.inj same
    rw [membersIn?, if_pos (isTypeDeclaration_of isType)] at isBody
    have placed : ⟨body,
        .inside (.body ⟨next, (declare spot k t).name, (declare spot k t).qualified⟩) (next + 1),
        (Occurrence.mk t (.visit spot next) around).inner⟩ ∈
          (Occurrence.mk t (.visit spot next) around).children := by
      unfold children
      dsimp only [Mode.below]
      rw [isType]
      exact exists_role_child isBody _ _ _
    obtain ⟨next', visited⟩ := exists_visited ⟨body, .inside _ _, _⟩ rfl child
    exact ⟨_, (Within.root.child placed).child visited, rfl, next', rfl⟩
  | anonymous owner base next =>
    obtain ⟨rfl, rfl⟩ := Prod.mk.inj (Option.some.inj declares)
    have kind : t.kind = "class_body" := fits.2
    obtain rfl : t = body := by
      simpa [membersIn?, Tree.isTypeDeclaration, TypeKind.ofNodeKind?, kind] using isBody
    obtain ⟨next', visited⟩ := exists_visited ⟨t, .anonymous owner base next, around⟩ rfl child
    exact ⟨_, Within.root.child visited, rfl, next', rfl⟩

end Occurrence

theorem mem_nodes_of_within {file : Tree} {o : Occurrence} (inside : Within (ofFile file) o) :
    o.node ∈ file.nodes := by
  have all := (ofFile file).map_node_all none
  rw [Tree.nodes, show file = (ofFile file).node from rfl, ← all]
  exact List.mem_map_of_mem (mem_all_iff.2 inside)

section Completeness

variable {file : Tree} (regular : Regular file)

include regular

mutual
theorem exists_visit {region : Region} {t : Tree} : Stands file region t →
    ∃ o spot next, Within (ofFile file) o ∧ o.node = t ∧ o.mode = .visit spot next ∧
      region.Matches file spot
  | .top child => by
    obtain ⟨listed, named⟩ := List.mem_filter.1 child
    obtain ⟨m, ⟨package, next, rfl⟩, placed⟩ :=
      (metWhere_topModes none 0 file.children).exists_placed listed named []
    exact ⟨_, _, _, Within.root.child placed, rfl, rfl, trivial⟩
  | .member isType isBody child => by
    obtain ⟨o, i, d, inside, rfl, declares, -⟩ := exists_decl isType
    obtain ⟨m, within, node, next, met⟩ :=
      exists_visited_member (inside.fits rfl) declares isBody child
    exact ⟨m, _, next, inside.trans within, node, met, o, d, inside, rfl, declares, rfl, rfl⟩
  | .afterConstants stands kind child => by
    obtain ⟨⟨t, mode, around⟩, spot, next, inside, rfl, rfl, same⟩ := exists_visit stands
    obtain ⟨owner, rfl⟩ := Region.spot_of_body same
    obtain ⟨next', visited⟩ := exists_visited _ (below_afterConstants kind) child
    exact ⟨_, _, next', inside.child visited, rfl, rfl, same⟩
  | .code stands kind child => by
    obtain ⟨⟨t, mode, around⟩, spot, next, inside, rfl, rfl, same⟩ := exists_visit stands
    obtain ⟨owner, rfl⟩ := Region.spot_of_body same
    obtain ⟨next', visited⟩ := exists_visited _ (below_code kind) child
    exact ⟨_, _, next', inside.child visited, rfl, rfl, same⟩
  | .argument stands kind isArguments child => by
    obtain ⟨⟨t, mode, around⟩, spot, next, inside, rfl, rfl, same⟩ := exists_visit stands
    obtain ⟨owner, rfl⟩ := Region.spot_of_body same
    obtain ⟨base, next', below⟩ :=
      below_constant kind (regular.named t (mem_nodes_of_within inside) kind)
    have placed := placed_merge_left
      (exists_role_child isArguments (.code owner)
        next (Occurrence.mk t (.visit (.body owner) next) around).inner)
      (by simp) (bodyModes owner base next' t.children)
    rw [← below] at placed
    obtain ⟨next'', visited⟩ := exists_visited ⟨_, .inside (.code owner) next, _⟩ rfl child
    exact ⟨_, _, next'', (inside.child placed).child visited, rfl, rfl, same⟩
  | .deeper stands noType child noBody => by
    obtain ⟨⟨t, mode, around⟩, spot, next, inside, rfl, rfl, same⟩ := exists_visit stands
    obtain ⟨owner, rfl⟩ := Region.spot_of_code same
    by_cases kind : t.kind = "object_creation_expression"
    · obtain ⟨base, next', below⟩ := below_creation kind
      obtain ⟨listed, named⟩ := List.mem_filter.1 child
      have beside : (_ && _) = true := Bool.and_eq_true_iff.2 ⟨named, bne_iff_ne.2 (noBody kind)⟩
      obtain ⟨m, ⟨next'', rfl⟩, placed⟩ := (metWhere_besideModes (.code owner) next'
        t.children).exists_placed listed
        beside (Occurrence.mk t (.visit (.code owner) next) around).inner
      have merged := placed_merge_right placed (by simp) (apart_body_beside owner base next _ _ _)
      rw [← below] at merged
      exact ⟨_, _, next'', inside.child merged, rfl, rfl, same⟩
    · obtain ⟨next', visited⟩ := exists_visited _ (below_deeper noType kind) child
      exact ⟨_, _, next', inside.child visited, rfl, rfl, same⟩

theorem exists_decl {region : Region} {t : Tree} : TypeNode file region t →
    ∃ o i d, Within (ofFile file) o ∧ o.node = t ∧ o.decl? = some (i, d) ∧
      region.At (Numbered file) d.place
  | .declaration stands declares => by
    obtain ⟨⟨t, mode, around⟩, spot, next, inside, rfl, rfl, same⟩ := exists_visit stands
    obtain ⟨k, isType⟩ := Option.isSome_iff_exists.1 declares
    refine ⟨_, next, declare spot k t, inside, rfl, ?_, ?_⟩
    · exact Option.map_eq_some_iff.2 ⟨k, isType, rfl⟩
    · rw [place_declare]
      exact same.at_place
  | .creation stands kind isBody => by
    obtain ⟨⟨t, mode, around⟩, spot, next, inside, rfl, rfl, same⟩ := exists_visit stands
    obtain ⟨owner, rfl⟩ := Region.spot_of_code same
    obtain ⟨base, next', below⟩ := below_creation kind
    rw [childOf?_classBody] at isBody
    have placed := placed_firstModes isBody (.anonymous owner base next)
      (Occurrence.mk t (.visit (.code owner) next) around).inner
    rw [← bodyModes_eq] at placed
    have merged := placed_merge_left placed (by simp) (besideModes (.code owner) next' t.children)
    rw [← below] at merged
    exact ⟨_, next, _, inside.child merged, rfl, rfl, same.numbered⟩
  | .constant stands kind isBody => by
    obtain ⟨⟨t, mode, around⟩, spot, next, inside, rfl, rfl, same⟩ := exists_visit stands
    obtain ⟨owner, rfl⟩ := Region.spot_of_body same
    obtain ⟨base, next', below⟩ :=
      below_constant kind (regular.named t (mem_nodes_of_within inside) kind)
    rw [childOf?_classBody] at isBody
    have placed := placed_firstModes isBody (.anonymous owner base next')
      (Occurrence.mk t (.visit (.body owner) next) around).inner
    rw [← bodyModes_eq] at placed
    have apart := apart_role_body "arguments" (.code owner) next owner base next' t.children
      (regular.arguments t (mem_nodes_of_within inside) kind)
    have merged := placed_merge_right placed (by simp) apart
    rw [← below] at merged
    exact ⟨_, next', _, inside.child merged, rfl, rfl, same.numbered⟩
end

end Completeness

end Outline

end RefGraph

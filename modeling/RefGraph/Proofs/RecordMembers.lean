import RefGraph.Proofs.Makers
import RefGraph.Proofs.Occurrences

set_option autoImplicit false

namespace RefGraph

namespace TypeRef

mutual
def decEq : (t s : TypeRef) → Decidable (t = s)
  | ⟨h, as, m⟩, ⟨k, bs, n⟩ =>
    have := decEqArgs as bs
    decidable_of_iff (h = k ∧ as = bs ∧ m = n) (by simp)

def decEqArg : (a b : TypeArg) → Decidable (a = b)
  | .type t, .type s =>
    have := decEq t s
    decidable_of_iff (t = s) (by simp)
  | .unbounded, .unbounded => isTrue rfl
  | .bounded v t, .bounded w s =>
    have := decEq t s
    decidable_of_iff (v = w ∧ t = s) (by simp)
  | .type _, .unbounded | .type _, .bounded _ _ => isFalse nofun
  | .unbounded, .type _ | .unbounded, .bounded _ _ => isFalse nofun
  | .bounded _ _, .type _ | .bounded _ _, .unbounded => isFalse nofun

def decEqArgs : (as bs : List TypeArg) → Decidable (as = bs)
  | [], [] => isTrue rfl
  | a :: as, b :: bs =>
    have := decEqArg a b
    have := decEqArgs as bs
    decidable_of_iff (a = b ∧ as = bs) (by simp)
  | [], _ :: _ | _ :: _, [] => isFalse nofun
end

instance : DecidableEq TypeRef := decEq

end TypeRef

theorem Param.type_eq_effectiveType_iff (p : Param) :
    p.type = p.effectiveType ↔ p.varargs = false := by
  unfold effectiveType
  cases p.varargs with
  | false => simp
  | true =>
    have longer : p.type.dims ≠ (p.type.addDims 1).dims := by simp [TypeRef.addDims]
    simpa using fun same => longer (congrArg TypeRef.dims same)

namespace TypeDecl

variable (d : TypeDecl)

def components : List Param := Outline.paramsOf d.node

def componentsNamed (n : String) : List Param := d.components.filter (·.name == n)

def fieldsNamed (n : String) : List Field := d.fields.filter (·.name == n)

def accessors (n : String) : List Method := d.methods.filter fun m =>
    m.name == n && m.params.isEmpty

def canonicals : List Constructor :=
  d.constructors.filter fun k => k.params.map (·.effectiveType) = d.components.map (·.effectiveType)

def written : TypeDecl := Outline.withMembers d.components (d.node.child? "body") d

@[simp] theorem components_written : d.written.components = d.components := rfl

end TypeDecl

namespace Outline

def componentField (c : Param) : Field := { name := c.name, type := c.type }

def componentAccessor (c : Param) : Method :=
  { name := c.name, returns := c.type, synthetic := true }

/-- What a record has beyond the written members. -/
structure Completed (d : TypeDecl) : Prop where
  fields : d.fields = d.written.fields ++ d.components.map componentField
  methods : d.methods = d.written.methods ++
    (d.components.filter fun c => (d.written.accessors c.name).isEmpty).map componentAccessor
  constructors : d.constructors = d.written.constructors ++
    if d.written.constructors.any (·.params.length == d.components.length) then []
    else [{ name := d.name, params := d.components }]

theorem isSome_node_of_fieldsOf {owner : String} {kind : TypeKind} {t : Tree} {f : Field}
    (listed : f ∈ fieldsOf owner kind t) : f.node.isSome = true := by
  have ofDeclarator {isStatic : Bool}
      (listed : f ∈ (t.childrenIn "declarator").filterMap (declarator? isStatic t)) :
        f.node.isSome = true := by
    obtain ⟨c, -, made⟩ := List.mem_filterMap.1 listed
    simp only [declarator?, Option.bind_eq_bind, Option.bind_eq_some_iff, Option.pure_def,
      Option.some.injEq] at made
    obtain ⟨name, -, type, -, rfl⟩ := made
    rfl
  unfold fieldsOf at listed
  split at listed
  · exact ofDeclarator listed
  · exact ofDeclarator listed
  · rw [Option.mem_toList] at listed
    obtain ⟨name, -, rfl⟩ := Option.map_eq_some_iff.1 listed
    rfl
  · cases listed

theorem synthetic_of_method? {t : Tree} {m : Method} (made : method? t = some m) :
    m.synthetic = false := by
  unfold method? at made
  split at made
  · cases made
  · obtain ⟨name, -, rfl⟩ := Option.map_eq_some_iff.1 made
    rfl

theorem exists_canonical_of_compact {d : TypeDecl} {body t : Tree}
    (isBody : d.node.child? "body" = some body) (member : t ∈ memberNodes body)
    (compact : t.kind = "compact_constructor_declaration") :
    ∃ k ∈ d.written.canonicals, k.node = some t := by
  let k : Constructor :=
    { name := d.name, params := d.components, typeParams := typeParamsOf t, node := some t }
  have made : constructor? d.name d.components t = some k := by simp [constructor?, compact, k]
  have listed : k ∈ d.written.constructors := by
    rw [TypeDecl.written, isBody]
    exact List.mem_filterMap.2 ⟨t, member, made⟩
  exact ⟨k, List.mem_filter.2 ⟨listed, decide_eq_true rfl⟩, rfl⟩

theorem isEmpty_accessors (d : TypeDecl) (n : String) :
    (d.accessors n).isEmpty = !(d.methods.filter (·.params.isEmpty)).any (·.name == n) := by
  rw [TypeDecl.accessors, Bool.eq_iff_iff]
  simp only [List.isEmpty_iff, List.filter_eq_nil_iff, Bool.and_eq_true, beq_iff_eq, not_and,
    Bool.not_eq_true', List.any_eq_false, List.mem_filter, and_imp]
  exact forall₂_congr fun m _ => imp_not_comm

theorem completed_withComponents (d : TypeDecl) :
    Completed (withComponents d.components d.written) := by
  have written : (withComponents d.components d.written).written = d.written := rfl
  refine ⟨?_, ?_, ?_⟩
  · rw [written]
    rfl
  · simp only [written, isEmpty_accessors]
    rfl
  · have later (found : Bool) (ks new : List Constructor) :
        (if found then ks else ks ++ new) = ks ++ if found then [] else new := by
      cases found <;> simp
    rw [written]
    exact later _ _ _

theorem completed_of_record {d : TypeDecl} (declared : Declared d) (record : d.kind = .recordKind) :
    Completed d := by
  cases declared with
  | anonymous owner base body => cases record
  | named spot kind t declares =>
    rw [kind_declare] at record
    subst record
    exact completed_withComponents _

namespace Completed

variable {d : TypeDecl} (completed : Completed d)

include completed

theorem fieldsNamed (n : String) :
    d.fieldsNamed n = d.written.fieldsNamed n ++ (d.componentsNamed n).map componentField := by
  rw [TypeDecl.fieldsNamed, completed.fields, List.filter_append, List.filter_map]
  rfl

theorem accessors (n : String) : d.accessors n =
    if d.written.accessors n = [] then (d.componentsNamed n).map componentAccessor
      else d.written.accessors n := by
  have brought (c : Param) : ((c.name == n && true) && (d.written.accessors c.name).isEmpty) =
      (c.name == n && (d.written.accessors n).isEmpty) := by
    by_cases same : c.name = n
    · rw [same, Bool.and_true]
    · rw [beq_false_of_ne same, Bool.false_and, Bool.false_and, Bool.false_and]
  have others : d.accessors n = d.written.accessors n ++
      (d.components.filter fun c => c.name == n && (d.written.accessors n).isEmpty).map
        componentAccessor := by
    rw [TypeDecl.accessors, completed.methods, List.filter_append, List.filter_map,
      List.filter_filter]
    exact congrArg (_ ++ List.map _ ·) (List.filter_congr fun c _ => brought c)
  rw [others]
  by_cases written : d.written.accessors n = []
  · simp [written, TypeDecl.componentsNamed]
  · simp [written]

theorem canonicals : d.canonicals =
    if ∃ k ∈ d.written.constructors, k.params.length = d.components.length then d.written.canonicals
    else [{ name := d.name, params := d.components }] := by
  have others : d.canonicals = d.written.canonicals ++
      if ∃ k ∈ d.written.constructors, k.params.length = d.components.length then []
      else [{ name := d.name, params := d.components }] := by
    rw [TypeDecl.canonicals, completed.constructors, List.filter_append]
    simp only [List.any_eq_true, beq_iff_eq]
    split
    · rfl
    · exact congrArg (d.written.canonicals ++ ·) (List.filter_eq_self.2 (by simp))
  rw [others]
  split
  · rw [List.append_nil]
  · next asMany =>
    -- Who takes the components has as many parameters.
    have nothing : d.written.canonicals = [] := by
      refine List.filter_eq_nil_iff.2 fun k listed takes => asMany ⟨k, listed, ?_⟩
      simpa using congrArg List.length (of_decide_eq_true takes)
    rw [nothing, List.nil_append]

theorem one_canonical_iff : d.canonicals.length = 1 ↔ d.written.canonicals.length = 1 ∨
    ∀ k ∈ d.written.constructors, k.params.length ≠ d.components.length := by
  rw [completed.canonicals]
  split
  · next asMany =>
    obtain ⟨k, listed, same⟩ := asMany
    exact ⟨.inl, fun one => one.resolve_right fun different => different k listed same⟩
  · next asMany => exact ⟨fun _ => .inr fun k listed same => asMany ⟨k, listed, same⟩, fun _ => rfl⟩

theorem written_canonicals_subset : d.written.canonicals ⊆ d.canonicals := by
  intro k taken
  obtain ⟨listed, takes⟩ := List.mem_filter.1 taken
  rw [TypeDecl.canonicals, completed.constructors]
  exact List.mem_filter.2 ⟨List.mem_append_left _ listed, takes⟩

variable {c : Param} (listed : c ∈ d.components)

include listed

theorem one_field_iff : (d.fieldsNamed c.name).length = 1 ↔
    (d.written.fieldsNamed c.name).length = 0 ∧ (d.componentsNamed c.name).length = 1 := by
  have named : 0 < (d.componentsNamed c.name).length :=
    List.length_pos_of_mem (List.mem_filter.2 ⟨listed, beq_self_eq_true c.name⟩)
  rw [completed.fieldsNamed, List.length_append, List.length_map]
  omega

omit listed in
theorem one_accessor_iff : (d.accessors c.name).length = 1 ↔
    (d.written.accessors c.name).length = 1 ∨
    (d.written.accessors c.name).length = 0 ∧ (d.componentsNamed c.name).length = 1 := by
  rw [completed.accessors]
  split
  · next unwritten => simp [unwritten]
  · next written => simp [written]

omit completed in
theorem componentsNamed_eq (one : (d.componentsNamed c.name).length = 1) :
    d.componentsNamed c.name = [c] := by
  obtain ⟨b, only⟩ := List.length_eq_one_iff.1 one
  have named : c ∈ d.componentsNamed c.name := List.mem_filter.2 ⟨listed, beq_self_eq_true c.name⟩
  rw [only, List.mem_singleton] at named
  rw [only, named]

theorem field_eq (one : (d.componentsNamed c.name).length = 1) {f : Field}
    (named : f ∈ d.fieldsNamed c.name) (unwritten : f.node = none) : f = componentField c := by
  rw [completed.fieldsNamed, componentsNamed_eq listed one, List.mem_append] at named
  rcases named with written | brought
  · obtain ⟨t, -, made⟩ := List.mem_flatMap.1 (List.mem_filter.1 written).1
    have node := isSome_node_of_fieldsOf made
    simp [unwritten] at node
  · simpa using brought

theorem accessor_eq (one : (d.componentsNamed c.name).length = 1) {m : Method}
    (named : m ∈ d.accessors c.name) (synthetic : m.synthetic = true) :
    m = componentAccessor c := by
  rw [completed.accessors, componentsNamed_eq listed one] at named
  split at named
  · simpa using named
  · obtain ⟨t, -, made⟩ := List.mem_filterMap.1 (List.mem_filter.1 named).1
    rw [synthetic_of_method? made] at synthetic
    cases synthetic

end Completed

end Outline

namespace SourceUnit

/-- A record has one field and one accessor for a component, and one constructor that takes the
components, except where names repeat or another constructor has as many parameters. -/
theorem record_members {u : SourceUnit} (parsed : u.Parsed) {i : Nat} {d : TypeDecl}
    (found : u.type? i = some d) (record : d.kind = .recordKind) :
    (∀ c ∈ d.components,
      ((d.fieldsNamed c.name).length = 1 ↔
        (d.written.fieldsNamed c.name).length = 0 ∧ (d.componentsNamed c.name).length = 1) ∧
      ((d.accessors c.name).length = 1 ↔ (d.written.accessors c.name).length = 1 ∨
        (d.written.accessors c.name).length = 0 ∧ (d.componentsNamed c.name).length = 1) ∧
      ((d.componentsNamed c.name).length = 1 →
        (∀ f ∈ d.fieldsNamed c.name, f.node = none →
          (f.type = c.effectiveType ↔ c.varargs = false)) ∧
        ∀ m ∈ d.accessors c.name, m.synthetic = true →
          (m.returns = c.effectiveType ↔ c.varargs = false))) ∧
    (d.canonicals.length = 1 ↔ d.written.canonicals.length = 1 ∨
      ∀ k ∈ d.written.constructors, k.params.length ≠ d.components.length) ∧
    ∀ body t, d.node.child? "body" = some body → t ∈ Outline.memberNodes body →
      t.kind = "compact_constructor_declaration" → ∃ k ∈ d.canonicals, k.node = some t := by
  have completed := Outline.completed_of_record (parsed.declared found) record
  refine ⟨fun c listed =>
    ⟨completed.one_field_iff listed, completed.one_accessor_iff, fun one => ⟨?_, ?_⟩⟩,
    completed.one_canonical_iff, ?_⟩
  · intro f named unwritten
    rw [completed.field_eq listed one named unwritten]
    exact c.type_eq_effectiveType_iff
  · intro m named synthetic
    rw [completed.accessor_eq listed one named synthetic]
    exact c.type_eq_effectiveType_iff
  · intro body t isBody member compact
    obtain ⟨k, taken, node⟩ := Outline.exists_canonical_of_compact isBody member compact
    exact ⟨k, completed.written_canonicals_subset taken, node⟩

def spreadNode (type name : String) : Tree :=
  { kind := "spread_parameter", children := [
    { kind := "type_identifier", text := type },
    { kind := "variable_declarator", children := [Node.name name] }] }

def constructorNode (params : List Tree) : Tree :=
  { kind := "constructor_declaration", children := [Node.params params] }

-- A file `record P(…) { … }`.
def recordUnit (components members : List Tree) : SourceUnit :=
  ofTree none (Node.file [{ kind := "record_declaration", children := [
    Node.name "P", Node.params components, Node.body "class_body" 0 members] }])

-- `record P(A a, B... bs) { P {} P(B b) {} A a() {} }`
theorem record_members_compact :
    let accessor := Node.method 0 [Node.type "A"] "a" [] []
    let u := recordUnit [Node.param (Node.type "A") "a", spreadNode "B" "bs"]
      [{ kind := "compact_constructor_declaration" },
        constructorNode [Node.param (Node.type "B") "b"], accessor]
    ∃ d, u.Parsed ∧ u.type? 0 = some d ∧ d.kind = .recordKind ∧
      d.components.map (·.name) = ["a", "bs"] ∧
      (∀ c ∈ d.components, (d.fieldsNamed c.name).length = 1 ∧ (d.accessors c.name).length = 1) ∧
      d.canonicals.length = 1 := by
  intro accessor u
  let d := u.types.head (by decide)
  have parsed : u.Parsed := ⟨none, _, rfl⟩
  obtain ⟨each, canonical, -⟩ := record_members parsed (d := d) (i := 0) rfl rfl
  have written : ∀ c ∈ d.components, (d.written.fieldsNamed c.name).length = 0 ∧
      (d.written.accessors c.name).length ≤ 1 ∧ (d.componentsNamed c.name).length = 1 := by
    decide +kernel
  refine ⟨d, parsed, rfl, rfl,
    by decide +kernel, fun c listed => ?_, canonical.2 (.inl (by decide +kernel))⟩
  obtain ⟨field, accessor, -⟩ := each c listed
  obtain ⟨noField, accessors, one⟩ := written c listed
  exact ⟨field.2 ⟨noField, one⟩, accessor.2 (by omega)⟩

-- Lost: the array in `record P(A... as) {}`, the constructor in `record P(A a) { P(B b) {} }`.
theorem record_members_lost :
    (∃ d, (recordUnit [spreadNode "A" "as"] []).type? 0 = some d ∧ d.kind = .recordKind ∧
      ∃ c ∈ d.components, ∃ f ∈ d.fieldsNamed c.name, ∃ m ∈ d.accessors c.name, m.synthetic = true ∧
        f.type ≠ c.effectiveType ∧ m.returns ≠ c.effectiveType) ∧
    ∃ d, (recordUnit [Node.param (Node.type "A") "a"]
      [constructorNode [Node.param (Node.type "B") "b"]]).type? 0 = some d ∧
      d.kind = .recordKind ∧ d.canonicals.length = 0 := by
  refine ⟨⟨_, rfl, rfl, ?_⟩, ⟨_, rfl, rfl, ?_⟩⟩
  · decide +kernel
  · decide +kernel

end SourceUnit

end RefGraph

import Mathlib.Data.List.Basic
import RefGraph.Hierarchy

set_option autoImplicit false

namespace RefGraph

namespace Bindings

variable {α : Type}

-- The last entry of a name counts.
theorem get?_setAll (b : Bindings α) (entries : List (String × α)) (name : String) :
    (b.setAll entries).get? name = (entries.reverse.lookup name).or (b.get? name) := by
  induction entries generalizing b with
  | nil => rfl
  | cons e es ih =>
    obtain ⟨key, a⟩ := e
    have split : ((key, a) :: es).reverse.lookup name =
        (es.reverse.lookup name).or ([(key, a)].lookup name) := by
      rw [List.reverse_cons, List.lookup_append]
    rw [split, Option.or_assoc]
    refine (ih (b.set key a)).trans (congrArg _ ?_)
    by_cases same : name = key
    · simp [same]
    · rw [b.get?_set_of_ne a same, List.lookup_cons, beq_eq_false_iff_ne.2 same]
      rfl

theorem get?_ofList (entries : List (String × α)) (name : String) :
    (ofList entries).get? name = entries.reverse.lookup name :=
  (get?_setAll {} entries name).trans Option.or_none

theorem get?_ofList_of_notMem {entries : List (String × α)} {name : String}
    (absent : name ∉ entries.map (·.1)) :
    (ofList entries).get? name = none := by
  rw [get?_ofList, List.lookup_eq_none_iff]
  intro e listed
  rw [bne_iff_ne]
  intro same
  exact absent (List.mem_map.2 ⟨e, List.mem_reverse.1 listed, same.symm⟩)

theorem isSome_lookup_reverse {entries : List (String × α)} {name : String}
    (listed : name ∈ entries.map (·.1)) :
    (entries.reverse.lookup name).isSome := by
  obtain ⟨e, here, rfl⟩ := List.mem_map.1 listed
  rw [Option.isSome_iff_ne_none, Ne, List.lookup_eq_none_iff]
  intro none
  simpa using none e (List.mem_reverse.2 here)

theorem notMem_zip {names : List String} (values : List α) {name : String} (absent : name ∉ names) :
    name ∉ (names.zip values).map (·.1) := by
  intro listed
  obtain ⟨e, paired, rfl⟩ := List.mem_map.1 listed
  exact absent (List.of_mem_zip paired).1

end Bindings

namespace World

variable (w : World)

def supertypeRefs : Decl → List TypeRef
  | .corpus id => (w.decl id).supertypes
  | .library n => (w.libraryType n).supertypes
  | .placeholder _ => []

def header? : Decl → Option Context
  | .corpus id => some (w.headerContext id)
  | _ => none

def supertypeOf? (c : ClassType) (r : TypeRef) : Option ClassType :=
  w.resolveClass? (w.header? c.decl) (w.bindings c) r

def impliedSupertype? (c : ClassType) : Option ClassType :=
  match c.decl with
  | .corpus id =>
    let d := w.decl id
    (w.implicitSuper? c d.kind).or <|
      if (d.kind = .classKind ∨ d.kind = .anonymousKind) ∧
        d.superclasses.filterMap (w.supertypeOf? c) ≠ [] then none
      else some w.top
  | .library n =>
    if ((w.libraryType n).supertypes.filterMap (w.supertypeOf? c)).isEmpty && n != topName then
      some w.top else none
  | .placeholder _ => none

theorem directSupertypes_eq (c : ClassType) :
    w.directSupertypes c =
      (w.supertypeRefs c.decl).filterMap (w.supertypeOf? c) ++ (w.impliedSupertype? c).toList := by
  obtain ⟨d, args⟩ := c
  have read : w.resolveClass? (w.header? d) (w.bindings ⟨d, args⟩) = w.supertypeOf? ⟨d, args⟩ := rfl
  cases d with
  | placeholder p => rfl
  | library n =>
    simp only [header?] at read
    simp only [directSupertypes, impliedSupertype?, supertypeRefs, read]
    cases (w.libraryType n).supertypes.filterMap (w.supertypeOf? ⟨.library n, args⟩) with
    | nil => cases n != topName <;> rfl
    | cons s ss => simp
  | corpus id =>
    simp only [header?] at read
    simp only [directSupertypes, impliedSupertype?, supertypeRefs, read, TypeDecl.supertypes,
      List.filterMap_append]
    cases w.implicitSuper? ⟨.corpus id, args⟩ (w.decl id).kind with
    | some s => rfl
    | none =>
      dsimp only [Option.none_or]
      split <;> simp

variable {w}

theorem mem_directSupertypes {c s : ClassType} :
    s ∈ w.directSupertypes c ↔
      (∃ r ∈ w.supertypeRefs c.decl, w.supertypeOf? c r = some s) ∨
        w.impliedSupertype? c = some s := by
  rw [directSupertypes_eq, List.mem_append, List.mem_filterMap, Option.mem_toList]

theorem names_ownBindings (c : ClassType) {name : String} (absent : name ∉ w.paramNames c.decl) :
    (w.ownBindings c).get? name = none := by
  unfold ownBindings
  dsimp only
  split
  · exact Bindings.get?_ofList_of_notMem (Bindings.notMem_zip c.args absent)
  · rfl

theorem get?_bindings_of_notMem (c : ClassType) {name : String}
    (absent : name ∉ w.paramNames c.decl) :
    (w.bindings c).get? name = none := by
  have own := names_ownBindings c absent
  unfold bindings
  dsimp only
  split
  · split
    · refine Bindings.get?_ofList_of_notMem ?_
      rwa [List.map_map, show (Prod.fst ∘ fun n => (n, RType.var n [])) = id from rfl, List.map_id]
    · exact own
  · exact own

-- Elements of arrays make no class.
theorem asClass?_arrays_array (n : Nat) (t : RType) :
    asClass? (RType.arrays n (.array t)) = none := by
  induction n generalizing t with
  | zero => rfl
  | succ n ih => exact ih (.array t)

theorem decl_asClass?_arrays (n : Nat) (d : Decl) (args : List RType) :
    (asClass? (RType.arrays n (.ref d args))).map (·.decl) = if n = 0 then some d else none := by
  cases n with
  | zero => rfl
  | succ n =>
    rw [RType.arrays, asClass?_arrays_array]
    rfl

theorem decl_resolveClass? (ctx? : Option Context) {b : Bindings RType} {r : TypeRef}
    (unbound : r.name.isQualified = true ∨ b.get? r.name.first = none) :
    (w.resolveClass? ctx? b r).map (·.decl) = (w.resolveClass? ctx? {} r).map (·.decl) := by
  obtain ⟨head, args, dims⟩ := r
  unfold resolveClass? resolveRef
  cases head with
  | primitive p =>
    rw [Reading.resolve, Reading.resolve]
  | named n =>
    have known : (if n.isQualified then none else (w.reading ctx? b).known n.first) =
        if n.isQualified then none else (w.reading ctx? {}).known n.first := by
      rcases unbound with qualified | free
      · rw [if_pos (show n.isQualified = true from qualified),
          if_pos (show n.isQualified = true from qualified)]
      · simp only [reading, show b.get? n.first = none from free, Bindings.get?_empty]
    have found : (w.reading ctx? b).find n = (w.reading ctx? {}).find n := rfl
    rw [Reading.resolve, Reading.resolve, known, found]
    cases if n.isQualified then none else (w.reading ctx? {}).known n.first with
    | some t => rfl
    | none =>
      cases (w.reading ctx? {}).find n with
      | none => rfl
      | some d => simp [Except.toOption, decl_asClass?_arrays]

variable (w) in
def NamesSupertypes (d : Decl) : Prop :=
  ∀ r ∈ w.supertypeRefs d, r.name.isQualified = true ∨ r.name.first ∉ w.paramNames d

instance (d : Decl) : Decidable (w.NamesSupertypes d) := List.decidableBAll _ _

theorem decl_implicitSuper? (c c' : ClassType) (kind : TypeKind) :
    (w.implicitSuper? c kind).map (·.decl) = (w.implicitSuper? c' kind).map (·.decl) := by
  have known (n : Name) (args args' : List RType) :
      ((w.known n args).toOption.getD w.top).decl =
        ((w.known n args').toOption.getD w.top).decl := by
    unfold World.known
    cases w.resolve? none n <;> rfl
  cases kind with
  | enumKind => exact congrArg some (known _ _ _)
  | _ => rfl

section

variable {d : Decl} (named : w.NamesSupertypes d) (args args' : List RType)

include named

theorem decl_filterMap_supertypeOf? {rs : List TypeRef} (among : rs ⊆ w.supertypeRefs d) :
    (rs.filterMap (w.supertypeOf? ⟨d, args⟩)).map (·.decl) =
      (rs.filterMap (w.supertypeOf? ⟨d, args'⟩)).map (·.decl) := by
  rw [List.map_filterMap, List.map_filterMap]
  refine List.filterMap_congr fun r listed => ?_
  have free (args : List RType) : r.name.isQualified = true ∨
      (w.bindings ⟨d, args⟩).get? r.name.first = none :=
    (named r (among listed)).imp_right (get?_bindings_of_notMem ⟨d, args⟩)
  exact (decl_resolveClass? _ (free args)).trans (decl_resolveClass? _ (free args')).symm

theorem filterMap_supertypeOf?_eq_nil {rs : List TypeRef} (among : rs ⊆ w.supertypeRefs d) :
    rs.filterMap (w.supertypeOf? ⟨d, args⟩) = [] ↔
      rs.filterMap (w.supertypeOf? ⟨d, args'⟩) = [] := by
  rw [← List.map_eq_nil_iff, decl_filterMap_supertypeOf? named args args' among,
    List.map_eq_nil_iff]

theorem decl_impliedSupertype? :
    (w.impliedSupertype? ⟨d, args⟩).map (·.decl) =
      (w.impliedSupertype? ⟨d, args'⟩).map (·.decl) := by
  cases d with
  | placeholder p => rfl
  | library n =>
    have found :=
      filterMap_supertypeOf?_eq_nil named args args' (List.Subset.refl (w.libraryType n).supertypes)
    simp only [impliedSupertype?, Bool.and_eq_true, List.isEmpty_iff, found]
  | corpus id =>
    have extended := filterMap_supertypeOf?_eq_nil named args args'
      (List.subset_append_left (w.decl id).superclasses (w.decl id).interfaces)
    have implicit := w.decl_implicitSuper? ⟨.corpus id, args⟩ ⟨.corpus id, args'⟩ (w.decl id).kind
    simp only [impliedSupertype?, Option.map_or, implicit, ne_eq, extended]

theorem decl_directSupertypes :
    (w.directSupertypes ⟨d, args⟩).map (·.decl) = (w.directSupertypes ⟨d, args'⟩).map (·.decl) := by
  have written := decl_filterMap_supertypeOf? named args args' (List.Subset.refl _)
  have implied := decl_impliedSupertype? named args args'
  rw [directSupertypes_eq, directSupertypes_eq, List.map_append, List.map_append, written,
    ← Option.toList_map, ← Option.toList_map, implied]

end

end World

end RefGraph

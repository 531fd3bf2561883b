import Mathlib.Data.List.Sort
import RefGraph.Proofs.Makers
import RefGraph.Proofs.ModelledTypes

set_option autoImplicit false

namespace RefGraph

def TypeDecl.isMember (d : TypeDecl) : Bool :=
  match d.place with
  | .body _ => true
  | _ => false

namespace SourceUnit

variable {u : SourceUnit}

theorem sublist_indicesWhere {p : TypeDecl → Bool} {i j : Nat} (before : i < j)
    (first : i ∈ u.indicesWhere p) (second : j ∈ u.indicesWhere p) :
    [i, j].Sublist (u.indicesWhere p) := by
  have sorted : (u.indicesWhere p).Pairwise (· < ·) := by
    have all : (u.types.zipIdx.map (·.2)).Pairwise (· < ·) := by
      rw [List.zipIdx_map_snd]
      exact List.pairwise_lt_range'
    exact all.sublist (List.filter_sublist.map _)
  have distinct : [i, j].Nodup := by simp [before.ne]
  have among : [i, j] ⊆ u.indicesWhere p := by simp [first, second]
  exact List.sublist_of_subperm_of_pairwise (List.subperm_of_subset distinct among)
    (by simpa using before) sorted

theorem typeLevels_succ (u : SourceUnit) (depth : Nat) (level : List Nat) :
    u.typeLevels (depth + 1) level = level ++ u.typeLevels depth (level.flatMap u.memberTypes) := by
  cases level with
  | cons i is => rfl
  | nil => cases depth <;> rfl

theorem sublist_typeLevels {depth : Nat} {level : List Nat} {outer i : Nat}
    (unnested : u.Unnested level) (inner : u.Inner outer i)
    (above : outer ∈ u.typeLevels depth level) (below : i ∈ u.typeLevels depth level) :
    [outer, i].Sublist (u.typeLevels depth level) := by
  induction depth generalizing level with
  | zero => simp [typeLevels] at above
  | succ depth ih =>
    have notHere : i ∉ level := by
      intro here
      obtain ⟨a, start, reaches⟩ := exists_of_mem_typeLevels above
      exact unnested a start i here (.tail' reaches inner)
    rw [typeLevels_succ] at above below ⊢
    have next := (List.mem_append.1 below).resolve_left notHere
    rcases List.mem_append.1 above with here | deeper
    · exact (List.singleton_sublist.2 here).append (List.singleton_sublist.2 next)
    · exact (ih unnested.below deeper next).trans (List.sublist_append_right ..)

def firstTypes (u : SourceUnit) : List Nat := u.topTypes ++ u.localTypes ++ u.anonymousTypes

theorem allTypes_eq {i : Nat} {d : TypeDecl} (type : u.type? i = some d) :
    ∃ depth, u.allTypes = u.firstTypes ++ u.typeLevels depth
      (u.firstTypes.flatMap u.memberTypes) := by
  have inside : i < u.types.length := (List.getElem?_eq_some_iff.1 type).1
  obtain ⟨depth, enough⟩ : ∃ k, u.types.length = k + 1 := ⟨u.types.length - 1, by omega⟩
  refine ⟨depth, ?_⟩
  rw [allTypes, enough, ← firstTypes, typeLevels_succ]

section Sorts

variable {i o : Nat} {d e : TypeDecl} (type : u.type? i = some d)

include type

theorem mem_topTypes (top : d.place = .top) : i ∈ u.topTypes := by
  simp [topTypes, mem_indicesWhere, type, top]

theorem mem_localTypes (inCode : d.isLocal = true) (named : d.isNamed = true) :
    i ∈ u.localTypes := by
  simp [localTypes, mem_indicesWhere, type, inCode, named]

theorem mem_anonymousTypes (anonymous : d.isAnonymous = true) : i ∈ u.anonymousTypes := by
  simp [anonymousTypes, mem_indicesWhere, type, anonymous]

theorem mem_codeTypes (inCode : d.isLocal = true) : i ∈ u.localTypes ++ u.anonymousTypes := by
  cases anonymous : d.isAnonymous with
  | true => exact List.mem_append_right _ (mem_anonymousTypes type anonymous)
  | false => exact List.mem_append_left _ (mem_localTypes type inCode
    (by simp [TypeDecl.isNamed, anonymous]))

theorem sublist_firstTypes (around : u.type? o = some e) (before : o < i)
    (inCode : d.isLocal = true) (outside : e.isMember = false) :
    if d.isAnonymous || e.isNamed then [o, i].Sublist u.firstTypes
      else [i, o].Sublist u.firstTypes := by
  cases anonymous' : e.isAnonymous with
  | true =>
    have last := mem_anonymousTypes around anonymous'
    cases anonymous : d.isAnonymous with
    | true =>
      rw [if_pos (by simp)]
      exact (sublist_indicesWhere before last (mem_anonymousTypes type anonymous)).trans
        (List.sublist_append_right ..)
    | false =>
      have first := mem_localTypes type inCode (by simp [TypeDecl.isNamed, anonymous])
      rw [if_neg (by simp [TypeDecl.isNamed, anonymous'])]
      exact (List.singleton_sublist.2 (List.mem_append_right _ first)).append
        (List.singleton_sublist.2 last)
  | false =>
    have named : e.isNamed = true := by simp [TypeDecl.isNamed, anonymous']
    rw [if_pos (by simp [named])]
    cases place : e.place with
    | body outer => simp [TypeDecl.isMember, place] at outside
    | top =>
      have first := List.singleton_sublist.2 (mem_topTypes around place)
      rw [firstTypes, List.append_assoc]
      exact first.append (List.singleton_sublist.2 (mem_codeTypes type inCode))
    | code outer =>
      have first := mem_localTypes around (by simp [TypeDecl.isLocal, place]) named
      cases anonymous : d.isAnonymous with
      | true =>
        have last := mem_anonymousTypes type anonymous
        exact (List.singleton_sublist.2 (List.mem_append_right _ first)).append
          (List.singleton_sublist.2 last)
      | false =>
        have second := mem_localTypes type inCode (by simp [TypeDecl.isNamed, anonymous])
        have inOrder :=
          (sublist_indicesWhere before first second).trans (List.sublist_append_right u.topTypes _)
        exact inOrder.trans (List.sublist_append_left ..)

theorem Parsed.sublist_of_inCode (parsed : u.Parsed) (around : u.type? o = some e) (before : o < i)
    (inCode : d.isLocal = true) :
    if !e.isMember && (d.isAnonymous || e.isNamed) then [o, i].Sublist u.allTypes
      else [i, o].Sublist u.allTypes := by
  obtain ⟨depth, all⟩ := allTypes_eq type
  have here : u.firstTypes.Sublist u.allTypes := all ▸ List.sublist_append_left ..
  cases member : e.isMember with
  | true =>
    have first : i ∈ u.firstTypes := by
      rw [firstTypes, List.append_assoc]
      exact List.mem_append_right _ (mem_codeTypes type inCode)
    have notHere : o ∉ u.firstTypes := by
      intro listed
      cases place : e.place with
      | body outer => exact parsed.not_inner listed (mem_memberTypes.2 ⟨e, around, place⟩)
      | _ => simp [TypeDecl.isMember, place] at member
    have listed := parsed.mem_allTypes around
    rw [all] at listed ⊢
    exact (List.singleton_sublist.2 first).append
      (List.singleton_sublist.2 ((List.mem_append.1 listed).resolve_left notHere))
  | false =>
    have inOrder := sublist_firstTypes type around before inCode member
    simp only [Bool.not_false, Bool.true_and]
    split at inOrder
    next later => exact (if_pos later).symm ▸ inOrder.trans here
    next earlier => exact (if_neg earlier).symm ▸ inOrder.trans here

end Sorts

/-- A member type is listed after the type around it, and a type in code exactly if that is no
member type, nor anonymous around a type with a name. -/
theorem listed_after_outer (parsed : u.Parsed) {i o : Nat} {d : TypeDecl}
    (type : u.type? i = some d) (outer : d.place.outer? = some o) :
    ∃ e, u.type? o = some e ∧ u.allTypes.count o = 1 ∧ u.allTypes.count i = 1 ∧
      if d.isMember || !e.isMember && (d.isAnonymous || e.isNamed) then [o, i].Sublist u.allTypes
      else [i, o].Sublist u.allTypes := by
  have before := parsed.outer_lt type outer
  have inside : i < u.types.length := (List.getElem?_eq_some_iff.1 type).1
  obtain ⟨e, around⟩ : ∃ e, u.type? o = some e :=
    ⟨_, List.getElem?_eq_getElem (before.trans inside)⟩
  have listed := parsed.mem_allTypes type
  have listed' := parsed.mem_allTypes around
  have once {j : Nat} (listed : j ∈ u.allTypes) :=
    List.count_eq_one_of_mem parsed.nodup_allTypes listed
  refine ⟨e, around, once listed', once listed, ?_⟩
  cases place : d.place with
  | top => simp [place, Place.outer?] at outer
  | body outer' =>
    obtain rfl : outer' = o := by simpa [place, Place.outer?] using outer
    have inner : u.Inner outer' i := mem_memberTypes.2 ⟨d, type, place⟩
    rw [if_pos (by simp [TypeDecl.isMember, place])]
    exact sublist_typeLevels parsed.unnested inner listed' listed
  | code outer' =>
    have inCode : d.isLocal = true := by simp [TypeDecl.isLocal, place]
    have notMember : d.isMember = false := by simp [TypeDecl.isMember, place]
    rw [notMember, Bool.false_or]
    exact parsed.sublist_of_inCode type around before inCode

-- The file `class T { class M { void f() { class L {} } } }`.
def localInMember : SourceUnit :=
  ofTree none (Node.file [
    Node.classDecl 0 "T" [] [
      Node.classDecl 0 "M" [] [Node.method 0 [] "f" [] [Node.classDecl 0 "L" [] []]]]])

-- The file `class T { void f() { new B() { void g() { class L {} } }; } }`.
def localInAnonymous : SourceUnit :=
  ofTree none (Node.file [
    Node.classDecl 0 "T" [] [
      Node.method 0 [] "f" [] [
        Node.creation 0 "B" [] [Node.method 0 [] "g" [] [Node.classDecl 0 "L" [] []]]]]])

theorem listed_after_outer_localInMember :
    ∃ d, localInMember.type? 1 = some d ∧ d.place.outer? = some 0 ∧
      localInMember.allTypes.count 0 = 1 ∧
      localInMember.allTypes.count 1 = 1 ∧ [0, 1].Sublist localInMember.allTypes := by
  have member :
      (localInMember.type? 1).any (fun d => d.isMember && d.place.outer? == some 0) = true := by
    decide +kernel
  obtain ⟨d, type, place⟩ := (Option.any_eq_true _ _).1 member
  simp only [Bool.and_eq_true, beq_iff_eq] at place
  obtain ⟨e, -, once, once', inOrder⟩ := listed_after_outer ⟨none, _, rfl⟩ type place.2
  rw [place.1, Bool.true_or, if_pos rfl] at inOrder
  exact ⟨d, type, place.2, once, once', inOrder⟩

/-- A class in the code of a member type comes before that type, and one in the code of an anonymous
type before that. -/
theorem local_listed_before_outer :
    (localInMember.type? 2).bind (·.place.outer?) = some 1 ∧ localInMember.allTypes = [0, 2, 1] ∧
      ¬ [1, 2].Sublist localInMember.allTypes ∧
    (localInAnonymous.type? 2).bind (·.place.outer?) = some 1 ∧
      localInAnonymous.allTypes = [0, 2, 1] ∧
      ¬ [1, 2].Sublist localInAnonymous.allTypes := by
  decide +kernel

end SourceUnit

end RefGraph

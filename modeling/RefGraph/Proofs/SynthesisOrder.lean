import Mathlib.Data.List.Basic
import Mathlib.Data.List.TakeWhile
import RefGraph.Proofs.Makers
import RefGraph.Proofs.SharedPlaceholders
import RefGraph.Proofs.Synthesis

set_option autoImplicit false

namespace RefGraph

namespace Registry

-- A name is held as the registrations with its last segment say.
theorem get?_ofList_congr {rs rs' : List (Name × Int)} {k : Name}
    (same : rs'.filter (fun e => e.1.last == k.last) = rs.filter fun e => e.1.last == k.last) :
    (ofList rs').get? k = (ofList rs).get? k := by
  have isKey : k ∈ keys rs' ↔ k ∈ keys rs := by
    have kept (rs : List (Name × Int)) : k ∈ keys rs ↔
        k ∈ keys (rs.filter fun e => e.1.last == k.last) := by
      rw [mem_keys, mem_keys]
      constructor
      · rintro ⟨e, listed, among⟩
        exact ⟨e, List.mem_filter.2 ⟨listed, by simp [last_of_mem_keysOf among]⟩, among⟩
      · rintro ⟨e, listed, among⟩
        exact ⟨e, (List.mem_filter.1 listed).1, among⟩
    rw [kept rs', same, ← kept rs]
  have best : best? rs' k.last = best? rs k.last := by rw [best?, same, best?]
  rw [get?_ofList, get?_ofList, best]
  simp only [isKey]

end Registry

namespace Mention

/-- The work on a declaration stops at the first mention that nests deeper than the limit. -/
structure StopsAt (limit : Int) (ms : List Mention) (before : List (Nat × Mention))
    (deep : Nat × Mention) (after : List (Nat × Mention)) : Prop where
  sites : ms.flatMap expand = before ++ deep :: after
  fits : ∀ m ∈ before, (m.1 : Int) ≤ limit
  tooDeep : limit < deep.1

variable {limit : Int} {ms : List Mention} {before after : List (Nat × Mention)}
    {deep : Nat × Mention}

theorem fitting_of_stopsAt (stops : StopsAt limit ms before deep after) :
    fitting limit ms = before.map (·.2) := by
  have taken : before.takeWhile (fun m => decide ((m.1 : Int) ≤ limit)) = before := by
    simpa [List.takeWhile_eq_self_iff] using stops.fits
  simp [fitting, stops.sites, List.takeWhile_append, taken, stops.tooDeep]

theorem fitting_of_fits (fits : ∀ m ∈ ms.flatMap expand, (m.1 : Int) ≤ limit) :
    fitting limit ms = (ms.flatMap expand).map (·.2) := by
  have taken : (ms.flatMap expand).takeWhile (fun m => decide ((m.1 : Int) ≤ limit)) =
      ms.flatMap expand := by
    simpa only [List.takeWhile_eq_self_iff, decide_eq_true_eq] using fits
  rw [fitting, taken]

-- A declaration stops somewhere or goes through all that it mentions.
theorem stopsAt_or_fits (limit : Int) (ms : List Mention) :
    (∃ before deep after, StopsAt limit ms before deep after) ∨
      ∀ m ∈ ms.flatMap expand, (m.1 : Int) ≤ limit := by
  generalize sites : ms.flatMap expand = all
  have split :
      (∃ before deep after, all = before ++ deep :: after ∧ (∀ m ∈ before, (m.1 : Int) ≤ limit) ∧
      limit < deep.1) ∨ ∀ m ∈ all, (m.1 : Int) ≤ limit := by
    clear sites
    induction all with
    | nil => simp
    | cons m all ih =>
      by_cases fits : (m.1 : Int) ≤ limit
      · rcases ih with ⟨before, deep, after, rfl, rest, tooDeep⟩ | rest
        · exact .inl ⟨m :: before, deep, after, rfl, List.forall_mem_cons.2 ⟨fits, rest⟩, tooDeep⟩
        · exact .inr (List.forall_mem_cons.2 ⟨fits, rest⟩)
      · exact .inl ⟨[], m, all, rfl, by simp, Int.not_le.1 fits⟩
  rcases split with ⟨before, deep, after, same, fits, tooDeep⟩ | fits
  · exact .inl ⟨before, deep, after, sites.trans same, fits, tooDeep⟩
  · exact .inr fits

def Missed (w : World) (limit : Int) (ms : List Mention) (s : String) : Prop :=
  ∃ before deep after, StopsAt limit ms before deep after ∧
    ∃ m ∈ deep :: after, m.2.isUndeclared w = true ∧ m.2.type.name.last = s

theorem StopsAt.dropWhile_eq (stops : StopsAt limit ms before deep after) :
    ((ms.flatMap expand).dropWhile fun m => decide ((m.1 : Int) ≤ limit)) = deep :: after := by
  have dropped : before.dropWhile (fun m => decide ((m.1 : Int) ≤ limit)) = [] := by
    simpa [List.dropWhile_eq_nil_iff] using stops.fits
  simp [stops.sites, List.dropWhile_append, dropped, stops.tooDeep]

theorem missed_iff {w : World} {s : String} :
    Missed w limit ms s ↔
      ∃ m ∈ (ms.flatMap expand).dropWhile (fun m => decide ((m.1 : Int) ≤ limit)),
      m.2.isUndeclared w = true ∧ m.2.type.name.last = s := by
  constructor
  · rintro ⟨before, deep, after, stops, missed⟩
    rwa [stops.dropWhile_eq]
  · intro missed
    rcases stopsAt_or_fits limit ms with ⟨before, deep, after, stops⟩ | all
    · rw [stops.dropWhile_eq] at missed
      exact ⟨before, deep, after, stops, missed⟩
    · have none : (ms.flatMap expand).dropWhile (fun m => decide ((m.1 : Int) ≤ limit)) = [] := by
        simpa only [List.dropWhile_eq_nil_iff, decide_eq_true_eq] using all
      simp [none] at missed

instance (w : World) (limit : Int) (ms : List Mention) (s : String) :
    Decidable (Missed w limit ms s) :=
  decidable_of_iff' _ missed_iff

-- A larger limit adds registrations only from there on.
theorem filter_registrations {w : World} {whole : Int}
    (fits : ∀ m ∈ ms.flatMap expand, (m.1 : Int) ≤ whole) {s : String}
    (present : ¬ Missed w limit ms s) :
    (registrations w limit ms).filter (fun e => e.1.last == s) =
      (registrations w whole ms).filter fun e => e.1.last == s := by
  rw [registrations, registrations, fitting_of_fits fits]
  rcases stopsAt_or_fits limit ms with ⟨before, deep, after, stops⟩ | all
  · have rest : (((deep :: after).map (·.2)).filterMap (registration? w)).filter
        (fun e => e.1.last == s) = [] := by
      rw [List.filter_eq_nil_iff]
      intro e listed last
      obtain ⟨m, among, registered⟩ := List.mem_filterMap.1 listed
      obtain ⟨site, later, rfl⟩ := List.mem_map.1 among
      unfold registration? at registered
      split at registered
      next undeclared =>
        obtain rfl := Option.some.inj registered
        exact present ⟨before, deep, after, stops, site, later, undeclared, by simpa using last⟩
      next => cases registered
    rw [fitting_of_stopsAt stops, stops.sites, List.map_append, List.filterMap_append,
      List.filter_append, rest, List.append_nil]
  · rw [fitting_of_fits all]

end Mention

namespace World

open Mention

theorem reports_of_stopsAt {limit : Int} {ms : List Mention} {before after : List (Nat × Mention)}
    {deep : Nat × Mention} (stops : StopsAt limit ms before deep after) (path : Option Path) :
    reports limit path ms = [Diagnostic.ofFailure (Failure.tooDeep limit deep.2.type.text).kind
      (Failure.tooDeep limit deep.2.type.text).detail path none] := by
  simp [reports, stops.dropWhile_eq]

theorem reports_of_fits {limit : Int} {ms : List Mention}
    (fits : ∀ m ∈ ms.flatMap expand, (m.1 : Int) ≤ limit) (path : Option Path) :
    reports limit path ms = [] := by
  have dropped : (ms.flatMap expand).dropWhile (fun m => decide ((m.1 : Int) ≤ limit)) = [] := by
    simpa only [List.dropWhile_eq_nil_iff, decide_eq_true_eq] using fits
  rw [reports, dropped]
  rfl

theorem registerUnits_ofList (w : World) (limit : Int) (start : List (Name × Int))
    (units : List Nat) :
    (w.registerUnits limit (.ofList start) units).1 =
      .ofList (start ++ units.flatMap (w.unitRegistrations limit)) := by
  rw [registerUnits_eq, Registry.ofList, Registry.ofList, List.foldl_append]

/-- The order of units changes neither names nor arities nor reports, and a declaration that nests
too deep loses only what comes after. -/
theorem synthesis_in_any_order (w : World) (limit : Int) (start : List (Name × Int))
    (units : List Nat) :
    (∀ units', units'.Perm units →
      (∀ k, ((w.registerUnits limit (.ofList start) units').1.contains k ↔
            (w.registerUnits limit (.ofList start) units).1.contains k) ∧
          ((w.registerUnits limit (.ofList start) units').1.get? k).map (·.arity) =
            ((w.registerUnits limit (.ofList start) units).1.get? k).map (·.arity)) ∧
        (w.registerUnits limit (.ofList start) units').2.Perm
          (w.registerUnits limit (.ofList start) units).2) ∧
    (∀ path r ms,
      (∀ before deep after, StopsAt limit ms before deep after →
        w.registerMentions limit path r ms =
          ((before.map (·.2)).foldl (Mention.register w) r,
            [Diagnostic.ofFailure (Failure.tooDeep limit deep.2.type.text).kind
              (Failure.tooDeep limit deep.2.type.text).detail path none])) ∧
      ((∀ m ∈ ms.flatMap expand, (m.1 : Int) ≤ limit) →
        w.registerMentions limit path r ms =
          (((ms.flatMap expand).map (·.2)).foldl (Mention.register w) r, []))) ∧
    ∀ whole,
      (∀ unit ∈ units, ∀ ms ∈ w.mentionGroups unit, ∀ m ∈ ms.flatMap expand, (m.1 : Int) ≤ whole) →
      ∀ k, (∀ unit ∈ units, ∀ ms ∈ w.mentionGroups unit, ¬ Missed w limit ms k.last) →
        (w.registerUnits limit (.ofList start) units).1.get? k =
          (w.registerUnits whole (.ofList start) units).1.get? k := by
  refine ⟨fun units' perm => ⟨fun k => ?_, ?_⟩,
    fun path r ms => ⟨fun before deep after stops => ?_, fun fits => ?_⟩,
    fun whole fits k kept => ?_⟩
  · have moved : (start ++ units'.flatMap (w.unitRegistrations limit)).Perm
        (start ++ units.flatMap (w.unitRegistrations limit)) :=
      (perm.flatMap_right _).append_left start
    rw [registerUnits_ofList, registerUnits_ofList]
    simp only [Registry.contains_ofList_iff]
    exact ⟨Registry.mem_keys_perm moved k, Registry.arity_get?_perm moved k⟩
  · rw [registerUnits_eq, registerUnits_eq]
    exact perm.flatMap_right _
  · rw [registerMentions_eq, reports_of_stopsAt stops, Mention.registrations,
      fitting_of_stopsAt stops, foldl_register]
  · rw [registerMentions_eq, reports_of_fits fits, Mention.registrations, fitting_of_fits fits,
      foldl_register]
  · rw [registerUnits_ofList, registerUnits_ofList]
    apply Registry.get?_ofList_congr
    rw [List.filter_append, List.filter_append, List.filter_flatMap, List.filter_flatMap]
    congr 1
    apply List.flatMap_congr
    intro unit listed
    rw [unitRegistrations, unitRegistrations, List.filter_flatMap, List.filter_flatMap]
    apply List.flatMap_congr
    intro ms among
    exact filter_registrations (fits unit listed ms among) (kept unit listed ms among)

-- The files `class A { Box<Item> box; Lid lid; }` and `class B { q.Box box; }`, of which nothing
-- else is known.
def nestedFields : World where
  units :=
    let file (name : String) (types : List TypeRef) : SourceUnit :=
      .ofTypes [{ TypeDecl.ofClass name [] [] with
        fields := types.map fun type => { name := "field", type } }]
    [file "A" [.applied "Box" [.simple "Item"], .simple "Lid"], file "B" [.ofName ⟨"q", ["Box"]⟩]]

-- With no nesting allowed, `A` stops at `Item` and never comes to `Lid`.
theorem synthesis_in_any_order_nestedFields :
    (∀ k, ((nestedFields.registerUnits 0 {} [1, 0]).1.get? k).map (·.arity) =
        ((nestedFields.registerUnits 0 {} [0, 1]).1.get? k).map (·.arity)) ∧
      (nestedFields.registerUnits 0 {} [1, 0]).2.Perm (nestedFields.registerUnits 0 {} [0, 1]).2 ∧
      (∃ before deep after, StopsAt 0 (Mention.ofType nestedFields ⟨0, 0⟩) before deep after ∧
        ((nestedFields.registerMentions 0 none {} (Mention.ofType nestedFields ⟨0, 0⟩)).1 =
          (before.map (·.2)).foldl (Mention.register nestedFields) {})) ∧
      (nestedFields.registerUnits 0 {} [0, 1]).1.get? ⟨"q", ["Box"]⟩ =
        (nestedFields.registerUnits 1 {} [0, 1]).1.get? ⟨"q", ["Box"]⟩ := by
  obtain ⟨order, declarations, missing⟩ := synthesis_in_any_order nestedFields 0 [] [0, 1]
  have swapped := order [1, 0] (.swap 0 1 [])
  have stops : StopsAt 0 (Mention.ofType nestedFields ⟨0, 0⟩)
      [(0, ⟨_, _⟩)] (1, ⟨_, _⟩) [(0, ⟨_, nestedFields.typeContext ⟨0, 0⟩ {}⟩)] :=
    ⟨rfl, by decide, by decide⟩
  have fits : ∀ unit ∈ [0, 1], ∀ ms ∈ nestedFields.mentionGroups unit, ∀ m ∈ ms.flatMap expand,
      (m.1 : Int) ≤ 1 := by decide +kernel
  have kept : ∀ unit ∈ [0, 1], ∀ ms ∈ nestedFields.mentionGroups unit,
      ¬ Missed nestedFields 0 ms "Box" := by
    decide +kernel
  refine ⟨fun k => (swapped.1 k).2, swapped.2, ⟨_, _, _, stops, ?_⟩, missing 1 fits _ kept⟩
  rw [(declarations none {} _).1 _ _ _ stops]

end World

end RefGraph

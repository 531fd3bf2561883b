import RefGraph.Corpus
import RefGraph.Proofs.Makers
import RefGraph.Proofs.Outline
import RefGraph.Proofs.Registry

set_option autoImplicit false

namespace RefGraph

namespace Name

def Spelt (n : Name) : Prop := ∀ s ∈ n.segments, s ≠ ""

-- A name cut after its first segment ends as it did, whatever is put in place of that segment.
theorem last_append_rest {n m : Name} (same : m.last = n.first) :
    (m.append n.rest).last = n.last := by
  obtain ⟨first, rest⟩ := n
  cases rest with
  | nil => simpa [append, last] using same
  | cons s ss => simp [append, last, List.getLastD_eq_getLast?, List.getLast?_cons]

namespace Spelt

variable {n : Name}

theorem path_eq (spelt : n.Spelt) : n.path = n.rest := by
  have notDot : n.rest ≠ [""] := by
    intro dot
    exact spelt "" (by simp [segments, dot]) rfl
  rw [path, if_neg notDot]

theorem bare (spelt : n.Spelt) : n.bare.Spelt := by
  intro s listed
  obtain rfl : s = n.last := by simpa [segments, Name.bare, simple] using listed
  exact spelt _ (List.mem_of_getLast? n.getLast?_segments)

end Spelt

end Name

namespace Outline

theorem last_of_qualify {spot : Spot} {name : String} {n : Name}
    (qualified : spot.qualify name = some n) :
    n.last = name := by
  cases spot with
  | top package =>
    cases package with
    | none =>
      cases qualified
      rfl
    | some package =>
      cases qualified
      simp
  | body owner =>
    obtain ⟨outer, _, rfl⟩ := Option.map_eq_some_iff.1 qualified
    simp
  | code owner => cases qualified

-- An anonymous type has no qualified name to compare with its own.
theorem Declared.last_of_qualified {d : TypeDecl} (declared : Declared d) {n : Name}
    (qualified : d.qualified = some n) : n.last = d.name := by
  cases declared with
  | named spot kind t declares =>
    rw [qualified_declare] at qualified
    exact last_of_qualify qualified
  | anonymous owner base body => cases qualified

end Outline

/-- The sources that a world over some units can have: libraries, catalogs of the units, and
registries. -/
inductive Source.Over (units : List SourceUnit) : Source → Prop
  | library (l : Library) : Over units (.library l)
  | catalog (numbered : List (Nat × SourceUnit)) (loaded : ∀ e ∈ numbered, units[e.1]? = some e.2) :
      Over units (.catalog (Catalog.ofUnits numbered))
  | placeholders (rs : List (Name × Int)) : Over units (.placeholders (.ofList rs))

inductive Scope.Reached (w : World) : Scope TypeId → Prop
  | empty : Reached w {}
  | push {s : Scope TypeId} (before : Reached w s) : Reached w s.push
  | pop {s : Scope TypeId} (before : Reached w s) : Reached w s.pop
  | declare {s : Scope TypeId} (v : LocalVar) (before : Reached w s) : Reached w (s.declare v)
  | declareType {s : Scope TypeId} (t : TypeId) (before : Reached w s) :
    Reached w (s.declareType (w.decl t).name t)

namespace World

theorem over_ofGroups (library : Library) (units : List SourceUnit) (groups : List (List Nat)) :
    ∀ s ∈ (ofGroups library units groups).sources, s.Over units := by
  intro s listed
  rcases List.mem_cons.1 listed with rfl | catalog
  · exact .library library
  · obtain ⟨group, _, rfl⟩ := List.mem_map.1 catalog
    refine .catalog _ fun e numbered => ?_
    obtain ⟨i, _, held⟩ := List.mem_filterMap.1 numbered
    obtain ⟨u, loaded, rfl⟩ := Option.map_eq_some_iff.1 held
    exact loaded

theorem over_addSource {w : World} (sources : ∀ s ∈ w.sources, s.Over w.units) {added : Source}
    (fits : added.Over w.units) :
    ∀ s ∈ (w.addSource added).sources, s.Over (w.addSource added).units := by
  intro s listed
  have among : s ∈ w.sources ++ [added] := by
    rcases List.mem_append.1 listed with firm | fallback
    · exact (List.mem_filter.1 firm).1
    · exact (List.mem_filter.1 fallback).1
  rcases List.mem_append.1 among with before | new
  · exact sources s before
  · exact List.mem_singleton.1 new ▸ fits

end World

namespace Scope

def Sound (w : World) (s : Scope TypeId) : Prop :=
  ∀ frame ∈ s.frames, ∀ e ∈ frame.types, (w.decl e.2).name = e.1

variable {w : World} {s : Scope TypeId}

theorem Sound.update (sound : s.Sound w) {f : Frame TypeId → Frame TypeId}
    (keeps : ∀ frame, (∀ e ∈ frame.types, (w.decl e.2).name = e.1) →
      ∀ e ∈ (f frame).types, (w.decl e.2).name = e.1) : (s.update f).Sound w := by
  obtain ⟨frames⟩ := s
  cases frames with
  | nil =>
    intro frame listed
    obtain rfl := List.mem_singleton.1 listed
    exact keeps {} (by simp)
  | cons inner outer =>
    intro frame listed
    rcases List.mem_cons.1 listed with rfl | further
    · exact keeps inner (sound inner List.mem_cons_self)
    · exact sound frame (List.mem_cons_of_mem _ further)

theorem Reached.sound (reached : Reached w s) : s.Sound w := by
  induction reached with
  | empty => simp [Sound]
  | push before ih =>
    intro frame listed
    rcases List.mem_cons.1 listed with rfl | further
    · simp
    · exact ih frame further
  | pop before ih => exact fun frame listed => ih frame (List.mem_of_mem_tail listed)
  | declare v before ih => exact ih.update fun frame keyed => keyed
  | declareType t before ih =>
    refine ih.update fun frame keyed e listed => ?_
    rcases List.mem_cons.1 listed with rfl | further
    · rfl
    · exact keyed e further

theorem Sound.name_of_type? (sound : s.Sound w) {name : String} {t : TypeId}
    (found : s.type? name = some t) :
    (w.decl t).name = name := by
  obtain ⟨frame, isOpen, held⟩ := List.exists_of_findSome?_eq_some found
  obtain ⟨e, first, rfl⟩ := Option.map_eq_some_iff.1 held
  have named := List.find?_some first
  rw [sound frame isOpen e (List.mem_of_find?_eq_some first), beq_iff_eq.1 named]

end Scope

namespace World

def simpleNameOf (w : World) : Decl → String
  | .corpus id => (w.decl id).name
  | .library n => n.last
  | .placeholder p => p.name.last

variable {w : World}

theorem decl_eq {unit i : Nat} {u : SourceUnit} {d : TypeDecl} (loaded : w.units[unit]? = some u)
    (found : u.type? i = some d) : w.decl ⟨unit, i⟩ = d := by
  simp [decl, World.unit, loaded, found]

-- Types are searched for in a unit by a property that includes the name.
theorem name_of_findIdx? {unit i : Nat} {name : String} {p : TypeDecl → Bool}
    (called : ∀ d, p d = true → d.name = name) (found : (w.unit unit).types.findIdx? p = some i) :
    (w.decl ⟨unit, i⟩).name = name := by
  obtain ⟨inside, holds, _⟩ := List.findIdx?_eq_some_iff_getElem.1 found
  have listed : (w.unit unit).type? i = some ((w.unit unit).types[i]) :=
    List.getElem?_eq_getElem inside
  rw [decl, listed, Option.getD_some]
  exact called _ holds

theorem name_of_ownMember? {t m : TypeId} {name : String} (found : w.ownMember? t name = some m) :
    (w.decl m).name = name := by
  obtain ⟨i, held, rfl⟩ := Option.map_eq_some_iff.1 found
  exact name_of_findIdx? (by simp) held

theorem ownMember?_of_scanLevel {search : MemberSearch} {name : String} {m : TypeId}
    {level visited next : List TypeId} (found : w.scanLevel search name level visited next =
      .inl m) : ∃ t, w.ownMember? t name = some m := by
  induction level generalizing visited next with
  | nil => cases found
  | cons t ts ih =>
    rw [scanLevel] at found
    split at found
    · exact ih found
    · split at found
      next m' own =>
        cases found
        exact ⟨t, own⟩
      next => exact ih found

theorem ownMember?_of_inheritedMember? {search : MemberSearch} {name : String} {m : TypeId}
    {depth : Nat} {visited level : List TypeId}
    (found : w.inheritedMember? search name depth visited level = some m) :
    ∃ t, w.ownMember? t name = some m := by
  induction depth generalizing visited level with
  | zero => cases found
  | succ depth ih =>
    rw [inheritedMember?] at found
    split at found
    next m' scanned =>
      cases found
      exact ownMember?_of_scanLevel scanned
    next => cases found
    next => exact ih found

-- Searches inside the search decide only which types are asked.
theorem name_of_memberType? {t m : TypeId} {name : String} (found : w.memberType? t name = some m) :
    (w.decl m).name = name := by
  obtain ⟨asked, own⟩ : ∃ asked, w.ownMember? asked name = some m := by
    rw [memberType?, searchBound, memberSearch] at found
    split at found
    next m' own =>
      cases found
      exact ⟨t, own⟩
    next =>
      split at found
      · cases found
      · exact ownMember?_of_inheritedMember? found
  exact name_of_ownMember? own

theorem name_of_descend? {t m : TypeId} {path : List String}
    (found : descend? w.memberType? t path = some m) :
    (w.decl m).name = path.getLastD (w.decl t).name := by
  induction path generalizing t with
  | nil =>
    cases found
    rfl
  | cons s ss ih =>
    obtain ⟨u, member, below⟩ := Option.bind_eq_some_iff.1 found
    rw [ih below, name_of_memberType? member, List.getLastD_cons]

theorem name_of_localType? {ctx : Context} (scope : ctx.scope.Sound w) {name : String} {t : TypeId}
    (found : w.localType? ctx name = some t) : (w.decl t).name = name := by
  rcases Option.or_eq_some_iff.1 found with inScope | ⟨_, inCode⟩
  · exact scope.name_of_type? inScope
  · obtain ⟨i, held, rfl⟩ := Option.map_eq_some_iff.1 inCode
    refine name_of_findIdx? (fun d holds => ?_) held
    simp only [Bool.and_eq_true, beq_iff_eq] at holds
    exact holds.1.2

theorem name_of_unitType? {ctx : Context} {name : String} {t : TypeId}
    (found : w.unitType? ctx name = some t) :
    (w.decl t).name = name := by
  obtain ⟨i, held, rfl⟩ := Option.map_eq_some_iff.1 found
  exact name_of_findIdx? (by simp) held

theorem name_of_lexical? {ctx : Context} (scope : ctx.scope.Sound w) {name : String} {t : TypeId}
    (found : w.lexical? w.memberType? ctx name = some t) : (w.decl t).name = name := by
  rcases Option.or_eq_some_iff.1 found with around | ⟨_, beyond⟩
  · obtain ⟨e, _, held⟩ := List.exists_of_findSome?_eq_some around
    dsimp only at held
    split at held
    next itself =>
      cases held
      simp only [Bool.and_eq_true, beq_iff_eq] at itself
      exact itself.2
    next => exact name_of_memberType? held
  · rcases Option.or_eq_some_iff.1 beyond with inScope | ⟨_, atTop⟩
    · exact name_of_localType? scope inScope
    · exact name_of_unitType? atTop

-- Each candidate puts a name that ends in the first segment in its place.
theorem last_of_mem_candidateNames {ctx : Context} {n : Name} (spelt : n.Spelt) {c : Name}
    (candidate : c ∈ w.candidateNames ctx n) : c.last = n.last := by
  simp only [candidateNames, List.mem_eraseDups, List.mem_map] at candidate
  obtain ⟨b, based, rfl⟩ := candidate
  rw [spelt.path_eq]
  refine Name.last_append_rest ?_
  simp only [List.mem_append, List.mem_map, List.mem_filter, Bool.and_eq_true, beq_iff_eq,
    Option.mem_toList, Option.map_eq_some_iff, List.mem_cons, List.not_mem_nil, or_false] at based
  rcases based with ((⟨i, ⟨_, _, same⟩, rfl⟩ | ⟨p, _, rfl⟩) | ⟨i, _, rfl⟩) | rfl | rfl
  · exact same
  · exact Name.last_push p n.first
  · exact Name.last_push i.name n.first
  · rfl
  · rfl

-- What a catalog has under a name is a type of a unit with that qualified name.
theorem exists_of_catalog {numbered : List (Nat × SourceUnit)}
    (loaded : ∀ e ∈ numbered, w.units[e.1]? = some e.2) {n : Name} {e : Name × TypeId}
    (found : (Catalog.ofUnits numbered).find? n = some e) :
    ∃ u ∈ w.units, ∃ i, u.type? i = some (w.decl e.2) ∧ (w.decl e.2).qualified = some n := by
  have named : e.1 = n := NameTable.name_of_find? found
  rw [NameTable.find?_eq] at found
  obtain ⟨⟨unit, u⟩, listed, entry⟩ := List.mem_flatMap.1 (List.mem_of_find?_eq_some found)
  obtain ⟨i, _, held⟩ := List.mem_filterMap.1 entry
  obtain ⟨q, qualified, rfl⟩ := Option.map_eq_some_iff.1 held
  obtain ⟨d, type, qualified⟩ := Option.bind_eq_some_iff.1 qualified
  have here := loaded _ listed
  rw [decl_eq here type, ← named]
  exact ⟨u, List.mem_of_getElem? here, i, type, qualified⟩

theorem simpleNameOf_catalog (parsed : ∀ u ∈ w.units, u.Parsed) {numbered : List (Nat × SourceUnit)}
    (loaded : ∀ e ∈ numbered, w.units[e.1]? = some e.2) {n : Name} {e : Name × TypeId}
    (found : (Catalog.ofUnits numbered).find? n = some e) : (w.decl e.2).name = n.last := by
  obtain ⟨u, listed, i, type, qualified⟩ := exists_of_catalog loaded found
  exact (((parsed u listed).declared type).last_of_qualified qualified).symm

theorem simpleNameOf_find? (parsed : ∀ u ∈ w.units, u.Parsed) {s : Source} (fits : s.Over w.units)
    {n : Name} {d : Decl} (found : s.find? n = some d) : w.simpleNameOf d = n.last := by
  cases fits with
  | library l =>
    obtain ⟨t, held, rfl⟩ := Option.map_eq_some_iff.1 found
    exact congrArg Name.last (NameTable.name_of_find? held)
  | catalog numbered loaded =>
    obtain ⟨e, held, rfl⟩ := Option.map_eq_some_iff.1 found
    exact simpleNameOf_catalog parsed loaded held
  | placeholders rs =>
    obtain ⟨p, held, rfl⟩ := Option.map_eq_some_iff.1 found
    rw [Registry.solve?_ofList] at held
    exact Registry.last_of_best? held

section Resolution

variable (parsed : ∀ u ∈ w.units, u.Parsed) (sources : ∀ s ∈ w.sources, s.Over w.units)

include parsed sources

theorem simpleNameOf_findSome? {ss : List Source} (among : ∀ s ∈ ss, s ∈ w.sources) {n : Name}
    {d : Decl} (found : ss.findSome? (fun s => s.find? n) = some d) :
    w.simpleNameOf d = n.last := by
  obtain ⟨s, listed, held⟩ := List.exists_of_findSome?_eq_some found
  exact simpleNameOf_find? parsed (sources s (among s listed)) held

theorem simpleNameOf_fromSources? {names : List Name} {d : Decl} {s : String}
    (alike : ∀ n ∈ names, n.last = s) (found : w.fromSources? names = some d) :
    w.simpleNameOf d = s := by
  obtain ⟨n, listed, held⟩ := List.exists_of_findSome?_eq_some found
  rw [← alike n listed]
  exact simpleNameOf_findSome? parsed sources (fun s firm => (List.mem_filter.1 firm).1) held

variable {ctx? : Option Context} (scope : ∀ ctx ∈ ctx?, ctx.scope.Sound w) {n : Name}
    (spelt : n.Spelt) {d : Decl}

include scope spelt

theorem simpleNameOf_solveWritten? (found : w.solveWritten? w.memberType? ctx? n = some d) :
    w.simpleNameOf d = n.last := by
  rw [solveWritten?.eq_def] at found
  split at found
  next => exact simpleNameOf_fromSources? parsed sources (by simp) found
  next ctx =>
    split at found
    next t lexical =>
      obtain ⟨m, below, rfl⟩ := Option.map_eq_some_iff.1 found
      have first := name_of_lexical? (scope ctx rfl) lexical
      have last := name_of_descend? below
      rwa [spelt.path_eq, first] at last
    next =>
      exact simpleNameOf_fromSources? parsed sources (fun c candidate =>
        last_of_mem_candidateNames spelt candidate)
        found

theorem simpleNameOf_resolveFirm? (found : w.resolveFirm? ctx? n = some d) :
    w.simpleNameOf d = n.last := by
  rw [resolveFirm?, resolveFirmWith?] at found
  split at found
  · cases found
  · rcases Option.or_eq_some_iff.1 found with written | ⟨_, retried⟩
    · exact simpleNameOf_solveWritten? parsed sources scope spelt written
    · split at retried
      · exact simpleNameOf_solveWritten? parsed sources scope spelt.bare retried
      · cases retried

omit scope spelt in
theorem simpleNameOf_resolveFallback? (found : w.resolveFallback? n = some d) :
    w.simpleNameOf d = n.last := by
  have asked {m : Name} (held : w.fallback.findSome? (fun s => s.find? m) = some d) :
      w.simpleNameOf d = m.last :=
    simpleNameOf_findSome? parsed sources (fun s fallback => (List.mem_filter.1 fallback).1) held
  rcases Option.or_eq_some_iff.1 found with whole | ⟨_, retried⟩
  · exact asked whole
  · split at retried
    · exact asked (m := n.bare) retried
    · cases retried

end Resolution

/-- A name denotes only declarations that are called by its last segment. -/
theorem resolution_keeps_simple_name (w : World) (parsed : ∀ u ∈ w.units, u.Parsed)
    (sources : ∀ s ∈ w.sources, s.Over w.units) (ctx? : Option Context)
    (scope : ∀ ctx ∈ ctx?, Scope.Reached w ctx.scope) (n : Name) (spelt : n.Spelt) (d : Decl)
    (found : w.resolve? ctx? n = some d) : w.simpleNameOf d = n.last := by
  rcases Option.or_eq_some_iff.1 found with firm | ⟨_, fallback⟩
  · exact simpleNameOf_resolveFirm? parsed sources (fun ctx given =>
      (scope ctx given).sound) spelt firm
  · exact simpleNameOf_resolveFallback? parsed sources fallback

-- The file `class A extends S {} class S { class B {} }`, beside a placeholder.
def inheritedMember : World :=
  let above : Tree := { kind := "superclass", role := some "superclass", children := [
    { kind := "type_identifier", text := "S" }] }
  let tree := Node.file [
    Node.classDecl 1 "A" [above] [], Node.classDecl 2 "S" [] [Node.classDecl 3 "B" [] []]]
  (ofGroups default [SourceUnit.ofTree none tree] [[0]]).addSource
    (.placeholders (.ofList [(⟨"c", ["Map"]⟩, 2)]))

-- The member type is found in the supertype, and the placeholder by the last segment of its name.
theorem resolution_keeps_simple_name_inheritedMember :
    (∃ d, inheritedMember.resolve? (some { unit := 0 }) ⟨"A", ["B"]⟩ = some d ∧
      inheritedMember.simpleNameOf d = "B") ∧
      ∃ d, inheritedMember.resolve? (some { unit := 0 }) ⟨"x", ["y", "Map"]⟩ = some d ∧
        inheritedMember.simpleNameOf d = "Map" := by
  have parsed : ∀ u ∈ inheritedMember.units, u.Parsed := by
    intro u listed
    obtain rfl := List.mem_singleton.1 listed
    exact ⟨none, _, rfl⟩
  have sources : ∀ s ∈ inheritedMember.sources, s.Over inheritedMember.units :=
    over_addSource (over_ofGroups _ _ _) (.placeholders _)
  have scope : ∀ ctx ∈ some ({ unit := 0 } : Context), Scope.Reached inheritedMember ctx.scope := by
    intro ctx given
    cases given
    exact .empty
  have member : inheritedMember.resolve? (some { unit := 0 }) ⟨"A", ["B"]⟩ =
      some (.corpus ⟨0, 2⟩) := by decide +kernel
  have placeholder : inheritedMember.resolve? (some { unit := 0 }) ⟨"x", ["y", "Map"]⟩ =
      some (.placeholder ⟨⟨"c", ["Map"]⟩, 2⟩) := by decide +kernel
  exact ⟨⟨_, member, resolution_keeps_simple_name _ parsed sources _ scope _
    (by simp [Name.Spelt, Name.segments]) _ member⟩, _, placeholder,
    resolution_keeps_simple_name _ parsed sources _ scope _ (by simp [Name.Spelt, Name.segments]) _
      placeholder⟩

end World

end RefGraph

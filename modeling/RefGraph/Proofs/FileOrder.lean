import Mathlib.Data.List.FinRange
import RefGraph.Proofs.Makers
import RefGraph.Proofs.Renaming.Dependency
import RefGraph.Proofs.Renaming.Mentions
import RefGraph.Run

set_option autoImplicit false

namespace RefGraph

-- What is found among all things of a kind does not depend on their order if at most one fits.
theorem find?_image {α β : Type} {f : α → β} {xs : List α} {ys : List β} {p : α → Bool}
    {q : β → Bool} (image : ∀ y, y ∈ ys ↔ ∃ x ∈ xs, f x = y) (agrees : ∀ x, q (f x) = p x)
    (unique : ∀ x ∈ xs, ∀ x' ∈ xs, p x = true → p x' = true → x = x') :
    ys.find? q = (xs.find? p).map f := by
  cases found : xs.find? p with
  | none =>
    rw [List.find?_eq_none] at found
    refine List.find?_eq_none.2 fun y listed fits => ?_
    obtain ⟨x, among, rfl⟩ := (image y).1 listed
    exact found x among (agrees x ▸ fits)
  | some x =>
    have among := List.mem_of_find?_eq_some found
    have fits := List.find?_some found
    have listed : f x ∈ ys := (image _).2 ⟨x, among, rfl⟩
    have isSome : (ys.find? q).isSome := List.find?_isSome.2 ⟨f x, listed, by rw [agrees, fits]⟩
    obtain ⟨y, isFound⟩ := Option.isSome_iff_exists.1 isSome
    obtain ⟨x', among', rfl⟩ := (image y).1 (List.mem_of_find?_eq_some isFound)
    have fits' := List.find?_some isFound
    rw [agrees] at fits'
    rw [isFound, unique x among x' among' fits fits', Option.map_some]

def declared (units : List SourceUnit) : List (Name × TypeId) :=
  units.zipIdx.flatMap fun (u, i) => Catalog.entriesOf i u

def DistinctNames (units : List SourceUnit) : Prop :=
  ∀ e ∈ declared units, ∀ e' ∈ declared units, e.1 = e'.1 → e = e'

instance (units : List SourceUnit) : Decidable (DistinctNames units) :=
  inferInstanceAs (Decidable (∀ e ∈ declared units, ∀ e' ∈ declared units, e.1 = e'.1 → e = e'))

theorem mem_declared {units : List SourceUnit} {n : Name} {id : TypeId} :
    (n, id) ∈ declared units ↔ ∃ u, units[id.unit]? = some u ∧ id.index ∈ u.allTypes ∧
      (u.type? id.index).bind (·.qualified) = some n := by
  simp only [declared, Catalog.entriesOf, List.mem_flatMap, List.mem_filterMap,
    Option.map_eq_some_iff, Prod.exists, List.mem_zipIdx_iff_getElem?]
  constructor
  · rintro ⟨u, i, here, j, listed, m, named, same⟩
    obtain ⟨rfl, rfl⟩ := Prod.mk.inj same
    exact ⟨u, here, listed, named⟩
  · rintro ⟨u, here, listed, named⟩
    exact ⟨u, id.unit, here, id.index, listed, n, named, rfl⟩

namespace World

def ofUnits (library : Library) (units : List SourceUnit) : World :=
  ofGroups library units [List.range units.length]

variable (library : Library) (units : List SourceUnit)

theorem firm_ofUnits :
    (ofUnits library units).firm =
      [.library library, .catalog (NameTable.ofList (declared units))] := by
  have numbered : (List.range units.length).filterMap (fun i => units[i]?.map (i, ·)) =
      units.zipIdx.map fun (u, i) => (i, u) := by
    have all :
        ∀ i ∈ List.range units.length, units[i]?.map (i, ·) = some (i, units[i]?.getD default) := by
      intro i below
      simp [List.mem_range.1 below]
    rw [List.filterMap_congr all, List.filterMap_eq_map']
    refine List.ext_getElem (by simp) fun i below _ => ?_
    simp at below
    simp [below]
  have entries :
      Catalog.ofUnits ((List.range units.length).filterMap fun i => units[i]?.map (i, ·)) =
      NameTable.ofList (declared units) := by
    rw [Catalog.ofUnits, numbered, List.flatMap_map]
    rfl
  simp only [firm, ofUnits, ofGroups, List.map_cons, List.map_nil, entries]
  rfl

-- What each unit registers.
def registered (w : World) (limit : Int) : List (List (Name × Int)) :=
  (List.range w.units.length).map (w.unitRegistrations limit)

theorem flatten_registered (w : World) (limit : Int) :
    (w.registered limit).flatten = w.registrations limit := by
  rw [registered, registrations, List.flatMap_def]

theorem fallback_ofUnits : (ofUnits library units).fallback = [] := rfl

theorem libraryType_ofUnits (n : Name) :
    (ofUnits library units).libraryType n = (library.find? n).getD { name := n } := by
  cases found : library.find? n <;> simp [libraryType, ofUnits, ofGroups, found]

end World

/-- The units in another order: at position `i` stands the unit that stood at `σ i`. -/
def reorder (units : List SourceUnit) (σ : Equiv.Perm (Fin units.length)) : List SourceUnit :=
  List.ofFn fun i => units.get (σ i)

-- The position of a unit in the other order.
def position {n : Nat} (σ : Equiv.Perm (Fin n)) : Equiv.Perm Nat :=
  Equiv.Perm.extendDomain σ.symm Fin.equivSubtype

theorem position_apply {n : Nat} (σ : Equiv.Perm (Fin n)) (i : Fin n) : position σ (σ i) = i := by
  have moved := Equiv.Perm.extendDomain_apply_image σ.symm Fin.equivSubtype (σ i)
  rwa [Equiv.symm_apply_apply] at moved

section Reorder

variable (library : Library) {units : List SourceUnit} (σ : Equiv.Perm (Fin units.length))

theorem length_reorder : (reorder units σ).length = units.length := List.length_ofFn

theorem reorder_perm : (reorder units σ).Perm units := by
  have moved := σ.ofFn_comp_perm units.get
  rwa [List.ofFn_get] at moved

theorem getElem?_reorder (i : Nat) : (reorder units σ)[position σ i]? = units[i]? := by
  by_cases below : i < units.length
  · obtain ⟨j, moved⟩ := σ.surjective ⟨i, below⟩
    obtain rfl : i = σ j := by rw [moved]
    rw [position_apply, reorder, List.getElem?_ofFn]
    simp
  · have stays : position σ i = i := Equiv.Perm.extendDomain_apply_not_subtype _ _ below
    rw [stays, List.getElem?_eq_none (Nat.le_of_not_lt below), List.getElem?_eq_none]
    rw [length_reorder σ]
    exact Nat.le_of_not_lt below

theorem mem_declared_reorder (e : Name × TypeId) :
    e ∈ declared (reorder units σ) ↔ ∃ d ∈ declared units, (d.1, d.2.rename (position σ)) = e := by
  constructor
  · obtain ⟨n, unit, index⟩ := e
    intro listed
    obtain ⟨i, rfl⟩ := (position σ).surjective unit
    refine ⟨(n, ⟨i, index⟩), ?_, rfl⟩
    rw [mem_declared] at listed ⊢
    rwa [getElem?_reorder] at listed
  · rintro ⟨⟨n, id⟩, listed, rfl⟩
    rw [mem_declared] at listed ⊢
    rwa [TypeId.unit_rename, getElem?_reorder]

theorem searchBound_reorder :
    (World.ofUnits library (reorder units σ)).searchBound =
      (World.ofUnits library units).searchBound := by
  have moved := reorder_perm σ
  have types := (moved.flatMap_right fun u => u.types).length_eq
  have segments := (moved.flatMap_right fun u =>
    u.types.flatMap fun d => d.supertypes.flatMap fun r => r.name.segments).length_eq
  simp only [World.searchBound, World.supertypeSegments, World.ofUnits, World.ofGroups,
    types, segments]

theorem renamedFirm_reorder (distinct : DistinctNames units) :
    World.RenamedFirm (position σ) (World.ofUnits library units)
      (World.ofUnits library (reorder units σ)) where
  injective := (position σ).injective
  unit i := by simp only [World.unit, World.ofUnits, World.ofGroups, getElem?_reorder]
  firm n := by
    have found : (declared (reorder units σ)).find? (fun e => e.1 == n) =
        ((declared units).find? fun e => e.1 == n).map fun e => (e.1, e.2.rename (position σ)) := by
      refine find?_image (mem_declared_reorder σ) (fun _ => rfl) fun e listed e' listed' named
        named' => ?_
      exact distinct e listed e' listed' ((eq_of_beq named).trans (eq_of_beq named').symm)
    have entries (us : List SourceUnit) : (NameTable.ofList (declared us) : Catalog).find? n =
        (declared us).find? fun e => e.1 == n := NameTable.find?_eq _ n
    rw [World.firm_ofUnits, World.firm_ofUnits]
    simp only [List.findSome?_cons, List.findSome?_nil, Source.find?, entries, found]
    cases library.find? n with
    | some t => rfl
    | none => cases (declared units).find? fun e => e.1 == n <;> rfl
  searchBound := searchBound_reorder library σ

theorem registered_ofUnits (limit : Int) :
    (World.ofUnits library units).registered limit =
      List.ofFn fun i : Fin units.length =>
        (World.ofUnits library units).unitRegistrations limit i := by
  refine List.ext_getElem (by simp [World.registered, World.ofUnits, World.ofGroups])
    fun i _ _ => ?_
  simp [World.registered]

theorem registered_reorder (distinct : DistinctNames units) (limit : Int) :
    (World.ofUnits library (reorder units σ)).registered limit =
      List.ofFn fun i => (World.ofUnits library units).unitRegistrations limit (σ i) := by
  refine List.ext_getElem ?_ fun i _ below => ?_
  · simp [World.registered, World.ofUnits, World.ofGroups, length_reorder]
  · rw [List.length_ofFn] at below
    have same := (renamedFirm_reorder library σ distinct).unitRegistrations limit (σ ⟨i, below⟩)
    rw [position_apply] at same
    simpa [World.registered] using same

theorem registered_perm (distinct : DistinctNames units) (limit : Int) :
    ((World.ofUnits library (reorder units σ)).registered limit).Perm
      ((World.ofUnits library units).registered limit) := by
  rw [registered_reorder library σ distinct, registered_ofUnits]
  exact σ.ofFn_comp_perm fun i => (World.ofUnits library units).unitRegistrations limit i

variable {library} {limit : Int}

theorem best?_reorder (distinct : DistinctNames units)
    (uniform : Registry.Uniform ((World.ofUnits library units).registered limit)) (s : String) :
    Registry.best? ((World.ofUnits library (reorder units σ)).registrations limit) s =
      Registry.best? ((World.ofUnits library units).registrations limit) s := by
  rw [← World.flatten_registered, ← World.flatten_registered]
  exact uniform.best?_perm (registered_perm library σ distinct limit) s

theorem renamed_reorder (distinct : DistinctNames units)
    (uniform : Registry.Uniform ((World.ofUnits library units).registered limit)) :
    World.Renamed (position σ) ((World.ofUnits library units).withPlaceholders limit)
      ((World.ofUnits library (reorder units σ)).withPlaceholders limit) := by
  refine (renamedFirm_reorder library σ distinct).withPlaceholders (World.fallback_ofUnits _ _)
    (World.fallback_ofUnits _ _) (fun n => ?_) (best?_reorder σ distinct uniform)
  rw [World.libraryType_ofUnits, World.libraryType_ofUnits]

-- Where the unit of a widest registration comes first, the placeholder is called as in this unit.
theorem best?_of_first (distinct : DistinctNames units) {s : String} {p : Placeholder}
    (widest : Registry.Widest ((World.ofUnits library units).registered limit) s p) :
    ∃ σ, Registry.best? ((World.ofUnits library (reorder units σ)).registrations limit) s =
      some p := by
  obtain ⟨⟨g, listed, held⟩, widest⟩ := widest
  rw [registered_ofUnits, List.mem_ofFn] at listed
  obtain ⟨i, rfl⟩ := listed
  have nonempty : 0 < units.length := Nat.zero_lt_of_lt i.isLt
  let σ := Equiv.swap ⟨0, nonempty⟩ i
  have first : ((World.ofUnits library (reorder units σ)).registered limit).head? =
      some ((World.ofUnits library units).unitRegistrations limit i) := by
    rw [registered_reorder library σ distinct, List.head?_eq_getElem?, List.getElem?_ofFn]
    simp [σ, nonempty]
  obtain ⟨rest, shape⟩ := List.head?_eq_some_iff.1 first
  refine ⟨σ, ?_⟩
  rw [← World.flatten_registered, shape]
  refine Registry.best?_flatten_cons held fun h among => widest h ?_
  rw [← (registered_perm library σ distinct limit).mem_iff, shape]
  exact List.mem_cons_of_mem _ among

end Reorder

namespace Corpus

def ofUnits (library : Library) (root : Path) (units : List SourceUnit) : Corpus where
  world := (World.ofUnits library units).withPlaceholders placeholderLimit
  roots := [root]

end Corpus

theorem Run.corpusOf_singleton (root : Path) (loaded : Run.Loaded) :
    (Run.corpusOf [root] [loaded]).1 = Corpus.ofUnits Library.standard root loaded.units := by
  simp [Run.corpusOf, Corpus.ofUnits, World.ofUnits, World.withPlaceholders, Run.indexGroups,
    List.range_eq_range']

namespace Corpus

variable {library : Library} {root : Path} {units : List SourceUnit}

theorem resolveFallback?_ofUnits (n : Name) :
    (ofUnits library root units).world.resolveFallback? n =
      (Registry.best? ((World.ofUnits library units).registrations placeholderLimit) n.last).map
        .placeholder := by
  have answer (m : Name) :
      ((ofUnits library root units).world.fallback.findSome? fun s => s.find? m) =
      (Registry.best? ((World.ofUnits library units).registrations placeholderLimit) m.last).map
        .placeholder := by
    rw [ofUnits, World.fallback_withPlaceholders, World.fallback_ofUnits]
    simp only [List.nil_append, List.findSome?_singleton, Source.find?, Registry.solve?_ofList]
  rw [World.resolveFallback?, answer, answer, Name.last_bare]
  split <;> simp

/-- The placeholders are the same in every order exactly if the units agree on them, and then so are
all references. -/
theorem dependencies_reorder (library : Library) (root : Path) (units : List SourceUnit)
    (distinct : DistinctNames units) :
    (Registry.Uniform ((World.ofUnits library units).registered placeholderLimit) ↔
        ∀ σ n, (ofUnits library root (reorder units σ)).world.resolveFallback? n =
          (ofUnits library root units).world.resolveFallback? n) ∧
      (Registry.Uniform ((World.ofUnits library units).registered placeholderLimit) →
        ∀ σ (i : Fin units.length), (ofUnits library root (reorder units σ)).dependencies i =
          (ofUnits library root units).dependencies (σ i)) := by
  refine ⟨⟨fun uniform σ n => ?_, fun alike s p q widest widest' => ?_⟩, fun uniform σ i => ?_⟩
  · rw [resolveFallback?_ofUnits, resolveFallback?_ofUnits, best?_reorder σ distinct uniform]
  · have called {p : Placeholder}
        (widest : Registry.Widest ((World.ofUnits library units).registered placeholderLimit) s p) :
        Registry.best? ((World.ofUnits library units).registrations placeholderLimit) s =
          some p := by
      obtain ⟨σ, first⟩ := best?_of_first distinct widest
      have same := alike σ (Name.simple s)
      rw [resolveFallback?_ofUnits, resolveFallback?_ofUnits, Name.last_simple, first] at same
      obtain ⟨r, held, isSame⟩ := Option.map_eq_some_iff.1 same.symm
      rw [held, Decl.placeholder.inj isSame]
    exact Option.some.inj ((called widest).symm.trans (called widest'))
  · have renamed : Renamed (position σ) (ofUnits library root units)
        (ofUnits library root (reorder units σ)) :=
      ⟨renamed_reorder σ distinct uniform, rfl, rfl⟩
    have same := renamed.dependencies (σ i)
    rwa [position_apply] at same

-- The files `class A { Box<B> box; <T> T get(Box<T> x) {} m() { get(box).foo(); } }`, with the
-- first `Box` as written, and `class B { Box<B> other; foo() {} }`. Nothing declares `Box`.
def boxes (written : Tree) : List SourceUnit :=
  let generic (base : Tree) (arg : String) : Tree :=
    { kind := "generic_type", role := some "type"
      children := [base, { kind := "type_arguments", children := [Node.type arg] }] }
  let file (text : String) (members : List Tree) : SourceUnit :=
    SourceUnit.ofTree (some ⟨.root, [text ++ ".java"]⟩)
      (Node.file [Node.classDecl 0 text [] members])
  let get := Node.call 0 [] "get" [{ kind := "identifier", text := "box" }]
  [file "A" [
    Node.field 0 (generic written "B") "box" [],
    Node.method 1 [Node.typeParams [("T", [])], Node.type "T"] "get"
      [Node.param (generic (Node.type "Box") "T") "x"] [],
    Node.method 2 [] "m" [] [Node.call 0 [{ get with role := some "object" }] "foo" []]],
   file "B" [
    Node.field 0 (generic (Node.type "Box") "B") "other" [],
    Node.method 1 [] "foo" [] []]]

def simpleBox : Tree := { kind := "type_identifier", text := "Box" }

theorem dependencies_reorder_simpleBox :
    DistinctNames (boxes simpleBox) ∧
      Registry.Uniform
        ((World.ofUnits (NameTable.ofList []) (boxes simpleBox)).registered placeholderLimit) ∧
      ((ofUnits (NameTable.ofList []) ⟨.root, []⟩ (boxes simpleBox)).dependencies 0).1.length = 3 ∧
      ∀ σ (i : Fin (boxes simpleBox).length),
        (ofUnits (NameTable.ofList []) ⟨.root, []⟩ (reorder (boxes simpleBox) σ)).dependencies i =
          (ofUnits (NameTable.ofList []) ⟨.root, []⟩ (boxes simpleBox)).dependencies (σ i) := by
  have distinct : DistinctNames (boxes simpleBox) := by decide +kernel
  have alike :
      ∀ g ∈ (World.ofUnits (NameTable.ofList []) (boxes simpleBox)).registered placeholderLimit,
      ∀ e ∈ g, e = (Name.simple "Box", 1) := by
    decide +kernel
  have uniform :
      Registry.Uniform
        ((World.ofUnits (NameTable.ofList []) (boxes simpleBox)).registered placeholderLimit) := by
    intro s p q ⟨⟨g, listed, held⟩, _⟩ ⟨⟨h, listed', held'⟩, _⟩
    have same := (alike g listed _ (Registry.mem_of_best? held)).trans
      (alike h listed' _ (Registry.mem_of_best? held')).symm
    cases p
    cases q
    simpa using same
  exact ⟨distinct, uniform, by decide +kernel, (dependencies_reorder _ _ _ distinct).2 uniform⟩

def dottedBox : Tree := { kind := "scoped_type_identifier", children := [
  { kind := "type_identifier", text := "q" }, { kind := "type_identifier", text := "Box" }] }

-- A placeholder that is called `q.Box` is no `Box` for the call of `get`, and then the call of
-- `foo` is lost.
theorem dependencies_reorder_dottedBox :
    DistinctNames (boxes dottedBox) ∧
      ∃ σ, ∃ i : Fin (boxes dottedBox).length,
        ((ofUnits (NameTable.ofList []) ⟨.root, []⟩ (reorder (boxes dottedBox) σ)).dependencies
          i).1 ≠
          ((ofUnits (NameTable.ofList []) ⟨.root, []⟩ (boxes dottedBox)).dependencies (σ i)).1 := by
  refine ⟨by decide +kernel, Equiv.swap ⟨0, by decide⟩ ⟨1, by decide⟩, ⟨1, by decide⟩,
    fun same => ?_⟩
  have lengths := congrArg List.length same
  revert lengths
  decide +kernel

end Corpus

end RefGraph

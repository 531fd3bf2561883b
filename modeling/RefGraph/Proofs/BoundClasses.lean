import Mathlib.Logic.Relation
import RefGraph.Conversion
import RefGraph.Proofs.Renaming.Basic

set_option autoImplicit false

namespace RefGraph

namespace RType

def bounds : RType → List RType
  | .bounded _ b => [b]
  | .var _ bs => bs
  | _ => []

/-- The types that bound a type through variables and wildcards, in however many steps; in none it
is the type itself. -/
def Reaches : RType → RType → Prop := Relation.ReflTransGen fun t b => b ∈ t.bounds

mutual
def reading : RType → List RType
  | .bounded v b => .bounded v b :: reading b
  | .var n bs => .var n bs :: readingAll bs
  | .ref d args => [.ref d args]
  | .prim p => [.prim p]
  | .array c => [.array c]
  | .unbounded => [.unbounded]
  | .null => [.null]

def readingAll : List RType → List RType
  | [] => []
  | b :: bs => reading b ++ readingAll bs
end

/-- Primitives and null have no members, and so have wildcards that are bounded by such a type. -/
def isMemberless : RType → Bool
  | .prim _ | .null => true
  | .bounded _ b => isMemberless b
  | _ => false

/-- The class that a type offers besides its bounds. A variable offers the top if its bounds offer
nothing. -/
def offer? (top : ClassType) : RType → Option ClassType
  | .ref d args => some ⟨d, args⟩
  | .unbounded | .array _ => some top
  | .var _ bs => if bs.all isMemberless then some top else none
  | .bounded _ _ | .prim _ | .null => none

def offers (top : ClassType) (t : RType) : List ClassType := t.reading.filterMap (offer? top)

theorem readingAll_eq (bs : List RType) : readingAll bs = bs.flatMap reading := by
  induction bs with
  | nil => rw [readingAll, List.flatMap_nil]
  | cons b bs ih => rw [readingAll, ih, List.flatMap_cons]

theorem reading_eq (t : RType) : t.reading = t :: t.bounds.flatMap reading := by
  cases t <;> simp [reading, bounds, readingAll_eq]

theorem mem_reading {t b : RType} : b ∈ t.reading ↔ t.Reaches b := by
  constructor
  · induction t using RType.induction with
    | bounded v c ih =>
      intro listed
      rcases List.mem_cons.1 (reading_eq _ ▸ listed) with rfl | below
      · exact .refl
      · exact .head (List.mem_singleton_self c) (ih (by simpa [bounds] using below))
    | var n bs ih =>
      intro listed
      rcases List.mem_cons.1 (reading_eq _ ▸ listed) with rfl | below
      · exact .refl
      · obtain ⟨c, isBound, inside⟩ := List.mem_flatMap.1 below
        exact .head isBound (ih c isBound inside)
    | _ =>
      intro listed
      obtain rfl := List.mem_singleton.1 (by simpa [reading] using listed)
      exact .refl
  · intro reaches
    induction reaches using Relation.ReflTransGen.head_induction_on with
    | refl =>
      rw [reading_eq]
      exact List.mem_cons_self
    | head isBound _ ih =>
      rw [reading_eq]
      exact List.mem_cons_of_mem _ (List.mem_flatMap.2 ⟨_, isBound, ih⟩)

theorem offers_eq (top : ClassType) (t : RType) :
    t.offers top = (offer? top t).toList ++ t.bounds.flatMap (offers top) := by
  rw [offers, reading_eq, List.filterMap_cons, List.filterMap_flatMap]
  cases offer? top t <;> rfl

theorem offers_eq_nil (top : ClassType) (t : RType) :
    t.offers top = [] ↔ t.isMemberless = true := by
  induction t using RType.induction with
  | bounded v b ih => simpa [offers_eq top (.bounded v b), offer?, bounds, isMemberless] using ih
  | var n bs ih =>
    -- If a bound offers something, so does the variable; if none does, it offers the top.
    have bare : bs.flatMap (offers top) = [] ↔ bs.all isMemberless = true := by
      simpa using forall₂_congr ih
    rw [offers_eq, List.append_eq_nil_iff, offer?, bounds, bare]
    cases bs.all isMemberless <;> simp [isMemberless]
  | _ => simp [offers_eq, offer?, bounds, isMemberless]

theorem offers_var (top : ClassType) (n : String) (bs : List RType) :
    offers top (.var n bs) = if bs.flatMap (offers top) = [] then [top]
      else bs.flatMap (offers top) := by
  have bare : bs.flatMap (offers top) = [] ↔ bs.all isMemberless = true := by
    simp [offers_eq_nil]
  rw [offers_eq, offer?, bounds]
  by_cases nothing : bs.flatMap (offers top) = []
  · rw [if_pos (bare.1 nothing), if_pos nothing, nothing]
    rfl
  · rw [if_neg (mt bare.2 nothing), if_neg nothing]
    rfl

def collect (found cs : List ClassType) : List ClassType :=
  cs.foldl (fun fs c => if fs.contains c then fs else fs ++ [c]) found

@[simp] theorem collect_nil (found : List ClassType) : collect found [] = found := rfl

theorem collect_cons_of_mem {found : List ClassType} {c : ClassType} (before : c ∈ found)
    (cs : List ClassType) :
    collect found (c :: cs) = collect found cs := by
  rw [collect, List.foldl_cons, if_pos (List.contains_iff_mem.2 before), collect]

theorem collect_cons_of_not_mem {found : List ClassType} {c : ClassType} (new : c ∉ found)
    (cs : List ClassType) :
    collect found (c :: cs) = collect (found ++ [c]) cs := by
  rw [collect, List.foldl_cons, if_neg (mt List.contains_iff_mem.1 new), collect]

theorem collect_append (found cs ds : List ClassType) :
    collect found (cs ++ ds) = collect (collect found cs) ds :=
  List.foldl_append

theorem mem_collect {found cs : List ClassType} {c : ClassType} :
    c ∈ collect found cs ↔ c ∈ found ∨ c ∈ cs := by
  induction cs generalizing found with
  | nil => simp
  | cons d cs ih =>
    by_cases before : d ∈ found
    · rw [collect_cons_of_mem before, ih]
      grind
    · rw [collect_cons_of_not_mem before, ih]
      grind

theorem nodup_collect {found : List ClassType} (nodup : found.Nodup) (cs : List ClassType) :
    (collect found cs).Nodup := by
  induction cs generalizing found with
  | nil => exact nodup
  | cons c cs ih =>
    by_cases before : c ∈ found
    · rw [collect_cons_of_mem before]
      exact ih nodup
    · rw [collect_cons_of_not_mem before]
      refine ih (List.nodup_append.2 ⟨nodup, by simp, ?_⟩)
      rintro d listed _ here rfl
      exact before (List.mem_singleton.1 here ▸ listed)

theorem collect_collect (found acc cs : List ClassType) :
    collect found (collect acc cs) = collect (collect found acc) cs := by
  induction cs generalizing acc with
  | nil => rfl
  | cons c cs ih =>
    by_cases before : c ∈ acc
    · rw [collect_cons_of_mem before, ih, collect_cons_of_mem (mem_collect.2 (.inr before))]
    · rw [collect_cons_of_not_mem before, ih, collect_append, ← collect_append,
        List.singleton_append]

theorem collect_eraseDups (es cs : List ClassType) :
    collect es.eraseDups cs = (es ++ cs).eraseDups := by
  induction cs generalizing es with
  | nil => simp
  | cons c cs ih =>
    rw [List.append_cons, ← ih (es ++ [c]), List.eraseDups_append]
    by_cases before : c ∈ es
    · rw [collect_cons_of_mem (List.mem_eraseDups.2 before)]
      simp [List.removeAll, before]
    · rw [collect_cons_of_not_mem (mt List.mem_eraseDups.1 before)]
      simp [List.removeAll, before, List.eraseDups_cons]

theorem classesAll_eq {top : ClassType} {bs : List RType}
    (each : ∀ b ∈ bs, b.classes top = collect [] (b.offers top)) (found : List ClassType) :
    classesAll top found bs = collect found (bs.flatMap (offers top)) := by
  induction bs generalizing found with
  | nil => rw [classesAll, List.flatMap_nil, collect_nil]
  | cons b bs ih =>
    have here : collect found (b.classes top) = collect found (b.offers top) := by
      rw [each b List.mem_cons_self, collect_collect, collect_nil]
    have later : ∀ c ∈ bs, _ := fun c listed => each c (List.mem_cons_of_mem _ listed)
    rw [classesAll, ← collect, here, ih later, ← collect_append, List.flatMap_cons]

theorem classes_eq_collect (top : ClassType) (t : RType) :
    t.classes top = collect [] (t.offers top) := by
  induction t using RType.induction with
  | bounded v b ih => rw [classes, ih, offers_eq top (.bounded v b)]; simp [offer?, bounds]
  | var n bs ih =>
    have same := classesAll_eq ih []
    have empty : collect [] (bs.flatMap (offers top)) = [] ↔ bs.flatMap (offers top) = [] := by
      simp [List.eq_nil_iff_forall_not_mem, mem_collect]
    rw [classes, same, offers_var]
    split
    next nothing => rw [if_pos (empty.1 nothing)]; rfl
    next something => rw [if_neg (mt empty.2 something)]
  | _ => simp [classes, offers_eq, offer?, bounds, collect]

theorem eq_top_or_reaches {top c : ClassType} {t : RType} (offered : c ∈ t.offers top) :
    c = top ∨ t.Reaches c.toType := by
  obtain ⟨b, listed, offer⟩ := List.mem_filterMap.1 offered
  cases b with
  | ref d args =>
    cases offer
    exact .inr (mem_reading.1 listed)
  | unbounded | array => exact .inl (Option.some.inj offer).symm
  | var n bs =>
    rw [offer?] at offer
    split at offer
    · exact .inl (Option.some.inj offer).symm
    · cases offer
  | bounded | prim | null => cases offer

theorem mem_offers_of_reaches {t : RType} {c : ClassType} (reaches : t.Reaches c.toType)
    (top : ClassType) :
    c ∈ t.offers top :=
  List.mem_filterMap.2 ⟨c.toType, mem_reading.2 reaches, rfl⟩

/-- The classes of a type are what it and its bounds offer, read once from left to right, each where
it first occurs. -/
theorem classes_read_bounds (top : ClassType) (t : RType) :
    t.classes top = (t.reading.filterMap (offer? top)).eraseDups ∧
    (t.classes top).Nodup ∧
    (∀ c ∈ t.classes top, c = top ∨ t.Reaches c.toType) ∧
    (∀ c : ClassType, t.Reaches c.toType → c ∈ t.classes top) ∧
    (t.classes top = [] ↔ t.isMemberless = true) := by
  have collected := classes_eq_collect top t
  have listed {c : ClassType} : c ∈ t.classes top ↔ c ∈ t.offers top := by
    rw [collected, mem_collect]
    simp
  refine ⟨?_, ?_, ?_, ?_, ?_⟩
  · rw [collected]
    exact collect_eraseDups [] (t.offers top)
  · rw [collected]
    exact nodup_collect List.nodup_nil _
  · exact fun c isClass => eq_top_or_reaches (listed.1 isClass)
  · exact fun c reaches => listed.2 (mem_offers_of_reaches reaches top)
  · rw [← offers_eq_nil top, List.eq_nil_iff_forall_not_mem, List.eq_nil_iff_forall_not_mem]
    exact forall_congr' fun c => not_congr listed

-- The top stands where the variable does of which no bound has members.
example :
    let top : ClassType := ⟨.library topName, []⟩
    let box : RType := .ref (.library ⟨"p", ["Box"]⟩) [.prim .int]
    classes top (.var "T" [.prim .int, .bounded .lower box, .var "U" [.null], box]) =
      [⟨.library ⟨"p", ["Box"]⟩, [.prim .int]⟩, top] := by decide +kernel

end RType

end RefGraph

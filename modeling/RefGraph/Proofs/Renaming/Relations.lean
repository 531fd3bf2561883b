import RefGraph.Proofs.Renaming.Dependency
import RefGraph.Run

set_option autoImplicit false

namespace RefGraph.Corpus.Alike

variable {σ : Nat → Nat} {c c' : Corpus} (alike : Alike σ c c')

include alike

theorem targetKey? (id : TypeId) : c'.targetKey? (id.rename σ) = c.targetKey? id := by
  rw [Corpus.targetKey?, Corpus.targetKey?, TypeId.unit_rename, alike.keyOf]

theorem typesOf (unit : Nat) : c'.typesOf (σ unit) = (c.typesOf unit).map (TypeId.rename σ) := by
  rw [Corpus.typesOf, Corpus.typesOf, alike.world.unit, List.map_map]
  rfl

theorem superclassId? (id : TypeId) (written : TypeRef) :
    c'.superclassId? (id.rename σ) written = (c.superclassId? id written).map
      (TypeId.rename σ) := by
  have found := alike.world.resolve? (some (c.world.headerContext id)) written.name
  rw [Option.map_some, ← alike.world.headerContext] at found
  rw [Corpus.superclassId?, Corpus.superclassId?, found]
  cases c.world.resolve? (some (c.world.headerContext id)) written.name with
  | none => rfl
  | some d =>
    cases d with
    | corpus target =>
      simp only [Option.map_some, Decl.rename, alike.world.decl]
      split <;> rfl
    | _ => rfl

theorem inheritanceOf (key : String) (id : TypeId) :
    c'.inheritanceOf key (id.rename σ) = c.inheritanceOf key id := by
  simp only [Corpus.inheritanceOf, alike.world.decl, alike.superclassId?]
  congr 2
  funext written
  cases c.superclassId? id written with
  | none => rfl
  | some target => simp [alike.targetKey?]

theorem fieldTypeId? (ctx : Context) (f : Field) :
    c'.fieldTypeId? (ctx.rename σ) f = (c.fieldTypeId? ctx f).map (TypeId.rename σ) := by
  have found := alike.world.resolve? (some ctx) f.type.name
  rw [Option.map_some] at found
  have params : (ctx.rename σ).typeParams = ctx.typeParams := rfl
  simp only [Corpus.fieldTypeId?, found, params]
  split
  · rfl
  · split
    · rfl
    · cases c.world.resolve? (some ctx) f.type.name with
      | none => rfl
      | some d => cases d <;> rfl

theorem fieldTypesOf (key : String) (id : TypeId) :
    c'.fieldTypesOf key (id.rename σ) = c.fieldTypesOf key id := by
  have body := alike.world.typeContext id {}
  rw [Scope.rename_empty] at body
  simp only [Corpus.fieldTypesOf, alike.world.decl, body, alike.fieldTypeId?]
  congr 2
  funext f
  cases c.fieldTypeId? (c.world.typeContext id {}) f with
  | none => rfl
  | some target => simp [alike.targetKey?]

theorem relations (mode : Mode) (unit : Nat) :
    c'.relations mode (σ unit) = c.relations mode unit := by
  cases mode with
  | dependencies => exact alike.dependencies unit
  | inheritance =>
    simp only [Corpus.relations, Corpus.inheritance, alike.keyOf, alike.typesOf, List.flatMap_map,
      alike.inheritanceOf]
  | fieldTypes =>
    simp only [Corpus.relations, Corpus.fieldTypes, alike.keyOf, alike.typesOf, List.flatMap_map,
      alike.fieldTypesOf]

end RefGraph.Corpus.Alike

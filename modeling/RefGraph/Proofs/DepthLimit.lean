import RefGraph.Proofs.LocalTyping
import RefGraph.Proofs.Makers
import RefGraph.Proofs.Renaming.Dependency

set_option autoImplicit false

namespace RefGraph

@[simp] theorem LocalTypes.rename_id (known : LocalTypes) : known.rename id = known := by
  simp [LocalTypes.rename]

@[simp] theorem Call.rename_id : Call.rename id = id := by
  funext call
  simp [Call.rename, Bindings.map]

@[simp] theorem Referent.rename_id : Referent.rename id = id := by
  funext r
  cases r with
  | field f => cases f <;> simp [Referent.rename, FoundField.rename, ExternalMember.rename]
  | _ => simp [Referent.rename]

/-- The second run does what the first does, unless a limit stops the first. -/
def Typing.GoesOn {α : Type} (x y : Typing α) : Prop :=
  ∀ known, ¬ Stopped (x.run known).1 → y.run known = x.run known

theorem Typing.Paired.goesOn {α : Type} {x y : Typing α}
    (paired : Paired (.renaming id True) id x y) :
    GoesOn x y := by
  intro known answered
  rcases paired known known known.rename_id.symm with ⟨_, stopped⟩ | ⟨⟨⟩, _⟩ | ⟨answer, same⟩
  · exact absurd stopped answered
  · have later : (y.run known).2 = (x.run known).2 := same.trans (LocalTypes.rename_id _)
    rw [Except.map_id, id] at answer
    exact Prod.ext answer later

namespace Env

open Typing

theorem linked_withLimit {env : Env} {limit : Int} (more : env.limit ≤ limit) (root : Tree) :
    Linked (.renaming id True) id root env.typeInside (typeWithin limit.toNat) env
      { env with limit } := by
  have renamed : Renamed id env { env with limit } := ⟨.refl env.world, by simp⟩
  have levels : (Pairing.renaming id True).Levels env.limit.toNat limit.toNat :=
    ⟨.inl trivial, .inr (Int.toNat_le_toNat more)⟩
  exact renamed.linked_typeInside (.inl trivial) levels rfl root

/-- Unless the limit stops it, an answer and the types found on the way are the same under a larger
limit. -/
theorem answers_of_larger_limit (env : Env) (limit : Int) (more : env.limit ≤ limit) (t : Tree) :
    let larger : Env := { env with limit }
    GoesOn (env.call env.typeInside t) (larger.call larger.typeInside t) ∧
    GoesOn (env.constructorCall env.typeInside t) (larger.constructorCall larger.typeInside t) ∧
    GoesOn (env.access env.typeInside t) (larger.access larger.typeInside t) ∧
    larger.simpleName t.text = env.simpleName t.text ∧
    GoesOn (env.typeOf t) (larger.typeOf t) ∧
    GoesOn (env.targetOf t) (larger.targetOf t) := by
  intro larger
  have linked : Linked (.renaming id True) id t env.typeInside larger.typeInside env larger :=
    linked_withLimit more t
  have call := linked.call (.self t)
  have constructorCall := linked.constructorCall (.self t)
  have access := linked.access (.self t)
  have type := linked.expressions t (.self t)
  have target := linked.toRenamed.targetOf linked
  rw [Call.rename_id] at call constructorCall
  rw [Referent.rename_id] at access
  rw [RType.rename_id] at type
  rw [Target.rename_id] at target
  exact ⟨call.goesOn, constructorCall.goesOn, access.goesOn, rfl, type.goesOn, target.goesOn⟩

-- A method that calls itself with its own parameter, in parentheses.
def nestedCallTree : Tree :=
  Node.file [
    Node.classDecl 0 "A" [] [
      Node.method 0 [] "m" [Node.param (Node.type "A") "x"] [
        Node.call 0 [] "m" [
          { kind := "parenthesized_expression", children := [
            { kind := "identifier", text := "x" }] }]]]]

def nestedCall : Corpus := { Corpus.ofFiles [("/A.java", nestedCallTree)] with limit := 2 }

def nestedCallSite : Site := (nestedCall.sites 0)[0]?.getD default

-- The parameter is two levels deep, so that one level is not enough.
theorem answers_of_larger_limit_nestedCall :
    let env := nestedCall.env nestedCallSite
    let larger : Env := { env with limit := 48 }
    let smaller : Env := { env with limit := 1 }
    nestedCallSite.node.kind = "method_invocation" ∧
    Stopped ((smaller.call smaller.typeInside nestedCallSite.node).run []).1 ∧
    ((env.call env.typeInside nestedCallSite.node).run []).1.isOk = true ∧
    (larger.call larger.typeInside nestedCallSite.node).run [] =
      (env.call env.typeInside nestedCallSite.node).run [] := by
  intro env larger smaller
  have answered : ¬ Stopped ((env.call env.typeInside nestedCallSite.node).run []).1 := by
    decide +kernel
  refine ⟨by decide +kernel, by decide +kernel, by decide +kernel, ?_⟩
  exact (answers_of_larger_limit env 48 (by decide) nestedCallSite.node).1 [] answered

end Env

end RefGraph

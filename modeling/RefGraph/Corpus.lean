import RefGraph.Lookup
import RefGraph.Relation
import RefGraph.UnitKey

set_option autoImplicit false

namespace RefGraph

def placeholderLimit : Int := 32

def expressionLimit : Int := 64

def World.ofGroups (library : Library) (units : List SourceUnit) (groups : List (List Nat)) :
    World where
  units := units
  sources := .library library :: groups.map fun group =>
    .catalog (Catalog.ofUnits (group.filterMap fun i => units[i]?.map (i, ·)))

structure Corpus where
  world : World
  roots : List Path := []
  limit : Int := expressionLimit

namespace Corpus

/-- The key of a unit in relation lines; it is empty for a unit outside the roots. -/
def keyOf (c : Corpus) (unit : Nat) : String := UnitKey.ofPath? c.roots (c.world.unit unit).path

def keyOf? (c : Corpus) (unit : Nat) : Except PathError String :=
  UnitKey.key? c.roots (c.world.unit unit).path

def unitIndices (c : Corpus) : List Nat := List.range c.world.units.length

def typesOf (c : Corpus) (unit : Nat) : List TypeId :=
  (c.world.unit unit).allTypes.map fun i => ⟨unit, i⟩

end Corpus

end RefGraph

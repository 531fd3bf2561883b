import RefGraph.Signature

set_option autoImplicit false

namespace RefGraph

structure DependencyEdge where
  source : String
  sourceKey : String
  targetType : String
  targetKey : String
  target : Descriptor
deriving DecidableEq

inductive Relation where
  | dependency (e : DependencyEdge)
  | inheritance (sourceKey targetKey : String)
  | fieldType (source targetKey : String)
deriving DecidableEq

def DependencyEdge.line (e : DependencyEdge) : String :=
  e.source ++ " " ++ e.targetKey ++ e.targetType ++ "/[" ++ e.target.kind.tag ++ "]/" ++
    e.target.text

def Relation.line : Relation → String
  | .dependency e => e.line
  | .inheritance source target => source ++ "\t" ++ target
  | .fieldType source target => source ++ "\t" ++ target

end RefGraph

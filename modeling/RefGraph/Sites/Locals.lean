import RefGraph.Scope
import RefGraph.TypeRef.Node

set_option autoImplicit false

namespace RefGraph.Sites

def writtenType? (t : Tree) : Option TypeRef :=
  ((t.child? "type").bind TypeRef.ofNode?).filter fun r => r.name != Name.simple "var"

def declaratorVar? (type : Option TypeRef) (t : Tree) : Option LocalVar :=
  (t.childText? "name").map fun name =>
    { name
      type := type.map fun r => r.addDims (((t.child? "dimensions").map TypeRef.countDims).getD 0)
      initializer := t.child? "value" }

def lambdaVars (params : Tree) : List LocalVar :=
  match params.kind with
  | "identifier" => [{ name := params.text }]
  | "inferred_parameters" =>
    (params.namedChildren.filter (·.kind == "identifier")).map fun c => { name := c.text }
  | _ =>
    (params.namedChildren.filter (·.kind == "formal_parameter")).filterMap fun c =>
      (c.childText? "name").map fun name => { name, type := writtenType? c }

def localsOf (t : Tree) : List LocalVar :=
  let named (type : Option TypeRef) (init : Option Tree) (iterated : Bool) : List LocalVar :=
    ((t.childText? "name").map fun name =>
      ({ name, type, initializer := init, iterated } : LocalVar)).toList
  match t.kind with
  | "local_variable_declaration" =>
    (t.childrenIn "declarator").filterMap (declaratorVar? (writtenType? t))
  | "enhanced_for_statement" => named (writtenType? t) (t.child? "value") true
  | "catch_formal_parameter" =>
    let first := (t.childOf? ["catch_type"]).bind (·.namedChildren.head?)
    named (first.bind TypeRef.ofNode?) none false
  | "resource" => named (writtenType? t) (t.child? "value") false
  | "instanceof_expression" => named ((t.child? "right").bind TypeRef.ofNode?) none false
  | "lambda_expression" => ((t.child? "parameters").map lambdaVars).getD []
  | _ => []

end RefGraph.Sites

import RefGraph.Tree

set_option autoImplicit false

namespace RefGraph.Sites

def nonValueParents : List String :=
  ["scoped_identifier", "package_declaration", "import_declaration", "labeled_statement",
    "break_statement", "continue_statement", "inferred_parameters", "marker_annotation",
    "annotation", "type_parameter", "receiver_parameter", "switch_label", "module_declaration",
    "requires_module_directive", "exports_module_directive", "opens_module_directive",
    "uses_module_directive", "provides_module_directive"]

def nameRole? : String → Option String
  | "field_access" => some "field"
  | "lambda_expression" => some "parameters"
  | "element_value_pair" => some "key"
  | "method_invocation" | "variable_declarator" | "formal_parameter" | "catch_formal_parameter"
  | "enhanced_for_statement" | "resource" | "instanceof_expression" | "enum_constant"
  | "method_declaration" | "constructor_declaration" | "compact_constructor_declaration"
  | "annotation_type_element_declaration" | "class_declaration" | "interface_declaration"
  | "enum_declaration" | "record_declaration" | "annotation_type_declaration" => some "name"
  | _ => none

/-- Whether an identifier below a parent is a value; of a method reference only the receiver is one.
-/
def isValue (t : Tree) : Option Tree → Bool
  | none => false
  | some parent =>
    if parent.is nonValueParents then false
    else if (((nameRole? parent.kind).bind parent.child?).any fun c => c.key == t.key) then false
    else if parent.kind == "method_reference" then
      parent.namedChildren.head?.any fun c => c.key == t.key
    else true

end RefGraph.Sites

set_option autoImplicit false

namespace RefGraph

inductive ExprForm where
  | name | fieldAccess | thisValue | superValue | call
  | creation | arrayCreation | arrayAccess | cast
  | parentheses | conditional | assignment | binary | unary | update
  | truthValue | classLiteral | stringLiteral | charLiteral | integerLiteral | floatLiteral
    | nullLiteral
  | untyped | unknown
deriving DecidableEq

def ExprForm.ofKind : String → ExprForm
  | "identifier" => .name
  | "field_access" => .fieldAccess
  | "this" => .thisValue
  | "super" => .superValue
  | "method_invocation" => .call
  | "object_creation_expression" => .creation
  | "array_creation_expression" => .arrayCreation
  | "array_access" => .arrayAccess
  | "cast_expression" => .cast
  | "parenthesized_expression" => .parentheses
  | "ternary_expression" => .conditional
  | "assignment_expression" => .assignment
  | "binary_expression" => .binary
  | "unary_expression" => .unary
  | "update_expression" => .update
  | "instanceof_expression" | "true" | "false" => .truthValue
  | "class_literal" => .classLiteral
  | "string_literal" | "text_block" => .stringLiteral
  | "character_literal" => .charLiteral
  | "decimal_integer_literal" | "hex_integer_literal" | "octal_integer_literal"
  | "binary_integer_literal" => .integerLiteral
  | "decimal_floating_point_literal" | "hex_floating_point_literal" => .floatLiteral
  | "null_literal" => .nullLiteral
  | "lambda_expression" | "method_reference" | "switch_expression" | "array_initializer" => .untyped
  | _ => .unknown

end RefGraph

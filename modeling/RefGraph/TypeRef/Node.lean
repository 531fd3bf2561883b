import RefGraph.Tree
import RefGraph.TypeRef
import RefGraph.Text.Blank

set_option autoImplicit false

namespace RefGraph.TypeRef

def primitiveNodes : List String :=
  ["integral_type", "floating_point_type", "boolean_type", "void_type"]

def typeNodes : List String :=
  primitiveNodes ++
    ["type_identifier", "scoped_type_identifier", "generic_type", "array_type", "annotated_type"]

def annotationNodes : List String := ["annotation", "marker_annotation"]

def ofPrimitiveText (s : String) : TypeRef :=
  match Primitive.ofName? s with
  | some p => { head := .primitive p }
  | none => ofName (Name.ofString s)

def countDims (t : Tree) : Nat := Text.countChar '[' t.text

-- The variance that the last keyword of a wildcard names; without one it is an upper bound.
def varianceIn (children : List Tree) : Variance :=
  children.foldl (fun v c =>
    if c.kind == "extends" then .upper else if c.kind == "super" then .lower else v) .upper

mutual
def ofNode? : Tree → Option TypeRef
  | { kind, text, children, .. } =>
    match kind with
    | "annotated_type" => lastPlain? children
    | "integral_type" | "floating_point_type" | "boolean_type" | "void_type" =>
      some (ofPrimitiveText text)
    | "type_identifier" => some (ofName (Name.simple text))
    | "scoped_type_identifier" => some (ofName (Name.ofSegments (scopeSegments children)))
    | "generic_type" =>
      (genericBase? none children).map fun n =>
        { head := .named n, args := genericArgs [] children }
    | "array_type" =>
      (elementIn? children).map fun t =>
        t.addDims (((children.find? (·.role == some "dimensions")).map countDims).getD 1)
    | _ => none

-- The last named child that is no annotation.
def lastPlain? : List Tree → Option TypeRef
  | [] => none
  | t :: ts =>
    if ts.any (fun u => u.named && !u.is annotationNodes) then lastPlain? ts
    else if t.named && !t.is annotationNodes then ofNode? t else none

def elementIn? : List Tree → Option TypeRef
  | [] => none
  | t :: ts => if t.role == some "element" then ofNode? t else elementIn? ts

-- Arguments that are written on a scope do not belong to the name.
def scopeSegments : List Tree → List String
  | [] => []
  | t :: ts =>
    let here :=
      if !t.named then []
      else match t.kind with
        | "type_identifier" => [t.text]
        | "scoped_type_identifier" | "generic_type" =>
          ((ofNode? t).map fun r => r.name.segments).getD []
        | _ => []
    here ++ scopeSegments ts

def genericBase? (found : Option Name) : List Tree → Option Name
  | [] => found
  | t :: ts =>
    genericBase?
      (if t.named && (t.kind == "type_identifier" || t.kind == "scoped_type_identifier") then
        (ofNode? t).map (·.name)
      else found) ts

def genericArgs (found : List (Arg TypeRef)) : List Tree → List (Arg TypeRef)
  | [] => found
  | t :: ts =>
    genericArgs (if t.named && t.kind == "type_arguments" then argsOf t else found) ts

def argsOf : Tree → List (Arg TypeRef)
  | { children, .. } => argsIn children

def argsIn : List Tree → List (Arg TypeRef)
  | [] => []
  | t :: ts =>
    let here :=
      if !t.named then []
      else if t.kind == "wildcard" then [wildcardOf t]
      else ((ofNode? t).map Arg.type).toList
    here ++ argsIn ts

def wildcardOf : Tree → Arg TypeRef
  | { children, .. } =>
    match boundIn? none children with
    | none => .unbounded
    | some t => .bounded (varianceIn children) t

def boundIn? (found : Option TypeRef) : List Tree → Option TypeRef
  | [] => found
  | t :: ts => boundIn? (if t.is typeNodes then ofNode? t else found) ts
end

end RefGraph.TypeRef

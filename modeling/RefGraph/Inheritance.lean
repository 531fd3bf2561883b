import RefGraph.Corpus

set_option autoImplicit false

namespace RefGraph.Corpus

def targetKey? (c : Corpus) (target : TypeId) : Option String :=
  let key := c.keyOf target.unit
  if key = "" then none else some key

def superclassId? (c : Corpus) (id : TypeId) (written : TypeRef) : Option TypeId :=
  match c.world.resolve? (some (c.world.headerContext id)) written.name with
  | some (.corpus target) => if (c.world.decl target).kind = .classKind then some target else none
  | _ => none

def inheritanceOf (c : Corpus) (key : String) (id : TypeId) : List Relation :=
  let d := c.world.decl id
  if d.kind = .classKind then
    d.superclasses.filterMap fun written => do
      let target ← c.superclassId? id written
      return .inheritance key (← c.targetKey? target)
  else []

def inheritance (c : Corpus) (unit : Nat) : List Relation :=
  let key := c.keyOf unit
  if key = "" then [] else (c.typesOf unit).flatMap (c.inheritanceOf key)

def fieldNodes : List String := ["field_declaration", "constant_declaration"]

-- The first field of each declaration statement; enum constants and record components have none.
def firstDeclarators (seen : List NodeKey) : List Field → List Field
  | [] => []
  | f :: fs =>
    match f.declaration with
    | none => firstDeclarators seen fs
    | some t =>
      if !t.is fieldNodes || seen.contains t.key then firstDeclarators seen fs
      else f :: firstDeclarators (t.key :: seen) fs

def fieldTypeId? (c : Corpus) (ctx : Context) (f : Field) : Option TypeId :=
  let n := f.type.name
  if !f.type.isClassOrInterface then none
  else if !n.isQualified && (ctx.typeParams.get? n.first).isSome then none
  else match c.world.resolve? (some ctx) n with
    | some (.corpus target) => some target
    | _ => none

def fieldTypesOf (c : Corpus) (key : String) (id : TypeId) : List Relation :=
  let d := c.world.decl id
  if d.isAnonymous then []
  else
    let ctx := c.world.typeContext id {}
    (firstDeclarators [] d.fields).filterMap fun f => do
      let target ← c.fieldTypeId? ctx f
      return .fieldType ((Member.field f).signature key d.name) (← c.targetKey? target)

def fieldTypes (c : Corpus) (unit : Nat) : List Relation :=
  let key := c.keyOf unit
  if key = "" then [] else (c.typesOf unit).flatMap (c.fieldTypesOf key)

end RefGraph.Corpus

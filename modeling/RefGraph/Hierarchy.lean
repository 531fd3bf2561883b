import RefGraph.Failure
import RefGraph.Lookup

set_option autoImplicit false

namespace RefGraph

structure Reading where
  known : String → Option RType
  find : Name → Option Decl

namespace Reading

mutual
def resolve (r : Reading) : TypeRef → Except Failure RType
  | { head, args, dims } =>
    match head with
    | .primitive p => .ok (RType.arrays dims (.prim p))
    | .named n =>
      match (if n.isQualified then none else r.known n.first) with
      | some t => .ok (RType.arrays dims t)
      | none =>
        match r.find n with
        | none => .error (.unresolved (.name n.text))
        | some d => .ok (RType.arrays dims (.ref d (resolveArgs r args)))

/-- An argument that cannot be resolved may be anything. -/
def resolveArg (r : Reading) : Arg TypeRef → RType
  | .type t => (resolve r t).toOption.getD .unbounded
  | .unbounded => .unbounded
  | .bounded v t => ((resolve r t).toOption.map (RType.bounded v)).getD .unbounded

def resolveArgs (r : Reading) : List (Arg TypeRef) → List RType
  | [] => []
  | a :: as => resolveArg r a :: resolveArgs r as
end

end Reading

namespace World

def bareReading (w : World) (ctx? : Option Context) : Reading where
  known name := (ctx?.bind (·.typeParams.get? name)).map fun p => .var p.name []
  find := w.resolve? ctx?

def boundsOf (w : World) (ctx? : Option Context) (p : TypeParam) : List RType :=
  p.bounds.filterMap fun b => ((w.bareReading ctx?).resolve b).toOption

/-- Names that are bound come first, then type parameters, then declarations. -/
def reading (w : World) (ctx? : Option Context) (b : Bindings RType) : Reading where
  known name := (b.get? name).or <|
    (ctx?.bind (·.typeParams.get? name)).map fun p => .var p.name (w.boundsOf ctx? p)
  find := w.resolve? ctx?

def resolveRef (w : World) (ctx? : Option Context) (b : Bindings RType) (t : TypeRef) :
    Except Failure RType :=
  (w.reading ctx? b).resolve t

def known (w : World) (n : Name) (args : List RType) : Except Failure ClassType :=
  match w.resolve? none n with
  | some d => .ok ⟨d, args⟩
  | none => .error (.unresolved (.name n.text))

def top (w : World) : ClassType := ⟨(w.resolve? none topName).getD (.library topName), []⟩

def qualified? (w : World) : Decl → Option Name
  | .corpus id => (w.decl id).qualified
  | .library n => some n
  | .placeholder p => some p.name

def nameOf (w : World) : Decl → String
  | .corpus id => (w.decl id).name
  | .library n => n.last
  | .placeholder p => p.name.text

def describeDecl (w : World) (d : Decl) : String :=
  let qualified := ((w.qualified? d).map Name.text).getD ""
  if qualified != "" then qualified
  else if w.nameOf d != "" then w.nameOf d
  else "<anonymous>"

mutual
def describe (w : World) : RType → String
  | .ref d [] => w.describeDecl d
  | .ref d args => w.describeDecl d ++ "<" ++ ",".intercalate (describeAll w args) ++ ">"
  | .prim p => p.name
  | .array c => describe w c ++ "[]"
  | .unbounded => "?"
  | .bounded v b => "? " ++ v.keyword ++ " " ++ describe w b
  | .var n _ => n
  | .null => "null"

def describeAll (w : World) : List RType → List String
  | [] => []
  | t :: ts => describe w t :: describeAll w ts
end

def paramNames (w : World) : Decl → List String
  | .corpus id => (w.decl id).typeParams.map (·.name)
  | .library n => (w.libraryType n).params
  | .placeholder _ => []

def ownBindings (w : World) (c : ClassType) : Bindings RType :=
  let names := w.paramNames c.decl
  if names.length = c.args.length then Bindings.ofList (names.zip c.args) else {}

/-- As `ownBindings`, but the parameters of a raw library type stand for themselves. -/
def bindings (w : World) (c : ClassType) : Bindings RType :=
  let own := w.ownBindings c
  match c.decl with
  | .library _ =>
    if own.isEmpty then Bindings.ofList ((w.paramNames c.decl).map fun n => (n, .var n [])) else own
  | _ => own

def asClass? : RType → Option ClassType
  | .ref d args => some ⟨d, args⟩
  | _ => none

def resolveClass? (w : World) (ctx? : Option Context) (b : Bindings RType) (t : TypeRef) :
    Option ClassType :=
  (w.resolveRef ctx? b t).toOption.bind asClass?

def implicitSuper? (w : World) (c : ClassType) : TypeKind → Option ClassType
  | .enumKind => some ((w.known ⟨"java", ["lang", "Enum"]⟩ [c.toType]).toOption.getD w.top)
  | .recordKind => some ((w.known ⟨"java", ["lang", "Record"]⟩ []).toOption.getD w.top)
  | _ => none

def directSupertypes (w : World) (c : ClassType) : List ClassType :=
  let b := w.bindings c
  match c.decl with
  | .corpus id =>
    let d := w.decl id
    let resolve := w.resolveClass? (some (w.headerContext id)) b
    let extended := d.superclasses.filterMap resolve
    let written := extended ++ d.interfaces.filterMap resolve
    match w.implicitSuper? c d.kind with
    | some s => written ++ [s]
    | none =>
      if (d.kind = .classKind ∨ d.kind = .anonymousKind) ∧ extended ≠ [] then written
      else written ++ [w.top]
  | .library n =>
    let found := (w.libraryType n).supertypes.filterMap (w.resolveClass? none b)
    if found.isEmpty && n != topName then [w.top] else found
  | .placeholder _ => []

def superclass (w : World) (id : TypeId) : ClassType :=
  (w.directSupertypes ⟨.corpus id, []⟩).head?.getD w.top

-- The types of a level whose declarations are new, each once.
def fresh (seen : List Decl) : List ClassType → List ClassType
  | [] => []
  | c :: cs =>
    if seen.contains c.decl then fresh seen cs else c :: fresh (c.decl :: seen) cs

/-- The types found up the hierarchy, and one that is too far up if the search gets there. -/
structure Ancestry where
  found : List ClassType
  beyond : Option ClassType := none

def ancestryFrom (w : World) : Nat → List Decl → List ClassType → Ancestry
  | 0, seen, level => { found := [], beyond := (fresh seen level).head? }
  | depth + 1, seen, level =>
    match fresh seen level with
    | [] => { found := [] }
    | here =>
      let above :=
        w.ancestryFrom depth (here.map (·.decl) ++ seen) (here.flatMap w.directSupertypes)
      { above with found := here ++ above.found }

def ancestry (w : World) (c : ClassType) : Ancestry := w.ancestryFrom (hierarchyLimit + 1) [] [c]

def tooFar (w : World) (c : ClassType) : Failure := .tooDeep hierarchyLimit (w.describe c.toType)

def ancestors (w : World) (c : ClassType) : Except Failure (List ClassType) :=
  let a := w.ancestry c
  match a.beyond with
  | some far => .error (w.tooFar far)
  | none => .ok a.found

def firstFrom {α : Type} (w : World) (f : ClassType → Option α) :
    Nat → List Decl → List ClassType → Except Failure (Option α)
  | 0, seen, level =>
    match fresh seen level with
    | [] => .ok none
    | far :: _ => .error (w.tooFar far)
  | depth + 1, seen, level =>
    match fresh seen level with
    | [] => .ok none
    | here =>
      match here.findSome? f with
      | some a => .ok (some a)
      | none => w.firstFrom f depth (here.map (·.decl) ++ seen) (here.flatMap w.directSupertypes)

/-- The first answer that a type or one of its supertypes gives. The search stops there, and fails
only if it gets too far up before. -/
def firstAbove {α : Type} (w : World) (f : ClassType → Option α) (c : ClassType) :
    Except Failure (Option α) :=
  w.firstFrom f (hierarchyLimit + 1) [] [c]

def Ancestry.first {α : Type} (w : World) (f : ClassType → Option α) (a : Ancestry) :
    Except Failure (Option α) :=
  match a.found.findSome? f, a.beyond with
  | some x, _ => .ok (some x)
  | none, some far => .error (w.tooFar far)
  | none, none => .ok none

theorem firstFrom_eq {α : Type} (w : World) (f : ClassType → Option α) (depth : Nat)
    (seen : List Decl) (level : List ClassType) :
    w.firstFrom f depth seen level = (w.ancestryFrom depth seen level).first w f := by
  induction depth generalizing seen level with
  | zero =>
    cases h : fresh seen level <;> simp [firstFrom, ancestryFrom, Ancestry.first, h]
  | succ depth ih =>
    cases h : fresh seen level with
    | nil => simp [firstFrom, ancestryFrom, Ancestry.first, h]
    | cons c cs =>
      simp only [firstFrom, ancestryFrom, h, ih]
      cases hit : (c :: cs).findSome? f with
      | some a => simp only [Ancestry.first, List.findSome?_append, hit, Option.some_or]
      | none => simp only [Ancestry.first, List.findSome?_append, hit, Option.none_or]

theorem firstAbove_eq {α : Type} (w : World) (f : ClassType → Option α) (c : ClassType) :
    w.firstAbove f c = (w.ancestry c).first w f := w.firstFrom_eq f _ [] [c]

def isSubtype (w : World) (sub sup : ClassType) : Except Failure Bool :=
  if w.qualified? sup.decl = some topName then .ok true
  else do
    let hit ← w.firstAbove (fun c =>
      if c.decl = sup.decl ∨
          ((w.qualified? c.decl).isSome ∧ w.qualified? c.decl = w.qualified? sup.decl) then some ()
      else none) sub
    return hit.isSome

end World

end RefGraph

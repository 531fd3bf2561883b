import RefGraph.Hierarchy

set_option autoImplicit false

namespace RefGraph

namespace Primitive

def box? : Primitive → Option Name
  | .boolean => some ⟨"java", ["lang", "Boolean"]⟩
  | .byte => some ⟨"java", ["lang", "Byte"]⟩
  | .short => some ⟨"java", ["lang", "Short"]⟩
  | .char => some ⟨"java", ["lang", "Character"]⟩
  | .int => some ⟨"java", ["lang", "Integer"]⟩
  | .long => some ⟨"java", ["lang", "Long"]⟩
  | .float => some ⟨"java", ["lang", "Float"]⟩
  | .double => some ⟨"java", ["lang", "Double"]⟩
  | .void => none

def ofBox? (n : Name) : Option Primitive := all.find? fun p => p.box? == some n

end Primitive

def boxSupertypes : List Name :=
  [topName, ⟨"java", ["lang", "Number"]⟩, ⟨"java", ["lang", "Comparable"]⟩,
    ⟨"java", ["io", "Serializable"]⟩]

def arraySupertypes : List Name :=
  [topName, ⟨"java", ["lang", "Cloneable"]⟩, ⟨"java", ["io", "Serializable"]⟩]

namespace RType

mutual
def classes (top : ClassType) : RType → List ClassType
  | .ref d args => [⟨d, args⟩]
  | .unbounded => [top]
  | .bounded _ b => classes top b
  | .array _ => [top]
  | .var _ bounds =>
    match classesAll top [] bounds with
    | [] => [top]
    | found => found
  | .prim _ | .null => []

def classesAll (top : ClassType) (found : List ClassType) : List RType → List ClassType
  | [] => found
  | b :: bs =>
    classesAll top
      ((classes top b).foldl (fun fs c => if fs.contains c then fs else fs ++ [c]) found) bs
end

end RType

namespace World

def qualifiedType? (w : World) : RType → Option Name
  | .ref d _ => w.qualified? d
  | _ => none

def promote (w : World) (t : RType) : RType :=
  match (w.qualifiedType? t).bind Primitive.ofBox? with
  | some p => .prim p.promoted
  | none =>
    match t with
    | .prim p => .prim p.promoted
    | _ => t

mutual
def passes (w : World) : RType → RType → Except Failure Bool
  | arg, param =>
    match param with
    | .var _ _ | .unbounded | .bounded _ _ => .ok true
    | param =>
      match arg with
      | .null =>
        match param with
        | .prim _ => .ok false
        | _ => .ok true
      | .prim p =>
        match param with
        | .prim q => .ok (p.fits q)
        | .ref d _ =>
          let name := w.qualified? d
          .ok (name == p.box? || name.any boxSupertypes.contains)
        | _ => .ok false
      | .array a =>
        match param with
        | .array b =>
          match a, b with
          | .prim p, .prim q => .ok (p == q)
          | .prim _, _ | _, .prim _ => .ok false
          | a, b => passes w a b
        | _ => .ok ((w.qualifiedType? param).any arraySupertypes.contains)
      | .var _ bounds =>
        if bounds.isEmpty || w.qualifiedType? param == some topName then .ok true
        else passesAny w bounds param
      | .unbounded => .ok true
      | .bounded _ b => passes w b param
      | .ref d args =>
        match param with
        | .prim q => .ok (((w.qualified? d).bind Primitive.ofBox?).any (·.fits q))
        | .ref e more => w.isSubtype ⟨d, args⟩ ⟨e, more⟩
        | _ => .ok false

def passesAny (w : World) : List RType → RType → Except Failure Bool
  | [], _ => .ok false
  | b :: bs, param => do
    if ← passes w b param then .ok true else passesAny w bs param
end

def assignable (w : World) : Option RType → Option RType → Except Failure Bool
  | some arg, some param => w.passes arg param
  | _, _ => .ok true

def elementType (w : World) (t : RType) : Except Failure RType := do
  let found ← match t with
    | .array c => .ok (some c)
    | .ref d args =>
      w.firstAbove (fun c =>
        if w.qualified? c.decl = some ⟨"java", ["lang", "Iterable"]⟩ then
          match (w.bindings c).get? "T" with
          | some .unbounded => none
          | some (.bounded _ b) => some b
          | other => other
        else none) ⟨d, args⟩
    | _ => .ok none
  match found with
  | some e => .ok e
  | none => .error (.unresolved (.iteration (w.describe t)))

end World

end RefGraph

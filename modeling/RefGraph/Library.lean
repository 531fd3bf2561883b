import RefGraph.Bindings
import RefGraph.NameTable
import RefGraph.TypeRef.Text

set_option autoImplicit false

namespace RefGraph

structure LibraryType where
  name : Name
  params : List String := []
  supertypes : List TypeRef := []
  returns : Bindings TypeRef := {}
deriving Inhabited

def LibraryType.ofTexts (name params : String) (supertypes : List String)
    (returns : List (String × String)) : LibraryType where
  name := Name.ofString name
  params := (Text.split ',' params).filter (· != "")
  supertypes := supertypes.filterMap TypeRef.ofText?
  returns := Bindings.ofList <|
    returns.filterMap fun (member, text) => (TypeRef.ofText? text).map (member, ·)

abbrev Library := NameTable LibraryType.name

end RefGraph

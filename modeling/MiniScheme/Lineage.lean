/-! Classes in a single line of descent, and the nearest ancestor among chosen ones. -/

namespace MiniScheme

structure ClassDef where
  name : String
  parent : Option String
deriving DecidableEq

namespace Lineage

/-- The class of that name or its nearest ancestor that is among `keys`. The definitions stand
last one first, so the parent of each comes after it. -/
def nearest? (keys : List String) : List ClassDef → String → Option String
  | [], _ => none
  | c :: earlier, name =>
    if c.name = name then
      if name ∈ keys then some name
      else match c.parent with
        | some parent => nearest? keys earlier parent
        | none => none
    else nearest? keys earlier name

end Lineage

def nearestAncestor (classes : List ClassDef) (keys : List String) (name : Option String) :
    Option String :=
  name.bind (Lineage.nearest? keys classes.reverse)

end MiniScheme

import Backend65816.Diagnostic

/-!
# Type tags

Types that implement a trait carry a tag in their first byte. Tags count from one in the order in
which types are first seen; zero is the tag of no type.
-/

namespace Backend65816

/-- Tags of a unit. -/
structure Tags where
  limit : Int
  types : List String := []
deriving DecidableEq, Repr

namespace Tags

def tag? (tags : Tags) (typeName : String) : Option Nat :=
  (tags.types.findIdx? (· = typeName)).map (· + 1)

def overflow (tags : Tags) (typeName : String) : Diagnostic :=
  { DiagnosticCode.tagOverflow.report typeName
      ("more than " ++ toString tags.limit ++ " types implement dispatch traits") with
    isGlobal := true }

def assign (tags : Tags) (typeName : String) : Except Diagnostic (Nat × Tags) :=
  match tags.tag? typeName with
  | some tag => .ok (tag, tags)
  | none =>
    if tags.limit ≤ tags.types.length then .error (tags.overflow typeName)
    else .ok (tags.types.length + 1, { tags with types := tags.types ++ [typeName] })

def reset (tags : Tags) : Tags := { tags with types := [] }

end Tags

end Backend65816

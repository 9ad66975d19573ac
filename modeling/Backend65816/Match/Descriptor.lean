import Backend65816.Diagnostic
import Backend65816.Machine.Width
import Backend65816.Source.Declaration
import Backend65816.Word

/-!
# Matches and their coverage

A match selects the first arm whose pattern contains the value of the scrutinee. It must cover every
value: a truth value or an enum by listing all of them, an integer by an arm that takes the rest.
-/

namespace Backend65816

/-- What kind of value is matched. -/
inductive ScrutineeKind where
  | int
  | bool
  | enum (declaration : EnumDecl)
deriving DecidableEq, Repr, Inhabited

/-- An arm of a match. -/
structure MatchArm where
  pattern : Pattern
  const : Option Int := none
deriving Repr, Inhabited

/-- A match without the bodies of its arms. -/
structure MatchDescriptor where
  declaration : String := ""
  kind : ScrutineeKind := .int
  width : Width := .byte
  signed : Bool := false
  arms : List MatchArm := []
deriving Repr, Inhabited

mutual

def Pattern.isCatchAll : Pattern → Bool
  | .wildcard | .bind _ => true
  | .any alternatives => anyCatchAll alternatives
  | .literal _ | .variant _ _ | .range _ _ _ => false

def anyCatchAll : List Pattern → Bool
  | [] => false
  | pattern :: rest => pattern.isCatchAll || anyCatchAll rest

end

def Pattern.isAny : Pattern → Bool
  | any _ => true
  | _ => false

namespace MatchDescriptor

def domain (descriptor : MatchDescriptor) : Int × Int :=
  match descriptor.kind with
  | .bool => (0, 1)
  | .enum declaration => (0, declaration.variants.length - 1)
  | .int =>
    if descriptor.signed then (-descriptor.width.signBit, descriptor.width.signBit - 1)
    else (0, descriptor.width.mask)

def report {α : Type} (descriptor : MatchDescriptor) (code : DiagnosticCode) (message : String) :
    Except Diagnostic α :=
  .error (code.report descriptor.declaration message)

def variantValue (descriptor : MatchDescriptor) (enum variant : String) : Except Diagnostic Int :=
  let foreign : Except Diagnostic Int := descriptor.report .branchTypes
    ("pattern " ++ enum ++ "." ++ variant ++ " does not match the scrutinee type")
  match descriptor.kind with
  | .enum declaration =>
    if enum ≠ declaration.name then foreign
    else
      match declaration.variantIndex? variant with
      | some index => .ok index
      | none =>
        descriptor.report .unknownName ("enum " ++ enum ++ " has no variant " ++ variant)
  | .int | .bool => foreign

/-- Least and greatest value of a pattern that lists values. A range without its upper bound ends at
the word before it. -/
def valueRange (descriptor : MatchDescriptor) (pattern : Pattern) :
    Except Diagnostic (Int × Int) :=
  match pattern with
  | .literal value => .ok (value, value)
  | .variant enum variant =>
    (descriptor.variantValue enum variant).map fun value => (value, value)
  | .range low high inclusive => .ok (low, if inclusive then high else Word.wrap (high - 1))
  | .any _ | .wildcard | .bind _ => .ok (0, 0)

def checkValues (descriptor : MatchDescriptor) (pattern : Pattern) :
    Except Diagnostic (Int × Int) := do
  let (low, high) ← descriptor.valueRange pattern
  let (least, greatest) := descriptor.domain
  if low > high then
    descriptor.report .branchTypes ("empty range pattern " ++ toString low ++ ".." ++ toString high)
  else if low < least ∨ high > greatest then
    descriptor.report .branchTypes
      ("pattern " ++ toString low ++ "..=" ++ toString high ++ " outside the scrutinee range " ++
        toString least ++ "..=" ++ toString greatest)
  else .ok (low, high)

def checkNumeric (descriptor : MatchDescriptor) (pattern : Pattern) :
    Except Diagnostic (Int × Int) :=
  match descriptor.kind with
  | .enum _ =>
    descriptor.report .branchTypes "enum scrutinee matched against a numeric pattern"
  | .int | .bool => descriptor.checkValues pattern

end MatchDescriptor

/-- Values that patterns list. -/
structure Coverage where
  catchAll : Bool := false
  ranges : List (Int × Int) := []
deriving DecidableEq, Repr, Inhabited

namespace Coverage

def union (left right : Coverage) : Coverage :=
  { catchAll := left.catchAll || right.catchAll, ranges := left.ranges ++ right.ranges }

def covers (coverage : Coverage) (value : Int) : Bool :=
  coverage.ranges.any fun range => range.1 ≤ value && value ≤ range.2

end Coverage

mutual

def Pattern.coverage (descriptor : MatchDescriptor) : Pattern → Except Diagnostic Coverage
  | .wildcard | .bind _ => .ok { catchAll := true }
  | .any alternatives => coverageOfList descriptor alternatives
  | .literal value =>
    (descriptor.checkNumeric (.literal value)).map fun range => { ranges := [range] }
  | .range low high inclusive =>
    (descriptor.checkNumeric (.range low high inclusive)).map fun range => { ranges := [range] }
  | .variant enum variant =>
    (descriptor.checkValues (.variant enum variant)).map fun range => { ranges := [range] }

def coverageOfList (descriptor : MatchDescriptor) : List Pattern → Except Diagnostic Coverage
  | [] => .ok {}
  | pattern :: rest => do
      let first ← pattern.coverage descriptor
      let others ← coverageOfList descriptor rest
      pure (first.union others)

end

namespace MatchDescriptor

def check (descriptor : MatchDescriptor) : Except Diagnostic Unit := do
  if descriptor.arms.isEmpty then descriptor.report .notExhaustive "match has no arms"
  else
    let coverage ← coverageOfList descriptor (descriptor.arms.map MatchArm.pattern)
    if coverage.catchAll then pure ()
    else
      match descriptor.kind with
      | .bool =>
        if coverage.covers 0 && coverage.covers 1 then pure ()
        else
          descriptor.report .notExhaustive
            "bool match must cover true and false or have a catch-all arm"
      | .enum declaration =>
        match declaration.variants.zipIdx.find? fun entry => !coverage.covers entry.2 with
        | none => pure ()
        | some (variant, _) =>
          descriptor.report .notExhaustive
            ("variant " ++ declaration.name ++ "." ++ variant ++ " not covered")
      | .int =>
        descriptor.report .notExhaustive "integer match requires a catch-all or binding arm"

end MatchDescriptor

end Backend65816

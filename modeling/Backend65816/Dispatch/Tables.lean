import Backend65816.Assembly.Listing
import Backend65816.Convention.Resolve
import Backend65816.Dispatch.Tags

/-!
# Dispatch tables

Every method of a trait has a table with one entry per tag: the method of the type with that tag, or
a trap if the type does not implement the trait. A problem in a trait or an implementation leaves
that trait out; running out of tags stops the unit.
-/

namespace Backend65816

def trapSymbol : String := "__dispatch_trap"

def tagWidth : Nat := 1

def receiverRegister : String := "y"

def indexRegister : String := "x"

/-- A field of a struct with its place. -/
structure FieldSlot where
  name : String
  type : Ty
  width : Width
  offset : Nat
deriving DecidableEq, Repr, Inhabited

/-- Layout of a struct. -/
structure Layout where
  typeName : String
  tagged : Bool
  fields : List FieldSlot
  size : Nat
deriving DecidableEq, Repr, Inhabited

def Layout.field? (layout : Layout) (name : String) : Option FieldSlot :=
  layout.fields.find? (·.name = name)

/-- The table of a method of a trait. -/
structure DispatchTable where
  name : String
  traitName : String
  method : String
  far : Bool
  entries : List String
deriving DecidableEq, Repr, Inhabited

namespace DispatchTable

def entryWidth (table : DispatchTable) : Nat := if table.far then 4 else 2

def data (table : DispatchTable) : DataTable where
  name := table.name
  kind := if table.far then .trampolines else .addresses
  width := table.entryWidth
  targets := table.entries

end DispatchTable

def dispatchTableName (traitName method : String) : String :=
  "__vt_" ++ traitName ++ "_" ++ method

/-- Dispatch information of a unit. -/
structure DispatchPlan where
  tags : Tags
  tables : List DispatchTable := []
  layouts : Named Layout := []
  far : Named Bool := []
deriving Repr

namespace DispatchPlan

def table? (plan : DispatchPlan) (traitName method : String) : Option DispatchTable :=
  plan.tables.reverse.find? fun table =>
    table.traitName ++ "." ++ table.method = traitName ++ "." ++ method

def layout? (plan : DispatchPlan) (typeName : String) : Option Layout :=
  plan.layouts.get? typeName

def isFar (plan : DispatchPlan) (traitName : String) : Bool :=
  (plan.far.get? traitName).getD false

end DispatchPlan

def reachText (far : Bool) : String := if far then "far" else "near"

namespace Dispatch

def traitReach (trait : TraitDecl) : Except Diagnostic Bool :=
  match trait.methods with
  | [] => .ok false
  | first :: rest =>
    match rest.find? (·.far != first.far) with
    | none => .ok first.far
    | some other =>
      .error (DiagnosticCode.mixedTrait.report trait.name
        ("methods " ++ first.name ++ " and " ++ other.name ++ " disagree on near/far"))

def mismatch (impl : ImplDecl) (message : String) : Diagnostic :=
  DiagnosticCode.implMismatch.report impl.typeName ("impl " ++ impl.traitName ++ ": " ++ message)

def checkParams (impl : ImplDecl) (method : String) : List Param → List Param →
    Except Diagnostic Unit
  | declared :: rest, given :: others =>
    if given.binding ≠ declared.binding ∨ given.type ≠ declared.type then
      .error (mismatch impl
        ("method " ++ method ++ " parameter " ++ declared.name ++
          " differs from the trait declaration"))
    else if declared.binding = .register indexRegister then
      .error (mismatch impl
        ("method " ++ method ++ " parameter " ++ declared.name ++ ": " ++ indexRegister ++
          " is reserved for the dispatch index"))
    else checkParams impl method rest others
  | _, _ => .ok ()

def checkReturns (impl : ImplDecl) (method : String) (declared given : List ReturnDecl) :
    Except Diagnostic Unit :=
  match (declared.zip given).findIdx? fun pair => pair.2 ≠ pair.1 with
  | none => .ok ()
  | some index =>
    .error (mismatch impl
      ("method " ++ method ++ " return " ++ toString index ++
        " differs from the trait declaration"))

def checkMethod (impl : ImplDecl) (declared : MethodDecl) (given : FunctionDecl) :
    Except Diagnostic Unit :=
  let reject (message : String) : Except Diagnostic Unit :=
    .error (mismatch impl ("method " ++ declared.name ++ " " ++ message))
  if given.far ≠ declared.far then reject ("must be " ++ reachText declared.far)
  else if given.params.length ≠ declared.params.length + 1 then
    reject ("takes " ++ toString ((given.params.length : Int) - 1) ++
      " parameters besides the receiver, trait declares " ++ toString declared.params.length)
  else if given.returns.length ≠ declared.returns.length then
    reject ("returns " ++ toString given.returns.length ++ " values, trait declares " ++
      toString declared.returns.length)
  else if (given.params.head?.map Param.binding) ≠ some (.register receiverRegister) then
    reject ("must take its receiver in " ++ receiverRegister)
  else do
    checkParams impl declared.name declared.params (given.params.drop 1)
    checkReturns impl declared.name declared.returns given.returns

/-- Checks the methods of a trait against the methods that are left, and gives those that are left
over. A method counts once. -/
def checkMethods (impl : ImplDecl) : List MethodDecl → Named FunctionDecl →
    Except Diagnostic (Named FunctionDecl)
  | [], left => .ok left
  | declared :: rest, left =>
    match left.get? declared.name with
    | none => .error (mismatch impl ("missing method " ++ declared.name))
    | some given => do
        checkMethod impl declared given
        checkMethods impl rest (left.erase declared.name)

def checkImpl (trait : TraitDecl) (impl : ImplDecl) : Except Diagnostic Unit := do
  let methods := impl.methods.foldl
    (fun (named : Named FunctionDecl) method => named.put method.name method) []
  let left ← checkMethods impl trait.methods methods
  match impl.methods.find? fun method => left.has method.name with
  | none => .ok ()
  | some extra => .error (mismatch impl ("method " ++ extra.name ++ " is not part of the trait"))

def implKey (traitName typeName : String) : String := traitName ++ "/" ++ typeName

/-- What is known after some of the declarations. -/
structure Progress where
  tags : Tags
  far : Named Bool := []
  bad : List String := []
  seen : List String := []
  decidedBy : Named String := []
  problems : List Diagnostic := []

namespace Progress

def reject (progress : Progress) (problem : Diagnostic) (traitName : String) : Progress :=
  { progress with
    problems := progress.problems ++ [problem]
    bad := traitName :: progress.bad }

def isFar (progress : Progress) (traitName : String) : Bool :=
  (progress.far.get? traitName).getD false

def addTrait (progress : Progress) (trait : TraitDecl) : Progress :=
  match traitReach trait with
  | .ok far => { progress with far := progress.far.put trait.name far }
  | .error problem => progress.reject problem trait.name

def tagType (progress : Progress) (typeName : String) : Except (Diagnostic × Tags) Progress :=
  match progress.tags.assign typeName with
  | .ok (_, tags) => .ok { progress with tags }
  | .error problem => .error (problem, progress.tags)

def addImpl (unit : CompilationUnit) (progress : Progress) (impl : ImplDecl) :
    Except (Diagnostic × Tags) Progress :=
  match unit.findTrait? impl.traitName with
  | none =>
    let problem := DiagnosticCode.unknownTrait.report impl.typeName
      ("impl of unknown trait " ++ impl.traitName)
    .ok { progress with problems := progress.problems ++ [problem] }
  | some trait =>
    if (unit.findStruct? impl.typeName).isNone then
      .ok (progress.reject
        (DiagnosticCode.implMismatch.report impl.typeName
          ("impl " ++ impl.traitName ++ " for " ++ impl.typeName ++ ": not a struct type"))
        impl.traitName)
    else
      let key := implKey impl.traitName impl.typeName
      if progress.seen.contains key then
        .ok (progress.reject
          (DiagnosticCode.implMismatch.report impl.typeName
            (impl.traitName ++ " implemented twice"))
          impl.traitName)
      else
        let noted := { progress with seen := key :: progress.seen }
        match checkImpl trait impl with
        | .error problem => .ok (noted.reject problem impl.traitName)
        | .ok () =>
          if noted.bad.contains trait.name then noted.tagType impl.typeName
          else
            match noted.decidedBy.get? impl.typeName with
            | some earlier =>
              if noted.isFar earlier ≠ noted.isFar trait.name then
                .ok (noted.reject
                  (DiagnosticCode.mixedImpl.report impl.typeName
                    ("implements near and far traits (" ++ earlier ++ ", " ++ trait.name ++
                      ")"))
                  trait.name)
              else
                { noted with
                  decidedBy := noted.decidedBy.put impl.typeName trait.name }.tagType
                  impl.typeName
            | none =>
              { noted with
                decidedBy := noted.decidedBy.put impl.typeName trait.name }.tagType
                impl.typeName

end Progress

def placeFields (unit : CompilationUnit) (structName : String) : Nat → List FieldDecl →
    Except Diagnostic (List FieldSlot × Nat)
  | offset, [] => .ok ([], offset)
  | offset, member :: rest =>
    match unit.width? member.type with
    | none =>
      .error (DiagnosticCode.malformed.report structName
        ("field " ++ member.name ++ ": unsupported type " ++ member.type.text))
    | some width => do
        let (placed, size) ← placeFields unit structName (offset + width.bytes) rest
        pure ({ name := member.name, type := member.type, width, offset } :: placed, size)

def layoutStruct (unit : CompilationUnit) (tags : Tags) (struct : StructDecl) :
    Except Diagnostic Layout := do
  let tagged := (tags.tag? struct.name).isSome
  let (fields, size) ← placeFields unit struct.name (if tagged then tagWidth else 0) struct.fields
  pure { typeName := struct.name, tagged, fields, size }

def tableEntry (seen : List String) (traitName method typeName : String) : String :=
  if seen.contains (implKey traitName typeName) then methodSymbol typeName traitName method
  else trapSymbol

def traitTables (progress : Progress) (trait : TraitDecl) : List DispatchTable :=
  if progress.bad.contains trait.name then []
  else
    trait.methods.map fun method =>
      { name := dispatchTableName trait.name method.name
        traitName := trait.name
        method := method.name
        far := progress.isFar trait.name
        entries :=
          trapSymbol :: progress.tags.types.map (tableEntry progress.seen trait.name method.name) }

/-- Builds the dispatch information of a unit, with the problems found on the way in report order.
An overflow comes with the tags given so far. -/
def build (unit : CompilationUnit) (limit : Int) :
    Except (Diagnostic × Tags) (DispatchPlan × List Diagnostic) := do
  let traits := unit.traits.foldl Progress.addTrait { tags := { limit } }
  let progress ← unit.impls.foldlM (Progress.addImpl unit) traits
  let (layouts, problems) := unit.structs.foldl
    (fun (state : Named Layout × List Diagnostic) struct =>
      match layoutStruct unit progress.tags struct with
      | .ok layout => (state.1.put struct.name layout, state.2)
      | .error problem => (state.1, state.2 ++ [problem]))
    ([], progress.problems)
  pure (
    { tags := progress.tags
      tables := unit.traits.flatMap (traitTables progress)
      layouts
      far := progress.far },
    Diagnostic.sorted problems)

end Dispatch

end Backend65816

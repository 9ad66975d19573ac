import Backend65816.Source.Tree

/-!
# Declarations

A compilation unit lists its enums, structs, traits, implementations, globals and functions in the
order of declaration. Names are looked up by first occurrence.
-/

namespace Backend65816

/-- An enumeration; the value of a variant is its index. -/
structure EnumDecl where
  name : String := ""
  variants : List String := []
deriving DecidableEq, Repr, Inhabited

def EnumDecl.variantIndex? (enum : EnumDecl) (variant : String) : Option Nat :=
  enum.variants.findIdx? (· = variant)

/-- A member of a struct. -/
structure FieldDecl where
  name : String := ""
  type : Ty := .unspecified
deriving DecidableEq, Repr, Inhabited

/-- An aggregate type. -/
structure StructDecl where
  name : String := ""
  fields : List FieldDecl := []
deriving DecidableEq, Repr, Inhabited

/-- How a parameter or a return value is passed. -/
inductive Binding where
  | stack
  | register (name : String)
  | symbol (name : String)
deriving DecidableEq, Repr, Inhabited

/-- A parameter. -/
structure Param where
  name : String := ""
  type : Ty := .unspecified
  binding : Binding := .stack
deriving DecidableEq, Repr, Inhabited

/-- One value of a return signature. -/
structure ReturnDecl where
  type : Ty := .unspecified
  binding : Binding := .stack
deriving DecidableEq, Repr, Inhabited

/-- A method of a trait. The receiver is the first parameter of every implementation and is not
listed here. -/
structure MethodDecl where
  name : String := ""
  far : Bool := false
  params : List Param := []
  returns : List ReturnDecl := []
deriving DecidableEq, Repr, Inhabited

/-- An interface whose methods are called through tables. -/
structure TraitDecl where
  name : String := ""
  methods : List MethodDecl := []
deriving DecidableEq, Repr, Inhabited

/-- A variable of the unit, at a fixed address if one is given. -/
structure GlobalDecl where
  name : String := ""
  type : Ty := .unspecified
  address : Option Int := none
  bank : Int := 0
deriving DecidableEq, Repr, Inhabited

/-- A function. -/
structure FunctionDecl where
  name : String := ""
  bank : Int := 0
  far : Bool := false
  noReturn : Bool := false
  params : List Param := []
  returns : List ReturnDecl := []
  preserve : List String := []
  dataBank : String := ""
  interrupt : String := ""
  body : Block := default
deriving Inhabited

/-- The implementation of a trait for a struct. -/
structure ImplDecl where
  traitName : String := ""
  typeName : String := ""
  methods : List FunctionDecl := []
deriving Inhabited

/-- A compilation unit. -/
structure CompilationUnit where
  name : String := ""
  enums : List EnumDecl := []
  structs : List StructDecl := []
  traits : List TraitDecl := []
  impls : List ImplDecl := []
  globals : List GlobalDecl := []
  functions : List FunctionDecl := []
deriving Inhabited

namespace CompilationUnit

def findFunction? (unit : CompilationUnit) (name : String) : Option FunctionDecl :=
  unit.functions.find? (·.name = name)

def findEnum? (unit : CompilationUnit) (name : String) : Option EnumDecl :=
  unit.enums.find? (·.name = name)

def findStruct? (unit : CompilationUnit) (name : String) : Option StructDecl :=
  unit.structs.find? (·.name = name)

def findTrait? (unit : CompilationUnit) (name : String) : Option TraitDecl :=
  unit.traits.find? (·.name = name)

def findGlobal? (unit : CompilationUnit) (name : String) : Option GlobalDecl :=
  unit.globals.find? (·.name = name)

end CompilationUnit

def methodSymbol (typeName traitName method : String) : String :=
  typeName ++ "__" ++ traitName ++ "__" ++ method

/-- Functions of a unit under their symbols: first those declared on their own, then the methods of
implementations. -/
def CompilationUnit.symbols (unit : CompilationUnit) : List (String × FunctionDecl) :=
  unit.functions.map (fun function => (function.name, function)) ++
    unit.impls.flatMap fun impl =>
      impl.methods.map fun method =>
        (methodSymbol impl.typeName impl.traitName method.name, method)

end Backend65816

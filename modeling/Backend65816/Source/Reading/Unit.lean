import Backend65816.Source.Reading.Body

/-!
# Reading units from documents

Declarations are records of a fixed form, read over empty ones. The body of a function stays a node
until all declarations are read, so a problem in a declaration comes before one in a body. The
bodies of implementations come before those of functions.
-/

namespace Backend65816

open Document (Node Shape)

namespace Reading

/-- A function whose body is not read yet. -/
structure FunctionOutline where
  declaration : FunctionDecl := {}
  bodyNode : Option Node := none

/-- An implementation whose bodies are not read yet. -/
structure ImplOutline where
  traitName : String := ""
  typeName : String := ""
  methods : List FunctionOutline := []

/-- A unit whose bodies are not read yet. -/
structure UnitOutline where
  declarations : CompilationUnit := {}
  impls : List ImplOutline := []
  functions : List FunctionOutline := []

def setEnumField (key : String) (enum : EnumDecl) (node : Node) : Shape EnumDecl := do
  match key with
  | "name" =>
    let name ← Document.readText enum.name node
    pure { enum with name }
  | "variants" =>
    let variants ← Document.readList "[]string" Document.readTextItem node
    pure { enum with variants }
  | _ => pure enum

def setMemberField (key : String) (member : FieldDecl) (node : Node) : Shape FieldDecl := do
  match key with
  | "name" =>
    let name ← Document.readText member.name node
    pure { member with name }
  | "type" =>
    let type ← Document.readTextAs "ast.Type" member.type.text node
    pure { member with type := .ofText type }
  | _ => pure member

def setStructField (key : String) (struct : StructDecl) (node : Node) : Shape StructDecl := do
  match key with
  | "name" =>
    let name ← Document.readText struct.name node
    pure { struct with name }
  | "fields" =>
    let fields ← Document.readList "[]*ast.Field"
      (Document.readRecord "ast.Field" {} setMemberField) node
    pure { struct with fields }
  | _ => pure struct

/-- A parameter or return value as it is written. -/
structure BindingOutline where
  name : String := ""
  type : String := ""
  register : String := ""
  symbol : String := ""
  stack : Bool := false

def BindingOutline.binding (outline : BindingOutline) : Binding :=
  if outline.register ≠ "" then .register outline.register
  else if outline.symbol ≠ "" then .symbol outline.symbol
  else .stack

def BindingOutline.param (outline : BindingOutline) : Param :=
  { name := outline.name, type := .ofText outline.type, binding := outline.binding }

def BindingOutline.result (outline : BindingOutline) : ReturnDecl :=
  { type := .ofText outline.type, binding := outline.binding }

def setBindingField (key : String) (outline : BindingOutline) (node : Node) :
    Shape BindingOutline := do
  match key with
  | "name" =>
    let name ← Document.readText outline.name node
    pure { outline with name }
  | "type" =>
    let type ← Document.readText outline.type node
    pure { outline with type }
  | "reg" =>
    let register ← Document.readText outline.register node
    pure { outline with register }
  | "var" =>
    let symbol ← Document.readText outline.symbol node
    pure { outline with symbol }
  | "stack" =>
    let stack ← Document.readBool outline.stack node
    pure { outline with stack }
  | _ => pure outline

def readBindings (node : Node) : Shape (List BindingOutline) :=
  Document.readList "[]ast.bindingDoc"
    (Document.readRecord "ast.bindingDoc" {} setBindingField) node

def setMethodField (key : String) (method : MethodDecl) (node : Node) : Shape MethodDecl := do
  match key with
  | "name" =>
    let name ← Document.readText method.name node
    pure { method with name }
  | "far" =>
    let far ← Document.readBool method.far node
    pure { method with far }
  | "params" =>
    let bindings ← readBindings node
    pure { method with params := bindings.map BindingOutline.param }
  | "returns" =>
    let bindings ← readBindings node
    pure { method with returns := bindings.map BindingOutline.result }
  | _ => pure method

def setTraitField (key : String) (trait : TraitDecl) (node : Node) : Shape TraitDecl := do
  match key with
  | "name" =>
    let name ← Document.readText trait.name node
    pure { trait with name }
  | "methods" =>
    let methods ← Document.readList "[]ast.methodDoc"
      (Document.readRecord "ast.methodDoc" {} setMethodField) node
    pure { trait with methods }
  | _ => pure trait

def setGlobalField (key : String) (global : GlobalDecl) (node : Node) : Shape GlobalDecl := do
  match key with
  | "name" =>
    let name ← Document.readText global.name node
    pure { global with name }
  | "type" =>
    let type ← Document.readText global.type.text node
    pure { global with type := .ofText type }
  | "address" =>
    let address ← Document.readOptionalWord global.address node
    pure { global with address }
  | "bank" =>
    let bank ← Document.readWord global.bank node
    pure { global with bank }
  | _ => pure global

def setDeclarationField (key : String) (function : FunctionDecl) (node : Node) :
    Shape FunctionDecl := do
  match key with
  | "name" =>
    let name ← Document.readText function.name node
    pure { function with name }
  | "bank" =>
    let bank ← Document.readWord function.bank node
    pure { function with bank }
  | "far" =>
    let far ← Document.readBool function.far node
    pure { function with far }
  | "noreturn" =>
    let noReturn ← Document.readBool function.noReturn node
    pure { function with noReturn }
  | "params" =>
    let bindings ← readBindings node
    pure { function with params := bindings.map BindingOutline.param }
  | "returns" =>
    let bindings ← readBindings node
    pure { function with returns := bindings.map BindingOutline.result }
  | "preserve" =>
    let preserve ← Document.readList "[]string" Document.readTextItem node
    pure { function with preserve }
  | "databank" =>
    let dataBank ← Document.readText function.dataBank node
    pure { function with dataBank }
  | "interrupt" =>
    let interrupt ← Document.readText function.interrupt node
    pure { function with interrupt }
  | _ => pure function

def setFunctionField (key : String) (outline : FunctionOutline) (node : Node) :
    Shape FunctionOutline := do
  if key = "body" then pure { outline with bodyNode := some node }
  else
    let declaration ← setDeclarationField key outline.declaration node
    pure { outline with declaration }

def readFunctions (node : Node) : Shape (List FunctionOutline) :=
  Document.readList "[]ast.functionDoc"
    (Document.readRecord "ast.functionDoc" {} setFunctionField) node

def setImplField (key : String) (impl : ImplOutline) (node : Node) : Shape ImplOutline := do
  match key with
  | "trait" =>
    let traitName ← Document.readText impl.traitName node
    pure { impl with traitName }
  | "type" =>
    let typeName ← Document.readText impl.typeName node
    pure { impl with typeName }
  | "methods" =>
    let methods ← readFunctions node
    pure { impl with methods }
  | _ => pure impl

def setUnitField (key : String) (unit : UnitOutline) (node : Node) : Shape UnitOutline := do
  let declarations := unit.declarations
  match key with
  | "name" =>
    let name ← Document.readText declarations.name node
    pure { unit with declarations := { declarations with name } }
  | "enums" =>
    let enums ← Document.readList "[]*ast.Enum"
      (Document.readRecord "ast.Enum" {} setEnumField) node
    pure { unit with declarations := { declarations with enums } }
  | "structs" =>
    let structs ← Document.readList "[]*ast.Struct"
      (Document.readRecord "ast.Struct" {} setStructField) node
    pure { unit with declarations := { declarations with structs } }
  | "traits" =>
    let traits ← Document.readList "[]ast.traitDoc"
      (Document.readRecord "ast.traitDoc" {} setTraitField) node
    pure { unit with declarations := { declarations with traits } }
  | "globals" =>
    let globals ← Document.readList "[]ast.globalDoc"
      (Document.readRecord "ast.globalDoc" {} setGlobalField) node
    pure { unit with declarations := { declarations with globals } }
  | "impls" =>
    let impls ← Document.readList "[]ast.implDoc"
      (Document.readRecord "ast.implDoc" {} setImplField) node
    pure { unit with impls }
  | "functions" =>
    let functions ← readFunctions node
    pure { unit with functions }
  | _ => pure unit

end Reading

/-- A document that gives no unit. -/
inductive UnitError where
  | unreadable (error : Document.ReadError)
  | misshapen (problems : List Document.ShapeProblem)
  | functionBody (function : String) (error : BodyError)
  | methodBody (traitName typeName method : String) (error : BodyError)

def UnitError.text : UnitError → String
  | unreadable error => "decoding unit: " ++ error.text
  | misshapen problems => "decoding unit: " ++ Document.problemsText problems
  | functionBody function error => "function " ++ function ++ ": " ++ error.text
  | methodBody traitName typeName method error =>
    "impl " ++ traitName ++ " for " ++ typeName ++ ": function " ++ method ++ ": " ++ error.text

namespace Reading

def FunctionOutline.function (outline : FunctionOutline) : Except BodyError FunctionDecl := do
  let statements ← body outline.bodyNode
  pure { outline.declaration with body := statements }

def ImplOutline.impl (outline : ImplOutline) : Except UnitError ImplDecl := do
  let methods ← outline.methods.mapM fun method =>
    method.function.mapError
      (.methodBody outline.traitName outline.typeName method.declaration.name)
  pure { traitName := outline.traitName, typeName := outline.typeName, methods }

def UnitOutline.unit (outline : UnitOutline) : Except UnitError CompilationUnit := do
  let impls ← outline.impls.mapM ImplOutline.impl
  let functions ← outline.functions.mapM fun function =>
    function.function.mapError (.functionBody function.declaration.name)
  pure { outline.declarations with impls, functions }

end Reading

def CompilationUnit.parse (text : String) : Except UnitError CompilationUnit := do
  let document ← (Document.read text).mapError .unreadable
  let outline ←
    match document with
    | none => pure {}
    | some node =>
      ((Document.readRecord "ast.unitDoc" ({} : Reading.UnitOutline) Reading.setUnitField
        node).finish.map fun record => record.getD {}).mapError .misshapen
  outline.unit

end Backend65816

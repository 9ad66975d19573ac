import Backend65816.Source.Tree

/-!
# Visiting syntax trees

The nodes of a tree in the order of evaluation, parents before their children. Patterns are not
nodes. Every question about a whole body, such as what it assigns or calls, is a filter of this
list.
-/

namespace Backend65816

/-- A node that is visited. -/
inductive SyntaxNode where
  | block (body : Block)
  | statement (statement : Stmt)
  | expression (expression : Expr)

mutual

def Expr.nodes : Expr → List SyntaxNode
  | .int value type => [.expression (.int value type)]
  | .bool value => [.expression (.bool value)]
  | .name name => [.expression (.name name)]
  | .variant enum variant => [.expression (.variant enum variant)]
  | .binary operator left right =>
    .expression (.binary operator left right) :: (left.nodes ++ right.nodes)
  | .unary operator operand => .expression (.unary operator operand) :: operand.nodes
  | .call function arguments =>
    .expression (.call function arguments) :: nodesOfExprs arguments
  | .method receiver traitName method arguments =>
    .expression (.method receiver traitName method arguments) ::
      (receiver.nodes ++ nodesOfExprs arguments)
  | .field object field => .expression (.field object field) :: object.nodes
  | .conditional condition thenBlock otherwise =>
    .expression (.conditional condition thenBlock otherwise) ::
      (condition.nodes ++ thenBlock.nodes ++ nodesOfOption otherwise)
  | .block body => .expression (.block body) :: body.nodes
  | .loop label body => .expression (.loop label body) :: body.nodes
  | .select scrutinee arms =>
    .expression (.select scrutinee arms) :: (scrutinee.nodes ++ nodesOfArms arms)
  | .cast operand type => .expression (.cast operand type) :: operand.nodes
  | .isType object typeName => .expression (.isType object typeName) :: object.nodes
  | .tagOf object => .expression (.tagOf object) :: object.nodes

def nodesOfExprs : List Expr → List SyntaxNode
  | [] => []
  | expression :: rest => expression.nodes ++ nodesOfExprs rest

def nodesOfOption : Option Expr → List SyntaxNode
  | none => []
  | some expression => expression.nodes

def nodesOfArms : List Arm → List SyntaxNode
  | [] => []
  | arm :: rest => nodesOfArm arm ++ nodesOfArms rest

def nodesOfArm : Arm → List SyntaxNode
  | .mk _ body => body.nodes

def Stmt.nodes : Stmt → List SyntaxNode
  | .block body => body.nodes
  | .bind names type init address =>
    .statement (.bind names type init address) :: nodesOfOption init
  | .assign target value => .statement (.assign target value) :: (target.nodes ++ value.nodes)
  | .expr expression => .statement (.expr expression) :: expression.nodes
  | .conditional condition thenBlock otherwise =>
    .statement (.conditional condition thenBlock otherwise) ::
      (condition.nodes ++ thenBlock.nodes ++ otherwise.nodes)
  | .loop label body => .statement (.loop label body) :: body.nodes
  | .whileLoop label condition body =>
    .statement (.whileLoop label condition body) :: (condition.nodes ++ body.nodes)
  | .forLoop label counter type first last inclusive body =>
    .statement (.forLoop label counter type first last inclusive body) ::
      (first.nodes ++ last.nodes ++ body.nodes)
  | .leave label value => .statement (.leave label value) :: nodesOfOption value
  | .proceed label => [.statement (.proceed label)]
  | .giveBack values => .statement (.giveBack values) :: nodesOfExprs values

def Otherwise.nodes : Otherwise → List SyntaxNode
  | .nothing => []
  | .block body => body.nodes
  | .conditional condition thenBlock otherwise =>
    .statement (.conditional condition thenBlock otherwise) ::
      (condition.nodes ++ thenBlock.nodes ++ otherwise.nodes)

def nodesOfStmts : List Stmt → List SyntaxNode
  | [] => []
  | statement :: rest => statement.nodes ++ nodesOfStmts rest

def Block.nodes : Block → List SyntaxNode
  | .mk statements tail =>
    .block (.mk statements tail) :: (nodesOfStmts statements ++ nodesOfOption tail)

end

def Expr.kindName : Expr → String
  | int _ _ => "IntLit"
  | bool _ => "BoolLit"
  | name _ => "Name"
  | variant _ _ => "Variant"
  | binary _ _ _ => "Binary"
  | unary _ _ => "Unary"
  | call _ _ => "Call"
  | method _ _ _ _ => "MethodCall"
  | field _ _ => "FieldExpr"
  | conditional _ _ _ => "IfExpr"
  | block _ => "BlockExpr"
  | loop _ _ => "LoopExpr"
  | select _ _ => "Match"
  | cast _ _ => "Cast"
  | isType _ _ => "Is"
  | tagOf _ => "TagOf"

def Stmt.kindName : Stmt → String
  | block _ => "Block"
  | bind _ _ _ _ => "Let"
  | assign _ _ => "Assign"
  | expr _ => "ExprStmt"
  | conditional _ _ _ => "If"
  | loop _ _ => "Loop"
  | whileLoop _ _ _ => "While"
  | forLoop _ _ _ _ _ _ _ => "For"
  | leave _ _ => "Break"
  | proceed _ => "Continue"
  | giveBack _ => "ReturnStmt"

def SyntaxNode.kindName : SyntaxNode → String
  | block _ => "Block"
  | statement node => node.kindName
  | expression node => node.kindName

def Block.topNodes (block : Block) : List SyntaxNode :=
  .block block ::
    (block.statements.map SyntaxNode.statement ++ block.tail.toList.map SyntaxNode.expression)

def SyntaxNode.assigned? : SyntaxNode → Option String
  | .statement (.assign (.name name) _) => some name
  | _ => none

def SyntaxNode.call? : SyntaxNode → Option (String × List Expr)
  | .expression (.call function arguments) => some (function, arguments)
  | _ => none

def assignedNames (expressions : List Expr) : List String :=
  (nodesOfExprs expressions).filterMap SyntaxNode.assigned?

end Backend65816

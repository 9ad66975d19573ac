import Backend65816.Flow.Operator
import Backend65816.Source.Ty

/-!
# Syntax trees

Statements, expressions and patterns of a function body. A block is a list of statements with an
optional value at its end. Operators keep their text when they are unknown, so that the error can
name them.
-/

namespace Backend65816

/-- Binary operators of the source language. -/
inductive BinaryOp where
  | arithmetic (kind : BinKind)
  | routine (kind : RoutineKind)
  | compare (condition : Cond)
  | and
  | or
  | unknown (text : String)
deriving DecidableEq, Repr, Inhabited

namespace BinaryOp

def ofText (text : String) : BinaryOp :=
  match text with
  | "+" => arithmetic .add
  | "-" => arithmetic .sub
  | "&" => arithmetic .and
  | "|" => arithmetic .or
  | "^" => arithmetic .xor
  | "<<" => arithmetic .shl
  | ">>" => arithmetic .shr
  | "*" => routine .mul
  | "/" => routine .div
  | "%" => routine .mod
  | "==" => compare .eq
  | "!=" => compare .ne
  | "<" => compare .lt
  | "<=" => compare .le
  | ">" => compare .gt
  | ">=" => compare .ge
  | "&&" => and
  | "||" => or
  | _ => unknown text

def text : BinaryOp → String
  | arithmetic .add => "+"
  | arithmetic .sub => "-"
  | arithmetic .and => "&"
  | arithmetic .or => "|"
  | arithmetic .xor => "^"
  | arithmetic .shl => "<<"
  | arithmetic .shr | arithmetic .sar => ">>"
  | routine .mul => "*"
  | routine .div => "/"
  | routine .mod => "%"
  | compare condition => condition.text
  | and => "&&"
  | or => "||"
  | unknown text => text

end BinaryOp

/-- Unary operators of the source language. -/
inductive UnaryOp where
  | negate
  | complement
  | not
  | unknown (text : String)
deriving DecidableEq, Repr, Inhabited

namespace UnaryOp

def ofText (text : String) : UnaryOp :=
  match text with
  | "-" => negate
  | "~" => complement
  | "!" => not
  | _ => unknown text

def text : UnaryOp → String
  | negate => "-"
  | complement => "~"
  | not => "!"
  | unknown text => text

end UnaryOp

/-- Patterns of a match. -/
inductive Pattern where
  | literal (value : Int)
  | variant (enum variant : String)
  | range (low high : Int) (inclusive : Bool)
  | any (alternatives : List Pattern)
  | wildcard
  | bind (name : String)
deriving Repr, Inhabited

mutual

/-- Expressions. -/
inductive Expr where
  | int (value : Int) (type : Ty)
  | bool (value : Bool)
  | name (name : String)
  | variant (enum variant : String)
  | binary (operator : BinaryOp) (left right : Expr)
  | unary (operator : UnaryOp) (operand : Expr)
  | call (function : String) (arguments : List Expr)
  | method (receiver : Expr) (traitName method : String) (arguments : List Expr)
  | field (object : Expr) (field : String)
  | conditional (condition : Expr) (thenBlock : Block) (otherwise : Option Expr)
  | block (body : Block)
  | loop (label : String) (body : Block)
  | select (scrutinee : Expr) (arms : List Arm)
  | cast (operand : Expr) (type : Ty)
  | isType (object : Expr) (typeName : String)
  | tagOf (object : Expr)

/-- A pattern with its outcome. -/
inductive Arm where
  | mk (pattern : Pattern) (body : Expr)

/-- Statements. -/
inductive Stmt where
  | block (body : Block)
  | bind (names : List String) (type : Ty) (init : Option Expr) (address : Option Int)
  | assign (target value : Expr)
  | expr (expression : Expr)
  | conditional (condition : Expr) (thenBlock : Block) (otherwise : Otherwise)
  | loop (label : String) (body : Block)
  | whileLoop (label : String) (condition : Expr) (body : Block)
  | forLoop (label counter : String) (type : Ty) (first last : Expr) (inclusive : Bool)
      (body : Block)
  | leave (label : String) (value : Option Expr)
  | proceed (label : String)
  | giveBack (values : List Expr)

/-- The else side of a conditional statement. -/
inductive Otherwise where
  | nothing
  | block (body : Block)
  | conditional (condition : Expr) (thenBlock : Block) (otherwise : Otherwise)

/-- A block of statements. -/
inductive Block where
  | mk (statements : List Stmt) (tail : Option Expr)

end

instance : Inhabited Expr := ⟨.bool false⟩
instance : Inhabited Block := ⟨.mk [] none⟩
instance : Inhabited Stmt := ⟨.block default⟩
instance : Inhabited Otherwise := ⟨.nothing⟩
instance : Inhabited Arm := ⟨.mk .wildcard default⟩

def Arm.pattern : Arm → Pattern
  | mk pattern _ => pattern

def Arm.body : Arm → Expr
  | mk _ body => body

def Block.statements : Block → List Stmt
  | mk statements _ => statements

def Block.tail : Block → Option Expr
  | mk _ tail => tail

def Expr.literal? : Expr → Option (Int × Ty)
  | int value type => some (value, type)
  | _ => none

end Backend65816

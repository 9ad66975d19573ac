/-!
# Operators of the block graph

Conditions compare unsigned values. Arithmetic works modulo the width of the result.
-/

namespace Backend65816

/-- An unsigned comparison. -/
inductive Cond where
  | eq
  | ne
  | lt
  | ge
  | le
  | gt
deriving DecidableEq, Repr, Inhabited

namespace Cond

def text : Cond → String
  | eq => "=="
  | ne => "!="
  | lt => "<"
  | ge => ">="
  | le => "<="
  | gt => ">"

def ofText? (text : String) : Option Cond :=
  match text with
  | "==" => some eq
  | "!=" => some ne
  | "<" => some lt
  | ">=" => some ge
  | "<=" => some le
  | ">" => some gt
  | _ => none

def negate : Cond → Cond
  | eq => ne
  | ne => eq
  | lt => ge
  | ge => lt
  | le => gt
  | gt => le

def swap : Cond → Cond
  | eq => eq
  | ne => ne
  | lt => gt
  | gt => lt
  | le => ge
  | ge => le

def eval (condition : Cond) (left right : Int) : Bool :=
  match condition with
  | eq => left = right
  | ne => left ≠ right
  | lt => left < right
  | ge => left ≥ right
  | le => left ≤ right
  | gt => left > right

def isEquality : Cond → Bool
  | eq | ne => true
  | lt | ge | le | gt => false

theorem eval_negate (condition : Cond) (left right : Int) :
    condition.negate.eval left right = !condition.eval left right := by
  cases condition <;> grind [negate, eval]

theorem eval_swap (condition : Cond) (left right : Int) :
    condition.swap.eval right left = condition.eval left right := by
  cases condition <;> simp [swap, eval, eq_comm]

end Cond

/-- Binary operations. -/
inductive BinKind where
  | add
  | sub
  | and
  | or
  | xor
  | shl
  | shr
  | sar
deriving DecidableEq, Repr, Inhabited

namespace BinKind

def text : BinKind → String
  | add => "add"
  | sub => "sub"
  | and => "and"
  | or => "or"
  | xor => "xor"
  | shl => "shl"
  | shr => "shr"
  | sar => "sar"

def ofText? (text : String) : Option BinKind :=
  match text with
  | "add" => some add
  | "sub" => some sub
  | "and" => some and
  | "or" => some or
  | "xor" => some xor
  | "shl" => some shl
  | "shr" => some shr
  | "sar" => some sar
  | _ => none

def isCommutative : BinKind → Bool
  | add | and | or | xor => true
  | sub | shl | shr | sar => false

def isShift : BinKind → Bool
  | shl | shr | sar => true
  | add | sub | and | or | xor => false

def isBitwise : BinKind → Bool
  | and | or | xor => true
  | add | sub | shl | shr | sar => false

end BinKind

/-- Operations of a routine that is called for them. -/
inductive RoutineKind where
  | mul
  | div
  | mod
deriving DecidableEq, Repr, Inhabited

def RoutineKind.text : RoutineKind → String
  | mul => "mul"
  | div => "div"
  | mod => "mod"

/-- Unary operations. -/
inductive UnKind where
  | neg
  | not
  | cpl
deriving DecidableEq, Repr, Inhabited

namespace UnKind

def text : UnKind → String
  | neg => "neg"
  | not => "not"
  | cpl => "cpl"

def ofText? (text : String) : Option UnKind :=
  match text with
  | "neg" => some neg
  | "not" => some not
  | "cpl" => some cpl
  | _ => none

end UnKind

end Backend65816

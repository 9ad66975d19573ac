/-!
# Hardware registers

The four registers that can hold a program value: the accumulator `a`, its high half `b`, and the
index registers `x` and `y`. A set of them is four bits, so sets are equal when their members are.
-/

namespace Backend65816

/-- A hardware register that can hold a program value. -/
inductive Reg where
  | a
  | b
  | x
  | y
deriving DecidableEq, Repr, Inhabited

namespace Reg

def name : Reg → String
  | a => "a"
  | b => "b"
  | x => "x"
  | y => "y"

def nameOrNone : Option Reg → String
  | some register => register.name
  | none => "?"

def ofName? (text : String) : Option Reg :=
  match text with
  | "a" | "A" => some a
  | "b" | "B" => some b
  | "x" | "X" => some x
  | "y" | "Y" => some y
  | _ => none

def isIndex : Reg → Bool
  | x | y => true
  | a | b => false

def all : List Reg := [a, x, y, b]

end Reg

/-- A set of hardware registers. -/
structure RegMask where
  hasA : Bool
  hasB : Bool
  hasX : Bool
  hasY : Bool
deriving DecidableEq, Repr, Inhabited

namespace RegMask

def empty : RegMask := ⟨false, false, false, false⟩

def full : RegMask := ⟨true, true, true, true⟩

def has (mask : RegMask) : Reg → Bool
  | .a => mask.hasA
  | .b => mask.hasB
  | .x => mask.hasX
  | .y => mask.hasY

def single (register : Reg) : RegMask :=
  ⟨register == .a, register == .b, register == .x, register == .y⟩

def union (left right : RegMask) : RegMask :=
  ⟨left.hasA || right.hasA, left.hasB || right.hasB, left.hasX || right.hasX,
    left.hasY || right.hasY⟩

def complement (mask : RegMask) : RegMask := ⟨!mask.hasA, !mask.hasB, !mask.hasX, !mask.hasY⟩

def insert (mask : RegMask) (register : Reg) : RegMask := mask.union (single register)

def ofList (registers : List Reg) : RegMask := registers.foldl insert empty

def toList (mask : RegMask) : List Reg := Reg.all.filter mask.has

def text (mask : RegMask) : String :=
  "\x7b" ++ String.intercalate "," (mask.toList.map Reg.name) ++ "\x7d"

def bits (mask : RegMask) : Nat :=
  2 * mask.hasA.toNat + 4 * mask.hasB.toNat + 8 * mask.hasX.toNat + 16 * mask.hasY.toNat

@[simp] theorem has_union (left right : RegMask) (register : Reg) :
    (left.union right).has register = (left.has register || right.has register) := by
  cases register <;> rfl

@[simp] theorem has_complement (mask : RegMask) (register : Reg) :
    mask.complement.has register = !mask.has register := by
  cases register <;> rfl

@[simp] theorem has_single (member register : Reg) :
    (single member).has register = (member == register) := by
  cases member <;> cases register <;> rfl

@[simp] theorem has_empty (register : Reg) : empty.has register = false := by
  cases register <;> rfl

@[simp] theorem has_full (register : Reg) : full.has register = true := by
  cases register <;> rfl

end RegMask

end Backend65816

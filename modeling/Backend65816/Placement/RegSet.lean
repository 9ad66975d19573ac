import Backend65816.Flow.Graph

/-!
# Sets of virtual registers

A set is the number whose bits are its members, so sets are equal when their members are.
-/

namespace Backend65816

/-- A finite set of virtual registers. -/
structure RegSet where
  bits : Nat
deriving DecidableEq, Repr

namespace RegSet

def empty : RegSet := ⟨0⟩

instance : Inhabited RegSet := ⟨empty⟩

def contains (set : RegSet) (register : VReg) : Bool := set.bits.testBit register

def insert (set : RegSet) (register : VReg) : RegSet := ⟨set.bits ||| 1 <<< register⟩

def insertAll (set : RegSet) (registers : List VReg) : RegSet := registers.foldl insert set

def ofList (registers : List VReg) : RegSet := empty.insertAll registers

def union (left right : RegSet) : RegSet := ⟨left.bits ||| right.bits⟩

def diff (left right : RegSet) : RegSet := ⟨left.bits ^^^ (left.bits &&& right.bits)⟩

def toList (set : RegSet) : List VReg := (List.range (set.bits.log2 + 1)).filter set.contains

@[simp] theorem contains_empty (register : VReg) : empty.contains register = false := by
  simp [contains, empty]

@[simp] theorem contains_insert (set : RegSet) (member register : VReg) :
    (set.insert member).contains register = (set.contains register || member == register) := by
  simp only [contains, insert, Nat.testBit_or, Nat.one_shiftLeft, Nat.testBit_two_pow]
  rfl

@[simp] theorem contains_union (left right : RegSet) (register : VReg) :
    (left.union right).contains register = (left.contains register || right.contains register) := by
  simp [contains, union]

@[simp] theorem contains_diff (left right : RegSet) (register : VReg) :
    (left.diff right).contains register = (left.contains register && !right.contains register) := by
  simp only [contains, diff, Nat.testBit_xor, Nat.testBit_and]
  cases left.bits.testBit register <;> cases right.bits.testBit register <;> rfl

theorem contains_insertAll (set : RegSet) (registers : List VReg) (register : VReg) :
    (set.insertAll registers).contains register =
      (set.contains register || registers.contains register) := by
  induction registers generalizing set with
  | nil => simp [insertAll]
  | cons first rest ih =>
    have step := ih (set.insert first)
    simp only [insertAll, List.foldl_cons] at step ⊢
    rw [step, contains_insert, List.contains_cons, Bool.or_assoc, Bool.beq_comm]

theorem ext_contains {left right : RegSet}
    (same : ∀ register, left.contains register = right.contains register) : left = right := by
  cases left
  cases right
  congr 1
  exact Nat.eq_of_testBit_eq same

end RegSet

end Backend65816

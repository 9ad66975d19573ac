/-!
# Signed 64-bit words

The quantities of a unit description (literals, range bounds, addresses, settings) are signed 64-bit
words. They are kept as integers; an operation that can leave the range brings its result back with
`Word.wrap`, so the remaining arithmetic is ordinary integer arithmetic.
-/

namespace Backend65816

namespace Word

def modulus : Nat := 0x10000000000000000

def least : Int := -0x8000000000000000

def greatest : Int := 0x7FFFFFFFFFFFFFFF

def wrap (value : Int) : Int := value.bmod modulus

def InRange (value : Int) : Prop := least ≤ value ∧ value ≤ greatest

instance (value : Int) : Decidable (InRange value) :=
  inferInstanceAs (Decidable (_ ∧ _))

def bitwise (operation : BitVec 64 → BitVec 64 → BitVec 64) (left right : Int) : Int :=
  (operation (BitVec.ofInt 64 left) (BitVec.ofInt 64 right)).toInt

def shiftLeft (value amount : Int) : Int :=
  if 0 ≤ amount ∧ amount < 64 then wrap (value * (Nat.pow 2 amount.toNat : Nat)) else 0

end Word

end Backend65816

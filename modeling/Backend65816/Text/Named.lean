/-!
# Values under names

A finite map from names to values that remembers the order in which names were first given. Giving a
value to a name replaces the earlier value.
-/

namespace Backend65816

abbrev Named (α : Type) : Type := List (String × α)

namespace Named

variable {α : Type}

def get? (entries : Named α) (name : String) : Option α :=
  (entries.find? fun entry => entry.1 = name).map Prod.snd

def has (entries : Named α) (name : String) : Bool := entries.any fun entry => entry.1 = name

def put : Named α → String → α → Named α
  | [], name, value => [(name, value)]
  | entry :: rest, name, value =>
    if entry.1 = name then (name, value) :: rest else entry :: put rest name value

def erase (entries : Named α) (name : String) : Named α :=
  entries.filter fun entry => entry.1 ≠ name

def sorted (entries : Named α) : Named α :=
  entries.mergeSort fun left right => decide (left.1 ≤ right.1)

theorem get?_put_self (entries : Named α) (name : String) (value : α) :
    (entries.put name value).get? name = some value := by
  induction entries with
  | nil => simp [put, get?]
  | cons entry rest ih =>
    unfold put
    split
    · simp [get?]
    · next different => simpa [get?, different] using ih

theorem get?_put_of_ne (entries : Named α) {name other : String} (value : α)
    (different : other ≠ name) :
    (entries.put name value).get? other = entries.get? other := by
  induction entries with
  | nil => simp [put, get?, different.symm]
  | cons entry rest ih =>
    unfold put
    split
    · next same =>
      have : entry.1 ≠ other := fun equal => different (equal.symm.trans same)
      simp [get?, different.symm, this]
    · by_cases found : entry.1 = other
      · simp [get?, found]
      · simpa [get?, found] using ih

end Named

end Backend65816

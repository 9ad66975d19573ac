import Backend65816.Proofs.Evaluation

/-!
# Arithmetic at a width

Constants are folded as words of 64 bits and cut to their width afterwards, which gives what the
operations at the width give. Adding the weight of the sign bit maps the signed order of a width
onto the unsigned order.
-/

namespace Backend65816

open Int BitVec Nat Width

variable {width : Width}

namespace Width

variable {width : Width}

def places (width : Width) : Nat := if width = word then 16 else 8

section

variable (width)

theorem modulus_eq : width.modulus = ((2 ^ width.places : Nat) : Int) := by
  unfold modulus places
  split <;> rfl

theorem signBit_eq : width.signBit = ((2 ^ (width.places - 1) : Nat) : Int) := by
  unfold signBit places
  split <;> rfl

theorem places_pos : 0 < width.places := by
  unfold places
  split <;> decide

theorem modulus_eq_two_signBit : width.modulus = 2 * width.signBit := by
  unfold modulus signBit
  split <;> rfl

theorem mask_eq : width.mask = width.modulus - 1 := by
  unfold mask modulus
  split <;> rfl

theorem modulus_dvd_word : width.modulus ∣ (Word.modulus : Int) := by
  unfold modulus
  split <;> decide

theorem truncate_natCast (num : Nat) :
    width.truncate num = ((num % 2 ^ width.places : Nat) : Int) := by
  rw [truncate, modulus_eq]
  rfl

theorem truncate_wrap (num : Int) : width.truncate (Word.wrap num) = width.truncate num := by
  unfold truncate Word.wrap
  rw [← emod_emod_of_dvd _ width.modulus_dvd_word, bmod_emod,
    emod_emod_of_dvd _ width.modulus_dvd_word]

end

theorem truncate_congr {first second : Int} (divides : width.modulus ∣ first - second) :
    width.truncate first = width.truncate second :=
  emod_eq_emod_iff_emod_sub_eq_zero.mpr (emod_eq_zero_of_dvd divides)

theorem dvd_sub_truncate (width : Width) (num : Int) : width.modulus ∣ num - width.truncate num :=
  dvd_self_sub_emod

theorem truncate_bitwise {op : BitVec 64 → BitVec 64 → BitVec 64} {natural : Nat → Nat → Nat}
    (toNat_eq : ∀ left right, (op left right).toNat = natural left.toNat right.toNat)
    (mod_eq : ∀ left right places, natural left right % 2 ^ places =
      natural (left % 2 ^ places) (right % 2 ^ places))
    {left right : Int} :
    width.truncate (Word.bitwise op left right) =
      width.truncate (natural (width.truncate left).toNat (width.truncate right).toNat : Nat) := by
  have cut : ∀ num : Int, (BitVec.ofInt 64 num).toNat % 2 ^ width.places =
      (width.truncate num).toNat := by
    have divides : ((2 ^ width.places : Nat) : Int) ∣ ((2 ^ 64 : Nat) : Int) :=
      width.modulus_eq ▸ width.modulus_dvd_word
    grind [toNat_ofInt, truncate, modulus_eq, emod_emod_of_dvd]
  have cut_again : ∀ num : Int, (width.truncate num).toNat % 2 ^ width.places =
      (width.truncate num).toNat := by
    intro num
    have below := width.truncate_lt num
    have nonneg := width.truncate_nonneg num
    simp_all [modulus_eq, mod_eq_of_lt]
  have wrapped : Word.bitwise op left right =
      Word.wrap ((op (BitVec.ofInt 64 left) (BitVec.ofInt 64 right)).toNat : Nat) := by
    rw [Word.bitwise, toInt_eq_toNat_bmod]
    rfl
  simp_all [truncate_wrap, truncate_natCast]

end Width

/-! ## Folded constants -/

theorem truncate_fold {kind : BinKind} {left right value : Int}
    (folded : (BinaryOp.arithmetic kind).fold? left right = some value) (unshifted : kind ≠ .shl) :
    width.truncate value = kind.apply width (width.truncate left) (width.truncate right) := by
  cases kind with
  | add =>
    cases folded
    rw [truncate_wrap]
    exact Int.add_emod ..
  | sub =>
    cases folded
    rw [truncate_wrap]
    exact Int.sub_emod ..
  | and =>
    cases folded
    exact truncate_bitwise toNat_and (fun _ _ _ => and_mod_two_pow)
  | or =>
    cases folded
    exact truncate_bitwise toNat_or (fun _ _ _ => or_mod_two_pow)
  | xor =>
    cases folded
    exact truncate_bitwise toNat_xor (fun _ _ _ => xor_mod_two_pow)
  | shl => exact absurd rfl unshifted
  | shr => cases folded
  | sar => cases folded

theorem truncate_shl (width : Width) (num amount : Int) :
    width.truncate (width.truncate num * 2 ^ amount.toNat) =
      width.truncate (num * 2 ^ amount.toNat) := by
  refine truncate_congr ?_
  rw [← sub_mul]
  refine dvd_mul_of_dvd_left ?_
  rw [← Int.dvd_neg, Int.neg_sub]
  exact width.dvd_sub_truncate num

theorem modulus_dvd_two_pow {amount : Nat} (le : width.places ≤ amount) :
    width.modulus ∣ 2 ^ amount := by
  rw [modulus_eq]
  exact_mod_cast pow_dvd_pow 2 le

theorem Width.places_le (width : Width) : width.places ≤ 16 := by
  unfold places
  split <;> decide

theorem truncate_shiftLeft {num : Int} {amount : Int} (nonneg : 0 ≤ amount) :
    width.truncate (Word.shiftLeft num amount) =
      BinKind.shl.apply width (width.truncate num) amount := by
  change _ = width.truncate (width.truncate num * 2 ^ amount.toNat)
  rw [truncate_shl, Word.shiftLeft]
  by_cases small : amount < 64
  · simp_all [truncate_wrap]
  · rw [if_neg (fun both => small both.2)]
    refine truncate_congr ?_
    have le : width.places ≤ amount.toNat := by
      have := width.places_le
      omega
    rw [Int.zero_sub, Int.dvd_neg]
    exact dvd_mul_of_dvd_right (modulus_dvd_two_pow le)

theorem truncate_foldUnary {operator : UnaryOp} {num value : Int}
    (folded : Lower.foldUnary? operator num = some value) :
    width.truncate value = operator.kind.apply width (width.truncate num) := by
  have dvd : width.modulus ∣ -num - -width.truncate num := by
    rw [neg_sub_neg, ← Int.dvd_neg, Int.neg_sub]
    exact width.dvd_sub_truncate num
  cases operator with
  | negate =>
    cases folded
    rw [truncate_wrap]
    exact truncate_congr dvd
  | complement =>
    cases folded
    refine truncate_congr ?_
    change width.modulus ∣ -num - 1 - (-width.truncate num - 1)
    rwa [sub_sub_sub_cancel_right]
  | not => cases folded
  | unknown text => cases folded

/-! ## Shifts by the width or more -/

section Shifts

variable {width : Width} {num amount : Int}

theorem apply_shl_of_le (le : width.places ≤ amount.toNat) :
    BinKind.shl.apply width num amount = 0 :=
  emod_eq_zero_of_dvd (dvd_mul_of_dvd_right (modulus_dvd_two_pow le))

theorem two_pow_le_of_le {places : Nat} (le : places ≤ amount.toNat) :
    ((2 ^ places : Nat) : Int) ≤ 2 ^ amount.toNat := by
  exact_mod_cast Nat.pow_le_pow_right (by decide) le

theorem apply_shr_of_le (holds : width.Holds num) (le : width.places ≤ amount.toNat) :
    BinKind.shr.apply width num amount = 0 := by
  obtain ⟨nonneg, below⟩ := holds_iff.mp holds
  rw [modulus_eq] at below
  have quotient : num / 2 ^ amount.toNat = 0 :=
    ediv_eq_zero_of_lt nonneg (lt_of_lt_of_le below (two_pow_le_of_le le))
  change width.truncate (num / 2 ^ amount.toNat) = 0
  rw [quotient]
  exact width.holds_zero

theorem ediv_of_small {divisor : Int} (lower : -divisor ≤ num) (upper : num < divisor) :
    num / divisor = if num < 0 then -1 else 0 := by
  split
  · next negative =>
    have positive : 0 < divisor := by omega
    have le : num / divisor < 0 := ediv_neg_of_neg_of_pos negative positive
    have ge : -1 ≤ num / divisor := Int.le_ediv_of_mul_le positive (by omega)
    omega
  · simp_all [ediv_eq_zero_of_lt]

theorem signed_bounds (holds : width.Holds num) :
    -width.signBit ≤ width.signed num ∧ width.signed num < width.signBit := by
  obtain ⟨nonneg, below⟩ := holds_iff.mp holds
  have modulus_eq := width.modulus_eq_two_signBit
  unfold Width.signed
  split <;> omega

/-- A shift right by the width or more copies the sign, as a shift by one place less does. -/
theorem apply_sar_of_le (holds : width.Holds num) (le : width.places ≤ amount.toNat) :
    BinKind.sar.apply width num amount =
      BinKind.sar.apply width num ((width.places : Int) - 1) := by
  obtain ⟨lower, upper⟩ := signed_bounds holds
  have small : width.signBit = 2 ^ ((width.places : Int) - 1).toNat := by
    simp [signBit_eq]
  have large : width.signBit ≤ 2 ^ amount.toNat := by
    rw [signBit_eq]
    exact two_pow_le_of_le (by omega)
  change width.truncate (width.signed num / _) = width.truncate (width.signed num / _)
  rw [ediv_of_small (by omega) (lt_of_lt_of_le upper large), ← small, ediv_of_small lower upper]

end Shifts

/-! ## Signed order -/

section Order

variable {width : Width} {first second : Int}

theorem xor_two_pow_of_lt {num places : Nat} (below : num < 2 ^ places) :
    num ^^^ 2 ^ places = 2 ^ places + num := by
  refine eq_of_testBit_eq fun idx => ?_
  rw [testBit_xor]
  rcases Nat.lt_trichotomy idx places with less | rfl | greater
  · rw [testBit_two_pow_add_gt less, testBit_two_pow_of_ne (ne_of_gt less), Bool.xor_false]
  · rw [testBit_two_pow_add_eq, testBit_two_pow_self, Bool.xor_true]
  · have le : 2 ^ (places + 1) ≤ 2 ^ idx := Nat.pow_le_pow_right (by decide) greater
    have number_below : num < 2 ^ idx := by omega
    have sum_below : 2 ^ places + num < 2 ^ idx := by omega
    rw [Nat.testBit_two_pow_of_ne (Nat.ne_of_lt greater), Nat.testBit_lt_two_pow number_below,
      testBit_lt_two_pow sum_below, Bool.xor_false]

theorem xor_two_pow {num places : Nat} (below : num < 2 ^ (places + 1)) :
    num ^^^ 2 ^ places = (num + 2 ^ places) % 2 ^ (places + 1) := by
  by_cases low : num < 2 ^ places
  · rw [xor_two_pow_of_lt low, mod_eq_of_lt (by omega), add_comm]
  · obtain ⟨rest, rfl⟩ := Nat.exists_eq_add_of_le (Nat.le_of_not_lt low)
    have rest_below : rest < 2 ^ places := by omega
    rw [← xor_two_pow_of_lt rest_below, Nat.xor_assoc, Nat.xor_self, Nat.xor_zero,
      xor_two_pow_of_lt rest_below]
    rw [show 2 ^ places + rest + 2 ^ places = rest + 2 ^ (places + 1) by omega,
      add_mod_right, mod_eq_of_lt (by omega)]

theorem apply_xor_signBit (holds : width.Holds first) :
    BinKind.xor.apply width first width.signBit = width.truncate (first + width.signBit) := by
  obtain ⟨nonneg, below⟩ := holds_iff.mp holds
  have pos := width.places_pos
  obtain ⟨num, rfl⟩ := eq_ofNat_of_zero_le nonneg
  obtain ⟨places, places_eq⟩ : ∃ places, width.places = places + 1 := ⟨width.places - 1, by omega⟩
  rw [modulus_eq, places_eq] at below
  have flipped : num ^^^ 2 ^ places = (num + 2 ^ places) % 2 ^ (places + 1) :=
    xor_two_pow (by omega)
  change width.truncate ((Int.toNat num ^^^ width.signBit.toNat : Nat) : Int) = _
  rw [Width.signBit_eq, places_eq, Nat.add_sub_cancel, Int.toNat_natCast, Int.toNat_natCast,
    flipped]
  rw [show (num : Int) + ((2 ^ places : Nat) : Int) = ((num + 2 ^ places : Nat) : Int) from
    (natCast_add _ _).symm]
  rw [truncate_natCast, truncate_natCast, places_eq, mod_mod]

theorem truncate_add_signBit (holds : width.Holds first) :
    width.truncate (first + width.signBit) = width.signed first + width.signBit := by
  obtain ⟨nonneg, below⟩ := holds_iff.mp holds
  have modulus_eq := width.modulus_eq_two_signBit
  unfold Width.signed
  split
  · exact holds_iff.mpr ⟨by omega, by omega⟩
  · have reduced : width.truncate (first + width.signBit) =
        width.truncate (first - width.signBit) := by
      refine truncate_congr ⟨1, by omega⟩
    rw [reduced, holds_iff.mpr ⟨by omega, by omega⟩]
    omega

theorem eval_add_right (cond : Cond) (shift : Int) :
    cond.eval (first + shift) (second + shift) = cond.eval first second := by
  cases cond <;> simp [Cond.eval]

/-- Adding the weight of the sign bit maps the signed order onto the unsigned order. -/
theorem eval_biased (cond : Cond) (first_holds : width.Holds first)
    (second_holds : width.Holds second) :
    cond.eval (width.truncate (first + width.signBit)) (width.truncate (second + width.signBit)) =
      cond.eval (width.signed first) (width.signed second) := by
  simp_all [truncate_add_signBit, eval_add_right]

theorem signed_eq_iff (first_holds : width.Holds first) (second_holds : width.Holds second) :
    width.signed first = width.signed second ↔ first = second := by
  constructor
  · intro same
    have sums := truncate_add_signBit first_holds
    rw [same, ← truncate_add_signBit second_holds] at sums
    have back : ∀ {number}, width.Holds number →
        width.truncate (width.truncate (number + width.signBit) + width.signBit) = number := by
      intro number holds
      rw [truncate_add_signBit holds]
      have modulus_eq := width.modulus_eq_two_signBit
      unfold Width.signed
      split
      · exact (truncate_congr ⟨1, by omega⟩).trans holds
      · exact (truncate_congr ⟨0, by omega⟩).trans holds
    grind
  · rintro rfl
    rfl

theorem eval_signed_of_isEquality {cond : Cond} (equality : cond.isEquality = true)
    (first_holds : width.Holds first) (second_holds : width.Holds second) :
    cond.eval (width.signed first) (width.signed second) = cond.eval first second := by
  have same := signed_eq_iff first_holds second_holds
  cases cond with
  | eq => exact decide_eq_decide.mpr same
  | ne => exact decide_eq_decide.mpr (not_congr same)
  | lt | ge | le | gt => cases equality

end Order

end Backend65816

import Mathlib.Tactic.Common
import Backend65816.Placement.Allocate

/-!
# Write sets against assumed places

While places are given, a register without one counts as the stack slot at zero. That place needs
the most hardware registers, so a write set only shrinks when the place becomes known, the places of
the results apart. Copies are the exception: two registers without a place look like one place, and
a copy of a place to itself writes nothing.
-/

namespace Backend65816

open RegMask Bool

variable {far : Bool} {finalTarget finalSource : Loc} {base finalBase : Option Loc}

variable {target src : Loc} {width : Width} {mode : Mode} {hw : Reg} {assumed final : Loc}

/-- A place that was assumed is the final one, or stood for a place that was not known. -/
def Settles (assumed final : Loc) : Prop := final = assumed ∨ assumed = .stack 0

/-- A copy between two places loads the accumulator. -/
structure CopiesThroughAccumulator (target source : Loc) (width : Width) : Prop where
  different : target ≠ source
  source_ne_high : source ≠ .reg .b
  target_ne_high : target ≠ .reg .b
  not_transfer : ¬(source.isIndexReg ∧ target.isIndexReg)
  not_load : ¬(target.isIndexReg ∧ width = .word ∧ source.isIndexable)
  not_store : ¬(source.isIndexReg ∧ width = .word ∧ target.isIndexable)
  source_ne_accumulator : source ≠ .reg .a

theorem CopiesThroughAccumulator.of_settles
    (target_settles : Settles target finalTarget) (source_settles : Settles src finalSource)
    (different : target ≠ src) (copies : CopiesThroughAccumulator finalTarget finalSource width) :
    CopiesThroughAccumulator target src width := by
  rcases target_settles with rfl | rfl
  · rcases source_settles with rfl | rfl
    · exact copies
    · exact ⟨different, by simp, copies.target_ne_high, by simp [Loc.isIndexReg],
        by simp [Loc.isIndexable], by simp [Loc.isIndexReg], by simp⟩
  · rcases source_settles with rfl | rfl
    · exact ⟨different, copies.source_ne_high, by simp, by simp [Loc.isIndexReg],
        by simp [Loc.isIndexReg], by simp [Loc.isIndexable], copies.source_ne_accumulator⟩
    · exact absurd rfl different

theorem CopiesThroughAccumulator.moveWrites_eq (copies : CopiesThroughAccumulator target src width)
    (mode : Mode) :
    moveWrites mode target src width = (accumulatorWrites mode width).union target.mask := by
  unfold moveWrites
  rw [if_neg copies.different, if_neg copies.source_ne_high, if_neg copies.target_ne_high,
    if_neg copies.not_transfer, if_neg copies.not_load, if_neg copies.not_store,
    if_neg copies.source_ne_accumulator]

/-- Apart from its target, a copy writes the registers of the accumulator or nothing. -/
theorem has_moveWrites_iff (apart : target.mask.has hw = false) :
    (moveWrites mode target src width).has hw = true ↔
      CopiesThroughAccumulator target src width ∧ (accumulatorWrites mode width).has hw = true := by
  constructor
  · intro written
    unfold moveWrites at written
    split_ifs at written with same from_high to_high transfer load store from_accumulator
    · simp at written
    · simp [apart] at written
    · simp_all [Loc.mask]
    · simp [apart] at written
    · simp [apart] at written
    · simp at written
    · simp [apart] at written
    · simp only [RegMask.has_union, apart, Bool.or_false] at written
      exact ⟨⟨same, from_high, to_high, transfer, load, store, from_accumulator⟩, written⟩
  · rintro ⟨copies, written⟩
    rw [copies.moveWrites_eq, RegMask.has_union, written, Bool.true_or]

@[simp]
theorem RegMask.has_insert (mask : RegMask) (mem reg : Reg) :
    (mask.insert mem).has reg = (mask.has reg || mem == reg) := by
  rw [RegMask.insert, has_union, has_single]

theorem has_accumulatorWrites (written : (accumulatorWrites mode width).has hw = true) :
    hw = .a ∨ hw = .b := by
  unfold accumulatorWrites at written
  split at written <;> cases hw <;> simp_all

@[simp]
theorem has_a_accumulatorWrites (mode : Mode) (width : Width) :
    (accumulatorWrites mode width).has .a = true := by
  unfold accumulatorWrites
  split <;> rfl

section

variable (settles : Settles assumed final)
include settles

theorem Settles.eq_of {test : Loc → Bool} (placed : test assumed = true)
    (off_stack : test (.stack 0) = false) : final = assumed := by
  rcases settles with rfl | rfl
  · rfl
  · rw [off_stack] at placed
    cases placed

theorem Settles.eq_reg (placed : assumed = .reg hw) : final = .reg hw := by
  rw [← placed]
  exact settles.eq_of (show assumed.isReg = true by rw [placed]; rfl) rfl

end

theorem has_loadWrites_of_settles (target_settles : Settles target finalTarget)
    (base_settles : Option.Rel Settles base finalBase) (apart : finalTarget.mask.has hw = false)
    (written : (loadWrites mode width finalTarget finalBase far).has hw = true) :
    (loadWrites mode width target base far).has hw = true := by
  cases base_settles with
  | none =>
    simp only [loadWrites] at written ⊢
    split_ifs at written with direct
    · simp [apart] at written
    · rw [if_neg]
      · simp_all
      · intro assumed_direct
        simp only [and_eq_true] at assumed_direct direct
        rw [target_settles.eq_of assumed_direct.1.2 rfl] at direct
        exact direct assumed_direct
  | some settles =>
    simp only [loadWrites] at written ⊢
    split_ifs at written with indexed
    · split_ifs <;> simp_all
    · rw [if_neg]
      · simp_all
      · intro assumed_indexed
        rw [settles.eq_of assumed_indexed rfl] at indexed
        exact indexed assumed_indexed

theorem has_storeWrites_of_settles
    (source_settles : Settles src finalSource) (base_settles : Option.Rel Settles base finalBase)
    (written : (storeWrites mode width finalSource finalBase far).has hw = true) :
    (storeWrites mode width src base far).has hw = true := by
  cases base_settles with
  | none =>
    simp only [storeWrites] at written ⊢
    split_ifs at written with in_accumulator direct
    · simp at written
    · simp at written
    · rw [if_neg fun placed => in_accumulator (source_settles.eq_reg placed), if_neg]
      · exact written
      · intro assumed_direct
        simp only [and_eq_true] at assumed_direct direct
        rw [source_settles.eq_of assumed_direct.1.2 rfl] at direct
        exact direct assumed_direct
  | some settles =>
    simp only [storeWrites] at written ⊢
    split_ifs at written with not_indexed in_accumulator
    · rw [if_pos]
      · exact written
      · cases indexed : Loc.isIndexReg _ with
        | false => rfl
        | true =>
          rw [settles.eq_of indexed rfl, indexed] at not_indexed
          exact not_indexed
    · simp at written
    · split_ifs with assumed_indexed assumed_in_accumulator
      · simp [written]
      · exact absurd (source_settles.eq_reg assumed_in_accumulator) in_accumulator
      · exact written

namespace Graph

variable {graph : Graph} {assumed final : Placement}

variable (settled : ∀ reg, Settles (assumed reg) (final reg))
include settled

private theorem rel_base (addr : Address) :
    Option.Rel Settles (addr.base.map assumed) (addr.base.map final) := by
  cases addr.base with
  | none => exact .none
  | some reg => exact .some (settled reg)

/-- Once places are known, an action writes nothing that it was not assumed to write, the places of
its results apart, unless it copies between two registers that looked like one place. -/
theorem has_writes_of_settles {action : Action}
    (apart : ∀ target ∈ action.defs, (final target).mask.has hw = false)
    (copied : ∀ target src, action = .move target src → assumed target ≠ assumed src)
    (written : (graph.writes final action).has hw = true) :
    (graph.writes assumed action).has hw = true := by
  cases action with
  | params _ | call _ | dispatch _ => exact written
  | const target value =>
    have target_apart := apart target (by simp [Action.defs])
    simp only [writes] at written ⊢
    split_ifs at written with in_register zero
    · simp_all
    · simp at written
    · rw [if_neg, if_neg]
      · exact written
      · rintro ⟨value_zero, indexable⟩
        rw [(settled target).eq_of indexable rfl] at zero
        exact zero ⟨value_zero, indexable⟩
      · intro placed
        rw [(settled target).eq_of placed rfl] at in_register
        exact in_register placed
  | move target src =>
    have target_apart := apart target (by simp [Action.defs])
    obtain ⟨copies, acc⟩ := (has_moveWrites_iff target_apart).mp written
    have assumed_copies := copies.of_settles (settled target) (settled src) (copied target src rfl)
    rw [writes, assumed_copies.moveWrites_eq, RegMask.has_union, acc, Bool.true_or]
  | convert _ _ _ | un _ _ _ | setCond _ _ _ _ => simp_all [Action.defs, writes]
  | bin kind target left right noWrap =>
    have target_apart := apart target (by simp [Action.defs])
    simp only [writes] at written ⊢
    split_ifs at written with in_place
    · simp_all
    · rw [if_neg]
      · simp_all
      · intro assumed_in_place
        simp only [incrementsInPlace, and_eq_true] at assumed_in_place in_place
        rw [(settled target).eq_of assumed_in_place.2 rfl] at in_place
        exact in_place assumed_in_place
  | load target addr =>
    have target_apart := apart target (by simp [Action.defs])
    exact has_loadWrites_of_settles (settled target) (rel_base settled addr) target_apart written
  | store addr src =>
    cases src with
    | imm value => exact written
    | reg src =>
      exact has_storeWrites_of_settles (settled src) (rel_base settled addr) written
  | lookup target table idx =>
    have target_apart := apart target (by simp [Action.defs])
    simp only [writes] at written ⊢
    split_ifs at written with in_index
    · simp only [RegMask.has_union, target_apart, Bool.or_false] at written
      split_ifs <;> simp [written]
    · rw [if_neg]
      · simp only [has_union] at written ⊢
        grind
      · rintro ⟨narrow, placed⟩
        exact in_index ⟨narrow, (settled idx).eq_reg placed⟩
  | push src =>
    cases src with
    | imm value => exact written
    | reg src =>
      simp only [writes] at written ⊢
      split_ifs at written with direct
      · simp at written
      · rw [if_neg]
        · exact written
        · rintro (placed | ⟨indexed, word⟩)
          · exact direct (.inl ((settled src).eq_reg placed))
          · rw [(settled src).eq_of indexed rfl] at direct
            exact direct (.inr ⟨indexed, word⟩)

/-- Once places are known, a terminator writes nothing that it was not assumed to write. -/
theorem has_terminatorWrites_of_settles {term : Terminator}
    (written : (graph.terminatorWrites final term).has hw = true) :
    (graph.terminatorWrites assumed term).has hw = true := by
  cases term with
  | jump _ | giveBack _ | jumpTable _ _ => exact written
  | branch cond left right thenBlock elseBlock =>
    simp only [terminatorWrites] at written ⊢
    split_ifs at written with in_accumulator indexed
    · simp at written
    · rw [if_neg fun placed => in_accumulator ((settled left).eq_reg placed)]
      cases right with
      | imm value => simp at written
      | reg other =>
        simp only at written ⊢
        split_ifs at written with direct
        · simp at written
        · split_ifs with assumed_indexed assumed_direct
          · exfalso
            apply direct
            rcases assumed_direct with placed | ⟨word, indexable⟩
            · rw [(settled other).eq_of placed rfl]
              exact .inl placed
            · rw [(settled other).eq_of indexable rfl]
              exact .inr ⟨word, indexable⟩
          · exact written
          · exact written
    · rw [if_neg fun placed => in_accumulator ((settled left).eq_reg placed), if_neg]
      · exact written
      · intro assumed_indexed
        rw [(settled left).eq_of assumed_indexed rfl] at indexed
        exact indexed assumed_indexed

end Graph

end Backend65816

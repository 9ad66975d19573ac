import Backend65816.Settings

/-!
# Settings and the direct page

Sums of settings wrap around, and the checks compare what is left of them. So the pool and the
temporary bytes of a layout that is not refused lie in the direct page, apart from each other,
exactly if neither sum leaves the range of words.
-/

namespace Backend65816

def SettingsProblem.isLayout : SettingsProblem → Bool
  | scratchOutside _ _ | tempOutside _ | tempOverlap => true
  | _ => false

/-- The pool and the eight temporary bytes are bytes of the direct page, and no byte is in both. -/
structure Settings.InDirectPage (settings : Settings) : Prop where
  base : 0 ≤ settings.scratchBase
  size : 0 ≤ settings.scratchSize
  pool : settings.scratchBase + settings.scratchSize ≤ 256
  temporaries : 0 ≤ settings.tempBase ∧ settings.tempBase ≤ 248
  apart : settings.scratchBase + settings.scratchSize ≤ settings.tempBase ∨
    settings.tempBase + 8 ≤ settings.scratchBase

theorem Word.wrap_of_inRange {value : Int} (inside : InRange value) : wrap value = value := by
  unfold InRange least greatest at inside
  rw [wrap, modulus, Int.bmod_def]
  omega

/-- The checks of the layout, whatever the other settings are. -/
theorem Settings.accepted_iff (settings : Settings) :
    (∀ problem, settings.validate = .error problem → problem.isLayout = false) ↔
      0 ≤ settings.scratchSize ∧ 0 ≤ settings.scratchBase ∧ settings.scratchEnd ≤ 256 ∧
      0 ≤ settings.tempBase ∧ settings.tempEnd ≤ 256 ∧
      (settings.scratchEnd ≤ settings.tempBase ∨ settings.tempEnd ≤ settings.scratchBase) := by
  unfold validate
  constructor
  · intro accepted
    repeat' split at accepted
    all_goals grind [SettingsProblem.isLayout]
  · rintro ⟨size, base, pool, temp, inside, apart⟩ problem refused
    rw [if_neg (by omega), if_neg (by omega), if_neg (by omega)] at refused
    repeat' split at refused
    all_goals cases refused <;> rfl

theorem Settings.inDirectPage_iff (settings : Settings) :
    settings.InDirectPage ↔
      (∀ problem, settings.validate = .error problem → problem.isLayout = false) ∧
        Word.InRange (settings.scratchBase + settings.scratchSize) ∧
        Word.InRange (settings.tempBase + 8) := by
  rw [accepted_iff, scratchEnd, tempEnd]
  constructor
  · rintro ⟨base, size, pool, temporaries, apart⟩
    have sums : Word.InRange (settings.scratchBase + settings.scratchSize) ∧
        Word.InRange (settings.tempBase + 8) := by
      simp only [Word.InRange, Word.least, Word.greatest]
      omega
    rw [Word.wrap_of_inRange sums.1, Word.wrap_of_inRange sums.2]
    refine ⟨?_, sums⟩
    omega
  · rintro ⟨checks, pool_sum, temp_sum⟩
    rw [Word.wrap_of_inRange pool_sum, Word.wrap_of_inRange temp_sum] at checks
    constructor <;> omega

/-- Temporary bytes at the end of the range of words pass the checks. -/
theorem Settings.wrapped_accepted :
    let settings := { Settings.standard with tempBase := 0x7ffffffffffffff8 }
    (∀ problem, settings.validate = .error problem → problem.isLayout = false) ∧
      ¬settings.InDirectPage :=
  ⟨(accepted_iff _).mpr (by decide +kernel), fun inside => absurd inside.temporaries (by decide)⟩

end Backend65816

import Backend65816.Proofs.MatchDispatch

/-!
# The first matching arm

Whatever strategy a match gets, its decision code takes the first arm whose pattern contains the
value. A table selects by the distance of the value from its first value, taken modulo the width of
the scrutinee. The distance of a value outside of the table lies behind its end, so the range check
finds all of them.
-/

namespace Backend65816

open Function List MatchEmit

variable {low high : Int} {ranges : List (Int × Int)} {plan : MatchPlan} {idx : Nat}
  {regs : Nat → Int}

namespace MatchDescriptor

open MatchCommand

variable {desc : MatchDescriptor} {value : Int}

theorem domain_fits (fits : ∀ declaration, desc.kind = .enum declaration →
      (declaration.variants.length : Int) ≤ desc.width.modulus) :
    desc.domain.2 - desc.domain.1 < desc.width.modulus := by
  grind [domain, Width.modulus, Width.mask, Width.signBit]

/-- The distance of a value from the start of a table, as the decision code computes it. -/
def distance (descriptor : MatchDescriptor) (low value : Int) : Int :=
  if low ≠ 0 ∨ descriptor.signed = true then descriptor.width.truncate (value - low) else value

theorem nonneg_of_unsigned (unsigned : desc.signed ≠ true)
    (inside : desc.InDomain value) : 0 ≤ value := by
  grind [InDomain, domain]

/-- Modulo the width, the values of a table have the distances below its length, and all other
values of the domain lie behind its end. -/
theorem distance_spec (fits : desc.domain.2 - desc.domain.1 < desc.width.modulus)
    (listing : Listing desc ranges low high) (inside : desc.InDomain value) :
    (low ≤ value → desc.distance low value = value - low) ∧ (¬(low ≤ value ∧ value ≤ high) →
        ((high - low + 1).toNat : Int) ≤ desc.distance low value) := by
  obtain ⟨_, _, low_le_high, least_le, le_greatest⟩ := listing
  have bounds := inside
  unfold InDomain at bounds
  unfold distance
  split
  · unfold Width.truncate
    constructor
    · intro low_le
      exact Int.emod_eq_of_lt (by omega) (by omega)
    · by_cases low_le : low ≤ value
      · rw [Int.emod_eq_of_lt (by omega) (by omega)]
        omega
      · rw [← Int.add_emod_right, Int.emod_eq_of_lt (by omega) (by omega)]
        omega
  · rename_i plain
    obtain ⟨low_eq, unsigned⟩ := not_or.mp plain
    have nonneg := nonneg_of_unsigned unsigned inside
    omega

/-- The code of a table reaches its selection with the distance of the value in a register. -/
theorem emit_table_reaches (desc : MatchDescriptor)
    (table : plan.strategy ≠ .branchChain) (regs : Nat → Int) (value : Int) :
    ∃ idx commands before after blocks contents,
      MatchEmit.Dispatches plan idx before after commands ∧ Fills blocks 0 commands ∧
      contents idx = desc.distance plan.first value ∧
      ∀ res, Ends desc.width blocks ⟨codeOf 0 0 commands ++ [], contents⟩ res →
        ∃ fuel, run desc.width (desc.emit plan) regs value fuel = some res := by
  obtain ⟨idx, commands, before, after, dispatched, blocks_zero, emitted⟩ :=
    plan_table desc table
  rcases emitted with ⟨indexed, index_ne, emit_eq⟩ | ⟨plain, rfl, emit_eq⟩
  · let start := Function.update regs scrutinee value
    refine ⟨idx, commands, before, after, fun id => codeOf id 0 (desc.emit plan),
      Function.update start idx (desc.width.truncate (start scrutinee - plan.first)),
      dispatched, ?_, ?_, ?_⟩
    · intro id entered
      have positive := (dispatched.emits.entered id entered).1
      have elsewhere : 0 ≠ id := by omega
      simp_all [codeOf]
    · rw [distance, if_pos indexed]
      simp only [start, update_self]
    · intro res ends
      refine Ends.of_step ?_ ends
      simp only [emit_eq, codeOf, if_true, singleton_append, append_nil, step, start]
  · refine ⟨_, commands, before, after, fun id => codeOf id 0 (desc.emit plan),
      Function.update regs scrutinee value, dispatched, ?_, ?_, ?_⟩
    · intro id _
      simp only [emit_eq, prefix_rfl]
    · rw [update_self, distance, if_neg plain]
    · intro res ends
      rw [append_nil, ← emit_eq] at ends
      exact ends

theorem emit_table_yields
    (table : IsTable desc ranges low high plan) (listing : Listing desc ranges low high)
    (accepted : desc.check = .ok ()) (fits : desc.domain.2 - desc.domain.1 < desc.width.modulus)
    (inside : desc.InDomain value) (first : desc.firstMatch? value = some idx) :
    ∃ res fuel, run desc.width (desc.emit plan) regs value fuel =
      some res ∧ desc.Yields idx res := by
  obtain ⟨reg, commands, before, after, blocks, contents, dispatched, fills, distance_eq,
    reaches⟩ := desc.emit_table_reaches table.strategy_ne regs value
  rw [table.first_eq] at distance_eq
  obtain ⟨near, far⟩ := distance_spec fits listing inside
  by_cases within : low ≤ value ∧ value ≤ high
  · obtain ⟨res, outcome_eq, yields⟩ :=
      table.outcome (table.owner listing accepted within.1 within.2 first)
    have found : slotAt? plan.outcomes (contents reg) = some res := by
      simp_all [slotAt?]
    have below : contents reg < plan.owners.length := by
      rw [table.owners_length]
      omega
    obtain ⟨fuel, finished⟩ := reaches res (dispatched.inside (Nat.zero_le _) fills below found)
    exact ⟨res, fuel, finished, yields⟩
  · obtain ⟨fallback_eq, checked⟩ := table.outside listing accepted inside within
    have above : plan.owners.length ≤ contents reg := by
      rw [distance_eq, table.owners_length]
      exact far within
    obtain ⟨fuel, finished⟩ := reaches (.arm idx)
      (dispatched.beyond (Nat.zero_le _) fills checked above (fallback_eq.trans first))
    exact ⟨.arm idx, fuel, finished, .inl rfl⟩

theorem emit_chain_yields (chained : plan.strategy = .branchChain) (accepted : desc.check = .ok ())
    (inhabited : ∀ arm ∈ desc.arms, arm.pattern.hasAlternatives = true)
    (inside : desc.InDomain value) (first : desc.firstMatch? value = some idx) :
    ∃ fuel, run desc.width (desc.emit plan) regs value fuel = some (.arm idx) := by
  have nonempty : desc.arms ≠ [] := by
    grind [firstMatch?]
  obtain ⟨commands, takes⟩ := MatchEmit.chain_takesFirst 0
    (fun arm mem => desc.coverage_ok_of_mem_arms accepted mem) inhabited nonempty {}
  have emit_eq : desc.emit plan = commands := by
    rw [emit, MatchEmit.plan, chained]
    exact takes.emits.commands_eq
  have fills : Fills (fun id => codeOf id 0 commands) 0 commands := fun id _ => prefix_refl _
  have ends : Ends desc.width (fun id => codeOf id 0 commands)
      ⟨codeOf 0 0 commands ++ [], Function.update regs MatchEmit.scrutinee value⟩
      (.arm (0 + idx)) := by
    refine takes.ends (Nat.le_refl _) fills ?_ ?_
    · rwa [update_self]
    · rwa [update_self]
  rw [append_nil, Nat.zero_add, ← emit_eq] at ends
  exact ends

/-- Whatever the thresholds for tables, the decision code of a checked match ends on every value of
the scrutinee, with the first arm whose pattern contains the value or with the constant of that
arm. -/
theorem emit_takes_first (descriptor : MatchDescriptor) (options : DensityOptions)
    (registers : Nat → Int) (value : Int) (accepted : descriptor.check = .ok ())
    (inhabited : ∀ arm ∈ descriptor.arms, arm.pattern.hasAlternatives = true)
    (fits : ∀ declaration, descriptor.kind = .enum declaration →
      (declaration.variants.length : Int) ≤ descriptor.width.modulus)
    (inside : descriptor.InDomain value) :
    ∃ index outcome fuel, descriptor.firstMatch? value = some index ∧
      run descriptor.width (descriptor.emit (descriptor.plan options)) registers value fuel =
        some outcome ∧ descriptor.Yields index outcome := by
  obtain ⟨arm, mem, contained⟩ := descriptor.exists_contains accepted inside
  obtain ⟨index, first⟩ : ∃ index, descriptor.firstMatch? value = some index :=
    Option.isSome_iff_exists.mp (List.findIdx?_isSome.trans (any_eq_true.mpr ⟨arm, mem, contained⟩))
  rcases descriptor.plan_cases accepted with chained | ⟨ranges, low, high, plan_eq, listing⟩
  · obtain ⟨fuel, finished⟩ :=
      emit_chain_yields chained accepted inhabited inside first
    exact ⟨index, .arm index, fuel, first, finished, .inl rfl⟩
  · obtain ⟨outcome, fuel, finished, yields⟩ :=
      emit_table_yields (plan_eq ▸ descriptor.tablePlan_isTable ranges) listing accepted
        (domain_fits fits) inside first
    exact ⟨index, outcome, fuel, first, finished, yields⟩

/-- A signed byte is matched against overlapping ranges on both sides of zero. -/
def signedBands : MatchDescriptor where
  signed := true
  arms := [⟨.literal 1, some 10⟩, ⟨.range (-3) 0 false, some 20⟩, ⟨.range (-2) 2 true, some 30⟩,
    ⟨.wildcard, none⟩, ⟨.literal 9, some 40⟩]

theorem signedBands_takes_first : signedBands.check = .ok () ∧ signedBands.InDomain (-2) ∧
      ∃ outcome fuel,
        run .byte (signedBands.emit (signedBands.plan ⟨0.5, 4, 256⟩)) (fun _ => 0) (-2) fuel =
          some outcome ∧ signedBands.Yields 1 outcome := by
  have accepted : signedBands.check = .ok () := rfl
  have inhabited : ∀ arm ∈ signedBands.arms, arm.pattern.hasAlternatives = true := by decide
  have inside : signedBands.InDomain (-2) := by decide
  obtain ⟨index, outcome, fuel, first, finished, yields⟩ :=
    signedBands.emit_takes_first ⟨0.5, 4, 256⟩ (fun _ => 0) (-2) accepted inhabited
      (fun _ impossible => by cases impossible) inside
  have index_eq : index = 1 := Option.some.inj (first.symm.trans rfl)
  exact ⟨accepted, inside, outcome, fuel, finished, index_eq ▸ yields⟩

end MatchDescriptor

end Backend65816

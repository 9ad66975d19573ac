import Backend65816.Proofs.MatchTests

/-!
# Slots of tables

A table covers the hull of the listed ranges. Each of its slots belongs to the first arm that
contains the value of the slot, and the values outside belong to the arm that takes the rest.
-/

namespace Backend65816

open List Option Bool Pattern

variable {low high maxSpan : Int} {range : Int × Int} {arms : List MatchArm} {arm : MatchArm}
  {rangeOf : MatchArm → Option (Int × Int)} {idx : Nat} {pattern : Pattern}

variable {ranges : List (Int × Int)}

/-! ## Owners of values -/

section Owners

variable {desc : MatchDescriptor} {value : Int}

theorem ownerOf?_of_mapM (listed : arms.mapM rangeOf = some ranges)
    (exact_range : ∀ arm ∈ arms, ∀ range, rangeOf arm = some range →
      arm.pattern.contains desc value = (decide (range.1 ≤ value) && decide (value ≤ range.2))) :
    ownerOf? ranges value = arms.findIdx? fun arm => arm.pattern.contains desc value := by
  induction arms generalizing ranges with
  | nil =>
    cases listed
    rfl
  | cons arm rest ih =>
    rw [mapM_cons] at listed
    obtain ⟨range, range_eq, listed⟩ := bind_eq_some_iff.mp listed
    obtain ⟨others, others_eq, listed⟩ := bind_eq_some_iff.mp listed
    grind [ownerOf?]

theorem exists_arm_of_mapM (listed : arms.mapM rangeOf = some ranges) (mem : range ∈ ranges) :
    ∃ arm ∈ arms, rangeOf arm = some range := by
  induction arms generalizing ranges with
  | nil =>
    cases listed
    cases mem
  | cons arm rest ih =>
    rw [mapM_cons] at listed
    obtain ⟨first, first_eq, listed⟩ := bind_eq_some_iff.mp listed
    obtain ⟨others, others_eq, listed⟩ := bind_eq_some_iff.mp listed
    grind

theorem Pattern.isListing_of (not_all : pattern.isCatchAll = false)
    (not_any : pattern.isAny = false) : pattern.isListing = true := by
  cases pattern with
  | literal _ | variant _ _ | range _ _ _ => rfl
  | any _ => cases not_any
  | wildcard | bind _ => cases not_all

theorem MatchDescriptor.listedArms_subset (mem : arm ∈ desc.listedArms) : arm ∈ desc.arms := by
  grind [listedArms]

theorem MatchDescriptor.listedArms_not_catchAll
    (mem : arm ∈ desc.listedArms) : arm.pattern.isCatchAll = false := by
  unfold listedArms at mem
  split at mem
  · rename_i idx found
    obtain ⟨bound, _, before⟩ := List.findIdx?_eq_some_iff_getElem.mp found
    obtain ⟨pos, position_lt, rfl⟩ := mem_take_iff_getElem.mp mem
    grind
  · rename_i none_found
    exact eq_false_iff.mpr fun all =>
      absurd (List.findIdx?_eq_none_iff.mp none_found arm mem) (by simp [all])

/-- The first matching arm is the first that lists the value, or else the one for the rest. -/
theorem MatchDescriptor.firstMatch?_eq (accepted : desc.check = .ok ()) : desc.firstMatch? value =
      (desc.listedArms.findIdx? fun arm => arm.pattern.contains desc value).or desc.fallback? := by
  unfold firstMatch? listedArms
  cases found : desc.fallback? with
  | none => simp
  | some idx =>
    obtain ⟨bound, all, _⟩ := List.findIdx?_eq_some_iff_getElem.mp found
    have contained : desc.arms[idx].pattern.contains desc value = true := by
      obtain ⟨coverage, covered⟩ := desc.coverage_ok_of_mem_arms accepted (getElem_mem bound)
      obtain ⟨all_eq, contains_eq⟩ := coverage_spec covered
      rw [contains_eq, all_eq, all, Bool.true_or]
    have split_eq : desc.arms = desc.arms.take idx ++
        desc.arms[idx] :: desc.arms.drop (idx + 1) := by
      simp
    grind

end Owners

theorem hull?_spec (hulled : hull? ranges = some (low, high)) :
    (∀ range ∈ ranges, low ≤ range.1 ∧ range.2 ≤ high) ∧
      ∀ least greatest, (∀ range ∈ ranges, least ≤ range.1 ∧ range.2 ≤ greatest) →
        least ≤ low ∧ high ≤ greatest := by
  cases ranges with
  | nil => cases hulled
  | cons first rest =>
    induction rest generalizing first with
    | nil =>
      cases hulled
      simp
    | cons second rest ih =>
      obtain ⟨holds, lies⟩ := ih (min first.1 second.1, max first.2 second.2) hulled
      simp only [forall_mem_cons] at holds lies ⊢
      obtain ⟨widened, holds_rest⟩ := holds
      refine ⟨⟨by omega, by omega, holds_rest⟩, ?_⟩
      rintro least greatest ⟨first_lies, second_lies, rest_lies⟩
      exact lies least greatest ⟨by omega, rest_lies⟩

/-! ## Slots of tables -/

def MatchPlan.outcomes (plan : MatchPlan) : List MatchOutcome :=
  if plan.strategy = .lookupTable then plan.values.map .constant else plan.owners.map .arm

/-- Ranges with the arms' values, and bounds of them within the domain. -/
structure Listing (descriptor : MatchDescriptor) (ranges : List (Int × Int)) (low high : Int) :
    Prop where
  owner_eq : ∀ value, ownerOf? ranges value =
    descriptor.listedArms.findIdx? fun arm => arm.pattern.contains descriptor value
  within : ∀ range ∈ ranges, low ≤ range.1 ∧ range.2 ≤ high
  low_le_high : low ≤ high
  least_le : descriptor.domain.1 ≤ low
  le_greatest : high ≤ descriptor.domain.2

namespace MatchDescriptor

variable {desc : MatchDescriptor} {options : DensityOptions}

theorem checkValues_of_listed (checked : ∃ own, desc.checkValues pattern = .ok own)
    (listed : (match desc.valueRange pattern with
      | .ok (low, high) => if high - low + 1 > maxSpan then none else some (low, high)
      | .error _ => none) = some range) : desc.checkValues pattern = .ok range := by
  obtain ⟨own, own_checked⟩ := checked
  simp only [(desc.checkValues_ok_iff.mp own_checked).1] at listed
  grind

theorem listing_of_ranges (accepted : desc.check = .ok ())
    (single : (desc.arms.any fun arm => arm.pattern.isAny) = false)
    (listed : desc.listedRanges? maxSpan = some ranges)
    (hulled : hull? ranges = some (low, high)) : Listing desc ranges low high := by
  have listing : ∀ arm ∈ desc.listedArms, arm.pattern.isListing = true := by
    intro arm mem
    have not_all := desc.listedArms_not_catchAll mem
    have not_any : arm.pattern.isAny = false := by
      simpa using any_eq_false.mp single arm (desc.listedArms_subset mem)
    exact arm.pattern.isListing_of not_all not_any
  have checked : ∀ arm ∈ desc.listedArms, ∃ range, desc.checkValues arm.pattern = .ok range := by
    intro arm mem
    obtain ⟨coverage, covered⟩ := desc.coverage_ok_of_mem_arms accepted (desc.listedArms_subset mem)
    obtain ⟨range, checked, _⟩ := coverage_listing (listing arm mem) covered
    exact ⟨range, checked⟩
  obtain ⟨within, inside⟩ := hull?_spec hulled
  have bounds := inside desc.domain.1 desc.domain.2 fun range mem => by
    obtain ⟨arm, arm_mem, range_eq⟩ := exists_arm_of_mapM listed mem
    obtain ⟨_, _, least_le, le_greatest⟩ :=
      desc.checkValues_ok_iff.mp (checkValues_of_listed (checked arm arm_mem) range_eq)
    exact ⟨least_le, le_greatest⟩
  have low_le_high : low ≤ high := by
    cases ranges with
    | nil => cases hulled
    | cons range rest =>
      obtain ⟨arm, arm_mem, range_eq⟩ := exists_arm_of_mapM listed (.head _)
      have ordered := (desc.checkValues_ok_iff.mp (checkValues_of_listed (checked arm arm_mem)
        range_eq)).2.1
      grind
  refine ⟨fun value => ownerOf?_of_mapM listed fun arm mem range range_eq => ?_, within,
    low_le_high, bounds.1, bounds.2⟩
  exact contains_of_valueRange (listing arm mem)
    (desc.checkValues_ok_iff.mp (checkValues_of_listed (checked arm mem) range_eq)).1

theorem plan_cases (accepted : desc.check = .ok ()) : (desc.plan options).strategy = .branchChain ∨
      ∃ ranges low high, desc.plan options = desc.tablePlan ranges low high ∧
        Listing desc ranges low high := by
  unfold plan
  split
  · exact .inl rfl
  · rename_i single
    simp only
    split
    · exact .inl rfl
    · rename_i ranges listed
      split
      · exact .inl rfl
      · rename_i low high hulled
        split
        · exact .inl rfl
        · split
          · exact .inr ⟨ranges, low, high, rfl, listing_of_ranges accepted
              (eq_false_iff.mpr single) listed hulled⟩
          · exact .inl rfl

end MatchDescriptor

def MatchDescriptor.constOf (descriptor : MatchDescriptor) (arm : Nat) : Option Int :=
  (descriptor.arms[arm]?).bind MatchArm.const

/-- What a plan with a table from `low` to `high` consists of. -/
structure IsTable (descriptor : MatchDescriptor) (ranges : List (Int × Int)) (low high : Int)
    (plan : MatchPlan) : Prop where
  strategy_ne : plan.strategy ≠ .branchChain
  first_eq : plan.first = low
  fallback_eq : plan.fallback = descriptor.fallback?
  rangeCheck_eq : plan.rangeCheck =
    (decide (low > descriptor.domain.1) || decide (high < descriptor.domain.2))
  /-- Slots belong to the first range with their value, or else to the arm that takes the rest. -/
  owners_eq : plan.owners = (spanValues low (high - low + 1).toNat).map fun value =>
    ((ownerOf? ranges value).or descriptor.fallback?).getD 0
  constants : plan.strategy = .lookupTable →
    (∀ arm ∈ plan.owners, (descriptor.constOf arm).isSome = true) ∧
      plan.values = plan.owners.filterMap descriptor.constOf

theorem MatchDescriptor.tablePlan_isTable (desc : MatchDescriptor) (ranges : List (Int × Int))
    {low high : Int} : IsTable desc ranges low high (desc.tablePlan ranges low high) := by
  unfold tablePlan
  simp only [all_append]
  generalize (if (decide (low > desc.domain.1) || decide (high < desc.domain.2)) = true
    then desc.fallback?.toList else []) = beyond
  split
  · rename_i constant
    rw [Bool.and_eq_true, List.all_eq_true] at constant
    exact ⟨by simp, rfl, rfl, rfl, rfl, fun _ => ⟨constant.1, rfl⟩⟩
  · exact ⟨by simp, rfl, rfl, rfl, rfl, fun impossible => by cases impossible⟩

namespace IsTable

variable {desc : MatchDescriptor} {plan : MatchPlan} {value : Int}

section

variable (table : IsTable desc ranges low high plan)
include table

theorem owners_length : plan.owners.length = (high - low + 1).toNat := by
  rw [table.owners_eq, length_map, spanValues, length_map, length_range]

theorem owner (listing : Listing desc ranges low high) (accepted : desc.check = .ok ())
    (low_le : low ≤ value) (le_high : value ≤ high)
    (first : desc.firstMatch? value = some idx) : plan.owners[(value - low).toNat]? = some idx := by
  have slot_lt : (value - low).toNat < (high - low + 1).toNat := by omega
  rw [desc.firstMatch?_eq accepted, ← listing.owner_eq value] at first
  rw [table.owners_eq, spanValues, List.getElem?_map, List.getElem?_map,
    List.getElem?_range slot_lt]
  grind

/-- A value outside of the table belongs to the arm that takes the rest, and is looked for. -/
theorem outside (listing : Listing desc ranges low high) (accepted : desc.check = .ok ())
    (inside : desc.InDomain value) (out : ¬(low ≤ value ∧ value ≤ high)) :
    plan.fallback = desc.firstMatch? value ∧ plan.rangeCheck = true := by
  constructor
  · have unowned : ownerOf? ranges value = none := by
      refine List.findIdx?_eq_none_iff.mpr fun range mem => ?_
      have within := listing.within range mem
      grind
    rw [desc.firstMatch?_eq accepted, ← listing.owner_eq value, unowned, none_or, table.fallback_eq]
  · unfold MatchDescriptor.InDomain at inside
    rw [table.rangeCheck_eq, or_eq_true, decide_eq_true_eq, decide_eq_true_eq]
    omega

end

end IsTable

theorem getElem?_filterMap_of_all {α β : Type} {f : α → Option β} {items : List α}
    (all : ∀ item ∈ items, (f item).isSome = true) (pos : Nat) :
    (items.filterMap f)[pos]? = items[pos]?.bind f := by
  induction items generalizing pos with
  | nil => simp
  | cons item rest ih =>
    obtain ⟨image, image_eq⟩ := isSome_iff_exists.mp (all item (.head _))
    rw [filterMap_cons_some image_eq]
    cases pos with
    | zero => simp [image_eq]
    | succ pos =>
      simpa using ih (fun other mem => all other (.tail _ mem)) pos

/-- The outcome stands for an arm: it is the arm or the constant of the arm. -/
def MatchDescriptor.Yields (descriptor : MatchDescriptor) (index : Nat) (outcome : MatchOutcome) :
    Prop :=
  outcome = .arm index ∨ ∃ value, descriptor.constOf index = some value ∧ outcome = .constant value

theorem IsTable.outcome {desc : MatchDescriptor} {plan : MatchPlan}
    (table : IsTable desc ranges low high plan) {slot : Nat}
    (owned : plan.owners[slot]? = some idx) :
    ∃ res, plan.outcomes[slot]? = some res ∧ desc.Yields idx res := by
  unfold MatchPlan.outcomes
  split
  · rename_i lookup
    obtain ⟨constant, values_eq⟩ := table.constants lookup
    obtain ⟨value, value_eq⟩ :=
      isSome_iff_exists.mp (constant idx (mem_of_getElem? owned))
    refine ⟨.constant value, ?_, .inr ⟨value, value_eq, rfl⟩⟩
    simp_all [getElem?_filterMap_of_all]
  · exact ⟨.arm idx, by simp_all, .inl rfl⟩

end Backend65816

import Backend65816.Proofs.MatchCoverage
import Backend65816.Proofs.MatchRun

/-!
# Tests of patterns

The tests of a pattern end the block in which they start: they reach one of two blocks, depending on
whether the pattern contains the value. A chain of such tests takes the first arm that contains the
value.
-/

namespace Backend65816

open List Bool

variable {code : MatchCode} {holds : Int → Bool} {arm : MatchArm}

namespace MatchEmit

open MatchCommand

/-- The commands end the block in which they start: they reach `yes` if the value of the scrutinee
satisfies the condition, and `no` if not. -/
structure Decides (descriptor : MatchDescriptor) (before after : MatchCode)
    (commands : List MatchCommand) (yes no : Nat) (holds : Int → Bool) : Prop where
  emits : Emits before.blocks before after commands
  ends : ∀ {width : Width} {blocks : Nat → List MatchCommand} {current : Nat}
    {rest : List MatchCommand} {registers : Nat → Int} {outcome : MatchOutcome},
    current ≤ before.blocks → Fills blocks current commands →
    descriptor.InDomain (registers scrutinee) →
    Ends width blocks
      ⟨blocks (if holds (registers scrutinee) then yes else no), registers⟩ outcome →
    Ends width blocks ⟨codeOf current current commands ++ rest, registers⟩ outcome

variable {desc : MatchDescriptor} {yes no : Nat}

theorem decides_test {cond : Cond} {bound : Int}
    (agrees : ∀ value, desc.InDomain value → cond.eval value bound = holds value) :
    Decides desc code ((command (.test cond scrutinee bound yes no)).run code).2
      [.test cond scrutinee bound yes no] yes no holds where
  emits := .command code _ (by simp)
  ends _ _ inside later := by
    simp_all [codeOf, Ends.test]

theorem decides_jump (always : ∀ value, desc.InDomain value → holds value = true) :
    Decides desc code ((command (.jump yes)).run code).2 [.jump yes] yes no holds where
  emits := .command code _ (by simp)
  ends _ _ inside later := by
    simp only [codeOf]
    simp_all [Ends.jump]

theorem Decides.then_block {mid after : MatchCode} {name : String}
    {front back : List MatchCommand} {left right : Nat} {first second : Int → Bool}
    (front_decides : Decides desc ((newBlock name).run code).2 mid front left right first)
    (back_decides : Decides desc
      ((command (.enter (code.blocks + 1))).run mid).2 after back yes no second)
    (agrees : ∀ value, desc.InDomain value →
      (if first value then left else right) = (if holds value then yes else no) ∨
        (if first value then left else right) = code.blocks + 1 ∧ second value = holds value) :
    Decides desc code after
      (.newBlock (code.blocks + 1) name :: (front ++ .enter (code.blocks + 1) :: back))
      yes no holds := by
  have made_le : code.blocks + 1 ≤ mid.blocks := front_decides.emits.blocks_le
  constructor
  · have entering : Emits code.blocks mid _ [MatchCommand.enter (code.blocks + 1)] :=
      .enter mid (Nat.lt_succ_self _) made_le
    exact ((Emits.newBlock code name).trans (front_decides.emits.mono (Nat.le_succ _))).trans
      (entering.trans (back_decides.emits.mono (Nat.le_trans (Nat.le_succ _) made_le)))
  · intro width blocks cur rest regs res current_le fills inside later
    have fills_front : Fills blocks cur (front ++ .enter (code.blocks + 1) :: back) := by
      intro id entered
      exact fills id (.tail _ entered)
    have fresh : ∀ id, .enter id ∈ MatchCommand.enter (code.blocks + 1) :: back →
        cur ≠ id ∧ .enter id ∉ front := by
      intro id entered
      rcases mem_cons.mp entered with same | entered
      · cases same
        refine ⟨by omega, fun found => ?_⟩
        have above := (front_decides.emits.entered _ found).1
        exact Nat.lt_irrefl _ above
      · have above : mid.blocks < id := (back_decides.emits.entered id entered).1
        refine ⟨by omega, fun found => ?_⟩
        have below := (front_decides.emits.entered _ found).2
        omega
    obtain ⟨fills_back, tail, filled⟩ := fills_front.after_enter fresh
    rw [codeOf, codeOf_append_enter, append_assoc]
    apply front_decides.ends (Nat.le_trans current_le (Nat.le_succ _)) fills_front.of_append inside
    rcases agrees _ inside with target_eq | ⟨target_eq, same⟩
    · rwa [target_eq]
    · rw [target_eq, ← filled]
      exact back_decides.ends made_le fills_back inside (by rwa [same])

theorem testRange_decides (yes no : Nat) {low high : Int} (code : MatchCode) :
    ∃ commands, Decides desc code ((testRange desc low high yes no).run code).2 commands
      yes no fun value => decide (low ≤ value) && decide (value ≤ high) := by
  unfold testRange
  simp only
  split
  · refine ⟨_, decides_test fun value _ => ?_⟩
    rw [Cond.eval, ← decide_and, decide_eq_decide]
    omega
  split
  · refine ⟨_, decides_jump fun value inside => ?_⟩
    have bounds := inside
    unfold MatchDescriptor.InDomain at bounds
    grind
  split
  · refine ⟨_, decides_test fun value inside => ?_⟩
    unfold MatchDescriptor.InDomain at inside
    rw [Cond.eval, ← decide_and, decide_eq_decide]
    omega
  split
  · refine ⟨_, decides_test fun value inside => ?_⟩
    unfold MatchDescriptor.InDomain at inside
    rw [Cond.eval, ← decide_and, decide_eq_decide]
    omega
  · refine ⟨_, (decides_test fun _ _ => rfl).then_block
      (decides_test fun _ _ => rfl) fun value inside => ?_⟩
    simp only [Cond.eval]
    grind

mutual

theorem testPattern_decides {pattern : Pattern} {coverage : Coverage}
    (covered : pattern.coverage desc = .ok coverage)
    (inhabited : pattern.hasAlternatives = true) (yes no : Nat) (code : MatchCode) :
    ∃ commands, Decides desc code ((testPattern desc pattern yes no).run code).2
      commands yes no fun value => pattern.contains desc value := by
  cases pattern with
  | literal _ | variant _ _ | range _ _ _ =>
    obtain ⟨range, checked, rfl⟩ := Pattern.coverage_listing rfl covered
    have ranged := (desc.checkValues_ok_iff.mp checked).1
    obtain ⟨commands, decides⟩ := testRange_decides yes no code
    refine ⟨commands, ?_⟩
    simpa only [testPattern, testValues, ranged, Pattern.contains_of_valueRange rfl ranged]
      using decides
  | any alternatives =>
    rw [Pattern.hasAlternatives, and_eq_true, not_eq_true', isEmpty_eq_false_iff] at inhabited
    rw [Pattern.coverage] at covered
    simp only [testPattern, Pattern.contains]
    exact testAlternatives_decides covered inhabited.1 inhabited.2 code
  | wildcard | bind _ =>
    simp only [testPattern]
    exact ⟨_, decides_jump fun _ _ => rfl⟩

theorem testAlternatives_decides {alternatives : List Pattern} {coverage : Coverage}
    (covered : coverageOfList desc alternatives = .ok coverage) (nonempty : alternatives ≠ [])
    (inhabited : allHaveAlternatives alternatives = true) {yes no : Nat} (code : MatchCode) :
    ∃ commands, Decides desc code ((testAlternatives desc alternatives yes no).run code).2
      commands yes no fun value => anyContains desc value alternatives := by
  cases alternatives with
  | nil => exact absurd rfl nonempty
  | cons pattern rest =>
    obtain ⟨first, others, first_covered, rest_covered, rfl⟩ := coverageOfList_cons covered
    rw [allHaveAlternatives, and_eq_true] at inhabited
    rw [testAlternatives]
    split
    · rename_i last
      obtain ⟨commands, decides⟩ := testPattern_decides first_covered inhabited.1 yes no code
      refine ⟨commands, ?_⟩
      simp_all [anyContains]
    · rename_i more
      obtain ⟨front, front_decides⟩ := testPattern_decides first_covered inhabited.1 yes
        (code.blocks + 1) ((newBlock "match.alt").run code).2
      obtain ⟨back, back_decides⟩ := testAlternatives_decides rest_covered
        (by simpa using more) inhabited.2 _
      refine ⟨_, front_decides.then_block back_decides fun value _ => ?_⟩
      grind [anyContains]

end

/-! ## Chains of tests -/

/-- The commands end the block in which they start with the first of the arms, numbered from the
given index on, that contains the value of the scrutinee. -/
structure TakesFirst (descriptor : MatchDescriptor) (index : Nat) (arms : List MatchArm)
    (before after : MatchCode) (commands : List MatchCommand) : Prop where
  emits : Emits before.blocks before after commands
  ends : ∀ {width : Width} {blocks : Nat → List MatchCommand} {current : Nat}
    {rest : List MatchCommand} {registers : Nat → Int} {position : Nat},
    current ≤ before.blocks → Fills blocks current commands →
    descriptor.InDomain (registers scrutinee) →
    (arms.findIdx? fun arm => arm.pattern.contains descriptor (registers scrutinee)) =
      some position →
    Ends width blocks ⟨codeOf current current commands ++ rest, registers⟩
      (.arm (index + position))

variable {rest : List MatchArm}

/-- An arm without a test is taken, so it must be the last one or contain every value. -/
theorem takesFirst_arm {idx : Nat} {coverage : Coverage}
    (covered : arm.pattern.coverage desc = .ok coverage)
    (untested : (rest.isEmpty || arm.pattern.isCatchAll) = true) (code : MatchCode) :
    TakesFirst desc idx (arm :: rest) code ((command (.arm idx)).run code).2 [.arm idx] where
  emits := .command code _ (by simp)
  ends {_ _ _ _ regs pos} _ _ _ first := by
    simp only [codeOf]
    have position_eq : pos = 0 := by
      rw [List.findIdx?_cons] at first
      rcases or_eq_true_iff.mp untested with last | all
      · simp_all
      · have contained : arm.pattern.contains desc (regs scrutinee) = true := by
          obtain ⟨all_eq, contains_eq⟩ := arm.pattern.coverage_spec covered
          rw [contains_eq, all_eq, all, Bool.true_or]
        simp_all
    rw [position_eq]
    exact ends_arm

theorem takesFirst_tested {idx : Nat} {mid after : MatchCode} {front back : List MatchCommand}
    (decides : Decides desc
      ((newBlock "match.next").run ((newBlock "match.arm").run code).2).2 mid front
      (code.blocks + 1) (code.blocks + 2) fun value => arm.pattern.contains desc value)
    (later : TakesFirst desc (idx + 1) rest ((command (.enter (code.blocks + 2))).run
        ((command (.arm idx)).run
          ((command (.enter (code.blocks + 1))).run mid).2).2).2 after back) :
    TakesFirst desc idx (arm :: rest) code after
      (.newBlock (code.blocks + 1) "match.arm" :: .newBlock (code.blocks + 2) "match.next" ::
        (front ++ .enter (code.blocks + 1) :: ([.arm idx] ++ .enter (code.blocks + 2) :: back))) := by
  have made_le : code.blocks + 2 ≤ mid.blocks := decides.emits.blocks_le
  have front_between : ∀ id, .enter id ∈ front → code.blocks + 2 < id ∧ id ≤ mid.blocks :=
    decides.emits.entered
  have back_above : ∀ id, .enter id ∈ back → mid.blocks < id :=
    fun id entered => (later.emits.entered id entered).1
  constructor
  · have body_entered : Emits code.blocks mid _ [MatchCommand.enter (code.blocks + 1)] :=
      .enter mid (by omega) (by omega)
    have next_entered : Emits code.blocks ((command (.arm idx)).run
          ((command (.enter (code.blocks + 1))).run mid).2).2 _
        [MatchCommand.enter (code.blocks + 2)] :=
      .enter _ (by omega) made_le
    have made : Emits code.blocks code _
        ([.newBlock (code.blocks + 1) "match.arm"] ++ [.newBlock (code.blocks + 2) "match.next"]) :=
      (Emits.newBlock code "match.arm").trans (.newBlock _ "match.next")
    have below : code.blocks ≤ mid.blocks := by omega
    exact (made.trans (decides.emits.mono (Nat.le_add_right _ 2))).trans (body_entered.trans
      ((Emits.command _ _ (by simp)).trans (next_entered.trans (later.emits.mono below))))
  · intro width blocks cur tail regs pos current_le fills inside first
    have fills_front : Fills blocks cur (front ++ .enter (code.blocks + 1) ::
        ([.arm idx] ++ .enter (code.blocks + 2) :: back)) := by
      intro id entered
      exact fills id (.tail _ (.tail _ entered))
    have body_fresh : ∀ id, .enter id ∈ MatchCommand.enter (code.blocks + 1) ::
        ([.arm idx] ++ .enter (code.blocks + 2) :: back) → cur ≠ id ∧ .enter id ∉ front := by
      grind
    have back_fresh : ∀ id, .enter id ∈ MatchCommand.enter (code.blocks + 2) :: back →
        code.blocks + 1 ≠ id ∧ .enter id ∉ [MatchCommand.arm idx] := by
      grind
    obtain ⟨fills_body, body_tail, body_filled⟩ := fills_front.after_enter body_fresh
    obtain ⟨fills_back, back_tail, back_filled⟩ := fills_body.after_enter back_fresh
    simp only [codeOf]
    rw [codeOf_append_enter, append_assoc]
    apply decides.ends (Nat.le_trans current_le (Nat.le_add_right _ 2)) fills_front.of_append inside
    rw [List.findIdx?_cons] at first
    split at first
    · rename_i contained
      cases first
      rw [if_pos contained, ← body_filled]
      simp [codeOf, ends_arm]
    · rename_i missed
      obtain ⟨later_position, later_first, rfl⟩ := Option.map_eq_some_iff.mp first
      rw [if_neg missed, ← back_filled]
      have ended : Ends width blocks
          ⟨codeOf (code.blocks + 2) (code.blocks + 2) back ++ back_tail, regs⟩
          (.arm (idx + 1 + later_position)) :=
        later.ends made_le fills_back inside later_first
      rwa [Nat.add_assoc, Nat.add_comm 1] at ended

theorem chain_takesFirst {arms : List MatchArm} (idx : Nat)
    (checked : ∀ arm ∈ arms, ∃ coverage, arm.pattern.coverage desc = .ok coverage)
    (inhabited : ∀ arm ∈ arms, arm.pattern.hasAlternatives = true) (nonempty : arms ≠ [])
    (code : MatchCode) :
    ∃ commands, TakesFirst desc idx arms code ((chain desc idx arms).run code).2 commands := by
  induction arms generalizing idx code with
  | nil => exact absurd rfl nonempty
  | cons arm rest ih =>
    obtain ⟨coverage, covered⟩ := checked arm (.head _)
    rw [chain]
    split
    · exact ⟨_, takesFirst_arm covered ‹_› code⟩
    · rename_i tested
      let made := ((newBlock "match.next").run ((newBlock "match.arm").run code).2).2
      obtain ⟨front, decides⟩ := testPattern_decides covered (inhabited arm (.head _))
        (code.blocks + 1) (code.blocks + 2) made
      obtain ⟨back, later⟩ := ih (idx + 1) (fun other mem => checked other (.tail _ mem))
        (fun other mem => inhabited other (.tail _ mem))
        (by rintro rfl; simp at tested) _
      exact ⟨_, takesFirst_tested decides later⟩

end MatchEmit

end Backend65816

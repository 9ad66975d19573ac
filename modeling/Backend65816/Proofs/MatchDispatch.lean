import Backend65816.Proofs.MatchSlots

/-!
# Code of tables

A table is carried out by a selection in one block, by an index in a register. A jump table has a
block for each arm that owns a slot. A range check leads the indices behind the end of the table to
a block for the arm that takes the rest.
-/

namespace Backend65816

open List Nat

variable {cur idx : Nat} {blocks : Nat → List MatchCommand} {α : Type} {arms : List Nat}

namespace MatchEmit

variable {pairs : List (Nat × Nat)} {block : Nat}

open MatchCommand

variable {id arm floor : Nat} {plan : MatchPlan} {outside : Option Nat} {code : MatchCode}

theorem codeOf_append_newBlocks {made : List MatchCommand}
    (only : ∀ command ∈ made, ∃ num name, command = .newBlock num name) (id cur : Nat)
    (back : List MatchCommand) : codeOf id cur (made ++ back) = codeOf id cur back := by
  induction made with
  | nil => rfl
  | cons command rest ih =>
    obtain ⟨num, name, rfl⟩ := only command (.head _)
    exact ih fun other mem => only other (.tail _ mem)

theorem armBlocks_spec (floor : Nat) (code : MatchCode) :
    ((armBlocks arms).run code).1 = arms.zipIdx (code.blocks + 1) ∧
      ((armBlocks arms).run code).2.blocks = code.blocks + arms.length ∧
      ∃ made, (∀ command ∈ made, ∃ num name, command = .newBlock num name) ∧
        Emits floor code ((armBlocks arms).run code).2 made := by
  induction arms generalizing code with
  | nil => exact ⟨rfl, rfl, [], by simp, ⟨(List.append_nil _).symm, Nat.le_refl _, by simp⟩⟩
  | cons arm rest ih =>
    obtain ⟨pairs_eq, blocks_eq, made, only, emits⟩ := ih ((newBlock "match.arm").run code).2
    have run_eq : (armBlocks (arm :: rest)).run code =
        ((arm, code.blocks + 1) :: ((armBlocks rest).run ((newBlock "match.arm").run code).2).1,
          ((armBlocks rest).run ((newBlock "match.arm").run code).2).2) := by
      rw [armBlocks, mapM_cons]
      rfl
    rw [run_eq]
    refine ⟨?_, ?_, .newBlock (code.blocks + 1) "match.arm" :: made, ?_, ?_⟩
    · rw [pairs_eq, zipIdx_cons]
      rfl
    · rw [blocks_eq, length_cons]
      change code.blocks + 1 + rest.length = _
      omega
    · simp_all
    · exact (Emits.newBlock code "match.arm").trans emits

def entries (pairs : List (Nat × Nat)) : List MatchCommand :=
  pairs.flatMap fun pair => [.enter pair.2, .arm pair.1]

theorem mem_entries (entered : .enter id ∈ entries pairs) : ∃ arm, (arm, id) ∈ pairs := by
  obtain ⟨pair, mem, entered⟩ := mem_flatMap.mp entered
  grind

theorem enter_mem_entries (mem : (arm, id) ∈ pairs) : .enter id ∈ entries pairs :=
  mem_flatMap.mpr ⟨(arm, id), mem, .head _⟩

theorem entries_emits (pairs : List (Nat × Nat)) (code : MatchCode)
    (between : ∀ pair ∈ pairs, floor < pair.2 ∧ pair.2 ≤ code.blocks) :
    Emits floor code ((pairs.forM fun (pair : Nat × Nat) => do
        command (.enter pair.2)
        command (.arm pair.1)).run code).2 (entries pairs) := by
  induction pairs generalizing code with
  | nil => exact ⟨(List.append_nil _).symm, Nat.le_refl _, by simp [entries]⟩
  | cons pair rest ih =>
    obtain ⟨above, le⟩ := between pair (.head _)
    have entered := Emits.enter code above le
    exact (entered.trans (.command _ _ (by simp))).trans
      (ih _ fun other mem => between other (.tail _ mem))

theorem arm_prefix_codeOf (back : List MatchCommand) (mem : (arm, id) ∈ pairs)
    (distinct : (pairs.map Prod.snd).Nodup) (elsewhere : cur ≠ id) :
    [.arm arm] <+: codeOf id cur (entries pairs ++ back) := by
  induction pairs generalizing cur with
  | nil => cases mem
  | cons pair rest ih =>
    rw [map_cons, nodup_cons] at distinct
    rcases mem_cons.mp mem with rfl | mem
    · simp [entries, codeOf]
    · have different : pair.2 ≠ id := by
        grind
      simp_all [entries, codeOf]

/-- The commands end the block in which they start with the slot of an index. The block for values
outside of the table ends with the arm that takes the rest. -/
structure Selects (floor : Nat) (plan : MatchPlan) (index : Nat) (outside : Option Nat)
    (before after : MatchCode) (commands : List MatchCommand) : Prop where
  emits : Emits floor before after commands
  inside : ∀ {width : Width} {blocks : Nat → List MatchCommand} {current : Nat}
    {rest : List MatchCommand} {registers : Nat → Int} {outcome : MatchOutcome},
    current ≤ before.blocks → Fills blocks current commands →
    slotAt? plan.outcomes (registers index) = some outcome →
    Ends width blocks ⟨codeOf current current commands ++ rest, registers⟩ outcome
  beyond : ∀ {width : Width} {blocks : Nat → List MatchCommand} {current block arm : Nat}
    {registers : Nat → Int},
    current ≤ before.blocks → Fills blocks current commands → outside = some block →
    block ≠ current → plan.fallback = some arm →
    Ends width blocks ⟨blocks block, registers⟩ (.arm arm)

/-- Commands that end the block for values outside of a table, if it can be reached. -/
def closing (outside fallback : Option Nat) (finish : Nat → MatchCommand) : List MatchCommand :=
  match outside, fallback with
  | some block, some rest => [.enter block] ++ [finish rest]
  | _, _ => []

theorem closing_prefix {head : List MatchCommand} {finish : Nat → MatchCommand}
    (fills : Fills blocks cur (head ++ closing (some block) (some arm) finish))
    (elsewhere : cur ≠ block) (never : .enter block ∉ head) :
    codeOf block block [finish arm] <+: blocks block := by
  have filled := fills block (by simp [closing])
  simp_all [closing, codeOf_append_enter, codeOf_eq_nil]

theorem slotAt?_map {β : Type} (f : α → β) (table : List α) (idx : Int) :
    slotAt? (table.map f) idx = (slotAt? table idx).map f := by
  grind [slotAt?]

theorem mem_of_slotAt? {table : List α} {idx : Int} {item : α}
    (found : slotAt? table idx = some item) : item ∈ table := by
  grind [slotAt?]

theorem lookUp_selects (lookup : plan.strategy = .lookupTable) (idx : Nat)
    (made : ∀ block, outside = some block → floor < block ∧ block ≤ code.blocks) :
    Selects floor plan idx outside code ((lookUp plan idx outside).run code).2
      ([.lookup plan.values idx] ++ closing outside plan.fallback .arm) := by
  refine ⟨(Emits.command code _ (by simp)).trans ?_, ?_, ?_⟩
  · unfold lookUp
    cases outside <;> cases plan.fallback
    case some.some block arm =>
      obtain ⟨above, le⟩ := made block rfl
      exact (Emits.enter ((command (.lookup plan.values idx)).run code).2 above
        le).trans (.command _ (.arm arm) (by simp))
    all_goals exact ⟨(List.append_nil _).symm, Nat.le_refl _, by simp [closing]⟩
  · intro width blocks cur rest regs res _ _ found
    rw [MatchPlan.outcomes, if_pos lookup, slotAt?_map] at found
    obtain ⟨value, value_eq, rfl⟩ := Option.map_eq_some_iff.mp found
    simp only [codeOf, if_true, cons_append, nil_append]
    exact .of_outcome (by simp only [step, value_eq, Option.map_some])
  · intro width blocks cur block arm regs _ fills block_eq different arm_eq
    rw [block_eq, arm_eq] at fills
    obtain ⟨tail, filled⟩ := closing_prefix fills different.symm (by simp)
    rw [← filled]
    simp only [codeOf, if_true, append_nil, singleton_append]
    exact ends_arm

/-- The command that ends the block for values outside of a jump table. -/
def jumpOrArm (pairs : List (Nat × Nat)) (arm : Nat) : MatchCommand :=
  match pairs.lookup arm with
  | some target => .jump target
  | none => .arm arm

theorem jumpOrArm_ne_enter (pairs : List (Nat × Nat)) (arm id : Nat) :
    jumpOrArm pairs arm ≠ .enter id := by
  unfold jumpOrArm
  split <;> simp

theorem exists_lookup_zipIdx (mem : arm ∈ arms) (start : Nat) :
    ∃ block, (arms.zipIdx start).lookup arm = some block := by
  refine Option.ne_none_iff_exists'.mp fun missing => ?_
  obtain ⟨pos, bound, rfl⟩ := getElem_of_mem mem
  have unequal := lookup_eq_none_iff.mp missing (arms[pos], start + pos)
    (List.mk_add_mem_zipIdx_iff_getElem?.mpr (List.getElem?_eq_getElem bound))
  simp at unequal

/-- The commands in `front` make blocks for the arms that own slots, with numbers after `made`. -/
structure ArmBlocks (owners : List Nat) (made last : Nat) (pairs : List (Nat × Nat))
    (front : List MatchCommand) : Prop where
  between : ∀ pair ∈ pairs, made < pair.2 ∧ pair.2 ≤ last
  distinct : (pairs.map Prod.snd).Nodup
  found : ∀ arm ∈ owners, ∃ block, pairs.lookup arm = some block
  only : ∀ command ∈ front, ∃ number name, command = .newBlock number name

/-- The blocks of the arms that own slots of a plan, and the code that makes them. -/
abbrev ownBlocks (plan : MatchPlan) (code : MatchCode) : List (Nat × Nat) × MatchCode :=
  (armBlocks plan.owners.eraseDups.mergeSort).run code

theorem exists_armBlocks (floor : Nat) (code : MatchCode) :
    ∃ front, Emits floor code (ownBlocks plan code).2 front ∧ ArmBlocks plan.owners code.blocks
      (ownBlocks plan code).2.blocks (ownBlocks plan code).1 front := by
  obtain ⟨pairs_eq, blocks_eq, front, only, emits⟩ :=
    armBlocks_spec floor code
  refine ⟨front, emits, ?_, ?_, ?_, only⟩
  · grind
  all_goals simp_all [nodup_range', exists_lookup_zipIdx]

theorem mem_of_lookup (found : pairs.lookup arm = some block) : (arm, block) ∈ pairs := by
  obtain ⟨front, back, pairs_eq, _⟩ := lookup_eq_some_iff.mp found
  simp [pairs_eq]

/-- A jump through a table, followed by the blocks of the arms. -/
def jumpCode (owners : List Nat) (index : Nat) (pairs : List (Nat × Nat)) : List MatchCommand :=
  .jumpTable index (owners.map fun arm => (pairs.lookup arm).getD 0) :: entries pairs

namespace ArmBlocks

variable {owners : List Nat} {made last : Nat} {front : List MatchCommand}

variable (own : ArmBlocks owners made last pairs front)
include own

theorem reaches {width : Width} {regs : Nat → Int} {back : List MatchCommand}
    (current_le : cur ≤ made)
    (fills : Fills blocks cur (front ++ (jumpCode owners idx pairs ++ back)))
    (found : pairs.lookup arm = some block) :
    Ends width blocks ⟨blocks block, regs⟩ (.arm arm) := by
  have mem := mem_of_lookup found
  have elsewhere : cur ≠ block := by
    have above := (own.between _ mem).1
    omega
  have filled := fills block (by simp [jumpCode, enter_mem_entries mem])
  rw [codeOf_append_newBlocks own.only] at filled
  simp only [jumpCode, codeOf, if_neg elsewhere, cons_append, nil_append] at filled
  obtain ⟨tail, filled⟩ := (arm_prefix_codeOf back mem own.distinct elsewhere).trans filled
  rw [← filled]
  exact ends_arm

theorem enter_notMem (old : block ≤ made) (idx : Nat) :
    .enter block ∉ front ++ jumpCode owners idx pairs := by
  intro entered
  rcases mem_append.mp entered with entered | entered
  · obtain ⟨_, _, impossible⟩ := own.only _ entered
    cases impossible
  · obtain ⟨arm, mem⟩ := mem_entries (by simpa [jumpCode] using entered)
    exact absurd old (Nat.not_le.mpr (own.between _ mem).1)

end ArmBlocks

section

variable (idx : Nat) (floor_le : floor ≤ code.blocks)
  (made : ∀ block, outside = some block → floor < block ∧ block ≤ code.blocks)
include floor_le made

theorem jumpThrough_emits {front : List MatchCommand}
    (front_emits : Emits floor code (ownBlocks plan code).2 front)
    (own : ArmBlocks plan.owners code.blocks (ownBlocks plan code).2.blocks
      (ownBlocks plan code).1 front) :
    Emits floor code ((jumpThrough plan idx outside).run code).2
      (front ++ (jumpCode plan.owners idx (ownBlocks plan code).1 ++
        closing outside plan.fallback (jumpOrArm (ownBlocks plan code).1))) := by
  let pairs := (ownBlocks plan code).1
  have entered := front_emits.trans ((Emits.command _ (.jumpTable idx
    (plan.owners.map fun arm => (pairs.lookup arm).getD 0)) (by simp)).trans
    (entries_emits pairs _ fun pair mem =>
      ⟨Nat.lt_of_le_of_lt floor_le (own.between pair mem).1, (own.between pair mem).2⟩))
  rw [← append_assoc]
  refine entered.trans ?_
  unfold jumpThrough
  cases outside <;> cases plan.fallback
  case some.some block arm =>
    obtain ⟨above, le⟩ := made block rfl
    have closed := (Emits.enter _ above (Nat.le_trans le entered.blocks_le)).trans
      (.command _ (jumpOrArm pairs arm) (jumpOrArm_ne_enter pairs arm))
    have finish_eq : (match pairs.lookup arm with
        | some target => command (.jump target)
        | none => command (.arm arm)) =
        command (jumpOrArm pairs arm) := by
      unfold jumpOrArm
      split <;> rfl
    rw [← finish_eq] at closed
    exact closed
  all_goals exact ⟨(List.append_nil _).symm, Nat.le_refl _, by simp [closing]⟩

theorem jumpThrough_selects (jumps : plan.strategy ≠ .lookupTable) :
    ∃ commands, Selects floor plan idx outside code ((jumpThrough plan idx outside).run code).2
      commands := by
  obtain ⟨front, front_emits, own⟩ := exists_armBlocks floor code
  refine ⟨_, jumpThrough_emits idx floor_le made front_emits own, ?_, ?_⟩
  · intro width blocks cur rest regs res current_le fills selected
    rw [MatchPlan.outcomes, if_neg jumps, slotAt?_map] at selected
    obtain ⟨arm, arm_eq, rfl⟩ := Option.map_eq_some_iff.mp selected
    obtain ⟨block, block_eq⟩ := own.found arm (mem_of_slotAt? arm_eq)
    have later : Ends width blocks ⟨blocks block, regs⟩ (.arm arm) :=
      own.reaches current_le fills block_eq
    rw [codeOf_append_newBlocks own.only]
    simp only [jumpCode, codeOf, if_true, cons_append, nil_append]
    simp_all [Ends.jumpTable, slotAt?_map]
  · intro width blocks cur block arm regs current_le fills block_eq different arm_eq
    rw [block_eq, arm_eq] at fills
    obtain ⟨tail, filled⟩ := closing_prefix (by rwa [append_assoc]) different.symm
      (own.enter_notMem (made block block_eq).2 idx)
    rw [← filled]
    unfold jumpOrArm
    split
    · rename_i target target_eq
      simp only [codeOf, if_true, append_nil, singleton_append]
      exact .jump (own.reaches current_le fills target_eq)
    · simp [codeOf, ends_arm]

end

theorem select_selects (plan : MatchPlan) (idx : Nat) (outside : Option Nat) (code : MatchCode)
    (floor_le : floor ≤ code.blocks)
    (made : ∀ block, outside = some block → floor < block ∧ block ≤ code.blocks) :
    ∃ commands, Selects floor plan idx outside code
      ((if plan.strategy = .lookupTable then lookUp plan idx outside
        else jumpThrough plan idx outside).run code).2 commands := by
  split
  · exact ⟨_, lookUp_selects ‹_› idx made⟩
  · simp_all [jumpThrough_selects]

/-- The commands end the block in which they start with the slot of the index in a register. An
index behind the end of the table ends with the arm that takes the rest, if it is looked for. -/
structure Dispatches (plan : MatchPlan) (index : Nat) (before after : MatchCode)
    (commands : List MatchCommand) : Prop where
  emits : Emits before.blocks before after commands
  inside : ∀ {width : Width} {blocks : Nat → List MatchCommand} {current : Nat}
    {rest : List MatchCommand} {registers : Nat → Int} {outcome : MatchOutcome},
    current ≤ before.blocks → Fills blocks current commands →
    registers index < plan.owners.length →
    slotAt? plan.outcomes (registers index) = some outcome →
    Ends width blocks ⟨codeOf current current commands ++ rest, registers⟩ outcome
  beyond : ∀ {width : Width} {blocks : Nat → List MatchCommand} {current arm : Nat}
    {rest : List MatchCommand} {registers : Nat → Int},
    current ≤ before.blocks → Fills blocks current commands → plan.rangeCheck = true →
    plan.owners.length ≤ registers index → plan.fallback = some arm →
    Ends width blocks ⟨codeOf current current commands ++ rest, registers⟩ (.arm arm)

/-- Commands of a range check, which stand in front of the block for the table. -/
def rangeTest (plan : MatchPlan) (index made : Nat) : List MatchCommand :=
  [.newBlock (made + 1) "match.table", .newBlock (made + 2) "match.default",
    .test .ge index plan.owners.length (made + 2) (made + 1)]

/-- The code behind a range check, at the start of the block for the table. -/
def behindTest (plan : MatchPlan) (index : Nat) (code : MatchCode) : MatchCode :=
  ((command (.enter (code.blocks + 1))).run
    ((command (.test .ge index plan.owners.length (code.blocks + 2)
      (code.blocks + 1))).run
      ((newBlock "match.default").run ((newBlock "match.table").run code).2).2).2).2

theorem Selects.dispatches {after : MatchCode} {commands : List MatchCommand}
    (selects : Selects code.blocks plan idx (some (code.blocks + 2)) (behindTest plan idx code)
      after commands) :
    Dispatches plan idx code after
      (rangeTest plan idx code.blocks ++ .enter (code.blocks + 1) :: commands) := by
  have fresh : ∀ cur, cur ≤ code.blocks → ∀ id,
      .enter id ∈ MatchCommand.enter (code.blocks + 1) :: commands →
      cur ≠ id ∧ .enter id ∉ rangeTest plan idx code.blocks := by
    intro cur current_le id entered
    refine ⟨?_, by simp [rangeTest]⟩
    rcases mem_cons.mp entered with same | entered
    · cases same
      omega
    · have above := (selects.emits.entered id entered).1
      omega
  constructor
  · have made : Emits code.blocks code _ ([.newBlock (code.blocks + 1) "match.table"] ++
        [.newBlock (code.blocks + 2) "match.default"]) :=
      (Emits.newBlock code "match.table").trans (.newBlock _ "match.default")
    have tested := made.trans (.command _ (.test .ge idx plan.owners.length
      (code.blocks + 2) (code.blocks + 1)) (by simp))
    exact tested.trans (.trans (.enter _ (lt_succ_self _) (le_succ _)) selects.emits)
  · intro width blocks cur rest regs res current_le fills below found
    obtain ⟨fills_table, tail, filled⟩ := fills.after_enter (fresh cur current_le)
    simp only [rangeTest, codeOf, if_true, cons_append, nil_append]
    refine .test ?_
    rw [if_neg (by simp only [Cond.eval, decide_eq_true_eq]; omega), ← filled]
    exact selects.inside (le_succ _) fills_table found
  · intro width blocks cur arm rest regs current_le fills _ above fallback_eq
    obtain ⟨fills_table, tail, filled⟩ := fills.after_enter (fresh cur current_le)
    simp only [rangeTest, codeOf, if_true, cons_append, nil_append]
    refine .test ?_
    rw [if_pos (by simp only [Cond.eval, decide_eq_true_eq]; omega)]
    exact selects.beyond (le_succ _) fills_table rfl (succ_ne_self _) fallback_eq

theorem exists_dispatches (plan : MatchPlan) (idx : Nat) (code : MatchCode) :
    ∃ commands, Dispatches plan idx code ((do
        let outside ← checkRange plan idx
        if plan.strategy = .lookupTable then lookUp plan idx outside
        else jumpThrough plan idx outside : MatchEmit Unit).run code).2 commands := by
  unfold checkRange
  split
  · obtain ⟨commands, selects⟩ := select_selects plan idx (some (code.blocks + 2))
      (behindTest plan idx code) (le_add_right code.blocks 2) fun block block_eq => by
        cases block_eq
        exact ⟨by omega, Nat.le_refl _⟩
    exact ⟨_, selects.dispatches⟩
  · rename_i unchecked
    obtain ⟨commands, selects⟩ := select_selects plan idx none code (Nat.le_refl _) (by simp)
    exact ⟨commands, selects.emits,
      fun current_le fills _ found => selects.inside current_le fills found,
      fun _ _ checked => absurd checked unchecked⟩

theorem plan_table (desc : MatchDescriptor) (table : plan.strategy ≠ .branchChain) :
    ∃ idx commands before after, Dispatches plan idx before after commands ∧ before.blocks = 0 ∧
      ((plan.first ≠ 0 ∨ desc.signed = true) ∧ idx ≠ scrutinee ∧
          desc.emit plan = .index idx scrutinee plan.first :: commands ∨
        ¬(plan.first ≠ 0 ∨ desc.signed = true) ∧ idx = scrutinee ∧ desc.emit plan = commands) := by
  have emit_eq : MatchEmit.plan desc plan = (do
      let idx ← if plan.first ≠ 0 || desc.signed then newIndex scrutinee plan.first
        else pure scrutinee
      let outside ← checkRange plan idx
      if plan.strategy = .lookupTable then lookUp plan idx outside
      else jumpThrough plan idx outside) := by
    grind [MatchEmit.plan]
  by_cases indexed : plan.first ≠ 0 ∨ desc.signed = true
  · have indexed_true : (decide (plan.first ≠ 0) || desc.signed) = true := by
      rwa [Bool.or_eq_true, decide_eq_true_eq]
    obtain ⟨commands, dispatched⟩ :=
      exists_dispatches plan 2 ((newIndex scrutinee plan.first).run {}).2
    refine ⟨2, commands, _, _, dispatched, rfl, .inl ⟨indexed, by decide, ?_⟩⟩
    rw [MatchDescriptor.emit, emit_eq, indexed_true]
    exact dispatched.emits.commands_eq
  · have indexed_false : (decide (plan.first ≠ 0) || desc.signed) = false := by
      simp_all
    obtain ⟨commands, dispatched⟩ := exists_dispatches plan scrutinee {}
    refine ⟨scrutinee, commands, _, _, dispatched, rfl, .inr ⟨indexed, rfl, ?_⟩⟩
    rw [MatchDescriptor.emit, emit_eq, indexed_false]
    exact dispatched.emits.commands_eq

end MatchEmit

end Backend65816

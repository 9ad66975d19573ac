import Backend65816.Proofs.BranchFlow

/-!
# Branches reach their labels

Passes over the code come to an end. A pass that changes something adds a long branch, and however
often the code is lengthened, each of its short branches accounts for at most one of them: the branch
over a long one is never lengthened itself. The pass that changes nothing found every short branch in
reach, and displacements do not move code, so the branches of the result are in reach as well.
-/

namespace Backend65816

open Nat Instr List Routine

variable {instr : Instr} {supply : LabelSupply} {rest : List Instr} {start : Nat} {op : Operation}
  {routine resolved : Routine} {state : Relaxation}

variable {code out : List Instr} {skips : List String} {labels : Std.HashMap String Nat}
  {problem : DisplacementError} {name : String}

def Instr.isLongBranch : Instr → Bool
  | .label _ => false
  | .run operation => operation.op = .brl

/-! ## The number of passes -/

theorem Instr.isShortBranch_run (op : Operation) :
    isShortBranch (.run op) = (op.op.isBranch && op.op ≠ .brl) := rfl

theorem Instr.isLongBranch_run (op : Operation) :
    isLongBranch (.run op) = decide (op.op = .brl) := rfl

theorem Expands.countP_isLongBranch_le (expands : Expands code skips out) :
    out.countP isLongBranch ≤ code.countP isLongBranch + code.countP isShortBranch := by
  induction expands with
  | nil => exact le_refl 0
  | label name rest ih => grind
  | plain op straight rest ih =>
    grind
  | kept op branch distance rest ih =>
    have same : isLongBranch (.run { op with distance }) = isLongBranch (.run op) := rfl
    grind
  | long op always distance rest ih =>
    have short : isShortBranch (.run op) = true := by
      rw [isShortBranch_run, always]
      rfl
    grind
  | around op conditional skip near far rest ih =>
    have short : isShortBranch (.run op) = true := by
      have not_long : op.op ≠ .brl := by
        rintro same
        rw [same] at conditional
        cases conditional
      grind [isShortBranch_run, Op.isBranch]
    have not_long : ¬isLongBranch (.skipBranch op.op skip near) = true := by
      simp [skipBranch, isLongBranch_run, Op.invert_ne_brl conditional]
    have no_branch : ¬isLongBranch (.label skip) = true := Bool.false_ne_true
    grind

namespace Relaxation

/-- A piece of code is kept, and a short branch only if it reaches its label; or it is a short branch
that does not reach, and a long branch comes in its place. -/
theorem step_cases (labels : Std.HashMap String Nat) (state : Relaxation) (instr : Instr) :
    (state.step labels instr = state.keep instr ∧
      ∀ op, instr = .run op → instr.isShortBranch = true →
        ShortReach (branchDistance labels state.position op)) ∨
    (instr.isLongBranch = false ∧ (state.step labels instr).changed = true ∧
      (state.step labels instr).output.toList.countP isLongBranch =
        state.output.toList.countP isLongBranch + 1) := by
  cases instr with
  | label name => exact .inl ⟨rfl, by simp⟩
  | run op =>
    unfold step
    simp only
    split
    · grind [isShortBranch_run]
    split
    · simp_all
    · have not_long : op.op ≠ .brl := by grind
      refine .inr ⟨by simp [isLongBranch_run, not_long], ?_⟩
      unfold lengthen
      split
      · exact ⟨rfl, by rw [Array.toList_push, countP_append]; rfl⟩
      · have conditional : op.op.isConditional = true := by
          simp_all [Op.isBranch]
        simp [branch, isLongBranch, Op.invert_ne_brl conditional]

theorem changed_foldl (code : List Instr) (changed : state.changed = true) :
    (code.foldl (step labels) state).changed = true := by
  induction code generalizing state with
  | nil => exact changed
  | cons instr rest ih =>
    refine ih ?_
    rcases step_cases labels state instr with ⟨kept, _⟩ | ⟨_, now, _⟩
    · rw [kept]
      exact changed
    · exact now

theorem countP_isLongBranch_keep (state : Relaxation) (instr : Instr) :
    (state.keep instr).output.toList.countP isLongBranch =
      state.output.toList.countP isLongBranch + [instr].countP isLongBranch := by
  rw [keep, Array.toList_push, countP_append]

theorem countP_isLongBranch_foldl_le (labels : Std.HashMap String Nat) (code : List Instr)
    (state : Relaxation) :
    state.output.toList.countP isLongBranch + code.countP isLongBranch ≤
      (code.foldl (step labels) state).output.toList.countP isLongBranch := by
  induction code generalizing state with
  | nil => exact le_refl _
  | cons instr rest ih =>
    rcases step_cases labels state instr with ⟨kept, _⟩ | ⟨not_long, _, one_more⟩
    all_goals grind [countP_isLongBranch_keep]

theorem countP_isLongBranch_foldl_lt (code : List Instr) (state : Relaxation)
    (untouched : state.changed = false)
    (changed : (code.foldl (step labels) state).changed = true) :
    state.output.toList.countP isLongBranch + code.countP isLongBranch <
      (code.foldl (step labels) state).output.toList.countP isLongBranch := by
  induction code generalizing state with
  | nil =>
    simp_all
  | cons instr rest ih =>
    rw [foldl_cons] at changed ⊢
    rcases step_cases labels state instr with ⟨kept, _⟩ | ⟨not_long, _, one_more⟩
    · rw [kept] at changed ⊢
      have later := ih (state.keep instr) untouched changed
      grind [countP_isLongBranch_keep]
    · have later := countP_isLongBranch_foldl_le labels rest (state.step labels instr)
      grind

/-- The passes that are made over a code until one changes nothing, and the code in which they end. -/
inductive EndsIn : (passes : Nat) → LabelSupply → List Instr → List Instr → Prop where
  | done {supply : LabelSupply} {code : List Instr}
      (unchanged : (pass supply code).changed = false) :
      EndsIn 1 supply code (pass supply code).output.toList
  | again {passes : Nat} {supply : LabelSupply} {code final : List Instr}
      (changed : (pass supply code).changed = true)
      (later : EndsIn passes (pass supply code).supply (pass supply code).output.toList final) :
      EndsIn (passes + 1) supply code final

/-- There are enough passes: long branches are added with each one that changes something, and no
more of them than the code has short branches. -/
theorem Between.endsIn {longer : List Instr}
    (between : Between code supply skips longer) (fuel : Nat)
    (enough : code.countP isLongBranch + code.countP isShortBranch <
      longer.countP isLongBranch + fuel) :
    ∃ passes, passes ≤ fuel ∧ EndsIn passes supply longer (repeatPass fuel supply longer) := by
  induction fuel generalizing supply skips longer with
  | zero =>
    have bound := between.expands.countP_isLongBranch_le
    omega
  | succ fuel ih =>
    obtain ⟨found, passed⟩ := between.after_pass
    rw [repeatPass]
    split
    · rename_i changed
      have more : longer.countP isLongBranch <
          (pass supply longer).output.toList.countP isLongBranch := by
        have added := countP_isLongBranch_foldl_lt longer { supply } rfl changed
        rwa [countP_nil, zero_add] at added
      obtain ⟨passes, passes_le, ends⟩ := ih passed (by omega)
      exact ⟨passes + 1, succ_le_succ passes_le, .again changed ends⟩
    · rename_i unchanged
      exact ⟨1, succ_le_succ (zero_le _), .done (Bool.eq_false_iff.mpr unchanged)⟩

/-! ## The code of the last pass -/

/-- Every short branch of the code reaches, if the code starts at an offset. -/
def ShortReachFrom (labels : Std.HashMap String Nat) (start : Nat) (code : List Instr) : Prop :=
  ∀ front operation back, code = front ++ .run operation :: back →
    isShortBranch (.run operation) = true →
      ShortReach (branchDistance labels (start + codeSize front) operation)

theorem forall_split_cons {condition : List Instr → Operation → Prop}
    (first : ∀ op, instr = .run op → condition [] op)
    (later : ∀ front op back, rest = front ++ .run op :: back → condition (instr :: front) op)
    (front : List Instr) (op : Operation) (back : List Instr)
    (code_eq : instr :: rest = front ++ .run op :: back) : condition front op := by
  cases front with
  | nil => exact first op (List.cons.inj code_eq).1
  | cons head front =>
    obtain ⟨rfl, rest_eq⟩ := List.cons.inj code_eq
    exact later front op back rest_eq

theorem ShortReachFrom.cons (first : ∀ op, instr = .run op → instr.isShortBranch = true →
      ShortReach (branchDistance labels start op))
    (later : ShortReachFrom labels (start + instr.size) rest) :
    ShortReachFrom labels start (instr :: rest) := by
  refine forall_split_cons ?_ fun front op back rest_eq short => ?_
  · rintro op rfl
    exact first op rfl
  · rw [codeSize_cons, ← add_assoc]
    exact later front op back rest_eq short

/-- A pass that changes nothing leaves the code as it is and has found every short branch in
reach. -/
theorem foldl_step_of_unchanged (code : List Instr) (state : Relaxation)
    (unchanged : (code.foldl (step labels) state).changed = false) :
    (code.foldl (step labels) state).output.toList = state.output.toList ++ code ∧
      ShortReachFrom labels state.position code := by
  induction code generalizing state with
  | nil => exact ⟨(append_nil _).symm, fun front op back code_eq => by simp at code_eq⟩
  | cons instr rest ih =>
    rw [foldl_cons] at unchanged ⊢
    rcases step_cases labels state instr with ⟨kept, reach⟩ | ⟨_, changed, _⟩
    · rw [kept] at unchanged ⊢
      obtain ⟨output_eq, later⟩ := ih _ unchanged
      refine ⟨?_, .cons reach later⟩
      rw [output_eq, keep, Array.toList_push, append_assoc]
      rfl
    · simp_all [changed_foldl]

theorem EndsIn.shortReach {passes : Nat} {final : List Instr}
    (ends : EndsIn passes supply code final) : ShortReachFrom (labelOffsets final) 0 final := by
  induction ends with
  | @done supply code unchanged =>
    obtain ⟨output_eq, reach⟩ := foldl_step_of_unchanged code { supply } unchanged
    rw [pass, output_eq]
    exact reach
  | again _ _ ih => exact ih

end Relaxation

/-! ## Displacements -/

/-- Every branch of the code carries its displacement and reaches, if the code starts at an
offset. -/
def PlacedFrom (labels : Std.HashMap String Nat) (start : Nat) (code : List Instr) : Prop :=
  ∀ front operation back, code = front ++ .run operation :: back → operation.op.isBranch = true →
    operation.distance = branchDistance labels (start + codeSize front) operation ∧
      if operation.op = .brl then LongReach operation.distance else ShortReach operation.distance

theorem Instr.size_displaced (distance : Int) (instr : Instr) :
    (instr.displaced distance).size = instr.size := by
  cases instr with
  | label name => rfl
  | run op =>
    rw [displaced]
    split <;> rfl

theorem offsetStep_displaced (state : Nat × Std.HashMap String Nat) (instr : Instr)
    (distance : Int) : offsetStep state (instr.displaced distance) = offsetStep state instr := by
  cases instr with
  | label name => rfl
  | run op =>
    rw [displaced]
    split <;> rfl

theorem Displaces.labelOffsets_eq (moved : Displaces code out) :
    labelOffsets out = labelOffsets code := by
  rw [Backend65816.labelOffsets_eq, Backend65816.labelOffsets_eq]
  generalize ((0, ∅) : Nat × Std.HashMap String Nat) = state
  induction moved generalizing state with
  | nil => rfl
  | @cons instr res code out displaced rest ih =>
    grind [offsetStep_displaced]

theorem Places.placedFrom (places : Places labels start code out)
    (reach : Relaxation.ShortReachFrom labels start code) : PlacedFrom labels start out := by
  induction places with
  | nil => exact fun front op back code_eq => by simp at code_eq
  | @cons start instr code out distance measured rest ih =>
    refine Relaxation.forall_split_cons (fun op placed branch => ?_)
      fun front op back out_eq branch => ?_
    · cases instr with
      | label name => cases placed
      | run src =>
        obtain ⟨rfl, long_reach⟩ := measured src rfl
        have is_branch : src.op.isBranch = true := by
          grind [displaced]
        rw [displaced, if_pos is_branch] at placed
        cases placed
        refine ⟨rfl, ?_⟩
        split
        · next is_long => exact long_reach is_long
        · next not_long =>
          exact reach [] src code rfl (by simp [isShortBranch_run, branch, not_long])
    · rw [codeSize_cons, size_displaced, ← add_assoc]
      refine ih (fun front op back code_eq short => ?_) front op back out_eq branch
      rw [add_assoc]
      exact reach (instr :: front) op back (congrArg (instr :: ·) code_eq) short

/-! ## Labels of the longer code -/

/-- A branch of the longer code goes where a branch of the code goes, or to an added label. -/
theorem Expands.branch_symbol (expands : Expands code skips out)
    (mem : .run op ∈ out) (branch : op.op.isBranch = true) :
    op.symbol ∈ definedLabels out ∨
      ∃ src, .run src ∈ code ∧ src.op.isBranch = true ∧ src.symbol = op.symbol := by
  induction expands with
  | nil => cases mem
  | label name rest ih =>
    rcases mem_cons.mp mem with same | mem
    · cases same
    · exact (ih mem).imp (.tail _) fun ⟨src, source_mem, found⟩ => ⟨src, .tail _ source_mem, found⟩
  | plain other straight rest ih =>
    rcases mem_cons.mp mem with same | mem
    · cases same
      simp [straight] at branch
    · exact (ih mem).imp_right fun ⟨src, source_mem, found⟩ => ⟨src, .tail _ source_mem, found⟩
  | kept other is_branch distance rest ih =>
    rcases mem_cons.mp mem with same | mem
    · simp_all
    · exact (ih mem).imp_right fun ⟨src, source_mem, found⟩ => ⟨src, .tail _ source_mem, found⟩
  | long other always distance rest ih =>
    rcases mem_cons.mp mem with same | mem
    · cases same
      exact .inr ⟨other, (.head _), by rw [always]; rfl, rfl⟩
    · exact (ih mem).imp_right fun ⟨src, source_mem, found⟩ => ⟨src, .tail _ source_mem, found⟩
  | around other conditional skip near far rest ih =>
    rcases mem_cons.mp mem with same | mem
    · cases same
      exact .inl (.head _)
    rcases mem_cons.mp mem with same | mem
    · cases same
      simp_all [Op.isBranch]
    rcases mem_cons.mp mem with same | mem
    · cases same
    · exact (ih mem).imp (.tail _) fun ⟨src, source_mem, found⟩ => ⟨src, .tail _ source_mem, found⟩

theorem Lengthened.symbol_defined (lengthened : Lengthened code skips out)
    (mem : .run op ∈ out) (branch : op.op.isBranch = true) : op.symbol ∈ definedLabels out := by
  rcases lengthened.expands.branch_symbol mem branch with
    defined | ⟨src, source_mem, source_branch, same⟩
  · exact defined
  · rw [← same]
    exact lengthened.expands.definedLabels_perm.symm.subset
      (mem_append_right skips (lengthened.inside src source_mem source_branch))

/-- The branch behind `front` is this far from the last definition of its label, counted from the
byte after it. -/
def Spans (code front : List Instr) (branch : Operation) (distance : Int) : Prop :=
  ∃ before after, code = before ++ .label branch.symbol :: after ∧
    branch.symbol ∉ definedLabels after ∧
    distance = (codeSize before : Int) - (codeSize front + branch.size : Nat)

theorem spans_of_defined {branch : Operation} (defined : branch.symbol ∈ definedLabels code)
    {front : List Instr} :
    Spans code front branch (branchDistance (labelOffsets code) (codeSize front) branch) := by
  obtain ⟨before, after, rfl, last⟩ := exists_split_of_mem_definedLabels defined
  exact ⟨before, after, rfl, last, by rw [branchDistance, labelOffsets_getD last]⟩

/-! ## Resolved routines -/

theorem Routine.relaxed_endsIn (routine : Routine) :
    ∃ passes, passes ≤ routine.code.countP isShortBranch + 1 ∧
      Relaxation.EndsIn passes routine.labelSupply routine.code routine.relaxed :=
  routine.between_start.endsIn _ (by omega)

theorem Routine.relaxed_lengthened
    (all_defined : undefinedTarget? (labelOffsets routine.code) routine.code = none) :
    ∃ skips, Lengthened routine.code skips routine.relaxed := by
  obtain ⟨skips, expands, distinct, apart⟩ := routine.relaxed_expands
  exact ⟨skips, expands, distinct, apart, fun op mem =>
    undefinedTarget_eq_none_iff.mp all_defined op (mem_filterMap.mpr ⟨_, mem, rfl⟩)⟩

/-- What resolving the branches of a routine comes to, where the passes end in a code. -/
structure Routine.Resolution (routine : Routine) (relaxed : List Instr) : Prop where
  /-- It fails only on a branch to an undefined label or a long branch that spans too much. -/
  fails : ∀ problem, routine.resolveBranches = .error problem →
    (∃ branch, .run branch ∈ routine.code ∧ branch.op.isBranch = true ∧
      branch.symbol ∉ definedLabels routine.code ∧
      problem = .undefinedLabel routine.name branch.symbol) ∨
    ∃ front branch back distance, relaxed = front ++ .run branch :: back ∧ branch.op = .brl ∧
      Spans relaxed front branch distance ∧ ¬LongReach distance ∧
      problem = .tooFar routine.name branch.symbol distance
  displaces : ∀ resolved, routine.resolveBranches = .ok resolved → Displaces relaxed resolved.code
  /-- Each one is the distance to the label in the resolved code, and the branch covers it. -/
  reaches : ∀ resolved, routine.resolveBranches = .ok resolved →
    ∀ front branch back, resolved.code = front ++ .run branch :: back →
      branch.op.isBranch = true →
        Spans resolved.code front branch branch.distance ∧
          if branch.op = .brl then LongReach branch.distance else ShortReach branch.distance

theorem Routine.relaxed_fails (failed : routine.resolveBranches = .error problem) :
    (∃ branch, .run branch ∈ routine.code ∧ branch.op.isBranch = true ∧
      branch.symbol ∉ definedLabels routine.code ∧
      problem = .undefinedLabel routine.name branch.symbol) ∨
    ∃ front branch back distance, routine.relaxed = front ++ .run branch :: back ∧
      branch.op = .brl ∧ Spans routine.relaxed front branch distance ∧ ¬LongReach distance ∧
      problem = .tooFar routine.name branch.symbol distance := by
  cases missing : undefinedTarget? (labelOffsets routine.code) routine.code with
  | some name =>
    rw [Routine.resolveBranches] at failed
    obtain ⟨instr, mem, found⟩ := exists_of_findSome?_eq_some missing
    cases instr with
    | label other => cases found
    | run op =>
      grind [contains_labelOffsets]
  | none =>
    rw [resolveBranches_of_defined missing] at failed
    rcases placeBranches_cases routine.relaxed with
      ⟨front, branch, back, code_eq, is_long, beyond, placed⟩ | ⟨out, placed, _⟩
    · rw [placed] at failed
      cases failed
      have mem : .run branch ∈ routine.relaxed := by
        simp_all
      obtain ⟨skips, lengthened⟩ := relaxed_lengthened missing
      have defined := lengthened.symbol_defined mem (by rw [is_long]; rfl)
      exact .inr ⟨front, branch, back, _, code_eq, is_long, spans_of_defined defined, beyond, rfl⟩
    · rw [placed] at failed
      cases failed

/-- Passes over a routine's code end, and then it is resolved with every branch in reach, or has a
branch that cannot be. -/
theorem Routine.resolveBranches_in_reach (routine : Routine) :
    ∃ passes relaxed, passes ≤ routine.code.countP Instr.isShortBranch + 1 ∧
      Relaxation.EndsIn passes routine.labelSupply routine.code relaxed ∧
      routine.Resolution relaxed := by
  obtain ⟨passes, passes_le, ends⟩ := routine.relaxed_endsIn
  refine ⟨passes, routine.relaxed, passes_le, ends, fun _ => relaxed_fails, ?_, ?_⟩
  · exact fun resolved resolves =>
      (placeBranches_places (relaxed_placed resolves)).displaces
  · intro resolved resolves front branch back code_eq is_branch
    have places := placeBranches_places (relaxed_placed resolves)
    obtain ⟨distance_eq, reach⟩ :=
      places.placedFrom ends.shortReach front branch back code_eq is_branch
    have mem : .run branch ∈ resolved.code := by
      rw [code_eq]
      exact mem_append_right _ mem_cons_self
    obtain ⟨skips, lengthened⟩ := resolveBranches_lengthened resolves
    refine ⟨?_, reach⟩
    rw [distance_eq, zero_add, ← places.displaces.labelOffsets_eq]
    exact spans_of_defined (lengthened.symbol_defined mem is_branch)

/-! ## Resolving twice -/

theorem Relaxation.foldl_step_of_reach (code : List Instr)
    (reach : ShortReachFrom labels state.position code) :
    (code.foldl (step labels) state).changed = state.changed := by
  induction code generalizing state with
  | nil => rfl
  | cons instr rest ih =>
    have kept : state.step labels instr = state.keep instr := by
      cases instr with
      | label name => rfl
      | run op =>
        have near : isShortBranch (.run op) = true →
            ShortReach (branchDistance labels state.position op) := reach [] op rest rfl
        unfold step
        grind [isShortBranch_run]
    rw [foldl_cons, kept]
    refine ih fun front op back code_eq short => ?_
    have later := reach (instr :: front) op back (congrArg (instr :: ·) code_eq) short
    rwa [codeSize_cons, ← add_assoc] at later

/-- Displacements that are already there stay. -/
theorem Places.eq_of_placedFrom (places : Places labels start code out)
    (placed : PlacedFrom labels start code) : out = code := by
  induction places with
  | nil => rfl
  | @cons start instr code out distance measured rest ih =>
    have same : instr.displaced distance = instr := by
      cases instr with
      | label name => rfl
      | run op =>
        obtain ⟨rfl, -⟩ := measured op rfl
        rw [displaced]
        split
        · next branch =>
          have own : op.distance = branchDistance labels start op :=
            (placed [] op code rfl branch).1
          rw [← own]
        · rfl
    rw [same, ih fun front op back code_eq branch => ?_]
    have later := placed (instr :: front) op back (congrArg (instr :: ·) code_eq) branch
    rwa [codeSize_cons, ← add_assoc] at later

/-- Resolved code is resolved to itself, and a routine changes in nothing but its code. -/
theorem Routine.resolveBranches_idempotent (resolves : routine.resolveBranches = .ok resolved) :
    resolved.resolveBranches = .ok resolved ∧ resolved = { routine with code := resolved.code } := by
  obtain ⟨_, -, ends⟩ := routine.relaxed_endsIn
  have places := placeBranches_places (relaxed_placed resolves)
  have placed := places.placedFrom ends.shortReach
  rw [← places.displaces.labelOffsets_eq] at placed
  obtain ⟨skips, lengthened⟩ := resolveBranches_lengthened resolves
  have all_defined : undefinedTarget? (labelOffsets resolved.code) resolved.code = none := by
    refine undefinedTarget_eq_none_iff.mpr fun op mem => ?_
    obtain ⟨_ | same, mem, ⟨⟩⟩ := mem_filterMap.mp mem
    exact lengthened.symbol_defined mem
  have relaxed_eq : resolved.relaxed = resolved.code := by
    have unchanged : (Relaxation.pass resolved.labelSupply resolved.code).changed = false :=
      Relaxation.foldl_step_of_reach _ fun front op back code_eq short => by
        have own := placed front op back code_eq
        grind [isShortBranch_run]
    rw [relaxed, Relaxation.repeatPass, if_neg (by simp [unchanged])]
    exact (Relaxation.foldl_step_of_unchanged _ { supply := _ } unchanged).1
  have again : placeBranches resolved.name resolved.code = .ok resolved.code := by
    rcases placeBranches_cases resolved.code with
      ⟨front, op, back, code_eq, is_long, beyond, -⟩ | ⟨out, done, moved⟩
    · have own := placed front op back code_eq
      grind [Op.isBranch]
    · rw [done, moved.eq_of_placedFrom placed]
  have code_only : resolved = { routine with code := resolved.code } := by
    have made := resolveBranches_of_defined (undefinedTarget_eq_none resolves)
    rw [relaxed_placed resolves, resolves] at made
    exact Except.ok.inj made
  rw [resolveBranches_of_defined all_defined, relaxed_eq, again]
  exact ⟨rfl, code_only⟩

theorem farBranch_idempotent : ∃ resolved, farBranch.resolveBranches = .ok resolved ∧
    resolved.resolveBranches = .ok resolved ∧ resolved = { farBranch with code := resolved.code } := by
  obtain ⟨resolved, resolves⟩ := farBranch_resolves
  exact ⟨resolved, resolves, resolveBranches_idempotent resolves⟩

end Backend65816

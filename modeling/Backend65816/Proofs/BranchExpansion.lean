import Mathlib.Algebra.Order.Ring.Int
import Mathlib.Data.List.Nodup
import Mathlib.Data.List.Perm.Subperm
import Std.Data.String.ToNat
import Backend65816.Assembly.Displacement

/-!
# Lengthened branches

Resolving branches replaces some of them by longer code and changes nothing else. A branch may
become long, or an opposite branch over a long one to a new label. The branch over a long one always
reaches, since its label is unique and stands three bytes behind it; so later passes leave it alone.
-/

namespace Backend65816

open List Nat Std.HashMap Array Routine Instr

variable {supply : LabelSupply} {back src : List Instr} {op : Op} {before : Relaxation}
  {resolved : Routine} {label owner : String}

variable {name : String} {code out : List Instr} {skips : List String}
  {labels : Std.HashMap String Nat} {instr : Instr} {routine : Routine}

def Instr.longBranch (symbol : String) (distance : Int) : Instr :=
  .run { op := .brl, mode := .relativeLong, symbol, distance }

/-- The branch over a long one, with its displacement. -/
def Instr.skipBranch (op : Op) (skip : String) (distance : Int) : Instr :=
  .run { op := op.invert, mode := .relative, symbol := skip, distance }

theorem Op.invert_ne_brl (conditional : op.isConditional = true) : op.invert ≠ .brl := by
  intro same
  rw [← Op.isConditional_invert, same] at conditional
  cases conditional

theorem Op.isBranch_invert (conditional : op.isConditional = true) : op.invert.isBranch = true := by
  simp [Op.isBranch, Op.isConditional_invert, conditional]

theorem Instr.branch_invert (conditional : op.isConditional = true) (skip : String) :
    branch op.invert skip = .skipBranch op skip 0 := by
  rw [branch, if_neg (Op.invert_ne_brl conditional), skipBranch]

/-- Code whose branches are lengthened where needed, with the labels this adds. -/
inductive Expands : List Instr → List String → List Instr → Prop where
  | nil : Expands [] [] []
  | label {code out : List Instr} {skips : List String} (name : String)
      (rest : Expands code skips out) :
      Expands (.label name :: code) skips (.label name :: out)
  | plain {code out : List Instr} {skips : List String} (operation : Operation)
      (straight : operation.op.isBranch = false) (rest : Expands code skips out) :
      Expands (.run operation :: code) skips (.run operation :: out)
  | kept {code out : List Instr} {skips : List String} (operation : Operation)
      (branch : operation.op.isBranch = true) (distance : Int) (rest : Expands code skips out) :
      Expands (.run operation :: code) skips (.run { operation with distance } :: out)
  | long {code out : List Instr} {skips : List String} (operation : Operation)
      (always : operation.op = .bra) (distance : Int) (rest : Expands code skips out) :
      Expands (.run operation :: code) skips (.longBranch operation.symbol distance :: out)
  | around {code out : List Instr} {skips : List String} (operation : Operation)
      (conditional : operation.op.isConditional = true) (skip : String) (near far : Int)
      (rest : Expands code skips out) :
      Expands (.run operation :: code) (skip :: skips)
        (.skipBranch operation.op skip near :: .longBranch operation.symbol far :: .label skip ::
          out)

def definedLabels (code : List Instr) : List String := code.filterMap label?

theorem exists_split_of_mem_definedLabels (defined : name ∈ definedLabels code) :
    ∃ front back, code = front ++ .label name :: back ∧ name ∉ definedLabels back := by
  induction code with
  | nil => cases defined
  | cons instr rest ih =>
    by_cases later : name ∈ definedLabels rest
    · grind
    · cases instr with
      | run op => exact absurd defined later
      | label other =>
        rcases mem_cons.mp defined with rfl | defined
        · exact ⟨[], rest, rfl, later⟩
        · exact absurd defined later

namespace Expands

theorem refl (code : List Instr) : Expands code [] code := by
  induction code with
  | nil => exact .nil
  | cons instr rest ih =>
    cases instr with
    | label name => exact .label name ih
    | run op =>
      cases branch : op.op.isBranch with
      | false => exact .plain op branch ih
      | true => exact .kept op branch op.distance ih

theorem definedLabels_perm (expands : Expands code skips out) :
    (definedLabels out).Perm (skips ++ definedLabels code) := by
  induction expands with
  | nil => exact .nil
  | label name rest ih => exact (ih.cons name).trans perm_middle.symm
  | plain _ _ rest ih | kept _ _ _ rest ih | long _ _ _ rest ih => exact ih
  | around op conditional skip near far rest ih => exact ih.cons skip

theorem mem_definedLabels (expands : Expands code skips out)
    (defined : name ∈ definedLabels out) : name ∈ definedLabels code ∨ name ∈ skips :=
  (mem_append.mp (expands.definedLabels_perm.subset defined)).symm

end Expands

/-! ## Free labels -/

namespace LabelSupply

theorem labelOf_injective {first second : Nat}
    (same : labelOf owner first = labelOf owner second) : first = second := by
  exact repr_inj.mp ((String.append_right_inj _).mp same)

theorem freeNumber_spec {taken : Std.HashSet String} {fuel count : Nat} :
    (∀ num, count < num → num < freeNumber owner taken fuel count → labelOf owner num ∈ taken) ∧
    (labelOf owner (freeNumber owner taken fuel count) ∉ taken ∨
      freeNumber owner taken fuel count = count + fuel + 1) := by
  induction fuel generalizing count with
  | zero => exact ⟨fun num above below => by simp only [freeNumber] at below; omega, .inr rfl⟩
  | succ fuel ih =>
    rw [freeNumber]
    split
    · grind
    · grind

variable (supply)

theorem next_notMem : supply.next.1 ∉ supply.taken := by
  obtain ⟨before, found⟩ := freeNumber_spec
  rcases found with free | last
  · exact free
  · intro mem
    let candidates := (List.range' (supply.count + 1) (supply.taken.size + 1)).map
      (labelOf supply.owner)
    have distinct : candidates.Nodup :=
      List.Nodup.map (fun _ _ => labelOf_injective) nodup_range'
    have all_taken : candidates ⊆ supply.taken.toList := by
      intro label label_mem
      obtain ⟨num, number_mem, rfl⟩ := mem_map.mp label_mem
      rw [List.mem_range'_1] at number_mem
      rw [Std.HashSet.mem_toList]
      by_cases final : num = supply.count + supply.taken.size + 1
      · rw [final, ← last]
        exact mem
      · exact before num (by omega) (by omega)
    have too_many := (distinct.subperm all_taken).length_le
    grind

theorem mem_next_taken :
    label ∈ supply.next.2.taken ↔ label = supply.next.1 ∨ label ∈ supply.taken := by
  change label ∈ supply.taken.insert supply.next.1 ↔ _
  grind

end LabelSupply

/-! ## Offsets of labels -/

def codeSize (code : List Instr) : Nat := (code.map Instr.size).sum

theorem codeSize_append (front back : List Instr) :
    codeSize (front ++ back) = codeSize front + codeSize back := by
  rw [codeSize, List.map_append, List.sum_append]
  rfl

theorem codeSize_cons (instr : Instr) (code : List Instr) :
    codeSize (instr :: code) = instr.size + codeSize code := by
  rw [codeSize, map_cons, sum_cons]
  rfl

def offsetStep (state : Nat × Std.HashMap String Nat) (instr : Instr) :
    Nat × Std.HashMap String Nat :=
  let labels := match instr with
    | .label name => state.2.insert name state.1
    | .run _ => state.2
  (state.1 + instr.size, labels)

theorem labelOffsets_eq (code : List Instr) :
    labelOffsets code = (code.foldl offsetStep (0, ∅)).2 := rfl

section

variable (state : Nat × Std.HashMap String Nat)

theorem foldl_offsetStep_fst (code : List Instr) :
    (code.foldl offsetStep state).1 = state.1 + codeSize code := by
  induction code generalizing state with
  | nil => rfl
  | cons instr rest ih =>
    rw [foldl_cons, ih, codeSize_cons, ← add_assoc]
    rfl

theorem foldl_offsetStep_getD (absent : name ∉ definedLabels code) :
    (code.foldl offsetStep state).2.getD name 0 = state.2.getD name 0 := by
  induction code generalizing state with
  | nil => rfl
  | cons instr rest ih =>
    rw [foldl_cons]
    cases instr with
    | run op => exact ih _ absent
    | label other =>
      have different : other ≠ name := by
        rintro rfl
        exact absent (.head _)
      rw [ih _ fun mem => absent (.tail _ mem)]
      simp [offsetStep, getD_insert, different]

end

theorem labelOffsets_getD {front : List Instr} (last : name ∉ definedLabels back) :
    (labelOffsets (front ++ .label name :: back)).getD name 0 = codeSize front := by
  rw [labelOffsets_eq, List.foldl_append, List.foldl_cons, foldl_offsetStep_getD _ last]
  change ((front.foldl offsetStep (0, ∅)).2.insert name (front.foldl offsetStep (0, ∅)).1).getD
    name 0 = codeSize front
  rw [getD_insert, beq_self_eq_true, if_pos rfl, foldl_offsetStep_fst, zero_add]

/-! ## One pass -/

namespace Relaxation

variable {longer : List Instr} {found : List String} {after : Relaxation} {state : Relaxation}

/-- What a pass over the longer code does: it is longer code for the same code, and the labels that
are added were free. -/
structure Lengthens (code : List Instr) (skips : List String) (before after : Relaxation)
    (found : List String) (out : List Instr) : Prop where
  output_eq : after.output.toList = before.output.toList ++ out
  expands : Expands code found out
  distinct : found.Nodup
  origin : ∀ skip ∈ found,
    skip ∈ skips ∨ skip ∉ before.supply.taken ∧ skip ∈ after.supply.taken
  taken : ∀ label ∈ before.supply.taken, label ∈ after.supply.taken

section

variable (labels)

variable (state)

theorem step_label (name : String) :
    state.step labels (.label name) = state.keep (.label name) := rfl

theorem step_plain {op : Operation} (straight : op.op.isBranch = false) :
    state.step labels (.run op) = state.keep (.run op) := by
  simp [step, straight]

theorem step_long (symbol : String) (distance : Int) :
    state.step labels (.longBranch symbol distance) = state.keep (.longBranch symbol distance) := by
  simp [step, longBranch]

end

theorem step_skip (op : Op) {skip : String} (near : Int)
    (ahead : labels.getD skip 0 = state.position + 5) :
    state.step labels (.skipBranch op skip near) = state.keep (.skipBranch op skip near) := by
  have short : ShortReach (branchDistance labels state.position
      { op := op.invert, mode := .relative, symbol := skip, distance := near }) := by
    simp only [branchDistance, ahead, Operation.size, ShortReach]
    omega
  simp [step, skipBranch, short]

theorem Lengthens.cons {mid : Relaxation} (head own : List String)
    (piece : List Instr) (rest : Lengthens code skips mid after found out)
    (output_eq : mid.output.toList = before.output.toList ++ piece)
    (expands : Expands src (own ++ found) (piece ++ out)) (own_distinct : own.Nodup)
    (own_taken : ∀ skip ∈ own, skip ∈ mid.supply.taken ∧ skip ∉ skips)
    (own_origin : ∀ skip ∈ own, skip ∈ head ∨ skip ∉ before.supply.taken)
    (taken : ∀ label ∈ before.supply.taken, label ∈ mid.supply.taken) :
    Lengthens src (head ++ skips) before after (own ++ found) (piece ++ out) where
  output_eq := by rw [rest.output_eq, output_eq, List.append_assoc]
  expands := expands
  distinct := by
    refine nodup_append.mpr ⟨own_distinct, rest.distinct, ?_⟩
    rintro skip skip_mem _ other_mem rfl
    obtain ⟨known, unlisted⟩ := own_taken skip skip_mem
    rcases rest.origin skip other_mem with listed | ⟨free, _⟩
    all_goals simp_all
  origin := by
    intro skip skip_mem
    rcases mem_append.mp skip_mem with own_mem | found_mem
    · have known := rest.taken skip (own_taken skip own_mem).1
      simp_all
    · exact (rest.origin skip found_mem).imp (mem_append_right _)
        fun ⟨free, known⟩ => ⟨fun early => free (taken skip early), known⟩
  taken label mem := rest.taken label (taken label mem)

theorem Lengthens.keep (rest : Lengthens code skips (before.keep instr) after found out)
    (expands : Expands src found (instr :: out)) :
    Lengthens src skips before after found (instr :: out) :=
  Lengthens.cons [] [] [instr] rest toList_push expands
    nodup_nil (by simp) (by simp) fun _ mem => mem

/-- The pass has reached the rest of the code whose labels it uses. -/
def Scans (labels : Std.HashMap String Nat) (state : Relaxation) (rest : List Instr) : Prop :=
  ∃ front, labels = labelOffsets (front ++ rest) ∧ state.position = codeSize front

namespace Scans

variable {next : Relaxation} {rest : List Instr}

theorem advance (scans : Scans labels state (instr :: rest))
    (position_eq : next.position = state.position + instr.size) : Scans labels next rest := by
  obtain ⟨front, labels_eq, front_eq⟩ := scans
  refine ⟨front ++ [instr], by rw [labels_eq, List.append_assoc]; rfl, ?_⟩
  rw [position_eq, front_eq, codeSize_append, codeSize_cons]
  rfl

theorem keep (scans : Scans labels state (instr :: rest)) : Scans labels (state.keep instr) rest :=
  scans.advance rfl

/-- A label behind some code that defines it no more is as far away as that code is long. -/
theorem getD_label (between : List Instr)
    (scans : Scans labels state (between ++ .label name :: back))
    (last : name ∉ definedLabels back) :
    labels.getD name 0 = state.position + codeSize between := by
  obtain ⟨front, labels_eq, front_eq⟩ := scans
  grind [labelOffsets_getD, codeSize_append]

end Scans

theorem step_position (labels : Std.HashMap String Nat) (state : Relaxation) (instr : Instr) :
    (state.step labels instr).position = state.position + instr.size := by
  cases instr with
  | label name => rfl
  | run op =>
    unfold step
    simp only
    split
    · rfl
    split
    · rfl
    · unfold lengthen
      simp only
      split <;> rfl

theorem mem_step_taken (mem : label ∈ state.supply.taken) :
    label ∈ (state.step labels instr).supply.taken := by
  cases instr with
  | label name => exact mem
  | run op =>
    unfold step
    simp only
    split
    · exact mem
    split
    · exact mem
    · unfold lengthen
      simp only
      split
      · exact mem
      · exact state.supply.mem_next_taken.mpr (.inr mem)

theorem Lengthens.kept {op : Operation} {distance : Int} (branch : op.op.isBranch = true)
    (known : ∀ skip ∈ skips, skip ∈ state.supply.taken)
    (rest : Lengthens code skips (state.step labels (.run { op with distance })) after found out) :
    ∃ all longer, Lengthens (.run op :: code) skips state after all longer := by
  unfold step at rest
  simp only at rest
  split at rest
  · exact ⟨found, _, rest.keep (.kept op branch distance rest.expands)⟩
  split at rest
  · exact ⟨found, _, rest.keep (.kept op branch distance rest.expands)⟩
  · rename_i not_long _
    unfold lengthen at rest
    simp only at rest
    split at rest
    · rename_i always
      refine ⟨found, [.longBranch op.symbol 0] ++ out, ?_⟩
      exact rest.cons [] [] [_] toList_push (.long op always 0 rest.expands)
        nodup_nil (by simp) (by simp) fun _ mem => mem
    · rename_i not_always
      have conditional : op.op.isConditional = true := by
        simp_all [Op.isBranch]
      refine ⟨_, _, rest.cons [] [state.supply.next.1]
        [.skipBranch op.op state.supply.next.1 0, .longBranch op.symbol 0,
          .label state.supply.next.1] ?_ (.around op conditional _ 0 0 rest.expands)
        (nodup_singleton _) ?_ ?_ ?_⟩
      · rw [toList_append, branch_invert conditional]
        rfl
      · intro skip mem
        cases mem_singleton.mp mem
        exact ⟨state.supply.mem_next_taken.mpr (.inl rfl),
          fun listed => state.supply.next_notMem (known _ listed)⟩
      · intro skip mem
        cases mem_singleton.mp mem
        exact .inr state.supply.next_notMem
      · exact fun label mem => state.supply.mem_next_taken.mpr (.inr mem)

theorem foldl_step_lengthens (expands : Expands code skips longer) (distinct : skips.Nodup)
    (apart : ∀ skip ∈ skips, skip ∉ definedLabels code) (state : Relaxation)
    (scans : Scans labels state longer) (known : ∀ skip ∈ skips, skip ∈ state.supply.taken) :
    ∃ found out, Lengthens code skips state (longer.foldl (step labels) state) found out := by
  induction expands generalizing state with
  | nil => exact ⟨[], [], ⟨by simp, .nil, nodup_nil, by simp, fun _ mem => mem⟩⟩
  | label name rest ih =>
    rw [foldl_cons, step_label]
    obtain ⟨found, out, lengthens⟩ := ih distinct
      (fun skip mem defined => apart skip mem (.tail _ defined)) _ scans.keep known
    exact ⟨found, _, lengthens.keep (.label name lengthens.expands)⟩
  | plain op straight rest ih =>
    rw [foldl_cons, step_plain labels state straight]
    obtain ⟨found, out, lengthens⟩ := ih distinct apart _ scans.keep known
    exact ⟨found, _, lengthens.keep (.plain op straight lengthens.expands)⟩
  | long op always distance rest ih =>
    rw [foldl_cons, step_long]
    obtain ⟨found, out, lengthens⟩ := ih distinct apart _ scans.keep known
    exact ⟨found, _, lengthens.keep (.long op always distance lengthens.expands)⟩
  | kept op branch distance rest ih =>
    rw [foldl_cons]
    obtain ⟨found, out, lengthens⟩ := ih distinct apart _ (scans.advance (step_position _ _ _))
      fun skip mem => mem_step_taken (known skip mem)
    exact lengthens.kept branch known
  | @around code longer skips op conditional skip near far rest ih =>
    obtain ⟨fresh, distinct⟩ := nodup_cons.mp distinct
    have last : skip ∉ definedLabels longer := by
      intro defined
      rcases rest.mem_definedLabels defined with own | listed
      · exact apart skip (.head _) own
      · exact fresh listed
    have ahead := Scans.getD_label [_, _] scans last
    rw [foldl_cons, foldl_cons, foldl_cons, step_skip _ near ahead, step_long, step_label]
    obtain ⟨found, out, lengthens⟩ := ih distinct
      (fun other mem => apart other (.tail _ mem)) _ scans.keep.keep.keep
      fun other mem => known other (.tail _ mem)
    refine ⟨_, _, lengthens.cons [skip] [skip] [_, _, _] ?_
      (.around op conditional skip near far lengthens.expands) (nodup_singleton _) ?_ ?_
      fun _ mem => mem⟩
    all_goals grind [keep]

/-- What is known of the code between passes: it is longer code with new labels, all of which are
taken. -/
structure Between (code : List Instr) (supply : LabelSupply) (skips : List String)
    (longer : List Instr) : Prop where
  expands : Expands code skips longer
  distinct : skips.Nodup
  apart : ∀ skip ∈ skips, skip ∉ definedLabels code
  known : ∀ skip ∈ skips, skip ∈ supply.taken
  own : ∀ label ∈ definedLabels code, label ∈ supply.taken

theorem Between.after_pass (between : Between code supply skips longer) :
    ∃ found, Between code (pass supply longer).supply found (pass supply longer).output.toList := by
  obtain ⟨found, out, lengthens⟩ := foldl_step_lengthens between.expands between.distinct
    between.apart { supply } ⟨[], rfl, rfl⟩ between.known
  have output_eq : (pass supply longer).output.toList = out := lengthens.output_eq
  refine ⟨found, ⟨output_eq ▸ lengthens.expands, lengthens.distinct, ?_, ?_, ?_⟩⟩
  · intro skip mem defined
    rcases lengthens.origin skip mem with listed | ⟨free, _⟩
    · exact between.apart skip listed defined
    · exact free (between.own skip defined)
  · intro skip mem
    rcases lengthens.origin skip mem with listed | ⟨_, known⟩
    · exact lengthens.taken skip (between.known skip listed)
    · exact known
  · exact fun label defined => lengthens.taken label (between.own label defined)

theorem Between.after_passes (between : Between code supply skips longer) (fuel : Nat) :
    ∃ found, Expands code found (repeatPass fuel supply longer) ∧ found.Nodup ∧
      ∀ skip ∈ found, skip ∉ definedLabels code := by
  induction fuel generalizing supply skips longer with
  | zero => exact ⟨skips, between.expands, between.distinct, between.apart⟩
  | succ fuel ih =>
    obtain ⟨found, passed⟩ := between.after_pass
    rw [Relaxation.repeatPass]
    split
    · exact ih passed
    · exact ⟨found, passed.expands, passed.distinct, passed.apart⟩

end Relaxation

/-! ## Displacements -/

/-- The piece of code with a displacement, if it is a branch. -/
def Instr.displaced (distance : Int) : Instr → Instr
  | .label name => .label name
  | .run operation =>
    if operation.op.isBranch then .run { operation with distance } else .run operation

theorem Instr.placed_cases (routine : String) (labels : Std.HashMap String Nat) (pos : Nat)
    (instr : Instr) :
    (∃ op, instr = .run op ∧ op.op = .brl ∧ ¬LongReach (branchDistance labels pos op) ∧
      instr.placed routine labels pos =
        .error (.tooFar routine op.symbol (branchDistance labels pos op))) ∨
    ∃ distance, instr.placed routine labels pos = .ok (instr.displaced distance) ∧
      ∀ op, instr = .run op →
        distance = branchDistance labels pos op ∧ (op.op = .brl → LongReach distance) := by
  cases instr with
  | label name => exact .inr ⟨0, rfl, by rintro _ ⟨⟩⟩
  | run op =>
    by_cases beyond : op.op = .brl ∧ ¬LongReach (branchDistance labels pos op)
    · simp_all [placed, Op.isBranch]
    · refine .inr ⟨branchDistance labels pos op, ?_, ?_⟩
      · simp only [placed, displaced, if_neg beyond]
        split <;> rfl
      · rintro _ ⟨⟩
        exact ⟨rfl, fun is_long => of_not_not fun far => beyond ⟨is_long, far⟩⟩

def Displaces (code out : List Instr) : Prop :=
  List.Forall₂ (fun instr result => ∃ distance, result = instr.displaced distance) code out

/-- The code with the displacements of its branches, if it starts at an offset. -/
inductive Places (labels : Std.HashMap String Nat) : Nat → List Instr → List Instr → Prop where
  | nil {start : Nat} : Places labels start [] []
  | cons {start : Nat} {instr : Instr} {code out : List Instr} {distance : Int}
      (measured : ∀ operation, instr = .run operation →
        distance = branchDistance labels start operation ∧
          (operation.op = .brl → LongReach distance))
      (rest : Places labels (start + instr.size) code out) :
      Places labels start (instr :: code) (instr.displaced distance :: out)

theorem Places.displaces {start : Nat} (places : Places labels start code out) :
    Displaces code out := by
  induction places with
  | nil => exact .nil
  | cons _ _ ih => exact .cons ⟨_, rfl⟩ ih

def placeStep (routine : String) (labels : Std.HashMap String Nat) (state : Nat × Array Instr)
    (instr : Instr) : Except DisplacementError (Nat × Array Instr) := do
  let placed ← instr.placed routine labels state.1
  pure (state.1 + instr.size, state.2.push placed)

theorem foldlM_placeStep_cases (routine : String) (code : List Instr) (state : Nat × Array Instr) :
    (∃ front op back, code = front ++ .run op :: back ∧ op.op = .brl ∧
      ¬LongReach (branchDistance labels (state.1 + codeSize front) op) ∧
      code.foldlM (placeStep routine labels) state =
        .error (.tooFar routine op.symbol (branchDistance labels (state.1 + codeSize front) op))) ∨
    ∃ end_ out, code.foldlM (placeStep routine labels) state = .ok (end_, state.2 ++ out) ∧
      Places labels state.1 code out.toList := by
  induction code generalizing state with
  | nil => exact .inr ⟨state.1, #[], rfl, .nil⟩
  | cons instr rest ih =>
    rw [foldlM_cons]
    rcases instr.placed_cases routine labels state.1 with
      ⟨op, rfl, is_long, beyond, placed⟩ | ⟨distance, placed, measured⟩
    · refine .inl ⟨[], op, rest, rfl, is_long, beyond, ?_⟩
      rw [placeStep, placed]
      rfl
    · have stepped : placeStep routine labels state instr =
          .ok (state.1 + instr.size, state.2.push (instr.displaced distance)) := by
        rw [placeStep, placed]
        rfl
      rw [stepped]
      rcases ih (state.1 + instr.size, state.2.push (instr.displaced distance)) with
        ⟨front, op, back, rfl, is_long, beyond, failed⟩ | ⟨end_, out, done, places⟩
      · refine .inl ⟨instr :: front, op, back, rfl, is_long, ?_⟩
        rw [codeSize_cons, ← add_assoc]
        exact ⟨beyond, failed⟩
      · refine .inr ⟨end_, #[instr.displaced distance] ++ out, ?_, ?_⟩
        · rw [← Array.append_assoc, ← Array.push_eq_append]
          exact done
        · rw [toList_append]
          exact .cons measured places

theorem placeBranches_cases {routine : String} (code : List Instr) :
    (∃ front op back, code = front ++ .run op :: back ∧ op.op = .brl ∧
      ¬LongReach (branchDistance (labelOffsets code) (codeSize front) op) ∧
      placeBranches routine code = .error (.tooFar routine op.symbol
        (branchDistance (labelOffsets code) (codeSize front) op))) ∨
    ∃ out, placeBranches routine code = .ok out ∧ Places (labelOffsets code) 0 code out := by
  have unfolded : placeBranches routine code =
      (code.foldlM (placeStep routine (labelOffsets code)) (0, #[])).map
        fun state => state.2.toList := rfl
  rw [unfolded]
  rcases foldlM_placeStep_cases routine code (0, #[]) with
    ⟨front, op, back, code_eq, is_long, beyond, failed⟩ | ⟨_, out, done, places⟩
  · rw [zero_add] at beyond failed
    rw [failed]
    exact .inl ⟨front, op, back, code_eq, is_long, beyond, rfl⟩
  · rw [done, empty_append]
    exact .inr ⟨out.toList, rfl, places⟩

theorem placeBranches_places {routine : String} (placed : placeBranches routine code = .ok out) :
    Places (labelOffsets code) 0 code out := by
  rcases placeBranches_cases code with ⟨_, _, _, _, _, _, failed⟩ | ⟨_, done, places⟩
  · rw [failed] at placed
    cases placed
  · rw [done] at placed
    cases placed
    exact places

theorem Expands.displaced {longer : List Instr} (expands : Expands code skips longer)
    (moved : Displaces longer out) : Expands code skips out := by
  induction expands generalizing out with
  | nil =>
    cases moved
    exact .nil
  | label name rest ih =>
    obtain ⟨_, _, ⟨_, rfl⟩, later, rfl⟩ := forall₂_cons_left_iff.mp moved
    exact .label name (ih later)
  | plain op straight rest ih =>
    obtain ⟨_, _, ⟨distance, rfl⟩, later, rfl⟩ := forall₂_cons_left_iff.mp moved
    rw [displaced, if_neg (by simp [straight])]
    exact .plain op straight (ih later)
  | kept op branch _ rest ih =>
    obtain ⟨_, _, ⟨distance, rfl⟩, later, rfl⟩ := forall₂_cons_left_iff.mp moved
    rw [displaced, if_pos branch]
    exact .kept op branch distance (ih later)
  | long op always _ rest ih =>
    obtain ⟨_, _, ⟨distance, rfl⟩, later, rfl⟩ := forall₂_cons_left_iff.mp moved
    exact .long op always distance (ih later)
  | around op conditional skip before beyond rest ih =>
    obtain ⟨_, _, ⟨near, rfl⟩, behind_skip, rfl⟩ := forall₂_cons_left_iff.mp moved
    obtain ⟨_, _, ⟨far, rfl⟩, behind_long, rfl⟩ := forall₂_cons_left_iff.mp behind_skip
    obtain ⟨_, _, ⟨_, rfl⟩, later, rfl⟩ := forall₂_cons_left_iff.mp behind_long
    have skip_moved : (skipBranch op.op skip before).displaced near =
        .skipBranch op.op skip near := if_pos (Op.isBranch_invert conditional)
    rw [skip_moved]
    exact .around op conditional skip near far (ih later)

theorem contains_foldl_offsetStep (state : Nat × Std.HashMap String Nat) :
    (code.foldl offsetStep state).2.contains name =
      (state.2.contains name || (definedLabels code).contains name) := by
  induction code generalizing state with
  | nil => exact (Bool.or_false _).symm
  | cons instr rest ih =>
    rw [foldl_cons, ih]
    cases instr with
    | run op => rfl
    | label other => grind [offsetStep, definedLabels, label?]

theorem contains_labelOffsets :
    (labelOffsets code).contains name = true ↔ name ∈ definedLabels code := by
  rw [labelOffsets_eq, contains_foldl_offsetStep, Std.HashMap.contains_empty, Bool.false_or,
    List.contains_iff_mem]

theorem undefinedTarget_eq_none_iff : undefinedTarget? (labelOffsets code) code = none ↔
    ∀ op ∈ code.filterMap operation?, op.op.isBranch = true →
      op.symbol ∈ definedLabels code := by
  rw [undefinedTarget?, List.findSome?_eq_none_iff]
  constructor
  · intro found op mem branch
    obtain ⟨instr, mem, same⟩ := List.mem_filterMap.mp mem
    grind [operation?, contains_labelOffsets]
  · intro defined instr mem
    cases instr with
    | label other => rfl
    | run op =>
      have := defined op (List.mem_filterMap.mpr ⟨_, mem, rfl⟩)
      grind [contains_labelOffsets]

/-- Labels that passes over the routine's code may add. -/
def Routine.labelSupply (routine : Routine) : LabelSupply :=
  { owner := routine.name, taken := Std.HashSet.ofList (definedLabels routine.code) }

theorem Routine.between_start (routine : Routine) :
    Relaxation.Between routine.code routine.labelSupply [] routine.code where
  expands := .refl _
  distinct := nodup_nil
  apart := by simp
  known := by simp
  own _ defined := Std.HashSet.mem_ofList.mpr (contains_iff_mem.mpr defined)

def Routine.relaxed (routine : Routine) : List Instr :=
  Relaxation.repeatPass (routine.code.countP isShortBranch + 1) routine.labelSupply
    routine.code

theorem Routine.relaxed_expands (routine : Routine) :
    ∃ skips, Expands routine.code skips routine.relaxed ∧ skips.Nodup ∧
      ∀ skip ∈ skips, skip ∉ definedLabels routine.code :=
  routine.between_start.after_passes _

theorem Routine.resolveBranches_of_defined
    (all_defined : undefinedTarget? (labelOffsets routine.code) routine.code = none) :
    routine.resolveBranches = (placeBranches routine.name routine.relaxed).map
        fun placed => { routine with code := placed } := by
  rw [Routine.resolveBranches, all_defined]
  rfl

section

variable (resolves : routine.resolveBranches = .ok resolved)
include resolves

theorem Routine.undefinedTarget_eq_none :
    undefinedTarget? (labelOffsets routine.code) routine.code = none := by
  grind [Routine.resolveBranches]

theorem Routine.relaxed_placed :
    placeBranches routine.name routine.relaxed = .ok resolved.code := by
  rw [resolveBranches_of_defined (undefinedTarget_eq_none resolves)] at resolves
  cases placed_eq : placeBranches routine.name routine.relaxed with
  | error prob =>
    rw [placed_eq] at resolves
    cases resolves
  | ok out =>
    rw [placed_eq] at resolves
    cases resolves
    rfl

theorem Routine.resolveBranches_expands :
    ∃ skips, Expands routine.code skips resolved.code ∧ skips.Nodup ∧
      ∀ skip ∈ skips, skip ∉ definedLabels routine.code := by
  obtain ⟨skips, expands, distinct, apart⟩ := routine.relaxed_expands
  have places := placeBranches_places (relaxed_placed resolves)
  exact ⟨skips, expands.displaced places.displaces, distinct, apart⟩

end

/-! ## Routines that are resolved -/

theorem Expands.codeSize_le (expands : Expands code skips out) :
    codeSize out ≤ 5 * codeSize code := by
  induction expands with
  | nil => exact le_refl 0
  | label _ _ ih | plain _ _ _ ih | kept _ _ _ _ ih =>
    rw [codeSize_cons, codeSize_cons]
    simp only [Instr.size, Operation.size]
    omega
  | long op _ _ _ ih | around op _ _ _ _ _ ih =>
    have positive := op.size_pos
    simp only [codeSize_cons, Instr.size, Instr.longBranch, Instr.skipBranch,
      Operation.size] at positive ⊢
    omega

theorem labelOffsets_getD_le (code : List Instr) (name : String) :
    (labelOffsets code).getD name 0 ≤ codeSize code := by
  by_cases defined : name ∈ definedLabels code
  · obtain ⟨front, back, rfl, last⟩ := exists_split_of_mem_definedLabels defined
    rw [labelOffsets_getD last, codeSize_append]
    exact le_add_right _ _
  · rw [labelOffsets_eq, foldl_offsetStep_getD _ defined, getD_empty]
    exact zero_le _

/-- A routine whose branches go to its labels and whose code is short enough is resolved. -/
theorem Routine.exists_resolveBranches
    (all_defined : undefinedTarget? (labelOffsets routine.code) routine.code = none)
    (short : 5 * codeSize routine.code ≤ 32767) :
    ∃ resolved, routine.resolveBranches = .ok resolved := by
  obtain ⟨skips, expands, -⟩ := routine.relaxed_expands
  have relaxed_le : codeSize routine.relaxed ≤ 32767 := le_trans expands.codeSize_le short
  rw [resolveBranches_of_defined all_defined]
  rcases placeBranches_cases routine.relaxed with
    ⟨front, op, back, code_eq, _, beyond, _⟩ | ⟨out, done, _⟩
  · have label_le := labelOffsets_getD_le routine.relaxed op.symbol
    have size_eq : codeSize routine.relaxed = codeSize front + (op.size + codeSize back) := by
      rw [code_eq, codeSize_append, codeSize_cons]
      rfl
    refine absurd ?_ beyond
    unfold LongReach branchDistance
    omega
  · rw [done]
    exact ⟨_, rfl⟩

end Backend65816

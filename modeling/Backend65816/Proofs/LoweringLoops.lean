import Backend65816.Proofs.LoweringStatements

/-!
# Code of loops

The body of a loop ends with a jump back to its head. A break goes on behind the loop, with its value
in the register that the loop has for the values of its breaks, and a continue goes on at the head.
Each iteration takes a step, so that a loop which never ends runs forever.
-/

namespace Backend65816

open Nat Lower Draft Eval

variable {draft : Draft} {run : Eval Int} {res : Except Exit (Option Int)} {last : GraphPoint}
  {before : GraphState} {loops : List EnclosingLoop} {meaning : Meaning} {steps : Nat}
  {want type : Ty} {typing inner : Typing}

variable {unit : CompilationUnit} {sig : Signature} {names : List String} {label : String}
  {body : BlockCode} {around : Surroundings} {goal : Int → GraphPoint → Prop} {decision : Eval Int}

variable {extent : Extent} {graph : Graph} {args : Nat → Int} {fuel : Nat} {next : BlockId}
  {env : Env}

/-! ## Loops that only breaks leave -/

namespace Draft

variable {loop : EnclosingLoop}

/-- The draft at the head of a loop, which has its own block. -/
def enterLoop (draft : Draft) (head : BlockId) : Draft := (draft.terminate (.jump head)).enter head

/-- The draft behind a loop, whose body ends with a jump to its head. -/
def leaveLoop (draft : Draft) (head exit : BlockId) : Draft :=
  (draft.popLoop.terminate (.jump head)).enter exit

/-- The draft with the blocks of a loop that only breaks leave. -/
def openLoop (draft : Draft) : Draft := (draft.addBlock "loop").addBlock "loop.end"

/-- The draft at the head of such a loop. -/
abbrev atHead (draft : Draft) : Draft := draft.openLoop.enterLoop draft.blocks.size

/-- Such a loop, with the next blocks as its head and its exit. -/
abbrev opened (draft : Draft) (label : String) (want : Ty) : EnclosingLoop :=
  { label, exit := draft.blocks.size + 1, next := draft.blocks.size, takesValue := true
    type := want }

/-- The draft behind such a loop, from the one at the end of its body. -/
abbrev closeLoop (draft inner : Draft) : Draft :=
  inner.leaveLoop draft.blocks.size (draft.blocks.size + 1)

variable {rule : RegisterRule} {first after : Draft} {head exit : BlockId}

theorem Adds.enterLoop (adds : first.Adds draft rule) (fresh : draft.Fresh head)
    (new : first.blocks.size ≤ head) : first.Adds (draft.enterLoop head) rule :=
  (adds.terminate _).enter (fresh.of_adds (adds.wellFormed.adds.terminate _)) new

theorem WellFormed.typing_enterLoop (wf : draft.WellFormed rule) (fresh : draft.Fresh head) :
    (draft.enterLoop head).typing = draft.typing.revived := by
  rw [Draft.enterLoop, (fresh.of_adds (wf.adds.terminate _)).typing_enter, wf.typing_terminate]
  rfl

theorem Leads.exits_lt (leads : draft.Leads after) (wf : draft.WellFormed rule) :
    ∀ loop ∈ after.loops, loop.exit < draft.blocks.size := by
  intro later mem
  have below : ∀ {loops laters : List EnclosingLoop}, LoopsGrow loops laters →
      (∀ loop ∈ loops, loop.exit < draft.blocks.size) →
      ∀ later ∈ laters, later.exit < draft.blocks.size := by
    intro loops laters grow
    induction grow with
    | nil => exact fun _ _ mem => nomatch mem
    | cons grows _ ih =>
      intro below later mem
      rcases List.mem_cons.mp mem with rfl | mem
      · rw [grows.exit]
        exact below _ (.head _)
      · simp_all
  exact below leads.loops (fun _ mem => wf.exits_lt mem) later mem

theorem WellFormed.pushLoop_of_fresh (wf : draft.WellFormed rule) (empty : loop.result = none)
    (fresh : draft.Fresh loop.exit) (new : ∀ other ∈ draft.loops, other.exit < loop.exit) :
    (draft.pushLoop loop).WellFormed rule := by
  refine wf.pushLoop empty fresh.lt_size fun mem => ?_
  grind

section

variable (empty : loop.result = none)
include empty

theorem Adds.popLoop (adds : (draft.pushLoop loop).Adds after rule) :
    draft.Adds after.popLoop rule :=
  { Evolves.popLoop empty adds.toEvolves with scopes := adds.scopes }

theorem Adds.leaveLoop (adds : first.Adds draft rule)
    (inside : (draft.pushLoop loop).Adds after rule) (fresh : draft.Fresh exit)
    (new : first.blocks.size ≤ exit) (head : BlockId) :
    first.Adds (after.leaveLoop head exit) rule := by
  have popped := inside.popLoop empty
  exact ((adds.trans popped).terminate _).enter
    ((fresh.of_adds popped).of_adds (popped.wellFormed.adds.terminate _)) new

theorem typing_leaveLoop (inside : (draft.pushLoop loop).Adds after rule) (fresh : draft.Fresh exit)
    (head : BlockId) : (after.leaveLoop head exit).typing = after.typing.popLoop.revived := by
  have popped := inside.popLoop empty
  rw [Draft.leaveLoop,
    ((fresh.of_adds popped).of_adds (popped.wellFormed.adds.terminate _)).typing_enter,
    popped.wellFormed.typing_terminate, typing_popLoop]
  rfl

end

end Draft

theorem Lower.loop_ok {after : Draft} {res : TypedReg}
    (ran : loop label body want around draft = .ok (res, after)) :
    ∃ value inner, body .unspecified around (draft.atHead.pushLoop (draft.opened label want)) =
        .ok (value, inner) ∧
      let left := inner.loops.headD (draft.opened label want)
      let behind := draft.closeLoop inner
      left.hasValued = true ∧ left.hasBare = false ∧ after = behind ∧
          res = { register := left.result.getD 0, type := left.type } ∨
        left.hasValued = false ∧ left.hasBare = true ∧ after = behind ∧ res = .void ∨
        left.hasValued = false ∧ left.hasBare = false ∧ after = behind.strand ∧ res = .never := by
  unfold loop at ran
  rw [newBlock_bind, newBlock_bind, addBlock_size, jump, terminate_bind, enter_bind] at ran
  obtain ⟨left, mid, looped, ran⟩ := bind_ok.mp ran
  obtain ⟨inner, executed, rfl, left_eq⟩ := inLoop_ok looped
  obtain ⟨value, _, computed, same⟩ := bind_ok.mp executed
  cases same
  refine ⟨value, inner, computed, ?_⟩
  rw [terminate_bind, enter_bind] at ran
  rw [left_eq] at ran
  obtain ⟨apart, ran⟩ := guard_ok.mp ran
  rw [Bool.and_eq_true, not_and, Bool.not_eq_true] at apart
  split at ran
  · next valued =>
    cases ran
    exact .inl ⟨valued, apart valued, rfl, rfl⟩
  · next unvalued =>
    rw [Bool.not_eq_true] at unvalued
    split at ran
    · next bare =>
      cases ran
      exact .inr (.inl ⟨unvalued, bare, rfl, rfl⟩)
    · next unbroken =>
      rw [Bool.not_eq_true] at unbroken
      cases ran
      exact .inr (.inr ⟨unvalued, unbroken, rfl, rfl⟩)

section Loop

variable {inner : Draft} {value : TypedReg} {loop : EnclosingLoop}

/-- The body of a loop as it is compared with its meaning. Its breaks and continues are caught. -/
theorem runs_body (computes : Computes unit sig names body meaning)
    (belong : around.Belong unit sig) {base : Draft} (leads : base.Leads draft)
    (scopes : draft.scopes = base.scopes) (empty : loop.result = none)
    (wf : (draft.pushLoop loop).WellFormed unit)
    (ran : body .unspecified around (draft.pushLoop loop) = .ok (value, inner)) :
    ∃ run, meaning .unspecified (draft.typing.pushLoop loop.typing) =
        ((value.type, run), inner.typing) ∧ (draft.pushLoop loop).Adds inner unit ∧
      ∀ {graph : Graph} {args : Nat → Int} {fuel : Nat} {env : Env} {state : GraphState},
        graph.Completes (inner.popLoop.terminate (.jump loop.next)) → draft.isDead = false →
        Agrees unit draft.scopes env state →
        Tracks graph args (draft.here state) (catching loop.label (do let _ ← run) fuel env)
          (Iterates unit graph args fuel ⟨base, names, 0⟩ inner.popLoop.loops state loop.next
            fun num point => StartsAt loop.exit point ∧ ∃ carried,
              (inner.loops.headD loop).Carries unit point.state carried ∧
                num = carried.getD 0) := by
  obtain ⟨run, typed, adds, runs⟩ := computes belong wf ran
  obtain ⟨later, loops_eq, grows, _⟩ := adds.toLeads.exists_loop
  refine ⟨run, typed, adds, fun {graph args fuel env state} completes alive agrees => ?_⟩
  have head_eq : inner.loops.headD loop = later := by rw [loops_eq]; rfl
  have runs : Runs unit ⟨base, names, 0⟩ (draft.pushLoop loop) inner (fun _ => True)
      (do let _ ← run) fun _ => inner.Arrives fun _ => True := by
    refine Runs.map (((runs.within (Extent.includes_pushLoop draft names 0 empty)).part leads scopes
      (.refl _)).post ?_)
    rintro num point ⟨alive, here_eq, _⟩
    exact ⟨alive, here_eq, trivial⟩
  rw [← grows.label, ← grows.next, ← grows.exit, head_eq]
  rw [← grows.next] at completes
  exact Runs.catching runs loops_eq rfl (adds.popLoop empty).wellFormed
    (adds.scopes.trans scopes) completes alive agrees

end Loop

namespace Draft

variable {rule : RegisterRule}

section

variable (wf : draft.WellFormed rule)
include wf

theorem WellFormed.openLoop : draft.Adds draft.openLoop rule :=
  (wf.adds.addBlock "loop").addBlock "loop.end"

theorem WellFormed.fresh_head :
    draft.openLoop.Fresh draft.blocks.size := (wf.fresh_addBlock "loop").addBlock "loop.end"

theorem WellFormed.fresh_exit : draft.atHead.Fresh (draft.blocks.size + 1) :=
  ((wf.fresh_second "loop" "loop.end").of_adds (wf.openLoop.wellFormed.adds.terminate _)).enter
    (succ_ne_self _)

theorem WellFormed.enterLoop : draft.Adds draft.atHead rule :=
  wf.openLoop.enterLoop wf.fresh_head le_rfl

theorem WellFormed.pushOpened (label : String) (want : Ty) :
    (draft.atHead.pushLoop (draft.opened label want)).WellFormed rule := by
  refine wf.enterLoop.wellFormed.pushLoop_of_fresh rfl wf.fresh_exit fun other mem => ?_
  have loops_eq : draft.atHead.loops = draft.loops :=
    terminate_loops draft.openLoop (.jump draft.blocks.size)
  exact lt_succ_of_lt (wf.exits_lt (loops_eq ▸ mem))

end

end Draft

theorem runs_loop {inner : Draft} {value : TypedReg}
    (computes : Computes unit sig names body meaning) (belong : around.Belong unit sig)
    (wf : draft.WellFormed unit) (label : String) (want : Ty)
    (ran : body .unspecified around (draft.atHead.pushLoop (draft.opened label want)) =
      .ok (value, inner)) :
    ∃ run, meaning .unspecified (draft.typing.revived.pushLoop { label, type := want }) =
        ((value.type, run), inner.typing) ∧
      (draft.atHead.pushLoop (draft.opened label want)).Adds inner unit ∧
      Runs unit ⟨draft, names, 0⟩ draft (draft.closeLoop inner) (fun _ => True)
        (iterate (catching label do let _ ← run)) fun num point =>
          StartsAt (draft.blocks.size + 1) point ∧ ∃ carried,
            (inner.loops.headD (draft.opened label want)).Carries unit point.state carried ∧
              num = carried.getD 0 := by
  have made := wf.openLoop
  have entered := wf.enterLoop
  have leads : draft.openLoop.Leads draft.atHead :=
    (made.wellFormed.adds.terminate _).toLeads.enter _
  obtain ⟨run, typed, adds, iterates⟩ := runs_body computes belong leads
    (entered.scopes.trans made.scopes.symm) rfl (wf.pushOpened label want) ran
  rw [made.wellFormed.typing_enterLoop wf.fresh_head] at typed
  have popped := adds.popLoop rfl
  have behind := entered.leaveLoop rfl adds wf.fresh_exit (le_succ _) draft.blocks.size
  refine ⟨run, typed, adds, .addBlock wf "loop" (.addBlock (wf.addBlock "loop").wellFormed
    "loop.end" ?_)⟩
  have fresh_head := wf.fresh_head.of_adds
    (made.wellFormed.adds.terminate (.jump draft.blocks.size))
  have leads_behind : (draft.openLoop.terminate (.jump draft.blocks.size)).Leads
      (draft.closeLoop inner) :=
    (((Draft.Leads.refl _).enter _).trans (popped.terminate _).toLeads).enter _
  refine (Runs.iterate made.wellFormed leads_behind (behind.scopes.trans made.scopes.symm)
    ?_).behind made
  · intro graph args fuel env state completes agrees
    have loops_eq : (draft.closeLoop inner).loops = inner.popLoop.loops :=
      terminate_loops inner.popLoop (.jump draft.blocks.size)
    rw [← fresh_head.here_enter, loops_eq]
    exact iterates ⟨completes.blocks, completes.vregs⟩ fresh_head.isDead_enter
      ((entered.scopes.trans made.scopes.symm) ▸ agrees)

theorem computes_loop (computes : Computes unit sig names body meaning)
    (label : String) : Computes unit sig names (Lower.loop label body) (.loop label meaning) := by
  intro want around draft after res belong wf ran
  obtain ⟨value, inner, computed, ways⟩ := loop_ok ran
  obtain ⟨run, typed, adds, runs⟩ := runs_loop computes belong wf label want computed
  obtain ⟨left, loops_eq, _, _⟩ := adds.toLeads.exists_loop
  have head_eq : inner.loops.headD (draft.opened label want) = left := by
    rw [loops_eq]
    rfl
  have typing_eq : inner.typing.loops.headD { label } = left.typing := by
    rw [Draft.typing, loops_eq]
    rfl
  simp only [head_eq] at ways runs
  have popped := adds.popLoop rfl
  have behind := wf.enterLoop.leaveLoop rfl adds wf.fresh_exit (le_succ _) draft.blocks.size
  have fresh := (wf.fresh_exit.of_adds popped).of_adds
    (popped.wellFormed.adds.terminate (.jump draft.blocks.size))
  have behind_typing := typing_leaveLoop rfl adds wf.fresh_exit draft.blocks.size
  unfold Meaning.loop
  rw [Typed.modify_bind, Typed.bind_eq typed]
  simp only
  rw [Typed.get_bind, typing_eq]
  refine ⟨iterate (catching label do let _ ← run), ?_⟩
  have closed : inner.popLoop.Leads (draft.closeLoop inner) :=
    (popped.wellFormed.terminate _).toLeads.enter _
  have lands : Runs unit ⟨draft, names, 0⟩ draft (draft.closeLoop inner) (fun _ => True)
      (iterate (catching label do let _ ← run)) fun num =>
        (draft.closeLoop inner).Arrives fun state =>
          ∃ carried, left.Carries unit state carried ∧ num = carried.getD 0 :=
    runs.post fun both => fresh.arrives both.1 both.2
  rcases ways with ⟨valued, bare, rfl, rfl⟩ | ⟨valued, bare, rfl, rfl⟩ | ⟨valued, bare, rfl, rfl⟩
  · refine ⟨?_, behind, lands.post ?_⟩
    · simp only [EnclosingLoop.typing, valued, behind_typing]
      rfl
    · rintro num point ⟨alive, here_eq, carried, carries, rfl⟩
      cases carried with
      | none => exact absurd carries (Bool.not_eq_true _ ▸ bare)
      | some num =>
        obtain ⟨_, reg, known, content, holds⟩ := carries
        have distinct := adds.wellFormed.distinct
        rw [owned, loops_eq, List.filterMap_cons_some known, List.perm_middle.nodup_iff] at distinct
        have reserved : inner.popLoop.Reserved _ { register := reg, type := left.type } :=
          ⟨adds.wellFormed.results (loops_eq ▸ .head _) known, (List.nodup_cons.mp distinct).1⟩
        have reserved := reserved.of_leads closed
        rw [known]
        exact ⟨alive, here_eq, reserved.provides content holds _⟩
  · refine ⟨?_, behind, lands.weaken id id (fun _ agrees keeps holds => ⟨agrees, keeps, ?_⟩) id⟩
    · simp only [EnclosingLoop.typing, valued, bare, behind_typing]
      rfl
    · obtain ⟨alive, here_eq, carried, carries, rfl⟩ := holds
      cases carried with
      | none => exact ⟨alive, here_eq, .void behind.wellFormed agrees.zero _⟩
      | some num => exact absurd carries.1 (Bool.not_eq_true _ ▸ valued)
  · refine ⟨?_, behind.trans behind.wellFormed.strand,
      (lands.later behind.wellFormed.strand.toLeads rfl).post ?_⟩
    · rw [typing_strand, behind_typing]
      simp only [EnclosingLoop.typing, valued, bare]
      rfl
    · rintro num point ⟨_, _, carried, carries, _⟩
      cases carried with
      | none => exact absurd carries (Bool.not_eq_true _ ▸ bare)
      | some num => exact absurd carries.1 (Bool.not_eq_true _ ▸ valued)

/-! ## Loops with a test in front -/

namespace Draft

/-- The draft with the blocks of a loop that has a test in front. -/
def openWhile (draft : Draft) : Draft :=
  ((draft.addBlock "while").addBlock "while.body").addBlock "while.end"

/-- The draft at the test of such a loop. -/
abbrev atTest (draft : Draft) : Draft := draft.openWhile.enterLoop draft.blocks.size

/-- The draft at the body of such a loop, from the one behind its test. -/
abbrev atBody (draft tested : Draft) (label : String) : Draft :=
  (tested.enter (draft.blocks.size + 1)).pushLoop
    { label, exit := draft.blocks.size + 2, next := draft.blocks.size }

/-- The draft behind such a loop, from the one at the end of its body. -/
abbrev closeWhile (draft inner : Draft) : Draft :=
  inner.leaveLoop draft.blocks.size (draft.blocks.size + 2)

variable {rule : RegisterRule}

section

variable (wf : draft.WellFormed rule)
include wf

theorem WellFormed.openWhile : draft.Adds draft.openWhile rule :=
  ((wf.adds.addBlock "while").addBlock "while.body").addBlock "while.end"

theorem WellFormed.fresh_test : draft.openWhile.Fresh draft.blocks.size :=
  ((wf.fresh_addBlock "while").addBlock "while.body").addBlock "while.end"

theorem WellFormed.enterWhile : draft.Adds draft.atTest rule :=
  wf.openWhile.enterLoop wf.fresh_test le_rfl

theorem WellFormed.fresh_inside : draft.atTest.Fresh (draft.blocks.size + 1) :=
  (((wf.fresh_second "while" "while.body").addBlock "while.end").of_adds
    (wf.openWhile.wellFormed.adds.terminate _)).enter (succ_ne_self _)

theorem WellFormed.fresh_behind : draft.atTest.Fresh (draft.blocks.size + 2) := by
  have other : draft.blocks.size + 2 ≠ draft.blocks.size := by omega
  exact (wf.fresh_third.of_adds (wf.openWhile.wellFormed.adds.terminate _)).enter other

end

end Draft

section

variable (iterates : Iterates unit graph args fuel extent loops before next goal res env steps last)
include iterates

theorem Iterates.after {first : GraphState} (keeps : extent.base.Keeps extent.names first before)
    (more : Nat) :
    Iterates unit graph args fuel extent loops first next goal res env (more + steps) last := by
  match res with
  | .ok none =>
    obtain ⟨pos, starts, agrees, keeps'⟩ := iterates
    exact ⟨lt_of_lt_of_le pos (le_add_left _ _), starts, agrees, keeps.trans keeps'⟩
  | .ok (some value) =>
    obtain ⟨agrees, keeps', holds⟩ := iterates
    exact ⟨agrees, keeps.trans keeps', holds⟩
  | .error exit =>
    exact Leaves.after iterates keeps (.refl _) (le_add_left _ _)

theorem Iterates.imp {goal' : Int → GraphPoint → Prop}
    (imp : ∀ {value}, goal value last → goal' value last) :
    Iterates unit graph args fuel extent loops before next goal' res env steps last := by
  match res with
  | .ok none => exact iterates
  | .ok (some value) => exact ⟨iterates.1, iterates.2.1, imp iterates.2.2⟩
  | .error exit => exact iterates

end

theorem tracks_tested {after : Draft} {yes no : BlockId} {iteration : Eval (Option Int)}
    {point : GraphPoint} {state : GraphState} (scopes : after.scopes = extent.base.scopes)
    (tested : Tracks graph args point (decision fuel env)
      (Lands unit graph args fuel extent after state fun num =>
        StartsAt (if num ≠ 0 then yes else no)))
    (iterates : ∀ {env state}, Agrees unit extent.base.scopes env state →
      Tracks graph args ⟨yes, 0, state⟩ (iteration fuel env)
        (Iterates unit graph args fuel extent after.loops state next goal))
    (ends : ∀ state, goal 0 ⟨no, 0, state⟩) :
    Tracks graph args point (choose decision iteration (pure (some 0)) fuel env)
      (Iterates unit graph args fuel extent after.loops state next goal) := by
  obtain ⟨steps, last, reaches, lands⟩ := tested
  unfold Eval.choose
  match res : decision fuel env with
  | (.ok num, env') =>
    rw [res] at lands
    rw [bind_of_ok _ res]
    obtain ⟨agrees, keeps, starts⟩ := lands
    rw [starts.eq] at reaches
    rw [scopes] at agrees
    by_cases holds : num ≠ 0
    · rw [if_pos holds] at reaches ⊢
      obtain ⟨steps', last', reaches', iterated⟩ := iterates agrees
      exact ⟨steps + steps', last', reaches.trans reaches', iterated.after keeps steps⟩
    · rw [if_neg holds] at reaches ⊢
      exact ⟨steps, _, reaches, agrees, keeps, ends _⟩
  | (.error exit, env') =>
    rw [res] at lands
    rw [bind_of_error _ res]
    exact ⟨steps, last, reaches, lands⟩

section While

variable {cond : ExprCode} {conditionMeaning : Meaning} {tested inner : Draft} {value : TypedReg}

theorem runs_while (wf : draft.WellFormed unit) (adds : draft.atTest.Adds tested unit)
    (decides : Runs unit ⟨draft.openWhile.enterLoop draft.blocks.size, names, 0⟩
      draft.atTest tested (fun _ => True) decision fun num =>
        StartsAt (if num ≠ 0 then draft.blocks.size + 1 else draft.blocks.size + 2))
    (grown : (draft.atBody tested label).Adds inner unit)
    (iterates : ∀ {graph : Graph} {args : Nat → Int} {fuel : Nat} {env : Env}
      {state : GraphState},
      graph.Completes (inner.popLoop.terminate (.jump draft.blocks.size)) →
      Agrees unit draft.openWhile.scopes env state →
      Tracks graph args ⟨draft.blocks.size + 1, 0, state⟩
        (catching label (do let _ ← run) fuel env)
        (Iterates unit graph args fuel ⟨draft.openWhile, names, 0⟩ inner.popLoop.loops state
          draft.blocks.size fun _ => StartsAt (draft.blocks.size + 2))) :
    Runs unit ⟨draft, names, 0⟩ draft (draft.closeWhile inner) (fun _ => True)
      (iterate (.choose decision (catching label do let _ ← run) (pure (some 0))))
      fun _ => StartsAt (draft.blocks.size + 2) := by
  have made := wf.openWhile
  have popped := grown.popLoop rfl
  have closed : tested.Leads (draft.closeWhile inner) :=
    (((Draft.Leads.refl tested).enter _).trans (popped.terminate _).toLeads).enter _
  have entered : draft.openWhile.Leads draft.atTest :=
    (made.wellFormed.adds.terminate _).toLeads.enter _
  have fresh := wf.fresh_test.of_adds (made.wellFormed.adds.terminate (.jump draft.blocks.size))
  have entered_scopes := wf.enterWhile.scopes.trans made.scopes.symm
  have closed_scopes : (draft.closeWhile inner).scopes =
      tested.scopes := (popped.terminate (.jump draft.blocks.size)).scopes
  have scopes := closed_scopes.trans (adds.scopes.trans entered_scopes)
  have loops_eq : (draft.closeWhile inner).loops =
      inner.popLoop.loops := terminate_loops inner.popLoop (.jump draft.blocks.size)
  have decides := (decides.part entered entered_scopes (.refl _)).later closed
    closed_scopes
  refine .addBlock wf "while" (.addBlock (wf.addBlock "while").wellFormed "while.body"
    (.addBlock (wf.adds.addBlock "while" |>.addBlock "while.body").wellFormed "while.end" ?_))
  refine (Runs.iterate made.wellFormed (((Draft.Leads.refl _).enter _).trans
    (adds.toLeads.trans closed)) scopes ?_).behind made
  intro graph args fuel env state completes agrees
  rw [← fresh.here_enter]
  refine tracks_tested scopes (decides completes fresh.isDead_enter (entered_scopes ▸ agrees)
    trivial) ?_ fun _ => ⟨rfl, rfl⟩
  intro env state agrees
  rw [loops_eq]
  exact iterates ⟨completes.blocks, completes.vregs⟩ agrees

theorem executes_while (branches : Branches unit sig names cond.branch conditionMeaning)
    (computes : Computes unit sig names body meaning) (label : String) :
    Executes unit sig names (Lower.whileLoop label cond body)
      (.whileLoop label conditionMeaning meaning) := by
  intro around draft after belong wf ran
  unfold Lower.whileLoop at ran
  rw [newBlock_bind, newBlock_bind, newBlock_bind, addBlock_size,
    addBlock_size, addBlock_size, add_assoc, Lower.jump, terminate_bind,
    enter_bind] at ran
  obtain ⟨_, tested, branched, ran⟩ := bind_ok.mp ran
  rw [enter_bind] at ran
  obtain ⟨_, _, looped, ran⟩ := bind_ok.mp ran
  obtain ⟨inner, executed, rfl, _⟩ := inLoop_ok looped
  obtain ⟨value, _, computed, same⟩ := bind_ok.mp executed
  cases same
  cases ran
  have made := wf.openWhile
  obtain ⟨decision, tests, adds, decides⟩ := branches belong wf.enterWhile.wellFormed branched
  rw [made.wellFormed.typing_enterLoop wf.fresh_test] at tests
  have fresh_inside := wf.fresh_inside.of_adds adds
  have inside := (wf.enterWhile.trans adds).enter fresh_inside (le_succ _)
  have fresh_behind : (tested.enter (draft.blocks.size + 1)).Fresh (draft.blocks.size + 2) :=
    (wf.fresh_behind.of_adds adds).enter (succ_ne_self _)
  have pushed : (draft.atBody tested label).WellFormed _ :=
    inside.wellFormed.pushLoop_of_fresh rfl fresh_behind fun other mem =>
      Nat.lt_add_right 2 (inside.toLeads.exits_lt wf other mem)
  have leads : draft.openWhile.Leads (tested.enter (draft.blocks.size + 1)) :=
    ((made.wellFormed.adds.terminate _).toLeads.enter _).trans (adds.toLeads.enter _)
  have scopes := inside.scopes.trans made.scopes.symm
  obtain ⟨run, typed, grown, iterates⟩ := runs_body computes belong leads scopes rfl pushed computed
  rw [fresh_inside.typing_enter] at typed
  have popped := grown.popLoop rfl
  have behind := inside.leaveLoop rfl grown fresh_behind (by omega) draft.blocks.size
  have behind_typing := typing_leaveLoop rfl grown fresh_behind draft.blocks.size
  unfold StmtMeaning.whileLoop
  have tests : conditionMeaning.test draft.typing.revived = _ := tests
  rw [Typed.modify_bind, Typed.bind_eq tests, Typed.modify_bind]
  refine ⟨_, (Typed.bind_eq typed).trans (Prod.ext rfl behind_typing.symm),
    behind.toEvolves, congrArg (List.drop 1) behind.scopes, Runs.map (Runs.inStatement ?_)⟩
  have runs := runs_while wf adds decides grown fun {_ _ _ _ _} completes agrees =>
    fresh_inside.here_enter _ ▸ (iterates completes fresh_inside.isDead_enter
      (scopes ▸ agrees)).mono fun lands => lands.imp And.left
  refine runs.post fun starts => ?_
  exact ((fresh_behind.of_adds popped).of_adds
    (popped.wellFormed.adds.terminate _)).arrives starts trivial

end While

end Backend65816

import Backend65816.Proofs.Agreement

/-!
# Runs of code under construction

A run of added code is compared with an evaluation: it reaches the end of the code with the values
that the evaluation gives, or it leaves the code where the evaluation does. The comparison holds in
every graph that completes the draft, so that code can be put together piece by piece.
-/

namespace Backend65816

open Nat

variable {head : BlockId} {iteration : Eval (Option Int)} {outer : Extent}
  {pre' : GraphState → Prop} {num : Int}

variable {loop : EnclosingLoop} {state : GraphState} {fuel : Nat} {env : Env} {id : BlockId}
  {point : GraphPoint}

/-! ## What code keeps -/

/-- Registers of a draft keep their contents, but for those that its code may change. -/
def Draft.Keeps (draft : Draft) (names : List String) (before after : GraphState) : Prop :=
  ∀ register < draft.vregs.size, ¬draft.Mutable names register →
    after.registers register = before.registers register

namespace Draft.Keeps

variable {draft : Draft} {names : List String} {first second third : GraphState}

theorem refl (draft : Draft) (names : List String) (state : GraphState) :
    draft.Keeps names state state := fun _ _ _ => rfl

theorem trans (early : draft.Keeps names first second) (late : draft.Keeps names second third) :
    draft.Keeps names first third :=
  fun reg below fixed => (late reg below fixed).trans (early reg below fixed)

theorem of_leads {before : Draft} {more : List String} (keeps : draft.Keeps names first second)
    (leads : before.Leads draft) (subset : names ⊆ more) : before.Keeps more first second := by
  intro reg below fixed
  refine keeps reg (lt_of_lt_of_le below leads.vregs_le) fun changes => ?_
  exact fixed ((leads.changes below changes).mono subset)

theorem write_new {target : VReg} (new : draft.vregs.size ≤ target) (width : Width) (num : Int) :
    draft.Keeps names first (first.write width target num) :=
  fun _ below _ => GraphState.write_of_ne _ (Nat.ne_of_lt (Nat.lt_of_lt_of_le below new))

end Draft.Keeps

/-- The part of a draft to which a piece of code belongs. -/
structure Extent where
  base : Draft
  names : List String
  cut : Nat := 0

/-- A piece of code belongs to a larger one. -/
structure Extent.Includes (outer inner : Extent) : Prop where
  keeps : ∀ {before after : GraphState}, inner.base.Keeps inner.names before after →
    outer.base.Keeps outer.names before after
  cut : inner.cut ≤ outer.cut
  scopes : inner.base.scopes.drop outer.cut = outer.base.scopes.drop outer.cut

theorem Extent.Includes.of_leads {inner : Extent} (leads : outer.base.Leads inner.base)
    (names : inner.names ⊆ outer.names) (cut : inner.cut ≤ outer.cut)
    (scopes : inner.base.scopes.drop outer.cut = outer.base.scopes.drop outer.cut) :
    outer.Includes inner :=
  ⟨fun keeps => keeps.of_leads leads names, cut, scopes⟩

theorem Extent.includes_pushLoop (base : Draft) (names : List String) (cut : Nat)
    (empty : loop.result = none) :
    Includes ⟨base, names, cut⟩ ⟨base.pushLoop loop, names, cut⟩ where
  keeps keeps reg below fixed := by
    refine keeps reg below fun changes => fixed (changes.imp_left ?_)
    rintro ⟨other, mem, known⟩
    rcases List.mem_cons.mp mem with rfl | mem
    all_goals grind
  cut := le_refl _
  scopes := rfl

/-! ## Leaving code -/

/-- A loop has been left with a value, or without one, as a break does. -/
def EnclosingLoop.Carries (loop : EnclosingLoop) (unit : CompilationUnit) (state : GraphState) :
    Option Int → Prop
  | none => loop.hasBare = true
  | some number => loop.hasValued = true ∧ ∃ register, loop.result = some register ∧
      state.registers register = number ∧ unit.Holds loop.type number

theorem EnclosingLoop.Grows.carries {later : EnclosingLoop} (grows : loop.Grows later)
    {unit : CompilationUnit} {value : Option Int} (carries : loop.Carries unit state value) :
    later.Carries unit state value := by
  cases value with
  | none => exact grows.bare carries
  | some num =>
    obtain ⟨valued, reg, known, content, holds⟩ := carries
    obtain ⟨known, type_eq⟩ := grows.result known
    exact ⟨grows.valued valued, reg, known, content, type_eq ▸ holds⟩

/-- A run has come to the start of a block outside of a piece of code. -/
structure Outside (unit : CompilationUnit) (extent : Extent) (before : GraphState)
    (target : BlockId) (env : Env) (last : GraphPoint) : Prop where
  block : last.block = target
  position : last.position = 0
  agrees : Agrees unit (extent.base.scopes.drop extent.cut)
    { env with scopes := env.scopes.drop extent.cut } last.state
  keeps : extent.base.Keeps extent.names before last.state

/-- A run leaves a piece of code in the way that an evaluation does. -/
def Leaves (unit : CompilationUnit) (graph : Graph) (arguments : Nat → Int) (fuel : Nat)
    (extent : Extent) (loops : List EnclosingLoop) (before : GraphState) (env : Env) (steps : Nat)
    (last : GraphPoint) : Exit → Prop
  | .leave label value =>
    ∃ loop, loops.find? (fun loop => labelFits label loop.label) = some loop ∧
      loop.Carries unit last.state value ∧ Outside unit extent before loop.exit env last
  | .proceed label =>
    0 < steps ∧ ∃ loop, loops.find? (fun loop => labelFits label loop.label) = some loop ∧
      Outside unit extent before loop.next env last
  | .giveBack values => graph.step arguments last = some (.inr (values, env.memory))
  | .timeout => fuel ≤ steps

section Leaves

variable {unit : CompilationUnit} {graph : Graph} {args : Nat → Int} {extent : Extent}
  {loops later : List EnclosingLoop} {first before : GraphState} {steps more : Nat}
  {target : BlockId} {last : GraphPoint} {exit : Exit}

theorem Outside.after (outside : Outside unit extent before target env last)
    (keeps : extent.base.Keeps extent.names first before) :
    Outside unit extent first target env last :=
  { outside with keeps := keeps.trans outside.keeps }

theorem Outside.within (outside : Outside unit extent before target env last)
    (includes : outer.Includes extent) : Outside unit outer before target env last where
  block := outside.block
  position := outside.position
  agrees := by
    have agrees := outside.agrees.drop (outer.cut - extent.cut)
    simp only [List.drop_drop, add_sub_of_le includes.cut, includes.scopes] at agrees
    exact agrees
  keeps := includes.keeps outside.keeps

variable (leaves : Leaves unit graph args fuel extent loops before env steps last exit)
include leaves

/-- A run that leaves still does so as part of a larger piece, after more steps, among loops of which
more is known. -/
theorem Leaves.imp {env' : Env} {fuel' : Nat}
    (outside : ∀ {target}, Outside unit extent before target env last →
      Outside unit outer first target env' last) (memory_eq : env'.memory = env.memory)
    (grow : LoopsGrow loops later) (le : steps ≤ more) (enough : fuel ≤ steps → fuel' ≤ more) :
    Leaves unit graph args fuel' outer later first env' more last exit := by
  cases exit with
  | leave label value =>
    obtain ⟨loop, found, carries, stands⟩ := leaves
    obtain ⟨loop', found', grows⟩ := grow.find found
    exact ⟨loop', found', grows.carries carries, grows.exit ▸ outside stands⟩
  | proceed label =>
    obtain ⟨pos, loop, found, stands⟩ := leaves
    obtain ⟨loop', found', grows⟩ := grow.find found
    exact ⟨lt_of_lt_of_le pos le, loop', found', grows.next ▸ outside stands⟩
  | giveBack vals => exact leaves.trans (by rw [memory_eq])
  | timeout => exact enough leaves

theorem Leaves.after (keeps : extent.base.Keeps extent.names first before)
    (grow : LoopsGrow loops later) (le : steps ≤ more) :
    Leaves unit graph args fuel extent later first env more last exit :=
  leaves.imp (·.after keeps) rfl grow le fun enough => le_trans enough le

end Leaves

/-! ## Comparing runs with evaluations -/

namespace Eval

variable {α β : Type}

theorem bind_of_ok {first : Eval α} (next : α → Eval β) {after : Env} {value : α}
    (res : first fuel env = (.ok value, after)) :
    (first >>= next) fuel env = next value fuel after := by
  simp only [Bind.bind, res]

theorem bind_of_error {first : Eval α} (next : α → Eval β) {after : Env} {exit : Exit}
    (res : first fuel env = (.error exit, after)) :
    (first >>= next) fuel env = (.error exit, after) := by
  simp only [Bind.bind, res]

theorem bind_pure (run : Eval α) : run >>= pure = run := by
  funext fuel env
  match res : run fuel env with
  | (.ok value, after) => rw [bind_of_ok pure res]; rfl
  | (.error exit, after) => rw [bind_of_error pure res]

theorem bind_assoc {γ : Type} (run : Eval α) (next : α → Eval β) (last : β → Eval γ) :
    run >>= next >>= last = run >>= fun value => next value >>= last := by
  funext fuel env
  match res : run fuel env with
  | (.ok value, after) =>
    rw [bind_of_ok _ res]
    match outcome' : next value fuel after with
    | (.ok value', after') =>
      grind [bind_of_ok]
    | (.error exit, after') =>
      rw [bind_of_error _ ((bind_of_ok next res).trans outcome'), bind_of_error _ outcome']
  | (.error exit, after) =>
    grind [bind_of_error]

end Eval

def StartsAt (id : BlockId) (point : GraphPoint) : Prop := point.block = id ∧ point.position = 0

/-- A run is where code is added to a draft, in a state of some kind. -/
def Draft.Arrives (draft : Draft) (post : GraphState → Prop) (point : GraphPoint) : Prop :=
  draft.isDead = false ∧ point = draft.here point.state ∧ post point.state

theorem StartsAt.eq (starts : StartsAt id point) : point = ⟨id, 0, point.state⟩ := by
  obtain ⟨rfl, position_eq⟩ := starts
  rw [← position_eq]

theorem Draft.Fresh.arrives {draft : Draft} (fresh : draft.Fresh id) (starts : StartsAt id point)
    {post : GraphState → Prop} (holds : post point.state) : (draft.enter id).Arrives post point :=
  ⟨fresh.isDead_enter, starts.eq.trans (fresh.here_enter _).symm, holds⟩

section Runs

variable {α β : Type} {graph : Graph} {arguments : Nat → Int} {run : Eval α}
  {goal : α → GraphPoint → Prop} {next : α → Eval β} {names : List String}

/-- A run from a point comes to one that fits the outcome of an evaluation. -/
def Tracks (graph : Graph) (arguments : Nat → Int) (point : GraphPoint)
    (outcome : Except Exit α × Env)
    (lands : Except Exit α → Env → Nat → GraphPoint → Prop) : Prop :=
  ∃ steps last, graph.ReachesIn arguments steps point last ∧ lands outcome.1 outcome.2 steps last

/-- A run comes to a goal where the evaluation gives a value, and leaves where it leaves. -/
def Lands (unit : CompilationUnit) (graph : Graph) (arguments : Nat → Int) (fuel : Nat)
    (extent : Extent) (after : Draft) (before : GraphState) (goal : α → GraphPoint → Prop)
    (result : Except Exit α) (env : Env) (steps : Nat) (last : GraphPoint) : Prop :=
  match result with
  | .ok value =>
    Agrees unit after.scopes env last.state ∧
      extent.base.Keeps extent.names before last.state ∧ goal value last
  | .error exit =>
    Leaves unit graph arguments fuel extent after.loops before env steps last exit

/-- The code from one draft to another does what an evaluation does. -/
def Runs (unit : CompilationUnit) (extent : Extent) (start after : Draft)
    (pre : GraphState → Prop) (run : Eval α) (goal : α → GraphPoint → Prop) : Prop :=
  ∀ ⦃graph : Graph⦄ ⦃arguments : Nat → Int⦄ ⦃fuel : Nat⦄ ⦃env : Env⦄ ⦃state : GraphState⦄,
    graph.Completes after → start.isDead = false → Agrees unit start.scopes env state →
    pre state → Tracks graph arguments (start.here state) (run fuel env)
      (Lands unit graph arguments fuel extent after state goal)

variable {unit : CompilationUnit} {extent : Extent} {start middle after : Draft}
  {pre : GraphState → Prop}

theorem Tracks.mono {res : Except Exit α × Env}
    {lands lands' : Except Exit α → Env → Nat → GraphPoint → Prop}
    (tracks : Tracks graph args point res lands)
    (imp : ∀ {steps last}, lands res.1 res.2 steps last → lands' res.1 res.2 steps last) :
    Tracks graph args point res lands' := by
  obtain ⟨steps, last, reaches, holds⟩ := tracks
  exact ⟨steps, last, reaches, imp holds⟩

/-- A run goes on behind the first part of an evaluation, unless that part leaves. -/
theorem Tracks.bind {first : Eval α} {lands : Except Exit α → Env → Nat → GraphPoint → Prop}
    {lands' : Except Exit β → Env → Nat → GraphPoint → Prop}
    (early : Tracks graph args point (first fuel env) lands)
    (late : ∀ {value env' steps last}, lands (.ok value) env' steps last →
      Tracks graph args last (next value fuel env') fun res env more =>
        lands' res env (steps + more))
    (leaves : ∀ {exit env' steps last}, lands (.error exit) env' steps last →
      lands' (.error exit) env' steps last) :
    Tracks graph args point ((first >>= next) fuel env) lands' := by
  obtain ⟨steps, middle, reaches, landed⟩ := early
  match outcome : first fuel env with
  | (.ok value, env') =>
    rw [outcome] at landed
    rw [Eval.bind_of_ok next outcome]
    obtain ⟨more, last, reaches', landed'⟩ := late landed
    exact ⟨steps + more, last, reaches.trans reaches', landed'⟩
  | (.error exit, env') =>
    rw [outcome] at landed
    rw [Eval.bind_of_error next outcome]
    exact ⟨steps, middle, reaches, leaves landed⟩

section

variable (runs : Runs unit extent start after pre run goal)
include runs

/-- Code still does what an evaluation does as part of a larger piece, with more code behind it and
with a weaker goal. -/
theorem Runs.weaken {later : Draft} {goal' : α → GraphPoint → Prop}
    (completes : ∀ {graph : Graph}, graph.Completes later → graph.Completes after)
    (pre_imp : ∀ {state}, pre' state → pre state)
    (lands : ∀ {env value before} {last : GraphPoint}, pre' before →
      Agrees unit after.scopes env last.state → extent.base.Keeps extent.names before last.state →
      goal value last → Agrees unit later.scopes env last.state ∧
        outer.base.Keeps outer.names before last.state ∧ goal' value last)
    (leaves : ∀ {graph args fuel before env steps last exit},
      Leaves unit graph args fuel extent after.loops before env steps last exit →
      Leaves unit graph args fuel outer later.loops before env steps last exit) :
    Runs unit outer start later pre' run goal' := by
  intro graph args fuel env state completed alive agrees holds
  refine (runs (completes completed) alive agrees (pre_imp holds)).mono fun {steps last} landed => ?_
  revert landed
  cases (run fuel env).1 with
  | ok value => exact fun landed => lands holds landed.1 landed.2.1 landed.2.2
  | error exit => exact leaves

theorem Runs.imp {goal' : α → GraphPoint → Prop} (pre_imp : ∀ {state}, pre' state → pre state)
    (goal_imp : ∀ {value point}, goal value point → goal' value point) :
    Runs unit extent start after pre' run goal' :=
  runs.weaken id pre_imp (fun _ agrees keeps holds => ⟨agrees, keeps, goal_imp holds⟩) id

theorem Runs.post {goal' : α → GraphPoint → Prop}
    (imp : ∀ {value point}, goal value point → goal' value point) :
    Runs unit extent start after pre run goal' :=
  runs.imp id imp

end

theorem Runs.assume {known : Prop} (shown : ∀ {state}, pre state → known)
    (runs : known → Runs unit extent start after pre run goal) :
    Runs unit extent start after pre run goal :=
  fun _ _ _ _ _ completes alive agrees holds =>
    runs (shown holds) completes alive agrees holds

section

variable (runs : Runs unit extent start after pre run goal)
include runs

theorem Runs.within (includes : outer.Includes extent) : Runs unit outer start after pre run goal :=
  runs.weaken id id (fun _ agrees keeps holds => ⟨agrees, includes.keeps keeps, holds⟩)
    fun leaves => leaves.imp (·.within includes) rfl (.refl _) le_rfl id

theorem Runs.later {later : Draft} (leads : after.Leads later)
    (scopes : later.scopes = after.scopes) : Runs unit extent start later pre run goal :=
  runs.weaken leads.completes id (fun _ agrees keeps holds => ⟨scopes ▸ agrees, keeps, holds⟩)
    fun leaves => leaves.after (.refl _ _ _) leads.loops le_rfl

end

theorem Lands.later {first before : GraphState} {res : Except Exit α} {steps more : Nat}
    {last : GraphPoint}
    (lands : Lands unit graph args fuel extent after before goal res env steps last)
    (keeps : extent.base.Keeps extent.names first before) (le : steps ≤ more) :
    Lands unit graph args fuel extent after first goal res env more last := by
  cases res with
  | ok value => exact ⟨lands.1, keeps.trans lands.2.1, lands.2.2⟩
  | error exit => exact .after lands keeps (.refl _) le

theorem Runs.bind {first : Eval α} {mid : α → GraphState → Prop} {goal : β → GraphPoint → Prop}
    (early : Runs unit extent start middle pre first fun value => middle.Arrives (mid value))
    (late : ∀ value, Runs unit extent middle after (mid value) (next value) goal)
    (leads : middle.Leads after) : Runs unit extent start after pre (first >>= next) goal := by
  intro graph args fuel env state completes alive agrees holds
  refine (early (leads.completes completes) alive agrees holds).bind ?_
    fun leaves => .after leaves (.refl _ _ _) leads.loops le_rfl
  rintro value env' steps last ⟨agrees', keeps, alive', here_eq, holds'⟩
  rw [here_eq]
  exact (late value completes alive' agrees' holds').mono fun lands =>
    lands.later keeps (le_add_left _ _)

theorem Runs.prepare {value : α} {run : Eval β} {mid : GraphState → Prop}
    {goal : β → GraphPoint → Prop}
    (early : Runs unit extent start middle pre (pure value) fun _ => middle.Arrives mid)
    (late : Runs unit extent middle after mid run goal) (leads : middle.Leads after) :
    Runs unit extent start after pre run goal :=
  early.bind (fun _ => late) leads

theorem Runs.bind_never {first : Eval α} {goal : β → GraphPoint → Prop}
    (never : Runs unit extent start after pre first fun _ _ => False) :
    Runs unit extent start after pre (first >>= next) goal :=
  fun _ _ _ _ _ completes alive agrees holds =>
    (never completes alive agrees holds).bind (fun lands => lands.2.2.elim) id

theorem Runs.map {change : α → β} {goal : β → GraphPoint → Prop}
    (runs : Runs unit extent start after pre run fun value => goal (change value)) :
    Runs unit extent start after pre (do return change (← run)) goal :=
  fun _ _ _ _ _ completes alive agrees holds =>
    (runs completes alive agrees holds).bind (fun lands => ⟨0, _, .refl _, lands⟩) id

theorem Runs.frame {fact : GraphState → Prop} (runs : Runs unit extent start after pre run goal)
    (stable : ∀ {before after : GraphState}, extent.base.Keeps extent.names before after →
      fact before → fact after) :
    Runs unit extent start after (fun state => pre state ∧ fact state) run
      fun value point => goal value point ∧ fact point.state :=
  runs.weaken id And.left
    (fun holds agrees keeps reached => ⟨agrees, keeps, reached, stable keeps holds.2⟩) id

/-! ## Pieces of code -/

theorem Runs.stay {post : α → GraphState → Prop}
    (stays : ∀ {fuel env state}, Agrees unit start.scopes env state → pre state →
      ∃ value, run fuel env = (.ok value, env) ∧ post value state) :
    Runs unit extent start start pre run fun value => start.Arrives (post value) := by
  intro graph args fuel env state completes alive agrees holds
  obtain ⟨value, res, holds'⟩ := stays agrees holds
  rw [res]
  exact ⟨0, _, .refl _, agrees, .refl _ _ _, alive, rfl, holds'⟩

theorem Runs.step (stepped : ∀ {graph : Graph} {args : Nat → Int} {fuel : Nat} {env : Env}
      {state : GraphState}, graph.Completes after → start.isDead = false →
      Agrees unit start.scopes env state → pre state →
      ∃ value env' last, run fuel env = (.ok value, env') ∧
        graph.step args (start.here state) = some (.inl last) ∧
        Agrees unit after.scopes env' last.state ∧
        extent.base.Keeps extent.names state last.state ∧ goal value last) :
    Runs unit extent start after pre run goal := by
  intro graph args fuel env state completes alive agrees holds
  obtain ⟨value, env', last, res, next, agrees', keeps, holds'⟩ :=
    @stepped graph args fuel env state completes alive agrees holds
  rw [res]
  exact ⟨1, last, .single next, agrees', keeps, holds'⟩

/-- The action writes to a register of a width, and does nothing else. -/
abbrev Action.Writes (action : Action) (width : Width) (register : VReg)
    (content : GraphState → Int) : Prop :=
  ∀ {graph : Graph} {arguments : Nat → Int} {state : GraphState}, graph.width register = width →
    graph.act arguments state action = some (state.write width register (content state))

section

variable (wf : start.WellFormed unit)
include wf

theorem Runs.compute (info : VRegInfo) {action : Action} (content : GraphState → Int)
    (acts : action.Writes info.width start.vregs.size content)
    (number_eq : ∀ {state}, pre state → info.width.truncate (content state) = num) :
    Runs unit ⟨start, names, 0⟩ start ((start.addReg info).emit action) pre (pure num)
      fun value => ((start.addReg info).emit action).Arrives fun state =>
        value = num ∧ state.registers start.vregs.size = num ∧ info.width.Holds num := by
  have added := wf.addReg info
  refine .step fun {graph args fuel env state} completes alive agrees holds => ?_
  have known : (start.addReg info).vregs[start.vregs.size]? = some info := Array.getElem?_push_size
  have width_eq : graph.width start.vregs.size = info.width :=
    ((added.wellFormed.emit action).toLeads.completes completes).width_eq known
  have next := completes.step_emit added.wellFormed alive (@acts graph args state width_eq)
  refine ⟨num, env, _, rfl, next, ?_, .write_new le_rfl _ _, ?_, rfl, rfl, ?_⟩
  · rw [Draft.emit_scopes]
    exact agrees.write_new wf le_rfl _ _
  · rw [added.wellFormed.isDead_emit]
    exact alive
  · refine ⟨(GraphState.write_self ..).trans (number_eq holds), ?_⟩
    rw [← number_eq holds]
    exact info.width.holds_truncate _

theorem Runs.jump (value : α) (target : BlockId) :
    Runs unit extent start (start.terminate (.jump target)) pre (pure value)
      fun res point => StartsAt target point ∧ res = value ∧ pre point.state := by
  refine .step fun {graph args fuel env state} completes alive agrees holds => ?_
  refine ⟨value, env, ⟨target, 0, state⟩, rfl, completes.step_terminate wf alive rfl, ?_,
    .refl _ _ _, ⟨rfl, rfl⟩, rfl, holds⟩
  rw [Draft.terminate_scopes]
  exact agrees

theorem Runs.branch {cond : Cond} {left : VReg} {right : Value} (yes no : BlockId)
    (decides : ∀ {state : GraphState}, pre state →
      (cond.eval (state.registers left) (state.read right) = true ↔ num ≠ 0)) :
    Runs unit extent start (start.terminate (.branch cond left right yes no)) pre
      (pure num) fun value point => StartsAt (if value ≠ 0 then yes else no) point := by
  refine .step fun {graph args fuel env state} completes alive agrees holds => ?_
  have target_eq : (if cond.eval (state.registers left) (state.read right) then yes else no) =
      if num ≠ 0 then yes else no := if_congr (decides holds) rfl rfl
  refine ⟨num, env, _, rfl, completes.step_terminate wf alive rfl, ?_, .refl _ _ _, target_eq, rfl⟩
  rw [Draft.terminate_scopes]
  exact agrees

end

theorem Runs.enter {post : α → GraphState → Prop}
    (runs : Runs unit extent start after pre run fun value point =>
      StartsAt id point ∧ post value point.state) (fresh : after.Fresh id) :
    Runs unit extent start (after.enter id) pre run fun value =>
      (after.enter id).Arrives (post value) :=
  (runs.later ((Draft.Leads.refl after).enter id) rfl).post fun ⟨starts, holds⟩ =>
    fresh.arrives starts holds

/-- Code that starts at a block does what an evaluation does. -/
def RunsFrom (unit : CompilationUnit) (extent : Extent) (id : BlockId) (after : Draft)
    (pre : GraphState → Prop) (run : Eval α) (goal : α → GraphPoint → Prop) : Prop :=
  ∀ ⦃graph : Graph⦄ ⦃arguments : Nat → Int⦄ ⦃fuel : Nat⦄ ⦃env : Env⦄ ⦃state : GraphState⦄,
    graph.Completes after → Agrees unit after.scopes env state → pre state →
    Tracks graph arguments ⟨id, 0, state⟩ (run fuel env)
      (Lands unit graph arguments fuel extent after state goal)

theorem Runs.fromBlock (runs : Runs unit extent (start.enter id) after pre run goal)
    (fresh : start.Fresh id) (scopes : after.scopes = start.scopes) :
    RunsFrom unit extent id after pre run goal := by
  intro graph args fuel env state completes agrees holds
  rw [← fresh.here_enter]
  exact runs completes fresh.isDead_enter (scopes ▸ agrees) holds

theorem RunsFrom.pure {value : α} (reached : ∀ {state}, pre state → goal value ⟨id, 0, state⟩) :
    RunsFrom unit extent id after pre (Pure.pure value) goal :=
  fun _ _ _ _ _ _ agrees holds => ⟨0, _, .refl _, agrees, .refl _ _ _, reached holds⟩

theorem Runs.choose {test : Eval Int} {onYes onNo : Eval α} {yes no : BlockId}
    (tested : Runs unit extent start after pre test fun value =>
      StartsAt (if value ≠ 0 then yes else no))
    (runsYes : RunsFrom unit extent yes after (fun _ => True) onYes goal)
    (runsNo : RunsFrom unit extent no after (fun _ => True) onNo goal) :
    Runs unit extent start after pre (.choose test onYes onNo) goal := by
  intro graph args fuel env state completes alive agrees holds
  refine (tested completes alive agrees holds).bind ?_ id
  rintro value env' steps last ⟨agrees', keeps, starts⟩
  rw [starts.eq]
  have late : RunsFrom unit extent (if value ≠ 0 then yes else no) after (fun _ => True)
      (if value ≠ 0 then onYes else onNo) goal := by
    grind
  exact (late completes agrees' trivial).mono fun lands => lands.later keeps (le_add_left _ _)

/-! ## Scopes and iterations -/

theorem Runs.inScope (wf : start.WellFormed unit)
    (runs : Runs unit ⟨start.pushScope, names, 1⟩ start.pushScope after pre run goal) :
    Runs unit ⟨start, names, 0⟩ start after.popScope pre (Eval.inScope run) goal := by
  have leads := wf.pushScope.toLeads
  intro graph args fuel env state completes alive agrees holds
  have completes : graph.Completes after := ⟨completes.blocks, completes.vregs⟩
  obtain ⟨steps, last, reaches, lands⟩ := runs completes alive agrees.pushScope holds
  refine ⟨steps, last, reaches, ?_⟩
  unfold Eval.inScope
  generalize run fuel { env with scopes := [] :: env.scopes } = res at lands
  match res with
  | (.ok value, env') =>
    exact ⟨lands.1.drop 1, lands.2.1.of_leads leads (.refl _), lands.2.2⟩
  | (.error exit, env') =>
    refine .imp lands ?_ rfl (.refl _) le_rfl id
    exact fun outside => ⟨outside.block, outside.position, outside.agrees,
      outside.keeps.of_leads leads (.refl _)⟩

/-- A run has come to the next iteration, it has left the loop with a value, or it leaves the code
around the loop. -/
def Iterates (unit : CompilationUnit) (graph : Graph) (arguments : Nat → Int) (fuel : Nat)
    (extent : Extent) (loops : List EnclosingLoop) (before : GraphState) (next : BlockId)
    (goal : Int → GraphPoint → Prop) (result : Except Exit (Option Int)) (env : Env) (steps : Nat)
    (last : GraphPoint) : Prop :=
  match result with
  | .ok none =>
    0 < steps ∧ StartsAt next last ∧ Agrees unit extent.base.scopes env last.state ∧
      extent.base.Keeps extent.names before last.state
  | .ok (some value) =>
    Agrees unit extent.base.scopes env last.state ∧
      extent.base.Keeps extent.names before last.state ∧ goal value last
  | .error exit => Leaves unit graph arguments fuel extent loops before env steps last exit

variable {goal : Int → GraphPoint → Prop}

/-- Every iteration takes a step, so that a loop which has no fuel left has run for long enough. -/
theorem tracks_iterate {loops : List EnclosingLoop}
    (iterates : ∀ {fuel env state}, Agrees unit extent.base.scopes env state →
      Tracks graph args ⟨head, 0, state⟩ (iteration fuel env)
        (Iterates unit graph args fuel extent loops state head goal)) (fuel : Nat)
    (agrees : Agrees unit extent.base.scopes env state) :
    Tracks graph args ⟨head, 0, state⟩ (Eval.iterate iteration fuel env) fun res env' steps last =>
        match res with
        | .ok value =>
          Agrees unit extent.base.scopes env' last.state ∧
            extent.base.Keeps extent.names state last.state ∧ goal value last
        | .error exit =>
          Leaves unit graph args (fuel - 1) extent loops state env' steps last exit := by
  induction fuel generalizing env state with
  | zero => exact ⟨0, _, .refl _, le_refl _⟩
  | succ fuel ih =>
    obtain ⟨steps, point, reaches, lands⟩ := @iterates fuel env state agrees
    unfold Eval.iterate
    generalize iteration fuel env = outcome at lands
    match outcome with
    | (.ok none, env') =>
      obtain ⟨pos, starts, agrees', keeps⟩ := lands
      rw [starts.eq] at reaches
      obtain ⟨steps', last, reaches', lands'⟩ := ih agrees'
      refine ⟨steps + steps', last, reaches.trans reaches', ?_⟩
      revert lands'
      cases (Eval.iterate iteration fuel env').1 with
      | ok value => exact fun lands' => ⟨lands'.1, keeps.trans lands'.2.1, lands'.2.2⟩
      | error exit =>
        intro lands'
        refine .imp lands' (·.after keeps) rfl (.refl _) (le_add_left _ _) ?_
        omega
    | (.ok (some value), env') | (.error exit, env') => exact ⟨steps, point, reaches, lands⟩

/-- The body of a loop ends with a jump to the next iteration. Breaks and continues of the loop are
caught; those of a loop around it are not. -/
theorem Runs.catching {base inside : Draft} {label : String} {body : Eval Unit}
    (runs : Runs unit ⟨base, names, 0⟩ start inside (fun _ => True) body fun _ =>
      inside.Arrives fun _ => True) (loops_eq : inside.loops = loop :: inside.popLoop.loops)
    (label_eq : loop.label = label) (wf : inside.popLoop.WellFormed unit)
    (scopes : inside.scopes = base.scopes)
    (completes : graph.Completes (inside.popLoop.terminate (.jump loop.next)))
    (alive : start.isDead = false) (agrees : Agrees unit start.scopes env state) :
    Tracks graph args (start.here state) (Eval.catching label body fuel env)
      (Iterates unit graph args fuel ⟨base, names, 0⟩ inside.popLoop.loops state loop.next
        fun value point => StartsAt loop.exit point ∧
          ∃ carried, loop.Carries unit point.state carried ∧ value = carried.getD 0) := by
  have completes_inside : graph.Completes inside :=
    let earlier := (wf.terminate (.jump loop.next)).toLeads.completes completes
    ⟨earlier.blocks, earlier.vregs⟩
  obtain ⟨steps, point, reaches, lands⟩ :=
    @runs graph args fuel env state completes_inside alive agrees trivial
  unfold Eval.catching
  generalize body fuel env = res at lands
  match res with
  | (.ok (), env') =>
    obtain ⟨agrees', keeps, alive', point_eq, _⟩ := lands
    rw [point_eq] at reaches
    have jumps : graph.step args (inside.popLoop.here point.state) =
        some (.inl ⟨loop.next, 0, point.state⟩) := completes.step_terminate wf alive' rfl
    exact ⟨steps + 1, _, reaches.tail jumps, succ_pos _, ⟨rfl, rfl⟩, scopes ▸ agrees', keeps⟩
  | (.error (.leave target value), env') =>
    obtain ⟨other, found, carries, outside⟩ := lands
    rw [loops_eq, List.find?_cons_eq_some, label_eq, Bool.not_eq_true'] at found
    refine ⟨steps, point, reaches, ?_⟩
    rcases found with ⟨own, rfl⟩ | ⟨foreign, found⟩
    · simp only [own]
      exact ⟨outside.agrees, outside.keeps, ⟨outside.block, outside.position⟩, value, carries, rfl⟩
    · simp only [foreign]
      exact ⟨other, found, carries, outside⟩
  | (.error (.proceed target), env') =>
    obtain ⟨pos, other, found, outside⟩ := lands
    rw [loops_eq, List.find?_cons_eq_some, label_eq, Bool.not_eq_true'] at found
    refine ⟨steps, point, reaches, ?_⟩
    rcases found with ⟨own, rfl⟩ | ⟨foreign, found⟩
    · simp only [own]
      exact ⟨pos, ⟨outside.block, outside.position⟩, outside.agrees, outside.keeps⟩
    · simp only [foreign]
      exact ⟨pos, other, found, outside⟩
  | (.error (.giveBack vals), env') | (.error .timeout, env') =>
    exact ⟨steps, point, reaches, lands⟩

theorem Runs.iterate (wf : start.WellFormed unit)
    (leads : (start.terminate (.jump head)).Leads after) (scopes : after.scopes = start.scopes)
    (iterates : ∀ {graph : Graph} {args : Nat → Int} {fuel : Nat} {env : Env}
      {state : GraphState}, graph.Completes after → Agrees unit start.scopes env state →
      Tracks graph args ⟨head, 0, state⟩ (iteration fuel env)
        (Iterates unit graph args fuel ⟨start, names, 0⟩ after.loops state head goal)) :
    Runs unit ⟨start, names, 0⟩ start after (fun _ => True) (Eval.iterate iteration) goal := by
  intro graph args fuel env state completes alive agrees _
  have jumps : graph.step args (start.here state) = some (.inl ⟨head, 0, state⟩) :=
    (leads.completes completes).step_terminate wf alive rfl
  obtain ⟨steps, last, reaches, lands⟩ := tracks_iterate
    (fun {_ _ _} agrees => iterates completes agrees) fuel agrees
  refine ⟨steps + 1, last, .head jumps reaches, ?_⟩
  revert lands
  cases (Eval.iterate iteration fuel env).1 with
  | ok value =>
    intro lands
    exact ⟨scopes ▸ lands.1, lands.2⟩
  | error exit =>
    intro lands
    refine .imp lands id rfl (.refl _) (le_succ _) ?_
    omega

end Runs

end Backend65816

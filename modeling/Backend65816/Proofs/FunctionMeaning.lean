import Backend65816.Proofs.LoweringParams
import Backend65816.Proofs.Reachability

/-!
# Meaning of functions

The block graph of a function of the core language returns what the evaluation of its body returns,
and runs forever exactly when the evaluation does. For any fuel, the run of the graph follows the
evaluation: to the values that are returned, or through as many steps as there is fuel.
-/

namespace Backend65816

open Draft Graph

variable {mem : Address → Int} {draft : Draft} {graph : Graph} {last : GraphPoint} {steps : Nat}
  {outcome : Nat → Except Exit (List Int × (Address → Int))} {args : Nat → Int} {regs : VReg → Int}
  {body : Block}

/-! ## Runs that follow an evaluation -/

namespace Graph

variable {point : GraphPoint}

theorem ReachesIn.shorter {fewer : Nat} (runs : graph.ReachesIn args steps point last)
    (le : fewer ≤ steps) : ∃ mid, graph.ReachesIn args fewer point mid := by
  induction runs generalizing fewer with
  | refl point => exact ⟨point, Nat.le_zero.mp le ▸ .refl point⟩
  | head first _ ih =>
    cases fewer with
    | zero => exact ⟨_, .refl _⟩
    | succ fewer =>
      obtain ⟨mid, later⟩ := ih (Nat.le_of_succ_le_succ le)
      exact ⟨mid, .head first later⟩

/-- The run from a point returns what an evaluation gives, or outlasts its fuel. -/
def Follows (graph : Graph) (arguments : Nat → Int) (point : GraphPoint) (fuel : Nat)
    (outcome : Except Exit (List Int × (Address → Int))) : Prop :=
  ∃ steps last, graph.ReachesIn arguments steps point last ∧
    match outcome with
    | .ok result => graph.step arguments last = some (.inr result)
    | .error exit => exit = .timeout ∧ fuel ≤ steps

variable (follows : ∀ fuel, graph.Follows args point fuel (outcome fuel))
include follows

theorem ends_as_followed :
    (∀ res, graph.ReturnsFrom args point res ↔ ∃ fuel, outcome fuel = .ok res) ∧
      (graph.RunsForeverFrom args point ↔ ∀ fuel, outcome fuel = .error .timeout) := by
  have returns_of_ok : ∀ {fuel res}, outcome fuel = .ok res → graph.ReturnsFrom args point res := by
    intro fuel res outcome_eq
    obtain ⟨steps, last, runs, returned⟩ := follows fuel
    rw [outcome_eq] at returned
    exact ⟨steps, last, runs, returned⟩
  refine ⟨fun res => ⟨fun returns => ?_, fun ⟨fuel, ok⟩ => returns_of_ok ok⟩,
    fun forever fuel => ?_, fun timeouts count => ?_⟩
  · obtain ⟨steps, last, runs, returned⟩ := returns
    obtain ⟨more, other, longer, ended⟩ := follows (steps + 1)
    cases outcome_eq : outcome (steps + 1) with
    | ok result' =>
      have same := ReturnsFrom.unique ⟨steps, last, runs, returned⟩ (returns_of_ok outcome_eq)
      exact ⟨steps + 1, same ▸ outcome_eq⟩
    | error exit =>
      rw [outcome_eq] at ended
      have le := steps_le_of_returns runs returned longer
      omega
  · obtain ⟨steps, last, runs, ended⟩ := follows fuel
    cases outcome_eq : outcome fuel with
    | ok res => exact absurd forever (returns_of_ok outcome_eq).not_runsForever
    | error exit =>
      rw [outcome_eq] at ended
      rw [ended.1]
  · obtain ⟨steps, last, runs, ended⟩ := follows count
    rw [timeouts count] at ended
    exact runs.shorter ended.2

theorem returns_or_runsForever :
    (∃ res, graph.ReturnsFrom args point res) ∨ graph.RunsForeverFrom args point := by
  by_cases timeouts : ∀ fuel, outcome fuel = .error .timeout
  · exact .inr ((ends_as_followed follows).2.mpr timeouts)
  · obtain ⟨fuel, ended⟩ := not_forall.mp timeouts
    obtain ⟨steps, last, runs, follow⟩ := follows fuel
    cases outcome_eq : outcome fuel with
    | ok res =>
      exact .inl ⟨res, ((ends_as_followed follows).1 res).mpr ⟨fuel, outcome_eq⟩⟩
    | error exit =>
      simp_all

end Graph

/-! ## The end of the body -/

namespace Lower

variable {around : Surroundings} {after : Draft}

theorem endUnreached_ok {code : DiagnosticCode} {message : String}
    (ran : endUnreached code message around draft = .ok ((), after)) :
    after = draft.terminate (.giveBack []) ∧
      ¬Graph.Marked (draft.graph "" .narrow).reachable draft.current := by
  obtain ⟨reached, mid, found, ran⟩ := bind_ok.mp ran
  cases found
  obtain ⟨unreached, ran⟩ := guard_ok.mp ran
  exact ⟨terminate_ok ran, unreached⟩

/-- At its end a body is not reached, or it returns its value, or it returns nothing. -/
theorem fallOff_ok {tail : TypedReg} (ran : fallOff tail around draft = .ok ((), after)) :
    (after = draft.terminate (.giveBack []) ∧
        ¬Graph.Marked (draft.graph "" .narrow).reachable draft.current) ∨
      (tail.type ≠ .void ∧ returnValues [tail] around draft = .ok ((), after)) ∨
      ((tail.type = .void ∨ tail.type = .never) ∧ (around.signature.noReturn = false ∧
        around.signature.returns = []) ∧ after = draft.terminate (.giveBack [])) := by
  unfold fallOff at ran
  rw [read_bind] at ran
  split at ran
  · exact .inl (endUnreached_ok ran)
  · rename_i returning
    split at ran
    · simp_all
    · rename_i nothing
      split at ran
      · exact .inl (endUnreached_ok ran)
      · rename_i declared
        refine .inr (.inr ⟨?_, ⟨Bool.not_eq_true _ ▸ returning, by simpa using declared⟩,
          terminate_ok ran⟩)
        by_cases void : tail.type = .void
        · exact .inl void
        · refine .inr (TypedReg.diverges_iff.mp ?_)
          simpa [void] using nothing

/-- The code of a function is that of its entry, of its body and of the end of the body. -/
theorem function_ok (ran : function body around draft = .ok ((), after)) :
    ∃ entered tail mid, enterParams around draft = .ok ((), entered) ∧
      body.code (wantedType around.signature.returns) around entered = .ok (tail, mid) ∧
      ((mid.isDead = true ∧ after = mid) ∨
        (mid.isDead = false ∧ fallOff tail around mid = .ok ((), after))) := by
  obtain ⟨_, entered, enters, ran⟩ := bind_ok.mp ran
  rw [read_bind] at ran
  obtain ⟨tail, mid, computed, ran⟩ := bind_ok.mp ran
  refine ⟨entered, tail, mid, enters, computed, ?_⟩
  rw [isDead_bind] at ran
  cases dead : mid.isDead with
  | true =>
    rw [dead] at ran
    cases ran
    exact .inl ⟨rfl, rfl⟩
  | false =>
    simp_all

end Lower

section Functions

variable {unit : CompilationUnit} {sig : Signature} {around : Surroundings} {body : Block}
  {entered mid after : Draft} {tail : TypedReg}

/-- A run from the entry of a function has come to the end of the body with its value, or has ended
as the body does. -/
def Draft.BodyEnds (draft : Draft) (unit : CompilationUnit) (pending : List String)
    (tail : TypedReg) (graph : Graph) (arguments : Nat → Int) (fuel : Nat)
    (result : Except Exit Int) (env : Env) (steps : Nat) (last : GraphPoint) : Prop :=
  match result with
  | .ok number =>
    Agrees unit draft.scopes env last.state ∧ draft.Supplies unit pending tail number last
  | .error (.giveBack values) => graph.step arguments last = some (.inr (values, env.memory))
  | .error exit => exit = .timeout ∧ fuel ≤ steps

/-- The code of a body, from the entry of the function on, does what the body means. -/
theorem body_tracks (belong : around.Belong unit sig) (valued : unit.HasValues)
    (sized : sig.Sized unit) (core : body.isCore = true)
    (enters : Lower.enterParams around {} = .ok ((), entered))
    (computed : body.code (Lower.wantedType around.signature.returns) around entered =
      .ok (tail, mid)) :
    mid.WellFormed unit ∧ ∃ run typing,
      body.meaning unit sig (Lower.wantedType sig.returns) { scopes := [sig.paramTypes] } =
        ((tail.type, run), typing) ∧
        ∀ {graph : Graph} (args : Nat → Int) (regs : VReg → Int)
          (mem : Address → Int) (fuel : Nat), graph.Completes mid →
            Tracks graph args ⟨0, 0, { registers := Function.update regs 0 0, memory := mem }⟩
              (run fuel { scopes := [sig.paramValues args], memory := mem })
              (mid.BodyEnds unit around.pending tail graph args fuel) := by
  obtain ⟨wf, typing_eq, enter⟩ := enterParams_runs belong sized valued enters
  obtain ⟨run, means, adds, runs⟩ := body.computes valued sized core belong wf computed
  rw [typing_eq, belong.signature] at means
  refine ⟨adds.wellFormed, run, _, means, fun {graph} args regs mem fuel completes => ?_⟩
  have alive : entered.isDead = false := congrArg Typing.dead typing_eq
  have no_loops : mid.loops = [] := by
    have entered_loops := List.map_eq_nil_iff.mp (congrArg Typing.loops typing_eq)
    have grow := adds.loops
    simp_all
  obtain ⟨steps, state, reached, agrees⟩ := enter args regs mem (adds.toLeads.completes completes)
  obtain ⟨more, last, ran, lands⟩ := @runs graph args fuel _ _ completes alive agrees trivial
  refine ⟨steps + more, last, reached.trans ran, ?_⟩
  revert lands
  cases (run fuel { scopes := [sig.paramValues args], memory := mem }).1 with
  | ok num => exact fun lands => ⟨lands.1, lands.2.2⟩
  | error exit =>
    intro leaves
    cases exit with
    | leave label value =>
      obtain ⟨loop, found, _⟩ := leaves
      rw [no_loops] at found
      cases found
    | proceed label =>
      obtain ⟨_, loop, found, _⟩ := leaves
      rw [no_loops] at found
      cases found
    | giveBack vals => exact leaves
    | timeout => exact ⟨rfl, Nat.le_trans leaves (Nat.le_add_left _ _)⟩

/-- A run that comes to the end of a body with its value returns the value, or nothing. -/
theorem fallOff_returns (belong : around.Belong unit sig) (sized : sig.Sized unit)
    (wf : mid.WellFormed unit) (lowered : Lower.fallOff tail around mid = .ok ((), after))
    (reached : Graph.Marked (mid.graph "" .narrow).reachable mid.current)
    (completes : graph.Completes after) {env : Env} {num : Int} {point : GraphPoint}
    (agrees : Agrees unit mid.scopes env point.state)
    (supplies : mid.Supplies unit around.pending tail num point) :
    graph.ReturnsFrom args point (if tail.type = .void then [] else [num], env.memory) := by
  obtain ⟨alive, point_eq, provides⟩ := supplies
  rcases Lower.fallOff_ok lowered with ⟨_, unreached⟩ | ⟨valued, lowered⟩ | ⟨nothing, -, rfl⟩
  · exact absurd reached unreached
  · rw [if_neg valued, point_eq]
    obtain ⟨steps, last, ran, returned⟩ :=
      @runs_returnValues mid after around Unit unit sig [] [tail] belong sized wf lowered
        around.pending [num] (fun _ _ => True) graph args 0 env point.state completes
        alive agrees (.cons provides .nil)
    exact ⟨steps, last, ran, returned⟩
  · have void : tail.type = .void := nothing.resolve_right provides.completes
    refine ⟨0, point, .refl _, ?_⟩
    rw [if_pos void, point_eq, completes.step_giveBack wf alive, agrees.memory]
    rfl

theorem fallOff_leads (wf : mid.WellFormed unit)
    (ran : Lower.fallOff tail around mid = .ok ((), after)) : mid.Leads after := by
  rcases Lower.fallOff_ok ran with ⟨rfl, _⟩ | ⟨_, ran⟩ | ⟨_, -, rfl⟩
  · exact (wf.terminate _).toLeads
  · exact (returnValues_adds wf ran).1.toLeads
  · exact (wf.terminate _).toLeads

theorem function_follows (belong : around.Belong unit sig) (valued : unit.HasValues)
    (sized : sig.Sized unit) (core : body.isCore = true)
    (ran : Lower.function body around {} = .ok ((), after)) (name : String) (mode : Mode)
    (args : Nat → Int) (registers : VReg → Int) (memory : Address → Int) (fuel : Nat) :
    (after.graph name mode).Follows args ((after.graph name mode).start registers memory)
      fuel (body.evaluate unit sig args memory fuel) := by
  obtain ⟨entered, tail, mid, enters, computed, ended⟩ := Lower.function_ok ran
  obtain ⟨wf, run, typing, means, tracks⟩ := body_tracks belong valued sized core enters computed
  have leads : mid.Leads after := by
    rcases ended with ⟨_, rfl⟩ | ⟨_, fell⟩
    · exact .refl _
    · exact fallOff_leads wf fell
  have completes := completes_graph after name mode
  obtain ⟨steps, last, reached, ends⟩ :=
    tracks args registers memory fuel (leads.completes completes)
  simp only [Block.evaluate, means]
  revert ends
  match outcome : run fuel { scopes := [sig.paramValues args], memory } with
  | (.ok num, env) =>
    rintro ⟨agrees, supplies⟩
    have fell : Lower.fallOff tail around mid = .ok ((), after) := by
      rcases ended with ⟨dead, _⟩ | ⟨_, fell⟩
      · exact absurd supplies.1 (by rw [dead]; decide)
      · exact fell
    have marked : Graph.Marked (mid.graph "" .narrow).reachable mid.current := by
      obtain ⟨_, other, others, ends⟩ :=
        tracks args registers memory fuel (completes_graph mid "" .narrow)
      rw [outcome] at ends
      have block_eq : other.block = mid.current := congrArg GraphPoint.block ends.2.2.1
      rw [← block_eq]
      exact (reachesIn_finish others start_reached).2 (block_eq ▸ wf.current)
    obtain ⟨more, final, later, returned⟩ :=
      fallOff_returns belong sized wf fell marked completes agrees supplies
    exact ⟨steps + more, final, reached.trans later, returned⟩
  | (.error (.giveBack values), env) => exact fun returned => ⟨steps, last, reached, returned⟩
  | (.error .timeout, env) => exact fun timeout => ⟨steps, last, reached, timeout⟩
  | (.error (.leave label value), env) => exact fun impossible => nomatch impossible.1
  | (.error (.proceed label), env) => exact fun impossible => nomatch impossible.1

end Functions

theorem UnitContext.lower_ok {ctx : UnitContext} {sig : Signature}
    (ran : ctx.lower sig body = .ok graph) :
    ∃ draft, Lower.function body { context := ctx, signature := sig } {} = .ok ((), draft) ∧
      graph = draft.finish sig.name sig.mode := by
  unfold UnitContext.lower at ran
  cases made : (Lower.function body).run { context := ctx, signature := sig } |>.run {} with
  | error failure =>
    rw [made] at ran
    cases ran
  | ok res =>
    rw [made] at ran
    cases ran
    exact ⟨res.2, made, rfl⟩

theorem Draft.follows_finish {name : String} {mode : Mode} {fuel : Nat}
    {outcome : Except Exit (List Int × (Address → Int))}
    (follows : (draft.graph name mode).Follows args
      ((draft.graph name mode).start regs mem) fuel outcome) :
    (draft.finish name mode).Follows args ((draft.finish name mode).start regs mem)
      fuel outcome := by
  obtain ⟨steps, last, runs, ended⟩ := follows
  obtain ⟨runs', last_reached⟩ := reachesIn_finish runs start_reached
  cases outcome with
  | ok res =>
    obtain ⟨block, found, _⟩ := step_cases ended
    obtain ⟨inside, _⟩ := Array.getElem?_eq_some_iff.mp found
    exact ⟨steps, _, runs', step_renumber (mem_finalOrder inside (last_reached inside)) ended⟩
  | error exit =>
    exact ⟨steps, _, runs', ended⟩

/-- The block graph of a function of the core language returns exactly what the evaluation of its
body returns, and runs forever exactly when the evaluation does; there is no third way. -/
theorem UnitContext.lower_preserves_meaning {context : UnitContext} {function : FunctionDecl}
    {symbol : String} {signature : Signature} {graph : Graph} (valued : context.unit.HasValues)
    (core : function.body.isCore = true)
    (resolved : function.resolve symbol context.unit = .ok signature)
    (lowered : context.lower signature function.body = .ok graph) (arguments : Nat → Int)
    (registers : VReg → Int) (memory : Address → Int) :
    (∀ result, graph.ReturnsFrom arguments (graph.start registers memory) result ↔
        function.body.Returns context.unit signature arguments memory result) ∧
      (graph.RunsForeverFrom arguments (graph.start registers memory) ↔
        function.body.RunsForever context.unit signature arguments memory) ∧
      ((∃ result, graph.ReturnsFrom arguments (graph.start registers memory) result) ∨
        graph.RunsForeverFrom arguments (graph.start registers memory)) := by
  obtain ⟨draft, made, rfl⟩ := UnitContext.lower_ok lowered
  have belong : Surroundings.Belong { context, signature } context.unit signature := ⟨rfl, rfl⟩
  have sized := FunctionDecl.resolve_sized resolved
  have follows (fuel : Nat) := follows_finish (function_follows belong valued sized core made
    signature.name signature.mode arguments registers memory fuel)
  obtain ⟨returns, forever⟩ := ends_as_followed follows
  exact ⟨returns, forever, returns_or_runsForever follows⟩

/-- Adds the numbers from the argument to two, but stops where the sum falls below a bound. -/
def climb : FunctionDecl where
  name := "climb"
  params := [{ name := "n", type := .i8, binding := .register "a" }]
  returns := [{ type := .i8, binding := .register "a" }]
  body := .mk
    [.bind ["total"] .i8 (some (.int 0 .i8)) none,
      .bind ["last"] .i8 (some (.loop "outer" (.mk
        [.whileLoop "" (.binary (.compare .lt) (.name "n") (.int 3 .i8)) (.mk
          [.conditional (.binary (.compare .lt) (.name "total") (.int (-9) .i8))
              (.mk [.leave "outer" (some (.name "total"))] none) .nothing,
            .assign (.name "total") (.binary (.arithmetic .add) (.name "total") (.name "n")),
            .assign (.name "n") (.binary (.arithmetic .add) (.name "n") (.int 1 .i8))] none),
          .leave "outer" (some (.name "n"))] none))) none]
    (some (.binary (.arithmetic .add) (.name "last") (.name "total")))

def climbContext : UnitContext where
  unit := { functions := [climb] }
  signatures := []
  plan := { tags := { limit := 0 } }
  settings := default

def climbSignature : Signature where
  name := "climb"
  mode := .narrow
  params := [{ name := "n", type := .i8, width := .byte, place := .bound (.reg .a) }]
  returns := [{ type := .i8, width := .byte, location := .reg .a }]

/-- From minus seven the sum stops at minus thirteen, which is the value of the loop as well. -/
theorem climb_preserves_meaning : climb.body.isCore = true ∧
      climb.resolve "climb" climbContext.unit = .ok climbSignature ∧
      ∃ graph, climbContext.lower climbSignature climb.body = .ok graph ∧
        ∀ registers memory, graph.ReturnsFrom (fun _ => 249) (graph.start registers memory)
          ([230], memory) := by
  have valued : climbContext.unit.HasValues := by
    intro type width width_eq
    cases type with
    | void => cases width_eq
    | named name => cases width_eq
    | _ => rfl
  have core : climb.body.isCore = true := by decide
  have resolved : climb.resolve "climb" climbContext.unit = .ok climbSignature := rfl
  have accepted : (climbContext.lower climbSignature climb.body).isOk = true := by decide +kernel
  refine ⟨core, resolved, ?_⟩
  cases lowered : climbContext.lower climbSignature climb.body with
  | error failure =>
    rw [lowered] at accepted
    cases accepted
  | ok graph =>
    refine ⟨graph, rfl, fun registers memory => ?_⟩
    have meaning := UnitContext.lower_preserves_meaning valued core resolved lowered
      (fun _ => 249) registers memory
    exact (meaning.1 _).mpr ⟨6, rfl⟩

/-- A number out of range is refused as a literal, and masked if it is a negated one. -/
theorem Lower.negated_literal_masked (around : Surroundings) (draft : Draft) :
    (Expr.unary .negate (.int 200 .u8)).code.value .i8 around draft =
        .ok (⟨draft.vregs.size, .i8⟩, (draft.addReg { width := .byte, signed := true }).emit
          (.const draft.vregs.size 56)) ∧
      ∃ problem, (Expr.int (-200) .i8).code.value .i8 around draft = .error (.report problem) ∧
        problem.code = "T0005" :=
  ⟨rfl, _, rfl, rfl⟩

end Backend65816

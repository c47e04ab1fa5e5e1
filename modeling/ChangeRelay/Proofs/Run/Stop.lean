import ChangeRelay.Proofs.Run.Queue
/-!
# Stopping

What becomes of the queue when the relay stops. A relay that stops without an alarm has announced
everything that was pushed before its worker found the queue empty. Between this moment and the
closing of the queue a push still succeeds, and its event is lost.
-/

namespace ChangeRelay
namespace Relay

open Note Exchange

theorem lifecycle_take (r : Relay) (c : Change) (rest : List Change) :
    (r.take c rest).lifecycle = r.lifecycle := by
  obtain ⟨x, -, ⟨e, htake, -⟩ | ⟨job, htake, -⟩⟩ := r.take_spec c rest <;> rw [htake]

theorem lifecycle_offer (r : Relay) (job : Job) : (r.offer job).lifecycle = r.lifecycle := by
  obtain ⟨x, ⟨wake, hoffer, -⟩ | ⟨hoffer, -⟩⟩ := r.offer_spec job <;> rw [hoffer]

/-- Only the last step of the worker stops the relay. -/
theorem phase_of_step_stopped {r r' : Relay} (h : Step r r')
    (hrun : r.lifecycle.stage ≠ .stopped) (hstopped : r'.lifecycle.stage = .stopped) :
    r'.phase = .finished := by
  cases h with
  | started =>
    -- starting never stops: only a relay that was stopped before could be stopped now
    have hstarted : r.lifecycle.stage.started = .stopped := hstopped
    cases hstage : r.lifecycle.stage <;> simp [hstage, Stage.started] at hstarted hrun
  | took c rest =>
    rw [lifecycle_take] at hstopped
    exact absurd hstopped hrun
  | drained => exact absurd hstopped hrun
  | deserted => exact absurd hstopped hrun
  | offered job =>
    rw [lifecycle_offer] at hstopped
    exact absurd hstopped hrun
  | resumed => exact absurd hstopped hrun
  | failed => exact absurd hstopped hrun
  | left => exact absurd hstopped hrun
  | closed => exact absurd hstopped hrun
  | stopped => rfl

/-- A worker that has finished has no step left. -/
theorem Step.phase_ne_finished {r r' : Relay} (h : Step r r') : r.phase ≠ .finished := by
  cases h <;> simp [*]

/-- A stopped relay has nothing more to do. -/
theorem phase_of_act_stopped {r r' : Relay} {a : Action} (h : r.act a = some r')
    (hr : r.lifecycle.stage = .stopped → r.phase = .finished)
    (hstopped : r'.lifecycle.stage = .stopped) : r'.phase = .finished := by
  cases Act.of_act h with
  | work hstep =>
    exact phase_of_step_stopped hstep (fun hs => hstep.phase_ne_finished (hr hs)) hstopped
  | hangUp hphase =>
    rw [hr hstopped] at hphase
    simp at hphase
  | pushed => exact hr hstopped
  | refused => exact hr hstopped
  | requestStop =>
    -- a request makes nothing stopped that was not stopped before
    have hrequest : r.lifecycle.stage.stopRequest = .stopped := hstopped
    refine hr ?_
    cases hstage : r.lifecycle.stage <;> simp [hstage, Stage.stopRequest] at hrequest ⊢
  | closeBroker => exact hr hstopped
  | dropPublisher => exact hr hstopped
  | wait => exact hr hstopped
  | behave => exact hr hstopped
  | release => exact hr hstopped

section Run

variable {resume : Option Position} {r₀ r : Relay} {as : List Action}
  (hinit : Initial resume r₀) (hrun : r₀.after as = some r)
include hinit hrun

theorem phase_of_stopped (hstopped : r.isStopped = true) : r.phase = .finished := by
  refine after_induction (P := fun _ r => r.lifecycle.stage = .stopped → r.phase = .finished) ?_ ?_
    hrun (of_decide_eq_true hstopped)
  · obtain ⟨terms, broker, capacity, -, -, rfl⟩ := hinit.eq
    simp
  · exact fun as r a r' _ hr hact => phase_of_act_stopped hact hr

/-- A relay that stops without an alarm has announced, once and in order, what was pushed before
its worker found the queue empty after the request to stop, and nothing that was pushed later. -/
theorem announced_of_stopped (hstopped : r.isStopped = true)
    (hquiet : ∀ n ∈ r.exchange.history, n.kind ≠ .broken ∧ n.kind ≠ .fatal) :
    ∃ before after' s, as = before ++ .work :: after' ∧ r₀.after before = some s ∧
      s.phase = .taking ∧ s.queue = [] ∧ s.lifecycle.stage = .stopRequested ∧
      r.announced = (pushed before).map Change.position ∧
      (∀ t, total .submitted (story t r.exchange.history) =
        if t < (pushed before).length then 1 else 0) ∧
      (r.announced = (pushed as).map Change.position ↔ pushed after' = []) := by
  have hphase := phase_of_stopped hinit hrun hstopped
  -- a worker at its work is not finished, and one that failed has raised an alarm
  cases standing_after hinit hrun with
  | atWork hwork => simp [Relay.atWork, hphase] at hwork
  | failed e _ hfailure =>
    rcases hfailure with hfailing | hbroken
    · simp [hphase] at hfailing
    · exact absurd rfl (hquiet _ hbroken).1
  | drained before after' s _ _ hsplit hbefore htaking hempty hstage hannounced =>
    refine
      ⟨before, after', s, hsplit, hbefore, htaking, hempty, hstage, hannounced, fun t => ?_, ?_⟩
    · rw [submitted_after hinit hrun, ticket_after hinit hrun, hannounced, List.length_map]
    · -- what was pushed before the split is announced, so the rest has to be nothing
      rw [hannounced, hsplit, pushed_append, List.map_append, List.self_eq_append_right,
        List.map_eq_nil_iff]
      rfl

end Run

/-- A relay that is asked to stop after it has delivered one event. -/
theorem announced_of_stopped_after_one :
    ∃ r before, (plain []).after [.work, .push default .ok, .work, .work, .requestStop, .work,
        .work, .work, .work] = some r ∧ r.isStopped = true ∧ r.announced.length = 1 ∧
      r.announced = (pushed before).map Change.position := by
  obtain ⟨r, hrun, hstopped, hone, hkinds⟩ : ∃ r, (plain []).after [.work, .push default .ok, .work,
      .work, .requestStop, .work, .work, .work, .work] = some r ∧ r.isStopped = true ∧
      r.announced.length = 1 ∧
      r.exchange.history.map kind = [.submitted, .delivered, .completed] := ⟨_, rfl, rfl, rfl, rfl⟩
  have hquiet : ∀ n ∈ r.exchange.history, n.kind ≠ .broken ∧ n.kind ≠ .fatal := by
    intro n hn
    have hkind : n.kind ∈ r.exchange.history.map kind := List.mem_map_of_mem hn
    rw [hkinds] at hkind
    simp only [List.mem_cons, List.not_mem_nil, or_false] at hkind
    rcases hkind with h | h | h <;> simp [h]
  obtain ⟨before, -, -, -, -, -, -, -, hannounced, -⟩ :=
    announced_of_stopped (initial_plain []) hrun hstopped hquiet
  exact ⟨r, before, hrun, hstopped, hone, hannounced⟩

/-- A push between the last look into the queue and its closing succeeds, and its event is never
announced, although the relay stops without an alarm. -/
theorem pushed_not_announced :
    ∃ as r, Initial none (plain []) ∧ (plain []).after as = some r ∧ r.isStopped = true ∧
      r.exchange.history = [] ∧ (pushed as).length = 1 ∧ r.announced = [] :=
  ⟨[.work, .requestStop, .work, .push default .ok, .work, .work, .work], _, initial_plain [], rfl,
    rfl, rfl, rfl, rfl⟩

end Relay
end ChangeRelay

import ChangeRelay.Proofs.Run.Fate
/-!
# The queue

Events are announced in the order in which they were pushed. While the worker is about its work,
what was pushed is what was announced together with what is queued. It leaves its work either
because it failed, or because a stop was requested and it found the queue empty; from then on
nothing is announced any more, whatever is pushed.
-/

namespace ChangeRelay
namespace Relay

open Note Exchange

/-- The events that the queue took, in order. -/
def pushed (as : List Action) : List Change :=
  as.filterMap fun
    | .push c .ok => some c
    | _ => none

@[simp] theorem pushed_nil : pushed [] = [] := rfl

@[simp] theorem pushed_append (as bs : List Action) : pushed (as ++ bs) = pushed as ++ pushed bs :=
  List.filterMap_append

/-- The positions of the announced events, in order. -/
def announced (r : Relay) : List Position :=
  submissions r.exchange.history

/-- Whether the worker is about its work: it has neither failed nor begun to leave. -/
def atWork (r : Relay) : Bool :=
  match r.phase with
  | .unstarted | .taking | .offering _ | .pausing .. => true
  | .failing _ | .leaving | .closing | .flushing | .finished => false

/-- What an action does to the queue. -/
inductive Turn (r : Relay) (a : Action) (r' : Relay) : Prop
  | kept (hwork : r.atWork = true) (hwork' : r'.atWork = true)
      (hqueue : r'.queue = r.queue ++ pushed [a]) (hannounced : r'.announced = r.announced)
  /-- The first event in the queue is taken and announced. -/
  | took (c : Change) (hwork : r.atWork = true) (hwork' : r'.atWork = true)
      (hpushed : pushed [a] = []) (hqueue : r.queue = c :: r'.queue)
      (hannounced : r'.announced = r.announced ++ [c.position])
  /-- The worker begins to leave because a stop was requested and the queue is empty. -/
  | drained (haction : a = .work) (hphase : r.phase = .taking) (hqueue : r.queue = [])
      (hstage : r.lifecycle.stage = .stopRequested) (hphase' : r'.phase = .leaving)
      (hannounced : r'.announced = r.announced)
  | failed (e : Error) (hwork : r.atWork = true) (hphase' : r'.phase = .failing e)
      (hannounced : r'.announced = r.announced)
  /-- The worker is not at work, and it tells of its failure if it has failed. -/
  | gone (hwork : r.atWork = false) (hwork' : r'.atWork = false)
      (hannounced : r'.announced = r.announced)
      (hfailure : ∀ e, r.phase = .failing e →
        r'.phase = .failing e ∨ .broken e ∈ r'.exchange.history)
      (hnew : ∀ e, r'.phase = .failing e → r.phase = .failing e)

namespace Turn

variable {r r' : Relay} {a : Action}

theorem announced_eq {notes : List Note} (h : r.exchange.Follows notes r'.exchange)
    (hnotes : submissions notes = []) : r'.announced = r.announced := by
  rw [announced, announced, h.history, submissions_append, hnotes, List.append_nil]

/-- An action of the world around the worker leaves its phase and announces nothing. -/
theorem around {notes : List Note} (h : r.exchange.Follows notes r'.exchange)
    (hnotes : submissions notes = []) (hphase : r'.phase = r.phase)
    (hqueue : r'.queue = r.queue ++ pushed [a]) : Turn r a r' := by
  have hwork : r'.atWork = r.atWork := by rw [atWork, atWork, hphase]
  have hannounced := announced_eq h hnotes
  cases hr : r.atWork with
  | true => exact .kept hr (hwork.trans hr) hqueue hannounced
  | false =>
    refine .gone hr (hwork.trans hr) hannounced (fun e he => .inl (hphase.trans he)) ?_
    exact fun e he => hphase.symm.trans he

theorem of_take (hphase : r.phase = .taking) {c : Change} {rest : List Change}
    (hqueue : r.queue = c :: rest) : Turn r .work (r.take c rest) := by
  have hwork : r.atWork = true := by rw [atWork, hphase]
  obtain ⟨x, -, ⟨e, htake, hfollows⟩ | ⟨job, htake, -, hposition, -, hfollows⟩⟩ :=
    r.take_spec c rest
  · rw [htake]
    exact .failed e hwork rfl (announced_eq hfollows rfl)
  · rw [htake]
    refine .took c hwork rfl rfl hqueue ?_
    rw [announced, announced, hfollows.history, submissions_append, hposition]
    rfl

theorem of_offer {job : Job} (hphase : r.phase = .offering job) : Turn r .work (r.offer job) := by
  have hwork : r.atWork = true := by rw [atWork, hphase]
  have hqueue : r.queue = r.queue ++ pushed [.work] := (List.append_nil _).symm
  obtain ⟨x, ⟨wake, hoffer, hfollows, -⟩ | ⟨hoffer, hcases⟩⟩ := r.offer_spec job
  · rw [hoffer]
    exact .kept hwork rfl hqueue (announced_eq hfollows rfl)
  · rw [hoffer]
    refine .kept hwork rfl hqueue ?_
    rcases hcases with ⟨-, -, hfollows, -⟩ | ⟨hfollows, -⟩ | ⟨notes, left, hpassage, hfollows, -⟩
    · exact announced_eq hfollows rfl
    · exact announced_eq hfollows rfl
    · exact announced_eq hfollows hpassage.submissions_eq_nil

theorem of_step (h : Step r r') : Turn r .work r' := by
  have hqueue : r.queue = r.queue ++ pushed [.work] := (List.append_nil _).symm
  cases h with
  | started _ _ hphase => exact .kept (by rw [atWork, hphase]) rfl hqueue rfl
  | took c rest hphase hcons => exact of_take hphase hcons
  | drained _ _ hphase hempty hstage => exact .drained rfl hphase hempty hstage rfl rfl
  | deserted hphase => exact .failed _ (by rw [atWork, hphase]) rfl rfl
  | offered job hphase => exact of_offer hphase
  | resumed job wake hphase => exact .kept (by rw [atWork, hphase]) rfl hqueue rfl
  | failed cause _ _ hphase =>
    -- the failure leaves the phase and is told in the history in the same step
    refine .gone (by rw [atWork, hphase]) rfl ?_ (fun e he => .inr ?_) (by simp)
    · rw [announced, announced]
      exact (submissions_append _ _).trans (List.append_nil _)
    · obtain rfl : cause = e := by simpa [hphase] using he
      simp [Exchange.notes]
  | left hphase => exact .gone (by rw [atWork, hphase]) rfl rfl (by simp [hphase]) (by simp)
  | closed hphase => exact .gone (by rw [atWork, hphase]) rfl rfl (by simp [hphase]) (by simp)
  | stopped _ _ hphase => exact .gone (by rw [atWork, hphase]) rfl rfl (by simp [hphase]) (by simp)

/-- What every action does to the queue. -/
theorem of_act (h : r.act a = some r') : Turn r a r' := by
  have hrefl := Follows.refl r.exchange
  have hqueue (hnone : pushed [a] = []) : r.queue = r.queue ++ pushed [a] := by
    rw [hnone, List.append_nil]
  cases Act.of_act h with
  | work hstep => exact of_step hstep
  | hangUp hphase => exact .failed _ (by rw [atWork, hphase]) rfl rfl
  | pushed => exact .around hrefl rfl rfl rfl
  | refused => exact .around hrefl rfl rfl (hqueue rfl)
  | requestStop => exact .around (hrefl.withLog _) rfl rfl (hqueue rfl)
  | closeBroker => exact .around (hrefl.withBroker _) rfl rfl (hqueue rfl)
  | dropPublisher => exact .around hrefl rfl rfl (hqueue rfl)
  | wait => exact .around hrefl rfl rfl (hqueue rfl)
  | behave => exact .around (hrefl.withBroker _) rfl rfl (hqueue rfl)
  | release index o x hx =>
    obtain ⟨b, notes, left, -, hpassage, hfollows, -⟩ := release_spec _ hx
    exact .around hfollows hpassage.submissions_eq_nil rfl (hqueue rfl)

end Turn

/-! ## Runs -/

/-- How far the worker has come with what was pushed. -/
inductive Standing (r₀ : Relay) (as : List Action) (r : Relay) : Prop
  | atWork (hwork : r.atWork = true)
      (hpushed : (pushed as).map Change.position = r.announced ++ r.queue.map Change.position)
  /-- The worker has failed and is going to tell of it, or it has told. -/
  | failed (e : Error) (hwork : r.atWork = false)
      (hfailure : r.phase = .failing e ∨ .broken e ∈ r.exchange.history)
      (hpushed : r.announced <+: (pushed as).map Change.position)
  /-- The worker left after it found the queue empty, when it had announced all that was pushed. -/
  | drained (before after' : List Action) (s : Relay) (hwork : r.atWork = false)
      (hphase : ∀ e, r.phase ≠ .failing e) (hsplit : as = before ++ .work :: after')
      (hbefore : r₀.after before = some s) (htaking : s.phase = .taking) (hempty : s.queue = [])
      (hstage : s.lifecycle.stage = .stopRequested)
      (hpushed : r.announced = (pushed before).map Change.position)

/-- Every action keeps the worker's standing: it goes on with its work, it fails, or it has left. -/
theorem Standing.act {r₀ r r' : Relay} {as : List Action} {a : Action} (ih : Standing r₀ as r)
    (hr : r₀.after as = some r) (hact : r.act a = some r') : Standing r₀ (as ++ [a]) r' := by
  have hturn := Turn.of_act hact
  cases ih with
  | atWork hwork hpushed =>
    cases hturn with
    | kept _ hwork' hqueue hannounced =>
      refine .atWork hwork' ?_
      rw [pushed_append, List.map_append, hpushed, hqueue, List.map_append, hannounced,
        List.append_assoc]
    | took c _ hwork' hnone hqueue hannounced =>
      -- the first event in the queue becomes the last one announced
      refine .atWork hwork' ?_
      rw [pushed_append, hnone, List.append_nil, hpushed, hqueue, hannounced, List.map_cons,
        List.append_assoc, List.singleton_append]
    | drained haction htaking hempty hstage hphase' hannounced =>
      subst haction
      refine .drained as [] r (by rw [Relay.atWork, hphase']) (by simp [hphase']) rfl hr htaking
        hempty hstage ?_
      rw [hannounced, hpushed, hempty, List.map_nil, List.append_nil]
    | failed e _ hphase' hannounced =>
      refine .failed e (by rw [Relay.atWork, hphase']) (.inl hphase') ?_
      rw [hannounced, pushed_append, List.map_append, hpushed, List.append_assoc]
      exact List.prefix_append _ _
    | gone hno => simp [hwork] at hno
  | failed e hwork hfailure hpushed =>
    cases hturn with
    | kept hyes => simp [hwork] at hyes
    | took _ hyes => simp [hwork] at hyes
    | drained _ htaking => simp [Relay.atWork, htaking] at hwork
    | failed _ hyes => simp [hwork] at hyes
    | gone _ hwork' hannounced htold =>
      refine .failed e hwork' ?_ ?_
      · rcases hfailure with hphase | hbroken
        · exact htold e hphase
        · -- what was told once stays in the history
          obtain ⟨notes, hfollows, -⟩ := act_effect hact
          rw [hfollows.history]
          exact .inr (List.mem_append_left _ hbroken)
      · rw [hannounced, pushed_append, List.map_append]
        exact hpushed.trans (List.prefix_append _ _)
  | drained before after' s hwork hphase hsplit hbefore htaking hempty hstage hpushed =>
    cases hturn with
    | kept hyes => simp [hwork] at hyes
    | took _ hyes => simp [hwork] at hyes
    | drained _ htaking' => simp [Relay.atWork, htaking'] at hwork
    | failed _ hyes => simp [hwork] at hyes
    | gone _ hwork' hannounced _ hnew =>
      -- the split stays where it was: what follows only grows
      refine .drained before (after' ++ [a]) s hwork' (fun e he => hphase e (hnew e he)) ?_ hbefore
        htaking hempty hstage (hannounced.trans hpushed)
      rw [hsplit, List.append_assoc, List.cons_append]

section Run

variable {resume : Option Position} {r₀ r : Relay} {as : List Action}
  (hinit : Initial resume r₀) (hrun : r₀.after as = some r)
include hinit hrun

theorem standing_after : Standing r₀ as r := by
  refine after_induction (P := Standing r₀) ?_ ?_ hrun
  · obtain ⟨terms, broker, capacity, -, -, rfl⟩ := hinit.eq
    exact .atWork rfl rfl
  · intro as r a r' hr ih hact
    exact ih.act hr hact

theorem ticket_after : r.exchange.ticket = r.announced.length := by
  have hticket := (follows_after hinit hrun).ticket
  obtain ⟨terms, broker, capacity, -, -, rfl⟩ := hinit.eq
  rw [hticket, announced, length_submissions, Nat.zero_add]

/-- What is announced is the start of what was pushed. -/
theorem announced_prefix_after : r.announced <+: (pushed as).map Change.position := by
  cases standing_after hinit hrun with
  | atWork _ hpushed =>
    rw [hpushed]
    exact List.prefix_append _ _
  | failed _ _ _ hpushed => exact hpushed
  | drained before after' s _ _ hsplit _ _ _ _ hpushed =>
    rw [hpushed, hsplit, pushed_append, List.map_append]
    exact List.prefix_append _ _

end Run

end Relay
end ChangeRelay

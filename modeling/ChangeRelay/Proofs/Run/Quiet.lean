import ChangeRelay.Proofs.Run.Service
import ChangeRelay.Proofs.Run.Stop
/-!
# Quiet

The worker leaves in three steps, one after the other and each of them once: it closes the queue, it
closes the broker, and it stops. `Phase.left` counts them, and `Advance` says that every action
either leaves the count alone or takes the next step. A relay that has stopped has therefore done
all three, and nothing that happens later makes it submit or offer anything again.
-/

namespace ChangeRelay

/-- How far a stage is in the life of a task. -/
def Stage.rank : Stage → ℕ
  | .created => 0
  | .running => 1
  | .stopRequested => 2
  | .stopped => 3

namespace Stage

theorem rank_le_started (s : Stage) : s.rank ≤ s.started.rank := by
  cases s <;> decide

theorem rank_le_stopRequest (s : Stage) : s.rank ≤ s.stopRequest.rank := by
  cases s <;> decide

theorem two_le_rank_stopRequest (s : Stage) : 2 ≤ s.stopRequest.rank := by
  cases s <;> decide

theorem rank_le_stopped (s : Stage) : s.rank ≤ stopped.rank := by
  cases s <;> decide

theorem two_le_rank_iff {s : Stage} : 2 ≤ s.rank ↔ s = .stopRequested ∨ s = .stopped := by
  cases s <;> decide

theorem three_le_rank_iff {s : Stage} : 3 ≤ s.rank ↔ s = .stopped := by
  cases s <;> decide

end Stage

/-- How many of its last three steps the worker has behind it. -/
def Phase.left : Phase → ℕ
  | .closing => 1
  | .flushing => 2
  | .finished => 3
  | _ => 0

namespace Phase

theorem left_le (p : Phase) : p.left ≤ 3 := by
  cases p <;> simp [left]

theorem left_eq_one_iff {p : Phase} : p.left = 1 ↔ p = .closing := by
  cases p <;> simp [left]

theorem left_eq_two_iff {p : Phase} : p.left = 2 ↔ p = .flushing := by
  cases p <;> simp [left]

theorem left_eq_three_iff {p : Phase} : p.left = 3 ↔ p = .finished := by
  cases p <;> simp [left]

end Phase

namespace Relay

/-! ## One action -/

/-- What an action does to the life of a relay. -/
inductive Advance (r : Relay) (a : Action) (r' : Relay) : Prop
  | kept (hleft : r'.phase.left = r.phase.left) (hopen : r'.queueOpen = r.queueOpen)
      (hstage : r.lifecycle.stage.rank ≤ r'.lifecycle.stage.rank)
      (hclosings : r.closings a = forced [a])
  /-- The worker takes the next of its last steps. -/
  | passed (haction : a = .work) (hleft : r'.phase.left = r.phase.left + 1)
      (hopen : r.phase.left = 0 ∨ r.queueOpen = false → r'.queueOpen = false)
      (hstage : r.lifecycle.stage.rank ≤ r'.lifecycle.stage.rank)
      (hclosings : r.closings a = if r.phase.left = 1 then 1 else 0)

namespace Advance

variable {r r' : Relay} {a : Action}

theorem rank_le (h : Advance r a r') : r.lifecycle.stage.rank ≤ r'.lifecycle.stage.rank := by
  cases h with
  | kept _ _ hstage => exact hstage
  | passed _ _ _ hstage => exact hstage

theorem of_take (hphase : r.phase = .taking) (c : Change) (rest : List Change) :
    Advance r .work (r.take c rest) := by
  have hclosings : r.closings .work = 0 := by rw [closings, hphase]
  have hstage := Nat.le_of_eq (congrArg (·.stage.rank) (lifecycle_take r c rest).symm)
  obtain ⟨x, -, ⟨e, htake, -⟩ | ⟨job, htake, -⟩⟩ := r.take_spec c rest
  · refine .kept ?_ ?_ hstage hclosings
    · rw [htake, hphase]
      rfl
    · rw [htake]
  · refine .kept ?_ ?_ hstage hclosings
    · rw [htake, hphase]
      rfl
    · rw [htake]

theorem of_offer {job : Job} (hphase : r.phase = .offering job) :
    Advance r .work (r.offer job) := by
  have hclosings : r.closings .work = 0 := by rw [closings, hphase]
  have hstage := Nat.le_of_eq (congrArg (·.stage.rank) (lifecycle_offer r job).symm)
  obtain ⟨x, ⟨wake, hoffer, -⟩ | ⟨hoffer, -⟩⟩ := r.offer_spec job
  · refine .kept ?_ ?_ hstage hclosings
    · rw [hoffer, hphase]
      rfl
    · rw [hoffer]
  · refine .kept ?_ ?_ hstage hclosings
    · rw [hoffer, hphase]
      rfl
    · rw [hoffer]

theorem of_step (h : Step r r') : Advance r .work r' := by
  cases h with
  | started _ _ hphase =>
    exact .kept (by rw [hphase]; rfl) rfl (Stage.rank_le_started _) (by rw [closings, hphase]; rfl)
  | took c rest hphase => exact of_take hphase c rest
  | drained _ _ hphase =>
    exact .kept (by rw [hphase]; rfl) rfl (Nat.le_refl _) (by rw [closings, hphase]; rfl)
  | deserted hphase =>
    exact .kept (by rw [hphase]; rfl) rfl (Nat.le_refl _) (by rw [closings, hphase]; rfl)
  | offered job hphase => exact of_offer hphase
  | resumed job wake hphase =>
    exact .kept (by rw [hphase]; rfl) rfl (Nat.le_refl _) (by rw [closings, hphase]; rfl)
  | failed cause _ _ hphase =>
    exact .kept (by rw [hphase]; rfl) rfl (Nat.le_refl _) (by rw [closings, hphase]; rfl)
  | left hphase =>
    exact .passed rfl (by rw [hphase]; rfl) (fun _ => rfl) (Nat.le_refl _)
      (by rw [closings, hphase]; rfl)
  | closed hphase =>
    refine .passed rfl (by rw [hphase]; rfl) ?_ (Nat.le_refl _) (by rw [closings, hphase]; rfl)
    rintro (hzero | hclosed)
    · simp [hphase, Phase.left] at hzero
    · exact hclosed
  | stopped _ _ hphase =>
    refine .passed rfl (by rw [hphase]; rfl) ?_ (Stage.rank_le_stopped _)
      (by rw [closings, hphase]; rfl)
    rintro (hzero | hclosed)
    · simp [hphase, Phase.left] at hzero
    · exact hclosed

/-- What every action does to the life of a relay. -/
theorem of_act (h : r.act a = some r') : Advance r a r' := by
  rcases act_cases h with ⟨rfl, hstep⟩ | ⟨rfl, hphase, rfl⟩ | haround
  · exact of_step hstep
  · exact .kept (by rw [hphase]; rfl) rfl (Nat.le_refl _) rfl
  · refine .kept (by rw [haround.phase]) haround.queueOpen ?_ haround.closings
    rcases haround.stage with hstage | hstage
    · exact Nat.le_of_eq (congrArg Stage.rank hstage.symm)
    · rw [hstage]
      exact Stage.rank_le_stopRequest _

end Advance

/-- The life of a relay goes on in one direction. -/
theorem rank_le_of_after {r r' : Relay} {as : List Action} (h : r.after as = some r') :
    r.lifecycle.stage.rank ≤ r'.lifecycle.stage.rank := by
  refine after_induction (P := fun _ s => r.lifecycle.stage.rank ≤ s.lifecycle.stage.rank)
    (Nat.le_refl _) ?_ h
  intro as s a s' _ hs hact
  exact Nat.le_trans hs (Advance.of_act hact).rank_le

theorem stopRequest_kept {r₀ r : Relay} {as : List Action} (hrun : r₀.after as = some r)
    (hrequest : .requestStop ∈ as) :
    r.lifecycle.stage = .stopRequested ∨ r.lifecycle.stage = .stopped := by
  obtain ⟨before, rest, rfl⟩ := List.append_of_mem hrequest
  rw [after_append] at hrun
  obtain ⟨s, -, hrest⟩ := Option.bind_eq_some_iff.mp hrun
  rw [after] at hrest
  obtain ⟨s', hs', hrest⟩ := Option.bind_eq_some_iff.mp hrest
  obtain rfl := Option.some.inj hs'
  apply Stage.two_le_rank_iff.mp
  exact Nat.le_trans (Stage.two_le_rank_stopRequest _) (rank_le_of_after hrest)

/-! ## After the end -/

/-- Two states between which the worker did nothing. -/
structure Quiet (r r' : Relay) : Prop where
  finished : r'.phase = .finished
  queueOpen : r'.queueOpen = r.queueOpen
  announced : r'.announced = r.announced
  placed : r'.exchange.broker.books.placed = r.exchange.broker.books.placed

/-- A worker that has finished does nothing more. -/
theorem quiet_of_act {r r' : Relay} {a : Action} (hphase : r.phase = .finished)
    (hact : r.act a = some r') : Quiet r r' ∧ r.deed? a r' = none := by
  have haside : Aside r a r' := by
    rcases act_deed_cases hact with ⟨_, _, _, htaking, _⟩ | ⟨_, _, hoffering, _⟩ | haside
    · simp [hphase] at htaking
    · simp [hphase] at hoffering
    · exact haside
  have hthree : r.phase.left = 3 := Phase.left_eq_three_iff.mpr hphase
  refine ⟨?_, haside.deed?⟩
  cases Advance.of_act hact with
  | kept hleft hopen =>
    refine ⟨Phase.left_eq_three_iff.mp (hleft.trans hthree), hopen, haside.keeps.announced, ?_⟩
    rw [haside.books]
  | passed _ hleft =>
    -- there is no step after the last one
    have hle := r'.phase.left_le
    omega

theorem quiet_after {r r' : Relay} {as : List Action} (hphase : r.phase = .finished)
    (h : r.after as = some r') : Quiet r r' ∧ r.deeds as = [] := by
  refine after_induction (P := fun as r' => Quiet r r' ∧ r.deeds as = []) ?_ ?_ h
  · exact ⟨⟨hphase, rfl, rfl, rfl⟩, rfl⟩
  · rintro as s a s' hs ⟨hquiet, hdeeds⟩ hact
    obtain ⟨hnext, hdeed⟩ := quiet_of_act hquiet.finished hact
    refine ⟨⟨hnext.finished, hnext.queueOpen.trans hquiet.queueOpen,
      hnext.announced.trans hquiet.announced, hnext.placed.trans hquiet.placed⟩, ?_⟩
    rw [deeds_concat hs hact, hdeeds, hdeed]
    rfl

/-! ## Runs -/

section Run

variable {resume : Option Position} {r₀ r : Relay} {as : List Action}
  (hinit : Initial resume r₀) (hrun : r₀.after as = some r)
include hinit hrun

/-- Once the worker has closed the queue, it stays closed. -/
theorem queueOpen_of_left (hleft : 0 < r.phase.left) : r.queueOpen = false := by
  refine after_induction (P := fun _ r => 0 < r.phase.left → r.queueOpen = false) ?_ ?_ hrun hleft
  · obtain ⟨terms, broker, capacity, -, -, rfl⟩ := hinit.eq
    simp [Phase.left]
  · intro as r a r' _ hr hact hleft'
    cases Advance.of_act hact with
    | kept hleft hopen => exact hopen.trans (hr (hleft ▸ hleft'))
    | passed _ _ hopen =>
      apply hopen
      rcases Nat.eq_zero_or_pos r.phase.left with hzero | hpos
      · exact .inl hzero
      · exact .inr (hr hpos)

/-- Apart from those who force it, the worker closes the broker, and it does so once. -/
theorem closeCalls_after : r.exchange.broker.closeCalls =
    r₀.exchange.broker.closeCalls + forced as + if 2 ≤ r.phase.left then 1 else 0 := by
  refine after_induction (P := fun as r => r.exchange.broker.closeCalls =
    r₀.exchange.broker.closeCalls + forced as + if 2 ≤ r.phase.left then 1 else 0) ?_ ?_ hrun
  · obtain ⟨terms, broker, capacity, -, -, rfl⟩ := hinit.eq
    rfl
  · intro as r a r' hr ih hact
    obtain ⟨services, failure, h⟩ := serving_after hinit hr
    have hcalls : r'.exchange.broker.closeCalls = r.exchange.broker.closeCalls + r.closings a :=
      (Entered.of_act (fun job => h.isSome_partition_of_job?) hact).closeCalls
    rw [hcalls, ih, forced_append]
    cases Advance.of_act hact with
    | kept hleft _ _ hclosings =>
      rw [hleft, hclosings]
      omega
    | passed haction hleft _ _ hclosings =>
      have hnone : forced [a] = 0 := by rw [haction]; rfl
      rw [hleft, hclosings, hnone]
      split_ifs <;> omega

/-- Each of the last steps that the worker has behind it was taken at some point of the run. -/
theorem exists_left {n : ℕ} (hn : n < r.phase.left) :
    ∃ before rest s, as = before ++ .work :: rest ∧ r₀.after before = some s ∧
      s.phase.left = n := by
  refine after_induction (P := fun as r => n < r.phase.left → ∃ before rest s,
    as = before ++ .work :: rest ∧ r₀.after before = some s ∧ s.phase.left = n) ?_ ?_ hrun hn
  · obtain ⟨terms, broker, capacity, -, -, rfl⟩ := hinit.eq
    simp [Phase.left]
  · intro as r a r' hr ih hact hn
    have hearlier (h : n < r.phase.left) : ∃ before rest s,
        as ++ [a] = before ++ .work :: rest ∧ r₀.after before = some s ∧ s.phase.left = n := by
      obtain ⟨before, rest, s, rfl, hs⟩ := ih h
      exact ⟨before, rest ++ [a], s, by simp, hs⟩
    cases Advance.of_act hact with
    | kept hleft => exact hearlier (hleft ▸ hn)
    | passed haction hleft =>
      rcases Nat.lt_or_ge n r.phase.left with hlt | hge
      · exact hearlier hlt
      · exact ⟨as, [], r, by rw [haction], hr, by omega⟩

/-- The life of a relay never goes back, and a request to stop is kept, also one that came before
the worker started. When a relay has stopped, its worker has closed the queue and then, once, the
broker, however it came to its end and whoever else closed the broker; from then on every push is
interrupted, and no event is announced and no record of one is offered. -/
theorem quiet_of_stopped :
    (∀ before rest s, as = before ++ rest → r₀.after before = some s →
      s.lifecycle.stage.rank ≤ r.lifecycle.stage.rank) ∧
    (.requestStop ∈ as → r.lifecycle.stage = .stopRequested ∨ r.lifecycle.stage = .stopped) ∧
    (r.isStopped = true →
      -- the broker is closed behind a closed queue, and only later the worker stops
      (∃ before between rest s t, as = before ++ .work :: between ++ .work :: rest ∧
        r₀.after before = some s ∧ s.phase = .closing ∧ s.queueOpen = false ∧
        r₀.after (before ++ .work :: between) = some t ∧ t.phase = .flushing ∧
        t.isStopped = false) ∧
      r.exchange.broker.closeCalls = r₀.exchange.broker.closeCalls + forced as + 1 ∧
      ∀ more r', r.after more = some r' →
        r'.isStopped = true ∧ (∀ c limit, r'.push c limit = (.interrupted, r')) ∧
        r.deeds more = [] ∧ r'.announced = r.announced ∧
        r'.exchange.broker.books.placed = r.exchange.broker.books.placed) := by
  refine ⟨?_, stopRequest_kept hrun, fun hstopped => ?_⟩
  · rintro before rest s rfl hs
    rw [after_append, hs] at hrun
    exact rank_le_of_after hrun
  have hphase := phase_of_stopped hinit hrun hstopped
  have hleft : r.phase.left = 3 := Phase.left_eq_three_iff.mpr hphase
  refine ⟨?_, ?_, ?_⟩
  · obtain ⟨upTo, rest, t, rfl, ht, htwo⟩ := exists_left hinit hrun (n := 2) (by omega)
    obtain ⟨before, between, s, rfl, hs, hone⟩ := exists_left hinit ht (n := 1) (by omega)
    refine ⟨before, between, rest, s, t, rfl, hs, Phase.left_eq_one_iff.mp hone,
      queueOpen_of_left hinit hs (by omega), ht, Phase.left_eq_two_iff.mp htwo, ?_⟩
    -- a relay that has stopped has no step left
    cases hearly : t.isStopped with
    | false => rfl
    | true =>
      rw [phase_of_stopped hinit ht hearly] at htwo
      simp [Phase.left] at htwo
  · rw [closeCalls_after hinit hrun, hleft]
    rfl
  · intro more r' hmore
    obtain ⟨hquiet, hdeeds⟩ := quiet_after hphase hmore
    have hclosed : r'.queueOpen = false :=
      hquiet.queueOpen.trans (queueOpen_of_left hinit hrun (by omega))
    refine ⟨?_, ?_, hdeeds, hquiet.announced, hquiet.placed⟩
    · have hrank := rank_le_of_after hmore
      rw [of_decide_eq_true hstopped] at hrank
      exact decide_eq_true (Stage.three_le_rank_iff.mp hrank)
    · intro c limit
      rw [push, tryPush, hclosed]
      rfl

end Run

/-- A relay that is asked to stop before it starts and whose broker is closed meanwhile, and one
that fails because nobody can push any more: the worker has closed the broker of each of them once.
-/
theorem quiet_of_stopped_early_and_failed :
    ∃ r s,
      (plain []).after [.requestStop, .work, .closeBroker, .work, .work, .work, .work] = some r ∧
      r.isStopped = true ∧ r.exchange.broker.closeCalls = 2 ∧
      (∀ c limit, r.push c limit = (.interrupted, r)) ∧
      (plain []).after [.work, .dropPublisher, .work, .work, .work, .work, .work] = some s ∧
      s.isStopped = true ∧ s.exchange.broker.closeCalls = 1 ∧
      ∀ c limit, s.push c limit = (.interrupted, s) := by
  obtain ⟨r, s, hrun, hstopped, hfailing, hfailed⟩ : ∃ r s,
      (plain []).after [.requestStop, .work, .closeBroker, .work, .work, .work, .work] = some r ∧
      r.isStopped = true ∧
      (plain []).after [.work, .dropPublisher, .work, .work, .work, .work, .work] = some s ∧
      s.isStopped = true := ⟨_, _, rfl, rfl, rfl, rfl⟩
  obtain ⟨-, htwice, hquiet⟩ := (quiet_of_stopped (initial_plain []) hrun).2.2 hstopped
  obtain ⟨-, honce, hquiet'⟩ := (quiet_of_stopped (initial_plain []) hfailing).2.2 hfailed
  exact ⟨r, s, hrun, hstopped, htwice, (hquiet [] r rfl).2.1, hfailing, hfailed, honce,
    (hquiet' [] s rfl).2.1⟩

end Relay
end ChangeRelay

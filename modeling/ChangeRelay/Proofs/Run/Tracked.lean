import ChangeRelay.Proofs.Progress.Safe
import ChangeRelay.Proofs.Progress.Unfinished
import ChangeRelay.Proofs.Run.Queue
/-!
# Completions are expected

A tracker warns of a completion that it has no entry for. In a relay this never happens: the
positions of the attempts that are outstanding are among those that the tracker has as unfinished,
because an event is announced before its record is offered, and an attempt goes on to another
attempt or to a completion but never to both.
-/

namespace ChangeRelay

/-- The warning about a completion that finds no entry. -/
def Progress.untrackedLine (p : Position) : LogLine where
  level := .warn
  message := s!"Completion for untracked position {p.shown}"

theorem Progress.completeLog_eq (t : Progress) (p : Position) :
    t.completeLog p = if p ∈ t.unfinished then [] else [untrackedLine p] := by
  unfold completeLog
  by_cases h : p ∈ t.unfinished
  · rw [if_pos h, if_pos (isSome_mark?_iff.mpr h)]
  · rw [if_neg h, if_neg (mt isSome_mark?_iff.mp h)]
    rfl

open Note Progress

/-! ## What an exchange logs -/

namespace Exchange

/-- `y` comes from `x` without a warning about a completion. -/
def Silent (x y : Exchange) : Prop :=
  ∃ lines, y.log = x.log ++ lines ∧ ∀ p, untrackedLine p ∉ lines

namespace Silent

variable {x y z : Exchange}

theorem of_log_eq (h : y.log = x.log) : Silent x y :=
  ⟨[], by rw [h, List.append_nil], by simp⟩

theorem trans (h : Silent x y) (h' : Silent y z) : Silent x z := by
  obtain ⟨lines, hy, hlines⟩ := h
  obtain ⟨more, hz, hmore⟩ := h'
  refine ⟨lines ++ more, by rw [hz, hy, List.append_assoc], ?_⟩
  intro p hp
  rcases List.mem_append.mp hp with hp | hp
  · exact hlines p hp
  · exact hmore p hp

/-- Only a line of the level of warnings can be the warning. -/
theorem of_level (lines : List LogLine) (hlog : y.log = x.log ++ lines)
    (h : ∀ line ∈ lines, line.level ≠ .warn) : Silent x y := by
  refine ⟨lines, hlog, ?_⟩
  intro p hp
  exact h _ hp rfl

end Silent

variable {x : Exchange} {a : Attempt}

theorem silent_complete (h : a.position ∈ x.progress.unfinished) : Silent x (x.complete a) := by
  apply Silent.of_log_eq
  show x.log ++ x.progress.completeLog a.position = x.log
  rw [completeLog_eq, if_pos h, List.append_nil]

theorem level_of_mem_deliveryLog {r : Receipt} {line : LogLine} (h : line ∈ deliveryLog a r) :
    line.level ≠ .warn := by
  unfold deliveryLog at h
  rcases List.mem_cons.mp h with rfl | h
  · simp
  · cases hv : a.value with
    | none => simp [hv] at h
    | some value =>
      rw [hv] at h
      obtain rfl := List.mem_singleton.mp h
      simp

theorem silent_succeed (h : a.position ∈ x.progress.unfinished) (r : Receipt) :
    Silent x (x.succeed a r) := by
  have hdelivered : Silent x (({ x with counts := x.counts.success }.logs (deliveryLog a r)).notes
      (.delivered a.ticket r)) :=
    .of_level (deliveryLog a r) rfl fun _ => level_of_mem_deliveryLog
  exact hdelivered.trans (silent_complete h)

theorem silent_noteFailure (x : Exchange) (a : Attempt) (e : DeliveryError) :
    Silent x (x.noteFailure a e) := by
  apply Silent.of_level (failureLog a e) rfl
  simp [failureLog]

theorem silent_failFinally (h : a.position ∈ x.progress.unfinished) (e : DeliveryError) :
    Silent x (x.failFinally a e) := by
  apply (silent_noteFailure x a e).trans
  have hcomplete : Silent (x.noteFailure a e) ((x.noteFailure a e).complete a) := silent_complete h
  rw [failFinally]
  cases e.severity (x.noteFailure a e).terms.ignoreErrors with
  | fatal => exact .of_log_eq rfl
  | oversized => exact hcomplete
  | ignorable => exact hcomplete

theorem silent_redirect (h : a.position ∈ x.progress.unfinished) (topic : TopicPattern)
    (e : DeliveryError) : Silent x (x.redirect a topic e) := by
  rw [redirect_eq]
  set r := x.terms.plan.redirected topic a.row e.kind
  have hoffered : Silent x (x.reoffered a r) := by
    apply Silent.of_level (redirectLog a r) rfl
    simp [redirectLog]
  -- the redirected attempt stands at the position of the first one
  have hagain : a.again.position ∈ (x.reoffered a r).progress.unfinished := h
  apply hoffered.trans
  cases (x.broker.offer r a.again).1 with
  | rejected e => exact silent_failFinally hagain e
  | pending => exact .of_log_eq rfl
  | failed e => exact silent_failFinally hagain e
  | delivered receipt => exact silent_succeed hagain receipt

/-- An outcome that is reported for an unfinished position brings no warning. -/
theorem silent_report (h : a.position ∈ x.progress.unfinished) (o : Except DeliveryError Receipt) :
    Silent x (x.report a o) := by
  cases o with
  | ok receipt => exact silent_succeed h receipt
  | error e =>
    rw [report]
    rcases x.fail_cases a e with ⟨-, hfail⟩ | ⟨topic, -, -, hfail⟩
    · rw [hfail]
      exact silent_failFinally h e
    · have hopen : a.position ∈ (x.noteFailure a e).progress.unfinished := h
      rw [hfail]
      exact (silent_noteFailure x a e).trans (silent_redirect hopen topic e)

end Exchange

/-! ## What a relay logs -/

namespace Relay

open Exchange

/-- The only other warning is about something else. -/
theorem untrackedLine_ne_abandoningLine (p q : Position) : untrackedLine p ≠ abandoningLine q := by
  intro h
  have hmessage := congrArg (fun line => line.message.toList.head?) h
  simp [untrackedLine, abandoningLine, toString] at hmessage

theorem silent_take (r : Relay) (c : Change) (rest : List Change) :
    r.exchange.Silent (r.take c rest).exchange := by
  obtain ⟨built, -, htaken⟩ := r.exists_taken c rest
  generalize r.take c rest = s at htaken ⊢
  cases htaken with
  | unmade message => exact .of_log_eq rfl
  | made count record turns hrecord lines hlines => exact .of_level lines rfl hlines

theorem silent_offer {r : Relay} {job : Job}
    (h : job.attempt.position ∈ r.exchange.progress.unfinished) :
    r.exchange.Silent (r.offer job).exchange := by
  obtain ⟨reply, broker, -, hoffered⟩ := r.exists_offered job
  set x : Exchange := { r.exchange with broker }
  have hx : r.exchange.Silent x := .of_log_eq rfl
  have hopen : job.attempt.position ∈ x.progress.unfinished := h
  generalize r.offer job = s at hoffered ⊢
  cases hoffered with
  | held => exact hx
  | failed e => exact hx.trans (silent_report hopen (.error e))
  | delivered receipt => exact hx.trans (silent_report hopen (.ok receipt))
  | postponed e lines hlines => exact hx.trans (.of_level lines rfl hlines)
  | abandoned =>
    refine hx.trans ⟨_, rfl, ?_⟩
    intro p hp
    exact untrackedLine_ne_abandoningLine p _ (List.mem_singleton.mp hp)
  | refused e => exact hx.trans (silent_report hopen (.error e))

theorem silent_step {r r' : Relay}
    (hopen : ∀ a ∈ r.inHand, a.position ∈ r.exchange.progress.unfinished) (h : Step r r') :
    r.exchange.Silent r'.exchange := by
  have hsame : r.exchange.Silent r.exchange := .of_log_eq rfl
  cases h with
  | started lines hlines => exact .of_level lines rfl hlines
  | took c rest => exact silent_take r c rest
  | drained lines hlines => exact .of_level lines rfl hlines
  | deserted => exact hsame
  | offered job hphase => exact silent_offer (hopen job.attempt (by simp [inHand, hphase]))
  | resumed => exact hsame
  | failed cause lines hlines => exact .of_level lines rfl hlines
  | left => exact hsame
  | closed => exact .of_log_eq rfl
  | stopped lines hlines => exact .of_level lines rfl hlines

/-- No action brings a warning when all outstanding attempts are unfinished. -/
theorem silent_act {r r' : Relay} {a : Action}
    (hopen : ∀ a ∈ r.outstanding, a.position ∈ r.exchange.progress.unfinished)
    (h : r.act a = some r') : r.exchange.Silent r'.exchange := by
  have hsame : r.exchange.Silent r.exchange := .of_log_eq rfl
  cases Act.of_act h with
  | work hstep => exact silent_step (fun a ha => hopen a (List.mem_append_left _ ha)) hstep
  | hangUp => exact hsame
  | pushed => exact hsame
  | refused => exact hsame
  | requestStop =>
    apply Silent.of_level r.lifecycle.requestStopLog rfl
    intro line hline
    unfold Lifecycle.requestStopLog at hline
    split at hline
    · simp at hline
    · simp [List.mem_singleton.mp hline]
  | closeBroker => exact .of_log_eq rfl
  | dropPublisher => exact hsame
  | wait => exact hsame
  | behave => exact .of_log_eq rfl
  | release index o x hx =>
    rw [release] at hx
    obtain ⟨a, ha, hreport⟩ := Option.bind_eq_some_iff.mp hx
    obtain rfl := Option.some.inj hreport
    have hheld := hopen a (List.mem_append_right _ (List.mem_of_getElem? ha))
    set y : Exchange := { r.exchange with
      broker := { r.exchange.broker with held := r.exchange.broker.held.eraseIdx index } }
    have hy : a.position ∈ y.progress.unfinished := hheld
    have hrelease : r.exchange.Silent y := .of_log_eq rfl
    exact hrelease.trans (silent_report hy o)

/-! ## What a move tells the tracker -/

theorem calls_of_ending {terms : Terms} {a : Attempt} {notes : List Note}
    (h : Ending terms a notes) : calls notes = [] ∨ calls notes = [.complete a.position] := by
  cases h with
  | delivered => exact .inr rfl
  | fatal => exact .inl rfl
  | tolerated => exact .inr rfl

/-- A move tells the tracker nothing, and then its attempts stand where they stood; or it announces
an attempt that is outstanding from now on; or it completes one that is no longer. -/
theorem Move.calls_cases {r : Relay} {gone left : List Attempt} {notes : List Note}
    (h : Move r gone notes left) :
    (calls notes = [] ∧ (left.map Attempt.position).Subperm (gone.map Attempt.position)) ∨
      (∃ a, calls notes = [.submit a.position] ∧ gone = [] ∧ left = [a]) ∨
      ∃ a, calls notes = [.complete a.position] ∧ gone = [a] ∧ left = [] := by
  -- an attempt that is ended is completed or not, and nothing is left of it
  have hending {a : Attempt} {notes : List Note}
      (h : calls notes = [] ∨ calls notes = [.complete a.position]) :
      (calls notes = [] ∧ (List.map Attempt.position []).Subperm ([a].map Attempt.position)) ∨
        (∃ b : Attempt, calls notes = [.submit b.position] ∧ [a] = [] ∧ [] = [b]) ∨
        ∃ b, calls notes = [.complete b.position] ∧ [a] = [b] ∧ ([] : List Attempt) = [] := by
    rcases h with hnone | hone
    · exact .inl ⟨hnone, List.nil_subperm⟩
    · exact .inr (.inr ⟨a, hone, rfl, rfl⟩)
  cases h with
  | quiet => exact .inl ⟨rfl, .refl _⟩
  | broken => exact .inl ⟨rfl, .refl _⟩
  | announced a => exact .inr (.inl ⟨a, rfl, rfl, rfl⟩)
  | abandoned => exact .inl ⟨rfl, List.nil_subperm⟩
  | passed a h =>
    cases h with
    | ended h => exact hending (calls_of_ending h)
    | redirected => exact .inl ⟨rfl, .refl _⟩
    | redirectedAndEnded _ _ _ h =>
      -- neither the failure nor the redirection tells the tracker anything
      apply hending
      have hcalls := calls_of_ending h
      exact hcalls

/-! ## Runs -/

/-- The tracker of a relay expects what is outstanding, and it has been told of nothing else. -/
structure Tracked (resume : Option Position) (r : Relay) : Prop where
  expected : (r.outstanding.map Attempt.position).Subperm r.exchange.progress.unfinished
  found : ∀ n p, (calls r.exchange.history)[n]? = some (.complete p) →
    Progress.Found resume (calls r.exchange.history) n
  counted : r.exchange.progress.unfinished.length +
    (completions (calls r.exchange.history)).length = r.announced.length
  silent : ∀ p, untrackedLine p ∉ r.exchange.log

namespace Tracked

variable {resume : Option Position} {r r' : Relay} {notes : List Note}

theorem position_mem (h : Tracked resume r) {a : Attempt} (ha : a ∈ r.outstanding) :
    a.position ∈ r.exchange.progress.unfinished :=
  h.expected.subset (List.mem_map_of_mem ha)

/-- Whatever a move tells the tracker, it expects what is outstanding afterwards. -/
theorem expected_of_effect (h : Tracked resume r) (heffect : Effect r notes r') :
    (r'.outstanding.map Attempt.position).Subperm r'.exchange.progress.unfinished := by
  obtain ⟨hfollows, ⟨gone, left, rest, hmove, hout, hout'⟩, -⟩ := heffect
  have hbefore := (hout.map Attempt.position).symm.subperm.trans h.expected
  apply (hout'.map Attempt.position).subperm.trans
  rw [List.map_append] at hbefore ⊢
  rw [hfollows.progress]
  rcases hmove.calls_cases with ⟨hcalls, hsub⟩ | ⟨a, hcalls, rfl, rfl⟩ | ⟨a, hcalls, rfl, rfl⟩
  · rw [hcalls]
    exact ((List.subperm_append_right _).mpr hsub).trans hbefore
  · -- the new position is the last one that is unfinished
    rw [hcalls]
    show ([a.position] ++ rest.map Attempt.position).Subperm
      (r.exchange.progress.submit a.position).unfinished
    rw [unfinished_submit]
    exact List.perm_append_comm.subperm.trans ((List.subperm_append_right _).mpr hbefore)
  · rw [hcalls]
    show ([] ++ rest.map Attempt.position).Subperm
      (r.exchange.progress.complete a.position).unfinished
    rw [unfinished_complete]
    have herase := hbefore.erase a.position
    rwa [List.map_singleton, List.singleton_append, List.erase_cons_head] at herase

/-- A completion is of an outstanding attempt, so it finds the entry of its position. -/
theorem found_of_effect (h : Tracked resume r) (heffect : Effect r notes r')
    (hprogress : r.exchange.progress = (resumed resume).replay (calls r.exchange.history)) :
    ∀ n p, (calls r'.exchange.history)[n]? = some (.complete p) →
      Progress.Found resume (calls r'.exchange.history) n := by
  obtain ⟨hfollows, ⟨gone, left, rest, hmove, hout, -⟩, -⟩ := heffect
  rw [hfollows.history, calls_append]
  have hold (c : Call) {n : ℕ} {p : Position} (hn : n < (calls r.exchange.history).length)
      (hp : (calls r.exchange.history ++ [c])[n]? = some (.complete p)) :
      Progress.Found resume (calls r.exchange.history ++ [c]) n := by
    rw [List.getElem?_append_left hn] at hp
    exact (found_concat_of_lt hn).mpr (h.found n p hp)
  intro n p hp
  rcases hmove.calls_cases with ⟨hcalls, -⟩ | ⟨a, hcalls, -⟩ | ⟨a, hcalls, rfl, -⟩
  · rw [hcalls, List.append_nil] at hp ⊢
    exact h.found n p hp
  · rw [hcalls] at hp ⊢
    rcases Nat.lt_or_ge n (calls r.exchange.history).length with hn | hn
    · exact hold _ hn hp
    · -- the last call is a submission
      rw [List.getElem?_append_right hn] at hp
      have hmem := List.mem_of_getElem? hp
      simp at hmem
  · rw [hcalls] at hp ⊢
    rcases Nat.lt_or_ge n (calls r.exchange.history).length with hn | hn
    · exact hold _ hn hp
    · obtain rfl : n = (calls r.exchange.history).length := by
        have hlen := (List.getElem?_eq_some_iff.mp hp).1
        rw [List.length_append, List.length_singleton] at hlen
        omega
      have hmem : a ∈ r.outstanding := hout.symm.subset (List.mem_append_left _ (by simp))
      refine found_concat_length.mpr ⟨a.position, rfl, ?_⟩
      rw [← hprogress, isSome_mark?_iff]
      exact h.position_mem hmem

theorem counted_of_effect (h : Tracked resume r) (heffect : Effect r notes r') :
    r'.exchange.progress.unfinished.length +
      (completions (calls r'.exchange.history)).length = r'.announced.length := by
  obtain ⟨hfollows, ⟨gone, left, rest, hmove, hout, -⟩, -⟩ := heffect
  have hcounted := h.counted
  rw [announced, hfollows.history, submissions_append, calls_append, completions_append,
    List.length_append, List.length_append, ← announced, hfollows.progress, Note.submissions]
  rcases hmove.calls_cases with ⟨hcalls, -⟩ | ⟨a, hcalls, -⟩ | ⟨a, hcalls, rfl, -⟩
  · rw [hcalls]
    exact hcounted
  · rw [hcalls]
    show (r.exchange.progress.submit a.position).unfinished.length + (_ + 0) = _ + 1
    rw [unfinished_submit, List.length_append, List.length_singleton, ← hcounted]
    omega
  · have hmem := h.position_mem (hout.symm.subset (List.mem_append_left _ List.mem_cons_self))
    have hpos : 0 < r.exchange.progress.unfinished.length := List.length_pos_of_mem hmem
    rw [hcalls]
    show (r.exchange.progress.complete a.position).unfinished.length + (_ + 1) = _ + 0
    rw [unfinished_complete, List.length_erase_of_mem hmem, ← hcounted]
    omega

end Tracked

section Run

variable {resume : Option Position} {r₀ r : Relay} {as : List Action}
  (hinit : Initial resume r₀) (hrun : r₀.after as = some r)
include hinit hrun

theorem tracked_after : Tracked resume r := by
  refine after_induction (P := fun _ r => Tracked resume r) ?_ ?_ hrun
  · obtain ⟨terms, broker, capacity, hheld, -, rfl⟩ := hinit.eq
    refine ⟨?_, by simp, rfl, by simp⟩
    show (List.map Attempt.position ([] ++ broker.held)).Subperm []
    rw [hheld]
    exact .refl _
  · intro as r a r' hr h hact
    obtain ⟨notes, heffect⟩ := act_effect hact
    obtain ⟨lines, hlog, hlines⟩ := silent_act (fun a ha => h.position_mem ha) hact
    refine ⟨h.expected_of_effect heffect, h.found_of_effect heffect (progress_after hinit hr),
      h.counted_of_effect heffect, ?_⟩
    intro p hp
    rw [hlog] at hp
    rcases List.mem_append.mp hp with hp | hp
    · exact h.silent p hp
    · exact hlines p hp

/-- Whatever the order of outcomes, every completion finds an unfinished entry of its position, the
tracker never warns, and what is unfinished is what was submitted and not yet completed. -/
theorem completions_find_entries :
    r.exchange.progress = (Progress.resumed resume).replay (calls r.exchange.history) ∧
    (∀ n p, (calls r.exchange.history)[n]? = some (.complete p) →
      Progress.Found resume (calls r.exchange.history) n) ∧
    (∀ p, untrackedLine p ∉ r.exchange.log) ∧
    r.exchange.progress.pending.countP (!·.done) =
      r.announced.length - (completions (calls r.exchange.history)).length ∧
    (completions (calls r.exchange.history)).length ≤ r.announced.length ∧
    r.exchange.progress.completed = .ofNat (completions (calls r.exchange.history)).length := by
  have h := tracked_after hinit hrun
  have hprogress := progress_after hinit hrun
  have hcounted := h.counted
  rw [length_unfinished] at hcounted
  have hcompleted := completed_replay resume (calls r.exchange.history)
  rw [← hprogress] at hcompleted
  exact ⟨hprogress, h.found, h.silent, by omega, by omega, hcompleted⟩

end Run

/-- Two events at one position: the first is held, the second fails inline and its redirected record
is delivered, and the first one stays unfinished until its outcome is reported. -/
theorem completions_find_entries_of_shared :
    ∃ r s, (plain [.hold, .fail (.tooLarge "")]).after [.work, .push default .ok,
        .push default .ok, .work, .work, .work, .work] = some r ∧
      r.exchange.progress.pending.countP (!·.done) = 1 ∧
      r.act (.release 0 (.ok ⟨0, 1⟩)) = some s ∧
      s.exchange.progress.pending.countP (!·.done) = 0 ∧
      ∀ p, untrackedLine p ∉ s.exchange.log := by
  obtain ⟨r, s, hrun, hact, hlater, htwo, hone, htwo', hboth⟩ : ∃ r s,
      (plain [.hold, .fail (.tooLarge "")]).after [.work, .push default .ok,
        .push default .ok, .work, .work, .work, .work] = some r ∧
      r.act (.release 0 (.ok ⟨0, 1⟩)) = some s ∧
      (plain [.hold, .fail (.tooLarge "")]).after [.work, .push default .ok,
        .push default .ok, .work, .work, .work, .work, .release 0 (.ok ⟨0, 1⟩)] = some s ∧
      r.announced.length = 2 ∧ (completions (calls r.exchange.history)).length = 1 ∧
      s.announced.length = 2 ∧ (completions (calls s.exchange.history)).length = 2 :=
    ⟨_, _, rfl, rfl, rfl, rfl, rfl, rfl, rfl⟩
  obtain ⟨-, -, -, hbefore, -⟩ := completions_find_entries (initial_plain _) hrun
  obtain ⟨-, -, hsilent, hafter, -⟩ := completions_find_entries (initial_plain _) hlater
  rw [htwo, hone] at hbefore
  rw [htwo', hboth] at hafter
  exact ⟨r, s, hrun, hbefore, hact, hafter, hsilent⟩

end Relay

end ChangeRelay

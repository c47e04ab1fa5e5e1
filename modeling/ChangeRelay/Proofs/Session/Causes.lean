import ChangeRelay.Proofs.Run.Quiet
import ChangeRelay.Session.Basic
/-!
# Causes of alarm

The alarm of an exchange shows the first cause among the things that happened, and it stays the
first. As long as events can be pushed, no cause is that the queue is abandoned; and a worker that
closes the queue without having been asked to stop has told a cause before.
-/

namespace ChangeRelay

open Note

/-- The alarm is raised as soon as there is a cause, and it keeps the first one. -/
theorem Exchange.alarm_eq (x : Exchange) :
    x.alarm = ⟨(causes x.history).head?, !(causes x.history).isEmpty⟩ := by
  unfold Exchange.alarm
  generalize x.history = notes
  induction notes using List.reverseRecOn with
  | nil => rfl
  | append_singleton notes n ih =>
    rw [List.foldl_append, ih, causes_append]
    cases hcauses : causes notes with
    | nil => cases n <;> rfl
    | cons e causes => cases n <;> rfl

namespace Relay

/-- The causes of alarm so far, in order. -/
def causes (r : Relay) : List Error :=
  Note.causes r.exchange.history

variable {r r' : Relay} {a : Action} {e : Error}

/-- Causes are told one after the other, and none is forgotten. -/
theorem causes_prefix_of_act (h : r.act a = some r') : r.causes <+: r'.causes := by
  obtain ⟨notes, heffect⟩ := act_effect h
  rw [causes, causes, heffect.follows.history, causes_append]
  exact List.prefix_append _ _

/-! ## What is never a cause -/

/-- A record is not made for want of partitions only. -/
theorem ne_interrupted_of_take {c : Change} {rest : List Change}
    (h : (r.take c rest).phase = .failing e) : e ≠ .interrupted := by
  obtain ⟨built, -, htaken⟩ := r.exists_taken c rest
  generalize r.take c rest = s at htaken h
  cases htaken with
  | unmade message =>
    obtain rfl := Phase.failing.inj h
    simp
  | made count record turns => simp at h

theorem not_broken_of_passage {terms : Terms} {a : Attempt} {notes : List Note}
    {left : List Attempt} (h : Passage terms a notes left) (e : Error) : .broken e ∉ notes := by
  intro hbroken
  have hkind := h.kind_mem _ hbroken
  simp [kind] at hkind

/-- What an action has to do with failures of the worker. -/
inductive Telling (r r' : Relay) : Prop
  /-- The worker tells the failure that it stands before telling. -/
  | told (e : Error) (hphase : r.phase = .failing e) (hphase' : r'.phase = .leaving)
      (hhistory : r'.exchange.history = r.exchange.history ++ [.broken e])
  /-- No failure is told, and a new one is that the queue is abandoned only when it is. -/
  | kept {notes : List Note} (hhistory : r'.exchange.history = r.exchange.history ++ notes)
      (hnone : ∀ e, .broken e ∉ notes)
      (hfailing : ∀ e, r'.phase = .failing e →
        r.phase = .failing e ∨ e ≠ .interrupted ∨ r.hasPublisher = false)

/-- Whether events can be pushed and whether a stop is requested is said by nobody else. -/
structure Obeys (r : Relay) (a : Action) (r' : Relay) : Prop where
  hasPublisher : a ≠ .dropPublisher → r'.hasPublisher = r.hasPublisher
  asked : r'.lifecycle.stage = .stopRequested →
    r.lifecycle.stage = .stopRequested ∨ a = .requestStop

theorem obeys_of_eq (hpublisher : r'.hasPublisher = r.hasPublisher)
    (hlifecycle : r'.lifecycle = r.lifecycle) : Obeys r a r' where
  hasPublisher _ := hpublisher
  asked h := .inl (hlifecycle ▸ h)

theorem obeys_take (c : Change) (rest : List Change) : Obeys r .work (r.take c rest) := by
  refine obeys_of_eq ?_ (lifecycle_take r c rest)
  obtain ⟨x, -, ⟨e, htake, -⟩ | ⟨job, htake, -⟩⟩ := r.take_spec c rest <;> rw [htake]

theorem obeys_offer (job : Job) : Obeys r .work (r.offer job) := by
  refine obeys_of_eq ?_ (lifecycle_offer r job)
  obtain ⟨x, ⟨wake, hoffer, -⟩ | ⟨hoffer, -⟩⟩ := r.offer_spec job <;> rw [hoffer]

namespace Telling

theorem around {notes : List Note} (hphase : r'.phase = r.phase)
    (hhistory : r'.exchange.history = r.exchange.history ++ notes)
    (hnone : ∀ e, .broken e ∉ notes) : Telling r r' :=
  .kept hhistory hnone fun _ he => .inl (hphase ▸ he)

theorem of_take (c : Change) (rest : List Change) : Telling r (r.take c rest) := by
  have hfailing (e : Error) (he : (r.take c rest).phase = .failing e) :
      r.phase = .failing e ∨ e ≠ .interrupted ∨ r.hasPublisher = false :=
    .inr (.inl (ne_interrupted_of_take he))
  obtain ⟨x, -, ⟨e, htake, hfollows⟩ | ⟨job, htake, -, -, -, hfollows⟩⟩ := r.take_spec c rest
  · rw [htake] at hfailing ⊢
    exact .kept hfollows.history (by simp) hfailing
  · rw [htake] at hfailing ⊢
    exact .kept hfollows.history (by simp) hfailing

theorem of_offer (job : Job) : Telling r (r.offer job) := by
  obtain ⟨x, ⟨wake, hoffer, hfollows, -⟩ | ⟨hoffer, hcases⟩⟩ := r.offer_spec job
  · rw [hoffer]
    exact .kept hfollows.history (by simp) (by simp)
  · rw [hoffer]
    rcases hcases with ⟨-, -, hfollows, -⟩ | ⟨hfollows, -⟩ | ⟨notes, left, hpassage, hfollows, -⟩
    · exact .kept hfollows.history (by simp) (by simp)
    · exact .kept hfollows.history (by simp) (by simp)
    · exact .kept hfollows.history (not_broken_of_passage hpassage) (by simp)

theorem of_step (h : Step r r') : Telling r r' ∧ Obeys r .work r' := by
  have hsame : r.exchange.history = r.exchange.history ++ [] := (List.append_nil _).symm
  cases h with
  | started =>
    -- a worker that starts keeps a request that came before, and makes none
    refine ⟨.kept hsame (by simp) (by simp [logs]), fun _ => rfl, fun hasked => .inl ?_⟩
    have hstarted : r.lifecycle.stage.started = .stopRequested := hasked
    cases hstage : r.lifecycle.stage <;> simp [hstage, Stage.started] at hstarted ⊢
  | took c rest => exact ⟨of_take c rest, obeys_take c rest⟩
  | drained => exact ⟨.kept hsame (by simp) (by simp [logs]), obeys_of_eq rfl rfl⟩
  | deserted _ _ _ hpublisher =>
    exact ⟨.kept hsame (by simp) fun _ _ => .inr (.inr hpublisher), obeys_of_eq rfl rfl⟩
  | offered job => exact ⟨of_offer job, obeys_offer job⟩
  | resumed => exact ⟨.kept hsame (by simp) (by simp), obeys_of_eq rfl rfl⟩
  | failed cause _ _ hphase => exact ⟨.told cause hphase rfl rfl, obeys_of_eq rfl rfl⟩
  | left => exact ⟨.kept hsame (by simp) (by simp), obeys_of_eq rfl rfl⟩
  | closed => exact ⟨.kept hsame (by simp) (by simp), obeys_of_eq rfl rfl⟩
  | stopped => exact ⟨.kept hsame (by simp) (by simp), fun _ => rfl, by simp [Lifecycle.stop]⟩

theorem of_act (h : r.act a = some r') : Telling r r' ∧ Obeys r a r' := by
  have hsame : r.exchange.history = r.exchange.history ++ [] := (List.append_nil _).symm
  have hnone (e : Error) : Note.broken e ∉ [] := by simp
  cases Act.of_act h with
  | work hstep => exact of_step hstep
  | hangUp _ _ hpublisher =>
    exact ⟨.kept hsame hnone fun _ _ => .inr (.inr hpublisher), obeys_of_eq rfl rfl⟩
  | pushed => exact ⟨.around rfl hsame hnone, obeys_of_eq rfl rfl⟩
  | refused => exact ⟨.around rfl hsame hnone, obeys_of_eq rfl rfl⟩
  | requestStop => exact ⟨.around rfl hsame hnone, fun _ => rfl, fun _ => .inr rfl⟩
  | closeBroker => exact ⟨.around rfl hsame hnone, obeys_of_eq rfl rfl⟩
  | dropPublisher => exact ⟨.around rfl hsame hnone, fun hkept => absurd rfl hkept, .inl⟩
  | wait => exact ⟨.around rfl hsame hnone, obeys_of_eq rfl rfl⟩
  | behave => exact ⟨.around rfl hsame hnone, obeys_of_eq rfl rfl⟩
  | release index o x hx =>
    obtain ⟨b, notes, left, -, hpassage, hfollows, -⟩ := r.exchange.release_spec hx
    exact ⟨.around rfl hfollows.history (not_broken_of_passage hpassage), obeys_of_eq rfl rfl⟩

end Telling

/-- Events can be pushed, and the worker neither tells nor is about to tell that they cannot. -/
structure Sincere (r : Relay) : Prop where
  hasPublisher : r.hasPublisher = true
  failing : ∀ e, r.phase = .failing e → e ≠ .interrupted
  broken : ∀ e, .broken e ∈ r.exchange.history → e ≠ .interrupted

theorem Sincere.ne_interrupted (h : Sincere r) (he : e ∈ r.causes) : e ≠ .interrupted := by
  rcases mem_causes_iff.mp he with he | ⟨t, e', -, rfl⟩
  · exact h.broken e he
  · simp

theorem Sincere.act (hr : Sincere r) (h : r.act a = some r') (hkept : a ≠ .dropPublisher) :
    Sincere r' := by
  obtain ⟨htelling, hobeys⟩ := Telling.of_act h
  have hpublisher' := (hobeys.hasPublisher hkept).trans hr.hasPublisher
  cases htelling with
  | told e hphase hphase' hhistory =>
    refine ⟨hpublisher', by simp [hphase'], fun e' he' => ?_⟩
    rw [hhistory] at he'
    rcases List.mem_append.mp he' with he' | he'
    · exact hr.broken e' he'
    · obtain rfl : e' = e := by simpa using he'
      exact hr.failing e' hphase
  | kept hhistory hnone hfailing =>
    refine ⟨hpublisher', fun e he => ?_, fun e he => ?_⟩
    · rcases hfailing e he with he | he | hdropped
      · exact hr.failing e he
      · exact he
      · simp [hr.hasPublisher] at hdropped
    · rw [hhistory] at he
      exact hr.broken e ((List.mem_append.mp he).resolve_right (hnone e))

/-! ## Runs -/

section Run

variable {resume : Option Position} {r₀ : Relay} {as : List Action}
  (hinit : Initial resume r₀) (hrun : r₀.after as = some r)
include hinit hrun

theorem sincere_after (hkept : .dropPublisher ∉ as) : Sincere r := by
  refine after_induction (P := fun as r => .dropPublisher ∉ as → Sincere r) ?_ ?_ hrun hkept
  · obtain ⟨terms, broker, capacity, -, -, rfl⟩ := hinit.eq
    exact fun _ => ⟨rfl, by simp, by simp⟩
  · intro as r a r' _ hr hact hkept
    rw [List.mem_append, List.mem_singleton, not_or] at hkept
    exact (hr hkept.1).act hact (Ne.symm hkept.2)

/-- Nobody but the worker closes the queue. -/
theorem left_of_queueOpen (hclosed : r.queueOpen = false) : 0 < r.phase.left := by
  refine after_induction (P := fun _ r => r.queueOpen = false → 0 < r.phase.left) ?_ ?_ hrun hclosed
  · obtain ⟨terms, broker, capacity, -, -, rfl⟩ := hinit.eq
    simp
  · intro as r a r' _ hr hact hclosed
    cases Advance.of_act hact with
    | kept hleft hopen =>
      rw [hleft]
      exact hr (hopen.symm.trans hclosed)
    | passed _ hleft =>
      rw [hleft]
      exact Nat.succ_pos _

theorem requested_of_stage (hstage : r.lifecycle.stage = .stopRequested) : .requestStop ∈ as := by
  refine after_induction
    (P := fun as r => r.lifecycle.stage = .stopRequested → .requestStop ∈ as) ?_ ?_ hrun hstage
  · obtain ⟨terms, broker, capacity, -, -, rfl⟩ := hinit.eq
    simp
  · intro as r a r' _ hr hact hstage
    rcases (Telling.of_act hact).2.asked hstage with hbefore | rfl
    · exact List.mem_append_left _ (hr hbefore)
    · exact List.mem_append_right _ (List.mem_singleton.mpr rfl)

/-- A worker that has closed the queue without having been asked to stop has told a cause. -/
theorem causes_of_queueOpen (hclosed : r.queueOpen = false) (hunasked : .requestStop ∉ as) :
    r.causes ≠ [] := by
  have hleft := left_of_queueOpen hinit hrun hclosed
  cases standing_after hinit hrun with
  | atWork hwork =>
    exfalso
    cases hphase : r.phase <;> simp [atWork, hphase, Phase.left] at hwork hleft
  | failed e _ hfailure =>
    rcases hfailure with hphase | hbroken
    · simp [hphase, Phase.left] at hleft
    · exact List.ne_nil_of_mem (mem_causes_iff.mpr (.inl hbroken))
  | drained before after' s _ _ hsplit hbefore _ _ hstage =>
    have hasked := requested_of_stage hinit hbefore hstage
    exact absurd (hsplit ▸ List.mem_append_left _ hasked) hunasked

end Run

end Relay
end ChangeRelay

import ChangeRelay.Proofs.Session.Process
/-!
# A session is a run of the process

In a session the main task goes on as long as it can, the worker goes on only while the main task
waits, and nobody interrupts it. So a session is one of the runs of the process, unless a push waits
for good: that session ends like a run that the user interrupts there.
-/

namespace ChangeRelay
namespace Session

open Relay

namespace Process

/-- `p'` comes from `p` by some events. -/
def Reaches (p p' : Process) : Prop :=
  ∃ es, p.after es = some p'

namespace Reaches

variable {p q s : Process}

theorem refl (p : Process) : Reaches p p :=
  ⟨[], rfl⟩

theorem trans (h : Reaches p q) (h' : Reaches q s) : Reaches p s := by
  obtain ⟨es, hq⟩ := h
  obtain ⟨fs, hs⟩ := h'
  refine ⟨es ++ fs, ?_⟩
  rw [after_append, hq]
  exact hs

theorem of_act (e : Event) (h : p.act e = some q) : Reaches p q :=
  ⟨[e], by simp [after, h]⟩

end Reaches

/-- What the relay does on its own happens wherever the main task stands. -/
theorem drifts_reaches (source : Source) (station : Station) :
    Drifts fun r s => Reaches ⟨r, source, station⟩ ⟨s, source, station⟩ where
  refl _ := .refl _
  trans := .trans
  of_step {r s} h := by
    have hact : r.act .work = some s := h
    exact .of_act (.around .work) (by simp [act, isMain, hact])
  of_clock r {clock} h := by
    have hact : r.act (.wait (clock - r.clock)) = some { r with clock } := by
      rw [Relay.act, Nat.add_sub_cancel' h]
    exact .of_act (.around (.wait (clock - r.clock))) (by simp [act, isMain, hact])

variable {source : Source}

/-! ## Feeding -/

/-- Where a push leads the main task, with a push that waits for good as one that stands. -/
def standing (c : Change) : Pushed → Station
  | .ok => .reading
  | .blocked => .pushing c
  | .interrupted => .leaving (.error .interrupted)

theorem reaches_tryPush {r r' : Relay} {c : Change} {result : Pushed}
    (h : r.tryPush c = some (result, r')) :
    Reaches ⟨r, source, .pushing c⟩ ⟨r', source, standing c result⟩ := by
  cases result with
  | ok => exact .of_act .push (by simp [act, h, standing])
  | interrupted => exact .of_act .push (by simp [act, h, standing])
  | blocked =>
    have hact : r.act (.push c .blocked) = some r' := by
      rw [Relay.act, h]
      rfl
    cases Act.of_act hact

theorem reaches_push (patience : ℕ) (r : Relay) (c : Change) :
    Reaches ⟨r, source, .pushing c⟩
      ⟨(push patience r c).2, source, standing c (push patience r c).1⟩ := by
  induction patience generalizing r with
  | zero =>
    rw [push]
    cases hpush : r.tryPush c with
    | none => exact .refl _
    | some result => exact reaches_tryPush hpush
  | succ patience ih =>
    rw [push]
    split
    · next result _ hpush => exact reaches_tryPush hpush
    · next s _ hadvance => exact ((drifts_reaches _ _).advance hadvance).trans (ih s)
    · exact .refl _

/-- Whether what came of the reading is what the main task leaves with: it is, but for a push that
waits for good, which the user has to interrupt. -/
def Matches (outcome outcome' : Except Error Unit) : Prop :=
  outcome' = outcome ∨ outcome = .error .interrupted ∧ outcome' = .ok ()

theorem exists_pump (fuel : ℕ) (f : Feed) (hfuel : f.source.bytes.length < fuel) :
    ∃ outcome, Matches (pump fuel f).1 outcome ∧ Reaches ⟨f.relay, f.source, .reading⟩
      ⟨(pump fuel f).2.relay, (pump fuel f).2.source, .leaving outcome⟩ := by
  induction fuel generalizing f with
  | zero => omega
  | succ fuel ih =>
    rw [pump]
    split
    · next e source hnext => exact ⟨_, .inl rfl, .of_act .read (by simp [act, hnext])⟩
    · next source hnext => exact ⟨_, .inl rfl, .of_act .read (by simp [act, hnext])⟩
    · next c source hnext =>
      have hread : Reaches ⟨f.relay, f.source, .reading⟩ ⟨f.relay, source, .pushing c⟩ :=
        .of_act .read (by simp [act, hnext])
      have hpush := hread.trans (reaches_push Session.patience f.relay c)
      rcases hresult : push Session.patience f.relay c with ⟨result, relay⟩
      rw [hresult] at hpush
      cases result with
      | ok =>
        have hshorter := f.source.next_shorter
        rw [hnext] at hshorter
        have hlt : source.bytes.length < f.source.bytes.length := by simpa using hshorter
        obtain ⟨outcome, hmatches, hrest⟩ := ih ⟨relay, source⟩ (by simp only; omega)
        exact ⟨outcome, hmatches, hpush.trans hrest⟩
      | interrupted => exact ⟨_, .inl rfl, hpush⟩
      | blocked =>
        refine ⟨.ok (), .inr ⟨rfl, rfl⟩, hpush.trans (.of_act .signal ?_)⟩
        simp [act, standing, Station.isFeeding]

/-- What can be read of an input. -/
def content : Input → List UInt8
  | .bytes content => content
  | .unreadable _ => []

theorem exists_relayAll (r : Relay) (input : Input) (resume : Option Position) :
    ∃ outcome, Matches (relayAll r input resume).1 outcome ∧
      Reaches (start r (.start (content input) resume)) ⟨(relayAll r input resume).2.relay,
        (relayAll r input resume).2.source, .leaving outcome⟩ := by
  cases input with
  | bytes content =>
    exact exists_pump (content.length + 1) ⟨r, .start content resume⟩ (Nat.lt_succ_self _)
  | unreadable e => exact ⟨_, .inl rfl, .of_act (.readFails e) rfl⟩

/-! ## Stopping -/

theorem isStopped_of_awaitStop {r s : Relay} {limit : ℕ} (h : r.awaitStop limit = (.ok (), s)) :
    s.isStopped = true := by
  rw [awaitStop] at h
  split at h
  · next hstopped =>
    obtain ⟨-, rfl⟩ := Prod.mk.inj h
    exact hstopped
  · dsimp only at h
    split at h
    · next hstopped =>
      obtain ⟨-, rfl⟩ := Prod.mk.inj h
      exact hstopped
    · cases h

theorem reaches_stop (r : Relay) (closeMillis : ℕ) (outcome : Except Error Unit) :
    Reaches ⟨r, source, .leaving outcome⟩
      ⟨stop r closeMillis, source,
        .ended (verdict (stop r closeMillis).exchange.alarm outcome)⟩ := by
  have hrequest : Reaches ⟨r, source, .leaving outcome⟩ ⟨r.requestStop, source, .waiting outcome⟩ :=
    .of_act .requestStop rfl
  have hwait := hrequest.trans
    ((drifts_reaches source (.waiting outcome)).awaitStop r.requestStop (closeMillis + stopGrace))
  rw [stop]
  split
  · next s hstop =>
    rw [hstop] at hwait
    have hjudging : Reaches ⟨s, source, .waiting outcome⟩ ⟨s, source, .judging outcome⟩ :=
      .of_act .stopped (by simp [act, isStopped_of_awaitStop hstop])
    exact hwait.trans (hjudging.trans (.of_act .judge rfl))
  · next e s hstop =>
    rw [hstop] at hwait
    have hclosing : Reaches ⟨s, source, .waiting outcome⟩ ⟨s, source, .closing outcome⟩ :=
      .of_act .timeOut rfl
    have hjudging : Reaches ⟨s, source, .closing outcome⟩
        ⟨s.closeBroker, source, .judging outcome⟩ := .of_act .closeBroker rfl
    exact hwait.trans (hclosing.trans (hjudging.trans (.of_act .judge rfl)))

/-- A session is a run of the process to its end. Where a push waited for good, the session says
that it was refused, and the run is one that the user interrupted. -/
theorem exists_events_of_session (r : Relay) (input : Input) (resume : Option Position)
    (closeMillis : ℕ) :
    ∃ outcome es, Matches (relayAll r input resume).1 outcome ∧
      (start r (.start (content input) resume)).after es = some
        ⟨stop (relayAll r input resume).2.relay closeMillis, (relayAll r input resume).2.source,
          .ended (verdict (stop (relayAll r input resume).2.relay closeMillis).exchange.alarm
            outcome)⟩ := by
  obtain ⟨outcome, hmatches, hreaches⟩ := exists_relayAll r input resume
  obtain ⟨es, hes⟩ := hreaches.trans (reaches_stop _ closeMillis outcome)
  exact ⟨outcome, es, hmatches, hes⟩

end Process
end Session
end ChangeRelay

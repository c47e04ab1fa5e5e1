import ChangeRelay.Proofs.Run.Queue
import ChangeRelay.Proofs.Source.Reading
import ChangeRelay.Session.Basic
/-!
# A session is an interleaving

The reader and the worker of a session take turns in one fixed way. Whatever they do is a run of
actions, and the reader pushes changes in the order in which the source gives them, up to the first
line that is not a change. So what holds in every run holds in a session.
-/

namespace ChangeRelay
namespace Relay

/-- `r'` comes from `r` by actions that push `cs`. -/
def Leads (r : Relay) (cs : List Change) (r' : Relay) : Prop :=
  ∃ as, r.after as = some r' ∧ pushed as = cs

namespace Leads

variable {r s t : Relay} {cs ds : List Change}

theorem refl (r : Relay) : Leads r [] r :=
  ⟨[], rfl, rfl⟩

theorem trans (h : Leads r cs s) (h' : Leads s ds t) : Leads r (cs ++ ds) t := by
  obtain ⟨as, hs, rfl⟩ := h
  obtain ⟨bs, ht, rfl⟩ := h'
  refine ⟨as ++ bs, ?_, pushed_append as bs⟩
  rw [after_append, hs]
  exact ht

theorem of_act {a : Action} (h : r.act a = some s) : Leads r (pushed [a]) s := by
  refine ⟨[a], ?_, rfl⟩
  rw [after, h]
  rfl

theorem of_step (h : r.step = some s) : Leads r [] s :=
  of_act (a := .work) h

theorem of_clock (r : Relay) {clock : ℕ} (h : r.clock ≤ clock) : Leads r [] { r with clock } := by
  -- setting the clock ahead is waiting for the difference
  have hact : r.act (.wait (clock - r.clock)) = some { r with clock } := by
    rw [act, Nat.add_sub_cancel' h]
  exact of_act hact

theorem of_tryPush {c : Change} {result : Pushed} (h : r.tryPush c = some (result, s)) :
    Leads r (if result = .ok then [c] else []) s := by
  have hact : r.act (.push c result) = some s := by
    rw [act, h]
    exact if_pos rfl
  have hpushed : pushed [.push c result] = if result = .ok then [c] else [] := by
    cases result <;> rfl
  exact hpushed ▸ of_act hact

end Leads

/-! ## The worker on its own -/

/-- A relation that holds along the worker's steps and along time. -/
structure Drifts (R : Relay → Relay → Prop) : Prop where
  refl (r : Relay) : R r r
  trans {r s t : Relay} : R r s → R s t → R r t
  of_step {r s : Relay} : r.step = some s → R r s
  of_clock (r : Relay) {clock : ℕ} : r.clock ≤ clock → R r { r with clock }

theorem drifts_leads : Drifts fun r s => Leads r [] s where
  refl := .refl
  trans := .trans
  of_step := .of_step
  of_clock := .of_clock

namespace Drifts

variable {R : Relay → Relay → Prop} (hR : Drifts R)
include hR

theorem settleWithin (fuel : ℕ) (r : Relay) : R r (r.settleWithin fuel) := by
  induction fuel generalizing r with
  | zero => exact hR.refl r
  | succ fuel ih =>
    rw [Relay.settleWithin]
    cases hstep : r.step with
    | none => exact hR.refl r
    | some s => exact hR.trans (hR.of_step hstep) (ih s)

theorem runUntilWithin (finished : Relay → Bool) (deadline within : ℕ) (r : Relay) :
    R r (r.runUntilWithin finished deadline within) := by
  induction within generalizing r with
  | zero => exact hR.refl r
  | succ within ih =>
    have hsettle : R r r.settle := hR.settleWithin _ r
    rw [Relay.runUntilWithin]
    refine hR.trans hsettle ?_
    split
    · exact hR.refl _
    · split
      · next wake _ =>
        split
        · exact hR.trans (hR.of_clock _ (Nat.le_max_right _ _)) (ih _)
        · exact hR.of_clock _ (Nat.le_max_right _ _)
      · exact hR.of_clock _ (Nat.le_max_right _ _)

theorem awaitStop (r : Relay) (limit : ℕ) : R r (r.awaitStop limit).2 := by
  rw [Relay.awaitStop]
  split
  · exact hR.refl r
  · have hrun : R r (r.runUntil isStopped (r.clock + limit)) := hR.runUntilWithin _ _ _ r
    dsimp only
    split <;> exact hrun

theorem advance {r s : Relay} (h : Session.advance r = some s) : R r s := by
  rw [Session.advance] at h
  split at h
  · next hstep =>
    obtain rfl := Option.some.inj h
    exact hR.of_step hstep
  · exact hR.trans (hR.of_clock r (Nat.le_max_right _ _)) (hR.of_step h)
  · simp at h

end Drifts

end Relay

namespace Session

open Relay

/-! ## The reader and the worker in turn -/

theorem leads_push (patience : ℕ) (r : Relay) (c : Change) :
    Leads r (if (push patience r c).1 = .ok then [c] else []) (push patience r c).2 := by
  induction patience generalizing r with
  | zero =>
    rw [push]
    cases hpush : r.tryPush c with
    | none => exact .refl r
    | some result => exact .of_tryPush hpush
  | succ patience ih =>
    rw [push]
    split
    · next result _ hpush => exact .of_tryPush hpush
    · next s _ hadvance => exact (drifts_leads.advance hadvance).trans (ih s)
    · exact .refl r

/-- The reader pushes changes in the order of the source, and none behind a line that is not a
change. -/
theorem leads_pump (fuel : ℕ) (f : Feed) :
    ∃ cs, cs <+: f.source.readable ∧ Leads f.relay cs (pump fuel f).2.relay := by
  induction fuel generalizing f with
  | zero => exact ⟨[], List.nil_prefix, .refl _⟩
  | succ fuel ih =>
    rw [pump]
    split
    · exact ⟨[], List.nil_prefix, .refl _⟩
    · exact ⟨[], List.nil_prefix, .refl _⟩
    · next c source hnext =>
      -- the change that is read now is the first readable one, and the rest is what the rest gives
      have hreadable : f.source.readable = c :: source.readable := by
        rw [Source.readable, Source.results_eq, hnext]
        rfl
      have hleads := leads_push Session.patience f.relay c
      rw [hreadable]
      rcases hpush : push Session.patience f.relay c with ⟨result, relay⟩
      rw [hpush] at hleads
      cases result with
      | ok =>
        obtain ⟨cs, hcs, hrest⟩ := ih ⟨relay, source⟩
        exact ⟨c :: cs, List.cons_prefix_cons.mpr ⟨rfl, hcs⟩, hleads.trans hrest⟩
      -- a push that fails ends the feeding, and nothing was pushed by it
      | blocked => exact ⟨[], List.nil_prefix, hleads⟩
      | interrupted => exact ⟨[], List.nil_prefix, hleads⟩

theorem leads_stop (r : Relay) (closeMillis : ℕ) : Leads r [] (stop r closeMillis) := by
  have hrequest : Leads r [] r.requestStop := .of_act (a := .requestStop) rfl
  have hwait := hrequest.trans (drifts_leads.awaitStop r.requestStop (closeMillis + stopGrace))
  rw [stop]
  split
  · next s hstop =>
    rw [hstop] at hwait
    exact hwait
  · next e s hstop =>
    rw [hstop] at hwait
    exact hwait.trans (.of_act (a := .closeBroker) rfl)

/-- The relay at the end of a session comes from its start by some interleaving, in which changes
that its input gives are pushed in order. -/
theorem exists_actions_of_session (r : Relay) (content : List UInt8) (resume : Option Position)
    (closeMillis : ℕ) :
    ∃ as, r.after as =
        some (stop (relayAll r (.bytes content) resume).2.relay closeMillis) ∧
      pushed as <+: (Source.start content resume).readable := by
  obtain ⟨cs, hcs, hpump⟩ := leads_pump (content.length + 1) ⟨r, .start content resume⟩
  obtain ⟨as, has, hpushed⟩ := hpump.trans (leads_stop _ closeMillis)
  refine ⟨as, has, ?_⟩
  rw [hpushed, List.append_nil]
  exact hcs

end Session
end ChangeRelay

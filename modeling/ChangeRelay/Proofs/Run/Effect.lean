import ChangeRelay.Proofs.Run.Interleaving
import Mathlib.Data.List.Perm.Basic
/-!
# The effect of an action

Whatever an action is, it does little to the events that have been announced: it announces one,
it takes one from those that are outstanding and notes what became of it, or it leaves them alone.
An event is outstanding as long as the worker or the broker has an attempt of it.
-/

namespace ChangeRelay
namespace Relay

open Note Exchange

/-- The attempt that the worker has in hand. -/
def inHand (r : Relay) : List Attempt :=
  match r.phase with
  | .offering job => [job.attempt]
  | .pausing job _ => [job.attempt]
  | _ => []

/-- The attempts whose outcome is not known yet. -/
def outstanding (r : Relay) : List Attempt :=
  r.inHand ++ r.exchange.broker.held

/-! ## Taking and offering -/

/-- Taking an event from the queue announces it, unless its record cannot be made. -/
theorem take_spec (r : Relay) (c : Change) (rest : List Change) :
    ∃ x, x.broker.held = r.exchange.broker.held ∧
      ((∃ e, r.take c rest = { r with queue := rest, exchange := x, phase := .failing e } ∧
          r.exchange.Follows [] x) ∨
        ∃ job, r.take c rest =
            { r with
              queue := rest, exchange := x, lastPosition := some c.position,
              phase := .offering job } ∧
          job.attempt.ticket = r.exchange.ticket ∧ job.attempt.position = c.position ∧
          job.attempt.redirectTopic = r.exchange.terms.redirectTopic ∧
          r.exchange.Follows [.submitted job.attempt.ticket job.attempt.position] x) := by
  obtain ⟨built, -, htaken⟩ := r.exists_taken c rest
  generalize r.take c rest = s at htaken ⊢
  cases htaken with
  | unmade message => exact ⟨r.exchange.asks c, rfl, .inl ⟨_, rfl, (Follows.refl _).withBroker _⟩⟩
  | made count record turns =>
    let job : Job := ⟨record, r.exchange.terms.attempt r.exchange.ticket c⟩
    refine ⟨_, ?_, .inr ⟨job, rfl, rfl, rfl, rfl, ?_⟩⟩
    · rfl
    · exact ⟨rfl, rfl, rfl, (UInt64.add_zero _).symm, (UInt64.add_zero _).symm, rfl⟩

/-- What becomes of a record that is offered: it waits, it is given up, the broker holds it, or its
outcome is reported at once. -/
theorem offer_spec (r : Relay) (job : Job) :
    ∃ x,
      (∃ wake, r.offer job = { r with exchange := x, phase := .pausing job wake } ∧
        r.exchange.Follows [] x ∧ x.broker.held = r.exchange.broker.held) ∨
      r.offer job = { r with exchange := x, phase := .taking } ∧
        ((r.lifecycle.stage ≠ .running ∧
            (r.exchange.broker.offer job.record job.attempt).1 = .rejected .closed ∧
            r.exchange.Follows [.abandoned job.attempt.ticket job.attempt.position] x ∧
            x.broker.held = r.exchange.broker.held) ∨
          (r.exchange.Follows [] x ∧
            x.broker.held = r.exchange.broker.held ++ [job.attempt]) ∨
          ∃ notes left, Passage r.exchange.terms job.attempt notes left ∧
            r.exchange.Follows notes x ∧ x.broker.held = r.exchange.broker.held ++ left) := by
  have hheld := held_offer r.exchange.broker job.record job.attempt
  obtain ⟨reply, broker, hanswer, hoffered⟩ := r.exists_offered job
  rw [hanswer] at hheld ⊢
  set y : Exchange := { r.exchange with broker }
  have hfollows : r.exchange.Follows [] y := (Follows.refl _).withBroker _
  -- in the three replies that are final the broker holds what it held
  have hreport (o : Except DeliveryError Receipt) (hsame : broker.held = r.exchange.broker.held) :
      ∃ notes left, Passage r.exchange.terms job.attempt notes left ∧
        r.exchange.Follows notes (y.report job.attempt o) ∧
        (y.report job.attempt o).broker.held = r.exchange.broker.held ++ left := by
    obtain ⟨notes, left, hpassage, hnotes, hleft⟩ := y.report_spec job.attempt o
    exact ⟨notes, left, hpassage, hfollows.trans hnotes, by rw [hleft, ← hsame]⟩
  generalize r.offer job = s at hoffered ⊢
  cases hoffered with
  | held => exact ⟨y, .inr ⟨rfl, .inr (.inl ⟨hfollows, by simpa using hheld⟩)⟩⟩
  | failed e => exact ⟨_, .inr ⟨rfl, .inr (.inr (hreport (.error e) (by simpa using hheld)))⟩⟩
  | delivered receipt =>
    exact ⟨_, .inr ⟨rfl, .inr (.inr (hreport (.ok receipt) (by simpa using hheld)))⟩⟩
  | postponed e lines =>
    have hsame : broker.held = r.exchange.broker.held := by simpa using hheld
    exact ⟨_, .inl ⟨_, rfl, hfollows.withLog lines, hsame⟩⟩
  | abandoned hstage =>
    have hsame : broker.held = r.exchange.broker.held := by simpa using hheld
    refine ⟨_, .inr ⟨rfl, .inl ⟨hstage, rfl, ?_, hsame⟩⟩⟩
    exact (hfollows.withLog _).trans (follows_notes _ rfl (by simp [kind]))
  | refused e => exact ⟨_, .inr ⟨rfl, .inr (.inr (hreport (.error e) (by simpa using hheld)))⟩⟩

/-! ## Effects -/

/-- What an action does to the attempts: those that it takes away, what it notes of them, and those
that it leaves for them. -/
inductive Move (r : Relay) : List Attempt → List Note → List Attempt → Prop
  | quiet : Move r [] [] []
  | broken (e : Error) : Move r [] [.broken e] []
  | announced (a : Attempt) (hticket : a.ticket = r.exchange.ticket)
      (htopic : a.redirectTopic = r.exchange.terms.redirectTopic) :
    Move r [] [.submitted a.ticket a.position] [a]
  /-- A fresh attempt is given up because the broker is closed and the relay does not run. -/
  | abandoned (job : Job) (hphase : r.phase = .offering job)
      (hstage : r.lifecycle.stage ≠ .running)
      (hclosed : (r.exchange.broker.offer job.record job.attempt).1 = .rejected .closed) :
    Move r [job.attempt] [.abandoned job.attempt.ticket job.attempt.position] []
  | passed (a : Attempt) {notes : List Note} {left : List Attempt}
      (h : Passage r.exchange.terms a notes left) : Move r [a] notes left

/-- The effect of an action, with what it notes. -/
structure Effect (r : Relay) (notes : List Note) (r' : Relay) : Prop where
  follows : r.exchange.Follows notes r'.exchange
  moves : ∃ gone left rest, Move r gone notes left ∧ r.outstanding.Perm (gone ++ rest) ∧
    r'.outstanding.Perm (left ++ rest)
  hand : ∀ a ∈ r'.inHand, a ∈ r.inHand ∨ a.redirectTopic = r.exchange.terms.redirectTopic

theorem Effect.quiet {r r' : Relay} (hfollows : r.exchange.Follows [] r'.exchange)
    (hheld : r'.exchange.broker.held = r.exchange.broker.held) (hhand : r'.inHand = r.inHand) :
    Effect r [] r' where
  follows := hfollows
  moves := ⟨[], [], r.outstanding, .quiet, .refl _, by rw [outstanding, hheld, hhand]; rfl⟩
  hand a ha := .inl (hhand ▸ ha)

theorem take_effect {r : Relay} (hphase : r.phase = .taking) (c : Change) (rest : List Change) :
    ∃ notes, Effect r notes (r.take c rest) := by
  have hnone : r.inHand = [] := by rw [inHand, hphase]
  obtain ⟨x, hheld, ⟨e, htake, hfollows⟩ | ⟨job, htake, hticket, -, htopic, hfollows⟩⟩ :=
    r.take_spec c rest
  · exact ⟨[], .quiet (by rw [htake]; exact hfollows) (by rw [htake]; exact hheld)
      (by rw [htake, hnone]; rfl)⟩
  · refine ⟨_, by rw [htake]; exact hfollows, ?_, fun a ha => ?_⟩
    · refine ⟨[], [job.attempt], r.outstanding, .announced _ hticket htopic, .refl _, ?_⟩
      rw [htake, outstanding, outstanding, hheld, hnone]
      rfl
    · rw [htake] at ha
      exact .inr (by rw [List.mem_singleton.mp ha, htopic])

theorem offer_effect {r : Relay} {job : Job} (hphase : r.phase = .offering job) :
    ∃ notes, Effect r notes (r.offer job) := by
  have hhand : r.inHand = [job.attempt] := by rw [inHand, hphase]
  have hout : r.outstanding = job.attempt :: r.exchange.broker.held := by
    rw [outstanding, hhand]
    rfl
  obtain ⟨x, ⟨wake, hoffer, hfollows, hheld⟩ | ⟨hoffer, hcases⟩⟩ := r.offer_spec job
  · exact ⟨[], .quiet (by rw [hoffer]; exact hfollows) (by rw [hoffer]; exact hheld)
      (by rw [hoffer, hhand]; rfl)⟩
  · -- nothing stays in hand, so the attempt is with the broker or it is over
    have hempty : ∀ a ∈ (r.offer job).inHand,
        a ∈ r.inHand ∨ a.redirectTopic = r.exchange.terms.redirectTopic := by
      rw [hoffer]
      simp [inHand]
    have hafter : (r.offer job).outstanding = x.broker.held := by
      rw [hoffer]
      rfl
    rcases hcases with ⟨hstage, hclosed, hfollows, hheld⟩ | ⟨hfollows, hheld⟩ |
      ⟨notes, left, hpassage, hfollows, hheld⟩
    · refine ⟨_, by rw [hoffer]; exact hfollows, ?_, hempty⟩
      refine ⟨[job.attempt], [], _, .abandoned job hphase hstage hclosed, .of_eq hout, ?_⟩
      rw [hafter, hheld]
      rfl
    · -- the attempt only changes hands
      refine ⟨[], by rw [hoffer]; exact hfollows, ?_, hempty⟩
      refine ⟨[], [], r.outstanding, .quiet, .refl _, ?_⟩
      rw [hafter, hheld, hout]
      exact List.perm_append_singleton _ _
    · refine ⟨notes, by rw [hoffer]; exact hfollows, ?_, hempty⟩
      refine ⟨[job.attempt], left, _, .passed _ hpassage, .of_eq hout, ?_⟩
      rw [hafter, hheld]
      exact List.perm_append_comm

theorem step_effect {r r' : Relay} (h : Step r r') : ∃ notes, Effect r notes r' := by
  have hrefl := Follows.refl r.exchange
  cases h with
  | started lines _ hphase =>
    exact ⟨[], .quiet (hrefl.withLog lines) rfl (by rw [inHand, inHand, hphase]; rfl)⟩
  | took c rest hphase => exact take_effect hphase c rest
  | drained lines _ hphase =>
    exact ⟨[], .quiet (hrefl.withLog lines) rfl (by rw [inHand, inHand, hphase]; rfl)⟩
  | deserted hphase => exact ⟨[], .quiet hrefl rfl (by rw [inHand, inHand, hphase])⟩
  | offered job hphase => exact offer_effect hphase
  | resumed job wake hphase => exact ⟨[], .quiet hrefl rfl (by rw [inHand, inHand, hphase])⟩
  | failed cause lines _ hphase =>
    have hnone : r.inHand = [] := by rw [inHand, hphase]
    refine ⟨_, (hrefl.withLog lines).trans (follows_notes _ rfl (by simp [kind])), ?_,
      by simp [inHand]⟩
    refine ⟨[], [], r.outstanding, .broken cause, .refl _, ?_⟩
    rw [outstanding, outstanding, hnone]
    rfl
  | left hphase => exact ⟨[], .quiet hrefl rfl (by rw [inHand, inHand, hphase])⟩
  | closed hphase =>
    exact ⟨[], .quiet (hrefl.withBroker _) rfl (by rw [inHand, inHand, hphase])⟩
  | stopped lines _ hphase =>
    exact ⟨[], .quiet (hrefl.withLog lines) rfl (by rw [inHand, inHand, hphase])⟩

theorem release_effect {r : Relay} {index : ℕ} {o : Except DeliveryError Receipt} {x : Exchange}
    (h : r.exchange.release index o = some x) :
    ∃ notes, Effect r notes { r with exchange := x } := by
  obtain ⟨a, notes, left, ha, hpassage, hfollows, hheld⟩ := release_spec _ h
  refine ⟨notes, hfollows, ?_, fun b hb => .inl hb⟩
  -- the attempt leaves its place among those held, and what is left of it goes to the end
  refine ⟨[a], left, r.inHand ++ r.exchange.broker.held.eraseIdx index, .passed a hpassage, ?_, ?_⟩
  · obtain ⟨hlt, rfl⟩ := List.getElem?_eq_some_iff.mp ha
    have hheld := List.getElem_cons_eraseIdx_perm hlt
    exact (hheld.symm.append_left _).trans List.perm_middle
  · show (r.inHand ++ x.broker.held).Perm _
    rw [hheld, ← List.append_assoc]
    exact List.perm_append_comm

/-- Every action has an effect. -/
theorem act_effect {r r' : Relay} {a : Action} (h : r.act a = some r') :
    ∃ notes, Effect r notes r' := by
  have hrefl := Follows.refl r.exchange
  cases Act.of_act h with
  | work hstep => exact step_effect hstep
  | hangUp hphase => exact ⟨[], .quiet hrefl rfl (by rw [inHand, inHand, hphase])⟩
  | pushed => exact ⟨[], .quiet hrefl rfl rfl⟩
  | refused => exact ⟨[], .quiet hrefl rfl rfl⟩
  | requestStop => exact ⟨[], .quiet (hrefl.withLog _) rfl rfl⟩
  | closeBroker => exact ⟨[], .quiet (hrefl.withBroker _) rfl rfl⟩
  | dropPublisher => exact ⟨[], .quiet hrefl rfl rfl⟩
  | wait => exact ⟨[], .quiet hrefl rfl rfl⟩
  | behave => exact ⟨[], .quiet (hrefl.withBroker _) rfl rfl⟩
  | release index o x hx => exact release_effect hx

end Relay
end ChangeRelay

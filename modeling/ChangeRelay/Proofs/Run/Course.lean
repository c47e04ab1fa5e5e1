import ChangeRelay.Proofs.Run.Fate
import ChangeRelay.Proofs.Run.Service
/-!
# The course of an announced event

The fate of an event does not say which attempt it began with. In a run this is the attempt that was
made of the change itself, and a redirected attempt, if there is one, is that attempt again. So
whatever is noted of the event is about the row of its change.
-/

namespace ChangeRelay

namespace Relay

open Note Exchange

/-! ## The events of a run -/

/-- The event that is announced in a deed. -/
def Deed.served? : Deed → Option Change
  | .made c (.ok _) _ => some c
  | .made _ (.error _) _ => none
  | .offered .. => none

/-- The events that were announced in a run, in order. -/
def served (r : Relay) (as : List Action) : List Change :=
  (r.deeds as).filterMap Deed.served?

theorem served_concat {r₀ r r' : Relay} {as : List Action} {a : Action}
    (hrun : r₀.after as = some r) (hact : r.act a = some r') :
    r₀.served (as ++ [a]) = r₀.served as ++ ((r.deed? a r').bind Deed.served?).toList := by
  rw [served, served, deeds_concat hrun hact, List.filterMap_append]
  cases r.deed? a r' with
  | none => rfl
  | some deed => cases hserved : deed.served? <;> simp [hserved]

theorem filterMap_served?_deeds (s : Service) : s.deeds.filterMap Deed.served? = [s.change] := by
  unfold Service.deeds
  rw [List.filterMap_append, List.filterMap_cons, List.filterMap_map, List.filterMap_map]
  simp [Deed.served?, Function.comp_def]

theorem filterMap_served?_deedsOf (services : List Service) (failure : Option (Change × Error)) :
    (deedsOf services failure).filterMap Deed.served? = services.map Service.change := by
  have hfailure : (failure.toList.map fun f => Deed.made f.1 (.error f.2) []).filterMap
      Deed.served? = [] := by
    rw [List.filterMap_map]
    exact List.filterMap_eq_nil_iff.mpr fun f _ => rfl
  unfold deedsOf
  rw [List.filterMap_append, hfailure, List.append_nil, List.filterMap_flatMap]
  simp only [filterMap_served?_deeds]
  rw [List.map_eq_flatMap]

/-- An action announces an event, which the worker takes from the queue, or none. -/
theorem act_served_cases {r r' : Relay} {a : Action} (h : r.act a = some r') :
    (r.deed? a r').bind Deed.served? = none ∨
      ∃ c rest built, r.phase = .taking ∧ Taken r c rest (.ok built) r' ∧
        (r.deed? a r').bind Deed.served? = some c := by
  rcases act_deed_cases h with ⟨c, rest, rfl, hphase, hqueue, rfl⟩ |
    ⟨job, rfl, hphase, rfl⟩ | haside
  · obtain ⟨built, hbuilt, htaken⟩ := r.exists_taken c rest
    cases built with
    | error e =>
      simp only [deed?, hphase, hqueue, hbuilt]
      exact .inl rfl
    | ok built =>
      refine .inr ⟨c, rest, built, hphase, htaken, ?_⟩
      simp only [deed?, hphase, hqueue, hbuilt]
      rfl
  · simp only [deed?, hphase]
    exact .inl rfl
  · rw [haside.deed?]
    exact .inl rfl

section Run

variable {resume : Option Position} {r₀ r : Relay} {as : List Action}
  (hinit : Initial resume r₀) (hrun : r₀.after as = some r)
include hinit hrun

/-- As many events were announced as tickets were given out. -/
theorem length_served : (r₀.served as).length = r.exchange.ticket := by
  obtain ⟨services, failure, hserving⟩ := serving_after hinit hrun
  rw [served, hserving.deeds, filterMap_served?_deedsOf, ticket_after hinit hrun,
    hserving.announced, List.length_map, List.length_map]

/-- A new event begins its course when it is announced. -/
theorem course_of_taken (hphase : r.phase = .taking) {c : Change} {rest : List Change}
    {built : Record × Turns} {r' : Relay} (htaken : Taken r c rest (.ok built) r') :
    Course r.exchange.terms (r.exchange.terms.attempt r.exchange.ticket c)
      (story r.exchange.ticket r'.exchange.history)
      (r'.outstanding.filter (·.ticket = r.exchange.ticket)) := by
  have hfated := fated_after hinit hrun
  have hstory : story r.exchange.ticket
      (r.exchange.history ++ [.submitted r.exchange.ticket c.position]) =
        [.submitted r.exchange.ticket c.position] := by
    rw [story_append, (hfated.unseen _).mpr (Nat.le_refl _)]
    simp [story_cons, ticket?]
  -- what the broker holds belongs to events that were announced before
  have hnone : r.exchange.broker.held.filter (·.ticket = r.exchange.ticket) = [] := by
    have hout := hfated.outstanding_of_unseen (Nat.le_refl r.exchange.ticket)
    rwa [outstanding, inHand, hphase] at hout
  have hout : (r.exchange.terms.attempt r.exchange.ticket c :: r.exchange.broker.held).filter
      (·.ticket = r.exchange.ticket) = [r.exchange.terms.attempt r.exchange.ticket c] := by
    rw [List.filter_cons_of_pos (by simp [Terms.attempt]), hnone]
  cases htaken with
  | made count record turns =>
    show Course _ _ (story _ (r.exchange.history ++ [.submitted r.exchange.ticket c.position]))
      ((r.exchange.terms.attempt r.exchange.ticket c :: r.exchange.broker.held).filter _)
    rw [hstory, hout]
    exact .announced

/-- Every event that was announced takes its course. -/
theorem course_after {t : ℕ} {c : Change} (hc : (r₀.served as)[t]? = some c) :
    Course r.exchange.terms (r.exchange.terms.attempt t c) (story t r.exchange.history)
      (r.outstanding.filter (·.ticket = t)) := by
  refine after_induction (P := fun as r => ∀ t c, (r₀.served as)[t]? = some c →
    Course r.exchange.terms (r.exchange.terms.attempt t c) (story t r.exchange.history)
      (r.outstanding.filter (·.ticket = t))) (by simp [served]) ?_ hrun t c hc
  intro as r a r' hr ih hact t c hc
  rw [served_concat hr hact] at hc
  obtain ⟨notes, hfollows, ⟨gone, left, rest, hmove, hout, hout'⟩, -⟩ := act_effect hact
  rw [hfollows.terms]
  -- an event that was announced before goes on
  have hold (hc : (r₀.served as)[t]? = some c) : Course r.exchange.terms
      (r.exchange.terms.attempt t c) (story t r'.exchange.history)
      (r'.outstanding.filter (·.ticket = t)) := by
    rw [hfollows.history]
    exact (Course.move (fated_after hinit hr) rfl (ih t c hc) hmove hout).of_perm
      (hout'.symm.filter _)
  rcases act_served_cases hact with hnone | ⟨d, rest, built, hphase, htaken, hd⟩
  · rw [hnone, Option.toList_none, List.append_nil] at hc
    exact hold hc
  · rw [hd, Option.toList_some] at hc
    have hlength := length_served hinit hr
    rcases Nat.lt_or_ge t (r₀.served as).length with ht | ht
    · rw [List.getElem?_append_left ht] at hc
      exact hold hc
    · rw [List.getElem?_append_right ht, List.getElem?_singleton] at hc
      split at hc
      · obtain rfl : t = r.exchange.ticket := by omega
        obtain rfl := Option.some.inj hc
        exact course_of_taken hinit hr hphase htaken
      · simp at hc

end Run

end Relay
end ChangeRelay

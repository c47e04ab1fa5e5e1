import ChangeRelay.Proofs.Record.RedirectedValue
import ChangeRelay.Proofs.Run.Course
import ChangeRelay.Proofs.Run.Offers
/-!
# Redirected records

An event whose first failure is not fatal is redirected in one record, which bears the key of its
own record and tells the first failure. Nothing else is offered for it, whatever becomes of the
redirected record, and an alarm that is raised for it tells the second failure.

A record that the broker has no room for is offered again, and one that it refuses because it is
closed while the relay stops is given up: neither is a failure.
-/

namespace ChangeRelay

namespace Note

/-- The failure that a note tells of. -/
def failure? : Note → Option DeliveryError
  | .failed _ e => some e
  | _ => none

/-- The failures that notes tell of, in order. -/
def failures (notes : List Note) : List DeliveryError :=
  notes.filterMap failure?

@[simp] theorem failures_nil : failures [] = [] := rfl

@[simp] theorem failures_cons (n : Note) (notes : List Note) :
    failures (n :: notes) = n.failure?.toList ++ failures notes := by
  cases h : n.failure? <;> simp [failures, h]

theorem filter_redirections (t : ℕ) (notes : List Note) :
    (redirections notes).filter (·.ticket = t) = redirections (story t notes) := by
  induction notes with
  | nil => rfl
  | cons n notes ih =>
    rw [← List.singleton_append, redirections_append, story_append, redirections_append,
      List.filter_append, ih]
    congr 1
    cases n with
    | redirected u r => by_cases h : u = t <;> simp [offer?, story, ticket?, h]
    | broken e => rfl
    | _ u => by_cases h : u = t <;> simp [offer?, story, ticket?, h]

end Note

open Note

/-- How the failures of an ended event raise alarms: the last one does when it is fatal. -/
theorem Ending.tells {terms : Terms} {a : Attempt} {notes : List Note} (h : Ending terms a notes) :
    (failures notes).length ≤ 1 ∧ causes notes =
      ((failures notes).filter (·.severity terms.ignoreErrors = .fatal)).map .delivery := by
  cases h with
  | delivered => exact ⟨Nat.zero_le _, rfl⟩
  | fatal e hfatal => simp [failure?, cause?, hfatal]
  | tolerated e hmild => simp [failure?, cause?, hmild]

namespace Relay

/-! ## The course of a redirected event -/

/-- An event whose first failure is not fatal is redirected in one record of its row, which tells
that failure. It fails once more at most, and an alarm tells this failure. -/
theorem Course.redirected {terms : Terms} {t : ℕ} {c : Change} {notes : List Note}
    {left : List Attempt} (h : Course terms (terms.attempt t c) notes left) {topic : TopicPattern}
    (htopic : terms.redirectTopic = some topic) {e : DeliveryError} {more : List DeliveryError}
    (hfailures : failures notes = e :: more) (hmild : e.severity terms.ignoreErrors ≠ .fatal) :
    redirections notes = [⟨t, terms.plan.redirected topic c.row e.kind⟩] ∧ more.length ≤ 1 ∧
      causes notes = (more.filter (·.severity terms.ignoreErrors = .fatal)).map .delivery := by
  cases h with
  | announced => simp [failure?] at hfailures
  | abandoned => simp [failure?] at hfailures
  | passed h =>
    cases h with
    | ended h =>
      cases h with
      | delivered => simp [failure?] at hfailures
      | fatal e' hfatal =>
        obtain ⟨rfl, -⟩ : e' = e ∧ _ := by simpa [failure?] using hfailures
        exact absurd hfatal hmild
      | tolerated e' _ hnone =>
        have hnone : terms.redirectTopic = none := hnone
        simp [hnone] at htopic
    | redirected e' _ htopic' =>
      obtain rfl := Option.some.inj (htopic.symm.trans htopic')
      obtain ⟨rfl, rfl⟩ : e' = e ∧ more = [] := by
        simpa [failure?, eq_comm] using hfailures
      exact ⟨rfl, Nat.zero_le _, rfl⟩
    | @redirectedAndEnded _ e' _ htopic' notes h =>
      obtain rfl := Option.some.inj (htopic.symm.trans htopic')
      obtain ⟨rfl, rfl⟩ : e' = e ∧ failures notes = more := by
        simpa [failure?] using hfailures
      obtain ⟨hlength, hcauses⟩ := h.tells
      refine ⟨?_, hlength, hcauses⟩
      exact congrArg (_ :: ·) h.redirections_eq_nil

/-! ## The offers for one event -/

variable {r₀ r r' : Relay} {a : Action} {as : List Action}

/-- The worker offers the record that it has in hand. -/
theorem exists_job_of_mem_mainOffers {o : Offer} (h : o ∈ r.mainOffers a r') :
    ∃ job, r.phase = .offering job ∧ o = ⟨job.attempt.ticket, job.record⟩ := by
  rw [mainOffers, Option.mem_toList] at h
  obtain ⟨deed, hdeed, hoffer⟩ := Option.bind_eq_some_iff.mp h
  unfold deed? at hdeed
  split at hdeed
  · dsimp only at hdeed
    split at hdeed
    · split at hdeed
      · obtain rfl := Option.some.inj hdeed
        simp [Deed.offer?] at hoffer
      · simp at hdeed
    · next job hphase =>
      obtain rfl := Option.some.inj hdeed
      exact ⟨job, hphase, (Option.some.inj hoffer).symm⟩
    · simp at hdeed
  · simp at hdeed

/-- A record that is made bears the key of its row. -/
theorem key_of_deed? {c : Change} {record : Record} {notes : List Note}
    (h : r.deed? a r' = some (.made c (.ok record) notes)) :
    record.key = r.exchange.terms.plan.keyEncoding.key c.row := by
  unfold deed? at h
  split at h
  · dsimp only at h
    split at h
    · split at h
      · next d rest hqueue =>
        obtain ⟨rfl, hrecord, -⟩ := Deed.made.inj (Option.some.inj h)
        obtain ⟨built, hbuilt, htaken⟩ := r.exists_taken d rest
        rw [hbuilt] at hrecord
        generalize r.take d rest = s at htaken
        cases htaken with
        | unmade message => simp [Except.map] at hrecord
        | made count made turns hmade =>
          obtain rfl : made = record := Except.ok.inj hrecord
          obtain ⟨rfl, -⟩ := Prod.mk.inj hmade
          rfl
      · simp at h
    · simp at h
    · simp at h
  · simp at h

/-- An event has not been redirected when its own record is offered. -/
theorem redirections_of_offering (hr : Fated r) {job : Job} (hphase : r.phase = .offering job) :
    redirections (story job.attempt.ticket r.exchange.history) = [] := by
  have hhand : r.inHand = [job.attempt] := by rw [inHand, hphase]
  have hout : r.outstanding.Perm (job.attempt :: r.exchange.broker.held) := by
    rw [outstanding, hhand]
    exact .refl _
  rcases (hr.fate_of_outstanding hout).exists_course with ⟨-, hnone⟩ | ⟨a, -, hfresh, hcourse⟩
  · simp at hnone
  · obtain ⟨-, -, hstory⟩ := hcourse.eq_of_fresh hfresh (hr.hand _ (by simp [hhand]))
    rw [hstory]
    rfl

/-- The record that a service offers is offered for its event only. -/
theorem exists_service_of_offer {services : List Service} (hsound : Service.AllSound services)
    {failure : Option (Change × Error)} {o : Offer}
    (h : o ∈ (deedsOf services failure).filterMap Deed.offer?) :
    ∃ s, services[o.ticket]? = some s ∧ o.record = s.job.record := by
  obtain ⟨deed, hdeed, hoffer⟩ := List.mem_filterMap.mp h
  rcases List.mem_append.mp hdeed with hdeed | hdeed
  · obtain ⟨s, hs, hdeed⟩ := List.mem_flatMap.mp hdeed
    obtain ⟨i, hi⟩ := List.mem_iff_getElem?.mp hs
    have hrecord : o = ⟨s.job.attempt.ticket, s.job.record⟩ := by
      simp only [Service.deeds, List.mem_append, List.mem_cons, List.mem_map] at hdeed
      rcases hdeed with (rfl | ⟨e, -, rfl⟩) | ⟨answer, -, rfl⟩
      · simp [Deed.offer?] at hoffer
      · exact (Option.some.inj hoffer).symm
      · exact (Option.some.inj hoffer).symm
    refine ⟨s, ?_, by rw [hrecord]⟩
    rw [hrecord, (hsound i s hi).serves.ticket]
    exact hi
  · obtain ⟨f, -, rfl⟩ := List.mem_map.mp hdeed
    simp [Deed.offer?] at hoffer

/-- The record that was made of an event bears the key of its row. -/
theorem key_of_service (hrun : r₀.after as = some r) {services : List Service}
    {failure : Option (Change × Error)} (hdeeds : r₀.deeds as = deedsOf services failure)
    {s : Service} (hs : s ∈ services) :
    s.job.record.key = r.exchange.terms.plan.keyEncoding.key s.change.row := by
  have hmade : ∀ c record notes, .made c (.ok record) notes ∈ r₀.deeds as →
      record.key = r.exchange.terms.plan.keyEncoding.key c.row := by
    refine after_induction (P := fun as r => ∀ c record notes,
      .made c (.ok record) notes ∈ r₀.deeds as →
        record.key = r.exchange.terms.plan.keyEncoding.key c.row) (by simp) ?_ hrun
    intro as r a r' hr ih hact c record notes hmem
    obtain ⟨_, heffect⟩ := act_effect hact
    rw [heffect.follows.terms]
    rw [deeds_concat hr hact] at hmem
    rcases List.mem_append.mp hmem with hmem | hmem
    · exact ih c record notes hmem
    · exact key_of_deed? (Option.mem_toList.mp hmem)
  refine hmade _ _ [.submitted s.job.attempt.ticket s.job.attempt.position] ?_
  rw [hdeeds]
  exact List.mem_append_left _ (List.mem_flatMap.mpr ⟨s, hs, by simp [Service.deeds]⟩)

section Run

variable {resume : Option Position} (hinit : Initial resume r₀) (hrun : r₀.after as = some r)
include hinit hrun

/-- An event is offered in its own record first, and then redirected. -/
theorem offers_of_ticket (t : ℕ) : (r₀.offers as).filter (·.ticket = t) =
    ((r₀.deeds as).filterMap Deed.offer?).filter (·.ticket = t) ++
      redirections (story t r.exchange.history) := by
  refine after_induction (P := fun as r => (r₀.offers as).filter (·.ticket = t) =
    ((r₀.deeds as).filterMap Deed.offer?).filter (·.ticket = t) ++
      redirections (story t r.exchange.history)) ?_ ?_ hrun
  · obtain ⟨terms, broker, capacity, -, -, rfl⟩ := hinit.eq
    rfl
  · intro as r a r' hr ih hact
    obtain ⟨notes, heffect⟩ := act_effect hact
    have hhistory := heffect.follows.history
    have hdeeds : (r₀.deeds (as ++ [a])).filterMap Deed.offer? =
        (r₀.deeds as).filterMap Deed.offer? ++ r.mainOffers a r' := by
      rw [deeds_concat hr hact, List.filterMap_append, mainOffers]
      cases r.deed? a r' with
      | none => rfl
      | some deed => cases hoffer : deed.offer? <;> simp [hoffer]
    -- nothing has been redirected when the event's own record is offered
    have hswap : redirections (story t r.exchange.history) ++
        (r.mainOffers a r').filter (·.ticket = t) =
        (r.mainOffers a r').filter (·.ticket = t) ++
          redirections (story t r.exchange.history) := by
      rcases List.eq_nil_or_concat ((r.mainOffers a r').filter (·.ticket = t)) with
        hnone | ⟨_, o, hsome⟩
      · rw [hnone, List.append_nil, List.nil_append]
      · have ho : o ∈ (r.mainOffers a r').filter (·.ticket = t) := by simp [hsome]
        obtain ⟨hmain, hticket⟩ := List.mem_filter.mp ho
        obtain ⟨job, hphase, rfl⟩ := exists_job_of_mem_mainOffers hmain
        obtain rfl : job.attempt.ticket = t := by simpa using hticket
        rw [redirections_of_offering (fated_after hinit hr) hphase, List.append_nil,
        List.nil_append]
    rw [offers_concat hr hact, hdeeds, hhistory, offersIn, notesUntil_eq hhistory,
      List.filter_append, List.filter_append, List.filter_append, filter_redirections, ih,
      story_append, redirections_append]
    simp only [List.append_assoc]
    rw [← List.append_assoc (redirections _), hswap, List.append_assoc]

/-- An event whose first failure is not fatal is redirected in one record, at once and once only.
The record leaves its placement to the client, bears the key of the event's own record, goes to the
redirect topic of the event's row, and tells the first failure; nothing is offered for the event
after it. The event fails once more at most, and if that failure is fatal it is what an alarm tells.
-/
theorem redirected_once_for_first_failure {topic : TopicPattern}
    (htopic : r₀.exchange.terms.redirectTopic = some topic) :
    ∃ services failure,
      r₀.deeds as = deedsOf services failure ∧ Service.AllSound services ∧
      -- the offers are all that the broker counts, and what it takes is offered
      r.exchange.broker.attempts = r₀.exchange.broker.attempts + (r₀.offers as).length ∧
      (∃ taken, r.exchange.broker.sent = r₀.exchange.broker.sent ++ taken ∧
        taken.Sublist ((r₀.offers as).map Offer.record)) ∧
      ∀ t s, services[t]? = some s →
        ∀ e more, failures (story t r.exchange.history) = e :: more →
          e.severity r₀.exchange.terms.ignoreErrors ≠ .fatal →
          ∃ n record,
            ((r₀.offers as).filter (·.ticket = t)).map Offer.record =
              List.replicate n s.job.record ++ [record] ∧
            record.partition = none ∧ record.key = s.job.record.key ∧
            record.topic = topic.topic s.change.row ∧
            record.value = (redirectedDocument s.change.row e.kind s.change.row.cells).compact ∧
            (∀ v, Json.parse record.value.toList = .ok v →
              ∃ data, v = redirectedDocument s.change.row e.kind data) ∧
            more.length ≤ 1 ∧
            causes (story t r.exchange.history) =
              (more.filter (·.severity r₀.exchange.terms.ignoreErrors = .fatal)).map .delivery := by
  obtain ⟨services, failure, hserving⟩ := serving_after hinit hrun
  obtain ⟨hattempts, hsent⟩ := offered_after hrun
  refine ⟨services, failure, hserving.deeds, hserving.sound, hattempts, hsent,
    fun t s hs e more hfailures hmild => ?_⟩
  have hterms : r.exchange.terms = r₀.exchange.terms := (follows_after hinit hrun).terms
  have hserved : (r₀.served as)[t]? = some s.change := by
    rw [served, hserving.deeds, filterMap_served?_deedsOf, List.getElem?_map, hs, Option.map_some]
  have hcourse := course_after hinit hrun hserved
  rw [hterms] at hcourse
  obtain ⟨hredirections, hlength, hcauses⟩ := hcourse.redirected htopic hfailures hmild
  have hkey := key_of_service hrun hserving.deeds (List.mem_of_getElem? hs)
  rw [hterms] at hkey
  -- the offers that come before are those of the event's own record
  set own := ((r₀.deeds as).filterMap Deed.offer?).filter (·.ticket = t) with hown
  have hsame : own.map Offer.record = List.replicate own.length s.job.record := by
    refine List.eq_replicate_iff.mpr ⟨List.length_map _, fun record hrecord => ?_⟩
    obtain ⟨o, ho, rfl⟩ := List.mem_map.mp hrecord
    rw [hown, hserving.deeds] at ho
    obtain ⟨hmem, hticket⟩ := List.mem_filter.mp ho
    obtain ⟨s', hs', hrecord⟩ := exists_service_of_offer hserving.sound hmem
    rw [of_decide_eq_true hticket, hs] at hs'
    rw [hrecord, Option.some.inj hs']
  refine ⟨own.length, r₀.exchange.terms.plan.redirected topic s.change.row e.kind, ?_, rfl,
    hkey.symm,
    rfl, redirectedValue_eq _ _, fun v hv => ?_, hlength, hcauses⟩
  · rw [offers_of_ticket hinit hrun, hredirections, List.map_append, ← hown, hsame]
    rfl
  · have hread := toOption_parse_redirectedValue s.change.row e.kind
    have hv : Json.parse (redirectedValue s.change.row e.kind).toList = .ok v := hv
    rw [hv] at hread
    obtain ⟨data, -, hdata⟩ := Option.map_eq_some_iff.mp hread.symm
    exact ⟨data, hdata.symm⟩

end Run

/-- An event that is too large for its topic and that the broker refuses again: the alarm tells the
second failure, and the redirected record the first. -/
theorem redirected_once_of_two_failures :
    ∃ (r : Relay) (s : Service) (n : ℕ) (record : Record),
      (plain [.fail (.tooLarge ""), .fail (.broker "Down" "")]).after
        [.work, .push default .ok, .work, .work] = some r ∧ s.change = default ∧
      (((plain [.fail (.tooLarge ""), .fail (.broker "Down" "")]).offers
        [.work, .push default .ok, .work, .work]).filter (·.ticket = 0)).map Offer.record =
          List.replicate n s.job.record ++ [record] ∧
      record.partition = none ∧ record.key = s.job.record.key ∧
      record.value = (redirectedDocument default "RecordTooLarge" []).compact ∧
      causes (story 0 r.exchange.history) = [.delivery (.broker "Down" "")] := by
  obtain ⟨r, hrun, hfailures⟩ : ∃ r, (plain [.fail (.tooLarge ""), .fail (.broker "Down" "")]).after
      [.work, .push default .ok, .work, .work] = some r ∧
      failures (story 0 r.exchange.history) = [.tooLarge "", .broker "Down" ""] := ⟨_, rfl, rfl⟩
  obtain ⟨services, failure, hdeeds, -, -, -, hall⟩ :=
    redirected_once_for_first_failure (initial_plain _) hrun rfl
  have hserved : services.map Service.change = [default] := by
    rw [← filterMap_served?_deedsOf services failure, ← hdeeds]
    rfl
  obtain ⟨s, rfl, hs⟩ : ∃ s, services = [s] ∧ s.change = default := by
    cases services with
    | nil => simp at hserved
    | cons s services => simp_all
  obtain ⟨n, record, hoffers, hpartition, hkey, -, hvalue, -, -, hcauses⟩ :=
    hall 0 s rfl _ _ hfailures (by decide)
  rw [hs] at hvalue
  exact ⟨r, s, n, record, hrun, hs, hoffers, hpartition, hkey, hvalue, hcauses⟩

end Relay
end ChangeRelay

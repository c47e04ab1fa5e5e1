import ChangeRelay.Proofs.Run.Service
/-!
# What the broker is offered

In a run the broker is offered the records that the worker has in hand, some of them again and
again, and redirected records. `Offering` keeps the account of one step, with the broker's own count
of the offers and the records that it took, and `offers` lists them over a run.
-/

namespace ChangeRelay

/-- A record that is offered for an event. -/
structure Offer where
  ticket : ℕ
  record : Record

namespace Note

/-- The offer that a note tells of. -/
def offer? : Note → Option Offer
  | .redirected t r => some ⟨t, r⟩
  | _ => none

/-- The redirected records that notes tell of. -/
def redirections (notes : List Note) : List Offer :=
  notes.filterMap offer?

@[simp] theorem redirections_nil : redirections [] = [] := rfl

@[simp] theorem redirections_cons (n : Note) (notes : List Note) :
    redirections (n :: notes) = n.offer?.toList ++ redirections notes := by
  cases h : n.offer? <;> simp [redirections, h]

@[simp] theorem redirections_append (a b : List Note) :
    redirections (a ++ b) = redirections a ++ redirections b :=
  List.filterMap_append

theorem redirections_eq_nil {ks : List NoteKind} {notes : List Note} (h : ∀ n ∈ notes, n.kind ∈ ks)
    (hk : .redirected ∉ ks) : redirections notes = [] := by
  refine List.filterMap_eq_nil_iff.mpr fun n hn => ?_
  have hkind := h n hn
  cases n with
  | redirected => exact absurd hkind hk
  | _ => rfl

end Note

open Note

theorem Ending.redirections_eq_nil {terms : Terms} {a : Attempt} {notes : List Note}
    (h : Ending terms a notes) : redirections notes = [] :=
  Note.redirections_eq_nil h.kind_mem (by decide)

/-! ## One step of an exchange -/

namespace Exchange

/-- `y` comes from `x` by offering the records of `main`, of which nothing is noted, and then those
of `redirected`. The broker counts them all, and it takes some. -/
structure Offering (x : Exchange) (main redirected : List Offer) (y : Exchange) : Prop where
  noted : redirections y.history = redirections x.history ++ redirected
  attempts : y.broker.attempts = x.broker.attempts + (main ++ redirected).length
  sent : ∃ taken, y.broker.sent = x.broker.sent ++ taken ∧
    taken.Sublist ((main ++ redirected).map Offer.record)

namespace Offering

variable {x y z : Exchange} {main redirected : List Offer}

/-- Nothing is offered in a step that leaves the broker's count and what it took. -/
theorem none {notes : List Note} (hhistory : y.history = x.history ++ notes)
    (hnone : redirections notes = []) (hattempts : y.broker.attempts = x.broker.attempts)
    (hsent : y.broker.sent = x.broker.sent) : Offering x [] [] y where
  noted := by rw [hhistory, redirections_append, hnone]
  attempts := hattempts
  sent := ⟨[], by rw [hsent, List.append_nil], List.Sublist.refl _⟩

/-- What is offered by the worker comes before what is redirected. -/
theorem trans (h : Offering x main [] y) (h' : Offering y [] redirected z) :
    Offering x main redirected z where
  noted := by rw [h'.noted, h.noted, List.append_nil]
  attempts := by
    rw [h'.attempts, h.attempts]
    simp [Nat.add_assoc]
  sent := by
    obtain ⟨taken, hy, htaken⟩ := h.sent
    obtain ⟨taken', hz, htaken'⟩ := h'.sent
    refine ⟨taken ++ taken', by rw [hz, hy, List.append_assoc], ?_⟩
    rw [List.map_append]
    rw [List.append_nil] at htaken
    exact htaken.append htaken'

end Offering

end Exchange

theorem Broker.attempts_offer (b : Broker) (r : Record) (a : Attempt) :
    (b.offer r a).2.attempts = b.attempts + 1 := by
  unfold offer
  simp only
  split
  · rfl
  · split
    · rfl
    · split <;> rfl

/-- The broker takes a record that it is offered, or it does not. -/
theorem Broker.sublist_of_offer (b : Broker) (r : Record) (a : Attempt) :
    ∃ taken, (b.offer r a).2.sent = b.sent ++ taken ∧ taken.Sublist [r] := by
  refine ⟨_, b.sent_offer r a, ?_⟩
  split
  · exact List.Sublist.refl _
  · exact List.nil_sublist _

namespace Exchange

variable (x : Exchange) (a : Attempt)

theorem offering_redirect (topic : TopicPattern) (e : DeliveryError) :
    x.Offering [] [⟨a.ticket, x.terms.plan.redirected topic a.row e.kind⟩]
      (x.redirect a topic e) := by
  obtain ⟨notes, left, hcase, hfollows, -⟩ := x.redirect_spec a topic e
  have hnotes : redirections notes = [] := by
    rcases hcase with ⟨-, rfl⟩ | ⟨-, hend⟩
    · rfl
    · exact hend.redirections_eq_nil
  refine ⟨?_, ?_, ?_⟩
  · rw [hfollows.history, redirections_append]
    exact congrArg (redirections x.history ++ ·) (congrArg (_ :: ·) hnotes)
  · rw [broker_redirect]
    exact x.broker.attempts_offer _ a.again
  · rw [broker_redirect]
    exact x.broker.sublist_of_offer _ a.again

theorem offering_failFinally (e : DeliveryError)
    (h : e.severity x.terms.ignoreErrors = .fatal ∨ a.redirectTopic = none) :
    x.Offering [] [] (x.failFinally a e) := by
  obtain ⟨notes, hend, hfollows⟩ := x.failFinally_spec a e h
  refine .none hfollows.history hend.redirections_eq_nil ?_ ?_ <;> rw [broker_failFinally]

/-- Whatever outcome is reported, nothing is offered but the redirected record. -/
theorem offering_report (o : Except DeliveryError Receipt) :
    ∃ redirected, x.Offering [] redirected (x.report a o) := by
  cases o with
  | ok receipt => exact ⟨[], .none (x.follows_succeed a receipt).history rfl rfl rfl⟩
  | error e =>
    rw [report]
    rcases x.fail_cases a e with ⟨hfinal, hfail⟩ | ⟨topic, -, -, hfail⟩
    · rw [hfail]
      exact ⟨[], x.offering_failFinally a e hfinal⟩
    · have hfailed : x.Offering [] [] (x.noteFailure a e) :=
        .none (x.follows_noteFailure a e).history rfl rfl rfl
      rw [hfail]
      exact ⟨_, hfailed.trans ((x.noteFailure a e).offering_redirect a topic e)⟩

theorem offering_release {y : Exchange} {index : ℕ} {o : Except DeliveryError Receipt}
    (h : x.release index o = some y) : ∃ redirected, x.Offering [] redirected y := by
  rw [release] at h
  obtain ⟨a, -, hy⟩ := Option.bind_eq_some_iff.mp h
  obtain rfl := Option.some.inj hy
  set z : Exchange := { x with broker := { x.broker with held := x.broker.held.eraseIdx index } }
  obtain ⟨redirected, hreport⟩ := z.offering_report a o
  have hsame : x.Offering [] [] z := .none (List.append_nil _).symm rfl rfl rfl
  exact ⟨redirected, hsame.trans hreport⟩

/-- A record is offered, and what the broker says at once is dealt with afterwards. -/
theorem offering_offer (job : Job) :
    x.Offering [⟨job.attempt.ticket, job.record⟩] []
      { x with broker := (x.broker.offer job.record job.attempt).2 } where
  noted := (List.append_nil _).symm
  attempts := x.broker.attempts_offer job.record job.attempt
  sent := x.broker.sublist_of_offer job.record job.attempt

end Exchange

/-! ## One action -/

namespace Relay

open Exchange

/-- The record that is offered in a deed. -/
def Deed.offer? : Deed → Option Offer
  | .made .. => none
  | .offered job _ _ => some ⟨job.attempt.ticket, job.record⟩

/-- What the worker offers in an action that leads from `r` to `r'`. -/
def mainOffers (r : Relay) (a : Action) (r' : Relay) : List Offer :=
  ((r.deed? a r').bind Deed.offer?).toList

/-- What the broker is offered in an action that leads from `r` to `r'`. -/
def offersIn (r : Relay) (a : Action) (r' : Relay) : List Offer :=
  r.mainOffers a r' ++ redirections (r.notesUntil r')

variable {r r' : Relay} {a : Action}

theorem mainOffers_eq_nil (h : r.deed? a r' = none) : r.mainOffers a r' = [] := by
  rw [mainOffers, h]
  rfl

theorem offering_take (c : Change) (rest : List Change) :
    r.exchange.Offering [] [] (r.take c rest).exchange := by
  obtain ⟨built, -, htaken⟩ := r.exists_taken c rest
  generalize r.take c rest = s at htaken ⊢
  cases htaken with
  | unmade message => exact .none (List.append_nil _).symm rfl rfl rfl
  | made count record turns => exact .none rfl rfl rfl rfl

theorem exists_offering_offer (job : Job) :
    ∃ redirected, r.exchange.Offering [⟨job.attempt.ticket, job.record⟩] redirected
      (r.offer job).exchange := by
  have hoffer := r.exchange.offering_offer job
  obtain ⟨reply, broker, hanswer, hoffered⟩ := r.exists_offered job
  rw [hanswer] at hoffer
  set y : Exchange := { r.exchange with broker }
  have hnothing {z : Exchange} {notes : List Note} (hhistory : z.history = y.history ++ notes)
      (hnone : redirections notes = []) (hbroker : z.broker = y.broker) :
      ∃ redirected, r.exchange.Offering [⟨job.attempt.ticket, job.record⟩] redirected z :=
    ⟨[], hoffer.trans (.none hhistory hnone (by rw [hbroker]) (by rw [hbroker]))⟩
  have hreport (o : Except DeliveryError Receipt) : ∃ redirected,
      r.exchange.Offering [⟨job.attempt.ticket, job.record⟩] redirected
        (y.report job.attempt o) := by
    obtain ⟨redirected, hreport⟩ := y.offering_report job.attempt o
    exact ⟨redirected, hoffer.trans hreport⟩
  generalize r.offer job = s at hoffered ⊢
  cases hoffered with
  | held => exact hnothing (List.append_nil _).symm rfl rfl
  | failed e => exact hreport (.error e)
  | delivered receipt => exact hreport (.ok receipt)
  | postponed => exact hnothing (List.append_nil _).symm rfl rfl
  | abandoned => exact hnothing rfl rfl rfl
  | refused e => exact hreport (.error e)

theorem exists_offering_of_step (h : Step r r') : ∃ redirected,
    r.exchange.Offering (r.mainOffers .work r') redirected r'.exchange := by
  have hnothing {s : Relay} (hdeed : r.deed? .work s = none) {notes : List Note}
      (hhistory : s.exchange.history = r.exchange.history ++ notes)
      (hnone : redirections notes = []) (hattempts : s.exchange.broker.attempts =
        r.exchange.broker.attempts) (hsent : s.exchange.broker.sent = r.exchange.broker.sent) :
      ∃ redirected, r.exchange.Offering (r.mainOffers .work s) redirected s.exchange := by
    rw [mainOffers_eq_nil hdeed]
    exact ⟨[], .none hhistory hnone hattempts hsent⟩
  have hsame : r.exchange.history = r.exchange.history ++ [] := (List.append_nil _).symm
  cases h with
  | started _ _ hphase => exact hnothing (by simp only [deed?, hphase]) hsame rfl rfl rfl
  | took c rest hphase hqueue =>
    have hmain : r.mainOffers .work (r.take c rest) = [] := by
      simp only [mainOffers, deed?, hphase, hqueue]
      rfl
    rw [hmain]
    exact ⟨[], offering_take c rest⟩
  | drained _ _ hphase hqueue =>
    exact hnothing (by simp only [deed?, hphase, hqueue]) hsame rfl rfl rfl
  | deserted hphase hqueue =>
    exact hnothing (by simp only [deed?, hphase, hqueue]) hsame rfl rfl rfl
  | offered job hphase =>
    have hmain : r.mainOffers .work (r.offer job) = [⟨job.attempt.ticket, job.record⟩] := by
      simp only [mainOffers, deed?, hphase]
      rfl
    rw [hmain]
    exact exists_offering_offer job
  | resumed _ _ hphase => exact hnothing (by simp only [deed?, hphase]) hsame rfl rfl rfl
  | failed _ _ _ hphase => exact hnothing (by simp only [deed?, hphase]) rfl rfl rfl rfl
  | left hphase => exact hnothing (by simp only [deed?, hphase]) hsame rfl rfl rfl
  | closed hphase => exact hnothing (by simp only [deed?, hphase]) hsame rfl rfl rfl
  | stopped _ _ hphase => exact hnothing (by simp only [deed?, hphase]) hsame rfl rfl rfl

theorem exists_offering_of_act (h : r.act a = some r') : ∃ redirected,
    r.exchange.Offering (r.mainOffers a r') redirected r'.exchange := by
  have hsame {x : Exchange} (hhistory : x.history = r.exchange.history)
      (hattempts : x.broker.attempts = r.exchange.broker.attempts)
      (hsent : x.broker.sent = r.exchange.broker.sent) :
      ∃ redirected, r.exchange.Offering [] redirected x :=
    ⟨[], .none (hhistory.trans (List.append_nil _).symm) rfl hattempts hsent⟩
  cases Act.of_act h with
  | work hstep => exact exists_offering_of_step hstep
  | hangUp => exact hsame rfl rfl rfl
  | pushed => exact hsame rfl rfl rfl
  | refused => exact hsame rfl rfl rfl
  | requestStop => exact hsame rfl rfl rfl
  | closeBroker => exact hsame rfl rfl rfl
  | dropPublisher => exact hsame rfl rfl rfl
  | wait => exact hsame rfl rfl rfl
  | behave => exact hsame rfl rfl rfl
  | release index o x hx => exact offering_release _ hx

/-- The broker counts the offers of an action and takes some of them. -/
theorem offered_of_act (h : r.act a = some r') :
    r'.exchange.broker.attempts = r.exchange.broker.attempts + (r.offersIn a r').length ∧
      ∃ taken, r'.exchange.broker.sent = r.exchange.broker.sent ++ taken ∧
        taken.Sublist ((r.offersIn a r').map Offer.record) := by
  obtain ⟨redirected, hoffering⟩ := exists_offering_of_act h
  obtain ⟨notes, heffect⟩ := act_effect h
  have hnoted := hoffering.noted
  rw [heffect.follows.history, redirections_append] at hnoted
  obtain rfl := List.append_cancel_left hnoted
  rw [offersIn, notesUntil_eq heffect.follows.history]
  exact ⟨hoffering.attempts, hoffering.sent⟩

/-! ## Runs -/

/-- What the broker is offered in a run, in order. -/
def offers (r : Relay) : List Action → List Offer
  | [] => []
  | a :: rest =>
    match r.act a with
    | some r' => r.offersIn a r' ++ r'.offers rest
    | none => []

@[simp] theorem offers_nil (r : Relay) : r.offers [] = [] := rfl

theorem offers_concat {r₀ : Relay} {as : List Action} (hrun : r₀.after as = some r)
    (hact : r.act a = some r') : r₀.offers (as ++ [a]) = r₀.offers as ++ r.offersIn a r' := by
  induction as generalizing r₀ with
  | nil =>
    obtain rfl := Option.some.inj hrun
    simp [offers, hact]
  | cons b as ih =>
    rw [after] at hrun
    obtain ⟨s, hs, hrest⟩ := Option.bind_eq_some_iff.mp hrun
    rw [List.cons_append, offers, offers, hs]
    simp only
    rw [ih hrest, List.append_assoc]

/-- The offers of a run are all that the broker counts, and it takes some of them in their order. -/
theorem offered_after {r₀ : Relay} {as : List Action} (hrun : r₀.after as = some r) :
    r.exchange.broker.attempts = r₀.exchange.broker.attempts + (r₀.offers as).length ∧
      ∃ taken, r.exchange.broker.sent = r₀.exchange.broker.sent ++ taken ∧
        taken.Sublist ((r₀.offers as).map Offer.record) := by
  refine after_induction (P := fun as r =>
    r.exchange.broker.attempts = r₀.exchange.broker.attempts + (r₀.offers as).length ∧
      ∃ taken, r.exchange.broker.sent = r₀.exchange.broker.sent ++ taken ∧
        taken.Sublist ((r₀.offers as).map Offer.record))
    ⟨rfl, [], (List.append_nil _).symm, .refl _⟩ ?_ hrun
  rintro as r a r' hr ⟨hattempts, taken, hsent, htaken⟩ hact
  obtain ⟨hattempts', taken', hsent', htaken'⟩ := offered_of_act hact
  rw [offers_concat hr hact]
  refine ⟨?_, taken ++ taken', ?_, ?_⟩
  · rw [hattempts', hattempts, List.length_append, Nat.add_assoc]
  · rw [hsent', hsent, List.append_assoc]
  · rw [List.map_append]
    exact htaken.append htaken'

end Relay
end ChangeRelay

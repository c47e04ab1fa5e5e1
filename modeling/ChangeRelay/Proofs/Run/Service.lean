import ChangeRelay.Proofs.Run.Deed
/-!
# Services

The deeds of the worker in a run fall into services: for one event after the other, in the order of
the queue, it makes a record once, announces the event once, and offers this one record until
something comes of it. Only the last service can be without an answer, and a record that cannot be
made ends them all. What the broker remembers of a run can be read off its services.
-/

namespace ChangeRelay

open Relay

/-- What the worker does for one event that it announces. -/
structure Service where
  change : Change
  job : Job
  /-- Why the broker had no room for the record, once for every time it was offered in vain. -/
  refusals : List DeliveryError := []
  /-- The reply that ended the offers, with what was noted then. -/
  answer : Option (Reply × List Note) := none

namespace Service

/-- The deeds of a service: the record is made and the event is announced, and then the record is
offered again and again. -/
def deeds (s : Service) : List Deed :=
  .made s.change (.ok s.job.record) [.submitted s.job.attempt.ticket s.job.attempt.position] ::
    (s.refusals.map fun e => .offered s.job (.rejected e) []) ++
    s.answer.toList.map fun (reply, notes) => .offered s.job reply notes

/-- The service of the `ticket`-th event. -/
structure Sound (s : Service) (ticket : ℕ) : Prop where
  serves : s.job.Serves ticket s.change
  full : ∀ e ∈ s.refusals, e.isQueueFull = true
  resolved : ∀ reply notes, s.answer = some (reply, notes) → s.job.Resolved reply notes

/-- The record of the event, if the broker has taken it. -/
def accepted? (s : Service) : Option Record :=
  s.answer.bind fun (reply, _) => if reply.isAccepted then some s.job.record else none

/-- The service after the broker had no room for its record. -/
def postponed (s : Service) (e : DeliveryError) : Service :=
  { s with refusals := s.refusals ++ [e] }

/-- The service after its offers have ended. -/
def answered (s : Service) (reply : Reply) (notes : List Note) : Service :=
  { s with answer := some (reply, notes) }

variable {s : Service}

theorem deeds_postponed (hopen : s.answer = none) (e : DeliveryError) :
    (s.postponed e).deeds = s.deeds ++ [.offered s.job (.rejected e) []] := by
  simp [deeds, postponed, hopen]

theorem deeds_answered (hopen : s.answer = none) (reply : Reply) (notes : List Note) :
    (s.answered reply notes).deeds = s.deeds ++ [.offered s.job reply notes] := by
  simp [deeds, answered, hopen]

/-- A service makes one record. -/
theorem filterMap_change?_deeds (s : Service) : s.deeds.filterMap Deed.change? = [s.change] := by
  unfold deeds
  rw [List.filterMap_append, List.filterMap_cons, List.filterMap_map, List.filterMap_map]
  simp [Deed.change?, Function.comp_def]

/-- The broker takes the record of a service with the last offer of it, if at all. -/
theorem filterMap_accepted?_deeds (s : Service) :
    s.deeds.filterMap Deed.accepted? = s.accepted?.toList := by
  have hrefusals : (s.refusals.map fun e => Deed.offered s.job (.rejected e) []).filterMap
      Deed.accepted? = [] := by
    rw [List.filterMap_map]
    apply List.filterMap_eq_nil_iff.mpr
    intro e _
    rfl
  unfold deeds accepted?
  rw [List.filterMap_append, List.filterMap_cons, hrefusals, List.filterMap_map]
  cases s.answer with
  | none => rfl
  | some answer =>
    show List.filterMap Deed.accepted? [.offered s.job answer.1 answer.2] = _
    cases h : answer.1.isAccepted with
    | false => simp [Deed.accepted?, h]
    | true => simp [Deed.accepted?, h]

theorem Sound.postponed {ticket : ℕ} (h : s.Sound ticket) {e : DeliveryError}
    (he : e.isQueueFull = true) : (s.postponed e).Sound ticket := by
  refine ⟨h.serves, fun e' he' => ?_, h.resolved⟩
  rcases List.mem_append.mp he' with he' | he'
  · exact h.full e' he'
  · rwa [List.mem_singleton.mp he']

theorem Sound.answered {ticket : ℕ} (h : s.Sound ticket) {reply : Reply} {notes : List Note}
    (hresolved : s.job.Resolved reply notes) : (s.answered reply notes).Sound ticket := by
  refine ⟨h.serves, h.full, fun reply' notes' heq => ?_⟩
  obtain ⟨rfl, rfl⟩ := Prod.mk.inj (Option.some.inj heq)
  exact hresolved

/-- Services of the first events, in order. -/
def AllSound (services : List Service) : Prop :=
  ∀ i (s : Service), services[i]? = some s → s.Sound i

theorem allSound_concat {services : List Service} :
    AllSound (services ++ [s]) ↔ AllSound services ∧ s.Sound services.length := by
  constructor
  · intro h
    refine ⟨fun i t ht => h i t ?_, h _ s (by simp)⟩
    rwa [List.getElem?_append_left (List.getElem?_eq_some_iff.mp ht).1]
  · rintro ⟨hinit, hlast⟩ i t ht
    rcases Nat.lt_or_ge i services.length with hi | hi
    · rw [List.getElem?_append_left hi] at ht
      exact hinit i t ht
    · rw [List.getElem?_append_right hi, List.getElem?_singleton] at ht
      split at ht
      · obtain rfl : i = services.length := by omega
        rwa [← Option.some.inj ht]
      · simp at ht

end Service

namespace Relay

open Note Exchange Service

/-- The events whose records were made, or were to be made. -/
def taken (services : List Service) (failure : Option (Change × Error)) : List Change :=
  services.map Service.change ++ failure.toList.map Prod.fst

/-- The deeds of services, and of a failure to make a record after them. -/
def deedsOf (services : List Service) (failure : Option (Change × Error)) : List Deed :=
  services.flatMap Service.deeds ++ failure.toList.map fun f => .made f.1 (.error f.2) []

theorem filterMap_change?_deedsOf (services : List Service) (failure : Option (Change × Error)) :
    (deedsOf services failure).filterMap Deed.change? = taken services failure := by
  have hfailure : (failure.toList.map fun f => Deed.made f.1 (.error f.2) []).filterMap
      Deed.change? = failure.toList.map Prod.fst := by
    rw [List.filterMap_map, ← List.filterMap_eq_map]
    rfl
  unfold deedsOf taken
  rw [List.filterMap_append, hfailure, List.filterMap_flatMap]
  simp only [filterMap_change?_deeds]
  rw [List.map_eq_flatMap (l := services)]

theorem filterMap_accepted?_deedsOf (services : List Service) (failure : Option (Change × Error)) :
    (deedsOf services failure).filterMap Deed.accepted? = services.filterMap accepted? := by
  have hfailure : (failure.toList.map fun f => Deed.made f.1 (.error f.2) []).filterMap
      Deed.accepted? = [] := by
    rw [List.filterMap_map]
    apply List.filterMap_eq_nil_iff.mpr
    intro f _
    rfl
  unfold deedsOf
  rw [List.filterMap_append, hfailure, List.append_nil, List.filterMap_flatMap,
    List.filterMap_eq_flatMap_toList]
  simp only [filterMap_accepted?_deeds]

/-- How far the worker has come with its services after a run. -/
structure Serving (r₀ : Relay) (as : List Action) (r : Relay) (services : List Service)
    (failure : Option (Change × Error)) : Prop where
  deeds : r₀.deeds as = deedsOf services failure
  sound : AllSound services
  /-- All services are answered, or the last one is about the record in hand. -/
  hand : (r.job? = none ∧ ∀ s ∈ services, s.answer.isSome = true) ∨
    ∃ done s, services = done ++ [s] ∧ r.job? = some s.job ∧ s.answer = none ∧ failure = none ∧
      ∀ s ∈ done, s.answer.isSome = true
  started : taken services failure <+: pushed as
  queue : r.atWork = true → failure = none ∧ pushed as = taken services failure ++ r.queue
  announced : r.announced = services.map (·.change.position)
  lastPosition : r.lastPosition = r.announced.getLast?

namespace Serving

variable {r₀ r r' : Relay} {as : List Action} {a : Action} {services done : List Service}
  {s s' : Service} {failure : Option (Change × Error)}

theorem answered_of_job? (h : Serving r₀ as r services failure) (hjob : r.job? = none) :
    ∀ s ∈ services, s.answer.isSome = true := by
  rcases h.hand with ⟨-, hall⟩ | ⟨_, _, _, hs, _⟩
  · exact hall
  · simp [hjob] at hs

/-- The record in hand is that of the last service, which has no answer. -/
theorem exists_open (h : Serving r₀ as r services failure) {job : Job} (hjob : r.job? = some job) :
    ∃ done s, services = done ++ [s] ∧ s.job = job ∧ s.answer = none ∧ failure = none ∧
      ∀ s ∈ done, s.answer.isSome = true := by
  rcases h.hand with ⟨hnone, -⟩ | ⟨done, s, hservices, hs, hrest⟩
  · simp [hjob] at hnone
  · exact ⟨done, s, hservices, Option.some.inj (hs.symm.trans hjob), hrest⟩

theorem isSome_partition_of_job? (h : Serving r₀ as r services failure) {job : Job}
    (hjob : r.job? = some job) : job.record.partition.isSome = true := by
  obtain ⟨done, s, rfl, rfl, -⟩ := h.exists_open hjob
  exact (allSound_concat.mp h.sound).2.serves.placed

theorem aside (h : Serving r₀ as r services failure) (hdeeds : r₀.deeds (as ++ [a]) = r₀.deeds as)
    (haside : Aside r a r') : Serving r₀ (as ++ [a]) r' services failure where
  deeds := hdeeds.trans h.deeds
  sound := h.sound
  hand := by
    rw [haside.job?]
    exact h.hand
  started := by
    rw [pushed_append]
    exact h.started.trans (List.prefix_append _ _)
  queue := by
    intro hwork
    obtain ⟨hwork, hmore⟩ := haside.queue hwork
    obtain ⟨hnone, hpushed⟩ := h.queue hwork
    exact ⟨hnone, by rw [pushed_append, hpushed, hmore, List.append_assoc]⟩
  announced := haside.keeps.announced.trans h.announced
  lastPosition := by rw [haside.keeps.lastPosition, haside.keeps.announced, h.lastPosition]

/-- A new service begins when the first event in the queue is announced. -/
theorem begun (h : Serving r₀ as r services failure)
    (hticket : r.exchange.ticket = r.announced.length)
    {c : Change} {job : Job} (hphase : r.phase = .taking) (hnone : pushed [a] = [])
    (hqueue : r.queue = c :: r'.queue) (hphase' : r'.phase = .offering job)
    (hserves : job.Serves r.exchange.ticket c)
    (hannounced : r'.announced = r.announced ++ [c.position])
    (hlast : r'.lastPosition = some c.position)
    (hdeeds : r₀.deeds (as ++ [a]) = r₀.deeds as ++
      [.made c (.ok job.record) [.submitted job.attempt.ticket job.attempt.position]]) :
    Serving r₀ (as ++ [a]) r' (services ++ [{ change := c, job }]) none := by
  obtain ⟨rfl, hpushed⟩ := h.queue (by rw [Relay.atWork, hphase])
  have htaken : taken (services ++ [{ change := c, job }]) none = taken services none ++ [c] := by
    simp [taken]
  have hpushed' : pushed (as ++ [a]) = taken services none ++ [c] ++ r'.queue := by
    rw [pushed_append, hnone, List.append_nil, hpushed, hqueue, List.append_assoc,
      List.singleton_append]
  refine ⟨?_, ?_, .inr ⟨services, _, rfl, ?_, rfl, rfl, ?_⟩, ?_, fun _ => ⟨rfl, ?_⟩, ?_, ?_⟩
  · rw [hdeeds, h.deeds]
    simp [deedsOf, Service.deeds]
  · refine allSound_concat.mpr ⟨h.sound, ?_, by simp, by simp⟩
    -- as many events were announced before as there were services
    rwa [hticket, h.announced, List.length_map] at hserves
  · rw [job?, hphase']
  · exact h.answered_of_job? (by rw [job?, hphase])
  · rw [htaken, hpushed']
    exact List.prefix_append _ _
  · rw [htaken, hpushed']
  · rw [hannounced, h.announced, List.map_append]
    rfl
  · rw [hannounced, hlast, List.getLast?_concat]

/-- The services end with an event whose record cannot be made. -/
theorem unmade (h : Serving r₀ as r services failure) {c : Change} {e : Error}
    (hphase : r.phase = .taking) (hnone : pushed [a] = []) (hqueue : r.queue = c :: r'.queue)
    (hphase' : r'.phase = .failing e) (hkeeps : Keeps r r')
    (hdeeds : r₀.deeds (as ++ [a]) = r₀.deeds as ++ [.made c (.error e) []]) :
    Serving r₀ (as ++ [a]) r' services (some (c, e)) := by
  obtain ⟨rfl, hpushed⟩ := h.queue (by rw [Relay.atWork, hphase])
  refine ⟨?_, h.sound, .inl ⟨?_, ?_⟩, ?_, ?_, hkeeps.announced.trans h.announced, ?_⟩
  · rw [hdeeds, h.deeds]
    simp [deedsOf]
  · rw [job?, hphase']
  · exact h.answered_of_job? (by rw [job?, hphase])
  · rw [pushed_append, hnone, List.append_nil, hpushed, hqueue]
    exact ⟨r'.queue, by simp [taken]⟩
  · intro hwork
    simp [Relay.atWork, hphase'] at hwork
  · rw [hkeeps.lastPosition, hkeeps.announced, h.lastPosition]

/-- The last service goes on with one more offer. -/
theorem goOn (h : Serving r₀ as r (done ++ [s]) none) (hdone : ∀ t ∈ done, t.answer.isSome = true)
    {job : Job} (hphase : r.phase = .offering job) (hnone : pushed [a] = [])
    (hqueue : r'.queue = r.queue) (hkeeps : Keeps r r') (hchange : s'.change = s.change)
    (hsound : s'.Sound done.length) {d : Deed} (hmore : s'.deeds = s.deeds ++ [d])
    (hdeeds : r₀.deeds (as ++ [a]) = r₀.deeds as ++ [d])
    (hhand : (r'.job? = none ∧ s'.answer.isSome = true) ∨
      (r'.job? = some s'.job ∧ s'.answer = none)) :
    Serving r₀ (as ++ [a]) r' (done ++ [s']) none := by
  obtain ⟨-, hpushed⟩ := h.queue (by rw [Relay.atWork, hphase])
  have htaken : taken (done ++ [s']) none = taken (done ++ [s]) none := by simp [taken, hchange]
  have hpushed' : pushed (as ++ [a]) = taken (done ++ [s']) none ++ r'.queue := by
    rw [pushed_append, hnone, List.append_nil, hpushed, htaken, hqueue]
  refine ⟨?_, ?_, ?_, ?_, fun _ => ⟨rfl, hpushed'⟩, ?_, ?_⟩
  · rw [hdeeds, h.deeds]
    simp [deedsOf, hmore]
  · exact allSound_concat.mpr ⟨(allSound_concat.mp h.sound).1, hsound⟩
  · rcases hhand with ⟨hjob, hs⟩ | ⟨hjob, hs⟩
    · refine .inl ⟨hjob, fun t ht => ?_⟩
      rcases List.mem_append.mp ht with ht | ht
      · exact hdone t ht
      · rwa [List.mem_singleton.mp ht]
    · exact .inr ⟨done, s', rfl, hjob, hs, rfl, hdone⟩
  · rw [hpushed']
    exact List.prefix_append _ _
  · rw [hkeeps.announced, h.announced]
    simp [hchange]
  · rw [hkeeps.lastPosition, hkeeps.announced, h.lastPosition]

/-- Every action goes on with the services. -/
theorem act (h : Serving r₀ as r services failure) (hr : r₀.after as = some r)
    (hticket : r.exchange.ticket = r.announced.length) (hact : r.act a = some r') :
    ∃ services failure, Serving r₀ (as ++ [a]) r' services failure := by
  have hstint := Stint.of_act hact
  have hdeeds := deeds_concat hr hact
  generalize r.deed? a r' = deed at hstint hdeeds
  cases hstint with
  | idle haside =>
    exact ⟨services, failure, h.aside (hdeeds.trans (List.append_nil _)) haside⟩
  | made c job hphase hnone hqueue hphase' hserves hannounced hlast =>
    exact ⟨_, none,
      h.begun hticket hphase hnone hqueue hphase' hserves hannounced hlast hdeeds⟩
  | unmade c e hphase hnone hqueue hphase' hkeeps =>
    exact ⟨services, _, h.unmade hphase hnone hqueue hphase' hkeeps hdeeds⟩
  | postponed job e wake hphase hnone hqueue hphase' hfull hkeeps =>
    obtain ⟨done, s, rfl, rfl, hopen, rfl, hdone⟩ := h.exists_open (by rw [job?, hphase])
    have hchange : (s.postponed e).change = s.change := rfl
    have hsound := (allSound_concat.mp h.sound).2.postponed hfull
    have hjob : r'.job? = some (s.postponed e).job := by
      rw [job?, hphase']
      rfl
    exact ⟨_, none, h.goOn hdone hphase hnone hqueue hkeeps hchange hsound
      (deeds_postponed hopen e) hdeeds (.inr ⟨hjob, hopen⟩)⟩
  | @resolved job reply notes hphase hnone hqueue hphase' hresolved hkeeps =>
    obtain ⟨done, s, rfl, rfl, hopen, rfl, hdone⟩ := h.exists_open (by rw [job?, hphase])
    have hchange : (s.answered reply notes).change = s.change := rfl
    have hsound := (allSound_concat.mp h.sound).2.answered hresolved
    have hjob : r'.job? = none := by rw [job?, hphase']
    exact ⟨_, none, h.goOn hdone hphase hnone hqueue hkeeps hchange hsound
      (deeds_answered hopen reply notes) hdeeds (.inl ⟨hjob, rfl⟩)⟩

end Serving

/-! ## Runs -/

section Run

variable {resume : Option Position} {r₀ r : Relay} {as : List Action}
  (hinit : Initial resume r₀) (hrun : r₀.after as = some r)
include hinit hrun

theorem serving_after : ∃ services failure, Serving r₀ as r services failure := by
  refine after_induction (P := fun as r => ∃ services failure, Serving r₀ as r services failure)
    ?_ ?_ hrun
  · obtain ⟨terms, broker, capacity, -, -, rfl⟩ := hinit.eq
    exact ⟨[], none, rfl, by simp [AllSound], .inl ⟨rfl, by simp⟩, List.nil_prefix,
      fun _ => ⟨rfl, rfl⟩, rfl, rfl⟩
  · rintro as r a r' hr ⟨services, failure, h⟩ hact
    exact h.act hr (ticket_after hinit hr) hact

/-- What the broker remembers of a run is what the worker did. -/
theorem books_after :
    r.exchange.broker.books.lookups = r₀.exchange.broker.books.lookups ++
        ((r₀.deeds as).filterMap Deed.change?).map r₀.exchange.terms.plan.topic ∧
      r.exchange.broker.books.placed = r₀.exchange.broker.books.placed ++
        (r₀.deeds as).filterMap Deed.accepted? := by
  refine after_induction (P := fun as r =>
    r.exchange.broker.books.lookups = r₀.exchange.broker.books.lookups ++
        ((r₀.deeds as).filterMap Deed.change?).map r₀.exchange.terms.plan.topic ∧
      r.exchange.broker.books.placed = r₀.exchange.broker.books.placed ++
        (r₀.deeds as).filterMap Deed.accepted?) ?_ ?_ hrun
  · simp
  · rintro as r a r' hr ⟨hlookups, hplaced⟩ hact
    obtain ⟨services, failure, h⟩ := serving_after hinit hr
    have hentered := Entered.of_act (fun job => h.isSome_partition_of_job?) hact
    have hterms : r.exchange.terms = r₀.exchange.terms := (follows_after hinit hr).terms
    rw [deeds_concat hr hact, List.filterMap_append, List.filterMap_append, List.map_append,
      hentered.lookups, hentered.placed, hlookups, hplaced, hterms, List.append_assoc,
      List.append_assoc]
    exact ⟨rfl, rfl⟩

/-- Events are served in the order of the queue and one after the other, whatever the broker does
and however often it has no room: each is built and announced once before its one record is offered,
the offers of it end before the next event is built, and the broker takes the records in this order.
-/
theorem events_served_in_order :
    ∃ services failure,
      r₀.deeds as = deedsOf services failure ∧ AllSound services ∧
      taken services failure <+: pushed as ∧
      -- only the last service may go on, and none goes on when a record cannot be made
      (∀ s ∈ services.dropLast, s.answer.isSome = true) ∧
      (failure.isSome = true → ∀ s ∈ services, s.answer.isSome = true) ∧
      r.announced = services.map (·.change.position) ∧
      r.lastPosition = r.announced.getLast? ∧
      r.exchange.broker.books.lookups = r₀.exchange.broker.books.lookups ++
        (taken services failure).map r₀.exchange.terms.plan.topic ∧
      r.exchange.broker.books.placed = r₀.exchange.broker.books.placed ++
        services.filterMap accepted? := by
  obtain ⟨services, failure, h⟩ := serving_after hinit hrun
  obtain ⟨hlookups, hplaced⟩ := books_after hinit hrun
  rw [h.deeds, filterMap_change?_deedsOf] at hlookups
  rw [h.deeds, filterMap_accepted?_deedsOf] at hplaced
  refine ⟨services, failure, h.deeds, h.sound, h.started, ?_, ?_, h.announced, h.lastPosition,
    hlookups, hplaced⟩
  · rcases h.hand with ⟨-, hall⟩ | ⟨done, s, rfl, -, -, -, hdone⟩
    · intro s hs
      exact hall s (List.dropLast_subset _ hs)
    · rwa [List.dropLast_concat]
  · intro hfailure
    rcases h.hand with ⟨-, hall⟩ | ⟨_, _, _, _, _, hnone, _⟩
    · exact hall
    · simp [hnone] at hfailure

end Run

/-- A broker that twice has no room. -/
def fullTwice : List Outcome :=
  List.replicate 2 (.reject (.client (.production .queueFull)))

/-- Two events are pushed, and the worker offers the first of them until it is taken. -/
def offeringThrice : List Action :=
  [.work, .push default .ok, .push default .ok, .work, .work, .wait 10, .work, .work, .wait 10,
    .work, .work, .work, .work]

/-- The broker takes the records of both events in their order, although it first has no room. -/
theorem served_in_order_of_full :
    ∃ (r : Relay) (services : List Service),
      (plain fullTwice).after offeringThrice = some r ∧
      (plain fullTwice).deeds offeringThrice = services.flatMap Service.deeds ∧
      services.length = 2 ∧ r.exchange.broker.books.placed = services.filterMap accepted? ∧
      r.exchange.broker.books.placed.length = 2 := by
  obtain ⟨r, hrun, hannounced, hlookups, hboth⟩ : ∃ r,
      (plain fullTwice).after offeringThrice = some r ∧ r.announced.length = 2 ∧
      r.exchange.broker.books.lookups.length = 2 ∧ r.exchange.broker.books.placed.length = 2 :=
    ⟨_, rfl, rfl, rfl, rfl⟩
  obtain ⟨services, failure, hdeeds, -, -, -, -, hpositions, -, htopics, hplaced⟩ :=
    events_served_in_order (initial_plain fullTwice) hrun
  have htwo : services.length = 2 := by rw [← hannounced, hpositions, List.length_map]
  -- both events were built, so no record failed to be made
  have hnone : failure = none := by
    rw [htopics, List.length_append, List.length_map, taken, List.length_append, List.length_map,
      htwo] at hlookups
    cases failure with
    | none => rfl
    | some f => simp at hlookups
  subst hnone
  exact ⟨r, services, hrun, hdeeds.trans (List.append_nil _), htwo, hplaced, hboth⟩

end Relay
end ChangeRelay

import ChangeRelay.Proofs.Delivery.Books
import ChangeRelay.Proofs.Run.Queue
/-!
# The deeds of the worker

What the worker does with its broker in a run is a list of deeds: it makes the record of an event,
for which it asks about the partitions of a topic, and it offers a record. A deed comes with what
was noted in the same step. `Stint` says what each action contributes to the deeds, and what it
leaves of the queue and of the record that the worker has in hand.
-/

namespace ChangeRelay

/-- What ends the offers of a record: the broker has taken it, its failure is reported to its
attempt, or its event is given up because the broker is closed. -/
inductive Job.Resolved (job : Job) : Reply → List Note → Prop
  | pending : Resolved job .pending []
  | delivered (receipt : Receipt) : Resolved job (.delivered receipt)
      [.delivered job.attempt.ticket receipt, .completed job.attempt.ticket job.attempt.position]
  | failed (e : DeliveryError) (rest : List Note) :
    Resolved job (.failed e) (.failed job.attempt.ticket e :: rest)
  | refused (e : DeliveryError) (hroom : e.isQueueFull = false) (rest : List Note) :
    Resolved job (.rejected e) (.failed job.attempt.ticket e :: rest)
  | abandoned :
    Resolved job (.rejected .closed) [.abandoned job.attempt.ticket job.attempt.position]

/-- The record and the attempt that are made of an event, the `ticket`-th one. -/
structure Job.Serves (job : Job) (ticket : ℕ) (c : Change) : Prop where
  ticket : job.attempt.ticket = ticket
  position : job.attempt.position = c.position
  row : job.attempt.row = c.row
  key : job.attempt.key = job.record.key
  placed : job.record.partition.isSome = true

namespace Relay

open Note Exchange

/-- Something that the worker does with its broker, with the notes of it. -/
inductive Deed
  /-- It makes the record of an event, if the topic's partitions are told. -/
  | made (c : Change) (record : Except Error Record) (notes : List Note)
  /-- It offers a record for an attempt. -/
  | offered (job : Job) (reply : Reply) (notes : List Note)

/-- What was noted on the way from `r` to `r'`. -/
def notesUntil (r r' : Relay) : List Note :=
  r'.exchange.history.drop r.exchange.history.length

/-- What the worker does in an action that leads from `r` to `r'`. -/
def deed? (r : Relay) : Action → Relay → Option Deed
  | .work, r' =>
    let x := r.exchange
    match r.phase with
    | .taking =>
      match r.queue with
      | c :: _ =>
        some (.made c ((x.terms.plan.build x.broker x.turns c).1.map Prod.fst) (r.notesUntil r'))
      | [] => none
    | .offering job =>
      some (.offered job (x.broker.offer job.record job.attempt).1 (r.notesUntil r'))
    | _ => none
  | _, _ => none

/-- What the worker does in a run, in order. -/
def deeds (r : Relay) : List Action → List Deed
  | [] => []
  | a :: rest =>
    match r.act a with
    | some r' => (r.deed? a r').toList ++ r'.deeds rest
    | none => []

@[simp] theorem deeds_nil (r : Relay) : r.deeds [] = [] := rfl

theorem deeds_concat {r₀ r r' : Relay} {as : List Action} {a : Action}
    (hrun : r₀.after as = some r) (hact : r.act a = some r') :
    r₀.deeds (as ++ [a]) = r₀.deeds as ++ (r.deed? a r').toList := by
  induction as generalizing r₀ with
  | nil =>
    obtain rfl := Option.some.inj hrun
    simp [deeds, hact]
  | cons b as ih =>
    rw [after] at hrun
    obtain ⟨s, hs, hrest⟩ := Option.bind_eq_some_iff.mp hrun
    rw [List.cons_append, deeds, deeds, hs]
    simp only
    rw [ih hrest, List.append_assoc]

theorem notesUntil_eq {r r' : Relay} {notes : List Note}
    (h : r'.exchange.history = r.exchange.history ++ notes) : r.notesUntil r' = notes := by
  unfold notesUntil
  rw [h, List.drop_left]

/-- The record that the worker has in hand, with its attempt. -/
def job? (r : Relay) : Option Job :=
  match r.phase with
  | .offering job | .pausing job _ => some job
  | _ => none

/-- How often an action closes the broker. -/
def closings (r : Relay) : Action → ℕ
  | .work =>
    match r.phase with
    | .closing => 1
    | _ => 0
  | .closeBroker => 1
  | _ => 0

/-- How often the broker is closed without the worker. -/
def forced (as : List Action) : ℕ :=
  as.countP fun
    | .closeBroker => true
    | _ => false

@[simp] theorem forced_append (as bs : List Action) : forced (as ++ bs) = forced as + forced bs :=
  List.countP_append

/-! ## One action -/

/-- An action that announces nothing. -/
structure Keeps (r r' : Relay) : Prop where
  announced : r'.announced = r.announced
  lastPosition : r'.lastPosition = r.lastPosition

theorem keeps_of_exchange_eq {r r' : Relay} {notes : List Note}
    (hhistory : r'.exchange.history = r.exchange.history ++ notes) (hnone : submissions notes = [])
    (hlast : r'.lastPosition = r.lastPosition) : Keeps r r' where
  announced := by rw [announced, announced, hhistory, submissions_append, hnone, List.append_nil]
  lastPosition := hlast

/-- What the world around the worker does, none of which is a deed of the worker. -/
structure Around (r : Relay) (a : Action) (r' : Relay) : Prop where
  deed? : r.deed? a r' = none
  closings : r.closings a = forced [a]
  phase : r'.phase = r.phase
  queue : r'.queue = r.queue ++ pushed [a]
  queueOpen : r'.queueOpen = r.queueOpen
  stage : r'.lifecycle.stage = r.lifecycle.stage ∨
    r'.lifecycle.stage = r.lifecycle.stage.stopRequest
  keeps : Keeps r r'
  books : r'.exchange.broker.books =
    { r.exchange.broker.books with
      closeCalls := r.exchange.broker.books.closeCalls + forced [a] }

/-- An action is a step of the worker, it leaves the worker with an abandoned queue, or it belongs
to the world around the worker. -/
theorem act_cases {r r' : Relay} {a : Action} (h : r.act a = some r') :
    (a = .work ∧ Step r r') ∨
      (a = .hangUp ∧ r.phase = .taking ∧ r' = { r with phase := .failing .interrupted }) ∨
      Around r a r' := by
  have hqueue : r.queue = r.queue ++ [] := (List.append_nil _).symm
  cases Act.of_act h with
  | work hstep => exact .inl ⟨rfl, hstep⟩
  | hangUp hphase => exact .inr (.inl ⟨rfl, hphase, rfl⟩)
  | pushed => exact .inr (.inr ⟨rfl, rfl, rfl, rfl, rfl, .inl rfl, ⟨rfl, rfl⟩, rfl⟩)
  | refused => exact .inr (.inr ⟨rfl, rfl, rfl, hqueue, rfl, .inl rfl, ⟨rfl, rfl⟩, rfl⟩)
  | requestStop => exact .inr (.inr ⟨rfl, rfl, rfl, hqueue, rfl, .inr rfl, ⟨rfl, rfl⟩, rfl⟩)
  | closeBroker => exact .inr (.inr ⟨rfl, rfl, rfl, hqueue, rfl, .inl rfl, ⟨rfl, rfl⟩, rfl⟩)
  | dropPublisher => exact .inr (.inr ⟨rfl, rfl, rfl, hqueue, rfl, .inl rfl, ⟨rfl, rfl⟩, rfl⟩)
  | wait => exact .inr (.inr ⟨rfl, rfl, rfl, hqueue, rfl, .inl rfl, ⟨rfl, rfl⟩, rfl⟩)
  | behave => exact .inr (.inr ⟨rfl, rfl, rfl, hqueue, rfl, .inl rfl, ⟨rfl, rfl⟩, rfl⟩)
  | release index o x hx =>
    obtain ⟨b, notes, left, -, hpassage, hfollows, -⟩ := release_spec _ hx
    have hkeeps : Keeps r { r with exchange := x } :=
      keeps_of_exchange_eq hfollows.history hpassage.submissions_eq_nil rfl
    exact .inr (.inr ⟨rfl, rfl, rfl, hqueue, rfl, .inl rfl, hkeeps, books_release hx⟩)

/-- An action in which the worker neither makes a record nor offers one. -/
structure Aside (r : Relay) (a : Action) (r' : Relay) : Prop where
  deed? : r.deed? a r' = none
  job? : r'.job? = r.job?
  keeps : Keeps r r'
  queue : r'.atWork = true → r.atWork = true ∧ r'.queue = r.queue ++ pushed [a]
  books : r'.exchange.broker.books =
    { r.exchange.broker.books with
      closeCalls := r.exchange.broker.books.closeCalls + r.closings a }

theorem Around.aside {r r' : Relay} {a : Action} (h : Around r a r') : Aside r a r' where
  deed? := h.deed?
  job? := by rw [job?, job?, h.phase]
  keeps := h.keeps
  queue := by
    intro hwork
    rw [atWork, h.phase] at hwork
    exact ⟨hwork, h.queue⟩
  books := by rw [h.closings, h.books]

/-- A step of the worker makes a record, or offers one, or has nothing to do with records. -/
theorem step_cases {r r' : Relay} (h : Step r r') :
    (∃ c rest, r.phase = .taking ∧ r.queue = c :: rest ∧ r' = r.take c rest) ∨
      (∃ job, r.phase = .offering job ∧ r' = r.offer job) ∨ Aside r .work r' := by
  have hqueue : r.queue = r.queue ++ pushed [.work] := (List.append_nil _).symm
  cases h with
  | started _ _ hphase =>
    refine .inr (.inr ⟨by simp only [deed?, hphase], ?_, ⟨rfl, rfl⟩, ?_, ?_⟩)
    · rw [job?, job?, hphase]
      rfl
    · exact fun _ => ⟨by rw [atWork, hphase], hqueue⟩
    · rw [closings, hphase]
      rfl
  | took c rest hphase hcons => exact .inl ⟨c, rest, hphase, hcons, rfl⟩
  | drained _ _ hphase hempty =>
    refine .inr (.inr ⟨by simp only [deed?, hphase, hempty], ?_, ⟨rfl, rfl⟩,
      by simp [atWork, logs], ?_⟩)
    · rw [job?, job?, hphase]
      rfl
    · rw [closings, hphase]
      rfl
  | deserted hphase hempty =>
    refine .inr (.inr ⟨by simp only [deed?, hphase, hempty], ?_, ⟨rfl, rfl⟩, by simp [atWork], ?_⟩)
    · rw [job?, job?, hphase]
    · rw [closings, hphase]
      rfl
  | offered job hphase => exact .inr (.inl ⟨job, hphase, rfl⟩)
  | resumed job wake hphase =>
    -- the record in hand stays the same while it waits
    refine .inr (.inr ⟨by simp only [deed?, hphase], ?_, ⟨rfl, rfl⟩, ?_, ?_⟩)
    · rw [job?, job?, hphase]
    · exact fun _ => ⟨by rw [atWork, hphase], hqueue⟩
    · rw [closings, hphase]
      rfl
  | failed cause _ _ hphase =>
    have hbroken : submissions [.broken cause] = [] := rfl
    refine .inr (.inr ⟨by simp only [deed?, hphase], ?_, keeps_of_exchange_eq rfl hbroken rfl,
      by simp [atWork], ?_⟩)
    · rw [job?, job?, hphase]
    · rw [closings, hphase]
      rfl
  | left hphase =>
    refine .inr (.inr ⟨by simp only [deed?, hphase], ?_, ⟨rfl, rfl⟩, by simp [atWork], ?_⟩)
    · rw [job?, job?, hphase]
    · rw [closings, hphase]
      rfl
  | closed hphase =>
    -- the one step in which the worker closes the broker
    refine .inr (.inr ⟨by simp only [deed?, hphase], ?_, ⟨rfl, rfl⟩, by simp [atWork], ?_⟩)
    · rw [job?, job?, hphase]
    · rw [closings, hphase]
      rfl
  | stopped _ _ hphase =>
    refine .inr (.inr ⟨by simp only [deed?, hphase], ?_, ⟨rfl, rfl⟩, by simp [atWork], ?_⟩)
    · rw [job?, job?, hphase]
    · rw [closings, hphase]
      rfl

/-- The worker makes a record, or offers one, or what happens has nothing to do with records. -/
theorem act_deed_cases {r r' : Relay} {a : Action} (h : r.act a = some r') :
    (∃ c rest, a = .work ∧ r.phase = .taking ∧ r.queue = c :: rest ∧ r' = r.take c rest) ∨
      (∃ job, a = .work ∧ r.phase = .offering job ∧ r' = r.offer job) ∨ Aside r a r' := by
  rcases act_cases h with ⟨rfl, hstep⟩ | ⟨rfl, hphase, rfl⟩ | haround
  · rcases step_cases hstep with ⟨c, rest, htake⟩ | ⟨job, hoffer⟩ | haside
    · exact .inl ⟨c, rest, rfl, htake⟩
    · exact .inr (.inl ⟨job, rfl, hoffer⟩)
    · exact .inr (.inr haside)
  · refine .inr (.inr ⟨rfl, ?_, ⟨rfl, rfl⟩, by simp [atWork], rfl⟩)
    rw [job?, job?, hphase]
  · exact .inr (.inr haround.aside)

/-- What an action contributes to the deeds of the worker. -/
inductive Stint (r : Relay) (a : Action) (r' : Relay) : Option Deed → Prop
  | idle (haside : Aside r a r') : Stint r a r' none
  /-- The first event in the queue is announced with its record. -/
  | made (c : Change) (job : Job) (hphase : r.phase = .taking) (hnone : pushed [a] = [])
      (hqueue : r.queue = c :: r'.queue) (hphase' : r'.phase = .offering job)
      (hserves : job.Serves r.exchange.ticket c)
      (hannounced : r'.announced = r.announced ++ [c.position])
      (hlast : r'.lastPosition = some c.position) :
    Stint r a r' (some (.made c (.ok job.record)
      [.submitted job.attempt.ticket job.attempt.position]))
  | unmade (c : Change) (e : Error) (hphase : r.phase = .taking) (hnone : pushed [a] = [])
      (hqueue : r.queue = c :: r'.queue) (hphase' : r'.phase = .failing e) (hkeeps : Keeps r r') :
    Stint r a r' (some (.made c (.error e) []))
  /-- There was no room for the record, and it will be offered again. -/
  | postponed (job : Job) (e : DeliveryError) (wake : ℕ) (hphase : r.phase = .offering job)
      (hnone : pushed [a] = []) (hqueue : r'.queue = r.queue)
      (hphase' : r'.phase = .pausing job wake)
      (hfull : e.isQueueFull = true) (hkeeps : Keeps r r') :
    Stint r a r' (some (.offered job (.rejected e) []))
  | resolved (job : Job) {reply : Reply} {notes : List Note} (hphase : r.phase = .offering job)
      (hnone : pushed [a] = []) (hqueue : r'.queue = r.queue) (hphase' : r'.phase = .taking)
      (h : job.Resolved reply notes) (hkeeps : Keeps r r') :
    Stint r a r' (some (.offered job reply notes))

namespace Stint

variable {r r' : Relay} {a : Action}

theorem of_take (hphase : r.phase = .taking) {c : Change} {rest : List Change}
    (hqueue : r.queue = c :: rest) :
    Stint r .work (r.take c rest) (r.deed? .work (r.take c rest)) := by
  simp only [deed?, hphase, hqueue]
  obtain ⟨built, hbuilt, htaken⟩ := r.exists_taken c rest
  have hhistory := htaken.history
  rw [hbuilt, notesUntil_eq hhistory]
  generalize r.take c rest = s at htaken hhistory ⊢
  cases htaken with
  | unmade message =>
    exact .unmade c _ hphase rfl hqueue rfl (keeps_of_exchange_eq hhistory rfl rfl)
  | made count record turns hrecord =>
    obtain ⟨rfl, -⟩ := Prod.mk.inj hrecord
    refine .made c ⟨_, r.exchange.terms.attempt r.exchange.ticket c⟩ hphase rfl hqueue rfl
      ⟨rfl, rfl, rfl, rfl, rfl⟩ ?_ rfl
    rw [announced, announced, hhistory, submissions_append]
    rfl

/-- An offer leaves the queue and what was announced. -/
theorem keeps_offer (r : Relay) (job : Job) :
    Keeps r (r.offer job) ∧ (r.offer job).queue = r.queue := by
  obtain ⟨x, ⟨wake, hoffer, hfollows, -⟩ | ⟨hoffer, hcases⟩⟩ := r.offer_spec job
  · rw [hoffer]
    exact ⟨keeps_of_exchange_eq hfollows.history rfl rfl, rfl⟩
  · rw [hoffer]
    refine ⟨?_, rfl⟩
    rcases hcases with ⟨-, -, hfollows, -⟩ | ⟨hfollows, -⟩ | ⟨notes, left, hpassage, hfollows, -⟩
    · exact keeps_of_exchange_eq hfollows.history rfl rfl
    · exact keeps_of_exchange_eq hfollows.history rfl rfl
    · exact keeps_of_exchange_eq hfollows.history hpassage.submissions_eq_nil rfl

theorem of_offer {job : Job} (hphase : r.phase = .offering job) :
    Stint r .work (r.offer job) (r.deed? .work (r.offer job)) := by
  obtain ⟨hkeeps, hqueue⟩ := keeps_offer r job
  obtain ⟨reply, broker, hanswer, hoffered⟩ := r.exists_offered job
  simp only [deed?, hphase, hanswer]
  set x : Exchange := { r.exchange with broker }
  generalize r.offer job = s at hkeeps hqueue hoffered ⊢
  have hresolved {notes : List Note} (hphase' : s.phase = .taking)
      (hhistory : s.exchange.history = r.exchange.history ++ notes)
      (h : job.Resolved reply notes) :
      Stint r .work s (some (.offered job reply (r.notesUntil s))) := by
    rw [notesUntil_eq hhistory]
    exact .resolved job hphase rfl hqueue hphase' h hkeeps
  have hnothing (hhistory : s.exchange.history = r.exchange.history) : r.notesUntil s = [] :=
    notesUntil_eq (hhistory.trans (List.append_nil _).symm)
  cases hoffered with
  | held => exact hresolved rfl (List.append_nil _).symm .pending
  | failed e =>
    obtain ⟨rest, hhistory⟩ := x.history_fail job.attempt e
    exact hresolved rfl hhistory (.failed e rest)
  | delivered receipt =>
    exact hresolved rfl (x.follows_succeed job.attempt receipt).history (.delivered receipt)
  | postponed e lines _ hfull =>
    rw [hnothing rfl]
    exact .postponed job e _ hphase rfl hqueue rfl hfull hkeeps
  | abandoned => exact hresolved rfl rfl .abandoned
  | refused e hfull =>
    obtain ⟨rest, hhistory⟩ := x.history_fail job.attempt e
    exact hresolved rfl hhistory (.refused e hfull rest)

/-- What every action contributes to the deeds of the worker. -/
theorem of_act (h : r.act a = some r') : Stint r a r' (r.deed? a r') := by
  rcases act_deed_cases h with ⟨c, rest, rfl, hphase, hqueue, rfl⟩ |
    ⟨job, rfl, hphase, rfl⟩ | haside
  · exact of_take hphase hqueue
  · exact of_offer hphase
  · rw [haside.deed?]
    exact .idle haside

end Stint

/-! ## What the broker remembers of it -/

/-- The event whose record is made. -/
def Deed.change? : Deed → Option Change
  | .made c _ _ => some c
  | .offered .. => none

/-- The record that the broker takes. -/
def Deed.accepted? : Deed → Option Record
  | .made .. => none
  | .offered job reply _ => if reply.isAccepted then some job.record else none

/-- What an action enters in the broker's books. -/
structure Entered (r : Relay) (a : Action) (r' : Relay) : Prop where
  lookups : r'.exchange.broker.books.lookups = r.exchange.broker.books.lookups ++
    ((r.deed? a r').toList.filterMap Deed.change?).map r.exchange.terms.plan.topic
  placed : r'.exchange.broker.books.placed = r.exchange.broker.books.placed ++
    (r.deed? a r').toList.filterMap Deed.accepted?
  closeCalls : r'.exchange.broker.books.closeCalls =
    r.exchange.broker.books.closeCalls + r.closings a

namespace Entered

variable {r r' : Relay} {a : Action}

theorem of_take (hphase : r.phase = .taking) {c : Change} {rest : List Change}
    (hqueue : r.queue = c :: rest) : Entered r .work (r.take c rest) := by
  have hbooks : (r.take c rest).exchange.broker.books =
      { r.exchange.broker.books with
        lookups := r.exchange.broker.books.lookups ++ [r.exchange.terms.plan.topic c] } := by
    obtain ⟨built, -, htaken⟩ := r.exists_taken c rest
    generalize r.take c rest = s at htaken ⊢
    cases htaken <;> rfl
  have hdeed : ∃ record, r.deed? .work (r.take c rest) =
      some (.made c record (r.notesUntil (r.take c rest))) := by
    simp only [deed?, hphase, hqueue]
    exact ⟨_, rfl⟩
  obtain ⟨record, hdeed⟩ := hdeed
  refine ⟨?_, ?_, ?_⟩
  · rw [hdeed, hbooks]
    rfl
  · rw [hdeed, hbooks]
    exact (List.append_nil _).symm
  · rw [hbooks, closings, hphase]
    rfl

/-- The reply to an offer is all that shows in the books. -/
theorem books_offer (r : Relay) (job : Job) : (r.offer job).exchange.broker.books =
    (r.exchange.broker.offer job.record job.attempt).2.books := by
  obtain ⟨reply, broker, hanswer, hoffered⟩ := r.exists_offered job
  rw [hanswer]
  set x : Exchange := { r.exchange with broker }
  generalize r.offer job = s at hoffered ⊢
  cases hoffered with
  | held => rfl
  | failed e => exact x.books_report job.attempt (.error e)
  | delivered receipt => exact x.books_report job.attempt (.ok receipt)
  | postponed => rfl
  | abandoned => rfl
  | refused e => exact x.books_report job.attempt (.error e)

theorem of_offer {job : Job} (hphase : r.phase = .offering job)
    (hplaced : job.record.partition.isSome = true) : Entered r .work (r.offer job) := by
  have hbooks := (books_offer r job).trans
    (Broker.books_offer hplaced r.exchange.broker job.attempt)
  have hdeed : r.deed? .work (r.offer job) =
      some (.offered job (r.exchange.broker.offer job.record job.attempt).1
        (r.notesUntil (r.offer job))) := by
    simp only [deed?, hphase]
  refine ⟨?_, ?_, ?_⟩
  · rw [hdeed, hbooks]
    exact (List.append_nil _).symm
  · rw [hdeed, hbooks]
    show _ ++ _ = _ ++ (List.filterMap Deed.accepted? [_])
    cases hreply : (r.exchange.broker.offer job.record job.attempt).1.isAccepted with
    | false => simp [Deed.accepted?, hreply]
    | true => simp [Deed.accepted?, hreply]
  · rw [hbooks, closings, hphase]
    rfl

/-- What every action enters in the broker's books. -/
theorem of_act (hplaced : ∀ job, r.job? = some job → job.record.partition.isSome = true)
    (h : r.act a = some r') : Entered r a r' := by
  rcases act_deed_cases h with ⟨c, rest, rfl, hphase, hqueue, rfl⟩ |
    ⟨job, rfl, hphase, rfl⟩ | haside
  · exact of_take hphase hqueue
  · exact of_offer hphase (hplaced job (by rw [job?, hphase]))
  · refine ⟨?_, ?_, ?_⟩
    · rw [haside.deed?, haside.books]
      exact (List.append_nil _).symm
    · rw [haside.deed?, haside.books]
      exact (List.append_nil _).symm
    · rw [haside.books]

end Entered

end Relay
end ChangeRelay

import ChangeRelay.Proofs.Delivery.Notes
import ChangeRelay.Run.Relay
import Mathlib.Data.List.Induction
/-!
# Interleavings

The worker is not alone: while it runs, events are pushed, a stop is requested, outcomes are
reported, the broker changes its mind and time passes. An `Action` is one step of any of them, and a
run is a list of actions, in any order in which each of them can be taken.
-/

namespace ChangeRelay

/-- The first attempt to deliver a change, the `ticket`-th one. -/
def Terms.attempt (terms : Terms) (ticket : ℕ) (c : Change) : Attempt where
  ticket := ticket
  position := c.position
  row := c.row
  key := terms.plan.keyEncoding.key c.row
  value := if terms.keepsValues then some c.payload else none
  redirectTopic := terms.redirectTopic

/-- The exchange after the broker was asked about the topic of a change. -/
def Exchange.asks (x : Exchange) (c : Change) : Exchange :=
  { x with broker := (x.broker.lookUp (x.terms.plan.topic c)).2 }

/-- What a broker is going to do, apart from what it holds and has taken. -/
structure Conduct where
  script : List Outcome := []
  partitions : List (String × Int32) := []
  metadataError : Option String := none
  queueFull : Bool := false
  closed : Bool := false
deriving Repr, Inhabited

/-- A broker whose conduct has changed. -/
def Broker.behave (b : Broker) (c : Conduct) : Broker :=
  { b with
    script := c.script
    partitions := c.partitions
    metadataError := c.metadataError
    queueFull := c.queueFull
    closed := c.closed }

namespace Relay

/-- One step of the worker or of the world around it. -/
inductive Action
  /-- The worker takes a step. -/
  | work
  /-- The worker finds its queue abandoned, no matter whether a stop was requested meanwhile. -/
  | hangUp
  /-- An event is pushed, with the given result. -/
  | push (c : Change) (result : Pushed)
  | requestStop
  | closeBroker
  | dropPublisher
  /-- Time passes. -/
  | wait (millis : ℕ)
  /-- The broker changes its conduct. -/
  | behave (c : Conduct)
  /-- The broker reports the outcome of an attempt that it holds. -/
  | release (index : ℕ) (outcome : Except DeliveryError Receipt)
deriving Repr

/-- The relay after an action; `none` when the action cannot be taken. -/
def act (r : Relay) : Action → Option Relay
  | .work => r.step
  | .hangUp =>
    match r.phase, r.queue, r.hasPublisher with
    | .taking, [], false => some { r with phase := .failing .interrupted }
    | _, _, _ => none
  | .push c result =>
    match r.tryPush c with
    | some (actual, r') => if actual = result then some r' else none
    | none => none
  | .requestStop => some r.requestStop
  | .closeBroker => some r.closeBroker
  | .dropPublisher => some r.dropPublisher
  | .wait millis => some { r with clock := r.clock + millis }
  | .behave c =>
    some { r with exchange := { r.exchange with broker := r.exchange.broker.behave c } }
  | .release index outcome =>
    (r.exchange.release index outcome).map fun x => { r with exchange := x }

/-! ## What an action can be

The proofs about single actions do not open the functions: they go through the cases of `Taken`,
`Offered`, `Step` and `Act`, each of which says when it can be taken and which relay it leaves. -/

/-- What the worker makes of an event that it takes from the queue, by what comes of its record. -/
inductive Taken (r : Relay) (c : Change) (rest : List Change) :
    Except Error (Record × Turns) → Relay → Prop
  /-- The number of partitions is not told. -/
  | unmade (message : String) :
    Taken r c rest (.error (.metadata (r.exchange.terms.plan.topic c) message))
      { r with
        queue := rest
        exchange := r.exchange.asks c
        phase := .failing (.metadata (r.exchange.terms.plan.topic c) message) }
  | made (count : Int32) (record : Record) (turns : Turns)
      (hrecord : r.exchange.terms.plan.record r.exchange.turns c count = (record, turns))
      (lines : List LogLine) (hlines : ∀ line ∈ lines, line.level ≠ .warn) :
    Taken r c rest (.ok (record, turns))
      { r with
        queue := rest
        exchange :=
          ({ r.exchange.asks c with turns, ticket := r.exchange.ticket + 1 }.logs lines).submit
          (r.exchange.terms.attempt r.exchange.ticket c)
        lastPosition := some c.position
        phase := .offering ⟨record, r.exchange.terms.attempt r.exchange.ticket c⟩ }

theorem level_of_mem_buildLog {plan : RecordPlan} {c : Change} :
    ∀ line ∈ plan.buildLog c, line.level ≠ .warn := by
  intro line hline
  unfold RecordPlan.buildLog at hline
  split at hline
  · simp at hline
  · simp [List.mem_singleton.mp hline]

theorem exists_taken (r : Relay) (c : Change) (rest : List Change) :
    ∃ built, (r.exchange.terms.plan.build r.exchange.broker r.exchange.turns c).1 = built ∧
      Taken r c rest built (r.take c rest) := by
  refine ⟨_, rfl, ?_⟩
  cases hmetadata : r.exchange.broker.metadataError with
  | some message =>
    have hbuild : r.exchange.terms.plan.build r.exchange.broker r.exchange.turns c =
        (.error (.metadata (r.exchange.terms.plan.topic c) message),
          (r.exchange.asks c).broker) := by
      rw [RecordPlan.build, Exchange.asks, Broker.lookUp, hmetadata]
      rfl
    rw [take, hbuild]
    exact .unmade message
  | none =>
    let count := r.exchange.broker.partitionsOf (r.exchange.terms.plan.topic c)
    rcases hrecord : r.exchange.terms.plan.record r.exchange.turns c count with ⟨record, turns⟩
    have hbuild : r.exchange.terms.plan.build r.exchange.broker r.exchange.turns c =
        (.ok (record, turns), (r.exchange.asks c).broker) := by
      rw [← hrecord, RecordPlan.build, Exchange.asks, Broker.lookUp, hmetadata]
      rfl
    -- the attempt carries what the record was made of
    obtain ⟨rfl, -⟩ := Prod.mk.inj hrecord
    rw [take, hbuild]
    exact .made count _ turns hrecord _ level_of_mem_buildLog

/-- The event is announced with its record. -/
theorem Taken.history {r s : Relay} {c : Change} {rest : List Change}
    {built : Except Error (Record × Turns)} (h : Taken r c rest built s) :
    s.exchange.history = r.exchange.history ++
      match built with
      | .ok _ => [.submitted r.exchange.ticket c.position]
      | .error _ => [] := by
  cases h with
  | unmade message => exact (List.append_nil _).symm
  | made count record turns => rfl

/-- The warning about an event that is given up. -/
def abandoningLine (p : Position) : LogLine where
  level := .warn
  message := s!"Producer closed during shutdown, abandoning event at {p.shown}"

/-- What the worker makes of the reply to a record that it offered, when the exchange is `x` with
the broker's reply. -/
inductive Offered (r : Relay) (job : Job) (x : Exchange) : Reply → Relay → Prop
  | held : Offered r job x .pending { r with exchange := x, phase := .taking }
  | failed (e : DeliveryError) :
    Offered r job x (.failed e)
      { r with exchange := x.report job.attempt (.error e), phase := .taking }
  | delivered (receipt : Receipt) :
    Offered r job x (.delivered receipt)
      { r with exchange := x.report job.attempt (.ok receipt), phase := .taking }
  /-- There is no room for the record, and it will be offered again. -/
  | postponed (e : DeliveryError) (lines : List LogLine)
    (hlines : ∀ line ∈ lines, line.level ≠ .warn)
      (hfull : e.isQueueFull = true) :
    Offered r job x (.rejected e)
      { r with exchange := x.logs lines, phase := .pausing job (r.clock + retryPause) }
  /-- A closed broker refuses the record when the relay does not run any more. -/
  | abandoned (hstage : r.lifecycle.stage ≠ .running) :
    Offered r job x (.rejected .closed)
      { r with
        exchange := (x.logs [abandoningLine job.attempt.position]).notes
          (.abandoned job.attempt.ticket job.attempt.position)
        phase := .taking }
  | refused (e : DeliveryError) (hfull : e.isQueueFull = false) :
    Offered r job x (.rejected e)
      { r with exchange := x.report job.attempt (.error e), phase := .taking }

theorem exists_offered (r : Relay) (job : Job) :
    ∃ reply broker, r.exchange.broker.offer job.record job.attempt = (reply, broker) ∧
      Offered r job { r.exchange with broker } reply (r.offer job) := by
  rcases hanswer : r.exchange.broker.offer job.record job.attempt with ⟨reply, broker⟩
  refine ⟨reply, broker, rfl, ?_⟩
  rw [offer, hanswer]
  cases reply with
  | pending => exact .held
  | failed e => exact .failed e
  | delivered receipt => exact .delivered receipt
  | rejected e =>
    simp only
    split
    · next hfull => exact .postponed e _ (by simp) hfull
    · next hroom =>
      split
      · next hclosed =>
        rw [Bool.and_eq_true, decide_eq_true_eq, decide_eq_true_eq] at hclosed
        obtain ⟨rfl, hstage⟩ := hclosed
        exact .abandoned hstage
      · exact .refused e (eq_false_of_ne_true hroom)

/-- A step of the worker. The lines that it logs are no warnings, apart from those about a record.
-/
inductive Step (r : Relay) : Relay → Prop
  | started (lines : List LogLine) (hlines : ∀ line ∈ lines, line.level ≠ .warn)
      (hphase : r.phase = .unstarted) :
    Step r ({ r with lifecycle := r.lifecycle.start, phase := .taking }.logs lines)
  | took (c : Change) (rest : List Change) (hphase : r.phase = .taking)
      (hqueue : r.queue = c :: rest) : Step r (r.take c rest)
  | drained (lines : List LogLine) (hlines : ∀ line ∈ lines, line.level ≠ .warn)
      (hphase : r.phase = .taking) (hqueue : r.queue = [])
      (hstage : r.lifecycle.stage = .stopRequested) :
    Step r ({ r with phase := .leaving }.logs lines)
  /-- The queue is empty and nobody can push any more. -/
  | deserted (hphase : r.phase = .taking) (hqueue : r.queue = [])
      (hstage : r.lifecycle.stage ≠ .stopRequested) (hpublisher : r.hasPublisher = false) :
    Step r { r with phase := .failing .interrupted }
  | offered (job : Job) (hphase : r.phase = .offering job) : Step r (r.offer job)
  | resumed (job : Job) (wake : ℕ) (hphase : r.phase = .pausing job wake) (hwake : wake ≤ r.clock) :
    Step r { r with phase := .offering job }
  | failed (cause : Error) (lines : List LogLine) (hlines : ∀ line ∈ lines, line.level ≠ .warn)
      (hphase : r.phase = .failing cause) :
    Step r { r with exchange := (r.exchange.logs lines).notes (.broken cause), phase := .leaving }
  | left (hphase : r.phase = .leaving) : Step r { r with queueOpen := false, phase := .closing }
  | closed (hphase : r.phase = .closing) : Step r { r.closeBroker with phase := .flushing }
  | stopped (lines : List LogLine) (hlines : ∀ line ∈ lines, line.level ≠ .warn)
      (hphase : r.phase = .flushing) :
    Step r { r.logs lines with lifecycle := r.lifecycle.stop, queue := [], phase := .finished }

/-- An action of the worker or of the world around it. -/
inductive Act (r : Relay) : Action → Relay → Prop
  | work {r' : Relay} (hstep : Step r r') : Act r .work r'
  | hangUp (hphase : r.phase = .taking) (hqueue : r.queue = [])
    (hpublisher : r.hasPublisher = false) :
    Act r .hangUp { r with phase := .failing .interrupted }
  /-- A push succeeds when the queue is open and has room. -/
  | pushed (c : Change) (hopen : r.queueOpen = true) (hroom : r.hasRoom = true) :
    Act r (.push c .ok) { r with queue := r.queue ++ [c] }
  /-- A push fails when the queue is closed. -/
  | refused (c : Change) (hclosed : r.queueOpen = false) : Act r (.push c .interrupted) r
  | requestStop : Act r .requestStop r.requestStop
  | closeBroker : Act r .closeBroker r.closeBroker
  | dropPublisher : Act r .dropPublisher r.dropPublisher
  | wait (millis : ℕ) : Act r (.wait millis) { r with clock := r.clock + millis }
  | behave (c : Conduct) :
    Act r (.behave c)
      { r with exchange := { r.exchange with broker := r.exchange.broker.behave c } }
  | release (index : ℕ) (o : Except DeliveryError Receipt) (x : Exchange)
      (hrelease : r.exchange.release index o = some x) :
    Act r (.release index o) { r with exchange := x }

theorem Step.of_step {r r' : Relay} (h : r.step = some r') : Step r r' := by
  rw [step] at h
  split at h
  · next hphase =>
    obtain rfl := Option.some.inj h
    exact .started _ (by simp) hphase
  · next hphase =>
    split at h
    · next c rest hqueue =>
      obtain rfl := Option.some.inj h
      exact .took c rest hphase hqueue
    · next hqueue =>
      split at h
      · next hstage =>
        obtain rfl := Option.some.inj h
        exact .drained _ (by simp) hphase hqueue hstage
      · next hstage =>
        split at h
        · simp at h
        · next hpublisher =>
          obtain rfl := Option.some.inj h
          exact .deserted hphase hqueue hstage (eq_false_of_ne_true hpublisher)
  · next job hphase =>
    obtain rfl := Option.some.inj h
    exact .offered job hphase
  · next job wake hphase =>
    split at h
    · next hwake =>
      obtain rfl := Option.some.inj h
      exact .resumed job wake hphase hwake
    · simp at h
  · next cause hphase =>
    obtain rfl := Option.some.inj h
    exact .failed cause _ (by simp) hphase
  · next hphase =>
    obtain rfl := Option.some.inj h
    exact .left hphase
  · next hphase =>
    obtain rfl := Option.some.inj h
    exact .closed hphase
  · next hphase =>
    obtain rfl := Option.some.inj h
    exact .stopped _ (by simp [Lifecycle.stopLog]) hphase
  · simp at h

theorem Act.of_push {r r' : Relay} {c : Change} {result : Pushed}
    (h : r.act (.push c result) = some r') : Act r (.push c result) r' := by
  rw [act] at h
  split at h
  · next actual s hpush =>
    split at h
    · next hresult =>
      obtain rfl := hresult
      obtain rfl := Option.some.inj h
      rw [tryPush] at hpush
      split at hpush
      · next hclosed =>
        obtain ⟨rfl, rfl⟩ := Prod.mk.inj (Option.some.inj hpush)
        exact .refused c (by simpa using hclosed)
      · next hopen =>
        split at hpush
        · next hroom =>
          obtain ⟨rfl, rfl⟩ := Prod.mk.inj (Option.some.inj hpush)
          exact .pushed c (by simpa using hopen) hroom
        · simp at hpush
    · simp at h
  · simp at h

theorem Act.of_act {r r' : Relay} {a : Action} (h : r.act a = some r') : Act r a r' := by
  cases a with
  | work => exact .work (Step.of_step h)
  | hangUp =>
    rw [act] at h
    split at h
    · next hphase hqueue hpublisher =>
      obtain rfl := Option.some.inj h
      exact .hangUp hphase hqueue hpublisher
    · simp at h
  | push c result => exact .of_push h
  | requestStop =>
    obtain rfl := Option.some.inj h
    exact .requestStop
  | closeBroker =>
    obtain rfl := Option.some.inj h
    exact .closeBroker
  | dropPublisher =>
    obtain rfl := Option.some.inj h
    exact .dropPublisher
  | wait millis =>
    obtain rfl := Option.some.inj h
    exact .wait millis
  | behave c =>
    obtain rfl := Option.some.inj h
    exact .behave c
  | release index o =>
    obtain ⟨x, hx, rfl⟩ := Option.map_eq_some_iff.mp h
    exact .release index o x hx

theorem act_push_ok {r : Relay} (hopen : r.queueOpen = true) (hroom : r.hasRoom = true)
    (c : Change) : r.act (.push c .ok) = some { r with queue := r.queue ++ [c] } := by
  simp [act, tryPush, hopen, hroom]

/-- The relay after some actions, in order; `none` when one of them cannot be taken. -/
def after (r : Relay) : List Action → Option Relay
  | [] => some r
  | a :: rest => (r.act a).bind fun r => r.after rest

@[simp] theorem after_nil (r : Relay) : r.after [] = some r := rfl

theorem after_append (r : Relay) (a b : List Action) :
    r.after (a ++ b) = (r.after a).bind fun r => r.after b := by
  induction a generalizing r with
  | nil => rfl
  | cons c a ih =>
    rw [List.cons_append, after, after, Option.bind_assoc]
    exact Option.bind_congr fun r _ => ih r

theorem after_concat (r : Relay) (as : List Action) (a : Action) :
    r.after (as ++ [a]) = (r.after as).bind fun r => r.act a := by
  rw [after_append]
  exact Option.bind_congr fun r _ => Option.bind_fun_some (r.act a)

/-- What holds at the start and is kept by every action holds in every run. -/
theorem after_induction {r₀ : Relay} {P : List Action → Relay → Prop} (start : P [] r₀)
    (step : ∀ as r a r', r₀.after as = some r → P as r → r.act a = some r' → P (as ++ [a]) r')
    {as : List Action} {r : Relay} (h : r₀.after as = some r) : P as r := by
  -- the last action is the one that `step` is about, so the run is taken from its end
  induction as using List.reverseRecOn generalizing r with
  | nil => rwa [← Option.some.inj h]
  | append_singleton as a ih =>
    rw [after_concat] at h
    obtain ⟨s, hs, ha⟩ := Option.bind_eq_some_iff.mp h
    exact step as s a r hs (ih hs) ha

/-- A relay that has just been started, with a broker that holds nothing. -/
def Initial (resume : Option Position) (r : Relay) : Prop :=
  ∃ config broker keepsValues, broker.held = [] ∧ start config broker resume keepsValues = .ok r

/-- Nothing has happened yet to a relay that has just been started. -/
theorem Initial.eq {resume : Option Position} {r : Relay} (h : Initial resume r) :
    ∃ terms broker capacity, broker.held = [] ∧ 0 < capacity ∧
      r = { exchange := { terms, broker, progress := .resumed resume }, capacity,
            lifecycle := { name := workerName } } := by
  obtain ⟨config, broker, keepsValues, hheld, hstart⟩ := h
  simp only [start, bind, Except.bind] at hstart
  cases hcapacity : config.checkCapacity with
  | error e => simp [hcapacity, Except.mapError] at hstart
  | ok _ =>
    cases hterms : config.terms keepsValues with
    | error e => simp [hcapacity, hterms, Except.mapError] at hstart
    | ok terms =>
      simp only [hcapacity, hterms, Except.mapError] at hstart
      split at hstart
      · simp at hstart
      · refine ⟨terms, broker, _, hheld, ?_, (Except.ok.inj hstart).symm⟩
        -- a queue without room is refused at the start, so the capacity is positive
        by_contra hzero
        have hsame : config.queueCapacity = 0 := UInt64.toNat_inj.mp (Nat.eq_zero_of_not_pos hzero)
        simp [Config.Publishing.checkCapacity, hsame] at hcapacity

/-- A relay that has just been started with plain settings, one of them a topic for events whose
delivery fails, and with a broker that follows a script. -/
def plain (script : List Outcome) : Relay where
  exchange := {
    terms := {
      plan := {
        rowTopic := ⟨"rows"⟩
        schemaTopic := ⟨"rows"⟩
        rowPlacement := ⟨.polynomial, .database, .database⟩
        schemaPlacement := .ofSchemaChanges .polynomial
        keyEncoding := .digest }
      redirectTopic := some ⟨"dead"⟩ }
    broker := { script } }
  capacity := 100
  lifecycle := { name := workerName }

theorem initial_plain (script : List Outcome) : Initial none (plain script) :=
  ⟨{ topic := "rows", redirectTopic := some "dead" }, { script }, false, rfl, rfl⟩

end Relay

end ChangeRelay

import ChangeRelay.Proofs.Session.Causes
import ChangeRelay.Proofs.Session.Feeding
/-!
# The process

The main task reads changes and pushes them until the input ends, something goes wrong, the user
interrupts it or an alarm is raised, whichever is noticed first. Then it asks the worker to stop,
waits for it or closes the broker, and tells the first cause of alarm if there is one. Meanwhile the
worker, the broker and the clock do what they like.
-/

namespace ChangeRelay
namespace Session

open Relay

/-- Where the main task stands, with what came of the reading once it is over. -/
inductive Station
  /-- About to read the next change. -/
  | reading
  /-- About to push a change, as soon as there is room for it. -/
  | pushing (c : Change)
  /-- About to ask the worker to stop. -/
  | leaving (outcome : Except Error Unit)
  /-- Waiting for the worker to stop. -/
  | waiting (outcome : Except Error Unit)
  /-- About to close the broker, because the worker did not stop in time. -/
  | closing (outcome : Except Error Unit)
  /-- About to look for a cause of alarm. -/
  | judging (outcome : Except Error Unit)
  /-- At its end. -/
  | ended (failure : Option Error)

/-- Whether the main task is still reading and pushing. -/
def Station.isFeeding : Station → Bool
  | .reading | .pushing _ => true
  | .leaving _ | .waiting _ | .closing _ | .judging _ | .ended _ => false

/-- The main task together with its relay and its input. -/
structure Process where
  relay : Relay
  source : Source
  station : Station

/-- One step of the main task or of anything around it. -/
inductive Event
  /-- The worker, the broker or the clock does something. -/
  | around (a : Action)
  | read
  /-- The input cannot be read. -/
  | readFails (e : StorageError)
  | push
  /-- The user interrupts the process. -/
  | signal
  /-- The alarm is noticed. -/
  | alarmed
  | requestStop
  | stopped
  /-- The worker has not stopped in time. -/
  | timeOut
  | closeBroker
  | judge

/-- Whether an action is one of the main task. -/
def isMain : Action → Bool
  | .push .. | .requestStop | .closeBroker | .dropPublisher => true
  | .work | .hangUp | .wait _ | .behave _ | .release .. => false

namespace Process

/-- The process after an event; `none` when the event cannot happen. -/
def act (p : Process) : Event → Option Process
  | .around a =>
    if isMain a then none else (p.relay.act a).map fun relay => { p with relay }
  | .read =>
    match p.station with
    | .reading =>
      match p.source.next with
      | (.error e, source) => some { p with source, station := .leaving (.error e) }
      | (.ok none, source) => some { p with source, station := .leaving (.ok ()) }
      | (.ok (some c), source) => some { p with source, station := .pushing c }
    | _ => none
  | .readFails e =>
    match p.station with
    | .reading => some { p with station := .leaving (.error (.storage e)) }
    | _ => none
  | .push =>
    match p.station with
    | .pushing c =>
      match p.relay.tryPush c with
      | some (.ok, relay) => some { p with relay, station := .reading }
      | some (.interrupted, relay) =>
        some { p with relay, station := .leaving (.error .interrupted) }
      | _ => none
    | _ => none
  | .signal => if p.station.isFeeding then some { p with station := .leaving (.ok ()) } else none
  | .alarmed =>
    if p.station.isFeeding && p.relay.exchange.alarm.raised then
      some { p with station := .leaving (.ok ()) }
    else none
  | .requestStop =>
    match p.station with
    | .leaving outcome => some { p with relay := p.relay.requestStop, station := .waiting outcome }
    | _ => none
  | .stopped =>
    match p.station with
    | .waiting outcome =>
      if p.relay.isStopped then some { p with station := .judging outcome } else none
    | _ => none
  | .timeOut =>
    match p.station with
    | .waiting outcome => some { p with station := .closing outcome }
    | _ => none
  | .closeBroker =>
    match p.station with
    | .closing outcome => some { p with relay := p.relay.closeBroker, station := .judging outcome }
    | _ => none
  | .judge =>
    match p.station with
    | .judging outcome =>
      some { p with station := .ended (verdict p.relay.exchange.alarm outcome) }
    | _ => none

/-- The process after some events, in order; `none` when one of them cannot happen. -/
def after (p : Process) (es : List Event) : Option Process :=
  es.foldlM act p

/-- A process whose main task is about to read its first change. -/
def start (relay : Relay) (source : Source) : Process :=
  ⟨relay, source, .reading⟩

variable {p p' q : Process} {e : Event} {es : List Event}

theorem after_append (p : Process) (as bs : List Event) :
    p.after (as ++ bs) = (p.after as).bind fun p => p.after bs :=
  List.foldlM_append

/-- What holds at first and is kept by every event holds in every run. -/
theorem after_induction {P : Process → Prop} (start : P q)
    (step : ∀ p e p', P p → p.act e = some p' → P p') (h : q.after es = some p) : P p := by
  induction es generalizing q with
  | nil =>
    obtain rfl : q = p := by simpa [after] using h
    exact start
  | cons e es ih =>
    obtain ⟨q', hq', hrest⟩ : ∃ q', q.act e = some q' ∧ q'.after es = some p := by
      simpa [after, List.foldlM_cons, Option.bind_eq_some_iff] using h
    exact ih (step q e q' start hq') hrest

/-! ## One event -/

/-- What an event does to the relay and to where the main task stands. -/
inductive Passing (p p' : Process) : Prop
  /-- The relay does something while the main task stays where it is. -/
  | around (a : Action) (hact : p.relay.act a = some p'.relay) (hmain : isMain a = false)
      (hstation : p'.station = p.station)
  /-- The main task moves on, and the relay notices nothing of it. -/
  | moved (hrelay : p'.relay = p.relay) (hfeeding : p'.station.isFeeding = true →
      p.station.isFeeding = true) (hended : ∀ failure, p'.station ≠ .ended failure)
  | pushed (c : Change) (hstation : p.station = .pushing c)
      (hact : p.relay.act (.push c .ok) = some p'.relay) (hstation' : p'.station = .reading)
  | refused (c : Change) (hstation : p.station = .pushing c)
      (hact : p.relay.act (.push c .interrupted) = some p'.relay)
      (hstation' : p'.station = .leaving (.error .interrupted))
  | asked (outcome : Except Error Unit) (hact : p.relay.act .requestStop = some p'.relay)
      (hstation : p.station = .leaving outcome) (hstation' : p'.station = .waiting outcome)
  | closed (outcome : Except Error Unit) (hact : p.relay.act .closeBroker = some p'.relay)
      (hstation : p.station = .closing outcome) (hstation' : p'.station = .judging outcome)
  | judged (outcome : Except Error Unit) (hrelay : p'.relay = p.relay)
      (hstation : p.station = .judging outcome)
      (hstation' : p'.station = .ended (verdict p.relay.exchange.alarm outcome))

theorem passing_of_act (h : p.act e = some p') : Passing p p' := by
  -- most events take the main task behind its feeding, and that is all they do
  have hbehind {s : Station} (hp : some { p with station := s } = some p')
      (hfeeding : s.isFeeding = false) (hended : ∀ failure, s ≠ .ended failure) : Passing p p' := by
    obtain rfl := Option.some.inj hp
    exact .moved rfl (fun hyes => absurd hyes (by simp [hfeeding])) hended
  cases e with
  | around a =>
    rw [act] at h
    split at h
    · simp at h
    · next hmain =>
      obtain ⟨relay, hact, rfl⟩ := Option.map_eq_some_iff.mp h
      exact .around a hact (eq_false_of_ne_true hmain) rfl
  | read =>
    rw [act] at h
    split at h
    · next hstation =>
      have hfeeding : p.station.isFeeding = true := by rw [hstation]; rfl
      split at h
      all_goals
        obtain rfl := Option.some.inj h
        exact .moved rfl (fun _ => hfeeding) (by simp)
    · simp at h
  | readFails e =>
    rw [act] at h
    split at h
    · exact hbehind h rfl (by simp)
    · simp at h
  | push =>
    rw [act] at h
    split at h
    · next c hstation =>
      split at h
      · next relay hpush =>
        obtain rfl := Option.some.inj h
        refine .pushed c hstation ?_ rfl
        rw [Relay.act, hpush]
        rfl
      · next relay hpush =>
        obtain rfl := Option.some.inj h
        refine .refused c hstation ?_ rfl
        rw [Relay.act, hpush]
        rfl
      · simp at h
    · simp at h
  | signal =>
    rw [act] at h
    split at h
    · exact hbehind h rfl (by simp)
    · simp at h
  | alarmed =>
    rw [act] at h
    split at h
    · exact hbehind h rfl (by simp)
    · simp at h
  | requestStop =>
    rw [act] at h
    split at h
    · next outcome hstation =>
      obtain rfl := Option.some.inj h
      exact .asked outcome rfl hstation rfl
    · simp at h
  | stopped =>
    rw [act] at h
    split at h
    · split at h
      · exact hbehind h rfl (by simp)
      · simp at h
    · simp at h
  | timeOut =>
    rw [act] at h
    split at h
    · exact hbehind h rfl (by simp)
    · simp at h
  | closeBroker =>
    rw [act] at h
    split at h
    · next outcome hstation =>
      obtain rfl := Option.some.inj h
      exact .closed outcome rfl hstation rfl
    · simp at h
  | judge =>
    rw [act] at h
    split at h
    · next outcome hstation =>
      obtain rfl := Option.some.inj h
      exact .judged outcome rfl hstation rfl
    · simp at h

/-! ## Runs of the process -/

/-- The relay of a process comes from its start by actions, and nobody asks it to stop while the
main task is reading and pushing. -/
structure Link (r₀ : Relay) (as : List Action) (p : Process) : Prop where
  run : r₀.after as = some p.relay
  kept : .dropPublisher ∉ as
  unasked : p.station.isFeeding = true → .requestStop ∉ as

theorem Link.concat {r₀ : Relay} {as : List Action} (h : Link r₀ as p) {a : Action}
    (hact : p.relay.act a = some p'.relay) (hkept : a ≠ .dropPublisher)
    (hunasked : p'.station.isFeeding = true → p.station.isFeeding = true ∧ a ≠ .requestStop) :
    Link r₀ (as ++ [a]) p' where
  run := by
    rw [Relay.after_concat, h.run]
    exact hact
  kept := by simp [h.kept, Ne.symm hkept]
  unasked hfeeding := by
    obtain ⟨hfeeding', hne⟩ := hunasked hfeeding
    simp [h.unasked hfeeding', Ne.symm hne]

theorem Link.act {r₀ : Relay} {as : List Action} (h : Link r₀ as p) (hact : p.act e = some p') :
    ∃ as', Link r₀ as' p' := by
  have hstay (hrelay : p'.relay = p.relay)
      (hfeeding : p'.station.isFeeding = true → p.station.isFeeding = true) : Link r₀ as p' :=
    ⟨hrelay ▸ h.run, h.kept, fun hp' => h.unasked (hfeeding hp')⟩
  cases passing_of_act hact with
  | around a hact' hmain hstation =>
    have hne (b : Action) (hb : isMain b = true) : a ≠ b := by
      rintro rfl
      simp [hmain] at hb
    exact ⟨_, h.concat hact' (hne _ rfl) fun hp' => ⟨hstation ▸ hp', hne _ rfl⟩⟩
  | moved hrelay hfeeding => exact ⟨as, hstay hrelay hfeeding⟩
  | pushed c hstation hact' =>
    exact ⟨_, h.concat hact' (by simp) fun _ => ⟨by rw [hstation]; rfl, by simp⟩⟩
  | refused c hstation hact' =>
    exact ⟨_, h.concat hact' (by simp) fun _ => ⟨by rw [hstation]; rfl, by simp⟩⟩
  | asked outcome hact' _ hstation' =>
    exact ⟨_, h.concat hact' (by simp) (by simp [hstation', Station.isFeeding])⟩
  | closed outcome hact' _ hstation' =>
    exact ⟨_, h.concat hact' (by simp) (by simp [hstation', Station.isFeeding])⟩
  | judged outcome hrelay _ hstation' =>
    exact ⟨as, hstay hrelay (by simp [hstation', Station.isFeeding])⟩

/-- What was told as a cause before an event is told in the same place after it. -/
theorem causes_isPrefix (h : p.act e = some p') : p.relay.causes <+: p'.relay.causes := by
  have hsame (hrelay : p'.relay = p.relay) : p.relay.causes <+: p'.relay.causes :=
    hrelay ▸ List.prefix_rfl
  cases passing_of_act h with
  | around a hact => exact causes_prefix_of_act hact
  | moved hrelay => exact hsame hrelay
  | pushed c _ hact => exact causes_prefix_of_act hact
  | refused c _ hact => exact causes_prefix_of_act hact
  | asked outcome hact => exact causes_prefix_of_act hact
  | closed outcome hact => exact causes_prefix_of_act hact
  | judged outcome hrelay => exact hsame hrelay

theorem verdict_of_cause {x : Exchange} {cause : Error}
    (h : (Note.causes x.history).head? = some cause) (outcome : Except Error Unit) :
    verdict x.alarm outcome = some cause := by
  simp [verdict, Alarm.take, x.alarm_eq, h]

theorem head?_of_isPrefix {α : Type} {as bs : List α} (h : as <+: bs) {a : α}
    (ha : as.head? = some a) : bs.head? = some a := by
  obtain ⟨rest, rfl⟩ := h
  rw [List.head?_append, ha]
  rfl

/-- Once there is a cause, the process cannot end in any other way. -/
theorem ended_of_cause {cause : Error} (hcause : q.relay.causes.head? = some cause)
    (hfeeding : q.station.isFeeding = true) (h : q.after es = some p) :
    p.relay.causes.head? = some cause ∧
      ∀ failure, p.station = .ended failure → failure = some cause := by
  refine after_induction (P := fun p => p.relay.causes.head? = some cause ∧
    ∀ failure, p.station = .ended failure → failure = some cause) ⟨hcause, ?_⟩ ?_ h
  · intro failure hended
    rw [hended] at hfeeding
    simp [Station.isFeeding] at hfeeding
  · rintro p e p' ⟨hp, hfailure⟩ hact
    refine ⟨head?_of_isPrefix (causes_isPrefix hact) hp, fun failure hended => ?_⟩
    cases passing_of_act hact with
    | around a _ _ hstation => exact hfailure failure (hstation ▸ hended)
    | moved _ _ hnot => exact absurd hended (hnot failure)
    | pushed c _ _ hstation' => simp [hstation'] at hended
    | refused c _ _ hstation' => simp [hstation'] at hended
    | asked outcome _ _ hstation' => simp [hstation'] at hended
    | closed outcome _ _ hstation' => simp [hstation'] at hended
    | judged outcome hrelay _ hstation' =>
      rw [hstation'] at hended
      obtain rfl := Station.ended.inj hended
      exact verdict_of_cause hp outcome

/-- The main task can always go on to its end. -/
theorem exists_end (p : Process) : ∃ es p' failure, p.after es = some p' ∧
    p'.station = .ended failure := by
  obtain ⟨relay, source, station⟩ := p
  cases station with
  | reading => exact ⟨[.signal, .requestStop, .timeOut, .closeBroker, .judge], _, _, rfl, rfl⟩
  | pushing c => exact ⟨[.signal, .requestStop, .timeOut, .closeBroker, .judge], _, _, rfl, rfl⟩
  | leaving outcome => exact ⟨[.requestStop, .timeOut, .closeBroker, .judge], _, _, rfl, rfl⟩
  | waiting outcome => exact ⟨[.timeOut, .closeBroker, .judge], _, _, rfl, rfl⟩
  | closing outcome => exact ⟨[.closeBroker, .judge], _, _, rfl, rfl⟩
  | judging outcome => exact ⟨[.judge], _, _, rfl, rfl⟩
  | ended failure => exact ⟨[], _, failure, rfl, rfl⟩

section Run

variable {resume : Option Position} {r₀ : Relay} {source : Source} {before : List Event}

theorem exists_link (h : (start r₀ source).after es = some p) : ∃ as, Link r₀ as p := by
  refine after_induction (P := fun p => ∃ as, Link r₀ as p) ⟨[], rfl, by simp, by simp⟩ ?_ h
  rintro p e p' ⟨as, hp⟩ hact
  exact hp.act hact

/-- A push that is refused was preceded by an alarm. Whatever happens then and whichever of the
push, the alarm and the user the main task notices first, the process ends with the first cause that
was ever told, which is not that the push was refused; and it can always go on to its end. -/
theorem first_cause_of_refused (hinit : Initial resume r₀)
    (hbefore : (start r₀ source).after before = some q) {c : Change}
    (hpushing : q.station = .pushing c)
    (hrefused : q.relay.tryPush c = some (.interrupted, q.relay)) (h : q.after es = some p) :
    ∃ cause, q.relay.exchange.alarm = ⟨some cause, true⟩ ∧ q.relay.causes.head? = some cause ∧
      cause ≠ .interrupted ∧ (∀ failure, p.station = .ended failure → failure = some cause) ∧
      ∃ more p', p.after more = some p' ∧ p'.station = .ended (some cause) := by
  have hfeeding : q.station.isFeeding = true := by rw [hpushing]; rfl
  have hclosed : q.relay.queueOpen = false := by
    have hact : q.relay.act (.push c .interrupted) = some q.relay := by
      rw [Relay.act, hrefused]
      rfl
    cases Act.of_act hact with
    | refused _ hclosed => exact hclosed
  obtain ⟨as, hlink⟩ := exists_link hbefore
  have hcauses := causes_of_queueOpen hinit hlink.run hclosed (hlink.unasked hfeeding)
  obtain ⟨cause, rest, hcause⟩ := List.exists_cons_of_ne_nil hcauses
  have hhead : q.relay.causes.head? = some cause := by rw [hcause]; rfl
  refine ⟨cause, ?_, hhead, ?_, (ended_of_cause hhead hfeeding h).2, ?_⟩
  · rw [q.relay.exchange.alarm_eq]
    show (⟨q.relay.causes.head?, !q.relay.causes.isEmpty⟩ : Alarm) = _
    rw [hcause]
    rfl
  · exact (sincere_after hinit hlink.run hlink.kept).ne_interrupted (hcause ▸ List.mem_cons_self)
  · obtain ⟨more, p', failure, hmore, hended⟩ := exists_end p
    have hall : q.after (es ++ more) = some p' := by
      rw [after_append, h]
      exact hmore
    obtain rfl := (ended_of_cause hhead hfeeding hall).2 failure hended
    exact ⟨more, p', hmore, hended⟩

/-- The metadata of a topic are lost while the first of two changes is under way, so the second one
is refused: however the process goes on, it ends with the metadata. -/
theorem lost_metadata_of_refused :
    ∃ source before q c, (start (plain []) source).after before = some q ∧
      q.station = .pushing c ∧ q.relay.tryPush c = some (.interrupted, q.relay) ∧
      ∀ es p, q.after es = some p →
        ∀ failure, p.station = .ended failure → failure = some (.metadata "rows" "down") := by
  set source : Source := .start
    "[[\"log\",1],[\"shop\"],\"\"]\n[[\"log\",2],[\"shop\"],\"\"]\n".toUTF8.toList none
  set before : List Event := [.around (.behave { metadataError := some "down" }), .read, .push,
    .around .work, .around .work, .around .work, .around .work, .read]
  have hrun : ((start (plain []) source).after before).any (fun q => !q.relay.queueOpen &&
      (q.relay.causes == [.metadata "rows" "down"] && match q.station with
        | .pushing _ => true
        | _ => false)) = true := by decide +kernel
  obtain ⟨q, hq, hchecks⟩ := (Option.any_eq_true _ _).mp hrun
  simp only [Bool.and_eq_true, Bool.not_eq_true', beq_iff_eq] at hchecks
  obtain ⟨hclosed, hcauses, hstation⟩ := hchecks
  obtain ⟨c, hpushing⟩ : ∃ c, q.station = .pushing c := by
    split at hstation
    · next c hpushing => exact ⟨c, hpushing⟩
    · simp at hstation
  have hrefused : q.relay.tryPush c = some (.interrupted, q.relay) := by simp [tryPush, hclosed]
  refine ⟨source, before, q, c, hq, hpushing, hrefused, fun es p h failure hended => ?_⟩
  obtain ⟨cause, -, hcause, -, hends, -⟩ :=
    first_cause_of_refused (initial_plain []) hq hpushing hrefused h
  obtain rfl : .metadata "rows" "down" = cause := by simpa [hcauses] using hcause
  exact hends failure hended

end Run

end Process
end Session
end ChangeRelay

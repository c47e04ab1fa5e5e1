import ChangeRelay.Proofs.Run.Fate
/-!
# Tolerated failures

A record that is too large for its topic is no reason to stop: its event is redirected, and the
redirected record is what has to arrive. `gentle` is the conduct of a broker that redirection is
made for. Under it an event is completed after one of its records was delivered, unless its failure
is reported when the worker has closed the broker: then the redirected record is refused, and the
failure is fatal or, when failures are ignored, the event is lost.
-/

namespace ChangeRelay

/-- Whether the broker has taken the record, and nothing has gone wrong with it. -/
def Reply.isTaken : Reply → Bool
  | .pending | .delivered _ => true
  | .rejected _ | .failed _ => false

namespace Exchange

open Note

/-- Whether the failure of an attempt is one that redirection is for: the record was too large and
its event was not redirected before, and the broker takes the redirected record unless it is
closed. -/
def tolerates (x : Exchange) (a : Attempt) (e : DeliveryError) : Bool :=
  match a.redirectTopic with
  | none => false
  | some topic =>
    e.isTooLarge && (x.broker.closed ||
      (x.broker.offer (x.terms.plan.redirected topic a.row e.kind) a.again).1.isTaken)

/-- The last note about an event whose redirected record was refused by a closed broker. -/
def refusal (terms : Terms) (t : ℕ) (p : Position) : Note :=
  if terms.ignoreErrors then .completed t p else .fatal t .closed

theorem refusal_spec (terms : Terms) (t : ℕ) (p : Position) :
    ((refusal terms t p).kind = .completed ∨ (refusal terms t p).kind = .fatal) ∧
      (refusal terms t p).ticket? = some t := by
  unfold refusal
  split
  · exact ⟨.inl rfl, rfl⟩
  · exact ⟨.inr rfl, rfl⟩

/-- What is noted of a tolerated failure. -/
inductive Tolerated (x : Exchange) (a : Attempt) (e : DeliveryError) (r : Record) : List Note → Prop
  | pending (hopen : x.broker.closed = false) :
    Tolerated x a e r [.failed a.ticket e, .redirected a.ticket r]
  | delivered (hopen : x.broker.closed = false) (receipt : Receipt) :
    Tolerated x a e r [.failed a.ticket e, .redirected a.ticket r, .delivered a.ticket receipt,
      .completed a.ticket a.position]
  | refused (hclosed : x.broker.closed = true) :
    Tolerated x a e r [.failed a.ticket e, .redirected a.ticket r, .failed a.ticket .closed,
      refusal x.terms a.ticket a.position]

/-- Offering a record neither opens nor closes a broker. -/
theorem closed_offer (b : Broker) (r : Record) (a : Attempt) :
    (b.offer r a).2.closed = b.closed := by
  unfold Broker.offer
  simp only
  split
  · rfl
  · split
    · rfl
    · split <;> rfl

theorem offer_of_closed {b : Broker} (hclosed : b.closed = true) (r : Record) (a : Attempt) :
    (b.offer r a).1 = .rejected .closed := by
  simp [Broker.offer, hclosed]

/-- What a closed broker refuses is fatal, unless failures are ignored. -/
theorem history_failFinally_closed (x : Exchange) (a : Attempt) :
    (x.failFinally a .closed).history =
      x.history ++ [.failed a.ticket .closed, refusal x.terms a.ticket a.position] := by
  have hterms : (x.noteFailure a .closed).terms = x.terms := rfl
  rw [failFinally, hterms, refusal]
  cases hignore : x.terms.ignoreErrors with
  | false =>
    have hfatal : DeliveryError.closed.severity false = .fatal := rfl
    rw [hfatal]
    simp [noteFailure, notes, logs]
  | true =>
    have hignorable : DeliveryError.closed.severity true = .ignorable := rfl
    rw [hignorable]
    simp [noteFailure, complete, notes, logs]

/-- A tolerated failure redirects its event, and a closed broker refuses the redirected record. -/
theorem fail_of_tolerates {x : Exchange} {a : Attempt} {e : DeliveryError}
    (h : x.tolerates a e = true) :
    (x.fail a e).broker.closed = x.broker.closed ∧
      ∃ r notes, Tolerated x a e r notes ∧ (x.fail a e).history = x.history ++ notes := by
  rw [tolerates] at h
  cases htopic : a.redirectTopic with
  | none => simp [htopic] at h
  | some topic =>
    rw [htopic, Bool.and_eq_true, Bool.or_eq_true] at h
    obtain ⟨hlarge, htaken⟩ := h
    have hsev : e.severity x.terms.ignoreErrors = .oversized := by
      rw [DeliveryError.severity, if_pos hlarge]
    have hfail : x.fail a e = (x.noteFailure a e).redirect a topic e := by
      rw [fail, htopic]
      simp only [hsev]
    rw [hfail, redirect_eq]
    have hterms : (x.noteFailure a e).terms = x.terms := rfl
    have hbroker : (x.noteFailure a e).broker = x.broker := rfl
    rw [hterms, hbroker]
    set r := x.terms.plan.redirected topic a.row e.kind
    set y := (x.noteFailure a e).reoffered a r
    have hhistory : y.history = x.history ++ [.failed a.ticket e, .redirected a.ticket r] := by
      simp [y, reoffered, noteFailure, notes, logs]
    have hsame : y.broker.closed = x.broker.closed := closed_offer x.broker r a.again
    cases hclosed : x.broker.closed with
    | true =>
      -- the redirected record is refused, and it has nowhere else to go
      rw [offer_of_closed hclosed, replied, broker_failFinally, hsame, hclosed]
      refine ⟨rfl, r, _, .refused hclosed, ?_⟩
      rw [history_failFinally_closed, hhistory, List.append_assoc]
      rfl
    | false =>
      rw [hclosed, Bool.false_eq_true, false_or] at htaken
      cases hreply : (x.broker.offer r a.again).1 with
      | rejected e => simp [hreply, Reply.isTaken] at htaken
      | failed e => simp [hreply, Reply.isTaken] at htaken
      | pending => exact ⟨hsame.trans hclosed, r, _, .pending hclosed, hhistory⟩
      | delivered receipt =>
        refine ⟨hsame.trans hclosed, r, _, .delivered hclosed receipt, ?_⟩
        rw [replied, (y.follows_succeed a.again receipt).history, hhistory, List.append_assoc]
        rfl

end Exchange

namespace Relay

open Note Exchange

/-! ## Gentle runs -/

/-- Whether an action is one that redirection is made for. Only the worker closes the broker; while
the broker is open, a record of an event that was not redirected fails only because it is too
large, or is refused for want of room; and a redirected record is taken and delivered. -/
def gentle (r : Relay) : Action → Bool
  | .work =>
    match r.phase with
    | .offering job =>
      let x := r.exchange
      let (reply, broker) := x.broker.offer job.record job.attempt
      match reply with
      | .rejected e =>
        x.broker.closed || e.isQueueFull || { x with broker }.tolerates job.attempt e
      | .failed e => { x with broker }.tolerates job.attempt e
      | .pending | .delivered _ => true
    | _ => true
  | .closeBroker => false
  | .behave c => c.closed == r.exchange.broker.closed
  | .release index (.error e) =>
    match r.exchange.broker.held[index]? with
    | some a =>
      let broker := { r.exchange.broker with held := r.exchange.broker.held.eraseIdx index }
      { r.exchange with broker }.tolerates a e
    | none => true
  | _ => true

/-- Whether all actions of a run are gentle. -/
def gently (r : Relay) : List Action → Bool
  | [] => true
  | a :: rest =>
    r.gentle a &&
      match r.act a with
      | some r => r.gently rest
      | none => true

theorem gently_concat {r₀ r : Relay} {as : List Action} (hrun : r₀.after as = some r) (a : Action)
    (h : r₀.gently (as ++ [a]) = true) : r₀.gently as = true ∧ r.gentle a = true := by
  induction as generalizing r₀ with
  | nil =>
    obtain rfl := Option.some.inj hrun
    rw [List.nil_append, gently, Bool.and_eq_true] at h
    exact ⟨rfl, h.1⟩
  | cons b as ih =>
    rw [after] at hrun
    obtain ⟨s, hs, hrest⟩ := Option.bind_eq_some_iff.mp hrun
    rw [List.cons_append, gently, hs, Bool.and_eq_true] at h
    obtain ⟨hall, hlast⟩ := ih hrest h.2
    refine ⟨?_, hlast⟩
    rw [gently, hs, h.1]
    exact hall

/-- A failure of event `t` is reported although the broker is closed. -/
def FailsLate (r : Relay) (action : Action) (t : ℕ) : Prop :=
  ∃ index e a, action = .release index (.error e) ∧ r.exchange.broker.closed = true ∧
    r.exchange.broker.held[index]? = some a ∧ a.ticket = t

/-- A failure of event `t` was reported when the broker was closed. -/
def FailedLate (r₀ : Relay) (as : List Action) (t : ℕ) : Prop :=
  ∃ before action rest s, as = before ++ action :: rest ∧ r₀.after before = some s ∧
    s.FailsLate action t

theorem failedLate_concat {r₀ r : Relay} {as : List Action} {a : Action} {t : ℕ}
    (hrun : r₀.after as = some r) :
    FailedLate r₀ (as ++ [a]) t ↔ FailedLate r₀ as t ∨ r.FailsLate a t := by
  constructor
  · rintro ⟨before, action, rest, s, hsplit, hs, hlate⟩
    rcases List.eq_nil_or_concat rest with rfl | ⟨rest, last, rfl⟩
    · -- the failure is the last action
      obtain ⟨rfl, hlast⟩ := List.append_inj' hsplit rfl
      obtain rfl := List.singleton_inj.mp hlast
      rw [hrun] at hs
      obtain rfl := Option.some.inj hs
      exact .inr hlate
    · rw [List.concat_eq_append, ← List.cons_append, ← List.append_assoc] at hsplit
      exact .inl ⟨before, action, rest, s, (List.append_inj' hsplit rfl).1, hs, hlate⟩
  · rintro (⟨before, action, rest, s, rfl, hs, hlate⟩ | hlate)
    · exact ⟨before, action, rest ++ [a], s, by simp, hs, hlate⟩
    · exact ⟨as, a, [], r, rfl, hrun, hlate⟩

/-! ## One action -/

/-- What makes a worker fail when nobody closes the broker: a topic whose partitions are not told,
or an abandoned queue. -/
def IsOutage (e : Error) : Prop :=
  e = .interrupted ∨ ∃ topic message, e = .metadata topic message

/-- What a gentle action notes. -/
inductive Mild (r : Relay) (action : Action) : List Note → Prop
  | quiet : Mild r action []
  | announced (t : ℕ) (p : Position) : Mild r action [.submitted t p]
  | broken (e : Error) (he : IsOutage e) : Mild r action [.broken e]
  | delivered (a : Attempt) (receipt : Receipt) :
    Mild r action [.delivered a.ticket receipt, .completed a.ticket a.position]
  | tolerated (x : Exchange) (a : Attempt) (e : DeliveryError) (record : Record)
      {notes : List Note} (h : Tolerated x a e record notes)
      (hterms : x.terms = r.exchange.terms)
      (hlate : x.broker.closed = true → r.FailsLate action a.ticket) : Mild r action notes

/-- The broker is open until the worker closes it, and the worker fails because of outages only. -/
structure Tempered (r : Relay) : Prop where
  closed : r.exchange.broker.closed = true → r.phase = .flushing ∨ r.phase = .finished
  cause : ∀ e, r.phase = .failing e → IsOutage e

/-- What a gentle action comes to: mild notes, and a relay that is as tempered as before. -/
structure Calm (r : Relay) (action : Action) (r' : Relay) : Prop where
  notes : ∃ notes, r'.exchange.history = r.exchange.history ++ notes ∧ Mild r action notes
  tempered : Tempered r'

/-- The broker is open while the worker has not closed it. -/
theorem Tempered.isOpen {r : Relay} (h : Tempered r)
    (hphase : r.phase ≠ .flushing ∧ r.phase ≠ .finished) : r.exchange.broker.closed = false := by
  cases hclosed : r.exchange.broker.closed with
  | false => rfl
  | true =>
    rcases h.closed hclosed with hp | hp
    · exact absurd hp hphase.1
    · exact absurd hp hphase.2

/-- An action that notes nothing and leaves phase and broker as they are. -/
theorem Calm.around {r r' : Relay} {action : Action} (h : Tempered r)
    (hhistory : r'.exchange.history = r.exchange.history)
    (hclosed : r'.exchange.broker.closed = r.exchange.broker.closed) (hphase : r'.phase = r.phase) :
    Calm r action r' where
  notes := ⟨[], by rw [hhistory, List.append_nil], .quiet⟩
  tempered := ⟨by rw [hclosed, hphase]; exact h.closed, by rw [hphase]; exact h.cause⟩

/-- A step of the worker that leaves the broker open. -/
theorem Calm.ofOpen {r r' : Relay} {notes : List Note} {action : Action}
    (hhistory : r'.exchange.history = r.exchange.history ++ notes) (hmild : Mild r action notes)
    (hopen : r'.exchange.broker.closed = false) (hcause : ∀ e, r'.phase = .failing e → IsOutage e) :
    Calm r action r' where
  notes := ⟨notes, hhistory, hmild⟩
  tempered := ⟨fun hclosed => by simp [hopen] at hclosed, hcause⟩

theorem take_calm {r : Relay} (h : Tempered r) (hphase : r.phase = .taking) (c : Change)
    (rest : List Change) : Calm r .work (r.take c rest) := by
  have hopen : r.exchange.broker.closed = false := h.isOpen (by simp [hphase])
  obtain ⟨built, -, htaken⟩ := r.exists_taken c rest
  generalize r.take c rest = s at htaken ⊢
  cases htaken with
  | unmade message =>
    refine .ofOpen (List.append_nil _).symm .quiet hopen fun e he => ?_
    obtain rfl := Phase.failing.inj he
    exact .inr ⟨_, _, rfl⟩
  | made count record turns => exact .ofOpen rfl (.announced _ _) hopen (by simp)

theorem offer_calm {r : Relay} (h : Tempered r) {job : Job} (hphase : r.phase = .offering job)
    (hgentle : r.gentle .work = true) : Calm r .work (r.offer job) := by
  have hopen : r.exchange.broker.closed = false := h.isOpen (by simp [hphase])
  have hsame := closed_offer r.exchange.broker job.record job.attempt
  obtain ⟨reply, broker, hanswer, hoffered⟩ := r.exists_offered job
  simp only [gentle, hphase, hopen, Bool.false_or, hanswer] at hgentle
  rw [hanswer, hopen] at hsame
  set x : Exchange := { r.exchange with broker }
  -- a failure that is reported at once is a tolerated one
  have hfail (e : DeliveryError) (ht : x.tolerates job.attempt e = true) :
      Calm r .work { r with exchange := x.report job.attempt (.error e), phase := .taking } := by
    obtain ⟨hkept, record, notes, htolerated, hhistory⟩ := fail_of_tolerates ht
    refine .ofOpen hhistory (.tolerated x _ e record htolerated rfl fun hclosed => ?_)
      (hkept.trans hsame) (by simp)
    rw [show x.broker.closed = false from hsame] at hclosed
    exact absurd hclosed Bool.false_ne_true
  generalize r.offer job = s at hoffered ⊢
  cases hoffered with
  | held => exact .ofOpen (List.append_nil _).symm .quiet hsame (by simp)
  | failed e => exact hfail e hgentle
  | delivered receipt =>
    exact .ofOpen (x.follows_succeed job.attempt receipt).history (.delivered _ receipt) hsame
      (by simp)
  | postponed => exact .ofOpen (List.append_nil _).symm .quiet hsame (by simp)
  | abandoned =>
    -- what is too large is not refused because the broker is closed
    cases htopic : job.attempt.redirectTopic <;>
      simp [tolerates, DeliveryError.isQueueFull, DeliveryError.isTooLarge, htopic] at hgentle
  | refused e hfull => exact hfail e (by simpa [hfull] using hgentle)

theorem step_calm {r r' : Relay} (h : Tempered r) (hgentle : r.gentle .work = true)
    (hstep : Step r r') : Calm r .work r' := by
  have hsame : r.exchange.history = r.exchange.history ++ [] := (List.append_nil _).symm
  cases hstep with
  | started _ _ hphase =>
    exact .ofOpen hsame .quiet (h.isOpen (by simp [hphase])) (by simp [logs])
  | took c rest hphase => exact take_calm h hphase c rest
  | drained _ _ hphase =>
    exact .ofOpen hsame .quiet (h.isOpen (by simp [hphase])) (by simp [logs])
  | deserted hphase =>
    refine .ofOpen hsame .quiet (h.isOpen (by simp [hphase])) fun e he => ?_
    exact .inl (Phase.failing.inj he).symm
  | offered job hphase => exact offer_calm h hphase hgentle
  | resumed job wake hphase =>
    exact .ofOpen hsame .quiet (h.isOpen (by simp [hphase])) (by simp)
  | failed cause _ _ hphase =>
    exact .ofOpen rfl (.broken cause (h.cause cause hphase)) (h.isOpen (by simp [hphase]))
      (by simp)
  | left hphase => exact .ofOpen hsame .quiet (h.isOpen (by simp [hphase])) (by simp)
  -- the broker is closed in the last two steps only
  | closed => exact ⟨⟨[], hsame, .quiet⟩, fun _ => .inl rfl, by simp⟩
  | stopped => exact ⟨⟨[], hsame, .quiet⟩, fun _ => .inr rfl, by simp⟩

/-- What is reported of an attempt that the broker holds. -/
theorem release_calm {r : Relay} (h : Tempered r) {index : ℕ} {o : Except DeliveryError Receipt}
    {x : Exchange} (hgentle : r.gentle (.release index o) = true)
    (hrelease : r.exchange.release index o = some x) :
    Calm r (.release index o) { r with exchange := x } := by
  rw [release] at hrelease
  obtain ⟨a, ha, hx⟩ := Option.bind_eq_some_iff.mp hrelease
  obtain rfl := Option.some.inj hx
  set y : Exchange := { r.exchange with
    broker := { r.exchange.broker with held := r.exchange.broker.held.eraseIdx index } } with hy
  cases o with
  | ok receipt =>
    exact ⟨⟨_, (y.follows_succeed a receipt).history, .delivered a receipt⟩, h.closed, h.cause⟩
  | error e =>
    simp only [gentle, ha] at hgentle
    obtain ⟨hkept, record, notes, htolerated, hhistory⟩ := fail_of_tolerates hgentle
    refine
      ⟨⟨notes, hhistory, .tolerated y a e record htolerated rfl fun hclosed => ?_⟩, ?_, h.cause⟩
    · exact ⟨index, e, a, rfl, hclosed, ha, rfl⟩
    · intro hclosed
      exact h.closed (hkept.symm.trans hclosed)

/-- Every gentle action is calm. -/
theorem act_calm {r r' : Relay} {a : Action} (h : Tempered r) (hgentle : r.gentle a = true)
    (hact : r.act a = some r') : Calm r a r' := by
  cases Act.of_act hact with
  | work hstep => exact step_calm h hgentle hstep
  | hangUp hphase =>
    refine .ofOpen (List.append_nil _).symm .quiet (h.isOpen (by simp [hphase])) fun e he => ?_
    exact .inl (Phase.failing.inj he).symm
  | pushed => exact .around h rfl rfl rfl
  | refused => exact .around h rfl rfl rfl
  | requestStop => exact .around h rfl rfl rfl
  | closeBroker => simp [gentle] at hgentle
  | dropPublisher => exact .around h rfl rfl rfl
  | wait => exact .around h rfl rfl rfl
  | behave c => exact .around h rfl (beq_iff_eq.mp hgentle) rfl
  | release index o x hx => exact release_calm h hgentle hx

/-- A failure that is reported when the broker is closed loses its event or raises an alarm. -/
theorem history_of_failsLate {r r' : Relay} {a : Action} {t : ℕ} (hgentle : r.gentle a = true)
    (hact : r.act a = some r') (hlate : r.FailsLate a t) :
    ∃ p e record, r'.exchange.history = r.exchange.history ++ [.failed t e, .redirected t record,
      .failed t .closed, refusal r.exchange.terms t p] := by
  obtain ⟨index, e, b, rfl, hclosed, hb, rfl⟩ := hlate
  obtain ⟨x, hx, rfl⟩ := Option.map_eq_some_iff.mp hact
  simp only [gentle, hb] at hgentle
  rw [release, hb] at hx
  obtain rfl := Option.some.inj hx
  obtain ⟨-, record, notes, htolerated, hhistory⟩ := fail_of_tolerates hgentle
  refine ⟨b.position, e, record, ?_⟩
  cases htolerated with
  | pending hopen => simp [hclosed] at hopen
  | delivered hopen => simp [hclosed] at hopen
  | refused _ => exact hhistory

/-! ## Runs -/

/-- What the history of a gentle run says of alarms, losses and completions. -/
structure Lenient (r₀ : Relay) (as : List Action) (r : Relay) : Prop where
  tempered : Tempered r
  terms : r.exchange.terms = r₀.exchange.terms
  broken : ∀ e, .broken e ∈ r.exchange.history → IsOutage e
  abandoned : ∀ t p, .abandoned t p ∉ r.exchange.history
  fatal : ∀ t e, .fatal t e ∈ r.exchange.history →
    e = .closed ∧ r₀.exchange.terms.ignoreErrors = false ∧ FailedLate r₀ as t
  completed : ∀ t p, .completed t p ∈ r.exchange.history →
    (∃ receipt, [.delivered t receipt, .completed t p] <:+: r.exchange.history) ∨
      r₀.exchange.terms.ignoreErrors = true ∧ FailedLate r₀ as t
  late : ∀ t, FailedLate r₀ as t → ∃ p e record, [.failed t e, .redirected t record,
    .failed t .closed, refusal r₀.exchange.terms t p] <:+: r.exchange.history

namespace Mild

variable {r : Relay} {action : Action} {notes : List Note}

theorem broken_mem (h : Mild r action notes) {e : Error} (he : .broken e ∈ notes) :
    IsOutage e := by
  cases h with
  | quiet => simp at he
  | announced => simp at he
  | broken e' h =>
    obtain rfl : e = e' := by simpa using he
    exact h
  | delivered => simp at he
  | tolerated x a e' record h =>
    cases h <;> simp [refusal] at he
    split at he <;> simp at he

theorem abandoned_notMem (h : Mild r action notes) (t : ℕ) (p : Position) :
    .abandoned t p ∉ notes := by
  intro he
  cases h with
  | quiet => simp at he
  | announced => simp at he
  | broken => simp at he
  | delivered => simp at he
  | tolerated x a e' record h =>
    cases h <;> simp [refusal] at he
    split at he <;> simp at he

/-- Only a refused redirection is fatal. -/
theorem fatal_mem (h : Mild r action notes) {t : ℕ} {e : DeliveryError} (he : .fatal t e ∈ notes) :
    e = .closed ∧ r.exchange.terms.ignoreErrors = false ∧ r.FailsLate action t := by
  cases h with
  | quiet => simp at he
  | announced => simp at he
  | broken => simp at he
  | delivered => simp at he
  | tolerated x a e' record h hterms hlate =>
    cases h with
    | pending => simp at he
    | delivered => simp at he
    | refused hclosed =>
      rw [refusal, hterms] at he
      cases hignore : r.exchange.terms.ignoreErrors with
      | false =>
        obtain ⟨rfl, rfl⟩ : t = a.ticket ∧ e = .closed := by simpa [hignore] using he
        exact ⟨rfl, rfl, hlate hclosed⟩
      | true => simp [hignore] at he

/-- What is completed was delivered just before, unless a refused redirection was ignored. -/
theorem completed_mem (h : Mild r action notes) {t : ℕ} {p : Position}
    (hp : .completed t p ∈ notes) :
    (∃ receipt, [.delivered t receipt, .completed t p] <:+: notes) ∨
      r.exchange.terms.ignoreErrors = true ∧ r.FailsLate action t := by
  cases h with
  | quiet => simp at hp
  | announced => simp at hp
  | broken => simp at hp
  | delivered a receipt =>
    obtain ⟨rfl, rfl⟩ : t = a.ticket ∧ p = a.position := by simpa using hp
    exact .inl ⟨receipt, List.infix_refl _⟩
  | tolerated x a e' record h hterms hlate =>
    cases h with
    | pending => simp at hp
    | delivered _ receipt =>
      obtain ⟨rfl, rfl⟩ : t = a.ticket ∧ p = a.position := by simpa using hp
      exact .inl ⟨receipt, (List.suffix_append [_, _] _).isInfix⟩
    | refused hclosed =>
      rw [refusal, hterms] at hp
      cases hignore : r.exchange.terms.ignoreErrors with
      | false => simp [hignore] at hp
      | true =>
        obtain ⟨rfl, rfl⟩ : t = a.ticket ∧ p = a.position := by simpa [hignore] using hp
        exact .inr ⟨rfl, hlate hclosed⟩

end Mild

/-- Every gentle action keeps to what the history says. -/
theorem Lenient.act {r₀ r r' : Relay} {as : List Action} {a : Action} (ih : Lenient r₀ as r)
    (hrun : r₀.after as = some r) (hgentle : r.gentle a = true) (hact : r.act a = some r') :
    Lenient r₀ (as ++ [a]) r' := by
  obtain ⟨⟨notes, hhistory, hmild⟩, htempered⟩ := act_calm ih.tempered hgentle hact
  obtain ⟨_, heffect⟩ := act_effect hact
  have hold {t : ℕ} (h : FailedLate r₀ as t) : FailedLate r₀ (as ++ [a]) t :=
    (failedLate_concat hrun).mpr (.inl h)
  have hnew {t : ℕ} (h : r.FailsLate a t) : FailedLate r₀ (as ++ [a]) t :=
    (failedLate_concat hrun).mpr (.inr h)
  refine ⟨htempered, heffect.follows.terms.trans ih.terms, fun e he => ?_, fun t p hp => ?_,
    fun t e he => ?_, fun t p hp => ?_, fun t ht => ?_⟩
  · rw [hhistory] at he
    rcases List.mem_append.mp he with he | he
    · exact ih.broken e he
    · exact hmild.broken_mem he
  · rw [hhistory] at hp
    rcases List.mem_append.mp hp with hp | hp
    · exact ih.abandoned t p hp
    · exact hmild.abandoned_notMem t p hp
  · rw [hhistory] at he
    rcases List.mem_append.mp he with he | he
    · obtain ⟨hclosed, hignore, hlate⟩ := ih.fatal t e he
      exact ⟨hclosed, hignore, hold hlate⟩
    · obtain ⟨hclosed, hignore, hlate⟩ := hmild.fatal_mem he
      exact ⟨hclosed, ih.terms ▸ hignore, hnew hlate⟩
  · rw [hhistory] at hp ⊢
    rcases List.mem_append.mp hp with hp | hp
    · rcases ih.completed t p hp with ⟨receipt, hpart⟩ | ⟨hignore, hlate⟩
      · exact .inl ⟨receipt, hpart.trans (List.prefix_append _ _).isInfix⟩
      · exact .inr ⟨hignore, hold hlate⟩
    · rcases hmild.completed_mem hp with ⟨receipt, hpart⟩ | ⟨hignore, hlate⟩
      · exact .inl ⟨receipt, hpart.trans (List.suffix_append _ _).isInfix⟩
      · exact .inr ⟨ih.terms ▸ hignore, hnew hlate⟩
  · rcases (failedLate_concat hrun).mp ht with ht | ht
    · obtain ⟨p, e, record, hpart⟩ := ih.late t ht
      rw [hhistory]
      exact ⟨p, e, record, hpart.trans (List.prefix_append _ _).isInfix⟩
    · obtain ⟨p, e, record, hlast⟩ := history_of_failsLate hgentle hact ht
      rw [hlast, ← ih.terms]
      exact ⟨p, e, record, (List.suffix_append _ _).isInfix⟩

namespace Fate

variable {terms : Terms} {t : ℕ} {notes more : List Note} {left : List Attempt}

/-- Only the last note about an event ends it. -/
theorem kind_of_mem_dropLast (h : Fate terms t notes left) :
    ∀ n ∈ notes.dropLast, n.kind ≠ .completed ∧ n.kind ≠ .fatal := by
  have hending {a : Attempt} {notes : List Note} (h : Ending terms a notes) :
      ∃ n m, notes = [n, m] ∧ n.kind ≠ .completed ∧ n.kind ≠ .fatal := by
    cases h with
    | delivered => exact ⟨_, _, rfl, by simp [kind]⟩
    | fatal => exact ⟨_, _, rfl, by simp [kind]⟩
    | tolerated => exact ⟨_, _, rfl, by simp [kind]⟩
  cases h with
  | unseen => simp
  | announced => simp
  | abandoned => simp [kind]
  | passed a _ _ h =>
    cases h with
    | ended h =>
      obtain ⟨n, m, rfl, hn⟩ := hending h
      simpa [kind] using hn
    | redirected => simp [kind]
    | redirectedAndEnded _ _ _ h =>
      obtain ⟨n, m, rfl, hn⟩ := hending h
      simpa [kind] using hn

/-- Nothing is noted about an event after it was ended. -/
theorem eq_nil_of_ended {n : Note} (h : Fate terms t (notes ++ n :: more) left)
    (hn : n.kind = .completed ∨ n.kind = .fatal) : more = [] := by
  by_contra hmore
  have hmem : n ∈ (notes ++ n :: more).dropLast := by
    rw [List.dropLast_append_of_ne_nil (List.cons_ne_nil _ _), List.dropLast_cons_of_ne_nil hmore]
    simp
  obtain ⟨hcompleted, hfatal⟩ := h.kind_of_mem_dropLast n hmem
  rcases hn with hn | hn
  · exact hcompleted hn
  · exact hfatal hn

/-- An event whose redirected record failed was announced, and nothing else was noted before. -/
theorem of_failed_twice {e e' : DeliveryError} {record : Record} {n : Note}
    (h : Fate terms t (notes ++ [.failed t e, .redirected t record, .failed t e', n]) left) :
    ∃ p, notes = [.submitted t p] ∧ (∀ q, n = .completed t q → q = p) := by
  generalize hall : notes ++ [.failed t e, .redirected t record, .failed t e', n] = all at h
  have hlength := congrArg List.length hall
  rw [List.length_append] at hlength
  have hending {a : Attempt} {notes : List Note} (h : Ending terms a notes) : notes.length = 2 := by
    cases h <;> rfl
  cases h with
  | unseen => simp at hlength
  | announced => simp at hlength
  | abandoned => simp at hlength
  | passed a _ _ h =>
    cases h with
    | ended h => simp [hending h] at hlength
    | redirected => simp at hlength
    | redirectedAndEnded e₁ _ _ h =>
      -- five notes in all, so one comes before the last four
      simp only [List.length_cons, List.length_nil, hending h] at hlength
      obtain ⟨first, rfl⟩ := List.length_eq_one_iff.mp (show notes.length = 1 by omega)
      simp only [List.singleton_append, List.cons.injEq] at hall
      obtain ⟨rfl, -, -, rfl⟩ := hall
      refine ⟨a.position, rfl, fun q hq => ?_⟩
      exact h.eq_of_completed (t := t) (by simp [hq])

end Fate

/-- What ends an event ends its notes. -/
theorem Fated.suffix_story {r : Relay} {t : ℕ} (part : List Note) {n : Note} (hr : Fated r)
    (hpart : part ++ [n] <:+: r.exchange.history)
    (hticket : ∀ m ∈ part ++ [n], m.ticket? = some t)
    (hn : n.kind = .completed ∨ n.kind = .fatal) :
    part ++ [n] <:+ story t r.exchange.history := by
  obtain ⟨before, after', hsplit⟩ := hpart
  have hstory : story t r.exchange.history = story t before ++ (part ++ [n]) ++ story t after' := by
    rw [← hsplit, story_append, story_append, story_eq_self hticket]
  have hfate := hr.fate t
  rw [hstory, ← List.append_assoc, List.append_assoc _ [n], List.singleton_append] at hfate
  rw [hstory, hfate.eq_nil_of_ended hn, List.append_nil]
  exact List.suffix_append _ _

section Run

variable {resume : Option Position} {r₀ r : Relay} {as : List Action}
  (hinit : Initial resume r₀) (hrun : r₀.after as = some r)
  (hopen : r₀.exchange.broker.closed = false) (hgently : r₀.gently as = true)
include hinit hrun hopen hgently

theorem lenient_after : Lenient r₀ as r := by
  refine after_induction (P := fun as r => r₀.gently as = true → Lenient r₀ as r) ?_ ?_ hrun hgently
  · intro _
    have hnever (t : ℕ) : ¬ FailedLate r₀ [] t := by
      rintro ⟨before, action, rest, s, hsplit, -⟩
      simp at hsplit
    obtain ⟨terms, broker, capacity, -, -, rfl⟩ := hinit.eq
    refine ⟨⟨fun hclosed => ?_, by simp⟩, rfl, by simp, by simp, by simp, by simp,
      fun t ht => absurd ht (hnever t)⟩
    rw [hopen] at hclosed
    exact absurd hclosed Bool.false_ne_true
  · intro as r a r' hr ih hact hgently
    obtain ⟨hbefore, hlast⟩ := gently_concat hr a hgently
    exact (ih hbefore).act hr hlast hact

/-- The notes about an event whose failure was reported late. -/
theorem story_of_failedLate {t : ℕ} (ht : FailedLate r₀ as t) :
    ∃ p e record, story t r.exchange.history =
      [.submitted t p, .failed t e, .redirected t record, .failed t .closed,
        refusal r₀.exchange.terms t p] := by
  have hfated := fated_after hinit hrun
  obtain ⟨p, e, record, hpart⟩ := (lenient_after hinit hrun hopen hgently).late t ht
  obtain ⟨hkind, hticket⟩ := refusal_spec r₀.exchange.terms t p
  obtain ⟨first, hstory⟩ := Fated.suffix_story (t := t)
    [.failed t e, .redirected t record, .failed t .closed] hfated hpart
    (List.forall_mem_append.mpr ⟨by simp [ticket?], by simpa using hticket⟩) hkind
  have hfate := hfated.fate t
  rw [← hstory] at hfate ⊢
  obtain ⟨q, rfl, hq⟩ := hfate.of_failed_twice
  refine ⟨q, e, record, ?_⟩
  -- the last note completes the position that was announced
  have hsame : refusal r₀.exchange.terms t p = refusal r₀.exchange.terms t q := by
    unfold refusal at hq ⊢
    split
    · next hignore => rw [hq p (if_pos hignore)]
    · rfl
  rw [hsame]
  rfl

/-- In a gentle run an event is completed after one of its records was delivered, and there is no
alarm but for outages, unless its failure is reported when the worker has closed the broker. Then
the redirected record is refused, which raises an alarm or, when failures are ignored, completes
the event although nothing of it was delivered. -/
theorem delivered_unless_failedLate :
    (∀ t e, .fatal t e ∈ r.exchange.history ↔
      e = .closed ∧ r₀.exchange.terms.ignoreErrors = false ∧ FailedLate r₀ as t) ∧
    (∀ t p, .completed t p ∈ r.exchange.history →
      (∃ receipt, [.delivered t receipt, .completed t p] <:+ story t r.exchange.history) ∨
        r₀.exchange.terms.ignoreErrors = true ∧ FailedLate r₀ as t) ∧
    (∀ t, FailedLate r₀ as t → ∃ p e record, story t r.exchange.history =
      [.submitted t p, .failed t e, .redirected t record, .failed t .closed,
        refusal r₀.exchange.terms t p]) ∧
    (∀ t p, .abandoned t p ∉ r.exchange.history) ∧
    (∀ e, .broken e ∈ r.exchange.history → IsOutage e) ∧
    (r.exchange.broker.closed = true → r.phase = .flushing ∨ r.phase = .finished) := by
  have hlenient := lenient_after hinit hrun hopen hgently
  have hstory {t : ℕ} := story_of_failedLate (t := t) hinit hrun hopen hgently
  refine ⟨fun t e => ⟨hlenient.fatal t e, ?_⟩, fun t p hp => ?_, fun t => hstory,
    hlenient.abandoned, hlenient.broken, hlenient.tempered.closed⟩
  · rintro ⟨rfl, hignore, hlate⟩
    obtain ⟨p, e, record, hnotes⟩ := hstory hlate
    have hmem : .fatal t .closed ∈ story t r.exchange.history := by
      rw [hnotes]
      simp [refusal, hignore]
    exact (mem_story_iff.mp hmem).1
  · rcases hlenient.completed t p hp with ⟨receipt, hpart⟩ | hlost
    · refine .inl ⟨receipt, ?_⟩
      exact Fated.suffix_story [.delivered t receipt] (fated_after hinit hrun) hpart
        (by simp [ticket?]) (.inl rfl)
    · exact .inr hlost

end Run

/-- One event, too large for its topic, whose redirected record is delivered before the relay is
asked to stop. -/
theorem delivered_of_oversized :
    ∃ r p receipt, (plain [.fail (.tooLarge ""), .hold]).after
        [.work, .push default .ok, .work, .work, .release 0 (.ok ⟨0, 1⟩), .requestStop, .work,
          .work, .work, .work] = some r ∧ r.isStopped = true ∧
      [.delivered 0 receipt, .completed 0 p] <:+ story 0 r.exchange.history := by
  obtain ⟨r, p, hrun, hstopped, hcompleted⟩ : ∃ r p,
      (plain [.fail (.tooLarge ""), .hold]).after
        [.work, .push default .ok, .work, .work, .release 0 (.ok ⟨0, 1⟩), .requestStop, .work,
          .work, .work, .work] = some r ∧ r.isStopped = true ∧
      r.exchange.history.getLast? = some (.completed 0 p) := ⟨_, _, rfl, rfl, rfl⟩
  obtain ⟨-, hdelivered, -⟩ :=
    delivered_unless_failedLate (initial_plain [.fail (.tooLarge ""), .hold]) hrun rfl rfl
  rcases hdelivered 0 p (List.mem_of_getLast? hcompleted) with ⟨receipt, hlast⟩ | ⟨hignore, -⟩
  · exact ⟨r, p, receipt, hrun, hstopped, hlast⟩
  · exact absurd hignore Bool.false_ne_true

/-- A relay that ignores failures. -/
def ignoring (r : Relay) : Relay :=
  { r with exchange := { r.exchange with terms := { r.exchange.terms with ignoreErrors := true } } }

theorem initial_ignoring (script : List Outcome) : Initial none (plain script).ignoring :=
  ⟨{ topic := "rows", redirectTopic := some "dead", ignoreErrors := true }, { script }, false, rfl,
    rfl⟩

/-- A record is held until the worker has closed the broker, and then it is too large. Its event
raises an alarm, or it is completed although nothing of it was delivered. -/
theorem oversized_after_closing : ∃ as,
    (∃ r, Initial none (plain [.hold]) ∧ (plain [.hold]).gently as = true ∧
      (plain [.hold]).after as = some r ∧ .fatal 0 .closed ∈ r.exchange.history) ∧
    (∃ r p, Initial none (plain [.hold]).ignoring ∧ (plain [.hold]).ignoring.gently as = true ∧
      (plain [.hold]).ignoring.after as = some r ∧ .completed 0 p ∈ r.exchange.history ∧
      total .delivered r.exchange.history = 0) := by
  refine ⟨[.work, .push default .ok, .work, .work, .requestStop, .work, .work, .work,
    .release 0 (.error (.tooLarge ""))], ⟨_, initial_plain _, rfl, rfl, ?_⟩,
    ⟨_, default, initial_ignoring _, rfl, rfl, ?_, rfl⟩⟩
  · exact List.mem_of_getLast? rfl
  · exact List.mem_of_getLast? rfl

end Relay
end ChangeRelay

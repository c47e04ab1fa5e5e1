import ChangeRelay.Delivery.Exchange
import ChangeRelay.Proofs.Progress.Ledger
import Mathlib.Data.List.Basic
/-!
# What an exchange notes

The history of an exchange says everything about it that later laws are about: its tracker, its
counts and its tickets are functions of the notes. `Exchange.Follows` states this for a piece of
history, and every operation of an exchange follows its notes. What an outcome that is reported
leads to is a `Passage`: either the event is ended, or its redirected attempt is left with the
broker.
-/

namespace ChangeRelay

/-! ## Notes -/

/-- The kinds of notes. -/
inductive NoteKind
  | submitted
  | delivered
  | failed
  | completed
  | fatal
  | redirected
  | abandoned
  | broken
deriving DecidableEq, Repr

namespace Note

/-- The kind of a note. -/
def kind : Note → NoteKind
  | .submitted .. => .submitted
  | .delivered .. => .delivered
  | .failed .. => .failed
  | .completed .. => .completed
  | .fatal .. => .fatal
  | .redirected .. => .redirected
  | .abandoned .. => .abandoned
  | .broken .. => .broken

/-- The ticket of the event that a note is about. -/
def ticket? : Note → Option ℕ
  | .submitted t _ => some t
  | .delivered t _ => some t
  | .failed t _ => some t
  | .completed t _ => some t
  | .fatal t _ => some t
  | .redirected t _ => some t
  | .abandoned t _ => some t
  | .broken _ => none

/-- What a note tells the tracker. -/
def call? : Note → Option Progress.Call
  | .submitted _ p => some (.submit p)
  | .completed _ p => some (.complete p)
  | _ => none

/-- What notes tell the tracker, in order. -/
def calls (notes : List Note) : List Progress.Call :=
  notes.filterMap call?

/-- How many notes are of a kind. -/
def total (k : NoteKind) (notes : List Note) : ℕ :=
  notes.countP (·.kind = k)

/-- The notes about one event. -/
def story (ticket : ℕ) (notes : List Note) : List Note :=
  notes.filter (·.ticket? = some ticket)

@[simp] theorem calls_nil : calls [] = [] := rfl

@[simp] theorem total_nil (k : NoteKind) : total k [] = 0 := rfl

@[simp] theorem story_nil (t : ℕ) : story t [] = [] := rfl

theorem total_cons (k : NoteKind) (n : Note) (notes : List Note) :
    total k (n :: notes) = total k notes + if n.kind = k then 1 else 0 := by
  simp [total, List.countP_cons]

theorem story_cons (t : ℕ) (n : Note) (notes : List Note) :
    story t (n :: notes) = if n.ticket? = some t then n :: story t notes else story t notes := by
  simp [story, List.filter_cons]

@[simp] theorem calls_append (a b : List Note) : calls (a ++ b) = calls a ++ calls b :=
  List.filterMap_append

@[simp] theorem total_append (k : NoteKind) (a b : List Note) :
    total k (a ++ b) = total k a + total k b :=
  List.countP_append

@[simp] theorem story_append (t : ℕ) (a b : List Note) :
    story t (a ++ b) = story t a ++ story t b :=
  List.filter_append a b

/-- There is no note of a kind that none of the notes can be of. -/
theorem total_eq_zero {k : NoteKind} {ks : List NoteKind} {notes : List Note}
    (h : ∀ n ∈ notes, n.kind ∈ ks) (hk : k ∉ ks) : total k notes = 0 := by
  refine List.countP_eq_zero.mpr fun n hn hkind => hk ?_
  rw [← of_decide_eq_true hkind]
  exact h n hn

/-- The positions of the events that were submitted, in order. -/
def submissions (notes : List Note) : List Position :=
  Progress.submissions (calls notes)

@[simp] theorem submissions_nil : submissions [] = [] := rfl

@[simp] theorem submissions_append (a b : List Note) :
    submissions (a ++ b) = submissions a ++ submissions b := by
  rw [submissions, calls_append, Progress.submissions, List.filterMap_append]
  rfl

theorem length_submissions (notes : List Note) :
    (submissions notes).length = total .submitted notes := by
  induction notes with
  | nil => rfl
  | cons n notes ih =>
    rw [total_cons, ← ih, ← List.singleton_append, submissions_append, List.length_append,
      Nat.add_comm]
    cases n <;> rfl

theorem story_eq_self {t : ℕ} {notes : List Note} (h : ∀ n ∈ notes, n.ticket? = some t) :
    story t notes = notes :=
  List.filter_eq_self.mpr fun n hn => by simp [h n hn]

theorem story_eq_nil {t u : ℕ} {notes : List Note} (h : ∀ n ∈ notes, n.ticket? = some t)
    (hne : t ≠ u) : story u notes = [] :=
  List.filter_eq_nil_iff.mpr fun n hn => by simp [h n hn, hne]

theorem mem_story_iff {t : ℕ} {n : Note} {notes : List Note} :
    n ∈ story t notes ↔ n ∈ notes ∧ n.ticket? = some t := by
  simp [story]

/-- What a note raises an alarm for. -/
def cause? : Note → Option Error
  | .fatal _ e => some (.delivery e)
  | .broken e => some e
  | _ => none

/-- The causes of alarm, in order. -/
def causes (notes : List Note) : List Error :=
  notes.filterMap cause?

@[simp] theorem causes_nil : causes [] = [] := rfl

@[simp] theorem causes_cons (n : Note) (notes : List Note) :
    causes (n :: notes) = n.cause?.toList ++ causes notes := by
  cases h : n.cause? <;> simp [causes, h]

@[simp] theorem causes_append (a b : List Note) : causes (a ++ b) = causes a ++ causes b :=
  List.filterMap_append

theorem mem_causes_iff {e : Error} {notes : List Note} :
    e ∈ causes notes ↔ .broken e ∈ notes ∨ ∃ t e', .fatal t e' ∈ notes ∧ e = .delivery e' := by
  constructor
  · intro h
    obtain ⟨n, hn, hcause⟩ := List.mem_filterMap.mp h
    cases n with
    | broken e' =>
      obtain rfl := Option.some.inj hcause
      exact .inl hn
    | fatal t e' => exact .inr ⟨t, e', hn, (Option.some.inj hcause).symm⟩
    | _ => simp [cause?] at hcause
  · rintro (h | ⟨t, e', h, rfl⟩)
    · exact List.mem_filterMap.mpr ⟨_, h, rfl⟩
    · exact List.mem_filterMap.mpr ⟨_, h, rfl⟩

end Note

open Note

/-! ## Endings and passages -/

/-- The attempt that an attempt is redirected to: it cannot be redirected again. -/
def Attempt.again (a : Attempt) : Attempt :=
  { a with redirectTopic := none }

/-- The last notes of an event: it was delivered, its failure was fatal, or its failure was neither
fatal nor could the event be redirected. -/
inductive Ending (terms : Terms) (a : Attempt) : List Note → Prop
  | delivered (receipt : Receipt) :
    Ending terms a [.delivered a.ticket receipt, .completed a.ticket a.position]
  | fatal (e : DeliveryError) (hfatal : e.severity terms.ignoreErrors = .fatal) :
    Ending terms a [.failed a.ticket e, .fatal a.ticket e]
  | tolerated (e : DeliveryError) (hmild : e.severity terms.ignoreErrors ≠ .fatal)
      (htopic : a.redirectTopic = none) :
    Ending terms a [.failed a.ticket e, .completed a.ticket a.position]

/-- What the outcome of an attempt leads to: notes, and the attempts that are left of it. -/
inductive Passage (terms : Terms) (a : Attempt) : List Note → List Attempt → Prop
  | ended {notes : List Note} (h : Ending terms a notes) : Passage terms a notes []
  | redirected {topic : TopicPattern} (e : DeliveryError)
      (hmild : e.severity terms.ignoreErrors ≠ .fatal) (htopic : a.redirectTopic = some topic) :
    Passage terms a
      [.failed a.ticket e, .redirected a.ticket (terms.plan.redirected topic a.row e.kind)]
        [a.again]
  | redirectedAndEnded {topic : TopicPattern} (e : DeliveryError)
      (hmild : e.severity terms.ignoreErrors ≠ .fatal) (htopic : a.redirectTopic = some topic)
      {notes : List Note} (h : Ending terms a.again notes) :
    Passage terms a
      (.failed a.ticket e :: .redirected a.ticket
        (terms.plan.redirected topic a.row e.kind) :: notes)
      []

namespace Ending

variable {terms : Terms} {a : Attempt} {notes : List Note}

theorem ticket?_eq (h : Ending terms a notes) : ∀ n ∈ notes, n.ticket? = some a.ticket := by
  cases h <;> simp [ticket?]

theorem kind_mem (h : Ending terms a notes) :
    ∀ n ∈ notes, n.kind ∈ [.delivered, .failed, .completed, .fatal] := by
  cases h <;> simp [kind]

/-- An event is ended once. -/
theorem total_ends (h : Ending terms a notes) :
    total .completed notes + total .fatal notes = 1 := by
  cases h <;> rfl

/-- The outcome of one attempt ends it. -/
theorem total_outcomes (h : Ending terms a notes) :
    total .delivered notes + total .failed notes = 1 := by
  cases h <;> rfl

theorem eq_of_completed (h : Ending terms a notes) {t : ℕ} {p : Position}
    (hp : .completed t p ∈ notes) : p = a.position := by
  cases h with
  | delivered =>
    have hboth : t = a.ticket ∧ p = a.position := by simpa using hp
    exact hboth.2
  | fatal => simp at hp
  | tolerated =>
    have hboth : t = a.ticket ∧ p = a.position := by simpa using hp
    exact hboth.2

end Ending

theorem Passage.ticket?_eq {terms : Terms} {a : Attempt} {notes : List Note} {left : List Attempt}
    (h : Passage terms a notes left) : ∀ n ∈ notes, n.ticket? = some a.ticket := by
  cases h with
  | ended h => exact h.ticket?_eq
  | redirected => simp [ticket?]
  | redirectedAndEnded _ _ _ h =>
    simp only [List.forall_mem_cons]
    exact ⟨rfl, rfl, h.ticket?_eq⟩

theorem Passage.ticket_eq_of_mem {terms : Terms} {a b : Attempt} {notes : List Note}
    {left : List Attempt} (h : Passage terms a notes left) (hb : b ∈ left) :
    b.ticket = a.ticket := by
  cases h with
  | ended => simp at hb
  | redirected => rw [List.mem_singleton.mp hb]; rfl
  | redirectedAndEnded => simp at hb

/-- What a reported outcome leads to is told by notes of five kinds. -/
theorem Passage.kind_mem {terms : Terms} {a : Attempt} {notes : List Note} {left : List Attempt}
    (h : Passage terms a notes left) : ∀ n ∈ notes,
      n.kind ∈ [.delivered, .failed, .completed, .fatal, .redirected] := by
  have hending {a : Attempt} {notes : List Note} (h : Ending terms a notes) : ∀ n ∈ notes,
      n.kind ∈ [.delivered, .failed, .completed, .fatal, .redirected] := fun n hn =>
    List.mem_append_left [NoteKind.redirected] (h.kind_mem n hn)
  cases h with
  | ended h => exact hending h
  | redirected => simp [kind]
  | redirectedAndEnded _ _ _ h =>
    simp only [List.forall_mem_cons]
    exact ⟨by simp [kind], by simp [kind], hending h⟩

theorem Passage.total_submitted {terms : Terms} {a : Attempt} {notes : List Note}
    {left : List Attempt} (h : Passage terms a notes left) : total .submitted notes = 0 :=
  total_eq_zero h.kind_mem (by decide)

theorem Passage.submissions_eq_nil {terms : Terms} {a : Attempt} {notes : List Note}
    {left : List Attempt} (h : Passage terms a notes left) : submissions notes = [] :=
  List.length_eq_zero_iff.mp ((length_submissions notes).trans h.total_submitted)

/-! ## Following the notes -/

theorem Progress.replay_append (t : Progress) (a b : List Progress.Call) :
    t.replay (a ++ b) = (t.replay a).replay b :=
  List.foldl_append

namespace Exchange

/-- `y` comes from `x` by what the notes say. The broker, the turn and the log may be anything. -/
structure Follows (x : Exchange) (notes : List Note) (y : Exchange) : Prop where
  terms : y.terms = x.terms
  history : y.history = x.history ++ notes
  progress : y.progress = x.progress.replay (calls notes)
  produced : y.counts.produced = x.counts.produced + .ofNat (total .delivered notes)
  failed : y.counts.failed = x.counts.failed + .ofNat (total .failed notes)
  ticket : y.ticket = x.ticket + total .submitted notes

namespace Follows

variable {x y z : Exchange} {a b : List Note}

theorem refl (x : Exchange) : x.Follows [] x where
  terms := rfl
  history := by simp
  progress := by simp
  produced := by simp
  failed := by simp
  ticket := by simp

theorem trans (h : x.Follows a y) (h' : y.Follows b z) : x.Follows (a ++ b) z where
  terms := h'.terms.trans h.terms
  history := by rw [h'.history, h.history, List.append_assoc]
  progress := by rw [h'.progress, h.progress, calls_append, Progress.replay_append]
  produced := by rw [h'.produced, h.produced, total_append, UInt64.ofNat_add, UInt64.add_assoc]
  failed := by rw [h'.failed, h.failed, total_append, UInt64.ofNat_add, UInt64.add_assoc]
  ticket := by rw [h'.ticket, h.ticket, total_append, Nat.add_assoc]

theorem withBroker (h : x.Follows a y) (broker : Broker) : x.Follows a { y with broker } where
  terms := h.terms
  history := h.history
  progress := h.progress
  produced := h.produced
  failed := h.failed
  ticket := h.ticket

theorem withLog (h : x.Follows a y) (lines : List LogLine) : x.Follows a (y.logs lines) where
  terms := h.terms
  history := h.history
  progress := h.progress
  produced := h.produced
  failed := h.failed
  ticket := h.ticket

end Follows

/-! ## The operations of an exchange -/

variable (x : Exchange) (a : Attempt)

/-- A note that tells neither tracker nor counts anything changes the history only. -/
theorem follows_notes {n : Note} (hcall : n.call? = none)
    (hkind : n.kind ≠ .delivered ∧ n.kind ≠ .failed ∧ n.kind ≠ .submitted) :
    x.Follows [n] (x.notes n) where
  terms := rfl
  history := rfl
  progress := by simp [calls, hcall, notes]
  produced := by simp [total_cons, hkind, notes]
  failed := by simp [total_cons, hkind, notes]
  ticket := by simp [total_cons, hkind, notes]

/-- What a broker holds after it was offered a record. -/
theorem held_offer (b : Broker) (r : Record) (a : Attempt) :
    (b.offer r a).2.held = b.held ++ if (b.offer r a).1 = .pending then [a] else [] := by
  by_cases hclosed : b.closed
  · simp [Broker.offer, hclosed]
  · by_cases hfull : b.queueFull
    · simp [Broker.offer, hclosed, hfull]
    · cases hs : b.script.headD .deliver <;>
        simp only [List.headD_eq_head?_getD] at hs <;>
        simp [Broker.offer, Broker.take, hclosed, hfull, hs]

theorem follows_complete : x.Follows [.completed a.ticket a.position] (x.complete a) where
  terms := rfl
  history := rfl
  progress := rfl
  produced := (UInt64.add_zero _).symm
  failed := (UInt64.add_zero _).symm
  ticket := rfl

theorem follows_succeed (receipt : Receipt) :
    x.Follows [.delivered a.ticket receipt, .completed a.ticket a.position]
      (x.succeed a receipt) where
  terms := rfl
  history := by simp [succeed, complete, logs, notes]
  progress := rfl
  produced := rfl
  failed := (UInt64.add_zero _).symm
  ticket := rfl

theorem broker_succeed (receipt : Receipt) : (x.succeed a receipt).broker = x.broker := rfl

theorem follows_noteFailure (e : DeliveryError) :
    x.Follows [.failed a.ticket e] (x.noteFailure a e) where
  terms := rfl
  history := rfl
  progress := rfl
  produced := (UInt64.add_zero _).symm
  failed := rfl
  ticket := rfl

theorem broker_failFinally (e : DeliveryError) : (x.failFinally a e).broker = x.broker := by
  rw [failFinally]
  cases e.severity (x.noteFailure a e).terms.ignoreErrors <;> rfl

/-- An attempt that cannot be redirected, or whose failure is fatal, ends its event. -/
theorem failFinally_spec (e : DeliveryError)
    (h : e.severity x.terms.ignoreErrors = .fatal ∨ a.redirectTopic = none) :
    ∃ notes, Ending x.terms a notes ∧ x.Follows notes (x.failFinally a e) := by
  have hterms : (x.noteFailure a e).terms = x.terms := rfl
  have hfailed := x.follows_noteFailure a e
  -- the failure is counted first, whatever becomes of it
  by_cases hfatal : e.severity x.terms.ignoreErrors = .fatal
  · refine ⟨_, .fatal e hfatal, ?_⟩
    rw [failFinally, hterms, hfatal]
    exact hfailed.trans (follows_notes _ rfl (by simp [kind]))
  · refine ⟨_, .tolerated e hfatal (h.resolve_left hfatal), ?_⟩
    have hcomplete : x.failFinally a e = (x.noteFailure a e).complete a := by
      rw [failFinally, hterms]
      cases hsev : e.severity x.terms.ignoreErrors with
      | fatal => exact absurd hsev hfatal
      | oversized => rfl
      | ignorable => rfl
    rw [hcomplete]
    exact hfailed.trans (follows_complete _ a)

/-- The exchange after the redirected record of an attempt was offered. -/
def reoffered (a : Attempt) (r : Record) : Exchange :=
  { (x.logs (redirectLog a r)).notes (.redirected a.ticket r) with
    broker := (x.broker.offer r a.again).2 }

/-- The exchange after the broker replied to the redirected record of an attempt. -/
def replied (y : Exchange) (a : Attempt) : Reply → Exchange
  | .rejected e => y.failFinally a e
  | .pending => y
  | .failed e => y.failFinally a e
  | .delivered receipt => y.succeed a receipt

/-- A redirection offers a record, and then the broker's reply to it is dealt with. -/
theorem redirect_eq (topic : TopicPattern) (e : DeliveryError) :
    x.redirect a topic e = (x.reoffered a (x.terms.plan.redirected topic a.row e.kind)).replied
      a.again (x.broker.offer (x.terms.plan.redirected topic a.row e.kind) a.again).1 := rfl

theorem broker_replied (reply : Reply) : (x.replied a reply).broker = x.broker := by
  cases reply with
  | rejected e => exact broker_failFinally x a e
  | pending => rfl
  | failed e => exact broker_failFinally x a e
  | delivered receipt => exact broker_succeed x a receipt

theorem broker_redirect (topic : TopicPattern) (e : DeliveryError) :
    (x.redirect a topic e).broker =
      (x.broker.offer (x.terms.plan.redirected topic a.row e.kind) a.again).2 := by
  rw [redirect_eq, broker_replied]
  rfl

/-- A failure ends its event, or it is mild and the event is redirected. -/
theorem fail_cases (e : DeliveryError) :
    ((e.severity x.terms.ignoreErrors = .fatal ∨ a.redirectTopic = none) ∧
      x.fail a e = x.failFinally a e) ∨
    ∃ topic, a.redirectTopic = some topic ∧ e.severity x.terms.ignoreErrors ≠ .fatal ∧
      x.fail a e = (x.noteFailure a e).redirect a topic e := by
  rw [fail]
  cases htopic : a.redirectTopic with
  | none => exact .inl ⟨.inr rfl, rfl⟩
  | some topic =>
    cases hsev : e.severity x.terms.ignoreErrors with
    | fatal => exact .inl ⟨.inl rfl, rfl⟩
    | oversized => exact .inr ⟨topic, rfl, by simp, rfl⟩
    | ignorable => exact .inr ⟨topic, rfl, by simp, rfl⟩

/-- The redirected record of an attempt is left with the broker, or its outcome ends the event. -/
theorem redirect_spec (topic : TopicPattern) (e : DeliveryError) :
    ∃ notes left, (left = [a.again] ∧ notes = [] ∨ left = [] ∧ Ending x.terms a.again notes) ∧
      x.Follows (.redirected a.ticket (x.terms.plan.redirected topic a.row e.kind) :: notes)
        (x.redirect a topic e) ∧
      (x.redirect a topic e).broker.held = x.broker.held ++ left := by
  rw [broker_redirect, held_offer, redirect_eq]
  set r := x.terms.plan.redirected topic a.row e.kind
  have hnoted : x.Follows [.redirected a.ticket r] (x.reoffered a r) :=
    (((Follows.refl x).withLog _).trans (follows_notes _ rfl (by simp [kind]))).withBroker _
  -- refused or failed, the redirected attempt has nowhere else to go
  have hfinal (e' : DeliveryError) : ∃ notes, Ending x.terms a.again notes ∧
      x.Follows (.redirected a.ticket r :: notes) ((x.reoffered a r).failFinally a.again e') := by
    obtain ⟨notes, hend, hfollows⟩ := (x.reoffered a r).failFinally_spec a.again e' (.inr rfl)
    exact ⟨notes, hend, hnoted.trans hfollows⟩
  cases (x.broker.offer r a.again).1 with
  | rejected e' =>
    obtain ⟨notes, hend, hfollows⟩ := hfinal e'
    exact ⟨notes, [], .inr ⟨rfl, hend⟩, hfollows, by simp⟩
  | failed e' =>
    obtain ⟨notes, hend, hfollows⟩ := hfinal e'
    exact ⟨notes, [], .inr ⟨rfl, hend⟩, hfollows, by simp⟩
  | pending => exact ⟨[], [a.again], .inl ⟨rfl, rfl⟩, hnoted, by simp⟩
  | delivered receipt =>
    exact ⟨_, [], .inr ⟨rfl, .delivered receipt⟩, hnoted.trans (follows_succeed _ _ receipt),
      by simp⟩

/-- Reporting an outcome is a passage of its attempt. -/
theorem report_spec (o : Except DeliveryError Receipt) :
    ∃ notes left, Passage x.terms a notes left ∧ x.Follows notes (x.report a o) ∧
      (x.report a o).broker.held = x.broker.held ++ left := by
  cases o with
  | ok receipt =>
    refine ⟨_, [], .ended (.delivered receipt), follows_succeed x a receipt, ?_⟩
    simp [report, broker_succeed]
  | error e =>
    rw [report]
    -- a fatal failure is final even when there is a topic to redirect to
    rcases x.fail_cases a e with ⟨hfinal, hfail⟩ | ⟨topic, htopic, hmild, hfail⟩
    · obtain ⟨notes, hend, hfollows⟩ := failFinally_spec x a e hfinal
      rw [hfail]
      exact ⟨notes, [], .ended hend, hfollows, by rw [broker_failFinally, List.append_nil]⟩
    · obtain ⟨notes, left, hcase, hfollows, hheld⟩ := redirect_spec (x.noteFailure a e) a topic e
      have hall := (follows_noteFailure x a e).trans hfollows
      rw [hfail]
      rcases hcase with ⟨rfl, rfl⟩ | ⟨rfl, hend⟩
      · exact ⟨_, _, .redirected e hmild htopic, hall, hheld⟩
      · exact ⟨_, _, .redirectedAndEnded e hmild htopic hend, hall, hheld⟩

/-- Releasing a held attempt is a passage of it. -/
theorem release_spec {index : ℕ} {o : Except DeliveryError Receipt} {y : Exchange}
    (h : x.release index o = some y) :
    ∃ a notes left, x.broker.held[index]? = some a ∧ Passage x.terms a notes left ∧
      x.Follows notes y ∧ y.broker.held = x.broker.held.eraseIdx index ++ left := by
  rw [release] at h
  obtain ⟨a, ha, hy⟩ := Option.bind_eq_some_iff.mp h
  obtain rfl := Option.some.inj hy
  obtain ⟨notes, left, hpassage, hfollows, hheld⟩ := report_spec
    { x with broker := { x.broker with held := x.broker.held.eraseIdx index } } a o
  exact ⟨a, notes, left, ha, hpassage, ((Follows.refl x).withBroker _).trans hfollows, hheld⟩

end Exchange

end ChangeRelay

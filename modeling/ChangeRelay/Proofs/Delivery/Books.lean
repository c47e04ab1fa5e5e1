import ChangeRelay.Proofs.Delivery.Notes
/-!
# The books of a broker

A broker remembers the topics it was asked about, the records it took and how often it was closed.
Of the records those count that come with a partition: a redirected record has none, so reporting
an outcome leaves the books as they are, whatever it redirects.
-/

namespace ChangeRelay

/-- Whether the broker has taken the record. -/
def Reply.isAccepted : Reply → Bool
  | .rejected _ => false
  | .pending | .failed _ | .delivered _ => true

/-- What a broker remembers of the dealings that are not redirections. -/
structure Books where
  lookups : List String
  /-- The records that came with a partition, in the order in which they were taken. -/
  placed : List Record
  closeCalls : ℕ

namespace Broker

/-- The books of a broker. -/
def books (b : Broker) : Books where
  lookups := b.lookups
  placed := b.sent.filter (·.partition.isSome)
  closeCalls := b.closeCalls

/-- What a broker has taken after it was offered a record. -/
theorem sent_offer (b : Broker) (r : Record) (a : Attempt) :
    (b.offer r a).2.sent = b.sent ++ if (b.offer r a).1.isAccepted then [r] else [] := by
  unfold offer
  simp only
  split
  · simp [Reply.isAccepted]
  · split
    · simp [Reply.isAccepted]
    · split <;> simp [Reply.isAccepted, take]

/-- An offer asks about no topic and closes nothing. -/
theorem lookups_offer (b : Broker) (r : Record) (a : Attempt) :
    (b.offer r a).2.lookups = b.lookups ∧ (b.offer r a).2.closeCalls = b.closeCalls := by
  unfold offer
  simp only
  split
  · exact ⟨rfl, rfl⟩
  · split
    · exact ⟨rfl, rfl⟩
    · split <;> exact ⟨rfl, rfl⟩

theorem books_offer {r : Record} (hr : r.partition.isSome = true) (b : Broker) (a : Attempt) :
    (b.offer r a).2.books =
      { b.books with
        placed := b.books.placed ++ if (b.offer r a).1.isAccepted then [r] else [] } := by
  obtain ⟨hlookups, hclose⟩ := b.lookups_offer r a
  unfold books
  rw [sent_offer, hlookups, hclose, List.filter_append]
  cases (b.offer r a).1.isAccepted with
  | false => rfl
  | true => simp [hr]

/-- A record without a partition is not entered. -/
theorem books_offer_unplaced {r : Record} (hr : r.partition = none) (b : Broker) (a : Attempt) :
    (b.offer r a).2.books = b.books := by
  obtain ⟨hlookups, hclose⟩ := b.lookups_offer r a
  unfold books
  rw [sent_offer, hlookups, hclose, List.filter_append]
  cases (b.offer r a).1.isAccepted with
  | false => simp
  | true => simp [hr]

end Broker

namespace Exchange

theorem books_redirect (x : Exchange) (a : Attempt) (topic : TopicPattern) (e : DeliveryError) :
    (x.redirect a topic e).broker.books = x.broker.books := by
  rw [broker_redirect]
  exact Broker.books_offer_unplaced rfl x.broker a.again

/-- Whatever outcome is reported, the books stay. -/
theorem books_report (x : Exchange) (a : Attempt) (o : Except DeliveryError Receipt) :
    (x.report a o).broker.books = x.broker.books := by
  cases o with
  | ok receipt => rfl
  | error e =>
    rw [report]
    rcases x.fail_cases a e with ⟨-, hfail⟩ | ⟨topic, -, -, hfail⟩
    · rw [hfail, broker_failFinally]
    · rw [hfail]
      exact books_redirect (x.noteFailure a e) a topic e

theorem books_release {x y : Exchange} {index : ℕ} {o : Except DeliveryError Receipt}
    (h : x.release index o = some y) : y.broker.books = x.broker.books := by
  rw [release] at h
  obtain ⟨a, -, hy⟩ := Option.bind_eq_some_iff.mp h
  obtain rfl := Option.some.inj hy
  rw [books_report]
  rfl

/-! ## The first note of a failure -/

open Note

theorem history_failFinally (x : Exchange) (a : Attempt) (e : DeliveryError) :
    ∃ n, (x.failFinally a e).history = x.history ++ [.failed a.ticket e, n] := by
  have hfailed : (x.noteFailure a e).history = x.history ++ [.failed a.ticket e] := rfl
  have hcomplete : ((x.noteFailure a e).complete a).history =
      x.history ++ [.failed a.ticket e, .completed a.ticket a.position] := by
    rw [(follows_complete _ a).history, hfailed, List.append_assoc]
    rfl
  rw [failFinally]
  cases e.severity (x.noteFailure a e).terms.ignoreErrors with
  | fatal =>
    refine ⟨.fatal a.ticket e, ?_⟩
    show (x.noteFailure a e).history ++ [.fatal a.ticket e] = _
    rw [hfailed, List.append_assoc]
    rfl
  | oversized => exact ⟨_, hcomplete⟩
  | ignorable => exact ⟨_, hcomplete⟩

/-- A failure that is reported is noted before anything comes of it. -/
theorem history_fail (x : Exchange) (a : Attempt) (e : DeliveryError) :
    ∃ rest, (x.fail a e).history = x.history ++ .failed a.ticket e :: rest := by
  rcases x.fail_cases a e with ⟨-, hfail⟩ | ⟨topic, -, -, hfail⟩
  · obtain ⟨n, hn⟩ := history_failFinally x a e
    exact ⟨[n], by rw [hfail, hn]⟩
  · obtain ⟨notes, -, -, hfollows, -⟩ := redirect_spec (x.noteFailure a e) a topic e
    have hfailed : (x.noteFailure a e).history = x.history ++ [.failed a.ticket e] := rfl
    exact ⟨_, by rw [hfail, hfollows.history, hfailed, List.append_assoc, List.singleton_append]⟩

end Exchange

end ChangeRelay

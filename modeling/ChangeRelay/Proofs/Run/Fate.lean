import ChangeRelay.Proofs.Run.Effect
/-!
# The fate of an event

An event that is announced is completed, or its failure raises an alarm, or it is given up, and as
long as none of this has happened there is one attempt of it outstanding. `Fate` lists what the
notes about one event can be, and every action keeps to it; `every_event_meets_one_fate` counts.
-/

namespace ChangeRelay
namespace Relay

open Note Exchange

/-! ## One event -/

/-- What is noted of the event whose first attempt is `a`, with the attempts of it that are
outstanding. -/
inductive Course (terms : Terms) (a : Attempt) : List Note → List Attempt → Prop
  | announced : Course terms a [.submitted a.ticket a.position] [a]
  | abandoned : Course terms a
    [.submitted a.ticket a.position, .abandoned a.ticket a.position] []
  | passed {notes : List Note} {left : List Attempt} (h : Passage terms a notes left) :
    Course terms a (.submitted a.ticket a.position :: notes) left

namespace Course

variable {terms : Terms} {a b : Attempt} {notes more : List Note} {left left' rest : List Attempt}

theorem ne_nil (h : Course terms a notes left) : notes ≠ [] := by
  cases h <;> simp

theorem of_perm (h : Course terms a notes left) (hperm : left.Perm left') :
    Course terms a notes left' := by
  have hshort : left = [] ∨ ∃ b, left = [b] := by
    cases h with
    | announced => exact .inr ⟨a, rfl⟩
    | abandoned => exact .inl rfl
    | passed h =>
      cases h with
      | ended => exact .inl rfl
      | redirected => exact .inr ⟨_, rfl⟩
      | redirectedAndEnded => exact .inl rfl
  rcases hshort with rfl | ⟨b, rfl⟩
  · rwa [hperm.symm.eq_nil]
  · rwa [List.perm_singleton.mp hperm.symm]

/-- An outcome is that of the first attempt, or that of the redirected one, which is the last. -/
theorem pass (h : Course terms a notes (b :: rest)) (hpass : Passage terms b more left) :
    rest = [] ∧ Course terms a (notes ++ more) left := by
  cases h with
  | announced => exact ⟨rfl, .passed hpass⟩
  | passed h =>
    cases h with
    | redirected e hmild htopic =>
      cases hpass with
      | ended hend => exact ⟨rfl, .passed (.redirectedAndEnded e hmild htopic hend)⟩
      | redirected _ _ htopic' => simp [Attempt.again] at htopic'
      | redirectedAndEnded _ _ htopic' => simp [Attempt.again] at htopic'

/-- Nothing has been noted of an event but its announcement while an attempt of it is outstanding
that could be redirected. -/
theorem eq_of_fresh (h : Course terms a notes (b :: rest))
    (ha : a.redirectTopic = terms.redirectTopic) (hb : b.redirectTopic = terms.redirectTopic) :
    b = a ∧ rest = [] ∧ notes = [.submitted a.ticket a.position] := by
  cases h with
  | announced => exact ⟨rfl, rfl, rfl⟩
  | passed h =>
    cases h with
    | redirected e _ htopic =>
      -- a redirected attempt is fresh only where nothing can be redirected
      have hnone : terms.redirectTopic = none := hb.symm
      rw [ha, hnone] at htopic
      simp at htopic

theorem abandon (h : Course terms a notes (b :: rest)) (ha : a.redirectTopic = terms.redirectTopic)
    (hb : b.redirectTopic = terms.redirectTopic) :
    rest = [] ∧ Course terms a (notes ++ [.abandoned b.ticket b.position]) [] := by
  obtain ⟨rfl, rfl, rfl⟩ := h.eq_of_fresh ha hb
  exact ⟨rfl, .abandoned⟩

end Course

/-- The notes about an event, with the attempts of it that are outstanding. -/
inductive Fate (terms : Terms) (t : ℕ) : List Note → List Attempt → Prop
  | unseen : Fate terms t [] []
  | announced (a : Attempt) (hticket : a.ticket = t)
      (hfresh : a.redirectTopic = terms.redirectTopic) :
    Fate terms t [.submitted t a.position] [a]
  | abandoned (p : Position) : Fate terms t [.submitted t p, .abandoned t p] []
  | passed (a : Attempt) (hticket : a.ticket = t) (hfresh : a.redirectTopic = terms.redirectTopic)
      {notes : List Note} {left : List Attempt} (h : Passage terms a notes left) :
    Fate terms t (.submitted t a.position :: notes) left

/-- An event that takes its course has a fate. -/
theorem Course.fate {terms : Terms} {a : Attempt} {notes : List Note} {left : List Attempt}
    (h : Course terms a notes left) (hfresh : a.redirectTopic = terms.redirectTopic) :
    Fate terms a.ticket notes left := by
  cases h with
  | announced => exact .announced a rfl hfresh
  | abandoned => exact .abandoned a.position
  | passed h => exact .passed a rfl hfresh h

/-- An event was redirected in record `r` after its first attempt failed, which was not fatal. -/
def Redirected (terms : Terms) (t : ℕ) (r : Record) (notes : List Note) : Prop :=
  ∃ (p : Position) (row : RowId) (e : DeliveryError) (topic : TopicPattern) (rest : List Note),
    notes = .submitted t p :: .failed t e :: .redirected t r :: rest ∧
    e.severity terms.ignoreErrors ≠ .fatal ∧ terms.redirectTopic = some topic ∧
    r = terms.plan.redirected topic row e.kind

namespace Fate

variable {terms : Terms} {t : ℕ} {notes : List Note} {left : List Attempt}

/-- An event with a fate takes the course of some first attempt, or nothing is known of it. -/
theorem exists_course (h : Fate terms t notes left) : (notes = [] ∧ left = []) ∨
    ∃ a : Attempt, a.ticket = t ∧ a.redirectTopic = terms.redirectTopic ∧
      Course terms a notes left := by
  cases h with
  | unseen => exact .inl ⟨rfl, rfl⟩
  | announced a hticket hfresh => exact .inr ⟨a, hticket, hfresh, hticket ▸ .announced⟩
  | abandoned p =>
    let a : Attempt :=
      { (default : Attempt) with ticket := t, position := p, redirectTopic := terms.redirectTopic }
    have hcourse : Course terms a [.submitted t p, .abandoned t p] [] := .abandoned
    exact .inr ⟨a, rfl, rfl, hcourse⟩
  | passed a hticket hfresh h => exact .inr ⟨a, hticket, hfresh, hticket ▸ .passed h⟩

/-- Not more than one attempt is outstanding, so their order does not matter. -/
theorem of_perm {left' : List Attempt} (h : Fate terms t notes left) (hperm : left.Perm left') :
    Fate terms t notes left' := by
  rcases h.exists_course with ⟨rfl, rfl⟩ | ⟨a, rfl, hfresh, hcourse⟩
  · rw [hperm.symm.eq_nil]
    exact .unseen
  · exact (hcourse.of_perm hperm).fate hfresh

/-- Whatever its notes are, an announced event is in exactly one class. -/
theorem totals (h : Fate terms t notes left) :
    total .completed notes + total .fatal notes + total .abandoned notes + left.length =
        total .submitted notes ∧
      total .submitted notes = (if notes = [] then 0 else 1) ∧ total .redirected notes ≤ 1 := by
  have hother {a : Attempt} {notes : List Note} (h : Ending terms a notes) :
      total .submitted notes = 0 ∧ total .redirected notes = 0 ∧ total .abandoned notes = 0 :=
    ⟨total_eq_zero h.kind_mem (by decide), total_eq_zero h.kind_mem (by decide),
      total_eq_zero h.kind_mem (by decide)⟩
  cases h with
  | unseen => simp
  | announced => simp [total_cons, kind]
  | abandoned => simp [total_cons, kind]
  | passed a _ _ h =>
    cases h with
    | ended h =>
      have hends := h.total_ends
      have hother := hother h
      simp only [total_cons, kind, reduceCtorEq, if_true, if_false, List.length_nil]
      omega
    | redirected => simp [total_cons, kind]
    | redirectedAndEnded _ _ _ h =>
      have hends := h.total_ends
      have hother := hother h
      simp only [total_cons, kind, reduceCtorEq, if_true, if_false, List.length_nil]
      omega

/-- A redirection comes after a first failure that was not fatal. -/
theorem of_redirected (h : Fate terms t notes left) {r : Record} (hr : .redirected t r ∈ notes) :
    Redirected terms t r notes := by
  have hending {a : Attempt} {notes : List Note} (h : Ending terms a notes) :
      .redirected t r ∉ notes := fun hmem => by
    have hkind := h.kind_mem _ hmem
    simp [kind] at hkind
  cases h with
  | unseen => simp at hr
  | announced => simp at hr
  | abandoned => simp at hr
  | passed a hticket hfresh h =>
    cases h with
    | ended h => simp [hending h] at hr
    | redirected e hmild htopic =>
      simp only [List.mem_cons, reduceCtorEq, Note.redirected.injEq, List.not_mem_nil, or_false,
        false_or] at hr
      obtain ⟨-, rfl⟩ := hr
      exact ⟨a.position, a.row, e, _, [], by rw [hticket], hmild, hfresh ▸ htopic, rfl⟩
    | redirectedAndEnded e hmild htopic h =>
      simp only [List.mem_cons, reduceCtorEq, Note.redirected.injEq, hending h, or_false,
        false_or] at hr
      obtain ⟨-, rfl⟩ := hr
      exact ⟨a.position, a.row, e, _, _, by rw [hticket], hmild, hfresh ▸ htopic, rfl⟩

end Fate

/-! ## All events -/

/-- Every event has a fate, and the announced ones are those whose ticket was given out. -/
structure Fated (r : Relay) : Prop where
  fate : ∀ t, Fate r.exchange.terms t (story t r.exchange.history)
    (r.outstanding.filter (·.ticket = t))
  unseen : ∀ t, story t r.exchange.history = [] ↔ r.exchange.ticket ≤ t
  hand : ∀ a ∈ r.inHand, a.redirectTopic = r.exchange.terms.redirectTopic

theorem filter_ticket {l : List Attempt} {u : ℕ} (h : ∀ a ∈ l, a.ticket = u) (t : ℕ) :
    l.filter (·.ticket = t) = if u = t then l else [] := by
  split
  · next heq => exact List.filter_eq_self.mpr fun a ha => by simp [h a ha, heq]
  · next hne => exact List.filter_eq_nil_iff.mpr fun a ha => by simp [h a ha, hne]

namespace Fated

variable {r : Relay} {gone left rest : List Attempt} {notes : List Note}

/-- A move that concerns another event changes nothing about this one. -/
theorem fate_of_ne (hr : Fated r) (hout : r.outstanding.Perm (gone ++ rest)) {u t : ℕ}
    (hne : u ≠ t) (hnotes : ∀ n ∈ notes, n.ticket? = some u) (hgone : ∀ a ∈ gone, a.ticket = u)
    (hleft : ∀ a ∈ left, a.ticket = u) :
    Fate r.exchange.terms t (story t (r.exchange.history ++ notes))
      ((left ++ rest).filter (·.ticket = t)) := by
  have hperm := hout.filter (·.ticket = t)
  rw [List.filter_append, filter_ticket hgone, if_neg hne, List.nil_append] at hperm
  rw [story_append, story_eq_nil hnotes hne, List.append_nil, List.filter_append,
    filter_ticket hleft, if_neg hne, List.nil_append]
  exact (hr.fate t).of_perm hperm

/-- The fate of the event that an outstanding attempt belongs to. -/
theorem fate_of_outstanding (hr : Fated r) {a : Attempt} (hout : r.outstanding.Perm (a :: rest)) :
    Fate r.exchange.terms a.ticket (story a.ticket r.exchange.history)
      (a :: rest.filter (·.ticket = a.ticket)) := by
  have hperm := hout.filter (·.ticket = a.ticket)
  rw [List.filter_cons_of_pos (by simp)] at hperm
  exact (hr.fate a.ticket).of_perm hperm

/-- Nothing is known of a ticket that was not given out. -/
theorem outstanding_of_unseen (hr : Fated r) {t : ℕ} (ht : r.exchange.ticket ≤ t) :
    r.outstanding.filter (·.ticket = t) = [] := by
  have h := hr.fate t
  rw [(hr.unseen t).mpr ht] at h
  generalize r.outstanding.filter (·.ticket = t) = open' at h
  cases h
  rfl

/-- An outstanding attempt belongs to an announced event. -/
theorem ticket_lt (hr : Fated r) {a : Attempt} (hout : r.outstanding.Perm (a :: rest)) :
    a.ticket < r.exchange.ticket := by
  by_contra hge
  have h := hr.fate_of_outstanding hout
  rw [(hr.unseen _).mpr (Nat.le_of_not_lt hge)] at h
  cases h

end Fated

namespace Course

variable {terms : Terms} {a : Attempt} {notes : List Note} {left rest : List Attempt}
variable {r : Relay} {gone : List Attempt}

/-- Every move goes on with the course of an event that has begun. -/
theorem move (hr : Fated r) (ha : a.redirectTopic = r.exchange.terms.redirectTopic)
    (h : Course r.exchange.terms a (story a.ticket r.exchange.history)
      (r.outstanding.filter (·.ticket = a.ticket)))
    (hmove : Move r gone notes left) (hout : r.outstanding.Perm (gone ++ rest)) :
    Course r.exchange.terms a (story a.ticket (r.exchange.history ++ notes))
      ((left ++ rest).filter (·.ticket = a.ticket)) := by
  have hseen : a.ticket < r.exchange.ticket := by
    by_contra hge
    exact h.ne_nil ((hr.unseen a.ticket).mpr (Nat.le_of_not_lt hge))
  have hperm := hout.filter (·.ticket = a.ticket)
  rw [List.filter_append] at hperm
  rw [story_append, List.filter_append]
  -- nothing changes for this event when the move is about another one
  have hother {u : ℕ} (hne : u ≠ a.ticket) (hnotes : ∀ n ∈ notes, n.ticket? = some u)
      (hgone : ∀ b ∈ gone, b.ticket = u) (hleft : ∀ b ∈ left, b.ticket = u) :
      Course r.exchange.terms a (story a.ticket r.exchange.history ++ story a.ticket notes)
        (left.filter (·.ticket = a.ticket) ++ rest.filter (·.ticket = a.ticket)) := by
    rw [filter_ticket hgone, if_neg hne] at hperm
    rw [story_eq_nil hnotes hne, filter_ticket hleft, if_neg hne, List.append_nil]
    exact h.of_perm hperm
  cases hmove with
  | quiet =>
    rw [story_nil, List.append_nil]
    exact h.of_perm hperm
  | broken e =>
    have hnone : story a.ticket [Note.broken e] = [] := rfl
    rw [hnone, List.append_nil]
    exact h.of_perm hperm
  | announced b hticket =>
    exact hother (u := b.ticket) (by omega) (by simp [ticket?]) (by simp) (by simp)
  | abandoned job hphase =>
    by_cases hne : job.attempt.ticket = a.ticket
    · have hperm : (r.outstanding.filter (·.ticket = a.ticket)).Perm
          (job.attempt :: rest.filter (·.ticket = a.ticket)) := by simpa [hne] using hperm
      have hfresh := hr.hand job.attempt (by simp [inHand, hphase])
      obtain ⟨hrest, h'⟩ := (h.of_perm hperm).abandon ha hfresh
      rw [hrest]
      simpa [story_cons, ticket?, hne] using h'
    · exact hother hne (by simp [ticket?]) (by simp) (by simp)
  | passed b hpass =>
    by_cases hne : b.ticket = a.ticket
    · have hperm : (r.outstanding.filter (·.ticket = a.ticket)).Perm
          (b :: rest.filter (·.ticket = a.ticket)) := by simpa [hne] using hperm
      obtain ⟨hrest, h'⟩ := (h.of_perm hperm).pass hpass
      have hself : story a.ticket notes = notes :=
        story_eq_self fun n hn => hne ▸ hpass.ticket?_eq n hn
      rw [hrest, List.append_nil, hself,
        filter_ticket fun c hc => (hpass.ticket_eq_of_mem hc).trans hne, if_pos rfl]
      exact h'
    · exact hother hne hpass.ticket?_eq (by simp) fun c hc => hpass.ticket_eq_of_mem hc

end Course

namespace Fated

variable {r : Relay} {gone left rest : List Attempt} {notes : List Note}

/-- Every move leaves each event with a fate. -/
theorem fate_of_move (hr : Fated r) (h : Move r gone notes left)
    (hout : r.outstanding.Perm (gone ++ rest)) (t : ℕ) :
    Fate r.exchange.terms t (story t (r.exchange.history ++ notes))
      ((left ++ rest).filter (·.ticket = t)) := by
  rcases (hr.fate t).exists_course with ⟨hnone, hopen⟩ | ⟨a, rfl, hfresh, hcourse⟩
  · have hnew := (hr.unseen t).mp hnone
    cases h with
    | quiet =>
      rw [List.append_nil]
      exact (hr.fate t).of_perm (hout.filter _)
    | broken e =>
      have hnone : story t [Note.broken e] = [] := rfl
      rw [story_append, hnone, List.append_nil]
      exact (hr.fate t).of_perm (hout.filter _)
    | announced a hticket hfresh =>
      by_cases hne : a.ticket = t
      · obtain rfl := hne
        have hrest := (hout.filter (·.ticket = a.ticket)).symm
        rw [hopen, List.nil_append] at hrest
        rw [story_append, hnone, List.singleton_append, List.filter_cons_of_pos (by simp),
          hrest.eq_nil]
        simpa [story_cons, ticket?] using Fate.announced a rfl hfresh
      · exact hr.fate_of_ne hout hne (by simp [ticket?]) (by simp) (by simp)
    -- an attempt that is outstanding belongs to another event
    | abandoned job =>
      have hne : job.attempt.ticket ≠ t :=
        Nat.ne_of_lt (Nat.lt_of_lt_of_le (hr.ticket_lt hout) hnew)
      exact hr.fate_of_ne hout hne (by simp [ticket?]) (by simp) (by simp)
    | passed a h =>
      have hne : a.ticket ≠ t := Nat.ne_of_lt (Nat.lt_of_lt_of_le (hr.ticket_lt hout) hnew)
      exact hr.fate_of_ne hout hne h.ticket?_eq (by simp) fun b hb => h.ticket_eq_of_mem hb
  · exact (hcourse.move hr hfresh h hout).fate hfresh

theorem unseen_of_move (hr : Fated r) (h : Move r gone notes left)
    (hout : r.outstanding.Perm (gone ++ rest)) (t : ℕ) :
    story t (r.exchange.history ++ notes) = [] ↔
      r.exchange.ticket + total .submitted notes ≤ t := by
  -- notes about an announced event do not count as a first sight of it
  have hseen {a : Attempt} (hticket : a.ticket < r.exchange.ticket)
      (hnotes : ∀ n ∈ notes, n.ticket? = some a.ticket) :
      story t (r.exchange.history ++ notes) = [] ↔ r.exchange.ticket ≤ t := by
    rw [story_append, List.append_eq_nil_iff, hr.unseen t, and_iff_left_iff_imp]
    intro hle
    exact story_eq_nil hnotes (by omega)
  cases h with
  | quiet => simpa using hr.unseen t
  | broken e => simpa [story_cons, total_cons, ticket?, kind] using hr.unseen t
  | announced a hticket =>
    have hone : total .submitted [Note.submitted a.ticket a.position] = 1 := rfl
    rw [story_append, List.append_eq_nil_iff, hr.unseen t, story_cons, hone, hticket]
    by_cases ht : r.exchange.ticket = t
    · simp [ticket?, ht]
    · simp only [ticket?, Option.some.injEq, ht, if_false, story_nil, and_true]
      omega
  | abandoned job => simpa [total_cons, kind] using hseen (hr.ticket_lt hout) (by simp [ticket?])
  | passed a h => simpa [h.total_submitted] using hseen (hr.ticket_lt hout) h.ticket?_eq

theorem effect {r' : Relay} (hr : Fated r) (h : Effect r notes r') : Fated r' := by
  obtain ⟨hfollows, ⟨gone, left, rest, hmove, hout, hout'⟩, hhand⟩ := h
  refine ⟨fun t => ?_, fun t => ?_, fun a ha => ?_⟩
  · rw [hfollows.terms, hfollows.history]
    exact (hr.fate_of_move hmove hout t).of_perm (hout'.symm.filter _)
  · rw [hfollows.history, hfollows.ticket]
    exact hr.unseen_of_move hmove hout t
  · rw [hfollows.terms]
    rcases hhand a ha with h | h
    · exact hr.hand a h
    · exact h

end Fated

/-- Every delivery and every failure led to a completion, an alarm or a redirection. -/
def Balanced (notes : List Note) : Prop :=
  total .delivered notes + total .failed notes =
    total .completed notes + total .fatal notes + total .redirected notes

theorem Move.balanced {r : Relay} {gone left : List Attempt} {notes : List Note}
    (h : Move r gone notes left) : Balanced notes := by
  have hending {a : Attempt} {notes : List Note} (h : Ending r.exchange.terms a notes) :
      Balanced notes := by
    rw [Balanced, h.total_ends, h.total_outcomes, total_eq_zero h.kind_mem (by decide)]
  cases h with
  | quiet => rfl
  | broken => rfl
  | announced => rfl
  | abandoned => rfl
  | passed a h =>
    cases h with
    | ended h => exact hending h
    | redirected => rfl
    | redirectedAndEnded _ _ _ h =>
      have hrest := hending h
      simp only [Balanced, total_cons, kind, reduceCtorEq, if_true, if_false] at hrest ⊢
      omega

/-! ## Runs -/

section Run

variable {resume : Option Position} {r₀ r : Relay} {as : List Action}
  (hinit : Initial resume r₀) (hrun : r₀.after as = some r)
include hinit hrun

theorem fated_after : Fated r := by
  refine after_induction (P := fun _ r => Fated r) ?_ ?_ hrun
  · obtain ⟨terms, broker, capacity, hheld, -, rfl⟩ := hinit.eq
    refine ⟨fun t => ?_, fun t => by simp, by simp [inHand]⟩
    show Fate terms t [] (List.filter (·.ticket = t) ([] ++ broker.held))
    rw [hheld]
    exact .unseen
  · intro as r a r' _ hr hact
    obtain ⟨notes, heffect⟩ := act_effect hact
    exact hr.effect heffect

/-- Everything that the tracker and the counts know is in the history. -/
theorem follows_after : r₀.exchange.Follows r.exchange.history r.exchange := by
  refine after_induction (P := fun _ r => r₀.exchange.Follows r.exchange.history r.exchange) ?_ ?_
    hrun
  · obtain ⟨terms, broker, capacity, -, -, rfl⟩ := hinit.eq
    exact .refl _
  · intro as r a r' _ hr hact
    obtain ⟨notes, heffect⟩ := act_effect hact
    rw [heffect.follows.history]
    exact hr.trans heffect.follows

/-- The tracker knows what it was told. -/
theorem progress_after :
    r.exchange.progress = (Progress.resumed resume).replay (calls r.exchange.history) := by
  have hfollows := (follows_after hinit hrun).progress
  obtain ⟨terms, broker, capacity, -, -, rfl⟩ := hinit.eq
  exact hfollows

theorem balanced_after : Balanced r.exchange.history := by
  refine after_induction (P := fun _ r => Balanced r.exchange.history) ?_ ?_ hrun
  · obtain ⟨terms, broker, capacity, -, -, rfl⟩ := hinit.eq
    rfl
  · intro as r a r' _ hr hact
    obtain ⟨notes, hfollows, ⟨gone, left, rest, hmove, -⟩, -⟩ := act_effect hact
    have hnotes := hmove.balanced
    rw [hfollows.history]
    simp only [Balanced, total_append] at hr hnotes ⊢
    omega

/-- An event is given up only while the relay does not run, when the broker refuses it as closed. -/
theorem exists_of_abandoned {t : ℕ} {p : Position} (h : .abandoned t p ∈ r.exchange.history) :
    ∃ before s job, before <+: as ∧ r₀.after before = some s ∧ s.phase = .offering job ∧
      job.attempt.ticket = t ∧ s.lifecycle.stage ≠ .running ∧
      (s.exchange.broker.offer job.record job.attempt).1 = .rejected .closed := by
  refine after_induction (P := fun as r => .abandoned t p ∈ r.exchange.history →
    ∃ before s job, before <+: as ∧ r₀.after before = some s ∧ s.phase = .offering job ∧
      job.attempt.ticket = t ∧ s.lifecycle.stage ≠ .running ∧
      (s.exchange.broker.offer job.record job.attempt).1 = .rejected .closed) ?_ ?_ hrun h
  · obtain ⟨terms, broker, capacity, -, -, rfl⟩ := hinit.eq
    simp
  · intro as r a r' hr ih hact hmem
    obtain ⟨notes, hfollows, ⟨gone, left, rest, hmove, -⟩, -⟩ := act_effect hact
    rw [hfollows.history] at hmem
    rcases List.mem_append.mp hmem with hmem | hmem
    · obtain ⟨before, s, job, hpre, hs⟩ := ih hmem
      exact ⟨before, s, job, hpre.trans (List.prefix_append _ _), hs⟩
    · -- among the notes of one action, only giving up an offered record is of this kind
      cases hmove with
      | quiet => simp at hmem
      | broken => simp at hmem
      | announced => simp at hmem
      | abandoned job hphase hstage hclosed =>
        simp only [List.mem_singleton, Note.abandoned.injEq] at hmem
        exact ⟨as, r, job, List.prefix_append _ _, hr, hphase, hmem.1.symm, hstage, hclosed⟩
      | passed _ h => exact absurd (h.kind_mem _ hmem) (by simp [kind])

/-- The events that were given a ticket were submitted, each of them once. -/
theorem submitted_after (t : ℕ) : total .submitted (story t r.exchange.history) =
    if t < r.exchange.ticket then 1 else 0 := by
  have hfated := fated_after hinit hrun
  rw [(hfated.fate t).totals.2.1]
  by_cases h : r.exchange.ticket ≤ t
  · rw [if_pos ((hfated.unseen t).mpr h), if_neg (Nat.not_lt.mpr h)]
  · rw [if_neg (mt (hfated.unseen t).mp h), if_pos (Nat.lt_of_not_le h)]

/-- Every event that is announced meets exactly one fate, however the worker, the pushes and the
outcomes are interleaved: it is completed, its failure raises an alarm, it is given up, or an
attempt of it is outstanding. -/
theorem every_event_meets_one_fate :
    -- what is noted is what the tracker and the counts were told
    (r.exchange.progress = (Progress.resumed resume).replay (calls r.exchange.history) ∧
      r.exchange.counts.produced = .ofNat (total .delivered r.exchange.history) ∧
      r.exchange.counts.failed = .ofNat (total .failed r.exchange.history)) ∧
    -- the events that were given a ticket are submitted, each of them once
    (∀ t, total .submitted (story t r.exchange.history) =
      if t < r.exchange.ticket then 1 else 0) ∧
    (∀ t, total .completed (story t r.exchange.history) +
        total .fatal (story t r.exchange.history) +
        total .abandoned (story t r.exchange.history) +
        r.outstanding.countP (·.ticket = t) =
      total .submitted (story t r.exchange.history)) ∧
    -- an event is redirected once at most, after a first failure that was not fatal
    (∀ t, total .redirected (story t r.exchange.history) ≤ 1 ∧
      ∀ record, .redirected t record ∈ r.exchange.history →
        Redirected r.exchange.terms t record (story t r.exchange.history)) ∧
    (∀ t p, .abandoned t p ∈ r.exchange.history →
      ∃ before s job, before <+: as ∧ r₀.after before = some s ∧ s.phase = .offering job ∧
        job.attempt.ticket = t ∧ s.lifecycle.stage ≠ .running ∧
        (s.exchange.broker.offer job.record job.attempt).1 = .rejected .closed) ∧
    Balanced r.exchange.history := by
  have hfated := fated_after hinit hrun
  have hfollows := follows_after hinit hrun
  refine ⟨⟨?_, ?_, ?_⟩, submitted_after hinit hrun, fun t => ?_,
    fun t => ⟨(hfated.fate t).totals.2.2, ?_⟩, ?_, balanced_after hinit hrun⟩
  · obtain ⟨terms, broker, capacity, -, -, rfl⟩ := hinit.eq
    exact hfollows.progress
  · obtain ⟨terms, broker, capacity, -, -, rfl⟩ := hinit.eq
    simpa using hfollows.produced
  · obtain ⟨terms, broker, capacity, -, -, rfl⟩ := hinit.eq
    simpa using hfollows.failed
  · rw [List.countP_eq_length_filter]
    exact (hfated.fate t).totals.1
  · intro record hrecord
    exact (hfated.fate t).of_redirected (mem_story_iff.mpr ⟨hrecord, rfl⟩)
  · exact fun t p h => exists_of_abandoned hinit hrun h

end Run

/-- One event, too large for its topic, whose redirected record is delivered in the end. -/
theorem one_fate_of_redirected :
    ∃ r, (plain [.fail (.tooLarge ""), .hold]).after
        [.work, .push default .ok, .work, .work, .release 0 (.ok ⟨0, 1⟩)] = some r ∧
      total .redirected (story 0 r.exchange.history) = 1 ∧
      total .completed (story 0 r.exchange.history) + total .fatal (story 0 r.exchange.history) +
        total .abandoned (story 0 r.exchange.history) +
          r.outstanding.countP (·.ticket = 0) = 1 := by
  obtain ⟨r, hrun, hredirected, hticket⟩ : ∃ r, (plain [.fail (.tooLarge ""), .hold]).after
      [.work, .push default .ok, .work, .work, .release 0 (.ok ⟨0, 1⟩)] = some r ∧
      total .redirected (story 0 r.exchange.history) = 1 ∧ r.exchange.ticket = 1 :=
    ⟨_, rfl, rfl, rfl⟩
  obtain ⟨-, hseen, hfate, -⟩ := every_event_meets_one_fate (initial_plain _) hrun
  refine ⟨r, hrun, hredirected, ?_⟩
  rw [hfate 0, hseen 0, hticket]
  rfl

end Relay
end ChangeRelay

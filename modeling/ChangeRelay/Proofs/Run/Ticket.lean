import ChangeRelay.Proofs.Run.Queue
import Mathlib.Data.List.Count
import Mathlib.Data.List.Nodup
/-!
# Tickets

The tickets number the announced events in order, so an event is known by its place among the
announced positions. When a position was completed as often as it was announced, every event that
stands there has been completed: no event is completed twice, and none for another one.
-/

namespace ChangeRelay

open Note

/-- An event is completed at the position at which it was submitted. -/
theorem Relay.Fate.submitted_of_completed {terms : Terms} {t : ℕ} {notes : List Note}
    {left : List Attempt} (h : Relay.Fate terms t notes left) {p : Position}
    (hp : .completed t p ∈ notes) : .submitted t p ∈ notes := by
  cases h with
  | unseen => simp at hp
  | announced => simp at hp
  | abandoned => simp at hp
  | passed a _ _ h =>
    cases h with
    | ended h =>
      obtain rfl : p = a.position := h.eq_of_completed (t := t) (by simpa using hp)
      exact List.mem_cons_self
    | redirected => simp at hp
    | redirectedAndEnded _ _ _ h =>
      obtain rfl : p = a.position := h.eq_of_completed (t := t) (by simpa using hp)
      exact List.mem_cons_self

namespace Relay

/-- The completion of an event was signalled. -/
def Signalled (r : Relay) (t : ℕ) : Prop :=
  ∃ p, .completed t p ∈ r.exchange.history

/-- The tickets of the events that were completed at a position. -/
def completedAt (q : Position) (notes : List Note) : List ℕ :=
  notes.filterMap fun
    | .completed t p => if p = q then some t else none
    | _ => none

theorem mem_completedAt_iff {q : Position} {t : ℕ} {notes : List Note} :
    t ∈ completedAt q notes ↔ .completed t q ∈ notes := by
  rw [completedAt, List.mem_filterMap]
  refine ⟨fun ⟨n, hn, h⟩ => ?_, fun h => ⟨_, h, by simp⟩⟩
  split at h
  · split at h
    · next hp =>
      obtain rfl := Option.some.inj h
      rwa [← hp]
    · simp at h
  · simp at h

theorem length_completedAt (q : Position) (notes : List Note) :
    (completedAt q notes).length = (Progress.completions (calls notes)).count q := by
  induction notes with
  | nil => rfl
  | cons n notes ih =>
    cases n with
    | completed t p =>
      have hcompletions : Progress.completions (calls (.completed t p :: notes)) =
          p :: Progress.completions (calls notes) := rfl
      -- only a completion counts on either side; it counts when it is at the position
      rw [hcompletions, List.count_cons, ← ih, completedAt, List.filterMap_cons]
      by_cases hp : p = q
      · simp [hp, completedAt]
      · simp [hp, completedAt]
    | _ => exact ih

theorem exists_completed_of_mem {q : Position} {notes : List Note}
    (h : q ∈ Progress.completions (calls notes)) : ∃ t, .completed t q ∈ notes := by
  have hpos : 0 < (completedAt q notes).length := by
    rw [length_completedAt]
    exact List.count_pos_iff.mpr h
  obtain ⟨t, ht⟩ := List.exists_mem_of_length_pos hpos
  exact ⟨t, mem_completedAt_iff.mp ht⟩

theorem count_completedAt_le (q : Position) (t : ℕ) (notes : List Note) :
    (completedAt q notes).count t ≤ total .completed (story t notes) := by
  induction notes with
  | nil => exact Nat.zero_le _
  | cons n notes ih =>
    have hstory : total .completed (story t notes) ≤ total .completed (story t (n :: notes)) := by
      rw [story_cons]
      split
      · rw [total_cons]
        omega
      · exact Nat.le_refl _
    cases n with
    | completed u p =>
      rw [completedAt, List.filterMap_cons]
      by_cases hp : p = q
      · by_cases hu : u = t
        · simpa [hp, hu, story_cons, total_cons, ticket?, kind, completedAt] using ih
        · simpa [hp, hu, story_cons, ticket?, completedAt] using ih
      · simpa [hp, completedAt] using Nat.le_trans ih hstory
    | _ => exact Nat.le_trans ih hstory

/-- The tickets of the events that were announced at a position. -/
def ticketsAt (q : Position) (ps : List Position) : List ℕ :=
  (List.range ps.length).filter (ps[·]? = some q)

theorem mem_ticketsAt_iff {q : Position} {ps : List Position} {t : ℕ} :
    t ∈ ticketsAt q ps ↔ ps[t]? = some q := by
  rw [ticketsAt, List.mem_filter, List.mem_range, decide_eq_true_eq, and_iff_right_iff_imp]
  exact fun h => (List.getElem?_eq_some_iff.mp h).1

theorem length_ticketsAt (q : Position) (ps : List Position) :
    (ticketsAt q ps).length = ps.count q := by
  induction ps using List.reverseRecOn with
  | nil => rfl
  | append_singleton ps p ih =>
    have hinit : (List.range ps.length).filter ((ps ++ [p])[·]? = some q) = ticketsAt q ps := by
      refine List.filter_congr fun t ht => ?_
      rw [List.getElem?_append_left (List.mem_range.mp ht)]
    rw [ticketsAt, List.length_append, List.length_singleton, List.range_succ, List.filter_append,
      hinit, List.length_append, ih, List.count_append]
    by_cases hp : p = q <;> simp [hp]

section Run

variable {resume : Option Position} {r₀ r : Relay} {as : List Action}
  (hinit : Initial resume r₀) (hrun : r₀.after as = some r)
include hinit hrun

/-- An event is submitted at the position that its ticket has among the announced ones. -/
theorem announced_of_submitted {t : ℕ} {p : Position} (h : .submitted t p ∈ r.exchange.history) :
    r.announced[t]? = some p := by
  refine after_induction
    (P := fun _ r => .submitted t p ∈ r.exchange.history → r.announced[t]? = some p) ?_ ?_ hrun h
  · obtain ⟨terms, broker, capacity, -, -, rfl⟩ := hinit.eq
    simp
  · intro as r a r' hr ih hact hmem
    obtain ⟨notes, hfollows, ⟨gone, left, rest, hmove, -⟩, -⟩ := act_effect hact
    have hticket := ticket_after hinit hr
    have hannounced : r'.announced = r.announced ++ submissions notes := by
      rw [announced, announced, hfollows.history, submissions_append]
    rw [hfollows.history] at hmem
    rw [hannounced]
    -- an old note keeps its place; a new one takes the next place, which is its ticket
    rcases List.mem_append.mp hmem with hmem | hmem
    · have hp := ih hmem
      rw [List.getElem?_append_left (List.getElem?_eq_some_iff.mp hp).1, hp]
    · cases hmove with
      | quiet => simp at hmem
      | broken => simp at hmem
      | announced a ha =>
        simp only [List.mem_singleton, Note.submitted.injEq] at hmem
        obtain ⟨rfl, rfl⟩ := hmem
        rw [ha, hticket, List.getElem?_append_right (Nat.le_refl _), Nat.sub_self]
        rfl
      | abandoned => simp at hmem
      | passed _ h => exact absurd (h.kind_mem _ hmem) (by simp [kind])

theorem announced_of_completed {t : ℕ} {p : Position} (h : .completed t p ∈ r.exchange.history) :
    r.announced[t]? = some p := by
  have hfate := (fated_after hinit hrun).fate t
  -- the story of the event knows the position at which it was submitted
  have hstory := hfate.submitted_of_completed (mem_story_iff.mpr ⟨h, rfl⟩)
  exact announced_of_submitted hinit hrun (mem_story_iff.mp hstory).1

/-- No event is completed twice. -/
theorem nodup_completedAt (q : Position) : (completedAt q r.exchange.history).Nodup := by
  refine List.nodup_iff_count_le_one.mpr fun t => ?_
  have htotals := ((fated_after hinit hrun).fate t).totals
  have hle := count_completedAt_le q t r.exchange.history
  have hone := submitted_after hinit hrun t
  split at hone <;> omega

/-- When a position was completed as often as it was announced, all its events were completed. -/
theorem signalled_of_count_le {q : Position}
    (hcount : r.announced.count q ≤ (Progress.completions (calls r.exchange.history)).count q)
    {t : ℕ} (ht : r.announced[t]? = some q) : r.Signalled t := by
  have hnodup := nodup_completedAt hinit hrun q
  have hsub : completedAt q r.exchange.history ⊆ ticketsAt q r.announced := by
    intro u hu
    exact mem_ticketsAt_iff.mpr (announced_of_completed hinit hrun (mem_completedAt_iff.mp hu))
  -- the completed tickets are distinct and among the announced ones, and there are as many of them
  have hperm := (List.subperm_of_subset hnodup hsub).perm_of_length_le (by
    rw [length_ticketsAt, length_completedAt]
    exact hcount)
  exact ⟨q, mem_completedAt_iff.mp (hperm.symm.subset (mem_ticketsAt_iff.mpr ht))⟩

end Run

end Relay
end ChangeRelay

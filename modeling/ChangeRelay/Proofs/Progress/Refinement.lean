import ChangeRelay.Proofs.Progress.Ledger
import Mathlib.Data.List.TakeWhile
/-!
# The tracker keeps the open end of its ledger

`tracks_replay` relates a tracker with the ledger of its calls: what is pending is the ledger
without the finished entries at its start, and the safe position is that of the last entry passed,
unless the first open entry has the same one.
-/

namespace ChangeRelay
namespace Progress

/-! ## Passing over finished entries -/

theorem snd_pass (safe : Option Position) (l : List Pending) :
    (pass safe l).2 = l.dropWhile Pending.done := by
  induction l generalizing safe with
  | nil => rfl
  | cons e rest ih =>
    rw [pass]
    by_cases he : e.done = true
    · rw [if_pos he, ih, List.dropWhile_cons_of_pos he]
    · rw [if_neg he, List.dropWhile_cons_of_neg he]

/-- When no entry is finished at the start, the safe position stays. -/
theorem fst_pass_of_takeWhile_eq_nil {safe : Option Position} {l : List Pending}
    (h : l.takeWhile Pending.done = []) : (pass safe l).1 = safe := by
  cases l with
  | nil => rfl
  | cons e rest =>
    have he : ¬e.done = true := by
      intro he
      rw [List.takeWhile_cons_of_pos he] at h
      simp at h
    rw [pass, if_neg he]

/-- The last entry passed gives the safe position, unless the next one has the same position. -/
theorem fst_pass_of_getLast? {safe : Option Position} {l : List Pending} {e : Pending}
    (hlast : (l.takeWhile Pending.done).getLast? = some e)
    (hnext : (l.dropWhile Pending.done).head?.map Pending.position ≠ some e.position) :
    (pass safe l).1 = some e.position := by
  induction l generalizing safe with
  | nil => simp at hlast
  | cons x rest ih =>
    by_cases hx : x.done = true
    · rw [List.takeWhile_cons_of_pos hx] at hlast
      rw [List.dropWhile_cons_of_pos hx] at hnext
      rw [pass, if_pos hx]
      by_cases hnil : rest.takeWhile Pending.done = []
      · -- `x` is the last entry passed, and what follows it is the open end
        rw [hnil, List.getLast?_singleton] at hlast
        obtain rfl := Option.some.inj hlast
        have hdrop : rest.takeWhile Pending.done ++ rest.dropWhile Pending.done = rest :=
          List.takeWhile_append_dropWhile
        rw [hnil, List.nil_append] at hdrop
        rw [hdrop] at hnext
        rw [fst_pass_of_takeWhile_eq_nil hnil, if_neg hnext]
      · rw [List.getLast?_cons_of_ne_nil hnil] at hlast
        exact ih hlast hnext
    · rw [List.takeWhile_cons_of_neg hx] at hlast
      simp at hlast

/-- The safe position stays, or an entry that was passed gives it. -/
theorem fst_pass_cases (safe : Option Position) (l : List Pending) :
    (pass safe l).1 = safe ∨
      ∃ e ∈ l.takeWhile Pending.done, (pass safe l).1 = some e.position := by
  induction l generalizing safe with
  | nil => exact .inl rfl
  | cons e rest ih =>
    rw [pass]
    by_cases he : e.done = true
    · rw [if_pos he, List.takeWhile_cons_of_pos he]
      rcases ih (if rest.head?.map (·.position) = some e.position then safe else some e.position)
        with hstay | ⟨x, hx, hsafe⟩
      · rw [hstay]
        by_cases hnext : rest.head?.map (·.position) = some e.position
        · exact .inl (if_pos hnext)
        · exact .inr ⟨e, List.mem_cons_self, if_neg hnext⟩
      · exact .inr ⟨x, List.mem_cons_of_mem e hx, hsafe⟩
    · rw [if_neg he]
      exact .inl rfl

/-! ## The tracker and its ledger -/

/-- The entries that a tracker has passed. -/
def passed (l : List Entry) : List Entry :=
  l.takeWhile Entry.finished

/-- The entries from the first unfinished one on. -/
def openEnd (l : List Entry) : List Entry :=
  l.dropWhile Entry.finished

theorem passed_append_openEnd (l : List Entry) : passed l ++ openEnd l = l :=
  List.takeWhile_append_dropWhile

theorem drop_length_passed (l : List Entry) : l.drop (passed l).length = openEnd l := by
  have h : (passed l ++ openEnd l).drop (passed l).length = openEnd l := List.drop_left
  rwa [passed_append_openEnd] at h

theorem take_length_passed (l : List Entry) : l.take (passed l).length = passed l := by
  have h : (passed l ++ openEnd l).take (passed l).length = passed l := List.take_left
  rwa [passed_append_openEnd] at h

theorem finished_of_mem_passed {l : List Entry} {e : Entry} (h : e ∈ passed l) :
    e.finished = true :=
  List.mem_takeWhile_imp h

theorem mem_of_mem_passed {l : List Entry} {e : Entry} (h : e ∈ passed l) : e ∈ l :=
  (List.takeWhile_prefix _).subset h

theorem mem_of_head?_openEnd {l : List Entry} {e : Entry} (h : (openEnd l).head? = some e) :
    e ∈ l :=
  (List.dropWhile_suffix _).subset (List.mem_of_head? h)

/-- Entries that are passed stay passed, whatever follows them. -/
theorem passed_passed_append (l m : List Entry) : passed (passed l ++ m) = passed l ++ passed m :=
  List.takeWhile_append_of_pos fun _ => finished_of_mem_passed

theorem openEnd_passed_append (l m : List Entry) : openEnd (passed l ++ m) = openEnd m :=
  List.dropWhile_append_of_pos fun _ => finished_of_mem_passed

/-- The first entry of the open end is not finished. -/
theorem finished_of_head?_openEnd {l : List Entry} {e : Entry} (h : (openEnd l).head? = some e) :
    e.finished = false := by
  have hnot := List.head?_dropWhile_not Entry.finished l
  rw [openEnd] at h
  rw [h] at hnot
  simpa using hnot

theorem takeWhile_map_pending (l : List Entry) :
    (l.map Entry.pending).takeWhile Pending.done = (passed l).map Entry.pending := by
  rw [List.takeWhile_map]
  rfl

theorem dropWhile_map_pending (l : List Entry) :
    (l.map Entry.pending).dropWhile Pending.done = (openEnd l).map Entry.pending := by
  rw [List.dropWhile_map]
  rfl

/-- The last entry passed gives the safe position, told of the entries of a ledger. -/
theorem fst_pass_map_pending {safe : Option Position} {l : List Entry} {e : Entry}
    (hlast : (passed l).getLast? = some e)
    (hnext : (openEnd l).head?.map Entry.position ≠ some e.position) :
    (pass safe (l.map Entry.pending)).1 = some e.position := by
  have hlast' : ((l.map Entry.pending).takeWhile Pending.done).getLast? = some e.pending := by
    rw [takeWhile_map_pending, List.getLast?_map, hlast, Option.map_some]
  apply fst_pass_of_getLast? hlast'
  rw [dropWhile_map_pending, List.head?_map, Option.map_map]
  exact hnext

/-- What a tracker that started with `resume` knows of its ledger. -/
structure Tracks (resume : Option Position) (l : List Entry) (t : Progress) : Prop where
  pending : t.pending = (openEnd l).map Entry.pending
  safe : ∀ e, (passed l).getLast? = some e →
    (openEnd l).head?.map Entry.position ≠ some e.position → t.safe = some e.position
  unmoved : passed l = [] → t.safe = resume
  reached : t.safe = resume ∨ ∃ e ∈ passed l, t.safe = some e.position

/-- What starts with an unfinished entry is all open. -/
theorem passed_eq_nil_of_head? {l : List Entry} (h : ∀ e, l.head? = some e → e.finished = false) :
    passed l = [] := by
  cases l with
  | nil => rfl
  | cons e l => exact List.takeWhile_cons_of_neg (by simp [h e rfl])

theorem openEnd_of_passed_eq_nil {l : List Entry} (h : passed l = []) : openEnd l = l := by
  have happ := passed_append_openEnd l
  rwa [h, List.nil_append] at happ

theorem map_position_of_finish? {n : ℕ} {p : Position} {l l' : List Entry}
    (h : finish? n p l = some l') : l'.map Entry.position = l.map Entry.position := by
  obtain ⟨a, e, b, rfl, rfl, -, -⟩ := exists_split_of_finish? h
  simp

theorem mark?_eq_of_tracks {resume : Option Position} {l : List Entry} {t : Progress}
    (h : Tracks resume l t) (n : ℕ) (p : Position) :
    mark? p t.pending = (finish? n p (openEnd l)).map (List.map Entry.pending) := by
  rw [h.pending, mark?_map_pending]

/-- The ledger and its open end agree on what a completion finishes. -/
theorem finish?_eq_map_openEnd (n : ℕ) (p : Position) (l : List Entry) :
    finish? n p l = (finish? n p (openEnd l)).map (passed l ++ ·) := by
  conv_lhs => rw [← passed_append_openEnd l]
  exact finish?_append fun e he => finished_of_mem_passed he

namespace Tracks

variable {resume : Option Position} {l : List Entry} {t : Progress}

theorem submit (h : Tracks resume l t) (n : ℕ) (p : Position) :
    Tracks resume (l ++ [⟨p, n, none⟩]) (t.submit p) := by
  have hcut : l ++ [⟨p, n, none⟩] = passed l ++ (openEnd l ++ [⟨p, n, none⟩]) := by
    rw [← List.append_assoc, passed_append_openEnd]
  have hnone : passed (openEnd l ++ [⟨p, n, none⟩]) = [] := by
    apply passed_eq_nil_of_head?
    intro e he
    cases hl : openEnd l with
    | nil =>
      rw [hl] at he
      obtain rfl := Option.some.inj he
      rfl
    | cons x rest =>
      rw [hl] at he
      exact finished_of_head?_openEnd (by rw [hl]; exact he)
  have hpassed : passed (l ++ [⟨p, n, none⟩]) = passed l := by
    rw [hcut, passed_passed_append, hnone, List.append_nil]
  have hopen : openEnd (l ++ [⟨p, n, none⟩]) = openEnd l ++ [⟨p, n, none⟩] := by
    rw [hcut, openEnd_passed_append, openEnd_of_passed_eq_nil hnone]
  refine ⟨?_, ?_, ?_, hpassed ▸ h.reached⟩
  · rw [hopen, List.map_append, ← h.pending]
    rfl
  · intro e he hnext
    rw [hpassed] at he
    refine h.safe e he fun hsame => hnext ?_
    -- an open end that is not empty keeps its first entry
    cases hl : openEnd l with
    | nil =>
      rw [hl] at hsame
      simp at hsame
    | cons x rest =>
      rw [hl] at hsame
      rw [hopen, hl]
      exact hsame
  · intro hnil
    rw [hpassed] at hnil
    exact h.unmoved hnil

/-- A completion that finishes an entry moves the tracker as far as entries are finished. -/
theorem finish (h : Tracks resume l t) {n : ℕ} {p : Position} {m : List Entry}
    (hm : finish? n p (openEnd l) = some m) :
    Tracks resume (passed l ++ m) (t.complete p) := by
  have hmark : mark? p t.pending = some (m.map Entry.pending) := by
    rw [mark?_eq_of_tracks h n p, hm, Option.map_some]
  have hcomplete : t.complete p = { pending := (pass t.safe (m.map Entry.pending)).2
                                    safe := (pass t.safe (m.map Entry.pending)).1
                                    completed := t.completed + 1 } := by
    rw [complete, hmark]
  -- when nothing more is passed, the tracker stays, and the first open entry has the same position
  have hstay (hnil : passed m = []) : (t.complete p).safe = t.safe ∧
      (openEnd m).head?.map Entry.position = (openEnd l).head?.map Entry.position := by
    refine ⟨?_, ?_⟩
    · rw [hcomplete]
      exact fst_pass_of_takeWhile_eq_nil (by rw [takeWhile_map_pending, hnil, List.map_nil])
    · rw [openEnd_of_passed_eq_nil hnil, ← List.head?_map, ← List.head?_map,
        map_position_of_finish? hm]
  refine ⟨?_, ?_, ?_, ?_⟩
  · rw [openEnd_passed_append, hcomplete, ← dropWhile_map_pending]
    exact snd_pass _ _
  · intro e he hnext
    rw [passed_passed_append] at he
    rw [openEnd_passed_append] at hnext
    by_cases hnil : passed m = []
    · obtain ⟨hsafe, hhead⟩ := hstay hnil
      rw [hnil, List.append_nil] at he
      rw [hhead] at hnext
      rw [hsafe]
      exact h.safe e he hnext
    · rw [List.getLast?_append_of_ne_nil _ hnil] at he
      rw [hcomplete]
      exact fst_pass_map_pending he hnext
  · intro hnil
    rw [passed_passed_append] at hnil
    obtain ⟨hl, hm'⟩ := List.append_eq_nil_iff.mp hnil
    rw [(hstay hm').1]
    exact h.unmoved hl
  · rw [passed_passed_append, hcomplete]
    rcases fst_pass_cases t.safe (m.map Entry.pending) with hsafe | ⟨e, he, hsafe⟩
    · rw [hsafe]
      exact h.reached.imp id fun ⟨e, he, hreached⟩ => ⟨e, List.mem_append_left _ he, hreached⟩
    · rw [takeWhile_map_pending] at he
      obtain ⟨x, hx, rfl⟩ := List.mem_map.mp he
      exact .inr ⟨x, List.mem_append_right _ hx, hsafe⟩

end Tracks

/-- A tracker knows of every call what its ledger tells. -/
theorem tracks_replay (resume : Option Position) (calls : List Call) :
    Tracks resume (ledger calls) ((resumed resume).replay calls) := by
  induction calls using List.reverseRecOn with
  | nil => exact ⟨rfl, by simp [passed], fun _ => rfl, .inl rfl⟩
  | append_singleton calls c ih =>
    rw [ledger_concat, replay_concat]
    cases c with
    | submit p => exact ih.submit calls.length p
    | complete p =>
      rw [enter, apply, finish?_eq_map_openEnd]
      cases hm : finish? calls.length p (openEnd (ledger calls)) with
      | some m => exact ih.finish hm
      | none =>
        -- the tracker only counts what the ledger ignores
        have hmark : mark? p ((resumed resume).replay calls).pending = none := by
          rw [mark?_eq_of_tracks ih calls.length p, hm, Option.map_none]
        rw [complete, hmark]
        exact ⟨ih.pending, ih.safe, ih.unmoved, ih.reached⟩

end Progress
end ChangeRelay

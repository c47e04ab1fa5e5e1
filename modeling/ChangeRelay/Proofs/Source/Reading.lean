import ChangeRelay.Source.Basic
import Mathlib.Data.List.Basic
/-!
# Reading a source to its end

What a source gives when it is asked again and again. A source that resumes after a position gives
the changes that a source from the start gives, without those at the position or before it.
-/

namespace ChangeRelay
namespace Source

/-- Unless it is at its end, a source is shorter after it was asked. -/
theorem next_shorter (s : Source) :
    s.next.1 = .ok none ∨ s.next.2.bytes.length < s.bytes.length := by
  fun_induction next s with
  | case1 s h => exact .inl rfl
  | case2 s h rest hlt number hline ih => exact ih.imp id fun h => Nat.lt_trans h hlt
  | case3 s h rest hlt => exact .inr hlt
  | case4 s h rest hlt => exact .inr hlt
  | case5 s h rest hlt number c hline hpast ih => exact ih.imp id fun h => Nat.lt_trans h hlt
  | case6 s h rest hlt => exact .inr hlt

/-- What a source gives until its end. It goes on behind a line that is not a change. -/
def results (s : Source) : List (Except Error Change) :=
  match _hnext : s.next with
  | (.ok none, _) => []
  | (.ok (some c), rest) => .ok c :: results rest
  | (.error e, rest) => .error e :: results rest
termination_by s.bytes.length
decreasing_by
  all_goals
    have hshorter := s.next_shorter
    rw [_hnext] at hshorter
    simpa using hshorter

/-- The changes of a source. -/
def changes (s : Source) : List Change :=
  s.results.filterMap Except.toOption

/-- The changes of a source before the first line that is not a change. -/
def readable (s : Source) : List Change :=
  (s.results.takeWhile Except.isOk).filterMap Except.toOption

theorem readable_isPrefix_changes (s : Source) : s.readable <+: s.changes :=
  (List.takeWhile_prefix _).filterMap _

theorem results_eq (s : Source) :
    s.results = match s.next with
      | (.ok none, _) => []
      | (.ok (some c), rest) => .ok c :: results rest
      | (.error e, rest) => .error e :: results rest := by
  rw [results]
  split <;> next h => rw [h]

theorem results_nil {s : Source} (h : s.bytes = []) : s.results = [] := by
  rw [results_eq, next, dif_pos h]

/-- The change that a line holds. -/
def Line.change? : Line → Option Change
  | .change c => some c
  | _ => none

/-- The changes of a source come line by line. -/
theorem changes_of_line {s : Source} (h : s.bytes ≠ []) :
    ∃ rest : Source, rest.bytes = (splitLine s.bytes).2 ∧ rest.resumeAfter = s.resumeAfter ∧
      s.changes = ((Line.ofBytes (splitLine s.bytes).1).change?.toList.filter
        fun c => !passesOver s.resumeAfter c) ++ rest.changes := by
  -- a line that gives nothing is skipped within the same question
  have hskip {rest : Source} (hnext : s.next = rest.next) : s.changes = rest.changes := by
    rw [changes, changes, results_eq, hnext, ← results_eq]
  set rest := (splitLine s.bytes).2 with hrest
  cases hline : Line.ofBytes (splitLine s.bytes).1 with
  | blank =>
    refine ⟨⟨rest, s.resumeAfter, s.lineNumber + 1, s.skipped⟩, rfl, rfl, hskip ?_⟩
    rw [next, dif_neg h]
    simp only [hline, hrest]
  | notText fault =>
    refine ⟨⟨rest, s.resumeAfter, s.lineNumber, s.skipped⟩, rfl, rfl, ?_⟩
    rw [changes, results_eq, next, dif_neg h]
    simp only [hline]
    rfl
  | invalid fault =>
    refine ⟨⟨rest, s.resumeAfter, s.lineNumber + 1, s.skipped⟩, rfl, rfl, ?_⟩
    rw [changes, results_eq, next, dif_neg h]
    simp only [hline]
    rfl
  | change c =>
    -- a change that is passed over counts as skipped, but for what is given it is like a blank line
    by_cases hpast : passesOver s.resumeAfter c = true
    · refine ⟨⟨rest, s.resumeAfter, s.lineNumber + 1, s.skipped + 1⟩, rfl, rfl, ?_⟩
      have hnone : (Line.change c).change?.toList.filter (fun c => !passesOver s.resumeAfter c) =
          [] := by simp [Line.change?, hpast]
      rw [hnone]
      refine hskip ?_
      rw [next, dif_neg h]
      simp only [hline, hpast, if_true, hrest]
    · refine ⟨⟨rest, s.resumeAfter, s.lineNumber + 1, s.skipped⟩, rfl, rfl, ?_⟩
      have hone : (Line.change c).change?.toList.filter (fun c => !passesOver s.resumeAfter c) =
          [c] := by simp [Line.change?, hpast]
      rw [hone, changes, results_eq, next, dif_neg h]
      simp only [hline, hpast]
      rfl

theorem changes_eq_filter (s u : Source) (hbytes : s.bytes = u.bytes)
    (hstart : u.resumeAfter = none) :
    s.changes = u.changes.filter fun c => !passesOver s.resumeAfter c := by
  -- both sources read the same lines, and every line makes them shorter
  induction hn : s.bytes.length using Nat.strongRecOn generalizing s u with
  | _ n ih =>
    by_cases hnil : s.bytes = []
    · rw [changes, changes, results_nil hnil, results_nil (hbytes ▸ hnil)]
      rfl
    · obtain ⟨s', hs', hresume, hs⟩ := changes_of_line hnil
      obtain ⟨u', hu', hnone, hu⟩ := changes_of_line (hbytes ▸ hnil)
      have hlt : s'.bytes.length < n := by
        rw [hs', ← hn]
        exact length_splitLine_lt hnil
      rw [hs, hu, ← hbytes, ih _ hlt s' u' (by rw [hs', hu', hbytes]) (hnone.trans hstart) rfl,
        hresume, List.filter_append, List.filter_filter, hstart]
      simp [passesOver]

/-- A source that resumes after a position passes over the changes at it or before it, and over
nothing else. -/
theorem changes_start (bytes : List UInt8) (resume : Option Position) :
    (start bytes resume).changes =
      (start bytes none).changes.filter fun c => !passesOver resume c :=
  changes_eq_filter _ _ rfl rfl

end Source
end ChangeRelay

import ChangeRelay.Proofs.Progress.Commute
import ChangeRelay.Proofs.Progress.Refinement
/-!
# What is unfinished

Seen from its unfinished entries a tracker is simple: a submission appends its position to them, and
a completion takes the first one of its position away, if there is one.
-/

namespace ChangeRelay
namespace Progress

/-- The positions of the pending entries that are not finished, in order. -/
def unfinished (t : Progress) : List Position :=
  (t.pending.filter (!·.done)).map (·.position)

theorem length_unfinished (t : Progress) :
    t.unfinished.length = t.pending.countP (!·.done) := by
  unfold unfinished
  rw [List.length_map, List.countP_eq_length_filter]

theorem mem_unfinished_iff {t : Progress} {p : Position} :
    p ∈ t.unfinished ↔ ⟨p, false⟩ ∈ t.pending := by
  unfold unfinished
  rw [List.mem_map]
  constructor
  · rintro ⟨e, he, rfl⟩
    obtain ⟨hmem, hopen⟩ := List.mem_filter.mp he
    have hdone : e.done = false := by simpa using hopen
    rw [← hdone]
    exact hmem
  · intro h
    exact ⟨_, List.mem_filter.mpr ⟨h, rfl⟩, rfl⟩

/-- A completion finds an entry exactly when its position is unfinished. -/
theorem isSome_mark?_iff {t : Progress} {p : Position} :
    (mark? p t.pending).isSome ↔ p ∈ t.unfinished := by
  rw [mem_unfinished_iff, Option.isSome_iff_ne_none, ne_eq, mark?_eq_none_iff, not_not]

theorem unfinished_submit (t : Progress) (p : Position) :
    (t.submit p).unfinished = t.unfinished ++ [p] := by
  simp [unfinished, submit, List.filter_append]

/-- What is passed is finished. -/
theorem filter_dropWhile_done (l : List Pending) :
    (l.dropWhile Pending.done).filter (!·.done) = l.filter (!·.done) := by
  induction l with
  | nil => rfl
  | cons e l ih =>
    by_cases he : e.done = true
    · rw [List.dropWhile_cons_of_pos he, ih, List.filter_cons_of_neg (by simp [he])]
    · rw [List.dropWhile_cons_of_neg he]

/-- Marking takes the first unfinished entry of its position away. -/
theorem filter_of_mark? {p : Position} {l m : List Pending} (h : mark? p l = some m) :
    (m.filter (!·.done)).map (·.position) = ((l.filter (!·.done)).map (·.position)).erase p := by
  induction l generalizing m with
  | nil => simp [mark?] at h
  | cons e l ih =>
    by_cases he : e = ⟨p, false⟩
    · subst he
      rw [mark?_cons_self] at h
      obtain rfl := Option.some.inj h
      simp
    · rw [mark?_cons_of_ne he] at h
      obtain ⟨k, hk, rfl⟩ := Option.map_eq_some_iff.mp h
      cases hdone : e.done with
      | true => simpa [hdone] using ih hk
      | false =>
        -- an unfinished entry that was not marked stands at another position
        have hne : e.position ≠ p := by
          intro hp
          apply he
          rw [← hp, ← hdone]
        simp [hdone, hne, ih hk]

theorem unfinished_complete (t : Progress) (p : Position) :
    (t.complete p).unfinished = t.unfinished.erase p := by
  cases h : mark? p t.pending with
  | none =>
    have hnot : p ∉ t.unfinished := by
      rw [← isSome_mark?_iff, h]
      simp
    rw [List.erase_of_not_mem hnot, complete_of_untracked h]
    rfl
  | some m =>
    rw [complete_of_mark? h]
    show (((pass t.safe m).2).filter (!·.done)).map (·.position) = _
    rw [snd_pass, filter_dropWhile_done, filter_of_mark? h]
    rfl

end Progress
end ChangeRelay

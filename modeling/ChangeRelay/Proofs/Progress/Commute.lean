import ChangeRelay.Proofs.Progress.Ledger
import Mathlib.Data.List.Perm.Basic
/-!
# Completions in any order

Outcomes come back from several threads, so a tracker is told of completions in an order that means
nothing. Two facts make it blind to that order: marking two positions gives the same entries
whichever of them is marked first, and passing over finished entries in stages comes to the same as
passing over them at once.
-/

namespace ChangeRelay
namespace Progress

/-! ## Marking -/

@[simp] theorem mark?_cons_self (p : Position) (l : List Pending) :
    mark? p (⟨p, false⟩ :: l) = some (⟨p, true⟩ :: l) := by
  simp [mark?]

theorem mark?_cons_of_ne {p : Position} {e : Pending} (h : e ≠ ⟨p, false⟩) (l : List Pending) :
    mark? p (e :: l) = (mark? p l).map (e :: ·) := by
  have hmiss : ¬(!e.done && decide (e.position = p)) = true := by
    intro hit
    simp only [Bool.and_eq_true, Bool.not_eq_true', decide_eq_true_eq] at hit
    apply h
    rw [← hit.1, ← hit.2]
  rw [mark?, if_neg hmiss]

/-- There is nothing to mark when the position has no unfinished entry. -/
theorem mark?_eq_none_iff {p : Position} {l : List Pending} :
    mark? p l = none ↔ ⟨p, false⟩ ∉ l := by
  induction l with
  | nil => simp [mark?]
  | cons e l ih =>
    by_cases he : e = ⟨p, false⟩
    · simp [he]
    · rw [mark?_cons_of_ne he, Option.map_eq_none_iff, ih, List.mem_cons, not_or]
      exact ⟨fun h => ⟨Ne.symm he, h⟩, fun h => h.2⟩

/-- Marking finishes one unfinished entry of the position and leaves all others alone. -/
theorem exists_split_of_mark? {p : Position} {l m : List Pending} (h : mark? p l = some m) :
    ∃ a b, l = a ++ ⟨p, false⟩ :: b ∧ m = a ++ ⟨p, true⟩ :: b := by
  induction l generalizing m with
  | nil => simp [mark?] at h
  | cons e l ih =>
    by_cases he : e = ⟨p, false⟩
    · subst he
      rw [mark?_cons_self] at h
      exact ⟨[], l, rfl, (Option.some.inj h).symm⟩
    · rw [mark?_cons_of_ne he] at h
      obtain ⟨m', hm', rfl⟩ := Option.map_eq_some_iff.mp h
      obtain ⟨a, b, rfl, rfl⟩ := ih hm'
      exact ⟨e :: a, b, rfl, rfl⟩

/-- Marking one position leaves the unfinished entries of another one. -/
theorem mark?_eq_none_of_ne {p q : Position} {l m : List Pending} (hne : p ≠ q)
    (h : mark? q l = some m) : mark? p m = none ↔ mark? p l = none := by
  obtain ⟨a, b, rfl, rfl⟩ := exists_split_of_mark? h
  rw [mark?_eq_none_iff, mark?_eq_none_iff]
  simp [hne]

/-- An entry that is marked by one position is out of the way of the other. -/
private theorem mark?_comm_cons {p q : Position} (hne : p ≠ q) (l : List Pending) :
    (mark? p (⟨p, false⟩ :: l)).bind (mark? q) = (mark? q (⟨p, false⟩ :: l)).bind (mark? p) := by
  have hfirst : (mark? p (⟨p, false⟩ :: l)).bind (mark? q) =
      (mark? q l).map (⟨p, true⟩ :: ·) := by
    rw [mark?_cons_self, Option.bind_some, mark?_cons_of_ne (by simp)]
  have hsecond : (mark? q (⟨p, false⟩ :: l)).bind (mark? p) =
      (mark? q l).map (⟨p, true⟩ :: ·) := by
    rw [mark?_cons_of_ne (by simp [hne])]
    cases mark? q l with
    | none => rfl
    | some m => exact mark?_cons_self p m
  rw [hfirst, hsecond]

/-- Two positions are marked in either order. -/
theorem mark?_comm (p q : Position) (l : List Pending) :
    (mark? p l).bind (mark? q) = (mark? q l).bind (mark? p) := by
  by_cases hne : p = q
  · rw [hne]
  induction l with
  | nil => rfl
  | cons e l ih =>
    by_cases hp : e = ⟨p, false⟩
    · subst hp
      exact mark?_comm_cons hne l
    by_cases hq : e = ⟨q, false⟩
    · subst hq
      exact (mark?_comm_cons (Ne.symm hne) l).symm
    -- neither position marks the first entry
    have htail (x y : Position) (hy : e ≠ ⟨y, false⟩) :
        ((mark? x l).map (e :: ·)).bind (mark? y) =
          ((mark? x l).bind (mark? y)).map (e :: ·) := by
      cases mark? x l with
      | none => rfl
      | some m => exact mark?_cons_of_ne hy m
    rw [mark?_cons_of_ne hp, mark?_cons_of_ne hq, htail p q hq, htail q p hp, ih]

/-! ## Passing in stages -/

theorem head?_position_of_mark? {p : Position} {l m : List Pending} (h : mark? p l = some m) :
    m.head?.map (·.position) = l.head?.map (·.position) := by
  obtain ⟨a, b, rfl, rfl⟩ := exists_split_of_mark? h
  cases a with
  | nil => rfl
  | cons e a => rfl

/-- Entries that are passed before a position is marked are the ones that are passed anyway. -/
theorem mark?_pass (q : Position) (safe : Option Position) (l : List Pending) :
    (mark? q (pass safe l).2).map (pass (pass safe l).1) = (mark? q l).map (pass safe) := by
  induction l generalizing safe with
  | nil => rfl
  | cons e l ih =>
    by_cases he : e.done = true
    · rw [pass, if_pos he, ih, mark?_cons_of_ne (by intro h; simp [h] at he), Option.map_map]
      cases hm : mark? q l with
      | none => rfl
      | some m =>
        -- what follows `e` has the same position before and after the mark
        have hhead := head?_position_of_mark? hm
        show some (pass _ m) = some (pass safe (e :: m))
        rw [pass, if_pos he, hhead]
    · rw [pass, if_neg he]

/-! ## Completing -/

theorem complete_of_mark? {t : Progress} {p : Position} {m : List Pending}
    (h : mark? p t.pending = some m) :
    t.complete p = ⟨(pass t.safe m).2, (pass t.safe m).1, t.completed + 1⟩ := by
  unfold complete
  rw [h]

/-- A completion without an entry is only counted. -/
theorem complete_of_untracked {t : Progress} {p : Position} (h : mark? p t.pending = none) :
    t.complete p = { t with completed := t.completed + 1 } := by
  unfold complete
  rw [h]

/-- Two completions that find their entries pass over what both of them have finished. -/
theorem complete_complete_of_mark? {t : Progress} {p q : Position} {m n : List Pending}
    (hp : mark? p t.pending = some m) (hq : mark? q m = some n) :
    (t.complete p).complete q = ⟨(pass t.safe n).2, (pass t.safe n).1, t.completed + 1 + 1⟩ := by
  have hpass := mark?_pass q t.safe m
  rw [hq, Option.map_some] at hpass
  obtain ⟨k, hk, hkn⟩ := Option.map_eq_some_iff.mp hpass
  rw [complete_of_mark? hp, complete_of_mark? (m := k) hk, hkn]

/-- A completion without an entry may as well be counted later. -/
theorem complete_comm_of_untracked {t : Progress} {p q : Position} (hne : p ≠ q)
    (hp : mark? p t.pending = none) : (t.complete p).complete q = (t.complete q).complete p := by
  have hcounted : mark? q (t.complete p).pending = mark? q t.pending := by
    rw [complete_of_untracked hp]
  cases hq : mark? q t.pending with
  | none =>
    rw [hq] at hcounted
    have hp' : mark? p (t.complete q).pending = none := by rw [complete_of_untracked hq, hp]
    rw [complete_of_untracked hcounted, complete_of_untracked hp', complete_of_untracked hp,
      complete_of_untracked hq]
  | some m =>
    rw [hq] at hcounted
    have hp' : mark? p (t.complete q).pending = none := by
      have hpass := mark?_pass p t.safe m
      rw [(mark?_eq_none_of_ne hne hq).mpr hp, Option.map_none, Option.map_eq_none_iff] at hpass
      rw [complete_of_mark? hq, hpass]
    rw [complete_of_mark? hcounted, complete_of_untracked hp', complete_of_untracked hp,
      complete_of_mark? hq]

theorem complete_comm (t : Progress) (p q : Position) :
    (t.complete p).complete q = (t.complete q).complete p := by
  by_cases hne : p = q
  · rw [hne]
  cases hp : mark? p t.pending with
  | none => exact complete_comm_of_untracked hne hp
  | some m =>
    cases hq : mark? q t.pending with
    | none => exact (complete_comm_of_untracked (Ne.symm hne) hq).symm
    | some n =>
      -- both find an entry, so each still finds its own after the other
      have hcomm := mark?_comm p q t.pending
      rw [hp, hq, Option.bind_some, Option.bind_some] at hcomm
      cases hk : mark? q m with
      | none =>
        rw [(mark?_eq_none_of_ne (Ne.symm hne) hp).mp hk] at hq
        simp at hq
      | some k =>
        rw [complete_complete_of_mark? hp hk, complete_complete_of_mark? hq (hcomm ▸ hk)]

/-- The order of completions does not matter, whatever the tracker holds and whether or not it finds
an entry for each of them. -/
theorem replay_completions_perm (t : Progress) {ps qs : List Position} (h : ps.Perm qs) :
    t.replay (ps.map .complete) = t.replay (qs.map .complete) := by
  unfold replay
  rw [List.foldl_map, List.foldl_map]
  apply h.foldl_eq'
  intro p _ q _ s
  show (s.complete p).complete q = (s.complete q).complete p
  exact complete_comm s p q

/-- Completions of a shared position, of an untracked one and of the last one, in two orders. -/
theorem replay_completions_perm_of_shared :
    ∃ a b x : Position, [b, x, a, b].Perm [x, b, b, a] ∧
      (⟨[⟨a, false⟩, ⟨b, false⟩, ⟨b, false⟩], none, 0⟩ : Progress).replay
          ([b, x, a, b].map .complete) =
        (⟨[⟨a, false⟩, ⟨b, false⟩, ⟨b, false⟩], none, 0⟩ : Progress).replay
          ([x, b, b, a].map .complete) := by
  have horder : [(⟨"log", 2⟩ : Position), ⟨"log", 9⟩, ⟨"log", 1⟩, ⟨"log", 2⟩].Perm
      [⟨"log", 9⟩, ⟨"log", 2⟩, ⟨"log", 2⟩, ⟨"log", 1⟩] := by decide
  exact ⟨⟨"log", 1⟩, ⟨"log", 2⟩, ⟨"log", 9⟩, horder, replay_completions_perm _ horder⟩

end Progress
end ChangeRelay

import ChangeRelay.Run.Progress
import Mathlib.Data.List.Induction
import Mathlib.Data.List.Nodup
/-!
# The ledger of a tracker

A tracker is told of submissions and completions one call at a time. The ledger of the calls keeps
every submission for good, together with the call that finished it: a completion finishes the first
unfinished submission of its position. So the ledger matches submissions with completions, and it
says what a tracker should know; `Progress/Refinement` shows that it does.
-/

namespace ChangeRelay
namespace Progress

/-! ## Calls -/

/-- What a tracker is told. -/
inductive Call
  | submit (p : Position)
  | complete (p : Position)
deriving DecidableEq, Repr

/-- The position that a call submits. -/
def Call.submitted? : Call → Option Position
  | .submit p => some p
  | .complete _ => none

/-- The position that a call completes. -/
def Call.completed? : Call → Option Position
  | .submit _ => none
  | .complete p => some p

/-- The submitted positions, in order. -/
def submissions (calls : List Call) : List Position :=
  calls.filterMap Call.submitted?

/-- The completed positions, in order. -/
def completions (calls : List Call) : List Position :=
  calls.filterMap Call.completed?

theorem completions_append (calls more : List Call) :
    completions (calls ++ more) = completions calls ++ completions more :=
  List.filterMap_append

/-- The tracker after a call. -/
def apply (t : Progress) : Call → Progress
  | .submit p => t.submit p
  | .complete p => t.complete p

/-- The tracker after calls, in order. -/
def replay (t : Progress) (calls : List Call) : Progress :=
  calls.foldl apply t

@[simp] theorem replay_nil (t : Progress) : t.replay [] = t := rfl

@[simp] theorem replay_concat (t : Progress) (calls : List Call) (c : Call) :
    t.replay (calls ++ [c]) = (t.replay calls).apply c := by
  simp [replay]

/-! ## Entries -/

/-- A submission, and the call that finished it. Calls are known by their number. -/
structure Entry where
  position : Position
  submittedAt : ℕ
  finishedAt : Option ℕ
deriving DecidableEq, Repr

/-- Whether a submission is finished. -/
def Entry.finished (e : Entry) : Bool :=
  e.finishedAt.isSome

/-- What a tracker keeps of a submission. -/
def Entry.pending (e : Entry) : Pending :=
  ⟨e.position, e.finished⟩

@[simp] theorem Entry.position_pending (e : Entry) : e.pending.position = e.position := rfl

@[simp] theorem Entry.done_pending (e : Entry) : e.pending.done = e.finished := rfl

/-- Call `n` finishes the first unfinished submission of a position, if there is one. -/
def finish? (n : ℕ) (p : Position) : List Entry → Option (List Entry)
  | [] => none
  | e :: rest =>
    if !e.finished && e.position = p then some ({ e with finishedAt := some n } :: rest)
    else (finish? n p rest).map (e :: ·)

/-- The ledger after call `n`. A completion that finishes nothing leaves it as it is. -/
def enter (l : List Entry) (n : ℕ) : Call → List Entry
  | .submit p => l ++ [⟨p, n, none⟩]
  | .complete p => (finish? n p l).getD l

/-- The ledger of calls. -/
def ledger (calls : List Call) : List Entry :=
  calls.zipIdx.foldl (fun l (c, n) => enter l n c) []

@[simp] theorem ledger_nil : ledger [] = [] := rfl

@[simp] theorem ledger_concat (calls : List Call) (c : Call) :
    ledger (calls ++ [c]) = enter (ledger calls) calls.length c := by
  simp [ledger, List.zipIdx_append]

/-! ## What a completion finishes -/

/-- A completion finishes an unfinished entry of its position and leaves all others alone. -/
theorem exists_split_of_finish? {n : ℕ} {p : Position} {l l' : List Entry}
    (h : finish? n p l = some l') :
    ∃ a e b, l = a ++ e :: b ∧ l' = a ++ { e with finishedAt := some n } :: b ∧
      e.finishedAt = none ∧ e.position = p := by
  induction l generalizing l' with
  | nil => simp [finish?] at h
  | cons e rest ih =>
    rw [finish?] at h
    split at h
    · next hit =>
      simp only [Bool.and_eq_true, Bool.not_eq_true', decide_eq_true_eq] at hit
      obtain ⟨open', rfl⟩ := hit
      refine ⟨[], e, rest, rfl, ?_, ?_, rfl⟩
      · exact (Option.some.inj h).symm
      · simpa [Entry.finished] using open'
    · obtain ⟨rest', hrest, rfl⟩ := Option.map_eq_some_iff.mp h
      obtain ⟨a, e', b, rfl, rfl, open', hp⟩ := ih hrest
      exact ⟨e :: a, e', b, rfl, rfl, open', hp⟩

theorem finish?_eq_none_iff {n : ℕ} {p : Position} {l : List Entry} :
    finish? n p l = none ↔ ∀ e ∈ l, e.position = p → e.finished = true := by
  induction l with
  | nil => simp [finish?]
  | cons e rest ih =>
    rw [finish?, List.forall_mem_cons]
    by_cases hit : (!e.finished && decide (e.position = p)) = true
    · rw [if_pos hit]
      simp only [Bool.and_eq_true, Bool.not_eq_true', decide_eq_true_eq] at hit
      simp [hit.1, hit.2]
    · rw [if_neg hit, Option.map_eq_none_iff, ih]
      have he : e.position = p → e.finished = true := by
        intro hp
        simpa [hp] using hit
      exact ⟨fun h => ⟨he, h⟩, fun h => h.2⟩

/-- Finished entries in front are not looked at. -/
theorem finish?_append {n : ℕ} {p : Position} {a b : List Entry}
    (h : ∀ e ∈ a, e.finished = true) :
    finish? n p (a ++ b) = (finish? n p b).map (a ++ ·) := by
  induction a with
  | nil => simp
  | cons e a ih =>
    have he : e.finished = true := h e List.mem_cons_self
    rw [List.cons_append, finish?, if_neg (by simp [he]),
      ih fun x hx => h x (List.mem_cons_of_mem e hx)]
    simp [Option.map_map, Function.comp_def]

/-- Marking in a tracker is finishing in the ledger. -/
theorem mark?_map_pending (n : ℕ) (p : Position) (l : List Entry) :
    mark? p (l.map Entry.pending) = (finish? n p l).map (List.map Entry.pending) := by
  induction l with
  | nil => rfl
  | cons e rest ih =>
    rw [List.map_cons, mark?, finish?, Entry.done_pending, Entry.position_pending]
    by_cases hit : (!e.finished && decide (e.position = p)) = true
    · rw [if_pos hit, if_pos hit]
      simp [Entry.pending, Entry.finished]
    · rw [if_neg hit, if_neg hit, ih]
      simp [Option.map_map, Function.comp_def]

/-! ## The ledger as a matching -/

/-- The calls that finished a submission. -/
def finishers (l : List Entry) : List ℕ :=
  l.filterMap Entry.finishedAt

/-- The entries are the submissions of the calls, and each finished one is matched with a completion
of its own: of the same position, made later, and matched with no other entry. -/
structure Matches (calls : List Call) (l : List Entry) : Prop where
  positions : l.map Entry.position = submissions calls
  submitted : ∀ e ∈ l, calls[e.submittedAt]? = some (.submit e.position)
  ordered : l.Pairwise fun e e' => e.submittedAt < e'.submittedAt
  finished : ∀ e ∈ l, ∀ n, e.finishedAt = some n →
    e.submittedAt < n ∧ calls[n]? = some (.complete e.position)
  once : (finishers l).Nodup

private theorem getElem?_concat_of_eq_some {α : Type} {l : List α} {n : ℕ} {a : α} (b : α)
    (h : l[n]? = some a) : (l ++ [b])[n]? = some a := by
  have hn : n < l.length := (List.getElem?_eq_some_iff.mp h).1
  rw [List.getElem?_append_left hn, h]

private theorem lt_length_of_getElem? {α : Type} {l : List α} {n : ℕ} {a : α}
    (h : l[n]? = some a) : n < l.length :=
  (List.getElem?_eq_some_iff.mp h).1

namespace Matches

variable {calls : List Call} {l : List Entry}

theorem lt_of_mem_finishers (h : Matches calls l) {n : ℕ} (hn : n ∈ finishers l) :
    n < calls.length := by
  obtain ⟨e, he, hen⟩ := List.mem_filterMap.mp hn
  exact lt_length_of_getElem? (h.finished e he n hen).2

/-- A submission opens an entry. -/
theorem submit (h : Matches calls l) (p : Position) :
    Matches (calls ++ [.submit p]) (l ++ [⟨p, calls.length, none⟩]) where
  positions := by simp [h.positions, submissions, Call.submitted?]
  submitted := by
    intro e he
    rcases List.mem_append.mp he with he | he
    · exact getElem?_concat_of_eq_some _ (h.submitted e he)
    · obtain rfl := List.mem_singleton.mp he
      simp
  ordered := by
    refine List.pairwise_append.mpr ⟨h.ordered, List.pairwise_singleton _ _, ?_⟩
    intro e he e' he'
    obtain rfl := List.mem_singleton.mp he'
    exact lt_length_of_getElem? (h.submitted e he)
  finished := by
    intro e he n hn
    rcases List.mem_append.mp he with he | he
    · obtain ⟨hlt, hc⟩ := h.finished e he n hn
      exact ⟨hlt, getElem?_concat_of_eq_some _ hc⟩
    · obtain rfl := List.mem_singleton.mp he
      simp at hn
  once := by simpa [finishers] using h.once

/-- A completion that finishes nothing is matched with nothing. -/
theorem ignore (h : Matches calls l) (p : Position) : Matches (calls ++ [.complete p]) l where
  positions := by simp [h.positions, submissions, Call.submitted?]
  submitted e he := getElem?_concat_of_eq_some _ (h.submitted e he)
  ordered := h.ordered
  finished := by
    intro e he n hn
    obtain ⟨hlt, hc⟩ := h.finished e he n hn
    exact ⟨hlt, getElem?_concat_of_eq_some _ hc⟩
  once := h.once

/-- A completion that finishes an entry is matched with it. -/
theorem finish {a b : List Entry} {e : Entry} (h : Matches calls (a ++ e :: b))
    (hopen : e.finishedAt = none) :
    Matches (calls ++ [.complete e.position])
      (a ++ { e with finishedAt := some calls.length } :: b) where
  positions := by
    have hp := h.positions
    simp only [List.map_append, List.map_cons] at hp ⊢
    simp [hp, submissions, Call.submitted?]
  submitted := by
    intro x hx
    -- finishing changes neither the position nor the call of a submission
    have hmem : ∃ y ∈ a ++ e :: b, y.submittedAt = x.submittedAt ∧ y.position = x.position := by
      rcases List.mem_append.mp hx with hx | hx
      · exact ⟨x, by simp [hx], rfl, rfl⟩
      · rcases List.mem_cons.mp hx with rfl | hx
        · exact ⟨e, by simp, rfl, rfl⟩
        · exact ⟨x, by simp [hx], rfl, rfl⟩
    obtain ⟨y, hy, hat, hp⟩ := hmem
    rw [← hat, ← hp]
    exact getElem?_concat_of_eq_some _ (h.submitted y hy)
  ordered := by
    have ho := h.ordered
    simp only [List.pairwise_append, List.pairwise_cons, List.forall_mem_cons] at ho ⊢
    exact ho
  finished := by
    intro x hx n hn
    have old : ∀ y ∈ a ++ e :: b, y.finishedAt = some n →
        y.submittedAt < n ∧ (calls ++ [.complete e.position])[n]? =
          some (.complete y.position) := by
      intro y hy hyn
      obtain ⟨hlt, hc⟩ := h.finished y hy n hyn
      exact ⟨hlt, getElem?_concat_of_eq_some _ hc⟩
    rcases List.mem_append.mp hx with hx | hx
    · exact old x (by simp [hx]) hn
    · rcases List.mem_cons.mp hx with rfl | hx
      · obtain rfl : calls.length = n := Option.some.inj hn
        refine ⟨lt_length_of_getElem? (h.submitted e (by simp)), ?_⟩
        simp
      · exact old x (by simp [hx]) hn
  once := by
    -- the call is a new one, so it finished nothing before
    have hfresh : calls.length ∉ finishers (a ++ e :: b) := fun hmem =>
      Nat.lt_irrefl _ (h.lt_of_mem_finishers hmem)
    have honce := h.once
    simp only [finishers, List.filterMap_append, List.filterMap_cons, hopen] at hfresh honce ⊢
    exact List.nodup_middle.mpr (List.nodup_cons.mpr ⟨hfresh, honce⟩)

end Matches

theorem matches_ledger (calls : List Call) : Matches calls (ledger calls) := by
  induction calls using List.reverseRecOn with
  | nil => constructor <;> simp [submissions, finishers]
  | append_singleton calls c ih =>
    rw [ledger_concat]
    cases c with
    | submit p => exact ih.submit p
    | complete p =>
      rw [enter]
      cases h : finish? calls.length p (ledger calls) with
      | none => exact ih.ignore p
      | some l' =>
        obtain ⟨a, e, b, hl, rfl, hopen, rfl⟩ := exists_split_of_finish? h
        rw [hl] at ih
        exact ih.finish hopen

end Progress
end ChangeRelay

import ChangeRelay.Proofs.Change.PositionOrder
import ChangeRelay.Proofs.Progress.Refinement
import Mathlib.Order.Bounds.Basic
/-!
# The safe position

What the safe position of a tracker says about its calls. `replay_refines_ledger` puts the whole
specification of a tracker together: its pending entries are a suffix of the submissions, what it
has passed or marked is matched one to one with the completions that found an entry, and when
positions are submitted in increasing order its safe position is the greatest one up to which every
submission is completed.
-/

namespace ChangeRelay
namespace Progress

/-! ## Completions that find an entry -/

/-- Call `n` completes a position that is pending and not yet done. -/
def Found (resume : Option Position) (calls : List Call) (n : ℕ) : Prop :=
  ∃ p, calls[n]? = some (.complete p) ∧
    (mark? p ((resumed resume).replay (calls.take n)).pending).isSome

theorem found_concat_of_lt {resume : Option Position} {calls : List Call} {c : Call} {n : ℕ}
    (h : n < calls.length) : Found resume (calls ++ [c]) n ↔ Found resume calls n := by
  rw [Found, Found, List.getElem?_append_left h, List.take_append_of_le_length h.le]

theorem found_concat_length {resume : Option Position} {calls : List Call} {c : Call} :
    Found resume (calls ++ [c]) calls.length ↔
      ∃ p, c = .complete p ∧ (mark? p ((resumed resume).replay calls).pending).isSome := by
  rw [Found, List.take_left']
  · simp
  · rfl

theorem lt_of_found {resume : Option Position} {calls : List Call} {n : ℕ}
    (h : Found resume calls n) : n < calls.length := by
  obtain ⟨p, hp, -⟩ := h
  exact (List.getElem?_eq_some_iff.mp hp).1

theorem mem_finishers_of_finish? {n k : ℕ} {p : Position} {l l' : List Entry}
    (h : finish? n p l = some l') : k ∈ finishers l' ↔ k = n ∨ k ∈ finishers l := by
  obtain ⟨a, e, b, rfl, rfl, hopen, -⟩ := exists_split_of_finish? h
  simp only [finishers, List.filterMap_append, List.filterMap_cons, hopen, List.mem_append,
    List.mem_cons]
  tauto

/-- The calls that finished an entry of the ledger are those that found one in the tracker. -/
theorem mem_finishers_ledger_iff (resume : Option Position) (calls : List Call) (n : ℕ) :
    n ∈ finishers (ledger calls) ↔ Found resume calls n := by
  induction calls using List.reverseRecOn with
  | nil => simp [finishers, Found]
  | append_singleton calls c ih =>
    have hmark (p : Position) : (mark? p ((resumed resume).replay calls).pending).isSome =
        (finish? calls.length p (ledger calls)).isSome := by
      rw [mark?_eq_of_tracks (tracks_replay resume calls) calls.length,
        finish?_eq_map_openEnd calls.length p (ledger calls), Option.isSome_map, Option.isSome_map]
    have hlt : n ∈ finishers (ledger calls) → n < calls.length :=
      (matches_ledger calls).lt_of_mem_finishers
    have hsplit : Found resume (calls ++ [c]) n ↔ n ∈ finishers (ledger calls) ∨
        (n = calls.length ∧
          ∃ p, c = .complete p ∧ (finish? calls.length p (ledger calls)).isSome) := by
      rcases lt_trichotomy n calls.length with h | rfl | h
      · rw [found_concat_of_lt h, ← ih]
        simp [h.ne]
      · rw [found_concat_length]
        simp only [hmark, true_and, iff_or_self]
        exact fun hmem => absurd (hlt hmem) (lt_irrefl _)
      · have hnot : ¬Found resume (calls ++ [c]) n := fun hf => by
          have := lt_of_found hf
          rw [List.length_append, List.length_singleton] at this
          omega
        have hnot' : n ∉ finishers (ledger calls) := fun hmem => by
          have := hlt hmem
          omega
        simp [hnot, hnot', h.ne']
    rw [hsplit, ledger_concat]
    cases c with
    | submit p => simp [enter, finishers]
    | complete p =>
      rw [enter]
      cases hf : finish? calls.length p (ledger calls) with
      | none => simp [hf]
      | some l' => simp [mem_finishers_of_finish? hf, hf, or_comm]

/-! ## Completed positions -/

/-- A position is submitted, and completed by a later call. -/
def Completed (calls : List Call) (p : Position) : Prop :=
  ∃ i j : ℕ, i < j ∧ calls[i]? = some (.submit p) ∧ calls[j]? = some (.complete p)

/-- A submitted position up to which every submission is completed. -/
def Settled (calls : List Call) (p : Position) : Prop :=
  p ∈ submissions calls ∧ ∀ q ∈ submissions calls, q ≤ p → Completed calls q

theorem Completed.mono {calls calls' : List Call} {p : Position} (h : Completed calls p)
    (hpre : calls <+: calls') : Completed calls' p := by
  obtain ⟨i, j, hij, hi, hj⟩ := h
  obtain ⟨more, rfl⟩ := hpre
  refine ⟨i, j, hij, ?_, ?_⟩
  · rwa [List.getElem?_append_left (List.getElem?_eq_some_iff.mp hi).1]
  · rwa [List.getElem?_append_left (List.getElem?_eq_some_iff.mp hj).1]

theorem completed_of_finished {calls : List Call} {e : Entry} (he : e ∈ ledger calls)
    (hfin : e.finished = true) : Completed calls e.position := by
  obtain ⟨n, hn⟩ := Option.isSome_iff_exists.mp hfin
  have hm := matches_ledger calls
  obtain ⟨hlt, hc⟩ := hm.finished e he n hn
  exact ⟨e.submittedAt, n, hlt, hm.submitted e he, hc⟩

/-- A last call that does not complete a position leaves the completed calls before it. -/
theorem Completed.of_concat {calls : List Call} {c : Call} {p : Position}
    (h : Completed (calls ++ [c]) p) (hc : c ≠ .complete p) : Completed calls p := by
  obtain ⟨i, j, hij, hi, hj⟩ := h
  have hj' : j < calls.length := by
    by_contra hge
    have hlen := (List.getElem?_eq_some_iff.mp hj).1
    rw [List.length_append, List.length_singleton] at hlen
    obtain rfl : j = calls.length := by omega
    rw [List.getElem?_concat_length] at hj
    exact hc (Option.some.inj hj)
  rw [List.getElem?_append_left (hij.trans hj')] at hi
  rw [List.getElem?_append_left hj'] at hj
  exact ⟨i, j, hij, hi, hj⟩

theorem mem_submissions_of_completed {calls : List Call} {p : Position} (h : Completed calls p) :
    p ∈ submissions calls := by
  obtain ⟨i, j, -, hi, -⟩ := h
  exact List.mem_filterMap.mpr ⟨_, List.mem_of_getElem? hi, rfl⟩

/-- Where no position stands twice, finishing one leaves no open entry of it. -/
theorem finished_of_finish? {n : ℕ} {p : Position} {l l' : List Entry} (h : finish? n p l = some l')
    (hnodup : (l.map Entry.position).Nodup) {e : Entry} (he : e ∈ l') :
    e.finished = true ∨ (e ∈ l ∧ e.position ≠ p) := by
  obtain ⟨a, x, b, rfl, rfl, -, rfl⟩ := exists_split_of_finish? h
  rw [List.map_append, List.map_cons, List.nodup_middle, ← List.map_append,
    List.nodup_cons] at hnodup
  have hother {y : Entry} (hy : y ∈ a ++ b) : y ∈ a ++ x :: b ∧ y.position ≠ x.position := by
    refine ⟨?_, ?_⟩
    · rcases List.mem_append.mp hy with hy | hy <;> simp [hy]
    · intro hsame
      apply hnodup.1
      rw [← hsame]
      exact List.mem_map_of_mem hy
  rcases List.mem_append.mp he with he | he
  · exact .inr (hother (List.mem_append_left _ he))
  · rcases List.mem_cons.mp he with rfl | he
    · exact .inl rfl
    · exact .inr (hother (List.mem_append_right _ he))

/-- When no position is submitted twice, an entry is finished once its position is completed. -/
theorem finished_of_completed {calls : List Call} (hnodup : (submissions calls).Nodup) {e : Entry}
    (he : e ∈ ledger calls) (hdone : Completed calls e.position) : e.finished = true := by
  induction calls using List.reverseRecOn generalizing e with
  | nil => simp at he
  | append_singleton calls c ih =>
    have hpos := (matches_ledger calls).positions
    have hsub : submissions (calls ++ [c]) = submissions calls ++ submissions [c] :=
      List.filterMap_append
    rw [hsub] at hnodup
    rw [ledger_concat] at he
    have ih {e : Entry} (he : e ∈ ledger calls) (hdone : Completed calls e.position) :
        e.finished = true := ih (List.nodup_append.mp hnodup).1 he hdone
    cases c with
    | submit p =>
      have hdone' := hdone.of_concat (by simp)
      rcases List.mem_append.mp he with he | he
      · exact ih he hdone'
      · -- the new position was not submitted before, so it cannot be completed yet
        obtain rfl := List.mem_singleton.mp he
        have hmem : p ∈ submissions calls := mem_submissions_of_completed hdone'
        have hnew := (List.nodup_append.mp hnodup).2.2 p hmem p
        simp [submissions, Call.submitted?] at hnew
    | complete p =>
      rw [enter] at he
      cases hf : finish? calls.length p (ledger calls) with
      | none =>
        rw [hf, Option.getD_none] at he
        by_cases hp : e.position = p
        · exact finish?_eq_none_iff.mp hf e he hp
        · exact ih he (hdone.of_concat (by simpa using fun h => hp h.symm))
      | some l' =>
        rw [hf, Option.getD_some] at he
        have hpositions : ((ledger calls).map Entry.position).Nodup := by
          rw [hpos]
          exact (List.nodup_append.mp hnodup).1
        rcases finished_of_finish? hf hpositions he with hfin | ⟨hmem, hne⟩
        · exact hfin
        · exact ih hmem (hdone.of_concat (by simpa using fun h => hne h.symm))

/-! ## Positions submitted in increasing order -/

section Increasing

variable {calls : List Call} (hinc : (submissions calls).Pairwise (· < ·))
include hinc

theorem positions_pairwise :
    ((passed (ledger calls)).map Entry.position ++
      (openEnd (ledger calls)).map Entry.position).Pairwise (· < ·) := by
  rw [← List.map_append, passed_append_openEnd, (matches_ledger calls).positions]
  exact hinc

/-- Nothing from the first open entry on is settled. -/
theorem lt_of_settled {p : Position} (hp : Settled calls p) {x : Entry}
    (hx : (openEnd (ledger calls)).head? = some x) : p < x.position := by
  by_contra hle
  have hmem := mem_of_head?_openEnd hx
  have hsub : x.position ∈ submissions calls := by
    rw [← (matches_ledger calls).positions]
    exact List.mem_map_of_mem hmem
  have hdone := hp.2 x.position hsub (not_lt.mp hle)
  have hfin := finished_of_completed (hinc.imp ne_of_lt) hmem hdone
  rw [finished_of_head?_openEnd hx] at hfin
  simp at hfin

theorem mem_passed_of_settled {p : Position} (hp : Settled calls p) :
    p ∈ (passed (ledger calls)).map Entry.position := by
  have hsub := hp.1
  rw [← (matches_ledger calls).positions, ← passed_append_openEnd (ledger calls),
    List.map_append] at hsub
  refine (List.mem_append.mp hsub).resolve_right fun hopen => ?_
  cases ho : openEnd (ledger calls) with
  | nil => simp [ho] at hopen
  | cons x rest =>
    have hlt : p < x.position := lt_of_settled hinc hp (by rw [ho]; rfl)
    have hpw := (List.pairwise_append.mp (positions_pairwise hinc)).2.1
    rw [ho, List.map_cons] at hopen hpw
    rcases List.mem_cons.mp hopen with rfl | hrest
    · exact lt_irrefl _ hlt
    · exact lt_asymm hlt ((List.pairwise_cons.mp hpw).1 p hrest)

/-- The safe position is the greatest settled one; where nothing is settled, it has not moved. -/
theorem safe_replay_of_increasing (resume : Option Position) :
    (∃ p, ((resumed resume).replay calls).safe = some p ∧ IsGreatest {p | Settled calls p} p) ∨
      (((resumed resume).replay calls).safe = resume ∧ ∀ p, ¬Settled calls p) := by
  have ht := tracks_replay resume calls
  have hpw := List.pairwise_append.mp (positions_pairwise hinc)
  rcases List.eq_nil_or_concat' (passed (ledger calls)) with hnil | ⟨a, e, hlast⟩
  · refine .inr ⟨ht.unmoved hnil, fun p hp => ?_⟩
    have hmem := mem_passed_of_settled hinc hp
    rw [hnil] at hmem
    simp at hmem
  · have hbelow : ∀ p ∈ (passed (ledger calls)).map Entry.position, p ≤ e.position := by
      intro p hp
      rw [hlast] at hp hpw
      rw [List.map_append] at hp hpw
      rcases List.mem_append.mp hp with hp | hp
      · exact ((List.pairwise_append.mp hpw.1).2.2 p hp e.position (by simp)).le
      · rw [List.mem_singleton.mp hp]
    have he : e ∈ passed (ledger calls) := by rw [hlast]; simp
    have habove : ∀ q ∈ (openEnd (ledger calls)).map Entry.position, e.position < q :=
      hpw.2.2 e.position (List.mem_map_of_mem he)
    refine .inl ⟨e.position, ?_, ⟨?_, ?_⟩, ?_⟩
    · refine ht.safe e (by rw [hlast]; simp) fun hsame => ?_
      obtain ⟨x, hx, hxe⟩ := Option.map_eq_some_iff.mp hsame
      have hlt := habove x.position (List.mem_map_of_mem (List.mem_of_head? hx))
      rw [hxe] at hlt
      exact lt_irrefl _ hlt
    · rw [← (matches_ledger calls).positions]
      exact List.mem_map_of_mem (mem_of_mem_passed he)
    · -- everything submitted up to `e` has been passed, and so it is finished
      intro q hq hqe
      rw [← (matches_ledger calls).positions, ← passed_append_openEnd (ledger calls),
        List.map_append] at hq
      rcases List.mem_append.mp hq with hq | hq
      · obtain ⟨x, hx, rfl⟩ := List.mem_map.mp hq
        exact completed_of_finished (mem_of_mem_passed hx) (finished_of_mem_passed hx)
      · exact absurd hqe (not_le.mpr (habove q hq))
    · intro p hp
      exact hbelow p (mem_passed_of_settled hinc hp)

theorem Settled.mono {earlier : List Call} (hpre : earlier <+: calls) {p : Position}
    (hp : Settled earlier p) : Settled calls p := by
  obtain ⟨more, rfl⟩ := hpre
  have hsub : submissions (earlier ++ more) = submissions earlier ++ submissions more :=
    List.filterMap_append
  rw [hsub] at hinc
  refine ⟨?_, fun q hq hqp => ?_⟩
  · rw [hsub]
    exact List.mem_append_left _ hp.1
  · rw [hsub] at hq
    rcases List.mem_append.mp hq with hq | hq
    · exact (hp.2 q hq hqp).mono (List.prefix_append _ _)
    · exact absurd hqp (not_le.mpr ((List.pairwise_append.mp hinc).2.2 p hp.1 q hq))

/-- The safe position never moves backwards. -/
theorem safe_replay_mono {resume : Option Position}
    (habove : ∀ r, resume = some r → ∀ p ∈ submissions calls, r < p) {earlier : List Call}
    (hpre : earlier <+: calls) {p : Position}
    (hp : ((resumed resume).replay earlier).safe = some p) :
    ∃ q, ((resumed resume).replay calls).safe = some q ∧ p ≤ q := by
  obtain ⟨more, hmore⟩ := hpre
  have hincE : (submissions earlier).Pairwise (· < ·) := by
    rw [← hmore, submissions, List.filterMap_append] at hinc
    exact (List.pairwise_append.mp hinc).1
  have hnow := safe_replay_of_increasing hinc resume
  rcases safe_replay_of_increasing hincE resume with ⟨g, hg, hgreat⟩ | ⟨hsame, -⟩
  · obtain rfl : g = p := Option.some.inj (hg.symm.trans hp)
    have hset : Settled calls g := Settled.mono hinc ⟨more, hmore⟩ hgreat.1
    rcases hnow with ⟨q, hq, hqg⟩ | ⟨-, hnone⟩
    · exact ⟨q, hq, hqg.2 hset⟩
    · exact absurd hset (hnone g)
  · have hr : resume = some p := hsame.symm.trans hp
    rcases hnow with ⟨q, hq, hqg⟩ | ⟨hsafe, -⟩
    · exact ⟨q, hq, (habove p hr q hqg.1.1).le⟩
    · exact ⟨p, hsafe.trans hr, le_rfl⟩

end Increasing

/-! ## Positions submitted in order, some of them more than once -/

/-- Every finished entry of a position was completed by a call of its own. -/
theorem countP_finished_le (calls : List Call) (q : Position) :
    (ledger calls).countP (fun e => e.position = q ∧ e.finished) ≤ (completions calls).count q := by
  induction calls using List.reverseRecOn with
  | nil => simp
  | append_singleton calls c ih =>
    rw [ledger_concat, completions_append, List.count_append]
    cases c with
    | submit p =>
      have hnone : completions [.submit p] = [] := rfl
      rw [hnone]
      simpa [enter, Entry.finished] using ih
    | complete p =>
      rw [enter]
      cases hf : finish? calls.length p (ledger calls) with
      | none =>
        rw [Option.getD_none]
        exact Nat.le_add_right_of_le ih
      | some l' =>
        obtain ⟨a, e, b, hl, rfl, hopen, rfl⟩ := exists_split_of_finish? hf
        rw [hl] at ih
        simp only [List.countP_append, List.countP_cons, Entry.finished, hopen, completions,
          Call.completed?, List.filterMap_cons, List.filterMap_nil, List.count_singleton,
          Option.getD_some] at ih ⊢
        by_cases hq : e.position = q
        · simp [hq] at ih ⊢
          omega
        · simp [hq] at ih ⊢
          omega

/-- When positions are submitted in order, a safe position that has moved was completed, and what
was submitted before it was completed as often as it was submitted. -/
theorem safe_replay_of_sorted {calls : List Call} (hsorted : (submissions calls).Pairwise (· ≤ ·))
    (resume : Option Position) :
    ((resumed resume).replay calls).safe = resume ∨
      ∃ p, ((resumed resume).replay calls).safe = some p ∧ p ∈ submissions calls ∧
        p ∈ completions calls ∧
        ∀ q, q < p → (submissions calls).count q ≤ (completions calls).count q := by
  have hm := matches_ledger calls
  rcases (tracks_replay resume calls).reached with hsafe | ⟨e, he, hsafe⟩
  · exact .inl hsafe
  · have hmem := mem_of_mem_passed he
    obtain ⟨n, hn⟩ := Option.isSome_iff_exists.mp (finished_of_mem_passed he)
    refine .inr ⟨e.position, hsafe, ?_, ?_, fun q hq => ?_⟩
    · rw [← hm.positions]
      exact List.mem_map_of_mem hmem
    · exact List.mem_filterMap.mpr ⟨_, List.mem_of_getElem? (hm.finished e hmem n hn).2, rfl⟩
    · -- an entry before `e` in position is before it in the ledger, and so it is finished
      refine le_trans ?_ (countP_finished_le calls q)
      rw [← hm.positions, List.count_eq_countP, List.countP_map]
      refine List.countP_mono_left fun x hx hxq => ?_
      have hxq : x.position = q := by simpa using hxq
      have hfin : x.finished = true := by
        rw [← passed_append_openEnd (ledger calls)] at hx
        rcases List.mem_append.mp hx with hx | hx
        · exact finished_of_mem_passed hx
        · rw [← hm.positions, ← passed_append_openEnd (ledger calls), List.map_append] at hsorted
          have hle := (List.pairwise_append.mp hsorted).2.2 _ (List.mem_map_of_mem he) _
            (List.mem_map_of_mem hx)
          rw [hxq] at hle
          exact absurd hq (not_lt.mpr hle)
      simp [hxq, hfin]

/-- A position that is completed before anything else is submitted is safe at once. -/
theorem complete_submit (t : Progress) (h : t.pending = []) (p : Position) :
    ((t.submit p).complete p).safe = some p ∧ ((t.submit p).complete p).pending = [] := by
  have hpending : (t.submit p).pending = [⟨p, false⟩] := by rw [submit, h, List.nil_append]
  have hmark : mark? p (t.submit p).pending = some [⟨p, true⟩] := by
    rw [hpending, mark?, if_pos (by simp)]
  rw [complete, hmark]
  exact ⟨rfl, rfl⟩

/-! ## The specification of a tracker -/

theorem completed_replay (resume : Option Position) (calls : List Call) :
    ((resumed resume).replay calls).completed = .ofNat (completions calls).length := by
  induction calls using List.reverseRecOn with
  | nil => rfl
  | append_singleton calls c ih =>
    rw [replay_concat]
    cases c with
    | submit p =>
      have hsame : completions (calls ++ [.submit p]) = completions calls :=
        (completions_append calls [.submit p]).trans (List.append_nil _)
      rw [apply, submit, ih, hsame]
    | complete p =>
      have hcount : (((resumed resume).replay calls).complete p).completed =
          ((resumed resume).replay calls).completed + 1 := by
        rw [complete]
        split <;> rfl
      have hlength : (completions (calls ++ [.complete p])).length =
          (completions calls).length + 1 := by
        rw [completions_append, List.length_append]
        rfl
      rw [apply, hcount, ih, hlength, UInt64.ofNat_add]
      rfl

theorem done_of_head?_pending {resume : Option Position} {l : List Entry} {t : Progress}
    (h : Tracks resume l t) {e : Pending} (he : t.pending.head? = some e) : e.done = false := by
  rw [h.pending, List.head?_map] at he
  obtain ⟨x, hx, rfl⟩ := Option.map_eq_some_iff.mp he
  exact finished_of_head?_openEnd hx

/-- A tracker whose submissions are all finished has passed them. -/
theorem Tracks.of_all_finished {resume : Option Position} {l : List Entry} {t : Progress}
    (h : Tracks resume l t) (hfin : ∀ e ∈ l, e.finished = true) (hne : l ≠ []) :
    t.inFlight = 0 ∧ t.safe = (l.map Entry.position).getLast? := by
  have hpassed : passed l = l := List.takeWhile_eq_self_iff.mpr hfin
  have hopen : openEnd l = [] := List.dropWhile_eq_nil_iff.mpr hfin
  refine ⟨?_, ?_⟩
  · rw [inFlight, h.pending, hopen]
    rfl
  · have he : l.getLast? = some (l.getLast hne) := List.getLast?_eq_some_getLast hne
    rw [h.safe _ (by rw [hpassed, he]) (by simp [hopen]), List.getLast?_map, he, Option.map_some]

/-- A tracker refines the ledger of its calls, whatever is submitted and completed in what order.
Of increasing positions above the one it resumed after, it keeps the greatest settled one. -/
theorem replay_refines_ledger (resume : Option Position) (calls : List Call) :
    -- the ledger matches submissions one to one with the completions that found them pending
    (Matches calls (ledger calls) ∧
      ∀ n, n ∈ finishers (ledger calls) ↔ Found resume calls n) ∧
    -- the pending entries are its last ones, and those dropped are finished
    (∃ dropped, ((resumed resume).replay calls).pending =
        ((ledger calls).drop dropped).map Entry.pending ∧
      ∀ e ∈ (ledger calls).take dropped, e.finished = true) ∧
    (∀ e, ((resumed resume).replay calls).pending.head? = some e → e.done = false) ∧
    ((resumed resume).replay calls).completed = .ofNat (completions calls).length ∧
    (submissions calls ≠ [] → (∀ e ∈ ledger calls, e.finished = true) →
      ((resumed resume).replay calls).inFlight = 0 ∧
        ((resumed resume).replay calls).safe = (submissions calls).getLast?) ∧
    ((submissions calls).Pairwise (· < ·) →
      (∀ r, resume = some r → ∀ p ∈ submissions calls, r < p) →
      ((∃ p, ((resumed resume).replay calls).safe = some p ∧
          IsGreatest {p | Settled calls p} p) ∨
        (((resumed resume).replay calls).safe = resume ∧ ∀ p, ¬Settled calls p)) ∧
      ∀ earlier, earlier <+: calls → ∀ p, ((resumed resume).replay earlier).safe = some p →
        ∃ q, ((resumed resume).replay calls).safe = some q ∧ p ≤ q) := by
  have hm := matches_ledger calls
  have ht := tracks_replay resume calls
  refine
    ⟨⟨hm, mem_finishers_ledger_iff resume calls⟩, ?_, ?_, completed_replay resume calls, ?_, ?_⟩
  · refine ⟨(passed (ledger calls)).length, ?_, fun e he => ?_⟩
    · rw [ht.pending, drop_length_passed]
    · rw [take_length_passed] at he
      exact finished_of_mem_passed he
  · exact fun e he => done_of_head?_pending ht he
  · intro hne hfin
    rw [← hm.positions] at hne ⊢
    exact ht.of_all_finished hfin fun hnil => hne (by rw [hnil, List.map_nil])
  · intro hinc habove
    exact ⟨safe_replay_of_increasing hinc resume,
      fun earlier hpre p hp => safe_replay_mono hinc habove hpre hp⟩

end Progress
end ChangeRelay

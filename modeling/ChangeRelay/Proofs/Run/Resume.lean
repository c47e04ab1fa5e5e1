import ChangeRelay.Proofs.Progress.Safe
import ChangeRelay.Proofs.Run.Ticket
import ChangeRelay.Proofs.Source.Reading
/-!
# Resuming after the safe position

A relay is fed with the changes of a source, and its safe position is where a later source resumes.
The later source passes over events, and what it passes over should have been completed. This holds
for the events that stand before the safe position. Of the events that stand at it, some may be
lost: a position is taken to be safe when everything submitted there is completed, and an event that
shares it may not have been submitted yet.
-/

namespace ChangeRelay
namespace Relay

open Note Exchange

/-- A source that resumes after the safe position passes over an event that was never completed. -/
def Loses (events : List Change) (r : Relay) (i : ℕ) : Prop :=
  (∃ c, events[i]? = some c ∧ Source.passesOver r.exchange.progress.safe c = true) ∧
    ¬r.Signalled i

private theorem position_le {events : List Change}
    (hsorted : (events.map Change.position).Pairwise (· ≤ ·)) {i j : ℕ} (hij : i < j)
    {c c' : Change} (hc : events[i]? = some c) (hc' : events[j]? = some c') :
    c.position ≤ c'.position := by
  obtain ⟨hi, rfl⟩ := List.getElem?_eq_some_iff.mp hc
  obtain ⟨hj, rfl⟩ := List.getElem?_eq_some_iff.mp hc'
  exact List.pairwise_iff_getElem.mp (List.pairwise_map.mp hsorted) i j hi hj hij

/-- An event that shares its position with a later one shares it with the next one. -/
private theorem exists_next_of_shared {events : List Change}
    (hsorted : (events.map Change.position).Pairwise (· ≤ ·)) {i j : ℕ} (hij : i < j)
    {c c' : Change} (hc : events[i]? = some c) (hc' : events[j]? = some c')
    (hsame : c.position = c'.position) :
    ∃ d, events[i + 1]? = some d ∧ c.position = d.position := by
  have hj := (List.getElem?_eq_some_iff.mp hc').1
  have hd : events[i + 1]? = some events[i + 1] := List.getElem?_eq_getElem (by omega)
  refine ⟨_, hd, le_antisymm (position_le hsorted (by omega) hc hd) ?_⟩
  rcases Nat.lt_or_ge (i + 1) j with hlt | hge
  · rw [hsame]
    exact position_le hsorted hlt hd hc'
  · obtain rfl : i + 1 = j := by omega
    rw [hsame, Option.some.inj (hd.symm.trans hc')]

section Run

variable {resume : Option Position} {r₀ r : Relay} {as : List Action}
  (hinit : Initial resume r₀) (hrun : r₀.after as = some r)
include hinit hrun

variable {events : List Change} (hfed : pushed as <+: events)
include hfed

/-- The tickets number the events of the input. -/
theorem position_of_announced {t : ℕ} {p : Position} (h : r.announced[t]? = some p) :
    ∃ c, events[t]? = some c ∧ c.position = p := by
  obtain ⟨more, hmore⟩ := (announced_prefix_after hinit hrun).trans (hfed.map Change.position)
  have hp : (events.map Change.position)[t]? = some p := by
    rw [← hmore, List.getElem?_append_left (List.getElem?_eq_some_iff.mp h).1, h]
  rw [List.getElem?_map] at hp
  exact Option.map_eq_some_iff.mp hp

variable (hsorted : (events.map Change.position).Pairwise (· ≤ ·))
  (hnew : ∀ c ∈ events, Source.passesOver resume c = false)
include hsorted hnew

/-- What is lost stands at the safe position, and another event that stands there was completed. -/
theorem shared_of_loses {i : ℕ} (h : Loses events r i) :
    ∃ c j c', events[i]? = some c ∧ r.exchange.progress.safe = some c.position ∧ j ≠ i ∧
      events[j]? = some c' ∧ c'.position = c.position ∧ r.Signalled j := by
  obtain ⟨⟨c, hc, hpast⟩, hnot⟩ := h
  have hprefix := (announced_prefix_after hinit hrun).trans (hfed.map Change.position)
  have hannounced : (Progress.submissions (calls r.exchange.history)).Pairwise (· ≤ ·) :=
    hsorted.sublist hprefix.sublist
  rw [progress_after hinit hrun] at hpast ⊢
  rcases Progress.safe_replay_of_sorted hannounced resume with hsafe |
    ⟨p, hsafe, hmem, hdone, hbelow⟩
  · rw [hsafe, hnew c (List.mem_of_getElem? hc)] at hpast
    simp at hpast
  · rw [hsafe] at hpast ⊢
    have hle : c.position ≤ p := (Position.atOrBefore_iff _ _).mp hpast
    rcases lt_or_eq_of_le hle with hlt | heq
    · -- before the safe position everything was submitted, and completed as often as submitted
      exfalso
      by_cases hi : i < r.announced.length
      · obtain ⟨c', hc', hq⟩ := position_of_announced hinit hrun hfed (List.getElem?_eq_getElem hi)
        obtain rfl : c = c' := Option.some.inj (hc.symm.trans hc')
        refine hnot (signalled_of_count_le hinit hrun (hbelow _ hlt) ?_)
        rw [List.getElem?_eq_getElem hi, hq]
      · obtain ⟨k, hk, rfl⟩ := List.getElem_of_mem hmem
        have hk : k < r.announced.length := hk
        obtain ⟨c', hc', hq⟩ := position_of_announced hinit hrun hfed (List.getElem?_eq_getElem hk)
        have hle' := position_le hsorted (by omega) hc' hc
        rw [hq] at hle'
        exact absurd hlt (not_lt.mpr hle')
    · obtain ⟨j, hj⟩ := exists_completed_of_mem hdone
      obtain ⟨c', hc', hq⟩ := position_of_announced hinit hrun hfed
        (announced_of_completed hinit hrun hj)
      refine ⟨c, j, c', hc, by rw [heq], ?_, hc', hq.trans heq.symm, p, hj⟩
      rintro rfl
      exact hnot ⟨p, hj⟩

end Run

/-! ## Runs that deliver everything -/

/-- A relay that is about to take the next event, with a broker that delivers it at once. -/
structure Ready (r : Relay) : Prop where
  phase : r.phase = .taking
  queue : r.queue = []
  queueOpen : r.queueOpen = true
  capacity : 0 < r.capacity
  script : r.exchange.broker.script = []
  metadata : r.exchange.broker.metadataError = none
  queueFull : r.exchange.broker.queueFull = false
  closed : r.exchange.broker.closed = false
  pending : r.exchange.progress.pending = []

theorem exists_ready {resume : Option Position} {r₀ : Relay} (hinit : Initial resume r₀) :
    ∃ r, r₀.after [.work, .behave {}] = some r ∧ Ready r ∧ r.announced = [] := by
  obtain ⟨terms, broker, capacity, -, hcapacity, rfl⟩ := hinit.eq
  exact ⟨_, rfl, ⟨rfl, rfl, rfl, hcapacity, rfl, rfl, rfl, rfl, rfl⟩, rfl⟩

theorem Ready.deliver {r : Relay} (h : Ready r) (c : Change) :
    ∃ r', r.after [.push c .ok, .work, .work] = some r' ∧ Ready r' ∧
      r'.exchange.progress.safe = some c.position ∧ r'.announced = r.announced ++ [c.position] := by
  have hroom : r.hasRoom = true := by
    rw [hasRoom, h.queue]
    exact decide_eq_true h.capacity
  rw [after, act_push_ok h.queueOpen hroom]
  -- with what `Ready` says of the fields, the worker's two steps compute
  obtain ⟨⟨terms, ⟨script, partitions, metadataError, queueFull, closed, attempts, held, sent,
    lookups, closeCalls⟩, ⟨pending, safe, completed⟩, counts, turns, ticket, history, log⟩, queue,
    capacity, queueOpen, hasPublisher, lifecycle, lastPosition, phase, clock⟩ := r
  obtain ⟨hphase, hqueue, hopen, hcapacity, hscript, hmetadata, hfull, hclosed, hpending⟩ := h
  dsimp only at hphase hqueue hopen hscript hmetadata hfull hclosed hpending
  subst hphase hqueue hopen hscript hmetadata hfull hclosed hpending
  obtain ⟨hsafe, hpending⟩ := Progress.complete_submit ⟨[], safe, completed⟩ rfl c.position
  refine ⟨_, rfl, ⟨rfl, rfl, rfl, hcapacity, rfl, rfl, rfl, rfl, hpending⟩, hsafe, ?_⟩
  show submissions (((history ++ _) ++ _) ++ _) = submissions history ++ _
  simp only [submissions_append, List.append_assoc]
  rfl

/-- There is a run that delivers some events one after the other, and no others. -/
theorem exists_delivered {resume : Option Position} {r₀ : Relay} (hinit : Initial resume r₀)
    (cs : List Change) :
    ∃ as r, r₀.after as = some r ∧ Ready r ∧ pushed as = cs ∧
      r.announced = cs.map Change.position ∧
      ∀ c, cs.getLast? = some c → r.exchange.progress.safe = some c.position := by
  induction cs using List.reverseRecOn with
  | nil =>
    obtain ⟨r, hrun, hready, hnone⟩ := exists_ready hinit
    exact ⟨_, r, hrun, hready, rfl, hnone, by simp⟩
  | append_singleton cs c ih =>
    obtain ⟨as, s, hs, hready, hpushed, hannounced, -⟩ := ih
    obtain ⟨r, hrun, hready, hsafe, hnext⟩ := hready.deliver c
    refine ⟨as ++ [.push c .ok, .work, .work], r, ?_, hready, ?_, ?_, fun d hd => ?_⟩
    · rw [after_append, hs]
      exact hrun
    · rw [pushed_append, hpushed]
      rfl
    · rw [hnext, hannounced, List.map_append]
      rfl
    · rw [List.getLast?_concat] at hd
      rw [hsafe, Option.some.inj hd]

/-- Two neighbours at one position: the second one is lost when the first one is completed before
the second one is pushed. -/
theorem exists_loses {resume : Option Position} {r₀ : Relay} (hinit : Initial resume r₀)
    {events fed : List Change} {i : ℕ} {c c' : Change} (hc : fed[i]? = some c)
    (hc' : events[i + 1]? = some c') (hsame : c.position = c'.position) :
    ∃ as r, r₀.after as = some r ∧ pushed as <+: fed ∧ Loses events r (i + 1) := by
  obtain ⟨hi, rfl⟩ := List.getElem?_eq_some_iff.mp hc
  obtain ⟨as, r, hrun, -, hpushed, hannounced, hsafe⟩ := exists_delivered hinit (fed.take (i + 1))
  have hlength : r.announced.length = i + 1 := by
    rw [hannounced, List.length_map, List.length_take_of_le hi]
  refine ⟨as, r, hrun, hpushed ▸ List.take_prefix _ _, ⟨c', hc', ?_⟩, fun ⟨p, hp⟩ => ?_⟩
  · have hlast : (fed.take (i + 1)).getLast? = some fed[i] := by
      rw [List.take_succ_eq_append_getElem hi, List.getLast?_concat]
    rw [hsafe _ hlast]
    exact (Position.atOrBefore_iff _ _).mpr hsame.ge
  · have ht := announced_of_completed hinit hrun hp
    have hlt := (List.getElem?_eq_some_iff.mp ht).1
    omega

/-! ## What a restart loses -/

/-- Whatever is pushed, reported and stopped in whatever order, and whenever the safe position is
taken: of the events of an input whose positions do not decrease, a later source that resumes after
the safe position passes over those that were completed. The only others stand at the safe position
itself, together with an event that was completed. None is ever lost if and only if no event that is
read shares its position with the next one. -/
theorem resume_after_safe_position {resume : Option Position} {r₀ : Relay}
    (hinit : Initial resume r₀) (bytes : List UInt8)
    (hsorted : ((Source.start bytes none).changes.map Change.position).Pairwise (· ≤ ·)) :
    (∀ as r, r₀.after as = some r → pushed as <+: (Source.start bytes resume).readable →
      -- a later source gives all changes of the input but those at the safe position or before it
      (Source.start bytes r.exchange.progress.safe).changes =
        (Source.start bytes none).changes.filter
          (fun c => !Source.passesOver r.exchange.progress.safe c) ∧
      -- the tickets number the changes that this source gives
      (∀ t p, .submitted t p ∈ r.exchange.history →
        ∃ c, (Source.start bytes resume).changes[t]? = some c ∧ c.position = p) ∧
      ∀ i, Loses (Source.start bytes resume).changes r i →
        ∃ c j c', (Source.start bytes resume).changes[i]? = some c ∧
          r.exchange.progress.safe = some c.position ∧ j ≠ i ∧
          (Source.start bytes resume).changes[j]? = some c' ∧ c'.position = c.position ∧
          r.Signalled j) ∧
    ((∀ as r, r₀.after as = some r → pushed as <+: (Source.start bytes resume).readable →
        ∀ i, ¬Loses (Source.start bytes resume).changes r i) ↔
      ∀ i c c', (Source.start bytes resume).readable[i]? = some c →
        (Source.start bytes resume).changes[i + 1]? = some c' → c.position ≠ c'.position) := by
  have hstart := Source.changes_start bytes resume
  have hprefix := (Source.start bytes resume).readable_isPrefix_changes
  have hsorted' : ((Source.start bytes resume).changes.map Change.position).Pairwise (· ≤ ·) := by
    rw [hstart]
    exact hsorted.sublist (List.filter_sublist.map _)
  have hnew : ∀ c ∈ (Source.start bytes resume).changes, Source.passesOver resume c = false := by
    intro c hc
    rw [hstart] at hc
    simpa using (List.mem_filter.mp hc).2
  have hshared {as : List Action} {r : Relay} (hrun : r₀.after as = some r)
      (hfed : pushed as <+: (Source.start bytes resume).readable) {i : ℕ}
      (h : Loses (Source.start bytes resume).changes r i) :=
    shared_of_loses hinit hrun (hfed.trans hprefix) hsorted' hnew h
  refine ⟨fun as r hrun hfed => ⟨Source.changes_start _ _, fun t p ht => ?_, fun i h => ?_⟩,
    ⟨fun hnone i c c' hc hc' hsame => ?_, fun hdistinct as r hrun hfed i h => ?_⟩⟩
  · exact position_of_announced hinit hrun (hfed.trans hprefix)
      (announced_of_submitted hinit hrun ht)
  · exact hshared hrun hfed h
  · obtain ⟨as, r, hrun, hfed, hloses⟩ := exists_loses hinit hc hc' hsame
    exact hnone as r hrun hfed _ hloses
  · obtain ⟨c, j, c', hc, -, hne, hc', hsame, p, hp⟩ := hshared hrun hfed h
    have hj : j < (Source.start bytes resume).readable.length := by
      have hlt := (List.getElem?_eq_some_iff.mp (announced_of_completed hinit hrun hp)).1
      have hle := ((announced_prefix_after hinit hrun).trans (hfed.map Change.position)).length_le
      rw [List.length_map] at hle
      omega
    -- the first of the two events that share a position was read
    have hread {k : ℕ} (hk : k < (Source.start bytes resume).readable.length) {d : Change}
        (hd : (Source.start bytes resume).changes[k]? = some d) :
        (Source.start bytes resume).readable[k]? = some d := by
      rw [List.getElem?_eq_getElem hk, hprefix.getElem hk, ← hd, List.getElem?_eq_getElem]
    rcases Nat.lt_or_gt_of_ne hne with hlt | hgt
    · obtain ⟨d, hd, hnext⟩ := exists_next_of_shared hsorted' hlt hc' hc hsame
      exact hdistinct j c' d (hread hj hc') hd hnext
    · obtain ⟨d, hd, hnext⟩ := exists_next_of_shared hsorted' hgt hc hc' hsame.symm
      exact hdistinct i c d (hread (by omega) hc) hd hnext

/-- Two events at different offsets: no run loses any of them. -/
theorem nothing_lost_of_two_offsets :
    ∃ bytes, ((Source.start bytes none).changes.map Change.position) = [⟨"log", 1⟩, ⟨"log", 2⟩] ∧
      ∀ as r, (plain []).after as = some r → pushed as <+: (Source.start bytes none).readable →
        ∀ i, ¬Loses (Source.start bytes none).changes r i := by
  set bytes := "[[\"log\",1],[\"shop\"],\"\"]\n[[\"log\",2],[\"shop\"],\"\"]\n".toUTF8.toList
  have hpositions : ((Source.start bytes none).changes.map Change.position) =
      [⟨"log", 1⟩, ⟨"log", 2⟩] := by decide +kernel
  have hsorted : ((Source.start bytes none).changes.map Change.position).Pairwise (· ≤ ·) := by
    rw [hpositions]
    decide +kernel
  refine ⟨bytes, hpositions,
    (resume_after_safe_position (initial_plain []) bytes hsorted).2.mpr ?_⟩
  intro i c c' hc hc' hsame
  have hc : (Source.start bytes none).changes[i]? = some c := by
    obtain ⟨hi, rfl⟩ := List.getElem?_eq_some_iff.mp hc
    rw [(Source.readable_isPrefix_changes _).getElem hi, List.getElem?_eq_getElem]
  have hp : ((Source.start bytes none).changes.map Change.position)[i]? = some c.position := by
    rw [List.getElem?_map, hc, Option.map_some]
  have hp' : ((Source.start bytes none).changes.map Change.position)[i + 1]? =
      some c'.position := by rw [List.getElem?_map, hc', Option.map_some]
  rw [hpositions] at hp hp'
  cases i with
  | zero =>
    rw [hsame] at hp
    exact absurd (hp.trans hp'.symm) (by decide)
  | succ i => simp at hp'

/-- Two events at one position: the second one is lost when the first one is completed before the
second one is pushed. -/
theorem second_of_shared_position_lost :
    ∃ bytes as r, Initial none (plain []) ∧
      (Source.start bytes none).changes.map Change.position = [⟨"log", 1⟩, ⟨"log", 1⟩] ∧
      (plain []).after as = some r ∧ pushed as <+: (Source.start bytes none).readable ∧
      Loses (Source.start bytes none).changes r 1 := by
  set bytes := "[[\"log\",1],[\"shop\"],\"\"]\n[[\"log\",1],[\"shop\"],\"\"]\n".toUTF8.toList
  have hpositions : ((Source.start bytes none).changes.map Change.position) =
      [⟨"log", 1⟩, ⟨"log", 1⟩] := by decide +kernel
  have hreadable : ((Source.start bytes none).readable.map Change.position) =
      [⟨"log", 1⟩, ⟨"log", 1⟩] := by decide +kernel
  have hget {cs : List Change} {i : ℕ} {p : Position} (h : (cs.map Change.position)[i]? = some p) :
      ∃ c, cs[i]? = some c ∧ c.position = p := by
    rw [List.getElem?_map] at h
    exact Option.map_eq_some_iff.mp h
  obtain ⟨c, hc, hp⟩ : ∃ c, (Source.start bytes none).readable[0]? = some c ∧
      c.position = ⟨"log", 1⟩ := hget (by rw [hreadable]; rfl)
  obtain ⟨c', hc', hp'⟩ : ∃ c, (Source.start bytes none).changes[0 + 1]? = some c ∧
      c.position = ⟨"log", 1⟩ := hget (by rw [hpositions]; rfl)
  obtain ⟨as, r, hrun, hfed, hloses⟩ :=
    exists_loses (initial_plain []) hc hc' (hp.trans hp'.symm)
  exact ⟨bytes, as, r, initial_plain [], hpositions, hrun, hfed, hloses⟩

end Relay
end ChangeRelay

import ChangeRelay.Proofs.Checkpoint.Save
import Mathlib.Data.List.Nodup
import Mathlib.Logic.Function.Basic
/-!
# Two saves step by step

Two saves of checkpoints to one path take their steps in any order, and either may stop. Both write
to the same file beside the checkpoint, and a save that has opened it goes on writing to it after it
was renamed. At every moment one save is alone, or both have opened the file, or one has renamed the
file that the other one still has open.
-/

namespace ChangeRelay

/-! ## Steps in turn -/

/-- Who saves a checkpoint: the task that does so from time to time, or the relay at its end. -/
inductive Saver
  | periodic
  | final
deriving DecidableEq, Repr

/-- The other one. -/
def Saver.other : Saver → Saver
  | .periodic => .final
  | .final => .periodic

@[simp] theorem Saver.other_other (v : Saver) : v.other.other = v := by
  cases v <;> rfl

@[simp] theorem Saver.other_ne (v : Saver) : v.other ≠ v := by
  cases v <;> decide

theorem Saver.eq_or_eq_other (v w : Saver) : w = v ∨ w = v.other := by
  cases v <;> cases w <;> decide

/-- What a save does to the files, step by step. -/
inductive SaveStep
  | create
  | write
  | sync
  | rename
deriving DecidableEq, Repr

/-- The step that a phase waits for. -/
def SavePhase.next? : SavePhase → Option SaveStep
  | .start => some .create
  | .created _ => some .write
  | .written _ => some .sync
  | .synced => some .rename
  | .done => none

/-- Two saves, the files, and the steps that were made, the first one first. -/
structure SavePair where
  saves : Saver → Saving
  files : FileTree
  made : List (Saver × SaveStep)

namespace SavePair

/-- Both saves to one path before their first steps. -/
def start (path : String) (c : Saver → Checkpoint) (t : FileTree) : SavePair where
  saves v := Saving.start path (c v)
  files := t
  made := []

/-- The save of `v` has come to `s` by a step. -/
def record (r : SavePair) (v : Saver) (a : SaveStep) (s : Saving) (t : FileTree) : SavePair where
  saves := Function.update r.saves v s
  files := t
  made := r.made ++ [(v, a)]

/-- The next step of the save of `v`, on a sound disk. One that fails, or that there is not, changes
nothing. -/
def step (r : SavePair) (v : Saver) : SavePair :=
  match (r.saves v).phase.next?, (r.saves v).step .sound r.files with
  | some a, (.ok s, t) => r.record v a s t
  | _, _ => r

/-- Steps in the order of a schedule. A save that it does not name again has stopped for good. -/
def run (r : SavePair) (schedule : List Saver) : SavePair :=
  schedule.foldl step r

/-- One thing stands before another in a list. -/
def Before {α : Type} (l : List α) (x y : α) : Prop :=
  [x, y].Sublist l

/-! ## The order of the steps -/

section Before

variable {α : Type} {l : List α} {x y z : α}

theorem Before.mem_left (h : Before l x y) : x ∈ l :=
  h.subset List.mem_cons_self

theorem Before.mem_right (h : Before l x y) : y ∈ l :=
  h.subset (List.mem_cons_of_mem x List.mem_cons_self)

theorem before_concat : Before (l ++ [z]) x y ↔ Before l x y ∨ (x ∈ l ∧ y = z) := by
  rw [Before, Before, List.sublist_append_iff]
  constructor
  · rintro ⟨k, k', hsplit, hk, hk'⟩
    rcases List.sublist_singleton.mp hk' with rfl | rfl
    · rw [List.append_nil] at hsplit
      exact .inl (hsplit ▸ hk)
    · have hsplit : [x] ++ [y] = k ++ [z] := hsplit
      obtain ⟨rfl, hy⟩ := List.append_inj' hsplit rfl
      exact .inr ⟨List.singleton_sublist.mp hk, by simpa using hy⟩
  · rintro (h | ⟨hx, rfl⟩)
    · exact ⟨[x, y], [], by simp, h, List.nil_sublist _⟩
    · exact ⟨[x], [y], rfl, List.singleton_sublist.mpr hx, List.Sublist.refl _⟩

theorem Before.concat (h : Before l x y) : Before (l ++ [z]) x y :=
  before_concat.mpr (.inl h)

/-- In a list without repetitions the order is strict. -/
theorem Before.asymm (hl : l.Nodup) (h : Before l x y) : ¬ Before l y x := by
  intro h'
  induction l with
  | nil => simp [Before] at h
  | cons z l ih =>
    obtain ⟨hz, hl⟩ := List.nodup_cons.mp hl
    cases h with
    | cons _ h =>
      cases h' with
      | cons _ h' => exact ih hl h h'
      | cons_cons _ h' => exact hz (Before.mem_right h)
    | cons_cons _ h =>
      cases h' with
      | cons _ h' => exact hz (Before.mem_right h')
      | cons_cons _ h' => exact hz (List.singleton_sublist.mp h')

end Before

/-! ## What one step does -/

/-- How many steps a save has made. -/
def count : SavePhase → ℕ
  | .start => 0
  | .created _ => 1
  | .written _ => 2
  | .synced => 3
  | .done => 4

/-- How many steps come before a step. -/
def place : SaveStep → ℕ
  | .create => 0
  | .write => 1
  | .sync => 2
  | .rename => 3

theorem place_injective : Function.Injective place := by
  intro a b h
  cases a <;> cases b <;> simp [place] at h ⊢

/-- A step of one save that succeeds. -/
inductive Move (s : Saving) (t : FileTree) : SaveStep → Saving → FileTree → Prop
  | create {n : ℕ} {t' : FileTree} (hphase : s.phase = .start)
    (hcreate : t.create s.sidePath = .ok (n, t')) :
    Move s t .create { s with phase := .created n } t'
  | write {n : ℕ} (hphase : s.phase = .created n) :
    Move s t .write { s with phase := .written n } (t.write n s.bytes)
  | sync {n : ℕ} (hphase : s.phase = .written n) : Move s t .sync { s with phase := .synced } t
  | rename {t' : FileTree} (hphase : s.phase = .synced)
    (hrename : t.rename s.sidePath s.path = .ok t') :
    Move s t .rename { s with phase := .done } t'

variable {path : String} {prev : Option Checkpoint} {c : Saver → Checkpoint} {r : SavePair}
  {v w : Saver} {a : SaveStep} {s s' : Saving} {t t' u : FileTree} {n : ℕ} {b : List UInt8}

theorem Move.step (h : Move s t a s' t') : s.step .sound t = (.ok s', t') := by
  cases h with
  | create hphase hcreate => simp only [Saving.step, hphase, hcreate, Disk.attempt, Disk.sound]
  | write hphase => simp only [Saving.step, hphase, Disk.attempt, Disk.taken, Disk.sound]
  | sync hphase => simp only [Saving.step, hphase, Disk.attempt, Disk.sound]
  | rename hphase hrename => simp only [Saving.step, hphase, hrename, Disk.attempt, Disk.sound]

theorem Move.count (h : Move s t a s' t') :
    count s.phase = place a ∧ SavePair.count s'.phase = place a + 1 := by
  cases h with
  | create hphase => exact ⟨by rw [hphase]; rfl, rfl⟩
  | write hphase => exact ⟨by rw [hphase]; rfl, rfl⟩
  | sync hphase => exact ⟨by rw [hphase]; rfl, rfl⟩
  | rename hphase => exact ⟨by rw [hphase]; rfl, rfl⟩

theorem Move.same (h : Move s t a s' t') : s'.path = s.path ∧ s'.bytes = s.bytes := by
  cases h <;> exact ⟨rfl, rfl⟩

/-- A step changes nothing or is one that succeeds. -/
theorem step_cases (r : SavePair) (v : Saver) : r.step v = r ∨
    ∃ a s t, Move (r.saves v) r.files a s t ∧ r.step v = r.record v a s t := by
  unfold step
  split
  · next a s t hnext hstep =>
    refine .inr ⟨a, s, t, ?_, rfl⟩
    rcases Saving.step_cases hstep with ⟨hphase, -, n, hcreate, rfl⟩ | ⟨n, hphase, -, rfl, rfl⟩ |
      ⟨n, hphase, -, rfl, rfl⟩ | ⟨hphase, -, hrename, rfl⟩ | ⟨hphase, _, _⟩
    all_goals rw [hphase] at hnext
    case inl => exact Option.some.inj hnext ▸ .create hphase hcreate
    case inr.inl => exact Option.some.inj hnext ▸ .write hphase
    case inr.inr.inl => exact Option.some.inj hnext ▸ .sync hphase
    case inr.inr.inr.inl => exact Option.some.inj hnext ▸ .rename hphase hrename
    case inr.inr.inr.inr => simp [SavePhase.next?] at hnext
  · exact .inl rfl

/-! ## What is in a file that two saves have opened -/

/-- The bytes that a saver writes. -/
def bytesOf (c : Saver → Checkpoint) (v : Saver) : List UInt8 :=
  Utf8.encode (c v).text.toList

/-- What is in the file after both saves have created it: nothing, when the last one to create it
has emptied it; the text of one, or of one over that of the other. -/
inductive Ink (made : List (Saver × SaveStep)) (bytes : Saver → List UInt8) : List UInt8 → Prop
  | blank (emptied : ∀ v, (v, .write) ∈ made →
      Before made (v, .write) (v.other, .create) ∧ (v.other, .write) ∉ made) : Ink made bytes []
  | text (v : Saver) (opened : Before made (v.other, .create) (v, .write))
      (older : ¬ Before made (v, .create) (v.other, .write))
      (last : ¬ Before made (v, .write) (v.other, .write)) : Ink made bytes (bytes v)
  | both (v : Saver) (opened : Before made (v, .create) (v.other, .write))
      (last : Before made (v.other, .write) (v, .write)) :
      Ink made bytes (FileTree.overwrite (bytes v.other) (bytes v))

section Ink

variable {made : List (Saver × SaveStep)} {bytes : Saver → List UInt8}

theorem not_before_concat {α : Type} {l : List α} {x y z : α} (h : ¬ Before l x y) (hy : y ≠ z) :
    ¬ Before (l ++ [z]) x y :=
  fun hconcat => (before_concat.mp hconcat).elim h fun hlast => hy hlast.2

/-- Only writing changes what is in the file. -/
theorem Ink.aside (h : Ink made bytes b) (ha : a ≠ .write) : Ink (made ++ [(v, a)]) bytes b := by
  have hne (w : Saver) : (w, SaveStep.write) ≠ (v, a) := fun h => ha (Prod.mk.inj h).2.symm
  cases h with
  | blank emptied =>
    refine .blank fun w hw => ?_
    have hold : (w, .write) ∈ made := by simpa [hne w] using hw
    obtain ⟨hbefore, hnot⟩ := emptied w hold
    exact ⟨hbefore.concat, by simpa [hne w.other] using hnot⟩
  | text w opened older last =>
    exact .text w opened.concat (not_before_concat older (hne _)) (not_before_concat last (hne _))
  | both w opened last => exact .both w opened.concat last.concat

/-- A save writes its text once, after both have created the file. -/
theorem Ink.write (h : Ink made bytes b) (hnodup : made.Nodup)
    (hcreated : ∀ w, (w, .create) ∈ made) (hnew : (v, .write) ∉ made) :
    Ink (made ++ [(v, .write)]) bytes (FileTree.overwrite b (bytes v)) := by
  cases h with
  | blank emptied =>
    rw [Saving.overwrite_nil]
    have holder : ¬ Before made (v, .create) (v.other, .write) := by
      intro hbefore
      have hemptied := (emptied v.other hbefore.mem_right).1
      rw [Saver.other_other] at hemptied
      exact hemptied.asymm hnodup hbefore
    exact .text v (before_concat.mpr (.inr ⟨hcreated v.other, rfl⟩))
      (not_before_concat holder (by simp))
      (not_before_concat (fun hbefore => hnew hbefore.mem_left) (by simp))
  | text w opened older last =>
    rcases v.eq_or_eq_other w with rfl | rfl
    · exact absurd opened.mem_right hnew
    · rw [Saver.other_other] at opened
      exact .both v opened.concat (before_concat.mpr (.inr ⟨opened.mem_right, rfl⟩))
  | both w opened last =>
    rcases v.eq_or_eq_other w with rfl | rfl
    · exact absurd last.mem_right hnew
    · rw [Saver.other_other] at last
      exact absurd last.mem_left hnew

end Ink

/-! ## Where two saves stand -/

/-- The file beside the checkpoint. -/
def sideOf (path : String) : String :=
  String.ofList (Path.withExtension path.toList "tmp".toList)

theorem sidePath_eq (h : s.path = path) : s.sidePath = sideOf path := by
  rw [Saving.sidePath, h, sideOf]

/-- A path that does not end like it is never that of the file beside the checkpoint. -/
theorem not_overlaps (hpath : ¬ ".tmp".toList <:+ path.toList) (h : s.path = path) :
    ¬ s.Overlaps t := by
  rintro ⟨hside, n, t', hcreate⟩
  obtain ⟨dir, name, hplace, hends, _⟩ := FileTree.create_cases hcreate
  obtain ⟨_, _, _, _, _, hdots⟩ := FileTree.place_eq_ok_iff.mp hplace
  obtain ⟨before, hsplit, hlast⟩ := FileTree.endsWith_of_place hplace hends
  have hrenamed : s.path.toList = before ++ Path.renamed name "tmp".toList := by
    conv_lhs => rw [← hside, Saving.toList_sidePath, hsplit, hlast.withExtension hdots]
  apply hpath
  rw [← h, hrenamed, Path.renamed, ← List.append_assoc]
  exact List.suffix_append _ _

/-- A load gives the old checkpoint or one of the new ones. -/
def Whole (path : String) (prev : Option Checkpoint) (c : Saver → Checkpoint) (t : FileTree) :
    Prop :=
  Checkpoint.load t path = .ok prev ∨ ∃ v, Checkpoint.load t path = .ok (some (c v))

/-- A phase between the creation of the file `n` and its renaming. -/
def Opens (n : ℕ) (p : SavePhase) : Prop :=
  p = .created n ∨ p = .written n ∨ p = .synced

/-- The steps that are noted are those that the phases tell of. -/
structure Booked (path : String) (c : Saver → Checkpoint) (r : SavePair) : Prop where
  path_eq : ∀ v, (r.saves v).path = path
  bytes_eq : ∀ v, (r.saves v).bytes = bytesOf c v
  nodup : r.made.Nodup
  made_iff : ∀ v a, (v, a) ∈ r.made ↔ place a < count (r.saves v).phase

/-- One save is going on or has ended, in a tree `u` where the other one has not begun or has
ended. -/
structure Alone (path : String) (prev : Option Checkpoint) (c : Saver → Checkpoint) (r : SavePair)
    (v : Saver) (u : FileTree) : Prop where
  whole : Whole path prev c u
  lawful : u.Lawful
  current : r.files.Lawful
  other : (r.saves v.other).phase = .start ∨ (r.saves v.other).phase = .done
  stands : (r.saves v).Stands .sound u r.files
  turns : ∀ x y, Before r.made x y → x.1 = v → y.1 = v

/-- Both saves have opened the file `n` beside the checkpoint, with `b` in it. -/
structure Shared (path : String) (prev : Option Checkpoint) (c : Saver → Checkpoint)
    (r : SavePair) (u : FileTree) (n : ℕ) (b : List UInt8) : Prop where
  whole : Whole path prev c u
  opened : ∀ v, Opens n (r.saves v).phase
  staged : Staged u (sideOf path) path n b r.files
  ink : Ink r.made (bytesOf c) b

/-- The save of `v` has given the file `n` its path, and the other one has it open. -/
structure Shown (path : String) (c : Saver → Checkpoint) (r : SavePair) (v : Saver) (n : ℕ)
    (b : List UInt8) : Prop where
  done : (r.saves v).phase = .done
  opened : Opens n (r.saves v.other).phase
  found : r.files.find path = .ok n
  content : r.files.content? n = some b
  gone : ∀ m, r.files.find (sideOf path) ≠ .ok m
  order : Before r.made (v.other, .create) (v, .rename)
  ink : Ink r.made (bytesOf c) b

/-- What two saves may have come to. -/
inductive Stage (path : String) (prev : Option Checkpoint) (c : Saver → Checkpoint)
    (r : SavePair) : Prop
  | alone (v : Saver) (u : FileTree) (h : Alone path prev c r v u)
  | shared (u : FileTree) (n : ℕ) (b : List UInt8) (h : Shared path prev c r u n b)
  | shown (v : Saver) (n : ℕ) (b : List UInt8) (h : Shown path c r v n b)

/-! ## What a step leaves as it was -/

@[simp] theorem record_files : (r.record v a s t).files = t := rfl

@[simp] theorem record_made : (r.record v a s t).made = r.made ++ [(v, a)] := rfl

@[simp] theorem record_saves_self : (r.record v a s t).saves v = s := by
  simp [record]

theorem record_saves_of_ne (h : w ≠ v) : (r.record v a s t).saves w = r.saves w := by
  simp [record, h]

@[simp] theorem record_saves_other : (r.record v a s t).saves v.other = r.saves v.other :=
  record_saves_of_ne v.other_ne

@[simp] theorem record_other_saves : (r.record v.other a s t).saves v = r.saves v :=
  record_saves_of_ne v.other_ne.symm

/-- A save takes each of its steps once. -/
theorem Booked.notMem_of_move (h : Booked path c r) (hmove : Move (r.saves v) r.files a s t) :
    (v, a) ∉ r.made := by
  rw [h.made_iff, hmove.count.1]
  exact Nat.lt_irrefl _

theorem Booked.record (h : Booked path c r) (hmove : Move (r.saves v) r.files a s t) :
    Booked path c (r.record v a s t) := by
  obtain ⟨hcount, hcount'⟩ := hmove.count
  constructor
  case path_eq =>
    intro w
    rcases v.eq_or_eq_other w with rfl | rfl
    · rw [record_saves_self, hmove.same.1, h.path_eq]
    · rw [record_saves_other, h.path_eq]
  case bytes_eq =>
    intro w
    rcases v.eq_or_eq_other w with rfl | rfl
    · rw [record_saves_self, hmove.same.2, h.bytes_eq]
    · rw [record_saves_other, h.bytes_eq]
  case nodup =>
    have hnew := h.notMem_of_move hmove
    rw [record_made]
    exact List.nodup_append.mpr ⟨h.nodup, List.nodup_singleton _, by
      rintro x hx y hy rfl
      rw [List.mem_singleton] at hy
      exact hnew (hy ▸ hx)⟩
  case made_iff =>
    intro w a'
    rw [record_made, List.mem_append, List.mem_singleton, h.made_iff]
    rcases v.eq_or_eq_other w with rfl | rfl
    · rw [record_saves_self, hcount, hcount', Nat.lt_succ_iff_lt_or_eq, place_injective.eq_iff,
        Prod.mk.injEq, eq_self, true_and]
    · simp

/-! ## What a step leads to -/

/-- Creating the file again empties it. -/
theorem create_staged {side : String} {m : ℕ} (h : Staged u side path m b t)
    (hcreate : t.create side = .ok (n, t')) : n = m ∧ Staged u side path m [] t' := by
  obtain ⟨dir, name, hplace, _, hcase⟩ := FileTree.create_cases hcreate
  have hchild : t.child dir name = .ok m := ((FileTree.find_of_place hplace).mp h.found).1
  rcases hcase with ⟨hfound, hfile, rfl⟩ | ⟨hmissing, _⟩
  · obtain rfl : n = m := Except.ok.inj (hfound.symm.trans hchild)
    have hlt : n < t.nodes.length :=
      (List.getElem?_eq_some_iff.mp (FileTree.content?_eq_some_iff.mp h.content)).1
    exact ⟨rfl, h.fills (FileTree.fills_setNode hfile hlt [])⟩
  · simp [hchild] at hmissing

theorem Opens.count_pos {p : SavePhase} (h : Opens n p) : 0 < count p ∧ count p < 4 := by
  rcases h with rfl | rfl | rfl <;> simp [count]

section Alone

variable (h : Alone path prev c r v u) (hbooked : Booked path c r)

include h in
theorem Alone.current_of_move (hmove : Move (r.saves v) r.files a s t) : t.Lawful := by
  cases hmove with
  | create _ hcreate => exact (h.current.create hcreate).1
  | write _ => exact h.current.write _ _
  | sync _ => exact h.current
  | rename hphase hrename =>
    obtain ⟨n, hstaged⟩ : ∃ n, Staged u (r.saves v).sidePath (r.saves v).path n (r.saves v).bytes
        r.files := by
      have hstands := h.stands
      unfold Saving.Stands at hstands
      rw [hphase] at hstands
      exact hstands
    exact (hstaged.lawful.rename hrename hstaged.found hstaged.beside.file).1

include h hbooked in
/-- The save that is going on goes on. -/
theorem Alone.own (hpath : ¬ ".tmp".toList <:+ path.toList)
    (hmove : Move (r.saves v) r.files a s t) : Alone path prev c (r.record v a s t) v u where
  whole := h.whole
  lawful := h.lawful
  current := h.current_of_move hmove
  other := by
    rw [record_saves_other]
    exact h.other
  stands := by
    rw [record_saves_self]
    exact (h.stands.step h.lawful (not_overlaps hpath (hbooked.path_eq v)) hmove.step).1
  turns x y hxy hx := by
    rcases before_concat.mp hxy with hold | ⟨_, rfl⟩
    · exact h.turns x y hold hx
    · rfl

include h hbooked in
theorem Alone.whole_files (hc : ∀ v, (c v).time.Valid) : Whole path prev c r.files := by
  rcases h.stands.load with hold | hdone
  · rw [hbooked.path_eq v] at hold
    unfold Whole
    rw [hold]
    exact h.whole
  · have hstands := h.stands
    unfold Saving.Stands at hstands
    rw [hdone, hbooked.path_eq v, hbooked.bytes_eq v] at hstands
    obtain ⟨n, hfind, hcontent⟩ := hstands
    refine .inr ⟨v, ?_⟩
    rw [Checkpoint.load_of_text hfind hcontent, Checkpoint.ofText_text (hc v)]
    rfl

include h hbooked in
/-- Between its creation and its renaming the file is where the other save will look for it. -/
theorem Alone.staged (hstart : (r.saves v).phase ≠ .start) (hdone : (r.saves v).phase ≠ .done) :
    ∃ n b, Opens n (r.saves v).phase ∧ Staged u (sideOf path) path n b r.files := by
  have hstands := h.stands
  unfold Saving.Stands at hstands
  rw [sidePath_eq (hbooked.path_eq v), hbooked.path_eq v] at hstands
  split at hstands
  case h_1 hphase => exact absurd hphase hstart
  case h_2 n hphase => exact ⟨n, _, .inl hphase, hstands⟩
  case h_3 n hphase => exact ⟨n, _, .inr (.inl hphase), hstands⟩
  case h_4 hphase =>
    obtain ⟨n, hstaged⟩ := hstands
    exact ⟨n, _, .inr (.inr hphase), hstaged⟩
  case h_5 hphase => exact absurd hphase hdone

include h hbooked in
/-- The other save begins before the first step of this one or after its last one. -/
theorem Alone.relieved (hc : ∀ v, (c v).time.Valid) (hpath : ¬ ".tmp".toList <:+ path.toList)
    (hidle : (r.saves v).phase = .start ∨ (r.saves v).phase = .done)
    (hphase : (r.saves v.other).phase = .start)
    (hcreate : r.files.create (r.saves v.other).sidePath = .ok (n, t)) :
    Alone path prev c
      (r.record v.other .create { r.saves v.other with phase := .created n } t) v.other
        r.files where
  whole := h.whole_files hbooked hc
  lawful := h.current
  current := (h.current.create hcreate).1
  other := by
    rw [Saver.other_other, record_other_saves]
    exact hidle
  stands := by
    rw [record_saves_self]
    exact Saving.staged_of_create h.current (not_overlaps hpath (hbooked.path_eq v.other)) hcreate
  turns x y hxy hx := by
    rcases before_concat.mp hxy with hold | ⟨_, rfl⟩
    · obtain ⟨x, a⟩ := x
      obtain rfl : x = v.other := hx
      have hmade := (hbooked.made_iff v.other a).mp hold.mem_left
      rw [hphase] at hmade
      exact absurd hmade (Nat.not_lt_zero _)
    · rfl

include h hbooked in
/-- The other save begins between the creation of the file and its renaming. -/
theorem Alone.joined {m : ℕ} (hopened : Opens m (r.saves v).phase)
    (hstaged : Staged u (sideOf path) path m b r.files)
    (hphase : (r.saves v.other).phase = .start)
    (hcreate : r.files.create (r.saves v.other).sidePath = .ok (n, t)) :
    Shared path prev c
      (r.record v.other .create { r.saves v.other with phase := .created n } t) u n [] := by
  rw [sidePath_eq (hbooked.path_eq v.other)] at hcreate
  obtain ⟨rfl, hstaged⟩ := create_staged hstaged hcreate
  refine ⟨h.whole, fun w => ?_, hstaged, .blank fun w hw => ?_⟩
  · rcases v.eq_or_eq_other w with rfl | rfl
    · rw [record_other_saves]
      exact hopened
    · rw [record_saves_self]
      exact .inl rfl
  · have hnot : (v.other, .write) ∉ r.made := by
      rw [hbooked.made_iff, hphase]
      decide
    have hold : (w, .write) ∈ r.made := by simpa using hw
    rcases v.eq_or_eq_other w with rfl | rfl
    · exact ⟨before_concat.mpr (.inr ⟨hold, rfl⟩), by simpa using hnot⟩
    · exact absurd hold hnot

end Alone

/-- While one save is going on, the next step is its own or the first one of the other. -/
theorem Alone.move (h : Alone path prev c r v u) (hbooked : Booked path c r)
    (hc : ∀ v, (c v).time.Valid) (hpath : ¬ ".tmp".toList <:+ path.toList)
    (hmove : Move (r.saves w) r.files a s t) : Stage path prev c (r.record w a s t) := by
  rcases v.eq_or_eq_other w with rfl | rfl
  · exact .alone _ _ (h.own hbooked hpath hmove)
  · have hother := h.other
    cases hmove with
    | create hphase hcreate =>
      by_cases hidle : (r.saves v).phase = .start ∨ (r.saves v).phase = .done
      · exact .alone _ _ (h.relieved hbooked hc hpath hidle hphase hcreate)
      · rw [not_or] at hidle
        obtain ⟨m, b, hopened, hstaged⟩ := h.staged hbooked hidle.1 hidle.2
        exact .shared _ _ _ (h.joined hbooked hopened hstaged hphase hcreate)
    | write hphase => simp [hphase] at hother
    | sync hphase => simp [hphase] at hother
    | rename hphase => simp [hphase] at hother

theorem Shared.created (h : Shared path prev c r u n b) (hbooked : Booked path c r) (v : Saver) :
    (v, .create) ∈ r.made :=
  (hbooked.made_iff v .create).mpr (h.opened v).count_pos.1

/-- While both saves have the file open, they write to it, and then one of them renames it. -/
theorem Shared.move (h : Shared path prev c r u n b) (hbooked : Booked path c r)
    (hmove : Move (r.saves v) r.files a s t) : Stage path prev c (r.record v a s t) := by
  have hopened := h.opened v
  have hnew := hbooked.notMem_of_move hmove
  have hkeeps (hs : Opens n s.phase) (w : Saver) : Opens n ((r.record v a s t).saves w).phase := by
    rcases v.eq_or_eq_other w with rfl | rfl
    · rw [record_saves_self]
      exact hs
    · rw [record_saves_other]
      exact h.opened v.other
  cases hmove with
  | create hphase => simp [Opens, hphase] at hopened
  | @write m hphase =>
    obtain rfl : m = n := by simpa [Opens, hphase] using hopened
    have hstaged := h.staged.write (r.saves v).bytes
    rw [hbooked.bytes_eq v] at hstaged hkeeps ⊢
    exact .shared u m _ ⟨h.whole, hkeeps (.inr (.inl rfl)), hstaged,
      h.ink.write hbooked.nodup (h.created hbooked) hnew⟩
  | sync hphase =>
    exact .shared u n b ⟨h.whole, hkeeps (.inr (.inr rfl)), h.staged, h.ink.aside (by decide)⟩
  | rename hphase hrename =>
    rw [sidePath_eq (hbooked.path_eq v), hbooked.path_eq v] at hrename
    have hfile := h.staged.beside.file
    obtain ⟨_, hfound, hcontent⟩ := h.staged.lawful.rename hrename h.staged.found hfile
    refine .shown v n b ⟨?_, ?_, hfound, hcontent ▸ h.staged.content,
      FileTree.find_ne_of_rename hrename h.staged.found hfile h.staged.apart,
      before_concat.mpr (.inr ⟨h.created hbooked v.other, rfl⟩), h.ink.aside (by decide)⟩
    · rw [record_saves_self]
    · rw [record_saves_other]
      exact h.opened v.other

theorem Move.phase_ne_done (h : Move s t a s' t') : s.phase ≠ .done := by
  cases h with
  | create hphase => simp [hphase]
  | write hphase => simp [hphase]
  | sync hphase => simp [hphase]
  | rename hphase => simp [hphase]

/-- After the renaming the other save may still write to the file, but finds nothing to rename. -/
theorem Shown.move (h : Shown path c r v n b) (hbooked : Booked path c r)
    (hmove : Move (r.saves w) r.files a s t) : Stage path prev c (r.record w a s t) := by
  rcases v.eq_or_eq_other w with rfl | rfl
  · exact absurd h.done hmove.phase_ne_done
  · have hopened := h.opened
    have hnew := hbooked.notMem_of_move hmove
    have hdone : ((r.record v.other a s t).saves v).phase = .done := by
      rw [record_other_saves, h.done]
    have hkeeps (hs : Opens n s.phase) :
        Opens n ((r.record v.other a s t).saves v.other).phase := by
      rw [record_saves_self]
      exact hs
    cases hmove with
    | create hphase => simp [Opens, hphase] at hopened
    | @write m hphase =>
      obtain rfl : m = n := by simpa [Opens, hphase] using hopened
      have hfills := FileTree.fills_write h.content (r.saves v.other).bytes
      have hcreated (w : Saver) : (w, .create) ∈ r.made := by
        rw [hbooked.made_iff]
        rcases v.eq_or_eq_other w with rfl | rfl
        · rw [h.done]
          decide
        · exact hopened.count_pos.1
      have hgone (k : ℕ) :
          (r.files.write m (r.saves v.other).bytes).find (sideOf path) ≠ .ok k := by
        rw [hfills.find]
        exact h.gone k
      have hink := h.ink.write hbooked.nodup hcreated hnew
      rw [← hbooked.bytes_eq v.other] at hink
      exact .shown v m _ ⟨hdone, hkeeps (.inr (.inl rfl)), (hfills.find path).trans h.found,
        hfills.content, hgone, h.order.concat, hink⟩
    | sync hphase =>
      exact .shown v n b ⟨hdone, hkeeps (.inr (.inr rfl)), h.found, h.content, h.gone,
        h.order.concat, h.ink.aside (by decide)⟩
    | rename hphase hrename =>
      obtain ⟨_, _, _, _, m, _, _, hfound, _⟩ := FileTree.rename_cases hrename
      rw [sidePath_eq (hbooked.path_eq v.other)] at hfound
      exact absurd hfound (h.gone m)

theorem Stage.move (h : Stage path prev c r) (hbooked : Booked path c r)
    (hc : ∀ v, (c v).time.Valid) (hpath : ¬ ".tmp".toList <:+ path.toList)
    (hmove : Move (r.saves w) r.files a s t) : Stage path prev c (r.record w a s t) := by
  cases h with
  | alone v u h => exact h.move hbooked hc hpath hmove
  | shared u n b h => exact h.move hbooked hmove
  | shown v n b h => exact h.move hbooked hmove

/-- Before their first steps nothing is noted, and the old checkpoint is there. -/
theorem start_sound (ht : t.Lawful) (hprev : Checkpoint.load t path = .ok prev) :
    Booked path c (start path c t) ∧ Stage path prev c (start path c t) := by
  refine ⟨⟨fun _ => rfl, fun v => Utf8.toList_toUTF8 (c v).text, List.nodup_nil, fun v a => ?_⟩,
    .alone .final t ⟨.inl hprev, ht, ht, .inl rfl, rfl, fun x y hxy => ?_⟩⟩
  · exact ⟨fun h => absurd h List.not_mem_nil, fun h => absurd h (Nat.not_lt_zero _)⟩
  · exact absurd hxy.mem_left List.not_mem_nil

/-- Whatever the schedule, the two saves are at one of the stages. -/
theorem run_sound (hc : ∀ v, (c v).time.Valid) (hpath : ¬ ".tmp".toList <:+ path.toList)
    (schedule : List Saver) (hbooked : Booked path c r) (hstage : Stage path prev c r) :
    Booked path c (r.run schedule) ∧ Stage path prev c (r.run schedule) := by
  induction schedule generalizing r with
  | nil => exact ⟨hbooked, hstage⟩
  | cons v schedule ih =>
    show Booked path c ((r.step v).run schedule) ∧ Stage path prev c ((r.step v).run schedule)
    rcases r.step_cases v with hsame | ⟨a, s, t, hmove, hrecord⟩
    · rw [hsame]
      exact ih hbooked hstage
    · rw [hrecord]
      exact ih (hbooked.record hmove) (hstage.move hbooked hc hpath hmove)

end SavePair

end ChangeRelay

import ChangeRelay.Proofs.Checkpoint.Loading
/-!
# Cutting a save short

A save may end at any point: before any of its steps, in the middle of writing, or at a step that
fails. As long as the file beside the checkpoint is another file than the checkpoint, a load finds
the old checkpoint before the renaming and what was written after it. When the checkpoint's own
extension is that of the file beside it, the two are one file, and the first step already empties
the checkpoint. And when the disk loses bytes, a save that does not come to know of it puts what is
left of the text in the place of the checkpoint.
-/

namespace ChangeRelay

/-! ## Every way a save can end -/

/-- What a save may leave behind on a disk when it is cut short: the tree before any of its steps or
after one that fails, or a file to which only the first of the bytes have come. -/
inductive Saving.Leaves (disk : Disk) : Saving → FileTree → FileTree → Prop
  | here {s : Saving} {t : FileTree} : Leaves disk s t t
  | torn {s : Saving} {t : FileTree} {n : ℕ} (k : ℕ) (h : s.phase = .created n) :
    Leaves disk s t (t.write n ((disk.taken s.bytes).take k))
  | failed {s : Saving} {t t' : FileTree} {e : StorageError} (h : s.step disk t = (.error e, t')) :
    Leaves disk s t t'
  | step {s s' : Saving} {t t' left : FileTree} (h : s.step disk t = (.ok s', t'))
    (rest : Leaves disk s' t' left) : Leaves disk s t left

variable {t t' left : FileTree} {path : String} {n : ℕ} {s s' : Saving} {c : Checkpoint}
  {prev : Option Checkpoint} {b : List UInt8} {disk : Disk} {e : StorageError}

/-- The disk does not take all of the bytes. -/
def Disk.Loses (disk : Disk) (bytes : List UInt8) : Prop :=
  disk.taken bytes ≠ bytes

theorem Disk.Loses.exists_take (h : disk.Loses b) : ∃ k < b.length, disk.taken b = b.take k := by
  unfold Loses taken at h
  unfold taken
  cases htakes : disk.takes with
  | none => simp [htakes] at h
  | some k =>
    refine ⟨k, Nat.lt_of_not_le fun hk => h ?_, rfl⟩
    simp [htakes, List.take_of_length_le hk]

theorem Disk.attempt_eq_ok {α : Type} {fault : Option StorageError} {r : Except StorageError α}
    {a : α} : attempt fault r = .ok a ↔ fault = none ∧ r = .ok a := by
  cases fault <;> simp [attempt]

/-- A path finds the file `n`, and `b` is in it. -/
structure FileTree.Holds (t : FileTree) (path : String) (n : ℕ) (b : List UInt8) : Prop where
  found : t.find path = .ok n
  content : t.content? n = some b

theorem FileTree.Holds.write {n : ℕ} {old : List UInt8} (h : t.Holds path n old) (b : List UInt8) :
    (t.write n b).Holds path n (FileTree.overwrite old b) := by
  have hfills := FileTree.fills_write h.content b
  refine ⟨?_, hfills.content⟩
  rw [hfills.find, h.found]

/-- A file with `b` in it, which the path `side` finds and `path` does not, is all that tells `t'`
from `t`. -/
structure Staged (t : FileTree) (side path : String) (n : ℕ) (b : List UInt8) (t' : FileTree) :
    Prop where
  lawful : t'.Lawful
  beside : FileTree.Beside n t t'
  found : t'.find side = .ok n
  apart : t'.find path ≠ .ok n
  content : t'.content? n = some b

/-- Giving the file other content changes nothing else. -/
theorem Staged.fills {side : String} {left : FileTree} {old : List UInt8}
    (h : Staged t side path n old t') (hfills : FileTree.Fills t' left n b) :
    Staged t side path n b left := by
  refine ⟨h.lawful.fills hfills, h.beside.trans (.of_fills hfills), ?_, ?_, hfills.content⟩
  · rw [hfills.find, h.found]
  · rw [hfills.find]
    exact h.apart

theorem Staged.write {side : String} {old : List UInt8} (h : Staged t side path n old t')
    (b : List UInt8) : Staged t side path n (FileTree.overwrite old b) (t'.write n b) :=
  h.fills (FileTree.fills_write h.content b)

theorem Staged.load {side : String} (h : Staged t side path n b t') :
    Checkpoint.load t' path = Checkpoint.load t path :=
  Checkpoint.load_of_beside h.beside h.apart

namespace Saving

/-! ### One step -/

/-- The file beside the checkpoint is the checkpoint itself, and can be created. -/
def Overlaps (s : Saving) (t : FileTree) : Prop :=
  s.sidePath = s.path ∧ t.Creatable s.path

theorem toList_sidePath (s : Saving) :
    s.sidePath.toList = Path.withExtension s.path.toList "tmp".toList :=
  String.toList_ofList

/-- A path that can be created leads to its own side path exactly when it has its extension. -/
theorem overlaps_iff : s.Overlaps t ↔
    Path.extension? s.path.toList = some "tmp".toList ∧ t.Creatable s.path := by
  refine and_congr_left fun hcreatable => ?_
  obtain ⟨n, t', hcreate⟩ := hcreatable
  obtain ⟨dir, name, hplace, hends, _⟩ := FileTree.create_cases hcreate
  obtain ⟨_, _, _, _, _, hdots⟩ := FileTree.place_eq_ok_iff.mp hplace
  obtain ⟨before, hpath, hlast⟩ := FileTree.endsWith_of_place hplace hends
  rw [← String.toList_inj, toList_sidePath, hpath, hlast.withExtension hdots,
    hlast.extension? hdots, ← Path.renamed_eq_self_iff hlast.ne_nil (by decide),
    List.append_cancel_left_eq]

/-- A created file is another one than the checkpoint, unless its path is the checkpoint's. -/
theorem staged_of_create (ht : t.Lawful) (hapart : ¬ s.Overlaps t)
    (h : t.create s.sidePath = .ok (n, t')) : Staged t s.sidePath s.path n [] t' := by
  obtain ⟨hlawful, hbeside, hfound, hcontent⟩ := ht.create h
  refine ⟨hlawful, hbeside, hfound, fun hfind => hapart ?_, hcontent⟩
  have heq : s.sidePath = s.path :=
    hlawful.eq_of_find (toList_sidePath s) (by decide) (by decide) hfind hfound hbeside.file
  exact ⟨heq, n, t', heq ▸ h⟩

/-- What the steps do that do not fail. -/
theorem step_cases (h : s.step disk t = (.ok s', t')) :
    (s.phase = .start ∧ disk.create = none ∧
      ∃ n, t.create s.sidePath = .ok (n, t') ∧ s' = { s with phase := .created n }) ∨
    (∃ n, s.phase = .created n ∧ disk.write = none ∧ s' = { s with phase := .written n } ∧
      t' = t.write n (disk.taken s.bytes)) ∨
    (∃ n, s.phase = .written n ∧ disk.sync = none ∧ s' = { s with phase := .synced } ∧ t' = t) ∨
    (s.phase = .synced ∧ disk.rename = none ∧ t.rename s.sidePath s.path = .ok t' ∧
      s' = { s with phase := .done }) ∨
    (s.phase = .done ∧ s' = s ∧ t' = t) := by
  unfold step at h
  split at h
  · next hphase =>
    split at h
    · next n t₁ hattempt =>
      obtain ⟨hfault, hcreate⟩ := Disk.attempt_eq_ok.mp hattempt
      obtain ⟨hs, rfl⟩ := Prod.mk.inj h
      exact .inl ⟨hphase, hfault, n, hcreate, (Except.ok.inj hs).symm⟩
    · simp at h
  · next n hphase =>
    obtain ⟨hattempt, rfl⟩ := Prod.mk.inj h
    obtain ⟨hfault, hs⟩ := Disk.attempt_eq_ok.mp hattempt
    exact .inr (.inl ⟨n, hphase, hfault, (Except.ok.inj hs).symm, rfl⟩)
  · next n hphase =>
    obtain ⟨hattempt, rfl⟩ := Prod.mk.inj h
    obtain ⟨hfault, hs⟩ := Disk.attempt_eq_ok.mp hattempt
    exact .inr (.inr (.inl ⟨n, hphase, hfault, (Except.ok.inj hs).symm, rfl⟩))
  · next hphase =>
    split at h
    · next t₁ hattempt =>
      obtain ⟨hfault, hrename⟩ := Disk.attempt_eq_ok.mp hattempt
      obtain ⟨hs, rfl⟩ := Prod.mk.inj h
      exact .inr (.inr (.inr (.inl ⟨hphase, hfault, hrename, (Except.ok.inj hs).symm⟩)))
    · simp at h
  · next hphase =>
    obtain ⟨hs, rfl⟩ := Prod.mk.inj h
    exact .inr (.inr (.inr (.inr ⟨hphase, (Except.ok.inj hs).symm, rfl⟩)))

/-- A step that fails changes nothing, unless it is that of writing. -/
theorem step_failed (h : s.step disk t = (.error e, t')) :
    t' = t ∨ ∃ n, s.phase = .created n ∧ t' = t.write n (disk.taken s.bytes) := by
  unfold step at h
  split at h
  · split at h
    · simp at h
    · exact .inl (Prod.mk.inj h).2.symm
  · next n hphase => exact .inr ⟨n, hphase, (Prod.mk.inj h).2.symm⟩
  · exact .inl (Prod.mk.inj h).2.symm
  · split at h
    · simp at h
    · exact .inl (Prod.mk.inj h).2.symm
  · simp at h

theorem overwrite_nil (b : List UInt8) : FileTree.overwrite [] b = b := by
  rw [FileTree.overwrite, List.drop_nil, List.append_nil]

/-! ### A whole save -/

/-- How many steps are left. -/
def stepsLeft : SavePhase → ℕ
  | .start => 4
  | .created _ => 3
  | .written _ => 2
  | .synced => 1
  | .done => 0

/-- Where the bytes that the disk takes of the checkpoint are in every phase. -/
def Reaches (disk : Disk) (s : Saving) (t : FileTree) : Prop :=
  match s.phase with
  | .start => True
  | .created n => t.Holds s.sidePath n []
  | .written n => t.Holds s.sidePath n (disk.taken s.bytes)
  | .synced => ∃ n, t.Holds s.sidePath n (disk.taken s.bytes)
  | .done => ∃ n, t.Holds s.path n (disk.taken s.bytes)

/-- A step leads from one phase to the next, wherever the file beside the checkpoint is. -/
theorem Reaches.step (ht : t.Linked) (hs : s.Reaches disk t) (h : s.step disk t = (.ok s', t')) :
    t'.Linked ∧ s'.Reaches disk t' ∧ stepsLeft s'.phase = stepsLeft s.phase - 1 ∧
      s'.path = s.path ∧ s'.bytes = s.bytes := by
  unfold Reaches at hs
  rcases step_cases h with ⟨hphase, -, n, hcreate, rfl⟩ | ⟨n, hphase, -, rfl, rfl⟩ |
    ⟨n, hphase, -, rfl, rfl⟩ | ⟨hphase, -, hrename, rfl⟩ | ⟨hphase, rfl, rfl⟩
  all_goals rw [hphase] at hs
  case inl =>
    obtain ⟨hlinked, _, hfound, hcontent⟩ := ht.create hcreate
    exact ⟨hlinked, ⟨hfound, hcontent⟩, by rw [hphase]; rfl, rfl, rfl⟩
  case inr.inl =>
    have hwritten := hs.write (disk.taken s.bytes)
    rw [overwrite_nil] at hwritten
    exact ⟨ht.write n (disk.taken s.bytes), hwritten, by rw [hphase]; rfl, rfl, rfl⟩
  case inr.inr.inl => exact ⟨ht, ⟨n, hs⟩, by rw [hphase]; rfl, rfl, rfl⟩
  case inr.inr.inr.inl =>
    obtain ⟨n, hside⟩ := hs
    have hfile : t.isDirectory n = false := by
      rw [FileTree.isDirectory, FileTree.content?_eq_some_iff.mp hside.content]
    obtain ⟨hfind, hcontent, _⟩ := FileTree.rename_file hrename hside.found hfile
    have hlinked := ht.rename hrename hside.found hfile
    exact ⟨hlinked, ⟨n, hfind, hcontent ▸ hside.content⟩, by rw [hphase]; rfl, rfl, rfl⟩
  case inr.inr.inr.inr =>
    refine ⟨ht, ?_, by rw [hphase]; rfl, rfl, rfl⟩
    unfold Reaches
    rw [hphase]
    exact hs

theorem linked_of_step_failed (ht : t.Linked) (h : s.step disk t = (.error e, t')) : t'.Linked := by
  rcases step_failed h with rfl | ⟨n, -, rfl⟩
  · exact ht
  · exact ht.write n _

/-- After a save, successful or not, every name leads to a node; when no step is left and none has
failed, what the disk has taken is at its path. -/
theorem Reaches.run {fuel : ℕ} (ht : t.Linked) (hs : s.Reaches disk t)
    (hfuel : stepsLeft s.phase ≤ fuel) :
    (run fuel s disk t).2.Linked ∧ ((run fuel s disk t).1 = .ok () →
      ∃ n, (run fuel s disk t).2.Holds s.path n (disk.taken s.bytes)) := by
  induction fuel generalizing s t with
  | zero =>
    refine ⟨ht, fun _ => ?_⟩
    have hphase : s.phase = .done := by
      cases hphase : s.phase
      all_goals simp [hphase, stepsLeft] at hfuel ⊢
    unfold Reaches at hs
    rw [hphase] at hs
    exact hs
  | succ fuel ih =>
    rw [Saving.run]
    rcases hstep : s.step disk t with ⟨e | s', t'⟩
    · exact ⟨linked_of_step_failed ht hstep, by simp⟩
    · obtain ⟨ht', hs', hleft, hpath, hbytes⟩ := hs.step ht hstep
      rw [← hpath, ← hbytes]
      exact ih ht' hs' (by omega)

theorem leaves_of_run {fuel : ℕ} {r : Except StorageError Unit}
    (h : run fuel s disk t = (r, left)) : s.Leaves disk t left := by
  induction fuel generalizing s t with
  | zero =>
    obtain rfl := (Prod.mk.inj h).2
    exact .here
  | succ fuel ih =>
    rw [run] at h
    rcases hstep : s.step disk t with ⟨e | s', t'⟩
    · rw [hstep] at h
      obtain rfl := (Prod.mk.inj h).2
      exact .failed hstep
    · rw [hstep] at h
      exact .step hstep (ih h)

end Saving

namespace Checkpoint

theorem save_eq (t : FileTree) (path : String) (c : Checkpoint) (disk : Disk) :
    save t path c disk = ((Saving.run 4 (Saving.start path c) disk t).1.mapError .storage,
      (Saving.run 4 (Saving.start path c) disk t).2) := by
  unfold save
  generalize Saving.run 4 (Saving.start path c) disk t = r
  rfl

theorem save_eq_ok_iff : save t path c disk = (.ok (), t') ↔
    Saving.run 4 (Saving.start path c) disk t = (.ok (), t') := by
  rw [save_eq, Prod.mk.injEq, mapError_eq_ok, ← Prod.mk.injEq]

theorem linked_save (ht : t.Linked) (path : String) (c : Checkpoint) (disk : Disk) :
    (save t path c disk).2.Linked := by
  have hstart : (Saving.start path c).Reaches disk t := trivial
  have hlinked := (hstart.run ht (Nat.le_refl 4)).1
  rw [save_eq]
  generalize Saving.run 4 (Saving.start path c) disk t = r at hlinked ⊢
  exact hlinked

/-- What a save that succeeds has left is loaded, and that is the checkpoint unless the disk has
lost bytes of it. -/
theorem load_of_save_iff (ht : t.Linked) (hc : c.time.Valid)
    (h : save t path c disk = (.ok (), t')) :
    (load t' path = .ok (some c) ↔ ¬ disk.Loses c.text.toUTF8.toList) ∧
      (disk.Loses c.text.toUTF8.toList → ∃ e, load t' path = .error e) := by
  have hstart : (Saving.start path c).Reaches disk t := trivial
  have hrun := (hstart.run ht (Nat.le_refl 4)).2
  rw [save_eq_ok_iff.mp h] at hrun
  obtain ⟨n, hfind, hcontent⟩ := hrun rfl
  change t'.find path = .ok n at hfind
  change t'.content? n = some (disk.taken c.text.toUTF8.toList) at hcontent
  have hbytes := Utf8.toList_toUTF8 c.text
  by_cases hloses : disk.Loses c.text.toUTF8.toList
  · obtain ⟨k, hk, htake⟩ := hloses.exists_take
    rw [htake, hbytes] at hcontent
    obtain ⟨e, he⟩ := load_of_take hc hfind hcontent (hbytes ▸ hk)
    exact ⟨iff_of_false (by simp [he]) (not_not_intro hloses), fun _ => ⟨e, he⟩⟩
  · have htaken : disk.taken c.text.toUTF8.toList = c.text.toUTF8.toList := not_not.mp hloses
    rw [htaken, hbytes] at hcontent
    refine ⟨iff_of_true ?_ hloses, fun h => absurd h hloses⟩
    rw [load_of_text hfind hcontent, ofText_text hc]
    rfl

end Checkpoint

namespace Saving

/-! ### A save beside the checkpoint -/

/-- What the phases of a save that started in `t` have done to the tree. -/
def Stands (disk : Disk) (t : FileTree) (s : Saving) (t' : FileTree) : Prop :=
  match s.phase with
  | .start => t' = t
  | .created n => Staged t s.sidePath s.path n [] t'
  | .written n => Staged t s.sidePath s.path n (disk.taken s.bytes) t'
  | .synced => ∃ n, Staged t s.sidePath s.path n (disk.taken s.bytes) t'
  | .done => ∃ n, t'.find s.path = .ok n ∧ t'.content? n = some (disk.taken s.bytes)

/-- A step leads from one phase to the next. -/
theorem Stands.step {t₀ : FileTree} (ht : t₀.Lawful) (hapart : ¬ s.Overlaps t₀)
    (hs : Stands disk t₀ s t) (h : s.step disk t = (.ok s', t')) :
    Stands disk t₀ s' t' ∧ s'.path = s.path ∧ s'.bytes = s.bytes := by
  unfold Stands at hs
  rcases step_cases h with ⟨hphase, -, n, hcreate, rfl⟩ | ⟨n, hphase, -, rfl, rfl⟩ |
    ⟨n, hphase, -, rfl, rfl⟩ | ⟨hphase, -, hrename, rfl⟩ | ⟨hphase, rfl, rfl⟩
  all_goals rw [hphase] at hs
  all_goals refine ⟨?_, rfl, rfl⟩
  case inl =>
    obtain rfl : t = t₀ := hs
    exact staged_of_create ht hapart hcreate
  case inr.inl =>
    have hwritten := hs.write (disk.taken s.bytes)
    rw [overwrite_nil] at hwritten
    exact hwritten
  case inr.inr.inl => exact ⟨n, hs⟩
  case inr.inr.inr.inl =>
    obtain ⟨n, hstaged⟩ := hs
    obtain ⟨_, hfind, hcontent⟩ :=
      hstaged.lawful.rename hrename hstaged.found hstaged.beside.file
    exact ⟨n, hfind, hcontent ▸ hstaged.content⟩
  case inr.inr.inr.inr =>
    unfold Stands
    rw [hphase]
    exact hs

/-- Before the last step a load finds the old checkpoint. -/
theorem Stands.load {t₀ : FileTree} (hs : Stands disk t₀ s t) :
    Checkpoint.load t s.path = Checkpoint.load t₀ s.path ∨ s.phase = .done := by
  unfold Stands at hs
  split at hs
  · exact .inl (by rw [hs])
  · exact .inl hs.load
  · exact .inl hs.load
  · obtain ⟨n, hstaged⟩ := hs
    exact .inl hstaged.load
  · next hphase => exact .inr hphase

/-- The steps that are left are run. -/
theorem run_of_step (h : s.step disk t = (.ok s', t'))
    (hleft : run (stepsLeft s'.phase) s' disk t' = (.ok (), left)) :
    run (stepsLeft s.phase) s disk t = (.ok (), left) := by
  rcases step_cases h with ⟨hphase, -, n, -, rfl⟩ | ⟨n, hphase, -, rfl, -⟩ |
    ⟨n, hphase, -, rfl, -⟩ | ⟨hphase, -, -, rfl⟩ | ⟨-, rfl, rfl⟩
  case inr.inr.inr.inr => exact hleft
  all_goals
    rw [hphase, stepsLeft, run, h]
    exact hleft

/-- However the save ends, a load finds the old checkpoint, unless the save has succeeded. -/
theorem Leaves.load {t₀ : FileTree} (ht : t₀.Lawful) (hapart : ¬ s.Overlaps t₀)
    (h : s.Leaves disk t left) (hs : Stands disk t₀ s t) :
    Checkpoint.load left s.path = Checkpoint.load t₀ s.path ∨
      run (stepsLeft s.phase) s disk t = (.ok (), left) := by
  have hhere {s : Saving} {t : FileTree} (hs : Stands disk t₀ s t) :
      Checkpoint.load t s.path = Checkpoint.load t₀ s.path ∨
        run (stepsLeft s.phase) s disk t = (.ok (), t) := by
    refine hs.load.imp_right fun hphase => ?_
    rw [hphase]
    rfl
  have hwriting {s : Saving} {t : FileTree} {n : ℕ} (hs : Stands disk t₀ s t)
      (hphase : s.phase = .created n) (b : List UInt8) :
      Checkpoint.load (t.write n b) s.path = Checkpoint.load t₀ s.path := by
    unfold Stands at hs
    rw [hphase] at hs
    exact (hs.write b).load
  induction h with
  | here => exact hhere hs
  | torn k hphase => exact .inl (hwriting hs hphase _)
  | failed hfails =>
    rcases step_failed hfails with rfl | ⟨n, hphase, rfl⟩
    · exact hhere hs
    · exact .inl (hwriting hs hphase _)
  | @step s s' t t' left hstep _ ih =>
    obtain ⟨hs', hpath, -⟩ := hs.step ht hapart hstep
    have hapart' : ¬ s'.Overlaps t₀ := by
      unfold Overlaps sidePath at hapart ⊢
      rw [hpath]
      exact hapart
    have hrest := ih hapart' hs'
    rw [hpath] at hrest
    exact hrest.imp_right (run_of_step hstep)

/-- Where the file beside the checkpoint cannot be created, nothing happens. -/
theorem Leaves.eq_of_create (hs : s.phase = .start) (hcreate : disk.create ≠ none)
    (h : s.Leaves disk t left) : left = t := by
  cases h with
  | here => rfl
  | torn k hphase => simp [hs] at hphase
  | failed hfails =>
    rcases step_failed hfails with h | ⟨n, hphase, -⟩
    · exact h
    · simp [hs] at hphase
  | step hstep =>
    rcases step_cases hstep with ⟨-, hfault, -⟩ | ⟨n, hphase, -⟩ | ⟨n, hphase, -⟩ | ⟨hphase, -⟩ |
      ⟨hphase, -⟩
    · exact absurd hfault hcreate
    all_goals simp [hs] at hphase

/-- When the file beside the checkpoint is the checkpoint itself, the first step empties it. -/
theorem exists_leaves_of_overlaps (ht : t.Lawful) (hs : s.phase = .start) (h : s.Overlaps t)
    (hfault : disk.create = none) :
    ∃ left, s.Leaves disk t left ∧ Checkpoint.load left s.path = .error
      (.config "Invalid checkpoint file: EOF while parsing a value at line 1 column 0") := by
  obtain ⟨hside, n, t', hcreate⟩ := h
  have hstep : s.step disk t = (.ok { s with phase := .created n }, t') := by
    rw [step, hs]
    simp only [hfault, Disk.attempt, hside, hcreate]
  obtain ⟨_, _, hfind, hcontent⟩ := ht.create hcreate
  exact ⟨t', .step hstep .here, Checkpoint.load_of_empty hfind hcontent⟩

/-- On a disk where any of the steps may fail, what is left is the old checkpoint or the new one,
unless the checkpoint's own extension is that of the file beside it, or the disk loses bytes and the
save succeeds nevertheless. -/
theorem load_cut_short_iff (ht : t.Lawful) (hc : c.time.Valid)
    (hprev : Checkpoint.load t path = .ok prev) (disk : Disk) :
    (∀ left, (start path c).Leaves disk t left →
      Checkpoint.load left path = .ok prev ∨ Checkpoint.load left path = .ok (some c)) ↔
      ¬ (Path.extension? path.toList = some "tmp".toList ∧ t.Creatable path ∧
        disk.create = none) ∧
      ¬ (disk.Loses c.text.toUTF8.toList ∧
        ∃ t', Checkpoint.save t path c disk = (.ok (), t')) := by
  have hphase : (start path c).phase = .start := rfl
  have hstart : Stands disk t (start path c) t := by
    unfold Stands
    rw [hphase]
  have hoverlaps : Path.extension? path.toList = some "tmp".toList ∧ t.Creatable path ∧
      disk.create = none ↔ (start path c).Overlaps t ∧ disk.create = none := by
    rw [overlaps_iff, and_assoc]
    rfl
  rw [hoverlaps]
  constructor
  · intro hkept
    refine ⟨fun ⟨hoverlaps, hfault⟩ => ?_, fun ⟨hloses, t', hsave⟩ => ?_⟩
    · obtain ⟨left, hleaves, hempty⟩ := exists_leaves_of_overlaps ht hphase hoverlaps hfault
      change Checkpoint.load left path = _ at hempty
      rcases hkept left hleaves with h | h
      all_goals simp [hempty] at h
    · have hleaves := leaves_of_run (Checkpoint.save_eq_ok_iff.mp hsave)
      obtain ⟨e, herror⟩ := (Checkpoint.load_of_save_iff ht.linked hc hsave).2 hloses
      rcases hkept t' hleaves with h | h
      all_goals simp [herror] at h
  · rintro ⟨hapart, hwhole⟩ left hleaves
    by_cases hfault : disk.create = none
    · have hapart : ¬ (start path c).Overlaps t := fun h => hapart ⟨h, hfault⟩
      rcases hleaves.load ht hapart hstart with hold | hrun
      · exact .inl (hold.trans hprev)
      · have hsave := Checkpoint.save_eq_ok_iff.mpr hrun
        have hkeeps : ¬ disk.Loses c.text.toUTF8.toList := fun h => hwhole ⟨h, left, hsave⟩
        exact .inr ((Checkpoint.load_of_save_iff ht.linked hc hsave).1.mpr hkeeps)
    · rw [hleaves.eq_of_create hphase hfault]
      exact .inl hprev

/-! ## A save to an ordinary path and one to its own side path -/

/-- The working directory with a checkpoint in a file. -/
def kept (name : String) (c : Checkpoint) : FileTree :=
  FileTree.empty.plant name (some c.text.toUTF8.toList)

/-- The checkpoint after the first ten events. -/
def earlier : Checkpoint :=
  ⟨⟨"mysql-bin.000001", 10⟩, ⟨2026, 1, 1, 0, 0, 0, 0⟩, 1⟩

/-- The checkpoint after the next ten. -/
def later : Checkpoint :=
  ⟨⟨"mysql-bin.000001", 20⟩, ⟨2026, 1, 1, 0, 0, 5, 0⟩, 2⟩

theorem valid_earlier : earlier.time.Valid :=
  ⟨by decide, by decide, by decide, by decide, by decide⟩

theorem valid_later : later.time.Valid :=
  ⟨by decide, by decide, by decide, by decide, by decide⟩

theorem load_kept {name : String} (hc : c.time.Valid)
    (hfind : ∀ b, (FileTree.empty.plant name (some b)).find name = .ok 2)
    (hcontent : ∀ b, (FileTree.empty.plant name (some b)).content? 2 =
      some (FileTree.overwrite [] b)) :
    Checkpoint.load (kept name c) name = .ok (some c) := by
  have htext := hcontent c.text.toUTF8.toList
  rw [overwrite_nil, Utf8.toList_toUTF8] at htext
  rw [kept, Utf8.toList_toUTF8, Checkpoint.load_of_text (hfind _) htext, Checkpoint.ofText_text hc]
  rfl

theorem exists_step_of_run {fuel : ℕ} (h : run (fuel + 1) s disk t = (.ok (), left)) :
    ∃ s' t', s.step disk t = (.ok s', t') ∧ run fuel s' disk t' = (.ok (), left) := by
  rw [run] at h
  rcases hstep : s.step disk t with ⟨e | s', t'⟩
  · simp [hstep] at h
  · rw [hstep] at h
    exact ⟨s', t', rfl, h⟩

/-- A save that succeeds has been told of no failed write. -/
theorem write_eq_none_of_save (h : Checkpoint.save t path c disk = (.ok (), t')) :
    disk.write = none := by
  obtain ⟨s, t₁, hfirst, hrun⟩ := exists_step_of_run (Checkpoint.save_eq_ok_iff.mp h)
  obtain ⟨s', t₂, hsecond, -⟩ := exists_step_of_run hrun
  rcases step_cases hfirst with ⟨-, -, n, -, rfl⟩ | ⟨n, hphase, -⟩ | ⟨n, hphase, -⟩ |
    ⟨hphase, -⟩ | ⟨hphase, -⟩
  case inl =>
    rcases step_cases hsecond with ⟨hphase, -⟩ | ⟨m, -, hwrite, -⟩ | ⟨m, hphase, -⟩ |
      ⟨hphase, -⟩ | ⟨hphase, -⟩
    case inr.inl => exact hwrite
    all_goals simp at hphase
  all_goals simp [start] at hphase

/-- A disk without room for the text, on which the write fails. -/
def full : Disk where
  write := some (.system 28 "StorageFull" "No space left on device")
  takes := some 0

/-- There the save fails, and the old checkpoint stays. -/
theorem load_cut_short_of_json :
    (FileTree.Lawful (kept "checkpoint.json" earlier) ∧ later.time.Valid ∧
      Checkpoint.load (kept "checkpoint.json" earlier) "checkpoint.json" = .ok (some earlier)) ∧
    ∀ left, (start "checkpoint.json" later).Leaves full (kept "checkpoint.json" earlier) left →
      Checkpoint.load left "checkpoint.json" = .ok (some earlier) ∨
        Checkpoint.load left "checkpoint.json" = .ok (some later) := by
  have hlawful : FileTree.Lawful (kept "checkpoint.json" earlier) := FileTree.lawful_empty.plant _ _
  have hload : Checkpoint.load (kept "checkpoint.json" earlier) "checkpoint.json" =
      .ok (some earlier) := load_kept valid_earlier (fun _ => rfl) (fun _ => rfl)
  have hextension : Path.extension? "checkpoint.json".toList ≠ some "tmp".toList := by decide
  exact ⟨⟨hlawful, valid_later, hload⟩,
    (load_cut_short_iff hlawful valid_later hload full).mpr
      ⟨fun h => hextension h.1, fun ⟨_, t', hsave⟩ => by
        simpa [full] using write_eq_none_of_save hsave⟩⟩

/-- A checkpoint in a file of this name is lost when the first step of a save is the last one. -/
theorem checkpoint_tmp_emptied : ∃ left,
    Checkpoint.load (kept "checkpoint.tmp" earlier) "checkpoint.tmp" = .ok (some earlier) ∧
      (start "checkpoint.tmp" later).Leaves .sound (kept "checkpoint.tmp" earlier) left ∧
      Checkpoint.load left "checkpoint.tmp" = .error
        (.config "Invalid checkpoint file: EOF while parsing a value at line 1 column 0") := by
  have hload : Checkpoint.load (kept "checkpoint.tmp" earlier) "checkpoint.tmp" =
      .ok (some earlier) := load_kept valid_earlier (fun _ => rfl) (fun _ => rfl)
  have hextension : Path.extension? "checkpoint.tmp".toList = some "tmp".toList := by decide
  have hcreatable (b : List UInt8) :
      (FileTree.empty.plant "checkpoint.tmp" (some b)).Creatable "checkpoint.tmp" := ⟨_, _, rfl⟩
  have hoverlaps : (start "checkpoint.tmp" later).Overlaps (kept "checkpoint.tmp" earlier) :=
    overlaps_iff.mpr ⟨hextension, hcreatable _⟩
  have hsound : Disk.sound.create = none := rfl
  obtain ⟨left, hleaves, hempty⟩ :=
    exists_leaves_of_overlaps (FileTree.lawful_empty.plant _ _) rfl hoverlaps hsound
  exact ⟨left, hload, hleaves, hempty⟩

end Saving

end ChangeRelay

import ChangeRelay.Proofs.Checkpoint.Save
/-!
# One call after the other

A checkpoint is saved, deleted and loaded any number of times, and any of these calls may fail.
Whatever was called before, a save that succeeds is loaded back when the disk has taken all of its
bytes, and after a deletion that succeeds nothing is loaded.
-/

namespace ChangeRelay.Checkpoint

variable {t t' : FileTree} {path : String} {disk : Disk}

theorem delete_cases (h : delete t path disk = .ok t') :
    t.remove path = .ok t' ∨ (t' = t ∧ ∀ n, t.find path ≠ .ok n) := by
  unfold delete at h
  split at h
  · exact .inl (Disk.attempt_eq_ok.mp (mapError_eq_ok.mp h)).2
  · next hexists =>
    refine .inr ⟨(Except.ok.inj h).symm, fun n hfind => hexists ?_⟩
    rw [FileTree.exists?, hfind]
    rfl

theorem linked_delete (ht : t.Linked) (h : delete t path disk = .ok t') : t'.Linked := by
  rcases delete_cases h with hremove | ⟨rfl, -⟩
  · exact ht.remove hremove
  · exact ht

/-- What was deleted is not loaded. -/
theorem load_of_delete (h : delete t path disk = .ok t') : load t' path = .ok none := by
  rcases delete_cases h with hremove | ⟨rfl, hnone⟩
  · exact load_eq_none (FileTree.find_ne_of_remove hremove)
  · exact load_eq_none hnone

/-! ## Calls in any order -/

/-- A call on the checkpoint at a path, and what the disk does to it. -/
inductive Call
  | save (c : Checkpoint) (disk : Disk)
  | delete (disk : Disk)
  | load

/-- The tree after a call, whether it succeeds or fails. -/
def Call.after (path : String) (t : FileTree) : Call → FileTree
  | .save c disk => (Checkpoint.save t path c disk).2
  | .delete disk =>
    match Checkpoint.delete t path disk with
    | .ok t' => t'
    | .error _ => t
  | .load => t

/-- The tree after calls, one after the other. -/
def afterCalls (path : String) (t : FileTree) (calls : List Call) : FileTree :=
  calls.foldl (Call.after path) t

theorem linked_after (ht : t.Linked) (path : String) (call : Call) :
    (call.after path t).Linked := by
  cases call with
  | save c disk => exact linked_save ht path c disk
  | delete disk =>
    rw [Call.after]
    cases hdelete : delete t path disk with
    | error e => exact ht
    | ok t' => exact linked_delete ht hdelete
  | load => exact ht

theorem linked_afterCalls (ht : t.Linked) (path : String) (calls : List Call) :
    (afterCalls path t calls).Linked := by
  induction calls generalizing t with
  | nil => exact ht
  | cons call calls ih => exact ih (linked_after ht path call)

/-- Whatever was called before, and whatever became of it: a checkpoint whose save succeeds is
loaded back as it was exactly when the disk has lost no byte of it, and after a deletion that
succeeds nothing is loaded. -/
theorem load_after_calls_iff (ht : t.Linked) (path : String) (calls : List Call) (disk : Disk) :
    (∀ c t', c.time.Valid → save (afterCalls path t calls) path c disk = (.ok (), t') →
      (load t' path = .ok (some c) ↔ ¬ disk.Loses c.text.toUTF8.toList)) ∧
    ∀ t', delete (afterCalls path t calls) path disk = .ok t' → load t' path = .ok none :=
  ⟨fun _ _ hc hsave => (load_of_save_iff (linked_afterCalls ht path calls) hc hsave).1,
    fun _ hdelete => load_of_delete hdelete⟩

/-! ## Saves to an ordinary path -/

/-- A save succeeds when no step fails on the disk and the file beside the checkpoint can be created
and renamed. -/
theorem run_eq_ok {side : String} {b : List UInt8} {n : ℕ} {t₁ t₂ : FileTree}
    (hside : side.toList = Path.withExtension path.toList "tmp".toList)
    (hcreate : t.create side = .ok (n, t₁))
    (hrename : (t₁.write n (disk.taken b)).rename side path = .ok t₂)
    (hdisk : disk.create = none ∧ disk.write = none ∧ disk.sync = none ∧ disk.rename = none) :
    Saving.run 4 ⟨path, b, .start⟩ disk t = (.ok (), t₂) := by
  have hpath (phase : SavePhase) : Saving.sidePath ⟨path, b, phase⟩ = side := by
    rw [Saving.sidePath, ← hside, String.ofList_toList]
  obtain ⟨hcreates, hwrites, hsyncs, hrenames⟩ := hdisk
  simp only [Saving.run, Saving.step, hpath, hcreate, hrename, Disk.attempt, hcreates, hwrites,
    hsyncs, hrenames]

/-- In an empty directory a save succeeds, and after it another one, of whose bytes the disk may
lose some, or a deletion. The file of the other one then has what the disk has taken. -/
theorem exists_saved (b b' : List UInt8) (takes : Option ℕ) : ∃ t₁ t₂ t₃,
    Saving.run 4 ⟨"checkpoint.json", b, .start⟩ .sound .empty = (.ok (), t₁) ∧
      Saving.run 4 ⟨"checkpoint.json", b', .start⟩ { takes } t₁ = (.ok (), t₂) ∧
      t₂.Holds "checkpoint.json" 3 (FileTree.overwrite [] (Disk.taken { takes } b')) ∧
      delete t₁ "checkpoint.json" = .ok t₃ := by
  have hside : "checkpoint.tmp".toList =
    Path.withExtension "checkpoint.json".toList "tmp".toList := by
    decide
  let saved (n : ℕ) (files : List Node) : FileTree :=
    ⟨.directory 0 [("work", 1)] :: .directory 0 [("checkpoint.json", n)] :: files, 1⟩
  let old : Node := .file (FileTree.overwrite [] b)
  let disk : Disk := { takes }
  have hfirst : Saving.run 4 ⟨"checkpoint.json", b, .start⟩ .sound .empty =
      (.ok (), saved 2 [old]) := run_eq_ok hside rfl rfl ⟨rfl, rfl, rfl, rfl⟩
  have hsecond : Saving.run 4 ⟨"checkpoint.json", b', .start⟩ disk (saved 2 [old]) =
      (.ok (), saved 3 [old, .file (FileTree.overwrite [] (disk.taken b'))]) :=
    run_eq_ok hside rfl rfl ⟨rfl, rfl, rfl, rfl⟩
  exact ⟨_, _, _, hfirst, hsecond, ⟨rfl, rfl⟩, rfl⟩

open Saving (earlier later valid_later)

theorem load_after_saving_earlier :
    FileTree.empty.Linked ∧
      ∃ t, t = afterCalls "checkpoint.json" .empty [.load, .save earlier .sound, .load] ∧
        (∃ t', (later.time.Valid ∧ save t "checkpoint.json" later = (.ok (), t')) ∧
          load t' "checkpoint.json" = .ok (some later)) ∧
        ∃ t', delete t "checkpoint.json" = .ok t' ∧ load t' "checkpoint.json" = .ok none := by
  obtain ⟨t₁, t₂, t₃, hearlier, hlater, -, hdelete⟩ :=
    exists_saved earlier.text.toUTF8.toList later.text.toUTF8.toList none
  have hafter : afterCalls "checkpoint.json" .empty [.load, .save earlier .sound, .load] = t₁ :=
    congrArg Prod.snd (save_eq_ok_iff.mpr hearlier)
  have hsave : save t₁ "checkpoint.json" later = (.ok (), t₂) := save_eq_ok_iff.mpr hlater
  have hkeeps : ¬ Disk.sound.Loses later.text.toUTF8.toList := not_not_intro rfl
  have hloads := load_after_calls_iff FileTree.lawful_empty.linked "checkpoint.json"
    [.load, .save earlier .sound, .load] .sound
  rw [hafter] at hloads
  refine ⟨FileTree.lawful_empty.linked, t₁, hafter.symm, ⟨t₂, ⟨valid_later, hsave⟩, ?_⟩,
    t₃, hdelete, ?_⟩
  · exact (hloads.1 later t₂ valid_later hsave).mpr hkeeps
  · exact hloads.2 t₃ hdelete

/-- A disk that takes nothing and tells nobody. -/
def mute : Disk where
  takes := some 0

/-- A save that succeeds on a disk that takes nothing puts an empty file in the place of the old
checkpoint. -/
theorem emptied_by_save :
    ∃ t t', t = afterCalls "checkpoint.json" .empty [.load, .save earlier .sound, .load] ∧
      (later.time.Valid ∧ save t "checkpoint.json" later mute = (.ok (), t')) ∧
      load t' "checkpoint.json" = .error
        (.config "Invalid checkpoint file: EOF while parsing a value at line 1 column 0") := by
  obtain ⟨t₁, t₂, t₃, hearlier, hlater, hholds, -⟩ :=
    exists_saved earlier.text.toUTF8.toList later.text.toUTF8.toList (some 0)
  have hafter : afterCalls "checkpoint.json" .empty [.load, .save earlier .sound, .load] = t₁ :=
    congrArg Prod.snd (save_eq_ok_iff.mpr hearlier)
  have hsave : save t₁ "checkpoint.json" later mute = (.ok (), t₂) := save_eq_ok_iff.mpr hlater
  exact ⟨t₁, t₂, hafter.symm, ⟨valid_later, hsave⟩, load_of_empty hholds.found hholds.content⟩

end ChangeRelay.Checkpoint

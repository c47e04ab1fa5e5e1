import ChangeRelay.Proofs.Checkpoint.SavePair
/-!
# Two saves at once

The task that saves the checkpoint from time to time may still be at it when the relay saves for the
last time. What the two leave is a whole checkpoint, unless one save gives the file its path after
the other one has emptied it, or has written over a longer text.
-/

namespace ChangeRelay

/-! ## A text written over a longer one -/

namespace Checkpoint

variable {t : FileTree} {path : String} {n : ℕ} {c : Checkpoint}

/-- The text of a checkpoint with more than white space behind it gives none. -/
theorem ofText_text_append (hc : c.time.Valid) {rest : List Char} {x : Char} (hx : x ∈ rest)
    (hspace : Json.isSpace x = false) : ∃ e, ofText (c.text.toList ++ rest) = .error e := by
  have hread : shape.readText Json.depthLimit ((shape.write c).chars .indented 0 ++ rest) =
      .ok (c, rest) :=
        delimited_checkpoint 125 hc .indented 0 [] rest Json.spaced_indented (by simp)
  obtain ⟨fault, hfault⟩ := Json.readText_of_left hread hx hspace
  have htext : c.text.toList = (shape.write c).chars .indented 0 := by
    rw [text, Json.indented, String.toList_ofList]
  rw [ofText, Shape.ofText, String.toList_ofList, htext, hfault]
  exact ⟨_, rfl⟩

/-- The last byte of a checkpoint is its closing bracket. -/
theorem exists_bytes_text (c : Checkpoint) :
    ∃ before, Utf8.encode c.text.toList = before ++ Utf8.encode ['\x7d'] := by
  obtain ⟨before, htext⟩ : ∃ before, c.text.toList = before ++ ['\x7d'] := by
    rw [text, Json.indented, String.toList_ofList]
    exact ⟨_, rfl⟩
  exact ⟨Utf8.encode before, by rw [htext, Utf8.encode_append]⟩

/-- What is left of a longer checkpoint behind a shorter one cannot be read. -/
theorem load_of_overwritten {c' : Checkpoint} (hc : c.time.Valid) (hfind : t.find path = .ok n)
    (hcontent : t.content? n = some
      (FileTree.overwrite (Utf8.encode c'.text.toList) (Utf8.encode c.text.toList)))
    (hlonger : (Utf8.encode c.text.toList).length < (Utf8.encode c'.text.toList).length) :
    ∃ e, load t path = .error e := by
  obtain ⟨before, hbytes⟩ := exists_bytes_text c'
  have hbrace : (0x7D : UInt8) ∈
      (Utf8.encode c'.text.toList).drop (Utf8.encode c.text.toList).length := by
    have hshort : (Utf8.encode c.text.toList).length ≤ before.length := by
      rw [hbytes, List.length_append] at hlonger
      exact Nat.le_of_lt_succ hlonger
    rw [hbytes, List.drop_append_of_le_length hshort]
    exact List.mem_append_right _ List.mem_cons_self
  rw [load_of_content hfind hcontent, FileTree.overwrite, Utf8.decode,
    Utf8.decodeFrom_append (Utf8.decodeFrom_encode _ _)]
  cases hleft : Utf8.decodeFrom (0 + Utf8.byteLength c.text.toList)
      ((Utf8.encode c'.text.toList).drop (Utf8.encode c.text.toList).length) with
  | error fault => exact ⟨_, rfl⟩
  | ok rest =>
    have hmem : '\x7d' ∈ rest := Utf8.mem_of_decodeFrom hleft hbrace (by decide)
    obtain ⟨e, herror⟩ := ofText_text_append hc hmem (by decide)
    refine ⟨e, ?_⟩
    dsimp only [Except.map]
    rw [herror]

end Checkpoint

namespace SavePair

variable {path : String} {prev : Option Checkpoint} {c : Saver → Checkpoint} {r : SavePair}
  {v : Saver} {t u : FileTree} {n : ℕ} {b : List UInt8}

/-! ## What a load finds -/

/-- `v` gives its path to the file that the other save has emptied and not yet written to. -/
def Emptied (r : SavePair) (v : Saver) : Prop :=
  Before r.made (v, .write) (v.other, .create) ∧ Before r.made (v.other, .create) (v, .rename) ∧
    (v.other, .write) ∉ r.made

/-- The other save has written over a longer text of `v`, and the file has got its path. -/
def Overwritten (r : SavePair) (v : Saver) : Prop :=
  Before r.made (v.other, .create) (v, .write) ∧ Before r.made (v, .write) (v.other, .write) ∧
    (∃ w, (w, .rename) ∈ r.made) ∧ (r.saves v.other).bytes.length < (r.saves v).bytes.length

/-- The file at the path is empty, or the end of another text is left in it. -/
def Broken (r : SavePair) : Prop :=
  ∃ v, r.Emptied v ∨ r.Overwritten v

theorem not_whole_of_error {e : Error} (h : Checkpoint.load t path = .error e) :
    ¬ Whole path prev c t := by
  rintro (hold | ⟨v, hnew⟩)
  · simp [h] at hold
  · simp [h] at hnew

/-- Of two saves one after the other, none comes between two steps of the other one. -/
theorem Alone.not_broken (h : Alone path prev c r v u) : ¬ r.Broken := by
  have hturns {x y : Saver} {a b d : SaveStep} (hne : y ≠ x) (h₁ : Before r.made (x, a) (y, b))
      (h₂ : Before r.made (y, b) (x, d)) : False := by
    rcases v.eq_or_eq_other x with rfl | rfl
    · exact hne (h.turns _ _ h₁ rfl)
    · obtain rfl := (v.eq_or_eq_other y).resolve_right hne
      exact y.other_ne (h.turns _ _ h₂ rfl)
  rintro ⟨x, ⟨h₁, h₂, _⟩ | ⟨h₁, h₂, _⟩⟩
  · exact hturns x.other_ne h₁ h₂
  · exact hturns x.other_ne.symm h₁ h₂

/-- Nothing is broken before the first renaming. -/
theorem Shared.not_broken (h : Shared path prev c r u n b) (hbooked : Booked path c r) :
    ¬ r.Broken := by
  have hnot (v : Saver) : (v, .rename) ∉ r.made := by
    rw [hbooked.made_iff]
    have := (h.opened v).count_pos.2
    show ¬ 3 < _
    omega
  rintro ⟨x, ⟨_, hrename, _⟩ | ⟨_, _, ⟨w, hw⟩, _⟩⟩
  · exact hnot x hrename.mem_right
  · exact hnot w hw

/-- After it, what is in the file tells. -/
theorem Shown.whole_iff (h : Shown path c r v n b) (hbooked : Booked path c r)
    (hc : ∀ v, (c v).time.Valid) : Whole path prev c r.files ↔ ¬ r.Broken := by
  obtain ⟨hdone, _, hfound, hcontent, _, horder, hink⟩ := h
  have hmade {a : SaveStep} (ha : place a < 4) : (v, a) ∈ r.made := by
    rw [hbooked.made_iff, hdone]
    exact ha
  have hwhole {w : Saver} (hcontent : r.files.content? n = some (bytesOf c w)) :
      Whole path prev c r.files := by
    refine .inr ⟨w, ?_⟩
    rw [Checkpoint.load_of_text hfound hcontent, Checkpoint.ofText_text (hc w)]
    rfl
  cases hink with
  | blank emptied =>
    obtain ⟨hemptied, hnot⟩ := emptied v (hmade (by decide))
    exact iff_of_false (not_whole_of_error (Checkpoint.load_of_empty hfound hcontent))
      (not_not_intro ⟨v, .inl ⟨hemptied, horder, hnot⟩⟩)
  | text w opened older last =>
    refine iff_of_true (hwhole hcontent) ?_
    rintro ⟨x, ⟨h₁, _, hnot⟩ | ⟨h₁, h₂, _⟩⟩
    · rcases w.eq_or_eq_other x with rfl | rfl
      · exact opened.asymm hbooked.nodup h₁
      · rw [Saver.other_other] at hnot
        exact hnot opened.mem_right
    · rcases w.eq_or_eq_other x with rfl | rfl
      · exact last h₂
      · rw [Saver.other_other] at h₁
        exact older h₁
  | both w opened last =>
    have hemptied (x : Saver) : ¬ r.Emptied x := by
      rintro ⟨_, _, hnot⟩
      rcases w.eq_or_eq_other x with rfl | rfl
      · exact hnot last.mem_left
      · rw [Saver.other_other] at hnot
        exact hnot last.mem_right
    by_cases hlonger : (bytesOf c w).length < (bytesOf c w.other).length
    · obtain ⟨e, herror⟩ := Checkpoint.load_of_overwritten (hc w) hfound hcontent hlonger
      refine iff_of_false (not_whole_of_error herror) (not_not_intro ⟨w.other, .inr ?_⟩)
      rw [Overwritten, Saver.other_other, hbooked.bytes_eq, hbooked.bytes_eq]
      exact ⟨opened, last, ⟨v, hmade (by decide)⟩, hlonger⟩
    · have hcovered : FileTree.overwrite (bytesOf c w.other) (bytesOf c w) = bytesOf c w := by
        rw [FileTree.overwrite, List.drop_eq_nil_of_le (Nat.le_of_not_lt hlonger), List.append_nil]
      rw [hcovered] at hcontent
      refine iff_of_true (hwhole hcontent) ?_
      rintro ⟨x, hx | ⟨_, h₂, _, hlength⟩⟩
      · exact hemptied x hx
      · rw [hbooked.bytes_eq, hbooked.bytes_eq] at hlength
        rcases w.eq_or_eq_other x with rfl | rfl
        · exact last.asymm hbooked.nodup h₂
        · rw [Saver.other_other] at hlength
          exact hlonger hlength

/-- At every moment of two saves, whatever the order of their steps and wherever one of them stops,
a load gives the old checkpoint or one of the new ones, unless a save has given the file its path
after the other one has emptied it or has written over a longer text. -/
theorem load_run_iff (ht : t.Lawful) (hpath : ¬ ".tmp".toList <:+ path.toList)
    (hc : ∀ v, (c v).time.Valid) (hprev : Checkpoint.load t path = .ok prev)
    (schedule : List Saver) :
    (Checkpoint.load ((start path c t).run schedule).files path = .ok prev ∨
        ∃ v, Checkpoint.load ((start path c t).run schedule).files path = .ok (some (c v))) ↔
      ∀ v, ¬ ((start path c t).run schedule).Emptied v ∧
        ¬ ((start path c t).run schedule).Overwritten v := by
  obtain ⟨hbooked, hstage⟩ := start_sound ht hprev
  obtain ⟨hbooked, hstage⟩ := run_sound hc hpath schedule hbooked hstage
  generalize (start path c t).run schedule = r at hbooked hstage ⊢
  have hbroken : (∀ v, ¬ r.Emptied v ∧ ¬ r.Overwritten v) ↔ ¬ r.Broken := by
    simp only [Broken, not_exists, not_or]
  rw [hbroken]
  cases hstage with
  | alone v u h => exact iff_of_true (h.whole_files hbooked hc) h.not_broken
  | shared u n b h =>
    refine iff_of_true ?_ (h.not_broken hbooked)
    rw [h.staged.load]
    exact h.whole
  | shown v n b h => exact h.whole_iff hbooked hc

/-! ## Two saves in one file -/

open Saving (kept earlier later valid_earlier valid_later)

/-- The periodic save has the checkpoint of the next ten events, the final one that of ten more. -/
def successors : Saver → Checkpoint
  | .periodic => later
  | .final => ⟨⟨"mysql-bin.000001", 30⟩, ⟨2026, 1, 1, 0, 0, 6, 0⟩, 3⟩

theorem valid_successors (v : Saver) : (successors v).time.Valid := by
  cases v with
  | periodic => exact valid_later
  | final => exact ⟨by decide, by decide, by decide, by decide, by decide⟩

theorem load_earlier : Checkpoint.load (kept "checkpoint.json" earlier) "checkpoint.json" =
    .ok (some earlier) :=
  Saving.load_kept valid_earlier (fun _ => rfl) (fun _ => rfl)

theorem sideOf_json : sideOf "checkpoint.json" = "checkpoint.tmp" := by
  rw [sideOf, ← String.toList_inj, String.toList_ofList]
  decide

section Schedules

variable {side : String} {bytes : Saver → List UInt8} {m : ℕ} {t₁ t₂ t₃ : FileTree}
  (hside : sideOf path = side) (hcreate : t.create side = .ok (n, t₁))

include hside in
theorem sidePath_of_side (b : List UInt8) (phase : SavePhase) :
    Saving.sidePath ⟨path, b, phase⟩ = side := by
  rw [← hside, sidePath_eq rfl]

include hside hcreate in
/-- The periodic save writes to the file that both have created, and renames it. -/
theorem made_of_run_shared (hagain : t₁.create side = .ok (m, t₂))
    (hrename : (t₂.write n (bytes .periodic)).rename side path = .ok t₃) :
    (run ⟨fun v => ⟨path, bytes v, .start⟩, t, []⟩
      [.periodic, .final, .periodic, .periodic, .periodic]).made =
        [(.periodic, .create), (.final, .create), (.periodic, .write), (.periodic, .sync),
          (.periodic, .rename)] := by
  simp [run, step, record, SavePhase.next?, Saving.step, Disk.attempt, Disk.taken, Disk.sound,
    sidePath_of_side hside, hcreate, hagain, hrename]

include hside hcreate in
/-- The final save creates the file again before the periodic one, which has written to it, renames
it. -/
theorem files_of_run_emptied (hagain : (t₁.write n (bytes .periodic)).create side = .ok (m, t₂))
    (hrename : t₂.rename side path = .ok t₃) :
    (run ⟨fun v => ⟨path, bytes v, .start⟩, t, []⟩
      [.periodic, .periodic, .periodic, .final, .periodic]).files = t₃ := by
  simp [run, step, record, SavePhase.next?, Saving.step, Disk.attempt, Disk.taken, Disk.sound,
    sidePath_of_side hside, hcreate, hagain, hrename]

end Schedules

theorem load_run_of_shared :
    (FileTree.Lawful (kept "checkpoint.json" earlier) ∧
      ¬ ".tmp".toList <:+ "checkpoint.json".toList ∧ (∀ v, (successors v).time.Valid) ∧
      Checkpoint.load (kept "checkpoint.json" earlier) "checkpoint.json" = .ok (some earlier)) ∧
    ∃ r, r = (start "checkpoint.json" successors (kept "checkpoint.json" earlier)).run
        [.periodic, .final, .periodic, .periodic, .periodic] ∧
      (Checkpoint.load r.files "checkpoint.json" = .ok (some earlier) ∨
        ∃ v, Checkpoint.load r.files "checkpoint.json" = .ok (some (successors v))) := by
  have hlawful : FileTree.Lawful (kept "checkpoint.json" earlier) := FileTree.lawful_empty.plant _ _
  have hpath : ¬ ".tmp".toList <:+ "checkpoint.json".toList := by decide
  have hmade : ((start "checkpoint.json" successors (kept "checkpoint.json" earlier)).run
      [.periodic, .final, .periodic, .periodic, .periodic]).made =
        [(.periodic, .create), (.final, .create), (.periodic, .write), (.periodic, .sync),
          (.periodic, .rename)] := by
    rw [kept, start]
    generalize earlier.text.toUTF8.toList = b
    exact made_of_run_shared sideOf_json rfl rfl rfl
  have hloads := load_run_iff hlawful hpath valid_successors load_earlier
    [.periodic, .final, .periodic, .periodic, .periodic]
  refine ⟨⟨hlawful, hpath, valid_successors, load_earlier⟩, _, rfl, hloads.mpr fun v => ?_⟩
  rw [Emptied, Overwritten, hmade]
  unfold Before
  refine ⟨fun h => absurd h.1 ?_, fun h => absurd h.2.1 ?_⟩
  all_goals cases v <;> decide

/-- A save that empties the file of the other one leaves no checkpoint. -/
theorem emptied_before_renamed :
    ¬ ".tmp".toList <:+ "checkpoint.json".toList ∧ (∀ v, (successors v).time.Valid) ∧
      Checkpoint.load (kept "checkpoint.json" earlier) "checkpoint.json" = .ok (some earlier) ∧
      Checkpoint.load ((start "checkpoint.json" successors (kept "checkpoint.json" earlier)).run
          [.periodic, .periodic, .periodic, .final, .periodic]).files "checkpoint.json" =
        .error
          (.config "Invalid checkpoint file: EOF while parsing a value at line 1 column 0") := by
  obtain ⟨t, hfiles, hfind, hcontent⟩ : ∃ t,
      ((start "checkpoint.json" successors (kept "checkpoint.json" earlier)).run
        [.periodic, .periodic, .periodic, .final, .periodic]).files = t ∧
      t.find "checkpoint.json" = .ok 3 ∧ t.content? 3 = some [] := by
    rw [kept, start]
    generalize earlier.text.toUTF8.toList = b
    exact ⟨_, files_of_run_emptied sideOf_json rfl rfl rfl, rfl, rfl⟩
  rw [hfiles]
  exact ⟨by decide, valid_successors, load_earlier, Checkpoint.load_of_empty hfind hcontent⟩

end SavePair

end ChangeRelay

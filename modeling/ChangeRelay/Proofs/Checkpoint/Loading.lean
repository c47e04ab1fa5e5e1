import ChangeRelay.Checkpoint.File
import ChangeRelay.Proofs.Change.ReadBack
import ChangeRelay.Proofs.Shape.Torn
import ChangeRelay.Proofs.Storage.Operations
/-!
# Loading a checkpoint

The text of a checkpoint gives the checkpoint back, and when bytes at its end are missing it gives
none. What a load finds depends on the file that the path finds and on nothing else.
-/

namespace ChangeRelay

theorem mapError_eq_ok {α ε ε' : Type} {x : Except ε α} {f : ε → ε'} {a : α} :
    x.mapError f = .ok a ↔ x = .ok a := by
  cases x <;> simp [Except.mapError]

/-! ## Checkpoints read back -/

theorem delimited_checkpoint (depth : ℕ) {c : Checkpoint} (hc : c.time.Valid) :
    Checkpoint.shape.Delimited (depth + 2) c := by
  have hnames : ["position", "timestamp", "message_count"].Nodup := by decide
  exact delimited_record hnames
    ⟨readsBack_position depth c.position, readsBack_instant hc,
      readsBack_word "u64" c.count, trivial⟩
    rfl

theorem exhausts_position (depth : ℕ) (p : Position) :
    Position.shape.Exhausts (depth + 1) p := by
  have hnames : ["file", "offset"].Nodup := by decide
  exact exhausts_record hnames ⟨readsBack_text p.file, readsBack_word "u64" p.offset, trivial⟩
    ⟨exhausts_str rfl, exhausts_word "u64" p.offset, trivial⟩ rfl

namespace Checkpoint

variable {t t' : FileTree} {path : String} {n : ℕ} {c : Checkpoint}

/-- The text that is kept of a checkpoint gives it back. -/
theorem ofText_text (hc : c.time.Valid) : ofText c.text.toList = .ok c := by
  have hreadsBack : shape.ReadsBack Json.depthLimit c := (delimited_checkpoint 125 hc).readsBack
  have hread := Shape.ofText_chars hreadsBack Json.spaced_indented
  rw [ofText, text, Json.indented, String.ofList_toList, hread]
  rfl

/-- A text of a checkpoint that breaks off gives none. -/
theorem exists_error_ofText {p : List Char} (hc : c.time.Valid) (hp : p <+: c.text.toList)
    (hne : p ≠ c.text.toList) : ∃ e, ofText p = .error e := by
  have hnames : ["position", "timestamp", "message_count"].Nodup := by decide
  obtain ⟨body, hbody, hrefuses⟩ : ∃ body, (shape.write c).chars .indented 0 = body ++ ['\x7d'] ∧
      Json.Refuses (shape.readText Json.depthLimit) ([] ++ body) :=
    refuses_record Json.spaced_indented (by simp) hnames
      ⟨readsBack_position 125 c.position, readsBack_instant hc,
        readsBack_word "u64" c.count, trivial⟩
      ⟨exhausts_position 125 c.position, exhausts_str rfl, exhausts_word "u64" c.count, trivial⟩
  have htext : c.text.toList = body ++ ['\x7d'] := by
    rw [text, Json.indented, String.toList_ofList, hbody]
  rw [htext, List.prefix_concat_iff] at hp
  have hbegins : p <+: body := hp.resolve_left fun h => hne (h.trans htext.symm)
  cases hread : ofText p with
  | error e => exact ⟨e, rfl⟩
  | ok d =>
    obtain ⟨rest, hgiven⟩ := Shape.readText_of_ofText (mapError_eq_ok.mp hread)
    rw [String.toList_ofList] at hgiven
    exact absurd hgiven (hrefuses p hbegins _)

/-! ## Loading -/

/-- Nothing is loaded where nothing is found. -/
theorem load_eq_none (h : ∀ n, t.find path ≠ .ok n) : load t path = .ok none := by
  have hexists : t.exists? path = false := by
    rw [FileTree.exists?]
    cases hfind : t.find path with
    | error e => rfl
    | ok n => exact absurd hfind (h n)
  rw [load, if_neg (by simp [hexists])]

/-- What a load makes of the bytes in the file that a path finds. -/
theorem load_of_content {b : List UInt8} (hfind : t.find path = .ok n)
    (hcontent : t.content? n = some b) :
    load t path =
      match Utf8.decode b with
      | .ok text => (ofText text).map some
      | .error _ => .error (.storage .notText) := by
  have hexists : t.exists? path = true := by
    rw [FileTree.exists?, hfind]
    rfl
  rw [load, if_pos hexists, FileTree.readText, FileTree.read_of_find hfind, hcontent]
  simp only [bind, Except.bind]
  cases Utf8.decode b <;> rfl

/-- The checkpoint of the text in the file that a path finds. -/
theorem load_of_text {text : List Char} (hfind : t.find path = .ok n)
    (hcontent : t.content? n = some (Utf8.encode text)) :
    load t path = (ofText text).map some := by
  rw [load_of_content hfind hcontent, Utf8.decode_encode]

/-- A load sees of a tree which file a path finds and what is in it. -/
theorem load_congr (hfind : ∀ n, t'.find path = .ok n ↔ t.find path = .ok n)
    (hcontent : ∀ n, t.find path = .ok n → t'.content? n = t.content? n) :
    load t' path = load t path := by
  cases hold : t.find path with
  | error e =>
    have hnone : ∀ n, t.find path ≠ .ok n := by
      intro n
      simp [hold]
    rw [load_eq_none hnone, load_eq_none fun n hn => hnone n ((hfind n).mp hn)]
  | ok n =>
    have hnew := (hfind n).mpr hold
    have hread : t'.readText path = t.readText path := by
      rw [FileTree.readText, FileTree.readText, FileTree.read_of_find hnew,
        FileTree.read_of_find hold, hcontent n hold]
    have hexists : t'.exists? path = t.exists? path := by
      rw [FileTree.exists?, FileTree.exists?, hnew, hold]
    rw [load, load, hexists, hread]

/-- A file beside the checkpoint does not change what is loaded. -/
theorem load_of_beside (h : FileTree.Beside n t t') (hne : t'.find path ≠ .ok n) :
    load t' path = load t path := by
  refine load_congr (fun m => h.find_iff hne) fun m hm => h.others m ?_
  rintro rfl
  exact hne ((h.find_iff hne).mpr hm)

/-- There is no checkpoint in an empty file. -/
theorem load_of_empty (hfind : t.find path = .ok n) (hcontent : t.content? n = some []) :
    load t path = .error
      (.config "Invalid checkpoint file: EOF while parsing a value at line 1 column 0") := by
  have hempty : t.content? n = some (Utf8.encode []) := hcontent
  rw [load_of_text hfind hempty]
  rfl

/-- There is no checkpoint in a file in which some bytes at the end of one are missing. -/
theorem load_of_take {k : ℕ} (hc : c.time.Valid) (hfind : t.find path = .ok n)
    (hcontent : t.content? n = some ((Utf8.encode c.text.toList).take k))
    (hk : k < (Utf8.encode c.text.toList).length) : ∃ e, load t path = .error e := by
  rw [load_of_content hfind hcontent]
  cases hdecode : Utf8.decode ((Utf8.encode c.text.toList).take k) with
  | error fault => exact ⟨_, rfl⟩
  | ok p =>
    obtain ⟨hp, hne⟩ := Utf8.isPrefix_of_decode_take hk hdecode
    obtain ⟨e, he⟩ := exists_error_ofText hc hp hne
    refine ⟨e, ?_⟩
    dsimp only
    rw [he]
    rfl

end Checkpoint

end ChangeRelay

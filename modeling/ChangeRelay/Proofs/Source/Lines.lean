import ChangeRelay.Proofs.Change.PositionOrder
import ChangeRelay.Proofs.Shape.Given
import ChangeRelay.Proofs.Text.Utf8
import ChangeRelay.Source.Basic
import Mathlib.Data.List.TakeWhile
/-!
# Line by line

What a source of the bytes of a text gives, told by the lines of the text alone: every line that is
neither blank nor passed over gives one result, in order, whatever the lines before it held.
-/

namespace ChangeRelay
namespace Source

open Utf8 (encode encode_append)

variable {resume : Option Position} {text line : List Char}

/-! ## The lines of a text -/

/-- A line without a carriage return at its end. -/
def withoutReturn (line : List Char) : List Char :=
  if line.getLast? = some '\r' then line.dropLast else line

/-- The lines of a text without their ends. Every line feed ends a line, and what stands behind the
last one is a line unless it is empty. -/
def linesOf (text : List Char) : List (List Char) :=
  let pieces := text.splitOn '\n'
  pieces.dropLast.map withoutReturn ++ pieces.getLast?.toList.filter (· ≠ [])

@[simp] theorem linesOf_nil : linesOf [] = [] := rfl

theorem linesOf_last (h : '\n' ∉ text) (hne : text ≠ []) : linesOf text = [text] := by
  simp [linesOf, List.splitOn_eq_singleton h, hne]

theorem linesOf_append (h : '\n' ∉ line) (rest : List Char) :
    linesOf (line ++ '\n' :: rest) = withoutReturn line :: linesOf rest := by
  have hsplit : (line ++ '\n' :: rest).splitOn '\n' = line :: rest.splitOn '\n' := by
    rw [List.splitOn_eq_splitOnP, List.splitOn_eq_splitOnP]
    refine List.splitOnP_append_cons_of_forall_mem (fun c hc => ?_) '\n' rfl rest
    simpa using ne_of_mem_of_not_mem hc h
  have hne : rest.splitOn '\n' ≠ [] := List.splitOn_ne_nil '\n' rest
  simp only [linesOf, hsplit, List.dropLast_cons_of_ne_nil hne, List.getLast?_cons_of_ne_nil hne,
    List.map_cons, List.cons_append]

example : linesOf "a\r\n\r\r\n\nb\r".toList = ["a".toList, ['\r'], [], "b\r".toList] := by
  decide

/-- A text is empty, a line without an end, or a line, its line feed and a text. -/
theorem text_cases (text : List Char) : text = [] ∨ (text ≠ [] ∧ '\n' ∉ text) ∨
    ∃ line rest, '\n' ∉ line ∧ text = line ++ '\n' :: rest := by
  by_cases hmem : '\n' ∈ text
  · obtain ⟨line, rest, rfl, hline⟩ := List.eq_append_cons_of_mem hmem
    exact .inr (.inr ⟨line, rest, hline, rfl⟩)
  · by_cases hne : text = []
    · exact .inl hne
    · exact .inr (.inl ⟨hne, hmem⟩)

theorem eq_nil_of_linesOf (h : linesOf text = []) : text = [] := by
  rcases text_cases text with hnil | ⟨hne, hmem⟩ | ⟨line, rest, hline, rfl⟩
  · exact hnil
  · simp [linesOf_last hmem hne] at h
  · simp [linesOf_append hline] at h

/-! ## The bytes of the first line -/

theorem ne_lineFeed_of_mem_encode (h : '\n' ∉ line) :
    ∀ b ∈ encode line, decide (b ≠ lineFeed) = true := by
  intro b hb
  rw [decide_eq_true_eq]
  rintro rfl
  obtain ⟨c, hc, hcode⟩ := Utf8.exists_mem_of_mem_encode hb (by decide)
  have hchar : c = '\n' := Char.toNat_inj.mp hcode
  exact h (hchar ▸ hc)

theorem splitLine_last (h : '\n' ∉ line) : splitLine (encode line) = (encode line, []) := by
  have hall := ne_lineFeed_of_mem_encode h
  have hdrop : (encode line).dropWhile (· ≠ lineFeed) = [] := List.dropWhile_eq_nil_iff.mpr hall
  have htake : (encode line).takeWhile (· ≠ lineFeed) = encode line :=
    List.takeWhile_eq_self_iff.mpr hall
  simp only [splitLine, hdrop, htake]

theorem splitLine_append (h : '\n' ∉ line) (rest : List Char) :
    splitLine (encode (line ++ '\n' :: rest)) = (encode (line ++ ['\n']), encode rest) := by
  have hall := ne_lineFeed_of_mem_encode h
  have hbytes : encode (line ++ '\n' :: rest) = encode line ++ lineFeed :: encode rest :=
    encode_append _ _
  have hdrop : (encode (line ++ '\n' :: rest)).dropWhile (· ≠ lineFeed) =
    lineFeed :: encode rest := by
    rw [hbytes, List.dropWhile_append_of_pos hall]
    rfl
  have htake : (encode (line ++ '\n' :: rest)).takeWhile (· ≠ lineFeed) = encode line := by
    rw [hbytes, List.takeWhile_append_of_pos hall]
    exact List.append_nil _
  simp only [splitLine, hdrop, htake]
  rw [encode_append]
  rfl

theorem withoutEnd_last (h : '\n' ∉ line) : withoutEnd line = line := by
  refine if_neg fun hlast => h (List.mem_of_getLast? hlast)

theorem withoutEnd_append (line : List Char) :
    withoutEnd (line ++ ['\n']) = withoutReturn line := by
  rw [withoutEnd, if_pos List.getLast?_concat, List.dropLast_concat, withoutReturn]

/-- What is read first of the bytes of a text is its first line. -/
theorem exists_splitLine {lines : List (List Char)} (h : linesOf text = line :: lines) :
    ∃ read rest, splitLine (encode text) = (encode read, encode rest) ∧ withoutEnd read = line ∧
      linesOf rest = lines := by
  rcases text_cases text with rfl | ⟨hne, hmem⟩ | ⟨first, rest, hfirst, rfl⟩
  · simp at h
  · obtain ⟨rfl, rfl⟩ := List.cons.inj ((linesOf_last hmem hne).symm.trans h)
    exact ⟨text, [], splitLine_last hmem, withoutEnd_last hmem, rfl⟩
  · obtain ⟨rfl, rfl⟩ := List.cons.inj ((linesOf_append hfirst rest).symm.trans h)
    exact ⟨first ++ ['\n'], rest, splitLine_append hfirst rest, withoutEnd_append first, rfl⟩

/-! ## What lines give -/

/-- Whether a line holds a change at the position or before it. -/
def isPast (resume : Option Position) (line : List Char) : Bool :=
  (Change.ofText (String.ofList line)).toOption.any fun c => resume.any fun p => c.position ≤ p

/-- The result that a line gives; `none` when it gives none. A fault is told with the number of the
line, as 64 bits hold it. -/
def report (resume : Option Position) (number : ℕ) (line : List Char) :
    Option (Except Error Change) :=
  if isBlankText line || isPast resume line then none
  else some ((Change.ofText (String.ofList line)).mapError fun fault =>
    .invalidEvent s!"line {UInt64.ofNat number}: {fault.message}")

/-- The results that lines give, the first of which has the number `first`. -/
def reports (resume : Option Position) (first : ℕ) (lines : List (List Char)) :
    List (Except Error Change) :=
  (lines.zipIdx first).filterMap fun (line, number) => report resume number line

@[simp] theorem reports_nil (first : ℕ) : reports resume first [] = [] := rfl

theorem reports_cons (first : ℕ) (line : List Char) (lines : List (List Char)) :
    reports resume first (line :: lines) =
      (report resume first line).toList ++ reports resume (first + 1) lines := by
  rw [reports, List.zipIdx_cons, List.filterMap_cons]
  dsimp only
  cases hreport : report resume first line <;> rfl

theorem reports_append (first : ℕ) (lines more : List (List Char)) :
    reports resume first (lines ++ more) =
      reports resume first lines ++ reports resume (first + lines.length) more := by
  rw [reports, List.zipIdx_append, List.filterMap_append]
  rfl

theorem passesOver_eq (resume : Option Position) (c : Change) :
    passesOver resume c = resume.any fun p => c.position ≤ p := by
  cases resume with
  | none => rfl
  | some p =>
    rw [passesOver, Option.any_some, Option.any_some, Bool.eq_iff_iff, Position.atOrBefore_iff,
      decide_eq_true_eq]

/-- A blank line is no change. -/
theorem not_isBlankText_of_ofText {c : Change} (h : Change.ofText (String.ofList line) = .ok c) :
    isBlankText line = false := by
  have hmem : '[' ∈ line ∨ '\x7b' ∈ line := by
    obtain ⟨rest, hread⟩ := Shape.readText_of_ofText h
    rw [String.toList_ofList] at hread
    exact mem_of_readText_record hread
  refine Bool.eq_false_iff.mpr fun hblank => ?_
  have hall := List.all_eq_true.mp hblank
  rcases hmem with hmem | hmem
  · exact absurd (hall _ hmem) (by decide)
  · exact absurd (hall _ hmem) (by decide)

theorem isPast_of_ofText {c : Change} (h : Change.ofText (String.ofList line) = .ok c) :
    isPast resume line = passesOver resume c := by
  rw [isPast, h, passesOver_eq]
  rfl

theorem isPast_of_error {fault : Json.Fault}
    (h : Change.ofText (String.ofList line) = .error fault) : isPast resume line = false := by
  rw [isPast, h]
  rfl

/-! ## One line -/

/-- What asking gives when `result` comes next, and at the end. -/
def answer : Option (Except Error Change) → Except Error (Option Change)
  | none => .ok none
  | some result => result.map some

/-- Reading the first line of a text gives its result, or goes on behind it. -/
theorem next_line (resume : Option Position) {lines : List (List Char)}
    (h : linesOf text = line :: lines) :
    ∃ rest, linesOf rest = lines ∧ ∀ (number skipped : ℕ),
      next ⟨encode text, resume, .ofNat number, .ofNat skipped⟩ =
        let behind : Source := ⟨encode rest, resume, .ofNat (number + 1),
          .ofNat (if isPast resume line then skipped + 1 else skipped)⟩
        match report resume (number + 1) line with
        | none => next behind
        | some result => (answer (some result), behind) := by
  obtain ⟨read, rest, hsplit, hread, hrest⟩ := exists_splitLine h
  refine ⟨rest, hrest, fun number skipped => ?_⟩
  have hne : encode text ≠ [] := by
    intro hnil
    obtain rfl : text = [] := Utf8.encode_injective hnil
    simp at h
  have hnumber : UInt64.ofNat number + 1 = .ofNat (number + 1) := (UInt64.ofNat_add number 1).symm
  have hskipped : UInt64.ofNat skipped + 1 = .ofNat (skipped + 1) :=
    (UInt64.ofNat_add skipped 1).symm
  rw [next, dif_neg hne]
  simp only [hsplit, hnumber, hskipped]
  cases hof : Change.ofText (String.ofList line) with
  | error fault =>
    have hline : Line.ofBytes (encode read) =
        if isBlankText line then .blank else .invalid fault := by
      simp only [Line.ofBytes, Utf8.decode_encode, hread, hof]
    have hpast : isPast resume line = false := isPast_of_error hof
    cases hblank : isBlankText line with
    | false => simp [hline, report, hof, hpast, hblank, Except.mapError, answer, Except.map]
    | true => simp [hline, report, hpast, hblank]
  | ok c =>
    have hblank := not_isBlankText_of_ofText hof
    have hline : Line.ofBytes (encode read) = .change c := by
      simp [Line.ofBytes, Utf8.decode_encode, hread, hof, hblank]
    have hpast : isPast resume line = passesOver resume c := isPast_of_ofText hof
    cases hover : passesOver resume c with
    | false => simp [hline, report, hof, hpast, hblank, hover, Except.mapError, answer, Except.map]
    | true => simp [hline, report, hpast, hblank, hover]

/-! ## One question -/

theorem isPast_of_report {number : ℕ} {result : Except Error Change}
    (h : report resume number line = some result) : isPast resume line = false := by
  unfold report at h
  split at h
  · simp at h
  · next hgives => exact (by simpa using hgives : _ ∧ isPast resume line = false).2

/-- Asking reads the lines up to the first that gives a result, and gives that result; when there
is none, it reads all of them. -/
theorem next_reports (resume : Option Position) (text : List Char) {lines : List (List Char)}
    (h : linesOf text = lines) (number skipped : ℕ) :
    ∃ read rest, lines = read ++ linesOf rest ∧ 
        next ⟨encode text, resume, .ofNat number, .ofNat skipped⟩ =
          (answer (reports resume (number + 1) lines).head?, ⟨encode rest, resume,
            .ofNat (number + read.length), .ofNat (skipped + read.countP (isPast resume))⟩) ∧
      reports resume (number + 1) read = (reports resume (number + 1) lines).take 1 ∧
      (reports resume (number + 1) lines = [] → rest = []) := by
  induction lines generalizing text number skipped with
  | nil =>
    obtain rfl := eq_nil_of_linesOf h
    refine ⟨[], [], rfl, ?_, rfl, fun _ => rfl⟩
    rw [next]
    exact dif_pos rfl
  | cons line lines ih =>
    obtain ⟨rest, hrest, hnext⟩ := next_line resume h
    rw [hnext number skipped]
    cases hreport : report resume (number + 1) line with
    | none =>
      obtain ⟨read, rest', hlines, hread, hone, hend⟩ := ih _ hrest (number + 1)
        (if isPast resume line then skipped + 1 else skipped)
      have hreports (more : List (List Char)) : reports resume (number + 1) (line :: more) =
          reports resume (number + 1 + 1) more := by
        rw [reports_cons, hreport]
        rfl
      refine ⟨line :: read, rest', congrArg (line :: ·) hlines, ?_, ?_, ?_⟩
      · dsimp only
        rw [hread, hreports, List.length_cons, List.countP_cons]
        congr 2
        · exact congrArg UInt64.ofNat (by omega)
        · split <;> exact congrArg UInt64.ofNat (by omega)
      · rw [hreports, hreports, hone]
      · rwa [hreports]
    | some result =>
      have hreports (more : List (List Char)) : reports resume (number + 1) (line :: more) =
          result :: reports resume (number + 1 + 1) more := by
        rw [reports_cons, hreport]
        rfl
      refine ⟨[line], rest, by rw [hrest, List.singleton_append], ?_, ?_, ?_⟩
      · rw [hreports, List.countP_singleton, isPast_of_report hreport]
        rfl
      · rw [hreports, hreports]
        rfl
      · rw [hreports]
        simp

/-! ## One question after the other -/

/-- A source after it was asked `k` times. -/
def asked (s : Source) (k : ℕ) : Source :=
  (fun s => s.next.2)^[k] s

theorem asked_succ (s : Source) (k : ℕ) : s.asked (k + 1) = (s.asked k).next.2 :=
  Function.iterate_succ_apply' _ k s

/-- How far a source is after it was asked `k` times: it has read the lines that give the first `k`
results, and all lines if there are fewer. -/
theorem exists_asked (text : List Char) (resume : Option Position) (k : ℕ) :
    let results := reports resume 1 (linesOf text)
    ∃ read rest, linesOf text = read ++ linesOf rest ∧
      (start (encode text) resume).asked k =
        ⟨encode rest, resume, .ofNat read.length, .ofNat (read.countP (isPast resume))⟩ ∧
      reports resume 1 read = results.take k ∧
      reports resume (read.length + 1) (linesOf rest) = results.drop k ∧
      (results.length < k → rest = []) := by
  intro results
  induction k with
  | zero => exact ⟨[], text, rfl, rfl, rfl, rfl, by simp⟩
  | succ k ih =>
    obtain ⟨read, rest, hlines, hasked, hgiven, hleft, -⟩ := ih
    obtain ⟨read', rest', hlines', hnext, hone, hend⟩ :=
      next_reports resume rest rfl read.length (read.countP (isPast resume))
    rw [hleft] at hone hend
    have hread : linesOf text = (read ++ read') ++ linesOf rest' := by
      rw [hlines, hlines', List.append_assoc]
    have hgiven' : reports resume 1 (read ++ read') = results.take (k + 1) := by
      rw [reports_append, Nat.add_comm 1, hgiven, hone, List.take_add]
    refine ⟨read ++ read', rest', hread, ?_, hgiven', ?_, fun hlength => hend ?_⟩
    · rw [asked_succ, hasked, hnext, List.length_append, List.countP_append]
    · -- what the lines read so far have given is cut off on both sides
      have hall : results = reports resume 1 (read ++ read') ++
          reports resume (1 + (read ++ read').length) (linesOf rest') := by
        rw [← reports_append, ← hread]
      rw [hgiven', Nat.add_comm 1] at hall
      exact List.append_cancel_left (hall.symm.trans (List.take_append_drop (k + 1) results).symm)
    · exact List.drop_eq_nil_of_le (Nat.le_of_lt_succ hlength)

/-- What a source of the bytes of a text gives when it is asked for the next change after `k`
others, whatever those gave: the `k`-th of the results that the lines give, each line with its own
number, and `none` behind the last. So far it has read the first `n` lines, those that give the
first `k` results, and it has counted them and the changes among them that are passed over. -/
theorem next_asked (text : String) (resume : Option Position) (k : ℕ) :
    let lines := linesOf text.toList
    let results := reports resume 1 lines
    let s := (start text.toUTF8.toList resume).asked k
    s.next.1 = answer results[k]? ∧
      ∃ n ≤ lines.length, s.lineNumber = .ofNat n ∧
        s.skipped = .ofNat ((lines.take n).countP (isPast resume)) ∧
        reports resume 1 (lines.take n) = results.take k ∧
        (∃ rest, s.bytes = encode rest ∧ linesOf rest = lines.drop n) ∧
        (results.length < k → s.bytes = []) := by
  intro lines results s
  obtain ⟨read, rest, hlines, hasked, hgiven, hleft, hend⟩ := exists_asked text.toList resume k
  obtain ⟨_, _, -, hnext, -⟩ :=
    next_reports resume rest rfl read.length (read.countP (isPast resume))
  have hs : s =
      ⟨encode rest, resume, .ofNat read.length, .ofNat (read.countP (isPast resume))⟩ := by
    rw [← hasked, ← Utf8.toList_toUTF8]
  have htake : lines.take read.length = read := by
    rw [show lines = read ++ linesOf rest from hlines, List.take_left]
  have hdrop : lines.drop read.length = linesOf rest := by
    rw [show lines = read ++ linesOf rest from hlines, List.drop_left]
  have hlength : read.length ≤ lines.length := by
    rw [show lines = read ++ linesOf rest from hlines, List.length_append]
    exact Nat.le_add_right _ _
  rw [hs]
  refine ⟨by rw [hnext, hleft, List.head?_drop], read.length, hlength, rfl, ?_⟩
  rw [htake, hdrop]
  exact ⟨rfl, hgiven, ⟨rest, rfl, rfl⟩, fun hfew => congrArg encode (hend hfew)⟩

end Source
end ChangeRelay

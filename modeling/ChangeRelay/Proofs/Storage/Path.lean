import ChangeRelay.Storage.Path
import Mathlib.Data.List.TakeWhile
/-!
# Last names

A path that does not end in a slash has a last name. Another extension changes that name alone, and
leaves it as it is only when it has that extension already.
-/

namespace ChangeRelay.Path

variable {before name path stem ext : List Char}

/-! ## The last name of a path -/

theorem isDots_iff : isDots name = true ↔ name = ['.'] ∨ name = ['.', '.'] := by
  rw [isDots, Bool.or_eq_true, decide_eq_true_eq, decide_eq_true_eq]

theorem ne_dot_of_isDots (h : isDots name = false) : name ≠ ['.'] := by
  rintro rfl
  exact absurd (isDots_iff.mpr (Or.inl rfl)) (by rw [h]; decide)

/-- Up to a separator that it does not have, a text is taken whole. -/
theorem takeWhile_reverse_append {sep : Char} (h : sep ∉ name) (cs : List Char) :
    (name.reverse ++ cs).takeWhile (· ≠ sep) = name.reverse ++ cs.takeWhile (· ≠ sep) := by
  refine List.takeWhile_append_of_pos fun c hc => ?_
  have hmem := List.mem_reverse.mp hc
  exact decide_eq_true fun heq => h (heq ▸ hmem)

/-- What stands before the last name of a path, and the name. -/
structure EndsWith (before name : List Char) : Prop where
  ne_nil : name ≠ []
  no_slash : '/' ∉ name
  before : before = [] ∨ ∃ b, before = b ++ ['/']

theorem exists_endsWith (hne : path ≠ []) (hslash : endsInSlash path = false) :
    ∃ before name, path = before ++ name ∧ EndsWith before name := by
  have hsplit : path.reverse = path.reverse.takeWhile (· ≠ '/') ++
    path.reverse.dropWhile (· ≠ '/') :=
    List.takeWhile_append_dropWhile.symm
  refine ⟨(path.reverse.dropWhile (· ≠ '/')).reverse, (path.reverse.takeWhile (· ≠ '/')).reverse,
    ?_, ?_, ?_, ?_⟩
  · rw [← List.reverse_append, ← hsplit, List.reverse_reverse]
  · obtain ⟨xs, c, rfl⟩ := List.eq_nil_or_concat path |>.resolve_left hne
    have hc : c ≠ '/' := by simpa [endsInSlash] using hslash
    simp [hc]
  · intro hmem
    simpa using List.mem_takeWhile_imp (List.mem_reverse.mp hmem)
  · cases hdrop : path.reverse.dropWhile (· ≠ '/') with
    | nil => exact Or.inl rfl
    | cons c rest =>
      have hc := List.head?_dropWhile_not (· ≠ '/') path.reverse
      rw [hdrop] at hc
      have hslash : c = '/' := by simpa using hc
      exact Or.inr ⟨rest.reverse, by rw [hslash, List.reverse_cons]⟩

namespace EndsWith

variable (h : EndsWith before name)
include h

theorem names : names (before ++ name) = names before ++ [name] := by
  have hname : name.splitOn '/' = [name] := List.splitOn_eq_singleton h.no_slash
  rcases h.before with rfl | ⟨b, rfl⟩
  · simp [Path.names, hname, h.ne_nil]
  · have hb : (b ++ ['/']).splitOn '/' = b.splitOn '/' ++ [[]] := by
      simpa using List.splitOn_append_cons_self b ([] : List Char)
    have hall : (b ++ ['/'] ++ name).splitOn '/' = b.splitOn '/' ++ [name] := by
      rw [List.append_assoc, List.singleton_append, List.splitOn_append_cons_self, hname]
    rw [Path.names, Path.names, hb, hall]
    simp [h.ne_nil]

theorem trimReversed (hname : name ≠ ['.']) :
    trimReversed (before ++ name).reverse = (before ++ name).reverse := by
  obtain ⟨xs, c, rfl⟩ := List.eq_nil_or_concat name |>.resolve_left h.ne_nil
  rw [List.concat_eq_append] at hname ⊢
  have hno : '/' ∉ xs ∧ '/' ≠ c := by simpa [List.concat_eq_append] using h.no_slash
  rw [← List.append_assoc, List.reverse_append, List.reverse_singleton, List.singleton_append]
  unfold Path.trimReversed
  split
  · next rest heq => exact absurd (List.cons.inj heq).1.symm hno.2
  · next rest heq =>
    -- a dot after a slash would be the whole name
    obtain ⟨rfl, hrest⟩ := List.cons.inj heq
    obtain ⟨ys, d, rfl⟩ := List.eq_nil_or_concat xs |>.resolve_left
      (fun hnil => hname (by rw [hnil, List.nil_append]))
    have hd : d = '/' := by simpa [List.concat_eq_append] using (congrArg List.head? hrest)
    exact absurd (by simp [List.concat_eq_append, hd]) hno.1
  · rfl

theorem splitLast (hname : name ≠ ['.']) : splitLast (before ++ name) = (before, name) := by
  have htake : (name.reverse ++ before.reverse).takeWhile (· ≠ '/') = name.reverse := by
    rw [takeWhile_reverse_append h.no_slash]
    rcases h.before with rfl | ⟨b, rfl⟩
    · simp
    · simp
  rw [Path.splitLast, h.trimReversed hname, List.reverse_append]
  simp only [htake]
  rw [List.drop_left, List.reverse_reverse, List.reverse_reverse]

/-- A path has one last name. -/
theorem inj {before' name' : List Char} (h' : EndsWith before' name') (hname : isDots name = false)
    (hname' : isDots name' = false) (heq : before ++ name = before' ++ name') :
    before = before' ∧ name = name' := by
  have hsplit := h.splitLast (ne_dot_of_isDots hname)
  rw [heq, h'.splitLast (ne_dot_of_isDots hname')] at hsplit
  exact ⟨(Prod.mk.inj hsplit).1.symm, (Prod.mk.inj hsplit).2.symm⟩

theorem hasFileName (hname : isDots name = false) : hasFileName (before ++ name) = true := by
  rw [Path.hasFileName, h.splitLast (ne_dot_of_isDots hname)]
  simp [h.ne_nil, hname]

end EndsWith

/-! ## Extensions -/

theorem take_stem (stem ext : List Char) :
    (stem ++ '.' :: ext).take ((stem ++ '.' :: ext).length - ext.length - 1) = stem := by
  have hlength : (stem ++ '.' :: ext).length - ext.length - 1 = stem.length := by
    rw [List.length_append, List.length_cons]
    omega
  rw [hlength, List.take_left]

/-- A name splits at its last dot into a stem and an extension, or it has none. -/
theorem splitDot_cases (name : List Char) : splitDot name = (name, none) ∨
    ∃ stem ext, splitDot name = (stem, some ext) ∧ name = stem ++ '.' :: ext ∧ stem ≠ [] := by
  unfold splitDot
  simp only
  split
  · exact Or.inl rfl
  · next h =>
    rw [Bool.or_eq_true, not_or, decide_eq_true_eq, decide_eq_true_eq] at h
    obtain ⟨hlength, hstem⟩ := h
    refine Or.inr ⟨_, _, rfl, ?_, hstem⟩
    -- what stands before the extension ends in the last dot
    have hsplit : name.reverse.takeWhile (· ≠ '.') ++ name.reverse.dropWhile (· ≠ '.') =
        name.reverse := List.takeWhile_append_dropWhile
    cases hdrop : name.reverse.dropWhile (· ≠ '.') with
    | nil =>
      rw [hdrop, List.append_nil] at hsplit
      exact absurd (by rw [hsplit, List.length_reverse, List.length_reverse]) hlength
    | cons c rest =>
      have hc := List.head?_dropWhile_not (· ≠ '.') name.reverse
      rw [hdrop] at hc
      obtain rfl : c = '.' := by simpa using hc
      have hname : name = rest.reverse ++ '.' :: (name.reverse.takeWhile (· ≠ '.')).reverse := by
        have hreverse := congrArg List.reverse hsplit
        rw [hdrop, List.reverse_append, List.reverse_cons, List.reverse_reverse, List.append_assoc]
          at hreverse
        exact hreverse.symm
      generalize (name.reverse.takeWhile (· ≠ '.')).reverse = ext at hname ⊢
      subst hname
      rw [take_stem]

theorem splitDot_append (hstem : stem ≠ []) (hext : '.' ∉ ext) :
    splitDot (stem ++ '.' :: ext) = (stem, some ext) := by
  have htake : ((stem ++ '.' :: ext).reverse.takeWhile (· ≠ '.')).reverse = ext := by
    rw [List.reverse_append, List.reverse_cons, List.append_assoc, takeWhile_reverse_append hext]
    simp
  have hlonger : ext.length ≠ (stem ++ '.' :: ext).length := by
    rw [List.length_append, List.length_cons]
    omega
  unfold splitDot
  simp only [htake, take_stem, hlonger, hstem, decide_false, Bool.or_self, Bool.false_eq_true,
    if_false]

/-- The stem of a name is not empty and has only characters of the name. -/
theorem stem_spec (hname : name ≠ []) :
    (splitDot name).1 ≠ [] ∧ ∀ c ∈ (splitDot name).1, c ∈ name := by
  rcases splitDot_cases name with h | ⟨stem, ext, h, rfl, hstem⟩
  · rw [h]
    exact ⟨hname, fun c hc => hc⟩
  · rw [h]
    exact ⟨hstem, fun c hc => List.mem_append_left _ hc⟩

/-- A name with another extension. -/
def renamed (name ext : List Char) : List Char :=
  (splitDot name).1 ++ '.' :: ext

theorem renamed_eq_self_iff (hname : name ≠ []) (hext : '.' ∉ ext) :
    renamed name ext = name ↔ (splitDot name).2 = some ext := by
  constructor
  · intro h
    rw [← h, renamed, splitDot_append (stem_spec hname).1 hext]
  · intro h
    rcases splitDot_cases name with hnone | ⟨stem, ext', hsome, hsplit, _⟩
    · simp [hnone] at h
    · rw [hsome] at h
      rw [renamed, hsome, hsplit, Option.some.inj h]

theorem isDots_renamed (hname : name ≠ []) (hext : ext ≠ []) :
    isDots (renamed name ext) = false := by
  have hstem : 0 < (splitDot name).1.length := List.length_pos_iff.mpr (stem_spec hname).1
  have hlong : 0 < ext.length := List.length_pos_iff.mpr hext
  have hlength : (renamed name ext).length = (splitDot name).1.length + (ext.length + 1) := by
    simp [renamed]
  have hone : renamed name ext ≠ ['.'] := by
    intro h
    have : (renamed name ext).length = 1 := by rw [h]; rfl
    omega
  have htwo : renamed name ext ≠ ['.', '.'] := by
    intro h
    have : (renamed name ext).length = 2 := by rw [h]; rfl
    omega
  simp [isDots, hone, htwo]

namespace EndsWith

variable (h : EndsWith before name)
include h

theorem renamed (hext : '/' ∉ ext) : EndsWith before (renamed name ext) where
  ne_nil := by simp [Path.renamed]
  no_slash := by
    have hstem : '/' ∉ (splitDot name).1 := fun hmem => h.no_slash ((stem_spec h.ne_nil).2 _ hmem)
    simp [Path.renamed, hstem, hext]
  before := h.before

theorem extension? (hname : isDots name = false) :
    extension? (before ++ name) = (splitDot name).2 := by
  rw [Path.extension?, if_pos (h.hasFileName hname), h.splitLast (ne_dot_of_isDots hname)]

/-- Another extension changes the last name only. -/
theorem withExtension (hname : isDots name = false) (ext : List Char) :
    withExtension (before ++ name) ext = before ++ Path.renamed name ext := by
  rw [Path.withExtension, h.splitLast (ne_dot_of_isDots hname)]
  simp [h.hasFileName hname, Path.renamed]

end EndsWith

example :
    withExtension "state/relay.v2.json".toList "tmp".toList = "state/relay.v2.tmp".toList := by
  decide

end ChangeRelay.Path

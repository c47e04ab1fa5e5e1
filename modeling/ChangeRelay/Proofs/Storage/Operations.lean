import ChangeRelay.Proofs.Storage.FileTree
import ChangeRelay.Proofs.Storage.Path
/-!
# Creating, renaming and removing files

In a lawful tree every name leads to a node, what stands above a directory is a directory, and no
file has two names; a tree of which the first is known is linked. The operations keep trees lawful
and linked. Creating a file leaves every other file where it is, and renaming puts it, as it is, at
its new path.
-/

namespace ChangeRelay.FileTree

variable {t t' u : FileTree} {n m d dir : ℕ} {name : List Char} {path old new : String}
  {s : String} {b : List UInt8}

/-! ## Lawful trees -/

/-- No name leads astray, and no file has two names. -/
structure Lawful (t : FileTree) : Prop where
  entry_lt : ∀ d s n, t.target? d s = some n → n < t.nodes.length
  parent_isDirectory : ∀ d p, t.parent? d = some p → t.isDirectory p = true
  one_name : ∀ d s d' s' n, t.target? d s = some n → t.target? d' s' = some n →
    t.isDirectory n = false → d = d' ∧ s = s'

theorem lawful_empty : Lawful empty := by
  have htarget {d : ℕ} {s : String} {n : ℕ} (h : empty.target? d s = some n) :
      d = 0 ∧ s = "work" ∧ n = 1 := by
    rcases d with _ | _ | d
    · have hlookup : List.lookup s [("work", 1)] = some n := h
      rw [List.lookup_cons] at hlookup
      split at hlookup
      · next heq => exact ⟨rfl, beq_iff_eq.mp heq, (Option.some.inj hlookup).symm⟩
      · simp at hlookup
    · simp [target?, node?, empty] at h
    · simp [target?, node?, empty] at h
  constructor
  case entry_lt =>
    intro d s n h
    obtain ⟨_, _, rfl⟩ := htarget h
    decide
  case parent_isDirectory =>
    intro d p h
    rcases d with _ | _ | d
    · obtain rfl : 0 = p := Option.some.inj h
      rfl
    · obtain rfl : 0 = p := Option.some.inj h
      rfl
    · simp [parent?, node?, empty] at h
  case one_name =>
    intro d s d' s' n h h' _
    obtain ⟨rfl, rfl, _⟩ := htarget h
    obtain ⟨rfl, rfl, _⟩ := htarget h'
    exact ⟨rfl, rfl⟩

/-- Every name leads to a node. This is less than `Lawful`: a file may have several names. -/
def Linked (t : FileTree) : Prop :=
  ∀ d s n, t.target? d s = some n → n < t.nodes.length

theorem Lawful.linked (hlaw : Lawful t) : Linked t :=
  hlaw.entry_lt

theorem Linked.fills (hlinked : Linked t) (h : Fills t t' n b) : Linked t' := by
  intro d s m hm
  rw [h.entry] at hm
  exact Nat.lt_of_lt_of_le (hlinked d s m hm) h.size.1

/-- A name may be taken away, or lead to any node. -/
theorem Linked.rebinds {target : Option ℕ} (hlinked : Linked t) (h : Rebinds t t' dir s target)
    (htarget : ∀ n, target = some n → n < t.nodes.length) : Linked t' := by
  intro d s' m hm
  rw [h.size]
  rw [h.entry] at hm
  split at hm
  · exact htarget m hm
  · exact hlinked d s' m hm

theorem Lawful.fills (hlaw : Lawful t) (h : Fills t t' n b) : Lawful t' where
  entry_lt := hlaw.linked.fills h
  parent_isDirectory d p hp := by
    rw [h.parent] at hp
    rw [isDirectory_congr h.parent]
    exact hlaw.parent_isDirectory d p hp
  one_name d s d' s' m hm hm' hfile := by
    rw [h.entry] at hm hm'
    rw [isDirectory_congr h.parent] at hfile
    exact hlaw.one_name d s d' s' m hm hm' hfile

/-- A name may be taken away, or lead to a node that no name leads to. -/
theorem Lawful.rebinds {target : Option ℕ} (hlaw : Lawful t) (h : Rebinds t t' dir s target)
    (htarget : ∀ n, target = some n → n < t.nodes.length ∧ ∀ d s', t.target? d s' ≠ some n) :
    Lawful t' where
  entry_lt := hlaw.linked.rebinds h fun n hn => (htarget n hn).1
  parent_isDirectory d p hp := by
    rw [h.parent] at hp
    rw [isDirectory_congr h.parent]
    exact hlaw.parent_isDirectory d p hp
  one_name d s₁ d' s₂ m hm hm' hfile := by
    rw [isDirectory_congr h.parent] at hfile
    rw [h.entry] at hm hm'
    split at hm <;> split at hm'
    · next h₁ h₂ => exact ⟨h₁.1.trans h₂.1.symm, h₁.2.trans h₂.2.symm⟩
    · exact absurd hm' ((htarget m hm).2 d' s₂)
    · exact absurd hm ((htarget m hm').2 d s₁)
    · exact hlaw.one_name d s₁ d' s₂ m hm hm' hfile

/-- The name of a place is the last one of its path. -/
theorem endsWith_of_place (hplace : t.place path = .ok (dir, some name))
    (hends : Path.endsInSlash path.toList = false) :
    ∃ before, path.toList = before ++ name ∧ Path.EndsWith before name := by
  obtain ⟨start, names, hroute, _⟩ := place_eq_ok_iff.mp hplace
  obtain ⟨hne, hnames⟩ := route_eq_ok hroute
  obtain ⟨before, last, hpath, hlast⟩ := Path.exists_endsWith hne hends
  rw [hpath, hlast.names] at hnames
  obtain ⟨_, hname⟩ := List.append_inj' hnames rfl
  obtain rfl : name = last := by simpa using hname
  exact ⟨before, hpath, hlast⟩

/-- A directory, or the one above it, is no file. -/
theorem Lawful.not_dots (hlaw : Lawful t) (h : t.child d name = .ok n)
    (hfile : t.isDirectory n = false) : Path.isDots name = false := by
  by_contra hdots
  have hd := isDirectory_of_child h
  obtain ⟨p, hp⟩ := isDirectory_iff.mp hd
  have hparent := hlaw.parent_isDirectory d p hp
  rw [child_eq, hp] at h
  rcases Path.isDots_iff.mp (by simpa using hdots) with rfl | rfl
  · obtain rfl : d = n := by simpa using h
    simp [hd] at hfile
  · obtain rfl : p = n := by simpa using h
    simp [hparent] at hfile

/-- A path that finds a file has a last name of its own, which leads to it. -/
theorem Lawful.entry_of_find (hlaw : Lawful t) (h : t.find path = .ok n)
    (hfile : t.isDirectory n = false) : ∃ before name dir, path.toList = before ++ name ∧
      Path.EndsWith before name ∧ Path.isDots name = false ∧
      t.target? dir (String.ofList name) = some n := by
  obtain ⟨start, names, hroute, hwalk, hslash⟩ := find_eq_ok_iff.mp h
  have hends : Path.endsInSlash path.toList = false := by
    by_contra hends
    have hdirectory := hslash (by simpa using hends)
    simp [hfile] at hdirectory
  obtain ⟨hne, hnames⟩ := route_eq_ok hroute
  obtain ⟨before, name, hpath, hlast⟩ := Path.exists_endsWith hne hends
  rw [hpath, hlast.names] at hnames
  rw [hnames, walk_concat] at hwalk
  cases hbefore : t.walk start (Path.names before) with
  | error e => simp [hbefore, bind, Except.bind] at hwalk
  | ok dir =>
    rw [hbefore] at hwalk
    have hchild : t.child dir name = .ok n := hwalk
    have hdots := hlaw.not_dots hchild hfile
    exact ⟨before, name, dir, hpath, hlast, hdots, ((child_eq_ok_iff hdots).mp hchild).2⟩

/-- A path and its like with another extension find one file only when they are the same. -/
theorem Lawful.eq_of_find {side : String} {ext : List Char} (hlaw : Lawful t)
    (hside : side.toList = Path.withExtension path.toList ext) (hext : '/' ∉ ext) (hne : ext ≠ [])
    (hfind : t.find path = .ok n) (hfound : t.find side = .ok n) (hfile : t.isDirectory n = false) :
    side = path := by
  obtain ⟨before, name, dir, hpath, hlast, hdots, hentry⟩ := hlaw.entry_of_find hfind hfile
  obtain ⟨before', name', dir', hpath', hlast', hdots', hentry'⟩ := hlaw.entry_of_find hfound hfile
  -- the file has one name
  obtain ⟨_, hnames⟩ := hlaw.one_name _ _ _ _ _ hentry hentry' hfile
  have hname : name = name' := by simpa using congrArg String.toList hnames
  have hsplit : before ++ Path.renamed name ext = before' ++ name' := by
    rw [← hlast.withExtension hdots, ← hpath, ← hside, hpath']
  obtain ⟨hbefore, _⟩ := (hlast.renamed hext).inj hlast' (Path.isDots_renamed hlast.ne_nil hne)
    hdots' hsplit
  rw [← String.toList_inj, hpath', hpath, hbefore, hname]

/-! ## Creating a file -/

/-- `t'` is `t` with the file `n` in it, which may be new, and nothing else changed. -/
structure Beside (n : ℕ) (t t' : FileTree) : Prop where
  working : t'.working = t.working
  parent : t'.parent? = t.parent?
  kept : ∀ d s m, t.target? d s = some m → t'.target? d s = some m
  fresh : ∀ d s m, t'.target? d s = some m → m = n ∨ t.target? d s = some m
  others : ∀ m ≠ n, t'.content? m = t.content? m
  file : t'.isDirectory n = false

namespace Beside

theorem trans (h : Beside n t u) (h' : Beside n u t') : Beside n t t' where
  working := h'.working.trans h.working
  parent := h'.parent.trans h.parent
  kept d s m hm := h'.kept d s m (h.kept d s m hm)
  fresh d s m hm := (h'.fresh d s m hm).elim Or.inl (h.fresh d s m)
  others m hm := (h'.others m hm).trans (h.others m hm)
  file := h'.file

theorem of_fills (h : Fills t t' n b) : Beside n t t' where
  working := h.working
  parent := h.parent
  kept d s m hm := by rw [h.entry, hm]
  fresh d s m hm := Or.inr (by rw [← h.entry, hm])
  others := h.others
  file := by
    rw [isDirectory, content?_eq_some_iff.mp h.content]

theorem of_rebinds (h : Rebinds t t' dir s (some n)) (hnone : t.target? dir s = none)
    (hfile : t.isDirectory n = false) : Beside n t t' where
  working := h.working
  parent := h.parent
  kept d s' m hm := by
    rw [h.entry, if_neg, hm]
    rintro ⟨rfl, rfl⟩
    simp [hnone] at hm
  fresh d s' m hm := by
    rw [h.entry] at hm
    split at hm
    · exact Or.inl (Option.some.inj hm).symm
    · exact Or.inr hm
  others m _ := by rw [h.content]
  file := by rw [isDirectory_congr h.parent, hfile]

variable (h : Beside n t t')
include h

theorem keepsDirectories : KeepsDirectories t t' where
  working := h.working
  parent := h.parent
  entry d s m hm _ := h.kept d s m hm

theorem child (hchild : t.child d name = .ok m) : t'.child d name = .ok m :=
  child_of_entry h.parent (h.kept _ _ _) hchild

theorem eq_or_child (hchild : t'.child d name = .ok m) : m = n ∨ t.child d name = .ok m := by
  by_cases hm : m = n
  · exact Or.inl hm
  · exact Or.inr <|
      child_of_entry h.parent.symm (fun he => (h.fresh _ _ _ he).resolve_left hm) hchild

theorem walk {names : List (List Char)} (hwalk : t.walk d names = .ok m) :
    t'.walk d names = .ok m := by
  induction names generalizing d with
  | nil => exact hwalk
  | cons a names ih =>
    obtain ⟨e, hchild, hrest⟩ := walk_cons_eq_ok_iff.mp hwalk
    exact walk_cons_eq_ok_iff.mpr ⟨e, h.child hchild, ih hrest⟩

/-- A walk that does not end at the new file does not pass it, since it is no directory. -/
theorem eq_or_walk {names : List (List Char)} (hwalk : t'.walk d names = .ok m) :
    m = n ∨ t.walk d names = .ok m := by
  induction names generalizing d with
  | nil => exact Or.inr hwalk
  | cons a names ih =>
    obtain ⟨e, hchild, hrest⟩ := walk_cons_eq_ok_iff.mp hwalk
    rcases h.eq_or_child hchild with rfl | hold
    · cases names with
      | nil => exact Or.inl (Except.ok.inj hrest).symm
      | cons a' names =>
        obtain ⟨_, hnext, _⟩ := walk_cons_eq_ok_iff.mp hrest
        have := isDirectory_of_child hnext
        simp [h.file] at this
    · exact (ih hrest).imp_right fun hw => walk_cons_eq_ok_iff.mpr ⟨e, hold, hw⟩

/-- A path that does not find the new file finds what it found before. -/
theorem find_iff (hne : t'.find path ≠ .ok n) : t'.find path = .ok m ↔ t.find path = .ok m := by
  constructor
  · intro hfind
    have hm : m ≠ n := by
      rintro rfl
      exact hne hfind
    obtain ⟨start, names, hroute, hwalk, hslash⟩ := find_eq_ok_iff.mp hfind
    refine find_eq_ok_iff.mpr ⟨start, names, ?_, (h.eq_or_walk hwalk).resolve_left hm, ?_⟩
    · rw [← route_congr h.working, hroute]
    · rwa [← isDirectory_congr h.parent]
  · intro hfind
    obtain ⟨start, names, hroute, hwalk, hslash⟩ := find_eq_ok_iff.mp hfind
    refine find_eq_ok_iff.mpr ⟨start, names, ?_, h.walk hwalk, ?_⟩
    · rw [route_congr h.working, hroute]
    · rwa [isDirectory_congr h.parent]

end Beside

/-- A file can be created at the path. -/
def Creatable (t : FileTree) (path : String) : Prop :=
  ∃ n t', t.create path = .ok (n, t')

theorem create_cases (h : t.create path = .ok (n, t')) : ∃ dir name,
    t.place path = .ok (dir, some name) ∧ Path.endsInSlash path.toList = false ∧
      ((t.child dir name = .ok n ∧ t.isDirectory n = false ∧ t' = t.setNode n (.file [])) ∨
        (t.child dir name = .error .notFound ∧
          (n, t') = t.add dir (String.ofList name) (.file []))) := by
  unfold create at h
  cases hplace : t.place path with
  | error e => simp [hplace, bind, Except.bind] at h
  | ok place =>
    obtain ⟨dir, name?⟩ := place
    simp only [hplace, bind, Except.bind] at h
    cases name? with
    | none => simp at h
    | some name =>
      simp only at h
      split at h
      · simp at h
      · next hslash =>
        refine ⟨dir, name, rfl, by simpa using hslash, ?_⟩
        split at h
        · next m hchild =>
          split at h
          · simp at h
          · next hfile =>
            obtain ⟨rfl, rfl⟩ := Prod.mk.inj (Except.ok.inj h)
            exact Or.inl ⟨hchild, by simpa using hfile, rfl⟩
        · next hchild => exact Or.inr ⟨hchild, (Except.ok.inj h).symm⟩
        · simp at h

/-- What creating a file does: the file at the path is cut off, or its name leads to a new one. -/
theorem Linked.create_cases (hlinked : Linked t) (h : t.create path = .ok (n, t')) :
    t'.find path = .ok n ∧ (Fills t t' n [] ∨ ∃ u dir s, Fills t u n [] ∧ u.isDirectory n = false ∧
      Rebinds u t' dir s (some n) ∧ t.target? dir s = none ∧ ∀ d s, t.target? d s ≠ some n) := by
  obtain ⟨dir, name, hplace, hslash, hcase⟩ := FileTree.create_cases h
  obtain ⟨_, _, _, _, hdir, hdots⟩ := place_eq_ok_iff.mp hplace
  have hfind (hkeeps : KeepsDirectories t t') (hchild : t'.child dir name = .ok n) :
      t'.find path = .ok n :=
    (find_of_place (hkeeps.place hplace)).mpr ⟨hchild, fun hends => by simp [hslash] at hends⟩
  rcases hcase with ⟨hchild, hfile, rfl⟩ | ⟨hchild, hadd⟩
  · obtain ⟨_, hentry⟩ := (child_eq_ok_iff hdots).mp hchild
    have hfills := fills_setNode hfile (hlinked _ _ _ hentry) []
    have hbeside := Beside.of_fills hfills
    exact ⟨hfind hbeside.keepsDirectories (hbeside.child hchild), .inl hfills⟩
  · obtain ⟨hshort, hnone⟩ := target?_eq_none_of_child hdots hchild
    obtain ⟨rfl, rfl⟩ := Prod.mk.inj hadd
    have hfills := fills_append t []
    have hbeside := Beside.of_fills hfills
    have hrebinds := rebinds_link (by rw [isDirectory_congr hfills.parent, hdir])
      (String.ofList name) t.nodes.length (t := { t with nodes := t.nodes ++ [.file []] })
    have hnew (d : ℕ) (s : String) : t.target? d s ≠ some t.nodes.length := by
      intro hold
      exact absurd (hlinked d s _ hold) (Nat.lt_irrefl _)
    have hchild' : FileTree.child _ dir name = .ok t.nodes.length :=
      (child_eq_ok_iff hdots).mpr ⟨hshort, by rw [hrebinds.entry, if_pos ⟨rfl, rfl⟩]⟩
    refine ⟨hfind (hbeside.trans (.of_rebinds hrebinds ?_ hbeside.file)).keepsDirectories hchild',
      .inr ⟨_, dir, _, hfills, hbeside.file, hrebinds, hnone, hnew⟩⟩
    rw [hfills.entry, hnone]

/-- A created file is empty, its path finds it, and everything else is as it was. -/
theorem Linked.create (hlinked : Linked t) (h : t.create path = .ok (n, t')) :
    Linked t' ∧ Beside n t t' ∧ t'.find path = .ok n ∧ t'.content? n = some [] := by
  obtain ⟨hfind, hfills | ⟨u, dir, s, hfills, hfile, hrebinds, hnone, _⟩⟩ := hlinked.create_cases h
  · exact ⟨hlinked.fills hfills, .of_fills hfills, hfind, hfills.content⟩
  · refine ⟨(hlinked.fills hfills).rebinds hrebinds fun m hm => ?_,
      (Beside.of_fills hfills).trans (.of_rebinds hrebinds ?_ hfile), hfind, ?_⟩
    · obtain rfl := Option.some.inj hm
      exact hfills.size.2
    · rw [hfills.entry, hnone]
    · rw [hrebinds.content, hfills.content]

theorem Lawful.create (hlaw : Lawful t) (h : t.create path = .ok (n, t')) :
    Lawful t' ∧ Beside n t t' ∧ t'.find path = .ok n ∧ t'.content? n = some [] := by
  obtain ⟨_, hspec⟩ := hlaw.linked.create h
  refine ⟨?_, hspec⟩
  obtain ⟨_, hfills | ⟨u, dir, s, hfills, _, hrebinds, _, hnew⟩⟩ := hlaw.linked.create_cases h
  · exact hlaw.fills hfills
  · refine (hlaw.fills hfills).rebinds hrebinds fun m hm => ?_
    obtain rfl := Option.some.inj hm
    exact ⟨hfills.size.2, fun d s => by rw [hfills.entry]; exact hnew d s⟩

theorem write_cases (t : FileTree) (n : ℕ) (b : List UInt8) :
    t.write n b = t ∨ ∃ old, Fills t (t.write n b) n (overwrite old b) := by
  cases hold : t.content? n with
  | some old => exact .inr ⟨old, fills_write hold b⟩
  | none =>
    left
    unfold FileTree.write
    split
    · next old hnode => simp [content?_eq_some_iff.mpr hnode] at hold
    · rfl

theorem Linked.write (hlinked : Linked t) (n : ℕ) (b : List UInt8) : Linked (t.write n b) := by
  rcases write_cases t n b with heq | ⟨old, hfills⟩
  · rwa [heq]
  · exact hlinked.fills hfills

theorem Lawful.write (hlaw : Lawful t) (n : ℕ) (b : List UInt8) : Lawful (t.write n b) := by
  rcases write_cases t n b with heq | ⟨old, hfills⟩
  · rwa [heq]
  · exact hlaw.fills hfills

/-- A directory without entries, not yet under a name, keeps a tree lawful and hides no other. -/
theorem Lawful.append_directory (hlaw : Lawful t) (hdir : t.isDirectory dir = true)
    (hu : u = { t with nodes := t.nodes ++ [.directory dir []] }) :
    Lawful u ∧ (∀ m, t.isDirectory m = true → u.isDirectory m = true) ∧
      ∀ d s k, u.target? d s = some k → t.target? d s = some k := by
  have hnode (m : ℕ) : u.node? m =
      if m = t.nodes.length then some (.directory dir []) else t.node? m := by
    rw [hu]
    exact node?_append t _ m
  have hsize : u.nodes.length = t.nodes.length + 1 := by
    rw [hu, List.length_append, List.length_singleton]
  have hparent (m p : ℕ) (hp : u.parent? m = some p) : p = dir ∨ t.parent? m = some p := by
    rw [parent?, hnode] at hp
    by_cases hm : m = t.nodes.length
    · exact .inl (by simpa [hm] using hp.symm)
    · exact .inr (by simpa [hm, parent?] using hp)
  have htarget (m : ℕ) (s : String) (k : ℕ) (hk : u.target? m s = some k) :
      t.target? m s = some k := by
    rw [target?, hnode] at hk
    by_cases hm : m = t.nodes.length
    · simp [hm] at hk
    · simpa [hm, target?] using hk
  have hdirectory (m : ℕ) (hm : t.isDirectory m = true) : u.isDirectory m = true := by
    by_cases hlast : m = t.nodes.length
    · rw [isDirectory, hnode, if_pos hlast]
    · rw [isDirectory, hnode, if_neg hlast]
      exact hm
  refine ⟨⟨fun d s k hk => ?_, fun d p hp => ?_, fun d s d' s' k hk hk' hfile => ?_⟩, hdirectory,
    htarget⟩
  · have := hlaw.entry_lt d s k (htarget d s k hk)
    omega
  · rcases hparent d p hp with rfl | hold
    · exact hdirectory p hdir
    · exact hdirectory p (hlaw.parent_isDirectory d p hold)
  · refine hlaw.one_name d s d' s' k (htarget d s k hk) (htarget d' s' k hk') ?_
    by_contra hold
    rw [hdirectory k (by simpa using hold)] at hfile
    simp at hfile

theorem Lawful.makeDirectory (hlaw : Lawful t) (h : t.makeDirectory path = .ok t') : Lawful t' := by
  unfold FileTree.makeDirectory at h
  cases hplace : t.place path with
  | error e => simp [hplace, bind, Except.bind] at h
  | ok place =>
  obtain ⟨dir, name?⟩ := place
  simp only [hplace, bind, Except.bind] at h
  split at h
  · simp at h
  · next name =>
    obtain ⟨_, _, _, _, hdir, _⟩ := place_eq_ok_iff.mp hplace
    split at h
    · simp at h
    · obtain rfl := Except.ok.inj h
      obtain ⟨hlawful, hdirectory, htarget⟩ := hlaw.append_directory hdir rfl
      refine hlawful.rebinds (rebinds_link (hdirectory dir hdir) _ _) fun k hk => ?_
      obtain rfl := Option.some.inj hk
      refine ⟨by simp, fun d s hold => ?_⟩
      exact absurd (hlaw.entry_lt d s _ (htarget d s _ hold)) (Nat.lt_irrefl _)
    · simp at h

theorem Lawful.plant (hlaw : Lawful t) (path : String) (content : Option (List UInt8)) :
    Lawful (t.plant path content) := by
  have hwrite (b : List UInt8) {t' : FileTree} (h : t.writeFile path b = .ok t') : Lawful t' := by
    unfold writeFile at h
    cases hcreate : t.create path with
    | error e => simp [hcreate, bind, Except.bind] at h
    | ok r =>
      rw [hcreate] at h
      obtain rfl := Except.ok.inj h
      exact (hlaw.create hcreate).1.write _ b
  unfold FileTree.plant
  cases content with
  | some b =>
    simp only
    split
    · next t' h => exact hwrite b h
    · exact hlaw
  | none =>
    simp only
    split
    · next t' h => exact hlaw.makeDirectory h
    · exact hlaw

/-! ## Renaming and removing a file -/

theorem rename_cases (h : t.rename old new = .ok t') : ∃ oldDir oldName newDir newName n,
    t.place old = .ok (oldDir, some oldName) ∧ t.place new = .ok (newDir, some newName) ∧
      t.find old = .ok n ∧ (Path.endsInSlash new.toList = true → t.isDirectory n = true) ∧
      ((t.child newDir newName = .ok n ∧ t' = t) ∨
        ((t.child newDir newName = .error .notFound ∨
            ∃ m, t.child newDir newName = .ok m ∧ m ≠ n ∧ t.isDirectory m = false) ∧
          t' =
            (t.unlink oldDir (String.ofList oldName)).link newDir (String.ofList newName) n)) := by
  unfold rename at h
  cases hold : t.place old with
  | error e => simp [hold, bind, Except.bind] at h
  | ok oldPlace =>
  cases hnew : t.place new with
  | error e => simp [hold, hnew, bind, Except.bind] at h
  | ok newPlace =>
  cases hfind : t.find old with
  | error e => simp [hold, hnew, hfind, bind, Except.bind] at h
  | ok n =>
  obtain ⟨oldDir, oldName?⟩ := oldPlace
  obtain ⟨newDir, newName?⟩ := newPlace
  simp only [hold, hnew, hfind, bind, Except.bind] at h
  split at h
  · next oldName newName =>
    split at h
    · simp at h
    · next hslash =>
      refine ⟨oldDir, oldName, newDir, newName, n, rfl, rfl, rfl, fun hends => ?_, ?_⟩
      · simpa [hends] using hslash
      · split at h
        · next m hchild =>
          split at h
          · next heq =>
            subst heq
            exact Or.inl ⟨hchild, (Except.ok.inj h).symm⟩
          · next hne =>
            split at h
            · simp at h
            · next hfile =>
              exact Or.inr ⟨Or.inr ⟨m, hchild, hne, by simpa using hfile⟩,
                (Except.ok.inj h).symm⟩
        · next hchild => exact Or.inr ⟨Or.inl hchild, (Except.ok.inj h).symm⟩
        · simp at h
  · simp at h

/-- Where a file's name is taken away, and a name that leads to no directory is given to it, every
directory stays in its place. -/
theorem keepsDirectories_of_move {oldName newName : String} {oldDir newDir : ℕ}
    (hentry : t.target? oldDir oldName = some n) (hfile : t.isDirectory n = false)
    (hfree : ∀ k, t.target? newDir newName = some k → t.isDirectory k = false)
    (hunlink : Rebinds t u oldDir oldName none) (hlink : Rebinds u t' newDir newName (some n)) :
    KeepsDirectories t t' := by
  refine ⟨hlink.working.trans hunlink.working, hlink.parent.trans hunlink.parent,
    fun d s k hk hdirectory => ?_⟩
  rw [hlink.entry, if_neg, hunlink.entry, if_neg, hk]
  · rintro ⟨rfl, rfl⟩
    obtain rfl : k = n := Option.some.inj (hk.symm.trans hentry)
    simp [hfile] at hdirectory
  · rintro ⟨rfl, rfl⟩
    simp [hfree k hk] at hdirectory

/-- Renaming a file moves it to the place of its new path, unless it is there already. -/
theorem rename_moves (h : t.rename old new = .ok t') (hfind : t.find old = .ok n)
    (hfile : t.isDirectory n = false) : ∃ oldDir oldName newDir newName,
      t.place old = .ok (oldDir, some oldName) ∧ t.place new = .ok (newDir, some newName) ∧
        t.target? oldDir (String.ofList oldName) = some n ∧
        ((t.find new = .ok n ∧ t' = t) ∨ (t'.find new = .ok n ∧ KeepsDirectories t t' ∧
          ∃ u, Rebinds t u oldDir (String.ofList oldName) none ∧
            Rebinds u t' newDir (String.ofList newName) (some n))) := by
  obtain ⟨oldDir, oldName, newDir, newName, m, hold, hnew, hfound, hslash, hcase⟩ := rename_cases h
  obtain rfl : m = n := Except.ok.inj (hfound.symm.trans hfind)
  obtain ⟨_, _, _, _, holdDir, holdDots⟩ := place_eq_ok_iff.mp hold
  obtain ⟨_, _, _, _, hnewDir, hnewDots⟩ := place_eq_ok_iff.mp hnew
  have hends : Path.endsInSlash new.toList = false := by
    by_contra hends
    have := hslash (by simpa using hends)
    simp [hfile] at this
  have hentry : t.target? oldDir (String.ofList oldName) = some m :=
    ((child_eq_ok_iff holdDots).mp ((find_of_place hold).mp hfind).1).2
  refine ⟨oldDir, oldName, newDir, newName, hold, hnew, hentry, ?_⟩
  rcases hcase with ⟨hchild, rfl⟩ | ⟨hfree, rfl⟩
  · exact .inl ⟨(find_of_place hnew).mpr ⟨hchild, fun h => by simp [hends] at h⟩, rfl⟩
  · have hunlink := rebinds_unlink holdDir (String.ofList oldName)
    have hlink := rebinds_link (by rw [isDirectory_congr hunlink.parent, hnewDir])
      (String.ofList newName) m (t := t.unlink oldDir (String.ofList oldName))
    -- the name that is given to the file led to another one or nowhere
    have hshort : Utf8.byteLength newName ≤ Path.nameLimit ∧
        ∀ k, t.target? newDir (String.ofList newName) = some k → t.isDirectory k = false := by
      rcases hfree with hfree | ⟨target, hchild, _, htarget⟩
      · obtain ⟨hshort, hnone⟩ := target?_eq_none_of_child hnewDots hfree
        exact ⟨hshort, fun k hk => by simp [hnone] at hk⟩
      · obtain ⟨hshort, hsome⟩ := (child_eq_ok_iff hnewDots).mp hchild
        exact ⟨hshort, fun k hk => Option.some.inj (hsome.symm.trans hk) ▸ htarget⟩
    have hkeeps := keepsDirectories_of_move hentry hfile hshort.2 hunlink hlink
    refine .inr ⟨(find_of_place (hkeeps.place hnew)).mpr ⟨?_, fun h => by simp [hends] at h⟩,
      hkeeps, _, hunlink, hlink⟩
    exact (child_eq_ok_iff hnewDots).mpr ⟨hshort.1, by rw [hlink.entry, if_pos ⟨rfl, rfl⟩]⟩

/-- What renaming a file does: its name is taken away, and its new path leads to it; when it is
there already, nothing changes. -/
theorem rename_file (h : t.rename old new = .ok t') (hfind : t.find old = .ok n)
    (hfile : t.isDirectory n = false) : t'.find new = .ok n ∧ t'.content? = t.content? ∧
      (t' = t ∨ ∃ u oldDir oldName newDir newName, t.target? oldDir oldName = some n ∧
        Rebinds t u oldDir oldName none ∧ Rebinds u t' newDir newName (some n)) := by
  obtain ⟨oldDir, oldName, newDir, newName, _, _, hentry, ⟨hfound, rfl⟩ |
    ⟨hfound, _, u, hunlink, hlink⟩⟩ := rename_moves h hfind hfile
  · exact ⟨hfound, rfl, .inl rfl⟩
  · exact ⟨hfound, hlink.content.trans hunlink.content,
      .inr ⟨u, oldDir, _, newDir, _, hentry, hunlink, hlink⟩⟩

/-- Nothing is found where a file was, once it has been renamed. -/
theorem find_ne_of_rename (h : t.rename old new = .ok t') (hfind : t.find old = .ok n)
    (hfile : t.isDirectory n = false) (hapart : t.find new ≠ .ok n) (m : ℕ) :
    t'.find old ≠ .ok m := by
  obtain ⟨oldDir, oldName, newDir, newName, hold, hnew, hentry, ⟨hfound, rfl⟩ |
    ⟨hmoved, hkeeps, u, hunlink, hlink⟩⟩ := rename_moves h hfind hfile
  · exact absurd hfound hapart
  · obtain ⟨_, _, _, _, _, holdDots⟩ := place_eq_ok_iff.mp hold
    intro hfound
    have hchild := ((find_of_place (hkeeps.place hold)).mp hfound).1
    have hleft := ((child_eq_ok_iff holdDots).mp hchild).2
    rw [hlink.entry] at hleft
    split at hleft
    · next hsame =>
      -- the new path would have been the old one
      obtain rfl : newDir = oldDir := hsame.1.symm
      obtain rfl : newName = oldName := by simpa using (congrArg String.toList hsame.2).symm
      have hslash := ((find_of_place (hkeeps.place hnew)).mp hmoved).2
      rw [isDirectory_congr hkeeps.parent] at hslash
      exact hapart ((find_of_place hnew).mpr ⟨((find_of_place hold).mp hfind).1, hslash⟩)
    · rw [hunlink.entry, if_pos ⟨rfl, rfl⟩] at hleft
      simp at hleft

theorem Linked.rename (hlinked : Linked t) (h : t.rename old new = .ok t')
    (hfind : t.find old = .ok n) (hfile : t.isDirectory n = false) : Linked t' := by
  obtain ⟨_, _, rfl | ⟨u, oldDir, oldName, newDir, newName, hentry, hunlink, hlink⟩⟩ :=
    rename_file h hfind hfile
  · exact hlinked
  · refine (hlinked.rebinds hunlink fun k hk => by simp at hk).rebinds hlink fun k hk => ?_
    obtain rfl := Option.some.inj hk
    rw [hunlink.size]
    exact hlinked _ _ _ hentry

/-- A renamed file is found under its new path, and all files are as they were. -/
theorem Lawful.rename (hlaw : Lawful t) (h : t.rename old new = .ok t')
    (hfind : t.find old = .ok n) (hfile : t.isDirectory n = false) :
    Lawful t' ∧ t'.find new = .ok n ∧ t'.content? = t.content? := by
  obtain ⟨hfound, hcontent, rfl | ⟨u, oldDir, oldName, newDir, newName, hentry, hunlink, hlink⟩⟩ :=
    rename_file h hfind hfile
  · exact ⟨hlaw, hfound, hcontent⟩
  · have hunlinked : Lawful u := hlaw.rebinds hunlink fun k hk => by simp at hk
    refine ⟨hunlinked.rebinds hlink fun k hk => ?_, hfound, hcontent⟩
    -- the only name of the file was its old one
    obtain rfl := Option.some.inj hk
    rw [hunlink.size]
    refine ⟨hlaw.entry_lt _ _ _ hentry, fun d s hother => ?_⟩
    rw [hunlink.entry] at hother
    split at hother
    · simp at hother
    · next hne => exact hne (hlaw.one_name _ _ _ _ _ hother hentry hfile)

theorem remove_cases (h : t.remove path = .ok t') : ∃ dir name n,
    t.place path = .ok (dir, some name) ∧ t.find path = .ok n ∧ t.isDirectory n = false ∧
      t' = t.unlink dir (String.ofList name) := by
  unfold FileTree.remove at h
  cases hplace : t.place path with
  | error e => simp [hplace, bind, Except.bind] at h
  | ok place =>
  cases hfind : t.find path with
  | error e => simp [hplace, hfind, bind, Except.bind] at h
  | ok n =>
  obtain ⟨dir, name?⟩ := place
  simp only [hplace, hfind, bind, Except.bind] at h
  split at h
  · simp at h
  · next name =>
    split at h
    · simp at h
    · next hfile => exact ⟨dir, name, n, rfl, rfl, by simpa using hfile, (Except.ok.inj h).symm⟩

theorem Linked.remove (hlinked : Linked t) (h : t.remove path = .ok t') : Linked t' := by
  obtain ⟨dir, name, _, hplace, _, _, rfl⟩ := remove_cases h
  obtain ⟨_, _, _, _, hdir, _⟩ := place_eq_ok_iff.mp hplace
  exact hlinked.rebinds (rebinds_unlink hdir _) fun n hn => by simp at hn

theorem Lawful.remove (hlaw : Lawful t) (h : t.remove path = .ok t') : Lawful t' := by
  obtain ⟨dir, name, _, hplace, _, _, rfl⟩ := remove_cases h
  obtain ⟨_, _, _, _, hdir, _⟩ := place_eq_ok_iff.mp hplace
  exact hlaw.rebinds (rebinds_unlink hdir _) fun n hn => by simp at hn

/-- Nothing is found where a file was removed. -/
theorem find_ne_of_remove (h : t.remove path = .ok t') (m : ℕ) : t'.find path ≠ .ok m := by
  obtain ⟨dir, name, n, hplace, hfind, hfile, rfl⟩ := remove_cases h
  obtain ⟨_, _, _, _, hdir, hdots⟩ := place_eq_ok_iff.mp hplace
  have hentry : t.target? dir (String.ofList name) = some n :=
    ((child_eq_ok_iff hdots).mp ((find_of_place hplace).mp hfind).1).2
  have hunlink := rebinds_unlink hdir (String.ofList name)
  -- the entry that is gone led to a file
  have hkeeps : KeepsDirectories t (t.unlink dir (String.ofList name)) := by
    refine ⟨hunlink.working, hunlink.parent, fun d s k hk hdirectory => ?_⟩
    rw [hunlink.entry, if_neg, hk]
    rintro ⟨rfl, rfl⟩
    obtain rfl : k = n := Option.some.inj (hk.symm.trans hentry)
    simp [hfile] at hdirectory
  intro hfound
  have hchild := ((find_of_place (hkeeps.place hplace)).mp hfound).1
  have hgone := ((child_eq_ok_iff hdots).mp hchild).2
  rw [hunlink.entry, if_pos ⟨rfl, rfl⟩] at hgone
  simp at hgone

end ChangeRelay.FileTree

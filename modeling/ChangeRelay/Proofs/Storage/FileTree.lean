import ChangeRelay.Storage.FileTree
import Mathlib.Data.List.Basic
/-!
# Operations on file trees

A tree is observed through three functions: the directory above a directory, the node that a name
in a directory leads to, and the content of a file. Every operation is described by what it does to
these three, and walks, lookups and contents follow from them.
-/

namespace ChangeRelay.FileTree

/-! ## What is seen of a tree -/

/-- The directory above a directory; `none` for what is no directory. -/
def parent? (t : FileTree) (dir : ℕ) : Option ℕ :=
  match t.node? dir with
  | some (.directory parent _) => some parent
  | _ => none

/-- The node that a name of its own leads to in a directory. -/
def target? (t : FileTree) (dir : ℕ) (name : String) : Option ℕ :=
  match t.node? dir with
  | some (.directory _ entries) => entries.lookup name
  | _ => none

/-- The content of a file. -/
def content? (t : FileTree) (n : ℕ) : Option (List UInt8) :=
  match t.node? n with
  | some (.file content) => some content
  | _ => none

variable {t t' : FileTree} {n m d dir : ℕ} {name : List Char} {path : String}

theorem isDirectory_eq (t : FileTree) (n : ℕ) : t.isDirectory n = (t.parent? n).isSome := by
  unfold isDirectory parent?
  cases t.node? n with
  | none => rfl
  | some node => cases node <;> rfl

theorem isDirectory_iff : t.isDirectory n = true ↔ ∃ p, t.parent? n = some p := by
  rw [isDirectory_eq, Option.isSome_iff_exists]

theorem not_isDirectory_iff : t.isDirectory n = false ↔ t.parent? n = none := by
  rw [isDirectory_eq, Option.isSome_eq_false_iff, Option.isNone_iff_eq_none]

/-- Only directories have entries. -/
theorem parent?_isSome_of_entry {a : String} (h : t.target? d a = some n) :
    ∃ p, t.parent? d = some p := by
  unfold target? at h
  unfold parent?
  split at h
  · next p entries hd => exact ⟨p, rfl⟩
  · simp at h

/-- What a name leads to, told by what is seen of the directory. -/
theorem child_eq (t : FileTree) (dir : ℕ) (name : List Char) : t.child dir name =
    match t.parent? dir with
    | none => .error .notADirectory
    | some parent =>
      if name = ['.'] then .ok dir
      else if name = ['.', '.'] then .ok parent
      else if Path.nameLimit < Utf8.byteLength name then .error .nameTooLong
      else
        match t.target? dir (String.ofList name) with
        | some n => .ok n
        | none => .error .notFound := by
  unfold child parent? target?
  cases t.node? dir with
  | none => rfl
  | some node => cases node <;> rfl

/-- Only directories have children. -/
theorem isDirectory_of_child (h : t.child d name = .ok n) : t.isDirectory d = true := by
  rw [child_eq] at h
  cases hp : t.parent? d with
  | none => simp [hp] at h
  | some p => exact isDirectory_iff.mpr ⟨p, hp⟩

/-- A name of its own is looked up among the entries, unless it is too long. -/
theorem child_of_plain {p : ℕ} (hname : Path.isDots name = false) (hp : t.parent? d = some p) :
    t.child d name =
      if Path.nameLimit < Utf8.byteLength name then .error .nameTooLong
      else
        match t.target? d (String.ofList name) with
        | some n => .ok n
        | none => .error .notFound := by
  have hdots : name ≠ ['.'] ∧ name ≠ ['.', '.'] := by simpa [Path.isDots] using hname
  simp only [child_eq, hp, hdots, if_false]

/-- A name of its own leads where its entry says. -/
theorem child_eq_ok_iff (hname : Path.isDots name = false) : t.child d name = .ok n ↔
    Utf8.byteLength name ≤ Path.nameLimit ∧ t.target? d (String.ofList name) = some n := by
  by_cases hd : t.isDirectory d = true
  · obtain ⟨p, hp⟩ := isDirectory_iff.mp hd
    rw [child_of_plain hname hp]
    split
    · next hlong => simp [Nat.not_le.mpr hlong]
    · next hshort => split <;> simp_all
  · constructor
    · intro h
      exact absurd (isDirectory_of_child h) hd
    · rintro ⟨_, h⟩
      exact absurd (isDirectory_iff.mpr (parent?_isSome_of_entry h)) hd

/-- A name of its own that is not found has no entry, but is short enough for one. -/
theorem target?_eq_none_of_child (hname : Path.isDots name = false)
    (h : t.child d name = .error .notFound) :
    Utf8.byteLength name ≤ Path.nameLimit ∧ t.target? d (String.ofList name) = none := by
  have hd : t.isDirectory d = true := by
    by_contra hd
    rw [Bool.not_eq_true, not_isDirectory_iff] at hd
    simp [child_eq, hd] at h
  obtain ⟨p, hp⟩ := isDirectory_iff.mp hd
  rw [child_of_plain hname hp] at h
  split at h
  · simp at h
  · next hshort =>
    split at h
    · simp at h
    · next hnone => exact ⟨Nat.not_lt.mp hshort, hnone⟩

/-! ## Changes of a single file -/

/-- `t'` is `t` with `content` in the file `n`, which may be new. -/
structure Fills (t t' : FileTree) (n : ℕ) (content : List UInt8) : Prop where
  working : t'.working = t.working
  parent : t'.parent? = t.parent?
  entry : t'.target? = t.target?
  content : t'.content? n = some content
  others : ∀ m ≠ n, t'.content? m = t.content? m
  size : t.nodes.length ≤ t'.nodes.length ∧ n < t'.nodes.length

theorem node?_setNode (t : FileTree) (n m : ℕ) (node : Node) :
    (t.setNode n node).node? m =
      if n = m then (if n < t.nodes.length then some node else none) else t.node? m := by
  rw [node?, setNode, List.getElem?_set]
  rfl

theorem length_setNode (t : FileTree) (n : ℕ) (node : Node) :
    (t.setNode n node).nodes.length = t.nodes.length := by
  rw [setNode, List.length_set]

/-- A node that is put where no directory was, and is none itself, leaves all directories. -/
theorem fills_of_node? {content : List UInt8} (hworking : t'.working = t.working)
    (hn : t.isDirectory n = false) (hfile : t'.node? n = some (.file content))
    (hothers : ∀ m ≠ n, t'.node? m = t.node? m) (hsize : t.nodes.length ≤ t'.nodes.length) :
    Fills t t' n content := by
  have hparent : t.parent? n = none := not_isDirectory_iff.mp hn
  have hentry (b : String) : t.target? n b = none := by
    by_contra hsome
    obtain ⟨k, hk⟩ := Option.ne_none_iff_exists'.mp hsome
    obtain ⟨p, hp⟩ := parent?_isSome_of_entry hk
    simp [hparent] at hp
  refine ⟨hworking, funext fun m => ?_, funext fun m => funext fun b => ?_, ?_, fun m hm => ?_,
    hsize, (List.getElem?_eq_some_iff.mp hfile).1⟩
  · by_cases hm : m = n
    · rw [hm, hparent, parent?, hfile]
    · rw [parent?, hothers m hm, parent?]
  · by_cases hm : m = n
    · rw [hm, hentry, target?, hfile]
    · rw [target?, hothers m hm, target?]
  · rw [content?, hfile]
  · rw [content?, hothers m hm, content?]

theorem fills_setNode (hn : t.isDirectory n = false) (hlt : n < t.nodes.length)
    (b : List UInt8) : Fills t (t.setNode n (.file b)) n b := by
  refine fills_of_node? rfl hn ?_ (fun m hm => ?_) (Nat.le_of_eq (length_setNode _ _ _).symm)
  · rw [node?_setNode, if_pos rfl, if_pos hlt]
  · rw [node?_setNode, if_neg (Ne.symm hm)]

theorem node?_append (t : FileTree) (node : Node) (m : ℕ) :
    FileTree.node? { t with nodes := t.nodes ++ [node] } m =
      if m = t.nodes.length then some node else t.node? m := by
  rw [node?, node?]
  by_cases hm : m = t.nodes.length
  · simp [hm]
  · rw [if_neg hm]
    by_cases hlt : m < t.nodes.length
    · exact List.getElem?_append_left hlt
    · rw [List.getElem?_eq_none (by simp only [List.length_append, List.length_singleton]; omega),
        List.getElem?_eq_none (by omega)]

/-- There is nothing behind the last node. -/
theorem not_isDirectory_length (t : FileTree) : t.isDirectory t.nodes.length = false := by
  rw [not_isDirectory_iff, parent?, node?, List.getElem?_eq_none (Nat.le_refl _)]

theorem fills_append (t : FileTree) (b : List UInt8) :
    Fills t { t with nodes := t.nodes ++ [.file b] } t.nodes.length b := by
  refine fills_of_node? rfl (not_isDirectory_length t) ?_ (fun m hm => ?_) (by simp)
  · rw [node?_append, if_pos rfl]
  · rw [node?_append, if_neg hm]

theorem content?_eq_some_iff {b : List UInt8} :
    t.content? n = some b ↔ t.node? n = some (.file b) := by
  unfold content?
  split <;> simp_all

/-- Writing to a file puts the bytes over what it held. -/
theorem fills_write {old : List UInt8} (hold : t.content? n = some old) (b : List UInt8) :
    Fills t (t.write n b) n (overwrite old b) := by
  have hfile := content?_eq_some_iff.mp hold
  have hn : t.isDirectory n = false := by rw [isDirectory, hfile]
  have hwrite : t.write n b = t.setNode n (.file (overwrite old b)) := by rw [write, hfile]
  rw [hwrite]
  exact fills_setNode hn (List.getElem?_eq_some_iff.mp hfile).1 _

/-! ## Changes of a single name -/

/-- `t'` is `t` with a name in a directory leading to `target`, or nowhere. -/
structure Rebinds (t t' : FileTree) (dir : ℕ) (s : String) (target : Option ℕ) : Prop where
  working : t'.working = t.working
  parent : t'.parent? = t.parent?
  content : t'.content? = t.content?
  entry : ∀ d b, t'.target? d b = if d = dir ∧ b = s then target else t.target? d b
  size : t'.nodes.length = t.nodes.length

theorem lookup_filter_ne (entries : List (String × ℕ)) (a b : String) :
    (entries.filter (·.1 ≠ a)).lookup b = if b = a then none else entries.lookup b := by
  induction entries with
  | nil => simp
  | cons e entries ih =>
    obtain ⟨c, n⟩ := e
    by_cases hc : c = a
    · rw [List.filter_cons_of_neg (by simpa using hc), ih]
      by_cases hb : b = a
      · rw [if_pos hb, if_pos hb]
      · rw [if_neg hb, if_neg hb, List.lookup_cons, beq_false_of_ne (by rw [hc]; exact hb)]
    · rw [List.filter_cons_of_pos (by simpa using hc), List.lookup_cons, ih, List.lookup_cons]
      by_cases hb : b = c
      · subst hb
        simp [hc]
      · rw [beq_false_of_ne hb]

/-- A directory whose entries differ in one name. -/
theorem rebinds_setNode {p : ℕ} {old new : List (String × ℕ)} {s : String} {target : Option ℕ}
    (hold : t.node? dir = some (.directory p old))
    (hnew : ∀ b, new.lookup b = if b = s then target else old.lookup b) :
    Rebinds t (t.setNode dir (.directory p new)) dir s target := by
  have hlt : dir < t.nodes.length := (List.getElem?_eq_some_iff.mp hold).1
  have hset : (t.setNode dir (.directory p new)).node? dir = some (.directory p new) := by
    rw [node?_setNode, if_pos rfl, if_pos hlt]
  refine ⟨rfl, funext fun m => ?_, funext fun m => ?_, fun d b => ?_, length_setNode _ _ _⟩
  · by_cases hm : dir = m
    · subst hm
      rw [parent?, hset, parent?, hold]
    · rw [parent?, node?_setNode, if_neg hm, parent?]
  · by_cases hm : dir = m
    · subst hm
      rw [content?, hset, content?, hold]
    · rw [content?, node?_setNode, if_neg hm, content?]
  · by_cases hd : d = dir
    · subst hd
      have hentry : t.target? d b = old.lookup b := by rw [target?, hold]
      rw [target?, hset, hentry]
      simpa using hnew b
    · rw [target?, node?_setNode, if_neg (Ne.symm hd), if_neg (fun h => hd h.1), target?]

theorem node?_of_parent {p : ℕ} (h : t.parent? dir = some p) :
    ∃ entries, t.node? dir = some (.directory p entries) := by
  unfold parent? at h
  split at h
  · next q entries hnode => exact ⟨entries, by rw [hnode, Option.some.inj h]⟩
  · simp at h

theorem rebinds_link (hdir : t.isDirectory dir = true) (s : String) (n : ℕ) :
    Rebinds t (t.link dir s n) dir s (some n) := by
  obtain ⟨p, hp⟩ := isDirectory_iff.mp hdir
  obtain ⟨entries, hnode⟩ := node?_of_parent hp
  rw [link, hnode]
  refine rebinds_setNode hnode fun b => ?_
  rw [List.lookup_append, lookup_filter_ne]
  by_cases hb : b = s
  · simp [hb]
  · simp [hb, List.lookup_cons, beq_false_of_ne hb]

theorem rebinds_unlink (hdir : t.isDirectory dir = true) (s : String) :
    Rebinds t (t.unlink dir s) dir s none := by
  obtain ⟨p, hp⟩ := isDirectory_iff.mp hdir
  obtain ⟨entries, hnode⟩ := node?_of_parent hp
  rw [unlink, hnode]
  exact rebinds_setNode hnode fun b => lookup_filter_ne entries s b

/-! ## Walks and paths -/

theorem child_congr (hparent : t'.parent? = t.parent?)
    (hentry : Path.isDots name = false →
      t'.target? d (String.ofList name) = t.target? d (String.ofList name)) :
    t'.child d name = t.child d name := by
  rw [child_eq, child_eq, hparent]
  by_cases hdots : Path.isDots name = true
  · have hname : name = ['.'] ∨ name = ['.', '.'] := by simpa [Path.isDots] using hdots
    rcases hname with rfl | rfl
    · rfl
    · rfl
  · rw [hentry (by simpa using hdots)]

/-- A name leads where it led when its entry, if it has one, still says so. -/
theorem child_of_entry (hparent : t'.parent? = t.parent?)
    (hentry : t.target? d (String.ofList name) = some n →
      t'.target? d (String.ofList name) = some n)
    (h : t.child d name = .ok n) : t'.child d name = .ok n := by
  by_cases hdots : Path.isDots name = true
  · rw [child_congr hparent (by simp [hdots]), h]
  · rw [Bool.not_eq_true] at hdots
    obtain ⟨hshort, he⟩ := (child_eq_ok_iff hdots).mp h
    exact (child_eq_ok_iff hdots).mpr ⟨hshort, hentry he⟩

theorem isDirectory_congr (hparent : t'.parent? = t.parent?) (n : ℕ) :
    t'.isDirectory n = t.isDirectory n := by
  rw [isDirectory_eq, isDirectory_eq, hparent]

theorem walk_cons_eq_ok_iff {rest : List (List Char)} :
    t.walk d (name :: rest) = .ok n ↔ ∃ e, t.child d name = .ok e ∧ t.walk e rest = .ok n := by
  rw [walk]
  cases t.child d name <;> simp [bind, Except.bind]

theorem walk_concat (t : FileTree) (d : ℕ) (names : List (List Char)) (name : List Char) :
    t.walk d (names ++ [name]) = t.walk d names >>= fun e => t.child e name := by
  induction names generalizing d with
  | nil =>
    show (t.child d name >>= fun next => .ok next) = t.child d name
    cases t.child d name <;> rfl
  | cons a names ih =>
    rw [List.cons_append, walk, walk]
    cases t.child d a with
    | error e => rfl
    | ok e => exact ih e

theorem walk_congr (hparent : t'.parent? = t.parent?) (hentry : t'.target? = t.target?) (d : ℕ)
    (names : List (List Char)) : t'.walk d names = t.walk d names := by
  induction names generalizing d with
  | nil => rfl
  | cons a names ih =>
    rw [walk, walk, child_congr hparent fun _ => by rw [hentry], funext ih]

/-- A walk to a directory starts at one. -/
theorem isDirectory_of_walk {names : List (List Char)} (h : t.walk d names = .ok n)
    (hn : t.isDirectory n = true) : t.isDirectory d = true := by
  cases names with
  | nil =>
    obtain rfl : d = n := Except.ok.inj h
    exact hn
  | cons a names =>
    obtain ⟨e, he, _⟩ := walk_cons_eq_ok_iff.mp h
    exact isDirectory_of_child he

/-- `t'` has the directories of `t` under their names. -/
structure KeepsDirectories (t t' : FileTree) : Prop where
  working : t'.working = t.working
  parent : t'.parent? = t.parent?
  entry : ∀ d b m, t.target? d b = some m → t.isDirectory m = true → t'.target? d b = some m

theorem KeepsDirectories.child (h : KeepsDirectories t t') (hchild : t.child d name = .ok n)
    (hn : t.isDirectory n = true) : t'.child d name = .ok n :=
  child_of_entry h.parent (fun he => h.entry _ _ _ he hn) hchild

theorem KeepsDirectories.walk (h : KeepsDirectories t t') {names : List (List Char)}
    (hwalk : t.walk d names = .ok n) (hn : t.isDirectory n = true) :
    t'.walk d names = .ok n := by
  induction names generalizing d with
  | nil => exact hwalk
  | cons a names ih =>
    obtain ⟨e, hchild, hrest⟩ := walk_cons_eq_ok_iff.mp hwalk
    have he := isDirectory_of_walk hrest hn
    exact walk_cons_eq_ok_iff.mpr ⟨e, h.child hchild he, ih hrest⟩

theorem route_congr (h : t'.working = t.working) (path : String) :
    t'.route path = t.route path := by
  rw [route, route, h]

theorem route_eq_ok {start : ℕ} {names : List (List Char)}
    (h : t.route path = .ok (start, names)) :
    path.toList ≠ [] ∧ names = Path.names path.toList := by
  unfold route at h
  simp only at h
  split at h
  · simp at h
  split at h
  · simp at h
  · next hne =>
    split at h
    · simp at h
    · exact ⟨hne, (Prod.mk.inj (Except.ok.inj h)).2.symm⟩

theorem find_eq_ok_iff : t.find path = .ok n ↔ ∃ start names, t.route path = .ok (start, names) ∧
    t.walk start names = .ok n ∧
      (Path.endsInSlash path.toList = true → t.isDirectory n = true) := by
  rw [find]
  cases hroute : t.route path with
  | error e => simp [bind, Except.bind]
  | ok r =>
    obtain ⟨start, names⟩ := r
    cases hwalk : t.walk start names with
    | error e => simp [bind, Except.bind, Except.mapError, hwalk]
    | ok m =>
      simp only [bind, Except.bind, Except.mapError, hwalk]
      constructor
      · intro h
        split at h
        · simp at h
        · next hslash =>
          obtain rfl : m = n := Except.ok.inj h
          exact ⟨start, names, rfl, hwalk, fun hs => by simpa [hs] using hslash⟩
      · rintro ⟨start', names', hr, hw, hslash⟩
        obtain ⟨rfl, rfl⟩ := Prod.mk.inj (Except.ok.inj hr)
        obtain rfl : m = n := Except.ok.inj (hwalk.symm.trans hw)
        rw [if_neg]
        simpa using hslash

/-- What is in a file is not seen by a path. -/
theorem Fills.find {b : List UInt8} (h : Fills t t' n b) (path : String) :
    t'.find path = t.find path := by
  rw [FileTree.find, FileTree.find, route_congr h.working]
  congr 1
  funext r
  simp only [walk_congr h.parent h.entry, isDirectory_congr h.parent]

theorem place_eq_ok_iff : t.place path = .ok (dir, some name) ↔ ∃ start names,
    t.route path = .ok (start, names ++ [name]) ∧ t.walk start names = .ok dir ∧
      t.isDirectory dir = true ∧ Path.isDots name = false := by
  rw [place]
  cases hroute : t.route path with
  | error e => simp [bind, Except.bind]
  | ok r =>
    obtain ⟨start, names⟩ := r
    rcases List.eq_nil_or_concat names with rfl | ⟨before, last, rfl⟩
    · simp [bind, Except.bind]
    · rw [List.concat_eq_append]
      simp only [bind, Except.bind, List.getLast?_append, List.getLast?_singleton, Option.some_or,
        List.dropLast_concat]
      cases hwalk : t.walk start before with
      | error e => simp [Except.mapError, hwalk]
      | ok e =>
        simp only [Except.mapError]
        constructor
        · intro h
          split at h
          · simp at h
          · next hdir =>
            obtain ⟨rfl, hlast⟩ := Prod.mk.inj (Except.ok.inj h)
            split at hlast
            · simp at hlast
            · next hdots =>
              obtain rfl : last = name := Option.some.inj hlast
              exact ⟨start, before, rfl, hwalk, by simpa using hdir, by simpa using hdots⟩
        · rintro ⟨start', names', hr, hw, hdir, hdots⟩
          obtain ⟨rfl, hnames⟩ := Prod.mk.inj (Except.ok.inj hr)
          obtain ⟨rfl, hlast⟩ := List.append_inj' hnames rfl
          obtain rfl : last = name := by simpa using hlast
          obtain rfl : e = dir := Except.ok.inj (hwalk.symm.trans hw)
          simp [hdir, hdots]

theorem KeepsDirectories.place (h : KeepsDirectories t t')
    (hplace : t.place path = .ok (dir, some name)) : t'.place path = .ok (dir, some name) := by
  obtain ⟨start, names, hroute, hwalk, hdir, hdots⟩ := place_eq_ok_iff.mp hplace
  refine place_eq_ok_iff.mpr ⟨start, names, ?_, h.walk hwalk hdir, ?_, hdots⟩
  · rw [route_congr h.working, hroute]
  · rw [isDirectory_congr h.parent, hdir]

/-- A path finds what its last name leads to at its place. -/
theorem find_of_place (hplace : t.place path = .ok (dir, some name)) :
    t.find path = .ok n ↔ t.child dir name = .ok n ∧
      (Path.endsInSlash path.toList = true → t.isDirectory n = true) := by
  obtain ⟨start, names, hroute, hwalk, _, _⟩ := place_eq_ok_iff.mp hplace
  have hconcat : t.walk start (names ++ [name]) = t.child dir name := by
    rw [walk_concat, hwalk]
    rfl
  rw [find_eq_ok_iff, hroute]
  constructor
  · rintro ⟨start', names', hr, hw, hslash⟩
    obtain ⟨rfl, rfl⟩ := Prod.mk.inj (Except.ok.inj hr)
    exact ⟨hconcat ▸ hw, hslash⟩
  · rintro ⟨hchild, hslash⟩
    exact ⟨start, _, rfl, hconcat.trans hchild, hslash⟩

/-- What is read at a path is the content of the file that it finds. -/
theorem read_of_find (h : t.find path = .ok n) : t.read path =
    match t.content? n with
    | some b => .ok b
    | none => .error (.path .isADirectory) := by
  rw [read, h, content?]
  cases hnode : t.node? n with
  | none => simp [bind, Except.bind, hnode]
  | some node => cases node <;> simp [bind, Except.bind, hnode]

end ChangeRelay.FileTree

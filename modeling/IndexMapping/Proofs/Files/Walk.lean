import IndexMapping.Files.FileTree
import IndexMapping.Proofs.Files.Path
import IndexMapping.Proofs.Outcome

/-! Where paths lead. A walk that follows links takes up one name after the other, and each name
either takes it to a directory or ends it. So a path to a file leads through the directory of the
path, which has an entry for the file. -/

namespace IndexMapping.Files.FileTree

open Files.Path (counts segments)

variable {t : FileTree} {links : Nat} {here place : List String} {name : String}
  {names rest : List String} {bytes : List UInt8} {f : Fault} {ending : Ending}

/-! ### One name -/

/-- A walk after one name: the links that are left, the directory that has been reached and the
names that a link has put in front of the others. -/
structure Turn where
  links : Nat
  here : List String
  names : List String

/-- Takes up a name that others follow. -/
def enter (t : FileTree) (links : Nat) (here : List String) (name : String) : Except Fault Turn :=
  if name = "" || name = "." then .ok ⟨links, here, []⟩
  else if name = ".." then .ok ⟨links, here.dropLast, []⟩
  else if nameLimit < name.utf8ByteSize then .error .nameTooLong
  else match (entriesAt? t.root here).bind (child? name) with
    | none => .error .notFound
    | some (.directory _) => .ok ⟨links, here ++ [name], []⟩
    | some (.file _) => .error .notDirectory
    | some (.link target) => match links with
      | 0 => .error .tooManyLinks
      | links + 1 => .ok ⟨links, if Path.isAbsolute target then [] else here, segments target⟩

variable {turn : Turn}

/-- The ending has no say at a name if links are followed at the end too, or if another name
comes after it. -/
def IsPassed (ending : Ending) (rest : List String) : Prop :=
  ending = .followed ∨ rest.all (· = "") = false

theorem IsPassed.not_created (h : IsPassed ending rest) :
    (ending = .created && rest ≠ [] && rest.all (· = "")) = false := by
  rcases h with rfl | h
  · rfl
  · rw [h, Bool.and_false]

theorem IsPassed.not_bare (h : IsPassed ending rest) :
    (rest = [] && ending = .bare) = false := by
  rcases h with rfl | h
  · exact Bool.and_false _
  · cases rest with
    | nil => cases h
    | cons => rfl

/-- A name that leads to a directory does so wherever it stands. -/
theorem walk_cons_of_enter (hpassed : IsPassed ending rest)
    (h : t.enter links here name = .ok turn) :
    t.walk ending links here (name :: rest) =
      t.walk ending turn.links turn.here (turn.names ++ rest) := by
  unfold enter at h
  rw [walk]
  split_ifs at h with hskip hup hlong
  · cases h
    simp [hskip]
  · cases h
    simp [hup]
  · simp only [hskip, hup, hlong, if_false, hpassed.not_created, hpassed.not_bare]
    cases hchild : (entriesAt? t.root here).bind (child? name) with
    | none => simp [hchild] at h
    | some node =>
      cases node with
      | file bytes => simp [hchild] at h
      | directory es =>
        simp only [hchild, Except.ok.injEq] at h
        simp [← h]
      | link target =>
        cases links with
        | zero => simp [hchild] at h
        | succ links =>
          simp only [hchild, Except.ok.injEq] at h
          simp [← h, segments]

theorem walk_of_enter (h : t.enter links here name = .ok turn) (rest : List String) :
    t.walk .followed links here (name :: rest) =
      t.walk .followed turn.links turn.here (turn.names ++ rest) :=
  walk_cons_of_enter (.inl rfl) h

/-- Any other name fails when others follow. -/
theorem walk_of_enter_error (hpassed : IsPassed ending rest)
    (h : t.enter links here name = .error f) (hrest : rest ≠ []) :
    t.walk ending links here (name :: rest) = .error f := by
  unfold enter at h
  rw [walk]
  split_ifs at h with hskip hup hlong
  · cases h
    simp only [hskip, hup, hlong, hpassed.not_created, Bool.false_eq_true, if_false, if_true]
  · simp only [hskip, hup, hlong, if_false, hpassed.not_created, hpassed.not_bare]
    cases hchild : (entriesAt? t.root here).bind (child? name) with
    | none => simpa [hchild, hrest] using h
    | some node =>
      cases node with
      | file bytes => simpa [hchild, hrest] using h
      | directory es => simp [hchild] at h
      | link target =>
        cases links with
        | zero => simpa [hchild, hrest] using h
        | succ links => simp [hchild] at h

/-- Only a link puts names in front of the others, and then there are fewer links left. -/
theorem enter_decreases (h : t.enter links here name = .ok turn) :
    turn.links < links ∨ turn.links = links ∧ turn.names = [] := by
  unfold enter at h
  split_ifs at h
  · cases h
    exact .inr ⟨rfl, rfl⟩
  · cases h
    exact .inr ⟨rfl, rfl⟩
  · split at h
    · cases h
    · cases h
      exact .inr ⟨rfl, rfl⟩
    · cases h
    · split at h
      · cases h
      · cases h
        exact .inl (Nat.lt_succ_self _)

theorem turn_lt {others : List String} (h : t.enter links here name = .ok turn)
    (hothers : others.length ≤ rest.length) :
    Prod.Lex (· < ·) (· < ·) (turn.links, (turn.names ++ others).length)
      (links, (name :: rest).length) := by
  rcases enter_decreases h with hlt | ⟨hlinks, hnames⟩
  · exact .left _ _ hlt
  · rw [hlinks, hnames, List.nil_append]
    exact .right _ (Nat.lt_succ_of_le hothers)

/-! ### Walks -/

/-- Induction along a walk: after each name it goes on with the others or with fewer of them. -/
theorem walk_induction {P : Nat → List String → List String → Prop}
    (nil : ∀ links here, P links here [])
    (cons : ∀ links here name rest, (∀ turn, t.enter links here name = .ok turn →
      ∀ others : List String, others.length ≤ rest.length →
        P turn.links turn.here (turn.names ++ others)) → P links here (name :: rest))
    (links : Nat) (here names : List String) : P links here names :=
  match names with
  | [] => nil links here
  | name :: rest => cons links here name rest fun turn hturn others hothers =>
    have := turn_lt hturn hothers
    walk_induction nil cons turn.links turn.here (turn.names ++ others)
termination_by (links, names.length)
decreasing_by exact this

theorem not_counts_iff : counts name = false ↔ name = "" ∨ name = "." := by
  rw [Bool.eq_false_iff, counts]
  simp [Decidable.or_iff_not_imp_left]

theorem enter_of_not_counts (h : counts name = false) :
    t.enter links here name = .ok ⟨links, here, []⟩ := by
  simp [enter, not_counts_iff.1 h]

theorem enter_up (h : name = "..") : t.enter links here name = .ok ⟨links, here.dropLast, []⟩ := by
  simp [enter, h]

theorem walk_up :
    t.walk ending links here (".." :: rest) = t.walk ending links here.dropLast rest := by
  rw [walk]
  rfl

/-- In front of a name, those that do not count may be left out. -/
theorem walk_filter (links : Nat) (here names : List String) :
    t.walk .followed links here (names ++ [name]) =
      t.walk .followed links here (names.filter counts ++ [name]) := by
  induction links, here, names using walk_induction (t := t) with
  | nil links here => rfl
  | cons links here first rest ih =>
    by_cases hfirst : counts first
    · rw [List.filter_cons_of_pos hfirst, List.cons_append, List.cons_append]
      cases henter : t.enter links here first with
      | error f =>
        rw [walk_of_enter_error (.inl rfl) henter (by simp),
          walk_of_enter_error (.inl rfl) henter (by simp)]
      | ok turn =>
        have hall := ih turn henter rest (Nat.le_refl _)
        have hkept := ih turn henter (rest.filter counts) (List.length_filter_le _ _)
        rw [walk_of_enter henter, walk_of_enter henter, ← List.append_assoc, hall,
          ← List.append_assoc, hkept, List.filter_append, List.filter_append, List.filter_filter]
        simp only [Bool.and_self]
    · rw [Bool.not_eq_true] at hfirst
      have henter : t.enter links here first = .ok ⟨links, here, []⟩ := enter_of_not_counts hfirst
      rw [List.filter_cons_of_neg (by simp [hfirst]), List.cons_append, walk_of_enter henter]
      exact ih _ henter rest (Nat.le_refl _)

/-! ### The way to a file -/

theorem mem_of_child? {es : List (String × Node)} {node : Node} (h : child? name es = some node) :
    name ∈ es.map (·.1) := by
  induction es with
  | nil => cases h
  | cons e es ih =>
    obtain ⟨n, x⟩ := e
    rw [child?] at h
    split_ifs at h with hn
    · simp [hn]
    · exact List.mem_cons_of_mem _ (ih h)

/-- A name that may lead to a file: it is in the directory, and it is a name that files have. -/
structure Names (es : List (String × Node)) (name : String) : Prop where
  mem : name ∈ es.map (·.1)
  counts : counts name
  notUp : name ≠ ".."
  fits : name.utf8ByteSize ≤ nameLimit

theorem names_of_walk (h : t.walk .followed links here [name] = .ok (.found place (.file bytes))) :
    ∃ es, entriesAt? t.root here = some es ∧ Names es name := by
  have hnil (above : List String) :
      t.walk .followed links above [] ≠ .ok (.found place (.file bytes)) := by
    rw [walk]
    split <;> simp
  by_cases hcounts : counts name
  · have hskip : ¬(name = "" ∨ name = ".") := by
      rwa [← not_counts_iff, Bool.not_eq_false]
    by_cases hup : name = ".."
    · rw [walk_of_enter (enter_up hup)] at h
      exact absurd h (hnil _)
    · rw [walk] at h
      by_cases hlong : nameLimit < name.utf8ByteSize
      · simp [hskip, hup, hlong] at h
      · cases hes : entriesAt? t.root here with
        | none => simp [hskip, hup, hlong, hes] at h
        | some es =>
          cases hchild : child? name es with
          | none => simp [hskip, hup, hlong, hes, hchild] at h
          | some node =>
            exact ⟨es, rfl, mem_of_child? hchild, hcounts, hup, Nat.le_of_not_lt hlong⟩
  · rw [Bool.not_eq_true] at hcounts
    rw [walk_of_enter (enter_of_not_counts hcounts)] at h
    exact absurd h (hnil _)

/-- The names in front of the last one lead to a directory that has an entry for it. -/
theorem names_of_walk_append {last : String}
    (h : t.walk .followed links here (names ++ [last]) = .ok (.found place (.file bytes))) :
    ∃ above es, t.walk .followed links here names = .ok (.found above (.directory es)) ∧
      Names es last := by
  induction links, here, names using walk_induction (t := t) with
  | nil links here =>
    obtain ⟨es, hes, hnames⟩ := names_of_walk h
    exact ⟨here, es, by rw [walk, hes], hnames⟩
  | cons links here first rest ih =>
    rw [List.cons_append] at h
    cases henter : t.enter links here first with
    | error f =>
      rw [walk_of_enter_error (.inl rfl) henter (by simp)] at h
      cases h
    | ok turn =>
      rw [walk_of_enter henter, ← List.append_assoc] at h
      rw [walk_of_enter henter]
      exact ih turn henter rest (Nat.le_refl _) h

/-! ### Paths -/

variable {path base : String} {ds : List String}

/-- A text that is taken for a path. -/
structure Passable (path : String) : Prop where
  noZero : '\x00' ∉ path.toList
  notEmpty : path ≠ ""
  fits : path.utf8ByteSize ≤ pathLimit

theorem locate_of_passable (h : Passable path) (t : FileTree) (ending : Ending) :
    t.locate ending path = t.walk ending linkLimit (if Path.isAbsolute path then [] else t.work)
      (segments path) := by
  have hfits : ¬ pathLimit < path.utf8ByteSize := Nat.not_lt_of_le h.fits
  simp [locate, h.noZero, h.notEmpty, hfits, segments]

theorem passable_of_locate {place : Place} (h : t.locate ending path = .ok place) :
    Passable path := by
  rw [locate] at h
  by_cases hzero : '\x00' ∈ path.toList
  · simp [hzero] at h
  · by_cases hempty : path = ""
    · simp [hempty] at h
    · by_cases hlong : pathLimit < path.utf8ByteSize
      · simp [hzero, hempty, hlong] at h
      · exact ⟨hzero, hempty, Nat.le_of_not_lt hlong⟩

theorem isFile_iff : t.isFile path ↔ ∃ place bytes, t.resolve path = .ok (place, .file bytes) := by
  rw [isFile]
  split
  next hresolve => simp [hresolve]
  next hother =>
    simp only [Bool.false_eq_true, false_iff]
    rintro ⟨place, bytes, hresolve⟩
    exact hother place bytes hresolve

theorem isDirectory_iff :
    t.isDirectory path ↔ ∃ place es, t.resolve path = .ok (place, .directory es) := by
  rw [isDirectory]
  split
  next hresolve => simp [hresolve]
  next hother =>
    simp only [Bool.false_eq_true, false_iff]
    rintro ⟨place, es, hresolve⟩
    exact hother place es hresolve

theorem isThere_iff : t.isThere path ↔ ∃ place node, t.resolve path = .ok (place, node) := by
  rw [isThere]
  cases t.resolve path with
  | error f => simp [Except.isOk, Except.toBool]
  | ok found => simp [Except.isOk, Except.toBool, Prod.ext_iff]

theorem canonical?_eq_some_iff : t.canonical? path = some place ↔
    ∃ node, t.resolve path = .ok (place, node) := by
  rw [canonical?]
  cases t.resolve path with
  | error f => simp
  | ok found =>
    obtain ⟨place', node⟩ := found
    simp

theorem isThere_of_isFile (h : t.isFile path) : t.isThere path := by
  obtain ⟨place, bytes, hresolve⟩ := isFile_iff.1 h
  exact isThere_iff.2 ⟨place, _, hresolve⟩

theorem isThere_of_isDirectory (h : t.isDirectory path) : t.isThere path := by
  obtain ⟨place, es, hresolve⟩ := isDirectory_iff.1 h
  exact isThere_iff.2 ⟨place, _, hresolve⟩

theorem isDirectory_of_isFile (h : t.isFile path) : t.isDirectory path = false := by
  obtain ⟨place, bytes, hresolve⟩ := isFile_iff.1 h
  rw [isDirectory, hresolve]

theorem resolve_eq_ok_iff {node : Node} : t.resolve path = .ok (place, node) ↔
    t.locate .followed path = .ok (.found place node) := by
  rw [resolve]
  split
  next hlocate => simp [hlocate]
  next hlocate => simp [hlocate]
  next hlocate => simp [hlocate]

theorem passable_directory (h : Path.Leads path ds name base) (hpath : Passable path) :
    Passable (Path.directory path) := by
  rw [h.directory]
  split_ifs with hbase
  · exact ⟨by decide, by decide, by decide⟩
  · rcases h.split with ⟨-, rfl⟩ | ⟨rest, rfl⟩
    · exact ⟨by decide, by decide, by decide⟩
    · obtain ⟨hzero, -, hfits⟩ := hpath
      simp only [String.toList_append, List.mem_append, not_or, String.utf8ByteSize_append] at *
      exact ⟨hzero.1.1.1, hbase, by omega⟩

theorem passable_join (h : Path.Leads path ds name base) (hpath : Passable path)
    (hname : name.utf8ByteSize ≤ nameLimit) :
    Passable (Path.join (Path.directory path) name) := by
  rw [h.join]
  rcases h.split with ⟨rfl, rfl⟩ | ⟨rest, rfl⟩
  · have hzero := hpath.noZero
    have hsize : ("." ++ "/" ++ path).utf8ByteSize = 2 + path.utf8ByteSize := by
      simp only [String.utf8ByteSize_append]
      rfl
    refine ⟨by simpa using hzero, by simp, ?_⟩
    rw [hsize]
    exact Nat.le_trans (Nat.add_le_add_left hname 2) (by decide)
  · obtain ⟨hzero, -, hfits⟩ := hpath
    simp only [String.toList_append, List.mem_append, not_or, String.utf8ByteSize_append] at *
    exact ⟨by simp [hzero], by simp, by simp only [String.utf8ByteSize_append]; omega⟩

/-- A path to a file ends in the name of the file. Its directory has an entry of that name, and the
name leads to the file from there. -/
theorem exists_entry (h : t.isFile path) : ∃ place es name,
    t.resolve (Path.directory path) = .ok (place, .directory es) ∧ name ∈ es.map (·.1) ∧
      Path.fileName? path = some name ∧
      Path.fileName? (Path.join (Path.directory path) name) = some name ∧
      t.resolve (Path.join (Path.directory path) name) = t.resolve path := by
  obtain ⟨file, bytes, hresolve⟩ := isFile_iff.1 h
  have hlocate := resolve_eq_ok_iff.1 hresolve
  have hpath := passable_of_locate hlocate
  obtain ⟨ds, name, hsegments⟩ : ∃ ds name, segments path = ds ++ [name] :=
    (List.eq_nil_or_concat' _).resolve_left (Path.segments_ne_nil path)
  rw [locate_of_passable hpath, hsegments] at hlocate
  obtain ⟨_, _, -, hlast⟩ := names_of_walk_append hlocate
  obtain ⟨base, hleads⟩ := Path.exists_leads hsegments hlast.counts
  have hslash := (Path.eq_of_segments hsegments).1
  have habsolute := hleads.isAbsolute_directory hslash
  -- Both paths take the same way, which goes through the directory of the path.
  have hway : ∀ links here, t.walk .followed links here (ds ++ [name]) =
      t.walk .followed links here (segments (Path.directory path) ++ [name]) := fun links here => by
    rw [walk_filter, ← hleads.counts_directory, ← walk_filter]
  have hjoin : t.locate .followed (Path.join (Path.directory path) name) =
      t.locate .followed path := by
    rw [locate_of_passable (passable_join hleads hpath hlast.fits), locate_of_passable hpath,
      hleads.isAbsolute_join, habsolute, hleads.segments_join hslash, hsegments, walk_filter,
      ← hleads.counts, ← walk_filter]
  rw [hway] at hlocate
  obtain ⟨above, es, hwalk, hnames⟩ := names_of_walk_append hlocate
  have hdirectory : t.resolve (Path.directory path) = .ok (above, .directory es) := by
    rw [resolve_eq_ok_iff, locate_of_passable (passable_directory hleads hpath), habsolute, hwalk]
  refine ⟨above, es, name, hdirectory, hnames.mem, ?_, ?_, by rw [resolve, resolve, hjoin]⟩
  · exact Path.fileName?_of_segments hsegments hnames.counts hnames.notUp
  · exact Path.fileName?_of_segments (hleads.segments_join hslash) hnames.counts hnames.notUp

end IndexMapping.Files.FileTree

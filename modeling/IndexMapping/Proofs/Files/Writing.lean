import IndexMapping.Proofs.Files.Nodes
import IndexMapping.Proofs.Files.Walk

/-! Writing files. A path that leads to a file still leads there when directories are created and
files are written, and the file keeps its bytes unless a written path leads to it. -/

namespace IndexMapping.Files.FileTree

/-- The node at a place. -/
def nodeAt? (t : FileTree) (place : List String) : Option Node :=
  (Node.directory t.root).below? place

namespace Place

/-- The names that lead there from the topmost directory. -/
def names : Place → List String
  | .found path _ => path
  | .absent directory name => directory ++ [name]

/-- The tree has the node that is found, and a directory without the name that is absent. -/
def IsIn (t : FileTree) : Place → Prop
  | .found path node => t.nodeAt? path = some node
  | .absent directory name =>
    t.nodeAt? (directory ++ [name]) = none ∧ ∃ es, entriesAt? t.root directory = some es

end Place

variable {t t' t'' : FileTree} {ending ending' : Ending} {links : Nat}
  {here names place : List String} {places places' : List (List String)} {name path : String}
  {bytes bytes' : List UInt8} {node : Node} {found : Place}

/-! ### Nodes of a tree -/

theorem nodeAt?_concat : t.nodeAt? (here ++ [name]) =
    (entriesAt? t.root here).bind (child? name) := below?_concat

theorem nodeAt?_eq_directory_iff {es : List (String × Node)} :
    t.nodeAt? here = some (.directory es) ↔ entriesAt? t.root here = some es :=
  entriesAt?_eq_some_iff.symm

/-- `t'` has all that `t` has, and the files of `t` with their bytes if they are not at one of
these places. -/
structure Extends (places : List (List String)) (t t' : FileTree) : Prop where
  work : t'.work = t.work
  becomes : ∀ place node, t.nodeAt? place = some node →
    ∃ node', t'.nodeAt? place = some node' ∧ node.Becomes (place ∈ places) node'

namespace Extends

theorem refl (t : FileTree) : Extends [] t t :=
  ⟨rfl, fun _ node h => ⟨node, h, .refl _ _⟩⟩

theorem trans (h : Extends places t t') (h' : Extends places' t' t'') :
    Extends (places ++ places') t t'' := by
  refine ⟨h'.work.trans h.work, fun place node hnode => ?_⟩
  obtain ⟨node', hnode', hbecomes⟩ := h.becomes place node hnode
  obtain ⟨node'', hnode'', hbecomes'⟩ := h'.becomes place node' hnode'
  exact ⟨node'', hnode'', (hbecomes.trans hbecomes').mono List.mem_append.2⟩

theorem file (h : Extends places t t') (hfile : t.nodeAt? place = some (.file bytes)) :
    ∃ bytes', t'.nodeAt? place = some (.file bytes') := by
  obtain ⟨node, hnode, hbecomes⟩ := h.becomes place _ hfile
  cases hbecomes with
  | kept _ => exact ⟨bytes, hnode⟩
  | set _ _ bytes' => exact ⟨bytes', hnode⟩

theorem file_of_not_mem (h : Extends places t t') (hplace : place ∉ places)
    (hfile : t.nodeAt? place = some (.file bytes)) :
    t'.nodeAt? place = some (.file bytes) := by
  obtain ⟨node, hnode, hbecomes⟩ := h.becomes place _ hfile
  cases hbecomes with
  | kept _ => exact hnode
  | set hmem _ _ => exact absurd hmem hplace

/-- Setting an entry extends a tree. -/
theorem set (t : FileTree) (hold : Settable node (t.nodeAt? (here ++ [name]))) :
    Extends [here ++ [name]] t { t with root := setAt name node t.root here } := by
  refine ⟨rfl, fun place old hnode => ?_⟩
  obtain ⟨new, hnew, hbecomes⟩ := becomes_setAt hold hnode
  exact ⟨new, hnew, hbecomes.mono List.mem_singleton.2⟩

/-- Places that no file of the tree is at may be left out. -/
theorem of_none (h : Extends [place] t t') (hplace : t.nodeAt? place = none) :
    Extends [] t t' := by
  refine ⟨h.work, fun other node hnode => ?_⟩
  obtain ⟨node', hnode', hbecomes⟩ := h.becomes other node hnode
  refine ⟨node', hnode', hbecomes.mono fun hmem => ?_⟩
  rw [List.mem_singleton.1 hmem, hplace] at hnode
  cases hnode

end Extends

/-! ### Plain names -/

/-- A name that leads to the entry of that name. -/
structure Plain (name : String) : Prop where
  notEmpty : name ≠ ""
  notDot : name ≠ "."
  notUp : name ≠ ".."
  fits : name.utf8ByteSize ≤ nameLimit

instance (name : String) : Decidable (Plain name) :=
  decidable_of_iff (name ≠ "" ∧ name ≠ "." ∧ name ≠ ".." ∧ name.utf8ByteSize ≤ nameLimit)
    ⟨fun ⟨hempty, hdot, hup, hfits⟩ => ⟨hempty, hdot, hup, hfits⟩,
      fun ⟨hempty, hdot, hup, hfits⟩ => ⟨hempty, hdot, hup, hfits⟩⟩

theorem plain_of_checks (hskip : ¬ (name = "" || name = ".") = true) (hup : name ≠ "..")
    (hlong : ¬ nameLimit < name.utf8ByteSize) : Plain name := by
  simp only [Bool.or_eq_true, decide_eq_true_eq, not_or] at hskip
  exact ⟨hskip.1, hskip.2, hup, Nat.le_of_not_lt hlong⟩

/-- A plain name at the end leads to its entry, unless that is a link to be followed. -/
theorem walk_entry (hname : Plain name) (hnode : t.nodeAt? (here ++ [name]) = some node)
    (hlink : ∀ target, node = .link target → ending = .bare) :
    t.walk ending links here [name] = .ok (.found (here ++ [name]) node) := by
  obtain ⟨hempty, hdot, hup, hfits⟩ := hname
  have hchild := nodeAt?_concat.symm.trans hnode
  rw [walk, if_neg (by simp [hempty, hdot]), if_neg hup, if_neg (by simp),
    if_neg (Nat.not_lt_of_le hfits), hchild]
  cases node with
  | directory es =>
    have hes := nodeAt?_eq_directory_iff.1 hnode
    simp only [walk, hes]
  | file bytes => simp
  | link target => simp [hlink target rfl]

/-- A plain name at the end is absent if its directory does not have it. -/
theorem walk_absent {es : List (String × Node)} (hname : Plain name)
    (hes : entriesAt? t.root here = some es) (hnone : child? name es = none) :
    t.walk ending links here [name] = .ok (.absent here name) := by
  obtain ⟨hempty, hdot, hup, hfits⟩ := hname
  rw [walk, if_neg (by simp [hempty, hdot]), if_neg hup, if_neg (by simp),
    if_neg (Nat.not_lt_of_le hfits), hes, Option.bind_some, hnone]
  rfl

theorem enter_directory {es : List (String × Node)} (hname : Plain name)
    (hnode : t.nodeAt? (here ++ [name]) = some (.directory es)) :
    t.enter links here name = .ok ⟨links, here ++ [name], []⟩ := by
  obtain ⟨hempty, hdot, hup, hfits⟩ := hname
  rw [enter, if_neg (by simp [hempty, hdot]), if_neg hup, if_neg (Nat.not_lt_of_le hfits),
    nodeAt?_concat.symm.trans hnode]

theorem enter_none (hname : Plain name) (hnode : t.nodeAt? (here ++ [name]) = none) :
    t.enter links here name = .error .notFound := by
  obtain ⟨hempty, hdot, hup, hfits⟩ := hname
  rw [enter, if_neg (by simp [hempty, hdot]), if_neg hup, if_neg (Nat.not_lt_of_le hfits),
    nodeAt?_concat.symm.trans hnode]

/-! ### Where walks end -/

/-- What a walk finds, or misses, is so in the tree. -/
theorem isIn_of_walk (h : t.walk ending links here names = .ok found) : found.IsIn t := by
  fun_induction FileTree.walk t ending links here names with
  | case1 links here es hes =>
    cases h
    exact nodeAt?_eq_directory_iff.2 hes
  | case2 | case5 | case6 | case8 | case11 | case13 => cases h
  | case3 _ _ _ _ _ ih => exact ih h
  | case4 _ _ _ _ ih => exact ih h
  | case7 _ _ _ _ _ _ _ _ hchild hlast =>
    cases h
    simp only [Bool.and_eq_true, Option.isSome_iff_exists] at hlast
    exact ⟨nodeAt?_concat.trans hchild, hlast.2⟩
  | case9 _ _ _ _ _ _ _ _ _ _ ih => exact ih h
  | case10 _ _ _ _ _ _ _ hchild =>
    cases h
    exact nodeAt?_concat.trans hchild
  | case12 _ _ _ _ _ _ _ _ _ hchild =>
    cases h
    exact nodeAt?_concat.trans hchild
  | case14 _ _ _ _ _ _ _ _ _ _ _ ih => exact ih h

theorem Extends.child (h : Extends places t t')
    (hchild : (entriesAt? t.root here).bind (child? name) = some node) :
    ∃ node', (entriesAt? t'.root here).bind (child? name) = some node' ∧
      node.Becomes (here ++ [name] ∈ places) node' := by
  simp only [← nodeAt?_concat] at hchild ⊢
  exact h.becomes _ _ hchild

/-- A walk that ends where a later tree has a node leads there in the later tree, unless the node
is a link that is to be followed. -/
theorem walk_extends (hext : Extends places t t')
    (hending : ending' = ending ∨ ending' = .followed ∧ ending ≠ .bare)
    (h : t.walk ending links here names = .ok found) (hnode : t'.nodeAt? found.names = some node)
    (hlink : ∀ target, node = .link target → ending' = .bare) :
    t'.walk ending' links here names = .ok (.found found.names node) := by
  -- Directories and links have stayed what they were, so only the last name can lead elsewhere.
  have hcreated : ending' = .created → ending = .created := by
    rcases hending with rfl | ⟨rfl, -⟩ <;> simp
  have hbare : ending' = .bare → ending = .bare := by
    rcases hending with rfl | ⟨rfl, -⟩ <;> simp
  fun_induction FileTree.walk t ending links here names with
  | case2 | case5 | case6 | case8 | case11 | case13 => cases h
  | case1 links here es hes =>
    -- the end of the names, at a directory
    cases h
    obtain ⟨_, hthere, hbecomes⟩ := hext.becomes _ _ (nodeAt?_eq_directory_iff.2 hes)
    obtain rfl := Option.some.inj (hthere.symm.trans hnode)
    cases hbecomes
    rw [walk, nodeAt?_eq_directory_iff.1 hthere]
    rfl
  | case3 _ _ _ _ hskip ih =>
    -- a name that does not count
    rw [walk, if_pos hskip]
    exact ih h
  | case4 _ _ _ hskip ih =>
    -- the way up
    rw [walk, if_neg hskip, if_pos rfl]
    exact ih h
  | case7 _ _ _ _ hskip hup _ hlong _ hlast =>
    -- the last name, which the directory did not have
    cases h
    simp only [Bool.and_eq_true, decide_eq_true_eq] at hlast
    rw [hlast.1]
    exact walk_entry (plain_of_checks hskip hup hlong) hnode hlink
  | case9 _ _ name rest hskip hup hslash hlong _ hchild ih =>
    -- a directory
    obtain ⟨_, hchild', hbecomes⟩ := hext.child hchild
    cases hbecomes
    rw [walk, if_neg hskip, if_neg hup, if_neg (by simp_all), if_neg hlong, hchild']
    exact ih h
  | case10 _ _ _ hskip hup hlong _ hchild =>
    -- the last name, which was that of a file
    cases h
    exact walk_entry (plain_of_checks hskip hup hlong) hnode hlink
  | case12 _ _ _ _ hskip hup hslash hlong _ hchild hlast =>
    -- the last name, which is that of a link
    cases h
    simp only [Bool.and_eq_true, decide_eq_true_eq] at hlast
    rw [hlast.1]
    exact walk_entry (plain_of_checks hskip hup hlong) hnode hlink
  | case14 _ _ rest hskip hup hslash hlong _ hchild hlast _ ih =>
    -- a link on the way
    obtain ⟨_, hchild', hbecomes⟩ := hext.child hchild
    cases hbecomes
    have hlast' : ¬ (rest = [] && ending' = .bare) = true := by
      simp only [Bool.and_eq_true, decide_eq_true_eq] at hlast ⊢
      exact fun hend => hlast ⟨hend.1, hbare hend.2⟩
    rw [walk, if_neg hskip, if_neg hup, if_neg (by simp_all), if_neg hlong, hchild']
    simp only [if_neg hlast']
    exact ih h

/-! ### Where paths lead -/

theorem isIn_of_locate (h : t.locate ending path = .ok found) : found.IsIn t := by
  have hpath := passable_of_locate h
  rw [locate_of_passable hpath] at h
  exact isIn_of_walk h

theorem nodeAt?_of_resolve (h : t.resolve path = .ok (place, node)) :
    t.nodeAt? place = some node :=
  isIn_of_locate (resolve_eq_ok_iff.1 h)

theorem locate_extends (hext : Extends places t t')
    (hending : ending' = ending ∨ ending' = .followed ∧ ending ≠ .bare)
    (h : t.locate ending path = .ok found) (hnode : t'.nodeAt? found.names = some node)
    (hlink : ∀ target, node = .link target → ending' = .bare) :
    t'.locate ending' path = .ok (.found found.names node) := by
  have hpath := passable_of_locate h
  rw [locate_of_passable hpath] at h
  rw [locate_of_passable hpath, hext.work]
  exact walk_extends hext hending h hnode hlink

theorem resolve_of_locate (hext : Extends places t t') (hending : ending ≠ .bare)
    (h : t.locate ending path = .ok found) (hfile : t'.nodeAt? found.names = some (.file bytes)) :
    t'.resolve path = .ok (found.names, .file bytes) :=
  resolve_eq_ok_iff.2 (locate_extends hext (.inr ⟨rfl, hending⟩) h hfile (by simp))

/-- A path to a file leads to the same place in a later tree. -/
theorem Extends.resolve (hext : Extends places t t')
    (h : t.resolve path = .ok (place, .file bytes)) :
    ∃ bytes', t'.resolve path = .ok (place, .file bytes') := by
  obtain ⟨bytes', hfile⟩ := hext.file (nodeAt?_of_resolve h)
  exact ⟨bytes', resolve_of_locate hext (by decide) (resolve_eq_ok_iff.1 h) hfile⟩

theorem readBytes_of_resolve (h : t.resolve path = .ok (place, .file bytes)) :
    t.readBytes path = .ok bytes := by
  rw [readBytes, h]

/-! ### Plain names -/

/-- A way of plain names leads straight down. -/
theorem walk_plain {es : List (String × Node)} (hnames : ∀ name ∈ names, Plain name)
    (hes : entriesAt? t.root here = some es)
    (hnode : (Node.directory es).below? names = some node) (hlink : ∀ target, node ≠ .link target) :
    t.walk .followed links here names = .ok (.found (here ++ names) node) := by
  induction names generalizing here es with
  | nil =>
    cases hnode
    rw [walk, hes, List.append_nil]
  | cons name rest ih =>
    obtain ⟨hempty, hdot, hup, hfits⟩ := hnames name List.mem_cons_self
    obtain ⟨child, hchild, hbelow⟩ := Option.bind_eq_some_iff.1 hnode
    have hthere : (entriesAt? t.root here).bind (child? name) = some child := by
      rw [hes]
      exact hchild
    rw [walk, if_neg (by simp [hempty, hdot]), if_neg hup, if_neg (by simp),
      if_neg (Nat.not_lt_of_le hfits), hthere]
    cases child with
    | directory inner =>
      have hinner : entriesAt? t.root (here ++ [name]) = some inner :=
        nodeAt?_eq_directory_iff.1 (nodeAt?_concat.trans hthere)
      show t.walk .followed links (here ++ [name]) rest = _
      rw [List.append_cons here name rest]
      exact ih (fun n hn => hnames n (List.mem_cons_of_mem _ hn)) hinner hbelow
    | file bytes =>
      cases rest with
      | nil =>
        cases hbelow
        simp
      | cons _ _ => cases hbelow
    | link target =>
      cases rest with
      | nil => exact absurd (Option.some.inj hbelow).symm (hlink target)
      | cons _ _ => cases hbelow

/-- A path of plain names leads from the topmost directory straight down. -/
theorem resolve_plain (hpath : Passable path) (hwork : t.work = [])
    (hnames : ∀ name ∈ Path.segments path, Plain name)
    (hnode : t.nodeAt? (Path.segments path) = some node) (hlink : ∀ target, node ≠ .link target) :
    t.resolve path = .ok (Path.segments path, node) := by
  rw [resolve_eq_ok_iff, locate_of_passable hpath, hwork, ite_self]
  exact walk_plain hnames rfl hnode hlink

/-- With a slash before the names it does so from everywhere. -/
theorem resolve_absolute (hpath : Passable path) (habsolute : Path.isAbsolute path)
    (hsegments : Path.segments path = "" :: names) (hnames : ∀ name ∈ names, Plain name)
    (hnode : t.nodeAt? names = some node) (hlink : ∀ target, node ≠ .link target) :
    t.resolve path = .ok (names, node) := by
  rw [resolve_eq_ok_iff, locate_of_passable hpath, if_pos habsolute, hsegments, walk,
    if_pos (by decide)]
  exact walk_plain hnames rfl hnode hlink

/-- A path from the topmost directory leads to no file if its first name is not there. -/
theorem isFile_of_missing {first : String} {rest : List String} (hwork : t.work = [])
    (hsegments : Path.segments path = "" :: first :: rest) (hfirst : Plain first)
    (hmissing : child? first t.root = none) : t.isFile path = false := by
  rw [← Bool.not_eq_true, isFile_iff]
  rintro ⟨place, bytes, hresolve⟩
  have hlocate := resolve_eq_ok_iff.1 hresolve
  obtain ⟨hempty, hdot, hup, hfits⟩ := hfirst
  have hroot : entriesAt? t.root [] = some t.root := rfl
  rw [locate_of_passable (passable_of_locate hlocate), hwork, ite_self, hsegments, walk,
    if_pos (by decide), walk, if_neg (by simp [hempty, hdot]), if_neg hup, if_neg (by simp),
    if_neg (Nat.not_lt_of_le hfits), hroot, Option.bind_some, hmissing] at hlocate
  by_cases hrest : rest = []
  · simp [hrest] at hlocate
  · simp [hrest] at hlocate

/-! ### Creating and writing -/

/-- What holds of a tree and itself, and goes on to hold when a directory is created, holds when
all directories of a path are. -/
theorem createChain_induction {P : FileTree → Prop} (refl : P t)
    (step : ∀ {made made' : FileTree} {path : String}, P made →
      made.createDirectory path = .ok made' → P made')
    (paths : List String) (h : t.createChain paths = .ok t') : P t' := by
  induction paths generalizing t' with
  | nil => cases h
  | cons path above ih =>
    rw [createChain] at h
    split at h
    · cases h
      exact refl
    · split at h
      next hcreated =>
        cases h
        exact step refl hcreated
      next =>
        split at h
        · cases h
        next made hmade =>
          split at h
          next hcreated =>
            cases h
            exact step (ih hmade) hcreated
          next =>
            split_ifs at h
            cases h
            exact ih hmade
      next =>
        split_ifs at h
        cases h
        exact refl

/-- Writing sets a file where the path leads: one that is there, or a new one. -/
structure Writes (t : FileTree) (path : String) (bytes : List UInt8) (place : List String)
    (t' : FileTree) : Prop where
  leads : ∃ found, t.locate .created path = .ok found ∧ found.names = place
  settable : Settable (.file bytes) (t.nodeAt? place)
  set : ∃ above name es, place = above ++ [name] ∧ entriesAt? t.root above = some es ∧
    t' = { t with root := setAt name (.file bytes) t.root above }

theorem exists_writes (h : t.write path bytes = .ok t') :
    ∃ place, Writes t path bytes place t' := by
  rw [write] at h
  split at h
  · cases h
  · cases h
  · cases h
  next place old hlocate =>
    cases h
    have hold : t.nodeAt? place = some (.file old) := isIn_of_locate hlocate
    obtain rfl | ⟨above, last, rfl⟩ := List.eq_nil_or_concat' place
    · cases hold
    · have hchild := nodeAt?_concat.symm.trans hold
      obtain ⟨es, hes, -⟩ := Option.bind_eq_some_iff.1 hchild
      rw [List.dropLast_concat, List.getLastD_concat]
      exact ⟨_, ⟨_, hlocate, rfl⟩, settable_of_file hold, above, last, es, rfl, hes, rfl⟩
  next directory name hlocate =>
    cases h
    obtain ⟨hnone, es, hes⟩ : t.nodeAt? (directory ++ [name]) = none ∧ _ := isIn_of_locate hlocate
    exact ⟨_, ⟨_, hlocate, rfl⟩, settable_of_none hnone, directory, name, es, rfl, hes, rfl⟩

namespace Writes

theorem extended (h : Writes t path bytes place t') : Extends [place] t t' := by
  obtain ⟨-, hsettable, above, name, es, rfl, -, rfl⟩ := h
  exact .set t hsettable

/-- The file is there afterwards. -/
theorem nodeAt? (h : Writes t path bytes place t') : t'.nodeAt? place = some (.file bytes) := by
  obtain ⟨-, -, above, name, es, rfl, hes, rfl⟩ := h
  exact below?_setAt hes

theorem resolve (h : Writes t path bytes place t') :
    t'.resolve path = .ok (place, .file bytes) := by
  obtain ⟨found, hlocate, rfl⟩ := h.leads
  exact resolve_of_locate h.extended (by decide) hlocate h.nodeAt?

end Writes

end IndexMapping.Files.FileTree

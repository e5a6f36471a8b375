import IndexMapping.Proofs.Files.Growth

/-! Where paths lead in a later tree. A path that leads somewhere leads to the same place there,
and what can be seen of it is the same but for new names in a directory and the text of a file that
has been written over. A new name in a directory leads to a new directory or to a file that has been
written. -/

namespace IndexMapping.Files.FileTree

open Files.Path (counts isAbsolute join segments)

variable {t t' : FileTree} {ending : Ending} {links : Nat} {here names place target : List String}
  {places : List (List String)} {es : List (String × Node)} {name path base : String}
  {bytes bytes' : List UInt8} {node : Node}

/-! ### What is there -/

/-- Unless links may be left at the end, no walk ends at one. -/
theorem not_link_of_walk (hending : ending ≠ .bare)
    (h : t.walk ending links here names = .ok (.found place node)) (target : String) :
    node ≠ .link target := by
  fun_induction FileTree.walk t ending links here names with
  | case2 | case5 | case6 | case7 | case8 | case11 | case13 => cases h
  | case1 =>
    cases h
    simp
  | case3 _ _ _ _ _ ih => exact ih h
  | case4 _ _ _ _ ih => exact ih h
  | case9 _ _ _ _ _ _ _ _ _ _ ih => exact ih h
  | case10 =>
    cases h
    simp
  | case12 _ _ _ _ _ _ _ _ _ _ hbare => simp [hending] at hbare
  | case14 _ _ _ _ _ _ _ _ _ _ _ ih => exact ih h

theorem not_link_of_resolve (h : t.resolve path = .ok (place, node)) (target : String) :
    node ≠ .link target := by
  have hlocate := resolve_eq_ok_iff.1 h
  rw [locate_of_passable (passable_of_locate hlocate)] at hlocate
  exact not_link_of_walk (by decide) hlocate target

/-- The path leads to the same place in both trees, and the same kind of thing is there. -/
structure Agree (t t' : FileTree) (path : String) : Prop where
  isFile : t'.isFile path = t.isFile path
  isDirectory : t'.isDirectory path = t.isDirectory path
  canonical : t'.canonical? path = t.canonical? path

theorem Extends.resolve_becomes (hext : Extends places t t')
    (h : t.resolve path = .ok (place, node)) :
    ∃ node', t'.resolve path = .ok (place, node') ∧ node.Becomes (place ∈ places) node' := by
  obtain ⟨node', hnode', hbecomes⟩ := hext.becomes _ _ (nodeAt?_of_resolve h)
  refine ⟨node', resolve_eq_ok_iff.2 ?_, hbecomes⟩
  refine locate_extends hext (.inl rfl) (resolve_eq_ok_iff.1 h) hnode' fun target hlink => ?_
  subst hlink
  cases hbecomes
  exact absurd rfl (not_link_of_resolve h target)

theorem Extends.agree (hext : Extends places t t') (h : t.isThere path) : Agree t t' path := by
  obtain ⟨place, node, hresolve⟩ := isThere_iff.1 h
  obtain ⟨node', hresolve', hbecomes⟩ := hext.resolve_becomes hresolve
  cases hbecomes <;> constructor <;>
    simp only [isFile, isDirectory, canonical?, hresolve, hresolve']

/-- A text is kept if it has not been written over. -/
theorem Extends.readText (hext : Extends places t t') (h : t.resolve path = .ok (place, node))
    (hplace : place ∉ places) : t'.readText path = t.readText path := by
  obtain ⟨node', hresolve', hbecomes⟩ := hext.resolve_becomes h
  cases hbecomes with
  | set hset => exact absurd hset hplace
  | _ => simp only [FileTree.readText, readBytes, h, hresolve']

/-! ### What was there -/

/-- Where the later tree has a directory, there was something before. -/
def NoNewDirectory (t t' : FileTree) : Prop :=
  ∀ place es, t'.nodeAt? place = some (.directory es) → ∃ old, t.nodeAt? place = some old

theorem Writes.noNewDirectory (h : Writes t path bytes place t') : NoNewDirectory t t' := by
  obtain ⟨-, -, above, name, es, rfl, -, rfl⟩ := h
  intro other inner hnode
  rcases below?_setAt_cases hnode with ⟨old, hold⟩ | ⟨rest, rfl, hbelow⟩
  · exact ⟨old, hold⟩
  · cases rest <;> cases hbelow

/-- All else was there before and has become what it is. -/
theorem Grows.exists_old (hgrows : Grows [target] t t') (hold : NoNewDirectory t t')
    (hnode : t'.nodeAt? place = some node) (hplace : place ≠ target) :
    ∃ old, t.nodeAt? place = some old ∧ old.Becomes False node := by
  obtain ⟨old, hsome⟩ : ∃ old, t.nodeAt? place = some old := by
    by_contra hnone
    rw [← Option.ne_none_iff_exists', not_not] at hnone
    rcases hgrows.fresh place node hnode hnone with ⟨es, rfl⟩ | hmem
    · obtain ⟨old, hsome⟩ := hold place es hnode
      rw [hnone] at hsome
      cases hsome
    · exact hplace (List.mem_singleton.1 hmem)
  obtain ⟨node', hnode', hbecomes⟩ := hgrows.becomes place old hsome
  obtain rfl := Option.some.inj (hnode'.symm.trans hnode)
  exact ⟨old, hsome, hbecomes.mono fun hmem => hplace (List.mem_singleton.1 hmem)⟩

/-- A path that leads to an old file led there before. -/
theorem Grows.walk_back (hgrows : Grows [target] t t')
    (htarget : t'.nodeAt? target = some (.file bytes')) (hold : NoNewDirectory t t')
    (h : t'.walk .followed links here names = .ok (.found place (.file bytes)))
    (hplace : place ≠ target) :
    t.walk .followed links here names = .ok (.found place (.file bytes)) := by
  have hother {place : List String} {node : Node} (hnode : t'.nodeAt? place = some node)
      (hnot : node ≠ .file bytes') : place ≠ target := by
    rintro rfl
    exact hnot (Option.some.inj (hnode.symm.trans htarget))
  fun_induction FileTree.walk t' .followed links here names with
  | case1 | case2 | case5 | case6 | case7 | case8 | case11 | case12 | case13 => cases h
  | case3 _ _ _ _ hskip ih =>
    rw [walk, if_pos hskip]
    exact ih h
  | case4 _ _ _ hskip ih =>
    rw [walk, if_neg hskip, if_pos rfl]
    exact ih h
  | case9 _ _ _ _ hskip hup _ hlong _ hchild ih =>
    have hnode := nodeAt?_concat.trans hchild
    obtain ⟨old, hthere, hbecomes⟩ := hgrows.exists_old hold hnode (hother hnode (by simp))
    cases hbecomes
    rw [walk, if_neg hskip, if_neg hup, if_neg (by simp), if_neg hlong,
      nodeAt?_concat.symm.trans hthere]
    exact ih h
  | case10 _ _ _ hskip hup hlong _ hchild =>
    cases h
    obtain ⟨old, hthere, hbecomes⟩ := hgrows.exists_old hold (nodeAt?_concat.trans hchild) hplace
    cases hbecomes with
    | kept _ => exact walk_entry (plain_of_checks hskip hup hlong) hthere (by simp)
    | set hset => exact hset.elim
  | case14 _ _ rest hskip hup _ hlong _ hchild hlast _ ih =>
    have hnode := nodeAt?_concat.trans hchild
    obtain ⟨old, hthere, hbecomes⟩ := hgrows.exists_old hold hnode (hother hnode (by simp))
    cases hbecomes
    rw [walk, if_neg hskip, if_neg hup, if_neg (by simp), if_neg hlong,
      nodeAt?_concat.symm.trans hthere]
    simp only [if_neg hlast]
    exact ih h

/-- A path that leads to a file was there, unless it leads to the file that has been written. -/
theorem Grows.isThere_or (hgrows : Grows [target] t t')
    (htarget : t'.nodeAt? target = some (.file bytes)) (hold : NoNewDirectory t t')
    (hfile : t'.isFile path) : t.isThere path ∨ t'.resolve path = .ok (target, .file bytes) := by
  obtain ⟨place, bytes', hresolve⟩ := isFile_iff.1 hfile
  by_cases hplace : place = target
  · subst hplace
    have hbytes := Option.some.inj (htarget.symm.trans (nodeAt?_of_resolve hresolve))
    exact .inr (hbytes ▸ hresolve)
  · have hlocate := resolve_eq_ok_iff.1 hresolve
    have hpath := passable_of_locate hlocate
    rw [locate_of_passable hpath, hgrows.work] at hlocate
    refine .inl (isThere_iff.2 ⟨place, .file bytes', resolve_eq_ok_iff.2 ?_⟩)
    rw [locate_of_passable hpath]
    exact hgrows.walk_back htarget hold hlocate hplace

/-! ### Names in a directory -/

theorem exists_enter (h : t.walk .followed links here [name] = .ok (.found place (.directory es))) :
    ∃ turn, t.enter links here name = .ok turn := by
  rw [enter]
  rw [walk] at h
  split_ifs with hskip hup hlong
  · exact ⟨_, rfl⟩
  · exact ⟨_, rfl⟩
  · simp [hskip, hup, hlong] at h
  · simp only [hskip, hup, hlong, if_false, reduceCtorEq, decide_false, Bool.false_and] at h
    cases hchild : (entriesAt? t.root here).bind (child? name) with
    | none =>
      simp only [hchild] at h
      split at h <;> cases h
    | some node =>
      cases node with
      | file bytes => simp [hchild] at h
      | directory inner => exact ⟨_, rfl⟩
      | link target =>
        cases links with
        | zero => simp [hchild] at h
        | succ links => exact ⟨_, rfl⟩

/-- A walk that leads to a directory goes on from there. -/
theorem walk_append (h : t.walk .followed links here names = .ok (.found place (.directory es))) :
    ∃ links', ∀ rest, t.walk .followed links here (names ++ rest) =
      t.walk .followed links' place rest := by
  induction links, here, names using walk_induction (t := t) with
  | nil links here =>
    rw [walk] at h
    split at h
    · cases h
      exact ⟨links, fun rest => rfl⟩
    · cases h
  | cons links here first rest ih =>
    cases henter : t.enter links here first with
    | ok turn =>
      rw [walk_of_enter henter] at h
      obtain ⟨links', hwalk⟩ := ih turn henter rest (Nat.le_refl _) h
      refine ⟨links', fun others => ?_⟩
      rw [List.cons_append, walk_of_enter henter, ← List.append_assoc, hwalk]
    | error f =>
      by_cases hrest : rest = []
      · subst hrest
        obtain ⟨turn, hturn⟩ := exists_enter h
        rw [henter] at hturn
        cases hturn
      · rw [walk_of_enter_error (.inl rfl) henter hrest] at h
        cases h

/-- The names of a joined path are those of the directory, but for some that do not count, and the
name. -/
theorem exists_segments_join (hbase : base ≠ "") (hslash : '/' ∉ name.toList) :
    ∃ ds, segments (join base name) = ds ++ [name] ∧
      ds.filter counts = (segments base).filter counts := by
  rcases Path.join_cases hbase (Path.isAbsolute_of_no_slash hslash) with
    ⟨front, rfl, hjoin⟩ | hjoin
  · refine ⟨segments front, by rw [hjoin, Path.segments_slash hslash], ?_⟩
    have hfront : segments (front ++ "/" ++ "") = segments front ++ [""] :=
      Path.segments_slash (by decide)
    rw [String.append_empty] at hfront
    rw [hfront, List.filter_append]
    simp [counts]
  · exact ⟨segments base, by rw [hjoin, Path.segments_slash hslash], rfl⟩

/-- A joined name is looked up in the directory. -/
theorem locate_join (hdir : t.resolve base = .ok (place, .directory es))
    (hslash : '/' ∉ name.toList) (hpath : Passable (join base name)) :
    ∃ links, t.locate .followed (join base name) = t.walk .followed links place [name] := by
  have hlocate := resolve_eq_ok_iff.1 hdir
  have hbase := passable_of_locate hlocate
  rw [locate_of_passable hbase] at hlocate
  obtain ⟨links, hwalk⟩ := walk_append hlocate
  obtain ⟨ds, hsegments, hds⟩ := exists_segments_join hbase.notEmpty hslash
  have habsolute : isAbsolute (join base name) = isAbsolute base :=
    Path.isAbsolute_join hbase.notEmpty (Path.isAbsolute_of_no_slash hslash)
  refine ⟨links, ?_⟩
  rw [locate_of_passable hpath, habsolute, hsegments, walk_filter, hds, ← walk_filter, hwalk]

/-- A new name in a directory leads to a file only where a file has been written. -/
theorem Grows.resolve_new (hgrows : Grows [target] t t')
    (htarget : t'.nodeAt? target = some (.file bytes))
    (hdir : t.resolve base = .ok (place, .directory es)) (hname : Creatable name)
    (hnew : name ∉ es.map (·.1)) (hfile : t'.isFile (join base name)) :
    t'.resolve (join base name) = .ok (target, .file bytes) := by
  obtain ⟨place', bytes', hresolve⟩ := isFile_iff.1 hfile
  have hlocate := resolve_eq_ok_iff.1 hresolve
  obtain ⟨_, hdir', hbecomes⟩ := hgrows.resolve_becomes hdir
  cases hbecomes with
  | directory _ es' =>
    obtain ⟨links, hwalk⟩ := locate_join hdir' hname.noSlash (passable_of_locate hlocate)
    rw [hwalk] at hlocate
    obtain ⟨_, hes', hmem⟩ := names_of_walk hlocate
    obtain ⟨node, hchild⟩ : ∃ node, t'.nodeAt? (place ++ [name]) = some node := by
      rw [nodeAt?_concat, hes', Option.bind_some, ← Option.ne_none_iff_exists', Ne,
        child?_eq_none_iff, not_not]
      exact hmem.mem
    have hnone : t.nodeAt? (place ++ [name]) = none := by
      rw [nodeAt?_concat, nodeAt?_eq_directory_iff.1 (nodeAt?_of_resolve hdir), Option.bind_some,
        child?_eq_none_iff]
      exact hnew
    rcases hgrows.fresh _ node hchild hnone with ⟨inner, rfl⟩ | hplace
    · rw [walk_entry hname.toPlain hchild (by simp)] at hlocate
      cases hlocate
    · obtain rfl := List.mem_singleton.1 hplace
      rw [resolve_eq_ok_iff, hwalk]
      exact walk_entry hname.toPlain htarget (by simp)

end IndexMapping.Files.FileTree

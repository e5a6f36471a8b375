import IndexMapping.Proofs.Files.Writing

/-! What a tree gains when directories are created and a file is written. Only the file at the place
of the written one changes, directories get new entries behind the ones that they had, and the new
entries are directories or the file that was written. Writing the file again changes nothing. -/

namespace IndexMapping.Files

variable {root es : List (String × Node)} {name : String} {node new : Node}
  {place above : List String}

/-! ### Entries by name -/

theorem child?_eq_none_iff : child? name es = none ↔ name ∉ es.map (·.1) := by
  induction es with
  | nil => simp [child?]
  | cons e es ih =>
    obtain ⟨n, x⟩ := e
    rw [child?, List.map_cons, List.mem_cons, not_or, ← ih]
    split_ifs with hn
    · simp [hn]
    · simp [Ne.symm hn]

theorem names_setEntry : (setEntry name node es).map (·.1) =
    if name ∈ es.map (·.1) then es.map (·.1) else es.map (·.1) ++ [name] := by
  induction es with
  | nil => rfl
  | cons e es ih =>
    obtain ⟨n, x⟩ := e
    by_cases hn : n = name
    · simp [setEntry, hn]
    · rw [setEntry, if_neg hn, List.map_cons, ih]
      by_cases hmem : name ∈ es.map (·.1)
      · simp [hmem]
      · simp only [hmem, if_false, List.map_cons, List.mem_cons, Ne.symm hn, or_self,
          List.cons_append]

theorem setEntry_of_child? (h : child? name es = some node) : setEntry name node es = es := by
  induction es with
  | nil => cases h
  | cons e es ih =>
    obtain ⟨n, x⟩ := e
    rw [child?] at h
    rw [setEntry]
    split_ifs at h ⊢ with hn
    · rw [Option.some.inj h]
    · rw [ih h]

/-- Setting what is there changes nothing. -/
theorem setAt_of_below? (h : (Node.directory root).below? (above ++ [name]) = some node) :
    setAt name node root above = root := by
  induction above generalizing root with
  | nil =>
    obtain ⟨child, hchild, hbelow⟩ := Option.bind_eq_some_iff.1 h
    cases hbelow
    exact setEntry_of_child? hchild
  | cons d ds ih =>
    obtain ⟨child, hchild, hbelow⟩ := Option.bind_eq_some_iff.1 h
    replace hchild : child? d root = some child := hchild
    rw [setAt, hchild]
    cases child with
    | directory inner =>
      simp only [ih hbelow]
      exact setEntry_of_child? hchild
    | file bytes => rfl
    | link target => rfl

/-! ### A new entry -/

/-- When an entry is set, all directories keep their names, and the one above it gets the name if
it did not have it. -/
theorem names_setAt (hold : Settable node ((Node.directory root).below? (above ++ [name])))
    (h : entriesAt? root place = some es) :
    ∃ es', entriesAt? (setAt name node root above) place = some es' ∧
      (es'.map (·.1) = es.map (·.1) ∨
        place = above ∧ name ∉ es.map (·.1) ∧ es'.map (·.1) = es.map (·.1) ++ [name]) := by
  induction above generalizing root place with
  | nil =>
    cases place with
    | nil =>
      cases h
      refine ⟨_, rfl, ?_⟩
      rw [setAt, names_setEntry]
      split_ifs with hmem
      · exact .inl rfl
      · exact .inr ⟨rfl, hmem, rfl⟩
    | cons first rest =>
      have hne : first ≠ name := by
        rintro rfl
        rw [entriesAt?] at h
        split at h
        next inner hinner =>
          obtain ⟨_, _, hfile, -⟩ := hold (.directory inner) (by
            simp [Node.below?, Node.entry?, hinner])
          cases hfile
        next => cases h
      exact ⟨es, by rwa [setAt, entriesAt?, child?_setEntry, if_neg hne], .inl rfl⟩
  | cons d ds ih =>
    rw [setAt]
    split
    next inner hinner =>
      have hold' : Settable node ((Node.directory inner).below? (ds ++ [name])) := by
        simpa [Node.below?, Node.entry?, hinner] using hold
      cases place with
      | nil =>
        cases h
        have hmem : d ∈ es.map (·.1) := by
          by_contra hd
          rw [child?_eq_none_iff.2 hd] at hinner
          cases hinner
        exact ⟨_, rfl, .inl (by rw [names_setEntry, if_pos hmem])⟩
      | cons first rest =>
        by_cases hfirst : first = d
        · subst hfirst
          rw [entriesAt?, hinner] at h
          obtain ⟨es', hes', hnames⟩ := ih hold' h
          refine ⟨es', by rw [entriesAt?, child?_setEntry, if_pos rfl]; exact hes', ?_⟩
          exact hnames.imp_right fun hlast => ⟨by rw [hlast.1], hlast.2⟩
        · exact ⟨es, by rwa [entriesAt?, child?_setEntry, if_neg hfirst], .inl rfl⟩
    next => exact ⟨es, h, .inl rfl⟩

/-- What is new is below the entry that has been set. -/
theorem below?_setAt_cases
    (h : (Node.directory (setAt name node root above)).below? place = some new) :
    (∃ old, (Node.directory root).below? place = some old) ∨
      ∃ rest, place = above ++ name :: rest ∧ node.below? rest = some new := by
  induction above generalizing root place with
  | nil =>
    cases place with
    | nil => exact .inl ⟨_, rfl⟩
    | cons first rest =>
      rw [setAt, below?_setEntry_cons] at h
      split_ifs at h with hfirst
      · exact .inr ⟨rest, by rw [hfirst]; rfl, h⟩
      · exact .inl ⟨new, h⟩
  | cons d ds ih =>
    rw [setAt] at h
    split at h
    next inner hinner =>
      cases place with
      | nil => exact .inl ⟨_, rfl⟩
      | cons first rest =>
        rw [below?_setEntry_cons] at h
        split_ifs at h with hfirst
        · subst hfirst
          rcases ih h with ⟨old, hold⟩ | ⟨below, rfl, hbelow⟩
          · exact .inl ⟨old, by simpa [Node.below?, Node.entry?, hinner] using hold⟩
          · exact .inr ⟨below, rfl, hbelow⟩
        · exact .inl ⟨new, h⟩
    next => exact .inl ⟨new, h⟩

namespace FileTree

variable {t t' t'' : FileTree} {ending : Ending} {links : Nat} {here names : List String}
  {places places' : List (List String)} {path : String} {bytes : List UInt8}

/-! ### Names of new entries -/

/-- A name that a new entry may have. -/
structure Creatable (name : String) : Prop extends Plain name where
  noSlash : '/' ∉ name.toList

theorem creatable_of_walk (h : t.walk ending links here names = .ok (.absent above name))
    (hnames : ∀ n ∈ names, '/' ∉ n.toList) : Creatable name := by
  fun_induction FileTree.walk t ending links here names with
  | case1 | case2 | case5 | case6 | case8 | case10 | case11 | case12 | case13 => cases h
  | case3 _ _ _ _ _ ih => exact ih h (List.forall_mem_cons.1 hnames).2
  | case4 _ _ _ _ ih => exact ih h (List.forall_mem_cons.1 hnames).2
  | case7 _ _ _ _ hskip hup _ hlong =>
    cases h
    exact ⟨plain_of_checks hskip hup hlong, (List.forall_mem_cons.1 hnames).1⟩
  | case9 _ _ _ _ _ _ _ _ _ _ ih => exact ih h (List.forall_mem_cons.1 hnames).2
  | case14 _ _ _ _ _ _ _ target _ _ _ ih =>
    refine ih h (List.forall_mem_append.2 ⟨fun n hn => ?_, (List.forall_mem_cons.1 hnames).2⟩)
    exact Path.no_slash_of_mem_segments hn

theorem creatable_of_locate (h : t.locate ending path = .ok (.absent above name)) :
    Creatable name := by
  have hpath := passable_of_locate h
  rw [locate_of_passable hpath] at h
  exact creatable_of_walk h fun _ => Path.no_slash_of_mem_segments

/-! ### Growth -/

/-- `t'` has all that `t` has, and the files of `t` with their bytes if they are not at one of the
places. New entries of directories come last, and they are directories or at one of the places. -/
structure Grows (places : List (List String)) (t t' : FileTree) : Prop extends
    Extends places t t' where
  names : ∀ place es, entriesAt? t.root place = some es →
    ∃ es' new, entriesAt? t'.root place = some es' ∧ es'.map (·.1) = es.map (·.1) ++ new ∧
      ∀ n ∈ new, Creatable n ∧ n ∉ es.map (·.1)
  fresh : ∀ place node, t'.nodeAt? place = some node → t.nodeAt? place = none →
    (∃ es, node = .directory es) ∨ place ∈ places

namespace Grows

theorem refl (t : FileTree) : Grows [] t t where
  toExtends := .refl t
  names _ es h := ⟨es, [], h, (List.append_nil _).symm, nofun⟩
  fresh place node h hnone := by
    rw [hnone] at h
    cases h

theorem trans (h : Grows places t t') (h' : Grows places' t' t'') :
    Grows (places ++ places') t t'' where
  toExtends := h.toExtends.trans h'.toExtends
  names place es hes := by
    obtain ⟨es', new, hes', hnames, hnew⟩ := h.names place es hes
    obtain ⟨es'', new', hes'', hnames', hnew'⟩ := h'.names place es' hes'
    refine ⟨es'', new ++ new', hes'', by rw [hnames', hnames, List.append_assoc], ?_⟩
    refine List.forall_mem_append.2 ⟨hnew, fun n hn => ?_⟩
    obtain ⟨hcreatable, hmem⟩ := hnew' n hn
    rw [hnames, List.mem_append, not_or] at hmem
    exact ⟨hcreatable, hmem.1⟩
  fresh place node hnode hnone := by
    cases hnode' : t'.nodeAt? place with
    | none =>
      refine (h'.fresh place node hnode hnode').imp_right fun hmem => ?_
      exact List.mem_append_right _ hmem
    | some node' =>
      rcases h.fresh place node' hnode' hnone with ⟨es, rfl⟩ | hmem
      · obtain ⟨_, hthere, hbecomes⟩ := h'.becomes place _ hnode'
        obtain rfl := Option.some.inj (hthere.symm.trans hnode)
        cases hbecomes
        exact .inl ⟨_, rfl⟩
      · exact .inr (List.mem_append_left _ hmem)

/-- A tree grows when an entry is set that has no entries. -/
theorem set (hold : Settable node (t.nodeAt? (above ++ [name])))
    (hname : t.nodeAt? (above ++ [name]) = none → Creatable name)
    (hnode : ∀ names n, node.below? names = some n → names = []) :
    Grows [above ++ [name]] t { t with root := setAt name node t.root above } where
  toExtends := .set t hold
  names place es hes := by
    obtain ⟨es', hes', hnames | ⟨rfl, hmem, hnames⟩⟩ := names_setAt hold hes
    · exact ⟨es', [], hes', by rw [hnames, List.append_nil], by simp⟩
    · refine ⟨es', [name], hes', hnames, List.forall_mem_singleton.2 ⟨hname ?_, hmem⟩⟩
      rw [nodeAt?_concat, hes]
      exact child?_eq_none_iff.2 hmem
  fresh place new hnew hplace := by
    rcases below?_setAt_cases hnew with ⟨old, hold⟩ | ⟨rest, rfl, hbelow⟩
    · rw [nodeAt?, hold] at hplace
      cases hplace
    · rw [hnode rest new hbelow]
      exact .inr List.mem_cons_self

/-- Places where there are new directories may be left out. -/
theorem of_directory (h : Grows [place] t t') (hnone : t.nodeAt? place = none)
    (hplace : t'.nodeAt? place = some (.directory es)) : Grows [] t t' where
  toExtends := h.toExtends.of_none hnone
  names := h.names
  fresh other node hnode hnone := by
    rcases h.fresh other node hnode hnone with hdirectory | hmem
    · exact .inl hdirectory
    · rw [List.mem_singleton.1 hmem, hplace] at hnode
      cases hnode
      exact .inl ⟨_, rfl⟩

end Grows

theorem grows_createDirectory (h : t.createDirectory path = .ok t') : Grows [] t t' := by
  rw [createDirectory] at h
  split at h
  · cases h
  · cases h
  next above name hlocate =>
    cases h
    obtain ⟨hnone, es, hes⟩ : t.nodeAt? (above ++ [name]) = none ∧ _ := isIn_of_locate hlocate
    have hnew : (Node.directory (setAt name (.directory []) t.root above)).below?
        (above ++ [name]) = some (.directory []) := below?_setAt hes
    refine Grows.of_directory (Grows.set (settable_of_none hnone)
      (fun _ => creatable_of_locate hlocate) ?_) hnone hnew
    rintro (_ | ⟨n, names⟩) node hnode
    · rfl
    · cases hnode

theorem grows_createDirectories (h : t.createDirectories path = .ok t') : Grows [] t t' :=
  createChain_induction (P := Grows [] t) (.refl t)
    (fun hmade hcreated => hmade.trans (grows_createDirectory hcreated)) _ h

theorem Writes.grows (h : Writes t path bytes place t') : Grows [place] t t' := by
  obtain ⟨⟨found, hlocate, rfl⟩, hsettable, above, name, es, hnames, -, rfl⟩ := h
  rw [hnames] at hsettable ⊢
  refine Grows.set hsettable (fun hnone => ?_) ?_
  · -- the name of a new file
    cases found with
    | found place node =>
      have hnode : t.nodeAt? place = some node := isIn_of_locate hlocate
      replace hnames : place = above ++ [name] := hnames
      rw [hnames, hnone] at hnode
      cases hnode
    | absent above' name' =>
      obtain ⟨-, hname⟩ := List.append_inj' hnames rfl
      exact List.singleton_inj.1 hname ▸ creatable_of_locate hlocate
  · rintro (_ | ⟨n, names⟩) node hnode
    · rfl
    · cases hnode

/-! ### Once more -/

/-- Writing a file again changes nothing. -/
theorem Writes.again (h : Writes t path bytes place t') : t'.write path bytes = .ok t' := by
  obtain ⟨found, hlocate, rfl⟩ := h.leads
  have hnode := h.nodeAt?
  have hagain : t'.locate .created path = .ok (.found found.names (.file bytes)) :=
    locate_extends h.extended (.inl rfl) hlocate hnode (by simp)
  obtain ⟨-, -, above, name, -, hnames, -, -⟩ := h
  rw [hnames] at hagain hnode
  rw [write, hagain]
  simp only [List.dropLast_concat, List.getLastD_concat, setAt_of_below? hnode]

/-- If links are not followed at the end, the path may lead to a link. -/
theorem exists_found_bare (hending : ending = .followed)
    (h : t.walk ending links here names = .ok (.found place node)) :
    ∃ place' node', t.walk .bare links here names = .ok (.found place' node') := by
  fun_induction FileTree.walk t ending links here names with
  | case2 | case5 | case6 | case7 | case8 | case11 | case13 => cases h
  | case1 links here es hes => exact ⟨here, _, by rw [walk, hes]⟩
  | case3 _ _ _ _ hskip ih =>
    obtain ⟨place', node', hwalk⟩ := ih h
    exact ⟨place', node', by rw [walk, if_pos hskip, hwalk]⟩
  | case4 _ _ _ hskip ih =>
    obtain ⟨place', node', hwalk⟩ := ih h
    exact ⟨place', node', by rw [walk, if_neg hskip, if_pos rfl, hwalk]⟩
  | case9 _ _ _ _ hskip hup _ hlong _ hchild ih =>
    obtain ⟨place', node', hwalk⟩ := ih h
    refine ⟨place', node', ?_⟩
    rw [walk, if_neg hskip, if_neg hup, if_neg (by simp), if_neg hlong, hchild]
    exact hwalk
  | case10 _ here name hskip hup hlong bytes hchild =>
    refine ⟨here ++ [name], .file bytes, ?_⟩
    rw [walk, if_neg hskip, if_neg hup, if_neg (by simp), if_neg hlong, hchild]
    rfl
  | case12 _ _ _ _ _ _ _ _ _ _ hbare => simp [hending] at hbare
  | case14 here name rest hskip hup _ hlong target hchild _ _ ih =>
    rw [walk, if_neg hskip, if_neg hup, if_neg (by simp), if_neg hlong, hchild]
    by_cases hrest : rest = []
    · exact ⟨here ++ [name], .link target, by simp [hrest]⟩
    · simpa [hrest] using ih h

theorem createDirectories_empty (t : FileTree) : t.createDirectories "" = .ok t := rfl

/-- Nothing is created where there is a directory. -/
theorem createDirectories_of_isDirectory (h : t.isDirectory path) :
    t.createDirectories path = .ok t := by
  obtain ⟨place, es, hresolve⟩ := isDirectory_iff.1 h
  have hlocate := resolve_eq_ok_iff.1 hresolve
  have hpath := passable_of_locate hlocate
  rw [locate_of_passable hpath] at hlocate
  obtain ⟨place', node', hbare⟩ := exists_found_bare rfl hlocate
  rw [← locate_of_passable hpath] at hbare
  have hcreate : t.createDirectory path = .error .alreadyExists := by
    rw [createDirectory, hbare]
  have hempty : path.isEmpty = false := by simpa using hpath.notEmpty
  obtain ⟨above, hchain⟩ : ∃ above, chain path.length path = path :: above := by
    cases path.length with
    | zero => exact ⟨[], rfl⟩
    | succ n =>
      rw [chain]
      split
      · exact ⟨[], rfl⟩
      · exact ⟨_, rfl⟩
  rw [createDirectories, hchain, createChain, hempty, hcreate]
  simp [h]

end FileTree

end IndexMapping.Files

import IndexMapping.Files.Path
import Mathlib.Data.List.Induction
import Mathlib.Data.List.Nodup

/-! The names between the slashes of a path. A path that ends in a name leads to this name in the
directory of the path, and so does the name joined to that directory. The two paths are the same
but for empty names and dots in front of the last name. -/

namespace IndexMapping.Files.Path

variable {acc cs : List Char} {i : Nat} {as bs ks : List Piece} {p q : Piece}

/-! ### Splitting at slashes -/

theorem split_slash (acc xs ys : List Char) (i : Nat) :
    split acc i (xs ++ '/' :: ys) = split acc i xs ++ split [] (i + xs.length + 1) ys := by
  induction xs generalizing acc i with
  | nil => simp [split]
  | cons c xs ih =>
    have hlength : i + 1 + xs.length + 1 = i + (xs.length + 1) + 1 := by omega
    by_cases hc : c = '/'
    · simp [split, hc, ih, hlength]
    · simp [split, hc, ih, hlength]

theorem split_of_no_slash (acc : List Char) (i : Nat) (h : '/' ∉ cs) :
    split acc i cs = [⟨String.ofList (acc.reverse ++ cs), i + cs.length⟩] := by
  induction cs generalizing acc i with
  | nil => simp [split]
  | cons c cs ih =>
    rw [List.mem_cons, not_or] at h
    have hlength : i + 1 + cs.length = i + (cs.length + 1) := by omega
    simp [split, Ne.symm h.1, ih _ _ h.2, hlength]

/-- A piece that is not the last one ends at a slash. -/
theorem split_inner (h : split acc i cs = as ++ p :: q :: bs) :
    ∃ xs ys, cs = xs ++ '/' :: ys ∧ p.stop = i + xs.length ∧ split acc i xs = as ++ [p] ∧
      split [] (p.stop + 1) ys = q :: bs := by
  induction cs generalizing acc i as with
  | nil =>
    have hlength := congrArg List.length h
    simp [split] at hlength
    omega
  | cons c cs ih =>
    by_cases hc : c = '/'
    · rw [split, if_pos hc] at h
      subst hc
      cases as with
      | nil =>
        obtain ⟨rfl, hrest⟩ := List.cons.inj h
        exact ⟨[], cs, rfl, rfl, rfl, hrest⟩
      | cons a as =>
        obtain ⟨rfl, hrest⟩ := List.cons.inj h
        obtain ⟨xs, ys, rfl, hstop, hxs, hys⟩ := ih hrest
        refine ⟨'/' :: xs, ys, rfl, by rw [hstop, List.length_cons]; omega, ?_, hys⟩
        rw [split, if_pos rfl, hxs, List.cons_append]
    · rw [split, if_neg hc] at h
      obtain ⟨xs, ys, rfl, hstop, hxs, hys⟩ := ih h
      refine ⟨c :: xs, ys, rfl, by rw [hstop, List.length_cons]; omega, ?_, hys⟩
      rw [split, if_neg hc, hxs]

/-- The names do not depend on where the count of characters starts. -/
theorem names_split (acc cs : List Char) (i j : Nat) :
    (split acc i cs).map (·.name) = (split acc j cs).map (·.name) := by
  induction cs generalizing acc i j with
  | nil => rfl
  | cons c cs ih =>
    by_cases hc : c = '/'
    · rw [split, split, if_pos hc, if_pos hc, List.map_cons, List.map_cons, ih [] (i + 1) (j + 1)]
    · rw [split, split, if_neg hc, if_neg hc, ih _ (i + 1) (j + 1)]

theorem split_ne_nil (acc cs : List Char) (i : Nat) : split acc i cs ≠ [] := by
  cases cs with
  | nil => exact List.cons_ne_nil _ _
  | cons c cs =>
    rw [split]
    split
    · exact List.cons_ne_nil _ _
    · exact split_ne_nil _ cs _

/-! ### Names -/

variable {path front base name : String} {ds : List String}

/-- Between other slashes an empty name or a dot leads nowhere. -/
def counts (name : String) : Bool := name ≠ "" && name ≠ "."

/-- The names between the slashes of a path, those that do not count included. -/
def segments (path : String) : List String := (pieces path).map (·.name)

theorem segments_ne_nil (path : String) : segments path ≠ [] :=
  fun h => split_ne_nil _ _ _ (List.map_eq_nil_iff.1 h)

theorem no_slash_of_mem_split (h : p ∈ split acc i cs) (hacc : '/' ∉ acc) :
    '/' ∉ p.name.toList := by
  induction cs generalizing acc i with
  | nil =>
    obtain rfl := List.mem_singleton.1 h
    simpa using hacc
  | cons c cs ih =>
    rw [split] at h
    split_ifs at h with hc
    · rcases List.mem_cons.1 h with rfl | h
      · simpa using hacc
      · exact ih h List.not_mem_nil
    · exact ih h (List.not_mem_cons_of_ne_of_not_mem (Ne.symm hc) hacc)

theorem no_slash_of_mem_segments (h : name ∈ segments path) : '/' ∉ name.toList := by
  obtain ⟨p, hp, rfl⟩ := List.mem_map.1 h
  exact no_slash_of_mem_split hp List.not_mem_nil

theorem segments_slash (hname : '/' ∉ name.toList) :
    segments (front ++ "/" ++ name) = segments front ++ [name] := by
  simp [segments, pieces, split_slash, split_of_no_slash _ _ hname]

theorem segments_of_no_slash (hname : '/' ∉ name.toList) : segments name = [name] := by
  simp [segments, pieces, split_of_no_slash _ _ hname]

theorem exists_last_slash (h : '/' ∈ path.toList) :
    ∃ front name, path = front ++ "/" ++ name ∧ '/' ∉ name.toList := by
  obtain ⟨ys, xs, hreverse, hys⟩ := List.eq_append_cons_of_mem (List.mem_reverse.2 h)
  refine ⟨String.ofList xs.reverse, String.ofList ys.reverse, ?_, by simpa using hys⟩
  have hpath := congrArg List.reverse hreverse
  rw [List.reverse_reverse] at hpath
  apply String.ext
  simp [hpath]

/-- A path is its last name, or has it after a slash. -/
theorem eq_of_segments (h : segments path = ds ++ [name]) :
    '/' ∉ name.toList ∧ (path = name ∧ ds = [] ∨
      ∃ front, path = front ++ "/" ++ name ∧ ds = segments front) := by
  by_cases hslash : '/' ∈ path.toList
  · obtain ⟨front, last, rfl, hlast⟩ := exists_last_slash hslash
    rw [segments_slash hlast] at h
    obtain ⟨rfl, hname⟩ := List.append_inj' h rfl
    obtain rfl := List.singleton_inj.1 hname
    exact ⟨hlast, .inr ⟨front, rfl, rfl⟩⟩
  · rw [segments_of_no_slash hslash, ← List.nil_append [path]] at h
    obtain ⟨rfl, hname⟩ := List.append_inj' h rfl
    obtain rfl := List.singleton_inj.1 hname
    exact ⟨hslash, .inl ⟨rfl, rfl⟩⟩

/-! ### Parts -/

/-- The pieces that are parts of a path. -/
def kept : List Piece → List Piece
  | [] => []
  | p :: ps => (if p.name = "" then [] else [p]) ++ ps.filter fun q => counts q.name

theorem parts_eq (path : String) : parts path = kept (pieces path) := by
  rw [parts]
  cases pieces path with
  | nil => rfl
  | cons p ps => rfl

theorem kept_concat (h : counts q.name) : kept (as ++ [q]) = kept as ++ [q] := by
  cases as with
  | nil =>
    have hname : q.name ≠ "" := by
      simp only [counts, Bool.and_eq_true, decide_eq_true_eq] at h
      exact h.1
    simp [kept, hname]
  | cons p as => simp [kept, h]

theorem kept_concat_of_not_counts (h : counts q.name = false) (has : as ≠ []) :
    kept (as ++ [q]) = kept as := by
  obtain ⟨p, ps, rfl⟩ := List.exists_cons_of_ne_nil has
  simp [kept, h]

theorem of_kept_eq_nil (h : kept (p :: as) = []) :
    p.name = "" ∧ ∀ b ∈ as, counts b.name = false := by
  rw [kept, List.append_eq_nil_iff, List.filter_eq_nil_iff] at h
  obtain ⟨hp, has⟩ := h
  refine ⟨?_, fun b hb => Bool.eq_false_iff.2 (has b hb)⟩
  by_contra hne
  rw [if_neg hne] at hp
  cases hp

/-- Behind the last part of a path nothing counts. -/
theorem of_kept_eq_concat (h : kept as = ks ++ [p]) :
    ∃ cs bs, as = cs ++ p :: bs ∧ p.name ≠ "" ∧ ∀ b ∈ bs, counts b.name = false := by
  induction as using List.reverseRecOn with
  | nil => simp [kept] at h
  | append_singleton as b ih =>
    by_cases hb : counts b.name
    · rw [kept_concat hb] at h
      obtain ⟨-, hp⟩ := List.append_inj' h rfl
      obtain rfl := List.singleton_inj.1 hp
      refine ⟨as, [], rfl, ?_, by simp⟩
      simp only [counts, Bool.and_eq_true, decide_eq_true_eq] at hb
      exact hb.1
    · rw [Bool.not_eq_true] at hb
      by_cases has : as = []
      · subst has
        by_cases hname : b.name = ""
        · simp [kept, hname] at h
        · have hkept : kept [b] = [] ++ [b] := by simp [kept, hname]
          rw [List.nil_append, hkept] at h
          obtain ⟨-, hp⟩ := List.append_inj' h rfl
          obtain rfl := List.singleton_inj.1 hp
          exact ⟨[], [], rfl, hname, by simp⟩
      · rw [kept_concat_of_not_counts hb has] at h
        obtain ⟨cs, bs, rfl, hname, hbs⟩ := ih h
        refine ⟨cs, bs ++ [b], by simp, hname, ?_⟩
        rw [List.forall_mem_append, List.forall_mem_singleton]
        exact ⟨hbs, hb⟩

theorem exists_pieces_of_segments (h : segments path = ds ++ [name]) :
    ∃ as q, pieces path = as ++ [q] ∧ ds = as.map (·.name) ∧ q.name = name := by
  obtain ⟨as, bs, hpieces, has, hbs⟩ := List.map_eq_append_iff.1 h
  obtain ⟨q, rfl, hq⟩ := List.map_eq_singleton_iff.1 hbs
  exact ⟨as, q, hpieces, has.symm, hq⟩

theorem fileName?_of_segments (h : segments path = ds ++ [name]) (hname : counts name)
    (hdots : name ≠ "..") : fileName? path = some name := by
  obtain ⟨as, q, hpieces, -, rfl⟩ := exists_pieces_of_segments h
  have hdot : q.name ≠ "." := by
    simp only [counts, Bool.and_eq_true, decide_eq_true_eq] at hname
    exact hname.2
  simp [fileName?, parts_eq, hpieces, kept_concat hname, hdot, hdots]

/-! ### The directory of a path -/

/-- In front of the last name there is a slash, and the pieces up to any other one make a path. -/
theorem exists_base (h : pieces path = as ++ p :: (bs ++ [q])) : ∃ base rest,
    path = base ++ "/" ++ rest ++ q.name ∧ String.ofList (path.toList.take p.stop) = base ∧
      pieces base = as ++ [p] := by
  obtain ⟨b, bs', hbs⟩ := List.exists_cons_of_ne_nil (List.append_ne_nil_of_right_ne_nil bs
    (List.cons_ne_nil q []))
  rw [pieces, hbs] at h
  obtain ⟨xs, ys, hpath, hstop, hxs, hys⟩ := split_inner h
  have hsegments : segments (String.ofList ys) = bs.map (·.name) ++ [q.name] := by
    rw [segments, pieces, String.toList_ofList, names_split _ _ 0 (p.stop + 1), hys, ← hbs,
      List.map_append, List.map_singleton]
  have hrest : ∃ rest, String.ofList ys = rest ++ q.name := by
    rcases (eq_of_segments hsegments).2 with ⟨hname, -⟩ | ⟨front, hfront, -⟩
    · exact ⟨"", by rw [hname, String.empty_append]⟩
    · exact ⟨front ++ "/", hfront⟩
  obtain ⟨rest, hrest⟩ := hrest
  refine ⟨String.ofList xs, rest, ?_, ?_, by rwa [pieces, String.toList_ofList]⟩
  · rw [String.append_assoc, ← hrest]
    apply String.ext
    simp [hpath]
  · rw [hpath, hstop, Nat.zero_add, List.take_left']
    rfl

theorem isAbsolute_append (hbase : base ≠ "") (rest : String) :
    isAbsolute (base ++ rest) = isAbsolute base := by
  have hlist : base.toList ≠ [] := by
    simpa using hbase
  obtain ⟨c, cs, hcs⟩ := List.exists_cons_of_ne_nil hlist
  simp [isAbsolute, hcs]

theorem isAbsolute_of_no_slash (hname : '/' ∉ name.toList) : isAbsolute name = false := by
  rw [isAbsolute, decide_eq_false_iff_not]
  exact fun hhead => hname (List.mem_of_mem_head? (by rw [hhead]; rfl))

theorem join_root (hname : '/' ∉ name.toList) : join "/" name = "/" ++ name := by
  simp [join, isAbsolute_of_no_slash hname]

theorem getLast?_of_segments (h : segments base = ds ++ [front]) (hfront : front ≠ "") :
    base.toList.getLast? = front.toList.getLast? := by
  have hlist : front.toList ≠ [] := by
    simpa using hfront
  rcases (eq_of_segments h).2 with ⟨rfl, -⟩ | ⟨rest, rfl, -⟩
  · rfl
  · rw [String.toList_append, List.getLast?_append_of_ne_nil _ hlist]

theorem ne_empty_of_segments (h : segments base = ds ++ [front]) (hfront : front ≠ "") :
    base ≠ "" := by
  rintro rfl
  have hlast := getLast?_of_segments h hfront
  exact hfront (String.toList_eq_nil_iff.1 (List.getLast?_eq_none_iff.1 hlast.symm))

theorem join_of_segments (h : segments base = ds ++ [front]) (hfront : front ≠ "")
    (hname : '/' ∉ name.toList) : join base name = base ++ "/" ++ name := by
  have hlast : base.toList.getLast? ≠ some '/' := by
    rw [getLast?_of_segments h hfront]
    exact fun hslash => (eq_of_segments h).1 (List.mem_of_mem_getLast? (by rw [hslash]; rfl))
  simp [join, isAbsolute_of_no_slash hname, ne_empty_of_segments h hfront, hlast]

/-! ### Joined paths -/

theorem exists_slash (h : base.toList.getLast? = some '/') : ∃ front, base = front ++ "/" := by
  obtain ⟨cs, hcs⟩ := List.getLast?_eq_some_iff.1 h
  refine ⟨String.ofList cs, ?_⟩
  apply String.ext
  simp [hcs]

/-- A slash is put between the parts unless the first one ends in one. -/
theorem join_cases (hbase : base ≠ "") (hpath : isAbsolute path = false) :
    (∃ front, base = front ++ "/" ∧ join base path = front ++ "/" ++ path) ∨
      join base path = base ++ "/" ++ path := by
  have hempty : base.isEmpty = false := by simpa using hbase
  rw [join, hpath, hempty, Bool.or_self, if_neg (by decide)]
  split_ifs with hslash
  · obtain ⟨front, rfl⟩ := exists_slash hslash
    exact .inl ⟨front, rfl, rfl⟩
  · exact .inr rfl

theorem isAbsolute_join (hbase : base ≠ "") (hpath : isAbsolute path = false) :
    isAbsolute (join base path) = isAbsolute base := by
  rcases join_cases hbase hpath with ⟨front, rfl, hjoin⟩ | hjoin
  · rw [hjoin]
    exact isAbsolute_append hbase path
  · rw [hjoin, String.append_assoc]
    exact isAbsolute_append hbase _

/-! ### The way to the last name -/

/-- A path to a name in a directory. It is the name alone, or it starts with `base`, a path to the
directory unless it is empty, when the directory is the topmost one. Of the names `ds` in front of
the last one only those of `base` count. -/
structure Leads (path : String) (ds : List String) (name base : String) : Prop where
  split : path = name ∧ base = "." ∨ ∃ rest, path = base ++ "/" ++ rest ++ name
  directory : directory path = if base = "" then "/" else base
  join : join (Path.directory path) name = base ++ "/" ++ name
  counts : ds.filter counts = (segments base).filter Path.counts

theorem filter_of_not_counts (h : ∀ b ∈ bs, Path.counts b.name = false) :
    (bs.map (·.name)).filter Path.counts = [] := by
  rw [List.filter_eq_nil_iff, List.forall_mem_map]
  exact fun b hb => Bool.eq_false_iff.1 (h b hb)

theorem parent?_eq (hpieces : pieces path = as ++ [q]) (hname : counts q.name) :
    parent? path = match (kept as).reverse with
      | [] => some (if isAbsolute path then "/" else "")
      | p :: _ => some (String.ofList (path.toList.take p.stop)) := by
  rw [parent?, parts_eq, hpieces, kept_concat hname, List.reverse_concat]
  cases (kept as).reverse with
  | nil => rfl
  | cons p ps => rfl

theorem leads_alone (hpieces : pieces name = [q]) (hname : counts q.name)
    (hslash : '/' ∉ name.toList) : Leads name [] name "." := by
  have hparent := parent?_eq (List.nil_append [q] ▸ hpieces) hname
  have hdirectory : directory name = "." := by
    simp [directory, hparent, kept, isAbsolute_of_no_slash hslash]
  have hdot : segments "." = [] ++ ["."] := rfl
  refine ⟨.inl ⟨rfl, rfl⟩, hdirectory, ?_, rfl⟩
  rw [hdirectory]
  exact join_of_segments hdot (by decide) hslash

/-- If no part is in front of the name, the path starts with a slash. -/
theorem leads_root (hpieces : pieces path = p :: as ++ [q]) (hname : counts q.name)
    (hslash : '/' ∉ q.name.toList) (hkept : kept (p :: as) = []) :
    Leads path ((p :: as).map (·.name)) q.name "" := by
  obtain ⟨hp, has⟩ := of_kept_eq_nil hkept
  have hinner : pieces path = [] ++ p :: (as ++ [q]) := hpieces
  obtain ⟨base, rest, hpath, -, hbase⟩ := exists_base hinner
  have hsegments : segments base = [] ++ [""] := by
    rw [segments, hbase, ← hp]
    rfl
  obtain rfl : base = "" := by
    rcases (eq_of_segments hsegments).2 with ⟨hempty, -⟩ | ⟨front, -, hfront⟩
    · exact hempty
    · exact absurd hfront.symm (segments_ne_nil front)
  have habsolute : isAbsolute path = true := by
    simp [isAbsolute, hpath]
  have hdirectory : directory path = "/" := by
    simp [directory, parent?_eq hpieces hname, hkept, habsolute]
  refine ⟨.inr ⟨rest, hpath⟩, hdirectory, ?_, ?_⟩
  · rw [hdirectory]
    exact join_root hslash
  · rw [List.map_cons, hp, List.filter_cons_of_neg (by decide), filter_of_not_counts has]
    rfl

/-- Otherwise it starts with the path that ends in the last part in front of the name. -/
theorem leads_part (hpieces : pieces path = as ++ p :: bs ++ [q]) (hname : counts q.name)
    (hslash : '/' ∉ q.name.toList) (hp : p.name ≠ "") (hbs : ∀ b ∈ bs, counts b.name = false)
    (hkept : kept (as ++ p :: bs) = ks ++ [p]) :
    ∃ base, Leads path ((as ++ p :: bs).map (·.name)) q.name base := by
  have hparent := parent?_eq hpieces hname
  rw [hkept, List.reverse_concat] at hparent
  rw [List.append_assoc, List.cons_append] at hpieces
  obtain ⟨base, rest, hpath, htake, hbase⟩ := exists_base hpieces
  have hsegments : segments base = as.map (·.name) ++ [p.name] := by
    rw [segments, hbase, List.map_append, List.map_singleton]
  have hne : base ≠ "" := ne_empty_of_segments hsegments hp
  have hdirectory : directory path = base := by
    simp [directory, hparent, htake, hne]
  refine ⟨base, .inr ⟨rest, hpath⟩, by rw [hdirectory, if_neg hne], ?_, ?_⟩
  · rw [hdirectory]
    exact join_of_segments hsegments hp hslash
  · have hcounts := filter_of_not_counts hbs
    rw [hsegments, List.map_append, List.map_cons, List.filter_append, List.filter_append,
      ← List.singleton_append, List.filter_append, hcounts, List.append_nil]

theorem exists_leads (h : segments path = ds ++ [name]) (hname : counts name) :
    ∃ base, Leads path ds name base := by
  obtain ⟨as, q, hpieces, rfl, rfl⟩ := exists_pieces_of_segments h
  obtain ⟨hslash, hcases⟩ := eq_of_segments h
  rcases List.eq_nil_or_concat (kept as) with hkept | ⟨ks, p, hkept⟩
  · cases as with
    | nil =>
      obtain ⟨rfl, -⟩ : path = q.name ∧ _ := by
        refine hcases.resolve_right ?_
        rintro ⟨front, -, hfront⟩
        exact segments_ne_nil front hfront.symm
      exact ⟨".", leads_alone hpieces hname hslash⟩
    | cons p as => exact ⟨"", leads_root hpieces hname hslash hkept⟩
  · rw [List.concat_eq_append] at hkept
    obtain ⟨as, bs, rfl, hp, hbs⟩ := of_kept_eq_concat hkept
    exact leads_part hpieces hname hslash hp hbs hkept

/-- An empty name and a dot stand between the directory and the name. -/
example : segments "pkg//./a" = ["pkg", "", ".", "a"] ∧ directory "pkg//./a" = "pkg" ∧
    join "pkg" "a" = "pkg/a" := by decide

namespace Leads

theorem segments_join (h : Leads path ds name base) (hname : '/' ∉ name.toList) :
    segments (Path.join (Path.directory path) name) = segments base ++ [name] := by
  rw [h.join, segments_slash hname]

theorem counts_directory (h : Leads path ds name base) :
    (segments (Path.directory path)).filter Path.counts = ds.filter Path.counts := by
  rw [h.directory, h.counts]
  split
  next hbase => rw [hbase]; rfl
  next => rfl

theorem isAbsolute_slash (h : Leads path ds name base) (rest : String) :
    isAbsolute (base ++ "/" ++ rest) = isAbsolute (Path.directory path) := by
  have hslash : base ++ "/" ≠ "" := by
    simp
  rw [isAbsolute_append hslash, h.directory]
  split
  next hbase => rw [hbase, String.empty_append]
  next hbase => exact isAbsolute_append hbase _

theorem isAbsolute_directory (h : Leads path ds name base) (hname : '/' ∉ name.toList) :
    isAbsolute (Path.directory path) = isAbsolute path := by
  rcases h.split with ⟨rfl, rfl⟩ | ⟨rest, hpath⟩
  · rw [h.directory, isAbsolute_of_no_slash hname]
    rfl
  · rw [← h.isAbsolute_slash (rest ++ name), ← String.append_assoc, ← hpath]

theorem isAbsolute_join (h : Leads path ds name base) :
    isAbsolute (Path.join (Path.directory path) name) = isAbsolute (Path.directory path) := by
  rw [h.join, h.isAbsolute_slash]

end Leads

end IndexMapping.Files.Path

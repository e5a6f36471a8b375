import IndexMapping.Proofs.Flat.Difference

/-! What the flat view tells of an object. A path without dots in its names tells where the leaf
is, so that what has leaves can be found again. Empty objects have none, and an index reads like
a name of digits. Apart from these, equal flat views are those of equal objects. -/

namespace IndexMapping.Json

/-- The text is a row of decimal digits. -/
def Digits (s : String) : Prop := s ≠ "" ∧ ∀ c ∈ s.toList, c.isDigit = true

/-- The name can be read off a path. Where arrays are taken apart it must not look like an index. -/
structure LegibleName (sequences : Bool) (name : String) : Prop where
  dotless : Tree.Dotless name
  notDigits : sequences = true → ¬ Digits name

/-- The value can be read off its leaves: outside of arrays that are leaves, all names can be
read off paths and nothing is empty. -/
inductive Legible (sequences : Bool) : Json → Prop
  | null : Legible sequences null
  | bool (b : Bool) : Legible sequences (bool b)
  | number (n : Number) : Legible sequences (number n)
  | string (s : String) : Legible sequences (string s)
  | array {xs : List Json} (nonempty : sequences = true → xs ≠ [])
      (items : sequences = true → ∀ x ∈ xs, Legible sequences x) : Legible sequences (array xs)
  | object {ms : List (String × Json)} (nonempty : ms ≠ [])
      (names : ∀ m ∈ ms, LegibleName sequences m.1)
      (values : ∀ m ∈ ms, Legible sequences m.2) : Legible sequences (object ms)

/-- The members of an object that can be read off its flat view. It may be empty. -/
structure LegibleRoot (sequences : Bool) (ms : List (String × Json)) : Prop where
  names : ∀ m ∈ ms, LegibleName sequences m.1
  values : ∀ m ∈ ms, Legible sequences m.2

/-! ### Deciding what can be read off -/

-- over the characters of the text: an instance that enumerates all characters would not finish
instance (s : String) : Decidable (Digits s) :=
  @instDecidableAnd _ _ inferInstance (List.decidableBAll _ s.toList)

instance (sequences : Bool) (name : String) : Decidable (LegibleName sequences name) :=
  decidable_of_iff (Tree.Dotless name ∧ (sequences = true → ¬ Digits name))
    ⟨fun h => ⟨h.1, h.2⟩, fun h => ⟨h.dotless, h.notDigits⟩⟩

namespace Legible

variable {sequences : Bool} {xs : List Json} {ms : List (String × Json)}

theorem array_iff :
    Legible true (.array xs) ↔ xs ≠ [] ∧ ∀ x ∈ xs, x.Legible true := by
  refine ⟨fun h => ?_, fun h => .array (fun _ => h.1) fun _ => h.2⟩
  cases h with
  | array nonempty items => exact ⟨nonempty rfl, items rfl⟩

theorem object_iff : Legible sequences (.object ms) ↔
    ms ≠ [] ∧ (∀ m ∈ ms, LegibleName sequences m.1) ∧ ∀ m ∈ ms, m.2.Legible sequences := by
  refine ⟨fun h => ?_, fun h => .object h.1 h.2.1 h.2.2⟩
  cases h with
  | object nonempty names values => exact ⟨nonempty, names, values⟩

mutual

def decide (sequences : Bool) : (v : Json) → Decidable (v.Legible sequences)
  | .null => isTrue .null
  | .bool b => isTrue (.bool b)
  | .number n => isTrue (.number n)
  | .string s => isTrue (.string s)
  | .array xs =>
    match sequences with
    | false => isTrue (.array nofun nofun)
    | true =>
      @decidable_of_iff _ _ array_iff.symm (@instDecidableAnd _ _ inferInstance (decideItems xs))
  | .object ms =>
    @decidable_of_iff _ _ object_iff.symm (@instDecidableAnd _ _ inferInstance
      (@instDecidableAnd _ _ inferInstance (decideMembers sequences ms)))

def decideItems : (xs : List Json) → Decidable (∀ x ∈ xs, x.Legible true)
  | [] => isTrue (List.forall_mem_nil _)
  | x :: xs =>
    @decidable_of_iff _ _ List.forall_mem_cons.symm
      (@instDecidableAnd _ _ (decide true x) (decideItems xs))

def decideMembers (sequences : Bool) :
    (ms : List (String × Json)) → Decidable (∀ m ∈ ms, m.2.Legible sequences)
  | [] => isTrue (List.forall_mem_nil _)
  | (n, v) :: ms =>
    @decidable_of_iff _ _
      (List.forall_mem_cons (p := fun m : String × Json => m.2.Legible sequences)
        (a := (n, v))).symm
      (@instDecidableAnd _ _ (decide sequences v) (decideMembers sequences ms))

end

instance (sequences : Bool) : DecidablePred (Legible sequences) := decide sequences

end Legible

instance (sequences : Bool) (ms : List (String × Json)) : Decidable (LegibleRoot sequences ms) :=
  decidable_of_iff
    ((∀ m ∈ ms, LegibleName sequences m.1) ∧ ∀ m ∈ ms, m.2.Legible sequences)
    ⟨fun h => ⟨h.1, h.2⟩, fun h => ⟨h.names, h.values⟩⟩

variable {sequences : Bool} {path : String} {place : String → String} {v w : Json}
  {xs ys : List Json} {ms ns : List (String × Json)}

theorem Legible.dotlessNames (h : v.Legible sequences) : v.DotlessNames sequences := by
  induction h with
  | null => exact .null
  | bool b => exact .bool b
  | number n => exact .number n
  | string s => exact .string s
  | array _ _ ih => exact .array ih
  | object _ names _ ih => exact .object (fun m hm => (names m hm).dotless) ih

theorem LegibleRoot.dotlessNames (h : LegibleRoot sequences ms) :
    (object ms).DotlessNames sequences :=
  .object (fun m hm => (h.names m hm).dotless) fun m hm => (h.values m hm).dotlessNames

/-! ### Parts -/

/-- The elements, with their places as names. -/
def numbered (index : Nat) (xs : List Json) : List (String × Json) :=
  (xs.zipIdx index).map fun (x, i) => (toString i, x)

theorem mem_numbered {m : String × Json} :
    m ∈ numbered 0 xs ↔ ∃ i : Nat, m.1 = toString i ∧ xs[i]? = some m.2 := by
  obtain ⟨name, x⟩ := m
  simp only [numbered, List.mem_map, Prod.exists, List.mk_mem_zipIdx_iff_getElem?, Prod.mk.injEq]
  constructor
  · rintro ⟨_, i, hi, rfl, rfl⟩
    exact ⟨i, rfl, hi⟩
  · rintro ⟨i, rfl, hi⟩
    exact ⟨x, i, hi, rfl, rfl⟩

theorem toString_mem_numbered {i : Nat} {x : Json} :
    (toString i, x) ∈ numbered 0 xs ↔ xs[i]? = some x := by
  rw [mem_numbered]
  constructor
  · rintro ⟨j, hij, hj⟩
    rwa [Tree.toString_injective hij]
  · intro hi
    exact ⟨i, rfl, hi⟩

theorem nodup_numbered {index : Nat} : ((numbered index xs).map (·.1)).Nodup := by
  have hnames : (numbered index xs).map (·.1) = (List.range' index xs.length).map toString := by
    rw [numbered, List.map_map, ← List.zipIdx_map_snd index xs, List.map_map]
    rfl
  rw [hnames]
  exact List.Nodup.map Tree.toString_injective List.nodup_range'

theorem elementLeaves_eq {index : Nat} : elementLeaves sequences path index xs =
    memberLeaves sequences (Tree.step path) (numbered index xs) := by
  induction xs generalizing index with
  | nil => rfl
  | cons x xs ih => rw [elementLeaves, ih]; rfl

/-- What a value is taken apart into. -/
def parts? (sequences : Bool) : Json → Option (List (String × Json))
  | object ms => some ms
  | array xs => if sequences then some (numbered 0 xs) else none
  | _ => none

theorem leaves_of_parts (h : v.parts? sequences = some ms) :
    v.leaves sequences path = memberLeaves sequences (Tree.step path) ms := by
  cases v with
  | null | bool b | number n | string s => nomatch h
  | array xs =>
    rw [parts?] at h
    split at h
    next hseq =>
      cases h
      rw [leaves, if_pos hseq, elementLeaves_eq]
    next => cases h
  | object ms' =>
    cases h
    rfl

theorem leaves_of_no_parts (h : v.parts? sequences = none) :
    v.leaves sequences path = [(path, v)] := by
  cases v with
  | null | bool b | number n | string s => rfl
  | array xs =>
    rw [parts?] at h
    split at h
    next => cases h
    next hseq => rw [leaves, if_neg hseq]
  | object ms' => cases h

theorem memberLeaves_ne_nil (hne : ms ≠ []) (h : ∀ m ∈ ms, ∀ path, m.2.leaves sequences path ≠ []) :
    memberLeaves sequences place ms ≠ [] := by
  obtain ⟨m, hm⟩ := List.exists_mem_of_ne_nil ms hne
  obtain ⟨l, hl⟩ := List.exists_mem_of_ne_nil _ (h m hm (place m.1))
  exact List.ne_nil_of_mem (mem_memberLeaves_iff.2 ⟨m, hm, hl⟩)

theorem Legible.leaves_ne_nil (h : v.Legible sequences) : v.leaves sequences path ≠ [] := by
  induction h generalizing path with
  | null | bool b | number n | string s => exact List.cons_ne_nil _ _
  | @array xs nonempty items ih =>
    rw [leaves]
    split
    next hseq =>
      rw [elementLeaves_eq]
      refine memberLeaves_ne_nil ?_ fun m hm path => ?_
      · simpa [numbered] using nonempty hseq
      · obtain ⟨i, -, hi⟩ := mem_numbered.1 hm
        exact ih hseq _ (List.mem_of_getElem? hi)
    next => exact List.cons_ne_nil _ _
  | object nonempty _ _ ih => exact memberLeaves_ne_nil nonempty fun m hm _ => ih m hm

/-- The parts can be told apart in paths, and each has leaves. -/
structure Told (sequences : Bool) (ms : List (String × Json)) : Prop where
  distinct : (ms.map (·.1)).Nodup
  dotless : ∀ m ∈ ms, Tree.Dotless m.1
  shown : ∀ m ∈ ms, ∀ path, m.2.leaves sequences path ≠ []

theorem LegibleRoot.told (h : LegibleRoot sequences ms) (hms : (object ms).Distinct) :
    Told sequences ms where
  distinct := hms.names_nodup
  dotless m hm := (h.names m hm).dotless
  shown m hm _ := (h.values m hm).leaves_ne_nil

theorem told_numbered (h : ∀ x ∈ xs, x.Legible sequences) : Told sequences (numbered 0 xs) where
  distinct := nodup_numbered
  dotless := by
    intro m hm
    obtain ⟨i, hname, -⟩ := mem_numbered.1 hm
    exact hname ▸ Tree.dotless_toString i
  shown := by
    intro m hm path
    obtain ⟨i, -, hi⟩ := mem_numbered.1 hm
    exact (h _ (List.mem_of_getElem? hi)).leaves_ne_nil

/-! ### Leaves that match -/

/-- The same paths, and equal values at them. -/
structure Matches (as bs : List (String × Json)) : Prop where
  forth : ∀ l ∈ as, ∃ y, (l.1, y) ∈ bs ∧ l.2.same y = true
  back : ∀ l ∈ bs, ∃ x, (l.1, x) ∈ as ∧ x.same l.2 = true

/-- No part is where the whole is. -/
theorem notMem_memberLeaves_step {x : Json} :
    (path, x) ∉ memberLeaves sequences (Tree.step path) ms := by
  intro hx
  obtain ⟨m, -, hx⟩ := mem_memberLeaves_iff.1 hx
  exact Tree.not_below_step (below_of_mem_leaves hx)

/-- Members with leaves at one path have the same name. -/
theorem name_eq (hplace : Tree.Separates place) {m n l l' : String × Json}
    (hm : Tree.Dotless m.1) (hn : Tree.Dotless n.1) (hl : l ∈ m.2.leaves sequences (place m.1))
    (hl' : l' ∈ n.2.leaves sequences (place n.1)) (hpath : l.1 = l'.1) : m.1 = n.1 :=
  hplace _ _ _ hm hn (below_of_mem_leaves hl) (hpath ▸ below_of_mem_leaves hl')

namespace Matches

variable (hplace : Tree.Separates place) (hms : Told sequences ms) (hns : Told sequences ns)
  (h : Matches (memberLeaves sequences place ms) (memberLeaves sequences place ns))

include hplace hms hns h

/-- A part has a partner of the same name, and their leaves match. -/
theorem exists_right {m : String × Json} (hm : m ∈ ms) : ∃ w, (m.1, w) ∈ ns ∧
    Matches (m.2.leaves sequences (place m.1)) (w.leaves sequences (place m.1)) := by
  -- each leaf of the part is matched within a part of its name
  have hforth : ∀ l ∈ m.2.leaves sequences (place m.1), ∃ n ∈ ns, n.1 = m.1 ∧
      ∃ y, (l.1, y) ∈ n.2.leaves sequences (place n.1) ∧ l.2.same y = true := by
    intro l hl
    obtain ⟨y, hy, hly⟩ := h.forth l (mem_memberLeaves_iff.2 ⟨m, hm, hl⟩)
    obtain ⟨n, hn, hy⟩ := mem_memberLeaves_iff.1 hy
    exact ⟨n, hn, name_eq hplace (hns.dotless n hn) (hms.dotless m hm) hy hl rfl, y, hy, hly⟩
  obtain ⟨l, hl⟩ := List.exists_mem_of_ne_nil _ (hms.shown m hm (place m.1))
  obtain ⟨n, hn, hname, -⟩ := hforth l hl
  refine ⟨n.2, hname ▸ hn, fun l hl => ?_, fun l hl => ?_⟩
  · obtain ⟨n', hn', hname', y, hy, hly⟩ := hforth l hl
    obtain rfl : n' = n := List.inj_on_of_nodup_map hns.distinct hn' hn (hname'.trans hname.symm)
    exact ⟨y, hname ▸ hy, hly⟩
  · rw [← hname] at hl
    obtain ⟨x, hx, hxl⟩ := h.back l (mem_memberLeaves_iff.2 ⟨n, hn, hl⟩)
    obtain ⟨m', hm', hx⟩ := mem_memberLeaves_iff.1 hx
    have hname' := name_eq hplace (hms.dotless m' hm') (hns.dotless n hn) hx hl rfl
    obtain rfl : m' = m := List.inj_on_of_nodup_map hms.distinct hm' hm (hname'.trans hname)
    exact ⟨x, hx, hxl⟩

theorem exists_left {n : String × Json} (hn : n ∈ ns) : ∃ v, (n.1, v) ∈ ms := by
  obtain ⟨l, hl⟩ := List.exists_mem_of_ne_nil _ (hns.shown n hn (place n.1))
  obtain ⟨x, hx, -⟩ := h.back l (mem_memberLeaves_iff.2 ⟨n, hn, hl⟩)
  obtain ⟨m, hm, hx⟩ := mem_memberLeaves_iff.1 hx
  have hname := name_eq hplace (hms.dotless m hm) (hns.dotless n hn) hx hl rfl
  exact ⟨m.2, hname ▸ hm⟩

/-- Objects with matching leaves are equal, if this is so of their members. -/
theorem same_object (hvalues : ∀ m ∈ ms, ∀ w path, (m.1, w) ∈ ns →
      Matches (m.2.leaves sequences path) (w.leaves sequences path) → m.2.same w = true) :
    (object ms).same (object ns) = true := by
  have hsub : ms.map (·.1) ⊆ ns.map (·.1) := by
    intro name hname
    obtain ⟨m, hm, rfl⟩ := List.mem_map.1 hname
    obtain ⟨w, hw, -⟩ := h.exists_right hplace hms hns hm
    exact List.mem_map.2 ⟨_, hw, rfl⟩
  have hsub' : ns.map (·.1) ⊆ ms.map (·.1) := by
    intro name hname
    obtain ⟨n, hn, rfl⟩ := List.mem_map.1 hname
    obtain ⟨v, hv⟩ := h.exists_left hplace hms hns hn
    exact List.mem_map.2 ⟨_, hv, rfl⟩
  have hperm : (ms.map (·.1)).Perm (ns.map (·.1)) :=
    (List.perm_ext_iff_of_nodup hms.distinct hns.distinct).2 fun _ => ⟨(hsub ·), (hsub' ·)⟩
  refine same_object_iff.2 ⟨ns, rfl, by simpa using hperm.length_eq, fun m hm => ?_⟩
  obtain ⟨w, hw, hleaves⟩ := h.exists_right hplace hms hns hm
  exact ⟨w, (member?_eq_some_iff hns.distinct).2 hw, hvalues m hm w _ hw hleaves⟩

end Matches

/-- Arrays with matching leaves are equal, if this is so of their elements. -/
theorem Matches.same_array (hplace : Tree.Separates place) (hxs : Told sequences (numbered 0 xs))
    (hys : Told sequences (numbered 0 ys))
    (h : Matches (memberLeaves sequences place (numbered 0 xs))
      (memberLeaves sequences place (numbered 0 ys)))
    (helements : ∀ x ∈ xs, ∀ y ∈ ys, ∀ path,
      Matches (x.leaves sequences path) (y.leaves sequences path) → x.same y = true) :
    (array xs).same (array ys) = true := by
  have hright : ∀ (i : Nat) (x : Json), xs[i]? = some x →
      ∃ y, ys[i]? = some y ∧ x.same y = true := by
    intro i x hx
    obtain ⟨y, hy, hleaves⟩ := h.exists_right hplace hxs hys (toString_mem_numbered.2 hx)
    have hy := toString_mem_numbered.1 hy
    exact ⟨y, hy, helements x (List.mem_of_getElem? hx) y (List.mem_of_getElem? hy) _ hleaves⟩
  have hlen : xs.length = ys.length := by
    apply Nat.le_antisymm
    · refine Nat.le_of_not_lt fun hlt => ?_
      obtain ⟨y, hy, -⟩ := hright _ _ (List.getElem?_eq_getElem hlt)
      simp at hy
    · refine Nat.le_of_not_lt fun hlt => ?_
      obtain ⟨x, hx⟩ := h.exists_left hplace hxs hys
        (toString_mem_numbered.2 (List.getElem?_eq_getElem hlt))
      have hx := toString_mem_numbered.1 hx
      simp at hx
  refine same_array_iff.2 ⟨ys, rfl, hlen, fun i hx hy => ?_⟩
  obtain ⟨y, hy', hsame⟩ := hright i _ (List.getElem?_eq_getElem hx)
  rw [List.getElem?_eq_getElem hy, Option.some.injEq] at hy'
  exact hy' ▸ hsame

/-! ### Values with matching leaves -/

theorem digits_toString (n : Nat) : Digits (toString n) := by
  refine ⟨fun h => ?_, fun c hc => ?_⟩
  · have hnil : Nat.toDigits 10 n = [] := by
      rw [← Nat.toList_repr]
      exact congrArg String.toList h
    exact Nat.toDigits_ne_nil hnil
  · exact Nat.isDigit_of_mem_toDigits (by decide) (by decide) (Nat.toList_repr ▸ hc)

theorem LegibleName.ne_toString {name : String} (h : LegibleName true name) (i : Nat) :
    name ≠ toString i :=
  fun heq => h.notDigits rfl (heq ▸ digits_toString i)

/-- Only the value itself can be the leaf at its own path. -/
theorem eq_of_mem_leaves_self {x : Json} (h : (path, x) ∈ v.leaves sequences path) : x = v := by
  cases hp : v.parts? sequences with
  | none =>
    rw [leaves_of_no_parts hp, List.mem_singleton] at h
    exact (Prod.mk.inj h).2
  | some ms =>
    rw [leaves_of_parts hp] at h
    exact absurd h notMem_memberLeaves_step

theorem Matches.same_of_no_parts (hp : v.parts? sequences = none)
    (h : Matches (v.leaves sequences path) (w.leaves sequences path)) : v.same w = true := by
  rw [leaves_of_no_parts hp] at h
  obtain ⟨y, hy, hsame⟩ := h.forth _ (List.mem_singleton_self _)
  exact eq_of_mem_leaves_self hy ▸ hsame

theorem Matches.exists_parts (hp : v.parts? sequences = some ms)
    (h : Matches (v.leaves sequences path) (w.leaves sequences path)) :
    ∃ ns, w.parts? sequences = some ns ∧ Matches (memberLeaves sequences (Tree.step path) ms)
      (memberLeaves sequences (Tree.step path) ns) := by
  rw [leaves_of_parts hp] at h
  cases hq : w.parts? sequences with
  | none =>
    rw [leaves_of_no_parts hq] at h
    obtain ⟨x, hx, -⟩ := h.back _ (List.mem_singleton_self _)
    exact absurd hx notMem_memberLeaves_step
  | some ns =>
    rw [leaves_of_parts hq] at h
    exact ⟨ns, rfl, h⟩

/-- Values that can be read off their leaves are equal if these match. -/
theorem Legible.same_of_matches (hv : v.Legible sequences) (hw : w.Legible sequences)
    (hv' : v.Distinct) (hw' : w.Distinct)
    (h : Matches (v.leaves sequences path) (w.leaves sequences path)) : v.same w = true := by
  induction hv generalizing path w with
  | null | bool b | number n | string s => exact h.same_of_no_parts rfl
  | @array xs nonempty items ih =>
    cases sequences with
    | false => exact h.same_of_no_parts rfl
    | true =>
      obtain ⟨ns, hns, hparts⟩ := h.exists_parts rfl
      have hxs := told_numbered (items rfl)
      cases hw with
      | null | bool b | number n | string s => nomatch hns
      | @array ys _ items' =>
        cases hns
        refine hparts.same_array (Tree.separates_step path) hxs (told_numbered (items' rfl)) ?_
        intro x hx y hy path hleaves
        exact ih rfl x hx (items' rfl y hy) (hv'.of_item hx) (hw'.of_item hy) hleaves
      | @object ns' _ names values =>
        cases hns
        -- the first element would match a member whose name is an index
        have hfirst := toString_mem_numbered.2
          (List.getElem?_eq_getElem (List.length_pos_of_ne_nil (nonempty rfl)))
        obtain ⟨w, hmem, -⟩ := hparts.exists_right (Tree.separates_step path) hxs
          (LegibleRoot.told ⟨names, values⟩ hw') hfirst
        exact absurd rfl ((names _ hmem).ne_toString 0)
  | @object ms nonempty names values ih =>
    obtain ⟨ns, hns, hparts⟩ := h.exists_parts rfl
    have hms : Told sequences ms := LegibleRoot.told ⟨names, values⟩ hv'
    cases hw with
    | null | bool b | number n | string s => nomatch hns
    | @array ys _ items' =>
      cases sequences with
      | false => nomatch hns
      | true =>
        cases hns
        obtain ⟨m, hm⟩ := List.exists_mem_of_ne_nil ms nonempty
        obtain ⟨w, hmem, -⟩ := hparts.exists_right (Tree.separates_step path) hms
          (told_numbered (items' rfl)) hm
        obtain ⟨i, hname, -⟩ := mem_numbered.1 hmem
        exact absurd hname ((names m hm).ne_toString i)
    | @object ns' _ names' values' =>
      cases hns
      refine hparts.same_object (Tree.separates_step path) hms
        (LegibleRoot.told ⟨names', values'⟩ hw') ?_
      intro m hm w path hmem hleaves
      exact ih m hm (values' _ hmem) (hv'.of_member hm) (hw'.of_member hmem) hleaves

theorem LegibleRoot.same_of_matches (hms : LegibleRoot sequences ms)
    (hns : LegibleRoot sequences ns)
    (hms' : (object ms).Distinct) (hns' : (object ns).Distinct)
    (h : Matches (memberLeaves sequences id ms) (memberLeaves sequences id ns)) :
    (object ms).same (object ns) = true := by
  refine h.same_object Tree.separates_id (hms.told hms') (hns.told hns') ?_
  intro m hm w path hmem hleaves
  exact (hms.values m hm).same_of_matches (hns.values _ hmem) (hms'.of_member hm)
    (hns'.of_member hmem) hleaves

/-! ### Flat views -/

theorem matches_of_same (hms : (object ms).Distinct) (hns : (object ns).Distinct)
    (hms' : (object ms).DotlessNames sequences) (hns' : (object ns).DotlessNames sequences)
    (h : FlatMap.Same (.ofList (memberLeaves sequences id ms))
      (.ofList (memberLeaves sequences id ns))) :
    Matches (memberLeaves sequences id ms) (memberLeaves sequences id ns) := by
  have hnodup := nodup_rootLeaves hms hms'
  have hnodup' := nodup_rootLeaves hns hns'
  obtain ⟨forth, back⟩ := (SortedMap.agree_ofList_iff hnodup hnodup').1 h
  exact ⟨forth, back⟩

/-- Objects that can be read off their flat views have the same view, and compare as equal, if and
only if they are equal up to the order of members. -/
theorem flatten_faithful (hms : (object ms).Distinct) (hns : (object ns).Distinct)
    (hms' : LegibleRoot sequences ms) (hns' : LegibleRoot sequences ns) :
    ∃ e a c, (object ms).flatten sequences = .ok e ∧ (object ns).flatten sequences = .ok a ∧
      compare sequences (object ms) (object ns) = .ok c ∧
      (FlatMap.Same e a ↔ (object ms).same (object ns) = true) ∧
      (c.isEqual = true ↔ (object ms).same (object ns) = true) := by
  have he : (object ms).flatten sequences = .ok _ := flatten_object hms
  have ha : (object ns).flatten sequences = .ok _ := flatten_object hns
  have hsame : FlatMap.Same (.ofList (memberLeaves sequences id ms))
      (.ofList (memberLeaves sequences id ns)) ↔ (object ms).same (object ns) = true := by
    constructor
    · intro h
      exact hms'.same_of_matches hns' hms hns
        (matches_of_same hms hns hms'.dotlessNames hns'.dotlessNames h)
    · intro h
      exact (flattensLike_iff hms hns).1 (flattensLike_of_dotless hms hms'.dotlessNames h)
  obtain ⟨c, hc, hequal⟩ := exists_compare_iff hms hns he ha
  exact ⟨_, _, c, he, ha, hc, hsame, hequal.trans hsame⟩

/-- A document with empty names, an array of unlike elements and a zero. -/
def mixed : List (String × Json) :=
  [("", array [object [("", null)], number (.float .zero), array [bool true]]),
    ("a1", object [("", string "x"), ("y", number (.integer 1))])]

/-- The same contents in another order, with the other zero. -/
def remixed : List (String × Json) :=
  [("a1", object [("y", number (.integer 1)), ("", string "x")]),
    ("", array [object [("", null)], number (.float Decimal.Binary64.zero.neg),
      array [bool true]])]

theorem flatten_faithful_mixed : (object mixed).Distinct ∧ (object remixed).Distinct ∧
    LegibleRoot true mixed ∧ LegibleRoot true remixed ∧
    ∃ e a c, (object mixed).flatten true = .ok e ∧ (object remixed).flatten true = .ok a ∧
      compare true (object mixed) (object remixed) = .ok c ∧ FlatMap.Same e a ∧
      c.isEqual = true := by
  have hmixed : (object mixed).Distinct := by decide
  have hremixed : (object remixed).Distinct := by decide
  have hlegible : LegibleRoot true mixed := by decide
  have hlegible' : LegibleRoot true remixed := by decide
  have hsame : (object mixed).same (object remixed) = true := by decide
  obtain ⟨e, a, c, he, ha, hc, hflat, hequal⟩ :=
    flatten_faithful hmixed hremixed hlegible hlegible'
  exact ⟨hmixed, hremixed, hlegible, hlegible', e, a, c, he, ha, hc, hflat.2 hsame,
    hequal.2 hsame⟩

end IndexMapping.Json

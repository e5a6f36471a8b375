import Mathlib.Data.List.Nodup
import IndexMapping.Proofs.Flat.Leaves

/-! The paths of leaves. Steps without a dot can be told apart in them, as those to the elements
of an array always can. Names that have a dot cannot: two leaves may be at one path. -/

namespace IndexMapping

namespace Tree

variable {path p s t : String}

/-- The path is that of a value or of something in it. -/
def Below (path p : String) : Prop := p = path ∨ ∃ s, p = step path s

theorem Below.of_step (h : Below (step path s) p) : Below path p := by
  rcases h with rfl | ⟨t, rfl⟩
  · exact .inr ⟨s, rfl⟩
  · refine .inr ⟨s ++ "." ++ t, ?_⟩
    simp only [step, String.append_assoc]

theorem not_below_step : ¬ Below (step path s) path := by
  have hlong : path.length < (step path s).length := by
    simp only [step, String.length_append]
    have hdot : ".".length = 1 := rfl
    omega
  rintro (h | ⟨t, h⟩)
  · exact Nat.ne_of_lt hlong (congrArg String.length h)
  · have hlen := congrArg String.length h
    rw [step, String.length_append, String.length_append] at hlen
    omega

/-- What follows a path below it: nothing, or a dot and more. -/
theorem Below.exists_rest (h : Below path p) :
    ∃ rest : List Char, p.toList = path.toList ++ rest ∧ ∀ c ∈ rest.head?, c = '.' := by
  rcases h with rfl | ⟨s, rfl⟩
  · exact ⟨[], by simp, by simp⟩
  · exact ⟨'.' :: s.toList, by simp [step], by simp⟩

/-- The text has no dot. -/
def Dotless (s : String) : Prop := '.' ∉ s.toList

instance (s : String) : Decidable (Dotless s) := inferInstanceAs (Decidable ('.' ∉ s.toList))

theorem takeWhile_of_dotless {rest : List Char} (hs : Dotless s)
    (hrest : ∀ c ∈ rest.head?, c = '.') :
    (s.toList ++ rest).takeWhile (· != '.') = s.toList := by
  have hall : ∀ c ∈ s.toList, (c != '.') = true := by
    intro c hc
    simp only [bne_iff_ne]
    exact fun h => hs (h ▸ hc)
  have hstop : rest.takeWhile (· != '.') = [] := by
    cases rest with
    | nil => rfl
    | cons c rest => simp [hrest c rfl]
  rw [List.takeWhile_append_of_pos hall, hstop, List.append_nil]

/-- A text without a dot is what follows the start of a path, up to the next dot. -/
theorem eq_of_below {start : String} (hs : Dotless s) (ht : Dotless t)
    (h : Below (start ++ s) p) (h' : Below (start ++ t) p) : s = t := by
  obtain ⟨r, hr, hdot⟩ := h.exists_rest
  obtain ⟨r', hr', hdot'⟩ := h'.exists_rest
  have heq : s.toList ++ r = t.toList ++ r' := by
    rw [hr, String.toList_append, String.toList_append, List.append_assoc, List.append_assoc] at hr'
    exact List.append_cancel_left hr'
  refine String.toList_injective ?_
  rw [← takeWhile_of_dotless hs hdot, heq, takeWhile_of_dotless ht hdot']

/-- Names without a dot can be told apart in what is below the places that they name. -/
def Separates (place : String → String) : Prop :=
  ∀ s t p, Dotless s → Dotless t → Below (place s) p → Below (place t) p → s = t

theorem separates_step (path : String) : Separates (step path) := fun _ _ _ => eq_of_below

theorem separates_id : Separates id := by
  intro s t p hs ht h h'
  rw [id, ← String.empty_append (s := s)] at h
  rw [id, ← String.empty_append (s := t)] at h'
  exact eq_of_below hs ht h h'

theorem dotless_toString (n : Nat) : Dotless (toString n) := by
  intro h
  have hdigit := Nat.isDigit_of_mem_toDigits (by decide) (by decide) (Nat.toList_repr ▸ h)
  exact absurd hdigit (by decide)

theorem toString_injective : Function.Injective (toString : Nat → String) := by
  intro i j h
  have htext : Nat.repr i = Nat.repr j := h
  have hdigits := congrArg String.toList htext
  rw [Nat.toList_repr, Nat.toList_repr] at hdigits
  rw [← Nat.ofDigitChars_ten_toDigits (n := i), hdigits, Nat.ofDigitChars_ten_toDigits]

/-- A path below an element of an array tells its index. -/
theorem index_eq_of_below {i j : Nat} (h : Below (step path (toString i)) p)
    (h' : Below (step path (toString j)) p) : i = j :=
  toString_injective (eq_of_below (dotless_toString i) (dotless_toString j) h h')

end Tree

namespace Json

variable {sequences : Bool} {path : String} {place : String → String} {l : String × Json}
  {ms : List (String × Json)} {v : Json}

theorem below_of_mem_leaves (hl : l ∈ v.leaves sequences path) : Tree.Below path l.1 := by
  induction v using Json.induction generalizing path with
  | null | bool b | number n | string s =>
    rw [leaves, List.mem_singleton] at hl
    exact .inl (hl ▸ rfl)
  | array xs ih =>
    rw [leaves] at hl
    split at hl
    · obtain ⟨i, hi, hl⟩ := mem_elementLeaves_iff.1 hl
      exact (ih _ (List.getElem_mem hi) hl).of_step
    · rw [List.mem_singleton] at hl
      exact .inl (hl ▸ rfl)
  | object ms ih =>
    rw [leaves] at hl
    obtain ⟨m, hm, hl⟩ := mem_memberLeaves_iff.1 hl
    exact (ih m hm hl).of_step

/-! ### Names without a dot -/

/-- No name has a dot, outside of arrays that are leaves. -/
inductive DotlessNames (sequences : Bool) : Json → Prop
  | null : DotlessNames sequences null
  | bool (b : Bool) : DotlessNames sequences (bool b)
  | number (n : Number) : DotlessNames sequences (number n)
  | string (s : String) : DotlessNames sequences (string s)
  | array {xs : List Json} (items : sequences = true → ∀ x ∈ xs, DotlessNames sequences x) :
      DotlessNames sequences (array xs)
  | object {ms : List (String × Json)} (names : ∀ m ∈ ms, Tree.Dotless m.1)
      (values : ∀ m ∈ ms, DotlessNames sequences m.2) : DotlessNames sequences (object ms)

theorem nodup_elementLeaves {index : Nat} {xs : List Json}
    (hleaf : ∀ x ∈ xs, ∀ path, ((x.leaves sequences path).map (·.1)).Nodup) :
    ((elementLeaves sequences path index xs).map (·.1)).Nodup := by
  induction xs generalizing index with
  | nil => exact List.nodup_nil
  | cons x xs ih =>
    obtain ⟨hx, hxs⟩ := List.forall_mem_cons.1 hleaf
    rw [elementLeaves, List.map_append, List.nodup_append]
    refine ⟨hx _, ih hxs, fun p hp q hq heq => ?_⟩
    obtain ⟨l, hl, rfl⟩ := List.mem_map.1 hp
    obtain ⟨l', hl', rfl⟩ := List.mem_map.1 hq
    obtain ⟨i, hi, hl'⟩ := mem_elementLeaves_iff.1 hl'
    have hindex : index = index + 1 + i :=
      Tree.index_eq_of_below (below_of_mem_leaves hl) (heq ▸ below_of_mem_leaves hl')
    omega

theorem nodup_memberLeaves (hplace : Tree.Separates place)
    (hnames : (ms.map (·.1)).Nodup) (hdot : ∀ m ∈ ms, Tree.Dotless m.1)
    (hleaf : ∀ m ∈ ms, ∀ path, ((m.2.leaves sequences path).map (·.1)).Nodup) :
    ((memberLeaves sequences place ms).map (·.1)).Nodup := by
  induction ms with
  | nil => exact List.nodup_nil
  | cons m ms ih =>
    obtain ⟨n, v⟩ := m
    obtain ⟨hfresh, hnames⟩ := List.nodup_cons.1 hnames
    obtain ⟨hn, hdot⟩ := List.forall_mem_cons.1 hdot
    obtain ⟨hv, hms⟩ := List.forall_mem_cons.1 hleaf
    rw [memberLeaves, List.map_append, List.nodup_append]
    refine ⟨hv _, ih hnames hdot hms, fun p hp q hq heq => ?_⟩
    obtain ⟨l, hl, rfl⟩ := List.mem_map.1 hp
    obtain ⟨l', hl', rfl⟩ := List.mem_map.1 hq
    obtain ⟨m, hm, hl'⟩ := mem_memberLeaves_iff.1 hl'
    have hname : n = m.1 :=
      hplace n m.1 l.1 hn (hdot m hm) (below_of_mem_leaves hl) (heq ▸ below_of_mem_leaves hl')
    exact hfresh (hname ▸ List.mem_map.2 ⟨m, hm, rfl⟩)

/-- Without dots in names no two leaves have the same path. -/
theorem nodup_leaves (hv : v.Distinct) (hdot : v.DotlessNames sequences) :
    ((v.leaves sequences path).map (·.1)).Nodup := by
  induction hdot generalizing path with
  | null | bool b | number n | string s => exact List.nodup_singleton _
  | array items ih =>
    rw [leaves]
    split
    next hseq => exact nodup_elementLeaves fun x hx _ => ih hseq x hx (hv.of_item hx)
    next => exact List.nodup_singleton _
  | object names values ih =>
    exact nodup_memberLeaves (Tree.separates_step path) hv.names_nodup names
      fun m hm _ => ih m hm (hv.of_member hm)

theorem nodup_rootLeaves (hms : Distinct (object ms)) (hdot : (object ms).DotlessNames sequences) :
    ((memberLeaves sequences id ms).map (·.1)).Nodup := by
  cases hdot with
  | object names values =>
    exact nodup_memberLeaves Tree.separates_id hms.names_nodup names
      fun m hm _ => nodup_leaves (hms.of_member hm) (values m hm)

end Json

end IndexMapping

import IndexMapping.Text.LineDiff

/-! The changed lines between two texts. The scripts of a row belong to the endings of the new
lines, so that the best script is found by recursion on both lists of lines. It leads from the old
lines to the new ones, and it changes no line if and only if the texts are the same. -/

namespace IndexMapping.Text

/-! ### Lines -/

theorem flatMap_splitLines (line cs : List Char) :
    (splitLines line cs).flatMap String.toList = line.reverse ++ cs := by
  fun_induction splitLines line cs with
  | case1 line hempty =>
    rw [List.isEmpty_iff] at hempty
    simp [hempty]
  | case2 line hempty => simp
  | case3 line cs ih => simp [ih]
  | case4 line c cs hother hend ih => simp [ih]
  | case5 line c cs hother hend ih => simp [ih]

/-- The lines of a text make up the text. -/
theorem lines_injective {s t : String} (h : lines s = lines t) : s = t := by
  have hs : (lines s).flatMap String.toList = s.toList := flatMap_splitLines [] s.toList
  have ht : (lines t).flatMap String.toList = t.toList := flatMap_splitLines [] t.toList
  rw [← String.toList_inj, ← hs, h, ht]

namespace Edit

/-- The lines that an edit takes away or keeps. -/
def old : Edit → List String
  | keep l => [l]
  | delete l => [l]
  | insert _ => []

/-- The lines that it keeps or brings. -/
def new : Edit → List String
  | keep l => [l]
  | delete _ => []
  | insert l => [l]

/-- The edit changes nothing. -/
def Keeps (e : Edit) : Prop := ∃ l, e = keep l

theorem Keeps.old_eq_new {e : Edit} (h : e.Keeps) : e.old = e.new := by
  obtain ⟨l, rfl⟩ := h
  rfl

end Edit

namespace Script

/-! ### Rows -/

/-- Scripts from the old lines to each ending of the new ones. -/
def row (old new : List String) : List Script :=
  old.foldr (fun x row => extend x new row) (insertions new)

theorem headD_row (old new : List String) : (row old new).headD empty = between old new := rfl

theorem row_cons (x : String) (old new : List String) :
    row (x :: old) new = extend x new (row old new) := rfl

/-- Behind its first script a row is that of the new lines behind the first. -/
theorem tail_row (old : List String) (y : String) (new : List String) :
    (row old (y :: new)).tail = row old new := by
  induction old with
  | nil => rfl
  | cons x old ih => rw [row_cons, extend, List.tail_cons, ih, row_cons]

variable {x y : String} {old new : List String}

theorem between_nil_cons (y : String) (new : List String) :
    between [] (y :: new) = (between [] new).insert y := rfl

theorem between_cons_nil (x : String) (old : List String) :
    between (x :: old) [] = (between old []).delete x := by
  rw [← headD_row, row_cons, extend, List.headD_cons, headD_row]

theorem between_cons_self (x : String) (old new : List String) :
    between (x :: old) (x :: new) = (between old new).keep x := by
  rw [← headD_row, row_cons, extend, List.headD_cons, if_pos rfl, tail_row, headD_row]

theorem between_cons_cons (h : x ≠ y) (old new : List String) :
    between (x :: old) (y :: new) =
      better ((between old (y :: new)).delete x) ((between (x :: old) new).insert y) := by
  rw [← headD_row, row_cons, extend, List.headD_cons, if_neg h, tail_row, headD_row, ← row_cons,
    headD_row]

/-! ### From the old lines to the new ones -/

/-- The edits take the old lines away and bring the new ones. -/
def Leads (s : Script) (old new : List String) : Prop :=
  s.edits.flatMap Edit.old = old ∧ s.edits.flatMap Edit.new = new

theorem Leads.keep {s : Script} (h : s.Leads old new) (x : String) :
    (s.keep x).Leads (x :: old) (x :: new) := by
  obtain ⟨rfl, rfl⟩ := h
  exact ⟨rfl, rfl⟩

theorem Leads.delete {s : Script} (h : s.Leads old new) (x : String) :
    (s.delete x).Leads (x :: old) new := by
  obtain ⟨rfl, rfl⟩ := h
  exact ⟨rfl, rfl⟩

theorem Leads.insert {s : Script} (h : s.Leads old new) (y : String) :
    (s.insert y).Leads old (y :: new) := by
  obtain ⟨rfl, rfl⟩ := h
  exact ⟨rfl, rfl⟩

theorem Leads.better {s t : Script} (hs : s.Leads old new) (ht : t.Leads old new) :
    (better s t).Leads old new := by
  unfold Script.better
  split
  · exact ht
  · exact hs

theorem leads_between (old new : List String) : (between old new).Leads old new := by
  induction old generalizing new with
  | nil =>
    induction new with
    | nil => exact ⟨rfl, rfl⟩
    | cons y new ih =>
      rw [between_nil_cons]
      exact ih.insert y
  | cons x old ih =>
    induction new with
    | nil =>
      rw [between_cons_nil]
      exact (ih []).delete x
    | cons y new ihnew =>
      by_cases hxy : x = y
      · rw [← hxy, between_cons_self]
        exact (ih new).keep x
      · rw [between_cons_cons hxy]
        exact ((ih (y :: new)).delete x).better (ihnew.insert y)

/-! ### Scripts without changes -/

theorem keeps_between_self (old : List String) : ∀ e ∈ (between old old).edits, e.Keeps := by
  induction old with
  | nil =>
    intro e he
    cases he
  | cons x old ih =>
    rw [between_cons_self]
    exact List.forall_mem_cons.2 ⟨⟨x, rfl⟩, ih⟩

/-- Nothing is changed if and only if the lines are the same. -/
theorem keeps_between_iff : (∀ e ∈ (between old new).edits, e.Keeps) ↔ old = new := by
  constructor
  · intro h
    obtain ⟨hold, hnew⟩ := leads_between old new
    have hmap : (between old new).edits.map Edit.old = (between old new).edits.map Edit.new :=
      List.map_congr_left fun e he => (h e he).old_eq_new
    rw [List.flatMap_def, hmap, ← List.flatMap_def, hnew] at hold
    exact hold.symm
  · rintro rfl
    exact keeps_between_self old

end Script

theorem renderEdits_eq_empty_iff {edits : List Edit} :
    renderEdits edits = "" ↔ ∀ e ∈ edits, e.Keeps := by
  induction edits with
  | nil => simp [renderEdits]
  | cons e edits ih =>
    rw [List.forall_mem_cons, ← ih, renderEdits, List.map_cons, String.join_cons]
    cases e with
    | keep l =>
      have hkeeps : (Edit.keep l).Keeps := ⟨l, rfl⟩
      simp [hkeeps, renderEdits]
    | delete l => simp [Edit.Keeps]
    | insert l => simp [Edit.Keeps]

/-- No line is shown if and only if the texts are the same. -/
theorem renderEdits_between_lines {s t : String} :
    renderEdits (Script.between (lines s) (lines t)).edits = "" ↔ s = t := by
  rw [renderEdits_eq_empty_iff, Script.keeps_between_iff]
  exact ⟨lines_injective, congrArg lines⟩

end IndexMapping.Text

import Mathlib.Data.List.Nodup
import IndexMapping.Json.Reader
import IndexMapping.Proofs.Json.Equality
import IndexMapping.Proofs.Outcome

/-! The values that the reader makes, whatever the text: no object in them has a name twice, and no
more brackets are open in them than may be. -/

namespace IndexMapping.Json

variable {α : Type} {P : α → Prop}

/-! ### Setting a member -/

theorem mem_insertMember {name : String} {value : α} {ms : List (String × α)} {m : String × α}
    (h : m ∈ insertMember name value ms) : m = (name, value) ∨ m ∈ ms := by
  induction ms with
  | nil => exact .inl (List.mem_singleton.1 h)
  | cons e ms ih =>
    obtain ⟨n, v⟩ := e
    rw [insertMember] at h
    split at h
    next hn =>
      subst hn
      exact (List.mem_cons.1 h).imp_right (List.mem_cons_of_mem _)
    next =>
      rcases List.mem_cons.1 h with rfl | h
      · exact .inr List.mem_cons_self
      · exact (ih h).imp_right (List.mem_cons_of_mem _)

theorem nodup_insertMember {name : String} (value : α) {ms : List (String × α)}
    (h : (ms.map (·.1)).Nodup) : ((insertMember name value ms).map (·.1)).Nodup := by
  induction ms with
  | nil => exact List.nodup_singleton name
  | cons e ms ih =>
    obtain ⟨n, v⟩ := e
    rw [insertMember]
    split
    next => exact h
    next hn =>
      obtain ⟨hfresh, hms⟩ := List.nodup_cons.1 h
      refine List.nodup_cons.2 ⟨fun hmem => ?_, ih hms⟩
      obtain ⟨m, hm, hname⟩ := List.mem_map.1 hmem
      rcases mem_insertMember hm with rfl | hm
      · exact hn hname.symm
      · exact hfresh (List.mem_map.2 ⟨m, hm, hname⟩)

/-! ### Brackets -/

/-- The values that a reader gives. -/
def Gives (P : α → Prop) (read : Read α) : Prop :=
  ∀ cs v rest, read cs = .ok (v, rest) → P v

theorem forall_of_readElements {element : Read α} (helement : Gives P element) {fuel : Nat}
    {acc xs : List α} {cs rest : List Char} (hacc : ∀ x ∈ acc, P x)
    (h : readElements element fuel acc cs = .ok (xs, rest)) : ∀ x ∈ xs, P x := by
  induction fuel generalizing acc cs with
  | zero => nomatch h
  | succ fuel ih =>
    obtain ⟨⟨next, cs⟩, -, h⟩ := bind_eq_ok.1 h
    cases next with
    | none =>
      cases h
      exact fun x hx => hacc x (List.mem_reverse.1 hx)
    | some _ =>
      obtain ⟨⟨x, cs'⟩, hx, h⟩ := bind_eq_ok.1 h
      exact ih (List.forall_mem_cons.2 ⟨helement _ _ _ hx, hacc⟩) h

theorem forall_of_readMembers {value : Read α} (hvalue : Gives P value) {fuel : Nat}
    {acc ms : List (String × α)} {cs rest : List Char} (hnames : (acc.map (·.1)).Nodup)
    (hacc : ∀ m ∈ acc, P m.2) (h : readMembers value fuel acc cs = .ok (ms, rest)) :
    (ms.map (·.1)).Nodup ∧ ∀ m ∈ ms, P m.2 := by
  induction fuel generalizing acc cs with
  | zero => nomatch h
  | succ fuel ih =>
    obtain ⟨⟨next, cs⟩, -, h⟩ := bind_eq_ok.1 h
    cases next with
    | none =>
      cases h
      exact ⟨hnames, hacc⟩
    | some _ =>
      -- what has been gathered keeps distinct names when the member is set in it
      obtain ⟨⟨name, cs⟩, -, h⟩ := bind_eq_ok.1 h
      obtain ⟨⟨_, cs⟩, -, h⟩ := bind_eq_ok.1 h
      obtain ⟨⟨v, cs⟩, hv, h⟩ := bind_eq_ok.1 h
      refine ih (nodup_insertMember v hnames) (fun m hm => ?_) h
      rcases mem_insertMember hm with rfl | hm
      · exact hvalue _ _ _ hv
      · exact hacc m hm

/-! ### Values -/

/-- A property that values get from their parts, each bracket taking one from the number of brackets
that may be open, if numbers have it as they are read. -/
structure Inherited (P : Nat → Json → Prop) : Prop where
  null : ∀ budget, P budget null
  bool : ∀ budget b, P budget (bool b)
  number : ∀ {budget : Nat} {negative : Bool} {cs rest : List Char} {n : Number},
    readNumber negative cs = .ok (n, rest) → P budget (number n)
  string : ∀ budget s, P budget (string s)
  array : ∀ {budget : Nat} {xs : List Json}, (∀ x ∈ xs, P budget x) → P (budget + 1) (array xs)
  object : ∀ {budget : Nat} {ms : List (String × Json)}, (ms.map (·.1)).Nodup →
    (∀ m ∈ ms, P budget m.2) → P (budget + 1) (object ms)

theorem gives_readValue {P : Nat → Json → Prop} (hP : Inherited P) (budget : Nat) :
    Gives (P budget) (readValue budget) := by
  induction budget using Nat.strongRecOn with
  | ind budget ih =>
    intro cs v rest h
    rw [readValue] at h
    split at h
    case h_1 => nomatch h
    case h_2 =>
      obtain ⟨_, -, h⟩ := bind_eq_ok.1 h
      cases h
      exact hP.null budget
    case h_3 | h_4 =>
      obtain ⟨_, -, h⟩ := bind_eq_ok.1 h
      cases h
      exact hP.bool budget _
    case h_5 =>
      obtain ⟨_, hn, h⟩ := bind_eq_ok.1 h
      cases h
      exact hP.number hn
    case h_6 =>
      obtain ⟨_, -, h⟩ := bind_eq_ok.1 h
      cases h
      exact hP.string budget _
    case h_7 =>
      cases budget with
      | zero => nomatch h
      | succ budget =>
        obtain ⟨⟨xs, _⟩, hxs, h⟩ := bind_eq_ok.1 h
        cases h
        exact hP.array (forall_of_readElements (ih budget budget.lt_succ_self) (by simp) hxs)
    case h_8 =>
      cases budget with
      | zero => nomatch h
      | succ budget =>
        obtain ⟨⟨ms, _⟩, hms, h⟩ := bind_eq_ok.1 h
        cases h
        obtain ⟨hnames, hvalues⟩ :=
          forall_of_readMembers (ih budget budget.lt_succ_self) (by simp) (by simp) hms
        exact hP.object hnames hvalues
    case h_9 =>
      split at h
      · obtain ⟨_, hn, h⟩ := bind_eq_ok.1 h
        cases h
        exact hP.number hn
      · nomatch h

theorem inherited_distinct : Inherited fun _ => Distinct where
  null _ := .null
  bool _ := .bool
  number _ := .number _
  string _ := .string
  array := .array
  object := .object

theorem inherited_depth : Inherited fun budget v => v.depth ≤ budget where
  null := Nat.zero_le
  bool budget _ := Nat.zero_le budget
  number {budget} _ _ _ _ _ := Nat.zero_le budget
  string budget _ := Nat.zero_le budget
  array := depth_array_le_iff.2
  object _ := depth_object_le_iff.2

theorem of_readWhole {read : Read α} (hread : Gives P read) {text : List Char} {v : α}
    (h : readWhole read text = .ok v) : P v := by
  cases hr : read text with
  | error f =>
    rw [readWhole, hr] at h
    nomatch h
  | ok r =>
    obtain ⟨v', rest⟩ := r
    cases hend : readEnd rest with
    | error f =>
      simp only [readWhole, hr, ok_bind, hend] at h
      nomatch h
    | ok u =>
      simp only [readWhole, hr, ok_bind, hend] at h
      cases h
      exact hread _ _ _ hr

/-- A value that is read from a text has no name twice. -/
theorem distinct_of_parse {text : String} {v : Json} (h : parse text = .ok v) : v.Distinct :=
  of_readWhole (gives_readValue inherited_distinct depthLimit) h

/-- A value that is read from a text opens no more brackets within each other than may be open. -/
theorem depth_le_of_parse {text : String} {v : Json} (h : parse text = .ok v) :
    v.depth ≤ depthLimit :=
  of_readWhole (gives_readValue inherited_depth depthLimit) h

end IndexMapping.Json

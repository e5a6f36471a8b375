import IndexMapping.Decimal.Binary64
import IndexMapping.Json.Basic

/-! Induction over JSON values, their depth, and the values whose texts lose nothing. -/

namespace IndexMapping.Json

/-- What holds of a bracket once it holds of the values in it holds of all values. -/
theorem induction {P : Json → Prop} (null : P null) (bool : ∀ b, P (bool b))
    (number : ∀ n, P (number n)) (string : ∀ s, P (string s))
    (array : ∀ xs, (∀ x ∈ xs, P x) → P (array xs))
    (object : ∀ ms, (∀ m ∈ ms, P m.2) → P (object ms)) : ∀ v, P v
  | .null => null
  | .bool b => bool b
  | .number n => number n
  | .string s => string s
  | .array xs => array xs fun x hx =>
    have := List.sizeOf_lt_of_mem hx
    induction null bool number string array object x
  | .object ms => object ms fun m hm =>
    have := List.sizeOf_lt_of_mem hm
    have : sizeOf m.2 < sizeOf m := by
      obtain ⟨n, v⟩ := m
      simp only [Prod.mk.sizeOf_spec]
      omega
    induction null bool number string array object m.2
termination_by v => sizeOf v

/-- Whole numbers fit in a word and no object has two members of one name. -/
inductive Plain : Json → Prop
  | null : Plain null
  | bool (b : Bool) : Plain (bool b)
  | integer {n : Int} (lower : Decimal.minSigned ≤ n)
      (upper : n ≤ Decimal.maxUnsigned) : Plain (number (.integer n))
  | string (s : String) : Plain (string s)
  | array {xs : List Json} (items : ∀ x ∈ xs, Plain x) : Plain (array xs)
  | object {ms : List (String × Json)} (names : (ms.map (·.1)).Nodup)
      (values : ∀ m ∈ ms, Plain m.2) : Plain (object ms)

theorem Plain.object_cons {name : String} {v : Json} {ms : List (String × Json)} (hv : Plain v)
    (fresh : name ∉ ms.map (·.1)) (h : Plain (.object ms)) : Plain (.object ((name, v) :: ms)) := by
  cases h with
  | object names values =>
    exact .object (List.nodup_cons.2 ⟨fresh, names⟩) (List.forall_mem_cons.2 ⟨hv, values⟩)

theorem Plain.of_mem {m : String × Json} {ms : List (String × Json)} (h : Plain (.object ms))
    (hm : m ∈ ms) : Plain m.2 := by
  cases h with
  | object _ values => exact values m hm

variable {n : Nat} {xs : List Json} {ms : List (String × Json)}

/-! ### Depth -/

theorem depthItems_le_iff : depthItems xs ≤ n ↔ ∀ x ∈ xs, x.depth ≤ n := by
  induction xs with
  | nil => simp [depthItems]
  | cons x xs ih => rw [depthItems, Nat.max_le, ih, List.forall_mem_cons]

theorem depthMembers_le_iff : depthMembers ms ≤ n ↔ ∀ m ∈ ms, m.2.depth ≤ n := by
  induction ms with
  | nil => simp [depthMembers]
  | cons m ms ih =>
    obtain ⟨name, v⟩ := m
    rw [depthMembers, Nat.max_le, ih, List.forall_mem_cons]

theorem depthMembers_le_of_subset {ms' : List (String × Json)} (h : ms' ⊆ ms) :
    depthMembers ms' ≤ depthMembers ms :=
  depthMembers_le_iff.2 fun m hm => depthMembers_le_iff.1 (Nat.le_refl _) m (h hm)

theorem depth_array_le_iff : (array xs).depth ≤ n + 1 ↔ ∀ x ∈ xs, x.depth ≤ n := by
  rw [depth, Nat.succ_le_succ_iff, depthItems_le_iff]

theorem depth_object_le_iff : (object ms).depth ≤ n + 1 ↔ ∀ m ∈ ms, m.2.depth ≤ n := by
  rw [depth, Nat.succ_le_succ_iff, depthMembers_le_iff]

/-! ### Members -/

theorem insertMember_of_notMem {α : Type} {name : String} {value : α} {ms : List (String × α)}
    (h : name ∉ ms.map (·.1)) : insertMember name value ms = ms ++ [(name, value)] := by
  induction ms with
  | nil => rfl
  | cons m ms ih =>
    rw [List.map_cons, List.mem_cons, not_or] at h
    rw [insertMember, if_neg (Ne.symm h.1), ih h.2, List.cons_append]

end IndexMapping.Json

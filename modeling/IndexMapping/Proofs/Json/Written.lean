import IndexMapping.Json.Reader
import IndexMapping.Proofs.Json.Values

/-! The texts of a JSON value. They differ in the blanks around what stands in a bracket; the
compact and the indented text are two of them. -/

namespace IndexMapping.Json

def Blank (cs : List Char) : Prop := ∀ c ∈ cs, isBlank c = true

/-- Texts with a comma between each two of them and the same blanks before each. -/
def joined (lead : List Char) (first : Bool) : List (List Char) → List Char
  | [] => []
  | t :: ts => (if first then [] else [',']) ++ lead ++ t ++ joined lead false ts

def memberText (colon : List Char) (name : String) (text : List Char) : List Char :=
  writeString name ++ ':' :: colon ++ text

/-- `t` is a text of a value. Within one bracket, all parts have the same blanks before them and
all members the same blanks after the colon. -/
inductive Written : Json → List Char → Prop
  | null : Written null ['n', 'u', 'l', 'l']
  | bool (b : Bool) : Written (bool b) (writeBool b)
  | number (n : Number) : Written (number n) (writeNumber n)
  | string (s : String) : Written (string s) (writeString s)
  | array (lead trail : List Char) (items : List (Json × List Char)) (hl : Blank lead)
      (ht : Blank trail) (h : ∀ p ∈ items, Written p.1 p.2) :
      Written (array (items.map (·.1)))
        ('[' :: joined lead true (items.map (·.2)) ++ trail ++ [']'])
  | object (lead colon trail : List Char) (members : List ((String × Json) × List Char))
      (hl : Blank lead) (hc : Blank colon) (ht : Blank trail)
      (h : ∀ m ∈ members, Written m.1.2 m.2) :
      Written (object (members.map (·.1)))
        ('\x7b' :: joined lead true (members.map fun m => memberText colon m.1.1 m.2) ++ trail ++
          ['\x7d'])

/-- A writer that puts commas between the texts of its parts, recursively, joins them. -/
theorem eq_joined {α : Type} {write : List α → List Char} {lead : List Char}
    {text : α → List Char} (nil : write [] = []) (one : ∀ x, write [x] = lead ++ text x)
    (more : ∀ x y xs, write (x :: y :: xs) = lead ++ text x ++ ',' :: write (y :: xs))
    (xs : List α) : write xs = joined lead true (xs.map text) := by
  have hcons : ∀ x xs, write (x :: xs) = lead ++ text x ++ joined lead false (xs.map text) := by
    intro x xs
    induction xs generalizing x with
    | nil => simp [one, joined]
    | cons y ys ih => simp [more, joined, ih]
  cases xs with
  | nil => rw [nil, List.map_nil, joined]
  | cons x xs => simp [hcons, joined]

/-! ### Compact text -/

theorem blank_nil : Blank [] := fun _ h => absurd h List.not_mem_nil

theorem writeItems_eq (xs : List Json) : writeItems xs = joined [] true (xs.map writeCompact) :=
  eq_joined rfl (fun x => by simp [writeItems]) (fun x y xs => by simp [writeItems]) xs

theorem writeMembers_eq (ms : List (String × Json)) :
    writeMembers ms = joined [] true (ms.map fun m => memberText [] m.1 m.2.writeCompact) :=
  eq_joined rfl (fun ⟨n, v⟩ => by simp [writeMembers, memberText])
    (fun ⟨n, v⟩ m ms => by simp [writeMembers, memberText]) ms

theorem written_compact (v : Json) : Written v v.writeCompact := by
  induction v using induction with
  | null => exact .null
  | bool b => exact .bool b
  | number n => exact .number n
  | string s => exact .string s
  | array xs ih =>
    have h := Written.array [] [] (xs.map fun x => (x, x.writeCompact)) blank_nil blank_nil
      (List.forall_mem_map.2 ih)
    simpa [Function.comp_def, writeCompact, writeItems_eq] using h
  | object ms ih =>
    have h := Written.object [] [] [] (ms.map fun m => (m, m.2.writeCompact)) blank_nil blank_nil
      blank_nil (List.forall_mem_map.2 ih)
    simpa [Function.comp_def, writeCompact, writeMembers_eq] using h

/-! ### Indented text -/

section indented

variable {unit : List Char}

theorem blank_lineStart (hunit : Blank unit) (depth : Nat) : Blank (lineStart unit depth) := by
  refine List.forall_mem_cons.2 ⟨rfl, fun c hc => ?_⟩
  obtain ⟨l, hl, hc⟩ := List.mem_flatten.1 hc
  exact hunit c (List.eq_of_mem_replicate hl ▸ hc)

theorem blank_space : Blank [' '] := List.forall_mem_singleton.2 rfl

theorem indentedItems_eq (depth : Nat) (xs : List Json) :
    indentedItems unit depth xs =
      joined (lineStart unit depth) true (xs.map (writeIndented unit depth)) :=
  eq_joined (by rw [indentedItems]) (fun x => by rw [indentedItems])
    (fun x y xs => by rw [indentedItems]) xs

theorem indentedMembers_eq (depth : Nat) (ms : List (String × Json)) :
    indentedMembers unit depth ms = joined (lineStart unit depth) true
      (ms.map fun m => memberText [' '] m.1 (writeIndented unit depth m.2)) :=
  eq_joined (by rw [indentedMembers]) (fun ⟨n, v⟩ => by simp [indentedMembers, memberText])
    (fun ⟨n, v⟩ m ms => by simp [indentedMembers, memberText]) ms

/-- Before the end of a bracket stands a new line, unless the bracket is empty. -/
theorem written_indented (hunit : Blank unit) (depth : Nat) (v : Json) :
    Written v (writeIndented unit depth v) := by
  induction v using induction generalizing depth with
  | null => exact .null
  | bool b => exact .bool b
  | number n => exact .number n
  | string s => exact .string s
  | array xs ih =>
    have h := fun trail ht => Written.array (lineStart unit (depth + 1)) trail
      (xs.map fun x => (x, writeIndented unit (depth + 1) x)) (blank_lineStart hunit _) ht
      (List.forall_mem_map.2 fun x hx => ih x hx _)
    cases xs with
    | nil => simpa [writeIndented, joined] using h [] blank_nil
    | cons x xs =>
      simpa [Function.comp_def, writeIndented, indentedItems_eq] using
        h _ (blank_lineStart hunit depth)
  | object ms ih =>
    have h := fun trail ht => Written.object (lineStart unit (depth + 1)) [' '] trail
      (ms.map fun m => (m, writeIndented unit (depth + 1) m.2)) (blank_lineStart hunit _)
      blank_space ht (List.forall_mem_map.2 fun m hm => ih m hm _)
    cases ms with
    | nil => simpa [writeIndented, joined] using h [] blank_nil
    | cons m ms =>
      simpa [Function.comp_def, writeIndented, indentedMembers_eq] using
        h _ (blank_lineStart hunit depth)

end indented

end IndexMapping.Json

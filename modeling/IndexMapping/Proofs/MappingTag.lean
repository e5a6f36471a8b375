import IndexMapping.Schema.Expand
import Mathlib.Data.List.TakeWhile

/-! Reading a raw tag. It is cut at its commas; the first part is the explicit name, the second
one the kind, and there is a second one exactly when there is a comma. -/

namespace IndexMapping.MappingTag

/-- What stands between the commas of a raw tag. -/
def parts (raw : String) : List String := (raw.toList.splitOn ',').map String.ofList

/-- The first part of the raw tag, or the normalised name of the field if that part is empty. -/
def resolvedName (raw field : String) : String :=
  if (parts raw).headD "" = "" then Identifier.snake field else (parts raw).headD ""

/-- The second part of the raw tag. -/
def writtenKind (raw : String) : String := (parts raw).getD 1 ""

theorem notComma_of_mem {l : List Char} (h : ',' ∉ l) : ∀ c ∈ l, notComma c = true := by
  intro c hc
  simpa [notComma] using fun he : c = ',' => h (he ▸ hc)

theorem headD_parts (l : List Char) :
    ((l.splitOn ',').map String.ofList).headD "" = String.ofList (l.takeWhile notComma) := by
  by_cases h : ',' ∈ l
  · obtain ⟨a, b, rfl, ha⟩ := List.eq_append_cons_of_mem h
    rw [List.splitOn_append_cons_self_of_not_mem ha,
      List.takeWhile_append_of_pos (notComma_of_mem ha)]
    simp [notComma]
  · rw [List.splitOn_eq_singleton h, List.takeWhile_eq_self_iff.2 (notComma_of_mem h)]
    rfl

/-- A raw tag is read as its first two parts; without a comma it is malformed. -/
theorem parse_eq (raw field owner : String) :
    parse raw field owner =
      if ',' ∈ raw.toList then .ok ⟨resolvedName raw field, writtenKind raw⟩
      else .error (.malformedTag owner field raw) := by
  unfold parse
  by_cases h : ',' ∈ raw.toList
  · obtain ⟨name, rest, hraw, hname⟩ := List.eq_append_cons_of_mem h
    have hcut : raw.toList.dropWhile notComma = ',' :: rest := by
      rw [hraw, List.dropWhile_append_of_pos (notComma_of_mem hname)]
      simp [notComma]
    have hkind : writtenKind raw = String.ofList (rest.takeWhile notComma) := by
      rw [writtenKind, parts, hraw, List.splitOn_append_cons_self_of_not_mem hname, ← headD_parts,
        List.map_cons]
      generalize (rest.splitOn ',').map String.ofList = kinds
      cases kinds <;> rfl
    rw [if_pos h, hcut, hkind, resolvedName, parts, headD_parts]
    simp [String.isEmpty_iff]
  · rw [if_neg h, List.dropWhile_eq_nil_iff.2 (notComma_of_mem h)]

end IndexMapping.MappingTag

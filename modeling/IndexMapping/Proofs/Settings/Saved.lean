import IndexMapping.Proofs.Toml.Lines
import IndexMapping.Settings.Toml

/-! Saved settings. They are written as one line for each setting, below a header for each group,
and are read back from these lines whatever characters their texts hold. -/

namespace IndexMapping.Settings

open Toml (Line Writes writeString)

theorem exists_quote_writeString (s : String) :
    ∃ cs, writeString s = '"' :: cs ∨ writeString s = '\x27' :: cs := by
  unfold writeString Toml.writeStyled
  cases Toml.styleOf s.toList with
  | basic => exact ⟨_, .inl rfl⟩
  | literal => exact ⟨_, .inr rfl⟩
  | multiBasic => exact ⟨_, .inl rfl⟩
  | multiLiteral => exact ⟨_, .inr rfl⟩

theorem writes_string (s : String) : Writes (writeString s) (.string s) where
  starts rest := by
    obtain ⟨cs, h | h⟩ := exists_quote_writeString s <;> rw [h, List.cons_append] <;>
      exact Toml.skipBlank_cons (by decide)
  read rest := by
    have hread : Toml.readString (writeString s ++ '\n' :: rest) = some (s, '\n' :: rest) :=
      Toml.readString_writeString s (by simp) (by simp)
    obtain ⟨cs, h | h⟩ := exists_quote_writeString s <;> rw [h, List.cons_append] at hread ⊢ <;>
      simp [Toml.readValue, hread]

theorem writes_bool (b : Bool) : Writes (writeBool b) (.bool b) where
  starts rest := by cases b <;> rfl
  read rest := by cases b <;> rfl

/-- The lines that hold the settings. -/
def lines (s : Settings) : List Line := [
  .header "compiler",
  .assignment "tag_key" (writeString s.compiler.tagKey) (.string s.compiler.tagKey),
  .assignment "format" (writeString s.compiler.format.name) (.string s.compiler.format.name),
  .empty,
  .header "input",
  .assignment "all_types" (writeBool s.input.allTypes) (.bool s.input.allTypes),
  .assignment "extension" (writeString s.input.extension) (.string s.input.extension),
  .empty,
  .header "output",
  .assignment "file_suffix" (writeString s.output.fileSuffix) (.string s.output.fileSuffix)]

variable (s : Settings)

theorem toList_toToml : (toToml s).toList = (lines s).flatMap Line.text := by
  simp [toToml, group, assignment, lines, Line.text]

theorem valid_lines : ∀ line ∈ lines s, line.Valid := by
  have hbare : ∀ name ∈ ["compiler", "tag_key", "format", "input", "all_types", "extension",
      "output", "file_suffix"], Toml.Bare name := by decide
  simp only [List.forall_mem_cons] at hbare
  simp [lines, Line.Valid, writes_string, writes_bool, hbare]

/-- The tables that the lines make. -/
theorem parse?_toToml :
    Toml.parse? (toToml s) = some [
      ("compiler", .table [("tag_key", .string s.compiler.tagKey),
        ("format", .string s.compiler.format.name)]),
      ("input", .table [("all_types", .bool s.input.allTypes),
        ("extension", .string s.input.extension)]),
      ("output", .table [("file_suffix", .string s.output.fileSuffix)])] := by
  have hlength : (lines s).length ≤ (toToml s).length := by
    rw [← String.length_toList, toList_toToml]
    exact Toml.length_le_flatMap_text _
  have hmark : Toml.withoutMark (toToml s).toList = (toToml s).toList := by
    rw [toList_toToml]
    rfl
  rw [Toml.parse?, hmark, toList_toToml, Toml.readLines_lines (valid_lines s) (by omega)]
  rfl

/-- Saved settings are read back as they are, whatever characters their texts hold. -/
theorem saved_round_trip (s : Settings) : ofToml? (toToml s) = some s := by
  rw [ofToml?, parse?_toToml]
  obtain ⟨⟨tagKey, format⟩, input, output⟩ := s
  cases format <;> rfl

end IndexMapping.Settings

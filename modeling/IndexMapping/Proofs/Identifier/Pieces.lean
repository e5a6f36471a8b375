import IndexMapping.Proofs.Identifier.Runs

/-! The pieces of a name. Each character of an identifier gives one, in order: in a run its lower
case, with or without an underscore before it, and elsewhere the character as it stands. The first
piece has no underscore. A capital is held back until the next character is seen, but nothing is
lost or written twice. -/

namespace IndexMapping.Identifier

open Text (isUppercase isLowercase lowercase)

variable {c : Char} {before cs : List Char}

/-- What is written for a character. -/
inductive Piece where
  /-- The character as it stands. -/
  | kept (c : Char)
  /-- Its lower case, after an underscore if it is marked. -/
  | lowered (marked : Bool) (c : Char)
  deriving DecidableEq, Repr

namespace Piece

def char : Piece → Char
  | kept c => c
  | lowered _ c => c

def isLowered : Piece → Bool
  | kept _ => false
  | lowered _ _ => true

def isMarked : Piece → Bool
  | kept _ => false
  | lowered marked _ => marked

def text : Piece → List Char
  | kept c => [c]
  | lowered marked c => mark marked ++ lowercase c

end Piece

/-- The last of the characters belongs to a run. -/
def EndsInRun (cs : List Char) : Prop :=
  ∃ before capital others, cs = before ++ capital :: others ∧ Run capital others

theorem not_endsInRun_nil : ¬ EndsInRun [] := by
  rintro ⟨before, capital, others, h, -⟩
  simp at h

theorem endsInRun_concat :
    EndsInRun (cs ++ [c]) ↔ isUppercase c ∨ EndsInRun cs ∧ isLowercase c = false := by
  constructor
  · rintro ⟨before, capital, others, h, hrun⟩
    rcases List.eq_nil_or_concat others with rfl | ⟨others, last, rfl⟩
    · obtain ⟨-, hlast⟩ := List.append_inj' h rfl
      cases hlast
      exact .inl hrun.capital
    · rw [List.concat_eq_append] at h hrun
      rw [← List.cons_append, ← List.append_assoc] at h
      obtain ⟨rfl, hlast⟩ := List.append_inj' h rfl
      cases hlast
      obtain ⟨hothers, hc⟩ := List.forall_mem_append.1 hrun.others
      exact .inr ⟨⟨before, capital, others, rfl, hrun.capital, hothers⟩, hc c List.mem_cons_self⟩
  · rintro (hc | ⟨⟨before, capital, others, rfl, hrun⟩, hc⟩)
    · exact ⟨cs, c, [], rfl, hc, nofun⟩
    · refine ⟨before, capital, others ++ [c], by simp, hrun.capital, ?_⟩
      exact List.forall_mem_append.2 ⟨hrun.others, List.forall_mem_singleton.2 hc⟩

/-- Pieces of the characters that follow `before`: in lower case are those that belong to runs. -/
inductive Pieces : List Char → List Piece → Prop
  | nil (before : List Char) : Pieces before []
  | kept {before : List Char} {c : Char} {ps : List Piece} (h : ¬ EndsInRun (before ++ [c]))
      (rest : Pieces (before ++ [c]) ps) : Pieces before (.kept c :: ps)
  | lowered {before : List Char} {c : Char} {ps : List Piece} (marked : Bool)
      (h : EndsInRun (before ++ [c])) (rest : Pieces (before ++ [c]) ps) :
      Pieces before (.lowered marked c :: ps)

theorem Pieces.isLowered_iff {ps : List Piece} (h : Pieces before ps) :
    ∀ front p back, ps = front ++ p :: back →
      (p.isLowered ↔ EndsInRun (before ++ (front ++ [p]).map Piece.char)) := by
  induction h with
  | nil before => simp
  | @kept before c ps hc rest ih =>
    rintro (_ | ⟨q, front⟩) p back heq
    · obtain ⟨rfl, -⟩ := List.cons.inj heq
      simpa [Piece.isLowered, Piece.char] using hc
    · obtain ⟨rfl, rfl⟩ := List.cons.inj heq
      simpa [Piece.char] using ih front p back rfl
  | @lowered before c ps marked hc rest ih =>
    rintro (_ | ⟨q, front⟩) p back heq
    · obtain ⟨rfl, -⟩ := List.cons.inj heq
      simpa [Piece.isLowered, Piece.char] using hc
    · obtain ⟨rfl, rfl⟩ := List.cons.inj heq
      simpa [Piece.char] using ih front p back rfl

/-- Pieces for the characters of `cs`, that make a text. -/
structure Spells (before cs text : List Char) (ps : List Piece) : Prop where
  chars : ps.map Piece.char = cs
  text : ps.flatMap Piece.text = text
  pieces : Pieces before ps

theorem Spells.kept {text : List Char} {ps : List Piece} (h : ¬ EndsInRun (before ++ [c]))
    (hps : Spells (before ++ [c]) cs text ps) :
    Spells before (c :: cs) (c :: text) (.kept c :: ps) :=
  ⟨congrArg (c :: ·) hps.chars, congrArg (c :: ·) hps.text, .kept h hps.pieces⟩

theorem Spells.lowered {text : List Char} {ps : List Piece} (marked : Bool)
    (h : EndsInRun (before ++ [c])) (hps : Spells (before ++ [c]) cs text ps) :
    Spells before (c :: cs) (mark marked ++ lowercase c ++ text) (.lowered marked c :: ps) :=
  ⟨congrArg (c :: ·) hps.chars, congrArg (mark marked ++ lowercase c ++ ·) hps.text,
    .lowered marked h hps.pieces⟩

/-- The rest of an identifier, outside of runs and behind a capital that is held back: then the
piece of this capital comes before those of the rest. Nothing is marked at the start. -/
theorem exists_spells (cs : List Char) :
    (∀ {started afterUnderscore before}, ¬ EndsInRun before →
      ∃ ps, Spells before cs (words ⟨started, none, afterUnderscore⟩ cs) ps ∧
        (started = false → ∀ p ∈ ps.head?, p.isMarked = false)) ∧
    ∀ {started held inRun afterUnderscore before}, EndsInRun before →
      ∃ marked text ps, Spells before cs text ps ∧
        words ⟨started, some ⟨held, inRun⟩, afterUnderscore⟩ cs =
          mark marked ++ lowercase held ++ text ∧
        (started = false → marked = false) := by
  induction cs with
  | nil =>
    exact ⟨fun _ => ⟨[], ⟨rfl, rfl, .nil _⟩, nofun⟩,
      fun _ => ⟨false, [], [], ⟨rfl, rfl, .nil _⟩, by simp [words, mark]⟩⟩
  | cons c cs ih =>
    obtain ⟨ihnone, ihheld⟩ := ih
    constructor
    · intro started afterUnderscore before hbefore
      cases hc : isUppercase c with
      | true =>
        have hrun : EndsInRun (before ++ [c]) := endsInRun_concat.2 (.inl hc)
        obtain ⟨marked, text, ps, hps, htext, hmarked⟩ := ihheld hrun
        exact ⟨_, words_start hc ▸ htext ▸ hps.lowered marked hrun, by simpa [Piece.isMarked]⟩
      | false =>
        have hrun : ¬ EndsInRun (before ++ [c]) := by simp [endsInRun_concat, hc, hbefore]
        obtain ⟨ps, hps, -⟩ := ihnone hrun
        exact ⟨_, words_pass hc ▸ hps.kept hrun, by simp [Piece.isMarked]⟩
    · intro started held inRun afterUnderscore before hbefore
      cases hc : isLowercase c with
      | true =>
        have hupper := Text.isUppercase_of_isLowercase hc
        have hrun : ¬ EndsInRun (before ++ [c]) := by simp [endsInRun_concat, hc, hupper]
        obtain ⟨ps, hps, -⟩ := ihnone hrun
        exact ⟨_, _, _, hps.kept hrun, words_close hc, by simp +contextual⟩
      | false =>
        have hrun : EndsInRun (before ++ [c]) := endsInRun_concat.2 (.inr ⟨hbefore, hc⟩)
        obtain ⟨marked, text, ps, hps, htext, -⟩ := ihheld hrun
        exact ⟨_, _, _, htext ▸ hps.lowered marked hrun, words_hold hc, by simp +contextual⟩

/-- A name consists of one piece for each character of the identifier, in order. The characters in
runs are in lower case, so that all upper-case characters are and no lower-case one is, and of the
pieces in lower case all but the first may be marked by an underscore. -/
theorem snake_pieces (name : String) :
    ∃ ps : List Piece, ps.map Piece.char = name.toList ∧
      (snake name).toList = ps.flatMap Piece.text ∧
      (∀ p ∈ ps.head?, p.isMarked = false) ∧
      ∀ front p back, ps = front ++ p :: back →
        (isUppercase p.char → p.isLowered) ∧ (isLowercase p.char → p.isLowered = false) ∧
          (p.isMarked → p.isLowered) ∧
          (p.isLowered ↔ EndsInRun ((front ++ [p]).map Piece.char)) := by
  obtain ⟨ps, hps, hmarked⟩ := (exists_spells name.toList).1 not_endsInRun_nil
  refine ⟨ps, hps.chars, (toList_snake name).trans hps.text.symm, hmarked rfl, ?_⟩
  intro front p back heq
  have hrun := hps.pieces.isLowered_iff front p back heq
  rw [List.nil_append] at hrun
  have hcase : p.isLowered ↔ isUppercase p.char ∨
      EndsInRun (front.map Piece.char) ∧ isLowercase p.char = false := by
    rw [hrun, List.map_append, List.map_singleton, endsInRun_concat]
  refine ⟨fun hupper => hcase.2 (.inl hupper), fun hlower => ?_, ?_, hrun⟩
  · simpa [hlower, Text.isUppercase_of_isLowercase hlower] using hcase
  · cases p with
    | kept c => nofun
    | lowered marked c => exact fun _ => rfl

end IndexMapping.Identifier

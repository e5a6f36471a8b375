import IndexMapping.Proofs.Json.Quotes

/-! The blanks of a text that stand outside of its strings. Without them, each text of a value is
its compact text. Each text closes the brackets that it opens. -/

namespace IndexMapping.Json

open Place (outside inside escaped)

/-- The place after a character of any text. -/
def Place.next : Place → Char → Place
  | outside, c => if c = '"' then inside else outside
  | inside, c => if c = '"' then outside else if c = '\\' then escaped else inside
  | escaped, _ => inside

def opens (c : Char) : Bool := c = '[' || c = '\x7b'

def closes (c : Char) : Bool := c = ']' || c = '\x7d'

/-- A place in a text and how many brackets are open there. -/
structure Spot where
  place : Place
  opened : Nat

namespace Spot

def start : Spot := ⟨outside, 0⟩

/-- Brackets in strings do not count. -/
def after (s : Spot) (c : Char) : Spot where
  place := s.place.next c
  opened :=
    if s.place ≠ outside then s.opened
    else if opens c then s.opened + 1
    else if closes c then s.opened - 1
    else s.opened

def run (s : Spot) (cs : List Char) : Spot := cs.foldl after s

/-- The text less its blanks outside of strings. -/
def bare : Spot → List Char → List Char
  | _, [] => []
  | s, c :: cs =>
    if s.place = outside && isBlank c then bare (s.after c) cs else c :: bare (s.after c) cs

variable {s : Spot}

theorem run_append (s : Spot) (cs ds : List Char) : s.run (cs ++ ds) = (s.run cs).run ds :=
  List.foldl_append

theorem bare_append (s : Spot) (cs ds : List Char) :
    s.bare (cs ++ ds) = s.bare cs ++ (s.run cs).bare ds := by
  induction cs generalizing s with
  | nil => rfl
  | cons c cs ih =>
    rw [List.cons_append, bare, bare, ih]
    split
    · rfl
    · rfl

/-- A written character does not end the string that it is in. -/
theorem inside_escapeChar (c : Char) (n : Nat) :
    (mk inside n).run (escapeChar c) = ⟨inside, n⟩ ∧
      (mk inside n).bare (escapeChar c) = escapeChar c := by
  rcases escapeChar_cases c with ⟨e, htext, -⟩ | ⟨-, htext⟩ | ⟨hquote, hslash, -, htext⟩
  · rw [htext]
    exact ⟨rfl, rfl⟩
  · rw [htext]
    simp [run, bare, after, Place.next, lowHex]
  · rw [htext]
    simp [run, bare, after, Place.next, hquote, hslash]

theorem inside_chars (cs : List Char) (n : Nat) :
    (mk inside n).run (cs.flatMap escapeChar) = ⟨inside, n⟩ ∧
      (mk inside n).bare (cs.flatMap escapeChar) = cs.flatMap escapeChar := by
  induction cs with
  | nil => exact ⟨rfl, rfl⟩
  | cons c cs ih =>
    obtain ⟨hrun, hbare⟩ := inside_escapeChar c n
    rw [List.flatMap_cons, run_append, bare_append, hrun, hbare, ih.1, ih.2]
    exact ⟨rfl, rfl⟩

end Spot

/-! ### Texts less their blanks -/

/-- Outside of strings, the text leaves as many brackets open as before, and it is `u` without its
blanks. -/
structure Passes (t u : List Char) : Prop where
  run : ∀ n, (Spot.mk outside n).run t = ⟨outside, n⟩
  bare : ∀ n, (Spot.mk outside n).bare t = u

namespace Passes

variable {t u t' u' : List Char} {c : Char}

theorem nil : Passes [] [] := ⟨fun _ => rfl, fun _ => rfl⟩

theorem append (h : Passes t u) (h' : Passes t' u') : Passes (t ++ t') (u ++ u') where
  run n := by rw [Spot.run_append, h.run, h'.run]
  bare n := by rw [Spot.bare_append, h.bare, h.run, h'.bare]

theorem blank {b : List Char} (hb : Blank b) : Passes b [] := by
  induction b with
  | nil => exact nil
  | cons c b ih =>
    obtain ⟨hc, hb⟩ := List.forall_mem_cons.1 hb
    have hone : Passes [c] [] := by
      simp only [isBlank, Bool.or_eq_true, decide_eq_true_eq] at hc
      rcases hc with ((rfl | rfl) | rfl) | rfl <;> exact ⟨fun _ => rfl, fun _ => rfl⟩
    exact hone.append (ih hb)

theorem bracket {o c : Char} (ho : o = '[' ∨ o = '\x7b') (hc : c = ']' ∨ c = '\x7d')
    (h : Passes t u) : Passes (o :: t ++ [c]) (o :: u ++ [c]) := by
  have hopen : ∀ n, (Spot.mk outside n).after o = ⟨outside, n + 1⟩ := fun n => by
    rcases ho with rfl | rfl <;> rfl
  have hclose : ∀ n, (Spot.mk outside (n + 1)).after c = ⟨outside, n⟩ := fun n => by
    rcases hc with rfl | rfl <;> rfl
  have hrun : ∀ n, (Spot.mk outside n).run (o :: t) = ⟨outside, n + 1⟩ := fun n => by
    rw [Spot.run, List.foldl_cons, hopen]
    exact h.run (n + 1)
  refine ⟨fun n => ?_, fun n => ?_⟩
  · rw [Spot.run_append, hrun]
    exact hclose n
  · have hopenBlank : isBlank o = false := by rcases ho with rfl | rfl <;> rfl
    have hcloseBlank : isBlank c = false := by rcases hc with rfl | rfl <;> rfl
    rw [Spot.bare_append, hrun]
    simp [Spot.bare, hopenBlank, hcloseBlank, hopen, h.bare]

theorem number (n : Number) : Passes (writeNumber n) (writeNumber n) := by
  have hall : ∀ c ∈ writeNumber n, inNumber c = true := fun c hc => inNumber_of_mem hc
  generalize writeNumber n = cs at hall
  induction cs with
  | nil => exact nil
  | cons c cs ih =>
    obtain ⟨hc, hcs⟩ := List.forall_mem_cons.1 hall
    have hne : ∀ d : Char, inNumber d = false → c ≠ d := fun d hd heq => by
      rw [heq, hd] at hc
      cases hc
    have hafter : ∀ n, (Spot.mk outside n).after c = ⟨outside, n⟩ := fun n => by
      simp [Spot.after, Place.next, opens, closes, hne '"' rfl, hne '[' rfl, hne ']' rfl,
        hne '\x7b' rfl, hne '\x7d' rfl]
    have hblank : isBlank c = false := by
      simp [isBlank, hne ' ' rfl, hne '\n' rfl, hne '\t' rfl, hne '\r' rfl]
    have hone : Passes [c] [c] := ⟨hafter, fun n => by simp [Spot.bare, hblank]⟩
    exact hone.append (ih hcs)

theorem string (str : String) : Passes (writeString str) (writeString str) := by
  have htext : writeString str = '"' :: (str.toList.flatMap escapeChar ++ ['"']) := by
    simp [writeString]
  rw [htext]
  refine ⟨fun n => ?_, fun n => ?_⟩
  · show (Spot.mk inside n).run (str.toList.flatMap escapeChar ++ ['"']) = _
    rw [Spot.run_append, (Spot.inside_chars _ n).1]
    rfl
  · show '"' :: (Spot.mk inside n).bare (str.toList.flatMap escapeChar ++ ['"']) = _
    rw [Spot.bare_append, (Spot.inside_chars _ n).1, (Spot.inside_chars _ n).2]
    rfl

theorem joined {α : Type} {lead : List Char} (hl : Blank lead) {text bare : α → List Char}
    (xs : List α) (h : ∀ x ∈ xs, Passes (text x) (bare x)) (first : Bool) :
    Passes (joined lead first (xs.map text)) (joined [] first (xs.map bare)) := by
  induction xs generalizing first with
  | nil => exact nil
  | cons x xs ih =>
    obtain ⟨hx, hxs⟩ := List.forall_mem_cons.1 h
    have hcomma : Passes (if first then [] else [',']) (if first then [] else [',']) := by
      cases first
      · exact ⟨fun _ => rfl, fun _ => rfl⟩
      · exact nil
    exact ((hcomma.append (blank hl)).append hx).append (ih hxs false)

theorem member {colon : List Char} (hc : Blank colon) (name : String) (h : Passes t u) :
    Passes (memberText colon name t) (memberText [] name u) := by
  have hcolon : Passes [':'] [':'] := ⟨fun _ => rfl, fun _ => rfl⟩
  have hall := (string name).append ((hcolon.append (blank hc)).append h)
  simpa [memberText] using hall

end Passes

/-- All texts of a value are its compact text with blanks added outside of strings. -/
theorem Written.passes {v : Json} {t : List Char} (h : Written v t) : Passes t v.writeCompact := by
  induction h with
  | null => exact ⟨fun _ => rfl, fun _ => rfl⟩
  | bool b => cases b <;> exact ⟨fun _ => rfl, fun _ => rfl⟩
  | number n => exact .number n
  | string s => exact .string s
  | array lead trail items hl ht h ih =>
    have hitems := Passes.joined hl items ih true
    have hall := (hitems.append (.blank ht)).bracket (.inl rfl) (.inl rfl)
    simpa [Function.comp_def, writeCompact, writeItems_eq] using hall
  | object lead colon trail members hl hc ht h ih =>
    have hmembers := Passes.joined hl members (fun m hm => (ih m hm).member hc m.1.1) true
    have hall := (hmembers.append (.blank ht)).bracket (.inr rfl) (.inr rfl)
    simpa [Function.comp_def, writeCompact, writeMembers_eq] using hall

end IndexMapping.Json

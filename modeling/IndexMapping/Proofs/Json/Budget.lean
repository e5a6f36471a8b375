import IndexMapping.Json.Decoder
import IndexMapping.Proofs.Json.Names

/-! What a decoder ensures of the values that it gives, in terms of the brackets that it may open.
A bracket is opened within the budget, and what is in it is decoded with one bracket less. -/

namespace IndexMapping.Json

variable {α β σ : Type}

theorem readMistyped_ne_ok {expected : String} {cs : List Char} {r : α × List Char} :
    readMistyped expected cs ≠ .ok r := by
  intro h
  unfold readMistyped at h
  simp only [failMismatch, failBehind, failAhead] at h
  split at h
  case h_1 => cases h
  case h_2 | h_3 | h_4 | h_5 | h_6 =>
    obtain ⟨_, -, h⟩ := bind_eq_ok.1 h
    cases h
  case h_7 | h_8 => cases h
  case h_9 =>
    split at h
    · obtain ⟨_, -, h⟩ := bind_eq_ok.1 h
      cases h
    · cases h

theorem placedBy_eq_ok_iff {close : List Char → List Char} {r : Except Failure α} {x : α} :
    placedBy close r = .ok x ↔ r = .ok x := by
  cases r <;> simp [placedBy, Except.mapError]

namespace Decoder

variable {d : Decoder α} {P : Nat → α → Prop}

/-- Every value that is decoded with a budget of brackets has a property. -/
def Ensures (d : Decoder α) (P : Nat → α → Prop) : Prop :=
  ∀ budget, Gives (P budget) (d.ofText budget)

theorem ensures_tooDeep : (tooDeep : Decoder α).Ensures P := by
  intro budget cs x rest h
  cases h

variable {f : α → β} {Q : Nat → β → Prop}

theorem Ensures.map (h : d.Ensures P) (hPQ : ∀ n x, P n x → Q n (f x)) : (d.map f).Ensures Q := by
  intro budget cs y rest hy
  obtain ⟨⟨x, rest'⟩, hx, heq⟩ := map_eq_ok.1 hy
  cases heq
  exact hPQ budget x (h budget cs x rest hx)

theorem ensures_map (hQ : ∀ n x, Q n (f x)) : (d.map f).Ensures Q :=
  have htrivial : d.Ensures fun _ _ => True := fun _ _ _ _ _ => trivial
  htrivial.map fun n x _ => hQ n x

theorem Ensures.list (h : d.Ensures P) :
    d.list.Ensures fun n xs => ∃ m, n = m + 1 ∧ ∀ x ∈ xs, P m x := by
  intro budget cs xs rest hxs
  simp only [Decoder.list] at hxs
  split at hxs
  · cases budget with
    | zero => cases hxs
    | succ budget =>
      have hread := placedBy_eq_ok_iff.1 hxs
      exact ⟨budget, rfl, forall_of_readElements (h budget) (by simp) hread⟩
  · exact absurd hxs readMistyped_ne_ok

end Decoder

theorem Variant.mem_of_find {alternatives : List (Variant α)} {a : Variant α} {name : String}
    (h : find alternatives name = .ok a) : a ∈ alternatives := by
  unfold find at h
  split at h
  next hfound =>
    cases h
    exact List.mem_of_find?_eq_some hfound
  next => cases h

/-- Alternatives that carry values are decoded with one bracket less. -/
theorem Variant.ensures {alternatives : List (Variant α)} {P : Nat → α → Prop}
    (h : ∀ a ∈ alternatives, a.plain = none ∧ ∃ d, a.carried = some d ∧ d.Ensures P) :
    (Variant.decoder alternatives).Ensures fun n x => ∃ m, n = m + 1 ∧ P m x := by
  intro budget cs x rest hx
  simp only [decoder] at hx
  split at hx
  · cases hx
  · obtain ⟨⟨name, rest'⟩, -, hx⟩ := bind_eq_ok.1 hx
    simp only at hx
    split at hx
    · cases hx
    next a ha =>
      rw [bare, (h a (mem_of_find ha)).1] at hx
      cases hx
  · cases budget with
    | zero => cases hx
    | succ budget =>
      obtain ⟨⟨next, cs⟩, -, hx⟩ := bind_eq_ok.1 hx
      cases next with
      | none => cases hx
      | some _ =>
        obtain ⟨⟨name, cs⟩, -, hx⟩ := bind_eq_ok.1 hx
        simp only at hx
        split at hx
        · cases hx
        next a ha =>
          obtain ⟨⟨_, cs⟩, -, hx⟩ := bind_eq_ok.1 hx
          obtain ⟨⟨y, cs⟩, hy, hx⟩ := bind_eq_ok.1 hx
          obtain ⟨-, d, hd, hensures⟩ := h a (mem_of_find ha)
          have hP : P budget y := hensures _ _ _ _ (by simpa only [value, hd] using hy)
          simp only at hx
          split at hx
          · cases hx
          · cases hx
            exact ⟨budget, rfl, hP⟩
          · cases hx
  · cases hx

/-- The update that a field decodes keeps an invariant of the state. -/
def RecordField.Keeps (f : RecordField σ) (Inv : Nat → σ → Prop) : Prop :=
  f.decoder.Ensures fun n set => ∀ s, Inv n s → Inv n (set s)

namespace RecordField

variable {name : String} {required : Bool} {isSet : σ → Bool} {d : Decoder α} {set : α → σ → σ}
  {P : Nat → α → Prop} {Inv : Nat → σ → Prop}

theorem keeps_of_ensures (hd : d.Ensures P) (h : ∀ n x s, P n x → Inv n s → Inv n (set x s)) :
    (RecordField.mk name required isSet (d.map set)).Keeps Inv :=
  hd.map fun n x hx s hs => h n x s hx hs

/-- A field that the invariant does not speak of. -/
theorem keeps (h : ∀ n x s, Inv n s → Inv n (set x s)) :
    (RecordField.mk name required isSet (d.map set)).Keeps Inv :=
  Decoder.ensures_map fun n x s hs => h n x s hs

end RecordField

namespace Record

variable {r : Record σ α} {Inv : Nat → σ → Prop} {budget : Nat}

theorem inv_of_readList (hkeeps : ∀ f ∈ r.fields, f.Keeps Inv) {fs : List (RecordField σ)}
    (hfs : fs ⊆ r.fields) {first : Bool} {index : Nat} {s s' : σ} {cs rest : List Char}
    (hs : Inv budget s)
    (h : r.readList budget first index s fs cs = .ok (s', rest)) : Inv budget s' := by
  induction fs generalizing first index s cs with
  | nil =>
    cases h
    exact hs
  | cons f fs ih =>
    obtain ⟨hf, hfs⟩ := List.cons_subset.1 hfs
    obtain ⟨⟨next, cs⟩, -, h⟩ := bind_eq_ok.1 h
    cases next with
    | none =>
      simp only at h
      split at h
      · cases h
      · cases h
        exact hs
    | some _ =>
      obtain ⟨⟨set, cs⟩, hset, h⟩ := bind_eq_ok.1 h
      exact ih hfs (hkeeps f hf _ _ _ _ hset s hs) h

theorem inv_of_readObject (hkeeps : ∀ f ∈ r.fields, f.Keeps Inv) {fuel : Nat} {first : Bool}
    {s s' : σ} {cs rest : List Char} (hs : Inv budget s)
    (h : r.readObject budget fuel first s cs = .ok (s', rest)) : Inv budget s' := by
  induction fuel generalizing first s cs with
  | zero => cases h
  | succ fuel ih =>
    obtain ⟨⟨next, cs⟩, -, h⟩ := bind_eq_ok.1 h
    cases next with
    | none =>
      cases h
      exact hs
    | some _ =>
      obtain ⟨⟨name, cs⟩, -, h⟩ := bind_eq_ok.1 h
      simp only at h
      split at h
      next =>
        -- an unknown member is passed over
        obtain ⟨_, -, h⟩ := bind_eq_ok.1 h
        obtain ⟨_, -, h⟩ := bind_eq_ok.1 h
        exact ih hs h
      next f hf =>
        split at h
        · cases h
        · obtain ⟨_, -, h⟩ := bind_eq_ok.1 h
          obtain ⟨⟨set, cs⟩, hset, h⟩ := bind_eq_ok.1 h
          exact ih (hkeeps f (List.mem_of_find?_eq_some hf) _ _ _ _ hset s hs) h

/-- A record is made of a state that satisfies every invariant that its fields keep. -/
theorem ensures_decoder (hempty : ∀ n, Inv n r.empty) (hkeeps : ∀ f ∈ r.fields, f.Keeps Inv) :
    r.decoder.Ensures fun n x => ∃ m, n = m + 1 ∧ ∃ s, Inv m s ∧ r.complete s = .ok x := by
  have hfinish : ∀ {m s x} {rest rest' : List Char}, r.finish s rest = .ok (x, rest') → Inv m s →
      ∃ s, Inv m s ∧ r.complete s = .ok x := by
    intro m s x rest rest' h hs
    unfold finish at h
    split at h
    next hx =>
      cases h
      exact ⟨s, hs, hx⟩
    next => cases h
  intro budget cs x rest h
  simp only [decoder] at h
  split at h
  · cases budget with
    | zero => cases h
    | succ budget =>
      obtain ⟨⟨x', cs⟩, hx, h⟩ := bind_eq_ok.1 h
      obtain ⟨_, -, h⟩ := bind_eq_ok.1 h
      cases h
      obtain ⟨⟨s, cs⟩, hs, hx⟩ := bind_eq_ok.1 (placedBy_eq_ok_iff.1 hx)
      exact ⟨budget, rfl, hfinish hx
        (inv_of_readList hkeeps (List.Subset.refl _) (hempty budget) hs)⟩
  · cases budget with
    | zero => cases h
    | succ budget =>
      obtain ⟨⟨x', cs⟩, hx, h⟩ := bind_eq_ok.1 h
      cases h
      obtain ⟨⟨s, cs⟩, hs, hx⟩ := bind_eq_ok.1 (placedBy_eq_ok_iff.1 hx)
      exact ⟨budget, rfl, hfinish hx (inv_of_readObject hkeeps (hempty budget) hs)⟩
  · exact absurd h readMistyped_ne_ok

end Record

end IndexMapping.Json

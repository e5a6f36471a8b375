import IndexMapping.Proofs.Text.ByteOrder

/-! The bytes of a text are read back as the text. -/

namespace IndexMapping.Text.Utf8

variable {a b c d : UInt8} {x y z w : Nat} {rest : List UInt8}

theorem toNat_ofNat (h : x < 256) : (UInt8.ofNat x).toNat = x := by
  rw [UInt8.toNat_ofNat', Nat.mod_eq_of_lt h]

/-! ### One character -/

theorem continuation?_eq_some (hb : b.toNat = y + 128) (hy : y < 64) :
    continuation? b = some y := by
  have hupper : y + 128 ≤ 191 := by omega
  simp [continuation?, UInt8.le_iff_toNat_le, hb, hupper]

theorem continuation?_ofNat (h : x < 64) : continuation? (UInt8.ofNat (x + 128)) = some x :=
  continuation?_eq_some (toNat_ofNat (by omega)) h

theorem firstChar_one (ha : a.toNat = x) (hx : x < 128) :
    firstChar (a :: rest) = some (Char.ofNat x, rest) := by
  simp [firstChar, UInt8.lt_iff_toNat_lt, ha, hx]

theorem firstChar_two {n : Nat} (ha : a.toNat = x + 192) (hb : continuation? b = some y)
    (hlower : 2 ≤ x) (hx : x < 32) (hn : x * 64 + y = n) :
    firstChar (a :: b :: rest) = some (Char.ofNat n, rest) := by
  have hone : ¬ a.toNat < 128 := by omega
  have htwo : 194 ≤ a.toNat ∧ a.toNat ≤ 223 := by omega
  have hvalue : a.toNat - 192 = x := by omega
  simp [firstChar, UInt8.lt_iff_toNat_lt, UInt8.le_iff_toNat_le, hone, htwo, hvalue, hb, hn]

theorem firstChar_three {n : Nat} (ha : a.toNat = x + 224) (hb : continuation? b = some y)
    (hc : continuation? c = some z) (hx : x < 16) (hn : x * 4096 + y * 64 + z = n)
    (hlower : 2048 ≤ n) (hscalar : n < 55296 ∨ 57343 < n) :
    firstChar (a :: b :: c :: rest) = some (Char.ofNat n, rest) := by
  have hone : ¬ a.toNat < 128 := by omega
  have htwo : ¬ a.toNat ≤ 223 := by omega
  have hthree : 224 ≤ a.toNat ∧ a.toNat ≤ 239 := by omega
  have hvalue : a.toNat - 224 = x := by omega
  simp only [firstChar, UInt8.lt_iff_toNat_lt, UInt8.le_iff_toNat_le, UInt8.reduceToNat, hone,
    htwo, hthree, and_false, and_self, if_false, if_true, Bool.and_eq_true, decide_eq_true_eq]
  refine Option.bind_eq_some_iff.2 ⟨y, hb, Option.bind_eq_some_iff.2 ⟨z, hc, ?_⟩⟩
  rw [hvalue, hn]
  exact if_pos ⟨hlower, by simpa using hscalar⟩

theorem firstChar_four {n : Nat} (ha : a.toNat = x + 240) (hb : continuation? b = some y)
    (hc : continuation? c = some z) (hd : continuation? d = some w) (hx : x < 5)
    (hn : x * 262144 + y * 4096 + z * 64 + w = n) (hlower : 65536 ≤ n) (hupper : n ≤ 1114111) :
    firstChar (a :: b :: c :: d :: rest) = some (Char.ofNat n, rest) := by
  have hone : ¬ a.toNat < 128 := by omega
  have htwo : ¬ a.toNat ≤ 223 := by omega
  have hthree : ¬ a.toNat ≤ 239 := by omega
  have hfour : 240 ≤ a.toNat ∧ a.toNat ≤ 244 := by omega
  have hvalue : a.toNat - 240 = x := by omega
  simp only [firstChar, UInt8.lt_iff_toNat_lt, UInt8.le_iff_toNat_le, UInt8.reduceToNat, hone,
    htwo, hthree, hfour, and_false, and_self, if_false, if_true, Bool.and_eq_true,
    decide_eq_true_eq]
  -- not by simp, whose term makes the kernel unfold the bounds, which are large numbers
  refine Option.bind_eq_some_iff.2 ⟨y, hb, Option.bind_eq_some_iff.2 ⟨z, hc,
    Option.bind_eq_some_iff.2 ⟨w, hd, ?_⟩⟩⟩
  rw [hvalue, hn]
  exact if_pos ⟨hlower, hupper⟩

theorem firstChar_encode (c : Char) (rest : List UInt8) :
    firstChar (String.utf8EncodeChar c ++ rest) = some (c, rest) := by
  have hscalar : c.val.toNat < 55296 ∨ 57343 < c.val.toNat ∧ c.val.toNat < 1114112 := c.valid
  have hchar : some (Char.ofNat c.val.toNat, rest) = some (c, rest) :=
    congrArg (some <| Prod.mk · rest) (Char.ofNat_toNat c)
  rw [← hchar]
  -- the digits of the code point, of which each byte has one
  simp only [String.utf8EncodeChar]
  split_ifs
  · exact firstChar_one (toNat_ofNat (by omega)) (by omega)
  · exact firstChar_two (toNat_ofNat (by omega)) (continuation?_ofNat (by omega)) (by omega)
      (by omega) (by omega)
  · exact firstChar_three (toNat_ofNat (by omega)) (continuation?_ofNat (by omega))
      (continuation?_ofNat (by omega)) (by omega) (by omega) (by omega) (by omega)
  · exact firstChar_four (toNat_ofNat (by omega)) (continuation?_ofNat (by omega))
      (continuation?_ofNat (by omega)) (continuation?_ofNat (by omega)) (by omega) (by omega)
      (by omega) (by omega)

/-! ### Texts -/

theorem units_encode (cs : List Char) {fuel : Nat}
    (hfuel : (cs.flatMap String.utf8EncodeChar).length ≤ fuel) :
    units fuel (cs.flatMap String.utf8EncodeChar) = cs.map some := by
  induction cs generalizing fuel with
  | nil => cases fuel <;> rfl
  | cons c cs ih =>
    have hfirst := firstChar_encode c (cs.flatMap String.utf8EncodeChar)
    obtain ⟨b, bs, hbytes⟩ := List.exists_cons_of_ne_nil (String.utf8EncodeChar_ne_nil (c := c))
    rw [List.flatMap_cons, hbytes, List.cons_append] at hfuel ⊢
    rw [hbytes, List.cons_append] at hfirst
    obtain ⟨fuel, rfl⟩ := Nat.exists_eq_succ_of_ne_zero (Nat.ne_zero_of_lt hfuel)
    rw [List.length_cons, List.length_append] at hfuel
    rw [units, hfirst, List.map_cons]
    exact congrArg _ (ih (by omega))

theorem decode?_encode (s : String) : decode? (encode s) = some s := by
  have hall : (s.toList.map some).mapM id = some s.toList := by
    induction s.toList with
    | nil => rfl
    | cons c cs ih => simp [ih]
  rw [decode?, encode_eq, units_encode _ (Nat.le_refl _), hall, Option.map_some,
    String.ofList_toList]

end IndexMapping.Text.Utf8

/-! Outcomes of computations that may fail: how one that runs in steps succeeds. -/

namespace IndexMapping

variable {ε α β : Type}

@[simp] theorem ok_bind (a : α) (f : α → Except ε β) : (Except.ok a >>= f) = f a := rfl

@[simp] theorem error_bind (e : ε) (f : α → Except ε β) : (Except.error e >>= f) = .error e := rfl

theorem bind_eq_ok {x : Except ε α} {f : α → Except ε β} {b : β} :
    x >>= f = .ok b ↔ ∃ a, x = .ok a ∧ f a = .ok b := by
  cases x with
  | error e => simp
  | ok a => simp

theorem bind_eq_error {x : Except ε α} {f : α → Except ε β} {e : ε} :
    x >>= f = .error e ↔ x = .error e ∨ ∃ a, x = .ok a ∧ f a = .error e := by
  cases x with
  | error e => simp
  | ok a => simp

theorem map_eq_error {x : Except ε α} {f : α → β} {e : ε} :
    x.map f = .error e ↔ x = .error e := by
  cases x with
  | error e => simp [Except.map]
  | ok a => simp [Except.map]

theorem map_eq_ok {x : Except ε α} {f : α → β} {b : β} :
    x.map f = .ok b ↔ ∃ a, x = .ok a ∧ f a = b := by
  cases x with
  | error e => simp [Except.map]
  | ok a => simp [Except.map]

theorem exists_map_eq_ok {x : Except ε α} {f : α → β} :
    (∃ b, x.map f = .ok b) ↔ ∃ a, x = .ok a := by
  simp only [map_eq_ok]
  exact ⟨fun ⟨_, a, ha, _⟩ => ⟨a, ha⟩, fun ⟨a, ha⟩ => ⟨f a, a, ha, rfl⟩⟩

theorem mapM_append_eq_ok {f : α → Except ε β} {xs ys : List α} {bs : List β} :
    (xs ++ ys).mapM f = .ok bs ↔
      ∃ as cs, xs.mapM f = .ok as ∧ ys.mapM f = .ok cs ∧ bs = as ++ cs := by
  rw [List.mapM_append, bind_eq_ok]
  constructor
  · rintro ⟨as, has, hrest⟩
    obtain ⟨cs, hcs, hok⟩ := bind_eq_ok.1 hrest
    cases hok
    exact ⟨as, cs, has, hcs, rfl⟩
  · rintro ⟨as, cs, has, hcs, rfl⟩
    exact ⟨as, has, bind_eq_ok.2 ⟨cs, hcs, rfl⟩⟩

theorem mapM_cons_eq_ok {f : α → Except ε β} {x : α} {xs : List α} {bs : List β} :
    (x :: xs).mapM f = .ok bs ↔ ∃ a cs, f x = .ok a ∧ xs.mapM f = .ok cs ∧ bs = a :: cs := by
  rw [List.mapM_cons, bind_eq_ok]
  constructor
  · rintro ⟨a, ha, hrest⟩
    obtain ⟨cs, hcs, hok⟩ := bind_eq_ok.1 hrest
    cases hok
    exact ⟨a, cs, ha, hcs, rfl⟩
  · rintro ⟨a, cs, ha, hcs, rfl⟩
    exact ⟨a, ha, bind_eq_ok.2 ⟨cs, hcs, rfl⟩⟩

instance decidableExistsOk (x : Except ε α) (p : α → Prop) [DecidablePred p] :
    Decidable (∃ a, x = .ok a ∧ p a) :=
  match x with
  | .ok a => decidable_of_iff (p a) (by simp)
  | .error _ => isFalse (by simp)

end IndexMapping

import IndexMapping.Settings.KeyPath
import Mathlib.Data.List.Basic
import Mathlib.Tactic.SplitIfs

/-! Setting what lies at the end of a path. Only the entry of the first key changes, and its new
value depends on the old one alone, not on the other entries. -/

namespace IndexMapping.Settings

variable {key k name : String} {value v target : Value} {es : List (String × Value)}
  {steps : List KeyStep}

theorem lookup_cons {α : Type} {x : α} {es : List (String × α)} :
    ((key, x) :: es).lookup k = if k = key then some x else es.lookup k := by
  by_cases h : k = key
  · subst h
    simp
  · have hbeq : (k == key) = false := by simpa using h
    simp [List.lookup_cons, hbeq, h]

theorem lookup_setEntry :
    (setEntry key value es).lookup k = if k = key then some value else es.lookup k := by
  induction es with
  | nil => rw [setEntry, lookup_cons, List.lookup_nil]
  | cons e es ih =>
    obtain ⟨k', v⟩ := e
    by_cases hkey : k' = key
    · subst hkey
      rw [setEntry, if_pos rfl, lookup_cons, lookup_cons]
      split_ifs <;> rfl
    · rw [setEntry, if_neg hkey, lookup_cons, lookup_cons, ih]
      by_cases hk : k = key
      · subst hk
        rw [if_neg (Ne.symm hkey), if_pos rfl, if_pos rfl]
      · rw [if_neg hk, if_neg hk]

namespace Value

/-- The value of a key after setting what lies at the end of steps from it, given its old value. -/
def put (value : Value) (steps : List KeyStep) (old : Option Value) : Value :=
  match steps, value with
  | [], .table _ es => setKeys es (old.getD emptyTable)
  | [], v => v
  | step :: steps, v => setSteps v (step :: steps) (old.getD nil)

theorem setSteps_key :
    setSteps value (.key name :: steps) target =
      .table target.toTable.origin (setEntry (Text.lower name)
        (value.put steps (target.entries.lookup (Text.lower name))) target.entries) := by
  cases steps with
  | nil => cases value <;> simp [setSteps, setKey, put]
  | cons step steps => simp [setSteps, changeKey, put]

theorem lookup_set (path : KeyPath) :
    (target.set path value).entries.lookup k =
      if k = Text.lower path.root then
        some (value.put path.steps (target.entries.lookup (Text.lower path.root)))
      else target.entries.lookup k := by
  rw [set, setSteps_key, entries, lookup_setEntry]

def IsTable (v : Value) : Prop := ∃ o es, v = .table o es

instance (v : Value) : Decidable v.IsTable :=
  match v with
  | .table o es => isTrue ⟨o, es, rfl⟩
  | .scalar _ _ => isFalse fun ⟨_, _, h⟩ => nomatch h
  | .array _ _ => isFalse fun ⟨_, _, h⟩ => nomatch h

theorem isTable_setSteps : (setSteps value (.key name :: steps) target).IsTable :=
  ⟨_, _, setSteps_key⟩

theorem isTable_setKey : (setKey name value target).IsTable :=
  show (setSteps value [.key name] target).IsTable from isTable_setSteps

theorem IsTable.setKeys (h : target.IsTable) : (setKeys es target).IsTable := by
  induction es generalizing target with
  | nil => exact h
  | cons e es ih =>
    rw [Value.setKeys]
    exact ih isTable_setKey

/-! ### Tables that are merged -/

/-- The values of the entries with a key, in any case. -/
def valuesOf (name : String) (es : List (String × Value)) : List Value :=
  (es.filter fun e => Text.lower e.1 = name).map (·.2)

theorem valuesOf_cons (e : String × Value) :
    valuesOf name (e :: es) =
      (if Text.lower e.1 = name then [e.2] else []) ++ valuesOf name es := by
  by_cases h : Text.lower e.1 = name <;> simp [valuesOf, h]

def IsScalar (v : Value) : Prop := ∃ o s, v = .scalar o s

theorem IsScalar.put_nil (h : value.IsScalar) (old : Option Value) : value.put [] old = value := by
  obtain ⟨o, s, rfl⟩ := h
  rfl

/-- A table is merged entry by entry. Of several values for one key the last one counts. -/
theorem lookup_setKeys (h : ∀ v ∈ valuesOf name es, v.IsScalar) :
    (setKeys es target).entries.lookup name =
      (valuesOf name es).getLast?.or (target.entries.lookup name) := by
  induction es generalizing target with
  | nil => rfl
  | cons e es ih =>
    rw [valuesOf_cons] at h ⊢
    have hes : (setKeys es (setKey e.1 e.2 target)).entries.lookup name =
        (valuesOf name es).getLast?.or ((setKey e.1 e.2 target).entries.lookup name) :=
      ih fun v hv => h v (List.mem_append_right _ hv)
    have hset : (setKey e.1 e.2 target).entries.lookup name =
        if name = Text.lower e.1 then some (e.2.put [] (target.entries.lookup (Text.lower e.1)))
        else target.entries.lookup name := lookup_set ⟨e.1, []⟩
    rw [setKeys, hes, hset]
    by_cases hname : Text.lower e.1 = name
    · have hscalar := h e.2 (by simp [hname])
      rw [if_pos hname.symm, if_pos hname, hscalar.put_nil, List.singleton_append,
        List.getLast?_cons]
      cases (valuesOf name es).getLast? <;> rfl
    · rw [if_neg (Ne.symm hname), if_neg hname, List.nil_append]

end Value

end IndexMapping.Settings

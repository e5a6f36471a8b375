import IndexMapping.Proofs.Outcome
import IndexMapping.Proofs.Settings.KeyPath
import IndexMapping.Settings.Load

/-! Layers on top of each other. A layer gives values to keys of groups, by a table for the group
or by the path of one key, in any letter case. What all layers together have for a key is the last
value that one of them gives to it, whatever else they set, and settings are read from that. -/

namespace IndexMapping.Settings

variable {key group name : String} {value v below : Value} {layer : Layer} {layers : List Layer}

/-- The tables in which the settings are. -/
def groups : List String := ["compiler", "input", "output"]

/-! ### What a layer says of a key -/

/-- The values that an entry of a layer gives to a key of a group. -/
def entryValues (group name key : String) (value : Value) : List Value :=
  let path := KeyPath.ofKey key
  if Text.lower path.root = group then
    match path.steps with
    | [] => Value.valuesOf name value.entries
    | [.key k] => if Text.lower k = name then [value] else []
    | _ => []
  else []

/-- All values that a layer gives to a key of a group. -/
def Layer.values (layer : Layer) (group name : String) : List Value :=
  layer.flatMap fun (key, value) => entryValues group name key value

/-- An entry that concerns a group is a table for it, or for a single key of it. -/
def Grouped (key : String) (value : Value) : Prop :=
  let path := KeyPath.ofKey key
  Text.lower path.root ∈ groups → path.steps = [] ∧ value.IsTable ∨ ∃ k, path.steps = [.key k]

instance (steps : List KeyStep) : Decidable (∃ k, steps = [.key k]) :=
  match steps with
  | [.key k] => isTrue ⟨k, rfl⟩
  | [] => isFalse (by simp)
  | [.index _] => isFalse (by simp)
  | _ :: _ :: _ => isFalse (by simp)

instance (key : String) (value : Value) : Decidable (Grouped key value) :=
  inferInstanceAs (Decidable (Text.lower (KeyPath.ofKey key).root ∈ groups →
    (KeyPath.ofKey key).steps = [] ∧ value.IsTable ∨ ∃ k, (KeyPath.ofKey key).steps = [.key k]))

/-! ### What is found in the end -/

namespace Value

/-- The entries of a group, none if it is missing. -/
def groupEntries (v : Value) (group : String) : List (String × Value) :=
  ((v.entries.lookup group).getD nil).entries

/-- The value of a key of a group. -/
def at? (v : Value) (group name : String) : Option Value := (v.groupEntries group).lookup name

/-- Groups that are there are tables. -/
def HasTables (v : Value) : Prop :=
  ∀ group ∈ groups, ∀ g, v.entries.lookup group = some g → g.IsTable

theorem HasTables.set (h : below.HasTables) (hgrouped : Grouped key value) :
    (below.set (KeyPath.ofKey key) value).HasTables := by
  intro group hgroup g hlookup
  rw [lookup_set] at hlookup
  split_ifs at hlookup with hroot
  · obtain rfl := Option.some.inj hlookup
    rcases hgrouped (hroot ▸ hgroup) with ⟨hsteps, o, es, rfl⟩ | ⟨k, hsteps⟩
    · rw [hsteps, put]
      refine IsTable.setKeys ?_
      cases hold : below.entries.lookup (Text.lower (KeyPath.ofKey key).root) with
      | none => exact ⟨_, _, rfl⟩
      | some old => exact h _ (hroot ▸ hgroup) old hold
    · rw [hsteps]
      exact isTable_setSteps
  · exact h group hgroup g hlookup

/-- An entry of a layer gives the last of its values to a key, or leaves it as it is. -/
theorem at?_set (hgroup : group ∈ groups) (hgrouped : Grouped key value)
    (hscalar : ∀ v ∈ entryValues group name key value, v.IsScalar) :
    (below.set (KeyPath.ofKey key) value).at? group name =
      (entryValues group name key value).getLast?.or (below.at? group name) := by
  have hlookup : (below.set (KeyPath.ofKey key) value).entries.lookup group = _ :=
    lookup_set (KeyPath.ofKey key)
  by_cases hroot : Text.lower (KeyPath.ofKey key).root = group
  · rw [if_pos hroot.symm, hroot] at hlookup
    rcases hgrouped (hroot ▸ hgroup) with ⟨hsteps, o, es, rfl⟩ | ⟨k, hsteps⟩
    · have hvalues : entryValues group name key (.table o es) = valuesOf name es := by
        simp only [entryValues, if_pos hroot, hsteps]
        rfl
      rw [hvalues] at hscalar ⊢
      rw [at?, groupEntries, hlookup, Option.getD_some, hsteps, put, lookup_setKeys hscalar, at?,
        groupEntries]
      cases below.entries.lookup group <;> rfl
    · have hvalues : entryValues group name key value =
          if Text.lower k = name then [value] else [] := by
        simp only [entryValues, if_pos hroot, hsteps]
      rw [hvalues] at hscalar ⊢
      rw [at?, groupEntries, hlookup, Option.getD_some, hsteps, put, setSteps_key, entries,
        lookup_setEntry]
      by_cases hk : Text.lower k = name
      · rw [if_pos hk] at hscalar
        rw [if_pos hk.symm, if_pos hk, (hscalar value List.mem_cons_self).put_nil]
        rfl
      · rw [if_neg (Ne.symm hk), if_neg hk]
        rfl
  · have hvalues : entryValues group name key value = [] := by
      simp only [entryValues, if_neg hroot]
    rw [if_neg (Ne.symm hroot)] at hlookup
    rw [hvalues, at?, groupEntries, hlookup]
    rfl

end Value

/-! ### Whole layers -/

theorem overlay_cons (e : String × Value) :
    overlay below (e :: layer) = overlay (below.set (KeyPath.ofKey e.1) e.2) layer := by
  rw [overlay, overlay, List.foldl_cons]

theorem hasTables_overlay (h : below.HasTables) (hgrouped : ∀ e ∈ layer, Grouped e.1 e.2) :
    (overlay below layer).HasTables := by
  induction layer generalizing below with
  | nil => exact h
  | cons e layer ih =>
    obtain ⟨he, hlayer⟩ := List.forall_mem_cons.1 hgrouped
    rw [overlay_cons]
    exact ih (h.set he) hlayer

theorem at?_overlay (hgroup : group ∈ groups) (hgrouped : ∀ e ∈ layer, Grouped e.1 e.2)
    (hscalar : ∀ v ∈ layer.values group name, v.IsScalar) :
    (overlay below layer).at? group name =
      (layer.values group name).getLast?.or (below.at? group name) := by
  induction layer generalizing below with
  | nil => rfl
  | cons e layer ih =>
    obtain ⟨he, hlayer⟩ := List.forall_mem_cons.1 hgrouped
    rw [Layer.values, List.flatMap_cons] at hscalar ⊢
    obtain ⟨hfirst, hrest⟩ := List.forall_mem_append.1 hscalar
    rw [overlay_cons, ih hlayer hrest, Value.at?_set hgroup he hfirst, List.getLast?_append,
      Option.or_assoc]
    rfl

theorem hasTables_stack (hgrouped : ∀ layer ∈ layers, ∀ e ∈ layer, Grouped e.1 e.2) :
    (stack layers).HasTables := by
  have hfold : ∀ below : Value, below.HasTables → (layers.foldl overlay below).HasTables := by
    induction layers with
    | nil => exact fun _ h => h
    | cons layer layers ih =>
      obtain ⟨hlayer, hlayers⟩ := List.forall_mem_cons.1 hgrouped
      exact fun below h => ih hlayers _ (hasTables_overlay h hlayer)
  refine hfold .emptyTable fun group _ g hlookup => ?_
  cases hlookup

/-- All layers together have the last value that one of them gives. -/
theorem at?_stack (hgroup : group ∈ groups)
    (hgrouped : ∀ layer ∈ layers, ∀ e ∈ layer, Grouped e.1 e.2)
    (hscalar : ∀ layer ∈ layers, ∀ v ∈ layer.values group name, v.IsScalar) :
    (stack layers).at? group name = (layers.flatMap (·.values group name)).getLast? := by
  have hfold : ∀ below : Value, (layers.foldl overlay below).at? group name =
      (layers.flatMap (·.values group name)).getLast?.or (below.at? group name) := by
    induction layers with
    | nil => exact fun _ => rfl
    | cons layer layers ih =>
      obtain ⟨hlayer, hlayers⟩ := List.forall_mem_cons.1 hgrouped
      obtain ⟨hfirst, hrest⟩ := List.forall_mem_cons.1 hscalar
      intro below
      rw [List.foldl_cons, ih hlayers hrest, at?_overlay hgroup hlayer hfirst, List.flatMap_cons,
        List.getLast?_append, Option.or_assoc]
  exact (hfold .emptyTable).trans Option.or_none

/-! ### Reading -/

namespace Value

/-- What is read from the value of a key of a group, or the default. -/
def readOr {α : Type} (read : String → Value → Except LoadError α) (default : α)
    (group name : String) (v : Value) : Except LoadError α :=
  match v.at? group name with
  | some w => read (group ++ "." ++ name) w
  | none => .ok default

theorem settingOr_groupEntries {α : Type} {read : String → Value → Except LoadError α}
    {default : α} {place : Nat} :
    (Group.keys (v.groupEntries group)).settingOr read default group name place =
      v.readOr read default group name := by
  rw [readOr, at?, Group.settingOr, Group.setting?]
  cases (v.groupEntries group).lookup name <;> rfl

theorem groupOr_of_hasTables {α : Type} {body : Group → Except LoadError α} {default : α}
    {expected : String} (h : v.HasTables) (hgroup : group ∈ groups)
    (hdefault : body (.keys []) = .ok default) :
    groupOr (fun w => Group.ofValue expected w >>= body) default group v =
      body (.keys (v.groupEntries group)) := by
  rw [groupOr, groupEntries]
  cases hlookup : v.entries.lookup group with
  | none => exact hdefault.symm
  | some g =>
    obtain ⟨o, es, rfl⟩ := h group hgroup g hlookup
    rfl

end Value

/-- Where groups are tables each setting is read for itself. -/
theorem ofValue_of_hasTables (h : v.HasTables) :
    ofValue v = (do
      let tagKey ← v.readOr toText "es-mapping" "compiler" "tag_key"
      let format ← v.readOr toFormat .pretty "compiler" "format"
      let allTypes ← v.readOr toFlag false "input" "all_types"
      let extension ← v.readOr toText "types.json" "input" "extension"
      let fileSuffix ← v.readOr toText "_es_mapper.json" "output" "file_suffix"
      .ok ⟨⟨tagKey, format⟩, ⟨allTypes, extension⟩, ⟨fileSuffix⟩⟩) := by
  have hcompiler : groupOr toCompiler {} "compiler" v = _ :=
    Value.groupOr_of_hasTables h (by decide) rfl
  have hinput : groupOr toInput {} "input" v = _ :=
    Value.groupOr_of_hasTables h (by decide) rfl
  have houtput : groupOr toOutput {} "output" v = _ :=
    Value.groupOr_of_hasTables h (by decide) rfl
  rw [ofValue, hcompiler, hinput, houtput]
  simp only [Value.settingOr_groupEntries, bind_assoc, ok_bind]

end IndexMapping.Settings

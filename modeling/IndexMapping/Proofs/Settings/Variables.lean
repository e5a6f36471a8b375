import IndexMapping.Proofs.Settings.Sources
import IndexMapping.Proofs.Settings.Spelling

/-! Text settings that a variable sets. Whatever the files and the other variables say, such a
setting is the printed text of its variable, and all else that is loaded does not depend on the
text. Tables that differ in the value of one key are compared: what is set elsewhere keeps the
difference as it is, and reading sees it in one setting only. -/

namespace IndexMapping.Settings

open Files (FileTree)

variable {t : FileTree} {env before after : Environment} {path : Option String} {text : String}

/-! ### Text settings -/

inductive TextSetting where
  | tagKey
  | extension
  | fileSuffix

namespace TextSetting

def group : TextSetting → String
  | tagKey => "compiler"
  | extension => "input"
  | fileSuffix => "output"

def name : TextSetting → String
  | tagKey => "tag_key"
  | extension => "extension"
  | fileSuffix => "file_suffix"

/-- The variable that sets it. -/
def variableName : TextSetting → String
  | tagKey => "ES_MAPPINGS__COMPILER__TAG_KEY"
  | extension => "ES_MAPPINGS__INPUT__EXTENSION"
  | fileSuffix => "ES_MAPPINGS__OUTPUT__FILE_SUFFIX"

def get : TextSetting → Settings → String
  | tagKey, s => s.compiler.tagKey
  | extension, s => s.input.extension
  | fileSuffix, s => s.output.fileSuffix

def set (text : String) : TextSetting → Settings → Settings
  | tagKey, s => { s with compiler.tagKey := text }
  | extension, s => { s with input.extension := text }
  | fileSuffix, s => { s with output.fileSuffix := text }

@[simp] theorem get_set (x : TextSetting) (s : Settings) : x.get (x.set text s) = text := by
  cases x <;> rfl

/-- Another variable leaves the setting alone: if it concerns its group, then another key of it. -/
def Spared (x : TextSetting) (variableName : String) : Prop :=
  ∀ key, variableKey? variableName = some key → Text.lower (KeyPath.ofKey key).root = x.group →
    ∃ k steps, (KeyPath.ofKey key).steps = .key k :: steps ∧ Text.lower k ≠ x.name

theorem variableKey?_variableName (x : TextSetting) :
    (variableKey? x.variableName).map KeyPath.ofKey = some ⟨x.group, [.key x.name]⟩ := by
  cases x <;> decide +kernel

theorem lower_group (x : TextSetting) : Text.lower x.group = x.group := by
  cases x <;> decide +kernel

theorem lower_name (x : TextSetting) : Text.lower x.name = x.name := by
  cases x <;> decide +kernel

end TextSetting

/-! ### Tables that differ in one key -/

variable {group name : String} {a b v w below : Value} {p : KeyPath} {layer : Layer}

namespace Value

/-- The tables have `a` and `b` for a key of a group, and the same for all other keys. -/
structure Differ (group name : String) (a b v w : Value) : Prop where
  others : ∀ k, k ≠ group → v.entries.lookup k = w.entries.lookup k
  inside : ∃ o o' es fs, v.entries.lookup group = some (.table o es) ∧
    w.entries.lookup group = some (.table o' fs) ∧ es.lookup name = some a ∧
    fs.lookup name = some b ∧ ∀ k, k ≠ name → es.lookup k = fs.lookup k

theorem differ_set (hgroup : Text.lower group = group) (hname : Text.lower name = name)
    (ha : a.IsScalar) (hb : b.IsScalar) :
    Differ group name a b (below.set ⟨group, [.key name]⟩ a)
      (below.set ⟨group, [.key name]⟩ b) := by
  refine ⟨fun k hk => ?_, ?_⟩
  · rw [lookup_set, lookup_set, if_neg (by rwa [hgroup]), if_neg (by rwa [hgroup])]
  · simp only [lookup_set, hgroup, if_true, put, setSteps_key, hname]
    refine ⟨_, _, _, _, rfl, rfl, ?_, ?_, fun k hk => ?_⟩
    · rw [lookup_setEntry, if_pos rfl]
      exact congrArg some (ha.put_nil _)
    · rw [lookup_setEntry, if_pos rfl]
      exact congrArg some (hb.put_nil _)
    · rw [lookup_setEntry, lookup_setEntry, if_neg hk, if_neg hk]

theorem lookup_set_table {k : String} {steps : List KeyStep} {o : Option String}
    {es : List (String × Value)} {value : Value} (hroot : Text.lower p.root = group)
    (hsteps : p.steps = .key k :: steps) (h : v.entries.lookup group = some (.table o es)) :
    (v.set p value).entries.lookup group = some (.table o
      (setEntry (Text.lower k) (value.put steps (es.lookup (Text.lower k))) es)) := by
  rw [lookup_set, hroot, if_pos rfl, hsteps, h, put, Option.getD_some, setSteps_key]
  rfl

/-- Setting another key of the group, or a key of another group, keeps the difference. -/
theorem Differ.set (h : Differ group name a b v w)
    (hspared : Text.lower p.root = group →
      ∃ k steps, p.steps = .key k :: steps ∧ Text.lower k ≠ name) (value : Value) :
    Differ group name a b (v.set p value) (w.set p value) := by
  obtain ⟨hothers, o, o', es, fs, hv, hw, hes, hfs, hinside⟩ := h
  by_cases hroot : Text.lower p.root = group
  · obtain ⟨k, steps, hsteps, hk⟩ := hspared hroot
    refine ⟨fun k' hk' => ?_, ?_⟩
    · rw [lookup_set, lookup_set, hroot, if_neg hk', if_neg hk', hothers k' hk']
    · refine ⟨_, _, _, _, lookup_set_table hroot hsteps hv, lookup_set_table hroot hsteps hw,
        ?_, ?_, fun k' hk' => ?_⟩
      · rw [lookup_setEntry, if_neg (Ne.symm hk), hes]
      · rw [lookup_setEntry, if_neg (Ne.symm hk), hfs]
      · rw [lookup_setEntry, lookup_setEntry, hinside _ hk, hinside _ hk']
  · refine ⟨fun k hk => ?_, o, o', es, fs, ?_, ?_, hes, hfs, hinside⟩
    · rw [lookup_set, lookup_set, hothers _ hroot, hothers _ hk]
    · rw [lookup_set, if_neg (Ne.symm hroot), hv]
    · rw [lookup_set, if_neg (Ne.symm hroot), hw]

theorem Differ.overlay (h : Differ group name a b v w)
    (hspared : ∀ e ∈ layer, Text.lower (KeyPath.ofKey e.1).root = group →
      ∃ k steps, (KeyPath.ofKey e.1).steps = .key k :: steps ∧ Text.lower k ≠ name) :
    Differ group name a b (overlay v layer) (overlay w layer) := by
  induction layer generalizing v w with
  | nil => exact h
  | cons e layer ih =>
    obtain ⟨he, hlayer⟩ := List.forall_mem_cons.1 hspared
    rw [overlay_cons, overlay_cons]
    exact ih (h.set he e.2) hlayer

end Value

/-! ### Reading -/

section Reading

variable {α : Type} {read : String → Value → Except LoadError α} {default : α} {place : Nat}
  {es fs : List (String × Value)} {other : String}

theorem groupOr_congr {read : Value → Except LoadError α}
    (h : v.entries.lookup name = w.entries.lookup name) :
    groupOr read default name v = groupOr read default name w := by
  rw [groupOr, groupOr, h]

theorem groupOr_of_lookup {read : Value → Except LoadError α}
    (h : v.entries.lookup name = some a) : groupOr read default name v = read a := by
  rw [groupOr, h]

theorem settingOr_congr (h : es.lookup name = fs.lookup name) :
    (Group.keys es).settingOr read default group name place =
      (Group.keys fs).settingOr read default group name place := by
  simp only [Group.settingOr, Group.setting?, h]

theorem settingOr_text {default : String} (h : es.lookup name = some a)
    (ha : a.text? = some text) :
    (Group.keys es).settingOr toText default group name place = .ok text := by
  simp only [Group.settingOr, Group.setting?, h, Option.map_some, toText_eq _ _ _ ha]

theorem compiler_differ (h : Value.Differ "compiler" "tag_key" a b v w)
    (ha : a.text? = some text) (hb : b.text? = some other) :
    groupOr toCompiler {} "compiler" v =
      (groupOr toCompiler {} "compiler" w).map fun c => { c with tagKey := text } := by
  obtain ⟨-, o, o', es, fs, hv, hw, hes, hfs, hinside⟩ := h
  simp only [groupOr_of_lookup hv, groupOr_of_lookup hw, toCompiler, Group.ofValue, ok_bind,
    settingOr_text hes ha, settingOr_text hfs hb, settingOr_congr (hinside "format" (by decide))]
  cases Group.settingOr toFormat OutputFormat.pretty "compiler" "format" 1 (.keys fs) <;> rfl

theorem input_differ (h : Value.Differ "input" "extension" a b v w)
    (ha : a.text? = some text) (hb : b.text? = some other) :
    groupOr toInput {} "input" v =
      (groupOr toInput {} "input" w).map fun i => { i with extension := text } := by
  obtain ⟨-, o, o', es, fs, hv, hw, hes, hfs, hinside⟩ := h
  simp only [groupOr_of_lookup hv, groupOr_of_lookup hw, toInput, Group.ofValue, ok_bind,
    settingOr_text hes ha, settingOr_text hfs hb, settingOr_congr (hinside "all_types" (by decide))]
  cases Group.settingOr toFlag false "input" "all_types" 0 (.keys fs) <;> rfl

theorem output_differ (h : Value.Differ "output" "file_suffix" a b v w)
    (ha : a.text? = some text) (hb : b.text? = some other) :
    groupOr toOutput {} "output" v =
      (groupOr toOutput {} "output" w).map fun _ => { fileSuffix := text } := by
  obtain ⟨-, o, o', es, fs, hv, hw, hes, hfs, -⟩ := h
  simp only [groupOr_of_lookup hv, groupOr_of_lookup hw, toOutput, Group.ofValue, ok_bind,
    settingOr_text hes ha, settingOr_text hfs hb]
  rfl

/-- Settings are read alike from tables that differ in the text of one of them. -/
theorem ofValue_differ (x : TextSetting) (h : Value.Differ x.group x.name a b v w)
    (ha : a.text? = some text) (hb : b.text? = some other) :
    ofValue v = (ofValue w).map (x.set text) := by
  have hgroup {α : Type} {read : Value → Except LoadError α} {default : α} (k : String)
      (hk : k ≠ x.group) : groupOr read default k v = groupOr read default k w :=
    groupOr_congr (h.others k hk)
  unfold ofValue
  cases x with
  | tagKey =>
    rw [compiler_differ h ha hb, hgroup "input" (by decide), hgroup "output" (by decide)]
    cases groupOr toCompiler {} "compiler" w <;> cases groupOr toInput {} "input" w <;>
      cases groupOr toOutput {} "output" w <;> rfl
  | extension =>
    rw [input_differ h ha hb, hgroup "compiler" (by decide), hgroup "output" (by decide)]
    cases groupOr toCompiler {} "compiler" w <;> cases groupOr toInput {} "input" w <;>
      cases groupOr toOutput {} "output" w <;> rfl
  | fileSuffix =>
    rw [output_differ h ha hb, hgroup "compiler" (by decide), hgroup "input" (by decide)]
    cases groupOr toCompiler {} "compiler" w <;> cases groupOr toInput {} "input" w <;>
      cases groupOr toOutput {} "output" w <;> rfl

end Reading

/-! ### Loading -/

theorem stack_concat {layers : List Layer} :
    stack (layers ++ [layer]) = overlay (stack layers) layer := List.foldl_concat ..

theorem overlay_append {layer' : Layer} :
    overlay below (layer ++ layer') = overlay (overlay below layer) layer' := List.foldl_append

/-- The environment in which the variable of a text setting has a text. -/
def Environment.withText (before after : Environment) (x : TextSetting) (text : String) :
    Environment := before ++ (x.variableName, text) :: after

theorem differ_variables {x : TextSetting} (hafter : ∀ e ∈ after, x.Spared e.1)
    (other : String) :
    ∃ a b, a.text? = some (printed text) ∧ b.text? = some (printed other) ∧
      Value.Differ x.group x.name a b
        (overlay below (variableLayer (before.withText after x text)))
        (overlay below (variableLayer (before.withText after x other))) := by
  obtain ⟨key, hkey, hpath⟩ := Option.map_eq_some_iff.1 x.variableKey?_variableName
  have hlayer : ∀ text, variableLayer (before.withText after x text) = variableLayer before ++
      (key, .scalar (some "the environment") (variableScalar text)) :: variableLayer after := by
    intro text
    simp [variableLayer, Environment.withText, hkey]
  refine ⟨_, _, text?_variable (some "the environment") text,
    text?_variable (some "the environment") other, ?_⟩
  rw [hlayer, hlayer, overlay_append, overlay_append, overlay_cons, overlay_cons, hpath]
  refine (Value.differ_set x.lower_group x.lower_name ⟨_, _, rfl⟩ ⟨_, _, rfl⟩).overlay
    fun e he hroot => ?_
  obtain ⟨v, hv, hvalue⟩ := List.mem_filterMap.1 he
  obtain ⟨k, hk, rfl⟩ := Option.map_eq_some_iff.1 hvalue
  exact hafter v hv k hk hroot

theorem userFile?_withText (x : TextSetting) :
    userFile? t (before.withText after x text) = userFile? t (before ++ after) := by
  have hlookup : ∀ k, k ≠ x.variableName →
      (before.withText after x text).lookup k = (before ++ after).lookup k := by
    intro k hk
    rw [Environment.withText, List.lookup_append, List.lookup_append, lookup_cons, if_neg hk]
  have hdirectory : "XDG_CONFIG_HOME" ≠ x.variableName ∧ "HOME" ≠ x.variableName := by
    cases x <;> decide
  rw [userFile?, userFile?, userDirectory?, userDirectory?, hlookup _ hdirectory.1,
    hlookup _ hdirectory.2]

/-- The text of the variable of a text setting decides that setting only. -/
theorem load_withText {x : TextSetting} (hafter : ∀ e ∈ after, x.Spared e.1) (other : String) :
    load t (before.withText after x text) path =
      (load t (before.withText after x other) path).map (x.set (printed text)) := by
  unfold load layers
  rw [userFile?_withText, userFile?_withText]
  cases localFiles.mapM (optionalLayer t) with
  | error e => rfl
  | ok usual =>
    cases (userFile? t (before ++ after)).toList.mapM (optionalLayer t) with
    | error e => rfl
    | ok user =>
      cases path.toList.mapM (requiredLayer t) with
      | error e => rfl
      | ok asked =>
        simp only [ok_bind, stack_concat]
        obtain ⟨a, b, ha, hb, hdiffer⟩ := differ_variables hafter other
        exact ofValue_differ x hdiffer ha hb

/-! ### Two variables and no files -/

def bareTree : FileTree where
  root := []
  work := []
  workText := "/"

theorem load_bareTree {o : Overrides} (huser : userFile? bareTree env = none)
    (hgives : (variableLayer env).Says o) :
    load bareTree env none = .ok (Overrides.resolve [{}, {}, {}, o]) := by
  have hmissing : ∀ name ∈ localFiles, ∀ path ∈ candidates bareTree name,
      startsMissing bareTree path := by decide
  have husual : ∀ name ∈ localFiles, ∀ path ∈ candidates bareTree name,
      bareTree.isFile path = false := fun name hname path hpath =>
    isFile_of_startsMissing rfl (hmissing name hname path hpath)
  rw [load, layers_of_missing husual huser]
  exact ofValue_stack (.cons says_nil (.cons says_nil (.cons says_nil (.cons hgives .nil))))

def formatVariable : Environment := [("ES_MAPPINGS__COMPILER__FORMAT", "compact")]

theorem spared_formatVariable : ∀ e ∈ formatVariable, TextSetting.fileSuffix.Spared e.1 := by
  simp only [formatVariable, List.forall_mem_singleton]
  intro key hkey hroot
  have hname : variableKey? "ES_MAPPINGS__COMPILER__FORMAT" = some "compiler.format" := by
    decide +kernel
  obtain rfl : "compiler.format" = key := Option.some.inj (hname.symm.trans hkey)
  exact absurd hroot (by decide +kernel)

theorem load_zeros :
    load bareTree (Environment.withText [] formatVariable .fileSuffix "007") none =
      .ok ⟨⟨"es-mapping", .compact⟩, {}, ⟨"7"⟩⟩ := by
  have hgives : (variableLayer (Environment.withText [] formatVariable .fileSuffix "007")).Says
      { format := some .compact, fileSuffix := some "7" } := by decide +kernel
  exact load_bareTree rfl hgives

/-! ### Any text of the variable -/

/-- A variable sets its text setting to its printed text, unless a variable after it concerns that
setting or its whole group. So it sets it to the text itself just when that is kept in printing,
whatever the files and the other variables say, and with the same outcome for all else. -/
theorem load_variable (x : TextSetting) (t : FileTree) (before after : Environment)
    (path : Option String) (hafter : ∀ e ∈ after, x.Spared e.1) :
    ∃ outcome : Except LoadError Settings, ∀ text,
      load t (before.withText after x text) path = outcome.map (x.set (printed text)) ∧
        ∀ s, load t (before.withText after x text) path = .ok s → (x.get s = text ↔ Kept text) := by
  refine ⟨load t (before.withText after x "") path, fun text => ?_⟩
  have hload : load t (before.withText after x text) path = _ := load_withText hafter ""
  refine ⟨hload, fun s hs => ?_⟩
  rw [hload] at hs
  cases hother : load t (before.withText after x "") path with
  | error e =>
    rw [hother] at hs
    cases hs
  | ok other =>
    rw [hother] at hs
    obtain rfl := Except.ok.inj hs
    rw [TextSetting.get_set]
    exact printed_eq_iff_kept text

theorem load_variable_with_format :
    (∀ e ∈ formatVariable, TextSetting.fileSuffix.Spared e.1) ∧ ∀ text,
      load bareTree (Environment.withText [] formatVariable .fileSuffix text) none =
        .ok ⟨⟨"es-mapping", .compact⟩, {}, ⟨printed text⟩⟩ := by
  refine ⟨spared_formatVariable, fun text => ?_⟩
  obtain ⟨outcome, h⟩ :=
    load_variable .fileSuffix bareTree [] formatVariable none spared_formatVariable
  have hzeros := load_zeros.symm.trans (h "007").1
  rw [(h text).1]
  cases outcome with
  | error e => cases hzeros
  | ok s =>
    obtain ⟨compiler, input, output⟩ := s
    obtain ⟨rfl, rfl, -⟩ := Settings.mk.inj (Except.ok.inj hzeros)
    rfl

/-- The zeros of the text are lost. -/
theorem zeros_lost :
    ∃ s, load bareTree [("ES_MAPPINGS__OUTPUT__FILE_SUFFIX", "007"),
        ("ES_MAPPINGS__COMPILER__FORMAT", "compact")] none = .ok s ∧
      s.output.fileSuffix ≠ "007" := ⟨_, load_zeros, by decide⟩

end IndexMapping.Settings

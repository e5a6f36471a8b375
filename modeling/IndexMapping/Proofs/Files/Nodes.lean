import IndexMapping.Files.FileTree

/-! The nodes of a tree by their places. Setting an entry changes the node at one place. All other
nodes stay where they are: files with their bytes, links with their targets, and directories with
at least the entries that they had. -/

namespace IndexMapping.Files

variable {root es : List (String × Node)} {name : String} {node old : Node}
  {place above below : List String}

/-! ### Places -/

namespace Node

/-- The entry of a directory with a name. -/
def entry? : Node → String → Option Node
  | .directory es, name => child? name es
  | _, _ => none

/-- What lies at the end of some names that lead downwards. -/
def below? (node : Node) : List String → Option Node
  | [] => some node
  | name :: names => (node.entry? name).bind (·.below? names)

theorem below?_append (node : Node) (above below : List String) :
    node.below? (above ++ below) = (node.below? above).bind (·.below? below) := by
  induction above generalizing node with
  | nil => rfl
  | cons name above ih =>
    simp only [List.cons_append, below?, Option.bind_assoc]
    congr 1
    funext child
    exact ih child

end Node

theorem entriesAt?_eq_some_iff :
    entriesAt? root place = some es ↔
      (Node.directory root).below? place = some (.directory es) := by
  induction place generalizing root with
  | nil => simp [entriesAt?, Node.below?]
  | cons d ds ih =>
    simp only [entriesAt?, Node.below?, Node.entry?]
    cases child? d root with
    | none => simp
    | some child =>
      cases child with
      | directory _ => exact ih
      | file _ => cases ds <;> simp [Node.below?, Node.entry?]
      | link _ => cases ds <;> simp [Node.below?, Node.entry?]

theorem below?_concat : (Node.directory root).below? (place ++ [name]) =
    (entriesAt? root place).bind (child? name) := by
  rw [Node.below?_append]
  cases hes : entriesAt? root place with
  | some es =>
    rw [entriesAt?_eq_some_iff.1 hes]
    simp [Node.below?, Node.entry?]
  | none =>
    cases hnode : (Node.directory root).below? place with
    | none => rfl
    | some node =>
      cases node with
      | directory es => simp [entriesAt?_eq_some_iff.2 hnode] at hes
      | file _ => rfl
      | link _ => rfl

/-! ### What may become of a node -/

/-- What a node may become when a file is set at some place: a directory may get entries, and a
file other bytes if it is the one at that place. -/
inductive Node.Becomes (isSet : Prop) : Node → Node → Prop where
  | directory (es es' : List (String × Node)) : Becomes isSet (.directory es) (.directory es')
  | link (target : String) : Becomes isSet (.link target) (.link target)
  | kept (bytes : List UInt8) : Becomes isSet (.file bytes) (.file bytes)
  | set (h : isSet) (bytes bytes' : List UInt8) : Becomes isSet (.file bytes) (.file bytes')

namespace Node.Becomes

variable {p q : Prop} {first second third : Node}

theorem refl (p : Prop) (node : Node) : node.Becomes p node := by
  cases node with
  | file bytes => exact kept bytes
  | link target => exact link target
  | directory es => exact directory es es

theorem mono (h : first.Becomes p second) (hpq : p → q) : first.Becomes q second := by
  cases h with
  | directory es es' => exact directory es es'
  | link target => exact link target
  | kept bytes => exact kept bytes
  | set hp bytes bytes' => exact set (hpq hp) bytes bytes'

theorem trans (h : first.Becomes p second) (h' : second.Becomes q third) :
    first.Becomes (p ∨ q) third := by
  cases h with
  | directory es es' =>
    cases h' with
    | directory _ es'' => exact directory es es''
  | link target =>
    cases h' with
    | link _ => exact link target
  | kept bytes => exact h'.mono .inr
  | set hp bytes bytes' =>
    cases h' with
    | kept _ => exact set (.inl hp) bytes bytes'
    | set _ _ bytes'' => exact set (.inl hp) bytes bytes''

end Node.Becomes

/-! ### Setting an entry -/

theorem child?_setEntry (other : String) : child? other (setEntry name node es) =
    if other = name then some node else child? other es := by
  induction es with
  | nil => simp [setEntry, child?, eq_comm]
  | cons e es ih =>
    obtain ⟨n, x⟩ := e
    by_cases hn : n = name
    · subst hn
      by_cases hother : other = n
      · simp [setEntry, child?, hother]
      · simp [setEntry, child?, hother, Ne.symm hother]
    · by_cases hother : n = other
      · subst hother
        simp [setEntry, child?, hn]
      · simp [setEntry, child?, hn, hother, ih]

theorem below?_setEntry_cons (other : String) (names : List String) :
    (Node.directory (setEntry name node es)).below? (other :: names) =
      if other = name then node.below? names
      else (Node.directory es).below? (other :: names) := by
  simp only [Node.below?, Node.entry?, child?_setEntry]
  split <;> rfl

theorem below?_setAt (h : entriesAt? root above = some es) :
    (Node.directory (setAt name node root above)).below? (above ++ [name]) = some node := by
  induction above generalizing root with
  | nil => simp [setAt, below?_setEntry_cons, Node.below?]
  | cons d ds ih =>
    rw [entriesAt?] at h
    split at h
    next inner hchild =>
      rw [setAt, hchild, List.cons_append, below?_setEntry_cons, if_pos rfl]
      exact ih h
    next => cases h

/-- When an entry is set, each node becomes what the entry has in its place, or stays. -/
theorem becomes_setEntry (isSet : List String → Prop)
    (hentry : ∀ child names n, child? name es = some child → child.below? names = some n →
      ∃ new, node.below? names = some new ∧ n.Becomes (isSet (name :: names)) new)
    (h : (Node.directory es).below? place = some old) :
    ∃ new, (Node.directory (setEntry name node es)).below? place = some new ∧
      old.Becomes (isSet place) new := by
  cases place with
  | nil =>
    cases h
    exact ⟨_, rfl, .directory _ _⟩
  | cons other names =>
    rw [below?_setEntry_cons]
    by_cases hother : other = name
    · subst hother
      rw [if_pos rfl]
      obtain ⟨child, hchild, hbelow⟩ := Option.bind_eq_some_iff.1 h
      exact hentry child names old hchild hbelow
    · rw [if_neg hother]
      exact ⟨old, h, .refl _ _⟩

/-- A file may be set where there is a file, and anything where there is nothing. -/
def Settable (node : Node) (there : Option Node) : Prop :=
  ∀ n, there = some n → ∃ bytes bytes', n = .file bytes ∧ node = .file bytes'

theorem settable_of_none {there : Option Node} (h : there = none) : Settable node there := by
  intro n hn
  rw [h] at hn
  cases hn

theorem settable_of_file {there : Option Node} {bytes bytes' : List UInt8}
    (h : there = some (.file bytes)) : Settable (.file bytes') there := by
  intro n hn
  rw [h] at hn
  cases hn
  exact ⟨bytes, bytes', rfl, rfl⟩

theorem becomes_setAt
    (hold : Settable node ((Node.directory root).below? (above ++ [name])))
    (h : (Node.directory root).below? place = some old) :
    ∃ new, (Node.directory (setAt name node root above)).below? place = some new ∧
      old.Becomes (place = above ++ [name]) new := by
  induction above generalizing root place old with
  | nil =>
    refine becomes_setEntry (· = [name]) (fun child names n hchild hbelow => ?_) h
    obtain ⟨bytes, bytes', rfl, rfl⟩ := hold child (by simp [Node.below?, Node.entry?, hchild])
    cases names with
    | nil =>
      cases hbelow
      exact ⟨_, rfl, .set rfl bytes bytes'⟩
    | cons _ _ => cases hbelow
  | cons d ds ih =>
    rw [setAt]
    split
    next inner hinner =>
      have hold' : Settable node ((Node.directory inner).below? (ds ++ [name])) := by
        simpa [Node.below?, Node.entry?, hinner] using hold
      refine becomes_setEntry (· = d :: ds ++ [name])
        (fun child names n hchild hbelow => ?_) h
      rw [hinner] at hchild
      cases hchild
      obtain ⟨new, hnew, hbecomes⟩ := ih hold' hbelow
      exact ⟨new, hnew, hbecomes.mono fun hnames => by rw [hnames, List.cons_append]⟩
    next => exact ⟨old, h, .refl _ _⟩

end IndexMapping.Files

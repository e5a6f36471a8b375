import IndexMapping.Proofs.Schema.Expand
import Mathlib.Data.List.Perm.Subperm

/-! The chain of types being expanded. An expansion that keeps its chain in one stack, on which a
type is put before its fields are read and from which it is taken afterwards, gives what `expand`
gives. At each of its calls the stack holds distinct known types, so that it never grows beyond the
number of types, and each call leaves it as it was. A reported cycle is a path of references that
comes back to one of its types. -/

namespace IndexMapping

/-! ### Computations on a stack -/

/-- A call of the expansion, with the stack as the call met and as it left it. -/
structure Visit where
  id : TypeId
  before : List TypeId
  after : List TypeId

structure Tracker where
  /-- The types being expanded, newest first. -/
  chain : List TypeId
  /-- The calls that have ended, newest first. -/
  visits : List Visit

/-- A computation on a stack, which keeps its changes to the stack when it fails; `none` if the
stack overflows. -/
abbrev Tracked (α : Type) := ExceptT Error (StateT Tracker Option) α

namespace Tracked

variable {α β : Type}

/-- The outcome on a given stack. -/
def from? (x : Tracked α) (t : Tracker) : Option (Except Error α × Tracker) := x.run.run t

def chain : Tracked (List TypeId) := return (← get).chain

def overflow : Tracked α := ExceptT.mk fun _ => none

/-- Puts a type on the stack, and takes the newest one off however the computation ends. -/
def pushed (id : TypeId) (x : Tracked α) : Tracked α := ExceptT.mk fun t =>
  (x.from? { t with chain := id :: t.chain }).map fun r =>
    (r.1, { r.2 with chain := r.2.chain.tail })

/-- Records a call of the expansion when it ends. -/
def visit (id : TypeId) (x : Tracked α) : Tracked α := ExceptT.mk fun t =>
  (x.from? t).map fun r =>
    (r.1, { r.2 with visits := ⟨id, t.chain, r.2.chain⟩ :: r.2.visits })

/-- On this stack the computation has the outcome `r`, makes only calls that satisfy `P`, and
leaves the stack as it was. -/
def Yields (x : Tracked α) (chain : List TypeId) (r : Except Error α) (P : Visit → Prop) : Prop :=
  ∀ visits, ∃ made, x.from? ⟨chain, visits⟩ = some (r, ⟨chain, made ++ visits⟩) ∧ ∀ v ∈ made, P v

variable {x : Tracked α} {stack : List TypeId} {r : Except Error α} {P : Visit → Prop}

theorem yields_pure (a : α) : Yields (pure a) stack (.ok a) P :=
  fun _ => ⟨[], rfl, fun _ h => absurd h List.not_mem_nil⟩

theorem yields_throw (err : Error) : Yields (throw err : Tracked α) stack (.error err) P :=
  fun _ => ⟨[], rfl, fun _ h => absurd h List.not_mem_nil⟩

theorem yields_liftExcept (r : Except Error α) : Yields (liftExcept r : Tracked α) stack r P := by
  cases r with
  | ok a => exact yields_pure a
  | error err => exact yields_throw err

theorem Yields.bind {f : α → Tracked β} {g : α → Except Error β} (hx : Yields x stack r P)
    (hf : ∀ a, Yields (f a) stack (g a) P) : Yields (x >>= f) stack (r >>= g) P := by
  intro visits
  obtain ⟨made, hrun, hmade⟩ := hx visits
  cases r with
  | error err =>
    refine ⟨made, ?_, hmade⟩
    simp only [from?, ExceptT.run_bind, StateT.run_bind] at hrun ⊢
    rw [hrun]
    rfl
  | ok a =>
    obtain ⟨more, hrun', hmore⟩ := hf a (made ++ visits)
    refine ⟨more ++ made, ?_, ?_⟩
    · simp only [from?, ExceptT.run_bind, StateT.run_bind] at hrun hrun' ⊢
      rw [hrun, List.append_assoc]
      exact hrun'
    · rintro v hv
      exact (List.mem_append.1 hv).elim (hmore v) (hmade v)

theorem Yields.map (f : α → β) (hx : Yields x stack r P) :
    Yields (f <$> x) stack (r.map f) P := by
  have h := hx.bind (g := fun a => .ok (f a)) fun a => yields_pure (f a)
  rw [map_eq_pure_bind]
  cases r <;> exact h

theorem yields_chain (f : List TypeId → Tracked α) (h : Yields (f stack) stack r P) :
    Yields (chain >>= f) stack r P := by
  intro visits
  obtain ⟨made, hrun, hmade⟩ := h visits
  exact ⟨made, hrun, hmade⟩

theorem Yields.pushed {id : TypeId} (h : Yields x (id :: stack) r P) :
    Yields (pushed id x) stack r P := by
  intro visits
  obtain ⟨made, hrun, hmade⟩ := h visits
  refine ⟨made, ?_, hmade⟩
  change (x.from? ⟨id :: stack, visits⟩).map _ = _
  rw [hrun]
  rfl

theorem Yields.visit {id : TypeId} (h : Yields x stack r P) (hid : P ⟨id, stack, stack⟩) :
    Yields (visit id x) stack r P := by
  intro visits
  obtain ⟨made, hrun, hmade⟩ := h visits
  refine ⟨⟨id, stack, stack⟩ :: made, ?_, List.forall_mem_cons.2 ⟨hid, hmade⟩⟩
  change (x.from? ⟨stack, visits⟩).map _ = _
  rw [hrun]
  rfl

end Tracked

/-! ### The expansion on a stack -/

mutual

/-- The property of a tagged field. References are expanded by `expand`. -/
def FieldType.propertyOn (tagKey : String) (expand : TypeId → Tracked Properties)
    (scope kind : String) : FieldType → Tracked Property
  | .scalar _ => return .scalar kind
  | .reference id => Property.object kind <$> expand id
  | .inline fs => Property.object kind <$> FieldType.propertiesOn tagKey expand scope [] fs

/-- The properties of the fields of `owner`; `taken` are the names given before. -/
def FieldType.propertiesOn (tagKey : String) (expand : TypeId → Tracked Properties)
    (owner : String) (taken : List String) : List Field → Tracked Properties
  | [] => return []
  | ⟨name, type, tags⟩ :: fs =>
    match FieldOf.tag? ⟨name, type, tags⟩ tagKey with
    | none => FieldType.propertiesOn tagKey expand owner taken fs
    | some raw => do
      let tag ← liftExcept (MappingTag.parse raw name owner)
      let p ← FieldType.propertyOn tagKey expand (owner ++ "." ++ name) tag.kind type
      if tag.name ∈ taken then throw (.duplicateName owner tag.name)
      else
        let ps ← FieldType.propertiesOn tagKey expand owner (tag.name :: taken) fs
        return (tag.name, p) :: ps

end

namespace FieldType

variable {tagKey : String} {stack : List TypeId} {P : Visit → Prop} {owner : String}
  {taken : List String} {fs : List Field}
  {expandOn : TypeId → Tracked Properties} {expand : TypeId → Except Error Properties}

theorem yields_property {scope kind : String} {τ : FieldType}
    (hexp : ∀ id, (expandOn id).Yields stack (expand id) P)
    (hin : ∀ gs, τ = .inline gs → ∀ owner taken,
      (propertiesOn tagKey expandOn owner taken gs).Yields stack
        (properties tagKey expand owner taken gs) P) :
    (propertyOn tagKey expandOn scope kind τ).Yields stack
      (property tagKey expand scope kind τ) P := by
  cases τ with
  | scalar source =>
    rw [propertyOn, property]
    exact Tracked.yields_pure _
  | reference id =>
    rw [propertyOn, property]
    exact (hexp id).map _
  | inline gs =>
    rw [propertyOn, property]
    exact (hin gs rfl scope []).map _

/-- Reading fields calls the expansion for their references and does nothing else to the stack. -/
theorem yields_properties (hexp : ∀ id, (expandOn id).Yields stack (expand id) P) :
    (propertiesOn tagKey expandOn owner taken fs).Yields stack
      (properties tagKey expand owner taken fs) P := by
  induction fs using Fields.induction generalizing owner taken with
  | step fs ih =>
    have hprop : ∀ f ∈ fs, ∀ {scope kind}, (propertyOn tagKey expandOn scope kind f.type).Yields
        stack (property tagKey expand scope kind f.type) P :=
      fun f hf => yields_property hexp fun gs hi owner taken => ih f hf gs hi
    clear ih
    induction fs generalizing taken with
    | nil =>
      rw [propertiesOn, properties]
      exact Tracked.yields_pure []
    | cons f fs ih =>
      obtain ⟨hf, hfs⟩ := List.forall_mem_cons.1 hprop
      obtain ⟨name, type, tags⟩ := f
      rw [propertiesOn, properties]
      cases FieldOf.tag? ⟨name, type, tags⟩ tagKey with
      | none => exact ih hfs
      | some raw =>
        refine (Tracked.yields_liftExcept _).bind fun tag => hf.bind fun p => ?_
        split_ifs
        · exact Tracked.yields_throw _
        · exact (ih hfs).bind fun ps => Tracked.yields_pure _

end FieldType

namespace TypeSet

/-- The properties of a type, expanded on a stack that has room for some more types. -/
def expandOn (s : TypeSet) (tagKey : String) (room : Nat) (id : TypeId) : Tracked Properties :=
  Tracked.visit id do
    let chain ← Tracked.chain
    if id ∈ chain then throw (.recursiveType (chain.reverse ++ [id]))
    else match s.get? id, room with
      | none, _ => throw (.unknownType id)
      | some _, 0 => Tracked.overflow
      | some d, room + 1 =>
        Tracked.pushed id
          (FieldType.propertiesOn tagKey (s.expandOn tagKey room) d.name [] d.fields)

variable {s : TypeSet} {tagKey : String} {chain stack : List TypeId} {id : TypeId}

/-- A stack of distinct known types. -/
structure Branch (s : TypeSet) (chain : List TypeId) : Prop where
  nodup : chain.Nodup
  known : ∀ id ∈ chain, ∃ d, s.get? id = some d

theorem Branch.cons {d : TypeDescriptor} (h : s.Branch chain) (hid : id ∉ chain)
    (hd : s.get? id = some d) : s.Branch (id :: chain) :=
  ⟨List.nodup_cons.2 ⟨hid, h.nodup⟩, List.forall_mem_cons.2 ⟨⟨d, hd⟩, h.known⟩⟩

/-- There are no more types on a branch than there are types. -/
theorem Branch.length_le (h : s.Branch chain) : chain.length ≤ s.size := by
  have hsub : chain ⊆ s.types.map (·.id) := by
    intro id hid
    obtain ⟨d, hd⟩ := h.known id hid
    have heq : d.id = id := by simpa using List.find?_some hd
    exact List.mem_map.2 ⟨d, List.mem_of_find?_eq_some hd, heq⟩
  simpa [size] using (List.subperm_of_subset h.nodup hsub).length_le

/-- The stack of a call is a branch, and the call leaves it as it was. -/
structure WellStacked (s : TypeSet) (v : Visit) : Prop where
  branch : s.Branch v.before
  restored : v.after = v.before

/-! ### One call -/

theorem expand_of_mem (hid : id ∈ chain) :
    s.expand tagKey chain id = .error (.recursiveType (chain.reverse ++ [id])) := by
  rw [expand, dif_pos hid]

theorem expand_of_unknown (hid : id ∉ chain) (hd : s.get? id = none) :
    s.expand tagKey chain id = .error (.unknownType id) := by
  rw [expand, dif_neg hid]
  split
  next => rfl
  next d hd' => exact absurd (hd.symm.trans hd') (by simp)

theorem expand_of_known {d : TypeDescriptor} (hid : id ∉ chain) (hd : s.get? id = some d) :
    s.expand tagKey chain id =
      FieldType.properties tagKey (s.expand tagKey (id :: chain)) d.name [] d.fields := by
  rw [expand, dif_neg hid]
  split
  next hd' => exact absurd (hd.symm.trans hd') (by simp)
  next e he =>
    cases hd.symm.trans he
    rfl

/-- A call gives what `expand` gives if there is room for its type and the calls that it makes in
turn do. -/
theorem yields_call {room : Nat} (hstack : s.Branch stack)
    (hcalls : ∀ d, id ∉ stack → s.get? id = some d → ∃ less, room = less + 1 ∧
      ∀ ref, (s.expandOn tagKey less ref).Yields (id :: stack)
        (s.expand tagKey (id :: stack) ref) s.WellStacked) :
    (s.expandOn tagKey room id).Yields stack (s.expand tagKey stack id) s.WellStacked := by
  rw [expandOn.eq_def]
  refine (Tracked.yields_chain _ ?_).visit ⟨hstack, rfl⟩
  split_ifs with hid
  · rw [expand_of_mem hid]
    exact Tracked.yields_throw _
  · cases hd : s.get? id with
    | none =>
      rw [expand_of_unknown hid hd]
      exact Tracked.yields_throw _
    | some d =>
      obtain ⟨less, rfl, href⟩ := hcalls d hid hd
      rw [expand_of_known hid hd]
      exact (FieldType.yields_properties href).pushed

/-- With room for the types that are not on the stack, the expansion gives what `expand` gives. -/
theorem yields_expand {room : Nat} (hstack : s.Branch stack)
    (hroom : s.size ≤ room + stack.length) :
    (s.expandOn tagKey room id).Yields stack (s.expand tagKey stack id) s.WellStacked := by
  induction room generalizing stack id with
  | zero =>
    refine yields_call hstack fun d hid hd => ?_
    -- all types are on the stack, so this one is
    have hfull := (hstack.cons hid hd).length_le
    rw [List.length_cons] at hfull
    omega
  | succ room ih =>
    refine yields_call hstack fun d hid hd => ⟨room, rfl, fun ref => ?_⟩
    exact ih (hstack.cons hid hd) (by rw [List.length_cons]; omega)

end TypeSet

/-! ### Reported cycles -/

namespace FieldType

variable {tagKey : String} {expand : TypeId → Except Error Properties} {owner : String}
  {taken : List String} {fs : List Field} {cycle : List TypeId}

/-- Fields report a cycle only where one of them does. -/
theorem exists_property_of_recursive
    (h : properties tagKey expand owner taken fs = .error (.recursiveType cycle)) :
    ∃ f ∈ fs, (f.tag? tagKey).isSome ∧
      ∃ scope kind, property tagKey expand scope kind f.type = .error (.recursiveType cycle) := by
  induction fs generalizing taken with
  | nil =>
    rw [properties_nil] at h
    cases h
  | cons f fs ih =>
    have later : ∀ {taken}, properties tagKey expand owner taken fs =
        .error (.recursiveType cycle) → _ := fun h => (ih h).imp fun g hg =>
      And.imp_left (List.mem_cons_of_mem f) hg
    cases hf : f.tag? tagKey with
    | none =>
      rw [properties_cons_untagged hf] at h
      exact later h
    | some raw =>
      obtain ⟨name, type, tags⟩ := f
      rw [properties, hf] at h
      rcases bind_eq_error.1 h with h | ⟨tag, -, h⟩
      · rw [MappingTag.parse_eq] at h
        split_ifs at h
        cases h
      rcases bind_eq_error.1 h with h | ⟨p, -, h⟩
      · exact ⟨_, List.mem_cons_self, by rw [hf]; rfl, _, _, h⟩
      split_ifs at h
      · cases h
      · rcases bind_eq_error.1 h with h | ⟨ps, -, h⟩
        · exact later h
        · cases h

/-- A cycle is reported by the expansion of a type that the fields refer to. -/
theorem exists_mention_of_recursive
    (h : properties tagKey expand owner taken fs = .error (.recursiveType cycle)) :
    ∃ id, Fields.Mentions tagKey fs id ∧ expand id = .error (.recursiveType cycle) := by
  induction fs using Fields.induction generalizing owner taken with
  | step fs ih =>
    obtain ⟨f, hf, ht, scope, kind, hp⟩ := exists_property_of_recursive h
    cases hτ : f.type with
    | scalar source =>
      rw [hτ, property] at hp
      cases hp
    | reference id =>
      rw [hτ, property, map_eq_error] at hp
      exact ⟨id, ⟨fs, .refl, f, hf, ht, hτ⟩, hp⟩
    | inline gs =>
      rw [hτ, property, map_eq_error] at hp
      obtain ⟨id, ⟨hs, hw, hm⟩, he⟩ := ih f hf gs hτ hp
      exact ⟨id, ⟨hs, .head ⟨f, hf, ht, hτ⟩ hw, hm⟩, he⟩

end FieldType

namespace TypeSet

variable {s : TypeSet} {tagKey : String} {chain cycle : List TypeId} {id : TypeId}

/-- A path of references that first meets a type again at its end. -/
structure IsCycle (s : TypeSet) (tagKey : String) (cycle : List TypeId) : Prop where
  linked : cycle.IsChain (s.Refers tagKey)
  distinct : cycle.dropLast.Nodup
  /-- The last type occurs exactly once before the end. -/
  closed : ∃ last ∈ cycle.getLast?, cycle.dropLast.count last = 1

theorem isCycle_of_mem (hlinked : (chain.reverse ++ [id]).IsChain (s.Refers tagKey))
    (hnodup : chain.Nodup) (hid : id ∈ chain) : s.IsCycle tagKey (chain.reverse ++ [id]) := by
  refine ⟨hlinked, ?_, id, by simp, ?_⟩
  · simpa using hnodup
  · rw [List.dropLast_concat]
    exact List.count_eq_one_of_mem (List.nodup_reverse.2 hnodup) (List.mem_reverse.2 hid)

/-- A cycle that is reported under a branch of references is a continuation of it. -/
theorem isCycle_of_expand (hlinked : (chain.reverse ++ [id]).IsChain (s.Refers tagKey))
    (hnodup : chain.Nodup) (h : s.expand tagKey chain id = .error (.recursiveType cycle)) :
    s.IsCycle tagKey cycle ∧ chain.reverse ++ [id] <+: cycle := by
  induction chain, id using chain_induction (s := s) with
  | step chain id ih =>
    by_cases hid : id ∈ chain
    · rw [expand_of_mem hid] at h
      cases h
      exact ⟨isCycle_of_mem hlinked hnodup hid, List.prefix_rfl⟩
    · cases hd : s.get? id with
      | none =>
        rw [expand_of_unknown hid hd] at h
        cases h
      | some d =>
        rw [expand_of_known hid hd] at h
        obtain ⟨ref, hm, href⟩ := FieldType.exists_mention_of_recursive h
        have hstep : ((id :: chain).reverse ++ [ref]).IsChain (s.Refers tagKey) := by
          rw [List.reverse_cons]
          refine hlinked.append (.singleton ref) ?_
          rintro a ha b ⟨⟩
          rw [List.getLast?_concat] at ha
          cases ha
          exact ⟨d, hd, hm⟩
        obtain ⟨hcycle, hprefix⟩ :=
          ih hid d hd ref hstep (List.nodup_cons.2 ⟨hid, hnodup⟩) href
        rw [List.reverse_cons] at hprefix
        exact ⟨hcycle, (List.prefix_append _ _).trans hprefix⟩

/-- Compiling a type terminates with a stack that has room for the types of the set: each call of
the expansion meets a stack of distinct known types, no more than there are, and leaves it as it
was, whether it succeeds or fails. A cycle that is reported is a path of references from the type
compiled that first meets a type again at its end. -/
theorem compile_terminates (s : TypeSet) (tagKey : String) (id : TypeId) :
    (∃ visits, (s.expandOn tagKey s.size id).from? ⟨[], []⟩ =
        some (s.compile tagKey id, ⟨[], visits⟩) ∧
      ∀ v ∈ visits, v.before.Nodup ∧ (∀ a ∈ v.before, ∃ d, s.get? a = some d) ∧
        v.before.length ≤ s.size ∧ v.after = v.before) ∧
      ∀ cycle, s.compile tagKey id = .error (.recursiveType cycle) →
        cycle.head? = some id ∧ s.IsCycle tagKey cycle := by
  refine ⟨?_, fun cycle h => ?_⟩
  · have hempty : s.Branch [] := ⟨List.nodup_nil, by simp⟩
    have hyields : (s.expandOn tagKey s.size id).Yields [] (s.compile tagKey id) s.WellStacked :=
      yields_expand hempty (Nat.le_refl s.size)
    obtain ⟨visits, hrun, hvisits⟩ := hyields []
    rw [List.append_nil] at hrun
    refine ⟨visits, hrun, fun v hv => ?_⟩
    obtain ⟨hbranch, hrestored⟩ := hvisits v hv
    exact ⟨hbranch.nodup, hbranch.known, hbranch.length_le, hrestored⟩
  · obtain ⟨hcycle, hprefix⟩ := isCycle_of_expand (.singleton id) List.nodup_nil h
    obtain ⟨rest, rfl⟩ := hprefix
    exact ⟨rfl, hcycle⟩

end TypeSet

end IndexMapping

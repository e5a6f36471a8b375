import IndexMapping.Proofs.Schema.Properties
import Mathlib.Data.List.Chain
import Mathlib.Data.List.Nodup

/-! Expanding a type over a graph of references that may have cycles. A type compiles exactly
when all that is reached from it is known and well tagged and no chain of references comes back
to itself. The chain of types being expanded decides only whether this succeeds: what a type
expands to does not depend on where it is met. -/

namespace IndexMapping.TypeSet

variable {s : TypeSet} {tagKey : String} {chain : List TypeId} {id : TypeId} {ps : Properties}

/-! ### The graph of references -/

/-- A tagged field of `a`, at any inline depth, refers to `b`. -/
def Refers (s : TypeSet) (tagKey : String) (a b : TypeId) : Prop :=
  ∃ d, s.get? a = some d ∧ Fields.Mentions tagKey d.fields b

def Reaches (s : TypeSet) (tagKey : String) : TypeId → TypeId → Prop :=
  Relation.ReflTransGen (s.Refers tagKey)

/-- `fs` is a field list of a type reached from `id`. -/
def ReachesList (s : TypeSet) (tagKey : String) (id : TypeId) (fs : List Field) : Prop :=
  ∃ a d, s.Reaches tagKey id a ∧ s.get? a = some d ∧ Fields.Within tagKey d.fields fs

structure Compilable (s : TypeSet) (tagKey : String) (id : TypeId) : Prop where
  known : ∀ a, s.Reaches tagKey id a → ∃ d, s.get? a = some d
  /-- No chain of references meets a type twice. -/
  acyclic : ∀ l, (id :: l).IsChain (s.Refers tagKey) → (id :: l).Nodup
  wellTagged : ∀ fs, s.ReachesList tagKey id fs → Fields.WellTagged tagKey fs

/-- A type that is compilable and leads to no type of the chain. -/
structure Expandable (s : TypeSet) (tagKey : String) (chain : List TypeId) (id : TypeId) : Prop
    extends s.Compilable tagKey id where
  apart : ∀ l, (id :: l).IsChain (s.Refers tagKey) → ∀ a ∈ id :: l, a ∉ chain

theorem expandable_nil : s.Expandable tagKey [] id ↔ s.Compilable tagKey id :=
  ⟨fun h => h.toCompilable, fun h => ⟨h, fun _ _ _ _ => List.not_mem_nil⟩⟩

theorem Expandable.ref {d : TypeDescriptor} {ref : TypeId} (h : s.Expandable tagKey chain id)
    (hd : s.get? id = some d) (hm : Fields.Mentions tagKey d.fields ref) :
    s.Expandable tagKey (id :: chain) ref := by
  have hr : s.Refers tagKey id ref := ⟨d, hd, hm⟩
  refine ⟨⟨fun a ha => h.known a (.head hr ha), fun l hl => ?_, ?_⟩, fun l hl a ha => ?_⟩
  · exact (List.nodup_cons.1 (h.acyclic _ (.cons_cons hr hl))).2
  · rintro fs ⟨a, e, ha, he, hw⟩
    exact h.wellTagged fs ⟨a, e, .head hr ha, he, hw⟩
  · have hnodup := List.nodup_cons.1 (h.acyclic _ (.cons_cons hr hl))
    rw [List.mem_cons, not_or]
    refine ⟨fun he => hnodup.1 (he ▸ ha), ?_⟩
    exact h.apart _ (.cons_cons hr hl) a (List.mem_cons_of_mem _ ha)

theorem Expandable.of_refs {d : TypeDescriptor} (hid : id ∉ chain) (hd : s.get? id = some d)
    (hw : ∀ fs, Fields.Within tagKey d.fields fs → Fields.WellTagged tagKey fs)
    (hrefs : ∀ ref, Fields.Mentions tagKey d.fields ref →
      s.Expandable tagKey (id :: chain) ref) : s.Expandable tagKey chain id := by
  have hstep : ∀ {ref}, s.Refers tagKey id ref → s.Expandable tagKey (id :: chain) ref := by
    rintro ref ⟨e, he, hm⟩
    cases hd.symm.trans he
    exact hrefs ref hm
  refine ⟨⟨fun a ha => ?_, fun l hl => ?_, ?_⟩, fun l hl => ?_⟩
  · obtain rfl | ⟨ref, hr, ha⟩ := ha.cases_head
    · exact ⟨d, hd⟩
    · exact (hstep hr).known a ha
  · cases hl with
    | singleton => exact List.nodup_singleton id
    | cons_cons hr hl =>
      refine List.nodup_cons.2 ⟨fun hin => ?_, (hstep hr).acyclic _ hl⟩
      exact (hstep hr).apart _ hl id hin List.mem_cons_self
  · rintro fs ⟨a, e, ha, he, hfs⟩
    obtain rfl | ⟨ref, hr, ha⟩ := ha.cases_head
    · cases hd.symm.trans he
      exact hw fs hfs
    · exact (hstep hr).wellTagged fs ⟨a, e, ha, he, hfs⟩
  · rw [List.forall_mem_cons]
    refine ⟨hid, fun a ha => ?_⟩
    cases hl with
    | singleton => simp at ha
    | cons_cons hr hl =>
      exact fun hc => (hstep hr).apart _ hl a ha (List.mem_cons_of_mem _ hc)

/-! ### Expanding -/

theorem expand_eq_ok_iff :
    s.expand tagKey chain id = .ok ps ↔
      id ∉ chain ∧ ∃ d, s.get? id = some d ∧
        FieldType.properties tagKey (s.expand tagKey (id :: chain)) d.name [] d.fields =
          .ok ps := by
  rw [expand]
  split_ifs with hid
  · simp [hid]
  · split
    next hd => simp [hid, hd]
    next d hd => simp [hid, hd]

/-- Induction along the references: each step puts one more known type on the chain. -/
theorem chain_induction {P : List TypeId → TypeId → Prop}
    (step : ∀ chain id, (id ∉ chain → ∀ d, s.get? id = some d → ∀ ref, P (id :: chain) ref) →
      P chain id) (chain : List TypeId) (id : TypeId) : P chain id :=
  step chain id fun hid _ hd ref =>
    have := length_outside_lt hid hd
    chain_induction step (id :: chain) ref
termination_by (s.outside chain).length

theorem exists_expand_iff :
    (∃ ps, s.expand tagKey chain id = .ok ps) ↔ s.Expandable tagKey chain id := by
  induction chain, id using chain_induction (s := s) with
  | step chain id ih =>
    simp only [expand_eq_ok_iff]
    constructor
    · rintro ⟨ps, hid, d, hd, hps⟩
      obtain ⟨hw, hrefs⟩ := FieldType.exists_properties_iff_within.1 ⟨ps, hps⟩
      exact .of_refs hid hd hw fun ref hm => (ih hid d hd ref).1 (hrefs ref hm)
    · intro h
      have hid : id ∉ chain := h.apart [] (.singleton id) id List.mem_cons_self
      obtain ⟨d, hd⟩ := h.known id .refl
      obtain ⟨ps, hps⟩ := FieldType.exists_properties_iff_within.2
        ⟨fun fs hw => h.wellTagged fs ⟨id, d, .refl, hd, hw⟩,
          fun ref hm => (ih hid d hd ref).2 (h.ref hd hm)⟩
      exact ⟨ps, hid, d, hd, hps⟩

/-- A shorter chain gives the same properties. -/
theorem expand_mono {chain' : List TypeId} (hsub : chain' ⊆ chain)
    (h : s.expand tagKey chain id = .ok ps) : s.expand tagKey chain' id = .ok ps := by
  induction chain, id using chain_induction (s := s) generalizing chain' ps with
  | step chain id ih =>
    rw [expand_eq_ok_iff] at h ⊢
    obtain ⟨hid, d, hd, hps⟩ := h
    refine ⟨fun hin => hid (hsub hin), d, hd, ?_⟩
    refine FieldType.properties_mono (fun ref qs hq => ?_) hps
    exact ih hid d hd ref (List.cons_subset_cons id hsub) hq

theorem compile_of_expand (h : s.expand tagKey chain id = .ok ps) :
    s.compile tagKey id = .ok ps := expand_mono (List.nil_subset _) h

/-- A compiled type holds the properties of its fields, where a reference stands for what the
type it names compiles to on its own. -/
theorem properties_of_compile (h : s.compile tagKey id = .ok ps) :
    ∃ d, s.get? id = some d ∧
      FieldType.properties tagKey (s.compile tagKey) d.name [] d.fields = .ok ps := by
  obtain ⟨-, d, hd, hps⟩ := expand_eq_ok_iff.1 h
  exact ⟨d, hd, FieldType.properties_mono (fun _ _ => compile_of_expand) hps⟩

/-- A type compiles exactly when it is compilable, and then to the list of its tagged fields. -/
theorem compile_exact (s : TypeSet) (tagKey : String) (id : TypeId) :
    ((∃ ps, s.compile tagKey id = .ok ps) ↔ s.Compilable tagKey id) ∧
      ∀ ps, s.compile tagKey id = .ok ps → ∃ d, s.get? id = some d ∧
        FieldType.Lists tagKey (fun ref qs => s.compile tagKey ref = .ok qs) d.fields ps := by
  refine ⟨?_, fun ps hps => ?_⟩
  · rw [← expandable_nil]
    exact exists_expand_iff
  · obtain ⟨d, hd, hps⟩ := properties_of_compile hps
    exact ⟨d, hd, FieldType.properties_lists hps⟩

end IndexMapping.TypeSet

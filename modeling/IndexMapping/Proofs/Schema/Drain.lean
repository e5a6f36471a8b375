import IndexMapping.Proofs.Schema.Expand
import IndexMapping.Schema.Worklist
import Mathlib.Data.List.Forall2

/-! Draining a worklist. The types are taken up newest request first until one is refused: it is
unknown, it does not compile, or its name is that of a type taken up before it. What is left of
the worklist tells how far the run came. -/

namespace IndexMapping.TypeSet

variable {s : TypeSet} {tagKey : String} {id : TypeId} {e : String × Properties}
  {seen waiting ids : List TypeId} {done : List (String × Properties)} {err : Error}

/-- The normalised name of a type, if the type is known. -/
def mappingName? (s : TypeSet) (id : TypeId) : Option String :=
  (s.get? id).map fun d => Identifier.snake d.name

/-- The entry of a type is its normalised name with what the type compiles to. -/
def IsEntry (s : TypeSet) (tagKey : String) (id : TypeId) (e : String × Properties) : Prop :=
  s.mappingName? id = some e.1 ∧ s.compile tagKey id = .ok e.2

/-- A document can hold all these types. -/
structure Drainable (s : TypeSet) (tagKey : String) (ids : List TypeId) : Prop where
  known : ∀ id ∈ ids, ∃ d, s.get? id = some d
  compiles : ∀ id ∈ ids, ∃ ps, s.compile tagKey id = .ok ps
  distinct : (ids.map s.mappingName?).Nodup

/-- Why a type is refused once the types of `later` have been taken up. -/
inductive Refused (s : TypeSet) (tagKey : String) (later : List TypeId) (id : TypeId) :
    Error → Prop
  | unknown (h : s.get? id = none) : Refused s tagKey later id (.unknownType id)
  | failed {d : TypeDescriptor} {err : Error} (hd : s.get? id = some d)
      (h : s.compile tagKey id = .error err) : Refused s tagKey later id err
  | taken {name : String} {ps : Properties} (hn : s.mappingName? id = some name)
      (hc : s.compile tagKey id = .ok ps) (h : some name ∈ later.map s.mappingName?) :
      Refused s tagKey later id (.duplicateName "mappings" name)

/-! ### One type -/

theorem mapping_eq_ok_iff :
    s.mapping tagKey done id = .ok e ↔ s.IsEntry tagKey id e ∧ e.1 ∉ done.map (·.1) := by
  obtain ⟨name, ps⟩ := e
  unfold mapping IsEntry mappingName?
  cases hd : s.get? id with
  | none => simp
  | some d =>
    simp only [bind_eq_ok, Option.map_some, Option.some.injEq]
    constructor
    · rintro ⟨qs, hqs, h⟩
      split_ifs at h with hn
      cases h
      exact ⟨⟨rfl, hqs⟩, hn⟩
    · rintro ⟨⟨rfl, hps⟩, hn⟩
      exact ⟨ps, hps, if_neg hn⟩

/-- The names of the entries of some types are the names of the types. -/
theorem map_mappingName? (h : List.Forall₂ (s.IsEntry tagKey) ids done) :
    ids.map s.mappingName? = done.map fun e => some e.1 := by
  induction h with
  | nil => rfl
  | cons hab _ ih => rw [List.map_cons, List.map_cons, hab.1, ih]

theorem refused_of_mapping (hdone : List.Forall₂ (s.IsEntry tagKey) ids done)
    (h : s.mapping tagKey done id = .error err) : s.Refused tagKey ids id err := by
  unfold mapping at h
  cases hd : s.get? id with
  | none =>
    rw [hd] at h
    cases h
    exact .unknown hd
  | some d =>
    rw [hd] at h
    cases hc : s.compile tagKey id with
    | error e =>
      simp only [hc, error_bind] at h
      cases h
      exact .failed hd hc
    | ok ps =>
      simp only [hc, ok_bind] at h
      split_ifs at h with hn
      cases h
      refine .taken (by rw [mappingName?, hd]; rfl) hc ?_
      rw [map_mappingName? hdone]
      simpa using hn

/-! ### The whole worklist -/

theorem nodup_names_append (hnodup : (done.map (·.1)).Nodup) (hnew : e.1 ∉ done.map (·.1)) :
    ((done ++ [e]).map (·.1)).Nodup := by
  rw [List.map_append, List.map_singleton, ← List.concat_eq_append]
  exact hnodup.concat hnew

/-- All that a drain can do: the types of `later` are taken up and give their entries, and then
either none is left or the next one is refused. -/
theorem drain_cases (s : TypeSet) (tagKey : String) (seen : List TypeId)
    (done : List (String × Properties)) (waiting : List TypeId)
    (hnodup : (done.map (·.1)).Nodup) :
    ∃ later entries, List.Forall₂ (s.IsEntry tagKey) later entries ∧
      ((done ++ entries).map (·.1)).Nodup ∧
      ((waiting = later ∧
          s.drain tagKey seen done waiting = (.ok ⟨done ++ entries⟩, ⟨later.reverse ++ seen, []⟩)) ∨
        ∃ id earlier err, waiting = later ++ id :: earlier ∧
          s.mapping tagKey (done ++ entries) id = .error err ∧
          s.drain tagKey seen done waiting =
            (.error err, ⟨id :: (later.reverse ++ seen), earlier⟩)) := by
  induction waiting generalizing seen done with
  | nil => exact ⟨[], [], .nil, by simpa using hnodup, .inl ⟨rfl, by simp [drain]⟩⟩
  | cons id waiting ih =>
    rw [drain]
    cases hm : s.mapping tagKey done id with
    | error err =>
      exact ⟨[], [], .nil, by simpa using hnodup,
        .inr ⟨id, waiting, err, rfl, by simpa using hm, rfl⟩⟩
    | ok e =>
      obtain ⟨hentry, hnew⟩ := mapping_eq_ok_iff.1 hm
      obtain ⟨later, entries, hall, hnodup, hrest⟩ :=
        ih (id :: seen) (done ++ [e]) (nodup_names_append hnodup hnew)
      rw [List.append_assoc, List.singleton_append] at hnodup hrest
      refine ⟨id :: later, e :: entries, .cons hentry hall, hnodup, ?_⟩
      rw [List.reverse_cons, List.append_assoc, List.singleton_append]
      refine hrest.imp (fun ⟨hw, hd⟩ => ⟨by rw [hw], hd⟩) ?_
      rintro ⟨t, earlier, err, hw, herr, hd⟩
      exact ⟨t, earlier, err, by rw [hw, List.cons_append], herr, hd⟩

theorem drainable_of_entries (h : List.Forall₂ (s.IsEntry tagKey) ids done)
    (hnodup : (done.map (·.1)).Nodup) : s.Drainable tagKey ids := by
  have hmem : ∀ id ∈ ids, ∃ e, s.IsEntry tagKey id e := by
    intro id hid
    obtain ⟨i, hi, rfl⟩ := List.getElem_of_mem hid
    exact ⟨_, h.get hi (h.length_eq ▸ hi)⟩
  refine ⟨fun id hid => ?_, fun id hid => ?_, ?_⟩
  · obtain ⟨e, he, -⟩ := hmem id hid
    exact (Option.map_eq_some_iff.1 he).imp fun d hd => hd.1
  · obtain ⟨e, -, he⟩ := hmem id hid
    exact ⟨e.2, he⟩
  · rw [map_mappingName? h, ← Function.comp_def, ← List.map_map]
    exact hnodup.map fun _ _ => Option.some.inj

theorem Drainable.not_refused {later earlier : List TypeId}
    (h : s.Drainable tagKey (later ++ id :: earlier)) : ¬ s.Refused tagKey later id err := by
  have hid : id ∈ later ++ id :: earlier := by simp
  rintro (hd | ⟨-, hc⟩ | ⟨hn, -, hin⟩)
  · obtain ⟨d, hd'⟩ := h.known id hid
    exact absurd (hd.symm.trans hd') (by simp)
  · obtain ⟨ps, hps⟩ := h.compiles id hid
    exact absurd (hc.symm.trans hps) (by simp)
  · have hnodup := h.distinct
    rw [List.map_append, List.map_cons, hn] at hnodup
    exact (List.nodup_append.1 hnodup).2.2 _ hin _ List.mem_cons_self rfl

theorem Refused.reverse (h : s.Refused tagKey ids id err) :
    s.Refused tagKey ids.reverse id err := by
  rcases h with hd | ⟨hd, hc⟩ | ⟨hn, hc, hin⟩
  · exact .unknown hd
  · exact .failed hd hc
  · exact .taken hn hc (by simpa using hin)

theorem drainable_reverse : s.Drainable tagKey ids.reverse ↔ s.Drainable tagKey ids := by
  constructor <;> rintro ⟨hk, hc, hd⟩ <;>
    exact ⟨by simpa using hk, by simpa using hc, by simpa using hd⟩

/-! ### Requests on a fresh worklist -/

theorem request_append (ids : List TypeId) (id : TypeId) :
    ((ids ++ [id]).foldl Worklist.request .empty) =
      (ids.foldl Worklist.request .empty).request id := by
  rw [List.foldl_append, List.foldl_cons, List.foldl_nil]

theorem requests_eq (ids : List TypeId) :
    ids.foldl Worklist.request .empty = ⟨[], ids.eraseDups.reverse⟩ := by
  induction ids using List.reverseRecOn with
  | nil => rfl
  | append_singleton ids id ih =>
    rw [request_append, ih, Worklist.request, List.eraseDups_append]
    by_cases h : id ∈ ids
    · simp [h, List.removeAll]
    · simp [h, List.removeAll, List.eraseDups_cons]

/-! ### Building a document -/

/-- Either all waiting types are entries of the document, or the newest one that is refused stops
the run and is the last one taken up. -/
theorem build_cases (s : TypeSet) (tagKey : String) (w : Worklist) :
    (∃ d, s.build tagKey w = (.ok d, ⟨w.waiting.reverse ++ w.seen, []⟩) ∧
        List.Forall₂ (s.IsEntry tagKey) w.waiting d.mappings ∧ (d.mappings.map (·.1)).Nodup) ∨
      ∃ later id earlier err, w.waiting = later ++ id :: earlier ∧
        s.build tagKey w = (.error err, ⟨id :: (later.reverse ++ w.seen), earlier⟩) ∧
        s.Drainable tagKey later ∧ s.Refused tagKey later id err := by
  obtain ⟨later, entries, hall, hnodup, hrest⟩ :=
    s.drain_cases tagKey w.seen [] w.waiting List.nodup_nil
  rw [List.nil_append] at hnodup hrest
  rcases hrest with ⟨hw, hd⟩ | ⟨id, earlier, err, hw, herr, hd⟩
  · exact .inl ⟨⟨entries⟩, by rw [build, hd, hw], hw ▸ hall, hnodup⟩
  · exact .inr ⟨later, id, earlier, err, hw, hd, drainable_of_entries hall hnodup,
      refused_of_mapping hall herr⟩

theorem build_ok {w : Worklist} {d : Document} (h : (s.build tagKey w).1 = .ok d) :
    List.Forall₂ (s.IsEntry tagKey) w.waiting d.mappings ∧ (d.mappings.map (·.1)).Nodup ∧
      (s.build tagKey w).2 = ⟨w.waiting.reverse ++ w.seen, []⟩ := by
  rcases s.build_cases tagKey w with ⟨d', hb, hall, hnodup⟩ | ⟨_, _, _, _, _, hb, _⟩
  · rw [hb] at h ⊢
    cases h
    exact ⟨hall, hnodup, rfl⟩
  · rw [hb] at h
    cases h

theorem build_error {w : Worklist} (h : (s.build tagKey w).1 = .error err) :
    ∃ later id earlier, w.waiting = later ++ id :: earlier ∧
      (s.build tagKey w).2 = ⟨id :: (later.reverse ++ w.seen), earlier⟩ ∧
      s.Drainable tagKey later ∧ s.Refused tagKey later id err := by
  rcases s.build_cases tagKey w with ⟨_, hb, _⟩ | ⟨later, id, earlier, err', hw, hb, hl, hr⟩
  · rw [hb] at h
    cases h
  · rw [hb] at h ⊢
    cases h
    exact ⟨later, id, earlier, hw, rfl, hl, hr⟩

theorem exists_build_iff {w : Worklist} :
    (∃ d, (s.build tagKey w).1 = .ok d) ↔ s.Drainable tagKey w.pending := by
  rw [Worklist.pending, drainable_reverse]
  constructor
  · rintro ⟨d, hd⟩
    obtain ⟨hall, hnodup, -⟩ := build_ok hd
    exact drainable_of_entries hall hnodup
  · intro h
    cases hb : (s.build tagKey w).1 with
    | ok d => exact ⟨d, rfl⟩
    | error err =>
      obtain ⟨later, id, earlier, hw, -, -, hr⟩ := build_error hb
      rw [hw] at h
      exact absurd hr h.not_refused

/-- A document is built exactly when all pending types are known, compile and have distinct
names, and then holds their entries, newest request first. Otherwise the first type in that order
that is refused gives the error; it and the newer ones have been taken up and the older ones are
still pending. Requests on a fresh worklist leave the first occurrences pending. -/
theorem build_exact (s : TypeSet) (tagKey : String) (w : Worklist) :
    ((∃ d, (s.build tagKey w).1 = .ok d) ↔ s.Drainable tagKey w.pending) ∧
      (∀ d, (s.build tagKey w).1 = .ok d →
        List.Forall₂ (s.IsEntry tagKey) w.pending.reverse d.mappings ∧
        (s.build tagKey w).2.pending = [] ∧
        ∀ id, id ∈ (s.build tagKey w).2.seen ↔ id ∈ w.seen ∨ id ∈ w.pending) ∧
      (∀ err, (s.build tagKey w).1 = .error err → ∃ earlier id later,
        w.pending = earlier ++ id :: later ∧ s.Drainable tagKey later ∧
        s.Refused tagKey later id err ∧ (s.build tagKey w).2.pending = earlier ∧
        ∀ ref, ref ∈ (s.build tagKey w).2.seen ↔ ref ∈ w.seen ∨ ref ∈ id :: later) ∧
      ∀ ids : List TypeId, (ids.foldl Worklist.request .empty).pending = ids.eraseDups ∧
        ∀ d, (s.build tagKey (ids.foldl Worklist.request .empty)).1 = .ok d →
          List.Forall₂ (s.IsEntry tagKey) ids.eraseDups.reverse d.mappings := by
  refine ⟨exists_build_iff, fun d hd => ?_, fun err herr => ?_, fun ids => ?_⟩
  · obtain ⟨hall, -, hw⟩ := build_ok hd
    rw [Worklist.pending, List.reverse_reverse, hw]
    exact ⟨hall, rfl, fun id => by simp [or_comm]⟩
  · obtain ⟨later, id, earlier, hw, hb, hl, hr⟩ := build_error herr
    refine ⟨earlier.reverse, id, later.reverse, by simp [Worklist.pending, hw],
      drainable_reverse.2 hl, hr.reverse, by rw [hb]; rfl, fun ref => ?_⟩
    rw [hb]
    simp [or_comm, or_assoc]
  · rw [requests_eq]
    refine ⟨by rw [Worklist.pending, List.reverse_reverse], fun d hd => ?_⟩
    exact (build_ok hd).1

end IndexMapping.TypeSet

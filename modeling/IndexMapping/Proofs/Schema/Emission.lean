import IndexMapping.Proofs.Schema.Rendering
import IndexMapping.Proofs.Schema.Session

/-! Which types a session emits. A call takes types up before it can fail, and a failing call
returns no document. The types that it took up have been seen all the same, so that they are in
no document and a new request of them is ignored. Every other type that has been seen is in a
document that a call returned. -/

namespace IndexMapping

namespace Reply

/-- A call returned a document, as it is or as its text. -/
def Returns (c : CompilerSettings) (d : Document) : Reply → Prop
  | document r => r = .ok d
  | text r => ∃ t, r = .ok t ∧ d.render c.format = .ok t
  | _ => False

/-- A call was to return a document and did not. -/
def Fails : Reply → Prop
  | document r => ∃ err, r = .error err
  | text r => ∃ err, r = .error err
  | _ => False

theorem Returns.not_fails {c : CompilerSettings} {d : Document} {r : Reply}
    (h : r.Returns c d) : ¬ r.Fails := by
  cases r with
  | none => exact id
  | document r =>
    rintro ⟨err, he⟩
    exact absurd (h.symm.trans he) (by simp)
  | text r =>
    obtain ⟨t, ht, -⟩ := h
    rintro ⟨err, he⟩
    exact absurd (ht.symm.trans he) (by simp)
  | properties ps => exact id

end Reply

/-- The entry of a type is in a document that a call of the session returned: the call took the
type up, and its document has the entries of all types that it took up. -/
def Emitted (s : TypeSet) (c : CompilerSettings) (turns : List (Reply × List TypeId))
    (id : TypeId) : Prop :=
  ∃ turn ∈ turns, ∃ d, turn.1.Returns c d ∧
    List.Forall₂ (s.IsEntry c.tagKey) turn.2 d.mappings ∧ id ∈ turn.2

/-- A call took a type up and failed. -/
def Lost (turns : List (Reply × List TypeId)) (id : TypeId) : Prop :=
  ∃ turn ∈ turns, turn.1.Fails ∧ id ∈ turn.2

/-- A document without entries has a text in each layout. -/
theorem Document.render_of_empty {d : Document} (format : OutputFormat) (h : d.mappings = []) :
    ∃ t, d.render format = .ok t := by
  obtain ⟨mappings⟩ := d
  subst h
  cases format with
  | compact => exact ⟨_, rfl⟩
  | pretty =>
    have hplain : (⟨[]⟩ : Document).encode.Plain :=
      Property.plain_nil.object_cons (by simp) Property.plain_nil
    exact ⟨_, (Document.render_pretty hplain).1 (by decide)⟩

namespace Worklist

variable {s : TypeSet} {c : CompilerSettings} {w after : Worklist} {id : TypeId}

/-! ### One call -/

theorem Step.mem_seen_iff (h : w.Step after) :
    id ∈ after.seen ↔ id ∈ w.seen ∨ id ∈ w.taken after := by
  cases h with
  | push new hs hw => simp [taken]
  | take ids rest h => simp [taken, h, or_comm]

/-- A type that waits or has been seen does so after a call, too. -/
theorem Step.known (h : w.Step after) (hid : id ∈ w.seen ∨ id ∈ w.waiting) :
    id ∈ after.seen ∨ id ∈ after.waiting := by
  cases h with
  | push new hs hw => exact hid.imp_right (List.mem_cons_of_mem _)
  | take ids rest h =>
    rw [h, List.mem_append] at hid
    rw [List.mem_append, List.mem_reverse]
    tauto

theorem known_request (w : Worklist) (id : TypeId) :
    id ∈ (w.request id).seen ∨ id ∈ (w.request id).waiting := by
  rw [request]
  split_ifs with h
  · simpa using h
  · exact .inr List.mem_cons_self

theorem taken_of_waiting {ids rest : List TypeId} (h : w.waiting = ids ++ rest)
    (ha : after.waiting = rest) : w.taken after = ids := by
  simp [taken, h, ha]

/-- A build fails at a type that it has taken up. -/
theorem exists_taken_of_build_error {tagKey : String} {err : Error}
    (h : (s.build tagKey w).1 = .error err) : ∃ id, id ∈ w.taken (s.build tagKey w).2 := by
  obtain ⟨later, id, earlier, hw, hb, -, -⟩ := TypeSet.build_error h
  rw [List.append_cons] at hw
  rw [taken_of_waiting hw (by rw [hb])]
  exact ⟨id, List.mem_append_right _ List.mem_cons_self⟩

/-- A run that builds its document and fails to lay it out has taken up a type, since a document
without entries is laid out. -/
theorem exists_taken_of_run_error {d : Document} {err : Error}
    (hb : (s.build c.tagKey w).1 = .ok d) (h : (s.run c w).1 = .error err) :
    ∃ id, id ∈ w.taken (s.run c w).2 := by
  obtain ⟨hall, -, hw⟩ := TypeSet.build_ok hb
  have hafter : (s.run c w).2 = ⟨w.waiting.reverse ++ w.seen, []⟩ := hw
  rw [taken_of_waiting (List.append_nil _).symm (by rw [hafter])]
  refine List.exists_mem_of_ne_nil _ fun hnil => ?_
  rw [hnil, List.forall₂_nil_left_iff] at hall
  obtain ⟨t, ht⟩ := Document.render_of_empty c.format hall
  rw [TypeSet.run_of_build_ok c.format hb, ht] at h
  cases h

/-- A call that fails has taken up a type. -/
theorem exists_taken_of_fails {call : Call} (h : (call.answer s c w).1.Fails) :
    ∃ id, id ∈ w.taken (call.answer s c w).2 := by
  cases call with
  | request id => exact h.elim
  | build =>
    obtain ⟨err, herr⟩ := h
    exact exists_taken_of_build_error herr
  | run =>
    obtain ⟨err, herr⟩ := h
    cases hb : (s.build c.tagKey w).1 with
    | error err' => exact exists_taken_of_build_error hb
    | ok d => exact exists_taken_of_run_error hb herr
  | compile id => exact h.elim

/-- A call that takes a type up returns a document with its entry, or fails. -/
theorem emits_or_fails {call : Call} (h : id ∈ w.taken (call.answer s c w).2) :
    (∃ d, (call.answer s c w).1.Returns c d ∧
        List.Forall₂ (s.IsEntry c.tagKey) (w.taken (call.answer s c w).2) d.mappings) ∨
      (call.answer s c w).1.Fails := by
  have hholds := Session.answer_holds (s := s) (c := c) w call
  cases call with
  | request ref =>
    have hnone : w.taken (w.request ref) = [] := by
      rw [request]
      split_ifs <;> simp [taken]
    rw [Call.answer, hnone] at h
    simp at h
  | build =>
    rw [Call.answer] at hholds ⊢
    cases hb : (s.build c.tagKey w).1 with
    | error err => exact .inr ⟨err, rfl⟩
    | ok d =>
      rw [hb] at hholds
      exact .inl ⟨d, rfl, hholds⟩
  | run =>
    rw [Call.answer] at hholds ⊢
    cases hr : (s.run c w).1 with
    | error err => exact .inr ⟨err, rfl⟩
    | ok t =>
      rw [hr] at hholds
      obtain ⟨d, hall, ht⟩ := hholds
      exact .inl ⟨d, ⟨t, rfl, ht⟩, hall⟩
  | compile ref => simp [Call.answer, taken] at h

end Worklist

namespace Session

open Worklist

variable {s : TypeSet} {c : CompilerSettings} {w : Worklist} {calls : List Call} {id : TypeId}

/-! ### The turns of a session -/

theorem turns_append (calls more : List Call) :
    (session s c w (calls ++ more)).1 =
      (session s c w calls).1 ++ (session s c (session s c w calls).2 more).1 := by
  induction calls generalizing w with
  | nil => rfl
  | cons call calls ih =>
    simp only [List.cons_append, session, ih]

theorem mem_seen_iff :
    id ∈ (session s c w calls).2.seen ↔
      id ∈ w.seen ∨ ∃ turn ∈ (session s c w calls).1, id ∈ turn.2 := by
  induction calls generalizing w with
  | nil => simp [session]
  | cons call calls ih =>
    simp only [session, ih, (w.step_answer s c call).mem_seen_iff, List.exists_mem_cons_iff,
      or_assoc]

theorem known (h : id ∈ w.seen ∨ id ∈ w.waiting) :
    id ∈ (session s c w calls).2.seen ∨ id ∈ (session s c w calls).2.waiting := by
  induction calls generalizing w with
  | nil => exact h
  | cons call calls ih => exact ih ((w.step_answer s c call).known h)

theorem known_of_request (h : .request id ∈ calls) :
    id ∈ (session s c w calls).2.seen ∨ id ∈ (session s c w calls).2.waiting := by
  induction calls generalizing w with
  | nil => simp at h
  | cons call calls ih =>
    rcases List.mem_cons.1 h with rfl | h
    · exact known (w := w.request id) (w.known_request id)
    · exact ih h

theorem exists_taken {turn : Reply × List TypeId} (hturn : turn ∈ (session s c w calls).1)
    (h : turn.1.Fails) : ∃ id, id ∈ turn.2 := by
  induction calls generalizing w with
  | nil => simp [session] at hturn
  | cons call calls ih =>
    rcases List.mem_cons.1 hturn with rfl | hturn
    · exact exists_taken_of_fails h
    · exact ih hturn

theorem emitted_or_lost (h : ∃ turn ∈ (session s c w calls).1, id ∈ turn.2) :
    Emitted s c (session s c w calls).1 id ∨ Lost (session s c w calls).1 id := by
  induction calls generalizing w with
  | nil => simp [session] at h
  | cons call calls ih =>
    rw [session, List.exists_mem_cons_iff] at h
    rcases h with h | h
    · rcases emits_or_fails h with ⟨d, hd, hall⟩ | hf
      · exact .inl ⟨_, List.mem_cons_self, d, hd, hall, h⟩
      · exact .inr ⟨_, List.mem_cons_self, hf, h⟩
    · refine (ih h).imp ?_ ?_
      · rintro ⟨turn, hturn, he⟩
        exact ⟨turn, List.mem_cons_of_mem _ hturn, he⟩
      · rintro ⟨turn, hturn, hl⟩
        exact ⟨turn, List.mem_cons_of_mem _ hturn, hl⟩

/-- No type is taken up by two calls, so that none is both in a document and lost. -/
theorem not_emitted_of_lost (hw : w.Consistent) (hl : Lost (session s c w calls).1 id) :
    ¬ Emitted s c (session s c w calls).1 id := by
  rintro ⟨turn, hturn, d, hd, -, hid⟩
  obtain ⟨failed, hfailed, hf, hid'⟩ := hl
  have hne : turn ≠ failed := fun he => hd.not_fails (he ▸ hf)
  have hsymm : Std.Symm fun a b : Reply × List TypeId => a.2.Disjoint b.2 :=
    ⟨fun _ _ h _ hb ha => h ha hb⟩
  have happart : (session s c w calls).1.Pairwise fun a b => a.2.Disjoint b.2 :=
    (List.nodup_flatMap.1 (nodup_taken hw calls).1).2
  exact happart.forall hturn hfailed hne hid hid'

/-- After any session on a fresh worklist, a type that has been seen either is in a document that
a call returned or was taken up by a call that failed. So all types that have been seen are in
returned documents exactly when no call failed. A type that was requested and is in no document
is still pending, or it was taken up by a call that failed: then it stays out of all documents of
the session, however this goes on, and a new request of it changes nothing. -/
theorem seen_emitted_iff (s : TypeSet) (c : CompilerSettings) (calls : List Call) :
    ((∀ id ∈ (session s c .empty calls).2.seen, Emitted s c (session s c .empty calls).1 id) ↔
        ∀ turn ∈ (session s c .empty calls).1, ¬ turn.1.Fails) ∧
      (∀ id ∈ (session s c .empty calls).2.seen,
        Emitted s c (session s c .empty calls).1 id ∨ Lost (session s c .empty calls).1 id) ∧
      (∀ id, .request id ∈ calls → id ∈ (session s c .empty calls).2.pending ∨
        Emitted s c (session s c .empty calls).1 id ∨ Lost (session s c .empty calls).1 id) ∧
      ∀ id, Lost (session s c .empty calls).1 id → ∀ more,
        ¬ Emitted s c (session s c .empty (calls ++ more)).1 id ∧
        (session s c .empty (calls ++ more)).2.request id =
          (session s c .empty (calls ++ more)).2 := by
  have hempty : Worklist.empty.Consistent := ⟨List.nodup_nil, fun _ h => absurd h List.not_mem_nil⟩
  have htaken : ∀ {calls id}, id ∈ (session s c .empty calls).2.seen ↔
      ∃ turn ∈ (session s c .empty calls).1, id ∈ turn.2 := by
    intro calls id
    rw [mem_seen_iff, or_iff_right]
    exact List.not_mem_nil
  refine ⟨⟨fun h turn hturn hf => ?_, fun h id hid => ?_⟩, fun id hid => ?_, fun id hid => ?_,
    fun id hl more => ?_⟩
  · obtain ⟨id, hid⟩ := exists_taken hturn hf
    exact not_emitted_of_lost hempty ⟨turn, hturn, hf, hid⟩ (h id (htaken.2 ⟨turn, hturn, hid⟩))
  · refine (emitted_or_lost (htaken.1 hid)).resolve_right ?_
    rintro ⟨turn, hturn, hf, -⟩
    exact h turn hturn hf
  · exact emitted_or_lost (htaken.1 hid)
  · rcases known_of_request (s := s) (c := c) (w := .empty) hid with hs | hw
    · exact .inr (emitted_or_lost (htaken.1 hs))
    · exact .inl (List.mem_reverse.2 hw)
  · have hmore : Lost (session s c .empty (calls ++ more)).1 id := by
      obtain ⟨turn, hturn, hf⟩ := hl
      refine ⟨turn, ?_, hf⟩
      rw [turns_append]
      exact List.mem_append_left _ hturn
    refine ⟨not_emitted_of_lost hempty hmore, request_known (.inl (htaken.2 ?_))⟩
    exact hmore.imp fun turn h => ⟨h.1, h.2.2⟩

/-! ### A type that is lost beside an unknown one -/

/-- One type, without fields. -/
def single : TypeSet := ⟨[⟨"A", none, true, []⟩]⟩

/-- A type is requested after an unknown one, so that it is compiled first. -/
def lossyCalls : List Call := [.request ⟨"Missing"⟩, .request ⟨"A"⟩, .run]

theorem run_single :
    single.run {} ⟨[], [⟨"A"⟩, ⟨"Missing"⟩]⟩ =
      (.error (.unknownType ⟨"Missing"⟩), ⟨[⟨"Missing"⟩, ⟨"A"⟩], []⟩) := by
  have hcompile : single.compile "es-mapping" ⟨"A"⟩ = .ok [] :=
    TypeSet.expand_eq_ok_iff.2 ⟨List.not_mem_nil, _, rfl, FieldType.properties_nil⟩
  have hentry : single.mapping "es-mapping" [] ⟨"A"⟩ = .ok (Identifier.snake "A", []) :=
    TypeSet.mapping_eq_ok_iff.2 ⟨⟨rfl, hcompile⟩, List.not_mem_nil⟩
  simp only [TypeSet.run, TypeSet.build, TypeSet.drain, hentry]
  rfl

theorem session_single :
    session single {} .empty lossyCalls =
      ([(.none, []), (.none, []), (.text (.error (.unknownType ⟨"Missing"⟩)),
        [⟨"A"⟩, ⟨"Missing"⟩])], ⟨[⟨"Missing"⟩, ⟨"A"⟩], []⟩) := by
  have hrequests : ((Worklist.empty.request ⟨"Missing"⟩).request ⟨"A"⟩) =
      ⟨[], [⟨"A"⟩, ⟨"Missing"⟩]⟩ := by decide
  simp only [lossyCalls, session, Call.answer, hrequests, run_single]
  rfl

/-- After the failed run the type has been seen, but no call returned a document with it, it does
not wait, and a new request is ignored. -/
theorem single_lost :
    (∃ id ∈ (session single {} .empty lossyCalls).2.seen,
      ¬ Emitted single {} (session single {} .empty lossyCalls).1 id) ∧
      .request ⟨"A"⟩ ∈ lossyCalls ∧
      ¬ Emitted single {} (session single {} .empty lossyCalls).1 ⟨"A"⟩ ∧
      ((session single {} .empty lossyCalls).2.request ⟨"A"⟩).pending = [] := by
  have hnone : ¬ Emitted single {} (session single {} .empty lossyCalls).1 ⟨"A"⟩ := by
    simp [session_single, Emitted, Reply.Returns]
  refine ⟨⟨⟨"A"⟩, by simp [session_single], hnone⟩, by simp [lossyCalls], hnone, ?_⟩
  rw [session_single]
  rfl

end Session

end IndexMapping

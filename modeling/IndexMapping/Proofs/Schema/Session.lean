import IndexMapping.Proofs.Schema.Drain

/-! Sessions: any sequence of calls on one compiler, failing ones included. A call either puts one
new type on the worklist or takes the newest ones off; what is taken off has been seen from then
on, so that it never comes back. -/

namespace IndexMapping

/-- A call on a compiler. -/
inductive Call where
  | request (id : TypeId)
  | build
  | run
  | compile (id : TypeId)

inductive Reply where
  /-- A request is not answered. -/
  | none
  | document (d : Except Error Document)
  | text (t : Except Error String)
  | properties (ps : Except Error Properties)

/-- The reply to a call, and the worklist after it. -/
def Call.answer (s : TypeSet) (c : CompilerSettings) (w : Worklist) : Call → Reply × Worklist
  | request id => (.none, w.request id)
  | build => (.document (s.build c.tagKey w).1, (s.build c.tagKey w).2)
  | run => (.text (s.run c w).1, (s.run c w).2)
  | compile id => (.properties (s.compile c.tagKey id), w)

/-- The types that waited before a call and were taken up by it, newest request first. -/
def Worklist.taken (before after : Worklist) : List TypeId :=
  before.waiting.take (before.waiting.length - after.waiting.length)

/-- What each call of a session replies and takes up, and the worklist at the end. -/
def session (s : TypeSet) (c : CompilerSettings) (w : Worklist) :
    List Call → List (Reply × List TypeId) × Worklist
  | [] => ([], w)
  | call :: calls =>
    let (reply, after) := call.answer s c w
    let (turns, last) := session s c after calls
    ((reply, w.taken after) :: turns, last)

/-- A document in a reply has the entries of these types, in this order. -/
def Reply.Holds (s : TypeSet) (c : CompilerSettings) (ids : List TypeId) : Reply → Prop
  | document (.ok d) => List.Forall₂ (s.IsEntry c.tagKey) ids d.mappings
  | text (.ok t) =>
    ∃ d : Document,
      List.Forall₂ (s.IsEntry c.tagKey) ids d.mappings ∧ d.render c.format = .ok t
  | _ => True

namespace Worklist

variable {s : TypeSet} {c : CompilerSettings} {w after : Worklist} {call : Call}

/-- No type waits twice, and none that has been taken up waits. -/
structure Consistent (w : Worklist) : Prop where
  nodup : w.waiting.Nodup
  apart : ∀ id ∈ w.waiting, id ∉ w.seen

/-- One call on a worklist. -/
inductive Step (w : Worklist) : Worklist → Prop
  | push (id : TypeId) (hs : id ∉ w.seen) (hw : id ∉ w.waiting) :
      Step w ⟨w.seen, id :: w.waiting⟩
  | take (ids rest : List TypeId) (h : w.waiting = ids ++ rest) :
      Step w ⟨ids.reverse ++ w.seen, rest⟩

theorem step_refl (w : Worklist) : w.Step w := .take [] w.waiting rfl

theorem step_request (w : Worklist) (id : TypeId) : w.Step (w.request id) := by
  rw [request]
  split_ifs with h
  · exact w.step_refl
  · simp only [Bool.or_eq_true, decide_eq_true_eq, not_or] at h
    exact .push id h.1 h.2

theorem step_build (s : TypeSet) (tagKey : String) (w : Worklist) :
    w.Step (s.build tagKey w).2 := by
  rcases s.build_cases tagKey w with ⟨d, hb, -, -⟩ | ⟨later, id, earlier, err, hw, hb, -, -⟩
  · rw [hb]
    exact .take w.waiting [] (List.append_nil _).symm
  · rw [hb]
    have := Step.take (w := w) (later ++ [id]) earlier (by rw [hw]; simp)
    simpa using this

theorem step_answer (s : TypeSet) (c : CompilerSettings) (w : Worklist) (call : Call) :
    w.Step (call.answer s c w).2 := by
  cases call with
  | request id => exact w.step_request id
  | build => exact w.step_build s c.tagKey
  | run => exact w.step_build s c.tagKey
  | compile id => exact w.step_refl

theorem Step.consistent (h : w.Step after) (hw : w.Consistent) : after.Consistent := by
  cases h with
  | push id hs hi =>
    refine ⟨List.nodup_cons.2 ⟨hi, hw.nodup⟩, ?_⟩
    rw [List.forall_mem_cons]
    exact ⟨hs, hw.apart⟩
  | take ids rest h =>
    obtain ⟨hnodup, hapart⟩ := hw
    rw [h] at hnodup hapart
    obtain ⟨-, hrest, hdisj⟩ := List.nodup_append.1 hnodup
    refine ⟨hrest, fun id hid hin => ?_⟩
    rcases List.mem_append.1 hin with hin | hin
    · exact hdisj id (List.mem_reverse.1 hin) id hid rfl
    · exact hapart id (List.mem_append_right _ hid) hin

/-- What a call takes up has not been seen before it and has been seen after it. -/
theorem Step.taken_spec (h : w.Step after) (hw : w.Consistent) :
    (w.taken after).Nodup ∧ (∀ id ∈ w.taken after, id ∉ w.seen ∧ id ∈ after.seen) ∧
      w.seen ⊆ after.seen := by
  cases h with
  | push id hs hi =>
    have hnone : w.taken ⟨w.seen, id :: w.waiting⟩ = [] := by simp [taken]
    rw [hnone]
    exact ⟨List.nodup_nil, by simp, List.Subset.refl _⟩
  | take ids rest h =>
    have hids : w.taken ⟨ids.reverse ++ w.seen, rest⟩ = ids := by simp [taken, h]
    have hnodup := hw.nodup
    rw [h] at hnodup
    rw [hids]
    refine ⟨(List.nodup_append.1 hnodup).1, fun id hid => ⟨?_, ?_⟩, List.subset_append_right _ _⟩
    · exact hw.apart id (h ▸ List.mem_append_left _ hid)
    · exact List.mem_append_left _ (List.mem_reverse.2 hid)

end Worklist

namespace Session

variable {s : TypeSet} {c : CompilerSettings} {w : Worklist}

theorem consistent (hw : w.Consistent) (calls : List Call) :
    (session s c w calls).2.Consistent := by
  induction calls generalizing w with
  | nil => exact hw
  | cons call calls ih => exact ih ((w.step_answer s c call).consistent hw)

theorem append (calls more : List Call) :
    (session s c w (calls ++ more)).2 = (session s c (session s c w calls).2 more).2 := by
  induction calls generalizing w with
  | nil => rfl
  | cons call calls ih => exact ih

theorem seen_subset (hw : w.Consistent) (calls : List Call) :
    w.seen ⊆ (session s c w calls).2.seen := by
  induction calls generalizing w with
  | nil => exact List.Subset.refl _
  | cons call calls ih =>
    have hstep := w.step_answer s c call
    exact List.Subset.trans (hstep.taken_spec hw).2.2 (ih (hstep.consistent hw))

/-- Over a whole session nothing is taken up twice, nor what had been seen before it. -/
theorem nodup_taken (hw : w.Consistent) (calls : List Call) :
    ((session s c w calls).1.flatMap (·.2)).Nodup ∧
      ∀ id ∈ (session s c w calls).1.flatMap (·.2), id ∉ w.seen := by
  induction calls generalizing w with
  | nil => exact ⟨List.nodup_nil, by simp [session]⟩
  | cons call calls ih =>
    have hstep := w.step_answer s c call
    obtain ⟨hnodup, hnew, hsub⟩ := hstep.taken_spec hw
    obtain ⟨hrest, hfresh⟩ := ih (hstep.consistent hw)
    rw [session, List.flatMap_cons]
    refine ⟨List.nodup_append.2 ⟨hnodup, hrest, ?_⟩, fun id hid => ?_⟩
    · rintro id hid _ hid' rfl
      exact hfresh id hid' (hnew id hid).2
    · rcases List.mem_append.1 hid with hid | hid
      · exact (hnew id hid).1
      · exact fun hin => hfresh id hid (hsub hin)

theorem build_holds {d : Document} {tagKey : String} (h : (s.build tagKey w).1 = .ok d) :
    List.Forall₂ (s.IsEntry tagKey) (w.taken (s.build tagKey w).2) d.mappings := by
  obtain ⟨hall, -, hw⟩ := TypeSet.build_ok h
  rw [hw]
  simpa [Worklist.taken] using hall

theorem answer_holds (w : Worklist) (call : Call) :
    (call.answer s c w).1.Holds s c (w.taken (call.answer s c w).2) := by
  cases call with
  | request id => trivial
  | build =>
    rw [Call.answer]
    cases hb : (s.build c.tagKey w).1 with
    | error err => trivial
    | ok d => exact build_holds hb
  | run =>
    rw [Call.answer]
    cases hr : (s.run c w).1 with
    | error err => trivial
    | ok t =>
      obtain ⟨d, hb, ht⟩ := bind_eq_ok.1 hr
      exact ⟨d, build_holds hb, ht⟩
  | compile id => trivial

theorem turns_hold (calls : List Call) :
    ∀ turn ∈ (session s c w calls).1, turn.1.Holds s c turn.2 := by
  induction calls generalizing w with
  | nil => simp [session]
  | cons call calls ih =>
    rw [session, List.forall_mem_cons]
    exact ⟨answer_holds w call, ih⟩

theorem request_known {id : TypeId} (h : id ∈ w.seen ∨ id ∈ w.pending) : w.request id = w := by
  rw [Worklist.pending, List.mem_reverse] at h
  rw [Worklist.request, if_pos (by simpa using h)]

/-- After any session on a fresh worklist no type waits twice and none waits that has been taken
up; types stay seen, compiling a type changes nothing, and a request of a known type changes
nothing. No type is taken up twice, and a document has the entries of exactly the types that the
call which returned it took up. -/
theorem session_invariant (s : TypeSet) (c : CompilerSettings) (calls : List Call) :
    (session s c .empty calls).2.pending.Nodup ∧
      (∀ id ∈ (session s c .empty calls).2.pending, id ∉ (session s c .empty calls).2.seen) ∧
      (∀ more, (session s c .empty calls).2.seen ⊆ (session s c .empty (calls ++ more)).2.seen) ∧
      (∀ id, ((Call.compile id).answer s c (session s c .empty calls).2).2 =
        (session s c .empty calls).2) ∧
      (∀ id, id ∈ (session s c .empty calls).2.seen ∨ id ∈ (session s c .empty calls).2.pending →
        (session s c .empty calls).2.request id = (session s c .empty calls).2) ∧
      ((session s c .empty calls).1.flatMap (·.2)).Nodup ∧
      ∀ turn ∈ (session s c .empty calls).1, turn.1.Holds s c turn.2 := by
  have hempty : Worklist.empty.Consistent := ⟨List.nodup_nil, fun _ h => absurd h List.not_mem_nil⟩
  have hw : (session s c .empty calls).2.Consistent := consistent hempty calls
  refine ⟨List.nodup_reverse.2 hw.nodup, fun id hid => hw.apart id (List.mem_reverse.1 hid),
    fun more => ?_, fun _ => rfl, fun _ => request_known, (nodup_taken hempty calls).1,
    turns_hold calls⟩
  rw [append]
  exact seen_subset hw more

end Session

end IndexMapping

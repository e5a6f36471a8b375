import IndexMapping.Proofs.Json.Skipping
import IndexMapping.Proofs.Package.Assemble
import IndexMapping.Proofs.Schema.Decoding

/-! Files without a package and without types. Files make the same package with and without them,
wherever they stand. Every document that is generated, however deeply it nests, is read as such a
file. -/

namespace IndexMapping

/-! ### Documents -/

/-- The contents of a file that declares neither a package nor types. -/
def DescriptorFile.blank : DescriptorFile := ⟨none, []⟩

/-- The text of a document is one of the texts of its object. -/
theorem Document.exists_written {d : Document} {format : OutputFormat} {text : String}
    (hd : d.encode.Plain) (h : d.render format = .ok text) :
    ∃ t, Json.Written d.encode t ∧ text = String.ofList t := by
  cases format with
  | compact =>
    cases h
    exact ⟨_, Json.written_compact d.encode, rfl⟩
  | pretty =>
    have htab : Json.Blank "\t".toList := List.forall_mem_singleton.2 rfl
    obtain ⟨hfits, hdeep⟩ := Document.render_pretty hd
    by_cases hdepth : d.encode.depth ≤ Json.depthLimit
    · rw [hfits hdepth] at h
      cases h
      exact ⟨_, Json.written_indented htab 0 d.encode, rfl⟩
    · obtain ⟨e, he, -⟩ := hdeep (Nat.lt_of_not_le hdepth)
      rw [he] at h
      cases h

/-- The object has a member that descriptor files do not have, and no other. -/
theorem Document.parse_blank {d : Document} {format : OutputFormat} {text : String}
    (hd : d.encode.Plain) (h : d.render format = .ok text) :
    DescriptorFile.parse text = .ok .blank := by
  obtain ⟨t, ht, rfl⟩ := exists_written hd h
  rw [encode_eq] at ht hd
  exact Json.Record.parse_unknown ht hd (List.forall_mem_singleton.2 rfl) rfl

theorem TypeSet.parse_blank {s : TypeSet} {c : CompilerSettings} {w : Worklist} {text : String}
    (h : (s.run c w).1 = .ok text) : DescriptorFile.parse text = .ok .blank := by
  cases hb : (s.build c.tagKey w).1 with
  | error err =>
    rw [run_of_build_error c.format hb] at h
    cases h
  | ok d =>
    rw [run_of_build_ok c.format hb] at h
    exact Document.parse_blank (plain_of_build hb) h

/-! ### Lists -/

/-- The second list is the first one with more elements, which satisfy `P`. -/
inductive Padded {α : Type} (P : α → Prop) : List α → List α → Prop where
  | nil : Padded P [] []
  | keep (x : α) {xs ys : List α} (h : Padded P xs ys) : Padded P (x :: xs) (x :: ys)
  | add {y : α} {xs ys : List α} (hy : P y) (h : Padded P xs ys) : Padded P xs (y :: ys)

namespace Padded

variable {α β : Type} {P : α → Prop} {Q : β → Prop} {q : α → Bool} {x : α} {xs ys zs : List α}

theorem mem (h : Padded P xs ys) (hx : x ∈ xs) : x ∈ ys := by
  induction h with
  | nil => exact hx
  | keep y _ ih =>
    rcases List.mem_cons.1 hx with rfl | hx
    · exact List.mem_cons_self
    · exact List.mem_cons_of_mem _ (ih hx)
  | add _ _ ih => exact List.mem_cons_of_mem _ (ih hx)

theorem mem_or (h : Padded P xs ys) (hx : x ∈ ys) : x ∈ xs ∨ P x := by
  induction h with
  | nil => exact .inl hx
  | keep y _ ih =>
    rcases List.mem_cons.1 hx with rfl | hx
    · exact .inl List.mem_cons_self
    · exact (ih hx).imp_left (List.mem_cons_of_mem _)
  | add hy _ ih =>
    rcases List.mem_cons.1 hx with rfl | hx
    · exact .inr hy
    · exact ih hx

theorem refl (P : α → Prop) (xs : List α) : Padded P xs xs := by
  induction xs with
  | nil => exact .nil
  | cons x xs ih => exact .keep x ih

theorem append (h : Padded P xs ys) (zs : List α) : Padded P (xs ++ zs) (ys ++ zs) := by
  induction h with
  | nil => exact .refl P zs
  | keep x _ ih => exact .keep x ih
  | add hy _ ih => exact .add hy ih

theorem map (h : Padded P xs ys) (f : α → β) (hQ : ∀ y, P y → Q (f y)) :
    Padded Q (xs.map f) (ys.map f) := by
  induction h with
  | nil => exact .nil
  | keep x _ ih => exact .keep (f x) ih
  | add hy _ ih => exact .add (hQ _ hy) ih

/-- The elements that are kept in each list: of the first one, those that are kept in it, and maybe
some that satisfy `P'`. -/
theorem filter {P' : α → Prop} {q' : α → Bool} (h : Padded P xs ys)
    (hkeep : ∀ x ∈ xs, q' x = q x ∨ q x = false ∧ P' x) (hadd : ∀ y, P y → q' y → P' y) :
    Padded P' (xs.filter q) (ys.filter q') := by
  induction h with
  | nil => exact .nil
  | keep x _ ih =>
    obtain ⟨hx, hxs⟩ := List.forall_mem_cons.1 hkeep
    rw [List.filter_cons, List.filter_cons]
    rcases hx with hx | ⟨hx, hnew⟩
    · rw [hx]
      split_ifs
      · exact .keep x (ih hxs)
      · exact ih hxs
    · rw [hx, if_neg Bool.false_ne_true]
      split_ifs
      · exact .add hnew (ih hxs)
      · exact ih hxs
  | @add y xs ys hy _ ih =>
    rw [List.filter_cons]
    split_ifs with hq
    · exact .add (hadd y hy hq) (ih hkeep)
    · exact ih hkeep

theorem of_filter (h : ∀ y ∈ ys, q y = false → P y) : Padded P (ys.filter q) ys := by
  induction ys with
  | nil => exact .nil
  | cons y ys ih =>
    obtain ⟨hy, hys⟩ := List.forall_mem_cons.1 h
    cases hq : q y with
    | true => simpa [hq] using .keep y (ih hys)
    | false => simpa [hq] using .add (hy hq) (ih hys)

theorem mapM {ε : Type} {f f' : α → Except ε β} {bs : List β} (h : Padded P xs ys)
    (hkeep : ∀ x ∈ xs, f' x = f x) (hadd : ∀ y, P y → ∃ b, f' y = .ok b ∧ Q b)
    (hbs : xs.mapM f = .ok bs) : ∃ bs', ys.mapM f' = .ok bs' ∧ Padded Q bs bs' := by
  induction h generalizing bs with
  | nil =>
    cases hbs
    exact ⟨[], rfl, .nil⟩
  | keep x _ ih =>
    obtain ⟨hx, hxs⟩ := List.forall_mem_cons.1 hkeep
    obtain ⟨b, cs, hb, hcs, rfl⟩ := mapM_cons_eq_ok.1 hbs
    obtain ⟨cs', hcs', hpadded⟩ := ih hxs hcs
    exact ⟨b :: cs', mapM_cons_eq_ok.2 ⟨b, cs', hx.trans hb, hcs', rfl⟩, .keep b hpadded⟩
  | @add y xs ys hy _ ih =>
    obtain ⟨b, hb, hQ⟩ := hadd y hy
    obtain ⟨cs', hcs', hpadded⟩ := ih hkeep hbs
    exact ⟨b :: cs', mapM_cons_eq_ok.2 ⟨b, cs', hb, hcs', rfl⟩, .add hQ hpadded⟩

end Padded

/-! ### Packages -/

namespace Package

variable {files files' : List SourceFile} {package : Option String} {fallback : String}
  {choose : List (List TypeId) → List TypeId} {p : Package}

def Blank (f : SourceFile) : Prop := f.contents = .blank

theorem Declares.padded (h : Padded Blank files files') (hp : Declares files package) :
    Declares files' package where
  agree f hf := by
    rcases h.mem_or hf with hmem | hblank
    · exact hp.agree f hmem
    · exact .inl (congrArg DescriptorFile.package hblank)
  source := hp.source.imp_right fun ⟨f, hf, hpackage⟩ => ⟨f, h.mem hf, hpackage⟩

theorem listed_padded (h : Padded Blank files files') : listed files' = listed files := by
  induction h with
  | nil => rfl
  | keep f _ ih => rw [listed, listed, List.flatMap_cons, List.flatMap_cons, ← listed, ih, ← listed]
  | @add f _ _ hblank _ ih =>
    have htypes : f.contents.types = [] := congrArg DescriptorFile.types hblank
    rw [listed, List.flatMap_cons, htypes, List.nil_append, ← listed, ih]

/-- Files that declare nothing do not change the package. -/
theorem assemble_padded (h : Padded Blank files files')
    (hchoose : ∀ package, choose (files'.map fun f => f.contents.types.map (identity package)) =
      choose (files.map fun f => f.contents.types.map (identity package)))
    (hp : assemble fallback choose files = .ok p) : assemble fallback choose files' = .ok p := by
  obtain ⟨package, hdeclares, hnodup, rfl⟩ := assemble_eq_ok_iff.1 hp
  rw [← listed_padded h] at hnodup
  exact assemble_eq_ok_iff.2 ⟨package, hdeclares.padded h, hnodup, by
    rw [listed_padded h, hchoose]⟩

theorem assemble_flatten_padded (h : Padded Blank files files')
    (hp : assemble fallback List.flatten files = .ok p) :
    assemble fallback List.flatten files' = .ok p :=
  assemble_padded h (fun package => by rw [flatten_ids, flatten_ids, listed_padded h]) hp

theorem assemble_last_padded {f : SourceFile} (h : Padded Blank files files')
    (hp : assemble fallback (·.getLastD []) (files ++ [f]) = .ok p) :
    assemble fallback (·.getLastD []) (files' ++ [f]) = .ok p :=
  assemble_padded (h.append [f]) (fun package => by simp) hp

end Package

end IndexMapping

import IndexMapping.Package.Load
import IndexMapping.Proofs.Descriptor.TypeSet
import IndexMapping.Proofs.Outcome

/-! The package that descriptor files make. They must not declare different packages, types
without a package join the declared one, and then no two types may have the same identity. None of
this depends on the order of the files. -/

namespace IndexMapping.Package

variable {files files' : List SourceFile} {package first : Option String} {s s' : TypeSet}

/-! ### The declared package -/

/-- The files declare this package: each of them that declares one declares it. -/
structure Declares (files : List SourceFile) (package : Option String) : Prop where
  agree : ∀ f ∈ files, f.contents.package = none ∨ f.contents.package = package
  source : package = none ∨ ∃ f ∈ files, f.contents.package = package

/-- Once a package is declared, all further files must declare it or none. -/
theorem declared_some_eq_ok_iff {p : String} : declared (some p) files = .ok package ↔
    package = some p ∧ ∀ f ∈ files, f.contents.package = none ∨ f.contents.package = some p := by
  induction files with
  | nil => simp [declared, eq_comm]
  | cons f fs ih =>
    rw [List.forall_mem_cons]
    cases hf : f.contents.package with
    | none => simp [declared, hf, ih]
    | some q =>
      by_cases hq : q = p
      · simp [declared, hf, hq, ih]
      · simp [declared, hf, hq]

theorem declares_cons_none {f : SourceFile} (hf : f.contents.package = none) :
    Declares (f :: files) package ↔ Declares files package := by
  constructor
  · rintro ⟨hagree, hsource⟩
    refine ⟨(List.forall_mem_cons.1 hagree).2, ?_⟩
    rcases hsource with hnone | ⟨g, hg, hpackage⟩
    · exact .inl hnone
    · rcases List.mem_cons.1 hg with rfl | hg
      · exact .inl (hpackage ▸ hf)
      · exact .inr ⟨g, hg, hpackage⟩
  · rintro ⟨hagree, hsource⟩
    exact ⟨List.forall_mem_cons.2 ⟨.inl hf, hagree⟩,
      hsource.imp_right fun ⟨g, hg, hpackage⟩ => ⟨g, List.mem_cons_of_mem _ hg, hpackage⟩⟩

theorem declares_cons_some {f : SourceFile} {p : String} (hf : f.contents.package = some p) :
    Declares (f :: files) package ↔
      package = some p ∧ ∀ g ∈ files, g.contents.package = none ∨ g.contents.package = some p := by
  constructor
  · rintro ⟨hagree, -⟩
    obtain ⟨hhead, hagree⟩ := List.forall_mem_cons.1 hagree
    obtain rfl : some p = package := by simpa [hf] using hhead
    exact ⟨rfl, hagree⟩
  · rintro ⟨rfl, hagree⟩
    exact ⟨List.forall_mem_cons.2 ⟨.inr hf, hagree⟩, .inr ⟨f, List.mem_cons_self, hf⟩⟩

theorem declared_eq_ok_iff : declared none files = .ok package ↔ Declares files package := by
  induction files with
  | nil =>
    rw [declared, Except.ok.injEq]
    constructor
    · rintro rfl
      exact ⟨nofun, .inl rfl⟩
    · rintro ⟨-, rfl | ⟨_, hf, -⟩⟩
      · rfl
      · nomatch hf
  | cons f fs ih =>
    cases hf : f.contents.package with
    | none =>
      rw [declares_cons_none hf, ← ih]
      simp only [declared, hf]
    | some p =>
      rw [declares_cons_some hf, ← declared_some_eq_ok_iff]
      simp only [declared, hf]

theorem Declares.unique {p q : Option String} (hp : Declares files p) (hq : Declares files q) :
    p = q := by
  rw [← declared_eq_ok_iff] at hp hq
  exact Except.ok.inj (hp.symm.trans hq)

theorem Declares.perm (h : files.Perm files') (hp : Declares files package) :
    Declares files' package where
  agree f hf := hp.agree f (h.mem_iff.2 hf)
  source := hp.source.imp_right fun ⟨f, hf, hpackage⟩ => ⟨f, h.mem_iff.1 hf, hpackage⟩

/-! ### Stored types -/

/-- The identity that a type has once it has joined the declared package. -/
def identity (package : Option String) (d : TypeDescriptor) : TypeId :=
  .ofName (d.package.or package) d.name

/-- The types that the files list, in the order of files and declarations. -/
def listed (files : List SourceFile) : List TypeDescriptor := files.flatMap (·.contents.types)

/-- `d'` is `d` as it is stored: in the declared package if it has none of its own, and with its
bare references read within its package. -/
structure Stored (package : Option String) (d d' : TypeDescriptor) : Prop where
  name : d'.name = d.name
  annotated : d'.annotated = d.annotated
  joined : d'.package = d.package.or package
  fields : Fields.Qualified (d.package.or package) d.fields d'.fields

/-- The package holds the types of the files, each once. -/
structure Holds (package : Option String) (files : List SourceFile) (p : Package) : Prop where
  types : List.Forall₂ (Stored package) (listed files) p.types.types
  roots : p.roots = (listed files).map (identity package)
  nodup : p.roots.Nodup
  found : ∀ d ∈ p.types.types, p.types.get? d.id = some d

theorem joined_eq (package : Option String) (d : TypeDescriptor) :
    joined package d = { d with package := d.package.or package } := by
  obtain ⟨name, own, annotated, fields⟩ := d
  cases own <;> rfl

theorem id_joined (package : Option String) (d : TypeDescriptor) :
    (joined package d).id = identity package d := by
  rw [joined_eq]
  rfl

theorem stored_joined (package : Option String) (d : TypeDescriptor) :
    Stored package d (joined package d).qualified := by
  rw [joined_eq]
  exact ⟨rfl, rfl, rfl, Fields.qualified_qualifyFields _ _⟩

/-! ### Files with the same contents -/

theorem exists_of_contents {f : SourceFile}
    (h : files.map (·.contents) = files'.map (·.contents)) (hf : f ∈ files) :
    ∃ g ∈ files', g.contents = f.contents := by
  have hmem : f.contents ∈ files.map (·.contents) := List.mem_map_of_mem hf
  rw [h] at hmem
  exact List.mem_map.1 hmem

/-- It does not matter under which paths the files have been read. -/
theorem Declares.of_contents (h : files.map (·.contents) = files'.map (·.contents))
    (hp : Declares files package) : Declares files' package where
  agree f hf := by
    obtain ⟨g, hg, heq⟩ := exists_of_contents h.symm hf
    exact heq ▸ hp.agree g hg
  source := hp.source.imp_right fun ⟨f, hf, hpackage⟩ => by
    obtain ⟨g, hg, heq⟩ := exists_of_contents h hf
    exact ⟨g, hg, heq ▸ hpackage⟩

theorem listed_of_contents (h : files.map (·.contents) = files'.map (·.contents)) :
    listed files = listed files' := by
  have hlisted (fs : List SourceFile) : listed fs = (fs.map (·.contents)).flatMap (·.types) := by
    rw [listed, List.flatMap_map]
  rw [hlisted, hlisted, h]

/-! ### Insertion of all types -/

/-- The set with more types at its end. -/
def addTypes (package : Option String) (s : TypeSet) (ds : List TypeDescriptor) : TypeSet :=
  ⟨s.types ++ ds.map fun d => (joined package d).qualified⟩

theorem addTypes_nil : addTypes package s [] = s := by
  rw [addTypes, List.map_nil, List.append_nil]

theorem addTypes_append (ds es : List TypeDescriptor) :
    addTypes package (addTypes package s ds) es = addTypes package s (ds ++ es) := by
  simp only [addTypes, List.map_append, List.append_assoc]

theorem distinct_of_addTypes {ds : List TypeDescriptor} (h : (addTypes package s ds).Distinct) :
    s.Distinct := by
  rw [TypeSet.Distinct, addTypes, List.map_append] at h
  exact h.of_append_left

theorem distinct_addTypes_empty {ds : List TypeDescriptor} :
    (addTypes package .empty ds).Distinct ↔ (ds.map (identity package)).Nodup := by
  rw [TypeSet.Distinct, addTypes, TypeSet.empty, List.nil_append, List.map_map]
  simp only [Function.comp_def, TypeSet.id_qualified, id_joined]

theorem insertTypes_eq_ok_iff (hs : s.Distinct) {ds : List TypeDescriptor} {ids : List TypeId} :
    insertTypes package s ds = .ok (ids, s') ↔
      ids = ds.map (identity package) ∧ s' = addTypes package s ds ∧ s'.Distinct := by
  induction ds generalizing s ids with
  | nil =>
    rw [insertTypes, addTypes_nil, Except.ok.injEq, Prod.mk.injEq]
    constructor
    · rintro ⟨rfl, rfl⟩
      exact ⟨rfl, rfl, hs⟩
    · rintro ⟨rfl, rfl, -⟩
      exact ⟨rfl, rfl⟩
  | cons d ds ih =>
    rw [insertTypes, bind_eq_ok]
    constructor
    · rintro ⟨⟨id, t⟩, hinsert, hrest⟩
      obtain ⟨rfl, rfl, ht⟩ := (TypeSet.insert_eq_ok_iff hs).1 hinsert
      obtain ⟨⟨ids, t'⟩, hinserts, hok⟩ := bind_eq_ok.1 hrest
      cases hok
      obtain ⟨rfl, rfl, ht'⟩ := (ih ht).1 hinserts
      exact ⟨by rw [id_joined, List.map_cons], addTypes_append [d] ds, ht'⟩
    · rintro ⟨rfl, rfl, hdistinct⟩
      have hstep : addTypes package (addTypes package s [d]) ds = addTypes package s (d :: ds) :=
        addTypes_append [d] ds
      have ht : (addTypes package s [d]).Distinct := distinct_of_addTypes (hstep ▸ hdistinct)
      refine ⟨(identity package d, addTypes package s [d]),
        (TypeSet.insert_eq_ok_iff hs).2 ⟨(id_joined package d).symm, rfl, ht⟩, ?_⟩
      exact bind_eq_ok.2 ⟨_, (ih ht).2 ⟨rfl, hstep.symm, hdistinct⟩, rfl⟩

theorem insertFiles_eq_ok_iff (hs : s.Distinct) {idss : List (List TypeId)} :
    insertFiles package s files = .ok (idss, s') ↔
      idss = files.map (fun f => f.contents.types.map (identity package)) ∧
      s' = addTypes package s (listed files) ∧ s'.Distinct := by
  induction files generalizing s idss with
  | nil =>
    rw [insertFiles, listed, List.flatMap_nil, addTypes_nil, Except.ok.injEq, Prod.mk.injEq]
    constructor
    · rintro ⟨rfl, rfl⟩
      exact ⟨rfl, rfl, hs⟩
    · rintro ⟨rfl, rfl, -⟩
      exact ⟨rfl, rfl⟩
  | cons f fs ih =>
    have hstep : addTypes package (addTypes package s f.contents.types) (listed fs) =
        addTypes package s (listed (f :: fs)) :=
      addTypes_append _ _
    rw [insertFiles, bind_eq_ok]
    constructor
    · rintro ⟨⟨ids, t⟩, hinsert, hrest⟩
      obtain ⟨rfl, rfl, ht⟩ := (insertTypes_eq_ok_iff hs).1 hinsert
      obtain ⟨⟨idss, t'⟩, hinserts, hok⟩ := bind_eq_ok.1 hrest
      cases hok
      obtain ⟨rfl, rfl, ht'⟩ := (ih ht).1 hinserts
      exact ⟨rfl, hstep, ht'⟩
    · rintro ⟨rfl, rfl, hdistinct⟩
      have ht : (addTypes package s f.contents.types).Distinct :=
        distinct_of_addTypes (hstep ▸ hdistinct)
      refine ⟨_, (insertTypes_eq_ok_iff hs).2 ⟨rfl, rfl, ht⟩, ?_⟩
      exact bind_eq_ok.2 ⟨_, (ih ht).2 ⟨rfl, hstep.symm, hdistinct⟩, rfl⟩

/-! ### The package -/

variable {fallback : String} {choose : List (List TypeId) → List TypeId} {p p' : Package}

theorem assemble_eq_ok_iff : assemble fallback choose files = .ok p ↔
    ∃ package, Declares files package ∧ ((listed files).map (identity package)).Nodup ∧
      p = ⟨package.getD fallback, addTypes package .empty (listed files),
        choose (files.map fun f => f.contents.types.map (identity package))⟩ := by
  rw [assemble, bind_eq_ok]
  constructor
  · rintro ⟨package, hdeclared, hinsert⟩
    obtain ⟨⟨idss, s⟩, hinserts, hok⟩ := bind_eq_ok.1 hinsert
    obtain ⟨rfl, rfl, hs⟩ := (insertFiles_eq_ok_iff TypeSet.distinct_empty).1 hinserts
    cases hok
    exact ⟨package, declared_eq_ok_iff.1 hdeclared, distinct_addTypes_empty.1 hs, rfl⟩
  · rintro ⟨package, hdeclares, hnodup, rfl⟩
    have hs := distinct_addTypes_empty.2 hnodup
    exact ⟨package, declared_eq_ok_iff.2 hdeclares, bind_eq_ok.2
      ⟨_, (insertFiles_eq_ok_iff TypeSet.distinct_empty).2 ⟨rfl, rfl, hs⟩, rfl⟩⟩

theorem exists_assemble_iff : (∃ p, assemble fallback choose files = .ok p) ↔
    ∃ package, Declares files package ∧ ((listed files).map (identity package)).Nodup := by
  simp only [assemble_eq_ok_iff]
  constructor
  · rintro ⟨_, package, hdeclares, hnodup, -⟩
    exact ⟨package, hdeclares, hnodup⟩
  · rintro ⟨package, hdeclares, hnodup⟩
    exact ⟨_, package, hdeclares, hnodup, rfl⟩

theorem flatten_ids (package : Option String) (files : List SourceFile) :
    (files.map fun f => f.contents.types.map (identity package)).flatten =
      (listed files).map (identity package) := by
  rw [listed, List.map_flatMap, List.flatMap_def]

theorem holds_of_assemble (h : assemble fallback List.flatten files = .ok p) :
    ∃ package, Declares files package ∧ p.name = package.getD fallback ∧
      Holds package files p := by
  obtain ⟨package, hdeclares, hnodup, rfl⟩ := assemble_eq_ok_iff.1 h
  have hroots := flatten_ids package files
  refine ⟨package, hdeclares, rfl, ?_, hroots, hroots ▸ hnodup, fun d hd => ?_⟩
  · exact List.forall₂_map_right_iff.2 (List.forall₂_same.2 fun d _ => stored_joined package d)
  · exact (TypeSet.get?_eq_some_iff (distinct_addTypes_empty.2 hnodup)).2 ⟨hd, rfl⟩

theorem listed_perm (h : files.Perm files') : (listed files).Perm (listed files') :=
  h.flatMap_right _

theorem exists_assemble_of_perm (h : files.Perm files')
    (hp : ∃ p, assemble fallback choose files = .ok p) :
    ∃ p, assemble fallback choose files' = .ok p := by
  obtain ⟨package, hdeclares, hnodup⟩ := exists_assemble_iff.1 hp
  exact exists_assemble_iff.2
    ⟨package, hdeclares.perm h, (((listed_perm h).map _).nodup_iff).1 hnodup⟩

/-- It does not matter under which paths the files of a package have been read. -/
theorem assemble_of_contents (h : files.map (·.contents) = files'.map (·.contents))
    (hp : assemble fallback choose files = .ok p) : assemble fallback choose files' = .ok p := by
  obtain ⟨package, hdeclares, hnodup, rfl⟩ := assemble_eq_ok_iff.1 hp
  have hids (fs : List SourceFile) : fs.map (fun f => f.contents.types.map (identity package)) =
      (fs.map (·.contents)).map fun c => c.types.map (identity package) := by
    rw [List.map_map]
    rfl
  rw [listed_of_contents h] at hnodup
  refine assemble_eq_ok_iff.2 ⟨package, hdeclares.of_contents h, hnodup, ?_⟩
  rw [listed_of_contents h, hids, hids, h]

/-- Packages of the same files in different orders differ in their roots alone. -/
theorem get?_assemble_of_perm (h : files.Perm files')
    {choose' : List (List TypeId) → List TypeId} (hp : assemble fallback choose files = .ok p)
    (hp' : assemble fallback choose' files' = .ok p') :
    p'.name = p.name ∧ ∀ id, p'.types.get? id = p.types.get? id := by
  obtain ⟨package, hdeclares, hnodup, rfl⟩ := assemble_eq_ok_iff.1 hp
  obtain ⟨package', hdeclares', hnodup', rfl⟩ := assemble_eq_ok_iff.1 hp'
  obtain rfl := (hdeclares.perm h).unique hdeclares'
  refine ⟨rfl, fun id => TypeSet.get?_eq_of_perm (distinct_addTypes_empty.2 hnodup') ?_ id⟩
  exact (listed_perm h.symm).map _

/-- Files make a package just when they do not declare different packages and their types have
different identities in the declared one. It holds their types, as `Stored` says, and its roots are
the identities in the order of files and declarations. In any other order the files make the same
package, up to the order of its types. -/
theorem assemble_exact (fallback : String) (files : List SourceFile) :
    ((∃ p, assemble fallback List.flatten files = .ok p) ↔
      ∃ package, Declares files package ∧ ((listed files).map (identity package)).Nodup) ∧
    (∀ p, assemble fallback List.flatten files = .ok p →
      ∃ package, Declares files package ∧ p.name = package.getD fallback ∧
        Holds package files p) ∧
    ∀ files', files.Perm files' →
      ((∃ p, assemble fallback List.flatten files = .ok p) ↔
        ∃ p, assemble fallback List.flatten files' = .ok p) ∧
      ∀ p p', assemble fallback List.flatten files = .ok p →
        assemble fallback List.flatten files' = .ok p' →
          p'.name = p.name ∧ ∀ id, p'.types.get? id = p.types.get? id :=
  ⟨exists_assemble_iff, fun _ => holds_of_assemble, fun _ h =>
    ⟨⟨exists_assemble_of_perm h, exists_assemble_of_perm h.symm⟩,
      fun _ _ => get?_assemble_of_perm h⟩⟩

end IndexMapping.Package

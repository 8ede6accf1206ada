import DocQuery.Proofs.Filter.Meaning

/-! The parts of a filter: itself and, of each part, the documents that it lists. No part of a filter
that translates a valid tree is empty, and what every entry of every part has in common can be read off
the leaves of the tree. -/
namespace DocQuery.Filter

/-- The keys under which a filter lists documents. -/
def junctions : List String := ["$and", "$or"]

/-- A filter is a part of itself, and so is each part of a document that a junction lists. -/
inductive Part (e : Document) : Document → Prop
  | self : Part e e
  | joined {d f : Document} {key : String} {items : List Bson} :
      key ∈ junctions → (key, .array items) ∈ d → .document f ∈ items → Part e f → Part e d

/-- Every entry of every part has the property. -/
def EveryEntry (Q : String × Bson → Prop) (d : Document) : Prop := ∀ e, Part e d → ∀ m ∈ e, Q m

variable {Q : String × Bson → Prop}

/-- The same, entry by entry, so that no induction over parts is needed any more. -/
theorem everyEntry_iff {d : Document} :
    EveryEntry Q d ↔ ∀ m ∈ d, Q m ∧ ∀ items f, m.1 ∈ junctions → m.2 = .array items →
      .document f ∈ items → EveryEntry Q f := by
  constructor
  · intro h m hm
    refine ⟨h d .self m hm, fun items f hkey hitems hf e he => ?_⟩
    have hmem : (m.1, Bson.array items) ∈ d := hitems ▸ hm
    exact h e (.joined hkey hmem hf he)
  · intro h e he
    cases he with
    | self => exact fun m hm => (h m hm).1
    | joined hkey hmem hf he => exact (h _ hmem).2 _ _ hkey rfl hf e he

theorem everyEntry_flatten {ds : List Document} (h : ∀ d ∈ ds, EveryEntry Q d) :
    EveryEntry Q ds.flatten := by
  rw [everyEntry_iff]
  intro m hm
  obtain ⟨d, hd, hmem⟩ := List.mem_flatten.1 hm
  exact everyEntry_iff.1 (h d hd) m hmem

theorem everyEntry_listed {key : String} {ds : List Document}
    (hkey : Q (key, .array (ds.map .document))) (h : ∀ d ∈ ds, EveryEntry Q d) :
    EveryEntry Q [(key, .array (ds.map .document))] := by
  rw [everyEntry_iff]
  intro m hm
  rw [List.mem_singleton] at hm
  subst hm
  refine ⟨hkey, ?_⟩
  rintro items f - hitems hf
  cases hitems
  obtain ⟨d, hd, hdoc⟩ := List.mem_map.1 hf
  rw [Bson.document.injEq] at hdoc
  exact hdoc ▸ h d hd

/-- A condition on one attribute lists no documents, so its entry is all there is to look at. -/
theorem everyEntry_attribute {attr : String} {b : Bson} (hentry : Q (attr, b))
    (harray : b.array? = none) : EveryEntry Q [(attr, b)] := by
  rw [everyEntry_iff]
  intro m hm
  rw [List.mem_singleton] at hm
  subst hm
  refine ⟨hentry, ?_⟩
  rintro items f - rfl
  cases harray

theorem flatten_ne_nil {ds : List Document} (hne : ds ≠ []) (h : ∀ d ∈ ds, d ≠ []) :
    ds.flatten ≠ [] := by
  obtain ⟨d, hd⟩ := List.exists_mem_of_ne_nil ds hne
  intro hnil
  exact h d hd (List.flatten_eq_nil_iff.1 hnil d hd)

theorem ofPredicates_ne_nil {ps : List Predicate} {ds : List Document} (hne : ps ≠ [])
    (hds : ofPredicates ps = .ok ds) : ds ≠ [] := by
  rw [ofPredicates_eq_mapM] at hds
  rintro rfl
  exact hne (mapM_eq_ok_nil_iff.1 hds)

/-- A valid tree is never translated to an empty filter, which would select everything. -/
theorem ofPredicate_ne_nil {p : Predicate} {d : Document} (hvalid : p.validate = .ok ())
    (hd : ofPredicate p = .ok d) : d ≠ [] := by
  induction p using Predicate.induction generalizing d with
  | conj ps ih | disj ps ih =>
    -- A junction is an entry whatever it lists; only siblings that are merged depend on the children.
    rw [ofPredicate, map_eq_ok_iff] at hd
    obtain ⟨ds, -, rfl⟩ := hd
    simp [conjunction, disjunction]
  | all ps ih =>
    obtain ⟨hne, hps⟩ := Predicate.validate_all_iff.1 hvalid
    rw [ofPredicate, map_eq_ok_iff] at hd
    obtain ⟨ds, hds, rfl⟩ := hd
    have hall : ∀ d ∈ ds, d ≠ [] := by
      rw [ofPredicates_eq_mapM] at hds
      exact forall_of_mapM hds fun p hp d hd => ih p hp (hps p hp) hd
    rcases joinAll_eq_or ds with h | h
    · exact h ▸ flatten_ne_nil (ofPredicates_ne_nil hne hds) hall
    · simp [h, conjunction]
  | equal attr value =>
    rw [ofPredicate, bind_eq_ok_iff] at hd
    obtain ⟨b, -, hd⟩ := hd
    cases hd
    simp
  | compare attr ms opts =>
    rw [ofPredicate, bind_eq_ok_iff] at hd
    obtain ⟨conditions, -, hd⟩ := hd
    cases hd
    simp
  | annotated inner opts ih =>
    rw [ofPredicate, bind_eq_ok_iff] at hd
    obtain ⟨inner', hinner, hd⟩ := hd
    cases hd
    exact Entries.insertAll_ne_nil (ih (Predicate.validate_annotated_iff.1 hvalid) hinner) _

/-- What makes a property one of every entry of the filter for a tree with these leaves: junctions that
list documents have it, and so have the conditions of the leaves. -/
structure EntryRule (leaves : List Predicate) (Q : String × Bson → Prop) : Prop where
  junction : ∀ key ∈ junctions, ∀ ds : List Document, ds ≠ [] → (∀ d ∈ ds, d ≠ []) →
    Q (key, .array (ds.map .document))
  equal : ∀ attr value b, .equal attr value ∈ leaves → b.document? = none → b.array? = none →
    Q (attr, b)
  compare : ∀ attr ms conditions, .compare attr ms none ∈ leaves → ms ≠ [] →
    operators attr [] ms = .ok conditions → Q (attr, .document conditions)

theorem EntryRule.mono {leaves leaves' : List Predicate} (h : EntryRule leaves Q)
    (hsub : leaves' ⊆ leaves) : EntryRule leaves' Q where
  junction := h.junction
  equal attr value b hleaf := h.equal attr value b (hsub hleaf)
  compare attr ms conditions hleaf := h.compare attr ms conditions (hsub hleaf)

/-- What children of a valid node without options become, given what holds of each one. -/
theorem everyEntry_children {ps : List Predicate} {ds : List Document}
    (hQ : EntryRule (Predicate.leavesOfAll ps) Q) (hopts : Predicate.areOptsFree ps = true)
    (hvalid : ps ≠ [] ∧ ∀ p ∈ ps, p.validate = .ok ()) (hds : ofPredicates ps = .ok ds)
    (ih : ∀ p ∈ ps, ∀ {d : Document}, EntryRule p.leaves Q → p.isOptsFree = true →
      p.validate = .ok () → ofPredicate p = .ok d → EveryEntry Q d) :
    (∀ d ∈ ds, EveryEntry Q d) ∧ ∀ key ∈ junctions, Q (key, .array (ds.map .document)) := by
  rw [Predicate.areOptsFree_eq_all, List.all_eq_true] at hopts
  have hne := ofPredicates_ne_nil hvalid.1 hds
  rw [ofPredicates_eq_mapM] at hds
  have hparts : ∀ d ∈ ds, EveryEntry Q d ∧ d ≠ [] := by
    refine forall_of_mapM (P := fun d => EveryEntry Q d ∧ d ≠ []) hds fun p hp d hd => ?_
    have hleaves : p.leaves ⊆ Predicate.leavesOfAll ps := by
      intro leaf hleaf
      rw [Predicate.leavesOfAll_eq_flatMap]
      exact List.mem_flatMap.2 ⟨p, hp, hleaf⟩
    exact ⟨ih p hp (hQ.mono hleaves) (hopts p hp) (hvalid.2 p hp) hd,
      ofPredicate_ne_nil (hvalid.2 p hp) hd⟩
  exact ⟨fun d hd => (hparts d hd).1,
    fun key hkey => hQ.junction key hkey ds hne fun d hd => (hparts d hd).2⟩

/-- Every entry of a translated tree without options is a junction of its nodes or a condition of its
leaves. -/
theorem everyEntry_ofPredicate {p : Predicate} {d : Document} (hQ : EntryRule p.leaves Q)
    (hopts : p.isOptsFree = true) (hvalid : p.validate = .ok ()) (hd : ofPredicate p = .ok d) :
    EveryEntry Q d := by
  induction p using Predicate.induction generalizing d with
  | conj ps ih =>
    rw [ofPredicate, map_eq_ok_iff] at hd
    obtain ⟨ds, hds, rfl⟩ := hd
    obtain ⟨hparts, hjunction⟩ :=
      everyEntry_children hQ hopts (Predicate.validate_conj_iff.1 hvalid) hds ih
    exact everyEntry_listed (hjunction "$and" (by simp [junctions])) hparts
  | disj ps ih =>
    rw [ofPredicate, map_eq_ok_iff] at hd
    obtain ⟨ds, hds, rfl⟩ := hd
    obtain ⟨hparts, hjunction⟩ :=
      everyEntry_children hQ hopts (Predicate.validate_disj_iff.1 hvalid) hds ih
    exact everyEntry_listed (hjunction "$or" (by simp [junctions])) hparts
  | all ps ih =>
    rw [ofPredicate, map_eq_ok_iff] at hd
    obtain ⟨ds, hds, rfl⟩ := hd
    obtain ⟨hparts, hjunction⟩ :=
      everyEntry_children hQ hopts (Predicate.validate_all_iff.1 hvalid) hds ih
    rcases joinAll_eq_or ds with h | h
    · exact h ▸ everyEntry_flatten hparts
    · exact h ▸ everyEntry_listed (hjunction "$and" (by simp [junctions])) hparts
  | equal attr value =>
    rw [ofPredicate, bind_eq_ok_iff] at hd
    obtain ⟨b, hb, hd⟩ := hd
    cases hd
    obtain ⟨hdocument, harray⟩ :=
      canonical_scalar (Predicate.validate_equal_iff.1 hvalid).2.1 hb
    exact everyEntry_attribute (hQ.equal attr value b (List.mem_singleton.2 rfl) hdocument harray)
      harray
  | compare attr ms opts =>
    rw [Predicate.isOptsFree, Option.isNone_iff_eq_none] at hopts
    subst hopts
    rw [ofPredicate, bind_eq_ok_iff] at hd
    obtain ⟨conditions, hconditions, hd⟩ := hd
    cases hd
    have hne := (Predicate.validate_compare_iff.1 hvalid).2.1
    exact everyEntry_attribute
      (hQ.compare attr ms conditions (List.mem_singleton.2 rfl) hne hconditions) rfl
  | annotated inner opts => cases hopts

end DocQuery.Filter

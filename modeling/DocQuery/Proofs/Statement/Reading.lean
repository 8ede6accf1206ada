import DocQuery.Proofs.Statement.Order

/-! Reading a statement clause by clause: when an object is read as a statement or as criteria, and
what each of its clauses then gives. -/
namespace DocQuery

theorem firstUnknown?_eq_none_iff {allowed : List String} {members : Entries Json} :
    firstUnknown? allowed members = none ↔ ∀ key ∈ members.keys, key ∈ allowed := by
  simp [firstUnknown?]

namespace Criteria

theorem ofJson_eq_ok_iff {members : Entries Json} {c : Criteria} :
    ofJson (.object members) = .ok c ↔ firstUnknown? clauseKeys members = none ∧
      readFilter members = .ok c.filter ∧ readSort members = .ok c.sort ∧
      readCount members "limit" = .ok c.limit ∧ readCount members "skip" = .ok c.skip ∧
      readSelect members = .ok c.select ∧ readOpts members = .ok c.opts := by
  rw [← toOption_eq_some_iff, toOption_ofJson]
  cases firstUnknown? clauseKeys members with
  | some key => simp
  | none =>
    simp only [Option.isSome_none, Bool.false_eq_true, if_false, Option.bind_eq_some_iff,
      toOption_eq_some_iff, Option.some.injEq, true_and]
    constructor
    · intro h
      rcases h with ⟨filter, hfilter, sort, hsort, limit, hlimit, skip, hskip, select, hselect,
        opts, hopts, rfl⟩
      exact ⟨hfilter, hsort, hlimit, hskip, hselect, hopts⟩
    · intro h
      rcases h with ⟨hfilter, hsort, hlimit, hskip, hselect, hopts⟩
      exact ⟨_, hfilter, _, hsort, _, hlimit, _, hskip, _, hselect, _, hopts, rfl⟩

theorem readNames_eq_ok_iff {clause : String} {items : List Json} {names : List String} :
    readNames clause items = .ok names ↔ items = names.map .string := by
  induction items generalizing names with
  | nil => cases names <;> simp [readNames]
  | cons item items ih =>
    cases item with
    | string name =>
      rw [readNames, bind_eq_ok_iff]
      simp only [ih, pure_eq_ok, Except.ok.injEq]
      cases names with
      | nil => simp
      | cons first names =>
        rw [List.map_cons, List.cons.injEq, Json.string.injEq]
        constructor
        · rintro ⟨rest, hrest, hcons⟩
          cases hcons
          exact ⟨rfl, hrest⟩
        · rintro ⟨rfl, hrest⟩
          exact ⟨names, hrest, rfl⟩
    | _ => cases names <;> simp [readNames]

/-- A projection is read as no constraint exactly if a star is among its names. -/
theorem readProjection_eq_ok_iff {clause : String} {v : Json} {projection : Option (List String)} :
    readProjection clause v = .ok projection ↔
      ∃ names : List String, v = .array (names.map .string) ∧
        projection = if "*" ∈ names then none else some names := by
  cases v with
  | array items =>
    rw [readProjection, bind_eq_ok_iff]
    simp only [readNames_eq_ok_iff, pure_eq_ok, Except.ok.injEq, Json.array.injEq,
      List.contains_iff_mem, eq_comm (a := projection)]
  | _ => simp [readProjection]

/-- A filter is read from the node that stands under `where`. -/
theorem node_of_readFilter {members : Entries Json} {p : Predicate}
    (h : readFilter members = .ok (some p)) :
    ∃ node, members.get? "where" = some node ∧ Predicate.ofJson node = .ok p := by
  cases hnode : members.get? "where" with
  | none =>
    rw [readFilter, hnode] at h
    cases h
  | some node =>
    by_cases hempty : node = .object []
    · rw [readFilter, hnode, hempty] at h
      cases h
    · rw [readFilter_of_node hnode hempty] at h
      obtain ⟨q, hq, hp⟩ := map_eq_ok_iff.1 h
      cases hp
      exact ⟨node, rfl, hq⟩

end Criteria

namespace Statement

/-- The kind of a statement changes nothing but the projection of its criteria. -/
theorem criteria_of_readKind {members : Entries Json} {criteria read : Option Criteria}
    {kind : StatementKind} (h : readKind members criteria = .ok (kind, read)) :
    read = criteria ∨ ∃ projection,
      read = some { criteria.getD Criteria.empty with select := projection } := by
  unfold readKind at h
  split at h
  · obtain ⟨projection, -, h⟩ := bind_eq_ok_iff.1 h
    obtain ⟨joined, hjoined, h⟩ := bind_eq_ok_iff.1 h
    cases h
    rw [withProjection] at hjoined
    split at hjoined
    · cases hjoined
    · cases hjoined
      exact .inr ⟨projection, rfl⟩
  · obtain ⟨records, -, h⟩ := bind_eq_ok_iff.1 h
    cases h
    exact .inl rfl
  · obtain ⟨values, -, h⟩ := bind_eq_ok_iff.1 h
    cases h
    exact .inl rfl
  · obtain ⟨deleted, -, h⟩ := bind_eq_ok_iff.1 h
    cases h
    exact .inl rfl
  · cases h
    exact .inl rfl

theorem ofJson_eq_ok_iff {members : Entries Json} {s : Statement} :
    ofJson (.object members) = .ok s ↔ firstUnknown? keys members = none ∧
      ¬ 1 < (kindKeys.filter (Entries.hasKey members)).length ∧
      readCollection members = .ok s.collection ∧ readOpts members = .ok s.opts ∧
      ∃ criteria read, readCriteria members = .ok criteria ∧
        readKind members criteria = .ok (s.kind, read) ∧
        s.criteria = read.filter fun c => !c.isEmpty := by
  rw [← toOption_eq_some_iff, toOption_ofJson]
  cases firstUnknown? keys members with
  | some key => simp
  | none =>
    by_cases hkinds : 1 < (kindKeys.filter (Entries.hasKey members)).length
    · simp [hkinds]
    · simp only [Option.isSome_none, Bool.false_eq_true, if_false, Option.bind_eq_some_iff,
        toOption_eq_some_iff, Option.some.injEq, true_and, hkinds, not_false_eq_true]
      constructor
      · intro h
        rcases h with ⟨collection, hcollection, criteria, hcriteria, ⟨kind, read⟩, hkind, opts,
          hopts, rfl⟩
        exact ⟨hcollection, hopts, criteria, read, hcriteria, hkind, rfl⟩
      · intro h
        rcases h with ⟨hcollection, hopts, criteria, read, hcriteria, hkind, hread⟩
        exact ⟨_, hcollection, _, hcriteria, _, hkind, _, hopts, by rw [← hread]⟩

end Statement

end DocQuery

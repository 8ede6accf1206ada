import DocQuery.Proofs.Compilation.Arguments
import DocQuery.Proofs.Filter.Parts

/-! Clauses are neither lost nor invented. A query without options holds each clause of its statement
as it is given and nothing else, and no part of its filter is empty. -/
namespace DocQuery

namespace Filter

/-- Neither the filter nor a part of it is empty, nor is a list of documents or an operator document. -/
def Filled (d : Document) : Prop :=
  d ≠ [] ∧ EveryEntry (fun m => m.2 ≠ .document [] ∧
    ∀ items, m.1 ∈ junctions → m.2 = .array items → items ≠ [] ∧ .document [] ∉ items) d

theorem operators_ne_nil {attr : String} {ms : List Modifier} {d : Document} (hne : ms ≠ [])
    (h : operators attr [] ms = .ok d) : d ≠ [] := by
  rintro rfl
  exact hne (mapM_eq_ok_nil_iff.1 (operators_eq_ok h))

theorem filled_ofPredicate {p : Predicate} {d : Document} (hopts : p.isOptsFree = true)
    (hvalid : p.validate = .ok ()) (hd : ofPredicate p = .ok d) : Filled d := by
  refine ⟨ofPredicate_ne_nil hvalid hd, everyEntry_ofPredicate ⟨?_, ?_, ?_⟩ hopts hvalid hd⟩
  · rintro key - ds hds hparts
    refine ⟨by simp, ?_⟩
    rintro items - hitems
    cases hitems
    exact ⟨by simpa using hds, by simpa using fun hempty => hparts [] hempty rfl⟩
  · intro attr value b _ hdocument harray
    refine ⟨?_, ?_⟩
    · rintro rfl
      cases hdocument
    · rintro items - rfl
      cases harray
  · intro attr ms conditions _ hms hconditions
    exact ⟨by simpa using operators_ne_nil hms hconditions, by simp⟩

end Filter

/-- The document sets the keys of the dictionary, in order, each to the canonical form of its value. -/
def Document.Sets (d : Document) (values : Dictionary) : Prop :=
  List.Forall₂ (fun m e => e.1 = m.1 ∧ Bson.canonical m.2 = .ok e.2) values.sortedEntries d

theorem Bson.sets_of_ofRecord {values : Dictionary} {d : Document} (h : ofRecord values = .ok d) :
    d.Sets values := by
  rw [ofRecord, sequence_canonicalMembers, mapM_eq_ok_iff_forall₂] at h
  refine h.imp fun m e he => ?_
  obtain ⟨b, hb, rfl⟩ := map_eq_ok_iff.1 he
  exact ⟨rfl, hb⟩

theorem isSome_of_rel {α β : Type} {R : α → β → Prop} {a : Option α} {b : Option β}
    (h : Option.Rel R a b) : b.isSome = a.isSome := by
  cases h <;> rfl

namespace Criteria

/-- The keys of the arguments that the criteria set, in order. -/
def argumentKeys (c : Criteria) : List String :=
  [("filter", c.filter.isSome), ("projection", c.select.isSome), ("sort", c.sort.isSome),
    ("limit", c.limit.isSome), ("skip", c.skip.isSome)].filterMap fun argument =>
      if argument.2 then some argument.1 else none

theorem keys_findArguments {c : Criteria} {query : Document} (hvalid : c.validate = .ok ())
    (h : c.findArguments = .ok query) : Entries.keys query = c.argumentKeys := by
  obtain ⟨-, -, filter, hfilter, rfl⟩ := findArguments_eq_ok hvalid h
  simp only [Entries.keys_append, Entries.keys_optional, Option.isSome_map, isSome_of_rel hfilter,
    projection, order, argumentKeys, List.filterMap_cons, List.filterMap_nil]
  cases c.filter.isSome <;> cases c.select.isSome <;> cases c.sort.isSome <;>
    cases c.limit.isSome <;> cases c.skip.isSome <;> rfl

/-- The key of the filter, if there is one. -/
def filterKey (c : Criteria) : List String := if c.filter.isSome then ["filter"] else []

theorem keys_filterArguments {kind : StatementKind} {c : Criteria} {query : Document}
    (h : c.filterArguments kind = .ok query) :
    c.findClauses = [] ∧ Entries.keys query = c.filterKey := by
  obtain ⟨hclauses, filter, hfilter, rfl⟩ := filterArguments_eq_ok h
  refine ⟨hclauses, ?_⟩
  rw [Entries.keys_optional, Option.isSome_map, isSome_of_rel hfilter, filterKey]

end Criteria

namespace NativeQuery

/-- The query of a valid statement without options holds each clause that is set as it is given. Its
filter has no empty part. A find has the keys of its clauses and no other ones, in a fixed order. An
update or a deletion has no clause that only a find honours; the one has the filter and what it sets,
the other one the filter alone. -/
theorem clauses_kept {s : Statement} {q : NativeQuery} (hopts : s.IsOptsFree)
    (hvalid : s.validate = .ok ()) (h : translate s = .ok q) :
    s.clauses.Reflects q ∧ (∀ d, q.filter? = some d → Filter.Filled d) ∧
      match s.kind with
      | .find => q.method = .find ∧ q.query.keys = s.clauses.argumentKeys
      | .insert _ => True
      | .update values => q.method = .updateMany ∧ s.clauses.findClauses = [] ∧
          q.query.keys = s.clauses.filterKey ++ ["update"] ∧
            ∃ d : Document, q.update? = some [("$set", .document d)] ∧ d.Sets values
      | .destroy => q.method = .deleteMany ∧ s.clauses.findClauses = [] ∧
          q.query.keys = s.clauses.filterKey := by
  have harguments := arguments_of_translate hopts.1 hopts.criteriaOpts h
  have hreflects := reflects_of_arguments hvalid harguments
  refine ⟨hreflects, fun d hd => ?_, ?_⟩
  · obtain ⟨p, -, hfree, hrules, hpd⟩ := ofPredicate_of_translate hopts hvalid h hd
    exact Filter.filled_ofPredicate hfree hrules hpd
  · cases hk : s.kind with
    | find =>
      obtain ⟨hmethod, hquery⟩ := arguments_find hk harguments
      exact ⟨hmethod, Criteria.keys_findArguments (Statement.clauses_valid hvalid) hquery⟩
    | insert records => trivial
    | update values =>
      obtain ⟨hmethod, entry, d, hentry, hd, hquery⟩ := arguments_update hk harguments
      obtain ⟨hclauses, hkeys⟩ := Criteria.keys_filterArguments hentry
      refine ⟨hmethod, hclauses, ?_, d, ?_, Bson.sets_of_ofRecord hd⟩
      · rw [hquery, Entries.keys_append, hkeys]
        rfl
      · obtain ⟨-, filter, -, rfl⟩ := Criteria.filterArguments_eq_ok hentry
        simp [update?, documentAt?, hquery, Entries.get?_append, Entries.get?_cons, Bson.document?]
    | destroy =>
      obtain ⟨hmethod, hquery⟩ := arguments_destroy hk harguments
      exact ⟨hmethod, Criteria.keys_filterArguments hquery⟩

/-- A find with every clause, in another order than that of the query, and a projection that repeats
itself. -/
def pagedFind : Statement :=
  ⟨"people", .find, some {
    sort := some [⟨"name", .descending⟩, ⟨"age", .ascending⟩]
    skip := some 0
    select := some ["name", "age", "name"]
    limit := some 20
    filter := some (.all [.equal "name" .null, .disj [.equal "age" .null]]) }, none⟩

def namingUpdate : Statement :=
  ⟨"people", .update (.ofList [("name", .string "x")]),
    some { filter := some (.equal "name" .null) }, none⟩

theorem pagedFind_keeps_clauses :
    (pagedFind.IsOptsFree ∧ pagedFind.validate = .ok () ∧ ∃ q, translate pagedFind = .ok q ∧
      (∃ d, q.filter? = some d ∧ Filter.Filled d) ∧
      q.projection? = some [("name", .int32 1), ("age", .int32 1)] ∧
      q.sort? = some [("name", .int32 (-1)), ("age", .int32 1)] ∧ q.limit? = some 20 ∧
      q.skip? = some 0 ∧ q.query.keys = ["filter", "projection", "sort", "limit", "skip"]) ∧
    namingUpdate.IsOptsFree ∧ namingUpdate.validate = .ok () ∧ ∃ q, translate namingUpdate = .ok q ∧
      q.method = .updateMany ∧ q.query.keys = ["filter", "update"] ∧ q.limit? = none := by
  have hpaged : pagedFind.IsOptsFree := by
    simp [Statement.IsOptsFree, Criteria.IsOptsFree, pagedFind, Predicate.isOptsFree,
      Predicate.areOptsFree]
  have hupdate : namingUpdate.IsOptsFree := by
    simp [Statement.IsOptsFree, Criteria.IsOptsFree, namingUpdate, Predicate.isOptsFree]
  obtain ⟨q, hq⟩ : ∃ q, translate pagedFind = .ok q := ⟨_, rfl⟩
  have hrules : namingUpdate.validate = .ok () := rfl
  -- Sorting does not evaluate, not even on one entry, so its lemma stands in for it.
  have hrecord : Bson.ofRecord (.ofList [("name", .string "x")]) = .ok [("name", .string "x")] :=
    congrArg Entries.sequence (List.mergeSort_singleton ("name", Bson.canonical (.string "x")))
  obtain ⟨r, hr⟩ : ∃ r, translate namingUpdate = .ok r := by
    rw [translate, arguments, namingUpdate]
    simp only [hrecord]
    exact ⟨_, rfl⟩
  obtain ⟨hreflects, hfilled, -, hkeys⟩ := clauses_kept hpaged rfl hq
  obtain ⟨hreflected, -, hmethod, -, hupdated, -⟩ := clauses_kept hupdate hrules hr
  obtain ⟨d, hd⟩ : ∃ d, q.filter? = some d :=
    Option.isSome_iff_exists.1 (isSome_of_rel hreflects.filter)
  have hnames : ["name", "age", "name"].eraseDups = ["name", "age"] := by decide
  refine ⟨⟨hpaged, rfl, q, hq, ⟨d, hd, hfilled d hd⟩, ?_, hreflects.sort, hreflects.limit,
    hreflects.skip, hkeys⟩, hupdate, hrules, r, hr, hmethod, hupdated, hreflected.limit⟩
  rw [hreflects.projection, Criteria.projection]
  simp [Statement.clauses, pagedFind, hnames]

end NativeQuery

end DocQuery

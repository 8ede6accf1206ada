import DocQuery.Proofs.Compilation.Support
import DocQuery.Proofs.Statement.OptsFree
import Mathlib.Data.Option.Basic

/-! The arguments of a query, clause by clause: each clause that is set contributes its own entry, and
any other one none. -/
namespace DocQuery

@[simp] theorem Bson.document?_map (d : Option Document) : (d.map document).bind document? = d := by
  cases d <;> rfl

namespace Criteria

theorem filterEntry_eq_ok {c : Criteria} {entry : Document} (h : c.filterEntry = .ok entry) :
    ∃ filter : Option Document,
      Option.Rel (fun p d => Filter.ofPredicate p = .ok d) c.filter filter ∧
        entry = Entries.optional "filter" (filter.map .document) := by
  unfold filterEntry at h
  cases hp : c.filter with
  | none =>
    rw [hp] at h
    cases h
    exact ⟨none, .none, rfl⟩
  | some p =>
    rw [hp] at h
    obtain ⟨d, hd, h⟩ := bind_eq_ok_iff.1 h
    cases h
    exact ⟨some d, .some hd, rfl⟩

/-- The projection that a clause asks for: each attribute once, where it comes first. -/
def projection (c : Criteria) : Option Document :=
  c.select.map fun names => names.eraseDups.map fun name => (name, .int32 1)

theorem projectionEntry_eq (c : Criteria) :
    c.projectionEntry = Entries.optional "projection" (c.projection.map .document) := by
  unfold projectionEntry projection
  cases c.select with
  | none => rfl
  | some names =>
    simp only [Entries.ofList_map_const]
    rfl

/-- The order that a clause asks for, entry by entry. -/
def order (c : Criteria) : Option Document :=
  c.sort.map fun entries => entries.map fun e => (e.attr, e.toBson)

theorem sortEntry_eq {c : Criteria} (h : c.validate = .ok ()) :
    c.sortEntry = Entries.optional "sort" (c.order.map .document) := by
  obtain ⟨hsort, -, -⟩ := validate_eq_ok_iff.1 h
  unfold sortEntry order
  cases hentries : c.sort with
  | none => rfl
  | some entries =>
    have hnodup := (SortEntry.validateAll_eq_ok_iff.1 (hsort entries hentries)).1
    have hkeys : (Entries.keys (entries.map fun e => (e.attr, e.toBson))).Nodup := by
      rwa [Entries.keys, List.map_map]
    simp only [Entries.ofList_of_nodup hkeys]
    rfl

theorem countEntry_eq_ok {clause : String} {count : Option Nat} {entry : Document}
    (h : countEntry clause count = .ok entry) :
    (∀ n, count = some n → n ≤ Json.maxSigned) ∧
      entry = Entries.optional clause (count.map fun n => .int64 (Int64.ofNat n)) := by
  cases count with
  | none =>
    cases h
    exact ⟨by simp, rfl⟩
  | some n =>
    rw [countEntry] at h
    split at h
    · cases h
    · next hn =>
      cases h
      exact ⟨by simpa using hn, rfl⟩

theorem limitEntry_eq_ok {limit : Option Nat} {entry : Document} (h : limitEntry limit = .ok entry) :
    (∀ n, limit = some n → n ≤ Json.maxSigned) ∧
      entry = Entries.optional "limit" (limit.map fun n => .int64 (Int64.ofNat n)) := by
  rw [limitEntry] at h
  split at h
  · cases h
  · exact countEntry_eq_ok h

/-- The entries of a find, in order. -/
theorem findArguments_eq_ok {c : Criteria} {query : Document} (hvalid : c.validate = .ok ())
    (h : c.findArguments = .ok query) :
    (∀ n, c.limit = some n → n ≤ Json.maxSigned) ∧ (∀ n, c.skip = some n → n ≤ Json.maxSigned) ∧
      ∃ filter : Option Document,
        Option.Rel (fun p d => Filter.ofPredicate p = .ok d) c.filter filter ∧
        query = Entries.optional "filter" (filter.map .document) ++
          Entries.optional "projection" (c.projection.map .document) ++
          Entries.optional "sort" (c.order.map .document) ++
          Entries.optional "limit" (c.limit.map fun n => .int64 (Int64.ofNat n)) ++
          Entries.optional "skip" (c.skip.map fun n => .int64 (Int64.ofNat n)) := by
  obtain ⟨filter, hfilter, h⟩ := bind_eq_ok_iff.1 h
  obtain ⟨limit, hlimit, h⟩ := bind_eq_ok_iff.1 h
  obtain ⟨skip, hskip, h⟩ := bind_eq_ok_iff.1 h
  cases h
  obtain ⟨d, hd, rfl⟩ := filterEntry_eq_ok hfilter
  obtain ⟨hlimitRange, rfl⟩ := limitEntry_eq_ok hlimit
  obtain ⟨hskipRange, rfl⟩ := countEntry_eq_ok hskip
  exact ⟨hlimitRange, hskipRange, d, hd, by rw [projectionEntry_eq, sortEntry_eq hvalid]⟩

/-- An update or a deletion takes the filter alone, and no clause that only a find honours. -/
theorem filterArguments_eq_ok {kind : StatementKind} {c : Criteria} {query : Document}
    (h : c.filterArguments kind = .ok query) :
    c.findClauses = [] ∧ ∃ filter : Option Document,
      Option.Rel (fun p d => Filter.ofPredicate p = .ok d) c.filter filter ∧
        query = Entries.optional "filter" (filter.map .document) := by
  rw [filterArguments] at h
  split at h
  · next hnone => exact ⟨hnone, filterEntry_eq_ok h⟩
  · cases h

theorem int?_count {count : Option Nat} (h : ∀ n, count = some n → n ≤ Json.maxSigned) :
    (count.map fun n => Bson.int64 (Int64.ofNat n)).bind Bson.int? = count.map fun n => (n : Int) := by
  cases count with
  | none => rfl
  | some n =>
    have hn : n < 2 ^ 63 := by
      have hrange := h n rfl
      rw [Json.maxSigned] at hrange
      omega
    simp [Bson.int?, Int64.toInt_ofNat_of_lt hn]

/-- What is found in the query are the clauses that the criteria set, as they are given. -/
structure Reflects (c : Criteria) (q : NativeQuery) : Prop where
  filter : Option.Rel (fun p d => Filter.ofPredicate p = .ok d) c.filter q.filter?
  projection : q.projection? = c.projection
  sort : q.sort? = c.order
  limit : q.limit? = c.limit.map fun n => (n : Int)
  skip : q.skip? = c.skip.map fun n => (n : Int)

theorem reflects_of_find {c : Criteria} {q : NativeQuery} (hvalid : c.validate = .ok ())
    (h : c.findArguments = .ok q.query) : c.Reflects q := by
  obtain ⟨hlimit, hskip, filter, hfilter, hquery⟩ := findArguments_eq_ok hvalid h
  constructor
  · simpa [NativeQuery.filter?, NativeQuery.documentAt?, hquery, Entries.get?_append] using hfilter
  · simp [NativeQuery.projection?, NativeQuery.documentAt?, hquery, Entries.get?_append]
  · simp [NativeQuery.sort?, NativeQuery.documentAt?, hquery, Entries.get?_append]
  · simpa [NativeQuery.limit?, NativeQuery.intAt?, hquery, Entries.get?_append] using
      int?_count hlimit
  · simpa [NativeQuery.skip?, NativeQuery.intAt?, hquery, Entries.get?_append] using
      int?_count hskip

/-- Without a clause that only a find honours, the filter is all that there is to find. -/
theorem reflects_of_filter {c : Criteria} {q : NativeQuery} (hclauses : c.findClauses = [])
    {filter : Option Document}
    (hfilter : Option.Rel (fun p d => Filter.ofPredicate p = .ok d) c.filter filter)
    {rest : Document} (hquery : q.query = Entries.optional "filter" (filter.map .document) ++ rest)
    (hrest : ∀ key ∈ ["filter", "projection", "sort", "limit", "skip"], rest.get? key = none) :
    c.Reflects q := by
  simp only [findClauses_eq_nil_iff, not_or, Bool.not_eq_true, Option.isSome_eq_false_iff,
    Option.isNone_iff_eq_none] at hclauses
  obtain ⟨hsort, hlimit, hskip, hselect⟩ := hclauses
  simp only [List.forall_mem_cons] at hrest
  obtain ⟨hnoFilter, hnoProjection, hnoSort, hnoLimit, hnoSkip, -⟩ := hrest
  constructor
  · simpa [NativeQuery.filter?, NativeQuery.documentAt?, hquery, Entries.get?_append, hnoFilter]
      using hfilter
  · simp [NativeQuery.projection?, NativeQuery.documentAt?, hquery, Entries.get?_append,
      hnoProjection, projection, hselect]
  · simp [NativeQuery.sort?, NativeQuery.documentAt?, hquery, Entries.get?_append, hnoSort, order,
      hsort]
  · simp [NativeQuery.limit?, NativeQuery.intAt?, hquery, Entries.get?_append, hnoLimit, hlimit]
  · simp [NativeQuery.skip?, NativeQuery.intAt?, hquery, Entries.get?_append, hnoSkip, hskip]

end Criteria

namespace NativeQuery

variable {s : Statement} {q : NativeQuery}

/-- Without options over its arguments, a query is what the arguments make it. -/
theorem arguments_of_translate (hopts : s.opts = none)
    (hcriteria : s.criteria.bind Criteria.opts = none) (h : translate s = .ok q) :
    arguments s = .ok (q.method, q.query) := by
  rw [translate, hopts, hcriteria] at h
  obtain ⟨⟨method, query⟩, harguments, heq⟩ := bind_eq_ok_iff.1 h
  cases heq
  exact harguments

theorem arguments_find (hk : s.kind = .find) (h : arguments s = .ok (q.method, q.query)) :
    q.method = .find ∧ s.clauses.findArguments = .ok q.query := by
  rw [arguments, hk] at h
  obtain ⟨query, hquery, heq⟩ := bind_eq_ok_iff.1 h
  rw [pure_eq_ok, Except.ok.injEq, Prod.mk.injEq] at heq
  exact ⟨heq.1.symm, heq.2 ▸ hquery⟩

theorem arguments_update {values : Dictionary} (hk : s.kind = .update values)
    (h : arguments s = .ok (q.method, q.query)) :
    q.method = .updateMany ∧ ∃ filter d, s.clauses.filterArguments s.kind = .ok filter ∧
      Bson.ofRecord values = .ok d ∧
        q.query = filter ++ [("update", .document [("$set", .document d)])] := by
  rw [arguments, hk] at h
  obtain ⟨filter, hfilter, h⟩ := bind_eq_ok_iff.1 h
  obtain ⟨d, hd, heq⟩ := bind_eq_ok_iff.1 h
  rw [pure_eq_ok, Except.ok.injEq, Prod.mk.injEq] at heq
  exact ⟨heq.1.symm, filter, d, hk ▸ hfilter, hd, heq.2.symm⟩

theorem arguments_destroy (hk : s.kind = .destroy) (h : arguments s = .ok (q.method, q.query)) :
    q.method = .deleteMany ∧ s.clauses.filterArguments s.kind = .ok q.query := by
  rw [arguments, hk] at h
  obtain ⟨query, hquery, heq⟩ := bind_eq_ok_iff.1 h
  rw [pure_eq_ok, Except.ok.injEq, Prod.mk.injEq] at heq
  exact ⟨heq.1.symm, hk ▸ heq.2 ▸ hquery⟩

theorem arguments_one {record : Dictionary} (hk : s.kind = .insert (.one record))
    (h : arguments s = .ok (q.method, q.query)) : q.method = .insertOne ∧
      ∃ d, Bson.ofRecord record = .ok d ∧ q.query = [("document", .document d)] := by
  rw [arguments, hk] at h
  obtain ⟨d, hd, heq⟩ := bind_eq_ok_iff.1 h
  rw [pure_eq_ok, Except.ok.injEq, Prod.mk.injEq] at heq
  exact ⟨heq.1.symm, d, hd, heq.2.symm⟩

theorem arguments_many {records : List Dictionary} (hk : s.kind = .insert (.many records))
    (h : arguments s = .ok (q.method, q.query)) : q.method = .insertMany ∧
      ∃ ds, records.mapM Bson.ofRecord = .ok ds ∧
        q.query = [("documents", .array (ds.map .document))] := by
  rw [arguments, hk] at h
  obtain ⟨ds, hds, heq⟩ := bind_eq_ok_iff.1 h
  rw [pure_eq_ok, Except.ok.injEq, Prod.mk.injEq] at heq
  exact ⟨heq.1.symm, ds, hds, heq.2.symm⟩

/-- Whatever its kind, the query of a valid statement holds the clauses of its criteria. -/
theorem reflects_of_arguments (hvalid : s.validate = .ok ())
    (h : arguments s = .ok (q.method, q.query)) : s.clauses.Reflects q := by
  cases hk : s.kind with
  | find => exact Criteria.reflects_of_find (Statement.clauses_valid hvalid) (arguments_find hk h).2
  | insert records =>
    -- Nothing restricts a valid insertion, so there are no clauses to look for.
    have hkind := (Statement.validate_eq_ok_iff.1 hvalid).2.1
    have hempty : s.clauses = Criteria.empty := by
      rw [Statement.clauses, ((Statement.validateKind_insert_iff hk).1 hkind).1]
      rfl
    rw [hempty]
    cases records with
    | one record =>
      obtain ⟨-, d, -, hquery⟩ := arguments_one hk h
      exact Criteria.reflects_of_filter rfl .none hquery (by simp [Entries.get?_cons])
    | many records =>
      obtain ⟨-, ds, -, hquery⟩ := arguments_many hk h
      exact Criteria.reflects_of_filter rfl .none hquery (by simp [Entries.get?_cons])
  | update values =>
    obtain ⟨-, entry, d, hentry, -, hquery⟩ := arguments_update hk h
    obtain ⟨hclauses, filter, hfilter, rfl⟩ := Criteria.filterArguments_eq_ok hentry
    exact Criteria.reflects_of_filter hclauses hfilter hquery (by simp [Entries.get?_cons])
  | destroy =>
    obtain ⟨hclauses, filter, hfilter, hquery⟩ :=
      Criteria.filterArguments_eq_ok (arguments_destroy hk h).2
    rw [← List.append_nil (Entries.optional _ _)] at hquery
    exact Criteria.reflects_of_filter hclauses hfilter hquery (by simp)

/-- The filter of a query translated without options is that of the statement, which has none either
and obeys the rules. -/
theorem ofPredicate_of_translate {d : Document} (hopts : s.IsOptsFree) (hvalid : s.validate = .ok ())
    (h : translate s = .ok q) (hd : q.filter? = some d) :
    ∃ p, s.filter? = some p ∧ p.isOptsFree = true ∧ p.validate = .ok () ∧
      Filter.ofPredicate p = .ok d := by
  have hfilter :=
    (reflects_of_arguments hvalid (arguments_of_translate hopts.1 hopts.criteriaOpts h)).filter
  rw [hd, ← Statement.filter?_eq_clauses] at hfilter
  cases hp : s.filter? with
  | none =>
    rw [hp] at hfilter
    cases hfilter
  | some p =>
    rw [hp] at hfilter
    cases hfilter with
    | some hpd =>
      obtain ⟨c, hc, hclause⟩ := Option.bind_eq_some_iff.1 hp
      have hcriteria := (Statement.validate_eq_ok_iff.1 hvalid).2.2 c hc
      exact ⟨p, rfl, (hopts.2 c hc).2 p hclause,
        (Criteria.validate_eq_ok_iff.1 hcriteria).2.2 p hclause, hpd⟩

end NativeQuery

end DocQuery

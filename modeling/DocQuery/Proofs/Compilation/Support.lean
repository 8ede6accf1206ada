import DocQuery.Compilation
import DocQuery.Proofs.Filter.Support
import DocQuery.Proofs.Statement.Rules

/-! Which statements MongoDB can execute: of those that obey the rules, exactly those are refused as
not supported that ask for something it lacks. -/
namespace DocQuery

namespace Predicate

/-- The values that a leaf compares its attribute with. -/
def operands : Predicate → List Json
  | .equal _ value => [value]
  | .compare _ ms _ => ms.map Modifier.operand
  | _ => []

end Predicate

namespace Statement

def filter? (s : Statement) : Option Predicate := s.criteria.bind Criteria.filter

/-- The values that a statement writes. -/
def values (s : Statement) : List Json :=
  match s.kind with
  | .insert records => records.toList.flatMap fun record => record.entries.values
  | .update values => values.entries.values
  | _ => []

def HasUnknownOperator (s : Statement) : Prop :=
  ∃ p attr ms opts m, s.filter? = some p ∧ .compare attr ms opts ∈ p.leaves ∧ m ∈ ms ∧
    m.operator.isRecognized = false

/-- Two modifiers of one attribute share a native operator. -/
def HasRepeatedOperator (s : Statement) : Prop :=
  ∃ p attr ms opts m n native, s.filter? = some p ∧ .compare attr ms opts ∈ p.leaves ∧
    [m, n].Sublist ms ∧ m.operator.native? = some native ∧ n.operator.native? = some native

def HasHugeInteger (s : Statement) : Prop :=
  (∃ p q v, s.filter? = some p ∧ q ∈ p.leaves ∧ v ∈ q.operands ∧ v.HoldsHuge) ∨
    ∃ v ∈ s.values, v.HoldsHuge

/-- MongoDB takes a limit of zero for none, and counts in signed 64-bit numbers. -/
def HasCountOutOfRange (s : Statement) : Prop :=
  s.kind = .find ∧ ∃ c, s.criteria = some c ∧
    (c.limit = some 0 ∨ (∃ n : Nat, c.limit = some n ∧ Json.maxSigned < n) ∨
      ∃ n : Nat, c.skip = some n ∧ Json.maxSigned < n)

/-- An update or a deletion has a clause that only a find honours. -/
def HasFindClause (s : Statement) : Prop :=
  ((∃ values, s.kind = .update values) ∨ s.kind = .destroy) ∧ ∃ c, s.criteria = some c ∧
    (c.sort.isSome = true ∨ c.limit.isSome = true ∨ c.skip.isSome = true ∨ c.select.isSome = true)

/-- The statement asks for something that MongoDB lacks. -/
def IsUnsupported (s : Statement) : Prop :=
  s.HasUnknownOperator ∨ s.HasRepeatedOperator ∨ s.HasHugeInteger ∨ s.HasCountOutOfRange ∨
    s.HasFindClause

end Statement

namespace Predicate

theorem mem_leaves_cases {p q : Predicate} (h : q ∈ p.leaves) :
    (∃ attr value, q = .equal attr value) ∨ ∃ attr ms opts, q = .compare attr ms opts := by
  induction p using induction with
  | conj children ih | disj children ih | all children ih =>
    rw [leaves, leavesOfAll_eq_flatMap] at h
    obtain ⟨p, hp, hq⟩ := List.mem_flatMap.1 h
    exact ih p hp hq
  | equal attr value => exact .inl ⟨attr, value, by simpa [leaves] using h⟩
  | compare attr ms opts => exact .inr ⟨attr, ms, opts, by simpa [leaves] using h⟩
  | annotated inner opts ih => exact ih h

end Predicate

namespace Filter

theorem natives_nodup_iff {ms : List Modifier} :
    (natives ms).Nodup ↔ ∀ m n native, [m, n].Sublist ms → m.operator.native? = some native →
      n.operator.native? ≠ some native := by
  rw [natives, List.Nodup, List.pairwise_filterMap, List.pairwise_iff_forall_sublist]
  constructor
  · intro h m n native hsub hm hn
    exact h hsub native hm native hn rfl
  · rintro h m n hsub native hm native' hn rfl
    exact h m n native hsub hm hn

end Filter

namespace Statement

/-- Whether MongoDB can express the filter is decided leaf by leaf. -/
theorem filter_expressible_iff (s : Statement) :
    (∀ p, s.filter? = some p → ∀ q ∈ p.leaves, q.IsExpressible) ↔
      ¬ s.HasUnknownOperator ∧ ¬ s.HasRepeatedOperator ∧
        ¬ ∃ p q v, s.filter? = some p ∧ q ∈ p.leaves ∧ v ∈ q.operands ∧ v.HoldsHuge := by
  constructor
  · intro h
    refine ⟨?_, ?_, ?_⟩
    · intro h'
      rcases h' with ⟨p, attr, ms, opts, m, hp, hq, hm, hunknown⟩
      have hknown := ((h p hp _ hq).1 m hm).1
      simp [hunknown] at hknown
    · intro h'
      rcases h' with ⟨p, attr, ms, opts, m, n, native, hp, hq, hsub, hm, hn⟩
      exact Filter.natives_nodup_iff.1 (h p hp _ hq).2 m n native hsub hm hn
    · intro h'
      rcases h' with ⟨p, q, v, hp, hq, hv, hhuge⟩
      have hexp := h p hp q hq
      obtain ⟨attr, value, rfl⟩ | ⟨attr, ms, opts, rfl⟩ := Predicate.mem_leaves_cases hq
      · rw [Predicate.operands, List.mem_singleton] at hv
        subst hv
        exact hexp hhuge
      · obtain ⟨m, hm, rfl⟩ := List.mem_map.1 hv
        exact (hexp.1 m hm).2 hhuge
  · rintro ⟨hunknown, hrepeated, hhuge⟩ p hp q hq
    obtain ⟨attr, value, rfl⟩ | ⟨attr, ms, opts, rfl⟩ := Predicate.mem_leaves_cases hq
    · intro hv
      exact hhuge ⟨p, _, value, hp, hq, by simp [Predicate.operands], hv⟩
    · refine ⟨fun m hm => ⟨?_, fun hv => ?_⟩, Filter.natives_nodup_iff.2 ?_⟩
      · cases hm' : m.operator.isRecognized with
        | true => rfl
        | false => exact absurd ⟨p, attr, ms, opts, m, hp, hq, hm, hm'⟩ hunknown
      · exact hhuge ⟨p, _, m.operand, hp, hq, List.mem_map_of_mem hm, hv⟩
      · intro m n native hsub hm hn
        exact hrepeated ⟨p, attr, ms, opts, m, n, native, hp, hq, hsub, hm, hn⟩

end Statement

open SupportedWhen

namespace Criteria

theorem filterEntry_supported {c : Criteria} (h : c.validate = .ok ()) :
    SupportedWhen (∀ p, c.filter = some p → ∀ q ∈ p.leaves, q.IsExpressible) c.filterEntry := by
  obtain ⟨-, -, hfilter⟩ := validate_eq_ok_iff.1 h
  unfold filterEntry
  cases hp : c.filter with
  | none => exact (ok []).congr (by simp)
  | some p =>
    refine ((Filter.ofPredicate_supported (hfilter p hp)).map
      fun d => [("filter", Bson.document d)]).congr ?_
    simp

theorem countEntry_supported (clause : String) (count : Option Nat) :
    SupportedWhen (¬ ∃ n : Nat, count = some n ∧ Json.maxSigned < n) (countEntry clause count) := by
  cases count with
  | none => exact (ok []).congr (by simp)
  | some n =>
    rw [countEntry]
    split
    · next hn => exact refused (by simpa using hn) _
    · next hn => exact (ok _).congr (by simpa using hn)

theorem limitEntry_supported (limit : Option Nat) :
    SupportedWhen (¬ (limit = some 0 ∨ ∃ n : Nat, limit = some n ∧ Json.maxSigned < n))
      (limitEntry limit) := by
  unfold limitEntry
  split
  · next hzero => exact refused (by simp [hzero]) _
  · next hzero => exact (countEntry_supported "limit" limit).congr (by simp [hzero])

theorem findArguments_supported {c : Criteria} (h : c.validate = .ok ()) :
    SupportedWhen ((∀ p, c.filter = some p → ∀ q ∈ p.leaves, q.IsExpressible) ∧
      ¬ (c.limit = some 0 ∨ ∃ n : Nat, c.limit = some n ∧ Json.maxSigned < n) ∧
      ¬ ∃ n : Nat, c.skip = some n ∧ Json.maxSigned < n) c.findArguments := by
  unfold findArguments
  refine (filterEntry_supported h).bind fun filter _ => ?_
  refine (limitEntry_supported c.limit).bind fun limit _ => ?_
  exact (countEntry_supported "skip" c.skip).map fun skip =>
    filter ++ c.projectionEntry ++ c.sortEntry ++ limit ++ skip

theorem findClauses_eq_nil_iff {c : Criteria} :
    c.findClauses = [] ↔ ¬ (c.sort.isSome = true ∨ c.limit.isSome = true ∨ c.skip.isSome = true ∨
      c.select.isSome = true) := by
  unfold findClauses
  cases c.sort <;> cases c.limit <;> cases c.skip <;> cases c.select <;> simp

theorem filterArguments_supported (kind : StatementKind) {c : Criteria} (h : c.validate = .ok ()) :
    SupportedWhen ((∀ p, c.filter = some p → ∀ q ∈ p.leaves, q.IsExpressible) ∧ c.findClauses = [])
      (filterArguments kind c) := by
  unfold filterArguments
  cases hc : c.findClauses with
  | nil => exact (filterEntry_supported h).congr (by simp)
  | cons clause clauses => exact refused (by simp) _

end Criteria

theorem Bson.ofRecord_supported {record : Dictionary} (h : record.validateRecord = .ok ()) :
    SupportedWhen (¬ ∃ v ∈ record.entries.values, v.HoldsHuge) (ofRecord record) := by
  rw [Dictionary.validateRecord_eq_ok_iff] at h
  rw [ofRecord, sequence_canonicalMembers]
  have hmem {m : String × Json} := (Entries.sorted_perm record.entries).mem_iff (a := m)
  have hsorted := SupportedWhen.mapM (Entries.sorted record.entries)
    fun m hm => (canonical_supported (h m (hmem.1 hm))).map fun b => (m.1, b)
  apply hsorted.congr
  simp only [Entries.values, List.mem_map, not_exists, not_and, hmem]
  constructor
  · rintro h v ⟨m, hm, rfl⟩
    exact h m hm
  · intro h m hm
    exact h m.2 ⟨m, hm, rfl⟩

namespace Statement

theorem not_isUnsupported_iff {s : Statement} :
    ¬ s.IsUnsupported ↔ (∀ p, s.filter? = some p → ∀ q ∈ p.leaves, q.IsExpressible) ∧
      (¬ ∃ v ∈ s.values, v.HoldsHuge) ∧ ¬ s.HasCountOutOfRange ∧ ¬ s.HasFindClause := by
  rw [filter_expressible_iff]
  simp only [IsUnsupported, HasHugeInteger, not_or, and_assoc]

/-- The criteria that a translation looks at: without a clause if the statement has none. -/
def clauses (s : Statement) : Criteria := s.criteria.getD Criteria.empty

theorem clauses_valid {s : Statement} (h : s.validate = .ok ()) : s.clauses.validate = .ok () := by
  have hcriteria := (validate_eq_ok_iff.1 h).2.2
  unfold clauses
  cases hc : s.criteria with
  | none => rfl
  | some c => exact hcriteria c hc

theorem filter?_eq_clauses (s : Statement) : s.filter? = s.clauses.filter := by
  unfold filter? clauses
  cases s.criteria <;> rfl

theorem hasCountOutOfRange_iff {s : Statement} :
    s.HasCountOutOfRange ↔ s.kind = .find ∧ (s.clauses.limit = some 0 ∨
      (∃ n : Nat, s.clauses.limit = some n ∧ Json.maxSigned < n) ∨
        ∃ n : Nat, s.clauses.skip = some n ∧ Json.maxSigned < n) := by
  unfold HasCountOutOfRange clauses
  cases s.criteria <;> simp [Criteria.empty]

theorem hasFindClause_iff {s : Statement} :
    s.HasFindClause ↔ ((∃ values, s.kind = .update values) ∨ s.kind = .destroy) ∧
      s.clauses.findClauses ≠ [] := by
  rw [Ne, Criteria.findClauses_eq_nil_iff, Classical.not_not]
  unfold HasFindClause clauses
  cases s.criteria <;> simp [Criteria.empty]

/-- An insertion that obeys the rules has no criteria, so nothing of it but its records counts. -/
theorem not_isUnsupported_insert_iff {s : Statement} {records : Records}
    (h : s.validate = .ok ()) (hk : s.kind = .insert records) :
    ¬ s.IsUnsupported ↔ ¬ ∃ v ∈ s.values, v.HoldsHuge := by
  have hnone := ((validateKind_insert_iff hk).1 (validate_eq_ok_iff.1 h).2.1).1
  rw [not_isUnsupported_iff, hasCountOutOfRange_iff, hasFindClause_iff]
  simp [filter?, hnone, hk]

end Statement

namespace NativeQuery

open Statement

theorem find_supported {s : Statement} (h : s.validate = .ok ()) (hk : s.kind = .find) :
    SupportedWhen (¬ s.IsUnsupported) (arguments s) := by
  have hfind := Criteria.findArguments_supported (clauses_valid h)
  rw [arguments, hk]
  apply (hfind.map fun d => (Method.find, d)).congr
  rw [not_isUnsupported_iff, filter?_eq_clauses, hasCountOutOfRange_iff, hasFindClause_iff]
  simp [values, hk, not_or, and_assoc]

theorem insert_supported {s : Statement} {records : Records} (h : s.validate = .ok ())
    (hk : s.kind = .insert records) : SupportedWhen (¬ s.IsUnsupported) (arguments s) := by
  have hrecords := ((validateKind_insert_iff hk).1 (validate_eq_ok_iff.1 h).2.1).2.2
  have hunsupported := not_isUnsupported_insert_iff h hk
  rw [arguments, hk]
  cases records with
  | one record =>
    have hrecord := Bson.ofRecord_supported (hrecords record (by simp [Records.toList]))
    apply (hrecord.map fun d => (Method.insertOne, [("document", Bson.document d)])).congr
    rw [hunsupported]
    simp [values, hk, Records.toList]
  | many records =>
    have hall := SupportedWhen.mapM records fun record hm =>
      Bson.ofRecord_supported (hrecords record hm)
    apply (hall.map fun ds =>
      (Method.insertMany, [("documents", Bson.array (ds.map .document))])).congr
    rw [hunsupported]
    simp only [values, hk, Records.toList, List.mem_flatMap]
    constructor
    · intro h h'
      rcases h' with ⟨v, ⟨record, hm, hv⟩, hhuge⟩
      exact h record hm ⟨v, hv, hhuge⟩
    · intro h record hm h'
      rcases h' with ⟨v, hv, hhuge⟩
      exact h ⟨v, ⟨record, hm, hv⟩, hhuge⟩

theorem update_supported {s : Statement} {values : Dictionary} (h : s.validate = .ok ())
    (hk : s.kind = .update values) : SupportedWhen (¬ s.IsUnsupported) (arguments s) := by
  have hvalues := ((validateKind_update_iff hk).1 (validate_eq_ok_iff.1 h).2.1).2
  have hfilter := Criteria.filterArguments_supported s.kind (clauses_valid h)
  rw [arguments, hk]
  rw [hk] at hfilter
  refine (hfilter.bind fun filter _ => (Bson.ofRecord_supported hvalues).map fun document =>
    (Method.updateMany, filter ++ [("update", .document [("$set", .document document)])])).congr ?_
  rw [not_isUnsupported_iff, filter?_eq_clauses, hasCountOutOfRange_iff, hasFindClause_iff]
  simp only [Statement.values, hk]
  constructor
  · intro h'
    rcases h' with ⟨⟨hfilter, hclauses⟩, hvalues⟩
    exact ⟨hfilter, hvalues, by simp, by simpa using hclauses⟩
  · intro h'
    rcases h' with ⟨hfilter, hvalues, -, hclauses⟩
    exact ⟨⟨hfilter, by simpa using hclauses⟩, hvalues⟩

theorem destroy_supported {s : Statement} (h : s.validate = .ok ()) (hk : s.kind = .destroy) :
    SupportedWhen (¬ s.IsUnsupported) (arguments s) := by
  have hfilter := Criteria.filterArguments_supported s.kind (clauses_valid h)
  rw [arguments, hk]
  rw [hk] at hfilter
  apply (hfilter.map fun d => (Method.deleteMany, d)).congr
  rw [not_isUnsupported_iff, filter?_eq_clauses, hasCountOutOfRange_iff, hasFindClause_iff]
  simp [values, hk]

/-- A statement that obeys the rules is translated unless it asks for something MongoDB lacks. -/
theorem translate_supported {s : Statement} (h : s.validate = .ok ()) :
    SupportedWhen (¬ s.IsUnsupported) (translate s) := by
  have harguments : SupportedWhen (¬ s.IsUnsupported) (arguments s) := by
    cases hk : s.kind with
    | find => exact find_supported h hk
    | insert records => exact insert_supported h hk
    | update values => exact update_supported h hk
    | destroy => exact destroy_supported h hk
  -- Options are written over the arguments whatever they hold, so nothing is refused here.
  exact (harguments.bind fun _ _ => ok _).congr (by rw [and_true])

end NativeQuery

end DocQuery

import DocQuery.Proofs.Support

/-! Which predicate trees MongoDB can express: at each leaf, only known operators, none of them
native twice, and no huge integer among the operands. -/
namespace DocQuery

/-- The native operator that an operator is written as. -/
def Operator.native? : Operator → Option String
  | .lessThan => some "$lt"
  | .lessThanOrEqual => some "$lte"
  | .greaterThan => some "$gt"
  | .greaterThanOrEqual => some "$gte"
  | .notEqual => some "$ne"
  | .isIn => some "$in"
  | .notIn => some "$nin"
  | .like => some "$regex"
  | .contains => some "$regex"
  | .startsWith => some "$regex"
  | .endsWith => some "$regex"
  | .unrecognized _ => none

namespace Modifier

open SupportedWhen

/-- What of a modifier MongoDB can express on its own. -/
def IsExpressible (m : Modifier) : Prop :=
  m.operator.isRecognized = true ∧ ¬ m.operand.HoldsHuge

theorem comparison_supported {m : Modifier} (native : String)
    (h : DateLike.check m.operand = .ok ()) :
    SupportedWhen (¬ m.operand.HoldsHuge) (m.comparison native) :=
  (Bson.canonical_supported h).map fun b => (native, b)

theorem regex_supported {m : Modifier} (pattern : List Char → List Char)
    (h : m.operand.isString = true) :
    SupportedWhen (¬ m.operand.HoldsHuge) (m.regex pattern) := by
  obtain ⟨operator, operand⟩ := m
  cases operand with
  | string s => exact (ok _).congr (by simp)
  | _ => cases h

theorem native_supported {attr : String} {m : Modifier} (h : m.validate attr = .ok ()) :
    SupportedWhen m.IsExpressible m.native := by
  obtain ⟨haccepts, hdates⟩ := validate_eq_ok_iff.1 h
  unfold IsExpressible native
  obtain ⟨operator, operand⟩ := m
  cases operator with
  | unrecognized token => exact refused (by simp [Operator.isRecognized]) _
  | like | contains | startsWith | endsWith =>
    exact (regex_supported _ haccepts).congr (by simp [Operator.isRecognized])
  | _ => exact (comparison_supported _ (hdates rfl)).congr (by simp [Operator.isRecognized])

theorem native?_of_native {m : Modifier} {token : String} {b : Bson}
    (h : m.native = .ok (token, b)) : m.operator.native? = some token := by
  unfold native at h
  split at h <;> rename_i heq <;> rw [heq]
  case h_12 => cases h
  all_goals
    obtain ⟨c, -, hc⟩ := bind_eq_ok_iff.1 h
    cases hc
    rfl

end Modifier

namespace Filter

open SupportedWhen

/-- The native operators of a modifier map, in order. -/
def natives (ms : List Modifier) : List String := ms.filterMap fun m => m.operator.native?

/-- A modifier map becomes an operator document if each modifier is expressible and no native
operator comes twice, counting those that were seen before. -/
theorem operators_supported {attr : String} {ms : List Modifier}
    (h : ∀ m ∈ ms, m.validate attr = .ok ()) (seen : Entries String) :
    SupportedWhen ((∀ m ∈ ms, m.IsExpressible) ∧ (natives ms).Nodup ∧
      ∀ native ∈ natives ms, native ∉ seen.keys) (operators attr seen ms) := by
  induction ms generalizing seen with
  | nil => exact (ok []).congr (by simp [natives])
  | cons m ms ih =>
    rw [operators]
    have hm := Modifier.native_supported (h m (by simp))
    have hms := ih (fun m' h' => h m' (by simp [h']))
    obtain ⟨hexp, ⟨native, value⟩, hok⟩ | ⟨hexp, cause, herr⟩ := hm
    · have hnative := Modifier.native?_of_native hok
      rw [hok, ok_bind]
      cases hseen : seen.get? native with
      | some first =>
        simp only [hseen]
        refine refused (fun hall => ?_) _
        have hnone := Entries.get?_eq_none_iff.2 (hall.2.2 native (by simp [natives, hnative]))
        simp [hnone] at hseen
      | none =>
        simp only [hseen]
        have hfresh := Entries.get?_eq_none_iff.1 hseen
        apply ((hms (seen ++ [(native, m.operator.token)])).map ((native, value) :: ·)).congr
        simp only [natives, List.filterMap_cons, hnative, List.forall_mem_cons, List.nodup_cons,
          Entries.keys, List.map_append, List.map_cons, List.map_nil, List.mem_append,
          List.mem_singleton, not_or]
        constructor
        · rintro ⟨hall, hnodup, hnot⟩
          exact ⟨⟨hexp, hall⟩, ⟨fun hmem => (hnot native hmem).2 rfl, hnodup⟩, hfresh,
            fun t ht => (hnot t ht).1⟩
        · rintro ⟨⟨-, hall⟩, ⟨hmem, hnodup⟩, -, hnot⟩
          exact ⟨hall, hnodup, fun t ht => ⟨hnot t ht, fun heq => hmem (heq ▸ ht)⟩⟩
    · rw [herr, error_bind]
      exact refused (fun hall => hexp (hall.1 m (by simp))) cause

end Filter

namespace Predicate

/-- What of a leaf MongoDB can express. -/
def IsExpressible : Predicate → Prop
  | .equal _ value => ¬ value.HoldsHuge
  | .compare _ ms _ => (∀ m ∈ ms, m.IsExpressible) ∧ (Filter.natives ms).Nodup
  | _ => True

end Predicate

namespace Filter

open SupportedWhen

theorem equal_supported {attr : String} {value : Json}
    (h : (Predicate.equal attr value).validate = .ok ()) :
    SupportedWhen (Predicate.equal attr value).IsExpressible (ofPredicate (.equal attr value)) := by
  obtain ⟨-, -, hdates⟩ := Predicate.validate_equal_iff.1 h
  rw [ofPredicate]
  exact (Bson.canonical_supported (mapError_eq_ok_iff.1 hdates)).map fun b => [(attr, b)]

theorem compare_supported {attr : String} {ms : List Modifier} {opts : Option Dictionary}
    (h : (Predicate.compare attr ms opts).validate = .ok ()) :
    SupportedWhen (Predicate.compare attr ms opts).IsExpressible
      (ofPredicate (.compare attr ms opts)) := by
  obtain ⟨-, -, hms⟩ := Predicate.validate_compare_iff.1 h
  rw [ofPredicate]
  have hoperators := operators_supported hms []
  apply (hoperators.map fun d => [(attr, Bson.document (mountAll d opts))]).congr
  simp [Predicate.IsExpressible]

theorem children_supported {ps : List Predicate}
    (ih : ∀ p ∈ ps, p.validate = .ok () →
      SupportedWhen (∀ q ∈ p.leaves, q.IsExpressible) (ofPredicate p))
    (h : ∀ p ∈ ps, p.validate = .ok ()) :
    SupportedWhen (∀ q ∈ Predicate.leavesOfAll ps, q.IsExpressible) (ofPredicates ps) := by
  rw [ofPredicates_eq_mapM, Predicate.leavesOfAll_eq_flatMap]
  apply (SupportedWhen.mapM ps fun p hp => ih p hp (h p hp)).congr
  simp only [List.mem_flatMap, forall_exists_index, and_imp]
  exact ⟨fun h q p hp hq => h p hp q hq, fun h p hp q hq => h q p hp hq⟩

/-- A tree that obeys the rules is translated if each of its leaves can be expressed. -/
theorem ofPredicate_supported {p : Predicate} (h : p.validate = .ok ()) :
    SupportedWhen (∀ q ∈ p.leaves, q.IsExpressible) (ofPredicate p) := by
  induction p using Predicate.induction with
  | conj ps ih =>
    rw [ofPredicate]
    exact (children_supported ih (Predicate.validate_conj_iff.1 h).2).map conjunction
  | disj ps ih =>
    rw [ofPredicate]
    exact (children_supported ih (Predicate.validate_disj_iff.1 h).2).map disjunction
  | all ps ih =>
    rw [ofPredicate]
    exact (children_supported ih (Predicate.validate_all_iff.1 h).2).map joinAll
  | equal attr value => exact (equal_supported h).congr (by simp [Predicate.leaves])
  | compare attr ms opts => exact (compare_supported h).congr (by simp [Predicate.leaves])
  | annotated inner opts ih =>
    rw [ofPredicate, Predicate.leaves]
    exact (ih (Predicate.validate_annotated_iff.1 h)).map fun d => d.mount opts

end Filter

end DocQuery

import DocQuery.Proofs.Compilation.Exits
import DocQuery.Proofs.Predicate.Grammar

/-! The `where` clause of a find accepts the empty object and the nodes of the grammar, and nothing
else; whatever it rejects is malformed. -/
namespace DocQuery

/-- The smallest find that has a `where` clause. -/
def findWhere (name : String) (w : Json) : Json :=
  .object [("using", .string name), ("criteria", .object [("where", w)])]

namespace Statement

/-- A filter on its own, as the criteria of a statement; without one they count as absent. -/
def filterCriteria (filter : Option Predicate) : Option Criteria :=
  filter.map fun p => { filter := some p }

theorem criteria_ofJson_where (w : Json) :
    Criteria.ofJson (.object [("where", w)]) =
      (fun filter => { filter }) <$> Criteria.readFilter [("where", w)] := by
  rw [Criteria.ofJson]
  cases Criteria.readFilter [("where", w)] with
  | error flaw => rfl
  | ok filter => rfl

theorem ofJson_findWhere (name : String) (w : Json) :
    ofJson (findWhere name w) =
      (fun filter => ⟨name, .find, filterCriteria filter, none⟩) <$>
        Criteria.readFilter [("where", w)] := by
  have hcriteria : readCriteria [("using", .string name), ("criteria", .object [("where", w)])] =
      some <$> Criteria.ofJson (.object [("where", w)]) := rfl
  rw [findWhere, ofJson]
  rw [hcriteria, criteria_ofJson_where]
  cases Criteria.readFilter [("where", w)] with
  | error flaw => rfl
  | ok filter => cases filter <;> rfl

/-- The criteria of a filter obey the rules exactly if it does. -/
theorem filterCriteria_valid_iff {filter : Option Predicate} :
    (∀ c, filterCriteria filter = some c → c.validate = .ok ()) ↔
      ∀ p, filter = some p → p.validate = .ok () := by
  cases filter with
  | none => simp [filterCriteria]
  | some p => simp [filterCriteria, Criteria.validate_eq_ok_iff]

theorem findWhere_states_iff {name : String} {w : Json} :
    (∃ s, (findWhere name w).States s) ↔ name ≠ "" ∧
      ∃ filter, Criteria.readFilter [("where", w)] = .ok filter ∧
        ∀ p, filter = some p → p.validate = .ok () := by
  unfold Json.States
  rw [ofJson_findWhere]
  constructor
  · intro h
    rcases h with ⟨s, hs, hvalid⟩
    obtain ⟨filter, hfilter, rfl⟩ := map_eq_ok_iff.1 hs
    obtain ⟨hname, -, hcriteria⟩ := validate_eq_ok_iff.1 hvalid
    exact ⟨hname, filter, hfilter, filterCriteria_valid_iff.1 hcriteria⟩
  · intro h
    rcases h with ⟨hname, filter, hfilter, hvalid⟩
    refine ⟨_, map_eq_ok_iff.2 ⟨filter, hfilter, rfl⟩, ?_⟩
    exact validate_eq_ok_iff.2 ⟨hname, rfl, filterCriteria_valid_iff.2 hvalid⟩

/-- The empty object sets no condition; anything else must be a node. -/
theorem readFilter_accepted_iff {w : Json} :
    (∃ filter, Criteria.readFilter [("where", w)] = .ok filter ∧
      ∀ p, filter = some p → p.validate = .ok ()) ↔ w = .object [] ∨ Grammar.Node w := by
  by_cases hempty : w = .object []
  · subst hempty
    exact iff_of_true ⟨none, rfl, by simp⟩ (.inl rfl)
  · have hread : Criteria.readFilter [("where", w)] = some <$> Predicate.ofJson w := by
      cases w with
      | object members =>
        cases members with
        | nil => exact absurd rfl hempty
        | cons m members => rfl
      | _ => rfl
    rw [hread, ← Grammar.node_iff, or_iff_right hempty]
    constructor
    · intro h
      rcases h with ⟨filter, hfilter, hvalid⟩
      obtain ⟨p, hp, rfl⟩ := map_eq_ok_iff.1 hfilter
      exact ⟨p, hp, hvalid p rfl⟩
    · intro h
      rcases h with ⟨p, hp, hvalid⟩
      refine ⟨some p, map_eq_ok_iff.2 ⟨p, hp, rfl⟩, ?_⟩
      intro q hq
      cases hq
      exact hvalid

/-- The language of `where` is that of the grammar, and what is outside of it is malformed. -/
theorem where_grammar (name : String) (w : Json) (context : Option Dictionary) :
    let allowed := name ≠ "" ∧ (w = .object [] ∨ Grammar.Node w)
    ((∃ s, (findWhere name w).States s) ↔ allowed) ∧
      ((NativeQuery.compile (findWhere name w) (context.map Dictionary.toJson)).outcome =
        .error .malformed ↔ ¬ allowed) := by
  intro allowed
  have hstates : (∃ s, (findWhere name w).States s) ↔ allowed := by
    rw [findWhere_states_iff, readFilter_accepted_iff]
  refine ⟨hstates, ?_⟩
  rw [NativeQuery.outcome_malformed_iff, hstates]

end Statement

end DocQuery

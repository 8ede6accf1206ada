import DocQuery.Proofs.Predicate.Distinguished
import DocQuery.Proofs.Statement.Reading
import Mathlib

/-! The filter of a statement is read from a node, so it is a tree that JSON has a spelling for. -/
namespace DocQuery

/-- The condition that criteria set, which absent ones do not. -/
def Criteria.filterOf (criteria : Option Criteria) : Option Predicate :=
  criteria.bind Criteria.filter

namespace Statement

/-- The kind of a statement has no influence on its filter. -/
theorem filterOf_readKind {members : Entries Json} {criteria criteria' : Option Criteria}
    {kind : StatementKind} (h : readKind members criteria = .ok (kind, criteria')) :
    Criteria.filterOf criteria' = Criteria.filterOf criteria := by
  obtain rfl | ⟨projection, rfl⟩ := criteria_of_readKind h
  · rfl
  · cases criteria <;> rfl

end Statement

/-- The filter of criteria is read from a node within them. -/
theorem Criteria.node_of_ofJson {v : Json} {c : Criteria} {p : Predicate} (hv : v.KeysDistinct)
    (h : ofJson v = .ok c) (hp : c.filter = some p) :
    ∃ node : Json, node.KeysDistinct ∧ Predicate.ofJson node = .ok p := by
  cases v with
  | object members =>
    obtain ⟨-, hfilter, -⟩ := ofJson_eq_ok_iff.1 h
    rw [hp] at hfilter
    obtain ⟨node, hnode, hpred⟩ := node_of_readFilter hfilter
    exact ⟨node, Json.keysDistinct_of_get? hv hnode, hpred⟩
  | _ => cases h

namespace Statement

theorem node_of_readCriteria {members : List (String × Json)} {criteria : Option Criteria}
    {p : Predicate} (hv : (Json.object members).KeysDistinct)
    (h : readCriteria members = .ok criteria) (hp : Criteria.filterOf criteria = some p) :
    ∃ node : Json, node.KeysDistinct ∧ Predicate.ofJson node = .ok p := by
  obtain ⟨c, rfl, hfilter⟩ := Option.bind_eq_some_iff.1 hp
  cases hcriteria : Entries.get? members "criteria" with
  | none =>
    rw [readCriteria, hcriteria] at h
    cases h
  | some v =>
    rw [readCriteria, hcriteria] at h
    obtain ⟨c', hc, heq⟩ := map_eq_ok_iff.1 h
    cases heq
    exact Criteria.node_of_ofJson (Json.keysDistinct_of_get? hv hcriteria) hc hfilter

/-- The filter of a statement is read from a node within it. -/
theorem node_of_ofJson {v : Json} {s : Statement} {c : Criteria} {p : Predicate}
    (hv : v.KeysDistinct) (h : ofJson v = .ok s) (hc : s.criteria = some c)
    (hp : c.filter = some p) : ∃ node : Json, node.KeysDistinct ∧ Predicate.ofJson node = .ok p := by
  cases v with
  | object members =>
    obtain ⟨-, -, -, -, criteria, read, hcriteria, hkind, hset⟩ := ofJson_eq_ok_iff.1 h
    rw [hset] at hc
    have hfilter : Criteria.filterOf criteria = some p := by
      rw [← filterOf_readKind hkind, (Option.filter_eq_some_iff.1 hc).1]
      exact hp
    exact node_of_readCriteria hv hcriteria hfilter
  | _ => cases h

/-- Spellable trees are read back from their spellings, and they are all that a statement can have
for a filter that obeys the rules and keeps to the vocabulary. -/
theorem filter_spelling :
    (∀ p : Predicate, p.Spellable → Predicate.ofJson p.spelling = .ok p) ∧
      ∀ (v : Json) (s : Statement) (c : Criteria) (p : Predicate), v.KeysDistinct →
        ofJson v = .ok s → s.criteria = some c → c.filter = some p → p.validate = .ok () →
          p.Everywhere Predicate.IsInVocabulary → p.Spellable := by
  constructor
  · intro p h
    exact h.ofJson_spelling
  · intro v s c p hv hs hc hp hvalid hvocabulary
    obtain ⟨node, hnode, hread⟩ := node_of_ofJson hv hs hc hp
    exact ⟨hvalid, hvocabulary, Predicate.readsDistinguished node hnode p hread⟩

/-- A range and a list of names below an annotated node, with keys and tokens in no order. -/
def annotatedFind : Json :=
  .object [("using", .string "logs"), ("criteria", .object [("where", .object [
    ("opts", .object [("hint", .string "byHost")]),
    ("or", .array [.object [("time", .object [(">=", .string "p"), ("<", .string "q")])]]),
    ("host", .array [.string "a", .null])])])]

def annotatedTree : Predicate :=
  .annotated (.all [.isIn "host" [.string "a", .null],
    .disj [.compare "time" [⟨.lessThan, .string "q"⟩, ⟨.greaterThanOrEqual, .string "p"⟩] none]])
    (.ofList [("hint", .string "byHost")])

theorem annotatedFind_spelling :
    ofJson annotatedFind = .ok ⟨"logs", .find, some { filter := some annotatedTree }, none⟩ ∧
      annotatedTree.Spellable ∧ Predicate.ofJson annotatedTree.spelling = .ok annotatedTree := by
  have hdistinct : annotatedFind.KeysDistinct := by
    simp [annotatedFind, Json.keysDistinct_object_iff, Json.keysDistinct_array_iff, Entries.keys]
  have hread : ofJson annotatedFind =
      .ok ⟨"logs", .find, some { filter := some annotatedTree }, none⟩ := by
    cbv
  have hvocabulary : annotatedTree.Everywhere Predicate.IsInVocabulary := by
    simp [annotatedTree, Predicate.isIn, Predicate.modifier, Predicate.everywhere_annotated_iff,
      Predicate.everywhere_all_iff, Predicate.everywhere_disj_iff, Predicate.everywhere_compare_iff,
      Predicate.IsInVocabulary, Operator.isRecognized]
  have hspellable : annotatedTree.Spellable :=
    filter_spelling.2 annotatedFind _ _ _ hdistinct hread rfl rfl rfl hvocabulary
  exact ⟨hread, hspellable, filter_spelling.1 _ hspellable⟩

end Statement

end DocQuery

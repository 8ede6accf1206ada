import DocQuery.Proofs.Predicate.Spelling

/-! Nodes in which an attribute stands for a membership test. An array under an attribute is short for
the test written out, and a node is read the same with either. -/
namespace DocQuery

/-- A node with one array written out as the membership test that it is short for, in the node itself
or in one of those that it lists. -/
inductive Json.NodeRespelled : Json → Json → Prop
  | membership {before after : List (String × Json)} {attr : String} (values : List Json) :
      attr ∉ Predicate.reservedKeys →
      NodeRespelled (.object (before ++ (attr, .array values) :: after))
        (.object (before ++ (attr, .object [("in", .array values)]) :: after))
  | child {before after : List (String × Json)} {key : String} {first last : List Json}
      {v w : Json} : key = "and" ∨ key = "or" → NodeRespelled v w →
      NodeRespelled (.object (before ++ (key, .array (first ++ v :: last)) :: after))
        (.object (before ++ (key, .array (first ++ w :: last)) :: after))

theorem Json.NodeRespelled.ne_empty {v w : Json} (h : v.NodeRespelled w) :
    v ≠ .object [] ∧ w ≠ .object [] := by
  cases h <;> simp

namespace Predicate

/-- An array is short for a membership test. -/
theorem readClause_membership {attr : String} (h : attr ∉ reservedKeys) (values : List Json) :
    readClause attr (.object [("in", .array values)]) = readClause attr (.array values) := by
  have hdate : (Json.object [("in", .array values)]).isDateLike = false := by
    rfl
  have hmodifiers : readModifiers [("in", .array values)] = [⟨.isIn, .array values⟩] := by
    rw [readModifiers_eq_map, Entries.sorted_of_increasing (by simp [clauseMembers, optsKey])]
    rfl
  rw [readClause_of_attribute h, readClause_of_attribute h, ofAttribute_modifiers hdate, hmodifiers]
  rfl

/-- A list of nodes is read the same with one of them exchanged for another one that is. -/
theorem readClause_child {key : String} (hkey : key = "and" ∨ key = "or") {v w : Json}
    (h : (ofJson w).toOption = (ofJson v).toOption) (first last : List Json) :
    (readClause key (.array (first ++ w :: last))).toOption =
      (readClause key (.array (first ++ v :: last))).toOption := by
  have hrun := toOption_mapM_exchange h first last
  rw [readClause_array, readClause_array]
  rcases hkey with rfl | rfl
  · rw [if_pos rfl, if_pos rfl, toOption_map, toOption_map, hrun]
  · rw [if_neg (by decide), if_pos rfl, if_neg (by decide), if_pos rfl, toOption_map, toOption_map,
      hrun]

theorem readClauses_append_cons {key : String} (h : key ≠ optsKey) (before after : Entries Json)
    (v : Json) : readClauses (before ++ (key, v) :: after) =
      readClauses before ++ (key, readClause key v) :: readClauses after := by
  simp [readClauses_eq_map, clauseMembers, h]

/-- A node is read the same with one clause exchanged for another one that is. -/
theorem ofJson_exchange {key : String} (hkey : key ≠ optsKey) {v w : Json}
    (h : (readClause key w).toOption = (readClause key v).toOption) (before after : Entries Json) :
    (ofJson (.object (before ++ (key, w) :: after))).toOption =
      (ofJson (.object (before ++ (key, v) :: after))).toOption := by
  have hclauses : Entries.mapValues Except.toOption (readClauses (before ++ (key, w) :: after)) =
      Entries.mapValues Except.toOption (readClauses (before ++ (key, v) :: after)) := by
    simp [readClauses_append_cons hkey, Entries.mapValues, h]
  have hopts : readOpts (before ++ (key, w) :: after) = readOpts (before ++ (key, v) :: after) :=
    readOpts_congr (by simp [Entries.get?_append, Entries.get?_cons, hkey])
  rw [ofJson, ofJson, toOption_bind, toOption_bind, Entries.toOption_sequence_sorted, hclauses,
    ← Entries.toOption_sequence_sorted, hopts]
  congr 1
  funext clauses
  cases join? clauses.values <;> rfl

/-- Membership tests are read the same in both spellings, at any depth. -/
theorem ofJson_respelled {v w : Json} (h : v.NodeRespelled w) :
    (ofJson w).toOption = (ofJson v).toOption := by
  induction h with
  | membership values hattr =>
    apply ofJson_exchange
    · rintro rfl
      exact hattr (by decide)
    · rw [readClause_membership hattr]
  | child hkey _ ih =>
    apply ofJson_exchange
    · rcases hkey with rfl | rfl <;> decide
    · exact readClause_child hkey ih _ _

end Predicate

end DocQuery

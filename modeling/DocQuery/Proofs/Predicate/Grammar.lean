import DocQuery.Proofs.Json.Structure
import DocQuery.Proofs.Predicate.Leaves
import DocQuery.Proofs.Predicate.Reading

/-! The grammar of predicates in JSON, written down independently of the reader and of the rules.
What is read and then obeys the rules is exactly what the grammar generates. -/
namespace DocQuery

namespace Json

/-- Strings, numbers, booleans and null. -/
def IsPrimitive : Json → Prop
  | .array _ => False
  | .object _ => False
  | _ => True

/-- A date-like that has a canonical form. -/
def IsValidDate (v : Json) : Prop := ∃ text, DateLike.canonical v = .ok text

end Json

namespace Grammar

/-- What one attribute can be equal to. -/
def Scalar (v : Json) : Prop := v.IsPrimitive ∨ v.IsValidDate

/-- Options may stand next to the other members of an object, and are an object themselves. -/
def OptsAllowed (members : Entries Json) : Prop :=
  ∀ v, members.get? optsKey = some v → ∃ opts, v = .object opts

def orderTokens : List String := ["<", "<=", ">", ">="]

def membershipTokens : List String := ["in", "nin"]

def textTokens : List String := ["like", "contains", "startsWith", "endsWith"]

/-- What an operator token may stand in front of. -/
inductive Operand : String → Json → Prop
  | orderedString {token : String} (s : String) : token ∈ orderTokens → Operand token (.string s)
  | orderedNumber {token : String} (n : Number) : token ∈ orderTokens → Operand token (.number n)
  | orderedDate {token : String} {v : Json} : token ∈ orderTokens → v.IsValidDate → Operand token v
  | notEqual {v : Json} : Scalar v → Operand "!=" v
  | membership {token : String} {items : List Json} :
      token ∈ membershipTokens → (∀ item ∈ items, Scalar item) → Operand token (.array items)
  | text {token : String} (s : String) : token ∈ textTokens → Operand token (.string s)
  | unknown {token : String} (v : Json) : token ∉ orderTokens → token ≠ "!=" →
      token ∉ membershipTokens → token ∉ textTokens → Operand token v

/-- What may be said about one attribute. -/
inductive Attribute : Json → Prop
  | scalar {v : Json} : Scalar v → Attribute v
  | items {items : List Json} : (∀ item ∈ items, Scalar item) → Attribute (.array items)
  | modifiers {members : List (String × Json)} : (∀ inner, members ≠ [(dateKey, inner)]) →
      (∃ m ∈ members, m.1 ≠ optsKey) → OptsAllowed members →
      (∀ m ∈ members, m.1 ≠ optsKey → Operand m.1 m.2) → Attribute (.object members)

mutual

/-- A predicate: one clause or several, with options next to them or not. -/
inductive Node : Json → Prop
  | intro {members : List (String × Json)} : (∃ m ∈ members, m.1 ≠ optsKey) →
      "" ∉ Entries.keys members → OptsAllowed members →
      (∀ m ∈ members, m.1 ≠ optsKey → Clause m.1 m.2) → Node (.object members)

/-- What a key of a predicate may hold: further predicates, or a condition on an attribute. -/
inductive Clause : String → Json → Prop
  | nodes {key : String} {items : List Json} : key = "and" ∨ key = "or" → items ≠ [] →
      (∀ item ∈ items, Node item) → Clause key (.array items)
  | condition {key : String} {v : Json} : ¬ (key = "and" ∨ key = "or") → Attribute v → Clause key v

end

end Grammar

namespace Json

theorem isValidDate_iff {v : Json} :
    v.IsValidDate ↔ v.isDateLike = true ∧ DateLike.check v = .ok () := by
  unfold IsValidDate DateLike.canonical isDateLike
  cases hdate : v.date? with
  | none => simp
  | some inner =>
    cases v with
    | object members =>
      rw [DateLike.check, hdate]
      cases ht : DateLike.instant inner <;> simp [discard_eq_ok_iff, ht]
    | _ => cases hdate

theorem scalar_iff {v : Json} :
    v.isScalar = true ∧ DateLike.check v = .ok () ↔ Grammar.Scalar v := by
  rw [Grammar.Scalar, isValidDate_iff]
  cases v with
  | null | bool _ | number _ | string _ => simp [IsPrimitive, isScalar, DateLike.check]
  | array items => simp [IsPrimitive, isScalar, isDateLike, date?]
  | object members => simp [IsPrimitive, isScalar]

theorem scalarArray_iff {v : Json} :
    v.isScalarArray = true ∧ DateLike.check v = .ok () ↔
      ∃ items, v = .array items ∧ ∀ item ∈ items, Grammar.Scalar item := by
  cases v with
  | array items =>
    simp only [isScalarArray, List.all_eq_true, DateLike.check, DateLike.checkItems_eq_ok_iff,
      array.injEq, exists_eq_left', ← scalar_iff]
    exact ⟨fun h item hm => ⟨h.1 item hm, h.2 item hm⟩,
      fun h => ⟨fun item hm => (h item hm).1, fun item hm => (h item hm).2⟩⟩
  | _ => simp [isScalarArray]

theorem ordered_iff {v : Json} :
    v.isOrdered = true ∧ DateLike.check v = .ok () ↔
      (∃ s, v = .string s) ∨ (∃ n, v = .number n) ∨ v.IsValidDate := by
  rw [isValidDate_iff]
  cases v with
  | string s | number n => simp [isOrdered, DateLike.check]
  | _ => simp [isOrdered]

theorem isString_iff {v : Json} : v.isString = true ↔ ∃ s, v = .string s := by
  cases v <;> simp [isString]

end Json

namespace Grammar

theorem accepts_of_order {token : String} (h : token ∈ orderTokens) (v : Json) :
    (Operator.ofToken token).accepts v = v.isOrdered := by
  simp only [orderTokens, List.mem_cons, List.not_mem_nil, or_false] at h
  rcases h with rfl | rfl | rfl | rfl <;> rfl

theorem accepts_of_membership {token : String} (h : token ∈ membershipTokens) (v : Json) :
    (Operator.ofToken token).accepts v = v.isScalarArray := by
  simp only [membershipTokens, List.mem_cons, List.not_mem_nil, or_false] at h
  rcases h with rfl | rfl <;> rfl

theorem accepts_of_text {token : String} (h : token ∈ textTokens) (v : Json) :
    (Operator.ofToken token).accepts v = v.isString := by
  simp only [textTokens, List.mem_cons, List.not_mem_nil, or_false] at h
  rcases h with rfl | rfl | rfl | rfl <;> rfl

theorem ofToken_of_unknown {token : String} (horder : token ∉ orderTokens) (hne : token ≠ "!=")
    (hmembership : token ∉ membershipTokens) (htext : token ∉ textTokens) :
    Operator.ofToken token = .unrecognized token := by
  simp only [orderTokens, membershipTokens, textTokens, List.mem_cons, List.not_mem_nil, or_false,
    not_or] at horder hmembership htext
  unfold Operator.ofToken
  split <;> simp_all

/-- A modifier obeys the rules exactly if its token may stand in front of its operand. -/
theorem operand_iff {attr token : String} {v : Json} :
    (Modifier.mk (.ofToken token) v).validate attr = .ok () ↔ Operand token v := by
  rw [Modifier.validate_eq_ok_iff]
  constructor
  · intro h
    unfold Operator.ofToken at h
    split at h
    case h_1 | h_2 | h_3 | h_4 =>
      rcases Json.ordered_iff.1 ⟨h.1, h.2 rfl⟩ with ⟨s, rfl⟩ | ⟨n, rfl⟩ | hdate
      · exact .orderedString s (by decide)
      · exact .orderedNumber n (by decide)
      · exact .orderedDate (by decide) hdate
    case h_5 => exact .notEqual (Json.scalar_iff.1 ⟨h.1, h.2 rfl⟩)
    case h_6 | h_7 =>
      obtain ⟨items, rfl, hitems⟩ := Json.scalarArray_iff.1 ⟨h.1, h.2 rfl⟩
      exact .membership (by decide) hitems
    case h_8 | h_9 | h_10 | h_11 =>
      obtain ⟨s, rfl⟩ := Json.isString_iff.1 h.1
      exact .text s (by decide)
    case h_12 =>
      apply Operand.unknown <;> simp_all [orderTokens, membershipTokens, textTokens]
  · intro h
    cases h with
    | orderedString s htoken => exact ⟨accepts_of_order htoken _, fun _ => rfl⟩
    | orderedNumber n htoken => exact ⟨accepts_of_order htoken _, fun _ => rfl⟩
    | orderedDate htoken hdate =>
      have hordered := Json.ordered_iff.2 (.inr (.inr hdate))
      exact ⟨(accepts_of_order htoken v).trans hordered.1, fun _ => hordered.2⟩
    | notEqual hscalar =>
      have hvalue := Json.scalar_iff.2 hscalar
      exact ⟨hvalue.1, fun _ => hvalue.2⟩
    | membership htoken hitems =>
      have harray := Json.scalarArray_iff.2 ⟨_, rfl, hitems⟩
      exact ⟨(accepts_of_membership htoken _).trans harray.1, fun _ => harray.2⟩
    | text s htoken => exact ⟨accepts_of_text htoken _, fun _ => rfl⟩
    | unknown v horder hne hmembership htext =>
      rw [ofToken_of_unknown horder hne hmembership htext]
      exact ⟨rfl, fun h => by cases h⟩

theorem readOpts_isOk_iff {members : Entries Json} :
    (∃ opts, readOpts members = .ok opts) ↔ OptsAllowed members := by
  unfold readOpts OptsAllowed
  cases hv : members.get? optsKey with
  | none => simp
  | some v => cases v <;> simp [readDictionary]

/-- A reading that succeeds with a tree that obeys the rules. -/
def IsAccepted (read : Except StatementFlaw Predicate) : Prop :=
  ∃ p, read = .ok p ∧ p.validate = .ok ()

theorem isAccepted_ok_iff {p : Predicate} : IsAccepted (.ok p) ↔ p.validate = .ok () := by
  constructor
  · intro h
    rcases h with ⟨q, hq, hvalid⟩
    cases hq
    exact hvalid
  · intro hvalid
    exact ⟨p, rfl, hvalid⟩

/-- Options that can be read do not matter to the rules. -/
theorem withOpts_accepted_iff {members : Entries Json} {build : Option Dictionary → Predicate}
    {P : Prop} (h : ∀ opts, (build opts).validate = .ok () ↔ P) :
    IsAccepted (do return build (← readOpts members)) ↔ OptsAllowed members ∧ P := by
  rw [← readOpts_isOk_iff]
  cases hopts : readOpts members with
  | error flaw => simp [IsAccepted]
  | ok opts =>
    rw [ok_bind, pure_eq_ok, isAccepted_ok_iff, h]
    simp

theorem mem_readModifiers_iff {members : Entries Json} {x : Modifier} :
    x ∈ Predicate.readModifiers members ↔
      ∃ m ∈ members, m.1 ≠ optsKey ∧ x = ⟨.ofToken m.1, m.2⟩ := by
  rw [Predicate.readModifiers_eq_map]
  simp only [List.mem_map, (Entries.sorted_perm _).mem_iff, Predicate.mem_clauseMembers_iff,
    and_assoc, eq_comm (a := x)]

theorem equal_accepted_iff {attr : String} {v : Json} :
    (Predicate.equal attr v).validate = .ok () ↔ attr ≠ "" ∧ Scalar v := by
  rw [Predicate.validate_equal_iff, Json.checkDates, mapError_eq_ok_iff, Json.scalar_iff]

theorem isIn_accepted_iff {attr : String} {items : List Json} :
    (Predicate.isIn attr items).validate = .ok () ↔
      attr ≠ "" ∧ ∀ item ∈ items, Scalar item := by
  have hoperand : (Modifier.mk .isIn (.array items)).validate attr = .ok () ↔
      ∀ item ∈ items, Scalar item := by
    rw [Modifier.validate_eq_ok_iff]
    constructor
    · intro h
      obtain ⟨_, heq, hitems⟩ := (Json.scalarArray_iff (v := .array items)).1 ⟨h.1, h.2 rfl⟩
      cases heq
      exact hitems
    · intro hitems
      have harray := Json.scalarArray_iff.2 ⟨_, rfl, hitems⟩
      exact ⟨harray.1, fun _ => harray.2⟩
  rw [Predicate.isIn, Predicate.modifier, Predicate.validate_compare_iff]
  simp [hoperand]

theorem compare_accepted_iff {attr : String} {members : Entries Json} {opts : Option Dictionary} :
    (Predicate.compare attr (Predicate.readModifiers members) opts).validate = .ok () ↔
      attr ≠ "" ∧ (∃ m ∈ members, m.1 ≠ optsKey) ∧
        ∀ m ∈ members, m.1 ≠ optsKey → Operand m.1 m.2 := by
  have hsome : Predicate.readModifiers members ≠ [] ↔ ∃ m ∈ members, m.1 ≠ optsKey := by
    constructor
    · intro h
      obtain ⟨_, hx⟩ := List.exists_mem_of_ne_nil _ h
      obtain ⟨m, hm, hkey, -⟩ := mem_readModifiers_iff.1 hx
      exact ⟨m, hm, hkey⟩
    · intro h'
      rcases h' with ⟨m, hm, hkey⟩
      exact List.ne_nil_of_mem (mem_readModifiers_iff.2 ⟨m, hm, hkey, rfl⟩)
  rw [Predicate.validate_compare_iff, hsome]
  apply and_congr_right
  intro _
  apply and_congr_right
  intro _
  constructor
  · intro h m hm hkey
    exact operand_iff.1 (h _ (mem_readModifiers_iff.2 ⟨m, hm, hkey, rfl⟩))
  · intro h x hx
    obtain ⟨m, hm, hkey, rfl⟩ := mem_readModifiers_iff.1 hx
    exact operand_iff.2 (h m hm hkey)

theorem attribute_object_iff {members : List (String × Json)} :
    Attribute (.object members) ↔ (Json.object members).IsValidDate ∨
      ((∀ inner, members ≠ [(dateKey, inner)]) ∧ (∃ m ∈ members, m.1 ≠ optsKey) ∧
        OptsAllowed members ∧ ∀ m ∈ members, m.1 ≠ optsKey → Operand m.1 m.2) := by
  constructor
  · intro h
    cases h with
    | scalar hscalar => exact .inl (hscalar.resolve_left id)
    | modifiers hdate hsome hopts hoperands => exact .inr ⟨hdate, hsome, hopts, hoperands⟩
  · rintro (hdate | ⟨hdate, hsome, hopts, hoperands⟩)
    · exact .scalar (.inr hdate)
    · exact .modifiers hdate hsome hopts hoperands

theorem attribute_array_iff {items : List Json} :
    Attribute (.array items) ↔ ∀ item ∈ items, Scalar item := by
  constructor
  · intro h
    cases h with
    | scalar hscalar =>
      obtain ⟨text, htext⟩ := hscalar.resolve_left id
      cases htext
    | items hitems => exact hitems
  · exact .items

theorem attribute_primitive_iff {v : Json} (h : v.IsPrimitive) : Attribute v ↔ Scalar v :=
  ⟨fun _ => .inl h, .scalar⟩

/-- What is read for an attribute is accepted exactly if the grammar allows it. -/
theorem ofAttribute_accepted_iff {attr : String} {v : Json} :
    IsAccepted (Predicate.ofAttribute attr v) ↔ attr ≠ "" ∧ Attribute v := by
  cases v with
  | null | bool _ | number _ | string _ =>
    rw [Predicate.ofAttribute, isAccepted_ok_iff, equal_accepted_iff, attribute_primitive_iff]
    · trivial
    all_goals simp
  | array items =>
    rw [Predicate.ofAttribute, isAccepted_ok_iff, isIn_accepted_iff, attribute_array_iff]
  | object members =>
    rw [attribute_object_iff]
    cases hdate : (Json.object members).date? with
    | some inner =>
      have hmembers := Json.date?_eq_some_iff.1 hdate
      rw [Predicate.ofAttribute, if_pos (by rw [Json.isDateLike, hdate]; rfl), isAccepted_ok_iff,
        equal_accepted_iff]
      simp [Scalar, Json.IsPrimitive, hmembers]
    | none =>
      have hnot : ∀ inner, members ≠ [(dateKey, inner)] := by
        intro inner hmembers
        rw [Json.date?_eq_some_iff.2 hmembers] at hdate
        cases hdate
      have hinvalid : ¬ (Json.object members).IsValidDate := by
        simp [Json.isValidDate_iff, Json.isDateLike, hdate]
      rw [Predicate.ofAttribute, if_neg (by simp [Json.isDateLike, hdate]),
        withOpts_accepted_iff fun opts => compare_accepted_iff]
      constructor
      · intro h
        rcases h with ⟨hopts, hattr, hsome, hoperands⟩
        exact ⟨hattr, .inr ⟨hnot, hsome, hopts, hoperands⟩⟩
      · intro h
        rcases h with ⟨hattr, hdate | ⟨-, hsome, hopts, hoperands⟩⟩
        · exact absurd hdate hinvalid
        · exact ⟨hopts, hattr, hsome, hoperands⟩

/-- A list of nodes is accepted exactly if it is not empty and each of its nodes is. -/
theorem children_accepted_iff {join : List Predicate → Predicate} {items : List Json}
    (hjoin : ∀ ps, (join ps).validate = .ok () ↔ ps ≠ [] ∧ ∀ p ∈ ps, p.validate = .ok ()) :
    IsAccepted (join <$> items.mapM Predicate.ofJson) ↔
      items ≠ [] ∧ ∀ item ∈ items, IsAccepted (Predicate.ofJson item) := by
  unfold IsAccepted
  rw [← mapM_ok_nonempty_iff]
  constructor
  · intro h
    rcases h with ⟨p, hp, hvalid⟩
    obtain ⟨ps, hps, rfl⟩ := map_eq_ok_iff.1 hp
    exact ⟨ps, hps, (hjoin ps).1 hvalid⟩
  · intro h
    rcases h with ⟨ps, hps, hvalid⟩
    exact ⟨join ps, map_eq_ok_iff.2 ⟨ps, hps, rfl⟩, (hjoin ps).2 hvalid⟩

/-- All clauses of a node are read and obey the rules exactly if each of them is and does. -/
theorem clauses_accepted_iff {members : List (String × Json)} :
    (∃ clauses, (Entries.sorted (Predicate.readClauses members)).sequence = .ok clauses ∧
      clauses ≠ [] ∧ ∀ c ∈ clauses, c.2.validate = .ok ()) ↔ (∃ m ∈ members, m.1 ≠ optsKey) ∧
        ∀ m ∈ members, m.1 ≠ optsKey → IsAccepted (Predicate.readClause m.1 m.2) := by
  have hperm := Entries.sorted_perm (Predicate.clauseMembers members)
  have hsome : Entries.sorted (Predicate.clauseMembers members) ≠ [] ↔
      ∃ m ∈ members, m.1 ≠ optsKey := by
    rw [Ne, ← List.perm_nil, hperm.congr_left, List.perm_nil, Predicate.clauseMembers_eq_nil_iff]
    simp
  have hread (m : String × Json) : (∃ c, (fun p => (m.1, p)) <$> Predicate.readClause m.1 m.2 =
      .ok c ∧ c.2.validate = .ok ()) ↔ IsAccepted (Predicate.readClause m.1 m.2) := by
    constructor
    · intro h
      rcases h with ⟨c, hc, hvalid⟩
      obtain ⟨p, hp, rfl⟩ := map_eq_ok_iff.1 hc
      exact ⟨p, hp, hvalid⟩
    · intro h
      rcases h with ⟨p, hp, hvalid⟩
      exact ⟨(m.1, p), map_eq_ok_iff.2 ⟨p, hp, rfl⟩, hvalid⟩
  rw [Predicate.sequence_readClauses, mapM_ok_nonempty_iff, hsome]
  simp only [hread, hperm.mem_iff, Predicate.mem_clauseMembers_iff, and_imp]

/-- One clause stands for itself and several are joined, which the rules treat alike. -/
theorem join?_valid_iff {clauses : List Predicate} :
    (∃ p, Predicate.join? clauses = some p ∧ p.validate = .ok ()) ↔
      clauses ≠ [] ∧ ∀ p ∈ clauses, p.validate = .ok () := by
  match clauses with
  | [] => simp [Predicate.join?]
  | [p] => simp [Predicate.join?]
  | p :: q :: ps => simp [Predicate.join?, Predicate.validate_all_iff]

theorem annotate_valid_iff {p : Predicate} (opts : Option Dictionary) :
    (p.annotate opts).validate = .ok () ↔ p.validate = .ok () := by
  cases opts with
  | none => exact Iff.rfl
  | some opts => exact Predicate.validate_annotated_iff

theorem joined_accepted_iff {members : List (String × Json)} {clauses : List Predicate}
    {flaw : StatementFlaw} :
    IsAccepted (match Predicate.join? clauses with
      | some p => do return p.annotate (← readOpts members)
      | none => .error flaw) ↔
        OptsAllowed members ∧ clauses ≠ [] ∧ ∀ p ∈ clauses, p.validate = .ok () := by
  rw [← join?_valid_iff]
  cases Predicate.join? clauses with
  | none => simp [IsAccepted]
  | some p =>
    rw [withOpts_accepted_iff annotate_valid_iff]
    simp

/-- An object is accepted as a predicate exactly if its options are and each of its other members
is, of which there is one at least. -/
theorem ofJson_accepted_iff {members : List (String × Json)} :
    IsAccepted (Predicate.ofJson (.object members)) ↔
      (∃ m ∈ members, m.1 ≠ optsKey) ∧ OptsAllowed members ∧
        ∀ m ∈ members, m.1 ≠ optsKey → IsAccepted (Predicate.readClause m.1 m.2) := by
  rw [Predicate.ofJson]
  constructor
  · intro h
    rcases h with ⟨p, hp, hvalid⟩
    obtain ⟨clauses, hclauses, hp⟩ := bind_eq_ok_iff.1 hp
    obtain ⟨hopts, hne, hvalids⟩ := joined_accepted_iff.1 ⟨p, hp, hvalid⟩
    have hall := clauses_accepted_iff.1 ⟨clauses, hclauses, by simpa [Entries.values] using hne,
      fun c hc => hvalids c.2 (List.mem_map_of_mem hc)⟩
    exact ⟨hall.1, hopts, hall.2⟩
  · intro h
    rcases h with ⟨hsome, hopts, hall⟩
    obtain ⟨clauses, hclauses, hne, hvalids⟩ := clauses_accepted_iff.2 ⟨hsome, hall⟩
    have hvalues : Entries.values clauses ≠ [] := by simpa [Entries.values] using hne
    obtain ⟨p, hp, hvalid⟩ :=
      joined_accepted_iff.2 ⟨hopts, hvalues, List.forall_mem_map.2 hvalids⟩
    exact ⟨p, bind_eq_ok_iff.2 ⟨clauses, hclauses, hp⟩, hvalid⟩

theorem clause_nodes_iff {key : String} {v : Json} (hkey : key = "and" ∨ key = "or") :
    Clause key v ↔ ∃ items, v = .array items ∧ items ≠ [] ∧ ∀ item ∈ items, Node item := by
  constructor
  · intro h
    cases h with
    | nodes _ hne hitems => exact ⟨_, rfl, hne, hitems⟩
    | condition hnot hvalue => exact absurd hkey hnot
  · intro h'
    rcases h' with ⟨items, rfl, hne, hitems⟩
    exact .nodes hkey hne hitems

theorem clause_condition_iff {key : String} {v : Json} (hkey : ¬ (key = "and" ∨ key = "or")) :
    Clause key v ↔ Attribute v := by
  constructor
  · intro h
    cases h with
    | nodes hnodes hne hitems => exact absurd hnodes hkey
    | condition hnot hvalue => exact hvalue
  · exact .condition hkey

/-- A list of nodes under `and` or `or` is accepted exactly if it is not empty and its nodes are. -/
theorem readNodes_accepted_iff {key : String} {v : Json} (hkey : key = "and" ∨ key = "or") :
    IsAccepted (Predicate.readClause key v) ↔
      ∃ items, v = .array items ∧ items ≠ [] ∧
        ∀ item ∈ items, IsAccepted (Predicate.ofJson item) := by
  cases v with
  | array items =>
    rw [Predicate.readClause_array]
    rcases hkey with rfl | rfl
    · rw [if_pos rfl, children_accepted_iff fun ps => Predicate.validate_conj_iff]
      simp
    · rw [if_neg (by decide), if_pos rfl,
        children_accepted_iff fun ps => Predicate.validate_disj_iff]
      simp
  | _ => simp [Predicate.readClause, hkey, IsAccepted]

/-- One member is accepted exactly if the grammar allows it, given that this holds for the nodes
that it lists. -/
theorem readClause_accepted_iff {key : String} {v : Json}
    (ih : ∀ items, v = .array items → ∀ item ∈ items,
      (IsAccepted (Predicate.ofJson item) ↔ Node item)) :
    IsAccepted (Predicate.readClause key v) ↔ key ≠ "" ∧ Clause key v := by
  by_cases hkey : key = "and" ∨ key = "or"
  · have hname : key ≠ "" := by
      rcases hkey with rfl | rfl <;> decide
    rw [readNodes_accepted_iff hkey, clause_nodes_iff hkey]
    constructor
    · intro h
      rcases h with ⟨items, hv, hne, hitems⟩
      exact ⟨hname, items, hv, hne, fun item hm => (ih items hv item hm).1 (hitems item hm)⟩
    · intro h
      rcases h with ⟨-, items, hv, hne, hitems⟩
      exact ⟨items, hv, hne, fun item hm => (ih items hv item hm).2 (hitems item hm)⟩
  · rw [clause_condition_iff hkey, ← ofAttribute_accepted_iff]
    cases v with
    | array items =>
      rw [not_or] at hkey
      rw [Predicate.readClause_array, if_neg hkey.1, if_neg hkey.2]
    | _ => simp [Predicate.readClause, hkey]

theorem node_object_iff {members : List (String × Json)} :
    Node (.object members) ↔ (∃ m ∈ members, m.1 ≠ optsKey) ∧ "" ∉ Entries.keys members ∧
      OptsAllowed members ∧ ∀ m ∈ members, m.1 ≠ optsKey → Clause m.1 m.2 := by
  constructor
  · intro h
    cases h with
    | intro hsome hnames hopts hclauses => exact ⟨hsome, hnames, hopts, hclauses⟩
  · intro h'
    rcases h' with ⟨hsome, hnames, hopts, hclauses⟩
    exact .intro hsome hnames hopts hclauses

/-- A value is accepted as a predicate exactly if it is a node of the grammar. -/
theorem node_iff (v : Json) : IsAccepted (Predicate.ofJson v) ↔ Node v := by
  induction v using Json.nodeInduction with
  | other v hv =>
    refine iff_of_false ?_ ?_
    · intro h
      rcases h with ⟨p, hp, -⟩
      rw [Predicate.ofJson_of_not_object hv] at hp
      cases hp
    · intro h
      cases h with
      | intro => exact hv _ rfl
  | object members ih =>
    rw [ofJson_accepted_iff, node_object_iff]
    apply and_congr_right
    intro _
    have hclause (m : String × Json) (hm : m ∈ members) :
        IsAccepted (Predicate.readClause m.1 m.2) ↔ m.1 ≠ "" ∧ Clause m.1 m.2 :=
      readClause_accepted_iff (ih m hm)
    constructor
    · intro h'
      rcases h' with ⟨hopts, haccepted⟩
      have hnames : "" ∉ Entries.keys members := by
        intro hempty
        obtain ⟨m, hm, hname⟩ := List.mem_map.1 hempty
        have hkey : m.1 ≠ optsKey := by
          rw [hname]
          decide
        exact ((hclause m hm).1 (haccepted m hm hkey)).1 hname
      exact ⟨hnames, hopts, fun m hm hkey => ((hclause m hm).1 (haccepted m hm hkey)).2⟩
    · intro h'
      rcases h' with ⟨hnames, hopts, hclauses⟩
      refine ⟨hopts, fun m hm hkey => (hclause m hm).2 ⟨fun hname => ?_, hclauses m hm hkey⟩⟩
      exact hnames (List.mem_map.2 ⟨m, hm, hname⟩)

end Grammar

end DocQuery

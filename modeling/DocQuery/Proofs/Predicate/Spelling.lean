import DocQuery.Proofs.Json.Order
import DocQuery.Proofs.Predicate.Leaves
import DocQuery.Proofs.Predicate.Reading

/-! Predicate trees written in JSON. A tree that has a spelling is read back from it: keys, options
and the shapes of values keep the forms of nodes apart. -/
namespace DocQuery

/-- Options next to the other members of an object. -/
def withOpts (members : Entries Json) (opts : Option Dictionary) : Entries Json :=
  members ++ (opts.map fun o => (optsKey, o.toJson)).toList

namespace Predicate

def modifierMembers (modifiers : List Modifier) : Entries Json :=
  modifiers.map fun m => (m.operator.token, m.operand)

mutual

/-- The members of the object that a predicate is written as. -/
def members : Predicate → Entries Json
  | .conj children => [("and", .array (spellings children))]
  | .disj children => [("or", .array (spellings children))]
  | .all children => membersOfAll children
  | .equal attr value => [(attr, value)]
  | .compare attr modifiers opts => [(attr, .object (withOpts (modifierMembers modifiers) opts))]
  | .annotated inner opts => withOpts (members inner) (some opts)

def membersOfAll : List Predicate → Entries Json
  | [] => []
  | p :: ps => members p ++ membersOfAll ps

def spellings : List Predicate → List Json
  | [] => []
  | p :: ps => .object (members p) :: spellings ps

end

/-- The JSON value that a predicate is written as. -/
def spelling (p : Predicate) : Json := .object p.members

/-- A predicate occurs within itself and within each tree that has it below. -/
inductive Within (q : Predicate) : Predicate → Prop
  | self : Within q q
  | conj {children : List Predicate} {p : Predicate} :
      p ∈ children → Within q p → Within q (.conj children)
  | disj {children : List Predicate} {p : Predicate} :
      p ∈ children → Within q p → Within q (.disj children)
  | all {children : List Predicate} {p : Predicate} :
      p ∈ children → Within q p → Within q (.all children)
  | annotated {inner : Predicate} {opts : Dictionary} :
      Within q inner → Within q (.annotated inner opts)

/-- Something holds of each node of a tree. -/
def Everywhere (P : Predicate → Prop) (p : Predicate) : Prop := ∀ q, Within q p → P q

/-- Keys of a node that name no attribute. -/
def reservedKeys : List String := ["and", "or", optsKey]

/-- The one key that a predicate is written under; joined siblings and annotated nodes have none. -/
def key? : Predicate → Option String
  | .conj _ => some "and"
  | .disj _ => some "or"
  | .equal attr _ => some attr
  | .compare attr _ _ => some attr
  | _ => none

def isAnnotated : Predicate → Bool
  | .annotated _ _ => true
  | _ => false

/-- What keeps a node apart from all others when it is written: attributes are not reserved,
modifiers and siblings stand in the order of their keys without repetition, siblings are two or more
with one key each, and options are given once. -/
def IsDistinguished : Predicate → Prop
  | .equal attr _ => attr ∉ reservedKeys
  | .compare attr modifiers _ =>
      attr ∉ reservedKeys ∧ (modifiers.map fun m => m.operator.token).Pairwise (· < ·)
  | .all children =>
      2 ≤ children.length ∧
        ∃ keys : List String, children.map key? = keys.map some ∧ keys.Pairwise (· < ·)
  | .annotated inner _ => inner.isAnnotated = false
  | _ => True

/-- No operator of the node is outside of the vocabulary. -/
def IsInVocabulary : Predicate → Prop
  | .compare _ modifiers _ => ∀ m ∈ modifiers, m.operator.isRecognized = true
  | _ => True

/-- The trees that JSON has a spelling for. -/
structure Spellable (p : Predicate) : Prop where
  valid : p.validate = .ok ()
  vocabulary : p.Everywhere IsInVocabulary
  distinguished : p.Everywhere IsDistinguished

/-- The predicates that the members of one object stand for, one each. -/
def clauses : Predicate → List Predicate
  | .all children => children
  | .annotated inner _ => clauses inner
  | p => [p]

/-- Clauses that can share an object: each has a key of its own, and the keys increase. -/
structure AreSiblings (ps : List Predicate) (keys : List String) : Prop where
  keyed : ps.map key? = keys.map some
  increasing : keys.Pairwise (· < ·)
  noOpts : optsKey ∉ keys

/-- A clause is read from the member that it is written as. -/
def ReadsBack (p : Predicate) : Prop := ∀ m ∈ p.members, readClause m.1 m.2 = .ok p

section Everywhere

variable {P : Predicate → Prop}

theorem everywhere_conj_iff {children : List Predicate} :
    Everywhere P (.conj children) ↔ P (.conj children) ∧ ∀ p ∈ children, Everywhere P p := by
  constructor
  · intro h
    exact ⟨h _ .self, fun p hp q hq => h q (.conj hp hq)⟩
  · rintro ⟨hself, hchildren⟩ q (_ | ⟨hp, hq⟩)
    · exact hself
    · exact hchildren _ hp q hq

theorem everywhere_disj_iff {children : List Predicate} :
    Everywhere P (.disj children) ↔ P (.disj children) ∧ ∀ p ∈ children, Everywhere P p := by
  constructor
  · intro h
    exact ⟨h _ .self, fun p hp q hq => h q (.disj hp hq)⟩
  · rintro ⟨hself, hchildren⟩ q (_ | _ | ⟨hp, hq⟩)
    · exact hself
    · exact hchildren _ hp q hq

theorem everywhere_all_iff {children : List Predicate} :
    Everywhere P (.all children) ↔ P (.all children) ∧ ∀ p ∈ children, Everywhere P p := by
  constructor
  · intro h
    exact ⟨h _ .self, fun p hp q hq => h q (.all hp hq)⟩
  · rintro ⟨hself, hchildren⟩ q (_ | _ | _ | ⟨hp, hq⟩)
    · exact hself
    · exact hchildren _ hp q hq

theorem everywhere_equal_iff {attr : String} {value : Json} :
    Everywhere P (.equal attr value) ↔ P (.equal attr value) := by
  constructor
  · intro h
    exact h _ .self
  · rintro h q ⟨⟩
    exact h

theorem everywhere_compare_iff {attr : String} {modifiers : List Modifier}
    {opts : Option Dictionary} :
    Everywhere P (.compare attr modifiers opts) ↔ P (.compare attr modifiers opts) := by
  constructor
  · intro h
    exact h _ .self
  · rintro h q ⟨⟩
    exact h

theorem everywhere_annotated_iff {inner : Predicate} {opts : Dictionary} :
    Everywhere P (.annotated inner opts) ↔ P (.annotated inner opts) ∧ Everywhere P inner := by
  constructor
  · intro h
    exact ⟨h _ .self, fun q hq => h q (.annotated hq)⟩
  · rintro ⟨hself, hinner⟩ q (_ | _ | _ | _ | hq)
    · exact hself
    · exact hinner q hq

end Everywhere

namespace Spellable

theorem of_conj {children : List Predicate} (h : Spellable (.conj children)) :
    ∀ p ∈ children, p.Spellable := fun p hp =>
  ⟨(validate_conj_iff.1 h.valid).2 p hp, (everywhere_conj_iff.1 h.vocabulary).2 p hp,
    (everywhere_conj_iff.1 h.distinguished).2 p hp⟩

theorem of_disj {children : List Predicate} (h : Spellable (.disj children)) :
    ∀ p ∈ children, p.Spellable := fun p hp =>
  ⟨(validate_disj_iff.1 h.valid).2 p hp, (everywhere_disj_iff.1 h.vocabulary).2 p hp,
    (everywhere_disj_iff.1 h.distinguished).2 p hp⟩

theorem of_all {children : List Predicate} (h : Spellable (.all children)) :
    ∀ p ∈ children, p.Spellable := fun p hp =>
  ⟨(validate_all_iff.1 h.valid).2 p hp, (everywhere_all_iff.1 h.vocabulary).2 p hp,
    (everywhere_all_iff.1 h.distinguished).2 p hp⟩

theorem of_annotated {inner : Predicate} {opts : Dictionary} (h : Spellable (.annotated inner opts)) :
    inner.Spellable :=
  ⟨validate_annotated_iff.1 h.valid, (everywhere_annotated_iff.1 h.vocabulary).2,
    (everywhere_annotated_iff.1 h.distinguished).2⟩

end Spellable

theorem membersOfAll_singleton (p : Predicate) : membersOfAll [p] = p.members := by
  rw [membersOfAll, membersOfAll, List.append_nil]

/-- A predicate that is written under one key has one member. -/
theorem members_of_key? {p : Predicate} {key : String} (h : p.key? = some key) :
    ∃ v, p.members = [(key, v)] ∧ p.clauses = [p] ∧ p.isAnnotated = false := by
  cases p with
  | conj | disj | equal | compare =>
    cases h
    exact ⟨_, rfl, rfl, rfl⟩
  | all | annotated => cases h

theorem keys_membersOfAll {ps : List Predicate} {keys : List String}
    (h : ps.map key? = keys.map some) : Entries.keys (membersOfAll ps) = keys := by
  induction ps generalizing keys with
  | nil =>
    rw [List.map_nil, eq_comm, List.map_eq_nil_iff] at h
    exact h.symm
  | cons p ps ih =>
    match keys, h with
    | key :: keys, h =>
      rw [List.map_cons, List.map_cons, List.cons.injEq] at h
      obtain ⟨v, hmembers, -⟩ := members_of_key? h.1
      rw [membersOfAll, hmembers, List.singleton_append, Entries.keys_cons, ih h.2]

end Predicate

theorem readOpts_of_get? {members : Entries Json} {opts : Option Dictionary}
    (h : members.get? optsKey = opts.map Dictionary.toJson) : readOpts members = .ok opts := by
  rw [readOpts, h]
  cases opts with
  | none => rfl
  | some d =>
    rw [Option.map_some, Dictionary.toJson]
    simp only [readDictionary, Dictionary.ofList_entries, map_ok]

section Options

variable {members : Entries Json} (h : optsKey ∉ Entries.keys members) (opts : Option Dictionary)

include h

theorem clauseMembers_withOpts : Predicate.clauseMembers (withOpts members opts) = members := by
  have hmembers : members.filter (fun m => m.1 != optsKey) = members := by
    rw [List.filter_eq_self]
    intro m hm
    rw [bne_iff_ne]
    rintro hkey
    exact h (hkey ▸ List.mem_map_of_mem hm)
  rw [Predicate.clauseMembers, withOpts, List.filter_append, hmembers]
  cases opts <;> simp

theorem readOpts_withOpts : readOpts (withOpts members opts) = .ok opts := by
  apply readOpts_of_get?
  have hmembers : members.get? optsKey = none := Entries.get?_eq_none_iff.2 h
  rw [withOpts, Entries.get?_append, hmembers]
  cases opts <;> simp [Entries.get?_cons]

end Options

namespace Operator

theorem ofToken_token {operator : Operator} (h : operator.isRecognized = true) :
    ofToken operator.token = operator := by
  cases operator with
  | unrecognized token => cases h
  | _ => rfl

/-- The tokens of the vocabulary are no keys with a meaning of their own. -/
theorem token_ne {operator : Operator} (h : operator.isRecognized = true) :
    operator.token ≠ optsKey ∧ operator.token ≠ dateKey := by
  cases operator with
  | unrecognized token => cases h
  | _ => decide

end Operator

namespace Predicate

theorem mapM_membersOfAll {ps : List Predicate} {keys : List String}
    (hkeys : ps.map key? = keys.map some) (hread : ∀ p ∈ ps, p.ReadsBack) :
    ((membersOfAll ps).mapM fun m => (fun p => (m.1, p)) <$> readClause m.1 m.2) =
      .ok (keys.zip ps) := by
  induction ps generalizing keys with
  | nil => rw [List.zip_nil_right]; rfl
  | cons p ps ih =>
    match keys, hkeys with
    | key :: keys, hkeys =>
      rw [List.map_cons, List.map_cons, List.cons.injEq] at hkeys
      obtain ⟨v, hmembers, -⟩ := members_of_key? hkeys.1
      have hp : readClause key v = .ok p := hread p (by simp) (key, v) (by simp [hmembers])
      have hps := ih hkeys.2 fun q hq => hread q (by simp [hq])
      rw [membersOfAll, hmembers, List.singleton_append, List.mapM_cons, hp, hps]
      rfl

/-- Clauses that are read back one by one are read back from the object that holds them all. -/
theorem ofJson_withOpts {ps : List Predicate} {keys : List String} {p : Predicate}
    (h : AreSiblings ps keys) (hread : ∀ q ∈ ps, q.ReadsBack) (hjoin : join? ps = some p)
    (opts : Option Dictionary) :
    ofJson (.object (withOpts (membersOfAll ps) opts)) = .ok (p.annotate opts) := by
  have hnames : Entries.keys (membersOfAll ps) = keys := keys_membersOfAll h.keyed
  have hlength : ps.length = keys.length := by simpa using congrArg List.length h.keyed
  have hvalues : Entries.values (keys.zip ps) = ps := List.map_snd_zip (by omega)
  rw [ofJson, sequence_readClauses, clauseMembers_withOpts (hnames ▸ h.noOpts),
    Entries.sorted_of_increasing (hnames ▸ h.increasing), mapM_membersOfAll h.keyed hread, ok_bind,
    hvalues, hjoin, readOpts_withOpts (hnames ▸ h.noOpts)]
  rfl

/-- The key of a distinguished predicate is not the one that options are written under. -/
theorem ne_optsKey_of_key? {p : Predicate} {key : String} (h : p.key? = some key)
    (hp : p.IsDistinguished) : key ≠ optsKey := by
  have hreserved : ∀ attr, attr ∉ reservedKeys → attr ≠ optsKey := by
    rintro attr hattr rfl
    exact hattr (by decide)
  cases p with
  | conj | disj =>
    cases h
    decide
  | equal attr value =>
    cases h
    exact hreserved _ hp
  | compare attr modifiers opts =>
    cases h
    exact hreserved _ hp.1
  | all | annotated => cases h

/-- Without options of its own, a node is what its clauses are joined to. -/
theorem clauses_of_unannotated {p : Predicate} (h : p.Everywhere IsDistinguished)
    (hp : p.isAnnotated = false) :
    (∃ keys, AreSiblings p.clauses keys) ∧ join? p.clauses = some p ∧
      p.members = membersOfAll p.clauses := by
  by_cases hkey : ∃ key, p.key? = some key
  · obtain ⟨key, hkey⟩ := hkey
    obtain ⟨v, hmembers, hclauses, -⟩ := members_of_key? hkey
    have hopts : key ≠ optsKey := ne_optsKey_of_key? hkey (h p .self)
    rw [hclauses]
    exact ⟨⟨[key], by simp [hkey], by simp, by simpa using hopts.symm⟩, rfl,
      (membersOfAll_singleton p).symm⟩
  · cases p with
    | conj | disj | equal | compare => exact absurd ⟨_, rfl⟩ hkey
    | annotated inner opts => cases hp
    | all children =>
      obtain ⟨⟨htwo, keys, hkeys, hincreasing⟩, hchildren⟩ := everywhere_all_iff.1 h
      have hopts : optsKey ∉ keys := by
        intro hmem
        have hsome : some optsKey ∈ children.map key? := hkeys ▸ List.mem_map_of_mem hmem
        obtain ⟨child, hchild, hkey⟩ := List.mem_map.1 hsome
        exact ne_optsKey_of_key? hkey (hchildren child hchild child .self) rfl
      refine ⟨⟨keys, hkeys, hincreasing, hopts⟩, ?_, rfl⟩
      match children, htwo with
      | _ :: _ :: _, _ => rfl

/-- A node whose clauses are read back is read back itself. -/
theorem ofJson_spelling_of_clauses {p : Predicate} (h : p.Everywhere IsDistinguished)
    (hread : ∀ q ∈ p.clauses, q.ReadsBack) : ofJson p.spelling = .ok p := by
  cases hp : p.isAnnotated with
  | false =>
    obtain ⟨⟨keys, hsiblings⟩, hjoin, hmembers⟩ := clauses_of_unannotated h hp
    have hobject := ofJson_withOpts hsiblings hread hjoin none
    rw [spelling, hmembers]
    simpa [withOpts, annotate] using hobject
  | true =>
    cases p with
    | conj | disj | all | equal | compare => cases hp
    | annotated inner opts =>
      obtain ⟨hinner, hdistinguished⟩ := everywhere_annotated_iff.1 h
      obtain ⟨⟨keys, hsiblings⟩, hjoin, hmembers⟩ := clauses_of_unannotated hdistinguished hinner
      rw [spelling, members, hmembers]
      exact ofJson_withOpts hsiblings hread hjoin (some opts)

theorem readClause_of_attribute {attr : String} (h : attr ∉ reservedKeys) (v : Json) :
    readClause attr v = ofAttribute attr v := by
  simp only [reservedKeys, List.mem_cons, List.not_mem_nil, or_false, not_or] at h
  cases v with
  | array items => rw [readClause_array, if_neg h.1, if_neg h.2.1]
  | _ => simp [readClause, h.1, h.2.1]

theorem ofAttribute_scalar {attr : String} {v : Json} (h : v.isScalar = true) :
    ofAttribute attr v = .ok (.equal attr v) := by
  cases v with
  | array items => cases h
  | object members =>
    have hdate : (Json.object members).isDateLike = true := h
    rw [ofAttribute, if_pos hdate]
  | _ => rfl

theorem ofAttribute_modifiers {attr : String} {members : Entries Json}
    (h : (Json.object members).isDateLike = false) :
    ofAttribute attr (.object members) =
      (fun opts => .compare attr (readModifiers members) opts) <$> readOpts members := by
  rw [ofAttribute, h]
  cases readOpts members <;> rfl

section Modifiers

variable {modifiers : List Modifier}
  (hvocabulary : ∀ m ∈ modifiers, m.operator.isRecognized = true)

theorem keys_modifierMembers (modifiers : List Modifier) :
    Entries.keys (modifierMembers modifiers) = modifiers.map fun m => m.operator.token := by
  simp [Entries.keys, modifierMembers]

include hvocabulary

theorem optsKey_not_mem_modifierMembers :
    optsKey ∉ Entries.keys (modifierMembers modifiers) := by
  rw [keys_modifierMembers]
  intro hmem
  obtain ⟨m, hm, htoken⟩ := List.mem_map.1 hmem
  exact (Operator.token_ne (hvocabulary m hm)).1 htoken

theorem isDateLike_modifierMembers (hsome : modifiers ≠ []) (opts : Option Dictionary) :
    (Json.object (withOpts (modifierMembers modifiers) opts)).isDateLike = false := by
  cases hdate : (Json.object (withOpts (modifierMembers modifiers) opts)).date? with
  | none => rw [Json.isDateLike, hdate]; rfl
  | some inner =>
    have hmembers := Json.date?_eq_some_iff.1 hdate
    obtain ⟨m, ms, rfl⟩ := List.exists_cons_of_ne_nil hsome
    have hhead : m.operator.token = dateKey := by
      injection hmembers with hfirst
      exact congrArg Prod.fst hfirst
    exact absurd hhead (Operator.token_ne (hvocabulary m (by simp))).2

theorem readModifiers_withOpts
    (hincreasing : (modifiers.map fun m => m.operator.token).Pairwise (· < ·))
    (opts : Option Dictionary) :
    readModifiers (withOpts (modifierMembers modifiers) opts) = modifiers := by
  rw [readModifiers_eq_map, clauseMembers_withOpts (optsKey_not_mem_modifierMembers hvocabulary),
    Entries.sorted_of_increasing (by rwa [keys_modifierMembers]), modifierMembers, List.map_map]
  have hid : ∀ m ∈ modifiers, Modifier.mk (.ofToken m.operator.token) m.operand = m := by
    intro m hm
    rw [Operator.ofToken_token (hvocabulary m hm)]
  exact (List.map_congr_left hid).trans (List.map_id _)

end Modifiers

theorem readsBack_equal {attr : String} {value : Json} (hattr : attr ∉ reservedKeys)
    (hvalue : value.isScalar = true) : ReadsBack (.equal attr value) := by
  intro m hm
  rw [members, List.mem_singleton] at hm
  rw [hm, readClause_of_attribute hattr, ofAttribute_scalar hvalue]

theorem readsBack_compare {attr : String} {modifiers : List Modifier} (opts : Option Dictionary)
    (hattr : attr ∉ reservedKeys) (hsome : modifiers ≠ [])
    (hvocabulary : ∀ m ∈ modifiers, m.operator.isRecognized = true)
    (hincreasing : (modifiers.map fun m => m.operator.token).Pairwise (· < ·)) :
    ReadsBack (.compare attr modifiers opts) := by
  intro m hm
  rw [members, List.mem_singleton] at hm
  rw [hm, readClause_of_attribute hattr,
    ofAttribute_modifiers (isDateLike_modifierMembers hvocabulary hsome opts),
    readOpts_withOpts (optsKey_not_mem_modifierMembers hvocabulary),
    readModifiers_withOpts hvocabulary hincreasing]
  rfl

/-- The nodes that `and` and `or` list are read back from their spellings. -/
theorem mapM_spellings {children : List Predicate}
    (h : ∀ p ∈ children, ofJson p.spelling = .ok p) :
    (spellings children).mapM ofJson = .ok children := by
  induction children with
  | nil => rfl
  | cons p ps ih =>
    have hp : ofJson (.object p.members) = .ok p := h p (by simp)
    have hps := ih fun q hq => h q (by simp [hq])
    rw [spellings, List.mapM_cons, hp, hps]
    rfl

/-- The clauses of a spellable tree are read back, and so are those of the nodes below it. -/
theorem Spellable.clauses_readBack {p : Predicate} (h : p.Spellable) :
    ∀ q ∈ p.clauses, q.ReadsBack := by
  have hitems (children : List Predicate) (hchildren : ∀ q ∈ children, q.Spellable)
      (ih : ∀ q ∈ children, q.Spellable → ∀ r ∈ q.clauses, r.ReadsBack) :
      (spellings children).mapM ofJson = .ok children := by
    apply mapM_spellings
    intro q hq
    have hspellable := hchildren q hq
    exact ofJson_spelling_of_clauses hspellable.distinguished (ih q hq hspellable)
  induction p using Predicate.induction with
  | conj children ih =>
    simp only [clauses, List.mem_singleton, forall_eq, ReadsBack, members]
    rw [readClause_array, if_pos rfl, hitems children h.of_conj ih, map_ok]
  | disj children ih =>
    simp only [clauses, List.mem_singleton, forall_eq, ReadsBack, members]
    rw [readClause_array, if_neg (by decide), if_pos rfl, hitems children h.of_disj ih, map_ok]
  | all children ih =>
    intro q hq
    have hspellable := h.of_all q hq
    obtain ⟨-, keys, hkeys, -⟩ := (everywhere_all_iff.1 h.distinguished).1
    have hkey : q.key? ∈ keys.map some := hkeys ▸ List.mem_map_of_mem hq
    obtain ⟨key, -, hkey⟩ := List.mem_map.1 hkey
    obtain ⟨v, -, hclauses, -⟩ := members_of_key? hkey.symm
    exact ih q hq hspellable q (by simp [hclauses])
  | equal attr value =>
    have hvalid := validate_equal_iff.1 h.valid
    simp only [clauses, List.mem_singleton, forall_eq]
    exact readsBack_equal (everywhere_equal_iff.1 h.distinguished) hvalid.2.1
  | compare attr modifiers opts =>
    have hvalid := validate_compare_iff.1 h.valid
    obtain ⟨hattr, hincreasing⟩ := everywhere_compare_iff.1 h.distinguished
    simp only [clauses, List.mem_singleton, forall_eq]
    exact readsBack_compare opts hattr hvalid.2.1 (everywhere_compare_iff.1 h.vocabulary) hincreasing
  | annotated inner opts ih =>
    exact ih h.of_annotated

/-- A spellable tree is read back from its spelling. -/
theorem Spellable.ofJson_spelling {p : Predicate} (h : p.Spellable) : ofJson p.spelling = .ok p :=
  ofJson_spelling_of_clauses h.distinguished h.clauses_readBack

end Predicate

end DocQuery

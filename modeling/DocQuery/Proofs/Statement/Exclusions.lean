import DocQuery.Proofs.Compilation.Exits
import DocQuery.Proofs.Statement.Reading

/-! Clauses that exclude each other. They are told apart by what they constrain and not by being
written down: a clause without effect counts as absent, and then it excludes nothing. -/
namespace DocQuery

universe u

namespace Entries

variable {α : Type u}

/-- The entries of the other keys. -/
def erase (es : Entries α) (key : String) : Entries α := es.filter fun e => e.1 != key

theorem get?_erase (es : Entries α) (key k : String) :
    get? (erase es key) k = if key = k then none else get? es k := by
  induction es with
  | nil => simp [erase]
  | cons e es ih =>
    obtain ⟨k', v⟩ := e
    rw [erase, List.filter_cons, ← erase]
    by_cases hkey : k' = key
    · subst hkey
      rw [if_neg (by simp), ih, get?_cons]
      split <;> rfl
    · rw [if_pos (by simpa using hkey), get?_cons, get?_cons, ih]
      by_cases hk : k' = k
      · rw [if_pos hk, if_pos hk, if_neg (fun h => hkey (hk.trans h.symm))]
      · rw [if_neg hk, if_neg hk]

theorem keys_erase (es : Entries α) (key : String) :
    keys (erase es key) = (keys es).filter fun k => k != key := by
  rw [keys, keys, erase, List.filter_map]
  rfl

end Entries

/-- A key that is allowed may be left out without making another one the first unknown. -/
theorem firstUnknown?_erase {allowed : List String} {key : String} (h : key ∈ allowed)
    (members : Entries Json) :
    firstUnknown? allowed (members.erase key) = firstUnknown? allowed members := by
  rw [firstUnknown?, firstUnknown?, Entries.keys_erase, List.find?_filter]
  congr 1
  funext k
  by_cases hk : k = key
  · simp [hk, h]
  · simp [hk]

/-- A projection with a star among its names. -/
def Json.SelectsAll (v : Json) : Prop :=
  ∃ names : List String, v = .array (names.map .string) ∧ "*" ∈ names

theorem Json.selectsAll_names_iff {names : List String} :
    (Json.array (names.map .string)).SelectsAll ↔ "*" ∈ names := by
  have hinjective : ∀ a b, Json.string a = Json.string b → a = b := by
    intro a b h
    injection h
  constructor
  · rintro ⟨names', hnames, hstar⟩
    rw [Json.array.injEq, List.map_inj_right hinjective] at hnames
    rwa [hnames]
  · intro hstar
    exact ⟨names, rfl, hstar⟩

/-- An object of criteria without a clause that constrains anything. -/
def Json.IsVoid (criteria : Json) : Prop :=
  ∃ clauses : Entries Json, criteria = .object clauses ∧ ∀ key v, clauses.get? key = some v →
    key = "where" ∧ v = .object [] ∨ key = "sort" ∧ v = .array [] ∨
      key = "select" ∧ v.SelectsAll

namespace Criteria

variable {members : Entries Json}

theorem readFilter_eq_none_iff :
    readFilter members = .ok none ↔ ∀ v, members.get? "where" = some v → v = .object [] := by
  cases hv : members.get? "where" with
  | none => simp [readFilter, hv]
  | some v =>
    by_cases hempty : v = .object []
    · simp [readFilter, hv, hempty]
    · rw [readFilter_of_node hv hempty, map_eq_ok_iff]
      simp [hempty]

theorem readSort_eq_none_iff :
    readSort members = .ok none ↔ ∀ v, members.get? "sort" = some v → v = .array [] := by
  rw [readSort]
  cases members.get? "sort" with
  | none => simp
  | some v =>
    cases v with
    | array items =>
      simp only [bind_eq_ok_iff, pure_eq_ok, Except.ok.injEq, Option.some.injEq, forall_eq',
        Json.array.injEq]
      rw [← mapM_eq_ok_nil_iff (f := readSortEntry)]
      constructor
      · rintro ⟨entries, hentries, hnone⟩
        cases entries with
        | nil => exact hentries
        | cons e es => simp at hnone
      · intro h
        exact ⟨[], h, rfl⟩
    | _ => simp

theorem readCount_eq_none_iff {clause : String} :
    readCount members clause = .ok none ↔ members.get? clause = none := by
  rw [readCount]
  cases members.get? clause with
  | none => simp
  | some v =>
    dsimp only
    cases v.nat? <;> simp

theorem readProjection_eq_none_iff {clause : String} {v : Json} :
    readProjection clause v = .ok none ↔ v.SelectsAll := by
  simp [readProjection_eq_ok_iff, Json.SelectsAll]

theorem readSelect_eq_none_iff :
    readSelect members = .ok none ↔ ∀ v, members.get? "select" = some v → v.SelectsAll := by
  rw [readSelect]
  cases members.get? "select" with
  | none => simp
  | some v => simp [readProjection_eq_none_iff]

theorem readOpts_eq_none_iff :
    readOpts members = .ok none ↔ members.get? optsKey = none := by
  rw [readOpts]
  cases members.get? optsKey with
  | none => simp
  | some v => simp [map_eq_ok_iff]

/-- Criteria are read as empty exactly if none of their clauses has an effect. -/
theorem ofJson_eq_empty_iff {v : Json} : ofJson v = .ok empty ↔ v.IsVoid := by
  cases v with
  | object clauses =>
    rw [ofJson_eq_ok_iff, firstUnknown?_eq_none_iff]
    simp only [empty, readFilter_eq_none_iff, readSort_eq_none_iff, readCount_eq_none_iff,
      readSelect_eq_none_iff, readOpts_eq_none_iff, Json.IsVoid, Json.object.injEq,
      exists_eq_left']
    constructor
    · rintro ⟨hkeys, hwhere, hsort, hlimit, hskip, hselect, hopts⟩ key v hv
      have hkey : key ∈ clauseKeys := hkeys key (Entries.mem_keys_iff.2 ⟨v, hv⟩)
      simp only [clauseKeys, List.mem_cons, List.not_mem_nil, or_false] at hkey
      rcases hkey with rfl | rfl | rfl | rfl | rfl | rfl
      · exact .inl ⟨rfl, hwhere v hv⟩
      · exact .inr (.inl ⟨rfl, hsort v hv⟩)
      · simp [hlimit] at hv
      · simp [hskip] at hv
      · exact .inr (.inr ⟨rfl, hselect v hv⟩)
      · simp [show optsKey = "opts" from rfl, hv] at hopts
    · intro h
      have habsent : ∀ key, key ≠ "where" → key ≠ "sort" → key ≠ "select" →
          Entries.get? clauses key = none := by
        intro key hwhere hsort hselect
        cases hv : Entries.get? clauses key with
        | none => rfl
        | some v =>
          have hcase := h key v hv
          simp [hwhere, hsort, hselect] at hcase
      refine ⟨fun key hkey => ?_, fun v hv => by simpa using h "where" v hv,
        fun v hv => by simpa using h "sort" v hv, habsent _ (by decide) (by decide) (by decide),
        habsent _ (by decide) (by decide) (by decide), fun v hv => by simpa using h "select" v hv,
        habsent _ (by decide) (by decide) (by decide)⟩
      obtain ⟨v, hv⟩ := Entries.mem_keys_iff.1 hkey
      rcases h key v hv with ⟨rfl, -⟩ | ⟨rfl, -⟩ | ⟨rfl, -⟩ <;> simp [clauseKeys]
  | _ => simp [ofJson, Json.IsVoid]

/-- A projection that selects everything may be left out of the criteria. -/
theorem ofJson_erase_select {inner : Json} (hinner : members.get? "select" = some inner)
    (hall : inner.SelectsAll) :
    ofJson (.object (members.erase "select")) = ofJson (.object members) := by
  have hunknown : firstUnknown? clauseKeys (members.erase "select") =
      firstUnknown? clauseKeys members := firstUnknown?_erase (by decide) members
  have hget : ∀ key, "select" ≠ key → (members.erase "select").get? key = members.get? key := by
    intro key hkey
    rw [Entries.get?_erase, if_neg hkey]
  have hselect : readSelect members = .ok none := readSelect_eq_none_iff.2 (by simpa [hinner])
  have hselect' : readSelect (members.erase "select") = .ok none :=
    readSelect_eq_none_iff.2 (by simp [Entries.get?_erase])
  rw [ofJson, ofJson, hunknown, hselect, hselect', readFilter_congr (hget _ (by decide)),
    readSort_congr (hget _ (by decide)), readCount_congr (hget "limit" (by decide)),
    readCount_congr (hget "skip" (by decide)), readOpts_congr (hget _ (by decide))]

end Criteria

namespace Statement

variable {members : Entries Json}

/-- The kind of a statement and the criteria that constrain it. -/
def readClauses (members : Entries Json) :
    Except StatementFlaw (StatementKind × Option Criteria) := do
  let criteria ← readCriteria members
  let (kind, criteria) ← readKind members criteria
  return (kind, criteria.filter fun c => !c.isEmpty)

theorem ofJson_eq (members : Entries Json) :
    ofJson (.object members) = do
      if let some key := firstUnknown? keys members then throw (.unknownKey key)
      let kinds := kindKeys.filter (Entries.hasKey members)
      if 1 < kinds.length then throw (.severalKinds kinds)
      let collection ← readCollection members
      let (kind, criteria) ← readClauses members
      let opts ← readOpts members
      return ⟨collection, kind, criteria, opts⟩ := by
  rw [ofJson, readClauses]
  cases firstUnknown? keys members with
  | some key => rfl
  | none => simp only [bind_assoc, pure_bind]

theorem kinds_congr {members members' : Entries Json}
    (hget : ∀ key, "criteria" ≠ key → members'.get? key = members.get? key) :
    kindKeys.filter (Entries.hasKey members') = kindKeys.filter (Entries.hasKey members) := by
  apply List.filter_congr
  intro key hkey
  have hne : "criteria" ≠ key := by
    rintro rfl
    simp [kindKeys] at hkey
  rw [Bool.eq_iff_iff, Entries.hasKey_iff, Entries.hasKey_iff, hget key hne]

/-- The `criteria` key has an influence on what is read through the clauses alone. -/
theorem ofJson_congr {members members' : Entries Json}
    (hunknown : firstUnknown? keys members' = firstUnknown? keys members)
    (hget : ∀ key, "criteria" ≠ key → members'.get? key = members.get? key)
    (hclauses : ¬ 1 < (kindKeys.filter (Entries.hasKey members)).length →
      readClauses members' = readClauses members) :
    ofJson (.object members') = ofJson (.object members) := by
  rw [ofJson_eq, ofJson_eq, hunknown, kinds_congr hget, readCollection, readCollection,
    hget "using" (by decide), readOpts_congr (hget optsKey (by decide))]
  -- With several kinds the statement is rejected before any clause is read.
  by_cases hseveral : 1 < (kindKeys.filter (Entries.hasKey members)).length
  · simp only [if_pos hseveral, throw_eq_error, error_bind]
  · rw [hclauses hseveral]

theorem readKind_congr {members members' : Entries Json}
    (hget : ∀ key, "criteria" ≠ key → members'.get? key = members.get? key) :
    readKind members' = readKind members := by
  funext criteria
  rw [readKind, readKind, hget _ (by decide), hget _ (by decide), hget _ (by decide),
    hget _ (by decide)]

theorem readClauses_erase_select {clauses : Entries Json} {inner : Json}
    (hcriteria : members.get? "criteria" = some (.object clauses))
    (hinner : clauses.get? "select" = some inner) (hall : inner.SelectsAll) :
    readClauses (members.insert "criteria" (.object (clauses.erase "select"))) =
      readClauses members := by
  have hkind : readKind (members.insert "criteria" (.object (clauses.erase "select"))) =
      readKind members :=
    readKind_congr fun key hkey => by rw [Entries.get?_insert, if_neg hkey]
  have hread : readCriteria (members.insert "criteria" (.object (clauses.erase "select"))) =
      readCriteria members := by
    rw [readCriteria, readCriteria, Entries.get?_insert, if_pos rfl, hcriteria]
    dsimp only
    rw [Criteria.ofJson_erase_select hinner hall]
  rw [readClauses, readClauses, hread, hkind]

/-- A projection in the criteria that constrains anything leaves no room for one at the top level. -/
theorem not_read_of_select {outer inner : Json} {clauses : Entries Json}
    (houter : members.get? "select" = some outer)
    (hcriteria : members.get? "criteria" = some (.object clauses))
    (hinner : clauses.get? "select" = some inner) (hsome : ¬ inner.SelectsAll) (s : Statement) :
    ofJson (.object members) ≠ .ok s := by
  intro h
  obtain ⟨-, -, -, -, criteria, read, hread, hkind, -⟩ := ofJson_eq_ok_iff.1 h
  rw [readCriteria, hcriteria] at hread
  obtain ⟨c, hc, rfl⟩ := map_eq_ok_iff.1 hread
  obtain ⟨-, -, -, -, -, hselect, -⟩ := Criteria.ofJson_eq_ok_iff.1 hc
  have hset : c.select ≠ none := by
    intro hnone
    rw [hnone, Criteria.readSelect_eq_none_iff] at hselect
    exact hsome (hselect inner hinner)
  rw [readKind, houter] at hkind
  obtain ⟨projection, -, hkind⟩ := bind_eq_ok_iff.1 hkind
  obtain ⟨joined, hjoined, -⟩ := bind_eq_ok_iff.1 hkind
  rw [withProjection, Option.getD_some, if_pos (Option.isSome_iff_ne_none.2 hset)] at hjoined
  cases hjoined

/-- Of the kind keys, an insertion has its own only. -/
theorem readKind_of_insert {insert : Json} (hinsert : members.get? "insert" = some insert)
    (hkinds : ¬ 1 < (kindKeys.filter (Entries.hasKey members)).length)
    (criteria : Option Criteria) :
    readKind members criteria =
      (fun records => (.insert records, criteria)) <$> readRecords insert := by
  have hkey : members.hasKey "insert" = true := Entries.hasKey_iff.2 ⟨insert, hinsert⟩
  have hselect : members.get? "select" = none := by
    cases hselect : members.get? "select" with
    | none => rfl
    | some select =>
      have hkey' : members.hasKey "select" = true := Entries.hasKey_iff.2 ⟨select, hselect⟩
      exact absurd (by simp [kindKeys, List.filter_cons, hkey, hkey']) hkinds
  rw [readKind, hselect, hinsert]
  rfl

theorem readClauses_erase_criteria {insert criteria : Json}
    (hinsert : members.get? "insert" = some insert)
    (hcriteria : members.get? "criteria" = some criteria) (hvoid : criteria.IsVoid)
    (hkinds : ¬ 1 < (kindKeys.filter (Entries.hasKey members)).length) :
    readClauses (members.erase "criteria") = readClauses members := by
  have hkind : readKind (members.erase "criteria") = readKind members :=
    readKind_congr fun key hkey => by rw [Entries.get?_erase, if_neg hkey]
  have hread : readCriteria members = .ok (some Criteria.empty) := by
    rw [readCriteria, hcriteria]
    dsimp only
    rw [Criteria.ofJson_eq_empty_iff.2 hvoid, map_ok]
  have hread' : readCriteria (members.erase "criteria") = .ok none := by
    rw [readCriteria, Entries.get?_erase, if_pos rfl]
  rw [readClauses, readClauses, hread, hread', hkind, ok_bind, ok_bind,
    readKind_of_insert hinsert hkinds, readKind_of_insert hinsert hkinds]
  cases readRecords insert <;> rfl

/-- An insertion has no criteria that constrain anything. -/
theorem not_states_of_insert {insert criteria : Json}
    (hinsert : members.get? "insert" = some insert)
    (hcriteria : members.get? "criteria" = some criteria) (hsome : ¬ criteria.IsVoid)
    (s : Statement) : ¬ (Json.object members).States s := by
  intro hstates
  obtain ⟨-, hkinds, -, -, read, joined, hread, hkind, hset⟩ := ofJson_eq_ok_iff.1 hstates.1
  rw [readCriteria, hcriteria] at hread
  obtain ⟨c, hc, rfl⟩ := map_eq_ok_iff.1 hread
  have hnonempty : c.isEmpty ≠ true := by
    intro hempty
    rw [Criteria.isEmpty_iff.1 hempty] at hc
    exact hsome (Criteria.ofJson_eq_empty_iff.1 hc)
  rw [readKind_of_insert hinsert hkinds] at hkind
  obtain ⟨records, -, hpair⟩ := map_eq_ok_iff.1 hkind
  rw [Prod.mk.injEq] at hpair
  have hvalid := (validateKind_insert_iff hpair.1.symm).1 (validate_eq_ok_iff.1 hstates.2).2.1
  rw [hset, ← hpair.2] at hvalid
  simp [Option.filter, hnonempty] at hvalid

/-- Two projections, and criteria on an insertion, are malformed as soon as the criteria constrain
anything; a clause of them that does not counts as if it were not written. -/
theorem exclusion_by_effect (members : Entries Json) :
    (∀ (outer : Json) (clauses : Entries Json) (inner : Json),
      members.get? "select" = some outer → members.get? "criteria" = some (.object clauses) →
        clauses.get? "select" = some inner →
        (¬ inner.SelectsAll → ∃ flaw, ofJson (.object members) = .error flaw) ∧
        (inner.SelectsAll → ofJson (.object members) =
          ofJson (.object (members.insert "criteria" (.object (clauses.erase "select")))))) ∧
    ∀ insert criteria, members.get? "insert" = some insert →
      members.get? "criteria" = some criteria →
        (¬ criteria.IsVoid → ¬ ∃ s, (Json.object members).States s) ∧
        (criteria.IsVoid → ofJson (.object members) =
          ofJson (.object (members.erase "criteria"))) := by
  refine ⟨fun outer clauses inner houter hcriteria hinner => ⟨fun hsome => ?_, fun hall => ?_⟩,
    fun insert criteria hinsert hcriteria => ⟨fun hsome => ?_, fun hvoid => ?_⟩⟩
  · cases h : ofJson (.object members) with
    | error flaw => exact ⟨flaw, rfl⟩
    | ok s => exact absurd h (not_read_of_select houter hcriteria hinner hsome s)
  · refine (ofJson_congr ?_ (fun key hkey => by rw [Entries.get?_insert, if_neg hkey])
      fun _ => readClauses_erase_select hcriteria hinner hall).symm
    rw [firstUnknown?, firstUnknown?, Entries.keys_insert,
      if_pos (Entries.mem_keys_iff.2 ⟨_, hcriteria⟩)]
  · rintro ⟨s, hstates⟩
    exact not_states_of_insert hinsert hcriteria hsome s hstates
  · exact (ofJson_congr (firstUnknown?_erase (by decide) members)
      (fun key hkey => by rw [Entries.get?_erase, if_neg hkey])
      (readClauses_erase_criteria hinsert hcriteria hvoid)).symm

/-- Two projections, of which the one in the criteria is given. -/
def twiceSelected (inner : Json) : Entries Json :=
  [("using", .string "people"), ("select", .array [.string "name"]),
    ("criteria", .object [("select", inner)])]

/-- An insertion with criteria. -/
def narrowedInsert (criteria : Json) : Entries Json :=
  [("using", .string "people"), ("insert", .object [("a", .number (.int 1 (by decide)))]),
    ("criteria", criteria)]

theorem exclusion_of_named_and_limited :
    ((Entries.get? (twiceSelected (.array [.string "age"])) "select").isSome ∧
      ¬ (Json.array [.string "age"]).SelectsAll ∧
      ∃ flaw, ofJson (.object (twiceSelected (.array [.string "age"]))) = .error flaw) ∧
    ((Json.array [.string "*"]).SelectsAll ∧
      ofJson (.object (twiceSelected (.array [.string "*"]))) =
        ofJson (.object (Entries.insert (twiceSelected (.array [.string "*"])) "criteria"
          (.object [])))) ∧
    (¬ (Json.object [("limit", .null)]).IsVoid ∧
      ¬ ∃ s, (Json.object (narrowedInsert (.object [("limit", .null)]))).States s) ∧
    (Json.object [("where", .object [])]).IsVoid ∧
      ofJson (.object (narrowedInsert (.object [("where", .object [])]))) =
        ofJson (.object (Entries.erase (narrowedInsert (.object [("where", .object [])]))
          "criteria")) := by
  have hnamed : ¬ (Json.array [.string "age"]).SelectsAll := by
    rw [show [Json.string "age"] = ["age"].map .string from rfl, Json.selectsAll_names_iff]
    simp
  have hstarred : (Json.array [.string "*"]).SelectsAll := ⟨["*"], rfl, by simp⟩
  have hlimited : ¬ (Json.object [("limit", .null)]).IsVoid := by
    rw [← Criteria.ofJson_eq_empty_iff]
    rintro ⟨⟩
  have hvoid : (Json.object [("where", .object [])]).IsVoid := by
    rw [← Criteria.ofJson_eq_empty_iff]
    rfl
  exact ⟨⟨rfl, hnamed, ((exclusion_by_effect _).1 _ _ _ rfl rfl rfl).1 hnamed⟩,
    ⟨hstarred, ((exclusion_by_effect (twiceSelected (.array [.string "*"]))).1
      (.array [.string "name"]) [("select", .array [.string "*"])] _ rfl rfl rfl).2 hstarred⟩,
    ⟨hlimited, ((exclusion_by_effect _).2 _ _ rfl rfl).1 hlimited⟩,
    hvoid, ((exclusion_by_effect _).2 _ _ rfl rfl).2 hvoid⟩

/-- Clauses without effect are accepted where their keys exclude each other. -/
theorem void_clauses_accepted :
    ofJson (.object (twiceSelected (.array [.string "*"]))) =
      .ok ⟨"people", .find, some { select := some ["name"] }, none⟩ ∧
    ∃ record, (Json.object (narrowedInsert (.object []))).States
      ⟨"people", .insert (.one record), none, none⟩ :=
  ⟨rfl, _, rfl, rfl⟩

end Statement

end DocQuery

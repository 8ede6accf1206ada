import DocQuery.Proofs.Predicate.Shorthand
import DocQuery.Proofs.Statement.Exclusions

/-! Statements that are written in another way. Membership tests, sort directions and the projection
have two spellings each, and a clause without effect may be left out of the criteria; a statement is
read the same in all of them. -/
namespace DocQuery

universe u

/-- Entries with this value under a key, or without the key, and otherwise the same, in any order. -/
def Entries.Changed {α : Type u} (es : Entries α) (key : String) (value : Option α)
    (es' : Entries α) : Prop :=
  ∀ k, get? es' k = if key = k then value else get? es k

namespace Json

/-- A number of a sort direction and a word for it. -/
inductive DirectionRespelled : Json → Json → Prop
  | ascending {n : Number} {word : String} : n.int? = some 1 →
      Criteria.equalsIgnoringCase word "asc" = true → DirectionRespelled (.number n) (.string word)
  | descending {n : Number} {word : String} : n.int? = some (-1) →
      Criteria.equalsIgnoringCase word "desc" = true → DirectionRespelled (.number n) (.string word)

/-- Criteria with one part of a clause in another spelling, or without a clause that has no effect. -/
inductive CriteriaRespelled : Json → Json → Prop
  | node {clauses clauses' : Entries Json} {v w : Json} :
      clauses.get? "where" = some v → v.NodeRespelled w → clauses.Changed "where" (some w) clauses' →
      CriteriaRespelled (.object clauses) (.object clauses')
  | direction {clauses clauses' : Entries Json} {first last : List Json}
      {before after : List (String × Json)} {attr : String} {v w : Json} :
      clauses.get? "sort" =
        some (.array (first ++ .object (before ++ (attr, v) :: after) :: last)) →
      v.DirectionRespelled w →
      clauses.Changed "sort"
        (some (.array (first ++ .object (before ++ (attr, w) :: after) :: last))) clauses' →
      CriteriaRespelled (.object clauses) (.object clauses')
  | emptyNode {clauses clauses' : Entries Json} :
      clauses.get? "where" = some (.object []) → clauses.Changed "where" none clauses' →
      CriteriaRespelled (.object clauses) (.object clauses')
  | emptySort {clauses clauses' : Entries Json} :
      clauses.get? "sort" = some (.array []) → clauses.Changed "sort" none clauses' →
      CriteriaRespelled (.object clauses) (.object clauses')
  | fullSelect {clauses clauses' : Entries Json} {select : Json} :
      clauses.get? "select" = some select → select.SelectsAll →
      clauses.Changed "select" none clauses' →
      CriteriaRespelled (.object clauses) (.object clauses')

/-- One step from a spelling of a statement to another. The projection of a find goes into criteria
that have none, which are created if there are no criteria. -/
inductive Respelled : Json → Json → Prop
  | criteria {members members' : Entries Json} {v w : Json} :
      members.get? "criteria" = some v → v.CriteriaRespelled w →
      members.Changed "criteria" (some w) members' →
      Respelled (.object members) (.object members')
  | projection {members rest members' clauses clauses' : Entries Json} {select : Json} :
      (∀ key ∈ ["insert", "update", "delete"], members.get? key = none) →
      members.get? "select" = some select →
      (members.get? "criteria").getD (.object []) = .object clauses →
      clauses.get? "select" = none → clauses.Changed "select" (some select) clauses' →
      members.Changed "select" none rest →
      rest.Changed "criteria" (some (.object clauses')) members' →
      Respelled (.object members) (.object members')

end Json

namespace Entries

variable {α : Type u} {es es' : Entries α} {key : String} {value : Option α}

theorem changed_insert (es : Entries α) (key : String) (value : α) :
    es.Changed key (some value) (es.insert key value) :=
  get?_insert es key value

theorem changed_erase (es : Entries α) (key : String) : es.Changed key none (es.erase key) :=
  get?_erase es key

theorem Changed.get?_self (h : es.Changed key value es') : get? es' key = value := by
  rw [h key, if_pos rfl]

theorem Changed.get?_of_ne (h : es.Changed key value es') {k : String} (hk : key ≠ k) :
    get? es' k = get? es k := by
  rw [h k, if_neg hk]

end Entries

theorem isSome_firstUnknown?_iff {allowed : List String} {members : Entries Json} :
    (firstUnknown? allowed members).isSome = true ↔
      ∃ key, key ∉ allowed ∧ ∃ value, members.get? key = some value := by
  rw [firstUnknown?, List.find?_isSome]
  simp [Entries.mem_keys_iff, and_comm]

theorem isSome_firstUnknown?_congr {allowed : List String} {members members' : Entries Json}
    (h : ∀ key, key ∉ allowed → members'.get? key = members.get? key) :
    (firstUnknown? allowed members').isSome = (firstUnknown? allowed members).isSome := by
  rw [Bool.eq_iff_iff, isSome_firstUnknown?_iff, isSome_firstUnknown?_iff]
  apply exists_congr
  intro key
  apply and_congr_right
  intro hkey
  rw [h key hkey]

theorem Entries.Changed.isSome_firstUnknown? {allowed : List String} {members members' : Entries Json}
    {key : String} {value : Option Json} (h : members.Changed key value members')
    (hkey : key ∈ allowed) :
    (firstUnknown? allowed members').isSome = (firstUnknown? allowed members).isSome := by
  apply isSome_firstUnknown?_congr
  intro k hk
  apply h.get?_of_ne
  rintro rfl
  exact hk hkey

namespace Criteria

theorem direction?_respelled {v w : Json} (h : v.DirectionRespelled w) :
    direction? w = direction? v := by
  cases h with
  | ascending hn hword => simp [direction?, hn, hword]
  | @descending n word hn hword =>
    have hasc : equalsIgnoringCase word "asc" = false := by
      rw [equalsIgnoringCase, beq_iff_eq] at hword
      rw [equalsIgnoringCase, hword]
      rfl
    simp [direction?, hn, hword, hasc]

/-- An entry is an object of one member; with others next to it, it is none in either spelling. -/
theorem readSortEntry_respelled {v w : Json} (h : v.DirectionRespelled w)
    (before after : List (String × Json)) (attr : String) :
    (readSortEntry (.object (before ++ (attr, w) :: after))).toOption =
      (readSortEntry (.object (before ++ (attr, v) :: after))).toOption := by
  match before, after with
  | [], [] =>
    rw [List.nil_append, List.nil_append, readSortEntry, readSortEntry, direction?_respelled h]
    cases direction? v <;> rfl
  | [], _ :: _ => rfl
  | _ :: [], _ => rfl
  | _ :: _ :: _, _ => rfl

theorem readSort_of_array {members : Entries Json} {items : List Json}
    (h : members.get? "sort" = some (.array items)) :
    (readSort members).toOption = (items.mapM readSortEntry).toOption.map fun entries =>
      if entries.isEmpty then none else some entries := by
  rw [readSort, h]
  dsimp only
  cases items.mapM readSortEntry <;> rfl

section Changed

variable {clauses clauses' : Entries Json} {key : String} {value : Option Json}

/-- Criteria are read the same with one clause exchanged for another one that is. -/
theorem toOption_ofJson_changed (h : clauses.Changed key value clauses')
    (hkey : key ∈ ["where", "sort", "select"])
    (hfilter : key = "where" → (readFilter clauses').toOption = (readFilter clauses).toOption)
    (hsort : key = "sort" → (readSort clauses').toOption = (readSort clauses).toOption)
    (hselect : key = "select" → (readSelect clauses').toOption = (readSelect clauses).toOption) :
    (ofJson (.object clauses')).toOption = (ofJson (.object clauses)).toOption := by
  have hkeys : ["where", "sort", "select"] ⊆ clauseKeys := by
    decide
  have hother : ∀ k, k ∉ ["where", "sort", "select"] → clauses'.get? k = clauses.get? k := by
    intro k hk
    apply h.get?_of_ne
    rintro rfl
    exact hk hkey
  have hfilter' : (readFilter clauses').toOption = (readFilter clauses).toOption := by
    by_cases hwhere : key = "where"
    · exact hfilter hwhere
    · rw [readFilter_congr (h.get?_of_ne hwhere)]
  have hsort' : (readSort clauses').toOption = (readSort clauses).toOption := by
    by_cases hsortKey : key = "sort"
    · exact hsort hsortKey
    · rw [readSort_congr (h.get?_of_ne hsortKey)]
  have hselect' : (readSelect clauses').toOption = (readSelect clauses).toOption := by
    by_cases hselectKey : key = "select"
    · exact hselect hselectKey
    · rw [readSelect_congr (h.get?_of_ne hselectKey)]
  rw [toOption_ofJson, toOption_ofJson, h.isSome_firstUnknown? (hkeys hkey), hfilter', hsort',
    hselect', readCount_congr (hother "limit" (by decide)),
    readCount_congr (hother "skip" (by decide)), readOpts_congr (hother optsKey (by decide))]

/-- Criteria are read the same in all spellings. -/
theorem ofJson_respelled {v w : Json} (h : v.CriteriaRespelled w) :
    (ofJson w).toOption = (ofJson v).toOption := by
  cases h with
  | @node clauses clauses' v w hv hnode hchanged =>
    have hfilter : (readFilter clauses').toOption = (readFilter clauses).toOption := by
      rw [readFilter_of_node hchanged.get?_self hnode.ne_empty.2,
        readFilter_of_node hv hnode.ne_empty.1, toOption_map, toOption_map,
        Predicate.ofJson_respelled hnode]
    exact toOption_ofJson_changed hchanged (by simp) (fun _ => hfilter) (by simp) (by simp)
  | @direction clauses clauses' first last before after attr v w hv hdirection hchanged =>
    have hsort : (readSort clauses').toOption = (readSort clauses).toOption := by
      rw [readSort_of_array hchanged.get?_self, readSort_of_array hv,
        toOption_mapM_exchange (readSortEntry_respelled hdirection before after attr)]
    exact toOption_ofJson_changed hchanged (by simp) (by simp) (fun _ => hsort) (by simp)
  | @emptyNode clauses clauses' hv hchanged =>
    have hfilter : (readFilter clauses').toOption = (readFilter clauses).toOption := by
      rw [readFilter_eq_none_iff.2 (by simp [hchanged.get?_self]),
        readFilter_eq_none_iff.2 (by simp [hv])]
    exact toOption_ofJson_changed hchanged (by simp) (fun _ => hfilter) (by simp) (by simp)
  | @emptySort clauses clauses' hv hchanged =>
    have hsort : (readSort clauses').toOption = (readSort clauses).toOption := by
      rw [readSort_eq_none_iff.2 (by simp [hchanged.get?_self]),
        readSort_eq_none_iff.2 (by simp [hv])]
    exact toOption_ofJson_changed hchanged (by simp) (by simp) (fun _ => hsort) (by simp)
  | @fullSelect clauses clauses' select hv hall hchanged =>
    have hselect : (readSelect clauses').toOption = (readSelect clauses).toOption := by
      rw [readSelect_eq_none_iff.2 (by simp [hchanged.get?_self]),
        readSelect_eq_none_iff.2 (by simpa [hv])]
    exact toOption_ofJson_changed hchanged (by simp) (by simp) (by simp) (fun _ => hselect)

/-- The name of the clause is in the wording of failures only. -/
theorem toOption_readProjection (clause clause' : String) (v : Json) :
    (readProjection clause v).toOption = (readProjection clause' v).toOption := by
  apply Option.ext
  intro projection
  rw [toOption_eq_some_iff, toOption_eq_some_iff, readProjection_eq_ok_iff,
    readProjection_eq_ok_iff]

/-- A projection that is added to criteria without one is all that changes in them. -/
theorem toOption_ofJson_select {select : Json} (hnone : clauses.get? "select" = none)
    (h : clauses.Changed "select" (some select) clauses') (clause : String) :
    (ofJson (.object clauses')).toOption = (ofJson (.object clauses)).toOption.bind fun c =>
      (readProjection clause select).toOption.map fun names => { c with select := names } := by
  have hunknown := h.isSome_firstUnknown? (show "select" ∈ clauseKeys by decide)
  have hadded : (readSelect clauses').toOption = (readProjection clause select).toOption := by
    rw [readSelect, h.get?_self]
    exact toOption_readProjection _ _ _
  have habsent : readSelect clauses = .ok none := readSelect_eq_none_iff.2 (by simp [hnone])
  rw [toOption_ofJson, toOption_ofJson, hunknown, hadded, habsent,
    readFilter_congr (h.get?_of_ne (by decide)), readSort_congr (h.get?_of_ne (by decide)),
    readCount_congr (h.get?_of_ne (show "select" ≠ "limit" by decide)),
    readCount_congr (h.get?_of_ne (show "select" ≠ "skip" by decide)),
    readOpts_congr (h.get?_of_ne (by decide))]
  split
  · rfl
  · -- The names are read before the options in one spelling and after them in the other.
    have hlast : ∀ filter sort limit skip,
        ((readProjection clause select).toOption.bind fun names =>
          (readOpts clauses).toOption.bind fun opts =>
            some (Criteria.mk filter sort limit skip names opts)) =
        (readOpts clauses).toOption.bind fun opts =>
          (readProjection clause select).toOption.map fun names =>
            Criteria.mk filter sort limit skip names opts := by
      intro filter sort limit skip
      cases (readProjection clause select).toOption <;> cases (readOpts clauses).toOption <;> rfl
    simp only [Option.bind_assoc, hlast]
    rfl

end Changed

theorem select_of_ofJson {clauses : Entries Json} {c : Criteria}
    (hnone : clauses.get? "select" = none) (h : ofJson (.object clauses) = .ok c) :
    c.select = none := by
  have hselect : readSelect clauses = .ok c.select := (ofJson_eq_ok_iff.1 h).2.2.2.2.2.1
  rw [readSelect, hnone] at hselect
  injection hselect with heq
  exact heq.symm

end Criteria

namespace Statement

variable {members members' : Entries Json}

theorem toOption_ofJson_clauses (members : Entries Json) :
    (ofJson (.object members)).toOption =
      if (firstUnknown? keys members).isSome then none else
      if 1 < (kindKeys.filter (Entries.hasKey members)).length then none else
        (readCollection members).toOption.bind fun collection =>
        (readClauses members).toOption.bind fun clauses =>
        (readOpts members).toOption.bind fun opts =>
          some ⟨collection, clauses.1, clauses.2, opts⟩ := by
  rw [toOption_ofJson]
  simp only [readClauses, toOption_bind, Option.bind_assoc]
  rfl

/-- Criteria that are absent come to those without any clause. -/
theorem readCriteria_getD {clauses : Entries Json}
    (h : (members.get? "criteria").getD (.object []) = .object clauses) :
    (fun criteria : Option Criteria => criteria.getD Criteria.empty) <$> readCriteria members =
      Criteria.ofJson (.object clauses) := by
  rw [readCriteria]
  cases hcriteria : members.get? "criteria" with
  | none =>
    rw [hcriteria] at h
    cases h
    rfl
  | some v =>
    rw [hcriteria] at h
    cases h
    dsimp only
    cases Criteria.ofJson (.object clauses) <;> rfl

/-- The projection of a find is set in criteria that have none. -/
theorem readKind_select {criteria : Option Criteria} {select : Json}
    (hselect : members.get? "select" = some select)
    (hfree : (criteria.getD Criteria.empty).select = none) :
    readKind members criteria =
      (fun names => (.find, some { criteria.getD Criteria.empty with select := names })) <$>
        Criteria.readProjection "select" select := by
  have hjoined : ∀ names, withProjection criteria names =
      .ok (some { criteria.getD Criteria.empty with select := names }) := by
    intro names
    simp [withProjection, hfree]
  rw [readKind, hselect]
  simp only [hjoined]
  cases Criteria.readProjection "select" select <;> rfl

theorem toOption_readClauses_select {clauses : Entries Json} {select : Json}
    (hselect : members.get? "select" = some select)
    (hcriteria : (members.get? "criteria").getD (.object []) = .object clauses)
    (hnone : clauses.get? "select" = none) :
    (readClauses members).toOption = (Criteria.ofJson (.object clauses)).toOption.bind fun c =>
      (Criteria.readProjection "select" select).toOption.map fun names =>
        (.find, (some { c with select := names }).filter fun c => !c.isEmpty) := by
  have heffective := readCriteria_getD hcriteria
  cases hread : readCriteria members with
  | error flaw =>
    rw [hread, map_error] at heffective
    rw [readClauses, hread, ← heffective]
    rfl
  | ok criteria =>
    rw [hread, map_ok] at heffective
    have hfree : (criteria.getD Criteria.empty).select = none :=
      Criteria.select_of_ofJson hnone heffective.symm
    rw [readClauses, hread, ← heffective, ok_bind, readKind_select hselect hfree]
    cases Criteria.readProjection "select" select <;> rfl

theorem toOption_readClauses_find {v : Json} (hkinds : ∀ key ∈ kindKeys, members.get? key = none)
    (hcriteria : members.get? "criteria" = some v) :
    (readClauses members).toOption = (Criteria.ofJson v).toOption.map fun c =>
      (.find, (some c).filter fun c => !c.isEmpty) := by
  have hkind : ∀ criteria, readKind members criteria = .ok (.find, criteria) := by
    intro criteria
    rw [readKind, hkinds _ (by decide), hkinds _ (by decide), hkinds _ (by decide),
      hkinds _ (by decide)]
  rw [readClauses, readCriteria, hcriteria]
  simp only [hkind]
  cases Criteria.ofJson v <;> rfl

theorem length_kinds_le (h : ∀ key ∈ ["insert", "update", "delete"], members.get? key = none) :
    ¬ 1 < (kindKeys.filter (Entries.hasKey members)).length := by
  have habsent : ∀ key ∈ ["insert", "update", "delete"], members.hasKey key = false := by
    intro key hkey
    rw [Bool.eq_false_iff, Ne, Entries.hasKey_iff, h key hkey]
    simp
  have hothers : ["insert", "update", "delete"].filter (Entries.hasKey members) = [] := by
    rw [List.filter_eq_nil_iff]
    intro key hkey
    simp [habsent key hkey]
  rw [kindKeys, List.filter_cons, hothers]
  split <;> simp

theorem ofJson_criteria {v w : Json} (hv : members.get? "criteria" = some v)
    (hread : (Criteria.ofJson w).toOption = (Criteria.ofJson v).toOption)
    (h : members.Changed "criteria" (some w) members') :
    (ofJson (.object members')).toOption = (ofJson (.object members)).toOption := by
  have hget : ∀ key, "criteria" ≠ key → members'.get? key = members.get? key :=
    fun key hkey => h.get?_of_ne hkey
  have hcriteria : (readCriteria members').toOption = (readCriteria members).toOption := by
    rw [readCriteria, readCriteria, h.get?_self, hv]
    dsimp only
    rw [toOption_map, toOption_map, hread]
  rw [toOption_ofJson, toOption_ofJson, h.isSome_firstUnknown? (by decide), kinds_congr hget,
    readCollection, readCollection, hget "using" (by decide), hcriteria, readKind_congr hget,
    readOpts_congr (hget optsKey (by decide))]

theorem ofJson_projection {rest clauses clauses' : Entries Json} {select : Json}
    (hkinds : ∀ key ∈ ["insert", "update", "delete"], members.get? key = none)
    (hselect : members.get? "select" = some select)
    (hcriteria : (members.get? "criteria").getD (.object []) = .object clauses)
    (hnone : clauses.get? "select" = none) (hadded : clauses.Changed "select" (some select) clauses')
    (hremoved : members.Changed "select" none rest)
    (hset : rest.Changed "criteria" (some (.object clauses')) members') :
    (ofJson (.object members')).toOption = (ofJson (.object members)).toOption := by
  have hget : ∀ key, "select" ≠ key → "criteria" ≠ key → members'.get? key = members.get? key := by
    intro key hkey hkey'
    rw [hset.get?_of_ne hkey', hremoved.get?_of_ne hkey]
  have hselect' : members'.get? "select" = none := by
    rw [hset.get?_of_ne (by decide), hremoved.get?_self]
  have hkinds' : ∀ key ∈ kindKeys, members'.get? key = none := by
    intro key hkey
    rcases List.mem_cons.1 hkey with rfl | hothers
    · exact hselect'
    · have hne : "select" ≠ key ∧ "criteria" ≠ key := by
        constructor
        all_goals
          rintro rfl
          simp at hothers
      rw [hget key hne.1 hne.2, hkinds key hothers]
  have hunknown : (firstUnknown? keys members').isSome = (firstUnknown? keys members).isSome := by
    rw [hset.isSome_firstUnknown? (by decide), hremoved.isSome_firstUnknown? (by decide)]
  have hlength := length_kinds_le hkinds
  have hlength' := length_kinds_le fun key hkey => hkinds' key (List.mem_cons_of_mem _ hkey)
  have hclauses : (readClauses members').toOption = (readClauses members).toOption := by
    rw [toOption_readClauses_find hkinds' hset.get?_self,
      toOption_readClauses_select hselect hcriteria hnone,
      Criteria.toOption_ofJson_select hnone hadded "select", Option.map_bind]
    simp only [Option.map_map, Function.comp_def]
  rw [toOption_ofJson_clauses, toOption_ofJson_clauses, hunknown, if_neg hlength, if_neg hlength',
    readCollection, readCollection, hget "using" (by decide) (by decide), hclauses,
    readOpts_congr (hget optsKey (by decide) (by decide))]

/-- Statements are read the same in all spellings. -/
theorem ofJson_respelled {v w : Json} (h : v.Respelled w) :
    (ofJson w).toOption = (ofJson v).toOption := by
  cases h with
  | criteria hv hcriteria hchanged =>
    exact ofJson_criteria hv (Criteria.ofJson_respelled hcriteria) hchanged
  | projection hkinds hselect hcriteria hnone hadded hremoved hset =>
    exact ofJson_projection hkinds hselect hcriteria hnone hadded hremoved hset

end Statement

end DocQuery

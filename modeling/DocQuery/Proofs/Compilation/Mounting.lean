import DocQuery.Proofs.Compilation.Options

/-! What mounting options does to a query. It never decides whether there is one. Under each key the
options of the statement come before those of its criteria, and these before the arguments; the keys of
the arguments keep their order, and those that options add come after them. -/
namespace DocQuery

/-- Both fail with the same error, or both have results, which are related. -/
inductive SameOutcome {ε α β : Type} (R : α → β → Prop) : Except ε α → Except ε β → Prop
  | error (e : ε) : SameOutcome R (.error e) (.error e)
  | ok {a : α} {b : β} : R a b → SameOutcome R (.ok a) (.ok b)

/-- Of the keys that are given, those that are not present yet, in the order of code points. -/
structure FreshKeys (given present fresh : List String) : Prop where
  increasing : fresh.Pairwise (· < ·)
  mem_iff : ∀ key, key ∈ fresh ↔ key ∈ given ∧ key ∉ present

theorem FreshKeys.of_filter {given sorted : List String} (hsorted : sorted.Pairwise (· < ·))
    (hmem : ∀ key, key ∈ sorted ↔ key ∈ given) (present : List String) :
    FreshKeys given present (sorted.filter (· ∉ present)) where
  increasing := hsorted.filter _
  mem_iff key := by rw [List.mem_filter, hmem, decide_eq_true_eq]

theorem FreshKeys.congr {given present present' fresh : List String}
    (h : FreshKeys given present fresh) (hmem : ∀ key, key ∈ present ↔ key ∈ present') :
    FreshKeys given present' fresh where
  increasing := h.increasing
  mem_iff key := by rw [h.mem_iff, hmem]

/-- The keys of options, if there are any. -/
def optionKeys (opts : Option Dictionary) : List String := (opts.map Dictionary.keys).getD []

theorem Document.keys_mount (d : Document) (opts : Dictionary) :
    Entries.keys (d.mount opts) =
      Entries.keys d ++ opts.sortedEntries.keys.filter (· ∉ Entries.keys d) := by
  rw [mount_eq, Entries.keys_insertAll_of_nodup opts.keys_nodup_verbatim, Entries.keys_mapValues]

/-- Options leave the keys that are there where they are and add their own ones. -/
theorem Filter.keys_mountAll (d : Document) (opts : Option Dictionary) :
    ∃ fresh, FreshKeys (optionKeys opts) (Entries.keys d) fresh ∧
      Entries.keys (mountAll d opts) = Entries.keys d ++ fresh := by
  cases opts with
  | none => exact ⟨[], ⟨.nil, by simp [optionKeys]⟩, (List.append_nil _).symm⟩
  | some opts =>
    refine ⟨_, .of_filter (Entries.keys_sorted_increasing opts.distinct) (fun key => ?_) _,
      d.keys_mount opts⟩
    exact (Entries.keys_perm (Entries.sorted_perm opts.entries)).mem_iff

/-- The same statement without options of its own and of its criteria. Those within the filter stay. -/
def Statement.unmounted (s : Statement) : Statement :=
  { s with criteria := s.criteria.map fun c => { c with opts := none }, opts := none }

namespace NativeQuery

/-- The query is the plain one with the options of the statement and of its criteria over it. -/
structure MountedOver (s : Statement) (plain q : NativeQuery) : Prop where
  collection : q.collection = plain.collection
  method : q.method = plain.method
  get? : ∀ key, q.query.get? key =
    ((s.option? key).map Bson.verbatim).or (plain.query.get? key)
  keys : ∃ ofCriteria ofStatement,
    FreshKeys (optionKeys (s.criteria.bind Criteria.opts)) plain.query.keys ofCriteria ∧
    FreshKeys (optionKeys s.opts)
      (plain.query.keys ++ optionKeys (s.criteria.bind Criteria.opts)) ofStatement ∧
    q.query.keys = plain.query.keys ++ ofCriteria ++ ofStatement

theorem mountedOver_mountAll (s : Statement) (plain : NativeQuery) :
    MountedOver s plain { plain with
      query := Filter.mountAll (Filter.mountAll plain.query (s.criteria.bind Criteria.opts))
        s.opts } where
  collection := rfl
  method := rfl
  get? key := by
    rw [Filter.get?_mountAll, Filter.get?_mountAll, ← Option.or_assoc, ← Option.map_or,
      Statement.option?]
  keys := by
    obtain ⟨ofCriteria, hcriteria, hkeys⟩ :=
      Filter.keys_mountAll plain.query (s.criteria.bind Criteria.opts)
    obtain ⟨ofStatement, hstatement, hall⟩ := Filter.keys_mountAll
      (Filter.mountAll plain.query (s.criteria.bind Criteria.opts)) s.opts
    refine ⟨ofCriteria, ofStatement, hcriteria, hstatement.congr fun key => ?_, by rw [hall, hkeys]⟩
    -- What is there for the second mounting: the arguments and every option of the criteria.
    rw [hkeys, List.mem_append, List.mem_append, hcriteria.mem_iff]
    tauto

/-- Arguments are made without a look at options. -/
theorem arguments_unmounted (s : Statement) : arguments s.unmounted = arguments s := by
  obtain ⟨collection, kind, criteria, opts⟩ := s
  cases criteria with
  | none => rfl
  | some c => rfl

theorem translate_eq_map (s : Statement) :
    translate s = (arguments s).map fun a => ⟨s.collection, a.1,
      Filter.mountAll (Filter.mountAll a.2 (s.criteria.bind Criteria.opts)) s.opts⟩ := by
  rw [translate]
  cases arguments s <;> rfl

theorem translate_unmounted (s : Statement) :
    translate s.unmounted = (arguments s).map fun a => ⟨s.collection, a.1, a.2⟩ := by
  have hcriteria : s.unmounted.criteria.bind Criteria.opts = none := by
    unfold Statement.unmounted
    cases s.criteria <;> rfl
  rw [translate_eq_map, arguments_unmounted, hcriteria]
  rfl

/-- A statement is translated exactly if it is without its options, with the same error otherwise. The
result differs in what these options write over the arguments, and where. -/
theorem translate_mounted (s : Statement) :
    SameOutcome (MountedOver s) (translate s.unmounted) (translate s) := by
  rw [translate_unmounted, translate_eq_map]
  cases arguments s with
  | error e => exact .error e
  | ok a => exact .ok (mountedOver_mountAll s ⟨s.collection, a.1, a.2⟩)

/-- A limit among the arguments and the options of the criteria, and a hint in both options. -/
def limitedTwice : Statement where
  collection := "people"
  kind := .find
  criteria := some {
    limit := some 5
    opts := some (.ofList [("limit", .null), ("hint", .null)]) }
  opts := some (.ofList [("hint", .bool true)])

example : (translate limitedTwice).map query = .ok [("limit", .null), ("hint", .bool true)] := by
  cbv

end NativeQuery

end DocQuery

import DocQuery.Proofs.Bson
import DocQuery.Proofs.Compilation.Exits
import DocQuery.Proofs.Statement.Options

/-! Options are passed through. What they hold decides neither whether a statement compiles nor how it
fails to, and in the query it stands as it was given. -/
namespace DocQuery

/-- The document holds the options as they were given: converted to BSON without regard to dates. -/
def Document.Holds (d : Document) (opts : Dictionary) : Prop :=
  ∀ key value, opts.get? key = some value → d.get? key = some (Bson.verbatim value)

theorem Document.mount_eq (d : Document) (opts : Dictionary) :
    d.mount opts = Entries.insertAll d (Entries.mapValues Bson.verbatim opts.sortedEntries) := by
  rw [mount, Bson.verbatimMembers_eq_mapValues, Entries.sorted_mapValues, Dictionary.sortedEntries]

theorem Dictionary.keys_nodup_verbatim (opts : Dictionary) :
    (Entries.keys (Entries.mapValues Bson.verbatim opts.sortedEntries)).Nodup := by
  rw [Entries.keys_mapValues]
  exact Entries.keys_nodup_sorted opts.distinct

theorem Document.get?_mount (d : Document) (opts : Dictionary) (key : String) :
    (d.mount opts).get? key = ((opts.get? key).map Bson.verbatim).or (d.get? key) := by
  have hsorted : opts.sortedEntries.get? key = opts.get? key :=
    (Entries.get?_eq_of_perm opts.distinct (Entries.sorted_perm _).symm key).symm
  rw [mount_eq, Entries.get?_insertAll opts.keys_nodup_verbatim, Entries.get?_mapValues, hsorted]

theorem Document.holds_mount (d : Document) (opts : Dictionary) : (d.mount opts).Holds opts := by
  intro key value hvalue
  rw [get?_mount, hvalue, Option.map_some, Option.some_or]

theorem Filter.get?_mountAll (d : Document) (opts : Option Dictionary) (key : String) :
    (mountAll d opts).get? key =
      ((opts.bind fun o => o.get? key).map Bson.verbatim).or (d.get? key) := by
  cases opts with
  | none => rfl
  | some opts => exact d.get?_mount opts key

theorem Filter.holds_of_annotated {p : Predicate} {opts : Dictionary} {d : Document}
    (h : ofPredicate (.annotated p opts) = .ok d) : d.Holds opts := by
  rw [ofPredicate] at h
  obtain ⟨inner, -, heq⟩ := bind_eq_ok_iff.1 h
  cases heq
  exact inner.holds_mount opts

theorem Filter.holds_of_compare {attr : String} {ms : List Modifier} {opts : Dictionary}
    {d : Document} (h : ofPredicate (.compare attr ms (some opts)) = .ok d) :
    ∃ operators : Document, d = [(attr, .document operators)] ∧ operators.Holds opts := by
  rw [ofPredicate] at h
  obtain ⟨operators, -, heq⟩ := bind_eq_ok_iff.1 h
  cases heq
  exact ⟨_, rfl, operators.holds_mount opts⟩

theorem Criteria.validate_cleared_iff {c : Criteria} :
    c.cleared.validate = .ok () ↔ c.validate = .ok () :=
  validate_mapParts_iff Predicate.validate_cleared_iff

namespace Statement

/-- What the options of a statement and of its criteria hold under a key. Those of the statement come
first. -/
def option? (s : Statement) (key : String) : Option Json :=
  (s.opts.bind fun opts => opts.get? key).or
    ((s.criteria.bind Criteria.opts).bind fun opts => opts.get? key)

theorem validate_cleared_iff {s : Statement} :
    s.cleared.validate = .ok () ↔ s.validate = .ok () := by
  have hkind : s.cleared.validateKind = s.validateKind := by
    simp [validateKind, cleared]
  rw [validate_eq_ok_iff, validate_eq_ok_iff, hkind]
  simp [cleared, Criteria.validate_cleared_iff]

theorem clauses_cleared (s : Statement) : s.cleared.clauses = s.clauses.cleared := by
  unfold clauses cleared
  cases s.criteria <;> rfl

/-- What MongoDB lacks is not asked for by options. -/
theorem isUnsupported_cleared_iff {s : Statement} : s.cleared.IsUnsupported ↔ s.IsUnsupported := by
  have hfilter : s.cleared.filter? = s.filter?.map Predicate.cleared := by
    rw [filter?_eq_clauses, filter?_eq_clauses, clauses_cleared]
    rfl
  have hvalues : s.cleared.values = s.values := rfl
  rw [← not_iff_not, not_isUnsupported_iff, not_isUnsupported_iff, hasCountOutOfRange_iff,
    hasCountOutOfRange_iff, hasFindClause_iff, hasFindClause_iff, clauses_cleared, hfilter, hvalues]
  simp only [Option.map_eq_some_iff, forall_exists_index, and_imp, forall_apply_eq_imp_iff₂,
    Predicate.leaves_cleared_expressible_iff]
  rfl

end Statement

/-- Whether there is a result, and the kind of the error if there is none. -/
def Exit.verdict {α : Type} (e : Exit α) : Except ErrorKind Unit := e.outcome.map fun _ => ()

theorem SupportedWhen.verdict_eq {α β : Type} {P Q : Prop} {x : Except Error α}
    {y : Except Error β} (hx : SupportedWhen P x) (hy : SupportedWhen Q y) (h : P ↔ Q) :
    (x.mapError Error.kind).map (fun _ => ()) = (y.mapError Error.kind).map fun _ => () := by
  obtain ⟨hP, a, rfl⟩ | ⟨hP, cause, rfl⟩ := hx
  · obtain ⟨-, b, rfl⟩ | ⟨hQ, -⟩ := hy
    · rfl
    · exact absurd (h.1 hP) hQ
  · obtain ⟨hQ, -⟩ | ⟨-, cause', rfl⟩ := hy
    · exact absurd (h.2 hQ) hP
    · rfl

namespace NativeQuery

theorem verdict_clearStatement (v : Json) (context : Option Json) :
    (compile v.clearStatement context).verdict = (compile v context).verdict := by
  unfold compile Exit.verdict
  cases Dictionary.ofArgument context with
  | error e => rfl
  | ok context =>
    simp only [outcome_exit]
    refine view_ofJson_eq (fun outcome => outcome.map fun _ => ())
      (Statement.ofJson_clearStatement v) (fun s => Statement.validate_cleared_iff) ?_
    intro s hs
    exact (translate_supported (Statement.validate_cleared_iff.2 hs)).verdict_eq
      (translate_supported hs) (not_congr Statement.isUnsupported_cleared_iff)

theorem get?_of_translate {s : Statement} {q : NativeQuery} (h : translate s = .ok q) {key : String}
    {value : Json} (hvalue : s.option? key = some value) :
    q.query.get? key = some (Bson.verbatim value) := by
  rw [translate] at h
  obtain ⟨⟨method, arguments⟩, -, heq⟩ := bind_eq_ok_iff.1 h
  cases heq
  rw [Filter.get?_mountAll, Filter.get?_mountAll, ← Option.or_assoc, ← Option.map_or,
    ← Statement.option?, hvalue, Option.map_some, Option.some_or]

/-- Options are opaque. Two statements that are the same once all of their options are cleared, so
that one is the other with something else in its options, both compile or fail with the same kind of
error. In the query the options of a statement, of its criteria, of a node and of modifiers stand as
they were given, whatever dates, tokens or clauses they seem to hold; a value stays what it is in
JSON, unless BSON has no integer for one that it holds. -/
theorem options_pass_through :
    (∀ (v w : Json) (context : Option Json), v.clearStatement = w.clearStatement →
      (compile v context).verdict = (compile w context).verdict) ∧
    (∀ s q, translate s = .ok q → ∀ key value, s.option? key = some value →
      q.query.get? key = some (Bson.verbatim value)) ∧
    (∀ p opts d, Filter.ofPredicate (.annotated p opts) = .ok d → d.Holds opts) ∧
    (∀ attr ms opts d, Filter.ofPredicate (.compare attr ms (some opts)) = .ok d →
      ∃ operators : Document, d = [(attr, .document operators)] ∧ operators.Holds opts) ∧
    ∀ value : Json, ¬ value.HoldsHuge → value.Keeps (Bson.verbatim value).toJson := by
  refine ⟨?_, fun s q h key value => get?_of_translate h, fun p opts d => Filter.holds_of_annotated,
    fun attr ms opts d => Filter.holds_of_compare, ?_⟩
  · intro v w context hcleared
    rw [← verdict_clearStatement v, hcleared, verdict_clearStatement w]
  · intro value hhuge
    rw [Bson.toJson_verbatim hhuge]
    exact Json.keeps_ordered value

/-- A deletion with options at the four places where they may stand. -/
def deletionWith (opts : List (String × Json)) : Json :=
  .object [("using", .string "logs"), ("delete", .bool true), ("opts", .object opts),
    ("criteria", .object [("opts", .object opts), ("where", .object [("or", .array [
      .object [("level", .object [(">", .number (.int 3 (by decide))), ("opts", .object opts)]),
        ("opts", .object opts)]])])])]

/-- What would be refused anywhere else: a timestamp that is none, an integer above the signed range, an
unknown operator and a clause. -/
def refusedElsewhere : List (String × Json) :=
  [("at", .object [("$date", .string "never")]),
    ("size", .number (.int 0x8000000000000000 (by decide))), ("~", .null), ("limit", .bool true)]

theorem refusedElsewhere_passes_through :
    (deletionWith refusedElsewhere).clearStatement = (deletionWith []).clearStatement ∧
      (compile (deletionWith refusedElsewhere) none).verdict =
        (compile (deletionWith []) none).verdict ∧
      (∃ s q, translate s = .ok q ∧
        s.option? "at" = some (.object [("$date", .string "never")]) ∧
        q.query.get? "at" = some (Bson.verbatim (.object [("$date", .string "never")]))) ∧
      (∃ d, Filter.ofPredicate (.annotated (.equal "level" .null) (.ofList refusedElsewhere)) =
        .ok d ∧ d.Holds (.ofList refusedElsewhere)) ∧
      ∃ d operators : Document, Filter.ofPredicate
          (.compare "level" [⟨.notEqual, .null⟩] (some (.ofList refusedElsewhere))) = .ok d ∧
        d = [("level", .document operators)] ∧ operators.Holds (.ofList refusedElsewhere) := by
  have hpass := options_pass_through
  have hcleared : (deletionWith refusedElsewhere).clearStatement =
      (deletionWith []).clearStatement := by
    rfl
  have htranslate : translate ⟨"logs", .destroy, none, some (.ofList refusedElsewhere)⟩ =
      .ok ⟨"logs", .deleteMany, Filter.mountAll [] (some (.ofList refusedElsewhere))⟩ := rfl
  have hnode : Filter.ofPredicate (.annotated (.equal "level" .null) (.ofList refusedElsewhere)) =
      .ok (Document.mount [("level", .null)] (.ofList refusedElsewhere)) := rfl
  have hmodifiers : Filter.ofPredicate
      (.compare "level" [⟨.notEqual, .null⟩] (some (.ofList refusedElsewhere))) =
        .ok [("level", .document (Document.mount [("$ne", .null)] (.ofList refusedElsewhere)))] :=
    rfl
  obtain ⟨operators, hd, hoperators⟩ := hpass.2.2.2.1 _ _ _ _ hmodifiers
  exact ⟨hcleared, hpass.1 _ _ none hcleared,
    ⟨_, _, htranslate, rfl, hpass.2.1 _ _ htranslate "at" _ rfl⟩,
    ⟨_, hnode, hpass.2.2.1 _ _ _ hnode⟩, _, operators, hmodifiers, hd, hoperators⟩

end NativeQuery

end DocQuery

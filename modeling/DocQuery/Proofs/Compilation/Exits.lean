import DocQuery.Proofs.Compilation.Support

/-! The exits of the compiler. The context always comes back. Malformed are the statements that
cannot be read or break a rule, whatever else is wrong with them; not supported are, of the others,
those that ask for something MongoDB lacks; the rest compile. -/
namespace DocQuery

/-- What a caller can tell apart: the value, or the kind of the error. -/
def Exit.outcome {α : Type} (e : Exit α) : Except ErrorKind α :=
  (e.map Report.value).mapError Failure.kind

def Exit.context {α : Type} : Exit α → Option Dictionary
  | .ok report => report.context
  | .error failure => failure.context

@[simp] theorem outcome_exit {α : Type} (result : Except Error α) (context : Option Dictionary) :
    (exit result context).outcome = result.mapError Error.kind := by
  cases result <;> rfl

@[simp] theorem context_exit {α : Type} (result : Except Error α) (context : Option Dictionary) :
    (exit result context).context = context := by
  cases result <;> rfl

/-- The value reads as the statement, and the statement obeys the rules. -/
def Json.States (v : Json) (s : Statement) : Prop :=
  Statement.ofJson v = .ok s ∧ s.validate = .ok ()

theorem Json.States.unique {v : Json} {s t : Statement} (hs : v.States s) (ht : v.States t) :
    s = t := by
  have hst := hs.1.symm.trans ht.1
  injection hst

/-- A dictionary is accepted as context and is kept as it is. -/
theorem Dictionary.ofArgument_toJson (context : Option Dictionary) :
    ofArgument (context.map toJson) = .ok context := by
  cases context with
  | none => rfl
  | some d =>
    rw [Option.map_some, ofArgument, ofJson, toJson, ofJson?, ofList_entries]
    rfl

namespace NativeQuery

theorem ofJson_of_states {v : Json} {s : Statement} (h : v.States s) : ofJson v = translate s := by
  rw [ofJson, h.1]
  simp only [mapError_ok, ok_bind]
  rw [ofStatement, h.2]
  rfl

theorem ofJson_of_not_states {v : Json} (h : ¬ ∃ s, v.States s) :
    ∃ flaw, ofJson v = .error (.malformed (.statement flaw)) := by
  rw [ofJson]
  cases hread : Statement.ofJson v with
  | error flaw => exact ⟨flaw, rfl⟩
  | ok s =>
    simp only [mapError_ok, ok_bind]
    rw [ofStatement]
    cases hvalid : s.validate with
    | error flaw => exact ⟨flaw, rfl⟩
    | ok u => exact absurd ⟨s, hread, hvalid⟩ h

/-- Where one value reads as another does but for a change that the rules do not look at, whatever can
be seen of both translations can be seen of both outcomes. -/
theorem view_ofJson_eq {β : Type} {v w : Json} {f : Statement → Statement}
    (view : Except ErrorKind NativeQuery → β)
    (hread : (Statement.ofJson w).toOption = (Statement.ofJson v).toOption.map f)
    (hvalid : ∀ s : Statement, (f s).validate = .ok () ↔ s.validate = .ok ())
    (hview : ∀ s : Statement, s.validate = .ok () →
      view ((translate (f s)).mapError Error.kind) = view ((translate s).mapError Error.kind)) :
    view ((ofJson w).mapError Error.kind) = view ((ofJson v).mapError Error.kind) := by
  by_cases hstates : ∃ s, v.States s
  · obtain ⟨s, hs⟩ := hstates
    have hw : w.States (f s) := by
      rw [hs.1, toOption_ok, Option.map_some, toOption_eq_some_iff] at hread
      exact ⟨hread, (hvalid s).2 hs.2⟩
    rw [ofJson_of_states hs, ofJson_of_states hw, hview s hs.2]
  · have hw : ¬ ∃ t, w.States t := by
      rintro ⟨t, ht⟩
      rw [ht.1, toOption_ok] at hread
      obtain ⟨s, hs, rfl⟩ := Option.map_eq_some_iff.1 hread.symm
      exact hstates ⟨s, toOption_eq_some_iff.1 hs, (hvalid s).1 ht.2⟩
    obtain ⟨flaw, hflaw⟩ := ofJson_of_not_states hstates
    obtain ⟨flaw', hflaw'⟩ := ofJson_of_not_states hw
    rw [hflaw, hflaw']
    rfl

theorem compile_eq_exit (v : Json) (context : Option Dictionary) :
    compile v (context.map Dictionary.toJson) = exit (ofJson v) context := by
  rw [compile, Dictionary.ofArgument_toJson]

theorem outcome_of_not_states {v : Json} (h : ¬ ∃ s, v.States s) (context : Option Dictionary) :
    (compile v (context.map Dictionary.toJson)).outcome = .error .malformed := by
  obtain ⟨flaw, hflaw⟩ := ofJson_of_not_states h
  rw [compile_eq_exit, outcome_exit, hflaw]
  rfl

theorem outcome_of_states {v : Json} {s : Statement} (h : v.States s)
    (context : Option Dictionary) :
    (compile v (context.map Dictionary.toJson)).outcome = (translate s).mapError Error.kind := by
  rw [compile_eq_exit, outcome_exit, ofJson_of_states h]

/-- Nothing malformed is left for the translation to find. -/
theorem kind_of_translate {s : Statement} (h : s.validate = .ok ()) {e : Error}
    (he : translate s = .error e) : s.IsUnsupported ∧ e.kind = .notSupported := by
  have hkind := (translate_supported h).kind_eq he
  exact ⟨Classical.not_not.1 hkind.1, hkind.2⟩

/-- A statement has one of three outcomes. -/
theorem outcome_cases (v : Json) (context : Option Dictionary) :
    let outcome := (compile v (context.map Dictionary.toJson)).outcome
    (outcome = .error .malformed ∧ ¬ ∃ s, v.States s) ∨
      ∃ s, v.States s ∧ ((outcome = .error .notSupported ∧ s.IsUnsupported) ∨
        ∃ q, outcome = .ok q ∧ ¬ s.IsUnsupported) := by
  intro outcome
  by_cases h : ∃ s, v.States s
  · right
    obtain ⟨s, hs⟩ := h
    have hout : outcome = (translate s).mapError Error.kind := outcome_of_states hs context
    refine ⟨s, hs, ?_⟩
    cases ht : translate s with
    | ok q =>
      have hsupported := (translate_supported hs.2).isOk_iff.1 ⟨q, ht⟩
      exact .inr ⟨q, by rw [hout, ht, mapError_ok], hsupported⟩
    | error e =>
      have hkind := kind_of_translate hs.2 ht
      exact .inl ⟨by rw [hout, ht, mapError_error, hkind.2], hkind.1⟩
  · exact .inl ⟨outcome_of_not_states h context, h⟩

theorem outcome_malformed_iff (v : Json) (context : Option Dictionary) :
    (compile v (context.map Dictionary.toJson)).outcome = .error .malformed ↔
      ¬ ∃ s, v.States s := by
  rcases outcome_cases v context with ⟨hout, hnone⟩ | ⟨s, hs, ⟨hout, -⟩ | ⟨q, hout, -⟩⟩
  · exact iff_of_true hout hnone
  · rw [hout]
    exact iff_of_false (by simp) (not_not_intro ⟨s, hs⟩)
  · rw [hout]
    exact iff_of_false (by simp) (not_not_intro ⟨s, hs⟩)

theorem outcome_notSupported_iff (v : Json) (context : Option Dictionary) :
    (compile v (context.map Dictionary.toJson)).outcome = .error .notSupported ↔
      ∃ s, v.States s ∧ s.IsUnsupported := by
  rcases outcome_cases v context with
    ⟨hout, hnone⟩ | ⟨s, hs, ⟨hout, hunsupported⟩ | ⟨q, hout, hsupported⟩⟩
  · rw [hout]
    exact iff_of_false (by simp) fun ⟨s, hs, _⟩ => hnone ⟨s, hs⟩
  · exact iff_of_true hout ⟨s, hs, hunsupported⟩
  · rw [hout]
    apply iff_of_false (by simp)
    intro h
    rcases h with ⟨t, ht, hunsupported⟩
    exact hsupported (hs.unique ht ▸ hunsupported)

theorem outcome_ok_iff (v : Json) (context : Option Dictionary) :
    (∃ q, (compile v (context.map Dictionary.toJson)).outcome = .ok q) ↔
      ∃ s, v.States s ∧ ¬ s.IsUnsupported := by
  rcases outcome_cases v context with
    ⟨hout, hnone⟩ | ⟨s, hs, ⟨hout, hunsupported⟩ | ⟨q, hout, hsupported⟩⟩
  · rw [hout]
    exact iff_of_false (by simp) fun ⟨s, hs, _⟩ => hnone ⟨s, hs⟩
  · rw [hout]
    apply iff_of_false (by simp)
    intro h
    rcases h with ⟨t, ht, hsupported⟩
    exact hsupported (hs.unique ht ▸ hunsupported)
  · exact iff_of_true ⟨q, hout⟩ ⟨s, hs, hsupported⟩

/-- Every exit hands the context back, and which one it is the statement alone decides. -/
theorem compile_exits (v : Json) (context : Option Dictionary) :
    let e := compile v (context.map Dictionary.toJson)
    e.context = context ∧
      (e.outcome = .error .malformed ↔ ¬ ∃ s, v.States s) ∧
      (e.outcome = .error .notSupported ↔ ∃ s, v.States s ∧ s.IsUnsupported) ∧
      ((∃ q, e.outcome = .ok q) ↔ ∃ s, v.States s ∧ ¬ s.IsUnsupported) ∧
      ∀ s : Statement, s.validate = .ok () → ∀ e, translate s = .error e → e.kind ≠ .malformed := by
  intro e
  have hcontext : e.context = context := by
    rw [show e = exit (ofJson v) context from compile_eq_exit v context, context_exit]
  refine ⟨hcontext, outcome_malformed_iff v context, outcome_notSupported_iff v context,
    outcome_ok_iff v context, ?_⟩
  intro s hs err herr
  rw [(kind_of_translate hs herr).2]
  decide

def zeroLimit : Json :=
  .object [("using", .string "logs"),
    ("criteria", .object [("limit", .number (.int 0 (by decide)))])]

def zeroLimitFind : Statement := ⟨"logs", .find, some { limit := some 0 }, none⟩

theorem zeroLimit_exits :
    (zeroLimit.States zeroLimitFind ∧ zeroLimitFind.validate = .ok () ∧
      translate zeroLimitFind = .error (.notSupported .zeroLimit)) ∧
    (compile zeroLimit none).outcome = .error .notSupported ∧
      (Error.notSupported .zeroLimit).kind ≠ .malformed := by
  have hstates : zeroLimit.States zeroLimitFind := ⟨rfl, rfl⟩
  have hexits := compile_exits zeroLimit none
  refine ⟨⟨hstates, rfl, rfl⟩, ?_, hexits.2.2.2.2 zeroLimitFind rfl _ rfl⟩
  refine hexits.2.2.1.2 ⟨zeroLimitFind, hstates, ?_⟩
  exact .inr (.inr (.inr (.inl ⟨rfl, _, rfl, .inl rfl⟩)))

end NativeQuery

end DocQuery

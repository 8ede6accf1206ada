import DocQuery.Proofs.Bson.Dates
import DocQuery.Proofs.Predicate.Leaves

/-! What MongoDB can express. Each step of a translation succeeds under a condition on its input and
refuses everything else as not supported; the conditions add up along the steps. Malformed input
does not get this far, because the rules for statements look at the same values. -/
namespace DocQuery

universe u

variable {α β : Type}

/-- The step succeeds under the condition and is refused as not supported without it. -/
def SupportedWhen (P : Prop) (x : Except Error α) : Prop :=
  (P ∧ ∃ a, x = .ok a) ∨ (¬ P ∧ ∃ cause, x = .error (.notSupported cause))

namespace SupportedWhen

variable {P Q : Prop} {x : Except Error α}

theorem ok (a : α) : SupportedWhen True (.ok a) := .inl ⟨trivial, a, rfl⟩

theorem refused (h : ¬ P) (cause : Unsupported) :
    SupportedWhen P (.error (.notSupported cause) : Except Error α) := .inr ⟨h, cause, rfl⟩

theorem congr (h : SupportedWhen P x) (hPQ : P ↔ Q) : SupportedWhen Q x := by
  rwa [← hPQ]

theorem isOk_iff (h : SupportedWhen P x) : (∃ a, x = .ok a) ↔ P := by
  obtain ⟨hP, a, rfl⟩ | ⟨hP, cause, rfl⟩ := h
  · simpa using hP
  · simpa using hP

theorem kind_eq (h : SupportedWhen P x) {e : Error} (he : x = .error e) :
    ¬ P ∧ e.kind = .notSupported := by
  obtain ⟨hP, a, rfl⟩ | ⟨hP, cause, rfl⟩ := h
  · cases he
  · cases he
    exact ⟨hP, rfl⟩

theorem map (h : SupportedWhen P x) (f : α → β) : SupportedWhen P (f <$> x) := by
  obtain ⟨hP, a, rfl⟩ | ⟨hP, cause, rfl⟩ := h
  · exact .inl ⟨hP, f a, rfl⟩
  · exact .inr ⟨hP, cause, rfl⟩

/-- Of two steps in a row, each refuses what its own condition does not cover. -/
theorem bind {f : α → Except Error β} (h : SupportedWhen P x)
    (hf : ∀ a, x = .ok a → SupportedWhen Q (f a)) : SupportedWhen (P ∧ Q) (x >>= f) := by
  obtain ⟨hP, a, rfl⟩ | ⟨hP, cause, rfl⟩ := h
  · exact (hf a rfl).congr (by simp [hP])
  · exact .inr ⟨fun h => hP h.1, cause, rfl⟩

theorem mapM {f : α → Except Error β} {P : α → Prop} (as : List α)
    (h : ∀ a ∈ as, SupportedWhen (P a) (f a)) :
    SupportedWhen (∀ a ∈ as, P a) (as.mapM f) := by
  induction as with
  | nil => exact (ok []).congr (by simp)
  | cons a as ih =>
    rw [List.mapM_cons]
    have has := ih fun b hb => h b (by simp [hb])
    apply ((h a (by simp)).bind fun b _ => has.map (b :: ·)).congr
    simp

end SupportedWhen

namespace Bson

open SupportedWhen

theorem ConvertsTo.supported {dates integers : Prop} {x : Except Error α} {a : α}
    (h : ConvertsTo dates integers x a) (hdates : dates) : SupportedWhen integers x := by
  obtain ⟨-, hintegers, rfl⟩ | ⟨hnot, -⟩ | ⟨hintegers, i, rfl⟩ := h
  · exact .inl ⟨hintegers, a, rfl⟩
  · exact absurd hdates hnot
  · exact refused hintegers _

/-- A value whose dates pass the check is converted, unless a huge integer occurs in it. -/
theorem canonical_supported {v : Json} (h : DateLike.check v = .ok ()) :
    SupportedWhen (¬ v.HoldsHuge) (canonical v) :=
  ((canonical_convertsTo v).supported h).congr
    (not_congr (DateLike.holdsHugeOutsideDates_iff_of_check h))

end Bson

end DocQuery

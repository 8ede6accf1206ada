/-! Cutting a list at a separator, which is dropped. -/
namespace DocQuery.Text

universe u

variable {α : Type u} [DecidableEq α]

/-- The parts before and after the first separator. -/
def cutFirst? (sep : α) : List α → Option (List α × List α)
  | [] => none
  | x :: xs => if x = sep then some ([], xs) else (cutFirst? sep xs).map fun p => (x :: p.1, p.2)

/-- The parts before and after the last separator. -/
def cutLast? (sep : α) : List α → Option (List α × List α)
  | [] => none
  | x :: xs =>
      match cutLast? sep xs with
      | some (before, after) => some (x :: before, after)
      | none => if x = sep then some ([], xs) else none

/-- The parts between the separators, one more than there are separators. -/
def cutAll (sep : α) : List α → List (List α)
  | [] => [[]]
  | x :: xs =>
      if x = sep then [] :: cutAll sep xs
      else match cutAll sep xs with
        | [] => [[x]]
        | part :: parts => (x :: part) :: parts

theorem cutFirst?_eq_none {sep : α} {xs : List α} : cutFirst? sep xs = none ↔ sep ∉ xs := by
  induction xs with
  | nil => simp [cutFirst?]
  | cons x xs ih =>
    by_cases h : x = sep
    · simp [cutFirst?, h]
    · simp [cutFirst?, h, Ne.symm h, ih]

theorem cutFirst?_append {sep : α} {xs : List α} (h : sep ∉ xs) (ys : List α) :
    cutFirst? sep (xs ++ sep :: ys) = some (xs, ys) := by
  induction xs with
  | nil => simp [cutFirst?]
  | cons x xs ih =>
    rw [List.mem_cons, not_or] at h
    simp [cutFirst?, Ne.symm h.1, ih h.2]

theorem cutLast?_eq_none {sep : α} {xs : List α} : cutLast? sep xs = none ↔ sep ∉ xs := by
  induction xs with
  | nil => simp [cutLast?]
  | cons x xs ih =>
    unfold cutLast?
    cases hc : cutLast? sep xs with
    | none =>
      rw [hc] at ih
      by_cases h : x = sep
      · simp [h]
      · simp [h, Ne.symm h, ih.1 rfl]
    | some p =>
      rw [hc] at ih
      have hm : sep ∈ xs := by simpa using ih
      simp [hm]

theorem cutLast?_append {sep : α} {ys : List α} (h : sep ∉ ys) (xs : List α) :
    cutLast? sep (xs ++ sep :: ys) = some (xs, ys) := by
  induction xs with
  | nil => simp [cutLast?, cutLast?_eq_none.2 h]
  | cons x xs ih => simp [cutLast?, ih]

theorem cutAll_ne_nil (sep : α) (xs : List α) : cutAll sep xs ≠ [] := by
  cases xs with
  | nil => simp [cutAll]
  | cons x xs =>
    unfold cutAll
    split
    · simp
    · split <;> simp

theorem cutAll_of_not_mem {sep : α} {xs : List α} (h : sep ∉ xs) : cutAll sep xs = [xs] := by
  induction xs with
  | nil => rfl
  | cons x xs ih =>
    rw [List.mem_cons, not_or] at h
    simp [cutAll, Ne.symm h.1, ih h.2]

theorem cutAll_append {sep : α} {xs : List α} (h : sep ∉ xs) (ys : List α) :
    cutAll sep (xs ++ sep :: ys) = xs :: cutAll sep ys := by
  induction xs with
  | nil => simp [cutAll]
  | cons x xs ih =>
    rw [List.mem_cons, not_or] at h
    simp [cutAll, Ne.symm h.1, ih h.2]

end DocQuery.Text

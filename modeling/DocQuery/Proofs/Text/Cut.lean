import DocQuery.Text.Cut
import Mathlib.Data.List.TakeWhile

/-! Cutting a list undoes joining its parts, and the parts hold no separator. -/
namespace DocQuery.Text

universe u

variable {α : Type u} {sep : α}

theorem mem_intercalate {x : α} {parts : List (List α)} (h : x ∈ [sep].intercalate parts) :
    x = sep ∨ ∃ part ∈ parts, x ∈ part := by
  induction parts with
  | nil => simp at h
  | cons part parts ih =>
    match parts with
    | [] =>
      rw [List.intercalate_singleton] at h
      exact .inr ⟨part, by simp, h⟩
    | next :: rest =>
      rw [List.intercalate_cons_cons, List.append_assoc, List.mem_append, List.mem_append,
        List.mem_singleton] at h
      rcases h with hpart | hsep | hrest
      · exact .inr ⟨part, by simp, hpart⟩
      · exact .inl hsep
      · refine (ih hrest).imp_right ?_
        rintro ⟨other, hother, hx⟩
        exact ⟨other, List.mem_cons_of_mem _ hother, hx⟩

section Cut

variable [DecidableEq α]

theorem cutAll_intercalate {parts : List (List α)} (hne : parts ≠ [])
    (h : ∀ part ∈ parts, sep ∉ part) : cutAll sep ([sep].intercalate parts) = parts := by
  induction parts with
  | nil => exact absurd rfl hne
  | cons part parts ih =>
    match parts with
    | [] =>
      rw [List.intercalate_singleton]
      exact cutAll_of_not_mem (h part (by simp))
    | next :: rest =>
      have hrest := ih (by simp) fun p hp => h p (by simp [hp])
      rw [List.intercalate_cons_cons, List.append_assoc, List.singleton_append,
        cutAll_append (h part (by simp)), hrest]

theorem mem_cutAll_spec {part xs : List α} (h : part ∈ cutAll sep xs) :
    sep ∉ part ∧ ∀ x ∈ part, x ∈ xs := by
  induction xs generalizing part with
  | nil =>
    rw [cutAll, List.mem_singleton] at h
    simp [h]
  | cons x xs ih =>
    rw [cutAll] at h
    split at h
    · rcases List.mem_cons.1 h with rfl | hpart
      · simp
      · obtain ⟨hsep, hmem⟩ := ih hpart
        exact ⟨hsep, fun y hy => List.mem_cons_of_mem _ (hmem y hy)⟩
    · next hx =>
      split at h
      · next hnil => exact absurd hnil (cutAll_ne_nil sep xs)
      · next first rest hcut =>
        rcases List.mem_cons.1 h with rfl | hpart
        · have hfirst : first ∈ cutAll sep xs := by simp [hcut]
          obtain ⟨hsep, hmem⟩ := ih hfirst
          refine ⟨by simp [Ne.symm hx, hsep], ?_⟩
          intro y hy
          rcases List.mem_cons.1 hy with rfl | hy
          · exact List.mem_cons_self
          · exact List.mem_cons_of_mem _ (hmem y hy)
        · have hlater : part ∈ cutAll sep xs := by simp [hcut, hpart]
          obtain ⟨hsep, hmem⟩ := ih hlater
          exact ⟨hsep, fun y hy => List.mem_cons_of_mem _ (hmem y hy)⟩

theorem headD_mem_cutAll (sep : α) (xs : List α) : (cutAll sep xs).headD [] ∈ cutAll sep xs := by
  cases h : cutAll sep xs with
  | nil => exact absurd h (cutAll_ne_nil sep xs)
  | cons part parts => exact List.mem_cons_self

/-- Dropping elements other than the separator does not move the cut. -/
theorem cutFirst?_filter {p : α → Bool} (h : p sep = true) (xs : List α) :
    cutFirst? sep (xs.filter p) =
      (cutFirst? sep xs).map fun q => (q.1.filter p, q.2.filter p) := by
  induction xs with
  | nil => rfl
  | cons x xs ih =>
    by_cases hx : x = sep
    · simp [cutFirst?, hx, h]
    · cases hp : p x with
      | true => simp [cutFirst?, hx, hp, ih, Function.comp_def]
      | false => simp [cutFirst?, hx, hp, ih, Function.comp_def]

theorem cutLast?_eq_some {xs before after : List α} (h : cutLast? sep xs = some (before, after)) :
    xs = before ++ sep :: after ∧ sep ∉ after := by
  induction xs generalizing before with
  | nil => cases h
  | cons x xs ih =>
    rw [cutLast?] at h
    split at h
    · next before' after' hcut =>
      cases h
      obtain ⟨rfl, hsep⟩ := ih hcut
      exact ⟨rfl, hsep⟩
    · next hnone =>
      split at h
      · next hx =>
        cases h
        exact ⟨by rw [hx, List.nil_append], cutLast?_eq_none.1 hnone⟩
      · cases h

end Cut

section While

variable {p : α → Bool} {xs ys : List α} (hxs : ∀ x ∈ xs, p x = true)
  (hys : ∀ y, ys.head? = some y → p y = false)

include hxs hys

theorem takeWhile_append_stop : (xs ++ ys).takeWhile p = xs := by
  rw [List.takeWhile_append_of_pos hxs]
  cases ys with
  | nil => simp
  | cons y ys => rw [List.takeWhile_cons_of_neg (by simp [hys y rfl]), List.append_nil]

theorem dropWhile_append_stop : (xs ++ ys).dropWhile p = ys := by
  rw [List.dropWhile_append_of_pos hxs]
  cases ys with
  | nil => rfl
  | cons y ys => rw [List.dropWhile_cons_of_neg (by simp [hys y rfl])]

end While

end DocQuery.Text

import DocQuery.Entries
import Mathlib.Data.List.Forall2

/-! Steps that may fail, run one after the other: when a run succeeds, and what is left of it once
the wording of failures is forgotten. -/
namespace DocQuery

universe u v w

section Steps

variable {ε : Type u} {α β : Type v}

@[simp] theorem pure_eq_ok (a : α) : (pure a : Except ε α) = .ok a := rfl

@[simp] theorem throw_eq_error (e : ε) : (throw e : Except ε α) = .error e := rfl

@[simp] theorem ok_bind (a : α) (f : α → Except ε β) : (Except.ok a >>= f) = f a := rfl

@[simp] theorem error_bind (e : ε) (f : α → Except ε β) :
    ((.error e : Except ε α) >>= f) = .error e := rfl

@[simp] theorem map_ok (f : α → β) (a : α) : f <$> (.ok a : Except ε α) = .ok (f a) := rfl

@[simp] theorem map_error (f : α → β) (e : ε) : f <$> (.error e : Except ε α) = .error e := rfl

theorem bind_eq_ok_iff {x : Except ε α} {f : α → Except ε β} {b : β} :
    (x >>= f) = .ok b ↔ ∃ a, x = .ok a ∧ f a = .ok b := by
  cases x <;> simp

theorem map_eq_ok_iff {x : Except ε α} {f : α → β} {b : β} :
    f <$> x = .ok b ↔ ∃ a, x = .ok a ∧ f a = b := by
  cases x <;> simp

/-- Two checks pass in a row exactly if each of them does. -/
theorem andThen_eq_ok_iff {x : Except ε PUnit} {y : Except ε β} {b : β} :
    (x >>= fun _ => y) = .ok b ↔ x = .ok ⟨⟩ ∧ y = .ok b := by
  cases x <;> simp

/-- A guard in front of a step lets it run only if its condition does not hold. -/
theorem guard_eq_ok_iff {c : Prop} [Decidable c] {e : ε} {next : PUnit → Except ε β} {b : β} :
    (if c then (throw e >>= next) else next ⟨⟩) = .ok b ↔ ¬ c ∧ next ⟨⟩ = .ok b := by
  by_cases h : c <;> simp [h]

theorem discard_eq_ok_iff {x : Except ε α} :
    (discard x : Except ε PUnit) = .ok ⟨⟩ ↔ ∃ a, x = .ok a := by
  cases x with
  | ok a => exact iff_of_true rfl ⟨a, rfl⟩
  | error e => exact iff_of_false (by rintro ⟨⟩) (by simp)

end Steps

section Renaming

variable {ε : Type u} {ε' : Type v} {α : Type w}

@[simp] theorem mapError_ok (f : ε → ε') (a : α) : (Except.ok a).mapError f = .ok a := rfl

@[simp] theorem mapError_error (f : ε → ε') (e : ε) :
    (.error e : Except ε α).mapError f = .error (f e) := rfl

theorem mapError_eq_ok_iff {f : ε → ε'} {x : Except ε α} {a : α} :
    x.mapError f = .ok a ↔ x = .ok a := by
  cases x <;> simp

end Renaming

section Wording

variable {ε : Type u} {ε' : Type v} {α β : Type w}

@[simp] theorem toOption_ok (a : α) : (Except.ok a : Except ε α).toOption = some a := rfl

@[simp] theorem toOption_error (e : ε) : (.error e : Except ε α).toOption = none := rfl

theorem toOption_eq_some_iff {x : Except ε α} {a : α} : x.toOption = some a ↔ x = .ok a := by
  cases x <;> simp

theorem toOption_bind (x : Except ε α) (f : α → Except ε β) :
    (x >>= f).toOption = x.toOption.bind fun a => (f a).toOption := by
  cases x <;> rfl

theorem toOption_map (f : α → β) (x : Except ε α) : (f <$> x).toOption = x.toOption.map f := by
  cases x <;> rfl

theorem toOption_mapError (f : ε → ε') (x : Except ε α) :
    (x.mapError f).toOption = x.toOption := by
  cases x <;> rfl

end Wording

section Runs

variable {ε α β γ : Type u}

/-- Two runs give corresponding results if their steps do, whatever the failures say. -/
theorem toOption_mapM_map {δ : Type u} {f : β → Except ε γ} {f' : α → Except ε δ} {g : α → β}
    {h : δ → γ} {as : List α} (hstep : ∀ a ∈ as, (f (g a)).toOption = (f' a).toOption.map h) :
    ((as.map g).mapM f).toOption = (as.mapM f').toOption.map (List.map h) := by
  induction as with
  | nil => rfl
  | cons a as ih =>
    have ha := hstep a (by simp)
    have has := ih fun b hb => hstep b (by simp [hb])
    rw [List.map_cons, List.mapM_cons, List.mapM_cons, toOption_bind, toOption_bind, ha]
    simp only [toOption_bind, has]
    cases (f' a).toOption <;> cases (as.mapM f').toOption <;> rfl

theorem toOption_mapM_eq {f : β → Except ε γ} {f' : α → Except ε γ} {g : α → β} {as : List α}
    (hstep : ∀ a ∈ as, (f (g a)).toOption = (f' a).toOption) :
    ((as.map g).mapM f).toOption = (as.mapM f').toOption := by
  simpa using toOption_mapM_map (h := id) (by simpa using hstep)

/-- What is left of a run is the run over what is left of its steps. -/
theorem toOption_mapM (f : α → Except ε β) (as : List α) :
    (as.mapM f).toOption = as.mapM fun a => (f a).toOption := by
  induction as with
  | nil => rfl
  | cons a as ih =>
    rw [List.mapM_cons, List.mapM_cons, ← ih, toOption_bind]
    simp only [toOption_bind]
    rfl

/-- One member of a list may be exchanged for another one that its step treats alike. -/
theorem toOption_mapM_exchange {f : α → Except ε β} {a b : α}
    (h : (f b).toOption = (f a).toOption) (before after : List α) :
    ((before ++ b :: after).mapM f).toOption = ((before ++ a :: after).mapM f).toOption := by
  rw [toOption_mapM, toOption_mapM, List.mapM_append, List.mapM_append, List.mapM_cons,
    List.mapM_cons, h]

/-- A run over a list succeeds with results of a kind exactly if each of its steps does. -/
theorem mapM_ok_forall_iff {f : α → Except ε β} {P : β → Prop} {as : List α} :
    (∃ bs, as.mapM f = .ok bs ∧ ∀ b ∈ bs, P b) ↔ ∀ a ∈ as, ∃ b, f a = .ok b ∧ P b := by
  induction as with
  | nil => simp
  | cons a as ih =>
    simp only [List.mapM_cons, bind_eq_ok_iff, pure_eq_ok, Except.ok.injEq, List.forall_mem_cons,
      ← ih]
    constructor
    · intro h
      rcases h with ⟨_, ⟨b, hb, bs, hbs, rfl⟩, hP⟩
      exact ⟨⟨b, hb, hP b (by simp)⟩, bs, hbs, fun c hc => hP c (by simp [hc])⟩
    · intro h
      rcases h with ⟨⟨b, hb, hP⟩, bs, hbs, hPs⟩
      exact ⟨b :: bs, ⟨b, hb, bs, hbs, rfl⟩, by simpa using ⟨hP, hPs⟩⟩

theorem mapM_isOk_iff {f : α → Except ε β} {as : List α} :
    (∃ bs, as.mapM f = .ok bs) ↔ ∀ a ∈ as, ∃ b, f a = .ok b := by
  simpa using mapM_ok_forall_iff (f := f) (P := fun _ => True)

/-- The results of a run are of a kind if every step that succeeds gives one of that kind. -/
theorem forall_of_mapM {f : α → Except ε β} {P : β → Prop} {as : List α} {bs : List β}
    (h : as.mapM f = .ok bs) (hP : ∀ a ∈ as, ∀ b, f a = .ok b → P b) : ∀ b ∈ bs, P b := by
  have hsteps : ∀ a ∈ as, ∃ b, f a = .ok b ∧ P b := by
    intro a ha
    obtain ⟨b, hb⟩ := mapM_isOk_iff.1 ⟨bs, h⟩ a ha
    exact ⟨b, hb, hP a ha b hb⟩
  obtain ⟨bs', hbs', hall⟩ := mapM_ok_forall_iff.2 hsteps
  cases h.symm.trans hbs'
  exact hall

theorem mapM_eq_ok_nil_iff {f : α → Except ε β} {as : List α} : as.mapM f = .ok [] ↔ as = [] := by
  cases as with
  | nil => simp
  | cons a as =>
    rw [List.mapM_cons]
    cases f a with
    | error e => simp
    | ok b => cases as.mapM f <;> simp

theorem mapM_ok_nonempty_iff {f : α → Except ε β} {P : β → Prop} {as : List α} :
    (∃ bs, as.mapM f = .ok bs ∧ bs ≠ [] ∧ ∀ b ∈ bs, P b) ↔
      as ≠ [] ∧ ∀ a ∈ as, ∃ b, f a = .ok b ∧ P b := by
  rw [← mapM_ok_forall_iff]
  constructor
  · intro h
    rcases h with ⟨bs, hbs, hne, hP⟩
    refine ⟨fun has => hne ?_, bs, hbs, hP⟩
    rw [mapM_eq_ok_nil_iff.2 has] at hbs
    injection hbs with hnil
    exact hnil.symm
  · intro h
    rcases h with ⟨hne, bs, hbs, hP⟩
    refine ⟨bs, hbs, ?_, hP⟩
    rintro rfl
    exact hne (mapM_eq_ok_nil_iff.1 hbs)

/-- A run gives the results of its steps, one by one. -/
theorem mapM_eq_ok_iff_forall₂ {f : α → Except ε β} {as : List α} {bs : List β} :
    as.mapM f = .ok bs ↔ List.Forall₂ (fun a b => f a = .ok b) as bs := by
  induction as generalizing bs with
  | nil => simp [eq_comm]
  | cons a as ih =>
    rw [List.mapM_cons, List.forall₂_cons_left_iff]
    simp only [bind_eq_ok_iff, pure_eq_ok, Except.ok.injEq, ih]
    constructor
    · intro h
      rcases h with ⟨b, hb, bs, hbs, rfl⟩
      exact ⟨b, bs, hb, hbs, rfl⟩
    · intro h
      rcases h with ⟨b, bs, hb, hbs, rfl⟩
      exact ⟨b, hb, bs, hbs, rfl⟩

/-- What holds of every step that succeeds carries over to the run. -/
theorem mapM_eq_ok_map {f : α → Except ε β} {g : α → Except ε γ} {h : β → γ} {as : List α}
    {bs : List β} (hf : as.mapM f = .ok bs)
    (hg : ∀ a ∈ as, ∀ b, f a = .ok b → g a = .ok (h b)) : as.mapM g = .ok (bs.map h) := by
  induction as generalizing bs with
  | nil =>
    cases hf
    rfl
  | cons a as ih =>
    simp only [List.mapM_cons, bind_eq_ok_iff] at hf ⊢
    obtain ⟨b, hb, bs', hbs, hcons⟩ := hf
    cases hcons
    have ha := hg a (by simp) b hb
    have has := ih hbs fun a' h' => hg a' (by simp [h'])
    exact ⟨h b, ha, bs'.map h, has, rfl⟩

/-- What can be seen of each result is seen of the run. -/
theorem map_of_mapM {f : α → Except ε β} {g : α → γ} {h : β → γ} {as : List α} {bs : List β}
    (hf : as.mapM f = .ok bs) (hg : ∀ a ∈ as, ∀ b, f a = .ok b → h b = g a) :
    bs.map h = as.map g := by
  induction as generalizing bs with
  | nil =>
    cases hf
    rfl
  | cons a as ih =>
    simp only [List.mapM_cons, bind_eq_ok_iff] at hf
    obtain ⟨b, hb, bs', hbs, hcons⟩ := hf
    cases hcons
    have ha := hg a (by simp) b hb
    have has := ih hbs fun a' h' => hg a' (by simp [h'])
    rw [List.map_cons, List.map_cons, ha, has]

/-- What is written member by member is read back if each member is. -/
theorem mapM_map_eq_ok {f : β → Except ε α} {g : α → β} {as : List α}
    (h : ∀ a ∈ as, f (g a) = .ok a) : (as.map g).mapM f = .ok as := by
  induction as with
  | nil => rfl
  | cons a as ih =>
    rw [List.map_cons, List.mapM_cons, h a (by simp), ih fun b hb => h b (by simp [hb])]
    rfl

/-- A check over a list passes exactly if it passes for each member. -/
theorem forM_eq_ok_iff {f : α → Except ε PUnit} {as : List α} :
    as.forM f = .ok ⟨⟩ ↔ ∀ a ∈ as, f a = .ok ⟨⟩ := by
  induction as with
  | nil => simp [List.forM]
  | cons a as ih =>
    rw [List.forM, andThen_eq_ok_iff, List.forall_mem_cons, ih]

theorem optionForM_eq_ok_iff {f : α → Except ε PUnit} {o : Option α} :
    o.forM f = .ok ⟨⟩ ↔ ∀ a, o = some a → f a = .ok ⟨⟩ := by
  cases o <;> simp

end Runs

end DocQuery

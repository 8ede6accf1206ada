import DocQuery.Proofs.ConnectionString.Writing

/-! Connection strings of plain seeds are read back from their text, whatever their other parts
hold. -/
namespace DocQuery.ConnectionString

open Percent

/-- Letters, digits, dots and hyphens. -/
def isHostChar (ch : Char) : Bool := ch.isAlphanum || ch == '.' || ch == '-'

/-- Nothing, or a colon and a decimal number up to 65535. -/
inductive IsPort : List Char → Prop
  | none : IsPort []
  | decimal {digits : List Char} : digits ≠ [] → (∀ d ∈ digits, d.isDigit = true) →
      Decimal.ofDigits digits ≤ 65535 → IsPort (':' :: digits)

/-- A host name or an IPv4 address, with a port or without one. -/
def IsPlainSeed (seed : String) : Prop :=
  ∃ host port, seed.toList = host ++ port ∧ host ≠ [] ∧ (∀ ch ∈ host, isHostChar ch = true) ∧
    IsPort port

theorem isCoded_of_isHostChar {ch : Char} (h : isHostChar ch = true) : isCoded ch = true := by
  simp only [isHostChar, Bool.or_eq_true, beq_iff_eq] at h
  rcases h with (halphanum | rfl) | rfl
  · simp [isCoded, isUnreserved, halphanum]
  · decide
  · decide

theorem isCoded_of_isDigit {ch : Char} (h : ch.isDigit = true) : isCoded ch = true := by
  simp [isCoded, isUnreserved, Char.isAlphanum, h]

theorem not_isForbidden_of_isCoded {ch : Char} (h : isCoded ch = true) :
    Url.isForbidden ch = false := by
  cases hforbidden : Url.isForbidden ch with
  | false => rfl
  | true =>
    rw [Url.isForbidden, List.contains_iff_mem] at hforbidden
    have hall : ['\x00', ' ', '<', '>', '@', '[', '\\', ']', '^', '|'].all
        (fun stop => !isCoded stop) = true := by decide
    have hcoded := List.all_eq_true.1 hall ch hforbidden
    rw [h] at hcoded
    cases hcoded

theorem IsPort.mem {port : List Char} (h : IsPort port) {ch : Char} (hch : ch ∈ port) :
    isCoded ch = true ∨ ch = ':' := by
  cases h with
  | none => cases hch
  | decimal _ hdigits _ =>
    rcases List.mem_cons.1 hch with rfl | hch
    · exact .inr rfl
    · exact .inl (isCoded_of_isDigit (hdigits ch hch))

theorem IsPort.skip {port : List Char} (h : IsPort port) : Url.skipPort port = .ok [] := by
  cases h with
  | none => rfl
  | @decimal digits _ hdigits hbound =>
    have htake : digits.takeWhile Char.isDigit = digits := List.takeWhile_eq_self_iff.2 hdigits
    have hdrop : digits.dropWhile Char.isDigit = [] := List.dropWhile_eq_nil_iff.2 hdigits
    rw [Url.skipPort]
    simp [htake, hdrop, Nat.not_lt.2 hbound]

theorem cutHost_append {host port : List Char} (hhost : ∀ ch ∈ host, isCoded ch = true)
    (hport : IsPort port) : Url.cutHost false (host ++ port) = (host, port) := by
  induction host with
  | nil =>
    cases hport with
    | none => rfl
    | decimal => rfl
  | cons ch host ih =>
    have hch : isCoded ch = true := hhost ch (by simp)
    have hcolon : ch ≠ ':' := ne_of_isCoded hch (by decide)
    have hopen : ch ≠ '[' := ne_of_isCoded hch (by decide)
    have hclose : ch ≠ ']' := ne_of_isCoded hch (by decide)
    have hrest := ih fun d hd => hhost d (by simp [hd])
    rw [List.cons_append, Url.cutHost, if_neg (by simp [hcolon])]
    simp [hopen, hclose, hrest]

theorem checkHost_coded {host : List Char} (h : ∀ ch ∈ host, isCoded ch = true) :
    Url.checkHost host = .ok () := by
  have hforbidden : host.any Url.isForbidden = false := by
    rw [List.any_eq_false]
    intro ch hch
    rw [not_isForbidden_of_isCoded (h ch hch)]
    exact Bool.false_ne_true
  unfold Url.checkHost
  split
  · exact absurd (h '[' (by simp)) (by decide)
  · rw [hforbidden, if_neg Bool.false_ne_true]

namespace IsPlainSeed

variable {seed : String}

/-- A plain seed is written with coded characters and a colon. -/
theorem mem (h : IsPlainSeed seed) {ch : Char} (hch : ch ∈ seed.toList) :
    isCoded ch = true ∨ ch = ':' := by
  obtain ⟨host, port, htext, -, hhost, hport⟩ := h
  rw [htext, List.mem_append] at hch
  rcases hch with hch | hch
  · exact .inl (isCoded_of_isHostChar (hhost ch hch))
  · exact hport.mem hch

theorem ne (h : IsPlainSeed seed) {ch stop : Char} (hch : ch ∈ seed.toList)
    (hstop : isCoded stop = false) (hcolon : stop ≠ ':') : ch ≠ stop := by
  rcases h.mem hch with hcoded | rfl
  · exact ne_of_isCoded hcoded hstop
  · exact hcolon.symm

theorem lt (h : IsPlainSeed seed) : ∀ ch ∈ seed.toList, ' ' < ch := by
  intro ch hch
  rcases h.mem hch with hcoded | rfl
  · exact lt_of_isCoded hcoded
  · decide

theorem ends (h : IsPlainSeed seed) : ∀ ch ∈ seed.toList, Url.endsAuthority ch = false := by
  intro ch hch
  rw [Url.not_endsAuthority_iff]
  exact ⟨h.ne hch (by decide) (by decide), h.ne hch (by decide) (by decide),
    h.ne hch (by decide) (by decide)⟩

theorem ne_empty (h : IsPlainSeed seed) : seed ≠ "" := by
  obtain ⟨host, port, htext, hne, -, -⟩ := h
  rintro rfl
  have hempty : host ++ port = [] := htext.symm
  exact hne (List.append_eq_nil_iff.1 hempty).1

theorem isPlace (h : IsPlainSeed seed) : Url.IsPlace seed.toList := by
  obtain ⟨host, port, htext, hne, hhost, hport⟩ := h
  have hcoded : ∀ ch ∈ host, isCoded ch = true := fun ch hch => isCoded_of_isHostChar (hhost ch hch)
  rw [htext]
  refine ⟨?_, ?_, ?_⟩
  all_goals rw [cutHost_append hcoded hport]
  · exact checkHost_coded hcoded
  · exact hne
  · exact hport.skip

theorem checkSeed (h : IsPlainSeed seed) : ConnectionString.checkSeed seed.toList = .ok () := by
  have hne : seed.toList ≠ [] := toList_ne_nil h.ne_empty
  have hclean : Url.clean seed.toList = seed.toList := by
    simpa [Url.visible] using @Url.clean_append [] _ hne h.lt
  have hsplits : Url.Splits seed.toList none seed.toList [] := by
    refine ⟨by simpa [Url.prefixOf] using hclean, by simp [Url.prefixOf], h.ends, ?_, by simp⟩
    exact fun hat => h.ne hat (by decide) (by decide) rfl
  rw [ConnectionString.checkSeed, Url.read_of_splits hsplits h.isPlace]

end IsPlainSeed

/-- Connection strings of plain seeds can be written. -/
theorem isLegible_of_plain {c : ConnectionString} (hhosts : c.hosts ≠ [])
    (hplain : ∀ seed ∈ c.hosts, IsPlainSeed seed) (honly : c.user = none → c.password = none)
    (hdatabase : c.database ∉ [some "", some ".", some ".."]) : c.IsLegible where
  hosts := hhosts
  seeds := by
    intro seed hseed
    refine ⟨(hplain seed hseed).ne_empty, fun ch hch hstop => ?_⟩
    have hall : ['/', '?', '@', ','].all (fun stop => !isCoded stop && stop != ':') = true := by
      decide
    have hreserved : isCoded ch = false ∧ ch ≠ ':' := by
      simpa using List.all_eq_true.1 hall ch hstop
    exact (hplain seed hseed).ne hch hreserved.1 hreserved.2 rfl
  first := by
    intro seed hseed
    have hseed := hplain seed (List.mem_of_mem_head? hseed)
    rw [Url.visible_of_lt hseed.lt]
    exact ⟨hseed.isPlace, hseed.ends⟩
  others := fun seed hseed => (hplain seed (List.mem_of_mem_tail hseed)).checkSeed
  only := honly
  database := hdatabase

/-- A connection string of plain seeds is read back from its text, whatever text its user, password,
database and options hold. -/
theorem ofText_text_of_plain {c : ConnectionString} (hhosts : c.hosts ≠ [])
    (hplain : ∀ seed ∈ c.hosts, IsPlainSeed seed) (huser : c.user ≠ some "")
    (hpassword : c.password ≠ some "") (honly : c.user = none → c.password = none)
    (hdatabase : c.database ∉ [some "", some ".", some ".."]) : ofText c.text = .ok c :=
  ofText_text ⟨isLegible_of_plain hhosts hplain honly hdatabase, huser, hpassword⟩

/-- Separators, blanks, controls and dot segments in each of the parts. -/
def mixed : ConnectionString where
  user := some "a@b:c/?#é"
  password := some "% 2e+\n"
  hosts := ["db-1.example:27017", "h"]
  database := some "../x"
  options := [("&=k", "√ ="), ("", "#"), ("k", "")]

theorem mixed_text :
    (∀ seed ∈ mixed.hosts, IsPlainSeed seed) ∧ mixed.database ∉ [some "", some ".", some ".."] ∧
      ofText mixed.text = .ok mixed := by
  have hfirst : IsPlainSeed "db-1.example:27017" :=
    ⟨"db-1.example".toList, ":27017".toList, by decide, by decide, List.all_eq_true.1 (by decide),
      .decimal (by decide) (List.all_eq_true.1 (by decide)) (by decide)⟩
  have hsecond : IsPlainSeed "h" :=
    ⟨['h'], [], by decide, by decide, List.all_eq_true.1 (by decide), .none⟩
  have hplain : ∀ seed ∈ mixed.hosts, IsPlainSeed seed := by
    simp [mixed, hfirst, hsecond]
  exact ⟨hplain, by decide, ofText_text_of_plain (by decide) hplain (by decide) (by decide)
    (by decide) (by decide)⟩

end DocQuery.ConnectionString

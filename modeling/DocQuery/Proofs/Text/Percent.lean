import DocQuery.Proofs.Sequencing
import DocQuery.Text.Percent

/-! Percent-coded text: which characters it is made of, and which codes stand for dots or for
nothing. -/
namespace DocQuery

namespace Utf8

def dotByte : UInt8 := 0x2E

/-- A pending character of two bytes or more is none of a single byte, whatever follows. -/
structure Pending.IsLong (p : Pending) : Prop where
  last : p.missing = 0 → 2 ≤ p.value
  next : 2 ≤ p.value * 0x40 + (p.low - 0x80)

theorem isLong_of_lead? {n : Nat} {p : Pending} (h : lead? n = some p) : p.IsLong := by
  unfold lead? at h
  split at h
  · cases h
  · split at h
    · cases h
      exact ⟨by simp only; omega, by simp only; omega⟩
    · split at h
      · cases h
        refine ⟨by simp, ?_⟩
        simp only
        split <;> omega
      · split at h
        · cases h
          refine ⟨by simp, ?_⟩
          simp only
          split <;> omega
        · cases h

/-- A number that is decoded to a dot is that of the dot. -/
theorem eq_of_ofNat_eq_dot {n : Nat} (h : Char.ofNat n = '.') : n = 0x2E := by
  by_cases hn : n.isValidChar
  · have hvalue : (Char.ofNat n).toNat = n := by
      rw [Char.ofNat, dif_pos hn]
      rfl
    rw [← hvalue, h]
    rfl
  · rw [Char.ofNat, dif_neg hn] at h
    exact absurd h (by decide)

theorem decodeFrom_pending {index : Nat} {p : Pending} {bs : List UInt8} {cs : List Char}
    (hp : p.IsLong) (h : decodeFrom index (some p) bs = .ok cs) :
    ∃ c rest, cs = c :: rest ∧ c ≠ '.' := by
  induction bs generalizing index p with
  | nil => cases h
  | cons b bs ih =>
    rw [decodeFrom] at h
    split at h
    · next haccepts =>
      have hlow : p.low ≤ b.toNat := by
        simp only [Pending.accepts, Bool.and_eq_true, decide_eq_true_eq] at haccepts
        exact haccepts.1
      split at h
      · next hmissing =>
        obtain ⟨rest, -, rfl⟩ := map_eq_ok_iff.1 h
        have hjoin : 0x80 ≤ p.join b := by
          have hvalue := hp.last hmissing
          unfold Pending.join
          omega
        refine ⟨_, rest, rfl, fun hdot => ?_⟩
        have := eq_of_ofNat_eq_dot hdot
        omega
      · next m hmissing =>
        have hjoin : 2 ≤ p.join b := by
          have hnext := hp.next
          unfold Pending.join
          omega
        have hlong : Pending.IsLong ⟨p.length + 1, m, 0x80, 0xBF, p.join b⟩ :=
          ⟨fun _ => hjoin, by simp only; omega⟩
        exact ih hlong h
    · cases h

/-- Only bytes of dots are decoded to dots, and only no bytes to nothing. -/
theorem eq_dots_of_decodeFrom {index n : Nat} {bs : List UInt8}
    (h : decodeFrom index none bs = .ok (List.replicate n '.')) : bs = List.replicate n dotByte := by
  induction bs generalizing index n with
  | nil =>
    rw [decodeFrom, Except.ok.injEq, eq_comm, List.replicate_eq_nil_iff] at h
    rw [h, List.replicate_zero]
  | cons b bs ih =>
    rw [decodeFrom] at h
    have hfirst : ∀ c rest, c :: rest = List.replicate n '.' →
        c = '.' ∧ ∃ m, n = m + 1 ∧ rest = List.replicate m '.' := by
      intro c rest hcons
      cases n with
      | zero => cases hcons
      | succ m =>
        rw [List.replicate_succ, List.cons.injEq] at hcons
        exact ⟨hcons.1, m, rfl, hcons.2⟩
    split at h
    · obtain ⟨rest, hrest, hcons⟩ := map_eq_ok_iff.1 h
      obtain ⟨hdot, m, rfl, rfl⟩ := hfirst _ rest hcons
      have hb : b = dotByte := UInt8.toNat_inj.1 (eq_of_ofNat_eq_dot hdot)
      rw [ih hrest, hb, List.replicate_succ]
    · split at h
      · next p hp =>
        obtain ⟨c, rest, hcons, hc⟩ := decodeFrom_pending (isLong_of_lead? hp) h
        exact absurd (hfirst c rest hcons.symm).1 hc
      · cases h

theorem decode_dots_iff {n : Nat} {bs : List UInt8} :
    decode bs = .ok (List.replicate n '.') ↔ bs = List.replicate n dotByte := by
  constructor
  · exact eq_dots_of_decodeFrom
  · rintro rfl
    have hencode : encode (List.replicate n '.') = List.replicate n dotByte := by
      induction n with
      | zero => rfl
      | succ n ih =>
        rw [List.replicate_succ, encode, List.flatMap_cons, ← encode, ih]
        rfl
    rw [← hencode, decode_encode]

end Utf8

namespace Percent

/-- What coded text consists of: unreserved characters and percent signs. -/
def isCoded (c : Char) : Bool := isUnreserved c || c == '%'

theorem isCoded_of_mem_encodeChars {cs : List Char} {c : Char} (h : c ∈ encodeChars cs) :
    isCoded c = true := by
  have hupper : ∀ n : Fin 16, isCoded (Hex.upper n) = true := by decide
  rw [encodeChars, List.mem_flatMap] at h
  obtain ⟨d, -, hd⟩ := h
  unfold encodeChar at hd
  split at hd
  · next hunreserved =>
    rw [List.mem_singleton] at hd
    rw [hd, isCoded, hunreserved, Bool.true_or]
  · obtain ⟨b, -, hb⟩ := List.mem_flatMap.1 hd
    have hbound := b.toNat_lt
    simp only [encodeByte, List.mem_cons, List.not_mem_nil, or_false] at hb
    rcases hb with rfl | rfl | rfl
    · decide
    · exact hupper ⟨b.toNat / 16, by omega⟩
    · exact hupper ⟨b.toNat % 16, by omega⟩

theorem ne_of_isCoded {c stop : Char} (h : isCoded c = true) (hstop : isCoded stop = false) :
    c ≠ stop := by
  rintro rfl
  rw [h] at hstop
  cases hstop

theorem not_mem_encodeChars {c : Char} (h : isCoded c = false) (cs : List Char) :
    c ∉ encodeChars cs := fun hmem => ne_of_isCoded (isCoded_of_mem_encodeChars hmem) h rfl

/-- Coded text has no blanks or controls. -/
theorem lt_of_isCoded {c : Char} (h : isCoded c = true) : ' ' < c := by
  have hlow : ∀ n : Fin 33, isCoded (Char.ofNat n) = false := by decide
  rw [← Char.not_le]
  intro hle
  have hn : c.toNat < 33 := by
    have hval : c.toNat ≤ (' ' : Char).toNat := hle
    have hspace : (' ' : Char).toNat = 32 := rfl
    omega
  have hcoded := hlow ⟨c.toNat, hn⟩
  rw [Char.ofNat_toNat, h] at hcoded
  cases hcoded

theorem encodeChars_eq_nil_iff {cs : List Char} : encodeChars cs = [] ↔ cs = [] := by
  constructor
  · intro h
    have hdecode := decodeChars_encodeChars cs
    rw [h] at hdecode
    exact (Except.ok.inj hdecode).symm
  · rintro rfl
    rfl

/-- Coded text begins with an escaped byte or with a character that stands for itself. -/
theorem bytes_cons (c : Char) (cs : List Char) :
    (∃ high low rest byte, cs = high :: low :: rest ∧ escaped? c high low = some byte ∧
      bytes (c :: cs) = byte :: bytes rest) ∨ bytes (c :: cs) = Utf8.encodeChar c ++ bytes cs := by
  match cs with
  | [] => exact .inr (by simp [bytes])
  | [b] => exact .inr (by simp [bytes])
  | high :: low :: rest =>
    rw [bytes]
    cases hescaped : escaped? c high low with
    | some byte => exact .inl ⟨high, low, rest, byte, rfl, hescaped, rfl⟩
    | none => exact .inr rfl

theorem encodeChar_ne_nil (c : Char) : Utf8.encodeChar c ≠ [] := by
  intro h
  have hdecode := Utf8.decode_encode [c]
  rw [Utf8.encode, List.flatMap_singleton, h] at hdecode
  cases hdecode

/-- Only the empty text is decoded to nothing. -/
theorem decodeChars_eq_nil_iff {cs : List Char} : decodeChars cs = .ok [] ↔ cs = [] := by
  constructor
  · intro h
    have hbytes : bytes cs = [] := (Utf8.decode_dots_iff (n := 0)).1 h
    cases cs with
    | nil => rfl
    | cons c cs =>
      obtain ⟨_, _, _, _, -, -, heq⟩ | heq := bytes_cons c cs
      · rw [heq] at hbytes
        cases hbytes
      · rw [heq, List.append_eq_nil_iff] at hbytes
        exact absurd hbytes.1 (encodeChar_ne_nil c)
  · rintro rfl
    rfl

end Percent

end DocQuery

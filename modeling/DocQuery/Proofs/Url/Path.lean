import DocQuery.Proofs.Text.Cut
import DocQuery.Proofs.Text.Percent
import DocQuery.Url.Path

/-! Paths without dot segments. A segment counts as dots exactly if dots are what it is decoded to,
and none of them is left in a path that was read. -/
namespace DocQuery

theorem Hex.value?_eq_some {c : Char} {n : Nat} (h : value? c = some n) :
    n < 16 ∧ (c = lower n ∨ c = upper n) := by
  have hall : ∀ m : Fin 128, (value? (Char.ofNat m)).all (fun k =>
      decide (k < 16) && (Char.ofNat m == lower k || Char.ofNat m == upper k)) = true := by
    decide
  have hascii : c.toNat < 128 := by
    have hbound : ∀ d : Char, d.toNat < 128 → c ≤ d → c.toNat < 128 := by
      intro d hd hle
      have hval : c.toNat ≤ d.toNat := hle
      omega
    unfold value? at h
    split at h
    · next hdigit => exact hbound '9' (by decide) hdigit.2
    · split at h
      · next hlower => exact hbound 'f' (by decide) hlower.2
      · split at h
        · next hupper => exact hbound 'F' (by decide) hupper.2
        · cases h
  have hc := hall ⟨c.toNat, hascii⟩
  simpa [Char.ofNat_toNat, h] using hc

namespace Url

open Percent Utf8

theorem escaped?_dot_iff {mark high low : Char} :
    escaped? mark high low = some dotByte ↔
      mark = '%' ∧ high = '2' ∧ (low = 'e' ∨ low = 'E') := by
  constructor
  · intro h
    rw [escaped?] at h
    split at h
    · next hmark =>
      obtain ⟨x, hx, h⟩ := Option.bind_eq_some_iff.1 h
      obtain ⟨y, hy, h⟩ := Option.bind_eq_some_iff.1 h
      obtain ⟨hx', hhigh⟩ := Hex.value?_eq_some hx
      obtain ⟨hy', hlow⟩ := Hex.value?_eq_some hy
      have hbyte : 16 * x + y = 0x2E := by
        have hvalue := congrArg UInt8.toNat (Option.some.inj h)
        rw [toNat_ofNat_of_lt (by omega)] at hvalue
        exact hvalue
      obtain rfl : x = 2 := by omega
      obtain rfl : y = 14 := by omega
      refine ⟨hmark, ?_, hlow⟩
      rcases hhigh with rfl | rfl <;> rfl
    · cases h
  · rintro ⟨rfl, rfl, rfl | rfl⟩ <;> decide

/-- Bytes of dots come from plain dots and from escaped ones. -/
theorem starts_dots {c : Char} {cs : List Char} {n : Nat}
    (h : bytes (c :: cs) = List.replicate n dotByte) :
    c = '.' ∨ ∃ low rest, c = '%' ∧ cs = '2' :: low :: rest ∧ (low = 'e' ∨ low = 'E') := by
  have hdots : ∀ b ∈ bytes (c :: cs), b = dotByte := by
    intro b hb
    rw [h] at hb
    exact List.eq_of_mem_replicate hb
  obtain ⟨high, low, rest, byte, rfl, hescaped, heq⟩ | heq := bytes_cons c cs
  · have hbyte : byte = dotByte := hdots byte (by simp [heq])
    rw [hbyte] at hescaped
    obtain ⟨rfl, rfl, hlow⟩ := escaped?_dot_iff.1 hescaped
    exact .inr ⟨low, rest, rfl, rfl, hlow⟩
  · have hchar : Utf8.encodeChar c = List.replicate (Utf8.encodeChar c).length dotByte :=
      List.eq_replicate_iff.2 ⟨rfl, fun b hb => hdots b (by simp [heq, hb])⟩
    have hdecode := decode_dots_iff.2 hchar
    have hself := decode_encode [c]
    rw [Utf8.encode, List.flatMap_singleton, hdecode] at hself
    have hmem : c ∈ List.replicate (Utf8.encodeChar c).length '.' := by
      rw [Except.ok.inj hself]
      exact List.mem_singleton_self c
    exact .inl (List.eq_of_mem_replicate hmem)

theorem bytes_dot (cs : List Char) : bytes ('.' :: cs) = dotByte :: bytes cs := by
  rw [bytes_cons_of_ne (by decide)]
  rfl

theorem bytes_escaped_dot {low : Char} (h : low = 'e' ∨ low = 'E') (cs : List Char) :
    bytes ('%' :: '2' :: low :: cs) = dotByte :: bytes cs := by
  rw [bytes, escaped?_dot_iff.2 ⟨rfl, rfl, h⟩]

theorem cons_eq_dots_iff {bs : List UInt8} {count : Option Nat} {n : Nat}
    (h : ∀ m, count = some m ↔ bs = List.replicate m dotByte) :
    count.map (· + 1) = some n ↔ dotByte :: bs = List.replicate n dotByte := by
  cases n with
  | zero => simp
  | succ n => simp [List.replicate_succ, ← h]

/-- A segment counts as dots exactly if it is decoded to them. -/
theorem dots?_eq_some_iff {cs : List Char} {n : Nat} :
    dots? cs = some n ↔ decodeChars cs = .ok (List.replicate n '.') := by
  rw [decodeChars, decode_dots_iff]
  induction cs using dots?.induct generalizing n with
  | case1 =>
    rw [dots?, bytes, Option.some.injEq, eq_comm (b := List.replicate n dotByte),
      List.replicate_eq_nil_iff, eq_comm]
  | case2 rest ih =>
    rw [dots?, bytes_dot]
    exact cons_eq_dots_iff fun m => ih
  | case3 low rest hlow ih =>
    rw [dots?, if_pos hlow, bytes_escaped_dot hlow]
    exact cons_eq_dots_iff fun m => ih
  | case4 low rest hlow =>
    rw [dots?, if_neg hlow]
    refine iff_of_false (by simp) fun h => ?_
    obtain hdot | ⟨low', rest', -, hcs, hlow'⟩ := starts_dots h
    · exact absurd hdot (by decide)
    · cases hcs
      exact hlow hlow'
  | case5 cs hnil hdot hescaped =>
    rw [dots?.eq_4 cs hnil hdot hescaped]
    refine iff_of_false (by simp) fun h => ?_
    cases cs with
    | nil => exact hnil rfl
    | cons c rest =>
      obtain rfl | ⟨low, rest', rfl, rfl, -⟩ := starts_dots h
      · exact hdot rest rfl
      · exact hescaped low rest' rfl

theorem slash_not_mem_of_dots {cs : List Char} {n : Nat} (h : dots? cs = some n) : '/' ∉ cs := by
  induction cs using dots?.induct generalizing n with
  | case1 => simp
  | case2 rest ih =>
    obtain ⟨m, hm, -⟩ := Option.map_eq_some_iff.1 h
    simp [ih hm]
  | case3 low rest hlow ih =>
    rw [dots?, if_pos hlow] at h
    obtain ⟨m, hm, -⟩ := Option.map_eq_some_iff.1 h
    rcases hlow with rfl | rfl <;> simp [ih hm]
  | case4 low rest hlow =>
    rw [dots?, if_neg hlow] at h
    cases h
  | case5 cs hnil hdot hescaped =>
    rw [dots?.eq_4 cs hnil hdot hescaped] at h
    cases h

/-- A segment that stays in a path: it is neither one dot nor two. -/
def Stays (segment : List Char) : Prop :=
  dots? segment ≠ some 1 ∧ dots? segment ≠ some 2

theorem resolveSegments_last {segment : List Char} (h : Stays segment) (above : List (List Char)) :
    resolveSegments above [segment] = (segment :: above).reverse := by
  rw [resolveSegments]
  split
  · next hone => exact absurd hone h.1
  · next htwo => exact absurd htwo h.2
  · rfl

theorem resolveSegments_next {segment : List Char} {rest : List (List Char)} (h : Stays segment)
    (hrest : rest ≠ []) (above : List (List Char)) :
    resolveSegments above (segment :: rest) = resolveSegments (segment :: above) rest := by
  match rest, hrest with
  | _ :: _, _ =>
    rw [resolveSegments]
    · split
      · next hone => exact absurd hone h.1
      · next htwo => exact absurd htwo h.2
      · rfl
    · simp

/-- A path of one segment that stays is its own resolution. -/
theorem resolvePath_segment {segment : List Char} (hslash : '/' ∉ segment) (h : Stays segment) :
    resolvePath ('/' :: segment) = '/' :: segment := by
  rw [resolvePath, Text.cutAll_of_not_mem hslash, resolveSegments_last h, joinSegments,
    List.reverse_singleton, List.flatMap_singleton]

theorem mem_goUp {segment : List Char} {above : List (List Char)} (h : segment ∈ goUp above) :
    segment ∈ above := by
  cases above with
  | nil => cases h
  | cons last above =>
    rw [goUp] at h
    split at h
    · exact h
    · exact List.mem_cons_of_mem _ h

/-- Resolution keeps segments that stay, and what it adds is empty. -/
theorem forall_resolveSegments {P : List Char → Prop} {above segments : List (List Char)}
    (hempty : P []) (habove : ∀ s ∈ above, P s) (hsegments : ∀ s ∈ segments, Stays s → P s) :
    ∀ s ∈ resolveSegments above segments, P s := by
  have hlast : ∀ {s : List Char} {above : List (List Char)}, P s → (∀ s ∈ above, P s) →
      ∀ s' ∈ (s :: above).reverse, P s' := fun hs habove s' hs' =>
    List.forall_mem_cons.2 ⟨hs, habove⟩ s' (List.mem_reverse.1 hs')
  have hup : ∀ {above : List (List Char)}, (∀ s ∈ above, P s) → ∀ s ∈ goUp above, P s :=
    fun habove s hs => habove s (mem_goUp hs)
  induction above, segments using resolveSegments.induct with
  | case1 above => simpa [resolveSegments] using habove
  | case2 above segment hone =>
    rw [resolveSegments, hone]
    exact hlast hempty habove
  | case3 above segment htwo =>
    rw [resolveSegments, htwo]
    exact hlast hempty (hup habove)
  | case4 above segment hone htwo =>
    have hstays : Stays segment := ⟨hone, htwo⟩
    rw [resolveSegments_last hstays]
    exact hlast (hsegments segment (by simp) hstays) habove
  | case5 above segment rest hrest hone ih =>
    have hrest' := ih habove fun s hs => hsegments s (by simp [hs])
    rwa [resolveSegments, hone]
    exact hrest
  | case6 above segment rest hrest htwo ih =>
    have hrest' := ih (hup habove) fun s hs => hsegments s (by simp [hs])
    rwa [resolveSegments, htwo]
    exact hrest
  | case7 above segment rest hrest hone htwo ih =>
    have hstays : Stays segment := ⟨hone, htwo⟩
    rw [resolveSegments_next hstays hrest]
    exact ih (List.forall_mem_cons.2 ⟨hsegments segment (by simp) hstays, habove⟩)
      fun s hs => hsegments s (by simp [hs])

theorem trimmed_joinSegments {segments : List (List Char)} {t : List Char}
    (hsegments : ∀ s ∈ segments, '/' ∉ s) (hslash : '/' ∉ t) (hne : t ≠ [])
    (h : (joinSegments segments).dropWhile (· == '/') = t) : t ∈ segments := by
  induction segments with
  | nil => exact absurd h.symm hne
  | cons s segments ih =>
    rw [joinSegments, List.flatMap_cons, ← joinSegments, List.cons_append,
      List.dropWhile_cons_of_pos (by rfl)] at h
    cases s with
    | nil => exact List.mem_cons_of_mem _ (ih (fun s hs => hsegments s (by simp [hs])) h)
    | cons c s =>
      have hc : c ≠ '/' := by
        rintro rfl
        exact hsegments _ List.mem_cons_self (by simp)
      rw [List.cons_append, List.dropWhile_cons_of_neg (by simpa using hc)] at h
      cases segments with
      | nil =>
        rw [joinSegments, List.flatMap_nil, List.append_nil] at h
        simp [h]
      | cons next rest =>
        refine absurd ?_ hslash
        rw [← h]
        simp [joinSegments]

/-- What a resolved path holds after its slashes is neither one dot nor two. -/
theorem trimmed_resolvePath (path : List Char) :
    Stays ((resolvePath path).dropWhile (· == '/')) := by
  have hjoined : ∀ segments : List (List Char), (∀ s ∈ segments, '/' ∉ s) →
      Stays ((joinSegments (resolveSegments [] segments)).dropWhile (· == '/')) := by
    intro segments hsegments
    have hstay : ∀ s ∈ resolveSegments [] segments, '/' ∉ s ∧ Stays s :=
      forall_resolveSegments ⟨by simp, by simp [Stays, dots?]⟩ (by simp)
        fun s hs hstays => ⟨hsegments s hs, hstays⟩
    have hnot : ∀ n, n ≠ 0 →
        dots? ((joinSegments (resolveSegments [] segments)).dropWhile (· == '/')) = some n →
        Stays ((joinSegments (resolveSegments [] segments)).dropWhile (· == '/')) := by
      intro n hn hdots
      have hne : (joinSegments (resolveSegments [] segments)).dropWhile (· == '/') ≠ [] := by
        intro hnil
        rw [hnil, dots?] at hdots
        exact hn (Option.some.inj hdots).symm
      exact (hstay _ (trimmed_joinSegments (fun s hs => (hstay s hs).1)
        (slash_not_mem_of_dots hdots) hne rfl)).2
    exact ⟨fun h => (hnot 1 (by decide) h).1 h, fun h => (hnot 2 (by decide) h).2 h⟩
  unfold resolvePath
  split
  · simp [Stays, dots?]
  · exact hjoined _ fun s hs => (Text.mem_cutAll_spec hs).1
  · exact hjoined _ fun s hs => (Text.mem_cutAll_spec hs).1

end Url

end DocQuery

import DocQuery.Filter
import Mathlib.Data.List.Infix

/-! The string operators find what they say. The regular expression that an operator is translated to
is read from its text, and what it then looks for is what the operator was given. -/
namespace DocQuery

namespace Pattern

/-- One character, or any run of characters. -/
inductive Piece where
  | char (c : Char)
  | run
  deriving DecidableEq

/-- The pieces make up the whole of a text, one after the other. -/
def Covers : List Piece → List Char → Prop
  | [], text => text = []
  | .char c :: ps, text => ∃ rest, text = c :: rest ∧ Covers ps rest
  | .run :: ps, text => ∃ rest, rest <:+ text ∧ Covers ps rest

instance decidableCovers : (ps : List Piece) → (text : List Char) → Decidable (Covers ps text)
  | [], text => inferInstanceAs (Decidable (text = []))
  | .char _ :: _, [] => .isFalse fun h => by simp [Covers] at h
  | .char c :: ps, d :: rest =>
      have := decidableCovers ps rest
      decidable_of_iff (d = c ∧ Covers ps rest) (by simp [Covers, and_assoc])
  | .run :: ps, text =>
      have := decidableCovers ps
      decidable_of_iff (∃ rest ∈ text.tails, Covers ps rest) (by simp [Covers])

theorem covers_chars_iff {text subject : List Char} :
    Covers (text.map .char) subject ↔ subject = text := by
  induction text generalizing subject with
  | nil => rfl
  | cons c text ih => simp [Covers, ih]

/-- A `like` pattern from left to right: `\%` is a percent sign, any other `%` is any run, and all
else, other backslashes too, is itself. -/
def pieces : List Char → List Piece
  | [] => []
  | '\\' :: '%' :: rest => .char '%' :: pieces rest
  | '%' :: rest => .run :: pieces rest
  | c :: rest => .char c :: pieces rest

example : Covers (pieces "\\\\%.%".toList) "\\%.rs".toList ∧
    ¬ Covers (pieces "\\\\%.%".toList) "\\x.rs".toList := by decide

/-- The characters that mean something to a regular expression outside of brackets. -/
def metaChars : List Char := ['\\', '.', '^', '$', '*', '+', '?', '(', ')', '[', '\x7b', '|']

/-- The pieces of a regular expression, and whether a dollar sign ends it. An ordinary character is
itself, and so is an escaped one that is no letter or digit; of all else only `.*` is read. -/
def readPieces? : List Char → Option (List Piece × Bool)
  | [] => some ([], false)
  | ['$'] => some ([], true)
  | '\\' :: c :: rest =>
      if c.isAlphanum then none else (readPieces? rest).map fun r => (.char c :: r.1, r.2)
  | '.' :: '*' :: rest => (readPieces? rest).map fun r => (.run :: r.1, r.2)
  | c :: rest =>
      if c ∈ metaChars then none else (readPieces? rest).map fun r => (.char c :: r.1, r.2)

/-- Pieces that are looked for anywhere in a subject, unless at its start or at its end only. -/
structure Regex where
  fromStart : Bool
  pieces : List Piece
  toEnd : Bool
  deriving DecidableEq

namespace Regex

def read? : List Char → Option Regex
  | '^' :: rest => (readPieces? rest).map fun r => ⟨true, r.1, r.2⟩
  | cs => (readPieces? cs).map fun r => ⟨false, r.1, r.2⟩

def Finds (r : Regex) (subject : List Char) : Prop :=
  ∃ before found after, subject = before ++ found ++ after ∧ Covers r.pieces found ∧
    (r.fromStart = true → before = []) ∧ (r.toEnd = true → after = [])

theorem finds_anywhere_iff {text subject : List Char} :
    Finds ⟨false, text.map .char, false⟩ subject ↔ text <:+: subject := by
  simp [Finds, covers_chars_iff, List.IsInfix, eq_comm]

theorem finds_atStart_iff {text subject : List Char} :
    Finds ⟨true, text.map .char, false⟩ subject ↔ text <+: subject := by
  simp [Finds, covers_chars_iff, List.IsPrefix, eq_comm]

theorem finds_atEnd_iff {text subject : List Char} :
    Finds ⟨false, text.map .char, true⟩ subject ↔ text <:+ subject := by
  simp [Finds, covers_chars_iff, List.IsSuffix, eq_comm]

theorem finds_whole_iff {ps : List Piece} {subject : List Char} :
    Finds ⟨true, ps, true⟩ subject ↔ Covers ps subject := by
  simp [Finds]

end Regex

/-- The text is a regular expression, and the subject matches it. -/
def Matches (regex subject : List Char) : Prop :=
  ∃ r, Regex.read? regex = some r ∧ r.Finds subject

theorem matches_iff_finds {regex : List Char} {r : Regex} (h : Regex.read? regex = some r)
    {subject : List Char} : Matches regex subject ↔ r.Finds subject := by
  simp [Matches, h]

/-- A piece as a regular expression. -/
def Piece.regex : Piece → List Char
  | .char c => escapeChar c
  | .run => ['.', '*']

theorem escape_eq_flatMap (text : List Char) :
    escape text = (text.map Piece.char).flatMap Piece.regex := by
  rw [escape, List.flatMap_map]
  rfl

/-- Every character that means something is escaped, and an escape does not make a letter or digit
mean something. -/
theorem special_spec : metaChars ⊆ special ∧ ∀ c ∈ special, c.isAlphanum = false := by
  constructor
  · decide
  · simp [special]

theorem readPieces?_escapeChar (c : Char) (rest : List Char) :
    readPieces? (escapeChar c ++ rest) =
      (readPieces? rest).map fun r => (.char c :: r.1, r.2) := by
  unfold escapeChar
  split
  · next hspecial =>
    have hplain := special_spec.2 c (List.contains_iff_mem.1 hspecial)
    rw [List.cons_append, List.singleton_append, readPieces?, hplain]
    rfl
  · next hordinary =>
    have hmeta : c ∉ metaChars := by
      intro hmem
      exact hordinary (List.contains_iff_mem.2 (special_spec.1 hmem))
    have hne : c ≠ '$' ∧ c ≠ '\\' ∧ c ≠ '.' := by
      refine ⟨?_, ?_, ?_⟩ <;> rintro rfl <;> exact hmeta (by decide)
    rw [List.singleton_append, readPieces?, if_neg hmeta]
    · exact fun heq => absurd heq hne.1
    · exact fun _ _ heq => absurd heq hne.2.1
    · exact fun _ heq => absurd heq hne.2.2

/-- What pieces are written as is read as those pieces. -/
theorem readPieces?_regex (ps : List Piece) (rest : List Char) :
    readPieces? (ps.flatMap Piece.regex ++ rest) =
      (readPieces? rest).map fun r => (ps ++ r.1, r.2) := by
  induction ps with
  | nil => simp
  | cons p ps ih =>
    rw [List.flatMap_cons, List.append_assoc]
    cases p with
    | char c =>
      rw [Piece.regex, readPieces?_escapeChar, ih, Option.map_map]
      rfl
    | run =>
      rw [Piece.regex, List.cons_append, List.singleton_append, readPieces?, ih, Option.map_map]
      rfl

/-- The loop writes out what it kept and then each of the pieces that are left. -/
theorem likingFrom_eq (regex literal pattern : List Char) :
    likingFrom regex literal pattern =
      regex ++ escape literal ++ (pieces pattern).flatMap Piece.regex ++ ['$'] := by
  fun_induction likingFrom regex literal pattern with
  | case1 regex literal => simp [pieces]
  | case2 regex literal rest ih => simp [ih, pieces, escape, Piece.regex]
  | case3 regex literal rest ih =>
    rw [ih]
    simp [pieces, escape, Piece.regex]
  | case4 regex literal c rest hpercent hrun ih =>
    have hpieces : pieces (c :: rest) = .char c :: pieces rest := by
      rw [pieces]
      · exact hpercent
      · exact hrun
    simp [ih, hpieces, escape, Piece.regex]

namespace Regex

/-- A regular expression as it is written. -/
def text (r : Regex) : List Char :=
  (if r.fromStart then ['^'] else []) ++ r.pieces.flatMap Piece.regex ++
    if r.toEnd then ['$'] else []

theorem readPieces?_text (ps : List Piece) (toEnd : Bool) :
    readPieces? (ps.flatMap Piece.regex ++ if toEnd then ['$'] else []) = some (ps, toEnd) := by
  rw [readPieces?_regex]
  cases toEnd <;> simp [readPieces?]

/-- What is written is read back. -/
theorem read?_text (r : Regex) : read? r.text = some r := by
  obtain ⟨fromStart, ps, toEnd⟩ := r
  have hbody := readPieces?_text ps toEnd
  cases fromStart with
  | true =>
    rw [text, if_pos rfl, List.append_assoc, List.singleton_append, read?, hbody]
    rfl
  | false =>
    rw [text, if_neg Bool.false_ne_true, List.nil_append]
    unfold read?
    split
    · next rest heq =>
      -- A start sign is written nowhere but in front, for no pieces are read from it.
      rw [heq] at hbody
      simp [readPieces?, metaChars] at hbody
    · rw [hbody]
      rfl

end Regex

theorem containing_eq (text : List Char) :
    containing text = Regex.text ⟨false, text.map .char, false⟩ := by
  simp [containing, Regex.text, escape_eq_flatMap]

theorem startingWith_eq (text : List Char) :
    startingWith text = Regex.text ⟨true, text.map .char, false⟩ := by
  simp [startingWith, Regex.text, escape_eq_flatMap]

theorem endingWith_eq (text : List Char) :
    endingWith text = Regex.text ⟨false, text.map .char, true⟩ := by
  simp [endingWith, Regex.text, escape_eq_flatMap]

theorem liking_eq (pattern : List Char) :
    liking pattern = Regex.text ⟨true, pieces pattern, true⟩ := by
  simp [liking, likingFrom_eq, Regex.text, escape]

end Pattern

namespace Modifier

open Pattern

/-- The modifier is translated to a regular expression that is matched by the subjects of a kind and
by no others. -/
def Selects (m : Modifier) (kind : List Char → Prop) : Prop :=
  ∃ regex : String, m.native = .ok ("$regex", .string regex) ∧
    ∀ subject : String, Matches regex.toList subject.toList ↔ kind subject.toList

theorem Selects.congr {m : Modifier} {kind kind' : List Char → Prop} (h : m.Selects kind)
    (hkind : ∀ subject, kind subject ↔ kind' subject) : m.Selects kind' := by
  obtain ⟨regex, hnative, hmatches⟩ := h
  exact ⟨regex, hnative, fun subject => (hmatches subject).trans (hkind _)⟩

/-- An operator that writes a regular expression selects what that one finds. -/
theorem selects_finds (operator : Operator) {text : String} {pattern : List Char → List Char}
    {r : Regex} (hnative : native ⟨operator, .string text⟩ = regex ⟨operator, .string text⟩ pattern)
    (hpattern : pattern text.toList = r.text) :
    Selects ⟨operator, .string text⟩ r.Finds := by
  refine ⟨String.ofList (pattern text.toList), hnative, fun subject => ?_⟩
  rw [String.toList_ofList, hpattern, matches_iff_finds r.read?_text]

/-- The string operators select what they say: the subjects that contain a text, that start with it or
end with it, and those that a `like` pattern covers from end to end. -/
theorem string_operators_select (text : String) :
    Selects ⟨.contains, .string text⟩ (fun subject => text.toList <:+: subject) ∧
    Selects ⟨.startsWith, .string text⟩ (fun subject => text.toList <+: subject) ∧
    Selects ⟨.endsWith, .string text⟩ (fun subject => text.toList <:+ subject) ∧
    Selects ⟨.like, .string text⟩ (Covers (pieces text.toList)) := by
  have hcontains := selects_finds .contains rfl (containing_eq text.toList)
  have hstarts := selects_finds .startsWith rfl (startingWith_eq text.toList)
  have hends := selects_finds .endsWith rfl (endingWith_eq text.toList)
  have hlike := selects_finds .like rfl (liking_eq text.toList)
  exact ⟨hcontains.congr fun _ => Regex.finds_anywhere_iff,
    hstarts.congr fun _ => Regex.finds_atStart_iff, hends.congr fun _ => Regex.finds_atEnd_iff,
    hlike.congr fun _ => Regex.finds_whole_iff⟩

end Modifier

end DocQuery

import DocQuery.Json.Reading
import DocQuery.Proofs.Json.Order

/-! What is read from text has distinct keys: the reader writes each member over one of the same key,
and nothing else makes an object. -/
namespace DocQuery.Json

namespace Token

/-- A token stands for no value that could hold a key twice. -/
def IsDistinct (t : Token) : Prop := ∀ v, t = .scalar v → v.KeysDistinct

theorem ofWord?_distinct {word : List Char} {t : Token} (h : ofWord? word = some t) :
    t.IsDistinct := by
  intro v hv
  subst hv
  rw [ofWord?] at h
  split at h
  · cases h
    simp
  · split at h
    · cases h
      simp
    · split at h
      · cases h
        simp
      · rcases Option.map_eq_some_iff.1 h with ⟨n, -, hn⟩
        cases hn
        simp

theorem ofMark?_distinct {c : Char} {t : Token} (h : ofMark? c = some t) : t.IsDistinct := by
  intro v hv
  subst hv
  unfold ofMark? at h
  split at h <;> cases h

theorem betweenStep?_distinct {c : Char} {next : Scan} {tokens : List Token}
    (h : betweenStep? c = some (next, tokens)) : ∀ t ∈ tokens, t.IsDistinct := by
  rw [betweenStep?] at h
  split at h
  · cases h
    simp
  · split at h
    · cases h
      simp
    · split at h
      · next token hmark =>
        cases h
        simpa using ofMark?_distinct hmark
      · cases h
        simp

theorem step?_distinct {state next : Scan} {c : Char} {tokens : List Token}
    (h : step? state c = some (next, tokens)) : ∀ t ∈ tokens, t.IsDistinct := by
  cases state with
  | between => exact betweenStep?_distinct h
  | quoted read =>
    rw [step?] at h
    split at h
    · obtain ⟨s, -, hs⟩ := Option.bind_eq_some_iff.1 h
      cases hs
      simp [IsDistinct]
    · split at h <;> cases h <;> simp
  | escape read =>
    cases h
    simp
  | word read =>
    rw [step?] at h
    split at h
    · obtain ⟨token, htoken, h⟩ := Option.bind_eq_some_iff.1 h
      obtain ⟨⟨next', tokens'⟩, hbetween, h⟩ := Option.bind_eq_some_iff.1 h
      cases h
      exact List.forall_mem_cons.2 ⟨ofWord?_distinct htoken, betweenStep?_distinct hbetween⟩
    · cases h
      simp

theorem finish?_distinct {state : Scan} {tokens : List Token} (h : finish? state = some tokens) :
    ∀ t ∈ tokens, t.IsDistinct := by
  cases state with
  | between =>
    cases h
    simp
  | word read =>
    obtain ⟨token, htoken, h⟩ := Option.bind_eq_some_iff.1 h
    cases h
    simpa using ofWord?_distinct htoken
  | quoted read | escape read => cases h

theorem scan?_distinct {state : Scan} {cs : List Char} {tokens : List Token}
    (h : scan? state cs = some tokens) : ∀ t ∈ tokens, t.IsDistinct := by
  induction cs generalizing state tokens with
  | nil => exact finish?_distinct h
  | cons c cs ih =>
    obtain ⟨⟨next, first⟩, hfirst, h⟩ := Option.bind_eq_some_iff.1 h
    obtain ⟨rest, hrest, h⟩ := Option.bind_eq_some_iff.1 h
    cases h
    exact List.forall_mem_append.2 ⟨step?_distinct hfirst, ih hrest⟩

end Token

theorem keysDistinct_insert {members : Entries Json} {v : Json} (key : String)
    (h : KeysDistinct (.object members)) (hv : v.KeysDistinct) :
    KeysDistinct (.object (members.insert key v)) := by
  obtain ⟨hnodup, hmembers⟩ := keysDistinct_object_iff.1 h
  refine keysDistinct_object_iff.2 ⟨Entries.keys_nodup_insert hnodup key v, ?_⟩
  intro m hm
  rcases Entries.mem_insert hm with rfl | hm
  · exact hv
  · exact hmembers m hm

namespace Reading

/-- Each part of a value that is read so far has distinct keys. -/
def Frame.IsDistinct : Frame → Prop
  | .array items => ∀ item ∈ items, item.KeysDistinct
  | .member members _ => (Json.object members).KeysDistinct

theorem Frame.IsDistinct.push {items : List Json} {v : Json} (h : (Frame.array items).IsDistinct)
    (hv : v.KeysDistinct) : (Frame.array (v :: items)).IsDistinct :=
  List.forall_mem_cons.2 ⟨hv, h⟩

def Phase.IsDistinct : Phase → Prop
  | .value _ => True
  | .key members _ => (Json.object members).KeysDistinct
  | .colon members _ => (Json.object members).KeysDistinct
  | .after v => v.KeysDistinct

structure State.IsDistinct (s : State) : Prop where
  frames : ∀ f ∈ s.frames, f.IsDistinct
  phase : s.phase.IsDistinct

/-- Reading one more token keeps the keys distinct. -/
theorem step?_distinct {depth : Nat} {s next : State} {t : Token} (hs : s.IsDistinct)
    (ht : t.IsDistinct) (h : step? depth s t = some next) : next.IsDistinct := by
  have hframes := hs.frames
  have hphase := hs.phase
  unfold step? at h
  split at h
  · cases h
    exact ⟨hframes, ht _ rfl⟩
  · cases h
    exact ⟨hframes, keysDistinct_string _⟩
  · split at h
    · cases h
      exact ⟨List.forall_mem_cons.2 ⟨by simp [Frame.IsDistinct], hframes⟩, trivial⟩
    · cases h
  · split at h
    · cases h
      exact ⟨hframes, keysDistinct_object_iff.2 (by simp)⟩
    · cases h
  · cases h
    rw [List.forall_mem_cons] at hframes
    exact ⟨hframes.2, keysDistinct_array_iff.2 (by simpa [Frame.IsDistinct] using hframes.1)⟩
  · cases h
    exact ⟨hframes, hphase⟩
  · cases h
    exact ⟨hframes, hphase⟩
  · cases h
    exact ⟨List.forall_mem_cons.2 ⟨hphase, hframes⟩, trivial⟩
  · cases h
    rw [List.forall_mem_cons] at hframes
    exact ⟨List.forall_mem_cons.2 ⟨hframes.1.push hphase, hframes.2⟩, trivial⟩
  · cases h
    rw [List.forall_mem_cons] at hframes
    have hitems := hframes.1.push hphase
    exact ⟨hframes.2, keysDistinct_array_iff.2 fun item hm => hitems item (List.mem_reverse.1 hm)⟩
  · cases h
    rw [List.forall_mem_cons] at hframes
    exact ⟨hframes.2, keysDistinct_insert _ hframes.1 hphase⟩
  · cases h
    rw [List.forall_mem_cons] at hframes
    exact ⟨hframes.2, keysDistinct_insert _ hframes.1 hphase⟩
  · cases h

/-- Reading a run of tokens keeps the keys distinct. -/
theorem foldlM_distinct {depth : Nat} {s last : State} {tokens : List Token} (hs : s.IsDistinct)
    (ht : ∀ t ∈ tokens, t.IsDistinct) (h : tokens.foldlM (step? depth) s = some last) :
    last.IsDistinct := by
  induction tokens generalizing s with
  | nil =>
    cases h
    exact hs
  | cons t tokens ih =>
    rw [List.foldlM_cons] at h
    obtain ⟨next, hnext, h⟩ := Option.bind_eq_some_iff.1 h
    rw [List.forall_mem_cons] at ht
    exact ih (step?_distinct hs ht.1 hnext) ht.2 h

end Reading

/-- Every value that is read from text has distinct keys. -/
theorem keysDistinct_of_ofText? {text : String} {v : Json} (h : ofText? text = some v) :
    v.KeysDistinct := by
  obtain ⟨tokens, htokens, h⟩ := Option.bind_eq_some_iff.1 h
  obtain ⟨last, hlast, h⟩ := Option.bind_eq_some_iff.1 h
  have hstart : Reading.State.start.IsDistinct := ⟨by simp [Reading.State.start], trivial⟩
  have hdistinct := Reading.foldlM_distinct hstart (Token.scan?_distinct htokens) hlast
  unfold Reading.finished? at h
  split at h
  · cases h
    exact hdistinct.phase
  · cases h

end DocQuery.Json

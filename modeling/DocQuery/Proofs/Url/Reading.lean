import DocQuery.Proofs.Sequencing
import DocQuery.Proofs.Url.Path
import DocQuery.Url

/-! How a URL is read that has a host, perhaps with a port, after its user information. -/
namespace DocQuery.Url

/-- The text without the characters that a URL ignores wherever they stand. -/
def visible (cs : List Char) : List Char := cs.filter fun c => !isIgnored c

def authority (cs : List Char) : List Char := (clean cs).takeWhile fun c => !endsAuthority c

def afterAuthority (cs : List Char) : List Char := (clean cs).dropWhile fun c => !endsAuthority c

def isPathChar (c : Char) : Bool := c != '?' && c != '#'

/-- The URL of an authority, cut in two, and what is located there. -/
def located (userinfo place rest : List Char) : Url where
  user := (credentials userinfo).1
  password := (credentials userinfo).2
  host := (cutHost false place).1
  path := resolvePath (rest.takeWhile isPathChar)
  query := queryOf (rest.dropWhile isPathChar)

/-- What has to hold for a text to be read as a URL. -/
theorem read_eq {cs userinfo place : List Char}
    (hcut : (Text.cutLast? '@' (authority cs)).getD ([], authority cs) = (userinfo, place)) :
    read cs = do
      if authority cs = ['@'] ∧ afterAuthority cs ≠ [] then throw .emptyHost
      checkHost (cutHost false place).1
      if (cutHost false place).1 = [] ∧ (cutHost false place).2 ≠ [] then throw .emptyHost
      let rest ← skipPort (cutHost false place).2
      if (cutHost false place).1 = [] ∧
        ((credentials userinfo).1 ≠ [] ∨ (credentials userinfo).2.isSome = true) then
          throw .emptyHost
      return located userinfo place (rest ++ afterAuthority cs) := by
  unfold authority at hcut
  unfold read
  simp only [hcut]
  rfl

theorem read_eq_ok_iff {cs userinfo place : List Char} {url : Url}
    (hcut : (Text.cutLast? '@' (authority cs)).getD ([], authority cs) = (userinfo, place)) :
    read cs = .ok url ↔ ¬ (authority cs = ['@'] ∧ afterAuthority cs ≠ []) ∧
      checkHost (cutHost false place).1 = .ok () ∧
      ¬ ((cutHost false place).1 = [] ∧ (cutHost false place).2 ≠ []) ∧
      ∃ rest, skipPort (cutHost false place).2 = .ok rest ∧
        ¬ ((cutHost false place).1 = [] ∧
          ((credentials userinfo).1 ≠ [] ∨ (credentials userinfo).2.isSome = true)) ∧
        located userinfo place (rest ++ afterAuthority cs) = url := by
  rw [read_eq hcut, guard_eq_ok_iff, andThen_eq_ok_iff, guard_eq_ok_iff, bind_eq_ok_iff]
  simp only [guard_eq_ok_iff, pure_eq_ok, Except.ok.injEq]

theorem not_ignored_of_lt {c : Char} (h : ' ' < c) : isIgnored c = false := by
  cases hignored : isIgnored c with
  | false => rfl
  | true =>
    simp only [isIgnored, Bool.or_eq_true, beq_iff_eq] at hignored
    rcases hignored with (rfl | rfl) | rfl <;> exact absurd h (by decide)

theorem visible_of_lt {cs : List Char} (h : ∀ c ∈ cs, ' ' < c) : visible cs = cs := by
  rw [visible, List.filter_eq_self]
  intro c hc
  rw [not_ignored_of_lt (h c hc)]
  rfl

/-- Where a text ends in characters above the blank, to clean it is to drop ignored characters. -/
theorem clean_append {xs ys : List Char} (hne : ys ≠ []) (hys : ∀ c ∈ ys, ' ' < c) :
    clean (xs ++ ys) = visible xs ++ ys := by
  obtain ⟨c, cs, hreverse⟩ := List.exists_cons_of_ne_nil (mt List.reverse_eq_nil_iff.1 hne)
  have hc : ' ' < c := hys c (List.mem_reverse.1 (by simp [hreverse]))
  have hkept : ((xs ++ ys).reverse.dropWhile fun c => decide (c ≤ ' ')) = (xs ++ ys).reverse := by
    rw [List.reverse_append, hreverse, List.cons_append,
      List.dropWhile_cons_of_neg (by simpa using hc)]
  rw [clean, hkept, List.reverse_reverse, List.filter_append, ← visible, ← visible,
    visible_of_lt hys]

/-- User information with the sign that ends it. -/
def prefixOf : Option (List Char) → List Char
  | none => []
  | some userinfo => userinfo ++ ['@']

/-- A text whose authority is cut into user information, if there is any, and a place. -/
structure Splits (cs : List Char) (userinfo : Option (List Char)) (place tail : List Char) :
    Prop where
  text : clean cs = prefixOf userinfo ++ place ++ tail
  inUser : ∀ c ∈ prefixOf userinfo, endsAuthority c = false
  inPlace : ∀ c ∈ place, endsAuthority c = false
  noAt : '@' ∉ place
  atTail : ∀ c, tail.head? = some c → endsAuthority c = true

namespace Splits

variable {cs place tail : List Char} {userinfo : Option (List Char)}

theorem inAuthority (h : Splits cs userinfo place tail) :
    ∀ c ∈ prefixOf userinfo ++ place, (!endsAuthority c) = true := by
  intro c hc
  have hends : endsAuthority c = false := by
    rcases List.mem_append.1 hc with hc | hc
    · exact h.inUser c hc
    · exact h.inPlace c hc
  rw [hends]
  rfl

theorem atAfter (h : Splits cs userinfo place tail) :
    ∀ c, tail.head? = some c → (!endsAuthority c) = false := by
  intro c hc
  rw [h.atTail c hc]
  rfl

theorem authority_eq (h : Splits cs userinfo place tail) :
    authority cs = prefixOf userinfo ++ place := by
  rw [authority, h.text, Text.takeWhile_append_stop h.inAuthority h.atAfter]

theorem afterAuthority_eq (h : Splits cs userinfo place tail) : afterAuthority cs = tail := by
  rw [afterAuthority, h.text, Text.dropWhile_append_stop h.inAuthority h.atAfter]

theorem cut_eq (h : Splits cs userinfo place tail) :
    (Text.cutLast? '@' (authority cs)).getD ([], authority cs) = (userinfo.getD [], place) := by
  rw [h.authority_eq]
  cases userinfo with
  | none =>
    rw [prefixOf, List.nil_append, Text.cutLast?_eq_none.2 h.noAt]
    rfl
  | some userinfo =>
    rw [prefixOf, List.append_assoc, List.singleton_append, Text.cutLast?_append h.noAt]
    rfl

end Splits

/-- A host with a port or without one, and nothing else. -/
structure IsPlace (place : List Char) : Prop where
  valid : checkHost (cutHost false place).1 = .ok ()
  nonempty : (cutHost false place).1 ≠ []
  port : skipPort (cutHost false place).2 = .ok []

/-- A text with a place in its authority is read as the URL located there. -/
theorem read_of_splits {cs place tail : List Char} {userinfo : Option (List Char)}
    (h : Splits cs userinfo place tail) (hplace : IsPlace place) :
    read cs = .ok (located (userinfo.getD []) place tail) := by
  have hne : place ≠ [] := by
    rintro rfl
    exact hplace.nonempty rfl
  have hat : ¬ (authority cs = ['@'] ∧ afterAuthority cs ≠ []) := by
    rintro ⟨hauthority, -⟩
    rw [h.authority_eq, List.append_eq_singleton_iff] at hauthority
    rcases hauthority with ⟨-, heq⟩ | ⟨-, heq⟩
    · exact h.noAt (by simp [heq])
    · exact hne heq
  rw [read_eq_ok_iff h.cut_eq]
  refine ⟨hat, hplace.valid, fun hhost => hplace.nonempty hhost.1, [], hplace.port,
    fun hhost => hplace.nonempty hhost.1, ?_⟩
  rw [h.afterAuthority_eq, List.nil_append]

theorem located_path {userinfo place path query : List Char}
    (hpath : ∀ c ∈ path, isPathChar c = true)
    (hquery : ∀ c, query.head? = some c → isPathChar c = false) :
    located userinfo place (path ++ query) =
      { user := (credentials userinfo).1
        password := (credentials userinfo).2
        host := (cutHost false place).1
        path := resolvePath path
        query := queryOf query } := by
  rw [located, Text.takeWhile_append_stop hpath hquery, Text.dropWhile_append_stop hpath hquery]

/-- Followed by a slash, the seed is read as a URL with a host and the root path. -/
def Stands (seed : List Char) : Prop :=
  ∃ url, read (seed ++ ['/']) = .ok url ∧ url.host ≠ [] ∧ url.path = ['/']

theorem mem_cutHost (bracketed : Bool) (cs : List Char) :
    ((cutHost bracketed cs).2 = [] ∨ (cutHost bracketed cs).2.head? = some ':') ∧
      ∀ c ∈ (cutHost bracketed cs).2, c ∈ cs := by
  induction cs generalizing bracketed with
  | nil => simp [cutHost]
  | cons c cs ih =>
    rw [cutHost]
    split
    · next hcolon => simp [hcolon.1]
    · exact ⟨(ih _).1, fun d hd => List.mem_cons_of_mem _ ((ih _).2 d hd)⟩

/-- Only a backslash and what follows it can be left after a port. -/
theorem rest_of_skipPort {place rest : List Char}
    (h : skipPort (cutHost false place).2 = .ok rest) :
    (rest = [] ∨ rest.head? = some '\\') ∧ ∀ c ∈ rest, c ∈ place := by
  obtain ⟨hhead, hmem⟩ := mem_cutHost false place
  match hport : (cutHost false place).2 with
  | [] =>
    rw [hport] at h
    cases h
    simp
  | c :: cs =>
    rw [hport] at h hhead hmem
    obtain rfl : c = ':' := by simpa using hhead
    rw [skipPort] at h
    split at h
    · cases h
    · split at h
      · next hrest =>
        cases h
        refine ⟨by simpa using hrest, fun d hd => hmem d ?_⟩
        exact List.mem_cons_of_mem _ ((List.dropWhile_suffix _).subset hd)
      · cases h

/-- A path that begins with a backslash is not resolved to the root. -/
theorem resolvePath_backslash {rest tail : List Char} (hhead : rest.head? = some '\\')
    (hslash : '/' ∉ rest) (htail : tail = [] ∨ tail = ['/']) :
    resolvePath (rest ++ tail) ≠ ['/'] := by
  obtain ⟨rest, rfl⟩ := List.head?_eq_some_iff.1 hhead
  have hstays : Stays ('\\' :: rest) := by simp [Stays, dots?]
  have hresolve : resolvePath ('\\' :: rest ++ tail) =
      joinSegments (resolveSegments [] (Text.cutAll '/' ('\\' :: rest ++ tail))) := rfl
  rw [hresolve]
  rcases htail with rfl | rfl
  · rw [List.append_nil, Text.cutAll_of_not_mem hslash, resolveSegments_last hstays]
    simp [joinSegments]
  · rw [Text.cutAll_append hslash, Text.cutAll, resolveSegments_next hstays (by simp),
      resolveSegments_last ⟨by decide, by decide⟩]
    simp [joinSegments]

theorem not_endsAuthority_iff {c : Char} :
    endsAuthority c = false ↔ c ≠ '/' ∧ c ≠ '?' ∧ c ≠ '#' := by
  simp [endsAuthority, and_assoc]

/-- Only a fragment can end an authority that has no slash and no question mark. -/
theorem cut_fragment {cs : List Char} (h : ∀ c ∈ cs, c ≠ '/' ∧ c ≠ '?') :
    ∃ place fragment, cs = place ++ fragment ∧ (∀ c ∈ place, endsAuthority c = false) ∧
      (fragment = [] ∨ fragment.head? = some '#') := by
  refine ⟨cs.takeWhile fun c => !endsAuthority c, cs.dropWhile fun c => !endsAuthority c,
    List.takeWhile_append_dropWhile.symm, ?_, ?_⟩
  · intro c hc
    simpa using List.mem_takeWhile_imp hc
  · have hhead := List.head?_dropWhile_not (fun c => !endsAuthority c) cs
    cases hfragment : cs.dropWhile fun c => !endsAuthority c with
    | nil => exact .inl rfl
    | cons c rest =>
      rw [hfragment] at hhead
      have hends : endsAuthority c = true := by simpa using hhead
      have hmem : c ∈ cs := (List.dropWhile_suffix _).subset (by rw [hfragment]; simp)
      have hc := h c hmem
      have hhash : c = '#' := by simpa [endsAuthority, hc.1, hc.2] using hends
      exact .inr (by rw [hhash]; rfl)

/-- A path is the root only if nothing is left after the port and no fragment takes it away. -/
theorem eq_nil_of_root {rest fragment : List Char} (hrest : rest = [] ∨ rest.head? = some '\\')
    (hends : ∀ c ∈ rest, endsAuthority c = false)
    (hfragment : fragment = [] ∨ fragment.head? = some '#')
    (h : resolvePath ((rest ++ (fragment ++ ['/'])).takeWhile isPathChar) = ['/']) :
    rest = [] ∧ fragment = [] := by
  have hchars : ∀ c ∈ rest, isPathChar c = true := by
    intro c hc
    simp [isPathChar, not_endsAuthority_iff.1 (hends c hc)]
  have hslash : '/' ∉ rest := by
    intro hc
    exact (not_endsAuthority_iff.1 (hends _ hc)).1 rfl
  rcases hfragment with rfl | hhash
  · have hpath : ∀ c ∈ rest ++ ['/'], isPathChar c = true := by
      intro c hc
      rcases List.mem_append.1 hc with hc | hc
      · exact hchars c hc
      · rw [List.mem_singleton.1 hc]; rfl
    rw [List.nil_append, List.takeWhile_eq_self_iff.2 hpath] at h
    rcases hrest with rfl | hhead
    · exact ⟨rfl, rfl⟩
    · exact absurd h (resolvePath_backslash hhead hslash (.inr rfl))
  · -- A fragment leaves no path but what follows a backslash.
    rw [Text.takeWhile_append_stop hchars (by simp [hhash, isPathChar])] at h
    rcases hrest with rfl | hhead
    · cases h
    · have hnot := resolvePath_backslash hhead hslash (.inl rfl)
      rw [List.append_nil] at hnot
      exact absurd h hnot

/-- A seed with a slash after it is cut where a fragment begins, and nowhere else. -/
theorem splits_seed {seed : List Char} (hseed : ∀ c ∈ seed, c ≠ '/' ∧ c ≠ '?') (hat : '@' ∉ seed) :
    ∃ place fragment, visible seed = place ++ fragment ∧
      (fragment = [] ∨ fragment.head? = some '#') ∧
      Splits (seed ++ ['/']) none place (fragment ++ ['/']) := by
  have hmem : ∀ c ∈ visible seed, c ∈ seed := fun c hc => (List.mem_filter.1 hc).1
  obtain ⟨place, fragment, hvisible, hplace, hfragment⟩ :=
    cut_fragment fun c hc => hseed c (hmem c hc)
  refine ⟨place, fragment, hvisible, hfragment, ?_, by simp [prefixOf], hplace, ?_, ?_⟩
  · rw [clean_append (by simp) (by simp), hvisible, prefixOf, List.nil_append, List.append_assoc]
  · intro hmemAt
    exact hat (hmem _ (by simp [hvisible, hmemAt]))
  · rcases hfragment with rfl | hhash
    · simp [endsAuthority]
    · simp [hhash, endsAuthority]

/-- What stands on its own is a place once ignored characters are dropped. -/
theorem isPlace_of_stands {seed : List Char} (hseed : ∀ c ∈ seed, c ≠ '/' ∧ c ≠ '?')
    (hat : '@' ∉ seed) (h : Stands seed) :
    IsPlace (visible seed) ∧ ∀ c ∈ visible seed, endsAuthority c = false := by
  obtain ⟨url, hread, hhost, hpath⟩ := h
  obtain ⟨place, fragment, hvisible, hfragment, hsplits⟩ := splits_seed hseed hat
  obtain ⟨-, hvalid, -, rest, hrest, -, rfl⟩ := (read_eq_ok_iff hsplits.cut_eq).1 hread
  obtain ⟨hbackslash, hmem⟩ := rest_of_skipPort hrest
  rw [hsplits.afterAuthority_eq] at hpath
  obtain ⟨rfl, rfl⟩ := eq_nil_of_root hbackslash (fun c hc => hsplits.inPlace c (hmem c hc))
    hfragment hpath
  rw [hvisible, List.append_nil]
  exact ⟨⟨hvalid, hhost, hrest⟩, hsplits.inPlace⟩

end DocQuery.Url

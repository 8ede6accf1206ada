import DocQuery.Proofs.ConnectionString.Reading

/-! The credentials of a connection string. Its authority is cut out of the text and then read once
more as a part of a URL; both readings find the same user and password unless a number sign stands
among them. -/
namespace DocQuery

namespace Url

/-- Up to a character above the blank, to clean a text is to drop ignored characters. -/
theorem clean_append_cons {c : Char} (hc : ' ' < c) (xs ys : List Char) :
    clean (xs ++ c :: ys) = visible xs ++ c :: clean ys := by
  have hblank : decide (c ≤ ' ') = false := by simpa using hc
  have hdrop : ((xs ++ c :: ys).reverse.dropWhile fun c => decide (c ≤ ' ')).reverse =
      xs ++ c :: (ys.reverse.dropWhile fun c => decide (c ≤ ' ')).reverse := by
    rw [List.reverse_append, List.reverse_cons, List.append_assoc, List.dropWhile_append]
    split
    · next hempty =>
      rw [List.isEmpty_iff] at hempty
      simp [hblank, hempty]
    · simp
  rw [clean, hdrop, List.filter_append, List.filter_cons, ← visible]
  simp [clean, not_ignored_of_lt hc]

theorem mem_of_mem_clean {c : Char} {cs : List Char} (h : c ∈ clean cs) : c ∈ cs := by
  have hkept := (List.mem_filter.1 h).1
  rw [List.mem_reverse] at hkept
  exact List.mem_reverse.1 ((List.dropWhile_suffix _).subset hkept)

theorem lt_of_endsAuthority {c : Char} (h : endsAuthority c = true) : ' ' < c := by
  simp only [endsAuthority, Bool.or_eq_true, beq_iff_eq] at h
  rcases h with (rfl | rfl) | rfl <;> decide

/-- What is left of an authority after a seed begins with a character that ends authorities. -/
theorem mem_seed_of_mem_authority {seed tail : List Char} {c : Char}
    (htail : ∀ t, tail.head? = some t → endsAuthority t = true) (h : c ∈ authority (seed ++ tail)) :
    c ∈ seed := by
  rw [authority] at h
  cases tail with
  | nil =>
    rw [List.append_nil] at h
    exact mem_of_mem_clean ((List.takeWhile_prefix _).subset h)
  | cons t rest =>
    have hends := htail t rfl
    rw [clean_append_cons (lt_of_endsAuthority hends), List.takeWhile_append] at h
    have hvisible : c ∈ visible seed := by
      split at h
      · simpa [hends] using h
      · exact (List.takeWhile_prefix _).subset h
    exact (List.mem_filter.1 hvisible).1

/-- The authority is cut after the visible part of user information that holds no character that
ends authorities. -/
theorem cut_authority {userinfo seed tail : List Char}
    (huser : ∀ c ∈ userinfo, endsAuthority c = false) (hseed : '@' ∉ seed)
    (htail : ∀ t, tail.head? = some t → endsAuthority t = true) :
    Text.cutLast? '@' (authority (userinfo ++ '@' :: (seed ++ tail))) =
      some (visible userinfo, authority (seed ++ tail)) := by
  have hkept : ∀ c ∈ visible userinfo ++ ['@'], (!endsAuthority c) = true := by
    intro c hc
    rcases List.mem_append.1 hc with hc | hc
    · rw [huser c (List.mem_filter.1 hc).1]
      rfl
    · rw [List.mem_singleton.1 hc]
      rfl
  have hauthority : authority (userinfo ++ '@' :: (seed ++ tail)) =
      visible userinfo ++ '@' :: authority (seed ++ tail) := by
    rw [authority, clean_append_cons (by decide), List.append_cons,
      List.takeWhile_append_of_pos hkept, List.append_assoc, List.singleton_append, ← authority]
  rw [hauthority, Text.cutLast?_append]
  exact fun hat => hseed (mem_seed_of_mem_authority htail hat)

/-- The parts of user information before and after its first colon. -/
def userParts (userinfo : List Char) : List Char × List Char :=
  (Text.cutFirst? ':' userinfo).getD (userinfo, [])

theorem userParts_visible (userinfo : List Char) :
    userParts (visible userinfo) =
      (visible (userParts userinfo).1, visible (userParts userinfo).2) := by
  have hcut : Text.cutFirst? ':' (visible userinfo) =
      (Text.cutFirst? ':' userinfo).map fun q => (visible q.1, visible q.2) :=
    Text.cutFirst?_filter rfl userinfo
  rw [userParts, userParts, hcut]
  cases Text.cutFirst? ':' userinfo <;> rfl

theorem credentials_eq (userinfo : List Char) :
    credentials userinfo = ((userParts userinfo).1,
      if (userParts userinfo).2 = [] then none else some (userParts userinfo).2) := by
  unfold credentials userParts
  split
  · next h => simp [h]
  · next h => simp [h]
  · next user password hne h =>
    rw [h, Option.getD_some, if_neg hne]

/-- User and password of a URL come from the part of its authority before the last at sign. -/
theorem credentials_of_read {cs userinfo place : List Char} {url : Url}
    (hcut : Text.cutLast? '@' (authority cs) = some (userinfo, place)) (h : read cs = .ok url) :
    (url.user, url.password) = credentials userinfo := by
  have hparts : (Text.cutLast? '@' (authority cs)).getD ([], authority cs) = (userinfo, place) := by
    rw [hcut, Option.getD_some]
  obtain ⟨-, -, -, rest, -, -, rfl⟩ := (read_eq_ok_iff hparts).1 h
  rfl

end Url

namespace ConnectionString

theorem mapM_decode_eq {password : List Char} {read : Option String} :
    (if password = [] then none else some password).mapM decode = .ok read ↔
      decodeNonempty password = .ok read := by
  unfold decodeNonempty
  by_cases h : password = []
  · simp [h]
  · simp [h]

/-- The first seed stands in the authority, and what follows it begins where the authority ends. -/
theorem cut_first {rest userinfo seeds : List Char}
    (hcut : Text.cutLast? '@' (rest.takeWhile fun c => !endsSeeds c) = some (userinfo, seeds)) :
    (∀ c ∈ userinfo, endsSeeds c = false) ∧ '@' ∉ (Text.cutAll ',' seeds).headD [] ∧
      ∀ t, (rest.dropWhile fun c => !endsSeeds c).head? = some t → Url.endsAuthority t = true := by
  obtain ⟨heq, hat⟩ := Text.cutLast?_eq_some hcut
  refine ⟨fun c hc => ?_, fun hmem => ?_, fun t ht => ?_⟩
  · have hmem : c ∈ rest.takeWhile fun c => !endsSeeds c := by simp [heq, hc]
    simpa using List.mem_takeWhile_imp hmem
  · exact hat ((Text.mem_cutAll_spec (Text.headD_mem_cutAll ',' seeds)).2 '@' hmem)
  · have hends := List.head?_dropWhile_not (fun c => !endsSeeds c) rest
    rw [ht] at hends
    have hstop : endsSeeds t = true := by simpa using hends
    simp only [endsSeeds, Bool.or_eq_true, beq_iff_eq] at hstop
    rcases hstop with rfl | rfl <;> rfl

/-- A connection string that is read keeps the credentials of its authority, as long as they hold no
number sign: what is visible of the user and of the password is decoded, and an empty part counts as
absent. -/
theorem credentials_kept {text : String} {c : ConnectionString} {userinfo seeds : List Char}
    (h : ofText text = .ok c)
    (hcut : Text.cutLast? '@' (authorityOf text) = some (userinfo, seeds)) (hhash : '#' ∉ userinfo) :
    decodeNonempty (Url.visible (Url.userParts userinfo).1) = .ok c.user ∧
      decodeNonempty (Url.visible (Url.userParts userinfo).2) = .ok c.password := by
  have hparts := ofRest_of_ofText h
  rw [ofRest_eq_ofParts, cutAuthority, ← authorityOf, hcut] at hparts
  obtain ⟨-, -, -, url, hurl, hdecodes⟩ := ofParts_eq_ok_iff.1 hparts
  obtain ⟨huser, hseed, htail⟩ := cut_first hcut
  have hplain : ∀ ch ∈ userinfo, Url.endsAuthority ch = false := by
    intro ch hch
    have hne : ch ≠ '#' := fun heq => hhash (heq ▸ hch)
    simpa [Url.endsAuthority, hne, endsSeeds] using huser ch hch
  rw [List.append_assoc, List.append_assoc, List.singleton_append] at hurl
  have hcredentials := Url.credentials_of_read (Url.cut_authority hplain hseed htail) hurl
  rw [Url.credentials_eq, Url.userParts_visible, Prod.mk.injEq] at hcredentials
  obtain ⟨hname, hword⟩ := hcredentials
  have huserRead := hdecodes.user
  have hpasswordRead := hdecodes.password
  rw [hname] at huserRead
  rw [hword, mapM_decode_eq] at hpasswordRead
  exact ⟨huserRead, hpasswordRead⟩

/-- An escaped colon, a tab, a second at sign and a second colon in front of two seeds. -/
def guarded : ConnectionString where
  user := some "a:b"
  password := some "p@:w"
  hosts := ["h", "k"]
  database := some "db"
  options := []

theorem guarded_credentials :
    (ofText "a%3A\tb:p@:w@h,k/db" = .ok guarded ∧
      Text.cutLast? '@' (authorityOf "a%3A\tb:p@:w@h,k/db") =
        some ("a%3A\tb:p@:w".toList, "h,k".toList) ∧ '#' ∉ "a%3A\tb:p@:w".toList) ∧
    decodeNonempty (Url.visible "a%3A\tb".toList) = .ok guarded.user ∧
      decodeNonempty (Url.visible "p@:w".toList) = .ok guarded.password := by
  have hread : ofText "a%3A\tb:p@:w@h,k/db" = .ok guarded := by decide +kernel
  have hcut : Text.cutLast? '@' (authorityOf "a%3A\tb:p@:w@h,k/db") =
      some ("a%3A\tb:p@:w".toList, "h,k".toList) := by decide +kernel
  exact ⟨⟨hread, hcut, by decide⟩, credentials_kept hread hcut (by decide)⟩

/-- A number sign in front of the at sign ends the authority of the URL, so the credentials that the
authority of the connection string holds are lost; a tab within them is dropped. -/
theorem number_sign_loses_credentials :
    (Text.cutLast? '@' (authorityOf "u#x:p@h/db") = some ("u#x:p".toList, "h".toList) ∧
      Url.userParts "u#x:p".toList = ("u#x".toList, "p".toList) ∧
      ofText "u#x:p@h/db" = .ok ⟨none, none, ["h"], none, []⟩) ∧
    Text.cutLast? '@' (authorityOf "u\tx@h") = some ("u\tx".toList, "h".toList) ∧
      decode "u\tx".toList = .ok "u\tx" ∧
      ofText "u\tx@h" = .ok ⟨some "ux", none, ["h"], none, []⟩ := by
  decide +kernel

end ConnectionString

end DocQuery

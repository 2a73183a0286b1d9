import CardDavMcp.BearerConfinement
import CardDavMcp.Library.UrlReference

namespace CardDavMcp.UrlReferences

open Library Library.Utf8Text Library.UrlReference Urls BearerConfinement

/-- What the URL library makes of URLs and references: which `http` and `https`
URLs it can have, what a reference with a host of its own names for a scheme,
which references lead to a URL that is too long for it, which segments of a path
`..` does not leave (under `http` the Standard has none; a library may keep drive
letters), and how it escapes the segments of a path and a query. -/
structure UrlStandard where
  Valid : Url → Prop
  named : Text → Text → Option Url
  TooLong : Url → Text → Prop
  kept : Text → Bool
  segment : Text → Text
  query : Text → Text

/-- The URL library resolves references against `http` and `https` URLs as the
URL Standard says. -/
structure StandardUrls (U : UrlCrate) (S : UrlStandard) : Prop where
  push : ∀ u s v, S.Valid u → U.pushSegment u s = some v → S.Valid v ∧ SameAuthority u v
  clear : ∀ u, S.Valid u → S.Valid (U.clearFragment (U.clearQuery u)) ∧
    SameAuthority u (U.clearFragment (U.clearQuery u)) ∧
    (U.clearFragment (U.clearQuery u)).query = none ∧
    (U.clearFragment (U.clearQuery u)).fragment = none
  path : ∀ u, S.Valid u → u.path ≠ [] ∧ ∀ c ∈ u.path, isWhitespace c = false
  /-- A URL is escaped already. -/
  escaped : ∀ u, S.Valid u →
    (segmentsOf u.path).map S.segment = segmentsOf u.path ∧ u.query.map S.query = u.query
  slash : ∀ s, '/' ∉ s → '/' ∉ S.segment s
  ext : ∀ u v, S.Valid u → S.Valid v → SameAuthority u v → u.path = v.path → u.query = v.query →
    u.fragment = v.fragment → u = v
  /-- The path of a URL names it, unless it looks like a host. -/
  ownPath : ∀ b u, S.Valid b → S.Valid u → SameAuthority b u → u.query = none →
    u.fragment = none → ¬ ['/', '/'] <+: u.path → U.join b u.path = some u
  /-- What stands after two slashes is a host and not in the path. -/
  hostInPath : ∀ b u v, S.Valid b → S.Valid u → ['/', '/'] <+: u.path →
    U.join b u.path = some v → v.path.length < u.path.length
  /-- A reference with a host depends on no more than the scheme. -/
  named : ∀ b l, S.Valid b → OwnHost b.scheme l → U.join b l = S.named b.scheme l
  namedValid : ∀ b l u, S.Valid b → OwnHost b.scheme l → S.named b.scheme l = some u →
    u.scheme = b.scheme → S.Valid u
  /-- Any other reference names something at the authority of the URL. -/
  tooLong : ∀ b l, S.Valid b → OwnHost b.scheme l = false →
    (U.join b l = none ↔ S.TooLong b l)
  placed : ∀ b l r u, S.Valid b → relativePart b.scheme l = some r → OwnHost b.scheme l = false →
    U.join b l = some u → S.Valid u ∧ SameAuthority b u ∧
      (u.path, u.query) =
        UrlReference.escaped S.segment S.query (reached S.kept b.path b.query r) ∧
      (u.fragment = none ↔ '#' ∉ r)
  alike : ∀ b b' l r, S.Valid b → S.Valid b' → SameAuthority b b' →
    relativePart b.scheme l = some r → OwnHost b.scheme l = false →
    reached S.kept b.path b.query r = reached S.kept b'.path b'.query r → U.join b l = U.join b' l

/-- A URL with the authority of another. -/
def urlOf (u : Url) (path : Text) (query fragment : Option Text) : Url :=
  { u with
    serialization := u.scheme ++ "://".toList ++ u.hostStr.getD [] ++ path ++
      (query.map ('?' :: ·)).getD [] ++ (fragment.map ('#' :: ·)).getD []
    path, query, fragment }

theorem urlOf_congr {u u' : Url} (h : SameAuthority u u') (path : Text)
    (query fragment : Option Text) :
    urlOf u path query fragment = urlOf u' path query fragment := by
  rw [urlOf, urlOf, h.scheme, h.host, h.port, h.username, h.password]

def isPlainChar (c : Char) : Bool := c.isAlphanum || c = '/' || c = '-' || c = '.' || c = '_'

/-- A path in normal form and without escapes. -/
def isPlainPath (path : Text) : Bool :=
  path.head? = some '/' && path.all isPlainChar && (segmentsOf path).all (dotsOf · = none)

structure Plain (u : Url) : Prop where
  normal : urlOf u u.path u.query u.fragment = u
  path : isPlainPath u.path

/-- A URL, if no part of the path has to be escaped. -/
def plainOnly (u : Url) (path : Text) (query fragment : Option Text) : Option Url :=
  if isPlainPath path then some (urlOf u path query fragment) else none

def absolute (t : Text) : Option Url :=
  match parsePlain t with
  | some u => plainOnly u u.path none none
  | none => none

def fragmentOf (r : Text) : Option Text := (splitOnce '#' r).map Prod.snd

/-- The URL at the host that a reference names after two slashes. -/
def atHost (scheme r : Text) : Option Url :=
  let rest := r.drop 2
  plainOnly
    { serialization := []
      scheme
      hostStr := some (rest.takeWhile (· ≠ '/'))
      portOrKnownDefault := some (if scheme = "http".toList then 80 else 443) }
    (rest.dropWhile (· ≠ '/')) none none

/-- What a reference with a host of its own names. -/
def namedStandard (scheme l : Text) : Option Url :=
  match relativePart scheme l with
  | none => absolute (stripped l)
  | some r => atHost scheme r

/-- As in the Standard, `..` leaves every segment. -/
def noneKept : Text → Bool := fun _ => false

def joinStandard (b : Url) (l : Text) : Option Url :=
  match relativePart b.scheme l with
  | none => namedStandard b.scheme l
  | some r =>
    if 2 ≤ (r.takeWhile isSlash).length then namedStandard b.scheme l
    else
      let (segments, query) := reached noneKept b.path b.query r
      plainOnly b (render segments) query (fragmentOf r)

/-- The library on plain inputs, with references resolved in full. -/
def standardUrls : UrlCrate where
  __ := plainUrls
  join := joinStandard
  clearQuery u := urlOf u u.path none u.fragment
  clearFragment u := urlOf u u.path u.query none
  pushSegment u s :=
    plainOnly u (if u.path.getLast? = some '/' then u.path ++ s else u.path ++ '/' :: s) u.query
      u.fragment

theorem plainOnly_eq_some {u v : Url} {path : Text} {query fragment : Option Text} :
    plainOnly u path query fragment = some v ↔
      isPlainPath path = true ∧ v = urlOf u path query fragment := by
  rw [plainOnly]
  split_ifs with h
  · simp [h, eq_comm]
  · simp [h]

theorem plain_of_plainOnly {u v : Url} {path : Text} {query fragment : Option Text}
    (h : plainOnly u path query fragment = some v) : Plain v := by
  obtain ⟨hpath, rfl⟩ := plainOnly_eq_some.mp h
  exact ⟨rfl, hpath⟩

theorem same_urlOf (u : Url) (path : Text) (query fragment : Option Text) :
    SameAuthority u (urlOf u path query fragment) := ⟨rfl, rfl, rfl, rfl, rfl⟩

theorem plain_named {scheme l : Text} {u : Url} (h : namedStandard scheme l = some u) :
    Plain u := by
  rw [namedStandard] at h
  split at h
  · rw [absolute] at h
    split at h
    · exact plain_of_plainOnly h
    · cases h
  · exact plain_of_plainOnly h

theorem join_named {b : Url} {l : Text} (h : OwnHost b.scheme l) :
    joinStandard b l = namedStandard b.scheme l := by
  rw [joinStandard]
  rw [OwnHost] at h
  cases hpart : relativePart b.scheme l with
  | none => rfl
  | some r =>
    rw [hpart, Option.all_some] at h
    exact if_pos (of_decide_eq_true h)

theorem join_placed {b : Url} {l r : Text} (hpart : relativePart b.scheme l = some r)
    (hown : OwnHost b.scheme l = false) : joinStandard b l =
      plainOnly b (render (reached noneKept b.path b.query r).1)
        (reached noneKept b.path b.query r).2 (fragmentOf r) := by
  rw [OwnHost, hpart, Option.all_some] at hown
  rw [joinStandard, hpart]
  exact if_neg (of_decide_eq_false hown)

theorem isPlainPath_iff {path : Text} : isPlainPath path = true ↔
    path.head? = some '/' ∧ (∀ c ∈ path, isPlainChar c) ∧
    ∀ s ∈ segmentsOf path, dotsOf s = none := by
  simp [isPlainPath, and_assoc]

theorem plain_ne {path : Text} (h : ∀ c ∈ path, isPlainChar c) {c : Char}
    (hc : isPlainChar c = false) : c ∉ path := fun hmem => by simp [h c hmem] at hc

theorem toNat_alphanum {c : Char} (h : c.isAlphanum) : 0x30 ≤ c.toNat ∧ c.toNat ≤ 0x7A := by
  have hrange {low high : Char} (h : low.val ≤ c.val ∧ c.val ≤ high.val) :
      low.toNat ≤ c.toNat ∧ c.toNat ≤ high.toNat :=
    ⟨UInt32.le_iff_toNat_le.mp h.1, UInt32.le_iff_toNat_le.mp h.2⟩
  rcases Bool.or_eq_true_iff.mp h with halpha | hdigit
  · rcases Bool.or_eq_true_iff.mp halpha with hupper | hlower
    · obtain ⟨hlow, hhigh⟩ := hrange (of_decide_eq_true hupper)
      exact ⟨le_trans (by decide) hlow, le_trans hhigh (by decide)⟩
    · obtain ⟨hlow, hhigh⟩ := Bool.and_eq_true_iff.mp hlower
      obtain ⟨hlow, hhigh⟩ := hrange ⟨of_decide_eq_true hlow, of_decide_eq_true hhigh⟩
      exact ⟨le_trans (by decide) hlow, le_trans hhigh (by decide)⟩
  · obtain ⟨hlow, hhigh⟩ := Bool.and_eq_true_iff.mp hdigit
    obtain ⟨hlow, hhigh⟩ := hrange ⟨of_decide_eq_true hlow, of_decide_eq_true hhigh⟩
    exact ⟨le_trans (by decide) hlow, le_trans hhigh (by decide)⟩

theorem toNat_plain {c : Char} (h : isPlainChar c) : 0x2D ≤ c.toNat ∧ c.toNat ≤ 0x7A := by
  simp only [isPlainChar, Bool.or_eq_true, decide_eq_true_eq] at h
  rcases h with (((h | rfl) | rfl) | rfl) | rfl
  · exact ⟨le_trans (by decide) (toNat_alphanum h).1, (toNat_alphanum h).2⟩
  all_goals decide

theorem isWhitespace_plain {c : Char} (h : isPlainChar c) : isWhitespace c = false := by
  have hall : ∀ n < 128, isPlainChar (Char.ofNat n) → isWhitespace (Char.ofNat n) = false := by
    decide +kernel
  have hbounds := toNat_plain h
  have hc := hall c.toNat (by omega)
  rw [Char.ofNat_toNat] at hc
  exact hc h

theorem stripped_plain {path : Text} (h : ∀ c ∈ path, isPlainChar c) : stripped path = path := by
  have hcontrol : ∀ c ∈ path, isControlOrSpace c = false := by
    intro c hc
    have hbounds := toNat_plain (h c hc)
    exact decide_eq_false (by omega)
  rw [stripped, trimBoth_of_forall hcontrol]
  refine List.filter_eq_self.mpr fun c hc => decide_eq_true ⟨?_, ?_, ?_⟩
  all_goals
    rintro rfl
    exact plain_ne h (by decide) hc

theorem relativePart_plain {path : Text} (h : ∀ c ∈ path, isPlainChar c) (scheme : Text) :
    relativePart scheme path = some path := by
  rw [relativePart, stripped_plain h, schemeOf, splitOnce_of_not_mem (plain_ne h (by decide))]

theorem pathAndQuery_plain {path : Text} (h : ∀ c ∈ path, isPlainChar c) :
    pathAndQuery path = (path, none) := by
  have hall : path.takeWhile (· ≠ '#') = path := by
    refine List.takeWhile_eq_self_iff.mpr fun c hc => decide_eq_true ?_
    rintro rfl
    exact plain_ne h (by decide) hc
  rw [pathAndQuery, hall, splitOnce_of_not_mem (plain_ne h (by decide))]

theorem splitSegments_plain {path : Text} (h : ∀ c ∈ path, isPlainChar c) :
    splitSegments path = path.splitOn '/' := by
  have hsame : (path.map fun c => if c = '\\' then '/' else c) = path := by
    refine (List.map_congr_left fun c hc => if_neg ?_).trans (List.map_id path)
    rintro rfl
    exact plain_ne h (by decide) hc
  rw [splitSegments, hsame]

theorem join_own {b u : Url} (hu : Plain u) (hsame : SameAuthority b u) (hquery : u.query = none)
    (hfragment : u.fragment = none) (hslashes : ¬ ['/', '/'] <+: u.path) :
    joinStandard b u.path = some u := by
  obtain ⟨hhead, hplain, hdots⟩ := isPlainPath_iff.mp hu.path
  obtain ⟨rest, hpath⟩ : ∃ rest, u.path = '/' :: rest := by
    cases hpath : u.path with
    | nil =>
      rw [hpath] at hhead
      cases hhead
    | cons c rest =>
      rw [hpath] at hhead
      exact ⟨rest, by rw [Option.some.inj hhead]⟩
  have hrest : ∀ c ∈ rest, isPlainChar c := fun c hc => hplain c (hpath ▸ List.mem_cons_of_mem _ hc)
  have hone : (u.path.takeWhile isSlash).length < 2 := by
    rw [hpath]
    cases rest with
    | nil => decide
    | cons c rest =>
      have hc : isSlash c = false := by
        rw [isSlash, Bool.or_eq_false_iff, decide_eq_false_iff_not, decide_eq_false_iff_not]
        constructor
        · rintro rfl
          exact hslashes (hpath ▸ ⟨rest, rfl⟩)
        · rintro rfl
          exact plain_ne hrest (by decide) List.mem_cons_self
      rw [List.takeWhile_cons_of_pos (by decide), List.takeWhile_cons_of_neg (by simp [hc])]
      decide
  have hsegments : segmentsOf u.path = rest.splitOn '/' := by
    rw [hpath, segmentsOf, List.splitOn_cons_eq_if_modifyHead, if_pos (beq_self_eq_true _)]
    rfl
  have hpart := relativePart_plain hplain b.scheme
  have hown : OwnHost b.scheme u.path = false := by
    rw [OwnHost, hpart, Option.all_some]
    exact decide_eq_false (by omega)
  have hreached : reached noneKept b.path b.query u.path = (segmentsOf u.path, none) := by
    rw [reached, hpath, if_pos (by rfl), List.drop_one, List.tail_cons, pathAndQuery_plain hrest,
      splitSegments_plain hrest, ← hsegments, walk_plain hdots, List.nil_append, hpath]
  rw [join_placed hpart hown, hreached, render_segmentsOf hhead, plainOnly_eq_some, fragmentOf,
    splitOnce_of_not_mem (plain_ne hplain (by decide)), Option.map_none]
  have hnormal := hu.normal
  rw [hquery, hfragment] at hnormal
  exact ⟨hu.path, hnormal.symm.trans (urlOf_congr hsame _ _ _).symm⟩

theorem path_atHost {scheme r : Text} {v : Url} (h : atHost scheme r = some v)
    (hlong : 2 ≤ r.length) : v.path.length < r.length := by
  obtain ⟨-, rfl⟩ := plainOnly_eq_some.mp h
  have hdrop := ((List.dropWhile_sublist (· ≠ '/') (l := r.drop 2))).length_le
  rw [List.length_drop] at hdrop
  change ((r.drop 2).dropWhile (· ≠ '/')).length < r.length
  omega

theorem fragmentOf_eq_none {r : Text} : fragmentOf r = none ↔ '#' ∉ r := by
  rw [fragmentOf, Option.map_eq_none_iff]
  exact splitOnce_eq_none

def plainStandard : UrlStandard where
  Valid := Plain
  named := namedStandard
  TooLong b l := joinStandard b l = none
  kept := noneKept
  segment := id
  query := id

theorem plain_standard : StandardUrls standardUrls plainStandard where
  push u s v _ h := by
    refine ⟨plain_of_plainOnly h, ?_⟩
    obtain ⟨-, rfl⟩ := plainOnly_eq_some.mp h
    exact same_urlOf ..
  clear u hu := ⟨⟨rfl, hu.path⟩, same_urlOf .., rfl, rfl⟩
  path u hu := by
    obtain ⟨hhead, hplain, -⟩ := isPlainPath_iff.mp hu.path
    refine ⟨?_, fun c hc => ?_⟩
    · rintro hnil
      rw [hnil] at hhead
      cases hhead
    · exact isWhitespace_plain (hplain c hc)
  escaped _ _ := ⟨List.map_id _, Option.map_id'⟩
  slash _ h := h
  ext u v hu hv hsame hpath hquery hfragment := by
    rw [← hu.normal, ← hv.normal, urlOf_congr hsame, hpath, hquery, hfragment]
  ownPath _ _ _ hu hsame hquery hfragment hslashes := join_own hu hsame hquery hfragment hslashes
  hostInPath b u v _ hu hslashes h := by
    obtain ⟨-, hplain, -⟩ := isPlainPath_iff.mp hu.path
    obtain ⟨rest, hrest⟩ := hslashes
    have htwo : 2 ≤ (u.path.takeWhile isSlash).length := by
      rw [← hrest, List.cons_append, List.cons_append, List.takeWhile_cons_of_pos (by decide),
        List.takeWhile_cons_of_pos (by decide)]
      simp
    have hpart := relativePart_plain hplain b.scheme
    have hown : OwnHost b.scheme u.path := by
      rw [OwnHost, hpart, Option.all_some]
      exact decide_eq_true htwo
    change joinStandard b u.path = some v at h
    rw [join_named hown, namedStandard, hpart] at h
    exact path_atHost h (htwo.trans (List.takeWhile_sublist _).length_le)
  named _ _ _ hown := join_named hown
  namedValid _ _ _ _ _ h _ := plain_named h
  tooLong _ _ _ _ := Iff.rfl
  placed b l r u _ hpart hown h := by
    change joinStandard b l = some u at h
    rw [join_placed hpart hown] at h
    refine ⟨plain_of_plainOnly h, ?_⟩
    obtain ⟨-, rfl⟩ := plainOnly_eq_some.mp h
    refine ⟨same_urlOf .., ?_, fragmentOf_eq_none⟩
    rw [UrlReference.escaped, plainStandard, List.map_id, Option.map_id]
    rfl
  alike b b' l r _ _ hsame hpart hown hreached := by
    have hscheme := hsame.scheme
    change reached noneKept b.path b.query r = reached noneKept b'.path b'.query r at hreached
    change joinStandard b l = joinStandard b' l
    rw [join_placed hpart hown, join_placed (hscheme ▸ hpart) (hscheme ▸ hown), hreached, plainOnly,
      plainOnly, urlOf_congr hsame]

end CardDavMcp.UrlReferences

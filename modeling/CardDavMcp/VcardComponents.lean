import CardDavMcp.VcardRoundTrip

namespace CardDavMcp.VcardComponents

open Library.Utf8Text Contact VcardText VcardFold Vcard VcardLines VcardRoundTrip

theorem strip_append (s t : Text) : strip (s ++ t) = strip s ++ strip t := by simp [strip]

theorem semicolon_mem_strip {s : Text} : ';' ∈ strip s ↔ ';' ∈ s := by simp [strip]

/-- Splitting the written form at semicolons cuts a component short at its
own first semicolon and leaves the backslash that escaped it. -/
theorem head_splitOn_escape (s t : Text) :
    ∃ part rest, (escapeVcardText s ++ ';' :: t).splitOn ';' = part :: rest ∧
      (';' ∉ s → part = escapeVcardText s ∧ rest = t.splitOn ';') ∧
      (unescapeVcardText part = strip s ↔ ';' ∉ s) := by
  by_cases h : ';' ∈ s
  · obtain ⟨a, b, rfl, ha⟩ := List.eq_append_cons_of_mem h
    have hesc : escapeVcardText (a ++ ';' :: b) ++ ';' :: t =
        (escapeVcardText a ++ ['\\']) ++ ';' :: (escapeVcardText b ++ ';' :: t) := by
      simp [escapeVcardText_append, escapeVcardText_cons, escapeChar]
    have hmem : ';' ∉ escapeVcardText a ++ ['\\'] := by
      simpa [semicolon_mem_escape] using ha
    refine ⟨_, _, by rw [hesc, List.splitOn_append_cons_self_of_not_mem hmem],
      fun hn => absurd h hn, ?_⟩
    rw [unescape_escape_append, strip_append]
    simp [unescapeVcardText, strip_cons]
  · have hmem : ';' ∉ escapeVcardText s := fun hm => h (semicolon_mem_escape.mp hm)
    exact ⟨_, _, List.splitOn_append_cons_self_of_not_mem hmem t, fun _ => ⟨rfl, rfl⟩,
      by simp [unescape_escape, h]⟩

theorem filter_nonempty_inj {x y : Text} :
    (some x).filter (fun part => !part.isEmpty) =
    (some y).filter (fun part => !part.isEmpty) ↔ x = y := by
  cases x <;> cases y <;> simp [Option.filter]

theorem map_strip_filter (value : Option Text) :
    (value.map strip).filter (fun part => !part.isEmpty) =
      (some (strip (value.getD []))).filter (fun part => !part.isEmpty) := by
  cases value <;> rfl

theorem head_splitOn_eq_self {s : Text} : (s.splitOn ';').head? = some s ↔ ';' ∉ s := by
  constructor
  · intro h hm
    obtain ⟨a, b, rfl, ha⟩ := List.eq_append_cons_of_mem hm
    rw [List.splitOn_append_cons_self_of_not_mem ha] at h
    simp at h
  · intro h
    simp [List.splitOn_eq_singleton h]

/-- The name and the organisation are read back as they were given. -/
def StructuredRoundTrip (contact : ContactInput) (parsed : ParsedVcard) : Prop :=
  parsed.familyName = (contact.familyName.map strip).filter (fun part => !part.isEmpty) ∧
  parsed.givenName = (contact.givenName.map strip).filter (fun part => !part.isEmpty) ∧
  parsed.organization = (nonempty contact.organization).map strip

def NoSemicolon (value : Option Text) : Prop := ∀ text ∈ value, ';' ∉ text

theorem noSemicolon_iff (value : Option Text) : NoSemicolon value ↔ ';' ∉ value.getD [] := by
  cases value <;> simp [NoSemicolon]

theorem name_round_trip (contact : ContactInput) (uid : Text) :
    (decoded contact uid).familyName =
        (contact.familyName.map strip).filter (fun part => !part.isEmpty) ∧
      (decoded contact uid).givenName =
        (contact.givenName.map strip).filter (fun part => !part.isEmpty) ↔
    NoSemicolon contact.familyName ∧ NoSemicolon contact.givenName := by
  obtain ⟨family, rest, hsplit, hplain, hfamily⟩ := head_splitOn_escape
    (contact.familyName.getD []) (escapeVcardText (contact.givenName.getD []) ++ ";;;".toList)
  obtain ⟨given, rest', hsplit', -, hgiven⟩ := head_splitOn_escape
    (contact.givenName.getD []) ";;".toList
  change (escapeVcardText (contact.givenName.getD []) ++ ";;;".toList).splitOn ';' = _ at hsplit'
  have h0 : (nameParts contact)[0]? = some (unescapeVcardText family) := by
    rw [nameParts, nameValue, hsplit]
    rfl
  rw [noSemicolon_iff, noSemicolon_iff, map_strip_filter, map_strip_filter]
  simp only [decoded]
  rw [h0, filter_nonempty_inj, hfamily]
  apply and_congr_right
  intro hf
  have h1 : (nameParts contact)[1]? = some (unescapeVcardText given) := by
    rw [nameParts, nameValue, hsplit, (hplain hf).2, hsplit']
    rfl
  rw [h1, filter_nonempty_inj, hgiven]

theorem organization_round_trip (contact : ContactInput) (uid : Text) :
    (decoded contact uid).organization = (nonempty contact.organization).map strip ↔
      NoSemicolon contact.organization := by
  cases horg : contact.organization with
  | none => simp [decoded, horg, nonempty, NoSemicolon]
  | some org =>
    by_cases he : org = []
    · subst org; simp [decoded, horg, nonempty, NoSemicolon, Option.filter]
    · have hn : nonempty (some org) = some org := by simp [nonempty, Option.filter, he]
      simp [decoded, horg, hn, NoSemicolon, head_splitOn_eq_self, semicolon_mem_strip]

/-- The fields of a contact as they were given. -/
def asGiven (contact : ContactInput) (uid : Text) : ParsedVcard where
  uid := some uid
  fullName := some contact.fullName
  givenName := nonempty contact.givenName
  familyName := nonempty contact.familyName
  emails := contact.emails
  phones := contact.phones
  organization := nonempty contact.organization
  title := nonempty contact.title
  note := nonempty contact.note

/-- A contact of which a card loses nothing. -/
structure Lossless (contact : ContactInput) : Prop where
  fullName : '\r' ∉ contact.fullName
  lines : ∀ value ∈ [contact.familyName, contact.givenName, contact.organization, contact.title,
    contact.note], ∀ text ∈ value, '\r' ∉ text
  components : ∀ value ∈ [contact.familyName, contact.givenName, contact.organization],
    NoSemicolon value
  emails : ∀ email ∈ contact.emails, '\r' ∉ email ∧ ¬ "mailto:".toList <+: email
  phones : ∀ phone ∈ contact.phones, '\r' ∉ phone ∧ ¬ "tel:".toList <+: phone

theorem map_strip {value : Option Text} (h : ∀ text ∈ value, '\r' ∉ text) :
    value.map strip = value := by
  cases value with
  | none => rfl
  | some text => rw [Option.map_some, strip_eq_self (h text rfl)]

theorem map_strip_nonempty {value : Option Text} (h : ∀ text ∈ value, '\r' ∉ text) :
    (nonempty value).map strip = nonempty value :=
  map_strip fun text htext => h text (Option.filter_eq_some_iff.mp htext).1

theorem map_stripped {values : List Text} {scheme : Text}
    (h : ∀ value ∈ values, '\r' ∉ value ∧ ¬ scheme <+: value) :
    values.map (fun value => stripPrefix scheme (strip value)) = values := by
  conv_rhs => rw [← List.map_id values]
  refine List.map_congr_left fun value hmem => ?_
  rw [strip_eq_self (h value hmem).1, stripPrefix_eq_self (h value hmem).2, id]

theorem decoded_of_lossless {contact : ContactInput} {uid : Text} (h : Lossless contact)
    (huid : validateUid uid = .ok ()) : decoded contact uid = asGiven contact uid := by
  obtain ⟨hfamily, hgiven⟩ := (name_round_trip contact uid).mpr
    ⟨h.components _ (by simp), h.components _ (by simp)⟩
  have horg := (organization_round_trip contact uid).mpr (h.components _ (by simp))
  rw [map_strip (h.lines contact.familyName (by simp))] at hfamily
  rw [map_strip (h.lines contact.givenName (by simp))] at hgiven
  rw [map_strip_nonempty (h.lines contact.organization (by simp))] at horg
  have huid : (decoded contact uid).uid = some uid := congrArg some (validateUid_strip huid)
  have hname : (decoded contact uid).fullName = some contact.fullName :=
    congrArg some (strip_eq_self h.fullName)
  have htitle : (decoded contact uid).title = nonempty contact.title :=
    map_strip_nonempty (h.lines _ (by simp))
  have hnote : (decoded contact uid).note = nonempty contact.note :=
    map_strip_nonempty (h.lines _ (by simp))
  have hemails : (decoded contact uid).emails = contact.emails := map_stripped h.emails
  have hphones : (decoded contact uid).phones = contact.phones := map_stripped h.phones
  exact ParsedVcard.ext huid hname hgiven hfamily hemails hphones horg htitle hnote rfl rfl
/-- The component split of names and organisations inverts the escaping
exactly when no component contains the separator itself. -/
theorem structured_round_trip_iff {contact : ContactInput} {uid v : Text}
    (h : buildVcard contact uid = .ok v) :
    StructuredRoundTrip contact (parseVcard v) ↔
      NoSemicolon contact.familyName ∧ NoSemicolon contact.givenName ∧
        NoSemicolon contact.organization := by
  rw [parseVcard_buildVcard h, StructuredRoundTrip, ← and_assoc, name_round_trip,
    organization_round_trip, and_assoc]

def commaContact : ContactInput where
  fullName := "Ann".toList
  familyName := some "Ng, A\\".toList

theorem structured_round_trip_comma :
    ∃ v, buildVcard commaContact "u-1".toList = .ok v ∧
      (parseVcard v).familyName = some "Ng, A\\".toList := by
  have hb : buildVcard commaContact "u-1".toList =
      .ok (joinLines (vcardLines commaContact "u-1".toList)) := by decide +kernel
  have hr := (structured_round_trip_iff hb).mpr
    ⟨by simp [NoSemicolon, commaContact], by simp [NoSemicolon, commaContact],
      by simp [NoSemicolon, commaContact]⟩
  exact ⟨_, hb, hr.1⟩

def semicolonContact : ContactInput where
  fullName := "Ann".toList
  familyName := some "Ng;Tan".toList
  organization := some "Ng;Co".toList

/-- A family name with a semicolon comes back cut short and spills into the
given name; an organisation comes back without its second half. -/
theorem structured_round_trip_fails :
    validateContactInput semicolonContact = .ok () ∧
    ∃ v, buildVcard semicolonContact "u-1".toList = .ok v ∧
      (parseVcard v).familyName = some "Ng\\".toList ∧
      (parseVcard v).givenName = some "Tan".toList ∧
      (parseVcard v).organization = some "Ng".toList ∧
      ¬ StructuredRoundTrip semicolonContact (parseVcard v) := by
  refine ⟨by decide +kernel, joinLines (vcardLines semicolonContact "u-1".toList),
    by decide +kernel, by decide +kernel, by decide +kernel, by decide +kernel, fun h => ?_⟩
  exact absurd h.1 (by decide +kernel)

end CardDavMcp.VcardComponents

import CardDavMcp.VcardLines

namespace CardDavMcp.VcardRoundTrip

open Library.Utf8Text Contact VcardText VcardFold Vcard VcardLines

/-- A fold whose every step adds one value to a list field adds them all. -/
theorem foldl_adds {σ α β : Type} (step : σ → α → σ) (add : σ → List β → σ) (f : α → β)
    (hnil : ∀ s, add s [] = s) (hadd : ∀ s x xs, add (add s [x]) xs = add s (x :: xs))
    (hstep : ∀ s a, step s a = add s [f a]) (as : List α) (s : σ) :
    as.foldl step s = add s (as.map f) := by
  induction as generalizing s with
  | nil => exact (hnil s).symm
  | cons a as ih => rw [List.foldl_cons, ih, hstep, hadd, List.map_cons]

def parseProperty (parsed : ParsedVcard) (p : Text × Text) : ParsedVcard :=
  parseLine parsed (propertyLine p)

theorem parse_emails (emails : List Text) (parsed : ParsedVcard) :
    (emails.map (fun email => ("EMAIL".toList, escapeVcardText email))).foldl parseProperty parsed =
      { parsed with
        emails := parsed.emails ++
          emails.map (fun e => stripPrefix "mailto:".toList (strip e)) } := by
  rw [List.foldl_map]
  refine foldl_adds _ (fun parsed xs => { parsed with emails := parsed.emails ++ xs }) _
    (by simp) (by simp) ?_ emails parsed
  intro parsed email
  rw [← unescape_escape]
  rfl

theorem parse_phones (phones : List Text) (parsed : ParsedVcard) :
    (phones.map (fun phone => ("TEL".toList, escapeVcardText phone))).foldl parseProperty parsed =
      { parsed with
        phones := parsed.phones ++ phones.map (fun t => stripPrefix "tel:".toList (strip t)) } := by
  rw [List.foldl_map]
  refine foldl_adds _ (fun parsed xs => { parsed with phones := parsed.phones ++ xs }) _
    (by simp) (by simp) ?_ phones parsed
  intro parsed phone
  rw [← unescape_escape]
  rfl

theorem parse_organization (organization : Option Text) (parsed : ParsedVcard)
    (h : parsed.organization = none) :
    (organization.toList.map (fun org => ("ORG".toList, escapeVcardText org))).foldl
        parseProperty parsed =
      { parsed with
        organization := organization.bind (fun org => ((strip org).splitOn ';').head?) } := by
  cases organization with
  | none => cases parsed; cases h; rfl
  | some org =>
    rw [Option.bind_some, ← unescape_escape]
    rfl

theorem parse_title (title : Option Text) (parsed : ParsedVcard) (h : parsed.title = none) :
    (title.toList.map (fun title => ("TITLE".toList, escapeVcardText title))).foldl
        parseProperty parsed = { parsed with title := title.map strip } := by
  cases title with
  | none => cases parsed; cases h; rfl
  | some title =>
    rw [Option.map_some, ← unescape_escape]
    rfl

theorem parse_note (note : Option Text) (parsed : ParsedVcard) (h : parsed.note = none) :
    (note.toList.map (fun note => ("NOTE".toList, escapeVcardText note))).foldl
        parseProperty parsed = { parsed with note := note.map strip } := by
  cases note with
  | none => cases parsed; cases h; rfl
  | some note =>
    rw [Option.map_some, ← unescape_escape]
    rfl

/-- The components that the decoder takes the written name apart into. -/
def nameParts (contact : ContactInput) : List Text :=
  ((nameValue contact).splitOn ';').map unescapeVcardText

/-- What the decoder makes of a generated card, field by field. -/
def decoded (contact : ContactInput) (uid : Text) : ParsedVcard where
  uid := some (strip uid)
  fullName := some (strip contact.fullName)
  givenName := (nameParts contact)[1]?.filter (fun part => !part.isEmpty)
  familyName := (nameParts contact)[0]?.filter (fun part => !part.isEmpty)
  emails := contact.emails.map (fun e => stripPrefix "mailto:".toList (strip e))
  phones := contact.phones.map (fun t => stripPrefix "tel:".toList (strip t))
  organization := (nonempty contact.organization).bind (fun org => ((strip org).splitOn ';').head?)
  title := (nonempty contact.title).map strip
  note := (nonempty contact.note).map strip

theorem parseVcard_buildVcard {contact : ContactInput} {uid v : Text}
    (h : buildVcard contact uid = .ok v) : parseVcard v = decoded contact uid := by
  -- the five leading properties, then one block for each list or optional field
  have hhead : [("BEGIN".toList, "VCARD".toList), ("VERSION".toList, "4.0".toList),
      ("UID".toList, escapeVcardText uid), ("FN".toList, escapeVcardText contact.fullName),
      ("N".toList, nameValue contact)].foldl parseProperty {} =
      { uid := some (strip uid), fullName := some (strip contact.fullName),
        familyName := (nameParts contact)[0]?.filter (fun part => !part.isEmpty),
        givenName := (nameParts contact)[1]?.filter (fun part => !part.isEmpty) } := by
    rw [← unescape_escape uid, ← unescape_escape contact.fullName]
    rfl
  have hend : ∀ parsed, [("END".toList, "VCARD".toList)].foldl parseProperty parsed = parsed :=
    fun _ => rfl
  have hempty : ∀ parsed, [[]].foldl parseLine parsed = parsed := fun _ => rfl
  rw [parseVcard, unfold_buildVcard h, List.foldl_append, hempty, List.foldl_map]
  change (vcardProperties contact uid).foldl parseProperty {} = _
  simp only [vcardProperties, List.foldl_append]
  rw [hhead, parse_emails, parse_phones, parse_organization _ _ rfl, parse_title _ _ rfl,
    parse_note _ _ rfl, hend]
  simp [decoded]

theorem validateUid_strip {uid : Text} (h : validateUid uid = .ok ()) : strip uid = uid := by
  apply strip_eq_self
  intro hr
  have hc := validateUid_noControl h '\r' hr
  exact absurd hc (by decide)

/-- Every text field of a generated card is read back as it was given, up to
carriage returns and one leading URI scheme of an address. Nothing is asked
of the contact beyond what the builder itself checks. -/
theorem text_round_trip {contact : ContactInput} {uid v : Text}
    (h : buildVcard contact uid = .ok v) :
    (parseVcard v).uid = some uid ∧
    (parseVcard v).fullName = some (strip contact.fullName) ∧
    (parseVcard v).title = (nonempty contact.title).map strip ∧
    (parseVcard v).note = (nonempty contact.note).map strip ∧
    (parseVcard v).emails = contact.emails.map (fun e => stripPrefix "mailto:".toList (strip e)) ∧
    (parseVcard v).phones = contact.phones.map (fun t => stripPrefix "tel:".toList (strip t)) ∧
    (parseVcard v).birthday = none ∧ (parseVcard v).hasPhoto = false := by
  have huid := validateUid_strip (buildVcard_ok h).1
  rw [parseVcard_buildVcard h]
  exact ⟨congrArg some huid, rfl, rfl, rfl, rfl, rfl, rfl, rfl⟩

def sampleContact : ContactInput where
  fullName := "Ann\r\nEMAIL:x@evil.test".toList
  emails := ["mailto:ann@example.test".toList]
  phones := [" +65 6123,4567".toList]
  note := some "C:\\new;\\n".toList

theorem text_round_trip_sample :
    ∃ v, validateContactInput sampleContact = .ok () ∧
    buildVcard sampleContact "u-1".toList = .ok v ∧ (parseVcard v).uid = some "u-1".toList ∧
      (parseVcard v).note = some "C:\\new;\\n".toList ∧
      (parseVcard v).emails = ["ann@example.test".toList] := by
  have hb : buildVcard sampleContact "u-1".toList =
      .ok (joinLines (vcardLines sampleContact "u-1".toList)) := by decide +kernel
  obtain ⟨hu, -, -, hn, he, -⟩ := text_round_trip hb
  exact ⟨_, by decide +kernel, hb, hu, hn, he⟩

end CardDavMcp.VcardRoundTrip

import CardDavMcp.Vcard

namespace CardDavMcp.VcardLines

open Library.Utf8Text Contact VcardText VcardFold Vcard

def propertyLine (p : Text × Text) : Text := p.1 ++ ':' :: p.2

/-- The raw value of a name: two components that are written and three that
stay empty. -/
def nameValue (contact : ContactInput) : Text :=
  escapeVcardText (contact.familyName.getD []) ++
    ';' :: (escapeVcardText (contact.givenName.getD []) ++ ";;;".toList)

/-- A card as properties: a name and the raw value after the colon. -/
def vcardProperties (contact : ContactInput) (uid : Text) : List (Text × Text) :=
  [("BEGIN".toList, "VCARD".toList),
   ("VERSION".toList, "4.0".toList),
   ("UID".toList, escapeVcardText uid),
   ("FN".toList, escapeVcardText contact.fullName),
   ("N".toList, nameValue contact)] ++
  contact.emails.map (fun email => ("EMAIL".toList, escapeVcardText email)) ++
  contact.phones.map (fun phone => ("TEL".toList, escapeVcardText phone)) ++
  (nonempty contact.organization).toList.map (fun org => ("ORG".toList, escapeVcardText org)) ++
  (nonempty contact.title).toList.map (fun title => ("TITLE".toList, escapeVcardText title)) ++
  (nonempty contact.note).toList.map (fun note => ("NOTE".toList, escapeVcardText note)) ++
  [("END".toList, "VCARD".toList)]

theorem vcardLines_eq (contact : ContactInput) (uid : Text) :
    vcardLines contact uid = (vcardProperties contact uid).map propertyLine := by
  simp [vcardLines, vcardProperties, propertyLine, nameLine, nameValue, Function.comp_def]

def NoBreak (s : Text) : Prop := '\r' ∉ s ∧ '\n' ∉ s

theorem noBreak_escape (s : Text) : NoBreak (escapeVcardText s) :=
  ⟨fun h => (mem_escapeVcardText h).1 rfl, fun h => (mem_escapeVcardText h).2 rfl⟩

theorem noBreak_nameValue (contact : ContactInput) : NoBreak (nameValue contact) := by
  have hf := noBreak_escape (contact.familyName.getD [])
  have hg := noBreak_escape (contact.givenName.getD [])
  unfold NoBreak at *
  simp [nameValue, hf, hg]

def propertyNames : List Text :=
  ["BEGIN".toList, "VERSION".toList, "UID".toList, "FN".toList, "N".toList, "EMAIL".toList,
   "TEL".toList, "ORG".toList, "TITLE".toList, "NOTE".toList, "END".toList]

/-- Every property has one of eleven names, and its raw value is a single
line. -/
theorem mem_vcardProperties {contact : ContactInput} {uid : Text} {p : Text × Text}
    (h : p ∈ vcardProperties contact uid) :
    p.1 ∈ propertyNames ∧ NoBreak p.2 := by
  simp only [vcardProperties, List.mem_append, List.mem_cons, List.mem_map, List.not_mem_nil,
    or_false] at h
  rcases h with (((((((rfl | rfl | rfl | rfl | rfl) | ⟨e, -, rfl⟩) | ⟨e, -, rfl⟩) | ⟨e, -, rfl⟩) |
    ⟨e, -, rfl⟩) | ⟨e, -, rfl⟩) | rfl)
  all_goals refine ⟨by simp [propertyNames], ?_⟩
  · exact ⟨by decide, by decide⟩
  · exact ⟨by decide, by decide⟩
  · exact noBreak_escape _
  · exact noBreak_escape _
  · exact noBreak_nameValue contact
  · exact noBreak_escape _
  · exact noBreak_escape _
  · exact noBreak_escape _
  · exact noBreak_escape _
  · exact noBreak_escape _
  · exact ⟨by decide, by decide⟩

theorem contentLine_propertyLine {name value : Text}
    (hname : name ∈ propertyNames) (hvalue : NoBreak value) :
    ContentLine (propertyLine (name, value)) := by
  have hall : ∀ n ∈ propertyNames,
      '\r' ∉ n ∧ '\n' ∉ n ∧ n.head? ≠ none ∧ n.head? ≠ some ' ' ∧ n.head? ≠ some '\t' := by decide
  obtain ⟨hr, hn, hne, hs, ht⟩ := hall name hname
  obtain ⟨vr, vn⟩ := hvalue
  refine ⟨by simp [propertyLine, hr, vr], by simp [propertyLine, hn, vn], ?_⟩
  cases name with
  | nil => simp at hne
  | cons c rest =>
    exact ⟨c, rest ++ ':' :: value, rfl, fun he => hs (by simp [he]), fun he => ht (by simp [he])⟩

/-- Unfolding a generated card gives its lines back and one empty line. -/
theorem unfold_buildVcard {contact : ContactInput} {uid v : Text}
    (h : buildVcard contact uid = .ok v) :
    unfoldVcardLines v = (vcardProperties contact uid).map propertyLine ++ [[]] := by
  rw [(buildVcard_ok h).2, unfoldVcardLines_joinLines, vcardLines_eq]
  intro line hline
  rw [vcardLines_eq] at hline
  obtain ⟨⟨name, value⟩, hp, rfl⟩ := List.mem_map.mp hline
  exact contentLine_propertyLine (mem_vcardProperties hp).1 (mem_vcardProperties hp).2

end CardDavMcp.VcardLines

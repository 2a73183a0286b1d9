import CardDavMcp.ToolError

namespace CardDavMcp.Contact

open Library.Utf8Text ToolError

structure ContactInput where
  uid : Option Text := none
  fullName : Text
  givenName : Option Text := none
  familyName : Option Text := none
  emails : List Text := []
  phones : List Text := []
  organization : Option Text := none
  title : Option Text := none
  note : Option Text := none
deriving DecidableEq, Repr

def MAX_VCARD_BYTES : Nat := 256 * 1024
def MAX_CONTACT_FIELD_BYTES : Nat := 4096
def MAX_NOTE_BYTES : Nat := 64 * 1024
def MAX_MULTI_VALUES : Nat := 64

def validateUid (uid : Text) : Except ErrorData Unit :=
  if (trim uid).isEmpty || byteLen uid > 512 || uid.any isControl then
    .error (invalidParams "contact UID must be 1-512 bytes and contain no control characters")
  else .ok ()

def checkFieldBytes (name : String) (value : Option Text) (max : Nat) : Except ErrorData Unit :=
  if value.any (fun value => byteLen value > max) then
    .error (invalidParams s!"`contact.{name}` exceeds {max} bytes")
  else .ok ()

def validateContactInput (contact : ContactInput) : Except ErrorData Unit := do
  if (trim contact.fullName).isEmpty then
    throw (invalidParams "`contact.full_name` must not be empty")
  checkFieldBytes "full_name" (some contact.fullName) MAX_CONTACT_FIELD_BYTES
  checkFieldBytes "given_name" contact.givenName MAX_CONTACT_FIELD_BYTES
  checkFieldBytes "family_name" contact.familyName MAX_CONTACT_FIELD_BYTES
  checkFieldBytes "organization" contact.organization MAX_CONTACT_FIELD_BYTES
  checkFieldBytes "title" contact.title MAX_CONTACT_FIELD_BYTES
  checkFieldBytes "note" contact.note MAX_NOTE_BYTES
  if contact.emails.length > MAX_MULTI_VALUES || contact.phones.length > MAX_MULTI_VALUES then
    throw (invalidParams
      s!"contacts may contain at most {MAX_MULTI_VALUES} emails and phone numbers")
  if (contact.emails ++ contact.phones).any
    (fun value => byteLen value > MAX_CONTACT_FIELD_BYTES) then
    throw (invalidParams "an email or phone value exceeds the field-size limit")
  match contact.uid with
  | some uid => validateUid uid
  | none => pure ()

/-- An accepted UID holds no control character, in particular no line break. -/
theorem validateUid_noControl {uid : Text} (h : validateUid uid = .ok ()) :
    ∀ c ∈ uid, isControl c = false := by
  rw [validateUid] at h
  split_ifs at h with hc
  intro c hmem
  simp only [Bool.or_eq_true, not_or, List.any_eq_true, not_exists, not_and] at hc
  simpa using hc.2 c hmem

end CardDavMcp.Contact

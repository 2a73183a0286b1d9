import CardDavMcp.Contact
import CardDavMcp.VcardText
import CardDavMcp.VcardFold

namespace CardDavMcp.Vcard

open Library.Utf8Text ToolError Contact VcardText VcardFold

def nonempty (value : Option Text) : Option Text := value.filter (fun value => !value.isEmpty)

def nameLine (contact : ContactInput) : Text :=
  "N:".toList ++ escapeVcardText (contact.familyName.getD []) ++ ";".toList ++
    escapeVcardText (contact.givenName.getD []) ++ ";;;".toList

/-- The lines of a card before folding, in the order they are written. -/
def vcardLines (contact : ContactInput) (uid : Text) : List Text :=
  ["BEGIN:VCARD".toList,
   "VERSION:4.0".toList,
   "UID:".toList ++ escapeVcardText uid,
   "FN:".toList ++ escapeVcardText contact.fullName,
   nameLine contact] ++
  contact.emails.map (fun email => "EMAIL:".toList ++ escapeVcardText email) ++
  contact.phones.map (fun phone => "TEL:".toList ++ escapeVcardText phone) ++
  (nonempty contact.organization).toList.map (fun org => "ORG:".toList ++ escapeVcardText org) ++
  (nonempty contact.title).toList.map (fun title => "TITLE:".toList ++ escapeVcardText title) ++
  (nonempty contact.note).toList.map (fun note => "NOTE:".toList ++ escapeVcardText note) ++
  ["END:VCARD".toList]

def buildVcard (contact : ContactInput) (uid : Text) : Except ErrorData Text := do
  validateUid uid
  let vcard := joinLines (vcardLines contact uid)
  if byteLen vcard > MAX_VCARD_BYTES then
    throw (invalidParams s!"generated vCard exceeds {MAX_VCARD_BYTES} bytes")
  return vcard

@[ext]
structure ParsedVcard where
  uid : Option Text := none
  fullName : Option Text := none
  givenName : Option Text := none
  familyName : Option Text := none
  emails : List Text := []
  phones : List Text := []
  organization : Option Text := none
  title : Option Text := none
  note : Option Text := none
  birthday : Option Text := none
  hasPhoto : Bool := false
deriving DecidableEq, Repr

/-- The property name in the part of a line before the first colon: without
parameters, without a group, in capitals. -/
def propertyOf (head : Text) : Text :=
  toAsciiUppercase ((((head.splitOn ';').headD []).splitOn '.').getLastD [])

def setProperty (parsed : ParsedVcard) (property rawValue : Text) : ParsedVcard :=
  let value := unescapeVcardText rawValue
  match String.ofList property with
  | "UID" => { parsed with uid := some value }
  | "FN" => { parsed with fullName := some value }
  | "N" =>
      let parts := (rawValue.splitOn ';').map unescapeVcardText
      { parsed with
        familyName := parts[0]?.filter (fun part => !part.isEmpty)
        givenName := parts[1]?.filter (fun part => !part.isEmpty) }
  | "EMAIL" => { parsed with emails := parsed.emails ++ [stripPrefix "mailto:".toList value] }
  | "TEL" => { parsed with phones := parsed.phones ++ [stripPrefix "tel:".toList value] }
  | "ORG" => { parsed with organization := (value.splitOn ';').head? }
  | "TITLE" => { parsed with title := some value }
  | "NOTE" => { parsed with note := some value }
  | "BDAY" => { parsed with birthday := some value }
  | "PHOTO" => { parsed with hasPhoto := true }
  | _ => parsed

def parseLine (parsed : ParsedVcard) (line : Text) : ParsedVcard :=
  match splitOnce ':' line with
  | some (head, rawValue) => setProperty parsed (propertyOf head) rawValue
  | none => parsed

def parseVcard (vcard : Text) : ParsedVcard := (unfoldVcardLines vcard).foldl parseLine {}

theorem buildVcard_ok {contact : ContactInput} {uid v : Text} (h : buildVcard contact uid = .ok v) :
    validateUid uid = .ok () ∧ v = joinLines (vcardLines contact uid) := by
  rw [buildVcard] at h
  cases hu : validateUid uid with
  | error e => simp [hu, bind, Except.bind] at h
  | ok u =>
    simp only [hu, bind, Except.bind, pure, Except.pure] at h
    split_ifs at h
    exact ⟨rfl, (Except.ok.inj h).symm⟩

end CardDavMcp.Vcard

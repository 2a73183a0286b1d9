import CardDavMcp.DavError
import CardDavMcp.Library.XmlTree

namespace CardDavMcp.Multistatus

open Library.Utf8Text Library.XmlTree DavError

structure ParsedDavResponse where
  href : Option Text := none
  displayName : Option Text := none
  ctag : Option Text := none
  etag : Option Text := none
  addressData : Option Text := none
  currentUserPrincipal : Option Text := none
  addressbookHome : Option Text := none
  isAddressbook : Bool := false
deriving DecidableEq, Repr

inductive Capture
  | href | currentPrincipal | addressbookHome | displayName | ctag | etag | addressData
deriving DecidableEq, Repr

def ParsedDavResponse.field (item : ParsedDavResponse) : Capture → Option Text
  | .href => item.href
  | .currentPrincipal => item.currentUserPrincipal
  | .addressbookHome => item.addressbookHome
  | .displayName => item.displayName
  | .ctag => item.ctag
  | .etag => item.etag
  | .addressData => item.addressData

def append (value : Option Text) (text : Text) : Option Text := some (value.getD [] ++ text)

def appendCapture (item : ParsedDavResponse) (capture : Capture) (text : Text) :
    ParsedDavResponse :=
  match capture with
  | .href => { item with href := append item.href text }
  | .currentPrincipal => { item with currentUserPrincipal := append item.currentUserPrincipal text }
  | .addressbookHome => { item with addressbookHome := append item.addressbookHome text }
  | .displayName => { item with displayName := append item.displayName text }
  | .ctag => { item with ctag := append item.ctag text }
  | .etag => { item with etag := append item.etag text }
  | .addressData => { item with addressData := append item.addressData text }

def trimParsedResponse (item : ParsedDavResponse) : ParsedDavResponse :=
  { item with
    href := item.href.map trim
    displayName := item.displayName.map trim
    ctag := item.ctag.map trim
    etag := item.etag.map trim
    currentUserPrincipal := item.currentUserPrincipal.map trim
    addressbookHome := item.addressbookHome.map trim }

/-- The XML library: the events it reads from the bytes of a document, and
the entities it knows by name. -/
structure QuickXml where
  read : List UInt8 → List (Except String Event)
  resolveXmlEntity : Text → Option Text

variable (X : QuickXml)

def appendGeneralRef (item : ParsedDavResponse) (kind : Capture)
    (charRef : Except String (Option Char)) (name : Except String Text) :
    Except CardDavError ParsedDavResponse :=
  match charRef with
  | .error e => .error (.xml e)
  | .ok (some c) => .ok (appendCapture item kind [c])
  | .ok none =>
    match name with
    | .error e => .error (.xml e)
    | .ok decoded =>
      match X.resolveXmlEntity decoded with
      | none => .error (.xml s!"unsupported XML entity reference: {String.ofList decoded}")
      | some replacement => .ok (appendCapture item kind replacement)

/-- The state of the parser between two events. The innermost open element
comes first in the stack. -/
structure ParserState where
  stack : List Text := []
  current : Option ParsedDavResponse := none
  capture : Option Capture := none
  output : List ParsedDavResponse := []
deriving DecidableEq, Repr

/-- What the start of an element inside a response does to the capture. -/
def captureAt (parent : Option Text) (name : Text) (capture : Option Capture) : Option Capture :=
  if name = "href".toList then
    if parent = some "current-user-principal".toList then some .currentPrincipal
    else if parent = some "addressbook-home-set".toList then some .addressbookHome
    else if parent = some "response".toList then some .href
    else capture
  else if name = "displayname".toList then some .displayName
  else if name = "getctag".toList then some .ctag
  else if name = "getetag".toList then some .etag
  else if name = "address-data".toList then some .addressData
  else capture

def endsCapture (name : Text) : Bool :=
  name = "href".toList || name = "displayname".toList || name = "getctag".toList ||
    name = "getetag".toList || name = "address-data".toList

def markAddressbook (name : Text) (item : ParsedDavResponse) : ParsedDavResponse :=
  if name = "addressbook".toList then { item with isAddressbook := true } else item

def stepText (s : ParserState) (content : Except String Text) : Except CardDavError ParserState :=
  match s.current, s.capture with
  | some item, some kind =>
    match content with
    | .error e => .error (.xml e)
    | .ok decoded => .ok { s with current := some (appendCapture item kind decoded) }
  | _, _ => .ok s

def step (s : ParserState) : Event → Except CardDavError ParserState
  | .startTag ⟨_, name⟩ =>
    let current := if name = "response".toList then some {} else s.current
    match current with
    | none => .ok { s with stack := name :: s.stack }
    | some item => .ok
        { s with
          stack := name :: s.stack
          current := some (markAddressbook name item)
          capture := captureAt s.stack.head? name s.capture }
  | .emptyTag ⟨_, name⟩ => .ok { s with current := s.current.map (markAddressbook name) }
  | .text content | .cdata content => stepText s content
  | .generalRef charRef name =>
    match s.current, s.capture with
    | some item, some kind => do
      let item ← appendGeneralRef X item kind charRef name
      return { s with current := some item }
    | _, _ => .ok s
  | .endTag ⟨_, name⟩ =>
    let s := if endsCapture name then { s with capture := none } else s
    let s := match s.current with
      | some item =>
        if name = "response".toList then
          { s with current := none, output := s.output ++ [trimParsedResponse item] }
        else s
      | none => s
    .ok { s with stack := s.stack.tail }
  | .other | .eof => .ok s

def parseLoop (s : ParserState) : List (Except String Event) →
    Except CardDavError (List ParsedDavResponse)
  | [] => .ok s.output
  | .error e :: _ => .error (.xml e)
  | .ok .eof :: _ => .ok s.output
  | .ok event :: events => do
    let s ← step X s event
    parseLoop s events

def parseMultistatus (xml : List UInt8) : Except CardDavError (List ParsedDavResponse) :=
  parseLoop X {} (X.read xml)

end CardDavMcp.Multistatus

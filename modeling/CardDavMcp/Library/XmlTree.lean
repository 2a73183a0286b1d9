import CardDavMcp.Library.Utf8Text

namespace CardDavMcp.Library.XmlTree

open Utf8Text

/-- A qualified name. Only the local part identifies an element here. -/
structure QName where
  ns : Option Text := none
  localName : Text
deriving DecidableEq, Repr

/-- The events of a pull parser. Character data arrives decoded or with the
error of decoding it; a reference comes with the character it stands for, if
it is a character reference, and with its name. -/
inductive Event
  | startTag (name : QName)
  | endTag (name : QName)
  | emptyTag (name : QName)
  | text (content : Except String Text)
  | cdata (content : Except String Text)
  | generalRef (charRef : Except String (Option Char)) (name : Except String Text)
  | other
  | eof

/-- The five entities every document may refer to. -/
inductive Predefined
  | lt | gt | amp | apos | quot
deriving DecidableEq, Repr

def Predefined.name : Predefined → Text
  | .lt => "lt".toList
  | .gt => "gt".toList
  | .amp => "amp".toList
  | .apos => "apos".toList
  | .quot => "quot".toList

def Predefined.char : Predefined → Char
  | .lt => '<'
  | .gt => '>'
  | .amp => '&'
  | .apos => '\''
  | .quot => '"'

/-- A piece of character data, as it stands in the document. -/
inductive Fragment
  | text (s : Text)
  | cdata (s : Text)
  | charRef (name : Text) (c : Char)
  | entity (e : Predefined)
deriving DecidableEq, Repr

def Fragment.decode : Fragment → Text
  | .text s | .cdata s => s
  | .charRef _ c => [c]
  | .entity e => [e.char]

def Fragment.event : Fragment → Event
  | .text s => .text (.ok s)
  | .cdata s => .cdata (.ok s)
  | .charRef name c => .generalRef (.ok (some c)) (.ok name)
  | .entity e => .generalRef (.ok none) (.ok e.name)

/-- The content of an element, or a whole document: its first item and what
follows it. -/
inductive Content
  | nil
  | element (name : QName) (children rest : Content)
  | emptyElement (name : QName) (rest : Content)
  | chars (fragment : Fragment) (rest : Content)
  | other (rest : Content)
deriving DecidableEq, Repr

namespace Content

def events : Content → List Event
  | nil => []
  | element name children rest => .startTag name :: (events children ++ .endTag name :: events rest)
  | emptyElement name rest => .emptyTag name :: events rest
  | chars fragment rest => fragment.event :: events rest
  | other rest => .other :: events rest

theorem eof_notMem_events (content : Content) : Event.eof ∉ content.events := by
  induction content with
  | nil => simp [events]
  | element name children rest ihc ihr => simp [events, ihc, ihr]
  | emptyElement name rest ih => simp [events, ih]
  | chars fragment rest ih => cases fragment <;> simp [events, Fragment.event, ih]
  | other rest ih => simp [events, ih]

/-- The character data that stands directly in a content. -/
def fragments : Content → List Fragment
  | nil => []
  | element _ _ rest | emptyElement _ rest | other rest => fragments rest
  | chars fragment rest => fragment :: fragments rest

def charsOnly : Content → Bool
  | nil => true
  | element _ _ _ | emptyElement _ _ => false
  | chars _ rest | other rest => charsOnly rest

/-- An element with a given local name occurs, at any depth. -/
def mentions (name : Text) : Content → Bool
  | nil => false
  | element n children rest => n.localName = name || mentions name children || mentions name rest
  | emptyElement n rest => n.localName = name || mentions name rest
  | chars _ rest | other rest => mentions name rest

theorem mentions_of_charsOnly {content : Content} (h : content.charsOnly) (name : Text) :
    content.mentions name = false := by
  induction content with
  | nil => rfl
  | element | emptyElement => simp [charsOnly] at h
  | chars _ rest ih | other rest ih => exact ih h

end Content

def decodeAll (fragments : List Fragment) : Text := fragments.flatMap Fragment.decode

/-- A delivered document: its events and the end of the stream. -/
def document (doc : Content) : List (Except String Event) :=
  doc.events.map .ok ++ [.ok .eof]

end CardDavMcp.Library.XmlTree

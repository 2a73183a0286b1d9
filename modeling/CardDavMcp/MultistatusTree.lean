import CardDavMcp.Multistatus
import Mathlib.Data.List.Forall2

namespace CardDavMcp.MultistatusTree

open Library.Utf8Text Library.XmlTree Content DavError Multistatus

/-- The elements whose character data a response is read for. -/
def isField (k : Capture) (parent name : Text) : Bool :=
  match k with
  | .href => name = "href".toList && parent = "response".toList
  | .currentPrincipal => name = "href".toList && parent = "current-user-principal".toList
  | .addressbookHome => name = "href".toList && parent = "addressbook-home-set".toList
  | .displayName => name = "displayname".toList
  | .ctag => name = "getctag".toList
  | .etag => name = "getetag".toList
  | .addressData => name = "address-data".toList

/-- The character data of every element for a field, in document order. -/
def occurrences (k : Capture) (parent : Text) : Content → List (List Fragment)
  | .nil => []
  | .element n children rest =>
    (if isField k parent n.localName then [children.fragments] else []) ++
      occurrences k n.localName children ++ occurrences k parent rest
  | .emptyElement n rest =>
    (if isField k parent n.localName then [[]] else []) ++ occurrences k parent rest
  | .chars _ rest | .other rest => occurrences k parent rest

def fields : List Capture :=
  [.href, .currentPrincipal, .addressbookHome, .displayName, .ctag, .etag, .addressData]

/-- Every element for a field holds character data only. -/
def plainFields (parent : Text) : Content → Bool
  | .nil => true
  | .element n children rest =>
    (!fields.any (fun k => isField k parent n.localName) || children.charsOnly) &&
      plainFields n.localName children && plainFields parent rest
  | .emptyElement _ rest | .chars _ rest | .other rest => plainFields parent rest

/-- Every element for one field holds character data only. -/
def plainField (k : Capture) (parent : Text) : Content → Bool
  | .nil => true
  | .element n children rest =>
    (!isField k parent n.localName || children.charsOnly) &&
      plainField k n.localName children && plainField k parent rest
  | .emptyElement _ rest | .chars _ rest | .other rest => plainField k parent rest

/-- The contents of the response elements that are written with a start and
an end tag. -/
def taggedResponses : Content → List Content
  | .nil => []
  | .element n children rest =>
    (if n.localName = "response".toList then [children] else taggedResponses children) ++
      taggedResponses rest
  | .emptyElement _ rest | .chars _ rest | .other rest => taggedResponses rest

/-- The contents of all response elements, in document order. -/
def responses : Content → List Content
  | .nil => []
  | .element n children rest =>
    (if n.localName = "response".toList then [children] else responses children) ++ responses rest
  | .emptyElement n rest =>
    (if n.localName = "response".toList then [.nil] else []) ++ responses rest
  | .chars _ rest | .other rest => responses rest

/-- No response element is written as an empty-element tag. -/
def noEmptyTag : Content → Bool
  | .nil => true
  | .element n children rest =>
    (n.localName = "response".toList || noEmptyTag children) && noEmptyTag rest
  | .emptyElement n rest => n.localName ≠ "response".toList && noEmptyTag rest
  | .chars _ rest | .other rest => noEmptyTag rest

/-- A response without another one in it, whose fields are plain. -/
def Flat (content : Content) : Prop :=
  content.mentions "response".toList = false ∧ plainFields "response".toList content = true

def collect (value : Option Text) (fragments : List Fragment) : Option Text :=
  fragments.foldl (fun value fragment => append value fragment.decode) value

def trimField (k : Capture) (value : Text) : Text := if k = .addressData then value else trim value

/-- What a response reads as: for each field the character data of its
elements in sequence. -/
structure Gathers (content : Content) (item : ParsedDavResponse) : Prop where
  field : ∀ k, item.field k =
    (collect none (occurrences k "response".toList content).flatten).map (trimField k)
  addressbook : item.isAddressbook = content.mentions "addressbook".toList

def fieldText (k : Capture) (fragments : List Fragment) : Option Text :=
  if fragments = [] then none else some (trimField k (decodeAll fragments))

/-- What a response means: a field that occurs once is the character data of
its element, trimmed unless it is a vCard; without such data it is absent. -/
structure Means (content : Content) (item : ParsedDavResponse) : Prop where
  absent : ∀ k, occurrences k "response".toList content = [] → item.field k = none
  present : ∀ k fragments, occurrences k "response".toList content = [fragments] →
    item.field k = fieldText k fragments
  addressbook : item.isAddressbook = content.mentions "addressbook".toList

theorem collect_some (value : Text) (fragments : List Fragment) :
    collect (some value) fragments = some (value ++ decodeAll fragments) := by
  induction fragments generalizing value with
  | nil => simp [collect, decodeAll]
  | cons f fs ih =>
    have hstep : collect (some value) (f :: fs) = collect (some (value ++ f.decode)) fs := rfl
    rw [hstep, ih]
    simp [decodeAll]

theorem collect_none {fragments : List Fragment} (h : fragments ≠ []) :
    collect none fragments = some (decodeAll fragments) := by
  cases fragments with
  | nil => exact absurd rfl h
  | cons f fs =>
    have hstep : collect none (f :: fs) = collect (some f.decode) fs := rfl
    rw [hstep, collect_some]
    simp [decodeAll]

theorem collect_append (value : Option Text) (fs gs : List Fragment) :
    collect value (fs ++ gs) = collect (collect value fs) gs := List.foldl_append

theorem Gathers.means {content : Content} {item : ParsedDavResponse} (h : Gathers content item) :
    Means content item where
  absent k hk := by rw [h.field, hk]; rfl
  present k fragments hk := by
    rw [h.field, hk, List.flatten_singleton, fieldText]
    split_ifs with hnil
    · rw [hnil]; rfl
    · rw [collect_none hnil]; rfl
  addressbook := h.addressbook

variable {X : QuickXml}

/-- The parser gets from one state to another over a list of events. -/
def Reads (X : QuickXml) (s : ParserState) (events : List Event) (s' : ParserState) : Prop :=
  events.foldlM (step X) s = .ok s'

theorem Reads.nil (s : ParserState) : Reads X s [] s := rfl

theorem Reads.cons {s t u : ParserState} {event : Event} {events : List Event}
    (h : step X s event = .ok t) (ht : Reads X t events u) : Reads X s (event :: events) u := by
  rw [Reads, List.foldlM_cons, h]
  exact ht

theorem Reads.append {s t u : ParserState} {events rest : List Event} (h : Reads X s events t)
    (ht : Reads X t rest u) : Reads X s (events ++ rest) u := by
  rw [Reads, List.foldlM_append, h]
  exact ht

theorem parseLoop_ok {s : ParserState} {event : Event} (h : event ≠ .eof)
    (events : List (Except String Event)) :
    parseLoop X s (.ok event :: events) = step X s event >>= fun s => parseLoop X s events := by
  cases event <;> first | rfl | exact absurd rfl h

theorem Reads.parse {s t : ParserState} {doc : Content} (h : Reads X s doc.events t) :
    parseLoop X s (document doc) = .ok t.output := by
  have hall : ∀ (events : List Event) (s : ParserState), Event.eof ∉ events → Reads X s events t →
      parseLoop X s (events.map .ok ++ [.ok .eof]) = .ok t.output := by
    intro events
    induction events with
    | nil =>
      intro s _ hs
      cases hs
      rfl
    | cons event events ih =>
      intro s hmem hs
      rw [List.mem_cons, not_or] at hmem
      rw [Reads, List.foldlM_cons] at hs
      rw [List.map_cons, List.cons_append, parseLoop_ok (Ne.symm hmem.1)]
      cases hstep : step X s event with
      | error e => rw [hstep] at hs; cases hs
      | ok u =>
        rw [hstep] at hs
        exact ih u hmem.2 hs
  exact hall _ s (eof_notMem_events doc) h

theorem field_appendCapture (item : ParsedDavResponse) (k k' : Capture) (text : Text) :
    (appendCapture item k text).field k' =
      if k' = k then append (item.field k) text else item.field k' := by
  cases k <;> cases k' <;> rfl

theorem isAddressbook_appendCapture (item : ParsedDavResponse) (k : Capture) (text : Text) :
    (appendCapture item k text).isAddressbook = item.isAddressbook := by
  cases k <;> rfl

theorem field_markAddressbook (item : ParsedDavResponse) (name : Text) (k : Capture) :
    (markAddressbook name item).field k = item.field k := by
  rw [markAddressbook]
  split_ifs
  · cases k <;> rfl
  · rfl

theorem isAddressbook_mark (item : ParsedDavResponse) (name : Text) :
    (markAddressbook name item).isAddressbook =
      (item.isAddressbook || decide (name = "addressbook".toList)) := by
  rw [markAddressbook]
  split_ifs with h
  · rw [decide_eq_true h, Bool.or_true]
  · rw [decide_eq_false h, Bool.or_false]

theorem field_trim (item : ParsedDavResponse) (k : Capture) :
    (trimParsedResponse item).field k = (item.field k).map (trimField k) := by
  have hid : trimField .addressData = id := rfl
  cases k <;> first | rfl | exact (Option.map_id_apply).symm

/-- Inside a response the start of a field sets the capture, whatever it was
before. -/
theorem captureAt_of_isField {k : Capture} {parent name : Text} (h : isField k parent name = true)
    (capture : Option Capture) : captureAt (some parent) name capture = some k := by
  cases k
  all_goals simp only [isField, Bool.and_eq_true, decide_eq_true_eq] at h
  case href | currentPrincipal | addressbookHome =>
    obtain ⟨rfl, rfl⟩ := h
    rfl
  all_goals
    subst h
    rfl

theorem isField_of_captureAt {k : Capture} {parent name : Text} {capture : Option Capture}
    (h : captureAt (some parent) name capture = some k) : isField k parent name = true ∨
    capture = some k := by
  rw [captureAt] at h
  split_ifs at h with hname hparent hparent hparent hdisplay hctag hetag hdata
  case neg => exact .inr h
  all_goals first
    | exact .inr h
    | (left; cases h; simp_all [isField])

/-- A name that ends no capture starts none. -/
theorem captureAt_of_not_ends {name : Text} (h : endsCapture name = false) (parent : Option Text)
    (capture : Option Capture) : captureAt parent name capture = capture := by
  simp only [endsCapture, Bool.or_eq_false_iff, decide_eq_false_iff_not] at h
  obtain ⟨⟨⟨⟨hhref, hdisplay⟩, hctag⟩, hetag⟩, hdata⟩ := h
  simp only [captureAt, hhref, hdisplay, hctag, hetag, hdata, if_false]

/-- The name of a field ends a capture and is no other name the parser
looks for. -/
theorem isField_name {k : Capture} {parent name : Text} (h : isField k parent name = true) :
    endsCapture name = true ∧ name ≠ "response".toList ∧ name ≠ "addressbook".toList := by
  cases k
  all_goals simp only [isField, Bool.and_eq_true, decide_eq_true_eq] at h
  case href | currentPrincipal | addressbookHome =>
    obtain ⟨rfl, -⟩ := h
    decide
  all_goals
    subst h
    decide

/-- What a piece of character data stands for goes to the field that is
captured. -/
theorem step_fragment (hentities : ∀ e : Predefined, X.resolveXmlEntity e.name = some [e.char])
    (fragment : Fragment) (stack : List Text) (item : ParsedDavResponse) (k : Capture)
    (output : List ParsedDavResponse) :
    step X ⟨stack, some item, some k, output⟩ fragment.event =
      .ok ⟨stack, some (appendCapture item k fragment.decode), some k, output⟩ := by
  cases fragment with
  | text | cdata | charRef => rfl
  | entity e =>
    simp only [Fragment.event, step, appendGeneralRef, hentities]
    rfl

/-- Over the character data of a field the parser appends every piece. -/
theorem reads_chars (hentities : ∀ e : Predefined, X.resolveXmlEntity e.name = some [e.char])
    {content : Content} (h : content.charsOnly) (item : ParsedDavResponse) (k : Capture) :
    ∃ item', (∀ stack output, Reads X ⟨stack, some item, some k, output⟩ content.events
        ⟨stack, some item', some k, output⟩) ∧
      (∀ k', item'.field k' =
        if k' = k then collect (item.field k) content.fragments else item.field k') ∧
      item'.isAddressbook = item.isAddressbook := by
  induction content generalizing item with
  | nil =>
    refine ⟨item, fun _ _ => .nil _, fun k' => ?_, rfl⟩
    split_ifs with hk
    · rw [hk]; rfl
    · rfl
  | element | emptyElement => simp [charsOnly] at h
  | chars fragment rest ih =>
    obtain ⟨item', hreads, hfield, hbook⟩ := ih h (appendCapture item k fragment.decode)
    refine ⟨item', fun stack output => ?_, fun k' => ?_, ?_⟩
    · exact .cons (step_fragment hentities fragment stack item k output) (hreads stack output)
    · rw [hfield, field_appendCapture, field_appendCapture, if_pos rfl]
      split_ifs <;> rfl
    · rw [hbook, isAddressbook_appendCapture]
  | other rest ih =>
    obtain ⟨item', hreads, hfield, hbook⟩ := ih h item
    exact ⟨item', fun stack output => .cons rfl (hreads stack output), hfield, hbook⟩

theorem occurrences_charsOnly {content : Content} (h : content.charsOnly) (k : Capture)
    (parent : Text) :
    occurrences k parent content = [] := by
  induction content with
  | nil => rfl
  | element | emptyElement => simp [charsOnly] at h
  | chars _ rest ih | other rest ih => exact ih h

theorem step_startTag {n : QName} (hn : n.localName ≠ "response".toList) (parent : Text)
    (stack : List Text) (item : ParsedDavResponse) (capture : Option Capture)
    (output : List ParsedDavResponse) :
    step X ⟨parent :: stack, some item, capture, output⟩ (.startTag n) =
      .ok ⟨n.localName :: parent :: stack, some (markAddressbook n.localName item),
        captureAt (some parent) n.localName capture, output⟩ := by
  simp only [step, hn, if_false, List.head?_cons]

theorem step_endTag {n : QName} (hn : n.localName ≠ "response".toList) (stack : List Text)
    (item : ParsedDavResponse) (capture : Option Capture) (output : List ParsedDavResponse) :
    step X ⟨n.localName :: stack, some item, capture, output⟩ (.endTag n) =
      .ok ⟨stack, some item, if endsCapture n.localName then none else capture, output⟩ := by
  cases hc : endsCapture n.localName <;> simp only [step, hc, if_true, if_false, hn, List.tail_cons,
    Bool.false_eq_true]

/-- Over a part of a response the parser gathers a field, and ends with the
stack as it was and nothing new captured. -/
structure FieldReads (X : QuickXml) (k : Capture) (parent : Text) (content : Content)
    (item item' : ParsedDavResponse) (capture capture' : Option Capture) : Prop where
  reads : ∀ stack output, Reads X ⟨parent :: stack, some item, capture, output⟩ content.events
    ⟨parent :: stack, some item', capture', output⟩
  captured : capture' = capture ∨ capture' = none
  field : item'.field k = collect (item.field k) (occurrences k parent content).flatten
  addressbook : item'.isAddressbook = (item.isAddressbook || content.mentions "addressbook".toList)

variable {k : Capture} {n : QName} {parent : Text} {children rest : Content}
  {item item₁ item₂ : ParsedDavResponse} {capture capture₁ capture₂ : Option Capture}

theorem closed_capture
    (h : capture₁ = captureAt (some parent) n.localName capture ∨ capture₁ = none) :
    (if endsCapture n.localName then none else capture₁) = capture ∨
      (if endsCapture n.localName then none else capture₁) = none := by
  cases hends : endsCapture n.localName with
  | true => exact .inr rfl
  | false =>
    rw [captureAt_of_not_ends hends] at h
    exact h

/-- An element of the field: its character data is all there is in it. -/
theorem FieldReads.field_element
    (hentities : ∀ e : Predefined, X.resolveXmlEntity e.name = some [e.char])
    (hn : n.localName ≠ "response".toList) (hk : isField k parent n.localName = true)
    (hchars : children.charsOnly = true) (item : ParsedDavResponse) :
    ∃ item₁, ∀ {item₂ capture capture₂}, FieldReads X k parent rest item₁ item₂ none capture₂ →
      FieldReads X k parent (.element n children rest) item item₂ capture capture₂ := by
  obtain ⟨hends, -, -⟩ := isField_name hk
  obtain ⟨item₁, hreads, hfield, hbook⟩ :=
    reads_chars hentities hchars (markAddressbook n.localName item) k
  refine ⟨item₁, fun {item₂ capture capture₂} h => ?_⟩
  constructor
  · intro stack output
    have hstart := step_startTag (X := X) hn parent stack item capture output
    have hend := step_endTag (X := X) hn (parent :: stack) item₁ (some k) output
    rw [captureAt_of_isField hk] at hstart
    rw [hends, if_pos rfl] at hend
    exact .cons hstart (.append (hreads _ _) (.cons hend (h.reads _ _)))
  · exact .inr (h.captured.elim id id)
  · rw [h.field, hfield, if_pos rfl, field_markAddressbook, occurrences, if_pos hk,
      occurrences_charsOnly hchars, List.append_nil, List.flatten_append, collect_append,
      List.flatten_singleton]
  · rw [h.addressbook, hbook, isAddressbook_mark, mentions, mentions_of_charsOnly hchars,
      Bool.or_false, Bool.or_assoc]

theorem FieldReads.element (hn : n.localName ≠ "response".toList)
    (hk : ¬ isField k parent n.localName = true)
    (hchildren : FieldReads X k n.localName children (markAddressbook n.localName item) item₁
      (captureAt (some parent) n.localName capture) capture₁)
    (hrest : FieldReads X k parent rest item₁ item₂
      (if endsCapture n.localName then none else capture₁) capture₂) :
    FieldReads X k parent (.element n children rest) item item₂ capture capture₂ := by
  constructor
  · intro stack output
    have hstart := step_startTag (X := X) hn parent stack item capture output
    have hend := step_endTag (X := X) hn (parent :: stack) item₁ capture₁ output
    exact .cons hstart (.append (hchildren.reads _ _) (.cons hend (hrest.reads _ _)))
  · obtain rfl | rfl := hrest.captured
    · exact closed_capture hchildren.captured
    · exact .inr rfl
  · rw [hrest.field, hchildren.field, field_markAddressbook, occurrences, if_neg hk,
      List.nil_append, List.flatten_append, collect_append]
  · rw [hrest.addressbook, hchildren.addressbook, isAddressbook_mark, mentions, Bool.or_assoc,
      Bool.or_assoc, Bool.or_assoc]

theorem FieldReads.emptyElement
    (h : FieldReads X k parent rest (markAddressbook n.localName item) item₁ capture capture₁) :
    FieldReads X k parent (.emptyElement n rest) item item₁ capture capture₁ := by
  constructor
  · exact fun stack output => .cons rfl (h.reads stack output)
  · exact h.captured
  · rw [h.field, field_markAddressbook, occurrences, List.flatten_append]
    split_ifs <;> rfl
  · rw [h.addressbook, isAddressbook_mark, mentions, Bool.or_assoc]

/-- One piece of character data outside the elements of a field leaves the
field as it is. -/
theorem FieldReads.chars (hentities : ∀ e : Predefined, X.resolveXmlEntity e.name = some [e.char])
    (hcapture : capture ≠ some k) (fragment : Fragment) (item : ParsedDavResponse) :
    ∃ item₁, ∀ {item₂ capture₂}, FieldReads X k parent rest item₁ item₂ capture capture₂ →
      FieldReads X k parent (.chars fragment rest) item item₂ capture capture₂ := by
  cases capture with
  | none =>
    refine ⟨item, fun h =>
      ⟨fun stack output => .cons ?_ (h.reads stack output), h.captured, h.field, h.addressbook⟩⟩
    cases fragment <;> rfl
  | some k' =>
    refine ⟨appendCapture item k' fragment.decode, fun h =>
      ⟨fun stack output => .cons ?_ (h.reads stack output), h.captured, ?_, ?_⟩⟩
    · exact step_fragment hentities fragment _ item k' output
    · rw [h.field, field_appendCapture, if_neg (fun heq => hcapture (congrArg some heq.symm))]
      rfl
    · rw [h.addressbook, isAddressbook_appendCapture]
      rfl

/-- A field whose elements hold character data only is gathered. The induction
is on the content; the stack carries the name of the enclosing element, and
no element of the field is open. -/
theorem reads_field (hentities : ∀ e : Predefined, X.resolveXmlEntity e.name = some [e.char])
    {content : Content} (hplain : plainField k parent content = true)
    (hflat : content.mentions "response".toList = false) (item : ParsedDavResponse)
    (hcapture : capture ≠ some k) :
    ∃ item' capture', FieldReads X k parent content item item' capture capture' := by
  induction content generalizing parent item capture with
  | nil => exact ⟨item, capture, fun _ _ => .nil _, .inl rfl, rfl, (Bool.or_false _).symm⟩
  | element n children rest ihc ihr =>
    simp only [plainField, Bool.and_eq_true] at hplain
    obtain ⟨⟨hfield, hpc⟩, hpr⟩ := hplain
    simp only [mentions, Bool.or_eq_false_iff, decide_eq_false_iff_not] at hflat
    obtain ⟨⟨hn, hfc⟩, hfr⟩ := hflat
    by_cases hk : isField k parent n.localName = true
    · have hchars : children.charsOnly = true := by simpa [hk] using hfield
      obtain ⟨item₁, helement⟩ := FieldReads.field_element hentities hn hk hchars item
      obtain ⟨item₂, capture₂, hrest⟩ := ihr hpr hfr item₁ (Option.some_ne_none k).symm
      exact ⟨item₂, capture₂, helement hrest⟩
    · have hopen : captureAt (some parent) n.localName capture ≠ some k :=
        fun h => (isField_of_captureAt h).elim hk hcapture
      obtain ⟨item₁, capture₁, hchildren⟩ := ihc hpc hfc (markAddressbook n.localName item) hopen
      have hclosed : (if endsCapture n.localName then none else capture₁) ≠ some k := by
        obtain h | h := closed_capture hchildren.captured
        · rw [h]
          exact hcapture
        · rw [h]
          exact (Option.some_ne_none k).symm
      obtain ⟨item₂, capture₂, hrest⟩ := ihr hpr hfr item₁ hclosed
      exact ⟨item₂, capture₂, .element hn hk hchildren hrest⟩
  | emptyElement n rest ih =>
    simp only [mentions, Bool.or_eq_false_iff] at hflat
    obtain ⟨item₁, capture₁, hrest⟩ := ih hplain hflat.2 (markAddressbook n.localName item) hcapture
    exact ⟨item₁, capture₁, hrest.emptyElement⟩
  | chars fragment rest ih =>
    obtain ⟨item₁, hchars⟩ := FieldReads.chars hentities hcapture fragment item
    obtain ⟨item₂, capture₂, hrest⟩ := ih hplain hflat item₁ hcapture
    exact ⟨item₂, capture₂, hchars hrest⟩
  | other rest ih =>
    obtain ⟨item₁, capture₁, h⟩ := ih hplain hflat item hcapture
    exact ⟨item₁, capture₁, fun stack output => .cons rfl (h.reads stack output), h.captured,
      h.field, h.addressbook⟩

/-- The parser gets over the content of a response, whatever is around it,
with one item for what it holds. -/
def ReadsItem (X : QuickXml) (content : Content) (item : ParsedDavResponse) : Prop :=
  ∀ stack output, Reads X ⟨"response".toList :: stack, some {}, none, output⟩ content.events
    ⟨"response".toList :: stack, some item, none, output⟩

theorem ReadsItem.unique {content : Content} {item item' : ParsedDavResponse}
    (h : ReadsItem X content item) (h' : ReadsItem X content item') : item = item' := by
  have heq := (h [] []).symm.trans (h' [] [])
  simpa using heq

theorem reads_item (hentities : ∀ e : Predefined, X.resolveXmlEntity e.name = some [e.char])
    {content : Content} (hflat : content.mentions "response".toList = false) {k : Capture}
    (hplain : plainField k "response".toList content = true) :
    ∃ item, ReadsItem X content item ∧
      item.field k = collect none (occurrences k "response".toList content).flatten ∧
      item.isAddressbook = content.mentions "addressbook".toList := by
  obtain ⟨item, capture, h⟩ := reads_field hentities hplain hflat {} (Option.some_ne_none k).symm
  obtain rfl : capture = none := h.captured.elim id id
  refine ⟨item, h.reads, h.field.trans ?_, h.addressbook⟩
  cases k <;> rfl

theorem plainField_of_plainFields {k : Capture} {parent : Text} {content : Content}
    (h : plainFields parent content = true) : plainField k parent content = true := by
  induction content generalizing parent with
  | nil => rfl
  | element n children rest ihc ihr =>
    simp only [plainFields, Bool.and_eq_true] at h
    simp only [plainField, Bool.and_eq_true]
    refine ⟨⟨?_, ihc h.1.2⟩, ihr h.2⟩
    cases hk : isField k parent n.localName with
    | false => rfl
    | true =>
      have hany : fields.any (fun k => isField k parent n.localName) = true :=
        List.any_eq_true.mpr ⟨k, by cases k <;> decide, hk⟩
      simpa [hany] using h.1.1
  | emptyElement _ rest ih | chars _ rest ih | other rest ih => exact ih h

theorem reads_flat (hentities : ∀ e : Predefined, X.resolveXmlEntity e.name = some [e.char])
    {content : Content} (hflat : Flat content) :
    ∃ item, ReadsItem X content item ∧ Gathers content (trimParsedResponse item) := by
  have hfield := fun k => reads_item hentities hflat.1 (k := k) (plainField_of_plainFields hflat.2)
  obtain ⟨item, hreads, -, hbook⟩ := hfield .href
  refine ⟨item, hreads, fun k => ?_, hbook⟩
  obtain ⟨item', hreads', hk, -⟩ := hfield k
  rw [field_trim, hreads.unique hreads', hk]

/-- From the start tag of a response to its end tag the parser puts out its
item, trimmed. -/
theorem ReadsItem.response {content : Content} {item : ParsedDavResponse}
    (h : ReadsItem X content item)
    {n : QName} (hn : n.localName = "response".toList) {stack : List Text}
    {output : List ParsedDavResponse} {rest : List Event} {t : ParserState}
    (ht : Reads X ⟨stack, none, none, output ++ [trimParsedResponse item]⟩ rest t) :
    Reads X ⟨stack, none, none, output⟩
    (.startTag n :: (content.events ++ .endTag n :: rest)) t := by
  obtain ⟨ns, name⟩ := n
  dsimp only at hn
  subst hn
  exact .cons rfl (.append (h stack output) (.cons rfl ht))

/-- Over a whole document the parser puts out one item for each response that
has a start and an end tag. -/
theorem reads_document {P : Content → ParsedDavResponse → Prop} {doc : Content}
    (hitem : ∀ content ∈ taggedResponses doc,
      ∃ item, ReadsItem X content item ∧ P content (trimParsedResponse item))
    (stack : List Text) (output : List ParsedDavResponse) :
    ∃ items, Reads X ⟨stack, none, none, output⟩ doc.events ⟨stack, none, none, output ++ items⟩ ∧
      List.Forall₂ P (taggedResponses doc) items := by
  induction doc generalizing stack output with
  | nil => exact ⟨[], by rw [List.append_nil]; exact .nil _, .nil⟩
  | element n children rest ihc ihr =>
    simp only [taggedResponses, List.mem_append] at hitem
    have hrest := ihr (fun c hc => hitem c (.inr hc))
    by_cases hn : n.localName = "response".toList
    · rw [if_pos hn] at hitem
      obtain ⟨item, hreads, hone⟩ := hitem children (.inl (List.mem_singleton_self _))
      obtain ⟨items, hreads', hall⟩ := hrest stack (output ++ [trimParsedResponse item])
      refine ⟨trimParsedResponse item :: items, ?_, ?_⟩
      · rw [List.append_cons]
        exact hreads.response hn hreads'
      · rw [taggedResponses, if_pos hn]
        exact .cons hone hall
    · rw [if_neg hn] at hitem
      obtain ⟨items₁, hreads₁, hall₁⟩ :=
        ihc (fun c hc => hitem c (.inl hc)) (n.localName :: stack) output
      obtain ⟨items₂, hreads₂, hall₂⟩ := hrest stack (output ++ items₁)
      refine ⟨items₁ ++ items₂, ?_, ?_⟩
      · rw [← List.append_assoc]
        refine .cons ?_ (.append hreads₁ (.cons ?_ hreads₂))
        · simp only [step, hn, if_false]
        · simp only [step, ite_self, List.tail_cons]
      · rw [taggedResponses, if_neg hn]
        exact List.rel_append hall₁ hall₂
  | emptyElement n rest ih =>
    obtain ⟨items, hreads, hall⟩ := ih hitem stack output
    exact ⟨items, .cons rfl hreads, hall⟩
  | chars fragment rest ih =>
    obtain ⟨items, hreads, hall⟩ := ih hitem stack output
    refine ⟨items, .cons ?_ hreads, hall⟩
    cases fragment <;> rfl
  | other rest ih =>
    obtain ⟨items, hreads, hall⟩ := ih hitem stack output
    exact ⟨items, .cons rfl hreads, hall⟩

/-- Parsing a delivered document gives one item for each response that has a
start and an end tag. -/
theorem parse_document {P : Content → ParsedDavResponse → Prop} {xml : List UInt8} {doc : Content}
    (hread : X.read xml = document doc)
    (hitem : ∀ content ∈ taggedResponses doc,
      ∃ item, ReadsItem X content item ∧ P content (trimParsedResponse item)) :
    ∃ items, parseMultistatus X xml = .ok items ∧ List.Forall₂ P (taggedResponses doc) items := by
  obtain ⟨items, hreads, hall⟩ := reads_document hitem [] []
  refine ⟨items, ?_, hall⟩
  rw [parseMultistatus, hread]
  exact hreads.parse

theorem taggedResponses_eq {doc : Content} (h : noEmptyTag doc = true) :
    taggedResponses doc = responses doc := by
  induction doc with
  | nil => rfl
  | element n children rest ihc ihr =>
    simp only [noEmptyTag, Bool.and_eq_true, Bool.or_eq_true, decide_eq_true_eq] at h
    rw [taggedResponses, responses, ihr h.2]
    by_cases hn : n.localName = "response".toList
    · rw [if_pos hn, if_pos hn]
    · rw [if_neg hn, if_neg hn, ihc (h.1.resolve_left hn)]
  | emptyElement n rest ih =>
    simp only [noEmptyTag, Bool.and_eq_true, decide_eq_true_eq] at h
    rw [taggedResponses, responses, ih h.2, if_neg h.1, List.nil_append]
  | chars _ rest ih | other rest ih => exact ih h

theorem taggedResponses_sublist (doc : Content) :
    (taggedResponses doc).Sublist (responses doc) := by
  induction doc with
  | nil => exact .slnil
  | element n children rest ihc ihr =>
    rw [taggedResponses, responses]
    refine .append ?_ ihr
    split_ifs
    · exact .refl _
    · exact ihc
  | emptyElement n rest ih => exact ih.trans (List.sublist_append_right _ _)
  | chars _ rest ih | other rest ih => exact ih

/-- A response that is missing is missing from the count. -/
theorem noEmptyTag_of_length {doc : Content}
    (h : (taggedResponses doc).length = (responses doc).length) : noEmptyTag doc = true := by
  induction doc with
  | nil => rfl
  | element n children rest ihc ihr =>
    have hc := (taggedResponses_sublist children).length_le
    have hr := (taggedResponses_sublist rest).length_le
    simp only [taggedResponses, responses, List.length_append] at h
    simp only [noEmptyTag, Bool.and_eq_true, Bool.or_eq_true, decide_eq_true_eq]
    by_cases hn : n.localName = "response".toList
    · rw [if_pos hn, if_pos hn] at h
      exact ⟨.inl hn, ihr (by omega)⟩
    · rw [if_neg hn, if_neg hn] at h
      exact ⟨.inr (ihc (by omega)), ihr (by omega)⟩
  | emptyElement n rest ih =>
    have hr := (taggedResponses_sublist rest).length_le
    simp only [taggedResponses, responses, List.length_append] at h
    simp only [noEmptyTag, Bool.and_eq_true, decide_eq_true_eq]
    by_cases hn : n.localName = "response".toList
    · rw [if_pos hn, List.length_singleton] at h
      omega
    · rw [if_neg hn, List.length_nil, Nat.zero_add] at h
      exact ⟨hn, ih h⟩
  | chars _ rest ih | other rest ih => exact ih h

/-- The parser returns one item for each response of the document, in order,
and each item is what its response means. -/
def AgreesWithTree (X : QuickXml) (xml : List UInt8) (doc : Content) : Prop :=
  ∃ items, parseMultistatus X xml = .ok items ∧ List.Forall₂ Means (responses doc) items

/-- Event-driven parsing agrees with the tree exactly when every response has
a start and an end tag. -/
theorem parse_agrees_iff (hentities : ∀ e : Predefined, X.resolveXmlEntity e.name = some [e.char])
    {xml : List UInt8} {doc : Content} (hread : X.read xml = document doc)
    (hflat : ∀ content ∈ responses doc, Flat content) :
    AgreesWithTree X xml doc ↔ noEmptyTag doc = true := by
  obtain ⟨items, hparse, hall⟩ := parse_document hread
    (fun c hc => reads_flat hentities (hflat c ((taggedResponses_sublist doc).subset hc)))
  constructor
  · rintro ⟨items', hitems', hmeans⟩
    rw [hparse, Except.ok.injEq] at hitems'
    subst hitems'
    exact noEmptyTag_of_length (hall.length_eq.trans hmeans.length_eq.symm)
  · intro hno
    rw [taggedResponses_eq hno] at hall
    exact ⟨items, hparse, hall.imp fun _ _ h => h.means⟩

def predefinedEntity (name : Text) : Option Text :=
  ([.lt, .gt, .amp, .apos, .quot] : List Predefined).find? (·.name = name) |>.map
    (fun e => [e.char])

def asciiBytes (s : String) : List UInt8 := s.toList.map (fun c => c.val.toUInt8)

/-- A reader for one document. -/
def readsOnly (xml : String) (doc : Content) : QuickXml where
  read bytes := if bytes = asciiBytes xml then document doc else []
  resolveXmlEntity := predefinedEntity

theorem readsOnly_read (xml : String) (doc : Content) :
    (readsOnly xml doc).read (asciiBytes xml) = document doc := if_pos rfl

theorem parse_readsOnly (xml : String) (doc : Content) :
    parseMultistatus (readsOnly xml doc) (asciiBytes xml) =
      parseLoop (readsOnly xml doc) {} (document doc) := by
  rw [parseMultistatus, readsOnly_read]

def dav (name : String) : QName := ⟨some "d".toList, name.toList⟩

def sampleXml : String :=
  "<d:multistatus xmlns:d=\"DAV:\"><d:response><d:href> /a&amp;b</d:href><d:propstat><d:prop>" ++
  "<d:owner><d:href>/x</d:href></d:owner><d:getetag>&quot;1&#34;</d:getetag></d:prop></d:propstat>" ++
  "</d:response></d:multistatus>"

def sampleDoc : Content :=
  let prop : Content :=
    .element (dav "owner") (.element (dav "href") (.chars (.text "/x".toList) .nil) .nil)
      (.element (dav "getetag") (.chars (.entity .quot) (.chars (.text ['1'])
        (.chars (.charRef "#34".toList '"') .nil))) .nil)
  .element (dav "multistatus")
    (.element (dav "response")
      (.element (dav "href")
        (.chars (.text " /a".toList) (.chars (.entity .amp) (.chars (.text ['b']) .nil)))
        (.element (dav "propstat") (.element (dav "prop") prop .nil) .nil)) .nil) .nil

theorem parse_agrees_sample :
    parseMultistatus (readsOnly sampleXml sampleDoc) (asciiBytes sampleXml) =
      .ok [{ href := some "/a&b".toList, etag := some "\"1\"".toList }] ∧
    (AgreesWithTree (readsOnly sampleXml sampleDoc) (asciiBytes sampleXml) sampleDoc ↔
      noEmptyTag sampleDoc = true) := by
  refine ⟨by rw [parse_readsOnly]; decide +kernel,
    parse_agrees_iff (fun e => by cases e <;> rfl) (readsOnly_read _ _) ?_⟩
  unfold Flat
  decide +kernel

/-- A response without content, written as an empty-element tag. -/
def emptyXml : String := "<d:multistatus xmlns:d=\"DAV:\"><d:response/></d:multistatus>"

def emptyDoc : Content := .element (dav "multistatus") (.emptyElement (dav "response") .nil) .nil

theorem empty_tag_disagrees :
    (∀ content ∈ responses emptyDoc, Flat content ∧
      ∀ k ∈ fields, (occurrences k "response".toList content).length ≤ 1) ∧
    ¬ AgreesWithTree (readsOnly emptyXml emptyDoc) (asciiBytes emptyXml) emptyDoc := by
  refine ⟨by unfold Flat; decide +kernel, ?_⟩
  rintro ⟨items, hparse, hall⟩
  have hempty : parseMultistatus (readsOnly emptyXml emptyDoc)
      (asciiBytes emptyXml) = .ok [] := by
    rw [parse_readsOnly]
    decide +kernel
  rw [hempty, Except.ok.injEq] at hparse
  subst hparse
  exact absurd hall.length_eq (by decide)

end CardDavMcp.MultistatusTree

import CardDavMcp.MultistatusTree

namespace CardDavMcp.HomeSet

open Library.Utf8Text Library.XmlTree Content Multistatus MultistatusTree

variable {X : QuickXml}

/-- The texts of the hrefs in the home set of a response that are not empty. -/
def homeHrefs (content : Content) : List Text :=
  ((occurrences .addressbookHome "response".toList content).map decodeAll).filter (· ≠ [])

/-- A response without another one in it, whose home hrefs hold character
data only. -/
def PlainHome (content : Content) : Prop :=
  content.mentions "response".toList = false ∧
    plainField .addressbookHome "response".toList content = true

/-- An item has the first home href of its response. -/
def FirstHome (content : Content) (item : ParsedDavResponse) : Prop :=
  ∀ href ∈ (homeHrefs content).head?, item.addressbookHome = some (trim href)

/-- The home hrefs after the first hold white space at most. -/
def OneHome (content : Content) : Prop :=
  ∀ href ∈ (homeHrefs content).tail, ∀ c ∈ href, isWhitespace c = true

theorem decodeAll_flatten (fragments : List (List Fragment)) :
    decodeAll fragments.flatten = ((fragments.map decodeAll).filter (· ≠ [])).flatten := by
  rw [List.flatten_filter_ne_nil, decodeAll, List.flatMap_def, List.map_flatten,
    List.flatten_flatten, List.map_map]
  rfl

/-- The parser joins all home hrefs of a response to one. -/
theorem home_joined {content : Content} {item : ParsedDavResponse} (hhome : homeHrefs content ≠ [])
    (hitem : item.field .addressbookHome =
      collect none (occurrences .addressbookHome "response".toList content).flatten) :
    (trimParsedResponse item).addressbookHome = some (trim (homeHrefs content).flatten) := by
  have hsome : (occurrences .addressbookHome "response".toList content).flatten ≠ [] := by
    intro hnil
    apply hhome
    rw [List.flatten_eq_nil_iff] at hnil
    rw [homeHrefs, List.filter_eq_nil_iff]
    intro text htext
    obtain ⟨fragments, hmem, rfl⟩ := List.mem_map.mp htext
    rw [hnil fragments hmem]
    decide
  change (trimParsedResponse item).field .addressbookHome = _
  rw [field_trim, hitem, collect_none hsome, decodeAll_flatten]
  rfl

theorem firstHome_iff {content : Content} {item : ParsedDavResponse}
    (hitem : item.field .addressbookHome =
      collect none (occurrences .addressbookHome "response".toList content).flatten) :
    FirstHome content (trimParsedResponse item) ↔ OneHome content := by
  have hjoined := fun hhome => home_joined hhome hitem
  rw [FirstHome, OneHome]
  cases hhome : homeHrefs content with
  | nil => simp
  | cons href rest =>
    rw [hhome] at hjoined
    rw [hjoined (List.cons_ne_nil _ _)]
    calc (∀ first ∈ (href :: rest).head?, some (trim (href :: rest).flatten) = some (trim first))
        ↔ trim (href ++ rest.flatten) = trim href := by simp
      _ ↔ ∀ c ∈ rest.flatten, isWhitespace c = true := trim_append_iff ..
      _ ↔ ∀ text ∈ rest, ∀ c ∈ text, isWhitespace c = true := by
        simp only [List.mem_flatten, forall_exists_index, and_imp]
        exact ⟨fun h text htext c hc => h c text htext hc, fun h c text htext hc =>
          h text htext c hc⟩

/-- A response without a start and an end tag has no home set. -/
theorem taggedResponses_home (doc : Content) :
    (taggedResponses doc).filter (homeHrefs · ≠ []) =
      (responses doc).filter (homeHrefs · ≠ []) := by
  induction doc with
  | nil => rfl
  | element n children rest ihc ihr =>
    rw [taggedResponses, responses, List.filter_append, List.filter_append, ihr]
    split_ifs
    · rfl
    · rw [ihc]
  | emptyElement n rest ih =>
    rw [taggedResponses, responses, List.filter_append, ih]
    split_ifs <;> rfl
  | chars _ rest ih | other rest ih => exact ih

/-- Every response with a home set gives one item, and the item has the first
href of the set exactly when the hrefs after it hold white space at most. -/
theorem first_home_iff (hentities : ∀ e : Predefined, X.resolveXmlEntity e.name = some [e.char])
    {xml : List UInt8} {doc : Content} (hread : X.read xml = document doc)
    (hplain : ∀ content ∈ responses doc, PlainHome content) :
    (taggedResponses doc).filter (homeHrefs · ≠ []) = (responses doc).filter (homeHrefs · ≠ []) ∧
    ∃ items, parseMultistatus X xml = .ok items ∧
      List.Forall₂ (fun content item => FirstHome content item ↔ OneHome content)
        (taggedResponses doc) items := by
  refine ⟨taggedResponses_home doc, parse_document hread fun content hmem => ?_⟩
  obtain ⟨hflat, hhome⟩ := hplain content ((taggedResponses_sublist doc).subset hmem)
  obtain ⟨item, hreads, hfield, -⟩ := reads_item hentities hflat hhome
  exact ⟨item, hreads, firstHome_iff hfield⟩

def homeResponse (homes : Content) : Content :=
  .element (dav "multistatus")
    (.element (dav "response") (.element (dav "addressbook-home-set") homes .nil) .nil) .nil

def oneHomeXml : String :=
  "<d:multistatus xmlns:d=\"DAV:\"><d:response><d:addressbook-home-set>" ++
  "<d:href/> <d:href>/a&amp;b/ </d:href></d:addressbook-home-set></d:response></d:multistatus>"

def oneHomeDoc : Content :=
  homeResponse (.emptyElement (dav "href") (.chars (.text [' ']) (.element (dav "href")
    (.chars (.text "/a".toList) (.chars (.entity .amp) (.chars (.text "b/ ".toList) .nil))) .nil)))

theorem first_home_sample :
    (taggedResponses oneHomeDoc).map homeHrefs = [["/a&b/ ".toList]] ∧
    parseMultistatus (readsOnly oneHomeXml oneHomeDoc) (asciiBytes oneHomeXml) =
      .ok [{ addressbookHome := some "/a&b/".toList }] ∧
    ∃ items, parseMultistatus (readsOnly oneHomeXml oneHomeDoc)
      (asciiBytes oneHomeXml) = .ok items ∧
      List.Forall₂ (fun content item => FirstHome content item ↔ OneHome content)
        (taggedResponses oneHomeDoc) items := by
  have hplain : ∀ content ∈ responses oneHomeDoc, PlainHome content := by
    unfold PlainHome
    decide +kernel
  exact ⟨by decide +kernel, by rw [parse_readsOnly]; decide +kernel,
    (first_home_iff (fun e => by cases e <;> rfl) (readsOnly_read _ _) hplain).2⟩

/-- A home set of two hrefs. -/
def twoHomesXml : String :=
  "<d:multistatus xmlns:d=\"DAV:\"><d:response><d:addressbook-home-set>" ++
  "<d:href>/a/</d:href><d:href>/b/</d:href></d:addressbook-home-set></d:response></d:multistatus>"

def twoHomesDoc : Content :=
  homeResponse (.element (dav "href") (.chars (.text "/a/".toList) .nil)
    (.element (dav "href") (.chars (.text "/b/".toList) .nil) .nil))

theorem two_homes_joined :
    (∀ content ∈ responses twoHomesDoc, PlainHome content) ∧
    (taggedResponses twoHomesDoc).map homeHrefs = [["/a/".toList, "/b/".toList]] ∧
    parseMultistatus (readsOnly twoHomesXml twoHomesDoc) (asciiBytes twoHomesXml) =
      .ok [{ addressbookHome := some "/a//b/".toList }] ∧
    ¬ ∃ items, parseMultistatus (readsOnly twoHomesXml twoHomesDoc)
      (asciiBytes twoHomesXml) = .ok items ∧
      List.Forall₂ FirstHome (taggedResponses twoHomesDoc) items := by
  have hhomes : (taggedResponses twoHomesDoc).map homeHrefs = [["/a/".toList, "/b/".toList]] := by
    decide +kernel
  have hparse : parseMultistatus (readsOnly twoHomesXml twoHomesDoc) (asciiBytes twoHomesXml) =
      .ok [{ addressbookHome := some "/a//b/".toList }] := by
    rw [parse_readsOnly]
    decide +kernel
  refine ⟨by unfold PlainHome; decide +kernel, hhomes, hparse, ?_⟩
  rintro ⟨items, hitems, hall⟩
  rw [hparse, Except.ok.injEq] at hitems
  subst hitems
  obtain ⟨content, rest, hcontent⟩ :
      ∃ content rest, taggedResponses twoHomesDoc = content :: rest := ⟨_, _, rfl⟩
  rw [hcontent] at hall hhomes
  cases hall with
  | cons hfirst _ =>
    have hhead : homeHrefs content = ["/a/".toList, "/b/".toList] := (List.cons.inj hhomes).1
    have hjoined := hfirst "/a/".toList (by rw [hhead]; rfl)
    exact absurd hjoined (by decide +kernel)

end CardDavMcp.HomeSet

import CardDavMcp.XmlEscape

namespace CardDavMcp.SearchQuery

open Library.Utf8Text Library.XmlText DavClient CardDavClient ContactTools XmlEscape
open Library.XmlTree (Predefined)

theorem all_xmlChar_escapeXml (s : Text) : (escapeXml s).all isXmlChar = s.all isXmlChar := by
  induction s with
  | nil => rfl
  | cons c s ih =>
    have hc : (escapeXmlChar c).all isXmlChar = isXmlChar c := by
      rw [escapeXmlChar]
      cases he : entityOf c with
      | none => simp
      | some e =>
        rw [← entityOf_eq_some he]
        cases e <;> decide
    rw [escapeXml_cons, List.all_append, hc, ih, List.all_cons]

theorem all_xmlChar_searchBody (data : Text) :
    (searchBody data).all isXmlChar = data.all isXmlChar := by
  have hopen : ∀ name ∈ searchedNames, (filterOpen name).all isXmlChar := by decide +kernel
  have hclose : filterClose.all isXmlChar := by decide +kernel
  have hhead : searchHead.all isXmlChar := by
    rw [searchHead_eq]
    decide +kernel
  have htail : searchTail.all isXmlChar := by
    rw [searchTail_eq]
    decide +kernel
  simp only [searchedNames, List.forall_mem_cons] at hopen
  obtain ⟨hfn, hn, hemail, htel, horg, -⟩ := hopen
  rw [searchBody_split]
  simp only [searchedNames, List.flatMap_cons, List.flatMap_nil, propFilter_eq, List.all_append,
    hhead, htail, hclose, hfn, hn, hemail, htel, horg]
  simp

/-- Beyond what the guard keeps out, XML has no place for two noncharacters. -/
theorem isXmlChar_iff {c : Char} (h : isIllegalXmlChar c = false) :
    isXmlChar c ↔ c ≠ '\uFFFE' ∧ c ≠ '\uFFFF' := by
  have hval : ∀ d : Char, c = d ↔ c.toNat = d.toNat := fun d => by
    constructor
    · rintro rfl
      rfl
    · exact Char.toNat_inj.mp
  have hvalid : c.toNat < 0xD800 ∨ (0xDFFF < c.toNat ∧ c.toNat < 0x110000) := c.valid
  rw [ne_eq, ne_eq, hval, hval]
  have hfffe : ('\uFFFE').toNat = 0xFFFE := rfl
  have hffff : ('\uFFFF').toNat = 0xFFFF := rfl
  simp only [isIllegalXmlChar, Bool.or_eq_false_iff, decide_eq_false_iff_not,
    Bool.and_eq_false_iff] at h
  simp only [isXmlChar, Bool.or_eq_true, decide_eq_true_eq, Bool.and_eq_true]
  omega

theorem checkQuery_ok {query : Text} (h : checkQuery query = .ok ()) :
    query.any isIllegalXmlChar = false := by
  rw [checkQuery] at h
  split_ifs at h with hblank hbad
  simp only [Bool.or_eq_true, not_or] at hbad
  simpa using hbad.2

theorem normalizeLineEnds_escapeXml (s : Text) :
    normalizeLineEnds (escapeXml s) = escapeXml (normalizeLineEnds s) := by
  fun_induction normalizeLineEnds s with
  | case1 s ih =>
    have hcrlf : escapeXml ('\r' :: '\n' :: s) = '\r' :: '\n' :: escapeXml s := by
      rw [escapeXml_cons, escapeXml_cons]
      rfl
    have hlf : escapeXmlChar '\n' = ['\n'] := by decide
    rw [hcrlf, normalizeLineEnds, ih, escapeXml_cons, hlf, List.singleton_append]
  | case2 s hlf ih =>
    have hcr : escapeXml ('\r' :: s) = '\r' :: escapeXml s := escapeXml_cons ..
    have hlf' : escapeXmlChar '\n' = ['\n'] := by decide
    rw [hcr, normalizeLineEnds, ih, escapeXml_cons, hlf', List.singleton_append]
    -- escaping does not bring a line feed behind the carriage return
    intro t ht
    cases s with
    | nil => exact absurd ht (by simp [escapeXml])
    | cons x s =>
      rw [escapeXml_cons, escapeXmlChar] at ht
      cases he : entityOf x with
      | none =>
        rw [he] at ht
        exact hlf s (by rw [← (List.cons.inj ht).1])
      | some e =>
        rw [he] at ht
        exact absurd (List.cons.inj ht).1 (by decide)
  | case3 c s _ hc ih =>
    have hplain : '\r' ∉ escapeXmlChar c := by
      intro hmem
      rcases mem_escapeXmlChar hmem with ⟨-, he⟩ | ⟨e, -, he⟩
      · exact hc he.symm
      · revert he
        cases e <;> decide
    rw [escapeXml_cons, normalizeLineEnds_plain hplain, ih, escapeXml_cons]
  | case4 => rfl

/-- A processor of XML gets the query, and nothing else, from each of the
five elements of the body of a request. -/
structure Delivered (query body : Text) : Prop where
  chars : ∀ c ∈ body, isXmlChar c
  content : ∀ refs : References, ∃ content, read refs.lookup body = some content ∧
    content.named textMatch = List.replicate 5 (.text query)

theorem resolve_propFilters (refs : References) {data s : Text}
    (hdata : charData refs.lookup data = some s) (names : List String) {rest rest' : Content}
    (hrest : rest.resolve refs.lookup = some rest') :
    (names.foldr (propFilterElement data) rest).resolve refs.lookup =
      some (names.foldr (propFilterElement s) rest') := by
  have hindent : charData refs.lookup indent = some indent := by
    rw [charData_eq _ (by decide +kernel), resolve_plain _ (by decide +kernel)]
  have hnil : charData refs.lookup [] = some [] := charData_eq _ List.not_mem_nil
  induction names with
  | nil => exact hrest
  | cons name names ih =>
    rw [List.foldr_cons, List.foldr_cons, propFilterElement, Content.resolve, ih, hindent]
    simp [Content.resolve, hnil, hdata, propFilterElement]

theorem resolve_searchContent (refs : References) (s : Text) :
    (searchContent (escapeXml s)).resolve refs.lookup = some (searchContent s) := by
  have hblank : ∀ t ∈ [[], ['\n'], ['\n', ' ', ' ']], charData refs.lookup t = some t := by
    intro t ht
    have hplain : '>' ∉ t ∧ '&' ∉ t := by
      revert t
      decide
    rw [charData_eq _ hplain.1, resolve_plain _ hplain.2]
  have hnil := hblank [] (by simp)
  have hone := hblank ['\n'] (by simp)
  have htwo := hblank ['\n', ' ', ' '] (by simp)
  have hgt : '>' ∉ escapeXml s := not_mem_escapeXml ⟨.gt, rfl⟩ (by decide) s
  have hdata : charData refs.lookup (escapeXml s) = some s := by
    rw [charData_eq _ hgt, resolve_escapeXml]
  have hrest : (Content.text ['\n', ' ', ' ']).resolve refs.lookup =
      some (.text ['\n', ' ', ' ']) := by
    rw [Content.resolve, htwo, Option.map_some]
  have hfilters := resolve_propFilters refs hdata searchedNames hrest
  simp [searchContent, propContent, Content.resolve, hnil, hone, htwo, hfilters]

theorem read_searchBody (refs : References) {s : Text} (h : s.all isXmlChar) :
    read refs.lookup (searchBody (escapeXml s)) = some (searchContent (normalizeLineEnds s)) := by
  have hlt := not_mem_escapeXml (x := '<') ⟨.lt, rfl⟩ (by decide)
  have hmap : (searchContent (escapeXml s)).mapText normalizeLineEnds =
      searchContent (escapeXml (normalizeLineEnds s)) := by
    rw [mapText_searchContent rfl rfl rfl rfl, normalizeLineEnds_escapeXml]
  have hchars : (written xmlVersion (searchContent (escapeXml s))).all isXmlChar := by
    rw [← searchBody_eq, all_xmlChar_searchBody, all_xmlChar_escapeXml, h]
  rw [searchBody_eq, read_written refs.lookup (by decide +kernel) (by decide +kernel)
    (searchContent_writable (hlt s)) (hmap ▸ searchContent_writable (hlt _)) (hmap ▸ rfl) hchars,
    hmap, resolve_searchContent]

/-- The query that a search sends arrives exactly if it has neither a carriage
return nor one of the two noncharacters. -/
theorem delivered_iff {c : CardDavClient} {query : Text} {request : DavRequest}
    (h : SearchSends c query request) :
    Delivered query request.body ↔ '\r' ∉ query ∧ '\uFFFE' ∉ query ∧ '\uFFFF' ∉ query := by
  obtain ⟨hcheck, hbody⟩ := h.body
  rw [hbody]
  have hguard : ∀ c ∈ query, isXmlChar c ↔ c ≠ '\uFFFE' ∧ c ≠ '\uFFFF' := by
    intro c hc
    have hlegal := checkQuery_ok hcheck
    rw [List.any_eq_false] at hlegal
    exact isXmlChar_iff (by simpa using hlegal c hc)
  have hall : (∀ c ∈ searchBody (escapeXml query), isXmlChar c) ↔
      '\uFFFE' ∉ query ∧ '\uFFFF' ∉ query := by
    rw [← List.all_eq_true, all_xmlChar_searchBody, all_xmlChar_escapeXml, List.all_eq_true]
    constructor
    · intro hchars
      exact ⟨fun hmem => ((hguard _ hmem).mp (hchars _ hmem)).1 rfl,
        fun hmem => ((hguard _ hmem).mp (hchars _ hmem)).2 rfl⟩
    · rintro ⟨hfffe, hffff⟩ c hc
      exact (hguard c hc).mpr ⟨fun he => hfffe (he ▸ hc), fun he => hffff (he ▸ hc)⟩
  have hread : '\uFFFE' ∉ query ∧ '\uFFFF' ∉ query → ∀ refs : References,
      read refs.lookup (searchBody (escapeXml query)) =
        some (searchContent (normalizeLineEnds query)) := by
    intro hno refs
    have hchars := List.all_eq_true.mpr (hall.mpr hno)
    rw [all_xmlChar_searchBody, all_xmlChar_escapeXml] at hchars
    exact read_searchBody refs hchars
  constructor
  · rintro ⟨hchars, hcontent⟩
    have hno := hall.mp hchars
    obtain ⟨content, hsome, hnamed⟩ := hcontent References.undeclared
    rw [hread hno, Option.some_inj] at hsome
    rw [← hsome, named_searchContent] at hnamed
    have hsame : normalizeLineEnds query = query := by simpa using hnamed
    exact ⟨hsame ▸ cr_not_mem_normalizeLineEnds query, hno⟩
  · rintro ⟨hcr, hno⟩
    refine ⟨hall.mpr hno, fun refs => ⟨_, hread hno refs, ?_⟩⟩
    rw [named_searchContent, normalizeLineEnds_of_not_mem hcr]

theorem delivered_hostile :
    SearchSends plainService.carddav "x&lt;]]><!-- é".toList
      (plainSearch "x&lt;]]><!-- é".toList) ∧
    Delivered "x&lt;]]><!-- é".toList (plainSearch "x&lt;]]><!-- é".toList).body := by
  have hchecked : CardDavClient.checkQuery "x&lt;]]><!-- é".toList = .ok () := by decide +kernel
  have hsent := searchSends_plain hchecked
  exact ⟨hsent, (delivered_iff hsent).mpr (by decide +kernel)⟩

/-- Of two lines the server gets other ones than were typed, and with a
noncharacter it gets no XML. -/
theorem query_changed :
    (SearchSends plainService.carddav "a\rb".toList (plainSearch "a\rb".toList) ∧
      (read References.undeclared.lookup (plainSearch "a\rb".toList).body).map
        (·.named textMatch) = some (List.replicate 5 (.text "a\nb".toList)) ∧
      ¬ Delivered "a\rb".toList (plainSearch "a\rb".toList).body) ∧
    SearchSends plainService.carddav ['a', '\uFFFE'] (plainSearch ['a', '\uFFFE']) ∧
      ¬ Delivered ['a', '\uFFFE'] (plainSearch ['a', '\uFFFE']).body := by
  have hbody : ∀ query, (plainSearch query).body = searchBody (escapeXml query) := fun _ => rfl
  have hread : (read References.undeclared.lookup (searchBody (escapeXml "a\rb".toList))).map
      (·.named textMatch) = some (List.replicate 5 (.text "a\nb".toList)) := by
    rw [read_searchBody References.undeclared (by decide), Option.map_some, named_searchContent]
    rfl
  simp only [hbody]
  refine ⟨⟨searchSends_plain (by decide +kernel), hread, ?_⟩, searchSends_plain (by decide +kernel),
    ?_⟩
  · rintro ⟨-, hcontent⟩
    obtain ⟨content, hsome, hnamed⟩ := hcontent References.undeclared
    rw [hsome, Option.map_some, hnamed] at hread
    revert hread
    decide
  · rintro ⟨hchars, -⟩
    have hbad := List.all_eq_true.mpr hchars
    rw [all_xmlChar_searchBody, all_xmlChar_escapeXml] at hbad
    revert hbad
    decide

end CardDavMcp.SearchQuery

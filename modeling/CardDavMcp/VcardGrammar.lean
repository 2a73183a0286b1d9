import CardDavMcp.Vcard

namespace CardDavMcp.VcardGrammar

open Library.Utf8Text VcardText VcardFold Vcard

def IsToken (s : Text) : Prop := s ≠ [] ∧ ∀ c ∈ s, c.isAlphanum ∨ c = '-'

/-- A value of a parameter as RFC 6350 has it written: bare or in quotes. -/
inductive ParamValue
  | plain (text : Text) (safe : ∀ c ∈ text, c ∉ [';', ':', ',', '"', '\r', '\n'])
  | quoted (text : Text) (safe : ∀ c ∈ text, c ∉ ['"', '\r', '\n'])

def ParamValue.text : ParamValue → Text
  | plain text _ => text
  | quoted text _ => '"' :: text ++ ['"']

structure Param where
  name : Text
  values : List ParamValue
  token : IsToken name
  nonempty : values ≠ []

def Param.text (param : Param) : Text :=
  param.name ++ '=' :: [','].intercalate (param.values.map ParamValue.text)

/-- A content line of RFC 6350, before it is folded. -/
structure Property where
  group : Option Text
  name : Text
  params : List Param
  value : Text
  groupToken : ∀ g ∈ group, IsToken g
  nameToken : IsToken name
  noCr : '\r' ∉ value
  noLf : '\n' ∉ value

def groupText : Option Text → Text
  | none => []
  | some group => group ++ ['.']

namespace Property

def head (p : Property) : Text :=
  groupText p.group ++ p.name ++ p.params.flatMap (fun param => ';' :: param.text)

def text (p : Property) : Text := p.head ++ ':' :: p.value

/-- What the grammar has the line say. -/
def reading (p : Property) : Text × Text := (toAsciiUppercase p.name, p.value)

/-- Some parameter has a colon between its quotes. -/
def QuotedColon (p : Property) : Prop :=
  ∃ param ∈ p.params, ∃ text safe, ParamValue.quoted text safe ∈ param.values ∧ ':' ∈ text

end Property

/-- The text after the first colon outside double quotes. -/
def afterColon (inQuotes : Bool) : Text → Option Text
  | [] => none
  | c :: s =>
    if c = '"' then afterColon (!inQuotes) s
    else if c = ':' ∧ inQuotes = false then some s
    else afterColon inQuotes s

/-- What `parseLine` makes of a line: the property and its raw value. -/
def readLine (line : Text) : Option (Text × Text) :=
  (splitOnce ':' line).map fun p => (propertyOf p.1, p.2)

theorem parseLine_eq (parsed : ParsedVcard) (line : Text) :
    parseLine parsed line =
      ((readLine line).map fun p => setProperty parsed p.1 p.2).getD parsed := by
  rw [parseLine, readLine]
  cases splitOnce ':' line <;> rfl

theorem not_mem_token {s : Text} (h : IsToken s) {x : Char} (hx : x.isAlphanum = false)
    (hd : x ≠ '-') : x ∉ s := by
  intro hmem
  rcases h.2 x hmem with hc | hc
  · rw [hx] at hc
    exact absurd hc (by decide)
  · exact hd hc

theorem afterColon_plain {s : Text} (hq : '"' ∉ s) (hc : ':' ∉ s) (t : Text) :
    afterColon false (s ++ t) = afterColon false t := by
  induction s with
  | nil => rfl
  | cons c s ih =>
    simp only [List.mem_cons, not_or] at hq hc
    rw [List.cons_append, afterColon, if_neg (Ne.symm hq.1), if_neg (fun h => hc.1 h.1.symm),
      ih hq.2 hc.2]

theorem afterColon_quoted {s : Text} (hq : '"' ∉ s) (t : Text) :
    afterColon true (s ++ '"' :: t) = afterColon false t := by
  induction s with
  | nil => simp [afterColon]
  | cons c s ih =>
    simp only [List.mem_cons, not_or] at hq
    rw [List.cons_append, afterColon, if_neg (Ne.symm hq.1), if_neg (by simp), ih hq.2]

theorem afterColon_token {s : Text} (h : IsToken s) (t : Text) :
    afterColon false (s ++ t) = afterColon false t :=
  afterColon_plain (not_mem_token h (by decide) (by decide))
    (not_mem_token h (by decide) (by decide)) t

theorem afterColon_char {c : Char} (hq : c ≠ '"') (hc : c ≠ ':') (t : Text) :
    afterColon false (c :: t) = afterColon false t :=
  afterColon_plain (s := [c]) (by simpa using Ne.symm hq) (by simpa using Ne.symm hc) t

theorem afterColon_value (v : ParamValue) (t : Text) :
    afterColon false (v.text ++ t) = afterColon false t := by
  cases v with
  | plain text safe =>
    apply afterColon_plain
    · exact fun h => safe _ h (by simp)
    · exact fun h => safe _ h (by simp)
  | quoted text safe =>
    have hq : '"' ∉ text := fun h => safe _ h (by simp)
    have hopen : afterColon false ('"' :: (text ++ '"' :: t)) =
        afterColon true (text ++ '"' :: t) := rfl
    simpa [ParamValue.text, afterColon_quoted hq] using hopen

theorem afterColon_values (values : List ParamValue) (t : Text) :
    afterColon false ([','].intercalate (values.map ParamValue.text) ++ t) =
      afterColon false t := by
  induction values with
  | nil => rfl
  | cons v values ih =>
    cases values with
    | nil => simpa using afterColon_value v t
    | cons v' values =>
      rw [List.map_cons, List.map_cons, List.intercalate_cons_cons, List.append_assoc,
        List.append_assoc, afterColon_value, List.singleton_append,
        afterColon_char (by decide) (by decide)]
      exact ih

theorem afterColon_params (params : List Param) (t : Text) :
    afterColon false (params.flatMap (fun param => ';' :: param.text) ++ t) =
      afterColon false t := by
  induction params with
  | nil => rfl
  | cons param params ih =>
    rw [List.flatMap_cons, Param.text, List.append_assoc, List.cons_append, List.append_assoc,
      List.cons_append, afterColon_char (by decide) (by decide), afterColon_token param.token,
      afterColon_char (by decide) (by decide), afterColon_values, ih]

/-- The grammar cuts a line where its value begins. -/
theorem afterColon_text (p : Property) : afterColon false p.text = some p.value := by
  have hgroup : ∀ t, afterColon false (groupText p.group ++ t) = afterColon false t := by
    intro t
    cases hg : p.group with
    | none => rfl
    | some group =>
      rw [groupText, List.append_assoc, afterColon_token (p.groupToken group hg),
        List.singleton_append, afterColon_char (by decide) (by decide)]
  rw [Property.text, Property.head, List.append_assoc, List.append_assoc, hgroup,
    afterColon_token p.nameToken, afterColon_params]
  rfl

theorem mem_intercalate {sep : Text} {x : Char} (hx : x ∉ sep) (parts : List Text) :
    x ∈ sep.intercalate parts ↔ ∃ part ∈ parts, x ∈ part := by
  induction parts with
  | nil => simp
  | cons part parts ih =>
    cases parts with
    | nil => simp
    | cons part' parts =>
      rw [List.intercalate_cons_cons, List.mem_append, List.mem_append, ih]
      simp [hx]

theorem colon_mem_value (v : ParamValue) :
    ':' ∈ v.text ↔ ∃ text safe, v = ParamValue.quoted text safe ∧ ':' ∈ text := by
  cases v with
  | plain text safe =>
    have hno : ':' ∉ text := fun h => safe _ h (by simp)
    simp [ParamValue.text, hno]
  | quoted text safe =>
    constructor
    · intro h
      exact ⟨text, safe, rfl, by simpa [ParamValue.text] using h⟩
    · rintro ⟨text', safe', he, hc⟩
      cases he
      simp [ParamValue.text, hc]

theorem colon_mem_param (param : Param) :
    ':' ∈ param.text ↔ ∃ text safe, ParamValue.quoted text safe ∈ param.values ∧ ':' ∈ text := by
  have hname := not_mem_token param.token (x := ':') (by decide) (by decide)
  have hiff : ':' ∈ param.text ↔ ∃ v ∈ param.values, ':' ∈ v.text := by
    rw [Param.text, List.mem_append, List.mem_cons, mem_intercalate (by decide)]
    simp [hname]
  rw [hiff]
  constructor
  · rintro ⟨v, hv, hc⟩
    obtain ⟨text, safe, rfl, htext⟩ := (colon_mem_value v).mp hc
    exact ⟨text, safe, hv, htext⟩
  · rintro ⟨text, safe, hv, hc⟩
    exact ⟨_, hv, (colon_mem_value _).mpr ⟨text, safe, rfl, hc⟩⟩

theorem colon_mem_head (p : Property) : ':' ∈ p.head ↔ p.QuotedColon := by
  have hname := not_mem_token p.nameToken (x := ':') (by decide) (by decide)
  have hgroup : ':' ∉ groupText p.group := by
    cases hg : p.group with
    | none => simp [groupText]
    | some group =>
      have hno := not_mem_token (p.groupToken group hg) (x := ':') (by decide) (by decide)
      simp [groupText, hno]
  rw [Property.head, List.mem_append, List.mem_append, List.mem_flatMap, Property.QuotedColon]
  simp [hname, hgroup, colon_mem_param]

/-- Neither the group nor the parameters hide the name. -/
theorem propertyOf_head (p : Property) : propertyOf p.head = toAsciiUppercase p.name := by
  have hname := fun x => not_mem_token p.nameToken (x := x)
  have hfirst : (p.head.splitOn ';').headD [] = groupText p.group ++ p.name := by
    have hno : ';' ∉ groupText p.group ++ p.name := by
      rw [List.mem_append, not_or]
      refine ⟨?_, hname ';' (by decide) (by decide)⟩
      cases hg : p.group with
      | none => simp [groupText]
      | some group =>
        have hno := not_mem_token (p.groupToken group hg) (x := ';') (by decide) (by decide)
        simp [groupText, hno]
    rw [Property.head]
    cases p.params with
    | nil => simp [List.splitOn_eq_singleton hno]
    | cons param params =>
      rw [List.flatMap_cons, List.cons_append, List.splitOn_append_cons_self_of_not_mem hno]
      rfl
  have hlast : ((groupText p.group ++ p.name).splitOn '.').getLastD [] = p.name := by
    have hno := hname '.' (by decide) (by decide)
    cases hg : p.group with
    | none => simp [groupText, List.splitOn_eq_singleton hno]
    | some group =>
      have hgno := not_mem_token (p.groupToken group hg) (x := '.') (by decide) (by decide)
      rw [groupText, List.append_assoc, List.singleton_append,
        List.splitOn_append_cons_self_of_not_mem hgno, List.splitOn_eq_singleton hno]
      rfl
  rw [propertyOf, hfirst, hlast]

theorem splitOnce_of_mem {c : Char} {s : Text} (h : c ∈ s) (t : Text) :
    ∃ a b, splitOnce c (s ++ c :: t) = some (a, b) ∧ t.length < b.length := by
  induction s with
  | nil => simp at h
  | cons x s ih =>
    by_cases hx : x = c
    · refine ⟨[], s ++ c :: t, by simp [splitOnce, hx], ?_⟩
      simp
      omega
    · have hmem : c ∈ s := by simpa [Ne.symm hx] using h
      obtain ⟨a, b, hsplit, hlen⟩ := ih hmem
      exact ⟨x :: a, b, by simp [splitOnce, hx, hsplit], hlen⟩

/-- A colon between the quotes of a parameter, and only that, moves the value. -/
theorem readLine_text_iff (p : Property) : readLine p.text = some p.reading ↔ ¬ p.QuotedColon := by
  rw [← colon_mem_head, Property.text, readLine]
  constructor
  · intro h hmem
    obtain ⟨a, b, hsplit, hlen⟩ := splitOnce_of_mem hmem p.value
    rw [hsplit, Option.map_some, Option.some.injEq] at h
    have hb : b = p.value := congrArg Prod.snd h
    rw [hb] at hlen
    exact absurd hlen (Nat.lt_irrefl _)
  · intro h
    rw [splitOnce_append h, Option.map_some, propertyOf_head, Property.reading]

theorem mem_param_text {param : Param} {x : Char} (hx : x = '\r' ∨ x = '\n') : x ∉ param.text := by
  have hname : x ∉ param.name := by
    rcases hx with rfl | rfl <;> exact not_mem_token param.token (by decide) (by decide)
  have hvalues : ¬ ∃ part ∈ param.values.map ParamValue.text, x ∈ part := by
    rintro ⟨part, hpart, hmem⟩
    obtain ⟨v, -, rfl⟩ := List.mem_map.mp hpart
    cases v with
    | plain text safe => rcases hx with rfl | rfl <;> exact safe _ hmem (by simp)
    | quoted text safe =>
      rcases hx with rfl | rfl <;> exact safe _ (by simpa [ParamValue.text] using hmem) (by simp)
  have hsep : x ∉ [','] ∧ x ≠ '=' := by rcases hx with rfl | rfl <;> decide
  rw [Param.text, List.mem_append, List.mem_cons, mem_intercalate hsep.1, not_or, not_or]
  exact ⟨hname, hsep.2, hvalues⟩

theorem break_not_mem_text (p : Property) {x : Char} (hx : x = '\r' ∨ x = '\n') : x ∉ p.text := by
  have hname : x ∉ p.name := by
    rcases hx with rfl | rfl <;> exact not_mem_token p.nameToken (by decide) (by decide)
  have hgroup : x ∉ groupText p.group := by
    cases hg : p.group with
    | none => simp [groupText]
    | some group =>
      have htoken := p.groupToken group hg
      rcases hx with rfl | rfl <;>
        simpa [groupText] using not_mem_token htoken (by decide) (by decide)
  have hparams : x ∉ p.params.flatMap (fun param => ';' :: param.text) := by
    have hsemi : x ≠ ';' := by rcases hx with rfl | rfl <;> decide
    simp [hsemi, mem_param_text hx]
  have hvalue : x ∉ p.value := by rcases hx with rfl | rfl; exacts [p.noCr, p.noLf]
  have hcolon : x ≠ ':' := by rcases hx with rfl | rfl <;> decide
  simp [Property.text, Property.head, hname, hgroup, hparams, hvalue, hcolon]

theorem starts_text (p : Property) : Starts p.text := by
  have htoken : ∀ s, IsToken s → ∀ t, Starts (s ++ t) := by
    intro s hs t c hc
    obtain ⟨x, rest, rfl⟩ := List.exists_cons_of_ne_nil hs.1
    obtain rfl := Option.mem_some_iff.mp hc
    have hx := hs.2 x List.mem_cons_self
    constructor
    · rintro rfl
      revert hx
      decide
    · rintro rfl
      revert hx
      decide
  rw [Property.text, Property.head]
  cases hg : p.group with
  | none =>
    rw [groupText, List.nil_append, List.append_assoc]
    exact htoken p.name p.nameToken _
  | some group =>
    simp only [groupText, List.append_assoc]
    exact htoken group (p.groupToken group hg) _

/-- A property as it stands in a card: its line, folded somewhere. -/
structure WrittenProperty where
  property : Property
  folded : FoldedLine
  same : folded.line = property.text

def cardText (card : List WrittenProperty) : Text := endLines (card.map WrittenProperty.folded)

/-- Every line counts as the property and the value that the grammar gives
it, and nothing else of the card reaches the fields. -/
structure ReadsAsWritten (card : List WrittenProperty) : Prop where
  lines : (unfoldVcardLines (cardText card)).filterMap readLine = card.map (·.property.reading)
  fields : parseVcard (cardText card) =
    (card.map (·.property.reading)).foldl (fun parsed r => setProperty parsed r.1 r.2) {}

theorem unfold_cardText (card : List WrittenProperty) :
    unfoldVcardLines (cardText card) = card.map (·.property.text) ++ [[]] := by
  have hline : ∀ {P : Text → Prop}, (∀ p : Property, P p.text) →
      ∀ f ∈ card.map WrittenProperty.folded, P f.line := by
    intro P hP f hf
    obtain ⟨w, -, rfl⟩ := List.mem_map.mp hf
    exact w.same ▸ hP w.property
  have hr := hline (P := ('\r' ∉ ·)) fun p => break_not_mem_text p (Or.inl rfl)
  have hn := hline (P := ('\n' ∉ ·)) fun p => break_not_mem_text p (Or.inr rfl)
  rw [cardText, unfoldVcardLines_endLines _ hr hn (hline starts_text), List.map_map]
  exact congrArg (· ++ [[]]) (List.map_congr_left fun w _ => w.same)

theorem parseVcard_readings (vcard : Text) :
    parseVcard vcard = ((unfoldVcardLines vcard).filterMap readLine).foldl
      (fun parsed r => setProperty parsed r.1 r.2) {} := by
  rw [parseVcard, List.foldl_filterMap]
  congr 1
  funext parsed line
  rw [parseLine_eq]
  cases readLine line <;> rfl

/-- A card is read as it was written exactly if no parameter has a colon
between its quotes. -/
theorem reads_as_written_iff (card : List WrittenProperty) :
    (∀ w ∈ card, afterColon false w.folded.line = some w.property.value) ∧
      (ReadsAsWritten card ↔ ∀ w ∈ card, ¬ w.property.QuotedColon) := by
  refine ⟨fun w _ => by rw [w.same, afterColon_text], ?_⟩
  have hread : ∀ p : Property, ∃ r, readLine p.text = some r := by
    intro p
    obtain ⟨a, b, hsplit⟩ : ∃ a b, splitOnce ':' p.text = some (a, b) := by
      by_cases hmem : ':' ∈ p.head
      · obtain ⟨a, b, hsplit, -⟩ := splitOnce_of_mem hmem p.value
        exact ⟨a, b, hsplit⟩
      · exact ⟨_, _, splitOnce_append hmem p.value⟩
    exact ⟨_, by rw [readLine, hsplit]; rfl⟩
  choose read hread using hread
  have hlines : (unfoldVcardLines (cardText card)).filterMap readLine =
      card.map (read ·.property) := by
    rw [unfold_cardText, List.filterMap_append, List.filterMap_map]
    have hempty : [([] : Text)].filterMap readLine = [] := rfl
    rw [hempty, List.append_nil, ← List.filterMap_eq_map]
    exact List.filterMap_congr fun w _ => hread w.property
  have hiff : card.map (read ·.property) = card.map (·.property.reading) ↔
      ∀ w ∈ card, ¬ w.property.QuotedColon := by
    rw [List.map_inj_left]
    refine forall₂_congr fun w _ => ?_
    rw [← readLine_text_iff, hread, Option.some_inj]
  constructor
  · intro h
    exact hiff.mp (hlines ▸ h.lines)
  · intro h
    have hsame := hlines.trans (hiff.mpr h)
    exact ⟨hsame, by rw [parseVcard_readings, hsame]⟩

/-- `NOTE;ALTREP="cid:1":Hello` -/
def altrepNote : Property where
  group := none
  name := "NOTE".toList
  params := [⟨"ALTREP".toList, [.quoted "cid:1".toList (by simp)], ⟨by decide, by simp⟩,
    by simp⟩]
  value := "Hello".toList
  groupToken := by simp
  nameToken := ⟨by decide, by simp⟩
  noCr := by decide
  noLf := by decide

def altrepLine : WrittenProperty := ⟨altrepNote, ⟨altrepNote.text, [], by decide⟩, by decide⟩

/-- The note of the card is `Hello`, and the tool reports `1":Hello`. -/
theorem altrep_misread :
    cardText [altrepLine] = "NOTE;ALTREP=\"cid:1\":Hello\r\n".toList ∧
      (parseVcard (cardText [altrepLine])).note = some "1\":Hello".toList ∧
      ¬ ∀ card, ReadsAsWritten card := by
  refine ⟨by decide +kernel, by decide +kernel, ?_⟩
  intro h
  have hfields := (h [altrepLine]).fields
  revert hfields
  decide +kernel

end CardDavMcp.VcardGrammar

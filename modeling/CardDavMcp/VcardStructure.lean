import CardDavMcp.VcardLines

namespace CardDavMcp.VcardStructure

open Library.Utf8Text Contact VcardText VcardFold Vcard VcardLines

/-- Line breaks occur only as a carriage return with its line feed. -/
def PairedBreaks : Text → Prop
  | [] => True
  | '\r' :: '\n' :: s => PairedBreaks s
  | c :: s => c ≠ '\r' ∧ c ≠ '\n' ∧ PairedBreaks s

theorem pairedBreaks_append {s t : Text} (hs : PairedBreaks s) (ht : PairedBreaks t) :
    PairedBreaks (s ++ t) := by
  induction s using PairedBreaks.induct with
  | case1 => exact ht
  | case2 s ih => exact ih hs
  | case3 c s hne ih =>
    rw [PairedBreaks] at hs
    · obtain ⟨hr, hn, hs⟩ := hs
      rw [List.cons_append, PairedBreaks]
      · exact ⟨hr, hn, ih hs⟩
      · exact fun _ he => absurd he hr
    · exact hne

theorem pairedBreaks_noBreak {s : Text} (hs : NoBreak s) : PairedBreaks s := by
  induction s with
  | nil => trivial
  | cons c s ih =>
    simp only [NoBreak, List.mem_cons, not_or] at hs
    rw [PairedBreaks]
    · exact ⟨Ne.symm hs.1.1, Ne.symm hs.2.1, ih ⟨hs.1.2, hs.2.2⟩⟩
    · exact fun _ he => absurd he.symm hs.1.1

theorem pairedBreaks_joinLines (lines : List Text) (h : ∀ l ∈ lines, NoBreak l) :
    PairedBreaks (joinLines lines) := by
  induction lines with
  | nil => trivial
  | cons line lines ih =>
    obtain ⟨head, tail, hfold, hflat, -, -, -⟩ := foldVcardLine_segments line
    have hline := h line (by simp)
    have hhead : NoBreak head := by
      rw [← hflat] at hline
      exact ⟨fun hm => hline.1 (by simp [hm]), fun hm => hline.2 (by simp [hm])⟩
    have htail : ∀ s ∈ tail, NoBreak s := by
      intro s hs
      rw [← hflat] at hline
      have hsub : ∀ x ∈ s, x ∈ head ++ tail.flatten := fun x hx =>
        List.mem_append_right _ (List.mem_flatten.mpr ⟨s, hs, hx⟩)
      exact ⟨fun hm => hline.1 (hsub _ hm), fun hm => hline.2 (hsub _ hm)⟩
    have hcont : PairedBreaks (continuations tail) := by
      clear hfold hflat
      induction tail with
      | nil => trivial
      | cons s tail ih =>
        have hs : NoBreak (' ' :: s) := by simpa [NoBreak] using htail s (by simp)
        have hrest := ih (fun r hr => htail r (List.mem_cons_of_mem _ hr))
        have hb : PairedBreaks ('\r' :: '\n' :: ' ' :: s) := by
          change PairedBreaks (' ' :: s)
          exact pairedBreaks_noBreak hs
        exact pairedBreaks_append hb hrest
    have hrest := ih (fun l hl => h l (List.mem_cons_of_mem _ hl))
    have hjoin : joinLines (line :: lines) =
        (head ++ continuations tail) ++ ("\r\n".toList ++ joinLines lines) := by
      simp [joinLines, hfold]
    rw [hjoin]
    exact pairedBreaks_append (pairedBreaks_append (pairedBreaks_noBreak hhead) hcont) hrest

theorem pairedBreaks_cr {a b : Text} (h : PairedBreaks (a ++ '\r' :: b)) :
    ∃ b', b = '\n' :: b' := by
  induction a using PairedBreaks.induct with
  | case1 =>
    cases b with
    | nil => simp [PairedBreaks] at h
    | cons c b =>
      by_cases hc : c = '\n'
      · exact ⟨b, by rw [hc]⟩
      · rw [List.nil_append, PairedBreaks] at h
        · exact absurd rfl h.1
        · rintro s - he
          exact hc (List.cons.inj he).1
  | case2 a ih => exact ih h
  | case3 c a hne ih =>
    rw [List.cons_append, PairedBreaks] at h
    · exact ih h.2.2
    · rintro s rfl he
      cases a with
      | nil => simp at he
      | cons d a => exact hne a rfl (by rw [(List.cons.inj he).1])

theorem pairedBreaks_lf {a b : Text} (h : PairedBreaks (a ++ '\n' :: b)) :
    ∃ a', a = a' ++ ['\r'] := by
  induction a using PairedBreaks.induct with
  | case1 => simp [PairedBreaks] at h
  | case2 a ih =>
    obtain ⟨a', rfl⟩ := ih h
    exact ⟨'\r' :: '\n' :: a', rfl⟩
  | case3 c a hne ih =>
    by_cases hc : c = '\r'
    · subst c
      cases a with
      | nil => exact ⟨[], rfl⟩
      | cons d a =>
        rw [List.cons_append, PairedBreaks] at h
        · exact absurd rfl h.1
        · rintro s - he
          exact hne a rfl (by rw [(List.cons.inj he).1])
    · rw [List.cons_append, PairedBreaks] at h
      · obtain ⟨a', rfl⟩ := ih h.2.2
        exact ⟨c :: a', rfl⟩
      · exact fun _ he => absurd he hc

/-- The length of the run of backslashes that a text ends with. -/
def trailingBackslashes (s : Text) : Nat := (s.reverse.takeWhile (· == '\\')).length

/-- How often a character occurs unescaped: after an even number of
backslashes. The first argument is the text already passed. -/
def unescapedFrom (before : Text) (c : Char) : Text → Nat
  | [] => 0
  | x :: s =>
      (if x = c ∧ trailingBackslashes before % 2 = 0 then 1 else 0) +
        unescapedFrom (before ++ [x]) c s

def unescapedCount (c : Char) (s : Text) : Nat := unescapedFrom [] c s

@[simp] theorem trailingBackslashes_snoc (s : Text) (x : Char) :
    trailingBackslashes (s ++ [x]) = if x = '\\' then trailingBackslashes s + 1 else 0 := by
  by_cases h : x = '\\' <;> simp [trailingBackslashes, h]

theorem unescapedFrom_append (before : Text) (c : Char) (s t : Text) :
    unescapedFrom before c (s ++ t) =
      unescapedFrom before c s + unescapedFrom (before ++ s) c t := by
  induction s generalizing before with
  | nil => simp [unescapedFrom]
  | cons x s ih => simp [unescapedFrom, ih, Nat.add_assoc]

theorem unescapedFrom_of_not_mem (before : Text) {c : Char} {s : Text} (h : c ∉ s) :
    unescapedFrom before c s = 0 := by
  induction s generalizing before with
  | nil => rfl
  | cons x s ih =>
    simp only [List.mem_cons, not_or] at h
    simp [unescapedFrom, Ne.symm h.1, ih _ h.2]

/-- An escape pair after an even run of backslashes hides its character and
leaves an even run behind. -/
theorem unescapedFrom_escapeChar {before : Text} (he : trailingBackslashes before % 2 = 0)
    {sep : Char} (hsep : sep = ';' ∨ sep = ',') (c : Char) :
    unescapedFrom before sep (escapeChar c) = 0 ∧
      trailingBackslashes (before ++ escapeChar c) % 2 = 0 := by
  have hpair : ∀ x : Char, trailingBackslashes (before ++ ['\\', x]) % 2 = 0 := by
    intro x
    have hx : before ++ ['\\', x] = (before ++ ['\\']) ++ [x] := by simp
    rw [hx, trailingBackslashes_snoc, trailingBackslashes_snoc]
    by_cases h : x = '\\' <;> simp [h]
    omega
  have hone : ∀ x : Char, unescapedFrom before sep ['\\', x] = 0 := by
    intro x
    have hb : '\\' ≠ sep := by rcases hsep with rfl | rfl <;> decide
    have hodd : (trailingBackslashes before + 1) % 2 ≠ 0 := by omega
    simp [unescapedFrom, hb, hodd]
  rw [escapeChar]
  split_ifs with hbs hr hn hs hc
  · exact ⟨hone _, hpair _⟩
  · exact ⟨rfl, by simpa using he⟩
  · exact ⟨hone _, hpair _⟩
  · exact ⟨hone _, hpair _⟩
  · exact ⟨hone _, hpair _⟩
  · refine ⟨?_, by simp [hbs]⟩
    rcases hsep with rfl | rfl
    · simp [unescapedFrom, hs]
    · simp [unescapedFrom, hc]

theorem unescapedFrom_escape {before : Text} (he : trailingBackslashes before % 2 = 0)
    {sep : Char} (hsep : sep = ';' ∨ sep = ',') (s : Text) :
    unescapedFrom before sep (escapeVcardText s) = 0 ∧
      trailingBackslashes (before ++ escapeVcardText s) % 2 = 0 := by
  induction s generalizing before with
  | nil => exact ⟨rfl, by simpa [escapeVcardText_nil] using he⟩
  | cons c s ih =>
    obtain ⟨hz, hp⟩ := unescapedFrom_escapeChar he hsep c
    obtain ⟨hz', hp'⟩ := ih hp
    rw [escapeVcardText_cons, unescapedFrom_append, hz, hz', ← List.append_assoc]
    exact ⟨rfl, hp'⟩

theorem trailingBackslashes_colon (name : Text) : trailingBackslashes (name ++ [':']) % 2 = 0 := by
  simp

theorem unescapedCount_propertyLine {name : Text} {sep : Char} (hsep : sep = ';' ∨ sep = ',')
    (hname : sep ∉ name) (value : Text) :
    unescapedCount sep (propertyLine (name, value)) = unescapedFrom (name ++ [':']) sep value := by
  have hcolon : sep ∉ name ++ [':'] := by
    rcases hsep with rfl | rfl <;> simpa using hname
  have hline : propertyLine (name, value) = (name ++ [':']) ++ value := by simp [propertyLine]
  rw [unescapedCount, hline, unescapedFrom_append, unescapedFrom_of_not_mem _ hcolon, Nat.zero_add,
    List.nil_append]

theorem unescapedCount_escaped {name : Text} {sep : Char} (hsep : sep = ';' ∨ sep = ',')
    (hname : sep ∉ name) (value : Text) :
    unescapedCount sep (propertyLine (name, escapeVcardText value)) = 0 := by
  rw [unescapedCount_propertyLine hsep hname]
  exact (unescapedFrom_escape (trailingBackslashes_colon name) hsep value).1

theorem unescapedFrom_semicolon {before : Text} (he : trailingBackslashes before % 2 = 0)
    (sep : Char) (s : Text) :
    unescapedFrom before sep (';' :: s) =
      (if sep = ';' then 1 else 0) + unescapedFrom (before ++ [';']) sep s := by
  simp [unescapedFrom, he, eq_comm]

theorem trailingBackslashes_semicolon (before : Text) :
    trailingBackslashes (before ++ [';']) % 2 = 0 := by simp

/-- The separators of the name line are the four that the builder writes. -/
theorem unescapedCount_nameLine (contact : ContactInput) :
    unescapedCount ';' (nameLine contact) = 4 ∧ unescapedCount ',' (nameLine contact) = 0 := by
  have hline : nameLine contact = propertyLine ("N".toList, nameValue contact) := by
    simp [nameLine, nameValue, propertyLine]
  have hcount : ∀ sep, (sep = ';' ∨ sep = ',') → unescapedCount sep (nameLine contact) =
      if sep = ';' then 4 else 0 := by
    intro sep hsep
    obtain ⟨hf, hfp⟩ := unescapedFrom_escape (trailingBackslashes_colon "N".toList) hsep
      (contact.familyName.getD [])
    obtain ⟨hg, hgp⟩ := unescapedFrom_escape (trailingBackslashes_semicolon
      ("N".toList ++ [':'] ++ escapeVcardText (contact.familyName.getD []))) hsep
      (contact.givenName.getD [])
    have hname : sep ∉ "N".toList := by rcases hsep with rfl | rfl <;> decide
    have hvalue : nameValue contact = escapeVcardText (contact.familyName.getD []) ++
        ';' :: (escapeVcardText (contact.givenName.getD []) ++
          [';', ';', ';']) := by simp [nameValue]
    rw [hline, unescapedCount_propertyLine hsep hname, hvalue, unescapedFrom_append, hf,
      unescapedFrom_semicolon hfp, unescapedFrom_append, hg, unescapedFrom_semicolon hgp,
      unescapedFrom_semicolon (trailingBackslashes_semicolon _),
      unescapedFrom_semicolon (trailingBackslashes_semicolon _), unescapedFrom]
    rcases hsep with rfl | rfl <;> rfl
  exact ⟨hcount ';' (.inl rfl), hcount ',' (.inr rfl)⟩

/-- The line of a property: its name, a colon and a text that reads back as
the value, except for carriage returns, which no card can hold. -/
def LineOf (name : String) (value line : Text) : Prop :=
  ∃ written, line = name.toList ++ ':' :: written ∧ unescapeVcardText written = strip value

/-- The line of the name: the family and the given name, neither with a
separator of its own, and three components that stay empty. -/
def NameLineOf (contact : ContactInput) (line : Text) : Prop :=
  ∃ family given, line = 'N' :: ':' :: (family ++ ';' :: (given ++ [';', ';', ';'])) ∧
    unescapedCount ';' family = 0 ∧ unescapedCount ';' given = 0 ∧
    unescapeVcardText family = strip (contact.familyName.getD []) ∧
    unescapeVcardText given = strip (contact.givenName.getD [])

/-- The lines of an optional field: one when a text that is not empty is
given, otherwise none. -/
def OptionalLine (name : String) (value : Option Text) (lines : List Text) : Prop :=
  (∃ text line, value = some text ∧ text ≠ [] ∧ LineOf name text line ∧ lines = [line]) ∨
    ((value = none ∨ value = some []) ∧ lines = [])

/-- The lines of a card, in order: the two that every card opens with, the
identifier, the full name and the name, a line for every address and every
number, the optional fields, the end, and the empty text after the last line
break. -/
def CardLines (contact : ContactInput) (uid : Text) (lines : List Text) : Prop :=
  ∃ uidLine fullName name : Text, ∃ emails phones organization title note : List Text,
    lines = ["BEGIN:VCARD".toList, "VERSION:4.0".toList, uidLine, fullName, name] ++ emails ++
      phones ++ organization ++ title ++ note ++ ["END:VCARD".toList, []] ∧
    LineOf "UID" uid uidLine ∧ LineOf "FN" contact.fullName fullName ∧ NameLineOf contact name ∧
    List.Forall₂ (LineOf "EMAIL") contact.emails emails ∧
    List.Forall₂ (LineOf "TEL") contact.phones phones ∧
    OptionalLine "ORG" contact.organization organization ∧
    OptionalLine "TITLE" contact.title title ∧ OptionalLine "NOTE" contact.note note

theorem lineOf_propertyLine (name : String) (value : Text) :
    LineOf name value (propertyLine (name.toList, escapeVcardText value)) :=
  ⟨escapeVcardText value, rfl, unescape_escape value⟩

theorem lineOf_each (name : String) (values : List Text) :
    List.Forall₂ (LineOf name) values
      (values.map (fun value => propertyLine (name.toList, escapeVcardText value))) := by
  induction values with
  | nil => exact .nil
  | cons value values ih => exact .cons (lineOf_propertyLine name value) ih

theorem optionalLine_nonempty (name : String) (value : Option Text) :
    OptionalLine name value
      ((nonempty value).toList.map (fun text =>
        propertyLine (name.toList, escapeVcardText text))) := by
  cases value with
  | none => exact .inr ⟨.inl rfl, rfl⟩
  | some text =>
    cases text with
    | nil => exact .inr ⟨.inr rfl, rfl⟩
    | cons c text =>
      exact .inl ⟨_, _, rfl, List.cons_ne_nil c text, lineOf_propertyLine name _, rfl⟩

theorem nameLineOf_nameValue (contact : ContactInput) :
    NameLineOf contact (propertyLine ("N".toList, nameValue contact)) := by
  have hempty : trailingBackslashes [] % 2 = 0 := rfl
  exact ⟨escapeVcardText (contact.familyName.getD []), escapeVcardText (contact.givenName.getD []),
    rfl, (unescapedFrom_escape hempty (.inl rfl) _).1, (unescapedFrom_escape hempty (.inl rfl) _).1,
    unescape_escape _, unescape_escape _⟩

theorem cardLines_unfold {contact : ContactInput} {uid v : Text}
    (h : buildVcard contact uid = .ok v) : CardLines contact uid (unfoldVcardLines v) := by
  refine ⟨_, _, _, _, _, _, _, _, ?_, lineOf_propertyLine "UID" uid,
    lineOf_propertyLine "FN" contact.fullName, nameLineOf_nameValue contact,
    lineOf_each "EMAIL" contact.emails, lineOf_each "TEL" contact.phones,
    optionalLine_nonempty "ORG" contact.organization, optionalLine_nonempty "TITLE" contact.title,
    optionalLine_nonempty "NOTE" contact.note⟩
  rw [unfold_buildVcard h]
  simp [vcardProperties, propertyLine, Function.comp_def]

/-- Outside the name line the builder writes no separator that is not
escaped. -/
theorem unescapedCount_otherLines (contact : ContactInput) (uid : Text) :
    ∀ line ∈ (vcardLines contact uid ++ [[]]).eraseIdx 4,
      unescapedCount ';' line = 0 ∧ unescapedCount ',' line = 0 := by
  have hescaped : ∀ name value, ';' ∉ name → ',' ∉ name →
      unescapedCount ';' (propertyLine (name, escapeVcardText value)) = 0 ∧
        unescapedCount ',' (propertyLine (name, escapeVcardText value)) = 0 :=
          fun name value hs hc =>
    ⟨unescapedCount_escaped (.inl rfl) hs value, unescapedCount_escaped (.inr rfl) hc value⟩
  intro line hline
  simp only [vcardLines, List.cons_append, List.nil_append, List.append_assoc,
    List.eraseIdx_cons_succ,
    List.eraseIdx_cons_zero, List.mem_cons, List.mem_append, List.mem_map, List.not_mem_nil,
    or_false] at hline
  rcases hline with rfl | rfl | rfl | rfl | ⟨e, -, rfl⟩ | ⟨e, -, rfl⟩ | ⟨e, -, rfl⟩ | ⟨e, -, rfl⟩ |
    ⟨e, -, rfl⟩ | rfl | rfl
  · decide
  · decide
  · exact hescaped "UID".toList _ (by decide) (by decide)
  · exact hescaped "FN".toList _ (by decide) (by decide)
  · exact hescaped "EMAIL".toList _ (by decide) (by decide)
  · exact hescaped "TEL".toList _ (by decide) (by decide)
  · exact hescaped "ORG".toList _ (by decide) (by decide)
  · exact hescaped "TITLE".toList _ (by decide) (by decide)
  · exact hescaped "NOTE".toList _ (by decide) (by decide)
  · decide
  · decide

/-- No value can open a line or a component of its own: the card has the
lines of its fields and no others, line breaks only between them, and only
the fifth line, the name, has separators that are not escaped. -/
theorem no_structure_injection {contact : ContactInput} {uid v : Text}
    (h : buildVcard contact uid = .ok v) :
    (∀ a b, v = a ++ '\r' :: b → ∃ b', b = '\n' :: b') ∧
    (∀ a b, v = a ++ '\n' :: b → ∃ a', a = a' ++ ['\r']) ∧
    CardLines contact uid (unfoldVcardLines v) ∧
    ∀ i line, (unfoldVcardLines v)[i]? = some line →
      unescapedCount ';' line = (if i = 4 then 4 else 0) ∧ unescapedCount ',' line = 0 := by
  have hpaired : PairedBreaks v := by
    rw [(buildVcard_ok h).2, vcardLines_eq]
    apply pairedBreaks_joinLines _
    intro line hline
    obtain ⟨⟨name, value⟩, hp, rfl⟩ := List.mem_map.mp hline
    have hc := contentLine_propertyLine (mem_vcardProperties hp).1 (mem_vcardProperties hp).2
    exact ⟨hc.noCr, hc.noLf⟩
  refine ⟨fun a b he => pairedBreaks_cr (he ▸ hpaired), fun a b he =>
    pairedBreaks_lf (he ▸ hpaired), cardLines_unfold h, ?_⟩
  intro i line hline
  have hlines : unfoldVcardLines v = vcardLines contact uid ++ [[]] := by
    rw [unfold_buildVcard h, vcardLines_eq]
  rw [hlines] at hline
  by_cases hi : i = 4
  · subst hi
    have hname : line = nameLine contact := by
      have hfour : (vcardLines contact uid ++ [[]])[4]? = some (nameLine contact) := rfl
      rw [hfour] at hline
      exact (Option.some.inj hline).symm
    rw [hname, if_pos rfl]
    exact unescapedCount_nameLine contact
  · rw [if_neg hi]
    exact unescapedCount_otherLines contact uid line
      (List.mem_eraseIdx_iff_getElem?.mpr ⟨i, hi, hline⟩)

def hostileContact : ContactInput where
  fullName := "Ann\\\\\r\nEMAIL:x@evil.test".toList
  familyName := some "Ng\\\\\\;Tan,".toList
  emails := ["a;b@x\nTEL:1".toList]
  phones := ["1\\".toList, "".toList]
  organization := some "Ng;Co\nEND:VCARD".toList
  title := some "a,b".toList
  note := some "\r".toList

theorem no_structure_injection_hostile :
    ∃ v, validateContactInput hostileContact = .ok () ∧
      buildVcard hostileContact "u-1".toList = .ok v ∧
      CardLines hostileContact "u-1".toList (unfoldVcardLines v) ∧
      (unfoldVcardLines v).length = 13 ∧
      (unfoldVcardLines v)[4]? = some "N:Ng\\\\\\\\\\\\\\;Tan\\,;;;;".toList ∧
      unescapedCount ';' "N:Ng\\\\\\\\\\\\\\;Tan\\,;;;;".toList = 4 := by
  have hb : buildVcard hostileContact "u-1".toList =
      .ok (joinLines (vcardLines hostileContact "u-1".toList)) := by decide +kernel
  obtain ⟨-, -, hlines, hcount⟩ := no_structure_injection hb
  have hname : (unfoldVcardLines (joinLines (vcardLines hostileContact "u-1".toList)))[4]? =
      some "N:Ng\\\\\\\\\\\\\\;Tan\\,;;;;".toList := by decide +kernel
  exact ⟨_, by decide +kernel, hb, hlines, by decide +kernel, hname, (hcount 4 _ hname).1⟩

end CardDavMcp.VcardStructure

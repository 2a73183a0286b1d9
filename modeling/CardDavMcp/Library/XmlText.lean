import CardDavMcp.Library.XmlTree
import Mathlib.Data.List.Infix

namespace CardDavMcp.Library.XmlText

open Utf8Text XmlTree

/-- The characters that may stand in a document of XML 1.0. -/
def isXmlChar (c : Char) : Bool :=
  let n := c.toNat
  n = 0x9 || n = 0xA || n = 0xD || (0x20 ≤ n && n ≤ 0xD7FF) || (0xE000 ≤ n && n ≤ 0xFFFD) ||
    (0x10000 ≤ n && n ≤ 0x10FFFF)

/-- What a processor does to the line ends of a document before it parses. -/
def normalizeLineEnds : Text → Text
  | '\r' :: '\n' :: s => '\n' :: normalizeLineEnds s
  | '\r' :: s => '\n' :: normalizeLineEnds s
  | c :: s => c :: normalizeLineEnds s
  | [] => []

theorem normalizeLineEnds_cons {c : Char} (h : c ≠ '\r') (s : Text) :
    normalizeLineEnds (c :: s) = c :: normalizeLineEnds s := by
  rw [normalizeLineEnds]
  · rintro s' rfl
    exact absurd rfl h
  · exact h

theorem normalizeLineEnds_plain {s : Text} (h : '\r' ∉ s) (t : Text) :
    normalizeLineEnds (s ++ t) = s ++ normalizeLineEnds t := by
  induction s with
  | nil => rfl
  | cons c s ih =>
    simp only [List.mem_cons, not_or] at h
    rw [List.cons_append, normalizeLineEnds_cons (Ne.symm h.1), ih h.2, List.cons_append]

theorem normalizeLineEnds_of_not_mem {s : Text} (h : '\r' ∉ s) : normalizeLineEnds s = s := by
  simpa [normalizeLineEnds] using normalizeLineEnds_plain h []

theorem cr_not_mem_normalizeLineEnds (s : Text) : '\r' ∉ normalizeLineEnds s := by
  fun_induction normalizeLineEnds s with
  | case1 s ih => simpa using ih
  | case2 s _ ih => simpa using ih
  | case3 c s _ hc ih => simpa using ⟨Ne.symm hc, ih⟩
  | case4 => simp

/-- A break belongs to what stands before it unless a line feed follows. -/
theorem normalizeLineEnds_append (s : Text) {c : Char} (h : c ≠ '\n') (t : Text) :
    normalizeLineEnds (s ++ c :: t) = normalizeLineEnds s ++ normalizeLineEnds (c :: t) := by
  fun_induction normalizeLineEnds s with
  | case1 s ih => rw [List.cons_append, List.cons_append, normalizeLineEnds, ih, List.cons_append]
  | case2 s hlf ih =>
    rw [List.cons_append, normalizeLineEnds, ih, List.cons_append]
    rintro s' hs
    cases s with
    | nil => exact h (List.cons.inj hs).1
    | cons x s => exact hlf s (by rw [← (List.cons.inj hs).1])
  | case3 c' s _ hc ih => rw [List.cons_append, normalizeLineEnds_cons hc, ih, List.cons_append]
  | case4 => rfl

/-- How a document refers to one of the five entities. -/
def reference (e : Predefined) : Text := '&' :: e.name ++ [';']

/-- What references stand for. The five entities have their own meaning in
every document. -/
structure References where
  lookup : Text → Option Text
  predefined : ∀ e : Predefined, lookup e.name = some [e.char]

/-- Nothing but the five entities is declared. -/
def References.undeclared : References where
  lookup name := ([Predefined.lt, .gt, .amp, .apos, .quot].find? (·.name = name)).map ([·.char])
  predefined e := by cases e <;> decide

/-- Replace every reference of a text, in one pass from left to right. Behind
an ampersand the name is collected, backwards. -/
def resolveFrom (lookup : Text → Option Text) : Option Text → Text → Option Text
  | none, [] => some []
  | some _, [] => none
  | none, c :: s =>
    if c = '&' then resolveFrom lookup (some []) s
    else (resolveFrom lookup none s).map (c :: ·)
  | some name, c :: s =>
    if c = ';' then
      (lookup name.reverse).bind fun r => (resolveFrom lookup none s).map (r ++ ·)
    else resolveFrom lookup (some (c :: name)) s

def resolve (lookup : Text → Option Text) (s : Text) : Option Text := resolveFrom lookup none s

theorem resolve_plain (lookup : Text → Option Text) {s : Text} (h : '&' ∉ s) :
    resolve lookup s = some s := by
  rw [resolve]
  induction s with
  | nil => rfl
  | cons c s ih =>
    simp only [List.mem_cons, not_or] at h
    rw [resolveFrom, if_neg (Ne.symm h.1), ih h.2, Option.map_some]

theorem resolveFrom_name (lookup : Text → Option Text) {name : Text} (h : ';' ∉ name)
    (seen s : Text) : resolveFrom lookup (some seen) (name ++ ';' :: s) =
      (lookup (seen.reverse ++ name)).bind fun r => (resolve lookup s).map (r ++ ·) := by
  induction name generalizing seen with
  | nil => simp [resolveFrom, resolve]
  | cons c name ih =>
    simp only [List.mem_cons, not_or] at h
    rw [List.cons_append, resolveFrom, if_neg (Ne.symm h.1), ih h.2]
    simp

theorem resolve_reference (refs : References) (e : Predefined) (s : Text) :
    resolve refs.lookup (reference e ++ s) = (resolve refs.lookup s).map (e.char :: ·) := by
  have hname : ';' ∉ e.name := by cases e <;> decide
  have hopen : resolve refs.lookup (reference e ++ s) =
      resolveFrom refs.lookup (some []) (e.name ++ ';' :: s) := by
    simp [reference, resolve, resolveFrom]
  rw [hopen, resolveFrom_name _ hname, List.reverse_nil, List.nil_append, refs.predefined]
  rfl

/-- The markup of a document as it stands between character data. -/
inductive Piece
  | chars (text : Text)
  | tag (text : Text)
deriving DecidableEq, Repr

/-- Where a scan stands: in character data, or in a tag and there maybe in a
quoted attribute. What it has seen is kept backwards. -/
inductive Scan
  | chars (seen : Text)
  | tag (seen : Text) (quote : Option Char)

def quoteStep (quote : Option Char) (c : Char) : Option Char :=
  match quote with
  | none => if c = '"' ∨ c = '\'' then some c else none
  | some q => if c = q then none else some q

def pieces : Scan → Text → Option (List Piece)
  | .chars seen, [] => some [.chars seen.reverse]
  | .tag _ _, [] => none
  | .chars seen, c :: s =>
    if c = '<' then (pieces (.tag [] none) s).map (.chars seen.reverse :: ·)
    else pieces (.chars (c :: seen)) s
  | .tag seen quote, c :: s =>
    if c = '<' then none
    else if c = '>' ∧ quote = none then (pieces (.chars []) s).map (.tag seen.reverse :: ·)
    else pieces (.tag (c :: seen) (quoteStep quote c)) s

/-- The text of a tag: no angle bracket ends it early and every quote is
closed. -/
def isTagText (quote : Option Char) : Text → Bool
  | [] => quote = none
  | c :: s => c ≠ '<' && (c ≠ '>' || quote.isSome) && isTagText (quoteStep quote c) s

theorem pieces_chars (seen : Text) {s : Text} (h : '<' ∉ s) (t : Text) :
    pieces (.chars seen) (s ++ t) = pieces (.chars (s.reverse ++ seen)) t := by
  induction s generalizing seen with
  | nil => rfl
  | cons c s ih =>
    simp only [List.mem_cons, not_or] at h
    rw [List.cons_append, pieces, if_neg (Ne.symm h.1), ih (c :: seen) h.2]
    simp

theorem pieces_tag (seen : Text) {tag : Text} {quote : Option Char} (h : isTagText quote tag)
    (t : Text) : pieces (.tag seen quote) (tag ++ '>' :: t) =
      (pieces (.chars []) t).map (.tag (seen.reverse ++ tag) :: ·) := by
  induction tag generalizing seen quote with
  | nil =>
    have hquote : quote = none := by simpa [isTagText] using h
    simp [pieces, hquote]
  | cons c tag ih =>
    simp only [isTagText, Bool.and_eq_true, decide_eq_true_eq, Bool.or_eq_true] at h
    obtain ⟨⟨hlt, hgt⟩, hrest⟩ := h
    have hopen : ¬ (c = '>' ∧ quote = none) := by
      rintro ⟨rfl, rfl⟩
      simp at hgt
    rw [List.cons_append, pieces, if_neg hlt, if_neg hopen, ih (c :: seen) hrest]
    simp

theorem pieces_markup {s tag : Text} (hs : '<' ∉ s) (htag : isTagText none tag) (t : Text) :
    pieces (.chars []) (s ++ '<' :: (tag ++ '>' :: t)) =
      (pieces (.chars []) t).map (fun ps => .chars s :: .tag tag :: ps) := by
  rw [pieces_chars [] hs, pieces, if_pos rfl, pieces_tag [] htag, Option.map_map]
  simp [Function.comp_def]

/-- The content of an element: character data, and behind it, where there is
more, an element and the rest. Tags are kept as they are written. -/
inductive Content
  | text (s : Text)
  | element (before tag : Text) (children rest : Content)
  | emptyElement (before tag : Text) (rest : Content)
deriving DecidableEq, Repr

/-- The name in a tag, which white space separates from the attributes. -/
def nameOf (tag : Text) : Text := tag.takeWhile (!isWhitespace ·)

theorem nameOf_nameOf (tag : Text) : nameOf (nameOf tag) = nameOf tag := by
  rw [nameOf, nameOf, List.takeWhile_takeWhile]
  simp

namespace Content

def prepend (s : Text) : Content → Content
  | text t => text (s ++ t)
  | element before tag children rest => element (s ++ before) tag children rest
  | emptyElement before tag rest => emptyElement (s ++ before) tag rest

def render : Content → Text
  | text s => s
  | element before tag children rest =>
    before ++ '<' :: (tag ++ '>' ::
      (render children ++ '<' :: (('/' :: nameOf tag) ++ '>' :: render rest)))
  | emptyElement before tag rest => before ++ '<' :: ((tag ++ ['/']) ++ '>' :: render rest)

def pieces : Content → List Piece
  | text s => [.chars s]
  | element before tag children rest =>
    .chars before :: .tag tag :: (pieces children ++ .tag ('/' :: nameOf tag) :: pieces rest)
  | emptyElement before tag rest => .chars before :: .tag (tag ++ ['/']) :: pieces rest

/-- The character data of a content, at any depth, changed. -/
def mapText (f : Text → Text) : Content → Content
  | text s => text (f s)
  | element before tag children rest => element (f before) tag (mapText f children) (mapText f rest)
  | emptyElement before tag rest => emptyElement (f before) tag (mapText f rest)

/-- What is left of a content without its character data. -/
def skeleton (content : Content) : Content := content.mapText (fun _ => [])

/-- The contents of the elements of one name, at any depth. -/
def named (name : Text) : Content → List Content
  | text _ => []
  | element _ tag children rest =>
    (if nameOf tag = name then [children] else []) ++ named name children ++ named name rest
  | emptyElement _ tag rest => (if nameOf tag = name then [text []] else []) ++ named name rest

end Content

/-- The elements that are closed behind a point, innermost first: the name
that the end tag gives and what stands before that tag. The last one is the document. -/
abbrev Frames := List (Option Text × Content)

def opensElement (tag : Text) : Bool :=
  tag.head? ≠ some '/' && tag.head? ≠ some '?' && tag.head? ≠ some '!' &&
    tag.getLast? ≠ some '/'

/-- One more piece, put in front of what has been read from the end. -/
def addPiece : Piece → Frames → Option Frames
  | _, [] => none
  | .chars s, (name, content) :: frames => some ((name, content.prepend s) :: frames)
  | .tag tag, (name, content) :: frames =>
    if tag.head? = some '/' then
      some ((some (nameOf tag.tail), .text []) :: (name, content) :: frames)
    else if opensElement tag then
      match frames with
      | (name', rest) :: frames =>
        if name = some (nameOf tag) then some ((name', .element [] tag content rest) :: frames)
        else none
      | [] => none
    else if opensElement tag.dropLast then
      some ((name, .emptyElement [] tag.dropLast content) :: frames)
    else none

def framesOf : List Piece → Option Frames
  | [] => some [(none, .text [])]
  | p :: ps => (framesOf ps).bind (addPiece p)

def build (ps : List Piece) : Option Content :=
  match framesOf ps with
  | some [(none, content)] => some content
  | _ => none

def parse (s : Text) : Option Content := (pieces (.chars []) s).bind build

namespace Content

/-- The content can be written as it is: its character data holds no markup
and its tags are tags, on one line each. -/
def Writable : Content → Prop
  | text s => '<' ∉ s
  | element before tag children rest =>
    '<' ∉ before ∧ (isTagText none tag ∧ isTagText none ('/' :: nameOf tag) ∧ opensElement tag) ∧
      '\r' ∉ tag ∧ Writable children ∧ Writable rest
  | emptyElement before tag rest =>
    '<' ∉ before ∧ (isTagText none (tag ++ ['/']) ∧ opensElement tag ∧ tag ≠ []) ∧
      '\r' ∉ tag ∧ Writable rest

theorem pieces_render_append {m : Content} (h : m.Writable) {tag : Text}
    (htag : isTagText none tag) (t : Text) :
    XmlText.pieces (.chars []) (m.render ++ '<' :: (tag ++ '>' :: t)) =
      (XmlText.pieces (.chars []) t).map (fun ps => m.pieces ++ .tag tag :: ps) := by
  induction m generalizing tag t with
  | text s => exact pieces_markup h htag t
  | element before tag' children rest ihc ihr =>
    obtain ⟨hbefore, ⟨hopen, hclose, -⟩, -, hchildren, hrest⟩ := h
    simp only [render, List.append_assoc, List.cons_append]
    rw [pieces_markup hbefore hopen, ← List.cons_append, ihc hchildren hclose, ihr hrest htag]
    simp [pieces, Function.comp_def]
  | emptyElement before tag' rest ih =>
    obtain ⟨hbefore, ⟨htag', -⟩, -, hrest⟩ := h
    rw [render, List.append_assoc, List.cons_append, List.append_assoc, List.cons_append,
      pieces_markup hbefore htag', ih hrest htag]
    simp [pieces, Function.comp_def]

theorem pieces_render {m : Content} (h : m.Writable) :
    XmlText.pieces (.chars []) m.render = some m.pieces := by
  induction m with
  | text s =>
    have hs := pieces_chars [] h []
    simpa [render, pieces, XmlText.pieces] using hs
  | element before tag children rest _ ihr =>
    obtain ⟨hbefore, ⟨hopen, hclose, -⟩, -, hchildren, hrest⟩ := h
    rw [render, pieces_markup hbefore hopen, pieces_render_append hchildren hclose, ihr hrest]
    simp [pieces]
  | emptyElement before tag rest ih =>
    obtain ⟨hbefore, ⟨htag, -⟩, -, hrest⟩ := h
    rw [render, pieces_markup hbefore htag, ih hrest]
    simp [pieces]

theorem framesOf_pieces {m : Content} (h : m.Writable) {ps : List Piece} {name : Option Text}
    {frames : Frames} (hps : framesOf ps = some ((name, .text []) :: frames)) :
    framesOf (m.pieces ++ ps) = some ((name, m) :: frames) := by
  induction m generalizing ps name frames with
  | text s => simp [pieces, framesOf, hps, addPiece, prepend]
  | element before tag children rest ihc ihr =>
    obtain ⟨-, ⟨-, -, hopen⟩, -, hchildren, hrest⟩ := h
    have hend : framesOf (.tag ('/' :: nameOf tag) :: (rest.pieces ++ ps)) =
        some ((some (nameOf tag), .text []) :: (name, rest) :: frames) := by
      rw [framesOf, ihr hrest hps]
      simp [addPiece, nameOf_nameOf]
    have hin := ihc hchildren hend
    have hslash : tag.head? ≠ some '/' := by
      simp only [opensElement, Bool.and_eq_true, decide_eq_true_eq] at hopen
      exact hopen.1.1.1
    rw [pieces, List.cons_append, List.cons_append, List.append_assoc, List.cons_append, framesOf,
      framesOf, hin]
    simp [addPiece, hslash, hopen, prepend]
  | emptyElement before tag rest ih =>
    obtain ⟨-, ⟨-, hopen, hne⟩, -, hrest⟩ := h
    obtain ⟨c, s, rfl⟩ := List.exists_cons_of_ne_nil hne
    have hslash : c ≠ '/' := by
      simp only [opensElement, Bool.and_eq_true, decide_eq_true_eq] at hopen
      simpa using hopen.1.1.1
    have hnot : opensElement ((c :: s) ++ ['/']) = false := by
      rw [opensElement, List.getLast?_concat]
      simp
    have hdrop : ((c :: s) ++ ['/']).dropLast = c :: s := List.dropLast_concat
    rw [List.cons_append] at hnot hdrop
    rw [pieces, List.cons_append, List.cons_append, framesOf, framesOf, ih hrest hps]
    simp [addPiece, hslash, hnot, hdrop, hopen, prepend]

/-- What is written is read back. -/
theorem parse_render {m : Content} (h : m.Writable) : parse m.render = some m := by
  have hempty : framesOf [] = some [(none, .text [])] := rfl
  have hframes := framesOf_pieces h hempty
  rw [List.append_nil] at hframes
  rw [parse, pieces_render h, Option.bind_some, build, hframes]

/-- Line ends change in character data only. -/
theorem normalizeLineEnds_render {m : Content} (h : m.Writable) :
    normalizeLineEnds m.render = (m.mapText normalizeLineEnds).render := by
  have hmarkup : ∀ (before : Text) {tag : Text}, '\r' ∉ tag → ∀ t : Text,
      normalizeLineEnds (before ++ '<' :: (tag ++ '>' :: t)) =
        normalizeLineEnds before ++ '<' :: (tag ++ '>' :: normalizeLineEnds t) := by
    intro before tag htag t
    rw [normalizeLineEnds_append before (by decide), normalizeLineEnds_cons (by decide),
      normalizeLineEnds_plain htag, normalizeLineEnds_cons (by decide)]
  induction m with
  | text s => rfl
  | element before tag children rest ihc ihr =>
    obtain ⟨-, -, htag, hchildren, hrest⟩ := h
    have hname : '\r' ∉ '/' :: nameOf tag := by
      rw [List.mem_cons, not_or]
      exact ⟨by decide, fun hmem => htag ((List.takeWhile_subset _) hmem)⟩
    rw [render, hmarkup before htag, hmarkup _ hname, ihc hchildren, ihr hrest]
    rfl
  | emptyElement before tag rest ih =>
    obtain ⟨-, -, htag, hrest⟩ := h
    rw [render, hmarkup before (by simpa using htag), ih hrest]
    rfl

end Content

/-- What a piece of character data stands for. -/
def charData (lookup : Text → Option Text) (s : Text) : Option Text :=
  if "]]>".toList <:+: s then none else resolve lookup s

theorem charData_eq (lookup : Text → Option Text) {s : Text} (h : '>' ∉ s) :
    charData lookup s = resolve lookup s := by
  rw [charData, if_neg]
  intro hsub
  exact h (hsub.subset (by decide))

def isBlank (s : Text) : Bool := s.all fun c => c = ' ' || c = '\t' || c = '\r' || c = '\n'

namespace Content

/-- One element, with nothing but white space around it. -/
def isDocument : Content → Bool
  | element before _ _ (text after) | emptyElement before _ (text after) =>
    isBlank before && isBlank after
  | _ => false

/-- The content with its references replaced. -/
def resolve (lookup : Text → Option Text) : Content → Option Content
  | text s => (charData lookup s).map text
  | element before tag children rest => do
    return element (← charData lookup before) tag (← resolve lookup children)
      (← resolve lookup rest)
  | emptyElement before tag rest => do
    return emptyElement (← charData lookup before) tag (← resolve lookup rest)

end Content

def afterDeclaration : Text → Option Text
  | '?' :: '>' :: s => some s
  | _ :: s => afterDeclaration s
  | [] => none

/-- The document without its XML declaration. -/
def dropDeclaration (s : Text) : Option Text :=
  match s.dropPrefix? "<?xml ".toList with
  | some s => afterDeclaration s
  | none => some s

/-- What a conforming processor makes of a document without document type,
comments, sections and instructions; what it does not accept is `none`. -/
def read (lookup : Text → Option Text) (s : Text) : Option Content :=
  if s.all isXmlChar then do
    let content ← parse (← dropDeclaration (normalizeLineEnds s))
    if content.isDocument then content.resolve lookup else none
  else none

theorem afterDeclaration_append {s : Text} (h : '?' ∉ s) (t : Text) :
    afterDeclaration (s ++ '?' :: '>' :: t) = some t := by
  induction s with
  | nil => rfl
  | cons c s ih =>
    simp only [List.mem_cons, not_or] at h
    rw [List.cons_append, afterDeclaration, ih h.2]
    rintro s' rfl
    exact absurd rfl h.1

/-- The text of a document with its declaration. -/
def written (declaration : Text) (content : Content) : Text :=
  "<?xml ".toList ++ (declaration ++ '?' :: '>' :: content.render)

theorem written_eq (declaration : Text) (content : Content) : written declaration content =
    "<?xml ".toList ++ (declaration ++ '?' :: '>' :: content.render) := rfl

theorem dropDeclaration_written {declaration : Text} (h : '?' ∉ declaration) (content : Content) :
    dropDeclaration (written declaration content) = some content.render := by
  have hprefix : List.dropPrefix? (written declaration content) "<?xml ".toList =
      some (declaration ++ '?' :: '>' :: content.render) :=
    List.dropPrefix?_append_of_beq _ (beq_self_eq_true _)
  rw [dropDeclaration, hprefix]
  exact afterDeclaration_append h _

theorem read_written (lookup : Text → Option Text) {declaration : Text} {m : Content}
    (hmark : '?' ∉ declaration) (hcr : '\r' ∉ declaration) (hm : m.Writable)
    (hn : (m.mapText normalizeLineEnds).Writable) (hd : (m.mapText normalizeLineEnds).isDocument)
    (hchars : (written declaration m).all isXmlChar) :
    read lookup (written declaration m) = (m.mapText normalizeLineEnds).resolve lookup := by
  have hends : normalizeLineEnds (written declaration m) =
      written declaration (m.mapText normalizeLineEnds) := by
    have hopening : '\r' ∉ "<?xml ".toList := by decide +kernel
    rw [written_eq, normalizeLineEnds_plain hopening, normalizeLineEnds_plain hcr,
      normalizeLineEnds_cons (by decide), normalizeLineEnds_cons (by decide),
      Content.normalizeLineEnds_render hm, written_eq]
  rw [read, if_pos hchars, hends, dropDeclaration_written hmark]
  simp [Content.parse_render hn, hd]

end CardDavMcp.Library.XmlText

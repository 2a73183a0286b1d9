import CardDavMcp.Library.Utf8Text
import Mathlib.Tactic.Common

namespace CardDavMcp.Library.FormEncoding

open Utf8Text

abbrev Bytes := List UInt8

def utf8 (s : Text) : Bytes := s.flatMap String.utf8EncodeChar

def hexDigit (n : Nat) : Char := "0123456789ABCDEF".toList.getD n '0'

def hexValue (c : Char) : Option Nat :=
  if '0' ≤ c ∧ c ≤ '9' then some (c.toNat - 48)
  else if 'A' ≤ c ∧ c ≤ 'F' then some (c.toNat - 55)
  else if 'a' ≤ c ∧ c ≤ 'f' then some (c.toNat - 87)
  else none

/-- The characters that stand for themselves in a form. -/
def isPlain (c : Char) : Bool := c.isAlphanum || c = '*' || c = '-' || c = '.' || c = '_'

def encodeByte (b : UInt8) : Text :=
  let c := Char.ofNat b.toNat
  if isPlain c then [c] else if c = ' ' then ['+']
  else ['%', hexDigit (b.toNat / 16), hexDigit (b.toNat % 16)]

def encode (s : Text) : Text := (utf8 s).flatMap encodeByte

/-- The bytes of a text with its escapes. A percent sign without two digits
after it stands for itself. -/
def decodeBytes : Text → Bytes
  | [] => []
  | '+' :: s => 32 :: decodeBytes s
  | '%' :: high :: low :: s =>
    match hexValue high, hexValue low with
    | some high, some low => UInt8.ofNat (16 * high + low) :: decodeBytes s
    | _, _ => 37 :: decodeBytes (high :: low :: s)
  | c :: s => String.utf8EncodeChar c ++ decodeBytes s

theorem decodeBytes_cons {c : Char} (hplus : c ≠ '+') (hpercent : c ≠ '%') (s : Text) :
    decodeBytes (c :: s) = String.utf8EncodeChar c ++ decodeBytes s := by
  rw [decodeBytes]
  · exact hplus
  · rintro _ _ _ rfl
    exact absurd rfl hpercent

theorem plain_byte : ∀ n < 256, isPlain (Char.ofNat n) →
    Char.ofNat n ≠ '+' ∧ Char.ofNat n ≠ '%' ∧ Char.ofNat n ≠ '&' ∧ Char.ofNat n ≠ '=' ∧
      String.utf8EncodeChar (Char.ofNat n) = [UInt8.ofNat n] := by
  decide +kernel

theorem hexDigit_spec : ∀ n < 16, hexValue (hexDigit n) = some n ∧
    hexDigit n ≠ '&' ∧ hexDigit n ≠ '=' := by
  decide +kernel

theorem decodeBytes_encodeByte (b : UInt8) (s : Text) :
    decodeBytes (encodeByte b ++ s) = b :: decodeBytes s := by
  have hb : b.toNat < 256 := b.toNat_lt
  rw [encodeByte]
  split_ifs with hplain hspace
  · obtain ⟨hplus, hpercent, -, -, hencode⟩ := plain_byte _ hb hplain
    rw [List.singleton_append, decodeBytes_cons hplus hpercent, hencode, UInt8.ofNat_toNat]
    rfl
  · have hvalue : b.toNat = 32 := by
      revert hspace
      generalize b.toNat = n at hb
      revert n
      decide +kernel
    rw [List.singleton_append, decodeBytes, ← UInt8.ofNat_toNat (x := b), hvalue]
    rfl
  · have hhigh := (hexDigit_spec (b.toNat / 16) (by omega)).1
    have hlow := (hexDigit_spec (b.toNat % 16) (by omega)).1
    rw [List.cons_append, List.cons_append, List.singleton_append, decodeBytes, hhigh, hlow]
    dsimp only
    rw [Nat.div_add_mod, UInt8.ofNat_toNat]

theorem decodeBytes_encode (s : Text) : decodeBytes (encode s) = utf8 s := by
  rw [encode]
  induction utf8 s with
  | nil => rfl
  | cons b bytes ih => rw [List.flatMap_cons, decodeBytes_encodeByte, ih]

/-- A text in a form contains no separator. -/
theorem not_mem_encode (s : Text) : '&' ∉ encode s ∧ '=' ∉ encode s := by
  have hbyte (b : UInt8) : '&' ∉ encodeByte b ∧ '=' ∉ encodeByte b := by
    have hb : b.toNat < 256 := b.toNat_lt
    rw [encodeByte]
    split_ifs with hplain
    · obtain ⟨-, -, hamp, heq, -⟩ := plain_byte _ hb hplain
      simp [hamp.symm, heq.symm]
    · decide
    · obtain ⟨-, hamp, heq⟩ := hexDigit_spec (b.toNat / 16) (by omega)
      obtain ⟨-, hamp', heq'⟩ := hexDigit_spec (b.toNat % 16) (by omega)
      simp [hamp.symm, heq.symm, hamp'.symm, heq'.symm]
  simp only [encode, List.mem_flatMap, not_exists, not_and]
  exact ⟨fun b _ => (hbyte b).1, fun b _ => (hbyte b).2⟩

def serialize (pairs : List (Text × Text)) : Text :=
  ['&'].intercalate (pairs.map fun p => encode p.1 ++ '=' :: encode p.2)

variable (decode : Bytes → Text)

/-- The pair that a part of a form stands for, given how bytes become text. -/
def parsePart (part : Text) : Text × Text :=
  match splitOnce '=' part with
  | some (name, value) => (decode (decodeBytes name), decode (decodeBytes value))
  | none => (decode (decodeBytes part), decode [])

def parse (s : Text) : List (Text × Text) :=
  ((s.splitOn '&').filter fun part => !part.isEmpty).map (parsePart decode)

/-- The text of its UTF-8 bytes, or a replacement character. -/
def decodeUtf8 (bytes : Bytes) : Text :=
  match String.fromUTF8? bytes.toByteArray with
  | some text => text.toList
  | none => ['\uFFFD']

theorem decodeUtf8_utf8 (s : Text) : decodeUtf8 (utf8 s) = s := by
  have hbytes : (utf8 s).toByteArray = (String.ofList s).toByteArray := rfl
  have hvalid := (String.ofList s).isValidUTF8
  rw [decodeUtf8, hbytes, String.fromUTF8?, dif_pos hvalid]
  exact String.toList_ofList

variable {decode}

theorem parsePart_encode (hdecode : ∀ s, decode (utf8 s) = s) (p : Text × Text) :
    parsePart decode (encode p.1 ++ '=' :: encode p.2) = p := by
  rw [parsePart, splitOnce_append (not_mem_encode p.1).2]
  dsimp only
  rw [decodeBytes_encode, decodeBytes_encode, hdecode, hdecode]

/-- A form reads back as the pairs that it was written from. -/
theorem parse_serialize (hdecode : ∀ s, decode (utf8 s) = s) (pairs : List (Text × Text)) :
    parse decode (serialize pairs) = pairs := by
  cases pairs with
  | nil => rfl
  | cons p pairs =>
    have hno : ∀ part ∈ (p :: pairs).map (fun p => encode p.1 ++ '=' :: encode p.2),
        '&' ∉ part := by
      intro part hpart
      obtain ⟨q, -, rfl⟩ := List.mem_map.mp hpart
      simp [not_mem_encode]
    rw [parse, serialize, List.splitOn_intercalate '&' hno (by simp), List.filter_eq_self.mpr,
      List.map_map]
    · exact List.map_id'' (parsePart_encode hdecode) _
    · intro part hpart
      obtain ⟨q, -, rfl⟩ := List.mem_map.mp hpart
      simp

end CardDavMcp.Library.FormEncoding

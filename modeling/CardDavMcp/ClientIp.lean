import CardDavMcp.Library.Utf8Text

namespace CardDavMcp.ClientIp

open Library.Utf8Text

variable {Ip : Type}

/-- The address at the trusted position of a forwarding chain, counted from
the right. -/
def parseClientIp (parse : Text → Option Ip) (xff : Option Text) (trustedProxyHops : Nat) :
    Option Ip := do
  let raw ← xff
  let parts := (raw.splitOn ',').map trim
  if trustedProxyHops = 0 ∨ parts.length < trustedProxyHops then none
  else
    let idx := parts.length - trustedProxyHops
    parse (← parts[idx]?)

def xffEntryCount (xff : Option Text) : Nat :=
  match xff with
  | some raw => (raw.splitOn ',').length
  | none => 0

/-- The entries of a chain, the last one first. -/
def fromRight (raw : Text) : List Text := ((raw.splitOn ',').map trim).reverse

theorem fromRight_append (p s : Text) : fromRight (p ++ ',' :: s) = fromRight s ++ fromRight p := by
  rw [fromRight, List.splitOn_append_cons_self, List.map_append, List.reverse_append]
  rfl

theorem length_fromRight (raw : Text) : (fromRight raw).length = xffEntryCount (some raw) := by
  simp [fromRight, xffEntryCount]

theorem xffEntryCount_pos (raw : Text) : 0 < xffEntryCount (some raw) :=
  List.length_pos_iff.mpr (List.splitOn_ne_nil ',' raw)

theorem xffEntryCount_append (p s : Text) :
    xffEntryCount (some (p ++ ',' :: s)) = xffEntryCount (some p) + xffEntryCount (some s) := by
  rw [← length_fromRight, fromRight_append, List.length_append, length_fromRight, length_fromRight,
    Nat.add_comm]

theorem parseClientIp_zero (parse : Text → Option Ip) (xff : Option Text) :
    parseClientIp parse xff 0 = none := by
  cases xff <;> simp [parseClientIp]

/-- All that matters of a header is one entry. -/
theorem parseClientIp_eq (parse : Text → Option Ip) (raw : Text) {hops : Nat} (h : 1 ≤ hops) :
    parseClientIp parse (some raw) hops = (fromRight raw)[hops - 1]?.bind parse := by
  rw [fromRight]
  simp only [parseClientIp, Option.bind_eq_bind, Option.bind_some]
  generalize (raw.splitOn ',').map trim = parts
  by_cases hfew : parts.length < hops
  · have hnone : parts.reverse[hops - 1]? = none :=
      List.getElem?_eq_none (by rw [List.length_reverse]; omega)
    rw [if_pos (Or.inr hfew), hnone, Option.bind_none]
  · have hidx : parts.length - 1 - (hops - 1) = parts.length - hops := by omega
    rw [if_neg (by omega), List.getElem?_reverse (by omega), hidx]

theorem parseClientIp_none (parse : Text → Option Ip) {xff : Option Text} {hops : Nat}
    (h : hops = 0 ∨ xffEntryCount xff < hops) : parseClientIp parse xff hops = none := by
  cases xff with
  | none => rfl
  | some raw =>
    rcases h with rfl | hfew
    · exact parseClientIp_zero parse (some raw)
    · have hnone : (fromRight raw)[hops - 1]? = none := by
        apply List.getElem?_eq_none
        rw [length_fromRight]
        omega
      rw [parseClientIp_eq parse raw (by omega), hnone, Option.bind_none]

/-- What a client prepends does not reach the entry that counts, and behind
the guard the index of that entry is one of the chain. -/
theorem prepended_entries_ignored (parse : Text → Option Ip) (hops : Nat) (s : Text) :
    (1 ≤ hops → hops ≤ xffEntryCount (some s) →
      (∀ p, parseClientIp parse (some (p ++ ',' :: s)) hops = parseClientIp parse (some s) hops) ∧
        ∀ t, (fromRight t)[hops - 1]? = (fromRight s)[hops - 1]? →
          parseClientIp parse (some t) hops = parseClientIp parse (some s) hops) ∧
      (∀ xff, hops = 0 ∨ xffEntryCount xff < hops → parseClientIp parse xff hops = none) ∧
      (¬ (hops = 0 ∨ ((s.splitOn ',').map trim).length < hops) →
        hops ≤ ((s.splitOn ',').map trim).length ∧
          ((s.splitOn ',').map trim).length - hops < ((s.splitOn ',').map trim).length) := by
  refine ⟨fun hhops hs => ⟨fun p => ?_, fun t ht => ?_⟩, fun xff => parseClientIp_none parse, ?_⟩
  · have hin : hops - 1 < (fromRight s).length := by
      rw [length_fromRight]
      omega
    rw [parseClientIp_eq parse _ hhops, parseClientIp_eq parse s hhops, fromRight_append,
      List.getElem?_append_left hin]
  · rw [parseClientIp_eq parse t hhops, parseClientIp_eq parse s hhops, ht]
  · intro hguard
    omega

/-- An octet of an address in decimal, without leading zeros. -/
def parseOctet (s : Text) : Option Nat :=
  let value := s.foldl (fun n c => 10 * n + (c.toNat - '0'.toNat)) 0
  if !s.isEmpty && s.length ≤ 3 && s.all Char.isDigit && (s.head? ≠ some '0' || s.length = 1) &&
    value ≤ 255 then some value else none

def parseIpv4 (s : Text) : Option (List Nat) :=
  if (s.splitOn '.').length = 4 then (s.splitOn '.').mapM parseOctet else none

theorem prepended_entries_ignored_forged :
    parseClientIp parseIpv4 (some "1.2.3.4, ,,198.51.100.7, 10.0.0.1".toList) 2 =
      some [198, 51, 100, 7] := by
  have h := (prepended_entries_ignored parseIpv4 2 "198.51.100.7, 10.0.0.1".toList).1
    (by decide) (by decide +kernel)
  have hforged := h.1 "1.2.3.4, ,".toList
  have hchain : parseClientIp parseIpv4 (some "198.51.100.7, 10.0.0.1".toList) 2 =
      some [198, 51, 100, 7] := by
    decide +kernel
  exact hforged.trans hchain

end CardDavMcp.ClientIp

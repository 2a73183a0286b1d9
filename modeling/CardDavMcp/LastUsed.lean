import CardDavMcp.Library.BoundedTable
import CardDavMcp.Library.Utf8Text

namespace CardDavMcp.LastUsed

open Library.Utf8Text Library.Table Library.BoundedTable

def MAX_ENTRIES : Nat := 1024

/-- When a bearer was last presented, and from which address. -/
structure LastUsedRecord (Ip : Type) where
  usedAt : Nat
  ip : Option Ip
deriving DecidableEq, Repr

abbrev LastUsedTracker (Ip : Type) := Dict Text (LastUsedRecord Ip)

variable {Ip : Type}

def record (order : IterOrder Text (LastUsedRecord Ip)) (now : Nat) (tokenHash : Text)
    (ip : Option Ip) (map : LastUsedTracker Ip) : LastUsedTracker Ip :=
  let room := if len map ≥ MAX_ENTRIES ∧ (map.lookup tokenHash).isNone then
    evictMin order LastUsedRecord.usedAt map else map
  room.insert tokenHash ⟨now, ip⟩

def get (tokenHash : Text) (map : LastUsedTracker Ip) : Option (LastUsedRecord Ip) :=
  map.lookup tokenHash

/-- A record never goes stale. -/
theorem record_eq (order : IterOrder Text (LastUsedRecord Ip)) (now : Nat) (tokenHash : Text)
    (ip : Option Ip) (map : LastUsedTracker Ip) :
    record order now tokenHash ip map =
      insertCapped order MAX_ENTRIES LastUsedRecord.usedAt (fun _ => true) tokenHash
      ⟨now, ip⟩ map := by
  have hsweep : sweep MAX_ENTRIES (fun _ => true) map = map := by
    rw [sweep]
    split_ifs
    · apply AList.ext
      simp [retain]
    · rfl
  rw [insertCapped, hsweep]
  rfl

end CardDavMcp.LastUsed

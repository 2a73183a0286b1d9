import Mathlib.Data.Finset.Card
import Mathlib.Data.Finset.Dedup
import Mathlib.Data.List.AList
import Mathlib.Data.List.MinMax
import Mathlib.Tactic.Common

namespace CardDavMcp.Library.Table

variable {K V : Type}

/-- A finite map as its entries in some order, with distinct keys. -/
abbrev Dict (K V : Type) := AList (fun _ : K => V)

def len (m : Dict K V) : Nat := m.keys.length

/-- Keep the entries that satisfy a test. -/
def retain (p : K → V → Bool) (m : Dict K V) : Dict K V where
  entries := m.entries.filter (fun e => p e.1 e.2)
  nodupKeys := m.nodupKeys.sublist List.filter_sublist

/-- The order in which the entries of a table are visited, which a hash map
leaves open. -/
structure IterOrder (K V : Type) where
  visit : List (Sigma (fun _ : K => V)) → List (Sigma (fun _ : K => V))
  perm : ∀ entries, (visit entries).Perm entries

def IterOrder.asStored : IterOrder K V := ⟨id, fun _ => .refl _⟩

/-- The key of the first visited entry with the least stamp. -/
def minByKey {τ : Type} [LinearOrder τ] (order : IterOrder K V) (stamp : V → τ)
    (m : Dict K V) : Option K :=
  ((order.visit m.entries).argmin (fun e => stamp e.2)).map Sigma.fst

theorem len_retain_le (p : K → V → Bool) (m : Dict K V) : len (retain p m) ≤ len m := by
  simpa [len, AList.keys, retain, List.keys] using List.length_filter_le _ _

theorem minByKey_eq_none {τ : Type} [LinearOrder τ] {order : IterOrder K V} {stamp : V → τ}
    {m : Dict K V} (h : minByKey order stamp m = none) : len m = 0 := by
  rw [minByKey, Option.map_eq_none_iff, List.argmin_eq_none] at h
  have hperm := order.perm m.entries
  rw [h, List.nil_perm] at hperm
  simp [len, AList.keys, hperm]

section Lookup

variable [DecidableEq K]

/-- Remove the entry with the least stamp. -/
def evictMin {τ : Type} [LinearOrder τ] (order : IterOrder K V) (stamp : V → τ)
    (m : Dict K V) : Dict K V :=
  match minByKey order stamp m with
  | some key => m.erase key
  | none => m

theorem lookup_retain (p : K → V → Bool) (m : Dict K V) (k : K) :
    (retain p m).lookup k = (m.lookup k).filter (p k) := by
  apply Option.ext
  intro v
  have hk (t : Dict K V) : t.lookup k = some v ↔ (⟨k, v⟩ : Sigma fun _ : K => V) ∈ t.entries :=
    AList.mem_lookup_iff
  rw [Option.filter_eq_some_iff, hk, hk]
  simp [retain, List.mem_filter]

theorem len_erase {m : Dict K V} {k : K} (h : k ∈ m) : len (m.erase k) + 1 = len m := by
  have hk : k ∈ m.keys := AList.mem_keys.mp h
  rw [len, AList.keys_erase, List.length_erase_of_mem hk, len]
  have := List.length_pos_of_mem hk
  omega

theorem len_insert_of_mem {m : Dict K V} {k : K} (v : V) (h : k ∈ m) :
    len (m.insert k v) = len m := by
  rw [len, AList.keys_insert, List.length_cons, ← AList.keys_erase]
  exact len_erase h

theorem len_insert_of_notMem {m : Dict K V} {k : K} (v : V) (h : k ∉ m) :
    len (m.insert k v) = len m + 1 := by
  have hk : k ∉ m.keys := fun hk => h (AList.mem_keys.mpr hk)
  rw [len, AList.keys_insert, List.length_cons, List.erase_of_not_mem hk, len]

theorem minByKey_eq_some {τ : Type} [LinearOrder τ] {order : IterOrder K V} {stamp : V → τ}
    {m : Dict K V} {k : K} (h : minByKey order stamp m = some k) :
    ∃ v, m.lookup k = some v ∧ ∀ k' v', m.lookup k' = some v' → stamp v ≤ stamp v' := by
  rw [minByKey, Option.map_eq_some_iff] at h
  obtain ⟨⟨k, v⟩, hmin, rfl⟩ := h
  have hmem : ∀ e, e ∈ order.visit m.entries ↔ e ∈ m.entries := fun e => (order.perm _).mem_iff
  refine ⟨v, ?_, fun k' v' hk' => ?_⟩
  · exact AList.mem_lookup_iff.mpr ((hmem _).mp (List.argmin_mem hmin))
  · have hk' : (⟨k', v'⟩ : Sigma (fun _ : K => V)) ∈ m.entries := AList.mem_lookup_iff.mp hk'
    exact List.le_of_mem_argmin (f := fun e : Sigma (fun _ : K => V) => stamp e.2)
      ((hmem _).mpr hk') hmin

theorem lookup_evictMin {τ : Type} [LinearOrder τ] {order : IterOrder K V} {stamp : V → τ}
    {m : Dict K V} {k : K} {v : V} (h : (evictMin order stamp m).lookup k = some v) :
    m.lookup k = some v := by
  cases hmin : minByKey order stamp m with
  | none => simpa [evictMin, hmin] using h
  | some least =>
    simp only [evictMin, hmin] at h
    by_cases hk : k = least
    · rw [hk, AList.lookup_erase] at h
      simp at h
    · rwa [AList.lookup_erase_ne hk] at h

/-- Only an entry of least stamp is evicted. -/
theorem evicted_is_least {τ : Type} [LinearOrder τ] {order : IterOrder K V} {stamp : V → τ}
    {m : Dict K V} {k : K} {v : V} (hk : m.lookup k = some v)
    (h : (evictMin order stamp m).lookup k = none) :
    ∀ k' v', m.lookup k' = some v' → stamp v ≤ stamp v' := by
  cases hmin : minByKey order stamp m with
  | none => simp [evictMin, hmin, hk] at h
  | some least =>
    simp only [evictMin, hmin] at h
    by_cases hkl : k = least
    · obtain ⟨w, hw, hle⟩ := minByKey_eq_some hmin
      rw [← hkl, hk, Option.some.injEq] at hw
      exact hw ▸ hle
    · rw [AList.lookup_erase_ne hkl, hk] at h
      simp at h

theorem len_le_of_few {m : Dict K V} {keys : List K} {bound : Nat} (hm : ∀ k ∈ m, k ∈ keys)
    (hfew : keys.toFinset.card ≤ bound) : len m ≤ bound := by
  rw [len, ← List.toFinset_card_of_nodup m.keys_nodup]
  refine (Finset.card_le_card fun k hk => ?_).trans hfew
  exact List.mem_toFinset.mpr (hm k (AList.mem_keys.mpr (List.mem_toFinset.mp hk)))

/-- A table whose keys are among few has room for a new one of them. -/
theorem len_lt_of_new {m : Dict K V} {key : K} {keys : List K} {bound : Nat}
    (hm : ∀ k ∈ m, k ∈ keys)
    (hfew : keys.toFinset.card ≤ bound) (hkey : key ∈ keys) (hnew : m.lookup key = none) :
    len m < bound := by
  have hnot : key ∉ m.keys.toFinset := by
    rw [List.mem_toFinset]
    exact fun hmem => AList.lookup_eq_none.mp hnew (AList.mem_keys.mpr hmem)
  have hcard : (insert key m.keys.toFinset).card = len m + 1 := by
    rw [Finset.card_insert_of_notMem hnot, List.toFinset_card_of_nodup m.keys_nodup, len]
  have hsub : insert key m.keys.toFinset ⊆ keys.toFinset := by
    rw [Finset.insert_subset_iff]
    exact ⟨List.mem_toFinset.mpr hkey, fun k hk =>
      List.mem_toFinset.mpr (hm k (AList.mem_keys.mpr (List.mem_toFinset.mp hk)))⟩
  have hle := (Finset.card_le_card hsub).trans hfew
  omega

end Lookup

end CardDavMcp.Library.Table

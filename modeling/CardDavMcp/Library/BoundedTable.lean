import CardDavMcp.Library.Runs
import CardDavMcp.Library.Table

namespace CardDavMcp.Library.BoundedTable

open Runs Table

variable {K V τ W : Type} [DecidableEq K] [LinearOrder τ]

/-- Drop what is no longer fresh from a full table. -/
def sweep (cap : Nat) (fresh : V → Bool) (m : Dict K V) : Dict K V :=
  if len m ≥ cap then retain (fun _ v => fresh v) m else m

/-- Store an entry. A full table is swept first and, if the key is new and there
still is no room, gives up the entry with the least stamp. -/
def insertCapped (order : IterOrder K V) (cap : Nat) (stamp : V → τ) (fresh : V → Bool)
    (key : K) (value : V) (m : Dict K V) : Dict K V :=
  let swept := sweep cap fresh m
  let room := if len swept ≥ cap ∧ (swept.lookup key).isNone then
    evictMin order stamp swept else swept
  room.insert key value

/-- What an insertion into a table with a cap may do to the other entries. -/
structure Inserts (cap : Nat) (stamp : V → τ) (fresh : V → Bool) (key : K) (value : V)
    (m m' : Dict K V) : Prop where
  bounded : len m ≤ cap → len m' ≤ cap
  stored : m'.lookup key = some value
  others : ∀ k e, k ≠ key → m'.lookup k = some e → m.lookup k = some e
  refresh : len m ≤ cap → key ∈ m → ∀ k e, k ≠ key → m.lookup k = some e → fresh e →
    m'.lookup k = some e
  evicted : ∀ k e, k ≠ key → m.lookup k = some e → fresh e → m'.lookup k = none →
    cap ≤ len m ∧ ∀ k' e', k' ≠ key → m'.lookup k' = some e' → stamp e ≤ stamp e'
  single : ∀ k k' e e', k ≠ key → k' ≠ key → m.lookup k = some e → m.lookup k' = some e' →
    fresh e → fresh e' → m'.lookup k = none → m'.lookup k' = none → k = k'

variable {order : IterOrder K V} {cap : Nat} {stamp : V → τ} {fresh : V → Bool}
    {key k : K} {value e : V}
  {m m' : Dict K V}

/-- After an insertion there is its own entry, and no other new one. -/
theorem Inserts.lookup (h : Inserts cap stamp fresh key value m m') (hk : m'.lookup k = some e) :
    (k = key ∧ e = value) ∨ (k ≠ key ∧ m.lookup k = some e) := by
  by_cases hne : k = key
  · rw [hne, h.stored, Option.some.injEq] at hk
    exact .inl ⟨hne, hk.symm⟩
  · exact .inr ⟨hne, h.others k e hne hk⟩

/-- An insertion for which there is room evicts nothing. -/
theorem Inserts.kept (h : Inserts cap stamp fresh key value m m') (hcap : len m ≤ cap)
    (hroom : m.lookup key = none → len m < cap) (hne : k ≠ key) (hk : m.lookup k = some e)
    (hfresh : fresh e) : m'.lookup k = some e := by
  cases hkey : m.lookup key with
  | some stored =>
    exact h.refresh hcap (AList.lookup_isSome.mp (by rw [hkey]; rfl)) k e hne hk hfresh
  | none =>
    cases hgone : m'.lookup k with
    | some e' =>
      rw [← hk, h.others k e' hne hgone]
    | none => exact absurd (h.evicted k e hne hk hfresh hgone).1 (Nat.not_le.mpr (hroom hkey))

theorem lookup_sweep (h : (sweep cap fresh m).lookup k = some e) : m.lookup k = some e := by
  rw [sweep] at h
  split_ifs at h
  · rw [lookup_retain, Option.filter_eq_some_iff] at h
    exact h.1
  · exact h

theorem lookup_sweep_fresh (h : m.lookup k = some e) (hfresh : fresh e) :
    (sweep cap fresh m).lookup k = some e := by
  rw [sweep]
  split_ifs
  · rw [lookup_retain, h]
    exact Option.filter_some_pos hfresh
  · exact h

omit [DecidableEq K] in
theorem len_sweep_le : len (sweep cap fresh m) ≤ len m := by
  rw [sweep]
  split_ifs
  · exact len_retain_le _ m
  · exact le_rfl

omit [DecidableEq K] in
/-- A sweep that loses nothing leaves the table as it is. -/
theorem sweep_eq_self (h : len m ≤ len (sweep cap fresh m)) : sweep cap fresh m = m := by
  unfold sweep at h ⊢
  split_ifs at h ⊢
  · apply AList.ext
    apply List.filter_sublist.eq_of_length_le
    simpa [len, AList.keys, List.keys, retain] using h
  · rfl

theorem sweep_of_fresh (h : ∀ k v, m.lookup k = some v → fresh v) : sweep cap fresh m = m := by
  rw [sweep]
  split_ifs
  · apply AList.ext
    exact List.filter_eq_self.mpr fun e he => h e.1 e.2 (AList.mem_lookup_iff.mpr he)
  · rfl

theorem fresh_of_sweep (hfull : cap ≤ len m) (h : sweep cap fresh m = m)
    (hk : m.lookup k = some e) : fresh e := by
  rw [sweep, if_pos hfull] at h
  rw [← h, lookup_retain, Option.filter_eq_some_iff] at hk
  exact hk.2

omit [DecidableEq K] in
/-- A sweep that loses a key makes the table smaller. -/
theorem len_sweep_lt (hk : key ∈ m) (hlost : key ∉ sweep cap fresh m) :
    len (sweep cap fresh m) < len m := by
  by_contra hle
  rw [sweep_eq_self (not_lt.mp hle)] at hlost
  exact hlost hk

/-- A table gives up at most one entry, and one if it has any. -/
theorem evictMin_cases (order : IterOrder K V) (stamp : V → τ) (m : Dict K V) :
    (len m = 0 ∧ evictMin order stamp m = m) ∨
    ∃ least ∈ m, evictMin order stamp m = m.erase least := by
  cases hmin : minByKey order stamp m with
  | none => exact .inl ⟨minByKey_eq_none hmin, by simp [evictMin, hmin]⟩
  | some least =>
    obtain ⟨v, hv, -⟩ := minByKey_eq_some hmin
    refine .inr ⟨least, ?_, by simp [evictMin, hmin]⟩
    rw [← AList.lookup_isSome, hv]
    rfl

theorem len_insert_le (key : K) (value : V) (m : Dict K V) :
    len (m.insert key value) ≤ len m + 1 := by
  by_cases hk : key ∈ m
  · exact (len_insert_of_mem value hk).le.trans (Nat.le_succ _)
  · exact (len_insert_of_notMem value hk).le

/-- To write over an entry leaves all others alone. -/
theorem inserts_of_mem (hk : key ∈ m) :
    Inserts cap stamp fresh key value m (m.insert key value) := by
  have hlookup (k : K) (hne : k ≠ key) : (m.insert key value).lookup k = m.lookup k :=
    AList.lookup_insert_ne hne
  refine ⟨fun h => (len_insert_of_mem value hk).le.trans h, AList.lookup_insert m, ?_, ?_, ?_, ?_⟩
  · intro k e hne h
    rwa [hlookup k hne] at h
  · intro _ _ k e hne h _
    rwa [hlookup k hne]
  · intro k e hne h _ hgone
    rw [hlookup k hne, h] at hgone
    cases hgone
  · intro k k' e e' hne _ h _ _ _ hgone
    rw [hlookup k hne, h] at hgone
    cases hgone

/-- To insert into what a sweep left, once there is room. -/
theorem inserts_of_room (hroom : len (sweep cap fresh m) < cap ∨ key ∈ sweep cap fresh m) :
    Inserts cap stamp fresh key value m ((sweep cap fresh m).insert key value) := by
  have hlookup (k : K) (hne : k ≠ key) :
      ((sweep cap fresh m).insert key value).lookup k = (sweep cap fresh m).lookup k :=
    AList.lookup_insert_ne hne
  have hkept (k : K) (e : V) (hne : k ≠ key) (h : m.lookup k = some e) (hfresh : fresh e) :
      ((sweep cap fresh m).insert key value).lookup k = some e := by
    rw [hlookup k hne]
    exact lookup_sweep_fresh h hfresh
  refine ⟨fun h => ?_, AList.lookup_insert _, ?_, fun _ _ => hkept, ?_, ?_⟩
  · obtain hroom | hk := hroom
    · have := len_insert_le key value (sweep cap fresh m)
      omega
    · rw [len_insert_of_mem value hk]
      exact len_sweep_le.trans h
  · intro k e hne h
    rw [hlookup k hne] at h
    exact lookup_sweep h
  · intro k e hne h hfresh hgone
    rw [hkept k e hne h hfresh] at hgone
    cases hgone
  · intro k k' e e' hne _ h _ hfresh _ hgone
    rw [hkept k e hne h hfresh] at hgone
    cases hgone

/-- To insert into a table that has just given up its oldest entry. -/
theorem inserts_of_evicted (hcap : 0 < cap) (hfull : cap ≤ len (sweep cap fresh m))
    (hk : key ∉ sweep cap fresh m) :
    Inserts cap stamp fresh key value m
    ((evictMin order stamp (sweep cap fresh m)).insert key value) := by
  obtain ⟨hempty, -⟩ | ⟨least, hleast, hevict⟩ := evictMin_cases order stamp (sweep cap fresh m)
  · omega
  have hlookup (k : K) (hne : k ≠ key) :
      ((evictMin order stamp (sweep cap fresh m)).insert key value).lookup k =
        (evictMin order stamp (sweep cap fresh m)).lookup k :=
    AList.lookup_insert_ne hne
  -- The one entry that is lost although it is fresh.
  have hvictim (k : K) (e : V) (hne : k ≠ key) (h : m.lookup k = some e) (hfresh : fresh e)
      (hgone : ((evictMin order stamp (sweep cap fresh m)).insert key value).lookup k = none) :
        k = least := by
    by_contra hk
    rw [hlookup k hne, hevict, AList.lookup_erase_ne hk, lookup_sweep_fresh h hfresh] at hgone
    cases hgone
  refine ⟨fun h => ?_, AList.lookup_insert _, fun k e hne h => ?_, fun hle hmem => ?_,
    fun k e hne h hfresh hgone => ⟨hfull.trans len_sweep_le, fun k' e' hne' h' => ?_⟩,
    fun k k' e e' hne hne' h h' hfresh hfresh' hgone hgone' => ?_⟩
  · have hshrunk := len_erase hleast
    have hgrown := len_insert_le key value (evictMin order stamp (sweep cap fresh m))
    have hswept : len (sweep cap fresh m) ≤ len m := len_sweep_le
    rw [hevict] at hgrown ⊢
    omega
  · rw [hlookup k hne] at h
    exact lookup_sweep (lookup_evictMin h)
  · have := len_sweep_lt hmem hk
    omega
  · rw [hlookup k hne] at hgone
    rw [hlookup k' hne'] at h'
    exact evicted_is_least (lookup_sweep_fresh h hfresh) hgone k' e' (lookup_evictMin h')
  · rw [hvictim k e hne h hfresh hgone, hvictim k' e' hne' h' hfresh' hgone']

theorem inserts_insertCapped (hcap : 0 < cap) :
    Inserts cap stamp fresh key value m (insertCapped order cap stamp fresh key value m) := by
  unfold insertCapped
  dsimp only
  split_ifs with h
  · obtain ⟨hfull, hnone⟩ := h
    apply inserts_of_evicted hcap hfull
    intro hk
    rw [← AList.lookup_isSome] at hk
    simp [Option.isNone_iff_eq_none.mp hnone] at hk
  · apply inserts_of_room
    by_cases hroom : len (sweep cap fresh m) < cap
    · exact .inl hroom
    · right
      rw [← AList.lookup_isSome]
      simpa [not_lt.mp hroom, Option.isSome_iff_ne_none] using h

/-- What may happen to a table: a write of some kind, a removal, or nothing. -/
inductive TableOp (K W : Type)
  | write (w : W)
  | remove (k : K)
  | read
deriving DecidableEq, Repr

def TableStep (write : Dict K V → W → Dict K V → Prop) (m : Dict K V) : TableOp K W →
    Dict K V → Prop
  | .write w, m' => write m w m'
  | .remove k, m' => m' = m.erase k
  | .read, m' => m' = m

/-- A cap that every write respects is never exceeded. -/
theorem len_le_of_run {write : Dict K V → W → Dict K V → Prop}
    (hwrite : ∀ m w m', write m w m' → len m ≤ cap → len m' ≤ cap) {log : List (TableOp K W)}
    (h : Run (TableStep write) ∅ log m) : len m ≤ cap := by
  induction h with
  | nil => exact Nat.zero_le _
  | @snoc log m m' op _ hs ih =>
    cases op with
    | write w => exact hwrite _ w _ hs ih
    | remove k =>
      rw [hs]
      refine le_trans ?_ ih
      rw [len, AList.keys_erase]
      exact List.length_erase_le
    | read =>
      rw [hs]
      exact ih

/-- Writes that keep a table within its cap and evict only what they may. -/
structure Keeps (cap : Nat) (stamp : V → τ) (write : Dict K V → W → Dict K V → Prop)
    (fresh : W → V → Bool) (key : W → K) (value : Dict K V → W → V) : Prop where
  capped : ∀ log m, Run (TableStep write) ∅ log m → len m ≤ cap
  inserts : ∀ m w m', write m w m' → Inserts cap stamp (fresh w) (key w) (value m w) m m'

theorem keeps_of_inserts {write : Dict K V → W → Dict K V → Prop}
    {fresh : W → V → Bool} {key : W → K} {value : Dict K V → W → V}
    (h : ∀ m w m', write m w m' → Inserts cap stamp (fresh w) (key w) (value m w) m m') :
    Keeps cap stamp write fresh key value :=
  ⟨fun _ _ hrun => len_le_of_run (fun m w m' hw => (h m w m' hw).bounded) hrun, h⟩

end CardDavMcp.Library.BoundedTable

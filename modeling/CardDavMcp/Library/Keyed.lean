import Mathlib.Data.List.Induction
import Mathlib.Data.List.Nodup
import Mathlib.Data.List.Sort
import Mathlib.Tactic.Common

namespace CardDavMcp.Library.Keyed

variable {α κ : Type} (key : α → κ)

section FirstBy

variable [DecidableEq κ]

/-- The elements that are the first with their key, in order. -/
def firstBy (xs : List α) : List α := xs.eraseDupsBy (fun a b => key a == key b)

theorem firstBy_cons (a : α) (xs : List α) :
    firstBy key (a :: xs) = a :: firstBy key (xs.filter (key · ≠ key a)) := by
  rw [firstBy, List.eraseDupsBy_cons, firstBy]
  simp

/-- A new element comes last, if its key is new. -/
theorem firstBy_snoc (xs : List α) (c : α) :
    firstBy key (xs ++ [c]) =
      if key c ∈ xs.map key then firstBy key xs else firstBy key xs ++ [c] := by
  induction hn : xs.length using Nat.strongRecOn generalizing xs with
  | ind n ih =>
    cases xs with
    | nil => rfl
    | cons a xs =>
      have hlen : (xs.filter (key · ≠ key a)).length < n := by
        have hle := List.length_filter_le (fun x => decide (key x ≠ key a)) xs
        rw [List.length_cons] at hn
        omega
      have ih := ih _ hlen (xs.filter (key · ≠ key a)) rfl
      rw [List.cons_append, firstBy_cons, firstBy_cons, List.filter_append]
      by_cases hc : key c = key a
      · simp [hc]
      · have hmem : key c ∈ (xs.filter (key · ≠ key a)).map key ↔ key c ∈ xs.map key := by
          simp only [List.mem_map, List.mem_filter, decide_eq_true_eq]
          constructor
          · rintro ⟨x, ⟨hx, -⟩, he⟩
            exact ⟨x, hx, he⟩
          · rintro ⟨x, hx, he⟩
            exact ⟨x, ⟨hx, he ▸ hc⟩, he⟩
        have hkeep : [c].filter (key · ≠ key a) = [c] := by simp [hc]
        rw [hkeep, ih]
        simp only [hmem, List.map_cons, List.mem_cons, hc, false_or]
        split_ifs <;> rfl

theorem firstBy_isPrefix (xs ys : List α) : firstBy key xs <+: firstBy key (xs ++ ys) := by
  induction ys using List.reverseRecOn with
  | nil => exact (List.append_nil xs).symm ▸ List.prefix_rfl
  | append_singleton ys c ih =>
    rw [← List.append_assoc, firstBy_snoc]
    split_ifs
    · exact ih
    · exact ih.trans (List.prefix_append _ _)

/-- Once there are enough, more elements do not change the first ones. -/
theorem take_firstBy_append {n : ℕ} (xs ys : List α) (h : n ≤ (firstBy key xs).length) :
    (firstBy key (xs ++ ys)).take n = (firstBy key xs).take n := by
  obtain ⟨t, ht⟩ := firstBy_isPrefix key xs ys
  rw [← ht, List.take_append_of_le_length h]

theorem mem_of_mem_firstBy {xs : List α} {x : α} (h : x ∈ firstBy key xs) : x ∈ xs := by
  induction xs using List.reverseRecOn with
  | nil => exact h
  | append_singleton xs c ih =>
    rw [firstBy_snoc] at h
    split_ifs at h
    · exact List.mem_append_left _ (ih h)
    · rcases List.mem_append.mp h with h | h
      · exact List.mem_append_left _ (ih h)
      · exact List.mem_append_right _ h

theorem nodup_firstBy (xs : List α) : ((firstBy key xs).map key).Nodup := by
  induction xs using List.reverseRecOn with
  | nil => exact List.nodup_nil
  | append_singleton xs c ih =>
    rw [firstBy_snoc]
    split_ifs with hc
    · exact ih
    · rw [List.map_append, List.nodup_append]
      refine ⟨ih, List.nodup_singleton _, ?_⟩
      intro k hk k' hk' he
      obtain ⟨x, hx, rfl⟩ := List.mem_map.mp hk
      obtain rfl := List.mem_singleton.mp hk'
      exact hc (List.mem_map.mpr ⟨x, mem_of_mem_firstBy key hx, he⟩)

end FirstBy

section SortBy

variable [LinearOrder κ]

/-- The elements in the order of their keys, and those with one key in the
order in which they stood. -/
def sortBy (xs : List α) : List α := xs.insertionSort (fun a b => key a ≤ key b)

theorem sortBy_perm (xs : List α) : (sortBy key xs).Perm xs := List.perm_insertionSort _ xs

instance total_key : Std.Total (fun a b : α => key a ≤ key b) :=
  ⟨fun a b => le_total (key a) (key b)⟩

instance trans_key : IsTrans α (fun a b : α => key a ≤ key b) := ⟨fun _ _ _ => le_trans⟩

theorem sortBy_pairwise (xs : List α) : (sortBy key xs).Pairwise (fun a b => key a ≤ key b) :=
  List.pairwise_insertionSort _ xs

theorem filter_sortBy (k : κ) [DecidablePred fun a => key a = k] (xs : List α) :
    (sortBy key xs).filter (key · = k) = xs.filter (key · = k) := by
  have hsame : (xs.filter (key · = k)).Pairwise (fun a b => key a ≤ key b) := by
    refine List.pairwise_of_forall_mem_list fun a ha b hb => ?_
    rw [List.mem_filter, decide_eq_true_eq] at ha hb
    exact (ha.2.trans hb.2.symm).le
  have hsub : (xs.filter (key · = k)).Sublist (sortBy key xs) :=
    List.sublist_insertionSort hsame List.filter_sublist
  have hsub := hsub.filter (key · = k)
  simp only [List.filter_filter, Bool.and_self] at hsub
  exact (hsub.eq_of_length ((sortBy_perm key xs).filter _).length_eq.symm).symm

end SortBy

end CardDavMcp.Library.Keyed

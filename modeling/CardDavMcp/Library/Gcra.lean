import Mathlib.Order.Lattice
import Mathlib.Tactic.Common

namespace CardDavMcp.Library.Gcra

/-- The generic cell rate algorithm: one cell per period, and a burst of cells
at once. Times count from an origin at which every bucket is full. -/
structure Quota where
  period : Nat
  burst : Nat
deriving DecidableEq, Repr

/-- A bucket is the time by which all cells it let through would have arrived
evenly. -/
def full : Nat := 0

def conforms (q : Quota) (tat : Nat) (t : Nat) : Bool :=
  max tat t + q.period - t ≤ q.burst * q.period

/-- Test one cell. A refusal leaves the bucket as it is. -/
def check (q : Quota) (tat : Nat) (t : Nat) : Bool × Nat :=
  if conforms q tat t then (true, max tat t + q.period) else (false, tat)

/-- The cells that a bucket would still let through at a time. -/
def remaining (q : Quota) (tat : Nat) (t : Nat) : Nat :=
  (t + q.burst * q.period - max tat t) / q.period

/-- One bucket that is kept for ever and tested at the given times. -/
def bucketAfter (q : Quota) (times : List Nat) : Nat :=
  times.foldl (fun tat t => (check q tat t).2) full

variable {q : Quota} {tat tat' t : Nat}

theorem check_fst : (check q tat t).1 = conforms q tat t := by
  rw [check]
  split_ifs with h <;> simp [h]

theorem check_of_conforms (h : conforms q tat t = true) :
    check q tat t = (true, max tat t + q.period) := if_pos h

theorem check_of_not_conforms (h : conforms q tat t = false) : check q tat t = (false, tat) := by
  simp [check, h]

@[simp] theorem bucketAfter_nil : bucketAfter q [] = full := rfl

theorem bucketAfter_concat (times : List Nat) (t : Nat) :
    bucketAfter q (times ++ [t]) = (check q (bucketAfter q times) t).2 := by
  rw [bucketAfter, List.foldl_append]
  rfl

/-- An emptier bucket conforms less often. -/
theorem conforms_anti (h : tat ≤ tat') (ht : conforms q tat' t = true) :
    conforms q tat t = true := by
  simp only [conforms, decide_eq_true_eq] at ht ⊢
  omega

/-- A bucket whose time has passed is a full one. -/
theorem check_of_le (hq : 1 ≤ q.burst) (h : tat ≤ t) : check q tat t = check q full t := by
  have hburst : q.period ≤ q.burst * q.period := Nat.le_mul_of_pos_left _ hq
  have hconforms (tat : Nat) (h : tat ≤ t) : check q tat t = (true, t + q.period) := by
    rw [check_of_conforms (by simp only [conforms, decide_eq_true_eq]; omega), max_eq_right h]
  rw [hconforms tat h, hconforms full (Nat.zero_le t)]

theorem check_ge : tat ≤ (check q tat t).2 := by
  rw [check]
  split_ifs
  · dsimp only
    omega
  · exact le_rfl

/-- No bucket is ahead of the clock by more than its burst. -/
theorem check_le {seen : Nat} (h : tat ≤ seen + q.burst * q.period) (ht : seen ≤ t) :
    (check q tat t).2 ≤ t + q.burst * q.period := by
  cases hc : conforms q tat t with
  | true =>
    rw [check_of_conforms hc]
    simp only [conforms, decide_eq_true_eq] at hc
    dsimp only
    omega
  | false =>
    rw [check_of_not_conforms hc]
    dsimp only
    omega

theorem conforms_iff_remaining (hq : 0 < q.period) : conforms q tat t = true ↔
    0 < remaining q tat t := by
  rw [remaining, Nat.div_pos_iff]
  simp only [conforms, decide_eq_true_eq]
  omega

/-- A cell that is let through is spent. -/
theorem remaining_check (hq : 0 < q.period) (h : conforms q tat t = true) :
    remaining q (check q tat t).2 t + 1 = remaining q tat t := by
  have hpos := (conforms_iff_remaining hq).mp h
  rw [remaining, Nat.div_pos_iff] at hpos
  rw [check_of_conforms h, remaining, remaining, Nat.div_eq_sub_div hq hpos.2, Nat.sub_sub]
  have hlater : max (max tat t + q.period) t = max tat t + q.period := by omega
  rw [hlater]

end CardDavMcp.Library.Gcra

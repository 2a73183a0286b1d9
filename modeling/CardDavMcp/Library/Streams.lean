import Mathlib.Data.List.Induction
import Mathlib.Tactic.Common

namespace CardDavMcp.Library.Streams

variable {α ε β : Type}

/-- A stream as it comes in: chunk by chunk, until it ends or fails. -/
abbrev Chunks (ε α : Type) := List (Except ε (List α))

/-- All that comes in before the end or the first failure. -/
def received : Chunks ε α → List α
  | [] | .error _ :: _ => []
  | .ok chunk :: rest => chunk ++ received rest

/-- The failure that ends a stream. -/
def failure : Chunks ε α → Option ε
  | [] => none
  | .error e :: _ => some e
  | .ok _ :: rest => failure rest

theorem received_append (parts : List (List α)) (rest : Chunks ε α) :
    received (parts.map .ok ++ rest) = parts.flatten ++ received rest := by
  induction parts with
  | nil => rfl
  | cons part parts ih =>
    rw [List.map_cons, List.cons_append, received, ih, List.flatten_cons, List.append_assoc]

theorem failure_append (parts : List (List α)) (rest : Chunks ε α) :
    failure (parts.map .ok ++ rest) = failure rest := by
  induction parts with
  | nil => rfl
  | cons part parts ih =>
    rw [List.map_cons, List.cons_append, failure, ih]

theorem received_map (parts : List (List α)) :
    received (parts.map .ok : Chunks ε α) = parts.flatten := by
  have h := received_append parts ([] : Chunks ε α)
  rwa [List.append_nil, received, List.append_nil] at h

theorem failure_map (parts : List (List α)) : failure (parts.map .ok : Chunks ε α) = none := by
  have h := failure_append parts ([] : Chunks ε α)
  rwa [List.append_nil] at h

theorem failure_eq_none {chunks : Chunks ε α} :
    failure chunks = none ↔ ∃ parts : List (List α), chunks = parts.map .ok := by
  constructor
  · intro h
    induction chunks with
    | nil => exact ⟨[], rfl⟩
    | cons chunk rest ih =>
      cases chunk with
      | error e => cases h
      | ok chunk =>
        obtain ⟨parts, rfl⟩ := ih h
        exact ⟨chunk :: parts, rfl⟩
  · rintro ⟨parts, rfl⟩
    exact failure_map parts

theorem failure_eq_some {chunks : Chunks ε α} {e : ε} : failure chunks = some e ↔
    ∃ (parts : List (List α)) (later : Chunks ε α),
      chunks = parts.map .ok ++ .error e :: later := by
  constructor
  · intro h
    induction chunks with
    | nil => cases h
    | cons chunk rest ih =>
      cases chunk with
      | error e' =>
        obtain rfl : e' = e := Option.some.inj h
        exact ⟨[], rest, rfl⟩
      | ok chunk =>
        obtain ⟨parts, later, rfl⟩ := ih h
        exact ⟨chunk :: parts, later, rfl⟩
  · rintro ⟨parts, later, rfl⟩
    exact failure_append parts _

/-- More than so much comes in exactly if some chunk is the first to exceed it. -/
theorem lt_length_received {n : Nat} {chunks : Chunks ε α} : n < (received chunks).length ↔
    ∃ (parts : List (List α)) (chunk : List α) (later : Chunks ε α),
      chunks = parts.map .ok ++ .ok chunk :: later ∧ parts.flatten.length ≤ n ∧
        n < parts.flatten.length + chunk.length := by
  constructor
  · intro h
    induction chunks generalizing n with
    | nil => cases h
    | cons chunk rest ih =>
      cases chunk with
      | error e => cases h
      | ok chunk =>
        rw [received, List.length_append] at h
        by_cases hn : n < chunk.length
        · exact ⟨[], chunk, rest, rfl, Nat.zero_le n, by simpa using hn⟩
        · have hrest : n - chunk.length < (received rest).length := by omega
          obtain ⟨parts, last, later, rfl, hle, hlt⟩ := ih hrest
          refine ⟨chunk :: parts, last, later, rfl, ?_, ?_⟩
          all_goals
            rw [List.flatten_cons, List.length_append]
            omega
  · rintro ⟨parts, chunk, later, rfl, -, hlt⟩
    rw [received_append, received, List.length_append, List.length_append]
    omega

/-- What a loop does with a chunk: it goes on with a buffer, or it returns. -/
inductive Turn (α β : Type)
  | more (buffer : List α)
  | done (result : β)

/-- A loop over a stream that fills a buffer. -/
structure Loop (ε α β : Type) where
  goesOn : List α → Bool
  onEnd : List α → β
  onFailure : List α → ε → β
  onChunk : List α → List α → Turn α β

namespace Loop

variable (loop : Loop ε α β)

def run (buffer : List α) : Chunks ε α → β
  | [] => loop.onEnd buffer
  | .error e :: _ => if loop.goesOn buffer then loop.onFailure buffer e else loop.onEnd buffer
  | .ok chunk :: rest =>
    if loop.goesOn buffer then
      match loop.onChunk buffer chunk with
      | .more buffer => run buffer rest
      | .done result => result
    else loop.onEnd buffer

/-- The buffers that the loop holds, each with what is still to come. -/
inductive Reaches (start : List α) (chunks : Chunks ε α) : List α → Chunks ε α → Prop
  | start : Reaches start chunks start chunks
  | turn {buffer buffer' chunk : List α} {rest : Chunks ε α} :
      Reaches start chunks buffer (.ok chunk :: rest) → loop.goesOn buffer = true →
      loop.onChunk buffer chunk = .more buffer' → Reaches start chunks buffer' rest

/-- What the loop returns is known for the stream as a whole: it goes on as long
as chunks can be taken in whole, and returns early only if what is still to
come does not matter. -/
structure Decides (answer : List α → Option ε → β) (holds : List α → Prop) : Prop where
  onEnd : ∀ buffer, holds buffer → loop.onEnd buffer = answer buffer none
  onFailure : ∀ buffer e, holds buffer → loop.goesOn buffer = true →
    loop.onFailure buffer e = answer buffer (some e)
  enough : ∀ buffer later ending, holds buffer → loop.goesOn buffer = false →
    loop.onEnd buffer = answer (buffer ++ later) ending
  more : ∀ buffer chunk buffer', holds buffer → loop.goesOn buffer = true →
    loop.onChunk buffer chunk = .more buffer' → buffer' = buffer ++ chunk ∧ holds buffer'
  done : ∀ buffer chunk later ending result, holds buffer → loop.goesOn buffer = true →
    loop.onChunk buffer chunk = .done result → result = answer (buffer ++ (chunk ++ later)) ending

variable {loop}

theorem Reaches.run {start buffer : List α} {chunks left : Chunks ε α}
    (h : loop.Reaches start chunks buffer left) : loop.run start chunks = loop.run buffer left := by
  induction h with
  | start => rfl
  | turn _ hgoes hmore ih => rw [ih, Loop.run, if_pos hgoes, hmore]

variable {answer : List α → Option ε → β} {holds : List α → Prop}

/-- The buffer is what has come in so far. -/
theorem Decides.reaches (h : loop.Decides answer holds) {start buffer : List α}
    {chunks left : Chunks ε α} (hstart : holds start)
    (hreaches : loop.Reaches start chunks buffer left) : holds buffer ∧
      ∃ parts : List (List α),
        chunks = parts.map .ok ++ left ∧ buffer = start ++ parts.flatten := by
  induction hreaches with
  | start => exact ⟨hstart, [], rfl, (List.append_nil start).symm⟩
  | @turn buffer _ chunk rest _ hgoes hmore ih =>
    obtain ⟨hbuffer, parts, hchunks, hparts⟩ := ih
    obtain ⟨rfl, hnext⟩ := h.more _ _ _ hbuffer hgoes hmore
    refine ⟨hnext, parts ++ [chunk], ?_, ?_⟩
    · rw [hchunks, List.map_append, List.append_assoc]
      rfl
    · rw [hparts, List.flatten_append, List.append_assoc]
      simp

/-- What is returned does not depend on how the stream is cut into chunks. -/
theorem Decides.run (h : loop.Decides answer holds) {start : List α} (hstart : holds start)
    (chunks : Chunks ε α) :
    loop.run start chunks = answer (start ++ received chunks) (failure chunks) := by
  induction chunks generalizing start with
  | nil =>
    rw [Loop.run, received, List.append_nil]
    exact h.onEnd start hstart
  | cons chunk rest ih =>
    cases hgoes : loop.goesOn start with
    | false =>
      have hrun : loop.run start (chunk :: rest) = loop.onEnd start := by
        cases chunk <;> simp [Loop.run, hgoes]
      rw [hrun]
      exact h.enough start _ _ hstart hgoes
    | true =>
      cases chunk with
      | error e =>
        rw [Loop.run, if_pos hgoes, received, List.append_nil]
        exact h.onFailure start e hstart hgoes
      | ok chunk =>
        rw [Loop.run, if_pos hgoes, received]
        cases hturn : loop.onChunk start chunk with
        | done result => exact h.done start chunk _ _ result hstart hgoes hturn
        | more buffer =>
          obtain ⟨rfl, hnext⟩ := h.more start chunk buffer hstart hgoes hturn
          dsimp only
          rw [ih hnext, List.append_assoc, failure]

end Loop

end CardDavMcp.Library.Streams

import CardDavMcp.Library.Gate
import Mathlib.Data.Finset.Card

namespace CardDavMcp.SessionCap

open Library.Gate Library.Runs

def MAX_SESSIONS : Nat := 256

inductive CappedSessionError
  | inner (message : String)
  | capReached
deriving DecidableEq, Repr

/-- Where a call of `create_session` stands. The guard is dropped in a step of
its own, after the result is settled. -/
inductive Stage (Id : Type)
  | lock
  | count
  | decide (count : Nat)
  | leave (result : Except CappedSessionError Id)
  | returned (result : Except CappedSessionError Id)
  | cancelled
deriving DecidableEq

/-- The steps of a call. The inner manager fails, or adds one session. -/
inductive Action (Id : Type)
  | takeGate | readCount | refuse
  | create (outcome : Except String Id)
  | releaseGate
  | cancel

/-- Sessions go because they are closed or because they expire. -/
inductive Removal (Id : Type)
  | close (id : Id)
  | expire (ids : Finset Id)

section Create

variable {ι Id : Type} [DecidableEq Id]

def createSession : Action Id → Stage Id → Finset Id → Option (Stage Id × Finset Id × Move)
  | .takeGate, .lock, live => some (.count, live, .take)
  | .readCount, .count, live => some (.decide live.card, live, .stay)
  | .refuse, .decide count, live =>
    if count ≥ MAX_SESSIONS then some (.leave (.error .capReached), live, .stay) else none
  | .create outcome, .decide count, live =>
    if count ≥ MAX_SESSIONS then none
    else match outcome with
      | .error e => some (.leave (.error (.inner e)), live, .stay)
      | .ok id => if id ∈ live then none else some (.leave (.ok id), insert id live, .stay)
  | .releaseGate, .leave result, live => some (.returned result, live, .leave)
  | .cancel, .returned _, _ | .cancel, .cancelled, _ => none
  | .cancel, _, live => some (.cancelled, live, .leave)
  | _, _, _ => none

def remove : Removal Id → Finset Id → Finset Id
  | .close id, live => live.erase id
  | .expire ids, live => live \ ids

/-- Calls of `create_session` among closes and expiries. -/
def manager : Protocol ι (Stage Id) (Action Id) (Removal Id) (Finset Id) where
  next _ a stage live := createSession a stage live
  outside b live := some (remove b live)

/-- All that a step of a call does. -/
inductive CallStep : Action Id → Stage Id → Finset Id → Stage Id → Finset Id → Move → Prop
  | takeGate {live : Finset Id} : CallStep .takeGate .lock live .count live .take
  | readCount {live : Finset Id} : CallStep .readCount .count live (.decide live.card) live .stay
  | refuse {live : Finset Id} {count : Nat} (h : MAX_SESSIONS ≤ count) :
      CallStep .refuse (.decide count) live (.leave (.error .capReached)) live .stay
  | fail {live : Finset Id} {count : Nat} (e : String) :
      CallStep (.create (.error e)) (.decide count) live (.leave (.error (.inner e))) live .stay
  | create {live : Finset Id} {count : Nat} {id : Id} (h : count < MAX_SESSIONS) (hid : id ∉ live) :
      CallStep (.create (.ok id)) (.decide count) live (.leave (.ok id)) (insert id live) .stay
  | releaseGate {live : Finset Id} {result : Except CappedSessionError Id} :
      CallStep .releaseGate (.leave result) live (.returned result) live .leave
  | cancel {live : Finset Id} {stage : Stage Id} :
    CallStep .cancel stage live .cancelled live .leave

theorem callStep_of {a : Action Id} {stage stage' : Stage Id} {live live' : Finset Id} {m : Move}
    (h : createSession a stage live = some (stage', live', m)) :
    CallStep a stage live stage' live' m := by
  cases a with
  | takeGate =>
    cases stage with
    | lock =>
      cases h
      exact .takeGate
    | _ => cases h
  | readCount =>
    cases stage with
    | count =>
      cases h
      exact .readCount
    | _ => cases h
  | refuse =>
    cases stage with
    | decide count =>
      rw [createSession] at h
      split_ifs at h with hfull
      cases h
      exact .refuse hfull
    | _ => cases h
  | create outcome =>
    cases stage with
    | decide count =>
      cases outcome with
      | error e =>
        simp only [createSession] at h
        split_ifs at h
        cases h
        exact .fail e
      | ok id =>
        simp only [createSession] at h
        split_ifs at h with hfull hid
        cases h
        exact .create (not_le.mp hfull) hid
    | _ => cases h
  | releaseGate =>
    cases stage with
    | leave result =>
      cases h
      exact .releaseGate
    | _ => cases h
  | cancel =>
    cases stage with
    | returned result => cases h
    | cancelled => cases h
    | _ =>
      cases h
      exact .cancel

theorem remove_subset (b : Removal Id) (live : Finset Id) : remove b live ⊆ live := by
  cases b with
  | close id => exact Finset.erase_subset id live
  | expire ids => exact Finset.sdiff_subset

end Create

section Run

variable {ι Id : Type} [DecidableEq ι] [DecidableEq Id]

abbrev SessionEvent (ι Id : Type) := Event ι (Action Id) (Removal Id)
abbrev System (ι Id : Type) := Gated ι (Stage Id) (Finset Id)

/-- Between taking the gate and dropping it. -/
def Inside : Stage Id → Prop
  | .count | .decide _ | .leave _ => True
  | _ => False

omit [DecidableEq ι] in
theorem disciplined : (@manager ι Id _).Disciplined Inside := by
  constructor
  · intro i a l x l' x' h hin
    generalize hm : Move.stay = m at h
    cases callStep_of h with
    | readCount | refuse | fail | create => trivial
    | takeGate | releaseGate | cancel => cases hm
  · intro i a l x l' x' h hin
    generalize hm : Move.leave = m at h
    cases callStep_of h with
    | releaseGate | cancel => exact hin
    | takeGate | readCount | refuse | fail | create => cases hm

/-- A step is a step of a call, or sessions go. -/
theorem callStep_of_step {s s' : System ι Id} {ev : SessionEvent ι Id} (h : manager.Step s ev s') :
    (∃ i a m stage stage' live live', ev = .task i a ∧ Goes s s' i stage stage' live live' ∧
      CallStep a stage live stage' live' m) ∨
    ∃ b, ev = .outside b ∧ s'.shared ⊆ s.shared ∧ s'.stage = s.stage := by
  cases ev with
  | task i a =>
    obtain ⟨stage, stage', live, live', m, hnext, hgoes⟩ := goes_of_step h
    exact .inl ⟨i, a, m, stage, stage', live, live', rfl, hgoes, callStep_of hnext⟩
  | outside b =>
    obtain ⟨hstage, -, hshared⟩ := step_outside h
    refine .inr ⟨b, rfl, ?_, hstage⟩
    rw [← Option.some.inj hshared]
    exact remove_subset b s.shared

/-- After it has added its session, a call can only report it or be cancelled. -/
def Made : Stage Id → Prop
  | .leave (.ok _) | .returned (.ok _) | .cancelled => True
  | _ => False

/-- A call that is or was about to report that there is no room. -/
def Refused (stage : Stage Id) : Prop :=
  stage = .leave (.error .capReached) ∨ stage = .returned (.error .capReached)

variable {start s : System ι Id} {log : List (SessionEvent ι Id)}

/-- The state when a call read its count. -/
def ReadAt (start : System ι Id) (log : List (SessionEvent ι Id)) (i : ι) (count : Nat) : Prop :=
  ∃ before after u, log = before ++ .task i .readCount :: after ∧ Run manager.Step start before u ∧
    u.shared.card = count

omit [DecidableEq Id] in
theorem ReadAt.snoc [DecidableEq Id] {i : ι} {count : Nat} {ev : SessionEvent ι Id}
    (h : ReadAt start log i count) :
    ReadAt start (log ++ [ev]) i count := by
  obtain ⟨before, after, u, rfl, hrun, hcard⟩ := h
  exact ⟨before, after ++ [ev], u, by simp, hrun, hcard⟩

/-- What holds in every state of a run. A count that a call has read may be out
of date, but then it is too high. -/
structure Bounded (start : System ι Id) (log : List (SessionEvent ι Id))
    (s : System ι Id) : Prop where
  guarded : Guarded Inside s
  cap : s.shared.card ≤ MAX_SESSIONS
  counted : ∀ i count, s.stage i = .decide count →
    s.shared.card ≤ count ∧ count ≤ MAX_SESSIONS ∧ ReadAt start log i count
  refused : ∀ i, Refused (s.stage i) → ReadAt start log i MAX_SESSIONS
  made : ∀ i id, .task i (.create (.ok id)) ∈ log → Made (s.stage i)

theorem Bounded.removed {s' : System ι Id} {ev : SessionEvent ι Id} (h : Bounded start log s)
    (hguarded : Guarded Inside s') (hev : ∀ i a, ev ≠ .task i a) (hlive : s'.shared ⊆ s.shared)
    (hstage : s'.stage = s.stage) : Bounded start (log ++ [ev]) s' := by
  have hcard := Finset.card_le_card hlive
  refine ⟨hguarded, hcard.trans h.cap, fun i count hi => ?_, fun i hi => ?_, fun i id hmem => ?_⟩
  · rw [hstage] at hi
    obtain ⟨hle, hmax, hread⟩ := h.counted i count hi
    exact ⟨hcard.trans hle, hmax, hread.snoc⟩
  · rw [hstage] at hi
    exact (h.refused i hi).snoc
  · rw [hstage]
    apply h.made i id
    simpa [(hev _ _).symm] using hmem

section Called

variable {s' : System ι Id} {i : ι} {a : Action Id} {stage stage' : Stage Id}
  {live live' : Finset Id} {m : Move}

/-- The one session that a call adds is one more than it has counted at most. -/
theorem Bounded.cap_called (h : Bounded start log s) (hgoes : Goes s s' i stage stage' live live')
    (hcall : CallStep a stage live stage' live' m) : s'.shared.card ≤ MAX_SESSIONS := by
  have hcap := h.cap
  have hcounted := h.counted i
  rw [hgoes.stage, hgoes.shared] at hcounted
  rw [hgoes.shared] at hcap
  rw [hgoes.shared']
  cases hcall with
  | create hroom hid =>
    have hcount := (hcounted _ rfl).1
    rw [Finset.card_insert_of_notMem hid]
    omega
  | _ => exact hcap

theorem Bounded.counted_called (h : Bounded start log s) (hrun : Run manager.Step start log s)
    (hgoes : Goes s s' i stage stage' live live') (hcall : CallStep a stage live stage' live' m) :
    ∀ j count, s'.stage j = .decide count → s'.shared.card ≤ count ∧ count ≤ MAX_SESSIONS ∧
      ReadAt start (log ++ [.task i a]) j count := by
  intro j count hj
  rw [hgoes.shared']
  obtain ⟨rfl, hstage⟩ | ⟨hji, hstage⟩ := hgoes.cases j
  all_goals rw [hstage] at hj
  · subst hj
    have hcap := h.cap
    have hlive := congrArg Finset.card hgoes.shared
    cases hcall with
    | readCount => exact ⟨le_rfl, hlive ▸ hcap, log, [], s, rfl, hrun, hlive⟩
  · obtain ⟨hle, hmax, hread⟩ := h.counted j count hj
    rw [hgoes.shared] at hle
    refine ⟨?_, hmax, hread.snoc⟩
    cases hcall with
    | create => exact absurd (hgoes.unique h.guarded trivial (by rw [hj]; trivial)) hji
    | _ => exact hle

theorem Bounded.refused_called (h : Bounded start log s)
    (hgoes : Goes s s' i stage stage' live live') (hcall : CallStep a stage live stage' live' m) :
    ∀ j, Refused (s'.stage j) → ReadAt start (log ++ [.task i a]) j MAX_SESSIONS := by
  intro j hj
  obtain ⟨rfl, hstage⟩ | ⟨hji, hstage⟩ := hgoes.cases j
  all_goals rw [hstage] at hj
  · cases hcall with
    | refuse hfull =>
      obtain ⟨-, hmax, hread⟩ := h.counted j _ hgoes.stage
      exact (le_antisymm hmax hfull ▸ hread).snoc
    | releaseGate =>
      refine (h.refused j ?_).snoc
      rw [hgoes.stage]
      simpa [Refused] using hj
    | takeGate | readCount | fail | create | cancel => simp [Refused] at hj
  · exact (h.refused j hj).snoc

theorem Bounded.made_called (h : Bounded start log s)
    (hgoes : Goes s s' i stage stage' live live') (hcall : CallStep a stage live stage' live' m) :
    ∀ j id, .task j (.create (.ok id)) ∈ log ++ [.task i a] → Made (s'.stage j) := by
  intro j id hmem
  obtain ⟨rfl, hstage⟩ | ⟨hji, hstage⟩ := hgoes.cases j
  all_goals rw [hstage]
  · have hmade (hmem : .task j (.create (.ok id)) ∈ log) : Made stage :=
      hgoes.stage ▸ h.made j id hmem
    simp only [List.mem_append, List.mem_singleton, Event.task.injEq, true_and] at hmem
    cases hcall with
    | create => trivial
    | takeGate | readCount | refuse | fail => exact (hmade (by simpa using hmem)).elim
    | @releaseGate _ result =>
      cases result with
      | ok id => trivial
      | error e => exact (hmade (by simpa using hmem)).elim
    | cancel => trivial
  · apply h.made j id
    simpa [hji] using hmem

end Called

theorem Bounded.step {s' : System ι Id} {ev : SessionEvent ι Id} (h : Bounded start log s)
    (hrun : Run manager.Step start log s) (hs : manager.Step s ev s') :
    Bounded start (log ++ [ev]) s' := by
  have hguarded := h.guarded.step disciplined hs
  obtain ⟨i, a, m, stage, stage', live, live', rfl, hgoes, hcall⟩ | ⟨b, rfl, hlive, hstage⟩ :=
    callStep_of_step hs
  · constructor
    · exact hguarded
    · exact h.cap_called hgoes hcall
    · exact h.counted_called hrun hgoes hcall
    · exact h.refused_called hgoes hcall
    · exact h.made_called hgoes hcall
  · exact h.removed hguarded (fun _ _ => nofun) hlive hstage

def initial : System ι Id := ⟨fun _ => .lock, none, ∅⟩

theorem bounded_of_run (h : Run manager.Step initial log s) : Bounded initial log s := by
  induction h with
  | nil =>
    refine ⟨fun i hi => absurd hi id, Nat.zero_le _, ?_, ?_, by simp⟩
    · intro i count hi
      cases hi
    · rintro i (hi | hi)
      · cases hi
      · cases hi
  | snoc hrun hs ih => exact ih.step hrun hs

/-- Only a call that adds its session changes what is live. -/
theorem shared_of_step {s' : System ι Id} {i : ι} {a : Action Id}
    (hs : manager.Step s (.task i a) s')
    (h : ∀ id, a ≠ .create (.ok id)) : s'.shared = s.shared := by
  obtain ⟨i', a', m, stage, stage', live, live', hev, hgoes, hcall⟩ | ⟨b, hev, -⟩ :=
    callStep_of_step hs
  · cases hev
    rw [hgoes.shared, hgoes.shared']
    cases hcall with
    | @create _ _ id => exact absurd rfl (h id)
    | _ => rfl
  · cases hev

/-- The cap holds in a state reached after the given steps, and a call is turned
away only from a full house, and without a trace. -/
structure Capped (log : List (SessionEvent ι Id)) (s : System ι Id) : Prop where
  cap : s.shared.card ≤ MAX_SESSIONS
  refused : ∀ i, Refused (s.stage i) → ReadAt initial log i MAX_SESSIONS
  unchanged : ∀ i, Refused (s.stage i) → ∀ before a after u u', log = before ++ .task i a :: after →
    Run manager.Step initial before u → manager.Step u (.task i a) u' → u'.shared = u.shared

theorem sessions_capped (log : List (SessionEvent ι Id)) (s : System ι Id)
    (h : Run manager.Step initial log s) : Capped log s := by
  have hinv := bounded_of_run h
  refine ⟨hinv.cap, hinv.refused, fun i hi before a after u u' hlog _ hs =>
    shared_of_step hs fun id ha => ?_⟩
  have hmade := hinv.made i id (by simp [hlog, ha])
  obtain hi | hi := hi
  · rw [hi] at hmade
    exact hmade
  · rw [hi] at hmade
    exact hmade

end Run

/-- Two calls want the gate, one of them creates a session, which is closed
before the other one counts. -/
def sampleLog : List (SessionEvent Bool Nat) :=
  [.task true .takeGate, .task true .readCount, .task true (.create (.ok 7)),
    .task true .releaseGate, .task false .takeGate, .outside (.close 7), .task false .readCount,
      .task false .cancel]

theorem sessions_capped_sample : ∃ s, Run manager.Step initial sampleLog s ∧
    s.stage true = .returned (.ok 7) ∧ s.gate = none ∧ Capped sampleLog s := by
  have hafter : (manager.after initial sampleLog).any (fun s =>
      decide (s.stage true = .returned (.ok 7) ∧ s.gate = none)) := by
    decide
  obtain ⟨s, hs, hdone⟩ := (Option.any_eq_true _ _).mp hafter
  obtain ⟨htrue, hgate⟩ := of_decide_eq_true hdone
  have hrun := run_of_after hs
  exact ⟨s, hrun, htrue, hgate, sessions_capped sampleLog s hrun⟩

end CardDavMcp.SessionCap

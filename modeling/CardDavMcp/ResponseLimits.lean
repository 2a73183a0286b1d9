import CardDavMcp.DavClient
import CardDavMcp.Library.Streams

namespace CardDavMcp.ResponseLimits

open Library.Streams DavError DavClient

/-- The length that a response announces, if its header says one. -/
def announcedLength (response : RawResponse) : Option Nat :=
  response.contentLength.bind headerToStr >>= parseU64

def U64_MAX : Nat := 2 ^ 64 - 1

/-- The sum of two lengths, which stops at the greatest one. -/
def saturatingAdd (usizeMax a b : Nat) : Nat := min (a + b) usizeMax

def u64TryFrom (n : Nat) : Option Nat := if n ≤ U64_MAX then some n else none

/-- A subtraction of lengths, if it does not go below zero. -/
def checkedSub (a b : Nat) : Option Nat := if b ≤ a then some (a - b) else none

/-- The slice `bytes[..n]`, if it is in range. -/
def sliceTo (bytes : Bytes) (n : Nat) : Option Bytes :=
  if n ≤ bytes.length then some (bytes.take n) else none

def readPrefixChunks (maxBytes : Nat) (body : Bytes) (chunks : List (Except String Bytes)) :
    Option Bytes :=
  if body.length < maxBytes then
    match chunks with
    | [] => some body
    | .error _ :: _ => some body
    | .ok chunk :: rest => do
      let remaining ← checkedSub maxBytes body.length
      let head ← sliceTo chunk (min chunk.length remaining)
      if chunk.length ≥ remaining then some (body ++ head)
      else readPrefixChunks maxBytes (body ++ head) rest
  else some body

/-- The first bytes of a body. There is no result if an index is out of range. -/
def readPrefix (response : RawResponse) (maxBytes : Nat) : Option Bytes :=
  readPrefixChunks maxBytes [] response.chunks

/-- The loop of `readLimited`, given how it finds that a chunk is too much. -/
def cappedLoop (exceeds : Nat → Nat → Bool) : Loop String UInt8 (Except CardDavError Bytes) where
  goesOn _ := true
  onEnd body := .ok body
  onFailure _ e := .error (.http e)
  onChunk body chunk :=
    if exceeds body.length chunk.length then .done (.error .tooLarge) else .more (body ++ chunk)

def limitedLoop (maxBytes : Nat) : Loop String UInt8 (Except CardDavError Bytes) :=
  cappedLoop fun body chunk => body + chunk > maxBytes

/-- The loop in the arithmetic of a machine. -/
def machineLoop (usizeMax maxBytes : Nat) : Loop String UInt8 (Except CardDavError Bytes) :=
  cappedLoop fun body chunk =>
    let nextLen := saturatingAdd usizeMax body chunk
    (u64TryFrom nextLen).getD U64_MAX > maxBytes

/-- The loop of `readPrefix`. -/
def prefixLoop (maxBytes : Nat) : Loop String UInt8 (Option Bytes) where
  goesOn body := body.length < maxBytes
  onEnd body := some body
  onFailure body _ := some body
  onChunk body chunk :=
    match checkedSub maxBytes body.length with
    | none => .done none
    | some remaining =>
      match sliceTo chunk (min chunk.length remaining) with
      | none => .done none
      | some head =>
        if chunk.length ≥ remaining then .done (some (body ++ head)) else .more (body ++ head)

/-- What the end of a stream makes of its bytes. -/
def delivered (body : Bytes) : Option String → Except CardDavError Bytes
  | none => .ok body
  | some e => .error (.http e)

/-- The purpose of the loop of `readLimited`, for a stream as a whole. -/
def limitedTo (maxBytes : Nat) (body : Bytes) (ending : Option String) :
    Except CardDavError Bytes :=
  if maxBytes < body.length then .error .tooLarge else delivered body ending

theorem readChunks_eq_run (maxBytes : Nat) (body : Bytes) (chunks : List (Except String Bytes)) :
    readChunks maxBytes body chunks = (limitedLoop maxBytes).run body chunks := by
  induction chunks generalizing body with
  | nil => rfl
  | cons chunk rest ih =>
    cases chunk with
    | error e => rfl
    | ok chunk =>
      rw [readChunks, ih]
      by_cases hover : body.length + chunk.length > maxBytes
      · simp [Loop.run, limitedLoop, cappedLoop, hover]
      · simp [Loop.run, limitedLoop, cappedLoop, hover]

/-- The loop refuses a stream exactly if it is too long as a whole. -/
theorem limitedLoop_decides (maxBytes : Nat) :
    (limitedLoop maxBytes).Decides (limitedTo maxBytes) (·.length ≤ maxBytes) where
  onEnd body hbody := (if_neg hbody.not_gt).symm
  onFailure body e hbody _ := (if_neg hbody.not_gt).symm
  enough _ _ _ _ h := by cases h
  more body chunk body' _ _ h := by
    rw [limitedLoop, cappedLoop] at h
    dsimp only at h
    split_ifs at h with hover
    obtain rfl := Turn.more.inj h
    exact ⟨rfl, by simpa using hover⟩
  done body chunk later ending result _ _ h := by
    rw [limitedLoop, cappedLoop] at h
    dsimp only at h
    split_ifs at h with hover
    obtain rfl := Turn.done.inj h
    have hover := of_decide_eq_true hover
    refine (if_pos ?_).symm
    simp only [List.length_append]
    omega

theorem checkedSub_of_le {a b : Nat} (h : b ≤ a) : checkedSub a b = some (a - b) := if_pos h

theorem sliceTo_min (bytes : Bytes) (n : Nat) :
    sliceTo bytes (min bytes.length n) = some (bytes.take n) := by
  rw [sliceTo, if_pos (Nat.min_le_left _ _), Nat.min_comm, ← List.take_eq_take_min]

/-- As long as there is room, the length and the slice are in range. -/
theorem prefixLoop_onChunk {maxBytes : Nat} {body : Bytes} (h : body.length ≤ maxBytes)
    (chunk : Bytes) : (prefixLoop maxBytes).onChunk body chunk =
      if chunk.length ≥ maxBytes - body.length then
        .done (some (body ++ chunk.take (maxBytes - body.length)))
      else .more (body ++ chunk) := by
  rw [prefixLoop]
  dsimp only
  rw [checkedSub_of_le h]
  dsimp only
  rw [sliceTo_min]
  dsimp only
  split_ifs with hfull
  · rfl
  · rw [List.take_of_length_le (by omega)]

theorem readPrefixChunks_eq_run (maxBytes : Nat) (body : Bytes)
    (chunks : List (Except String Bytes)) :
    readPrefixChunks maxBytes body chunks = (prefixLoop maxBytes).run body chunks := by
  induction chunks generalizing body with
  | nil => simp [readPrefixChunks, Loop.run, prefixLoop]
  | cons chunk rest ih =>
    cases chunk with
    | error e => simp [readPrefixChunks, Loop.run, prefixLoop]
    | ok chunk =>
      rw [readPrefixChunks, Loop.run]
      by_cases hroom : body.length < maxBytes
      · have hgoes : (prefixLoop maxBytes).goesOn body = true := decide_eq_true hroom
        rw [if_pos hroom, if_pos hgoes, prefixLoop_onChunk hroom.le, checkedSub_of_le hroom.le,
          Option.bind_eq_bind, Option.bind_some, sliceTo_min, Option.bind_eq_bind,
          Option.bind_some]
        split_ifs with hfull
        · rfl
        · rw [List.take_of_length_le (by omega), ih]
      · have hgoes : (prefixLoop maxBytes).goesOn body = false := decide_eq_false hroom
        rw [if_neg hroom, if_neg (by simp [hgoes])]
        rfl

/-- The loop cuts a stream where it is cut as a whole. -/
theorem prefixLoop_decides (maxBytes : Nat) :
    (prefixLoop maxBytes).Decides (fun body _ => some (body.take maxBytes))
      (·.length ≤ maxBytes) where
  onEnd body hbody := congrArg some (List.take_of_length_le hbody).symm
  onFailure body e hbody _ := congrArg some (List.take_of_length_le hbody).symm
  enough body later _ hbody h := by
    have hfull : ¬ body.length < maxBytes := of_decide_eq_false h
    have hlength : body.length = maxBytes := by omega
    exact congrArg some (List.take_left' hlength).symm
  more body chunk body' hbody _ h := by
    rw [prefixLoop_onChunk hbody] at h
    split_ifs at h with hfull
    obtain rfl := Turn.more.inj h
    refine ⟨rfl, ?_⟩
    rw [List.length_append]
    omega
  done body chunk later _ result hbody _ h := by
    rw [prefixLoop_onChunk hbody] at h
    split_ifs at h with hfull
    obtain rfl := Turn.done.inj h
    rw [List.take_append, List.take_of_length_le hbody, List.take_append_of_le_length hfull]

/-- What a response announces does not exceed the cap. -/
def AnnouncedWithin (maxBytes : Nat) (response : RawResponse) : Prop :=
  ∀ len, announcedLength response = some len → len ≤ maxBytes

theorem readLimited_of_within {maxBytes : Nat} {response : RawResponse}
    (h : AnnouncedWithin maxBytes response) : readLimited response maxBytes =
      limitedTo maxBytes (received response.chunks) (failure response.chunks) := by
  have hlen : ¬ (announcedLength response).any (· > maxBytes) = true := by
    simpa [AnnouncedWithin, Option.any_eq_true] using h
  have hempty : ([] : Bytes).length ≤ maxBytes := Nat.zero_le maxBytes
  have hrun := (limitedLoop_decides maxBytes).run hempty response.chunks
  rw [readLimited, ← announcedLength, if_neg hlen, readChunks_eq_run, hrun, List.nil_append]

theorem readLimited_of_announced {maxBytes : Nat} {response : RawResponse}
    (h : ¬ AnnouncedWithin maxBytes response) :
    readLimited response maxBytes = .error .tooLarge := by
  have hlen : (announcedLength response).any (· > maxBytes) = true := by
    simpa [AnnouncedWithin, Option.any_eq_true] using h
  rw [readLimited, ← announcedLength, if_pos hlen]

theorem readPrefix_eq (maxBytes : Nat) (response : RawResponse) :
    readPrefix response maxBytes = some ((received response.chunks).take maxBytes) := by
  have hempty : ([] : Bytes).length ≤ maxBytes := Nat.zero_le maxBytes
  have hrun := (prefixLoop_decides maxBytes).run hempty response.chunks
  rw [readPrefix, readPrefixChunks_eq_run, hrun, List.nil_append]

section Whole

variable {maxBytes : Nat} {body : Bytes} {ending : Option String}

theorem limitedTo_eq_ok {body' : Bytes} : limitedTo maxBytes body ending = .ok body' ↔
    ending = none ∧ body.length ≤ maxBytes ∧ body' = body := by
  by_cases hover : maxBytes < body.length
  · rw [limitedTo, if_pos hover]
    simp [hover.not_ge]
  · rw [limitedTo, if_neg hover]
    cases ending <;> simp [delivered, not_lt.mp hover, eq_comm]

theorem limitedTo_eq_tooLarge :
    limitedTo maxBytes body ending = .error .tooLarge ↔ maxBytes < body.length := by
  by_cases hover : maxBytes < body.length
  · rw [limitedTo, if_pos hover]
    simp [hover]
  · rw [limitedTo, if_neg hover]
    cases ending <;> simp [delivered, hover]

theorem limitedTo_eq_http {message : String} :
    limitedTo maxBytes body ending = .error (.http message) ↔
      ending = some message ∧ body.length ≤ maxBytes := by
  by_cases hover : maxBytes < body.length
  · rw [limitedTo, if_pos hover]
    simp [hover.not_ge]
  · rw [limitedTo, if_neg hover]
    cases ending <;> simp [delivered, not_lt.mp hover]

end Whole

section Response

variable {maxBytes : Nat} {response : RawResponse}

theorem readLimited_eq_ok {body : Bytes} : readLimited response maxBytes = .ok body ↔
    AnnouncedWithin maxBytes response ∧ ∃ parts : List Bytes,
      response.chunks = parts.map .ok ∧ parts.flatten.length ≤ maxBytes ∧
        body = parts.flatten := by
  by_cases hwithin : AnnouncedWithin maxBytes response
  · rw [readLimited_of_within hwithin, limitedTo_eq_ok, failure_eq_none, and_iff_right hwithin]
    constructor
    · rintro ⟨⟨parts, hparts⟩, hlen, rfl⟩
      rw [hparts, received_map] at hlen ⊢
      exact ⟨parts, rfl, hlen, rfl⟩
    · rintro ⟨parts, hparts, hlen, rfl⟩
      rw [hparts, received_map]
      exact ⟨⟨parts, rfl⟩, hlen, rfl⟩
  · rw [readLimited_of_announced hwithin]
    simp [hwithin]

theorem readLimited_eq_tooLarge : readLimited response maxBytes = .error .tooLarge ↔
    ¬ AnnouncedWithin maxBytes response ∨
    ∃ (parts : List Bytes) (chunk : Bytes) (later : List (Except String Bytes)),
      response.chunks = parts.map .ok ++ .ok chunk :: later ∧ parts.flatten.length ≤ maxBytes ∧
        maxBytes < parts.flatten.length + chunk.length := by
  by_cases hwithin : AnnouncedWithin maxBytes response
  · rw [readLimited_of_within hwithin, limitedTo_eq_tooLarge, lt_length_received,
      or_iff_right (not_not_intro hwithin)]
  · rw [readLimited_of_announced hwithin]
    simp [hwithin]

theorem readLimited_eq_http {message : String} :
    readLimited response maxBytes = .error (.http message) ↔
      AnnouncedWithin maxBytes response ∧
      ∃ (parts : List Bytes) (later : List (Except String Bytes)),
        response.chunks = parts.map .ok ++ .error message :: later ∧
          parts.flatten.length ≤ maxBytes := by
  by_cases hwithin : AnnouncedWithin maxBytes response
  · rw [readLimited_of_within hwithin, limitedTo_eq_http, failure_eq_some, and_iff_right hwithin]
    constructor
    · rintro ⟨⟨parts, later, hparts⟩, hlen⟩
      rw [hparts, received_append, received, List.append_nil] at hlen
      exact ⟨parts, later, hparts, hlen⟩
    · rintro ⟨parts, later, hparts, hlen⟩
      rw [hparts, received_append, received, List.append_nil]
      exact ⟨⟨parts, later, rfl⟩, hlen⟩
  · rw [readLimited_of_announced hwithin]
    simp [hwithin]

theorem readLimited_error {e : CardDavError} (h : readLimited response maxBytes = .error e) :
    e = .tooLarge ∨ ∃ message, e = .http message := by
  by_cases hwithin : AnnouncedWithin maxBytes response
  · rw [readLimited_of_within hwithin, limitedTo] at h
    split_ifs at h
    · exact .inl (Except.error.inj h).symm
    · cases hfailure : failure response.chunks with
      | none =>
        rw [hfailure] at h
        cases h
      | some message =>
        rw [hfailure] at h
        exact .inr ⟨message, (Except.error.inj h).symm⟩
  · rw [readLimited_of_announced hwithin] at h
    exact .inl (Except.error.inj h).symm

end Response

/-- The loop holds what has come in, as long as that is within the cap. -/
theorem limitedLoop_reaches {maxBytes : Nat} {chunks left : List (Except String Bytes)}
    {buffer : Bytes} : (limitedLoop maxBytes).Reaches [] chunks buffer left ↔
      ∃ parts : List Bytes, chunks = parts.map .ok ++ left ∧ buffer = parts.flatten ∧
        buffer.length ≤ maxBytes := by
  constructor
  · intro h
    have hempty : ([] : Bytes).length ≤ maxBytes := Nat.zero_le maxBytes
    obtain ⟨hlen, parts, hchunks, hbuffer⟩ := (limitedLoop_decides maxBytes).reaches hempty h
    exact ⟨parts, hchunks, hbuffer, hlen⟩
  · rintro ⟨parts, rfl, rfl, hlen⟩
    induction parts using List.reverseRecOn generalizing left with
    | nil => exact .start
    | append_singleton parts chunk ih =>
      have hflat : (parts ++ [chunk]).flatten = parts.flatten ++ chunk := by simp
      rw [hflat, List.length_append] at hlen
      rw [List.map_append, List.append_assoc, hflat]
      refine .turn (ih (by omega)) rfl (if_neg ?_)
      rw [decide_eq_true_eq]
      omega

theorem machine_exceeds {usizeMax maxBytes n : Nat}
    (h : maxBytes < min usizeMax U64_MAX ∨ n ≤ min usizeMax U64_MAX) :
    (u64TryFrom (min n usizeMax)).getD U64_MAX > maxBytes ↔ n > maxBytes := by
  rw [u64TryFrom]
  split_ifs
  · rw [Option.getD_some]
    omega
  · rw [Option.getD_none]
    omega

/-- The sums of the machine are those of `readChunks`, unless both the cap and the
body are out of range. -/
theorem machineLoop_run {usizeMax maxBytes : Nat} {body : Bytes}
    {chunks : List (Except String Bytes)} (h : maxBytes < min usizeMax U64_MAX ∨
      (body ++ received chunks).length ≤ min usizeMax U64_MAX) :
    (machineLoop usizeMax maxBytes).run body chunks = readChunks maxBytes body chunks := by
  induction chunks generalizing body with
  | nil => rfl
  | cons chunk rest ih =>
    cases chunk with
    | error e => rfl
    | ok chunk =>
      rw [received, ← List.append_assoc] at h
      have hsum : maxBytes < min usizeMax U64_MAX ∨
          body.length + chunk.length ≤ min usizeMax U64_MAX := by
        rw [List.length_append, List.length_append] at h
        omega
      have hexceeds := machine_exceeds hsum
      rw [readChunks, ← ih h]
      by_cases hover : body.length + chunk.length > maxBytes
      · simp [Loop.run, machineLoop, cappedLoop, saturatingAdd, hexceeds, hover]
      · simp [Loop.run, machineLoop, cappedLoop, saturatingAdd, hexceeds, hover]

/-- What the client reads of a response is within the cap and depends on its
bytes only. -/
structure SizeLimited (maxBytes : Nat) (response : RawResponse) : Prop where
  ok : ∀ body, readLimited response maxBytes = .ok body ↔
    AnnouncedWithin maxBytes response ∧ ∃ parts : List Bytes,
      response.chunks = parts.map .ok ∧ parts.flatten.length ≤ maxBytes ∧ body = parts.flatten
  tooLarge : readLimited response maxBytes = .error .tooLarge ↔
    ¬ AnnouncedWithin maxBytes response ∨
    ∃ (parts : List Bytes) (chunk : Bytes) (later : List (Except String Bytes)),
      response.chunks = parts.map .ok ++ .ok chunk :: later ∧ parts.flatten.length ≤ maxBytes ∧
        maxBytes < parts.flatten.length + chunk.length
  failed : ∀ message, readLimited response maxBytes = .error (.http message) ↔
    AnnouncedWithin maxBytes response ∧
    ∃ (parts : List Bytes) (later : List (Except String Bytes)),
      response.chunks = parts.map .ok ++ .error message :: later ∧ parts.flatten.length ≤ maxBytes
  /-- The buffers of the loop are what has come in, and never exceed the cap. -/
  buffers : ∀ buffer left, (limitedLoop maxBytes).Reaches [] response.chunks buffer left ↔
    ∃ parts : List Bytes, response.chunks = parts.map .ok ++ left ∧ buffer = parts.flatten ∧
      buffer.length ≤ maxBytes
  resumed : ∀ buffer left, (limitedLoop maxBytes).Reaches [] response.chunks buffer left →
    readChunks maxBytes [] response.chunks = readChunks maxBytes buffer left
  /-- The sums and conversions of a machine change nothing, if the cap or the body
  is in the range of its lengths. -/
  arithmetic : ∀ usizeMax, (maxBytes < min usizeMax U64_MAX ∨
      (received response.chunks).length ≤ min usizeMax U64_MAX) →
    (machineLoop usizeMax maxBytes).run [] response.chunks =
      readChunks maxBytes [] response.chunks
  snippet : readPrefix response maxBytes = some ((received response.chunks).take
    (min maxBytes (received response.chunks).length))
  chunking : ∀ (other : RawResponse) (parts parts' : List Bytes),
    response.chunks = parts.map .ok → other.chunks = parts'.map .ok →
    parts.flatten = parts'.flatten → response.contentLength = other.contentLength →
    readLimited response maxBytes = readLimited other maxBytes ∧
      readPrefix response maxBytes = readPrefix other maxBytes

/-- The result depends on the announced length and the stream as a whole. -/
theorem readLimited_congr {maxBytes : Nat} {response other : RawResponse}
    (hlength : response.contentLength = other.contentLength)
    (hreceived : received response.chunks = received other.chunks)
    (hfailure : failure response.chunks = failure other.chunks) :
    readLimited response maxBytes = readLimited other maxBytes := by
  have hannounced : AnnouncedWithin maxBytes response ↔ AnnouncedWithin maxBytes other := by
    rw [AnnouncedWithin, AnnouncedWithin, announcedLength, announcedLength, hlength]
  by_cases hwithin : AnnouncedWithin maxBytes response
  · rw [readLimited_of_within hwithin, readLimited_of_within (hannounced.mp hwithin), hreceived,
      hfailure]
  · rw [readLimited_of_announced hwithin, readLimited_of_announced (mt hannounced.mpr hwithin)]

theorem size_limits (maxBytes : Nat) (response : RawResponse) : SizeLimited maxBytes response where
  ok _ := readLimited_eq_ok
  tooLarge := readLimited_eq_tooLarge
  failed _ := readLimited_eq_http
  buffers _ _ := limitedLoop_reaches
  resumed buffer left h := by
    rw [readChunks_eq_run, readChunks_eq_run]
    exact h.run
  arithmetic _ h := machineLoop_run h
  snippet := by
    rw [readPrefix_eq, List.take_eq_take_min]
  chunking other parts parts' hparts hparts' hflat hlength := by
    have hreceived : received response.chunks = received other.chunks := by
      rw [hparts, hparts', received_map, received_map, hflat]
    have hfailure : failure response.chunks = failure other.chunks := by
      rw [hparts, hparts', failure_map, failure_map]
    exact ⟨readLimited_congr hlength hreceived hfailure,
      by rw [readPrefix_eq, readPrefix_eq, hreceived]⟩

example : readLimited { status := 207, chunks := [.ok [1, 2], .ok [], .ok [3]] } 3 =
    .ok [1, 2, 3] := rfl

example : readLimited { status := 207, chunks := [.ok [1, 2], .ok [3, 4], .error "reset"] } 3 =
    .error .tooLarge := rfl

example : readPrefix { status := 401, chunks := [.ok [1, 2], .ok [3, 4], .error "reset"] } 3 =
    some [1, 2, 3] := rfl

end CardDavMcp.ResponseLimits

import CardDavMcp.CardUpdates

namespace CardDavMcp.LostProperties

open Library.Utf8Text Library.Interaction Library.Runs Contact Vcard VcardFold VcardLines
    Urls DavClient
  ContactTools DavServer WriteContract CardUpdates

/-- The property name of a logical line, if it has one. -/
def nameOf (line : Text) : Option Text := (splitOnce ':' line).map fun p => propertyOf p.1

/-- A property that the builder does not write. -/
def Foreign (line : Text) : Prop := ∃ name, nameOf line = some name ∧ name ∉ propertyNames

/-- A new card has all that the old one says and an update cannot express. -/
structure Keeps (old new : Text) : Prop where
  lines : ∀ line ∈ unfoldVcardLines old, Foreign line → line ∈ unfoldVcardLines new
  birthday : (parseVcard new).birthday = (parseVcard old).birthday
  hasPhoto : (parseVcard new).hasPhoto = (parseVcard old).hasPhoto

theorem propertyOf_name :
    ∀ name ∈ propertyNames, propertyOf name = name ∧ ':' ∉ name := by decide +kernel

/-- A generated card has no foreign line. -/
theorem buildVcard_not_foreign {contact : ContactInput} {uid v : Text}
    (h : buildVcard contact uid = .ok v)
    {line : Text} (hline : line ∈ unfoldVcardLines v) : ¬ Foreign line := by
  rintro ⟨name, hname, hforeign⟩
  rw [unfold_buildVcard h, List.mem_append, List.mem_map, List.mem_singleton] at hline
  obtain ⟨⟨written, value⟩, hmem, rfl⟩ | rfl := hline
  · have hwritten := (mem_vcardProperties hmem).1
    obtain ⟨hproperty, hcolon⟩ := propertyOf_name written hwritten
    rw [nameOf, propertyLine, splitOnce_append hcolon, Option.map_some, Option.some.injEq] at hname
    rw [← hname, hproperty] at hforeign
    exact hforeign hwritten
  · cases hname

/-- The other properties say nothing about birthdays and photos. -/
theorem setProperty_frame {name : Text} (h : name ∈ propertyNames) (parsed : ParsedVcard)
    (value : Text) :
    (setProperty parsed name value).birthday = parsed.birthday ∧
      (setProperty parsed name value).hasPhoto = parsed.hasPhoto := by
  simp only [propertyNames, List.mem_cons, List.not_mem_nil, or_false] at h
  rcases h with rfl | rfl | rfl | rfl | rfl | rfl | rfl | rfl | rfl | rfl | rfl <;> exact ⟨rfl, rfl⟩

theorem parseLine_frame {line : Text} (h : ¬ Foreign line) (parsed : ParsedVcard) :
    (parseLine parsed line).birthday = parsed.birthday ∧
    (parseLine parsed line).hasPhoto = parsed.hasPhoto := by
  rw [parseLine]
  cases hsplit : splitOnce ':' line with
  | none => exact ⟨rfl, rfl⟩
  | some parts =>
    refine setProperty_frame ?_ parsed parts.2
    by_contra hforeign
    exact h ⟨_, by rw [nameOf, hsplit, Option.map_some], hforeign⟩

theorem parseLines_frame {lines : List Text} (h : ∀ line ∈ lines, ¬ Foreign line)
    (parsed : ParsedVcard) :
    (lines.foldl parseLine parsed).birthday = parsed.birthday ∧
      (lines.foldl parseLine parsed).hasPhoto = parsed.hasPhoto := by
  induction lines generalizing parsed with
  | nil => exact ⟨rfl, rfl⟩
  | cons line lines ih =>
    obtain ⟨hbirthday, hphoto⟩ :=
      ih (fun l hl => h l (List.mem_cons_of_mem _ hl)) (parseLine parsed line)
    obtain ⟨hbirthday', hphoto'⟩ := parseLine_frame (h line (List.mem_cons_self ..)) parsed
    exact ⟨hbirthday.trans hbirthday', hphoto.trans hphoto'⟩

/-- A generated card keeps what another one says exactly if there is nothing foreign to keep. -/
theorem keeps_iff {contact : ContactInput} {uid v : Text} (h : buildVcard contact uid = .ok v)
    (old : Text) :
    Keeps old v ↔ ∀ line ∈ unfoldVcardLines old, ¬ Foreign line := by
  constructor
  · intro hkeeps line hline hforeign
    exact buildVcard_not_foreign h (hkeeps.lines line hline hforeign) hforeign
  · intro hnone
    have hnew := parseLines_frame (fun line hline => buildVcard_not_foreign h hline)
      ({} : ParsedVcard)
    have hold := parseLines_frame hnone ({} : ParsedVcard)
    exact ⟨fun line hline hforeign => absurd hforeign (hnone line hline), hnew.1.trans hold.1.symm,
      hnew.2.trans hold.2.symm⟩

section Runs

variable {ρ ι : Type} [DecidableEq ρ] [DecidableEq ι] {locate : Url → ρ} {svc : CardDavMcpService}
  {updates : Updates ι} {start : Cards ρ} {log : Log ρ ι} {s : State ρ ι}

/-- An update that puts a card has read one, and the new card keeps what the
other says exactly if all of that is among the properties that are written. -/
theorem update_keeps_iff (svc : CardDavMcpService) (locate : Url → ρ) (updates : Updates ι)
    (start : Cards ρ)
    (log : Log ρ ι) (s : State ρ ι) (h : UpdateRun locate svc updates start log s) :
    ∀ a ev b request, log = a ++ ev :: b → Puts ev request →
      (∃ gev ∈ a, ∃ text, ReadsCard locate gev ev.call request.url text) ∧
      ∀ gev ∈ a, ∀ text, ReadsCard locate gev ev.call request.url text →
        (Keeps text request.body ↔ ∀ line ∈ unfoldVcardLines text, ¬ Foreign line) := by
  rintro a ev b request rfl hput
  obtain ⟨-, gev, hgev, text, uid, hreads, -, hbuild⟩ := put_from_read h hput
  exact ⟨⟨gev, hgev, text, hreads⟩, fun _ _ text' _ => keeps_iff hbuild text'⟩

end Runs

/-- The step in which the first of the two sample updates puts its card. -/
def samplePuts : Act (Cards Text) Bool Effect Reply := (sampleSteps false sampleCard)[2]

theorem samplePuts_puts : ∃ request, Puts samplePuts request ∧ request.url = plainUrl samplePath ∧
    request.body = samplePut :=
  ⟨_, ⟨⟨_, rfl⟩, rfl⟩, rfl, rfl⟩

theorem sample_reads :
    ReadsCard Url.path (sampleSteps false sampleCard)[1] false (plainUrl samplePath)
    sampleCard where
  call := rfl
  sent := ⟨_, _, rfl, rfl, rfl⟩
  stored := holding_self sampleCard

theorem update_keeps_sample : ∃ s : State Text Bool, UpdateRun Url.path plainService sampleUpdates
    (holding sampleCard) sampleLog s ∧ (Keeps sampleCard samplePut ↔
      ∀ line ∈ unfoldVcardLines sampleCard, ¬ Foreign line) := by
  obtain ⟨s, hrun, -⟩ := sample_runs
  obtain ⟨request, hput, hurl, hbody⟩ := samplePuts_puts
  have hkeeps :=
    (update_keeps_iff plainService Url.path sampleUpdates (holding sampleCard) sampleLog s hrun
      ((sampleSteps false sampleCard).take 2) samplePuts (sampleSteps true samplePut)
      request rfl hput).2
    _ (by simp [sampleSteps]) sampleCard (hurl ▸ sample_reads)
  exact ⟨s, hrun, hbody ▸ hkeeps⟩

/-- The sample update drops the birthday of the card. -/
theorem birthday_lost : ¬ ∀ (svc : CardDavMcpService) (updates : Updates Bool) (start : Cards Text)
    (log : Log Text Bool) (s : State Text Bool), UpdateRun Url.path svc updates start log s →
      ∀ a ev b request, log = a ++ ev :: b → Puts ev request →
        ∀ gev ∈ a, ∀ text, ReadsCard Url.path gev ev.call request.url text →
          Keeps text request.body := by
  intro h
  obtain ⟨s, hrun, -⟩ := sample_runs
  obtain ⟨request, hput, hurl, hbody⟩ := samplePuts_puts
  have hkeeps := h plainService sampleUpdates (holding sampleCard) sampleLog s hrun
    ((sampleSteps false sampleCard).take 2) samplePuts (sampleSteps true samplePut) request rfl hput
    _ (by simp [sampleSteps]) sampleCard (hurl ▸ sample_reads)
  have hbirthday := hkeeps.birthday
  rw [hbody] at hbirthday
  revert hbirthday
  decide +kernel

end CardDavMcp.LostProperties

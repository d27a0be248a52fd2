import FileService.Common.Delimited
import FileService.Interaction.Embedding
import FileService.Safety.IssuedSources

/-!
# Addresses of objects

A file source is taken apart into a user id, a time and a file id, and the key of
an object is built of them. The time passes through a number on the way: what is
lost is how its digits were written, and nothing else.
-/
namespace FileService.Safety.Addressing
open FileService.Common FileService.Common.Text FileService.Domain FileService.Interaction
open FileService.App FileService.Protocols FileService.Safety.IssuedKeys
open FileService.Safety.IssuedSources

/-! ## The digits of the time -/

/-- The text has these digits behind its second slash, up to a dash. -/
structure Timed (s : String) (user digits after : List Char) : Prop where
  chars : s.toList = '/' :: (user ++ '/' :: (digits ++ '-' :: after))
  noSlash : '/' ∉ user
  numeric : ∀ c ∈ digits, c.isDigit = true

/-- The time is written as a numeral: without a leading zero, and as a 64-bit number. -/
def CanonicalTime (s : String) : Prop :=
  ∃ user digits after, Timed s user digits after ∧ digits.head? ≠ some '0' ∧
    Decimal.value digits < 2 ^ 63

/-- The texts differ in the digits of their times at most, and `strtoll` takes these for the
same number. -/
def Respelled (s s' : String) : Prop :=
  ∃ user digits digits' after, Timed s user digits after ∧ Timed s' user digits' after ∧
    strtoll digits = strtoll digits'

section Spelling
variable {s s' : String} {digits digits' user after : List Char} {parts parts' : SourcePath}

theorem slash_notMem_segment {segment : String} (h : isSafeSegment segment = true) :
    '/' ∉ segment.toList := fun hmem =>
  (plain_of_segmentChar (segmentChar_of_safe h _ hmem)).1 rfl

theorem dash_notMem_digits (h : ∀ c ∈ digits, c.isDigit = true) : '-' ∉ digits := fun hmem =>
  absurd (h _ hmem) (by decide)

theorem timed_of_spelled (h : Spelled s digits parts) : Timed s parts.userId.toList digits
    (parts.timestamp.toList ++ '/' :: parts.fileId.toList) :=
  ⟨h.chars, slash_notMem_segment h.user, h.numeric⟩

/-- There is one way only to read the digits of the time. -/
theorem Timed.unique {user' after' : List Char} (h : Timed s user digits after)
    (h' : Timed s user' digits' after') : user = user' ∧ digits = digits' ∧ after = after' := by
  have hchars := h.chars.symm.trans h'.chars
  obtain ⟨huser, hrest⟩ := Delimited.append_inj_of_notMem h.noSlash h'.noSlash
    (List.cons_injective hchars)
  obtain ⟨hdigits, hafter⟩ := Delimited.append_inj_of_notMem (dash_notMem_digits h.numeric)
    (dash_notMem_digits h'.numeric) hrest
  exact ⟨huser, hdigits, hafter⟩

theorem canonicalTime_iff (h : Spelled s digits parts) :
    CanonicalTime s ↔ digits.head? ≠ some '0' ∧ Decimal.value digits < 2 ^ 63 := by
  constructor
  · rintro ⟨user, digits', after, htimed, hhead, hfits⟩
    obtain ⟨-, rfl, -⟩ := (timed_of_spelled h).unique htimed
    exact ⟨hhead, hfits⟩
  · rintro ⟨hhead, hfits⟩
    exact ⟨_, digits, _, timed_of_spelled h, hhead, hfits⟩

end Spelling

/-! ## From texts to parts and back -/

section RoundTrip
variable {s : String} {digits : List Char} {parts : SourcePath}

/-- Parts and a text that pass the checks are made into that text. -/
theorem makeFileSource_of_made (h : Made parts s) : makeFileSource parts = .ok s := by
  have hfile : ¬(!isSafeSegment parts.fileId || decide (maxFileIdLength < byteSize parts.fileId)) := by
    simp [h.file, h.fileLength]
  have hepoch : ¬parts.epochMillis ≤ 0 := not_le.mpr h.epoch
  have htext : "/" ++ parts.userId ++ "/" ++ toString parts.epochMillis ++ "-" ++ parts.timestamp ++
      "/" ++ parts.fileId = s := by
    apply String.toList_inj.mp
    rw [h.chars]
    simp [String.toList_append]
  have hlength : ¬maxFileSourceLength < byteSize s := not_lt.mpr h.length
  unfold makeFileSource
  simp only [h.user, h.timestamp, if_neg hfile, if_neg hepoch, htext, if_neg hlength]
  rfl

theorem toList_toString_natCast (m : Nat) : (toString (m : Int)).toList = Nat.toDigits 10 m :=
  Nat.toList_repr

/-- A spelled text is what its parts are made into just when its time is canonical. -/
theorem makeFileSource_iff (h : Spelled s digits parts) :
    makeFileSource parts = .ok s ↔ digits.head? ≠ some '0' ∧ Decimal.value digits < 2 ^ 63 := by
  have hepoch := h.epoch
  rw [strtoll_eq] at hepoch
  constructor
  · intro hmake
    have hmade := made_of_ok hmake
    have hpos := hmade.epoch
    have hchars := hmade.chars.symm.trans h.chars
    simp only [String.toList_append, List.append_assoc] at hchars
    obtain ⟨m, hm⟩ := Int.eq_ofNat_of_zero_le hpos.le
    have hsame := List.append_cancel_left (List.cons_injective hchars)
    rw [hm, toList_toString_natCast] at hsame
    have hnumeric : '-' ∉ Nat.toDigits 10 m := Decimal.notMem_toDigits (by decide)
    obtain ⟨hdigits, -⟩ := Delimited.append_inj_of_notMem hnumeric
      (dash_notMem_digits h.numeric) (List.cons_injective hsame)
    have hvalue := (Decimal.toDigits_value_iff h.numeric h.nonempty (by omega)).mp hdigits
    exact ⟨hvalue.2, by omega⟩
  · rintro ⟨hhead, hfits⟩
    obtain ⟨hpos, hdigits⟩ := Decimal.toDigits_value h.numeric h.nonempty hhead
    have hvalue : parts.epochMillis = (Decimal.value digits : Int) := by omega
    apply makeFileSource_of_made
    exact
      { user := h.user
        file := h.file
        fileLength := h.fileLength
        epoch := by omega
        timestamp := h.timestamp
        length := h.length
        chars := by
          rw [h.chars, hvalue, String.toList_append, String.toList_append,
            toList_toString_natCast, hdigits]
          simp }

end RoundTrip

/-! ## Keys -/

section Keys
variable {s s' : String} {digits digits' : List Char} {parts parts' : SourcePath}

theorem toList_makePosixKey (parts : SourcePath) : (makePosixKey parts).toList =
    parts.userId.toList ++ '/' :: ((toString parts.epochMillis).toList ++
      '-' :: (parts.timestamp.toList ++ '/' :: parts.fileId.toList)) := by
  simp [makePosixKey, String.toList_append]

theorem dash_notMem_epoch (h : Spelled s digits parts) :
    '-' ∉ (toString parts.epochMillis).toList := by
  have hnonneg : 0 ≤ parts.epochMillis := h.epoch ▸ strtoll_nonneg digits
  obtain ⟨m, hm⟩ := Int.eq_ofNat_of_zero_le hnonneg
  rw [hm, toList_toString_natCast]
  exact Decimal.notMem_toDigits (by decide)

/-- Two spelled texts have the same key just when one is the other with its time respelled. -/
theorem makePosixKey_eq_iff (h : Spelled s digits parts) (h' : Spelled s' digits' parts') :
    makePosixKey parts = makePosixKey parts' ↔ Respelled s s' := by
  constructor
  · intro hkey
    have hchars := congrArg String.toList hkey
    rw [toList_makePosixKey, toList_makePosixKey] at hchars
    obtain ⟨huser, hrest⟩ := Delimited.append_inj_of_notMem (slash_notMem_segment h.user)
      (slash_notMem_segment h'.user) hchars
    obtain ⟨hepoch, hafter⟩ := Delimited.append_inj_of_notMem (dash_notMem_epoch h)
      (dash_notMem_epoch h') hrest
    have hnumber := Decimal.toString_injective (String.toList_inj.mp hepoch)
    refine ⟨_, digits, digits', _, timed_of_spelled h, ?_, ?_⟩
    · rw [huser, hafter]
      exact timed_of_spelled h'
    · rw [← h.epoch, ← h'.epoch, hnumber]
  · rintro ⟨user, e, e', after, htimed, htimed', hnumber⟩
    obtain ⟨huser, rfl, hafter⟩ := (timed_of_spelled h).unique htimed
    obtain ⟨huser', rfl, hafter'⟩ := (timed_of_spelled h').unique htimed'
    apply String.toList_inj.mp
    rw [toList_makePosixKey, toList_makePosixKey, huser, huser', hafter, hafter', h.epoch, h'.epoch,
      hnumber]

end Keys

/-! ## Copies to a target -/

/-- The action makes such calls only, whatever the replies are. -/
def Confined {α : Type} (K : Port → Prop) (x : Domain.Action α) : Prop :=
  (ExceptT.run x).Uses K fun _ => True

/-- The call writes an object under the key that the target names, if it writes one. -/
def WritesAt (target : String) (op : Port) : Prop :=
  ∀ r, ∀ key ∈ writtenKeys ⟨op, r⟩, ∃ parts, parseFileSource target = .ok parts ∧
    key = makePosixKey parts

section Confinement
variable {α β : Type} {K : Port → Prop} {x : Domain.Action α} {f : α → Domain.Action β} {op : Port}

theorem confined_pure (a : α) : Confined K (pure a : Domain.Action α) := trivial

theorem confined_throw (exit : Exit) : Confined K (throw exit : Domain.Action α) := trivial

theorem Confined.bind (hx : Confined K x) (hf : ∀ a, Confined K (f a)) : Confined K (x >>= f) :=
  Program.uses_bind hx fun out _ => by
    cases out with
    | ok a => exact hf a
    | error exit => exact confined_throw exit

theorem confined_ask {f : op.Reply → Domain.Action β} (hop : K op) (hf : ∀ r, Confined K (f r)) :
    Confined K (Action.ask op >>= f) :=
  Confined.bind ⟨hop, fun _ => trivial⟩ hf

theorem confined_tryResult {f : α → Domain.Action β} {r : Result α} (hf : ∀ a, Confined K (f a)) :
    Confined K (Action.tryResult r >>= f) := by
  cases r with
  | ok a => exact hf a
  | error e => exact confined_throw _

theorem confined_result (r : Result α) : Confined K (Action.tryResult r) := by
  cases r with
  | ok a => exact confined_pure a
  | error e => exact confined_throw _

theorem confined_exitingWith {after : Except Exit α → Program ports (Except Exit β)}
    (hx : Confined K x) (hafter : ∀ out, (after out).Uses K fun _ => True) :
    Confined K (x.exitingWith after) :=
  Program.uses_bind hx fun out _ => hafter out

end Confinement

section Copy
variable {target : String} {u : UseCasePorts} {caller : CallerContext} {α : Type}

theorem writesAt_idle {op : Port} (hop : Idle op) : WritesAt target op := by
  intro r key hkey
  rw [writtenKeys_of_idle hop r] at hkey
  cases hkey

theorem writesAt_silent {op : Port} (hop : ∀ r, writtenKeys ⟨op, r⟩ = []) : WritesAt target op := by
  intro r key hkey
  rw [hop r] at hkey
  cases hkey

theorem confined_idle {x : Domain.Action α} (hx : IdleAction (fun _ => True) x) :
    Confined (WritesAt target) x :=
  Program.uses_mono (fun _ => writesAt_idle) (Program.Uses.forget hx)

theorem confined_audited {operation objectId : String} {body : Domain.Action (Option String × α)}
    (hbody : Confined (WritesAt target) body) :
    Confined (WritesAt target) (audited u caller operation objectId body) := by
  apply confined_exitingWith hbody
  intro out
  cases out with
  | ok result =>
    obtain ⟨successId, a⟩ := result
    cases successId with
    | none => exact Confined.bind (confined_idle (idle_recordFailure ..)) fun _ => confined_pure a
    | some id =>
      exact Confined.bind (confined_idle (idle_recordAudit (fun _ => trivial) ..)) fun _ =>
        confined_pure a
  | error exit =>
    have hrecorded : Confined (WritesAt target) (do
        recordFailure u (operation ++ "Failure") caller objectId
        throw exit : Domain.Action α) :=
      Confined.bind (confined_idle (idle_recordFailure ..)) fun _ => confined_throw exit
    cases exit with
    | diverged => trivial
    | error e => exact hrecorded
    | exception what => exact hrecorded

theorem confined_copyBetweenZones {partition : String} {source ref : ObjectRef}
    {sourceZone targetZone : StorageZone} {parts : SourcePath}
    (hparts : parseFileSource target = .ok parts) (hkey : ref.key = makePosixKey parts) :
    Confined (WritesAt target) (copyBetweenZones partition source ref sourceZone targetZone) := by
  have hwrites : ∀ {op : Port}, (∀ r, writtenKeys ⟨op, r⟩ = [ref.key]) → WritesAt target op := by
    intro op hop r key hmem
    rw [hop r, List.mem_singleton] at hmem
    exact ⟨parts, hparts, hmem.trans hkey⟩
  have hsilent : ∀ {op : Port}, (∀ r, writtenKeys ⟨op, r⟩ = []) → WritesAt target op :=
    writesAt_silent
  apply confined_ask (hsilent fun _ => rfl)
  intro fromStore
  apply confined_tryResult
  intro fromStore
  apply confined_ask (hsilent fun _ => rfl)
  intro toStore
  apply confined_tryResult
  intro toStore
  apply confined_ask (hsilent fun _ => rfl)
  intro ensured
  apply confined_tryResult
  intro _
  split
  · exact confined_ask (hwrites fun _ => rfl) confined_result
  · apply confined_ask (hsilent fun _ => rfl)
    intro stat
    apply confined_tryResult
    intro stat
    apply Confined.bind (confined_idle (idle_readAll (fun _ => trivial) ..))
    intro data
    apply confined_ask (hwrites fun _ => rfl)
    intro written
    apply confined_tryResult
    intro _
    exact confined_ask (hsilent fun _ => rfl) confined_result

/-- A server-side copy writes no other key than the one its target names, whatever becomes of it. -/
theorem confined_serverSideCopy {source : String} {zone : StorageZone} :
    Confined (WritesAt target) (serverSideCopy u caller source target zone) := by
  apply confined_audited
  apply Confined.bind (confined_idle (idle_authorizeCallerAny (fun _ => trivial) ..))
  intro _
  dsimp only
  split
  · exact confined_throw _
  split
  · exact confined_throw _
  apply confined_ask (writesAt_silent fun _ => rfl)
  intro found
  apply confined_tryResult
  intro sourceLocation
  apply Confined.bind (confined_idle (idle_objectRefFromLocation (fun _ => trivial) _))
  intro fromRef
  cases hparts : parseFileSource target with
  | error e => exact confined_throw _
  | ok parts =>
    apply confined_ask (writesAt_silent fun _ => rfl)
    intro config
    apply confined_tryResult
    intro container
    apply Confined.bind (confined_copyBetweenZones hparts rfl)
    intro stat
    exact confined_pure _

theorem writtenKeys_serverSideCopy {source : String} {zone : StorageZone} {t : Trace ports}
    {out : Except Exit ServerSideCopyResult} {parts : SourcePath}
    (hparts : parseFileSource target = .ok parts)
    (h : (serverSideCopy u caller source target zone).run.Emits t out) :
    ∀ key ∈ t.collected writtenKeys, key = makePosixKey parts := by
  intro key hkey
  obtain ⟨o, ho, hwritten⟩ := List.mem_flatMap.mp hkey
  obtain ⟨parts', hparts', rfl⟩ := (confined_serverSideCopy.emitted h).1 o ho o.reply key hwritten
  rw [hparts] at hparts'
  rw [Except.ok.inj hparts']

end Copy

/-! ## Addressing as a whole -/

/-- Texts that are taken apart are put together again just when their times are canonical; parts
that are put together are got back; two texts have the same key just when one respells the time of
the other; and that is just when a copy to the one writes the object of the other. -/
theorem addressing_exact (s : String) (parts : SourcePath) :
    (parseFileSource s = .ok parts → (makeFileSource parts = .ok s ↔ CanonicalTime s)) ∧
    (parts.epochMillis < 2 ^ 63 → makeFileSource parts = .ok s → parseFileSource s = .ok parts) ∧
    (∀ s' parts', parseFileSource s = .ok parts → parseFileSource s' = .ok parts' →
      (makePosixKey parts ≠ makePosixKey parts' ↔ ¬Respelled s s')) ∧
    ∀ u caller source target zone t out,
      (serverSideCopy u caller source target zone).run.Emits t out → t.collected writtenKeys ≠ [] →
        parseFileSource s = .ok parts →
          (makePosixKey parts ∉ t.collected writtenKeys ↔ ¬Respelled target s) := by
  refine ⟨?_, ?_, ?_, ?_⟩
  · intro h
    obtain ⟨digits, hspelled⟩ := parseFileSource_spelled h
    rw [makeFileSource_iff hspelled, canonicalTime_iff hspelled]
  · intro hfits h
    exact parseFileSource_of_made (made_of_ok h) hfits
  · intro s' parts' h h'
    obtain ⟨digits, hspelled⟩ := parseFileSource_spelled h
    obtain ⟨digits', hspelled'⟩ := parseFileSource_spelled h'
    rw [ne_eq, makePosixKey_eq_iff hspelled hspelled']
  · intro u caller source target zone t out hemits hwritten hother
    obtain ⟨key, hkey⟩ := List.exists_mem_of_ne_nil _ hwritten
    obtain ⟨o, ho, hkeyOf⟩ := List.mem_flatMap.mp hkey
    obtain ⟨own, hown, -⟩ := (confined_serverSideCopy.emitted hemits).1 o ho o.reply key hkeyOf
    have hall := writtenKeys_serverSideCopy hown hemits
    obtain ⟨digits, hspelled⟩ := parseFileSource_spelled hown
    obtain ⟨digits', hspelled'⟩ := parseFileSource_spelled hother
    rw [not_iff_not, ← makePosixKey_eq_iff hspelled hspelled']
    constructor
    · intro hmem
      exact (hall _ hmem).symm
    · intro hsame
      rw [← hsame, ← hall key hkey]
      exact hkey

deriving instance DecidableEq for SourcePath

/-- With and without a leading zero in its time, a text names the same object. -/
theorem leading_zero_same_key : ¬((∀ s parts, parseFileSource s = .ok parts →
      makeFileSource parts = .ok s) ∧
    ∀ s s' parts parts', parseFileSource s = .ok parts → parseFileSource s' = .ok parts' →
      s ≠ s' → makePosixKey parts ≠ makePosixKey parts') := by
  let parts : SourcePath :=
    { userId := "u", epochMillis := 1, timestamp := "2021-03-03-15-13-33-120", fileId := "f" }
  have hplain : parseFileSource "/u/1-2021-03-03-15-13-33-120/f" = .ok parts := by decide +kernel
  have hzero : parseFileSource "/u/01-2021-03-03-15-13-33-120/f" = .ok parts := by decide +kernel
  rintro ⟨-, hkeys⟩
  exact hkeys _ _ parts parts hplain hzero (by decide) rfl

end FileService.Safety.Addressing

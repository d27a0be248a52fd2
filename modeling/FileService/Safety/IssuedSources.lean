import FileService.Safety.IssuedKeys

/-!
# Issued file sources downstream

What an issue names is parsed back to the parts it was made of. Whether it is
accepted as a source depends on the user id alone, since the other parts have
no two dots in a row. A valid file id passes the check of segments unless it
has one of the characters that only the older pattern allows.
-/
namespace FileService.Safety.IssuedSources
open FileService.Common FileService.Common.Text FileService.Domain FileService.Interaction
open FileService.App FileService.Safety.IssuedKeys

/-! ## Segments -/

section Segments
variable {segment ts : String} {c : Char} {m : Nat}

/-- The characters of segments. -/
def isSegmentChar (c : Char) : Bool := c.isAlphanum || c == '.' || c == '_' || c == '-'

theorem segmentChar_of_safe (h : isSafeSegment segment = true) :
    ∀ c ∈ segment.toList, isSegmentChar c = true := by
  simp only [isSafeSegment, Bool.and_eq_true, List.all_eq_true] at h
  exact h.2

theorem segmentChar_of_digit (h : c.isDigit = true) : isSegmentChar c = true := by
  simp [isSegmentChar, Char.isAlphanum, h]

/-- Such a character is no separator and no rest of an encoding. -/
theorem plain_of_segmentChar (h : isSegmentChar c = true) :
    c ≠ '/' ∧ isControl c = false ∧ c ≠ '\\' ∧ c ≠ '%' := by
  have hne : ∀ d, isSegmentChar d = false → c ≠ d := by
    rintro d hd rfl
    rw [hd] at h
    cases h
  refine ⟨hne '/' (by decide), ?_, hne '\\' (by decide), hne '%' (by decide)⟩
  delta isSegmentChar Char.isAlphanum Char.isAlpha Char.isUpper Char.isLower Char.isDigit at h
  simp only [Bool.or_eq_true, Bool.and_eq_true, decide_eq_true_eq, beq_iff_eq,
    UInt32.le_iff_toNat_le] at h
  simp only [isControl, Bool.or_eq_false_iff, decide_eq_false_iff_not, beq_eq_false_iff_ne]
  change (((((65 ≤ c.toNat ∧ c.toNat ≤ 90) ∨ (97 ≤ c.toNat ∧ c.toNat ≤ 122)) ∨
    (48 ≤ c.toNat ∧ c.toNat ≤ 57)) ∨ c = '.') ∨ c = '_') ∨ c = '-' at h
  rcases h with ((h | rfl) | rfl) | rfl
  · omega
  all_goals decide

theorem segmentChar_of_timestamp (h : isTimestampShape ts = true) :
    ∀ c ∈ ts.toList, isSegmentChar c = true := by
  intro c hc
  obtain ⟨i, hi, hget⟩ := List.mem_iff_getElem.mp hc
  simp only [isTimestampShape, Bool.and_eq_true, List.all_eq_true] at h
  have hat := h.2 (c, i) (List.mem_zipIdx_iff_getElem?.mpr (by simp [List.getElem?_eq_getElem hi, hget]))
  dsimp only at hat
  split at hat
  · rw [eq_of_beq hat]
    decide
  · exact segmentChar_of_digit hat

/-- A number of at most 19 digits is read back. -/
theorem strtoll_toDigits (h : m < 2 ^ 63) : App.strtoll (Nat.toDigits 10 m) = m := by
  rw [strtoll_eq, Decimal.value, Nat.ofDigitChars_ten_toDigits]
  omega

theorem parseEpochAndTimestamp_of_parts (h : m < 2 ^ 63) (hts : isTimestampShape ts = true) :
    parseEpochAndTimestamp (toString (m : Int) ++ "-" ++ ts) = some ((m : Int), ts) := by
  have hdigits : ∀ c ∈ Nat.toDigits 10 m, c.isDigit = true := fun _ => Decimal.isDigit_of_mem
  have hchars : (toString (m : Int) ++ "-" ++ ts).toList =
      Nat.toDigits 10 m ++ '-' :: ts.toList := by
    have hm : (toString (m : Int)).toList = Nat.toDigits 10 m := Nat.toList_repr
    rw [String.toList_append, String.toList_append, hm]
    simp
  have htake : (Nat.toDigits 10 m ++ '-' :: ts.toList).takeWhile (· ≠ '-') = Nat.toDigits 10 m := by
    rw [List.takeWhile_append_of_pos]
    · simp
    · intro c hc
      have hne : c ≠ '-' := by
        rintro rfl
        exact absurd (hdigits _ hc) (by decide)
      simpa using hne
  have hlength : (Nat.toDigits 10 m).length ≤ 19 :=
    (Nat.length_toDigits_le_iff (by decide) (by decide)).mpr (by omega)
  have hsome : (Nat.toDigits 10 m).isEmpty = false := by simp
  have hall : (Nat.toDigits 10 m).all Char.isDigit = true := List.all_eq_true.mpr hdigits
  rw [parseEpochAndTimestamp]
  simp only [hchars, htake, List.drop_left, String.ofList_toList, hsome, hall, hts,
    strtoll_toDigits h]
  simp
  omega

end Segments

/-! ## Made file sources -/

section Made
variable {parts : SourcePath} {fs : String}

/-- What makes a file source has passed the checks. -/
structure Made (parts : SourcePath) (fs : String) : Prop where
  user : isSafeSegment parts.userId = true
  file : isSafeSegment parts.fileId = true
  fileLength : byteSize parts.fileId ≤ maxFileIdLength
  epoch : 0 < parts.epochMillis
  timestamp : isTimestampShape parts.timestamp = true
  length : byteSize fs ≤ maxFileSourceLength
  chars : fs.toList = '/' :: (parts.userId.toList ++ '/' ::
    ((toString parts.epochMillis ++ "-" ++ parts.timestamp).toList ++ '/' :: parts.fileId.toList))

theorem made_of_ok (h : makeFileSource parts = .ok fs) : Made parts fs := by
  unfold makeFileSource at h
  dsimp only at h
  split_ifs at h with huser hfile hepoch hts hlong
  cases h
  simp only [Bool.or_eq_true, not_or, decide_eq_true_eq, not_lt, Bool.not_eq_true'] at hfile
  exact
    { user := by simpa using huser
      file := by simpa using hfile.1
      fileLength := hfile.2
      epoch := not_le.mp hepoch
      timestamp := by simpa using hts
      length := not_lt.mp hlong
      chars := by simp [String.toList_append] }

theorem segmentChar_of_time (hmade : Made parts fs) :
    ∀ c ∈ (toString parts.epochMillis ++ "-" ++ parts.timestamp).toList, isSegmentChar c = true := by
  obtain ⟨m, hm⟩ := Int.eq_ofNat_of_zero_le hmade.epoch.le
  have htext : (toString parts.epochMillis).toList = Nat.toDigits 10 m := by
    rw [hm]
    exact Nat.toList_repr
  intro c hc
  simp only [String.toList_append, List.mem_append, htext] at hc
  rcases hc with (hdigit | hdash) | hts
  · exact segmentChar_of_digit (Decimal.isDigit_of_mem hdigit)
  · obtain rfl : c = '-' := by simpa using hdash
    decide
  · exact segmentChar_of_timestamp hmade.timestamp c hts

theorem ne_empty_of_made (hmade : Made parts fs) : fs ≠ "" := by
  rintro rfl
  cases hmade.chars

theorem char_of_made (hmade : Made parts fs) : ∀ c ∈ fs.toList, c = '/' ∨ isSegmentChar c = true := by
  intro c hc
  simp only [hmade.chars, List.mem_cons, List.mem_append] at hc
  rcases hc with rfl | hc | rfl | hc | rfl | hc
  · exact .inl rfl
  · exact .inr (segmentChar_of_safe hmade.user c hc)
  · exact .inl rfl
  · exact .inr (segmentChar_of_time hmade c hc)
  · exact .inl rfl
  · exact .inr (segmentChar_of_safe hmade.file c hc)

/-- A made file source is parsed back to its parts. -/
theorem parseFileSource_of_made (hmade : Made parts fs) (hfits : parts.epochMillis < 2 ^ 63) :
    parseFileSource fs = .ok parts := by
  obtain ⟨m, hm⟩ := Int.eq_ofNat_of_zero_le hmade.epoch.le
  have huser := segmentChar_of_safe hmade.user
  have hfile := segmentChar_of_safe hmade.file
  have htime := segmentChar_of_time hmade
  have hslash : ∀ {l : List Char}, (∀ c ∈ l, isSegmentChar c = true) → '/' ∉ l := fun hl hmem =>
    (plain_of_segmentChar (hl _ hmem)).1 rfl
  have hclean : (fs.toList.any fun c => isControl c || c == '\\' || c == '%') = false := by
    rw [List.any_eq_false]
    intro c hc
    rcases char_of_made hmade c hc with rfl | hchar
    · decide
    · obtain ⟨-, hcontrol, hback, hpercent⟩ := plain_of_segmentChar hchar
      simp [hcontrol, hback, hpercent]
  have hsplit : splitOnChar '/' (String.ofList fs.toList.tail) =
      [parts.userId, toString parts.epochMillis ++ "-" ++ parts.timestamp, parts.fileId] := by
    rw [splitOnChar, String.toList_ofList, hmade.chars, List.tail_cons,
      List.splitOn_append_cons_self_of_not_mem (hslash huser),
      List.splitOn_append_cons_self_of_not_mem (hslash htime),
      List.splitOn_eq_singleton (hslash hfile)]
    simp only [List.map_cons, List.map_nil, String.ofList_toList]
  have hparsed : parseEpochAndTimestamp (toString parts.epochMillis ++ "-" ++ parts.timestamp) =
      some (parts.epochMillis, parts.timestamp) := by
    rw [hm] at hfits ⊢
    exact parseEpochAndTimestamp_of_parts (by exact_mod_cast hfits) hmade.timestamp
  have hlong : ¬maxFileSourceLength < byteSize fs := not_lt.mpr hmade.length
  have hhead : fs.toList.head? = some '/' := by rw [hmade.chars, List.head?_cons]
  have hshort : ¬maxFileIdLength < byteSize parts.fileId := not_lt.mpr hmade.fileLength
  generalize toString parts.epochMillis ++ "-" ++ parts.timestamp = segment at hsplit hparsed
  simp [parseFileSource, ne_empty_of_made hmade, hlong, hhead, hclean, hsplit, hmade.user, hparsed, hmade.file, hshort]

/-! ## Acceptance -/

/-- The validation of a creation and the check of the copies take the text for a source path. -/
structure Accepted (fs : String) : Prop where
  creation : ∀ r : FileMetadataRecord, r.fileSource = fs →
    ∀ i ∈ validateMetadataRecord r, i.path ≠ fileSourcePath
  copies : looksLikeFileSource fs = true

/-- Issues about other fields. -/
def Elsewhere (issues : List ValidationIssue) : Prop := ∀ i ∈ issues, i.path ≠ fileSourcePath

theorem elsewhere_nil : Elsewhere [] := by simp [Elsewhere]

theorem elsewhere_singleton {path message : String} (h : path ≠ fileSourcePath) :
    Elsewhere [⟨path, message⟩] := by
  simpa [Elsewhere] using h

theorem elsewhere_issue {path message : String} {holds : Bool} (h : path ≠ fileSourcePath) :
    Elsewhere (issue path message holds) := by
  cases holds with
  | false => exact elsewhere_nil
  | true => exact elsewhere_singleton h

theorem elsewhere_append {a b : List ValidationIssue} (ha : Elsewhere a) (hb : Elsewhere b) :
    Elsewhere (a ++ b) := by
  intro i hi
  exact (List.mem_append.mp hi).elim (ha i) (hb i)

theorem elsewhere_flatMap {α : Type} {l : List α} {f : α → List ValidationIssue}
    (h : ∀ a ∈ l, Elsewhere (f a)) : Elsewhere (l.flatMap f) := by
  intro i hi
  obtain ⟨a, ha, hmem⟩ := List.mem_flatMap.mp hi
  exact h a ha i hmem

/-- Only the file source itself is reported at its path. -/
theorem elsewhere_validate {r : FileMetadataRecord} (h : fileSourceIssues r.fileSource = []) :
    Elsewhere (validateMetadataRecord r) := by
  have hissue : ∀ {path message holds}, path ≠ fileSourcePath →
      Elsewhere (issue path message holds) := elsewhere_issue
  have hkind : Elsewhere (kindIssues r.kind) := by
    unfold kindIssues
    split
    · exact elsewhere_singleton (by decide)
    · exact elsewhere_append (hissue (by decide)) (hissue (by decide))
  have hacl : Elsewhere (aclIssues r.acl) := by
    unfold aclIssues
    apply elsewhere_append
    · apply elsewhere_append
      · exact elsewhere_append (hissue (by decide)) (hissue (by decide))
      · exact elsewhere_flatMap fun _ _ => hissue (by decide)
    · exact elsewhere_flatMap fun _ _ => hissue (by decide)
  have hlegal : Elsewhere (legalIssues r.legal) := by
    unfold legalIssues
    apply elsewhere_append
    · apply elsewhere_append
      · repeat' apply elsewhere_append
        all_goals exact hissue (by decide)
      · exact elsewhere_flatMap fun _ _ => hissue (by decide)
    · exact elsewhere_flatMap fun _ _ => hissue (by decide)
  have hendian : Elsewhere (endianIssues r.data.endian) := by
    unfold endianIssues
    split
    · exact elsewhere_nil
    · exact hissue (by decide)
  have hdataset : Elsewhere (datasetPropertiesIssues r.data.datasetProperties) := by
    unfold datasetPropertiesIssues
    dsimp only
    split
    · exact elsewhere_singleton (by decide)
    · exact hissue (by decide)
  have hindicator : ∀ item, Elsewhere (scalarIndicatorIssues item) := by
    intro item
    unfold scalarIndicatorIssues
    split
    · exact elsewhere_nil
    · exact hissue (by decide)
    · exact elsewhere_singleton (by decide)
  have hheader : Elsewhere (vectorHeaderIssues r.data.extra) := by
    unfold vectorHeaderIssues
    split
    · exact elsewhere_flatMap fun item _ => hindicator item
    · exact elsewhere_nil
  unfold validateMetadataRecord
  rw [h, List.append_nil]
  exact elsewhere_append (elsewhere_append (elsewhere_append (elsewhere_append
    (elsewhere_append hkind hacl) hlegal) hendian) hdataset) hheader

/-- Two dots in a row can only come from the user id. -/
theorem dots_iff {requested : Option String} (hmade : Made parts fs)
    (hchosen : ChosenFrom requested parts.fileId) :
    containsText fs ".." = true ↔ containsText parts.userId ".." = true := by
  have hslash : '/' ∉ "..".toList := by decide
  have hne : "..".toList ≠ [] := by decide
  have htime : ¬"..".toList <:+: (toString parts.epochMillis ++ "-" ++ parts.timestamp).toList :=
    not_infix_of_notMem (show '.' ∈ "..".toList by decide)
      (dotFreeTime hmade.epoch.le hmade.timestamp)
  have hfile : ¬"..".toList <:+: parts.fileId.toList := by
    rcases hchosen with ⟨-, huuid⟩ | ⟨-, -, hvalid⟩
    · exact not_infix_of_notMem (show '.' ∈ "..".toList by decide) (dot_notMem_uuid huuid)
    · intro hinfix
      have hcount := hinfix.sublist.count_le '.'
      have htwo : "..".toList.count '.' = 2 := by decide
      have := count_dot_le hvalid
      omega
  have hfront : fs.toList = [] ++ '/' :: (parts.userId.toList ++ '/' ::
      ((toString parts.epochMillis ++ "-" ++ parts.timestamp).toList ++ '/' ::
        parts.fileId.toList)) := hmade.chars
  have hstart : ¬"..".toList <:+: [] := by decide
  simp only [containsText_iff, hfront, infix_segments_iff hslash hne, hstart, htime, hfile,
    false_or, or_false]

theorem accepted_iff {requested : Option String} (hmade : Made parts fs)
    (hchosen : ChosenFrom requested parts.fileId) :
    Accepted fs ↔ containsText parts.userId ".." = false := by
  rw [← Bool.not_eq_true, ← dots_iff hmade hchosen, Bool.not_eq_true]
  have hhead : fs.toList.head? = some '/' := by rw [hmade.chars, List.head?_cons]
  have hcopies : looksLikeFileSource fs = true ↔ containsText fs ".." = false := by
    simp [looksLikeFileSource, hhead]
  constructor
  · intro h
    exact hcopies.mp h.copies
  · intro hdots
    have hstarts : startsWith fs "/" = true := by
      rw [startsWith, hmade.chars]
      simp
    have hclean : hasControlChars fs = false := by
      rw [hasControlChars, List.any_eq_false]
      intro c hc
      rw [Bool.not_eq_true]
      exact (char_of_made hmade c hc).elim (fun h => by rw [h]; decide)
        fun h => (plain_of_segmentChar h).2.1
    refine ⟨fun r hr => elsewhere_validate ?_, hcopies.mpr hdots⟩
    rw [hr]
    simp [fileSourceIssues, issue, ne_empty_of_made hmade, hstarts, hdots, hclean]

end Made

/-! ## Valid file ids -/

/-- Only the pattern of file ids allows these. -/
def isLegacyChar (c : Char) : Bool := c == ',' || c == ' ' || c == '\t'

/-- The check of the segment that a file id becomes. -/
def PassesSegmentCheck (fileId : String) : Prop :=
  isSafeSegment fileId = true ∧ byteSize fileId ≤ maxFileIdLength

/-- A character of a file id is allowed in a segment, unless it is one of the older ones. -/
theorem segmentChar_iff_of_fileId {c : Char} (h : isFileIdChar c = true ∨ c = '.' ∨ isWord c = true) :
    isSegmentChar c = true ↔ isLegacyChar c = false := by
  have hlegacy : ∀ {c}, isSegmentChar c = true → isLegacyChar c = false := by
    intro c hc
    simp only [isLegacyChar, Bool.or_eq_false_iff, beq_eq_false_iff_ne]
    refine ⟨⟨?_, ?_⟩, ?_⟩ <;>
      · rintro rfl
        exact absurd hc (by decide)
  refine ⟨hlegacy, fun hc => ?_⟩
  rcases h with h | rfl | h
  · rw [← Bool.not_eq_true] at hc
    simp only [isFileIdChar, isLegacyChar, isSegmentChar, Bool.or_eq_true] at h hc ⊢
    grind
  · decide
  · simp only [isWord, isSegmentChar, Bool.or_eq_true] at h ⊢
    grind

theorem fileIdChar_of_valid {fileId : String} (h : isValidFileId fileId = true) :
    ∀ c ∈ fileId.toList, isFileIdChar c = true ∨ c = '.' ∨ isWord c = true := by
  intro c hc
  simp only [isValidFileId, Bool.and_eq_true] at h
  rw [← List.prefix_iff_eq_append.mp (List.takeWhile_prefix (l := fileId.toList) isFileIdChar),
    List.mem_append] at hc
  rcases hc with hbase | hrest
  · exact .inl (List.mem_takeWhile_imp hbase)
  · have hsuffix := h.2
    cases hdrop : fileId.toList.drop (fileId.toList.takeWhile isFileIdChar).length with
    | nil =>
      rw [hdrop] at hrest
      cases hrest
    | cons d suffix =>
      rw [hdrop] at hsuffix hrest
      simp only [Bool.and_eq_true, beq_iff_eq, List.all_eq_true] at hsuffix
      rcases List.mem_cons.mp hrest with rfl | hmem
      · exact .inr (.inl hsuffix.1.1)
      · exact .inr (.inr (hsuffix.2 c hmem))

theorem passes_iff_of_valid {fileId : String} (h : isValidFileId fileId = true) :
    PassesSegmentCheck fileId ↔ fileId.toList.any isLegacyChar = false := by
  have hchars := fileIdChar_of_valid h
  have hlength : byteSize fileId ≤ maxFileIdLength := by
    simp only [isValidFileId, Bool.and_eq_true, decide_eq_true_eq] at h
    exact h.1.1
  have hfirst : fileId.toList.any isFileIdChar = true := by
    simp only [isValidFileId, Bool.and_eq_true, Bool.not_eq_true', List.isEmpty_eq_false_iff] at h
    obtain ⟨c, hc⟩ := List.exists_mem_of_ne_nil _ h.1.2
    exact List.any_eq_true.mpr ⟨c, (List.takeWhile_sublist _).mem hc, List.mem_takeWhile_imp hc⟩
  -- Only dots make the excluded names, and a valid id has another character.
  have hnames : fileId ≠ "" ∧ fileId ≠ "." ∧ fileId ≠ ".." := by
    refine ⟨?_, ?_, ?_⟩ <;>
      · rintro rfl
        exact absurd hfirst (by decide)
  rw [List.any_eq_false]
  constructor
  · rintro ⟨hsafe, -⟩ c hc
    rw [Bool.not_eq_true]
    exact (segmentChar_iff_of_fileId (hchars c hc)).mp (segmentChar_of_safe hsafe c hc)
  · intro hplain
    refine ⟨?_, hlength⟩
    simp only [isSafeSegment, Bool.and_eq_true, decide_eq_true_eq, List.all_eq_true]
    exact ⟨⟨⟨hnames.1, hnames.2.1⟩, hnames.2.2⟩, fun c hc =>
      (segmentChar_iff_of_fileId (hchars c hc)).mpr (by simpa using hplain c hc)⟩

/-! ## Issues -/

section Issue
variable {options : IssuerOptions} {partition userId : String} {requested expiryTime : Option String}
  {t : Trace ports} {result : LocationResult}

theorem emits_ok_tryResult {α : Type} {r : Result α} {a : α} :
    (Action.tryResult r).run.Emits t (.ok a) ↔ t = [] ∧ r = .ok a := by
  cases r with
  | ok b =>
    apply Action.emits_ok_pure.trans
    simp [eq_comm]
  | error e =>
    apply (iff_false_intro Action.not_emits_ok_throw).trans
    simp

/-- An action that returns does so from its last part. -/
theorem emits_ok_rest {α β : Type} {x : Domain.Action α} {f : α → Domain.Action β} {b : β}
    (h : (x >>= f).run.Emits t (.ok b)) : ∃ a rest, (f a).run.Emits rest (.ok b) := by
  obtain ⟨-, a, rest, -, -, hrest⟩ := Action.emits_ok_bind.mp h
  exact ⟨a, rest, hrest⟩

/-- What an issue returns names the issued location. -/
def Names (result : LocationResult) (fileId fileSource : String) : Prop :=
  result.fileId = fileId ∧ result.fileSource = fileSource

theorem shapeSigned_names {location : FileLocation} {caps : BlobCapabilities} {ttl : Int}
    {signed : SignedLocation}
    (h : (shapeSigned location caps ttl signed).run.Emits t (.ok result)) :
    Names result location.fileId location.fileSource := by
  unfold shapeSigned at h
  split at h
  · obtain ⟨-, rfl⟩ := Action.emits_ok_pure.mp h
    exact ⟨rfl, rfl⟩
  · obtain ⟨_, _, h⟩ := emits_ok_rest h
    obtain ⟨-, rfl⟩ := Action.emits_ok_pure.mp h
    exact ⟨rfl, rfl⟩

theorem signUpload_names {store : StoreId} {ref : ObjectRef} {location : FileLocation}
    {caps : BlobCapabilities} {ttl : Int}
    (h : (signUpload options store ref location caps partition ttl).run.Emits t (.ok result)) :
    Names result location.fileId location.fileSource := by
  unfold signUpload at h
  split at h
  · obtain ⟨_, _, h⟩ := emits_ok_rest h
    obtain ⟨signed, _, h⟩ := emits_ok_rest h
    exact shapeSigned_names h
  · obtain ⟨now, _, h⟩ := emits_ok_rest h
    obtain ⟨_, _, h⟩ := emits_ok_rest h
    obtain ⟨url, _, h⟩ := emits_ok_rest h
    exact shapeSigned_names h

/-- The calls after the file source has been made. -/
theorem placeUpload_names {fileId fs key : String} {r : Result String}
    (ttl : BlobCapabilities → Int)
    (h : (placeUpload options partition userId fileId fs key ttl r).run.Emits t (.ok result)) :
    Names result fileId fs := by
  unfold placeUpload at h
  obtain ⟨_, _, h⟩ := emits_ok_rest h
  obtain ⟨_, _, h⟩ := emits_ok_rest h
  obtain ⟨_, _, h⟩ := emits_ok_rest h
  obtain ⟨_, _, h⟩ := emits_ok_rest h
  obtain ⟨_, _, h⟩ := emits_ok_rest h
  obtain ⟨_, _, h⟩ := emits_ok_rest h
  obtain ⟨_, _, h⟩ := emits_ok_rest h
  obtain ⟨_, _, h⟩ := emits_ok_rest h
  obtain ⟨_, _, h⟩ := emits_ok_rest h
  obtain ⟨_, _, h⟩ := emits_ok_rest h
  obtain ⟨_, _, h⟩ := emits_ok_rest h
  exact signUpload_names h

/-- The clock shows a time that a signed 64-bit count of milliseconds can tell. -/
def clockFits : Assumption ports := fun op =>
  match op with
  | .nowEpochMillis => fun now => now < 2 ^ 63
  | _ => fun _ => True

/-- The parts that an issue at a time is made of. -/
def issuedParts (userId fileId : String) (nowMillis : Int) : SourcePath :=
  { userId
    epochMillis := nowMillis
    timestamp := formatTimestamp (nowMillis.tdiv 1000) (nowMillis.tmod 1000)
    fileId }

/-- An issue that returns has made its file source at a time that the clock showed. -/
theorem issue_made
    (h : (issueUploadLocation options partition userId requested expiryTime).run.Emits t (.ok result))
    (hids : ∀ o ∈ t, drawsUuids o.op o.reply) :
    ∃ nowMillis, ⟨.nowEpochMillis, nowMillis⟩ ∈ t ∧ ChosenFrom requested result.fileId ∧
      makeFileSource (issuedParts userId result.fileId nowMillis) = .ok result.fileSource := by
  unfold issueUploadLocation at h
  dsimp only at h
  split at h
  · exact absurd h Action.not_emits_ok_throw
  split at h
  · exact absurd h Action.not_emits_ok_throw
  obtain ⟨before, ttl, t₁, rfl, -, h⟩ := Action.emits_ok_bind.mp h
  obtain ⟨chosen, fileId, t₂, rfl, hchosen, h⟩ := Action.emits_ok_bind.mp h
  obtain ⟨clock, nowMillis, t₃, ht₂, hnow, h⟩ := Action.emits_ok_bind.mp h
  rw [Action.emits_ok_call.mp hnow] at ht₂
  obtain ⟨made, fs, t₄, -, hfs, h⟩ := Action.emits_ok_bind.mp h
  obtain ⟨-, hchosen⟩ := writes_chooseFileId chosen _ hchosen fun o ho => hids o (by simp [ho])
  have hnames : Names result fileId fs := by
    clear * - h
    split at h
    · obtain ⟨_, _, h⟩ := emits_ok_rest h
      exact placeUpload_names
        (fun caps => applySelfSignedTtl options ttl caps (expiryTime.getD "" ≠ "")) h
    · obtain ⟨_, _, h⟩ := emits_ok_rest h
      exact placeUpload_names
        (fun caps => applySelfSignedTtl options ttl caps (expiryTime.getD "" ≠ "")) h
  obtain ⟨rfl, rfl⟩ := hnames
  exact ⟨nowMillis, by simp [ht₂], hchosen, (emits_ok_tryResult.mp hfs).2⟩

/-- Parsing gives back what the file source was issued for. -/
def ParsedBack (t : Trace ports) (userId : String) (result : LocationResult) : Prop :=
  ∃ nowMillis, ⟨.nowEpochMillis, nowMillis⟩ ∈ t ∧
    parseFileSource result.fileSource = .ok (issuedParts userId result.fileId nowMillis)

/-- An issue that has returned this. -/
structure Issued (t : Trace ports) (userId : String) (requested : Option String)
    (result : LocationResult) : Prop where
  emitted : ∃ options partition expiryTime,
    (issueUploadLocation options partition userId requested expiryTime).run.Emits t (.ok result)
  ids : ∀ o ∈ t, drawsUuids o.op o.reply
  clock : ∀ o ∈ t, clockFits o.op o.reply

theorem parsedBack_of_issued (h : Issued t userId requested result) :
    ParsedBack t userId result := by
  obtain ⟨options, partition, expiryTime, hemits⟩ := h.emitted
  obtain ⟨nowMillis, hnow, -, hmade⟩ := issue_made hemits h.ids
  exact ⟨nowMillis, hnow, parseFileSource_of_made (made_of_ok hmade) (h.clock _ hnow)⟩

theorem accepted_iff_of_issued (h : Issued t userId requested result) :
    Accepted result.fileSource ↔ containsText userId ".." = false := by
  obtain ⟨options, partition, expiryTime, hemits⟩ := h.emitted
  obtain ⟨nowMillis, -, hchosen, hmade⟩ := issue_made hemits h.ids
  exact accepted_iff (made_of_ok hmade) hchosen

/-- Exactly the issues for user ids without two dots in a row are accepted downstream, and
exactly the valid file ids without the older characters can be issued. -/
theorem issued_sources_accepted_iff (userId fileId : String) :
    (∀ t requested result, Issued t userId requested result →
      (ParsedBack t userId result ∧ Accepted result.fileSource ↔
        containsText userId ".." = false)) ∧
    (isValidFileId fileId = true →
      (PassesSegmentCheck fileId ↔ fileId.toList.any isLegacyChar = false)) := by
  constructor
  · intro t requested result h
    rw [accepted_iff_of_issued h]
    exact and_iff_right (parsedBack_of_issued h)
  · exact passes_iff_of_valid

end Issue

/-! ## Sample issues -/

/-- What a sample issue returns. -/
def sampleResult (userId fileId : String) : Except Exit LocationResult :=
  ((sampleIssue userId fileId).run.answered sampleAnswers).2

theorem sample_issued {userId fileId : String} {result : LocationResult}
    (h : sampleResult userId fileId = .ok result) :
    Issued (issueCalls userId fileId) userId (some fileId) result := by
  refine ⟨⟨{}, "p", none, ?_⟩, issueCalls_drawUuids _ _, ?_⟩
  · rw [← h]
    exact Program.emits_answered sampleAnswers (sampleIssue userId fileId).run
  · intro o ho
    rw [Program.reply_of_mem_answered ho]
    cases o.op with
    | nowEpochMillis =>
      have hfits : (sampleAnswers .nowEpochMillis : Int) < 2 ^ 63 := by decide +kernel
      exact hfits
    | _ => trivial

theorem sample_returns (userId fileId fs : String)
    (h : (sampleResult userId fileId).toOption.map (·.fileSource) = some fs) :
    ∃ result, Issued (issueCalls userId fileId) userId (some fileId) result ∧
      result.fileSource = fs := by
  cases hout : sampleResult userId fileId with
  | error e =>
    rw [hout] at h
    cases h
  | ok result =>
    rw [hout] at h
    exact ⟨result, sample_issued hout, Option.some.inj h⟩

/-- An ordinary user id and an ordinary file id. -/
theorem ordinary_source_accepted :
    (∃ result, Issued (issueCalls "u" "a.txt") "u" (some "a.txt") result ∧
      ParsedBack (issueCalls "u" "a.txt") "u" result ∧ Accepted result.fileSource) ∧
    PassesSegmentCheck "a.txt" := by
  constructor
  · obtain ⟨result, hissued, -⟩ := sample_returns "u" "a.txt"
      "/u/1614784413120-2021-03-03-15-13-33-120/a.txt" (by decide +kernel)
    exact ⟨result, hissued,
      ((issued_sources_accepted_iff "u" "a.txt").1 _ _ _ hissued).mpr (by decide +kernel)⟩
  · exact ((issued_sources_accepted_iff "u" "a.txt").2 (by decide +kernel)).mpr (by decide +kernel)

/-- The file source of the user `a..b` is issued and then refused as a source, and a valid
file id with a space is refused as a segment. -/
theorem issued_source_refused :
    (∃ result, Issued (issueCalls "a..b" "x") "a..b" (some "x") result ∧
      ¬Accepted result.fileSource) ∧
    isValidFileId "with space" = true ∧ ¬PassesSegmentCheck "with space" ∧
    (sampleResult "u" "with space").isOk = false ∧
    (∃ found, ⟨.locations (.find "p" "with space"), found⟩ ∈ issueCalls "u" "with space") := by
  refine ⟨?_, by decide +kernel, ?_, by decide +kernel, ?_⟩
  · obtain ⟨result, hissued, hfs⟩ := sample_returns "a..b" "x"
      "/a..b/1614784413120-2021-03-03-15-13-33-120/x" (by decide +kernel)
    refine ⟨result, hissued, fun h => ?_⟩
    have hcopies := h.copies
    rw [hfs] at hcopies
    exact absurd hcopies (by decide +kernel)
  · rintro ⟨hsafe, -⟩
    exact absurd hsafe (by decide +kernel)
  · exact ⟨_, List.mem_cons_self⟩

end FileService.Safety.IssuedSources

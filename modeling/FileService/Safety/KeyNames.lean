import FileService.App.Copies
import FileService.App.GcTask
import FileService.Common.Decimal
import FileService.Posix.BlobStore
import Mathlib.Data.List.TakeWhile

/-!
# Names of objects, temporary files and sidecars

An object key consists of a user id, a time and a file id. The white list of the
segments allows dots, so a user id or a file id can make the key look like a
temporary file or like a sidecar.
-/
namespace FileService.Safety.IssuedKeys
open FileService.Common FileService.Common.Text FileService.Domain FileService.App

/-- A key that the driver, its sweep and the collector take for the key of an object. -/
structure Plain (key : String) : Prop where
  listed : Posix.isInternalKey key = false
  unswept : Posix.isTempFile key = false
  collected : isTempKey key = false
  apart : ∀ other, key ≠ Posix.sidecarOf other

theorem plain_iff {key : String} : Plain key ↔ Posix.isInternalKey key = false := by
  constructor
  · exact Plain.listed
  · intro h
    simp only [Posix.isInternalKey, Bool.or_eq_false_iff] at h
    refine ⟨by simp [Posix.isInternalKey, h], h.2, h.2, fun other heq => ?_⟩
    rw [← Bool.not_eq_true, endsWith_iff] at h
    apply h.1
    rw [heq, Posix.sidecarOf, String.toList_append]
    exact List.suffix_append _ _

/-! ## Keys and their segments -/

section Segments
variable {parts : SourcePath} {ts : String} {n : Int}

theorem dot_notMem_toString (hn : 0 ≤ n) : '.' ∉ (toString n).toList := by
  obtain ⟨m, rfl⟩ := Int.eq_ofNat_of_zero_le hn
  intro hmem
  have hrepr : '.' ∈ (Nat.repr m).toList := hmem
  have hdigits : '.' ∈ Nat.toDigits 10 m := by
    simpa [Nat.repr] using hrepr
  exact Common.Decimal.notMem_toDigits (by decide) hdigits

theorem dot_notMem_timestamp (h : isTimestampShape ts = true) : '.' ∉ ts.toList := by
  intro hmem
  obtain ⟨i, hi, hget⟩ := List.mem_iff_getElem.mp hmem
  simp only [isTimestampShape, Bool.and_eq_true, List.all_eq_true] at h
  have hat := h.2 ('.', i) (List.mem_zipIdx_iff_getElem?.mpr (by simp [List.getElem?_eq_getElem hi, hget]))
  revert hat
  dsimp only
  split <;> decide

/-- The times of a key have no dot in them. -/
def DotFreeTime (parts : SourcePath) : Prop :=
  '.' ∉ (toString parts.epochMillis ++ "-" ++ parts.timestamp).toList

theorem dotFreeTime (hn : 0 ≤ parts.epochMillis) (hts : isTimestampShape parts.timestamp = true) :
    DotFreeTime parts := by
  simp only [DotFreeTime, String.toList_append, List.mem_append, not_or]
  exact ⟨⟨dot_notMem_toString hn, by decide⟩, dot_notMem_timestamp hts⟩

/-- What makes a key internal: its user id or its file id. -/
theorem isInternalKey_iff (htime : DotFreeTime parts) :
    Posix.isInternalKey (makePosixKey parts) = true ↔
      containsText parts.userId Posix.tempMarker = true ∨
        containsText parts.fileId Posix.tempMarker = true ∨
          endsWith parts.fileId Posix.sidecarSuffix = true := by
  have hkey : (makePosixKey parts).toList = parts.userId.toList ++ '/' ::
      ((toString parts.epochMillis ++ "-" ++ parts.timestamp).toList ++ '/' :: parts.fileId.toList) := by
    simp [makePosixKey, String.toList_append]
  have hmarker : '/' ∉ Posix.tempMarker.toList := by decide
  have hsuffix : '/' ∉ Posix.sidecarSuffix.toList := by decide
  have hne : Posix.tempMarker.toList ≠ [] := by decide
  have hmiddle := not_infix_of_notMem (a := (toString parts.epochMillis ++ "-" ++
    parts.timestamp).toList) (show '.' ∈ Posix.tempMarker.toList by decide) htime
  simp only [Posix.isInternalKey, Bool.or_eq_true, endsWith_iff, containsText_iff, hkey,
    infix_segments_iff hmarker hne, suffix_segments_iff hsuffix, hmiddle, false_or]
  rw [or_comm, or_assoc]

end Segments

/-! ## File ids -/

/-- What `NewUuidNoDash` returns: 32 hexadecimal digits. -/
def isUuidNoDash (text : String) : Bool :=
  text.toList.length = 32 && text.toList.all fun c => c.isDigit || ('a' ≤ c && c ≤ 'f')

/-- Where the file id of an issue comes from. -/
def ChosenFrom (requested : Option String) (fileId : String) : Prop :=
  requested.getD "" = "" ∧ isUuidNoDash fileId = true ∨
    requested = some fileId ∧ fileId ≠ "" ∧ isValidFileId fileId = true

/-- A valid file id has at most one dot. -/
theorem count_dot_le {fileId : String} (h : isValidFileId fileId = true) :
    fileId.toList.count '.' ≤ 1 := by
  have hbase : (fileId.toList.takeWhile isFileIdChar).count '.' = 0 := by
    apply List.count_eq_zero.mpr
    intro hmem
    exact absurd (List.mem_takeWhile_imp hmem) (by decide)
  have hsplit : fileId.toList.takeWhile isFileIdChar ++
      fileId.toList.drop (fileId.toList.takeWhile isFileIdChar).length = fileId.toList :=
    List.prefix_iff_eq_append.mp (List.takeWhile_prefix isFileIdChar)
  rw [← hsplit, List.count_append, hbase]
  simp only [isValidFileId, Bool.and_eq_true] at h
  cases hrest : fileId.toList.drop (fileId.toList.takeWhile isFileIdChar).length with
  | nil => simp
  | cons c suffix =>
    have hsuffix := h.2
    rw [hrest] at hsuffix
    simp only [Bool.and_eq_true, List.all_eq_true] at hsuffix
    have hnone : suffix.count '.' = 0 := by
      apply List.count_eq_zero.mpr
      intro hmem
      exact absurd (hsuffix.2 '.' hmem) (by decide)
    rw [List.count_cons, hnone]
    split <;> omega

theorem dot_notMem_uuid {fileId : String} (h : isUuidNoDash fileId = true) :
    '.' ∉ fileId.toList := by
  intro hmem
  simp only [isUuidNoDash, Bool.and_eq_true, List.all_eq_true] at h
  exact absurd (h.2 '.' hmem) (by decide)

section Chosen
variable {requested : Option String} {fileId : String}

theorem not_temp_of_chosen (h : ChosenFrom requested fileId) :
    ¬containsText fileId Posix.tempMarker = true := by
  rw [containsText_iff]
  rcases h with ⟨-, huuid⟩ | ⟨-, -, hvalid⟩
  · exact not_infix_of_notMem (show '.' ∈ Posix.tempMarker.toList by decide) (dot_notMem_uuid huuid)
  · intro hinfix
    have hcount := hinfix.sublist.count_le '.'
    have htwo : Posix.tempMarker.toList.count '.' = 2 := by decide
    have := count_dot_le hvalid
    omega

theorem sidecar_of_chosen (h : ChosenFrom requested fileId) :
    endsWith fileId Posix.sidecarSuffix = true ↔
      endsWith (requested.getD "") Posix.sidecarSuffix = true := by
  rcases h with ⟨hnone, huuid⟩ | ⟨rfl, -, -⟩
  · rw [hnone]
    refine iff_of_false (fun hends => ?_) (by decide)
    exact not_infix_of_notMem (show '.' ∈ Posix.sidecarSuffix.toList by decide)
      (dot_notMem_uuid huuid) (endsWith_iff.mp hends).isInfix
  · rfl

end Chosen

/-! ## File sources -/

section Sources
variable {target : String}

theorem strtoll_eq (digits : List Char) :
    strtoll digits = min (Decimal.value digits : Int) (2 ^ 63 - 1) := by
  have hfold : ∀ n : Nat,
      digits.foldl (fun (value : Int) c => value * 10 + (c.toNat - '0'.toNat : Nat)) n =
        Nat.ofDigitChars 10 digits n := by
    induction digits with
    | nil => simp
    | cons c digits ih =>
      intro n
      have hstep : (n : Int) * 10 + (c.toNat - '0'.toNat : Nat) =
          ((10 * n + (c.toNat - '0'.toNat) : Nat) : Int) := by
        push_cast
        ring
      rw [List.foldl_cons, hstep, ih, Nat.ofDigitChars_cons]
  rw [strtoll, Decimal.value, ← hfold 0, Nat.cast_zero]

theorem strtoll_nonneg (digits : List Char) : 0 ≤ strtoll digits := by
  rw [strtoll_eq]
  omega

/-- What `ParseFileSource` takes apart: the parts and the digits of the time. -/
structure Spelled (target : String) (digits : List Char) (parts : SourcePath) : Prop where
  user : isSafeSegment parts.userId = true
  file : isSafeSegment parts.fileId = true
  fileLength : byteSize parts.fileId ≤ maxFileIdLength
  length : byteSize target ≤ maxFileSourceLength
  numeric : ∀ c ∈ digits, c.isDigit = true
  nonempty : digits ≠ []
  epoch : parts.epochMillis = strtoll digits
  timestamp : isTimestampShape parts.timestamp = true
  chars : target.toList = '/' :: (parts.userId.toList ++ '/' ::
    (digits ++ '-' :: (parts.timestamp.toList ++ '/' :: parts.fileId.toList)))

theorem epochAndTimestamp_spelled {segment : String} {epochMillis : Int} {ts : String}
    (h : parseEpochAndTimestamp segment = some (epochMillis, ts)) :
    ∃ digits, segment.toList = digits ++ '-' :: ts.toList ∧ (∀ c ∈ digits, c.isDigit = true) ∧
      digits ≠ [] ∧ epochMillis = strtoll digits ∧ isTimestampShape ts = true := by
  unfold parseEpochAndTimestamp at h
  dsimp only at h
  have hsplit : segment.toList.takeWhile (· ≠ '-') ++
      segment.toList.drop (segment.toList.takeWhile (· ≠ '-')).length = segment.toList :=
    List.prefix_iff_eq_append.mp (List.takeWhile_prefix _)
  split at h
  · cases h
  · rename_i c rest hrest
    split_ifs at h with hinvalid
    obtain ⟨rfl, rfl⟩ := Prod.mk.inj (Option.some.inj h)
    simp only [Bool.or_eq_true, not_or, Bool.not_eq_eq_eq_not, Bool.not_true, Bool.not_eq_false]
      at hinvalid
    obtain ⟨⟨⟨hsome, hdigits⟩, -⟩, hshape⟩ := hinvalid
    have hdash : c = '-' := by
      have hdrop : segment.toList.dropWhile (· ≠ '-') = c :: rest := by
        rw [← hrest]
        exact List.append_cancel_left (List.takeWhile_append_dropWhile.trans hsplit.symm)
      have hhead := List.head?_dropWhile_not (· ≠ '-') segment.toList
      rw [hdrop] at hhead
      simpa using hhead
    refine ⟨_, ?_, List.all_eq_true.mp hdigits, by simpa using hsome, rfl, hshape⟩
    rw [hdash] at hrest
    rw [String.toList_ofList, ← hrest, hsplit]

/-- An accepted file source is spelled of its parts. -/
theorem parseFileSource_spelled {parts : SourcePath} (h : parseFileSource target = .ok parts) :
    ∃ digits, Spelled target digits parts := by
  unfold parseFileSource at h
  dsimp only at h
  split_ifs at h with hempty hlong hhead hchars
  split at h
  · rename_i userId epochAndTs fileId hsegments
    split_ifs at h with huser hfile
    · split at h <;> cases h
    · split at h
      · cases h
      rename_i epochMillis ts htime
      cases h
      obtain ⟨digits, htext, hdigits, hsome, hepoch, hshape⟩ := epochAndTimestamp_spelled htime
      simp only [Bool.or_eq_true, not_or, decide_eq_true_eq, not_lt, Bool.not_eq_true'] at hfile
      have hsplit : target.toList.tail.splitOn '/' =
          [userId.toList, epochAndTs.toList, fileId.toList] := by
        have htexts := congrArg (List.map String.toList) hsegments
        simpa [splitOnChar, Function.comp_def] using htexts
      have htail : ['/'].intercalate (target.toList.tail.splitOn '/') = target.toList.tail :=
        List.intercalate_splitOn '/'
      rw [hsplit] at htail
      exact ⟨digits,
        { user := by simpa using huser
          file := by simpa using hfile.1
          fileLength := hfile.2
          length := not_lt.mp hlong
          numeric := hdigits
          nonempty := hsome
          epoch := hepoch
          timestamp := hshape
          chars := by
            rw [← List.cons_head?_tail (not_not.mp hhead), ← htail, htext]
            simp [List.intercalate] }⟩
  · cases h

theorem Spelled.dotFree {parts : SourcePath} {digits : List Char} (h : Spelled target digits parts) :
    DotFreeTime parts ∧ '.' ∉ digits ++ '-' :: parts.timestamp.toList := by
  constructor
  · apply dotFreeTime _ h.timestamp
    rw [h.epoch]
    exact strtoll_nonneg digits
  · rw [List.mem_append, List.mem_cons, not_or, not_or]
    refine ⟨fun hmem => ?_, by decide, dot_notMem_timestamp h.timestamp⟩
    exact absurd (h.numeric '.' hmem) (by decide)

/-- An accepted file source imitates an internal name in its user id or its file id. -/
theorem parseFileSource_names {parts : SourcePath} (h : parseFileSource target = .ok parts) :
    DotFreeTime parts ∧
      (containsText target Posix.tempMarker = true ↔
        containsText parts.userId Posix.tempMarker = true ∨
          containsText parts.fileId Posix.tempMarker = true) ∧
      (endsWith target Posix.sidecarSuffix = true ↔
        endsWith parts.fileId Posix.sidecarSuffix = true) := by
  obtain ⟨digits, hspelled⟩ := parseFileSource_spelled h
  obtain ⟨htime, hdot⟩ := hspelled.dotFree
  have htarget := hspelled.chars
  have hmarker : '/' ∉ Posix.tempMarker.toList := by decide
  have hsuffix : '/' ∉ Posix.sidecarSuffix.toList := by decide
  have hne : Posix.tempMarker.toList ≠ [] := by decide
  have hmiddle := not_infix_of_notMem (show '.' ∈ Posix.tempMarker.toList by decide) hdot
  have hstart : ¬Posix.tempMarker.toList <:+: [] := by decide
  have hslash : target.toList = [] ++ '/' :: (parts.userId.toList ++ '/' ::
      ((digits ++ '-' :: parts.timestamp.toList) ++ '/' :: parts.fileId.toList)) := by
    simpa using htarget
  simp only [containsText_iff, endsWith_iff, hslash, infix_segments_iff hmarker hne,
    suffix_segments_iff hsuffix, hmiddle, hstart, false_or]
  exact ⟨htime, trivial, trivial⟩

end Sources

end FileService.Safety.IssuedKeys

import FileService.Common.Ascii
import FileService.Common.Segments
import FileService.Safety.Addressing
import FileService.Safety.Containers

/-!
# Keys stay inside the root

A key that the store accepts is put behind the root as it is. Its segments lead
down only, so no key leads out of the root, and the key can be read off the path.
The keys of issued objects are accepted.
-/
namespace FileService.Safety.KeysInside
open FileService.Common FileService.Common.Ascii FileService.Common.Text FileService.Common.Walk
open FileService.Domain
open FileService.App FileService.Posix FileService.Safety.Containers
open FileService.Safety.IssuedKeys FileService.Safety.IssuedSources FileService.Safety.Addressing

/-! ## Accepted keys -/

section Keys
variable {root key norm path : String}

/-- What the checks ask of a key. -/
structure Clean (key : String) : Prop where
  nonempty : key ≠ ""
  length : byteSize key ≤ maxKeyBytes
  nul : '\x00' ∉ key.toList
  head : key.toList.head? ≠ some '/'
  last : key.toList.getLast? ≠ some '/'
  segments : ∀ segment ∈ splitOnChar '/' key, Downward segment

theorem segmentError_eq_none {segment : String} : segmentError segment = none ↔ Downward segment := by
  unfold segmentError Downward
  split_ifs <;> simp_all

theorem startsWith_slash : startsWith key "/" = true ↔ key.toList.head? = some '/' := by
  unfold startsWith
  cases key.toList with
  | nil => decide
  | cons c rest =>
    have hslash : "/".toList = ['/'] := rfl
    simp only [hslash, List.isPrefixOf, Bool.and_true, beq_iff_eq, List.head?_cons,
      Option.some.injEq]
    exact eq_comm

theorem intercalate_splitOnChar : "/".intercalate (splitOnChar '/' key) = key := by
  have hsplit : (splitOnChar '/' key).map String.toList = key.toList.splitOn '/' := by
    simp [splitOnChar, List.map_map, Function.comp_def]
  apply String.toList_inj.mp
  rw [String.toList_intercalate, hsplit]
  exact List.intercalate_splitOn '/'

theorem normalizeKey_iff : normalizeKey key = .ok norm ↔ Clean key ∧ norm = key := by
  have hsegments : (splitOnChar '/' key).findSome? segmentError = none ↔
      ∀ segment ∈ splitOnChar '/' key, Downward segment := by
    rw [List.findSome?_eq_none_iff]
    exact forall₂_congr fun segment _ => segmentError_eq_none
  constructor
  · intro h
    unfold normalizeKey at h
    split_ifs at h with hempty hlength hnul hhead hlast
    dsimp only at h
    split at h
    · cases h
    · rename_i hnone
      cases h
      refine ⟨⟨hempty, not_lt.mp hlength, by simpa using hnul, ?_, hlast, hsegments.mp hnone⟩,
        intercalate_splitOnChar⟩
      rwa [startsWith_slash] at hhead
  · rintro ⟨h, rfl⟩
    have hhead : ¬startsWith norm "/" = true := fun hs => h.head (startsWith_slash.mp hs)
    rw [normalizeKey, if_neg h.nonempty, if_neg (not_lt.mpr h.length), if_neg (by simpa using h.nul),
      if_neg hhead, if_neg h.last]
    dsimp only
    rw [hsegments.mpr h.segments, intercalate_splitOnChar]

theorem lexicalJoin_iff : lexicalJoin root key = .ok path ↔
    Clean key ∧ root ≠ "" ∧ path = baseOf root ++ "/" ++ key := by
  constructor
  · intro h
    obtain ⟨rfl, -⟩ := lexicalJoin_ok h
    unfold lexicalJoin at h
    cases hnorm : normalizeKey key with
    | error e =>
      rw [hnorm] at h
      cases h
    | ok norm =>
      rw [hnorm] at h
      simp only [bind, Except.bind] at h
      split_ifs at h with hroot
      all_goals exact ⟨(normalizeKey_iff.mp hnorm).1, hroot, rfl⟩
  · rintro ⟨hclean, hroot, rfl⟩
    unfold lexicalJoin
    rw [normalizeKey_iff.mpr ⟨hclean, rfl⟩]
    simp only [bind, Except.bind, if_neg hroot]
    rfl

/-- The path of a key ends with the segments of the key. -/
theorem splitOnChar_join : splitOnChar '/' (baseOf root ++ "/" ++ key) =
    splitOnChar '/' (baseOf root) ++ splitOnChar '/' key :=
  splitOnChar_slash _ _

/-- A slash at the end of the root leads nowhere else. -/
theorem walk_baseOf {here : List String} :
    walk here (splitOnChar '/' (baseOf root)) = walk here (splitOnChar '/' root) := by
  unfold baseOf
  split_ifs with hlast
  · have hroot : root = String.ofList root.toList.dropLast ++ "/" ++ "" := by
      apply String.toList_inj.mp
      simp only [String.toList_append, String.toList_ofList, String.append_empty]
      exact (List.dropLast_append_getLast? '/' hlast).symm
    conv_rhs => rw [hroot, splitOnChar_slash]
    exact walk_empty_segment.symm
  · rfl

theorem join_ne_root (h : Clean key) : baseOf root ++ "/" ++ key ≠ root := by
  intro heq
  have hlength := congrArg (fun s => s.toList.length) heq
  have hkey : key.toList.length ≠ 0 := by simpa using h.nonempty
  unfold baseOf at hlength
  split_ifs at hlength
  all_goals
    simp only [String.toList_append, List.length_append] at hlength
    simp at hlength
    omega

end Keys

/-! ## Keys of issued objects -/

section Issued
variable {s : String} {digits : List Char} {parts : SourcePath}

theorem byteSize_append (a b : String) : byteSize (a ++ b) = byteSize a + byteSize b :=
  String.utf8ByteSize_append

theorem value_lt (h : ∀ c ∈ digits, c.isDigit = true) :
    Decimal.value digits < 10 ^ digits.length := by
  induction digits using List.reverseRecOn with
  | nil => decide
  | append_singleton digits c ih =>
    have hrest := ih fun d hd => h d (List.mem_append_left _ hd)
    have hdigit := (Decimal.digit_eq (h c (by simp))).1
    rw [Decimal.value_append_singleton, List.length_append, List.length_singleton, Nat.pow_succ]
    omega

/-- The number of a time is written with no more digits than it was read from. -/
theorem byteSize_epoch (h : Spelled s digits parts) :
    byteSize (toString parts.epochMillis) ≤ byteSize (String.ofList digits) := by
  have hnonneg : 0 ≤ parts.epochMillis := h.epoch ▸ strtoll_nonneg digits
  obtain ⟨m, hm⟩ := Int.eq_ofNat_of_zero_le hnonneg
  have hle : m ≤ Decimal.value digits := by
    have hepoch := h.epoch
    rw [strtoll_eq] at hepoch
    omega
  have hnumeral : toString (m : Int) = String.ofList (Nat.toDigits 10 m) := by
    apply String.toList_inj.mp
    rw [toList_toString_natCast, String.toList_ofList]
  have hlength : (Nat.toDigits 10 m).length ≤ digits.length :=
    (Nat.length_toDigits_le_iff (by decide) (List.length_pos_of_ne_nil h.nonempty)).mpr
      (hle.trans_lt (value_lt h.numeric))
  rwa [hm, hnumeral, byteSize_ofList (isAscii_of_digits fun c hc => Decimal.isDigit_of_mem hc),
    byteSize_ofList (isAscii_of_digits h.numeric)]

/-- What a key is made of. -/
structure Segmented (parts : SourcePath) : Prop where
  user : isSafeSegment parts.userId = true
  file : isSafeSegment parts.fileId = true
  epoch : 0 ≤ parts.epochMillis
  timestamp : isTimestampShape parts.timestamp = true
  length : byteSize (makePosixKey parts) ≤ maxKeyBytes

theorem segmented_of_made (h : makeFileSource parts = .ok s) : Segmented parts := by
  have hmade := made_of_ok h
  have hlength := hmade.length
  rw [makeFileSource_eq_ok h, byteSize_append] at hlength
  exact ⟨hmade.user, hmade.file, hmade.epoch.le, hmade.timestamp,
    (Nat.le_add_left _ _).trans hlength⟩

theorem segmented_of_spelled (h : Spelled s digits parts) : Segmented parts := by
  have hs : s = "/" ++ parts.userId ++ "/" ++ String.ofList digits ++ "-" ++ parts.timestamp ++
      "/" ++ parts.fileId := by
    apply String.toList_inj.mp
    rw [h.chars]
    simp [String.toList_append]
  have hlength := h.length
  have hepoch := byteSize_epoch h
  rw [hs] at hlength
  refine ⟨h.user, h.file, h.epoch ▸ strtoll_nonneg digits, h.timestamp, ?_⟩
  rw [makePosixKey]
  simp only [byteSize_append] at hlength ⊢
  have hbound : maxFileSourceLength = maxKeyBytes := rfl
  omega

theorem downward_of_safe {segment : String} (h : isSafeSegment segment = true) : Downward segment := by
  simp only [isSafeSegment, Bool.and_eq_true, decide_eq_true_eq] at h
  exact ⟨h.1.1.1, h.1.1.2, h.1.2⟩

theorem nul_notMem {cs : List Char} (h : ∀ c ∈ cs, isSegmentChar c = true) : '\x00' ∉ cs :=
  fun hmem => absurd (h _ hmem) (by decide)

theorem segmentChar_of_epoch (h : Segmented parts) :
    ∀ c ∈ (toString parts.epochMillis).toList, isSegmentChar c = true := by
  obtain ⟨m, hm⟩ := Int.eq_ofNat_of_zero_le h.epoch
  rw [hm, toList_toString_natCast]
  exact fun c hc => segmentChar_of_digit (Decimal.isDigit_of_mem hc)

/-- The three segments of the key of an issued object. -/
theorem splitOnChar_makePosixKey (h : Segmented parts) : splitOnChar '/' (makePosixKey parts) =
    [parts.userId, toString parts.epochMillis ++ "-" ++ parts.timestamp, parts.fileId] := by
  have hsingle : ∀ segment : String, '/' ∉ segment.toList → splitOnChar '/' segment = [segment] := by
    intro segment hsegment
    rw [splitOnChar, List.splitOn_eq_singleton hsegment, List.map_singleton, String.ofList_toList]
  have hslash : ∀ {cs : List Char}, (∀ c ∈ cs, isSegmentChar c = true) → '/' ∉ cs :=
    fun hcs hmem => (plain_of_segmentChar (hcs _ hmem)).1 rfl
  have htime : '/' ∉ (toString parts.epochMillis ++ "-" ++ parts.timestamp).toList := by
    simp only [String.toList_append, List.mem_append, not_or]
    exact ⟨⟨hslash (segmentChar_of_epoch h), by decide⟩,
      hslash (segmentChar_of_timestamp h.timestamp)⟩
  have hkey : makePosixKey parts = parts.userId ++ "/" ++
      ((toString parts.epochMillis ++ "-" ++ parts.timestamp) ++ "/" ++ parts.fileId) := by
    simp only [makePosixKey, String.append_assoc]
  rw [hkey, splitOnChar_slash, splitOnChar_slash, hsingle _ (slash_notMem_segment h.user),
    hsingle _ htime, hsingle _ (slash_notMem_segment h.file)]
  rfl

theorem clean_makePosixKey (h : Segmented parts) : Clean (makePosixKey parts) := by
  have huser := downward_of_safe h.user
  have hfile := downward_of_safe h.file
  have hchars := toList_makePosixKey parts
  obtain ⟨u, us, hus⟩ := List.exists_cons_of_ne_nil (fun hnil => huser.1 (String.toList_inj.mp hnil) :
    parts.userId.toList ≠ [])
  have hfiles : parts.fileId.toList ≠ [] := fun hnil => hfile.1 (String.toList_inj.mp hnil)
  refine ⟨?_, h.length, ?_, ?_, ?_, ?_⟩
  · intro heq
    rw [heq, hus] at hchars
    cases hchars
  · rw [hchars]
    simp only [List.mem_append, List.mem_cons, not_or]
    exact ⟨nul_notMem (segmentChar_of_safe h.user), by decide,
      nul_notMem (segmentChar_of_epoch h), by decide,
      nul_notMem (segmentChar_of_timestamp h.timestamp), by decide,
      nul_notMem (segmentChar_of_safe h.file)⟩
  · rw [hchars, hus, List.cons_append, List.head?_cons, ne_eq, Option.some.injEq]
    rintro rfl
    exact slash_notMem_segment h.user (by rw [hus]; exact List.mem_cons_self)
  · intro hlast
    have hmem : '/' ∈ parts.fileId.toList := by
      apply List.mem_of_getLast?
      rw [← hlast, makePosixKey, getLast?_toList_append hfile.1]
    exact slash_notMem_segment h.file hmem
  · intro segment hsegment
    rw [splitOnChar_makePosixKey h] at hsegment
    simp only [List.mem_cons, List.not_mem_nil, or_false] at hsegment
    rcases hsegment with rfl | rfl | rfl
    · exact huser
    · have hdash : '-' ∈ (toString parts.epochMillis ++ "-" ++ parts.timestamp).toList := by simp
      refine ⟨?_, ?_, ?_⟩ <;> intro heq <;> rw [heq] at hdash <;> exact absurd hdash (by decide)
    · exact hfile

end Issued

/-- Accepted keys stay below the root and can be told apart by their paths, and the keys of
issued objects are accepted. -/
theorem keys_stay_inside (root : String) (hroot : root ≠ "") :
    (∀ key path, lexicalJoin root key = .ok path →
      path = baseOf root ++ "/" ++ key ∧ path ≠ root ∧
        splitOnChar '/' path = splitOnChar '/' (baseOf root) ++ splitOnChar '/' key ∧
        ∀ here steps, steps <+: splitOnChar '/' key →
          walk here (splitOnChar '/' (baseOf root) ++ steps) =
            walk here (splitOnChar '/' root) ++ steps) ∧
    (∀ key key' path, lexicalJoin root key = .ok path → lexicalJoin root key' = .ok path →
      key = key') ∧
    ∀ s parts, parseFileSource s = .ok parts ∨ makeFileSource parts = .ok s →
      lexicalJoin root (makePosixKey parts) = .ok (baseOf root ++ "/" ++ makePosixKey parts) := by
  refine ⟨?_, ?_, ?_⟩
  · intro key path h
    obtain ⟨hclean, -, rfl⟩ := lexicalJoin_iff.mp h
    refine ⟨rfl, join_ne_root hclean, splitOnChar_join, ?_⟩
    intro here steps hsteps
    rw [walk_append, walk_baseOf]
    exact walk_of_downward fun segment hsegment => hclean.segments segment (hsteps.subset hsegment)
  · intro key key' path h h'
    obtain ⟨-, -, rfl⟩ := lexicalJoin_iff.mp h
    obtain ⟨-, -, hpath⟩ := lexicalJoin_iff.mp h'
    exact (String.append_right_inj _).mp hpath
  · rintro s parts (h | h)
    · obtain ⟨digits, hspelled⟩ := parseFileSource_spelled h
      exact lexicalJoin_iff.mpr ⟨clean_makePosixKey (segmented_of_spelled hspelled), hroot, rfl⟩
    · exact lexicalJoin_iff.mpr ⟨clean_makePosixKey (segmented_of_made h), hroot, rfl⟩

theorem keys_stay_inside_data :
    lexicalJoin "/data/" (makePosixKey ⟨"u", 7, "2021-03-03-15-13-33-120", "f"⟩) =
      .ok (baseOf "/data/" ++ "/" ++ makePosixKey ⟨"u", 7, "2021-03-03-15-13-33-120", "f"⟩) :=
  (keys_stay_inside "/data/" (by decide)).2.2 "/u/07-2021-03-03-15-13-33-120/f" _
    (.inl (by decide +kernel))

end FileService.Safety.KeysInside

import FileService.App.FileListing
import FileService.Common.Decimal
import FileService.Common.Delimited
import FileService.Domain.Schedule

/-!
# Pages by number

The page with a number and a size is a window of the ranked records. The numbers
of a request go through `int`s on the way: into them from the body, and when the
offset is worked out. A page is the one asked for just when its number, its size
and their product all fit.
-/
namespace FileService.App
open FileService.Common FileService.Common.Delimited FileService.Domain FileService.Infra

/-! ## Windows of a list -/

section Windows
variable {α : Type} {items : Nat}

/-- What has the ranks from `pageNum * items` on, `items` of it at most. -/
def window (ranked : List α) (pageNum items : Nat) : List α :=
  (ranked.drop (pageNum * items)).take items

/-- How many windows it takes to see everything. -/
def windowCount (total items : Nat) : Nat := (total + items - 1) / items

theorem windows_start (ranked : List α) (items n : Nat) :
    ((List.range n).flatMap fun k => window ranked k items) = ranked.take (n * items) := by
  induction n with
  | zero => simp
  | succ n ih =>
    rw [List.range_succ, List.flatMap_append, ih, Nat.succ_mul, List.take_add]
    simp [window]

theorem window_eq_nil (hitems : 0 < items) {ranked : List α} {k : Nat} :
    window ranked k items = [] ↔ ranked.length ≤ k * items := by
  rw [window, List.take_eq_nil_iff, List.drop_eq_nil_iff]
  constructor
  · rintro (hzero | hle)
    · omega
    · exact hle
  · exact .inr

theorem le_windowCount (hitems : 0 < items) (total k : Nat) :
    total ≤ k * items ↔ windowCount total items ≤ k := by
  have hless : (total + items - 1) / items < k + 1 ↔ total + items - 1 < (k + 1) * items :=
    Nat.div_lt_iff_lt_mul hitems
  have hexpand : (k + 1) * items = k * items + items := Nat.succ_mul k items
  unfold windowCount
  omega

/-- The windows one after the other show everything once. -/
theorem windows_all (hitems : 0 < items) (ranked : List α) :
    ((List.range (windowCount ranked.length items)).flatMap fun k => window ranked k items) =
      ranked := by
  have hle := (le_windowCount hitems ranked.length _).mpr le_rfl
  rw [windows_start, List.take_of_length_le hle]

end Windows

/-! ## The page asked for -/

/-- What a listing should return: the window of the records that match, ranked by the time of
their creation and then by file id, or that there is nothing in it. -/
def expectedFileList (repo : InMemoryLocationRepository) (partition userId : String)
    (timeFrom timeTo : Int) (pageNum items : Nat) : Except Exit FileListResult :=
  let ranked := repo.matched partition
    { userId, createdAfterEpochSeconds := timeFrom, createdBeforeEpochSeconds := timeTo }
  if 0 ≤ timeFrom ∧ 0 ≤ timeTo ∧ timeTo < timeFrom then
    .error (.error (err .invalidArgument "TimeFrom should be before TimeTo"))
  else if window ranked pageNum items = [] then .error (.error (nothingFound pageNum items))
  else ((window ranked pageNum items).mapM shown).map fun content =>
    { content
      number := pageNum
      numberOfElements := content.length
      size := items
      total := ranked.length }

/-- The request has been made of a body with these two numbers. -/
def Requests (pageNum items : Nat) (request : FileListRequest) : Prop :=
  ∃ toDouble parseIso8601 value, value.find? "PageNum" = some (integerLiteral toDouble pageNum) ∧
    value.find? "Items" = some (integerLiteral toDouble items) ∧
    fileListRequest parseIso8601 value = .ok request

/-- A page with this number and this size is the one asked for, whatever the records are. -/
def PageIsRight (pageNum items : Nat) : Prop :=
  ∀ request, Requests pageNum items request → ∀ d (w : World) u caller, caller.partition ≠ "" →
    listFiles d w u caller request =
      expectedFileList w.locations caller.partition request.userId request.timeFromEpochSeconds
        request.timeToEpochSeconds pageNum items

/-! ## Numbers that fit -/

section Fitting
variable {pageNum items : Nat} {n : Int} {request : FileListRequest}

theorem wrap32_of_fits (hlow : -(2 ^ 31) ≤ n) (hhigh : n < 2 ^ 31) : wrap32 n = n :=
  Int.bmod_eq_of_le (by omega) (by omega)

theorem wrap32_range (n : Int) : -(2 ^ 31) ≤ wrap32 n ∧ wrap32 n < 2 ^ 31 := by
  have hlow := @Int.le_bmod n (2 ^ 32) (by norm_num)
  have hhigh := @Int.bmod_lt n (2 ^ 32) (by norm_num)
  unfold wrap32
  omega

/-- What becomes of a number of the body. -/
def taken (n : Nat) : Int := if n < 2 ^ 64 then wrap32 n else 0

theorem taken_range (n : Nat) : taken n < 2 ^ 31 := by
  unfold taken
  split_ifs
  · exact (wrap32_range n).2
  · norm_num

theorem taken_of_fits {n : Nat} (h : n < 2 ^ 31) : taken n = n := by
  have hword : n < 2 ^ 64 := by omega
  rw [taken, if_pos hword, wrap32_of_fits (by omega) (by omega)]

theorem fits_word (n : Nat) : -(2 ^ 63) ≤ (n : Int) ∧ (n : Int) < 2 ^ 64 ↔ n < 2 ^ 64 := by
  omega

theorem intMember_eq {value : Json.Value} {name : String} {toDouble : Int → UInt64} {n : Nat}
    (h : value.find? name = some (integerLiteral toDouble n)) : intMember value name = taken n := by
  unfold intMember taken integerLiteral at *
  simp only [fits_word] at h
  rw [h]
  split_ifs <;> rfl

theorem Requests.numbers (h : Requests pageNum items request) :
    request.pageNum = taken pageNum ∧ request.items = taken items := by
  obtain ⟨toDouble, parseIso8601, value, hpage, hitems, hrequest⟩ := h
  unfold fileListRequest at hrequest
  cases hfrom : timeMember parseIso8601 value "TimeFrom" with
  | error e =>
    rw [hfrom] at hrequest
    cases hrequest
  | ok timeFrom =>
    cases hto : timeMember parseIso8601 value "TimeTo" with
    | error e =>
      rw [hfrom, hto] at hrequest
      cases hrequest
    | ok timeTo =>
      rw [hfrom, hto] at hrequest
      cases hrequest
      exact ⟨intMember_eq hpage, intMember_eq hitems⟩

theorem list_eq_window (hitems : 0 < items) (repo : InMemoryLocationRepository) (partition : String)
    (query : LocationQuery) (hlimit : query.limit = items)
    (hoffset : query.offset = (pageNum * items : Nat)) :
    repo.list partition query = .ok
      { records := window (repo.matched partition query) pageNum items
        total := (repo.matched partition query).length } := by
  have hpositive : ¬query.limit ≤ 0 := by omega
  have hnonneg : ¬query.offset < 0 := by omega
  unfold InMemoryLocationRepository.list
  rw [if_neg hpositive, if_neg hnonneg, hlimit, hoffset]
  rfl

theorem pageIsRight_of_fits (hitems : 0 < items) (hpage : pageNum < 2 ^ 31) (hsize : items < 2 ^ 31)
    (hoffset : pageNum * items < 2 ^ 31) : PageIsRight pageNum items := by
  intro request hrequest d w u caller hcaller
  obtain ⟨hnumber, hitems'⟩ := hrequest.numbers
  rw [taken_of_fits hpage] at hnumber
  rw [taken_of_fits hsize] at hitems'
  have hproduct : wrap32 (request.pageNum * request.items) = (pageNum * items : Nat) := by
    rw [hnumber, hitems', ← Nat.cast_mul]
    exact wrap32_of_fits (by omega) (by omega)
  have hpositive : ¬request.items ≤ 0 := by omega
  have hnonneg : ¬request.pageNum < 0 := by omega
  rw [listFiles_eq d w u hcaller, if_neg hpositive, if_neg hnonneg, expectedFileList]
  by_cases hinverted : 0 ≤ request.timeFromEpochSeconds ∧ 0 ≤ request.timeToEpochSeconds ∧
      request.timeToEpochSeconds < request.timeFromEpochSeconds
  · rw [if_pos hinverted, if_pos hinverted]
  rw [if_neg hinverted, if_neg hinverted, list_eq_window hitems _ _ _ hitems' hproduct]
  dsimp only
  generalize hranked : w.locations.matched caller.partition _ = ranked
  have hsame : w.locations.matched caller.partition
      { userId := request.userId
        createdAfterEpochSeconds := request.timeFromEpochSeconds
        createdBeforeEpochSeconds := request.timeToEpochSeconds } = ranked := hranked
  rw [hsame, hnumber, hitems']
  by_cases hempty : window ranked pageNum items = []
  · rw [if_pos hempty, if_pos (by simp [hempty])]
  · have hsome : ¬((ranked.length : Int) = 0 ∨ (window ranked pageNum items).isEmpty = true) := by
      simp only [List.isEmpty_iff, hempty, or_false]
      intro hzero
      apply hempty
      rw [window_eq_nil hitems]
      omega
    rw [if_neg hempty, if_neg hsome]

end Fitting

/-! ## Numbers that do not fit -/

section Messages

theorem comma_notMem_toString (n : Int) : ',' ∉ (toString n).toList := by
  intro hmem
  cases n with
  | ofNat m =>
    have hdigits : ',' ∈ Nat.toDigits 10 m := by
      rw [← Nat.toList_repr]
      exact hmem
    exact Decimal.notMem_toDigits (by decide) hdigits
  | negSucc m =>
    have htext : (toString (Int.negSucc m)).toList = '-' :: Nat.toDigits 10 (m + 1) := by
      rw [← Nat.toList_repr]
      exact String.toList_append
    rw [htext] at hmem
    rcases List.mem_cons.mp hmem with hdash | hdigits
    · exact absurd hdash (by decide)
    · exact Decimal.notMem_toDigits (by decide) hdigits

/-- The message names both numbers. -/
theorem nothingFound_inj {p i p' i' : Int} (h : nothingFound p i = nothingFound p' i') :
    p = p' ∧ i = i' := by
  have htexts := congrArg (fun e => e.message.toList) h
  simp only [nothingFound, err, String.toList_append, List.append_assoc] at htexts
  have hrest := List.append_cancel_left htexts
  have hsplit : ", size: ".toList = ',' :: " size: ".toList := by decide
  rw [hsplit, List.cons_append, List.cons_append] at hrest
  obtain ⟨hp, htail⟩ := append_inj_of_notMem (comma_notMem_toString p) (comma_notMem_toString p') hrest
  have hi := List.append_cancel_right (List.append_cancel_left htail)
  exact ⟨Decimal.toString_injective (String.toList_inj.mp hp),
    Decimal.toString_injective (String.toList_inj.mp hi)⟩

/-- No other error reads like it. -/
theorem nothingFound_ne {p i : Int} {kind : ErrorKind} {text : String}
    (htext : text.toList.head? ≠ some 'N') : err kind text ≠ nothingFound p i := by
  intro h
  have hmessage : text = (nothingFound p i).message := congrArg Error.message h
  apply htext
  rw [hmessage]
  simp [nothingFound, err]

end Messages

/-- The request that the route makes of a body with nothing but the two numbers. -/
def pageRequest (pageNum items : Nat) : FileListRequest :=
  { pageNum := taken pageNum, items := taken items }

section Misfitting
variable {pageNum items : Nat}

theorem requests_pageRequest (pageNum items : Nat) :
    Requests pageNum items (pageRequest pageNum items) := by
  let toDouble : Int → UInt64 := fun _ => 0
  let value : Json.Value := .object
    [("Items", integerLiteral toDouble items), ("PageNum", integerLiteral toDouble pageNum)]
  have hpage : value.find? "PageNum" = some (integerLiteral toDouble pageNum) := rfl
  have hitems : value.find? "Items" = some (integerLiteral toDouble items) := rfl
  refine ⟨toDouble, fun _ => .ok 0, value, hpage, hitems, ?_⟩
  have hrequest : fileListRequest (fun _ => .ok 0) value =
      .ok { pageNum := intMember value "PageNum", items := intMember value "Items" } := rfl
  rw [hrequest, intMember_eq hpage, intMember_eq hitems]
  rfl

/-- All the records, in their order. -/
def ranked (w : World) : List FileLocation :=
  w.locations.matched "p"
    { userId := "", createdAfterEpochSeconds := -1, createdBeforeEpochSeconds := -1 }

/-- The records on the page that the numbers lead to. -/
def taking (w : World) (pageNum items : Nat) : List FileLocation :=
  ((ranked w).drop (wrap32 (taken pageNum * taken items)).toNat).take (taken items).toNat

theorem listFiles_pageRequest (w : World) (pageNum items : Nat) :
    listFiles sampleDeployment w samplePorts sampleCaller (pageRequest pageNum items) =
      if taken items ≤ 0 then .error (.error (err .invalidArgument "Items 必须 > 0"))
      else if taken pageNum < 0 then .error (.error (err .invalidArgument "PageNum 必须 >= 0"))
      else if wrap32 (taken pageNum * taken items) < 0 then
        .error (.error (err .invalidArgument "offset 必须 >= 0"))
      else if ((ranked w).length : Int) = 0 ∨ (taking w pageNum items).isEmpty = true then
        .error (.error (nothingFound (taken pageNum) (taken items)))
      else ((taking w pageNum items).mapM shown).map fun content =>
        { content
          number := taken pageNum
          numberOfElements := content.length
          size := taken items
          total := (ranked w).length } := by
  have hcaller : sampleCaller.partition ≠ "" := by decide
  have hupright : ¬((0 : Int) ≤ -1 ∧ (0 : Int) ≤ -1 ∧ (-1 : Int) < -1) := by omega
  rw [listFiles_eq _ _ _ hcaller]
  unfold pageRequest InMemoryLocationRepository.list
  dsimp only
  rw [if_neg hupright]
  by_cases hitems : taken items ≤ 0
  · rw [if_pos hitems, if_pos hitems]
  by_cases hpage : taken pageNum < 0
  · simp only [if_neg hitems, if_pos hpage]
  simp only [if_neg hitems, if_neg hpage]
  by_cases hoffset : wrap32 (taken pageNum * taken items) < 0
  · simp only [if_pos hoffset]
  · simp only [if_neg hoffset]
    rfl

/-- What a page that is right looks like for these requests. -/
theorem right_pageRequest (h : PageIsRight pageNum items) (w : World) :
    listFiles sampleDeployment w samplePorts sampleCaller (pageRequest pageNum items) =
      if window (ranked w) pageNum items = [] then .error (.error (nothingFound pageNum items))
      else ((window (ranked w) pageNum items).mapM shown).map fun content =>
        { content
          number := pageNum
          numberOfElements := content.length
          size := items
          total := (ranked w).length } := by
  have hupright : ¬((0 : Int) ≤ -1 ∧ (0 : Int) ≤ -1 ∧ (-1 : Int) < -1) := by omega
  have hcaller : sampleCaller.partition ≠ "" := by decide
  have hright := h _ (requests_pageRequest pageNum items) sampleDeployment w samplePorts sampleCaller
    hcaller
  unfold expectedFileList at hright
  rw [hright]
  exact if_neg hupright

theorem ranked_empty : ranked {} = [] := by
  simp [ranked, InMemoryLocationRepository.matched, Buckets.entries]

/-- Without records the message has the numbers that the request had, and no offset may be
negative. -/
theorem right_without_records (h : PageIsRight pageNum items) :
    taken pageNum = pageNum ∧ taken items = items ∧ 0 ≤ wrap32 (pageNum * items) := by
  have hright := right_pageRequest h {}
  have hnever : ∀ {kind : ErrorKind} {text : String}, text.toList.head? ≠ some 'N' →
      (.error (.error (err kind text)) : Except Exit FileListResult) ≠
        .error (.error (nothingFound pageNum items)) := by
    intro kind text htext heq
    exact nothingFound_ne htext (by simpa using heq)
  have hnone : window (ranked {}) pageNum items = [] := by simp [window, ranked_empty]
  rw [if_pos hnone, listFiles_pageRequest] at hright
  split_ifs at hright with hitems hpage hoffset hempty
  · exact absurd hright (hnever (by decide))
  · exact absurd hright (hnever (by decide))
  · exact absurd hright (hnever (by decide))
  · obtain ⟨hp, hi⟩ := nothingFound_inj (by simpa using hright)
    rw [hp, hi] at hoffset
    exact ⟨hp, hi, by omega⟩
  · simp [ranked_empty] at hempty

/-! ## Offsets that do not fit -/

/-- A record with this number as its name. -/
def numbered (i : Nat) : FileLocation where
  fileId := Nat.repr i
  fileSource := Nat.repr i

/-- A repository of so many records. -/
def filled : Nat → InMemoryLocationRepository
  | 0 => {}
  | n + 1 => ((filled n).save "p" (numbered n)).2

theorem byFileId_filled (n : Nat) (id : String) (location : FileLocation) :
    (filled n).byFileId "p" id = some location ↔ ∃ i < n, id = Nat.repr i ∧ location = numbered i := by
  induction n generalizing id location with
  | zero => simp [filled, InMemoryLocationRepository.byFileId]
  | succ n ih =>
    have hid : (numbered n).fileId ≠ "" := Nat.repr_ne_empty
    have hfree : ∀ l, (filled n).byFileSource "p" (numbered n).fileSource = some l →
        l.fileId = (numbered n).fileId := by
      intro l hl
      obtain ⟨hfound, hsource⟩ := InMemoryLocationRepository.byFileSource_eq_some.mp hl
      obtain ⟨i, hi, -, rfl⟩ := (ih _ _).mp hfound
      exact hsource
    obtain ⟨hfs, hown, hsave⟩ :=
      InMemoryLocationRepository.save_eq_ok (show "p" ≠ "" by decide) hid hid hfree
    rw [filled, hsave, InMemoryLocationRepository.byFileId_put]
    by_cases hsame : Nat.repr n = id
    · rw [if_pos ⟨rfl, hsame⟩, Option.some_inj]
      constructor
      · rintro rfl
        exact ⟨n, Nat.lt_succ_self n, hsame.symm, rfl⟩
      · rintro ⟨i, -, hi, rfl⟩
        rw [Decimal.repr_injective (hsame.trans hi)]
    · rw [if_neg fun h => hsame h.2, ih]
      constructor
      · rintro ⟨i, hi, rest⟩
        exact ⟨i, Nat.lt_succ_of_lt hi, rest⟩
      · rintro ⟨i, hi, rfl, rest⟩
        have hne : i ≠ n := by
          rintro rfl
          exact hsame rfl
        exact ⟨i, by omega, rfl, rest⟩

theorem ranked_filled (n : Nat) :
    (ranked { locations := filled n }).length = n ∧
      ∀ location ∈ ranked { locations := filled n }, ∃ i, location = numbered i := by
  have hmem : ∀ id location, (id, location) ∈ (filled n).table.byId.entries "p" ↔
      ∃ i < n, id = Nat.repr i ∧ location = numbered i := fun id location =>
    Buckets.mem_entries.trans (byFileId_filled n id location)
  constructor
  · have hall : ranked { locations := filled n } =
        (((filled n).table.byId.entries "p").map Prod.snd).insertionSort
          InMemoryLocationRepository.listedBefore := by
      unfold ranked InMemoryLocationRepository.matched
      rw [List.filter_eq_self.mpr]
      simp [InMemoryLocationRepository.matchesQuery]
    have hnames : (((filled n).table.byId.entries "p").map Prod.fst).toFinset =
        (Finset.range n).image Nat.repr := by
      ext id
      simp [hmem, eq_comm]
    have hnodup : (((filled n).table.byId.entries "p").map Prod.fst).Nodup :=
      (List.pairwise_map.mpr (Buckets.entries_sorted _ _)).imp fun hless heq =>
        absurd (heq ▸ hless) (String.lt_irrefl _)
    have hcard := congrArg Finset.card hnames
    rw [List.toFinset_card_of_nodup hnodup, Finset.card_image_of_injective _ Decimal.repr_injective,
      Finset.card_range, List.length_map] at hcard
    rw [hall, List.length_insertionSort, List.length_map, hcard]
  · intro location hlocation
    obtain ⟨i, -, -, hi⟩ := (byFileId_filled n _ _).mp
      (InMemoryLocationRepository.mem_matched.mp hlocation).1
    exact ⟨i, hi⟩

theorem shown_numbered (i : Nat) : ∃ entry, shown (numbered i) = .ok entry := ⟨_, rfl⟩

theorem mapM_shown {locations : List FileLocation} (h : ∀ l ∈ locations, ∃ i, l = numbered i) :
    ∃ content, locations.mapM shown = .ok content := by
  induction locations with
  | nil => exact ⟨[], rfl⟩
  | cons l locations ih =>
    obtain ⟨i, rfl⟩ := h l (by simp)
    obtain ⟨entry, hentry⟩ := shown_numbered i
    obtain ⟨content, hcontent⟩ := ih fun l' hl' => h l' (by simp [hl'])
    exact ⟨entry :: content, by rw [List.mapM_cons, hentry, hcontent]; rfl⟩

/-- With so many records there is one with the rank that the wrapped product has. -/
theorem listFiles_filled {offset : Nat} (hitems : 0 < items) (hpage : taken pageNum = pageNum)
    (hsize : taken items = items) (hwrapped : wrap32 (pageNum * items) = offset) :
    ∃ result, listFiles sampleDeployment { locations := filled (offset + 1) } samplePorts sampleCaller
      (pageRequest pageNum items) = .ok result := by
  obtain ⟨hcount, hnumbered⟩ := ranked_filled (offset + 1)
  generalize ({ locations := filled (offset + 1) } : World) = w at *
  have htaking : taking w pageNum items = ((ranked w).drop offset).take items := by
    unfold taking
    rw [hpage, hsize, hwrapped]
    rfl
  have hsome : ¬(((ranked w).length : Int) = 0 ∨ (taking w pageNum items).isEmpty = true) := by
    rw [htaking, List.isEmpty_iff, List.take_eq_nil_iff, List.drop_eq_nil_iff, hcount]
    omega
  obtain ⟨content, hcontent⟩ := @mapM_shown (taking w pageNum items) fun l hl =>
    hnumbered l (List.mem_of_mem_drop (List.mem_of_mem_take hl))
  rw [listFiles_pageRequest, hpage, hsize, if_neg (by omega), if_neg (by omega),
    if_neg (by omega), if_neg hsome, hcontent]
  exact ⟨_, rfl⟩

theorem fits_of_right (hitems : 0 < items) (h : PageIsRight pageNum items) :
    pageNum < 2 ^ 31 ∧ items < 2 ^ 31 ∧ pageNum * items < 2 ^ 31 := by
  obtain ⟨hpage, hsize, hoffset⟩ := right_without_records h
  have hpageFits := taken_range pageNum
  have hsizeFits := taken_range items
  refine ⟨by omega, by omega, ?_⟩
  by_contra hlarge
  have hrange := (wrap32_range (pageNum * items)).2
  obtain ⟨offset, hwrapped⟩ := Int.eq_ofNat_of_zero_le hoffset
  obtain ⟨result, hresult⟩ := listFiles_filled hitems hpage hsize hwrapped
  have hright := right_pageRequest h { locations := filled (offset + 1) }
  have hnothing : window (ranked { locations := filled (offset + 1) }) pageNum items = [] := by
    rw [window_eq_nil hitems, (ranked_filled (offset + 1)).1]
    omega
  rw [if_pos hnothing, hresult] at hright
  cases hright

/-- A page is the one asked for, whatever the records are, just when its number, its size and
their product are below 2 to the 31; and if that is so up to the page behind the last one, the
pages show every record once. -/
theorem page_requests_exact (items : Nat) (hitems : 0 < items) :
    (∀ pageNum, PageIsRight pageNum items ↔
      pageNum < 2 ^ 31 ∧ items < 2 ^ 31 ∧ pageNum * items < 2 ^ 31) ∧
    ∀ ranked : List FileLocation, items < 2 ^ 31 →
      windowCount ranked.length items * items < 2 ^ 31 →
      (∀ pageNum ≤ windowCount ranked.length items, PageIsRight pageNum items) ∧
      (∀ pageNum, window ranked pageNum items = [] ↔ windowCount ranked.length items ≤ pageNum) ∧
      ((List.range (windowCount ranked.length items)).flatMap fun pageNum =>
        window ranked pageNum items) = ranked := by
  constructor
  · intro pageNum
    constructor
    · exact fits_of_right hitems
    · rintro ⟨hpage, hsize, hoffset⟩
      exact pageIsRight_of_fits hitems hpage hsize hoffset
  · intro ranked hsize hlast
    refine ⟨?_, ?_, windows_all hitems ranked⟩
    · intro pageNum hle
      have hoffset : pageNum * items < 2 ^ 31 := (Nat.mul_le_mul_right items hle).trans_lt hlast
      have hpage : pageNum < 2 ^ 31 := (Nat.le_mul_of_pos_right pageNum hitems).trans_lt hoffset
      exact pageIsRight_of_fits hitems hpage hsize hoffset
    · intro pageNum
      rw [window_eq_nil hitems, le_windowCount hitems]

theorem first_pages_right : PageIsRight 3 10 ∧ ¬PageIsRight 65536 65536 :=
  ⟨((page_requests_exact 10 (by decide)).1 3).mpr (by decide),
    fun h => absurd (((page_requests_exact 65536 (by decide)).1 65536).mp h) (by decide)⟩

/-- With one record, the page 65536 of the size 65536 has it, and should have nothing. -/
theorem far_page_is_the_first : ¬∀ pageNum items, 0 < items → PageIsRight pageNum items := by
  intro hall
  have hright := right_pageRequest (hall 65536 65536 (by decide)) { locations := filled 1 }
  obtain ⟨result, hresult⟩ := @listFiles_filled 65536 65536 0 (by decide) (by decide) (by decide)
    (by decide)
  have hnothing : window (ranked { locations := filled 1 }) 65536 65536 = [] := by
    rw [window_eq_nil (by decide), (ranked_filled 1).1]
    decide
  rw [if_pos hnothing, hresult] at hright
  cases hright

end Misfitting

end FileService.App

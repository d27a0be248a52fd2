import FileService.Posix.Listing

/-!
# Going through all pages

Whoever follows the tokens of a listing sees every object that is there all the
time once, in the order of the keys, although objects come and go between the
pages.
-/
namespace FileService.Posix
open FileService.Common FileService.Common.Paging FileService.Domain FileService.Infra

section Iteration
variable {C : Type} {list : C → String → Result ListPage} {Valid : C → Prop}
variable {content : C → List ListEntry} {pre token : String} {limit : Nat}

/-- The caller goes on with the token of each page until there is none; every call finds a content
of its own. -/
inductive Iterates (list : C → String → Result ListPage) :
    String → List C → List (List ListEntry) → Prop
  | last {token : String} {c : C} {page : ListPage} :
      list c token = .ok page → page.continuationToken = "" →
      Iterates list token [c] [page.entries]
  | more {token : String} {c : C} {page : ListPage} {cs : List C}
      {pages : List (List ListEntry)} :
      list c token = .ok page → page.continuationToken ≠ "" →
      Iterates list page.continuationToken cs pages →
      Iterates list token (c :: cs) (page.entries :: pages)

/-- A listing that is complete whatever comes and goes between its pages. -/
structure CompleteListing (list : C → String → Result ListPage) (Valid : C → Prop)
    (Has : C → String → Prop) (pre : String) (limit : Nat) : Prop where
  increasing : ∀ cs pages, (∀ c ∈ cs, Valid c) → Iterates list "" cs pages →
    Increasing ListEntry.key pages.flatten
  genuine : ∀ cs pages, (∀ c ∈ cs, Valid c) → Iterates list "" cs pages →
    List.Forall₂ (fun c page => ∀ e ∈ page, Has c e.key ∧ Text.startsWith e.key pre = true) cs pages
  complete : ∀ cs pages k, (∀ c ∈ cs, Valid c) → Iterates list "" cs pages →
    Text.startsWith k pre = true → (∀ c ∈ cs, Has c k) → k ∈ pages.flatten.map ListEntry.key
  ends : ∀ (contents : Nat → C) (K : Finset String), (∀ n, Valid (contents n)) →
    (∀ n k, Has (contents n) k → Text.startsWith k pre = true → k ∈ K) →
    ∃ n pages, n * limit ≤ K.card ∧ Iterates list "" ((List.range (n + 1)).map contents) pages

/-- Every call returns the page of what is left of the content behind the token. -/
structure ListsBy (list : C → String → Result ListPage) (Valid : C → Prop)
    (content : C → List ListEntry) (pre : String) (limit : Nat) : Prop where
  increasing : ∀ c, Valid c → Increasing ListEntry.key (content c)
  matching : ∀ c, Valid c → ∀ e ∈ content c, e.key ≠ "" ∧ Text.startsWith e.key pre = true
  listed : ∀ c token, Valid c → token = "" ∨ Text.startsWith token pre = true →
    list c token = .ok (pageOf limit (remaining ListEntry.key (tokenOf token) (content c)))

theorem entries_pageOf (rest : List ListEntry) : (pageOf limit rest).entries = rest.take limit := by
  unfold pageOf
  split_ifs <;> rfl

/-- The token of a page is that of the pages in general. -/
theorem token_pageOf {rest : List ListEntry} (hlimit : 0 < limit)
    (hrest : ∀ e ∈ rest, e.key ≠ "" ∧ Text.startsWith e.key pre = true) :
    nextToken ListEntry.key limit rest = tokenOf (pageOf limit rest).continuationToken ∧
      ((pageOf limit rest).continuationToken = "" ∨
        Text.startsWith (pageOf limit rest).continuationToken pre = true) := by
  unfold nextToken pageOf
  by_cases hlength : rest.length ≤ limit
  · rw [if_pos hlength, if_pos hlength]
    exact ⟨rfl, .inl rfl⟩
  · rw [if_neg hlength, if_neg hlength]
    cases hlast : (rest.take limit).getLast? with
    | none =>
      have hempty := List.take_eq_nil_iff.mp (List.getLast?_eq_none_iff.mp hlast)
      rcases hempty with hzero | hnil
      · omega
      · rw [hnil] at hlength
        exact absurd (Nat.zero_le _) hlength
    | some e =>
      obtain ⟨hkey, hpre⟩ := hrest e (List.mem_of_mem_take (List.mem_of_getLast? hlast))
      exact ⟨(if_neg hkey).symm, .inr hpre⟩

section Lists
variable (h : ListsBy list Valid content pre limit) (hlimit : 0 < limit)
include h hlimit

theorem ListsBy.page {c : C} (hc : Valid c)
    (htoken : token = "" ∨ Text.startsWith token pre = true) :
    ∃ page, list c token = .ok page ∧
      page.entries = (remaining ListEntry.key (tokenOf token) (content c)).take limit ∧
      nextToken ListEntry.key limit (remaining ListEntry.key (tokenOf token) (content c)) =
        tokenOf page.continuationToken ∧
      (page.continuationToken = "" ∨ Text.startsWith page.continuationToken pre = true) := by
  refine ⟨_, h.listed c token hc htoken, entries_pageOf _, ?_⟩
  apply token_pageOf hlimit
  intro e he
  exact h.matching c hc e (mem_remaining.mp he).1

/-- The pages that a caller gets are the pages of the contents it finds. -/
theorem ListsBy.iterates_iff {cs : List C} {pages : List (List ListEntry)}
    (hcs : ∀ c ∈ cs, Valid c) (htoken : token = "" ∨ Text.startsWith token pre = true) :
    Iterates list token cs pages ↔
      Pages ListEntry.key limit (tokenOf token) (cs.map content) pages := by
  induction cs generalizing token pages with
  | nil =>
    constructor
    · intro hiterates
      cases hiterates
    · intro hpages
      cases hpages
  | cons c cs ih =>
    obtain ⟨page, hpage, hentries, hnext, hstart⟩ :=
      h.page hlimit (hcs c List.mem_cons_self) htoken
    have hrest := fun c' hc' => hcs c' (List.mem_cons_of_mem _ hc')
    constructor
    · intro hiterates
      cases hiterates with
      | last hlist hlast =>
        obtain rfl := Except.ok.inj (hpage.symm.trans hlist)
        rw [hentries]
        apply Pages.last
        rw [hnext, hlast]
        rfl
      | more hlist hmore hiterates =>
        obtain rfl := Except.ok.inj (hpage.symm.trans hlist)
        rw [hentries]
        have hpages := (ih hrest hstart).mp hiterates
        have htoken' : tokenOf page.continuationToken = some page.continuationToken := if_neg hmore
        rw [htoken'] at hnext hpages
        exact .more hnext hpages
    · intro hpages
      cases cs with
      | nil =>
        cases hpages with
        | last hnone =>
          rw [← hentries]
          apply Iterates.last hpage
          by_contra hmore
          rw [hnext, tokenOf, if_neg hmore] at hnone
          cases hnone
        | more _ hpages => cases hpages
      | cons c' cs =>
        cases hpages with
        | more hsome hpages =>
          have hmore : page.continuationToken ≠ "" := by
            intro hempty
            rw [hnext, tokenOf, if_pos hempty] at hsome
            cases hsome
          have htoken' : tokenOf page.continuationToken = some page.continuationToken := if_neg hmore
          rw [hnext, htoken', Option.some.injEq] at hsome
          subst hsome
          rw [← htoken'] at hpages
          rw [← hentries]
          exact .more hpage hmore ((ih hrest hstart).mpr hpages)

theorem ListsBy.completeListing {Has : C → String → Prop}
    (hhas : ∀ c k, Valid c → ((∃ e ∈ content c, e.key = k) ↔
      Has c k ∧ Text.startsWith k pre = true)) :
    CompleteListing list Valid Has pre limit := by
  have hstart : ("" : String) = "" ∨ Text.startsWith "" pre = true := .inl rfl
  have hincreasing : ∀ {cs : List C}, (∀ c ∈ cs, Valid c) →
      ∀ c ∈ cs.map content, Increasing ListEntry.key c := by
    intro cs hcs found hfound
    obtain ⟨c, hc, rfl⟩ := List.mem_map.mp hfound
    exact h.increasing c (hcs c hc)
  constructor
  · intro cs pages hcs hiterates
    exact (((h.iterates_iff hlimit hcs hstart).mp hiterates).increasing (hincreasing hcs)).2
  · intro cs pages hcs hiterates
    have hpages := ((h.iterates_iff hlimit hcs hstart).mp hiterates).genuine
    rw [List.forall₂_map_left_iff] at hpages
    have hboth := (List.forall₂_and_left cs pages).mpr ⟨hcs, hpages⟩
    apply hboth.imp
    rintro c page ⟨hc, hpage⟩ e he
    exact (hhas c e.key hc).mp ⟨e, hpage he, rfl⟩
  · intro cs pages k hcs hiterates hk hall
    apply ((h.iterates_iff hlimit hcs hstart).mp hiterates).complete hlimit (hincreasing hcs)
    · intro found hfound
      obtain ⟨c, hc, rfl⟩ := List.mem_map.mp hfound
      obtain ⟨e, he, hkey⟩ := (hhas c k (hcs c hc)).mpr ⟨hall c hc, hk⟩
      exact List.mem_map.mpr ⟨e, he, hkey⟩
    · exact behind_none k
  · intro contents K hvalid hK
    have hkeys : ∀ n, ∀ e ∈ content (contents n), e.key ∈ K := by
      intro n e he
      obtain ⟨hhas', hpre⟩ := (hhas (contents n) e.key (hvalid n)).mp ⟨e, he, rfl⟩
      exact hK n e.key hhas' hpre
    obtain ⟨n, pages, hn, hpages⟩ := exists_pages hlimit K (fun n => content (contents n))
      (fun n => h.increasing _ (hvalid n)) hkeys none
    refine ⟨n, pages, hn.trans (Finset.card_filter_le ..), ?_⟩
    apply (h.iterates_iff hlimit _ hstart).mpr
    · rw [List.map_map]
      exact hpages
    · intro c hc
      obtain ⟨m, -, rfl⟩ := List.mem_map.mp hc
      exact hvalid m

end Lists

end Iteration

/-! ## Both stores -/

section Stores
variable {store : PosixBlobStore} {container dir pre : String} {limit : Int} {now : Int}

/-- The object is in the directory. -/
def Directory.Has (directory : Directory) (k : String) : Prop :=
  ∃ f ∈ directory.files, f.regular = true ∧ isInternalKey f.relative = false ∧ f.relative = k

/-- The objects of the memory are the files of the directory, and none of them is internal. -/
structure SameObjects (memory : InMemoryBlobStore) (container : String) (directory : Directory)
    (now : Int) : Prop where
  external : ∀ f ∈ directory.files, f.regular = true → isInternalKey f.relative = false
  same : ∀ e : ListEntry,
    e ∈ (memory.containers.entries container).map InMemoryBlobStore.entryOf ↔
      ∃ f ∈ directory.files, f.regular = true ∧ entryOf now f = e

theorem memory_entries_increasing (memory : InMemoryBlobStore) (container : String) :
    Increasing ListEntry.key
      ((memory.containers.entries container).map InMemoryBlobStore.entryOf) := by
  unfold Increasing
  rw [List.map_map, List.pairwise_map]
  exact memory.containers.entries_sorted container

/-- A page behind the prefix or the token, in both forms of the search. -/
theorem takeWhile_eq_remaining {content : List ListEntry} {token : String}
    (hcontent : Increasing ListEntry.key content)
    (htoken : token = "" ∨ Text.startsWith token pre = true) :
    (if token = "" then content.filter fun e => decide (pre ≤ e.key)
      else content.filter fun e => decide (token < e.key)).takeWhile
        (fun e => Text.startsWith e.key pre) =
      remaining ListEntry.key (tokenOf token) (matching pre content) := by
  rw [remaining_tokenOf]
  by_cases hempty : token = ""
  · rw [if_pos hempty, if_pos hempty]
    exact takeWhile_from_prefix hcontent
  · rw [if_neg hempty, if_neg hempty]
    exact takeWhile_from_token hcontent (htoken.resolve_left hempty)

theorem mem_matching {content : List ListEntry} {e : ListEntry} :
    e ∈ matching pre content ↔ e ∈ content ∧ Text.startsWith e.key pre = true := List.mem_filter

theorem posix_listsBy {limit : Nat} (hdir : store.containerDir container = .ok dir)
    (hlimit : 0 < limit) :
    ListsBy (fun (c : Directory × Int) token => store.list c.2 (some c.1) container pre token limit)
      (fun _ => True) (fun c => matching pre (c.1.entries c.2)) pre limit := by
  constructor
  · intro c _
    exact (c.1.entries_increasing c.2).sublist (List.filter_sublist.map _)
  · intro c _ e he
    obtain ⟨he, hpre⟩ := mem_matching.mp he
    obtain ⟨f, hf, rfl⟩ := List.mem_map.mp he
    exact ⟨c.1.named f (Directory.mem_found.mp hf).1, hpre⟩
  · intro c token _ htoken
    rw [posix_list_eq hdir hlimit, takeWhile_eq_remaining (c.1.entries_increasing c.2) htoken]

theorem memory_listsBy {limit : Nat} (hlimit : 0 < limit) :
    ListsBy (fun (memory : InMemoryBlobStore) token => memory.list container pre token limit)
      (fun memory => memory.containers[container]?.isSome)
      (fun memory => matching pre
        ((memory.containers.entries container).map InMemoryBlobStore.entryOf)) pre limit := by
  constructor
  · intro memory _
    exact (memory_entries_increasing memory container).sublist (List.filter_sublist.map _)
  · intro memory _ e he
    obtain ⟨he, hpre⟩ := mem_matching.mp he
    obtain ⟨⟨k, o⟩, ho, rfl⟩ := List.mem_map.mp he
    exact ⟨(memory.addressed (Buckets.mem_entries.mp ho)).2, hpre⟩
  · intro memory token hmemory htoken
    rw [memory_list_eq hmemory hlimit,
      takeWhile_eq_remaining (memory_entries_increasing memory container) htoken]

theorem posix_has (c : Directory × Int) (k : String) :
    (∃ e ∈ matching pre (c.1.entries c.2), e.key = k) ↔
      c.1.Has k ∧ Text.startsWith k pre = true := by
  constructor
  · rintro ⟨e, he, rfl⟩
    obtain ⟨he, hpre⟩ := mem_matching.mp he
    obtain ⟨f, hf, rfl⟩ := List.mem_map.mp he
    obtain ⟨hfile, hregular, hexternal⟩ := Directory.mem_found.mp hf
    exact ⟨⟨f, hfile, hregular, hexternal, rfl⟩, hpre⟩
  · rintro ⟨⟨f, hfile, hregular, hexternal, rfl⟩, hpre⟩
    refine ⟨entryOf c.2 f, mem_matching.mpr ⟨?_, hpre⟩, rfl⟩
    exact List.mem_map_of_mem (Directory.mem_found.mpr ⟨hfile, hregular, hexternal⟩)

theorem memory_has (memory : InMemoryBlobStore) (k : String) :
    (∃ e ∈ matching pre ((memory.containers.entries container).map InMemoryBlobStore.entryOf),
      e.key = k) ↔ (memory.objectAt container k).isSome ∧ Text.startsWith k pre = true := by
  constructor
  · rintro ⟨e, he, rfl⟩
    obtain ⟨he, hpre⟩ := mem_matching.mp he
    obtain ⟨⟨k, o⟩, ho, rfl⟩ := List.mem_map.mp he
    exact ⟨Option.isSome_iff_exists.mpr ⟨o, Buckets.mem_entries.mp ho⟩, hpre⟩
  · rintro ⟨hobject, hpre⟩
    obtain ⟨o, ho⟩ := Option.isSome_iff_exists.mp hobject
    refine ⟨InMemoryBlobStore.entryOf (k, o), mem_matching.mpr ⟨?_, hpre⟩, rfl⟩
    exact List.mem_map_of_mem (Buckets.mem_entries.mpr ho)

/-- The same objects make the same entries. -/
theorem SameObjects.entries_eq {memory : InMemoryBlobStore} {directory : Directory}
    (h : SameObjects memory container directory now) :
    (memory.containers.entries container).map InMemoryBlobStore.entryOf = directory.entries now := by
  have hmemory := memory_entries_increasing memory container
  have hposix := directory.entries_increasing now
  unfold Increasing at hmemory hposix
  rw [List.pairwise_map] at hmemory hposix
  have hirrefl : Std.Irrefl fun a b : ListEntry => a.key < b.key := ⟨fun a => lt_irrefl a.key⟩
  have hantisymm : Std.Antisymm fun a b : ListEntry => a.key < b.key :=
    ⟨fun a b hab hba => absurd hab hba.asymm⟩
  apply hmemory.eq_of_mem_iff hposix
  intro e
  rw [h.same]
  constructor
  · rintro ⟨f, hf, hregular, rfl⟩
    exact List.mem_map_of_mem (Directory.mem_found.mpr ⟨hf, hregular, h.external f hf hregular⟩)
  · intro he
    obtain ⟨f, hf, rfl⟩ := List.mem_map.mp he
    obtain ⟨hfile, hregular, -⟩ := Directory.mem_found.mp hf
    exact ⟨f, hfile, hregular, rfl⟩

/-- Following the tokens is complete on both stores, and where they hold the same objects they
return the same pages. -/
theorem listings_complete (hlimit : 0 < limit) (hdir : store.containerDir container = .ok dir) :
    CompleteListing
      (fun (memory : InMemoryBlobStore) token => memory.list container pre token limit)
      (fun memory => memory.containers[container]?.isSome)
      (fun memory k => (memory.objectAt container k).isSome) pre limit.toNat ∧
    CompleteListing
      (fun (c : Directory × Int) token => store.list c.2 (some c.1) container pre token limit)
      (fun _ => True) (fun c => c.1.Has) pre limit.toNat ∧
    ∀ (memory : InMemoryBlobStore) (directory : Directory) (now : Int) (token : String),
      memory.containers[container]?.isSome → SameObjects memory container directory now →
      memory.list container pre token limit =
        store.list now (some directory) container pre token limit := by
  obtain ⟨n, rfl⟩ := Int.eq_ofNat_of_zero_le hlimit.le
  have hn : 0 < n := by omega
  refine ⟨?_, ?_, ?_⟩
  · exact (memory_listsBy hn).completeListing hn fun memory k _ => memory_has memory k
  · exact (posix_listsBy hdir hn).completeListing hn fun c k _ => posix_has c k
  · intro memory directory now token hmemory hsame
    rw [memory_list_eq hmemory hn, posix_list_eq hdir hn, hsame.entries_eq]

/-- A store below `/r`. -/
def sampleListed : PosixBlobStore where
  root := "/r"
  pid := 1
  tmpToken := "t"
  sha256Hex := fun _ => ""
  dump := fun _ => []
  parseObject := fun _ => .ok (.object [])

/-- Two objects and a directory. -/
def sampleDirectory : Directory where
  files := [⟨"b/2", true, some 7, some 1⟩, ⟨"b", false, none, none⟩, ⟨"a", true, some 5, some 0⟩]
  nodup := by decide
  named := by decide

/-- Page by page, one entry at a time, both objects are found. -/
theorem sample_listed : ∃ cs pages, Iterates (fun (c : Directory × Int) token =>
    sampleListed.list c.2 (some c.1) "c" "" token 1) "" cs pages ∧
      "a" ∈ pages.flatten.map ListEntry.key ∧ "b/2" ∈ pages.flatten.map ListEntry.key := by
  have hdir : sampleListed.containerDir "c" = .ok "/r/c" := by decide
  have hposix := (@listings_complete sampleListed "c" "/r/c" "" 1 (by decide) hdir).2.1
  obtain ⟨n, pages, -, hiterates⟩ := hposix.ends (fun _ => (sampleDirectory, 0)) {"b/2", "a"}
    (fun _ => trivial) (by
      rintro n k ⟨f, hf, hregular, -, rfl⟩ -
      revert f
      decide)
  have hall : ∀ {k}, sampleDirectory.Has k →
      ∀ c ∈ (List.range (n + 1)).map fun _ => (sampleDirectory, (0 : Int)), c.1.Has k := by
    intro k hk c hc
    obtain ⟨m, -, rfl⟩ := List.mem_map.mp hc
    exact hk
  have hin : ∀ {k}, sampleDirectory.Has k → k ∈ pages.flatten.map ListEntry.key := fun hk =>
    hposix.complete _ pages _ (fun _ _ => trivial) hiterates (by simp [Text.startsWith]) (hall hk)
  refine ⟨_, pages, hiterates, hin ?_, hin ?_⟩
  · exact ⟨⟨"a", true, some 5, some 0⟩, by simp [sampleDirectory], rfl, by decide, rfl⟩
  · exact ⟨⟨"b/2", true, some 7, some 1⟩, by simp [sampleDirectory], rfl, by decide, rfl⟩

end Stores

end FileService.Posix

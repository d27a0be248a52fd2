import Mathlib.Tactic

/-!
# Paging with the last key as the token

A content is listed in pages in the order of its keys. The token of a page is
the key of its last entry, and the next page takes what comes behind it, from
the content as it is by then.
-/
namespace FileService.Common.Paging
variable {α κ : Type} [LinearOrder κ] (key : α → κ) (limit : Nat)

/-- The key comes behind the token. -/
def Behind (token : Option κ) (k : κ) : Prop := ∀ t, token = some t → t < k

instance (token : Option κ) (k : κ) : Decidable (Behind token k) :=
  match token with
  | none => isTrue nofun
  | some t => decidable_of_iff (t < k) ⟨fun h _ ht => Option.some.inj ht ▸ h, fun h => h t rfl⟩

@[simp] theorem behind_none (k : κ) : Behind none k := nofun

@[simp] theorem behind_some {t k : κ} : Behind (some t) k ↔ t < k :=
  ⟨fun h => h t rfl, fun h _ ht => Option.some.inj ht ▸ h⟩

/-- What is left of a content behind the token. -/
def remaining (token : Option κ) (content : List α) : List α :=
  content.filter fun a => decide (Behind token (key a))

/-- The token of the page that is taken from what is left, or none for the last page. -/
def nextToken (rest : List α) : Option κ :=
  if rest.length ≤ limit then none else (rest.take limit).getLast?.map key

/-- The pages from a token on, with the content that each of them was taken from. -/
inductive Pages : Option κ → List (List α) → List (List α) → Prop
  | last {token : Option κ} {content : List α} :
      nextToken key limit (remaining key token content) = none →
      Pages token [content] [(remaining key token content).take limit]
  | more {token : Option κ} {t : κ} {content : List α} {contents pages : List (List α)} :
      nextToken key limit (remaining key token content) = some t → Pages (some t) contents pages →
      Pages token (content :: contents) ((remaining key token content).take limit :: pages)

/-- Every key once, in increasing order. -/
abbrev Increasing (content : List α) : Prop := (content.map key).Pairwise (· < ·)

section Page
variable {key limit} {rest content : List α} {token : Option κ} {t : κ}

theorem mem_remaining {a : α} :
    a ∈ remaining key token content ↔ a ∈ content ∧ Behind token (key a) := by
  simp [remaining]

theorem Increasing.remaining (h : Increasing key content) (token : Option κ) :
    Increasing key (remaining key token content) :=
  h.sublist (List.filter_sublist.map key)

theorem Increasing.take (h : Increasing key rest) : Increasing key (rest.take limit) :=
  h.sublist ((List.take_sublist limit rest).map key)

omit [LinearOrder κ] in
theorem length_take_of_nextToken (h : nextToken key limit rest = some t) :
    (rest.take limit).length = limit := by
  unfold nextToken at h
  split_ifs at h with hlength
  rw [List.length_take]
  omega

/-- The token is the last key of its page: the page ends there, and what is left comes behind. -/
theorem nextToken_splits (hrest : Increasing key rest) (h : nextToken key limit rest = some t) :
    (∀ a ∈ rest.take limit, key a ≤ t) ∧ ∀ a ∈ rest, a ∈ rest.take limit ∨ t < key a := by
  unfold nextToken at h
  split_ifs at h with hlength
  obtain ⟨e, he, rfl⟩ := Option.map_eq_some_iff.mp h
  have hsplit := hrest
  unfold Increasing at hsplit
  rw [← List.take_append_drop limit rest, List.map_append, List.pairwise_append] at hsplit
  obtain ⟨hpage, -, hacross⟩ := hsplit
  constructor
  · intro a ha
    obtain ⟨init, hinit⟩ := List.getLast?_eq_some_iff.mp he
    rw [hinit, List.map_append, List.pairwise_append] at hpage
    rw [hinit] at ha
    rcases List.mem_append.mp ha with hbefore | hlast
    · exact (hpage.2.2 _ (List.mem_map_of_mem hbefore) _ (by simp)).le
    · rw [List.mem_singleton.mp hlast]
  · intro a ha
    rw [← List.take_append_drop limit rest] at ha
    rcases List.mem_append.mp ha with htaken | hleft
    · exact .inl htaken
    · exact .inr (hacross _ (List.mem_map_of_mem (List.mem_of_getLast? he)) _
        (List.mem_map_of_mem hleft))

omit [LinearOrder κ] in
theorem take_of_last (h : nextToken key limit rest = none) (hlimit : 0 < limit) :
    rest.take limit = rest := by
  unfold nextToken at h
  split_ifs at h with hlength
  · exact List.take_of_length_le hlength
  · have hempty := List.getLast?_eq_none_iff.mp (Option.map_eq_none_iff.mp h)
    rw [List.take_eq_nil_iff] at hempty
    rcases hempty with hzero | hnil
    · omega
    · rw [hnil] at hlength
      exact absurd (Nat.zero_le _) hlength

end Page

section Runs
variable {key limit} {token : Option κ} {contents pages : List (List α)}

/-- Every page is a part of the content it was taken from. -/
theorem Pages.genuine (h : Pages key limit token contents pages) :
    List.Forall₂ (fun content page => page ⊆ content) contents pages := by
  have hpart : ∀ token (content : List α), (remaining key token content).take limit ⊆ content := by
    intro token content a ha
    exact (mem_remaining.mp (List.mem_of_mem_take ha)).1
  induction h with
  | last _ => exact .cons (hpart _ _) .nil
  | more _ _ ih => exact .cons (hpart _ _) ih

/-- What the pages return comes behind the token and in increasing order, each key once. -/
theorem Pages.increasing (h : Pages key limit token contents pages)
    (hcontents : ∀ content ∈ contents, Increasing key content) :
    (∀ a ∈ pages.flatten, Behind token (key a)) ∧ Increasing key pages.flatten := by
  induction h with
  | @last token content _ =>
    have hcontent := (hcontents content (by simp)).remaining token
    simp only [List.flatten_cons, List.flatten_nil, List.append_nil]
    refine ⟨?_, hcontent.take⟩
    intro a ha
    exact (mem_remaining.mp (List.mem_of_mem_take ha)).2
  | @more token t content contents pages htoken _ ih =>
    have hcontent := (hcontents content (by simp)).remaining token
    obtain ⟨hpage, -⟩ := nextToken_splits hcontent htoken
    obtain ⟨hbehind, hrest⟩ := ih fun c hc => hcontents c (List.mem_cons_of_mem _ hc)
    have hafter : ∀ a ∈ (remaining key token content).take limit, Behind token (key a) := by
      intro a ha
      exact (mem_remaining.mp (List.mem_of_mem_take ha)).2
    have hcross : ∀ a ∈ (remaining key token content).take limit, ∀ b ∈ pages.flatten,
        key a < key b := by
      intro a ha b hb
      exact (hpage a ha).trans_lt (behind_some.mp (hbehind b hb))
    rw [List.flatten_cons]
    constructor
    · intro a ha
      rcases List.mem_append.mp ha with ha | ha
      · exact hafter a ha
      · -- the page is not empty, so its keys lie between both tokens
        unfold nextToken at htoken
        split_ifs at htoken
        obtain ⟨e, he, -⟩ := Option.map_eq_some_iff.mp htoken
        have hmem := List.mem_of_getLast? he
        intro t' ht'
        exact (hafter e hmem t' ht').trans (hcross e hmem a ha)
    · rw [Increasing, List.map_append, List.pairwise_append]
      refine ⟨hcontent.take, hrest, ?_⟩
      intro k hk k' hk'
      obtain ⟨a, ha, rfl⟩ := List.mem_map.mp hk
      obtain ⟨b, hb, rfl⟩ := List.mem_map.mp hk'
      exact hcross a ha b hb

/-- A key that every content has is returned, whatever else comes and goes. -/
theorem Pages.complete (h : Pages key limit token contents pages) (hlimit : 0 < limit)
    (hcontents : ∀ content ∈ contents, Increasing key content) {k : κ}
    (hk : ∀ content ∈ contents, k ∈ content.map key) (hbehind : Behind token k) :
    k ∈ pages.flatten.map key := by
  induction h with
  | @last token content htoken =>
    obtain ⟨a, ha, rfl⟩ := List.mem_map.mp (hk content (by simp))
    rw [take_of_last htoken hlimit]
    apply List.mem_map_of_mem
    simpa using mem_remaining.mpr ⟨ha, hbehind⟩
  | @more token t content contents pages htoken _ ih =>
    have hcontent := (hcontents content (by simp)).remaining token
    obtain ⟨a, ha, rfl⟩ := List.mem_map.mp (hk content (by simp))
    rw [List.flatten_cons, List.map_append, List.mem_append]
    rcases (nextToken_splits hcontent htoken).2 a (mem_remaining.mpr ⟨ha, hbehind⟩) with
      htaken | hafter
    · exact .inl (List.mem_map_of_mem htaken)
    · right
      apply ih
      · exact fun c hc => hcontents c (List.mem_cons_of_mem _ hc)
      · exact fun c hc => hk c (List.mem_cons_of_mem _ hc)
      · exact behind_some.mpr hafter

/-- While the contents stay within finitely many keys, the pages come to an end: each page but
the last one uses up as many keys as it holds. -/
theorem exists_pages (hlimit : 0 < limit) (K : Finset κ) (contents : Nat → List α)
    (hcontents : ∀ n, Increasing key (contents n)) (hK : ∀ n, ∀ a ∈ contents n, key a ∈ K)
    (token : Option κ) :
    ∃ n pages, n * limit ≤ (K.filter (Behind token)).card ∧
      Pages key limit token ((List.range (n + 1)).map contents) pages := by
  induction hm : (K.filter (Behind token)).card using Nat.strong_induction_on
    generalizing token contents with
  | _ m ih =>
    cases htoken : nextToken key limit (remaining key token (contents 0)) with
    | none => exact ⟨0, _, by simp, .last htoken⟩
    | some t =>
      have hcontent := (hcontents 0).remaining token
      obtain ⟨hpage, -⟩ := nextToken_splits hcontent htoken
      let used : Finset κ := (((remaining key token (contents 0)).take limit).map key).toFinset
      have hused : used.card = limit := by
        rw [List.toFinset_card_of_nodup (hcontent.take.imp fun h => h.ne), List.length_map,
          length_take_of_nextToken htoken]
      have hmem : ∀ k ∈ used, (k ∈ K ∧ Behind token k) ∧ k ≤ t := by
        intro k hk
        obtain ⟨a, ha, rfl⟩ := List.mem_map.mp (List.mem_toFinset.mp hk)
        obtain ⟨hcontent, hbehind⟩ := mem_remaining.mp (List.mem_of_mem_take ha)
        exact ⟨⟨hK 0 a hcontent, hbehind⟩, hpage a ha⟩
      have hsub : K.filter (Behind (some t)) ⊆ K.filter (Behind token) \ used := by
        intro k hk
        obtain ⟨hkK, hkt⟩ := Finset.mem_filter.mp hk
        rw [behind_some] at hkt
        rw [Finset.mem_sdiff, Finset.mem_filter]
        refine ⟨⟨hkK, ?_⟩, fun hmemused => absurd (hmem k hmemused).2 (not_le.mpr hkt)⟩
        intro t' ht'
        obtain ⟨e, he⟩ : used.Nonempty := Finset.card_pos.mp (hused ▸ hlimit)
        exact ((hmem e he).1.2 t' ht').trans_le ((hmem e he).2.trans hkt.le)
      have hcard := Finset.card_le_card hsub
      rw [Finset.card_sdiff_of_subset (fun k hk => Finset.mem_filter.mpr (hmem k hk).1), hused,
        hm] at hcard
      have hle : limit ≤ m := by
        rw [← hm, ← hused]
        exact Finset.card_le_card fun k hk => Finset.mem_filter.mpr (hmem k hk).1
      obtain ⟨n, pages, hn, hpages⟩ := ih (K.filter (Behind (some t))).card (by omega)
        (fun n => contents (n + 1)) (fun n => hcontents (n + 1)) (fun n => hK (n + 1)) (some t) rfl
      refine ⟨n + 1, (remaining key token (contents 0)).take limit :: pages, ?_, ?_⟩
      · rw [Nat.succ_mul]
        omega
      · rw [List.range_succ_eq_map, List.map_cons, List.map_map]
        exact .more htoken hpages

end Runs

/-! ## Searching in an increasing list -/

section Searching
variable {α : Type} {p : α → Bool} {l : List α}

/-- What holds of an entry holds of those before it: the part before the first failure is all. -/
theorem takeWhile_eq_filter (h : l.Pairwise fun a b => p b = true → p a = true) :
    l.takeWhile p = l.filter p := by
  induction l with
  | nil => rfl
  | cons a l ih =>
    obtain ⟨hfirst, hrest⟩ := List.pairwise_cons.mp h
    cases ha : p a with
    | true =>
      rw [List.takeWhile_cons_of_pos ha, List.filter_cons_of_pos ha, ih hrest]
    | false =>
      rw [List.takeWhile_cons_of_neg (by simp [ha]), List.filter_cons_of_neg (by simp [ha])]
      symm
      apply List.filter_eq_nil_iff.mpr
      intro b hb hpb
      rw [hfirst b hb hpb] at ha
      cases ha

theorem dropWhile_eq_filter (h : l.Pairwise fun a b => p b = true → p a = true) :
    l.dropWhile p = l.filter fun a => !p a := by
  induction l with
  | nil => rfl
  | cons a l ih =>
    obtain ⟨hfirst, hrest⟩ := List.pairwise_cons.mp h
    cases ha : p a with
    | true =>
      rw [List.dropWhile_cons_of_pos ha, List.filter_cons_of_neg (by simp [ha]), ih hrest]
    | false =>
      rw [List.dropWhile_cons_of_neg (by simp [ha])]
      symm
      apply List.filter_eq_self.mpr
      intro b hb
      rcases List.mem_cons.mp hb with rfl | hb
      · simp [ha]
      · cases hpb : p b with
        | true =>
          rw [hfirst b hb hpb] at ha
          cases ha
        | false => rfl

/-- A list between a start and a continuation of it begins with the start too. -/
theorem starts_of_between [LinearOrder α] {start a rest : List α} (hle : ¬a < start)
    (hge : ¬start ++ rest < a) : start <+: a := by
  induction start generalizing a with
  | nil => exact List.nil_prefix
  | cons x start ih =>
    cases a with
    | nil => exact absurd (List.nil_lt_cons x start) hle
    | cons y a =>
      rw [List.cons_append, List.cons_lt_cons_iff, not_or, not_and] at hge
      rw [List.cons_lt_cons_iff, not_or, not_and] at hle
      obtain rfl : x = y := le_antisymm (not_lt.mp hle.1) (not_lt.mp hge.1)
      rw [List.cons_prefix_cons]
      exact ⟨rfl, ih (hle.2 rfl) (hge.2 rfl)⟩

end Searching

end FileService.Common.Paging

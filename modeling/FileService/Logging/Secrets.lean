import FileService.Logging.Scanner

/-!
# Secrets between quotes

Rules without double quotes hit nothing across a quote, so the walk forgets at
each closing quote what it has read before. A secret is masked as a whole if
and only if a hit ends with the name before it and no character in it ends a
value; and what such secrets are makes no difference to the rest of the text.
-/
namespace FileService.Logging.Redactor
open FileService.Common.Spans

/-- A hit of some rule ends with the name. -/
def EndsInHit (keys : List (List Char)) (name : List Char) : Prop :=
  ∃ key ∈ keys, [] ∈ hits key 0 (normalize name)

instance (keys : List (List Char)) (name : List Char) : Decidable (EndsInHit keys name) :=
  inferInstanceAs (Decidable (∃ _ ∈ _, _))

/-- No character ends a value. -/
def Unbroken (s : List Char) : Prop := ∀ c ∈ s, isColonValueEnd c = false

instance (s : List Char) : Decidable (Unbroken s) := List.decidableBAll _ s

/-! ## Looking ahead -/

/-- A rule without a double quote finds itself at both texts or at none. -/
def SameAhead (text text' : List Char) : Prop :=
  ∀ key : List Char, '"' ∉ key → (key <+: norm text ↔ key <+: norm text')

section Ahead
variable {text text' rest key : List Char} {c : Char} {left : Nat}

theorem norm_separator (h : isSeparator c = true) : norm (c :: text) = norm text := by
  rw [norm, normalize, if_pos h]
  rfl

theorem norm_kept (h : ¬isSeparator c = true) : norm (c :: text) = c.toLower :: norm text := by
  rw [norm, normalize, if_neg h]
  rfl

theorem norm_quote : norm ('"' :: text) = '"' :: norm text := norm_kept (by decide)

theorem SameAhead.refl (text : List Char) : SameAhead text text := fun _ _ => Iff.rfl

theorem SameAhead.symm (h : SameAhead text text') : SameAhead text' text :=
  fun key hkey => (h key hkey).symm

theorem SameAhead.trans {text'' : List Char} (h : SameAhead text text')
    (h' : SameAhead text' text'') : SameAhead text text'' :=
  fun key hkey => (h key hkey).trans (h' key hkey)

theorem SameAhead.cons (h : SameAhead text text') (c : Char) :
    SameAhead (c :: text) (c :: text') := by
  intro key hkey
  by_cases hsep : isSeparator c = true
  · rw [norm_separator hsep, norm_separator hsep]
    exact h key hkey
  · rw [norm_kept hsep, norm_kept hsep]
    cases key with
    | nil => simp
    | cons k key =>
      rw [List.cons_prefix_cons, List.cons_prefix_cons,
        h key fun hmem => hkey (List.mem_cons_of_mem _ hmem)]

theorem SameAhead.append (h : SameAhead text text') (before : List Char) :
    SameAhead (before ++ text) (before ++ text') := by
  induction before with
  | nil => exact h
  | cons c before ih => exact ih.cons c

/-- No rule looks over a quote. -/
theorem sameAhead_quote : SameAhead ('"' :: text) [] := by
  intro key hkey
  rw [norm_quote]
  cases key with
  | nil => simp
  | cons k key =>
    have hne : k ≠ '"' := fun h => hkey (h ▸ List.mem_cons_self)
    simp [List.cons_prefix_cons, norm, normalize, hne]

/-- What is left of a hit stands in the text. -/
def Due (key : List Char) (left : Nat) (text : List Char) : Prop :=
  left ≤ key.length ∧ key.drop (key.length - left) <+: norm text

theorem due_zero : Due key 0 text := by simp [Due]

theorem Due.of_pending (h : Due key left text) : Due key (pending key left text) text := by
  unfold pending
  split_ifs with hzero hfound
  · exact ⟨le_rfl, by simpa using hfound⟩
  · exact due_zero
  · exact h

theorem Due.step {scan : Scan} (h : Due key scan.left (c :: text)) :
    Due key (scan.step key c text).left text := by
  unfold Scan.step
  by_cases hsep : isSeparator c = true
  · rw [if_pos hsep]
    rwa [Due, norm_separator hsep] at h
  · rw [if_neg hsep]
    obtain ⟨hle, hahead⟩ := h.of_pending
    rw [norm_kept hsep] at hahead
    generalize pending key scan.left (c :: text) = n at *
    cases n with
    | zero => exact due_zero
    | succ n =>
      have hplace : key.length - (n + 1) < key.length := by omega
      have hdrop : key.drop (key.length - (n + 1)) =
          key[key.length - (n + 1)] :: key.drop (key.length - n) := by
        rw [List.drop_eq_getElem_cons hplace]
        congr 2
        omega
      rw [hdrop, List.cons_prefix_cons] at hahead
      exact ⟨by dsimp only; omega, hahead.2⟩

/-- At a quote no hit is under way. -/
theorem Due.quote (h : Due key left ('"' :: text)) (hkey : '"' ∉ key) : left = 0 := by
  obtain ⟨hle, hahead⟩ := h
  by_contra hne
  rw [List.drop_eq_getElem_cons (by omega), norm_quote, List.cons_prefix_cons] at hahead
  exact hkey (hahead.1 ▸ List.getElem_mem _)

theorem Scan.step_congr {scan : Scan} (hkey : '"' ∉ key) (h : SameAhead (c :: text) (c :: text')) :
    scan.step key c text = scan.step key c text' := by
  have hpending : pending key scan.left (c :: text) = pending key scan.left (c :: text') := by
    unfold pending
    simp only [h key hkey]
  unfold Scan.step
  rw [hpending]

end Ahead

/-! ## Over a piece of text -/

/-- Over the first text, with the second behind it. -/
def Scan.over (key : List Char) (scan : Scan) : List Char → List Char → Scan
  | [], _ => scan
  | c :: text, rest => (scan.step key c (text ++ rest)).over key text rest

section Over
variable {key text text' rest rest' : List Char} {scan : Scan} {left : Nat} {c : Char}

theorem Scan.over_append :
    scan.over key (text ++ text') rest = (scan.over key text (text' ++ rest)).over key text' rest := by
  induction text generalizing scan with
  | nil => rfl
  | cons c text ih => simp [Scan.over, ih]

theorem Scan.over_congr (hkey : '"' ∉ key) (h : SameAhead rest rest') :
    scan.over key text rest = scan.over key text rest' := by
  induction text generalizing scan with
  | nil => rfl
  | cons c text ih => rw [Scan.over, Scan.over, Scan.step_congr hkey ((h.append text).cons c), ih]

theorem Due.over (h : Due key scan.left (text ++ rest)) :
    Due key (scan.over key text rest).left rest := by
  induction text generalizing scan with
  | nil => exact h
  | cons c text ih => exact ih (h.step)

theorem maskedAt_append (hleft : left ≤ rest.length) :
    maskedAt key (text ++ rest) scan left ↔ maskedAt key rest (scan.over key text rest) left := by
  induction text generalizing scan with
  | nil => rfl
  | cons c text ih =>
    have hlater : ¬left = (text ++ rest).length + 1 := by
      simp only [List.length_append]
      omega
    rw [List.cons_append, maskedAt, if_neg hlater, ih, Scan.over]

/-- A masked character ends no value. -/
theorem not_end_of_masks {st : Stage} (h : st.masks c = true) : isColonValueEnd c = false := by
  have hall : ∀ s, isValueEnd s c = false → isColonValueEnd c = false := by
    intro s hs
    unfold isValueEnd at hs
    split_ifs at hs
    · exact hs
    · simp only [isEqualsValueEnd, isColonValueEnd, List.contains_cons, Bool.or_eq_false_iff] at hs ⊢
      tauto
  cases st with
  | hit => cases h
  | blanks => cases h
  | sign s =>
    simp only [Stage.masks, Bool.and_eq_true, Bool.not_eq_true'] at h
    exact hall s h.2
  | value s =>
    simp only [Stage.masks, Bool.not_eq_true'] at h
    exact hall s h

theorem Scan.hit_mem_step :
    Stage.hit ∈ (scan.step key c rest).stages ↔
      ¬isSeparator c = true ∧ pending key scan.left (c :: rest) = 1 := by
  have hnext : Stage.hit ∉ scan.stages.filterMap (·.next c) := by
    intro hmem
    obtain ⟨st, -, hst⟩ := List.mem_filterMap.mp hmem
    cases st <;> simp only [Stage.next] at hst <;> split_ifs at hst <;> cases hst
  unfold Scan.step
  by_cases hsep : isSeparator c = true
  · simp [hsep, hnext]
  · by_cases hone : pending key scan.left (c :: rest) = 1 <;> simp [hsep, hone, hnext]

/-- The walk has just passed a hit if and only if the text ends in one. -/
theorem Scan.hit_mem_over (htext : text ≠ []) :
    Stage.hit ∈ (scan.over key text []).stages ↔ [] ∈ afters key scan.left text := by
  induction text generalizing scan with
  | nil => exact absurd rfl htext
  | cons c text ih =>
    rw [Scan.over, afters, List.append_nil]
    cases text with
    | nil =>
      rw [Scan.over, Scan.hit_mem_step]
      split_ifs <;> simp_all [afters]
    | cons d text =>
      rw [ih (by simp)]
      unfold Scan.step
      split_ifs <;> simp

end Over

/-! ## A name and what follows -/

/-- The text of a member up to the first character of its string. -/
def opening (name : List Char) : List Char := '"' :: name ++ ['"', ':', '"']

section Name
open Stage
variable {key name s rest : List Char} {scan : Scan} {st st' : Stage} {c d : Char}

theorem opening_append : opening name ++ rest = '"' :: name ++ '"' :: ':' :: '"' :: rest := by
  simp [opening]

theorem next_quote (h : st.next '"' = some st') :
    (st = hit ∧ st' = blanks) ∨ ∃ s, st = sign s ∧ st' = value s := by
  cases st with
  | hit => exact .inl ⟨rfl, (Option.some.inj h).symm⟩
  | blanks => simp [next, isBlank, isSign] at h
  | sign s => exact .inr ⟨s, rfl, (Option.some.inj h).symm⟩
  | value s =>
    have hend : isValueEnd s '"' = true := by
      unfold isValueEnd
      split_ifs <;> decide
    simp [next, hend] at h

theorem next_colon {c : Char} (h : st.next ':' = some (sign c)) : st = hit ∨ st = blanks := by
  cases st with
  | hit => exact .inl rfl
  | blanks => exact .inr rfl
  | sign s =>
    have hblank : isBlank ':' = false := by decide
    simp only [next, hblank] at h
    split_ifs at h <;> simp_all
  | value s =>
    simp only [next] at h
    split_ifs at h
    cases h

theorem mem_step (hst : st ∈ scan.stages) (hnext : st.next c = some st') :
    st' ∈ (scan.step key c rest).stages := by
  have hmem : st' ∈ scan.stages.filterMap (·.next c) := List.mem_filterMap.mpr ⟨st, hst, hnext⟩
  unfold Scan.step
  split_ifs
  · exact hmem
  · exact List.mem_cons_of_mem _ hmem
  · exact hmem

theorem of_mem_step (h : st' ∈ (scan.step key c rest).stages) (hne : st' ≠ hit) :
    ∃ st ∈ scan.stages, st.next c = some st' := by
  have hmem : st' ∈ scan.stages.filterMap (·.next c) := by
    unfold Scan.step at h
    split_ifs at h
    · exact h
    · exact (List.mem_cons.mp h).resolve_left hne
    · exact h
  exact List.mem_filterMap.mp hmem

theorem pending_quote (hkey : '"' ∉ key) : pending key 0 ('"' :: rest) = 0 := by
  unfold pending
  rw [if_pos rfl]
  simp only [sameAhead_quote key hkey]
  split_ifs with hnil
  · simpa [norm, normalize] using hnil
  · rfl

/-- A quote begins anew. -/
theorem step_quote (hkey : '"' ∉ key) (hleft : scan.left = 0) :
    scan.step key '"' rest = { left := 0, stages := scan.stages.filterMap (·.next '"') } := by
  have hkept : ¬isSeparator '"' = true := by decide
  unfold Scan.step
  rw [if_neg hkept, hleft, pending_quote hkey]
  rfl

/-- Behind a quote the name alone says whether it ends in a hit. -/
theorem hit_mem_name (hne : key ≠ []) (hkey : '"' ∉ key)
    (hdue : Due key scan.left ('"' :: name ++ '"' :: rest)) :
    hit ∈ (scan.over key ('"' :: name) ('"' :: rest)).stages ↔ [] ∈ hits key 0 (normalize name) := by
  rw [Scan.over, step_quote hkey (hdue.quote hkey), Scan.over_congr hkey sameAhead_quote]
  by_cases hname : name = []
  · subst hname
    simp only [Scan.over, normalize, hits, List.not_mem_nil, iff_false]
    intro hmem
    obtain ⟨st, -, hst⟩ := List.mem_filterMap.mp hmem
    rcases next_quote hst with ⟨-, h⟩ | ⟨s, -, h⟩ <;> cases h
  · rw [Scan.hit_mem_over hname, mem_afters hne]
    simp

/-- The value behind a name whose end is a hit begins with the string. -/
theorem value_mem_opening
    (hhit : hit ∈ (scan.over key ('"' :: name) ('"' :: ':' :: '"' :: rest)).stages) :
    value ':' ∈ (scan.over key (opening name) rest).stages := by
  have hsplit : opening name = ('"' :: name) ++ ['"', ':', '"'] := rfl
  rw [hsplit, Scan.over_append]
  have hblanks : blanks ∈ ((scan.over key ('"' :: name) ('"' :: ':' :: '"' :: rest)).step key '"'
      (':' :: '"' :: rest)).stages := mem_step hhit rfl
  have hsign : sign ':' ∈ (((scan.over key ('"' :: name) ('"' :: ':' :: '"' :: rest)).step key '"'
      (':' :: '"' :: rest)).step key ':' ('"' :: rest)).stages := mem_step hblanks rfl
  exact mem_step hsign rfl

/-- No other value has begun there. -/
theorem hit_of_masks (hkey : '"' ∉ key)
    (hleft : (scan.over key ('"' :: name) ('"' :: ':' :: '"' :: rest)).left = 0)
    (hst : st ∈ (scan.over key (opening name) rest).stages) (hmasks : st.masks c = true) :
    hit ∈ (scan.over key ('"' :: name) ('"' :: ':' :: '"' :: rest)).stages := by
  have hsplit : opening name = ('"' :: name) ++ ['"', ':', '"'] := rfl
  rw [hsplit, Scan.over_append] at hst
  obtain ⟨st₄, hst₄, hnext₄⟩ := of_mem_step hst (by rintro rfl; cases hmasks)
  rcases next_quote hnext₄ with ⟨-, rfl⟩ | ⟨c', rfl, -⟩
  · cases hmasks
  · obtain ⟨st₃, hst₃, hnext₃⟩ := of_mem_step hst₄ (by simp)
    have hst₃' : st₃ ∈ ((scan.over key ('"' :: name) ('"' :: ':' :: '"' :: rest)).step key '"'
        (':' :: '"' :: rest)).stages := hst₃
    rw [step_quote hkey hleft] at hst₃'
    obtain ⟨st₂, hst₂, hnext₂⟩ := List.mem_filterMap.mp hst₃'
    rcases next_quote hnext₂ with ⟨rfl, -⟩ | ⟨c'', -, rfl⟩
    · exact hst₂
    · rcases next_colon hnext₃ with h | h <;> cases h

/-- The scan that has read one character only. -/
def Scan.anew (key : List Char) (d : Char) (rest : List Char) : Scan where
  left := pending key 0 (d :: rest) - 1
  stages := if pending key 0 (d :: rest) = 1 then [hit] else []

/-- Behind a string and the character after it nothing of the string is remembered. -/
theorem over_closing (hkey : '"' ∉ key) (hdue : Due key scan.left ('"' :: d :: rest))
    (hd : d = ',' ∨ d = '\x7d') : scan.over key ['"', d] rest = .anew key d rest := by
  have hkept : ¬isSeparator d = true := by rcases hd with rfl | rfl <;> decide
  have hdead : (scan.stages.filterMap (·.next '"')).filterMap (·.next d) = [] := by
    refine List.filterMap_eq_nil_iff.mpr fun st' hst' => ?_
    obtain ⟨st, -, hst⟩ := List.mem_filterMap.mp hst'
    rcases next_quote hst with ⟨-, rfl⟩ | ⟨s, -, rfl⟩
    · rcases hd with rfl | rfl <;> decide
    · have hend : isValueEnd s d = true := by
        unfold isValueEnd
        split_ifs <;> rcases hd with rfl | rfl <;> decide
      simp [next, hend]
  have hfirst : scan.over key ['"', d] rest = (scan.step key '"' (d :: rest)).step key d rest := rfl
  rw [hfirst, step_quote hkey (hdue.quote hkey), Scan.step, if_neg hkept, hdead]
  rfl

end Name

/-! ## Whole secrets -/

section Secret
open Stage
variable {r : Redactor} {key s rest : List Char} {scan : Scan}

/-- A value goes on as long as no character ends it. -/
theorem value_mem_over (hvalue : value ':' ∈ scan.stages) (hs : Unbroken s) :
    value ':' ∈ (scan.over key s rest).stages := by
  induction s generalizing scan with
  | nil => exact hvalue
  | cons c s ih =>
    obtain ⟨hc, hrest⟩ := List.forall_mem_cons.mp hs
    exact ih (mem_step hvalue (by simp [next, isValueEnd, hc])) hrest

/-- What covers a place is what has been read before it. -/
theorem covers_place (before : List Char) (c : Char) (after : List Char) :
    Covers (r.ranges (before ++ c :: after)) before.length ↔
      ∃ key ∈ r.keysNorm, ∃ st ∈ (Scan.over key {} before (c :: after)).stages,
        st.masks c = true := by
  have hlength : (before ++ c :: after).length - before.length = (c :: after).length := by
    rw [List.length_append]
    omega
  rw [covers_ranges (by simp), hlength]
  refine exists_congr fun key => and_congr_right fun _ => ?_
  rw [maskedAt_append le_rfl, maskedAt, if_pos (by simp)]

/-- Exactly the secrets behind a hit that no character breaks are covered as a whole. -/
theorem covers_secret_iff (hkeys : ∀ key ∈ r.keysNorm, '"' ∉ key) (before name s after : List Char)
    (hs : s ≠ []) :
    (∀ p, before.length + name.length + 4 ≤ p → p < before.length + name.length + 4 + s.length →
        Covers (r.ranges (before ++ opening name ++ (s ++ after))) p) ↔
      EndsInHit r.keysNorm name ∧ Unbroken s := by
  have hstart : (before ++ opening name).length = before.length + name.length + 4 := by
    simp [opening]
    omega
  have hplace : ∀ s₁ c s₂, s = s₁ ++ c :: s₂ →
      (Covers (r.ranges (before ++ opening name ++ (s ++ after)))
          (before.length + name.length + 4 + s₁.length) ↔
        ∃ key ∈ r.keysNorm, ∃ st ∈ (Scan.over key {} (before ++ opening name ++ s₁)
          (c :: (s₂ ++ after))).stages, st.masks c = true) := by
    rintro s₁ c s₂ rfl
    have hcovers := covers_place (r := r) (before ++ opening name ++ s₁) c (s₂ ++ after)
    rw [List.length_append, hstart] at hcovers
    simpa using hcovers
  have hdue : ∀ key rest, Due key (Scan.over key {} before ('"' :: name ++ '"' :: rest)).left
      ('"' :: name ++ '"' :: rest) := fun key rest => Due.over due_zero
  constructor
  · intro hall
    constructor
    · obtain ⟨c, s', rfl⟩ := List.exists_cons_of_ne_nil hs
      have hfirst := hall _ le_rfl (by simp)
      have hcovers := (hplace [] c s' rfl).mp (by simpa using hfirst)
      obtain ⟨key, hkey, st, hst, hmasks⟩ := hcovers
      rw [List.append_nil, Scan.over_append, opening_append] at hst
      have hquote := hkeys key hkey
      have hname := hdue key (':' :: '"' :: (c :: (s' ++ after)))
      have hhit := hit_of_masks hquote (hname.over.quote hquote) hst hmasks
      exact ⟨key, hkey, (hit_mem_name (r.nonempty key hkey) hquote hname).mp hhit⟩
    · intro c hc
      obtain ⟨s₁, s₂, rfl⟩ := List.append_of_mem hc
      have hhere := hall (before.length + name.length + 4 + s₁.length) (by omega) (by simp)
      obtain ⟨key, -, st, -, hmasks⟩ := (hplace s₁ c s₂ rfl).mp hhere
      exact not_end_of_masks hmasks
  · rintro ⟨⟨key, hkey, hhit⟩, hunbroken⟩ p hfrom hto
    obtain ⟨s₁, c, s₂, hsplit, hlength⟩ : ∃ s₁ c s₂, s = s₁ ++ c :: s₂ ∧
        s₁.length = p - (before.length + name.length + 4) := by
      refine ⟨s.take (p - (before.length + name.length + 4)), s[p - (before.length + name.length + 4)],
        s.drop (p - (before.length + name.length + 4) + 1), ?_, ?_⟩
      · rw [← List.drop_eq_getElem_cons, List.take_append_drop]
      · rw [List.length_take]
        omega
    have hp : p = before.length + name.length + 4 + s₁.length := by omega
    rw [hp, hplace s₁ c s₂ hsplit]
    subst hsplit
    have hquote := hkeys key hkey
    have hbreaks : Unbroken s₁ ∧ isColonValueEnd c = false :=
      ⟨fun d hd => hunbroken d (List.mem_append_left _ hd), hunbroken c (by simp)⟩
    refine ⟨key, hkey, value ':', ?_, by simp [masks, isValueEnd, hbreaks.2]⟩
    have hname := hdue key (':' :: '"' :: (s₁ ++ c :: (s₂ ++ after)))
    rw [Scan.over_append, Scan.over_append, opening_append]
    exact value_mem_over
      (value_mem_opening ((hit_mem_name (r.nonempty key hkey) hquote hname).mpr hhit)) hbreaks.1

end Secret

end FileService.Logging.Redactor

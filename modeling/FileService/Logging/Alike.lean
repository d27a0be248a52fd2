import FileService.Logging.Secrets

/-!
# Texts that differ in secrets

Two texts agree but for strings behind a hit that nothing breaks. A walk over
both is at the same point behind each pair of such strings, and each of them
has become one mask.
-/
namespace FileService.Logging.Redactor

/-- The texts differ only in strings that a hit ends before and no character breaks. -/
inductive Like (keys : List (List Char)) : List Char → List Char → Prop
  | nil : Like keys [] []
  | char (c : Char) {text text' : List Char} : Like keys text text' →
      Like keys (c :: text) (c :: text')
  | secret {name s s' text text' : List Char} {d : Char} : EndsInHit keys name →
      s ≠ [] → s' ≠ [] → Unbroken s → Unbroken s' → d = ',' ∨ d = '\x7d' → Like keys text text' →
      Like keys (opening name ++ (s ++ '"' :: d :: text)) (opening name ++ (s' ++ '"' :: d :: text'))

section Like
open Stage
variable {keys : List (List Char)} {mask text text' rest rest' s : List Char} {walk walk' : Walk}
  {inside : Bool} {d : Char}

theorem Like.append (h : Like keys text text') (before : List Char) :
    Like keys (before ++ text) (before ++ text') := by
  induction before with
  | nil => exact h
  | cons c before ih => exact ih.char c

theorem Like.refl (text : List Char) : Like keys text text := by
  simpa using Like.nil.append text

theorem Like.sameAhead (h : Like keys text text') : SameAhead text text' := by
  induction h with
  | nil => exact .refl []
  | char c _ ih => exact ih.cons c
  | secret => exact sameAhead_quote.trans sameAhead_quote.symm

theorem Due.congr {key : List Char} {left : Nat} (hkey : '"' ∉ key) (h : SameAhead text text')
    (hdue : Due key left text) : Due key left text' :=
  ⟨hdue.1, (h _ fun hmem => hkey (List.mem_of_mem_drop hmem)).mp hdue.2⟩

/-- Only the rules of the redactor count. -/
theorem redraw_congr (h : ∀ key ∈ keys, walk key = walk' key) :
    redraw keys mask text walk inside = redraw keys mask text walk' inside := by
  induction text generalizing walk walk' inside with
  | nil => rfl
  | cons c text ih =>
    have hmasked : Masked keys walk c ↔ Masked keys walk' c := by
      unfold Masked
      refine exists_congr fun key => and_congr_right fun hkey => ?_
      rw [h key hkey]
    have hstep : ∀ key ∈ keys, walk.step c text key = walk'.step c text key :=
      fun key hkey => by simp only [Walk.step, h key hkey]
    rw [redraw, redraw, ih hstep]
    simp only [hmasked]

/-- Over the first text, with the second behind it. -/
def Walk.over (walk : Walk) (text rest : List Char) : Walk := fun key => (walk key).over key text rest

/-- What is shared is drawn alike. -/
theorem redraw_shared (hkeys : ∀ key ∈ keys, '"' ∉ key) (hahead : SameAhead rest rest')
    (h : ∀ inside, redraw keys mask rest (walk.over text rest) inside =
      redraw keys mask rest' (walk.over text rest) inside) :
    redraw keys mask (text ++ rest) walk inside = redraw keys mask (text ++ rest') walk inside := by
  induction text generalizing walk inside with
  | nil => exact h inside
  | cons c text ih =>
    have hstep : ∀ key ∈ keys, walk.step c (text ++ rest') key = walk.step c (text ++ rest) key :=
      fun key hkey => (Scan.step_congr (hkeys key hkey) ((hahead.append text).cons c)).symm
    rw [List.cons_append, List.cons_append, redraw, redraw, redraw_congr hstep]
    exact congrArg _ (ih h)

/-- A string that is masked as a whole. -/
theorem redraw_value {key : List Char} (hkey : key ∈ keys) (hvalue : value ':' ∈ (walk key).stages)
    (hs : Unbroken s) (hne : s ≠ []) :
    redraw keys mask (s ++ rest) walk inside =
      (if inside then [] else mask) ++ redraw keys mask rest (walk.over s rest) true := by
  induction s generalizing walk inside with
  | nil => exact absurd rfl hne
  | cons c s ih =>
    obtain ⟨hc, hrest⟩ := List.forall_mem_cons.mp hs
    have hmasked : Masked keys walk c :=
      ⟨key, hkey, value ':', hvalue, by simp [masks, isValueEnd, hc]⟩
    have hgoes : value ':' ∈ (walk.step c (s ++ rest) key).stages :=
      mem_step hvalue (by simp [next, isValueEnd, hc])
    rw [List.cons_append, redraw, if_pos hmasked, decide_eq_true hmasked]
    congr 1
    cases s with
    | nil => rfl
    | cons d s =>
      rw [ih hgoes hrest (by simp)]
      rfl

/-- What ends a value is never masked. -/
theorem not_masked {c : Char} (hend : isColonValueEnd c = true) : ¬Masked keys walk c := by
  rintro ⟨key, -, st, -, hmasks⟩
  rw [not_end_of_masks hmasks] at hend
  cases hend

theorem redraw_quote : redraw keys mask ('"' :: rest) walk inside =
    '"' :: redraw keys mask rest (walk.step '"' rest) false := by
  have hplain : ¬Masked keys walk '"' := not_masked (by decide)
  rw [redraw, if_neg hplain, decide_eq_false hplain]
  rfl

/-- Behind a string the walk goes on as if there had been none. -/
theorem redraw_closing (hkeys : ∀ key ∈ keys, '"' ∉ key)
    (hdue : ∀ key ∈ keys, Due key (walk key).left ('"' :: d :: rest)) (hd : d = ',' ∨ d = '\x7d') :
    redraw keys mask ('"' :: d :: rest) walk inside =
      '"' :: d :: redraw keys mask rest (fun key => .anew key d rest) false := by
  have hplain : ¬Masked keys (walk.step '"' (d :: rest)) d :=
    not_masked (by rcases hd with rfl | rfl <;> decide)
  have hover : ∀ key ∈ keys, (walk.step '"' (d :: rest)).step d rest key = .anew key d rest :=
    fun key hkey => over_closing (hkeys key hkey) (hdue key hkey) hd
  rw [redraw_quote, redraw, if_neg hplain, decide_eq_false hplain, redraw_congr hover]
  rfl

theorem due_anew {key : List Char} (hd : d = ',' ∨ d = '\x7d') :
    Due key (Scan.anew key d rest).left rest := by
  have hkept : ¬isSeparator d = true := by rcases hd with rfl | rfl <;> decide
  have hstart : Due key (Scan.left {}) (d :: rest) := due_zero
  have hstep := hstart.step
  rwa [Scan.step, if_neg hkept] at hstep

/-- A secret is one mask, and what comes behind it knows nothing of it. -/
theorem redraw_secret {name : List Char} (hkeys : ∀ key ∈ keys, '"' ∉ key)
    (hne : ∀ key ∈ keys, key ≠ []) (hhit : EndsInHit keys name) (hs : s ≠ []) (hbreaks : Unbroken s)
    (hd : d = ',' ∨ d = '\x7d')
    (hdue : ∀ key ∈ keys, Due key (walk key).left (opening name ++ (s ++ '"' :: d :: rest))) :
    redraw keys mask (s ++ '"' :: d :: rest)
        (walk.over (opening name) (s ++ '"' :: d :: rest)) inside =
      (if inside then [] else mask) ++
        '"' :: d :: redraw keys mask rest (fun key => .anew key d rest) false := by
  obtain ⟨key, hkey, hlast⟩ := hhit
  have hclosed : ∀ key ∈ keys, Due key
      (((walk.over (opening name) (s ++ '"' :: d :: rest)).over s ('"' :: d :: rest)) key).left
      ('"' :: d :: rest) := fun key hkey => (hdue key hkey).over.over
  have hname := hdue key hkey
  rw [opening_append] at hname
  have hvalue := value_mem_opening ((hit_mem_name (hne key hkey) (hkeys key hkey) hname).mpr hlast)
  rw [redraw_value hkey hvalue hbreaks hs, redraw_closing hkeys hclosed hd]

/-- Texts that differ only in such secrets are drawn alike. -/
theorem Like.redraw_eq (h : Like keys text text') (hkeys : ∀ key ∈ keys, '"' ∉ key)
    (hne : ∀ key ∈ keys, key ≠ []) (hdue : ∀ key ∈ keys, Due key (walk key).left text) :
    redraw keys mask text walk inside = redraw keys mask text' walk inside := by
  induction h generalizing walk inside with
  | nil => rfl
  | @char c text text' h ih =>
    have hstep : ∀ key ∈ keys, walk.step c text' key = walk.step c text key :=
      fun key hkey => (Scan.step_congr (hkeys key hkey) (h.sameAhead.cons c)).symm
    rw [redraw, redraw, redraw_congr hstep]
    exact congrArg _ (ih fun key hkey => (hdue key hkey).step)
  | @secret name s s' text text' d hhit hs hs' hbreaks hbreaks' hd h ih =>
    have hahead : ∀ {S S' : List Char}, SameAhead ('"' :: S) ('"' :: S') :=
      sameAhead_quote.trans sameAhead_quote.symm
    have hdue' : ∀ key ∈ keys,
        Due key (walk key).left (opening name ++ (s' ++ '"' :: d :: text')) := by
      intro key hkey
      refine (hdue key hkey).congr (hkeys key hkey) ?_
      simpa [opening] using hahead
    have hanew : ∀ key, '"' ∉ key → Scan.anew key d text' = .anew key d text := by
      intro key hkey
      have hpending : pending key 0 (d :: text') = pending key 0 (d :: text) := by
        unfold pending
        simp only [h.sameAhead.cons d key hkey]
      rw [Scan.anew, Scan.anew, hpending]
    have hrest : redraw keys mask text (fun key => .anew key d text) false =
        redraw keys mask text' (fun key => .anew key d text) false :=
      ih fun key _ => due_anew hd
    -- up to the quote before the string the texts are the same
    have hsplit : ∀ S, opening name ++ S = ('"' :: name ++ ['"', ':']) ++ '"' :: S := by
      simp [opening]
    rw [hsplit, hsplit]
    refine redraw_shared hkeys hahead fun inside => ?_
    have hopen : ∀ S key,
        ((walk key).over key ('"' :: name ++ ['"', ':']) ('"' :: S)).step key '"' S =
          (walk key).over key (opening name) S := by
      intro S key
      have happend : opening name = ('"' :: name ++ ['"', ':']) ++ ['"'] := by simp [opening]
      rw [happend]
      refine Eq.trans ?_ Scan.over_append.symm
      rfl
    have hfirst : ∀ key ∈ keys,
        (walk.over ('"' :: name ++ ['"', ':']) ('"' :: (s ++ '"' :: d :: text))).step
          '"' (s ++ '"' :: d :: text) key = walk.over (opening name) (s ++ '"' :: d :: text) key :=
      fun key _ => hopen _ key
    have hsecond : ∀ key ∈ keys,
        (walk.over ('"' :: name ++ ['"', ':']) ('"' :: (s ++ '"' :: d :: text))).step
          '"' (s' ++ '"' :: d :: text') key =
            walk.over (opening name) (s' ++ '"' :: d :: text') key := by
      intro key hkey
      rw [Walk.step, Walk.over, Scan.over_congr (hkeys key hkey) hahead]
      exact hopen _ key
    rw [redraw_quote, redraw_quote, redraw_congr hfirst, redraw_congr hsecond,
      redraw_secret hkeys hne hhit hs hbreaks hd hdue,
      redraw_secret hkeys hne hhit hs' hbreaks' hd hdue',
      redraw_congr fun key hkey => hanew key (hkeys key hkey), hrest]

end Like

end FileService.Logging.Redactor

import FileService.Common.Ascii
import FileService.Common.Delimited
import FileService.S3.CharacterData

/-!
# What is read of a document

A document is a run of tags and character data. The tags that are looked for
stand around character data, and around the objects of a listing; whatever else
there is may be anything. The first element with a tag is the one that is read.
-/
namespace FileService.S3
open FileService.Common FileService.Common.Crypto FileService.Domain

/-! ## Tags -/

/-- Character data, or a tag with what stands between its brackets. -/
inductive Token where
  | text (data : CharacterData)
  | tag (name : Bytes) (plain : 60 ∉ name ∧ 62 ∉ name)

def tagged (name : Bytes) : Bytes := 60 :: (name ++ [62])

namespace Token

def written : Token → Bytes
  | .text data => data.written
  | .tag name _ => tagged name

def isTag (name : Bytes) : Token → Bool
  | .text _ => false
  | .tag other _ => other == name

end Token

def writtenTokens (tokens : List Token) : Bytes := tokens.flatMap Token.written

/-- What stands before the first tag with a name, and after it. -/
def cutAt (name : Bytes) : List Token → Option (List Token × List Token)
  | [] => none
  | token :: tokens =>
    if token.isTag name = true then some ([], tokens)
    else (cutAt name tokens).map fun p => (token :: p.1, p.2)

section Tags
variable {name other rest : Bytes} {token : Token} {tokens before : List Token}

theorem openTag_eq (tag : String) : openTag tag = tagged (octets tag) := by
  have hopen : octets "<" = [60] := by decide +kernel
  have hclose : octets ">" = [62] := by decide +kernel
  simp [openTag, Ascii.octets_append, hopen, hclose, tagged]

theorem closeTag_eq (tag : String) : closeTag tag = tagged (47 :: octets tag) := by
  have hopen : octets "</" = [60, 47] := by decide +kernel
  have hclose : octets ">" = [62] := by decide +kernel
  simp [closeTag, Ascii.octets_append, hopen, hclose, tagged]

theorem bracket_not_mem_written (data : CharacterData) : 60 ∉ data.written := by
  intro h
  obtain ⟨spelling, -, hmem⟩ := List.mem_flatMap.mp h
  cases spelling with
  | literal c plain =>
    exact plain.2 (Char.toNat_inj.mp (eq_of_low hmem (by decide)).symm)
  | named entity =>
    revert hmem
    cases entity <;> decide +kernel
  | numeric reference =>
    have hdigits : 60 ∉ reference.digits := by
      intro hdigit
      obtain ⟨d, hd, -⟩ := reference.legal 60 hdigit
      cases hd
    revert hmem
    simp only [Spelling.written, CharacterReference.entity]
    split <;> simp [hdigits]

/-- A tag starts with another one only if they are the same, as a bracket ends both. -/
theorem eq_of_tagged_isPrefix (hname : 62 ∉ name) (hother : 62 ∉ other)
    (h : tagged name <+: tagged other ++ rest) : name = other := by
  obtain ⟨rest', hwhole⟩ := h
  simp only [tagged, List.cons_append, List.append_assoc, List.cons.injEq, true_and] at hwhole
  exact (Delimited.append_inj_of_notMem hname hother hwhole).1

theorem findText_token (hname : 60 ∉ name ∧ 62 ∉ name) (htoken : token.isTag name = false) :
    findText (tagged name) (token.written ++ rest) =
      (findText (tagged name) rest).map fun p => (token.written ++ p.1, p.2) := by
  cases token with
  | text data => exact findText_skip (bracket_not_mem_written data)
  | tag other plain =>
    have hstart : ¬(tagged name).isPrefixOf (60 :: (other ++ [62] ++ rest)) = true := by
      intro h
      have hsame := eq_of_tagged_isPrefix hname.2 plain.2 (List.isPrefixOf_iff_prefix.mp h)
      simp [Token.isTag, hsame] at htoken
    have hothers : 60 ∉ other ++ [62] := by simp [plain.1]
    have hskip : findText (tagged name) (other ++ [62] ++ rest) =
        (findText (tagged name) rest).map fun p => (other ++ [62] ++ p.1, p.2) :=
      findText_skip hothers
    change findText (tagged name) (60 :: (other ++ [62] ++ rest)) = _
    rw [findText, if_neg hstart, hskip, Option.map_map]
    rfl

theorem findText_tagged (tokens : List Token) (hname : 60 ∉ name ∧ 62 ∉ name) :
    findText (tagged name) (writtenTokens tokens) =
      (cutAt name tokens).map fun p => (writtenTokens p.1, writtenTokens p.2) := by
  induction tokens with
  | nil => rfl
  | cons token tokens ih =>
    have hwritten : writtenTokens (token :: tokens) = token.written ++ writtenTokens tokens :=
      List.flatMap_cons
    rw [hwritten, cutAt]
    cases htoken : token.isTag name with
    | false =>
      rw [findText_token hname htoken, ih, if_neg (by simp), Option.map_map, Option.map_map]
      simp [Function.comp_def, writtenTokens]
    | true =>
      cases token with
      | text data => cases htoken
      | tag other plain =>
        obtain rfl : other = name := by simpa [Token.isTag] using htoken
        rw [Token.written, findText_here, if_pos rfl]
        rfl

theorem findBlock_tokens {tag : String} (tokens : List Token)
    (hopening : 60 ∉ octets tag ∧ 62 ∉ octets tag)
    (hclosing : 60 ∉ 47 :: octets tag ∧ 62 ∉ 47 :: octets tag) :
    findBlock (writtenTokens tokens) tag = (cutAt (octets tag) tokens).bind fun p =>
      (cutAt (47 :: octets tag) p.2).map fun q => (writtenTokens q.1, writtenTokens q.2) := by
  rw [findBlock, openTag_eq, closeTag_eq]
  change Option.bind (findText (tagged (octets tag)) _) _ = _
  rw [findText_tagged tokens hopening]
  cases cutAt (octets tag) tokens with
  | none => rfl
  | some p => exact findText_tagged p.2 hclosing

/-- Where no token of a part is the tag, the cut is behind it. -/
theorem cutAt_append (h : ∀ token ∈ before, token.isTag name = false) :
    cutAt name (before ++ tokens) = (cutAt name tokens).map fun p => (before ++ p.1, p.2) := by
  induction before with
  | nil => simp
  | cons token before ih =>
    obtain ⟨htoken, hbefore⟩ := List.forall_mem_cons.mp h
    rw [List.cons_append, cutAt, if_neg (by simp [htoken]), ih hbefore, Option.map_map]
    rfl

theorem cutAt_here (plain : 60 ∉ name ∧ 62 ∉ name) :
    cutAt name (.tag name plain :: tokens) = some ([], tokens) :=
  if_pos (by simp [Token.isTag])

end Tags

/-! ## Elements with character data -/

/-- The elements that are read for their character data. -/
inductive Field where
  | key
  | isTruncated
  | nextContinuationToken
  | code
  | message
deriving DecidableEq

def Field.tag : Field → String
  | .key => "Key"
  | .isTruncated => "IsTruncated"
  | .nextContinuationToken => "NextContinuationToken"
  | .code => "Code"
  | .message => "Message"

def Field.opening (field : Field) : Bytes := octets field.tag

def Field.closing (field : Field) : Bytes := 47 :: octets field.tag

theorem Field.plain (field : Field) :
    (60 ∉ field.opening ∧ 62 ∉ field.opening) ∧ 60 ∉ field.closing ∧ 62 ∉ field.closing := by
  cases field <;> decide +kernel

theorem Field.eq_of_opening {field other : Field} (h : other.opening = field.opening) :
    other = field := by
  revert h
  cases field <;> cases other <;> decide +kernel

theorem Field.closing_ne_opening (field other : Field) : other.closing ≠ field.opening := by
  cases field <;> cases other <;> decide +kernel

/-- An element that is read, or a token that opens none. -/
inductive Item where
  | unread (token : Token) (plain : ∀ field : Field, token.isTag field.opening = false)
  | element (field : Field) (data : CharacterData)

def Item.tokens : Item → List Token
  | .unread token _ => [token]
  | .element field data =>
    [.tag field.opening field.plain.1, .text data, .tag field.closing field.plain.2]

def Item.read? (field : Field) : Item → Option CharacterData
  | .unread _ _ => none
  | .element other data => if other = field then some data else none

def tokensOf (items : List Item) : List Token := items.flatMap Item.tokens

/-- The character data of the first element with a tag. -/
def firstOf (field : Field) (items : List Item) : Option CharacterData :=
  items.findSome? (Item.read? field)

section Elements
variable {field : Field} {item : Item} {items : List Item} {data : CharacterData}

theorem not_opening_of_read? (h : item.read? field = none) :
    ∀ token ∈ item.tokens, token.isTag field.opening = false := by
  cases item with
  | unread token plain => simpa [Item.tokens] using plain field
  | element other data =>
    have hne : other ≠ field := by
      rintro rfl
      simp [Item.read?] at h
    have hopen : other.opening ≠ field.opening := fun h => hne (Field.eq_of_opening h)
    simp [Item.tokens, Token.isTag, hopen, Field.closing_ne_opening]

/-- The induction is on the items in front of the element that is read. -/
theorem cutAt_items (field : Field) (items : List Item) :
    cutAt field.opening (tokensOf items) = none ∧ firstOf field items = none ∨
    ∃ data before after, firstOf field items = some data ∧
      cutAt field.opening (tokensOf items) =
        some (before, .text data :: .tag field.closing field.plain.2 :: after) := by
  induction items with
  | nil => exact .inl ⟨rfl, rfl⟩
  | cons item items ih =>
    have htokens : tokensOf (item :: items) = item.tokens ++ tokensOf items := List.flatMap_cons
    rw [htokens, firstOf, List.findSome?_cons]
    cases hread : item.read? field with
    | none =>
      rw [cutAt_append (not_opening_of_read? hread)]
      rcases ih with ⟨hcut, hfirst⟩ | ⟨data, before, after, hfirst, hcut⟩
      · exact .inl ⟨by rw [hcut]; rfl, hfirst⟩
      · exact .inr ⟨data, item.tokens ++ before, after, hfirst, by rw [hcut]; rfl⟩
    | some data =>
      cases item with
      | unread token plain => cases hread
      | element other data' =>
        obtain ⟨rfl, rfl⟩ : other = field ∧ data' = data := by
          simpa [Item.read?, Option.ite_none_right_eq_some] using hread
        exact .inr ⟨data', [], tokensOf items, rfl, cutAt_here _⟩

theorem findTag_items (field : Field) (items : List Item) :
    findTag (writtenTokens (tokensOf items)) field.tag =
      (firstOf field items).map CharacterData.decoded := by
  rw [findTag, findBlock_tokens _ field.plain.1 field.plain.2]
  rcases cutAt_items field items with ⟨hcut, hfirst⟩ | ⟨data, before, after, hfirst, hcut⟩
  · have hnone : cutAt (octets field.tag) (tokensOf items) = none := hcut
    rw [hnone, hfirst]
    rfl
  · have hopening : cutAt (octets field.tag) (tokensOf items) =
        some (before, .text data :: .tag field.closing field.plain.2 :: after) := hcut
    have hclosing : cutAt (47 :: octets field.tag)
        (.text data :: .tag field.closing field.plain.2 :: after) = some ([.text data], after) := by
      change cutAt field.closing _ = _
      rw [cutAt, if_neg (by simp [Token.isTag]), cutAt_here]
      rfl
    rw [hopening, hfirst, Option.bind_some]
    dsimp only
    rw [hclosing, Option.map_some, Option.map_some, Option.map_some, writtenTokens,
      List.flatMap_cons, List.flatMap_nil, List.append_nil, Token.written, xmlUnescape_data]

end Elements

/-! ## Listings -/

def contentsOpening : Bytes := octets "Contents"

def contentsClosing : Bytes := 47 :: octets "Contents"

theorem contents_plain : (60 ∉ contentsOpening ∧ 62 ∉ contentsOpening) ∧
    60 ∉ contentsClosing ∧ 62 ∉ contentsClosing := by
  decide +kernel

/-- An object of a listing, or what stands between the objects. -/
inductive Piece where
  | between (item : Item) (outside : ∀ token ∈ item.tokens, token.isTag contentsOpening = false)
  | object (items : List Item)
      (inside : ∀ token ∈ tokensOf items, token.isTag contentsClosing = false)

theorem contents_unread : (∀ field : Field, (contentsOpening == field.opening) = false) ∧
    ∀ field : Field, (contentsClosing == field.opening) = false := by
  constructor <;> intro field <;> cases field <;> decide +kernel

def Piece.items : Piece → List Item
  | .between item _ => [item]
  | .object items _ =>
    .unread (.tag contentsOpening contents_plain.1) contents_unread.1 ::
      (items ++ [.unread (.tag contentsClosing contents_plain.2) contents_unread.2])

def Piece.object? : Piece → Option (List Item)
  | .between _ _ => none
  | .object items _ => some items

abbrev Listing := List Piece

namespace Listing
variable (page : Listing)

def content : List Item := page.flatMap Piece.items

def objects : List (List Item) := page.filterMap Piece.object?

def body : Bytes := writtenTokens (tokensOf page.content)

end Listing

section Blocks
variable {before tokens : List Token} {fuel : Nat}

theorem findBlocksFrom_append (h : ∀ token ∈ before, token.isTag contentsOpening = false) :
    findBlocksFrom "Contents" fuel (writtenTokens (before ++ tokens)) =
      findBlocksFrom "Contents" fuel (writtenTokens tokens) := by
  cases fuel with
  | zero => rfl
  | succ fuel =>
    have hcut : cutAt (octets "Contents") (before ++ tokens) =
        (cutAt (octets "Contents") tokens).map fun p => (before ++ p.1, p.2) := cutAt_append h
    rw [findBlocksFrom, findBlocksFrom, findBlock_tokens _ contents_plain.1 contents_plain.2,
      findBlock_tokens _ contents_plain.1 contents_plain.2, hcut]
    cases cutAt (octets "Contents") tokens <;> rfl

theorem writtenTokens_append (tokens others : List Token) :
    writtenTokens (tokens ++ others) = writtenTokens tokens ++ writtenTokens others :=
  List.flatMap_append

theorem tokensOf_append (items others : List Item) :
    tokensOf (items ++ others) = tokensOf items ++ tokensOf others :=
  List.flatMap_append

namespace Listing

theorem body_cons (piece : Piece) (page : Listing) :
    body (piece :: page) = writtenTokens (tokensOf piece.items ++ tokensOf (content page)) := by
  rw [← tokensOf_append]
  rfl

theorem length_objects_le (page : Listing) : (objects page).length ≤ (body page).length := by
  induction page with
  | nil => rfl
  | cons piece page ih =>
    rw [body_cons, writtenTokens_append, List.length_append]
    cases piece with
    | between item outside => exact ih.trans (Nat.le_add_left _ _)
    | object items inside =>
      have hobjects : objects (.object items inside :: page) = items :: objects page := rfl
      have hitems : 0 < (writtenTokens (tokensOf (Piece.object items inside).items)).length :=
        Nat.succ_pos _
      have hrest : (objects page).length ≤ (writtenTokens (tokensOf (content page))).length := ih
      rw [hobjects, List.length_cons]
      omega

theorem findBlocksFrom_page (page : Listing) (hfuel : (objects page).length ≤ fuel) :
    findBlocksFrom "Contents" fuel (body page) =
      (objects page).map fun items => writtenTokens (tokensOf items) := by
  induction page generalizing fuel with
  | nil => cases fuel <;> rfl
  | cons piece page ih =>
    rw [body_cons]
    cases piece with
    | between item outside =>
      have htokens : tokensOf (Piece.between item outside).items = item.tokens :=
        List.flatMap_singleton _ _
      rw [htokens, findBlocksFrom_append outside]
      exact ih hfuel
    | object items inside =>
      have hobjects : objects (.object items inside :: page) = items :: objects page := rfl
      have htokens : tokensOf (Piece.object items inside).items ++ tokensOf (content page) =
          .tag contentsOpening contents_plain.1 :: (tokensOf items ++
            (.tag contentsClosing contents_plain.2 :: tokensOf (content page))) := by
        simp [tokensOf, Piece.items, Item.tokens]
      rw [hobjects, List.length_cons] at hfuel
      obtain ⟨fuel, rfl⟩ : ∃ k, fuel = k + 1 := ⟨fuel - 1, by omega⟩
      have hopening : cutAt (octets "Contents") (.tag contentsOpening contents_plain.1 ::
          (tokensOf items ++ (.tag contentsClosing contents_plain.2 :: tokensOf (content page)))) =
          some ([], tokensOf items ++ (.tag contentsClosing contents_plain.2 :: tokensOf (content page))) :=
        cutAt_here contents_plain.1
      have hclosing : cutAt (47 :: octets "Contents")
          (tokensOf items ++ (.tag contentsClosing contents_plain.2 :: tokensOf (content page))) =
          some (tokensOf items, tokensOf (content page)) := by
        change cutAt contentsClosing _ = _
        rw [cutAt_append inside, cutAt_here, Option.map_some, List.append_nil]
      rw [hobjects, htokens, findBlocksFrom, findBlock_tokens _ contents_plain.1 contents_plain.2,
        hopening, Option.bind_some, hclosing, Option.map_some, List.map_cons]
      exact congrArg _ (ih (Nat.le_of_succ_le_succ hfuel))

theorem findAllBlocks_page (page : Listing) : findAllBlocks (body page) "Contents" =
    (objects page).map fun items => writtenTokens (tokensOf items) :=
  findBlocksFrom_page page (length_objects_le page)

end Listing

end Blocks

/-! ## What the store sees -/

/-- The octets and the text of an element, when there is one. -/
def storedOctets (data : Option CharacterData) : Option Bytes := data.map fun d => octets d.text

def storedText (data : Option CharacterData) : String := (data.map CharacterData.text).getD ""

/-- The keys of a page, as octets. -/
def keysRead (body : Bytes) : List (Option Bytes) :=
  (findAllBlocks body "Contents").map fun block => findTag block "Key"

/-- A page is read as it was written: the octets of the keys and of the token, and so the page
that `list` returns. -/
structure PageSeen (page : Listing) : Prop where
  keys : keysRead page.body =
    page.objects.map fun items => storedOctets (firstOf .key items)
  token : findTag page.body "NextContinuationToken" =
    storedOctets (firstOf .nextContinuationToken page.content)
  listed : ∀ store : S3BlobStore,
    (store.listedPage page.body).entries.map ListEntry.key =
      page.objects.map (fun items => storedText (firstOf .key items)) ∧
    ((store.listedPage page.body).truncated = true →
      (store.listedPage page.body).continuationToken =
        storedText (firstOf .nextContinuationToken page.content))

/-- An error document is read as it was written: the octets of its code and of its message, and
so the message of the error. -/
structure ErrorSeen (items : List Item) : Prop where
  code : findTag (writtenTokens (tokensOf items)) "Code" = storedOctets (firstOf .code items)
  message : findTag (writtenTokens (tokensOf items)) "Message" =
    storedOctets (firstOf .message items)
  mapped : ∀ (status : Int) (what : String), firstOf .message items ≠ none →
    (mapS3Error status (writtenTokens (tokensOf items)) what).message =
      what ++ " 失败（HTTP " ++ toString status ++
        (if storedText (firstOf .code items) = "" then ""
          else " " ++ storedText (firstOf .code items)) ++
          "）：" ++ storedText (firstOf .message items)

/-- The character data that the store looks at. -/
def pageData (page : Listing) : List CharacterData :=
  page.objects.filterMap (firstOf .key) ++
    (firstOf .nextContinuationToken page.content).toList

def errorData (items : List Item) : List CharacterData :=
  (firstOf .code items).toList ++ (firstOf .message items).toList

section Seen
variable {data : Option CharacterData} {page : Listing} {items : List Item}

theorem decoded_eq_stored_iff : data.map CharacterData.decoded = storedOctets data ↔
    ∀ d ∈ data, d.Short := by
  cases data with
  | none => simp [storedOctets]
  | some d => simpa [storedOctets] using decoded_eq_octets_iff

/-- Octets of a text are the text again. -/
theorem text_stored : text ((storedOctets data).getD []) = storedText data := by
  cases data with
  | none => rfl
  | some d => simp [storedOctets, storedText, text, textOf_octets]

theorem keysRead_page (page : Listing) : keysRead page.body =
    page.objects.map fun items => (firstOf .key items).map CharacterData.decoded := by
  rw [keysRead, Listing.findAllBlocks_page, List.map_map]
  exact List.map_congr_left fun items _ => findTag_items .key items

theorem tokenRead_page (page : Listing) : findTag page.body "NextContinuationToken" =
    (firstOf .nextContinuationToken page.content).map CharacterData.decoded :=
  findTag_items .nextContinuationToken page.content

theorem keys_listedPage (store : S3BlobStore) (body : Bytes) :
    (store.listedPage body).entries.map ListEntry.key =
      (keysRead body).map fun key => text (key.getD []) := by
  simp [S3BlobStore.listedPage, S3BlobStore.listedEntry, keysRead]

theorem continuationToken_listedPage (store : S3BlobStore) (body : Bytes)
    (h : (store.listedPage body).truncated = true) :
    (store.listedPage body).continuationToken =
      text ((findTag body "NextContinuationToken").getD []) := by
  have htruncated : findTag body "IsTruncated" = some (octets "true") := by
    simpa [S3BlobStore.listedPage] using h
  simp [S3BlobStore.listedPage, htruncated]

theorem pageSeen_iff : PageSeen page ↔ ∀ d ∈ pageData page, d.Short := by
  have hdata : (∀ d ∈ pageData page, d.Short) ↔
      (∀ items ∈ page.objects, ∀ d ∈ firstOf .key items, d.Short) ∧
        ∀ d ∈ firstOf .nextContinuationToken page.content, d.Short := by
    rw [pageData, List.forall_mem_append, List.forall_mem_filterMap]
    simp only [Option.mem_toList, Option.mem_def]
  rw [hdata]
  constructor
  · rintro ⟨hkeys, htoken, -⟩
    rw [keysRead_page] at hkeys
    rw [tokenRead_page] at htoken
    refine ⟨fun items hitems => ?_, decoded_eq_stored_iff.mp htoken⟩
    exact decoded_eq_stored_iff.mp (List.map_inj_left.mp hkeys items hitems)
  · rintro ⟨hkeys, htoken⟩
    have hread : keysRead page.body =
        page.objects.map fun items => storedOctets (firstOf .key items) := by
      rw [keysRead_page]
      exact List.map_congr_left fun items hitems => decoded_eq_stored_iff.mpr (hkeys items hitems)
    have hcontinues : findTag page.body "NextContinuationToken" =
        storedOctets (firstOf .nextContinuationToken page.content) := by
      rw [tokenRead_page]
      exact decoded_eq_stored_iff.mpr htoken
    refine ⟨hread, hcontinues, fun store => ⟨?_, fun htruncated => ?_⟩⟩
    · rw [keys_listedPage, hread, List.map_map]
      exact List.map_congr_left fun items _ => text_stored
    · rw [continuationToken_listedPage store _ htruncated, hcontinues, text_stored]

theorem message_mapS3Error (status : Int) (body : Bytes) (what : String) :
    (mapS3Error status body what).message =
      what ++ " 失败（HTTP " ++ toString status ++
        (if text ((findTag body "Code").getD []) = "" then ""
          else " " ++ text ((findTag body "Code").getD [])) ++
          "）：" ++ text ((findTag body "Message").getD (body.take 200)) := by
  rw [mapS3Error]
  split_ifs <;> rfl

theorem errorSeen_iff : ErrorSeen items ↔ ∀ d ∈ errorData items, d.Short := by
  have hcode : findTag (writtenTokens (tokensOf items)) "Code" =
      (firstOf .code items).map CharacterData.decoded := findTag_items .code items
  have hmessage : findTag (writtenTokens (tokensOf items)) "Message" =
      (firstOf .message items).map CharacterData.decoded := findTag_items .message items
  have hdata : (∀ d ∈ errorData items, d.Short) ↔
      (∀ d ∈ firstOf .code items, d.Short) ∧ ∀ d ∈ firstOf .message items, d.Short := by
    simp [errorData, or_imp, forall_and]
  rw [hdata]
  constructor
  · rintro ⟨hcodeSeen, hmessageSeen, -⟩
    exact ⟨decoded_eq_stored_iff.mp (hcode.symm.trans hcodeSeen),
      decoded_eq_stored_iff.mp (hmessage.symm.trans hmessageSeen)⟩
  · rintro ⟨hcodeShort, hmessageShort⟩
    have hcodeSeen := hcode.trans (decoded_eq_stored_iff.mpr hcodeShort)
    have hmessageSeen := hmessage.trans (decoded_eq_stored_iff.mpr hmessageShort)
    refine ⟨hcodeSeen, hmessageSeen, fun status what hsome => ?_⟩
    obtain ⟨d, hd⟩ := Option.ne_none_iff_exists'.mp hsome
    have hpresent : ∀ body : Bytes, (storedOctets (firstOf .message items)).getD body =
        (storedOctets (firstOf .message items)).getD [] := by
      intro body
      rw [hd]
      rfl
    rw [message_mapS3Error, hcodeSeen, hmessageSeen, hpresent, text_stored, text_stored]

end Seen

/-! ## Every document -/

/-- Character data, the page of a listing and an error document are read as they were written
where every number of a reference in them is that of a character of one octet, and nowhere else. -/
theorem reads_back_iff (data : CharacterData) (page : Listing) (items : List Item) :
    (xmlUnescape data.written = octets data.text ↔ data.Short) ∧
      (PageSeen page ↔ ∀ d ∈ pageData page, d.Short) ∧
      (ErrorSeen items ↔ ∀ d ∈ errorData items, d.Short) :=
  ⟨by rw [xmlUnescape_data, decoded_eq_octets_iff], pageSeen_iff, errorSeen_iff⟩

def decimalReference : CharacterReference where
  hexadecimal := false
  digits := octets "233"
  char := 'é'
  nonempty := by decide +kernel
  legal := by decide +kernel
  number := by decide +kernel

def hexadecimalReference : CharacterReference where
  hexadecimal := true
  digits := octets "4e2D"
  char := '中'
  nonempty := by decide +kernel
  legal := by decide +kernel
  number := by decide +kernel

/-- One octet is read for a character of two, and none for one of three. -/
theorem reads_otherwise :
    CharacterData.written [.numeric decimalReference] = octets "&#233;" ∧
    xmlUnescape (CharacterData.written [.numeric decimalReference]) = [0xE9] ∧
    octets (CharacterData.text [.numeric decimalReference]) = [0xC3, 0xA9] ∧
    CharacterData.written [.numeric hexadecimalReference] = octets "&#x4e2D;" ∧
    xmlUnescape (CharacterData.written [.numeric hexadecimalReference]) = [] ∧
    octets (CharacterData.text [.numeric hexadecimalReference]) = [0xE4, 0xB8, 0xAD] ∧
    ¬∀ data : CharacterData, xmlUnescape data.written = octets data.text := by
  have hread : xmlUnescape (CharacterData.written [.numeric decimalReference]) ≠
      octets (CharacterData.text [.numeric decimalReference]) := by decide +kernel
  exact ⟨by decide +kernel, by decide +kernel, by decide +kernel, by decide +kernel,
    by decide +kernel, by decide +kernel, fun h => hread (h _)⟩

end FileService.S3

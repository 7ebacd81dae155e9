import Mathlib.Data.List.DropRight
import Mathlib.Data.List.TakeWhile
import ZeroVault.AccountRequests
import ZeroVault.Db
import ZeroVault.QuotedText
import ZeroVault.VaultItems

/-!
# Encrypted search

The store looks for a query token as a member of the JSON text of an item's
tokens. In the text of accepted tokens such a member is found at a whole
ciphertext and nowhere else (`member_infix_iff`), and the clients make the same
token of a term and of the query for it (`normalizeTerm_idem`).
-/

namespace ZeroVault.Search

open Lib Browser

/-! ## The store -/

/-- `JSON.stringify` of a token; no field of an accepted one has a character to escape. -/
def envelopeText (e : CiphertextEnvelope) : String :=
  "\x7b\"alg\":\"" ++ e.alg.text ++ "\",\"nonce\":\"" ++ e.nonce ++ "\",\"ciphertext\":\"" ++ e.ciphertext ++ "\"" ++
    (match e.aad with
    | none => ""
    | some aad => ",\"aad\":\"" ++ aad ++ "\"") ++ "\x7d"

/-- The column `encrypted_search_tokens`. -/
def searchTokensText (tokens : List CiphertextEnvelope) : String :=
  "[" ++ ",".intercalate (tokens.map envelopeText) ++ "]"

/-- `INSTR(text, pattern) > 0`. -/
def instr (text pattern : String) : Bool := decide (pattern.toList <:+: text.toList)

def searchItemsByTokens (db : Db) (userId : UserId) (tokenHexes : List String) : List ItemId :=
  if tokenHexes.isEmpty then []
  else
    let patterns := tokenHexes.map fun hex => "\"ciphertext\":\"" ++ hex ++ "\""
    (db.vaultItems.select fun _ row => row.userId = userId && row.deletedAt.isNone &&
      patterns.any (instr (searchTokensText row.encryptedSearchTokens))).map (·.1)

/-! ## The clients -/

section
variable {κ : Type} (R : Runtime κ)

def generateQueryToken (vault : UnlockedVault κ) (query : String) : String :=
  let normalized := normalizeTerm R query
  if jsLength normalized < 2 then "" else R.hmacSha256Hex vault.key (SEARCH_DOMAIN ++ normalized)

end

/-! ## Texts without quotes -/

structure Plain (e : CiphertextEnvelope) : Prop where
  nonce : '"' ∉ e.nonce.toList
  ciphertext : '"' ∉ e.ciphertext.toList
  aad : ∀ aad, e.aad = some aad → '"' ∉ aad.toList

/-- What the strict and the legacy schema accept as tokens of an item. -/
def TokensAccepted (tokens : List CiphertextEnvelope) : Prop :=
  tokens.all hmacSha256EnvelopeSchema = true ∨ tokens.all legacyCiphertextEnvelopeSchema = true

section
variable {e : CiphertextEnvelope} {tokens : List CiphertextEnvelope} {value : String}

theorem mem_unpadded {cs : List Char} {c : Char} (h : c ∈ cs) : c ∈ unpadded cs ∨ c = '=' := by
  unfold unpadded
  have hsplit := List.takeWhile_append_dropWhile (p := (· == '=')) (l := cs.reverse)
  rw [← List.mem_reverse, ← hsplit, List.mem_append] at h
  rcases h with h | h
  · exact .inr (beq_iff_eq.mp (List.all_eq_true.mp List.all_takeWhile c h))
  · exact .inl (List.mem_reverse.mpr h)

theorem base64UrlMax_plain {max : Nat} (h : base64UrlMax max value = true) : '"' ∉ value.toList := by
  unfold base64UrlMax at h
  simp only [Bool.and_eq_true, List.all_eq_true] at h
  intro hmem
  rcases mem_unpadded hmem with hin | heq
  · exact absurd (h.1.2 _ hin) (by decide +kernel)
  · exact absurd heq (by decide)

theorem hexDigest_plain (h : hexDigest value = true) : '"' ∉ value.toList := by
  unfold hexDigest at h
  rw [Bool.and_eq_true, List.all_eq_true] at h
  exact fun hmem => absurd (h.2 _ hmem) (by decide)

theorem plain_of_hmac (h : hmacSha256EnvelopeSchema e = true) : Plain e := by
  unfold hmacSha256EnvelopeSchema at h
  simp only [Bool.and_eq_true, beq_iff_eq, Option.isNone_iff_eq_none] at h
  obtain ⟨⟨⟨-, hnonce⟩, hhex⟩, haad⟩ := h
  refine ⟨?_, hexDigest_plain hhex, fun aad ha => ?_⟩
  · rw [hnonce]
    decide
  · rw [haad] at ha
    cases ha

theorem plain_of_legacy (h : legacyCiphertextEnvelopeSchema e = true) : Plain e := by
  unfold legacyCiphertextEnvelopeSchema aadSchema at h
  simp only [Bool.and_eq_true] at h
  obtain ⟨⟨hnonce, hciphertext⟩, haad⟩ := h
  refine ⟨base64UrlMax_plain hnonce, base64UrlMax_plain hciphertext, fun aad ha => ?_⟩
  rw [ha] at haad
  exact base64UrlMax_plain haad

theorem TokensAccepted.plain (h : TokensAccepted tokens) : ∀ e ∈ tokens, Plain e := by
  intro e he
  rcases h with h | h
  · exact plain_of_hmac (List.all_eq_true.mp h e he)
  · exact plain_of_legacy (List.all_eq_true.mp h e he)

/-! ## The pieces of the text -/

def fieldPieces (e : CiphertextEnvelope) : List (List Char) :=
  ["alg".toList, [':'], e.alg.text.toList, [','], "nonce".toList, [':'], e.nonce.toList, [','], "ciphertext".toList,
    [':'], e.ciphertext.toList] ++
    match e.aad with
    | none => []
    | some aad => [[','], "aad".toList, [':'], aad.toList]

/-- What follows the brace at the end of a token. -/
def restText : List CiphertextEnvelope → List Char
  | [] => [']']
  | e :: es => ',' :: ((envelopeText e).toList ++ restText es)

theorem toList_envelopeText : (envelopeText e).toList = quoted (['\x7b'] :: fieldPieces e) ['\x7d'] := by
  unfold envelopeText fieldPieces quoted
  cases e.aad with
  | none => simp
  | some aad => simp

theorem plain_fieldPieces (h : Plain e) : ∀ p ∈ fieldPieces e, '"' ∉ p := by
  have halg : '"' ∉ e.alg.text.toList := by cases e.alg <;> decide
  have hnames : '"' ∉ "alg".toList ∧ '"' ∉ "nonce".toList ∧ '"' ∉ "ciphertext".toList ∧ '"' ∉ "aad".toList := by
    decide
  have hmarks : '"' ∉ [':'] ∧ '"' ∉ [','] := by decide
  obtain ⟨hcolon, hcomma⟩ := hmarks
  obtain ⟨hname, hnonce, hciphertext, haad⟩ := hnames
  unfold fieldPieces
  cases ha : e.aad with
  | none =>
    simp only [List.append_nil, List.forall_mem_cons, List.not_mem_nil, false_implies, implies_true, and_true]
    exact ⟨hname, hcolon, halg, hcomma, hnonce, hcolon, h.nonce, hcomma, hciphertext, hcolon, h.ciphertext⟩
  | some aad =>
    simp only [List.cons_append, List.nil_append, List.forall_mem_cons, List.not_mem_nil, false_implies, implies_true,
      and_true]
    exact ⟨hname, hcolon, halg, hcomma, hnonce, hcolon, h.nonce, hcomma, hciphertext, hcolon, h.ciphertext, hcomma,
      haad, hcolon, h.aad aad ha⟩

theorem pieces_envelope (before : List Char) {after : List Char} (h : Plain e) (hbefore : '"' ∉ before) :
    pieces (before ++ ((envelopeText e).toList ++ after)) =
      (before ++ ['\x7b']) :: (fieldPieces e ++ pieces ('\x7d' :: after)) := by
  have htext : before ++ ((envelopeText e).toList ++ after) =
      quoted ((before ++ ['\x7b']) :: fieldPieces e) ('\x7d' :: after) := by
    rw [toList_envelopeText, quoted_append]
    show before ++ (['\x7b'] ++ '"' :: quoted (fieldPieces e) _) = (before ++ ['\x7b']) ++ '"' :: quoted (fieldPieces e) _
    rw [List.append_assoc]
    rfl
  have hbrace : '"' ∉ before ++ ['\x7b'] := by
    rw [List.mem_append]
    exact not_or.mpr ⟨hbefore, by decide⟩
  rw [htext, pieces_quoted (List.forall_mem_cons.mpr ⟨hbrace, plain_fieldPieces h⟩)]
  rfl

theorem pieces_next {es : List CiphertextEnvelope} (h : Plain e) : pieces ('\x7d' :: restText (e :: es)) =
    ['\x7d', ',', '\x7b'] :: (fieldPieces e ++ pieces ('\x7d' :: restText es)) := by
  have htext : '\x7d' :: restText (e :: es) = ['\x7d', ','] ++ ((envelopeText e).toList ++ restText es) := by
    rw [restText, List.cons_append, List.cons_append, List.nil_append]
  rw [htext, pieces_envelope _ h (by decide), List.cons_append, List.cons_append, List.nil_append]

theorem pieces_rest (h : ∀ e ∈ tokens, Plain e) : ∃ x y, pieces ('\x7d' :: restText tokens) = ('\x7d' :: x) :: y := by
  cases tokens with
  | nil => exact ⟨[']'], [], pieces_plain (by decide)⟩
  | cons e es =>
    exact ⟨[',', '\x7b'], fieldPieces e ++ pieces ('\x7d' :: restText es), pieces_next (h e List.mem_cons_self)⟩

/-- Of a token only the ciphertext stands between its key and a quote. -/
theorem fieldPieces_scan {q x : List Char} {y : List (List Char)}
    (h : ["ciphertext".toList, [':'], q] <:+: fieldPieces e ++ ('\x7d' :: x) :: y) :
    q = e.ciphertext.toList ∨ ["ciphertext".toList, [':'], q] <:+: y := by
  have halg : "ciphertext".toList ≠ e.alg.text.toList := by cases e.alg <;> decide
  have hcolon : "ciphertext".toList ≠ [':'] := by decide
  have hcomma : "ciphertext".toList ≠ [','] := by decide
  have hbrace : [':'] ≠ '\x7d' :: x := by simp
  have hname : "ciphertext".toList ≠ '\x7d' :: x := by simp
  unfold fieldPieces at h
  rw [List.append_assoc] at h
  have h := skip_name halg (skip_name hcolon (skip_name (by decide) h))
  have h := skip_name hcolon (skip_name (by decide) (skip_name hcomma h))
  have h := skip_name hcomma (skip_value (by decide) h)
  rcases at_name h with rfl | h
  · exact .inl rfl
  · have h := skip_name hcolon h
    refine .inr ?_
    cases ha : e.aad with
    | none =>
      rw [ha] at h
      exact skip_name hname (skip_value hbrace h)
    | some aad =>
      rw [ha] at h
      have h := skip_name hcomma (skip_value (by decide) h)
      exact skip_name hname (skip_value hbrace (skip_name hcolon (skip_name (by decide) h)))

theorem rest_scan {q : List Char} (hplain : ∀ e ∈ tokens, Plain e)
    (h : ["ciphertext".toList, [':'], q] <:+: pieces ('\x7d' :: restText tokens)) :
    ∃ e ∈ tokens, q = e.ciphertext.toList := by
  induction tokens with
  | nil =>
    have hpieces : pieces ('\x7d' :: restText []) = [['\x7d', ']']] := pieces_plain (by decide)
    rw [hpieces] at h
    exact absurd h.length_le (by simp)
  | cons e es ih =>
    obtain ⟨he, hes⟩ := List.forall_mem_cons.mp hplain
    obtain ⟨x, y, hrest⟩ := pieces_rest hes
    rw [pieces_next he, hrest] at h
    rcases fieldPieces_scan (skip_name (by decide) h) with hq | h
    · exact ⟨e, List.mem_cons_self, hq⟩
    · have hin : ["ciphertext".toList, [':'], q] <:+: pieces ('\x7d' :: restText es) := by
        rw [hrest]
        exact List.infix_cons h
      obtain ⟨e', he', hq⟩ := ih hes hin
      exact ⟨e', List.mem_cons_of_mem _ he', hq⟩

theorem toList_intercalate : ∀ (e : CiphertextEnvelope) (es : List CiphertextEnvelope),
    (",".intercalate ((e :: es).map envelopeText)).toList ++ [']'] = (envelopeText e).toList ++ restText es
  | e, [] => by
    rw [List.map_singleton, String.intercalate_singleton]
    rfl
  | e, e' :: es => by
    have hcomma : ",".toList = [','] := rfl
    rw [List.map_cons, List.map_cons, String.intercalate_cons_cons, ← List.map_cons, String.toList_append,
      String.toList_append, List.append_assoc, toList_intercalate e' es, List.append_assoc, restText, hcomma,
      List.singleton_append]

theorem toList_searchTokensText {es : List CiphertextEnvelope} :
    (searchTokensText (e :: es)).toList = '[' :: ((envelopeText e).toList ++ restText es) := by
  unfold searchTokensText
  rw [String.toList_append, String.toList_append, List.append_assoc, ← toList_intercalate]
  rfl

theorem member_envelopeText : member "ciphertext".toList e.ciphertext.toList <:+: (envelopeText e).toList := by
  rw [toList_envelopeText]
  exact member_quoted [['\x7b'], "alg".toList, [':'], e.alg.text.toList, [','], "nonce".toList, [':'], e.nonce.toList]
    _ [','] _ _ _

theorem envelope_restText : ∀ {tokens : List CiphertextEnvelope}, e ∈ tokens →
    (envelopeText e).toList <:+: restText tokens
  | e' :: es, he => by
    rcases List.mem_cons.mp he with rfl | he
    · exact ⟨[','], restText es, rfl⟩
    · exact (envelope_restText he).trans ⟨',' :: (envelopeText e').toList, [], by rw [List.append_nil]; rfl⟩

theorem member_of_token (he : e ∈ tokens) :
    member "ciphertext".toList e.ciphertext.toList <:+: (searchTokensText tokens).toList := by
  refine member_envelopeText.trans ?_
  cases tokens with
  | nil => exact absurd he List.not_mem_nil
  | cons e' es =>
    rw [toList_searchTokensText]
    rcases List.mem_cons.mp he with rfl | he
    · exact ⟨['['], restText es, rfl⟩
    · exact (envelope_restText he).trans ⟨'[' :: (envelopeText e').toList, [], by rw [List.append_nil]; rfl⟩

/-- The pattern of a query is found at a whole ciphertext and nowhere else. -/
theorem member_infix_iff {q : List Char} (hplain : ∀ e ∈ tokens, Plain e) (hq : '"' ∉ q) :
    member "ciphertext".toList q <:+: (searchTokensText tokens).toList ↔ ∃ e ∈ tokens, q = e.ciphertext.toList := by
  constructor
  · intro h
    have h := pieces_of_member (by decide) hq h
    cases tokens with
    | nil =>
      have hpieces : pieces (searchTokensText []).toList = [['[', ']']] := pieces_plain (by decide)
      rw [hpieces] at h
      exact absurd h.length_le (by simp)
    | cons e es =>
      obtain ⟨he, hes⟩ := List.forall_mem_cons.mp hplain
      obtain ⟨x, y, hrest⟩ := pieces_rest hes
      have hpieces : pieces (searchTokensText (e :: es)).toList =
          ['[', '\x7b'] :: (fieldPieces e ++ pieces ('\x7d' :: restText es)) := by
        rw [toList_searchTokensText, ← List.singleton_append, pieces_envelope _ he (by decide), List.cons_append,
          List.nil_append]
      rw [hpieces, hrest] at h
      rcases fieldPieces_scan (skip_name (by decide) h) with hq | h
      · exact ⟨e, List.mem_cons_self, hq⟩
      · obtain ⟨e', he', hq⟩ := rest_scan hes (by rw [hrest]; exact List.infix_cons h)
        exact ⟨e', List.mem_cons_of_mem _ he', hq⟩
  · rintro ⟨e, he, rfl⟩
    exact member_of_token he

/-! ## The search -/

variable {db : Db} {userId : UserId} {tokenHexes : List String}

theorem instr_iff {hex : String} (hplain : ∀ e ∈ tokens, Plain e) (hhex : '"' ∉ hex.toList) :
    instr (searchTokensText tokens) ("\"ciphertext\":\"" ++ hex ++ "\"") = true ↔ ∃ e ∈ tokens, e.ciphertext = hex := by
  have hpattern : ("\"ciphertext\":\"" ++ hex ++ "\"").toList = member "ciphertext".toList hex.toList := by
    simp [member, quoted]
  unfold instr
  rw [decide_eq_true_eq, hpattern, member_infix_iff hplain hhex]
  refine exists_congr fun e => and_congr_right fun _ => ?_
  rw [String.toList_inj, eq_comm]

theorem mem_searchItemsByTokens (haccepted : ∀ id row, db.vaultItems.get? id = some row →
    TokensAccepted row.encryptedSearchTokens) (hplain : ∀ hex ∈ tokenHexes, '"' ∉ hex.toList) {id : ItemId} :
    id ∈ searchItemsByTokens db userId tokenHexes ↔ ∃ row, db.vaultItems.get? id = some row ∧ row.userId = userId ∧
      row.deletedAt = none ∧ ∃ e ∈ row.encryptedSearchTokens, e.ciphertext ∈ tokenHexes := by
  have hany {row : VaultItemRow} (hrow : TokensAccepted row.encryptedSearchTokens) :
      (tokenHexes.map fun hex => "\"ciphertext\":\"" ++ hex ++ "\"").any (instr (searchTokensText row.encryptedSearchTokens)) =
        true ↔ ∃ e ∈ row.encryptedSearchTokens, e.ciphertext ∈ tokenHexes := by
    rw [List.any_map, List.any_eq_true]
    constructor
    · rintro ⟨hex, hhex, hin⟩
      obtain ⟨e, he, rfl⟩ := (instr_iff hrow.plain (hplain hex hhex)).mp hin
      exact ⟨e, he, hhex⟩
    · rintro ⟨e, he, hhex⟩
      exact ⟨e.ciphertext, hhex, (instr_iff hrow.plain (hplain _ hhex)).mpr ⟨e, he, rfl⟩⟩
  unfold searchItemsByTokens
  cases hempty : tokenHexes.isEmpty with
  | true =>
    rw [List.isEmpty_iff.mp hempty, if_pos rfl]
    refine ⟨fun h => absurd h List.not_mem_nil, ?_⟩
    rintro ⟨_, -, -, -, _, -, hmem⟩
    exact absurd hmem List.not_mem_nil
  | false =>
    rw [if_neg Bool.false_ne_true, List.mem_map]
    constructor
    · rintro ⟨⟨id', row⟩, hrow, rfl⟩
      obtain ⟨hget, hp⟩ := Table.mem_select.mp hrow
      rw [Bool.and_eq_true, Bool.and_eq_true, decide_eq_true_eq, Option.isNone_iff_eq_none] at hp
      exact ⟨row, hget, hp.1.1, hp.1.2, (hany (haccepted _ row hget)).mp hp.2⟩
    · rintro ⟨row, hget, huser, hdeleted, htoken⟩
      refine ⟨(id, row), Table.mem_select.mpr ⟨hget, ?_⟩, rfl⟩
      rw [Bool.and_eq_true, Bool.and_eq_true, decide_eq_true_eq, Option.isNone_iff_eq_none]
      exact ⟨⟨huser, hdeleted⟩, (hany (haccepted _ row hget)).mpr htoken⟩

theorem searchItemsByTokens_nodup : (searchItemsByTokens db userId tokenHexes).Nodup := by
  unfold searchItemsByTokens
  split
  · exact List.nodup_nil
  · exact (List.filter_sublist.map _).nodup db.vaultItems.nodup

end

/-! ## Terms -/

theorem trimJs_within (cs : List Char) : trimJs cs <:+: cs := by
  have hfront : cs.dropWhile isJsSpace <:+ cs := List.dropWhile_suffix _
  have hback : trimJs cs <+: cs.dropWhile isJsSpace := by
    unfold trimJs
    rw [← List.reverse_suffix, List.reverse_reverse]
    exact List.dropWhile_suffix _
  exact hback.isInfix.trans hfront.isInfix

theorem trimJs_idem (cs : List Char) : trimJs (trimJs cs) = trimJs cs := by
  have hback : trimJs cs <+: cs.dropWhile isJsSpace := by
    unfold trimJs
    rw [← List.reverse_suffix, List.reverse_reverse]
    exact List.dropWhile_suffix _
  have hfront : (trimJs cs).dropWhile isJsSpace = trimJs cs := by
    rw [List.dropWhile_eq_self_iff]
    intro hpos hspace
    have hlong := Nat.lt_of_lt_of_le hpos hback.length_le
    rw [hback.getElem hpos] at hspace
    exact List.dropWhile_get_zero_not isJsSpace cs hlong hspace
  have hrest : (trimJs cs).reverse.dropWhile isJsSpace = (trimJs cs).reverse := by
    unfold trimJs
    rw [List.reverse_reverse, List.dropWhile_idempotent]
  show (((trimJs cs).dropWhile isJsSpace).reverse.dropWhile isJsSpace).reverse = _
  rw [hfront, hrest, List.reverse_reverse]

section
variable {κ : Type} {R : Runtime κ}

/-- A part of a text in lower case is in lower case. -/
def LowerCaseStable (R : Runtime κ) : Prop :=
  ∀ s part, part <:+: (R.toLowerCase s).toList → R.toLowerCase (String.ofList part) = String.ofList part

theorem normalizeTerm_idem (h : LowerCaseStable R) (raw : String) :
    normalizeTerm R (normalizeTerm R raw) = normalizeTerm R raw := by
  have hlower := h raw _ (trimJs_within (R.toLowerCase raw).toList)
  unfold normalizeTerm
  rw [hlower, String.toList_ofList, trimJs_idem]

theorem mem_termsOf {separator : Char → Bool} {value term : String} (h : term ∈ termsOf R separator value) :
    (∃ raw, normalizeTerm R raw = term) ∧ 2 ≤ jsLength term := by
  unfold termsOf at h
  obtain ⟨hmem, hlong⟩ := List.mem_filter.mp h
  obtain ⟨part, -, rfl⟩ := List.mem_map.mp hmem
  exact ⟨⟨_, rfl⟩, of_decide_eq_true hlong⟩

theorem mem_extractSearchTerms {item : VaultItem} {term : String} (h : term ∈ extractSearchTerms R item) :
    (∃ raw, normalizeTerm R raw = term) ∧ 2 ≤ jsLength term := by
  unfold extractSearchTerms rawSearchTerms at h
  rw [List.mem_eraseDups, List.mem_append] at h
  rcases h with h | h
  · exact mem_termsOf h
  · cases hbody : item.body with
    | login origin username password totp associations =>
      rw [hbody] at h
      rcases List.mem_append.mp h with h | h
      · cases hhost : R.hostname origin with
        | none =>
          rw [hhost] at h
          exact absurd h List.not_mem_nil
        | some hostname =>
          rw [hhost] at h
          exact mem_termsOf (List.mem_filter.mp h).1
      · exact mem_termsOf h
    | secureNote noteBody =>
      rw [hbody] at h
      exact absurd h List.not_mem_nil
    | creditCard cardholderName cardNumber expirationMonth expirationYear cvv brand =>
      rw [hbody] at h
      rcases List.mem_append.mp h with h | h
      · exact mem_termsOf h
      · exact mem_termsOf h

theorem mem_generateSearchTokens {vault : UnlockedVault κ} {item : VaultItem} {hex : String} :
    (∃ e ∈ generateSearchTokens R vault item, e.ciphertext = hex) ↔
      ∃ term ∈ extractSearchTerms R item, R.hmacSha256Hex vault.key (SEARCH_DOMAIN ++ term) = hex := by
  unfold generateSearchTokens
  constructor
  · rintro ⟨e, he, rfl⟩
    obtain ⟨term, hterm, rfl⟩ := List.mem_map.mp he
    exact ⟨term, hterm, rfl⟩
  · rintro ⟨term, hterm, rfl⟩
    exact ⟨_, List.mem_map_of_mem hterm, rfl⟩

theorem generateQueryToken_term (h : LowerCaseStable R) {vault : UnlockedVault κ} {item : VaultItem} {term : String}
    (hterm : term ∈ extractSearchTerms R item) :
    generateQueryToken R vault term = R.hmacSha256Hex vault.key (SEARCH_DOMAIN ++ term) := by
  obtain ⟨⟨raw, rfl⟩, hlong⟩ := mem_extractSearchTerms hterm
  unfold generateQueryToken
  rw [normalizeTerm_idem h, if_neg (Nat.not_lt.mpr hlong)]

/-- HMACs are assumed apart for the terms of the item and the query only. -/
theorem encrypted_search (db : Db) (R : Runtime κ) (haccepted : ∀ id row, db.vaultItems.get? id = some row →
    TokensAccepted row.encryptedSearchTokens) (hlower : LowerCaseStable R)
    (hhex : ∀ key data, hexDigest (R.hmacSha256Hex key data) = true) :
    (∀ userId tokenHexes, (∀ hex ∈ tokenHexes, '"' ∉ hex.toList ∧ '\\' ∉ hex.toList) →
      (searchItemsByTokens db userId tokenHexes).Nodup ∧ ∀ id, id ∈ searchItemsByTokens db userId tokenHexes ↔
        ∃ row, db.vaultItems.get? id = some row ∧ row.userId = userId ∧ row.deletedAt = none ∧
          ∃ e ∈ row.encryptedSearchTokens, e.ciphertext ∈ tokenHexes) ∧
    ∀ vault item row, db.vaultItems.get? item.id = some row → row.deletedAt = none →
      row.encryptedSearchTokens = generateSearchTokens R vault item →
      (∀ term ∈ extractSearchTerms R item,
        item.id ∈ searchItemsByTokens db row.userId [generateQueryToken R vault term]) ∧
      ∀ query, (∀ term ∈ extractSearchTerms R item, R.hmacSha256Hex vault.key (SEARCH_DOMAIN ++ term) =
          R.hmacSha256Hex vault.key (SEARCH_DOMAIN ++ normalizeTerm R query) → term = normalizeTerm R query) →
        item.id ∈ searchItemsByTokens db row.userId [generateQueryToken R vault query] →
        normalizeTerm R query ∈ extractSearchTerms R item := by
  refine ⟨fun userId tokenHexes hplain => ⟨searchItemsByTokens_nodup, fun id =>
    mem_searchItemsByTokens haccepted fun hex hmem => (hplain hex hmem).1⟩, ?_⟩
  intro vault item row hget hdeleted htokens
  have hquery {hex : String} (hplain : '"' ∉ hex.toList) : item.id ∈ searchItemsByTokens db row.userId [hex] ↔
      ∃ term ∈ extractSearchTerms R item, R.hmacSha256Hex vault.key (SEARCH_DOMAIN ++ term) = hex := by
    rw [mem_searchItemsByTokens haccepted (List.forall_mem_singleton.mpr hplain), ← mem_generateSearchTokens, ← htokens]
    simp only [List.mem_singleton]
    constructor
    · rintro ⟨row', hget', -, -, htoken⟩
      rw [hget] at hget'
      cases hget'
      exact htoken
    · exact fun htoken => ⟨row, hget, rfl, hdeleted, htoken⟩
  refine ⟨fun term hterm => ?_, fun query hapart hfound => ?_⟩
  · rw [generateQueryToken_term hlower hterm]
    exact (hquery (hexDigest_plain (hhex _ _))).mpr ⟨term, hterm, rfl⟩
  · unfold generateQueryToken at hfound
    dsimp only at hfound
    split at hfound
    · -- no digest is empty
      obtain ⟨term, -, heq⟩ := (hquery (by decide)).mp hfound
      have hdigest := hhex vault.key (SEARCH_DOMAIN ++ term)
      rw [heq] at hdigest
      exact absurd hdigest (by decide)
    · obtain ⟨term, hterm, heq⟩ := (hquery (hexDigest_plain (hhex _ _))).mp hfound
      rw [← hapart term hterm heq]
      exact hterm

end

def hexDigits : List Char := "0123456789abcdef".toList

/-- The codes of the text in hexadecimal, filled up or cut to 64 digits. -/
def sampleDigest (data : String) : String :=
  String.ofList ((data.toList.flatMap (fun c => [hexDigits.getD (c.toNat / 16 % 16) '0', hexDigits.getD (c.toNat % 16) '0'])
    ++ List.replicate 64 '0').take 64)

theorem sampleDigest_hex (data : String) : hexDigest (sampleDigest data) = true := by
  have hdigit : ∀ n < 16, hexDigits.getD n '0' ∈ hexDigits := by decide
  unfold hexDigest sampleDigest
  rw [Bool.and_eq_true, beq_iff_eq, String.length_ofList, String.toList_ofList, List.length_take, List.length_append,
    List.length_replicate, List.all_eq_true]
  refine ⟨by omega, fun c hc => List.contains_iff_mem.mpr ?_⟩
  rcases List.mem_append.mp (List.mem_of_mem_take hc) with hc | hc
  · obtain ⟨d, -, hc⟩ := List.mem_flatMap.mp hc
    rcases List.mem_cons.mp hc with rfl | hc
    · exact hdigit _ (Nat.mod_lt _ (by decide))
    · rw [List.mem_singleton.mp hc]
      exact hdigit _ (Nat.mod_lt _ (by decide))
  · rw [(List.mem_replicate.mp hc).2]
    decide

def sampleCiphertext : CiphertextEnvelope := ⟨.xchacha20Poly1305, "bm9uY2U", "Y2lwaGVydGV4dA", none⟩

def sampleRuntime : Runtime Unit where
  formats := ⟨fun _ => true, fun _ => true, fun _ => true⟩
  hostname _ := none
  toLowerCase := String.toLower
  hmacSha256Hex _ := sampleDigest
  encryptItem _ _ _ := ⟨sampleCiphertext, sampleCiphertext⟩
  decryptItem _ _ _ := none

theorem sampleRuntime_lower : LowerCaseStable sampleRuntime := by
  intro s part h
  have hlowered : part <:+: s.toList.map Char.toLower := by
    rw [← String.toList_map]
    exact h
  have hpart : part.map Char.toLower = part := by
    conv_rhs => rw [← List.map_id part]
    refine List.map_congr_left fun c hc => ?_
    obtain ⟨d, -, rfl⟩ := List.mem_map.mp (hlowered.subset hc)
    exact toLower_toLower d
  change String.map Char.toLower (String.ofList part) = _
  rw [← String.toList_inj, String.toList_map, String.toList_ofList, hpart]

def sampleNote : VaultItem where
  title := "Router Kitchen"
  folder := ""
  notes := ""
  customFields := []
  body := .secureNote ""
  id := "n1"
  createdAt := "2025-01-01T00:00:00.000Z"
  updatedAt := "2025-01-01T00:00:00.000Z"

def sampleRow : VaultItemRow where
  userId := "u1"
  revision := 1
  createdAt := sampleNote.createdAt
  updatedAt := sampleNote.updatedAt
  encryptedItemKey := sampleCiphertext
  encryptedPayload := sampleCiphertext
  encryptedSearchTokens := generateSearchTokens sampleRuntime ⟨(), []⟩ sampleNote
  deletedAt := none

def sampleDb : Db := { vaultItems := (∅ : Table ItemId VaultItemRow).set "n1" sampleRow }

theorem sampleRow_accepted : TokensAccepted sampleRow.encryptedSearchTokens := by
  refine Or.inl (List.all_eq_true.mpr fun e he => ?_)
  obtain ⟨term, -, rfl⟩ := List.mem_map.mp he
  unfold hmacSha256EnvelopeSchema
  rw [Bool.and_eq_true, Bool.and_eq_true, Bool.and_eq_true]
  exact ⟨⟨⟨rfl, rfl⟩, sampleDigest_hex _⟩, rfl⟩

theorem sampleDb_get? (id : ItemId) : sampleDb.vaultItems.get? id = if id = "n1" then some sampleRow else none :=
  Table.get?_set ..

theorem encrypted_search_kitchen :
    "n1" ∈ searchItemsByTokens sampleDb "u1" [generateQueryToken sampleRuntime ⟨(), []⟩ "kitchen"] := by
  have haccepted : ∀ id row, sampleDb.vaultItems.get? id = some row → TokensAccepted row.encryptedSearchTokens := by
    intro id row h
    rw [sampleDb_get?] at h
    split at h
    · cases h
      exact sampleRow_accepted
    · exact (nomatch h)
  have hterm : "kitchen" ∈ extractSearchTerms sampleRuntime sampleNote := by decide +kernel
  exact ((encrypted_search sampleDb sampleRuntime haccepted sampleRuntime_lower fun _ => sampleDigest_hex).2
    ⟨(), []⟩ sampleNote sampleRow (sampleDb_get? "n1") rfl rfl).1 "kitchen" hterm

end ZeroVault.Search

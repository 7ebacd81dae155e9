import Mathlib.Data.List.Basic
import Mathlib.Tactic.Common

/-!
# Origins of the extension

The classification of a tab's origin against that of a credential. Its tests come
in one order: host names of different registrable domains are told apart before
any look at their characters.
-/

namespace ZeroVault.Extension

/-! ## The classification -/

inductive OriginMatchResult
  | exact
  | similar
  | different
  | suspicious
deriving DecidableEq, Repr

structure VaultCredentialSessionItem where
  id : String
  title : String
  origin : String
  username : String
  password : String
  totp : Option String := none
deriving DecidableEq, Repr

/-- What the code reads of a `URL`. -/
structure Url where
  protocol : String
  host : String
  hostname : String
deriving DecidableEq, Repr

section
variable (newUrl : String → Option Url)

def isHttpsOrigin (origin : String) : Bool := "https://".toList.isPrefixOf origin.toList

def normalizeOrigin (origin : String) : String :=
  match newUrl origin with
  | some url => url.protocol ++ "//" ++ url.host
  | none => ""

/-- `split(".")` and `join(".")` -/
def labels (hostname : String) : List (List Char) := hostname.toList.splitOn '.'

def joinLabels (parts : List (List Char)) : String := String.ofList (List.intercalate ['.'] parts)

def SINGLE_LABEL_TLDS : List String := ["localhost", "internal"]

def knownCcSLDs : List String := ["co", "com", "net", "org", "gov", "edu", "ac"]

def getEtldPlus1 (hostname : String) : String :=
  let parts := labels hostname
  if parts.length < 2 then hostname
  else
    let lastPart := String.ofList (parts[parts.length - 1]?.getD [])
    if SINGLE_LABEL_TLDS.contains lastPart then lastPart
    else if 3 ≤ parts.length && knownCcSLDs.contains (String.ofList (parts[parts.length - 2]?.getD [])) then
      joinLabels (parts.drop (parts.length - 3))
    else joinLabels (parts.drop (parts.length - 2))

def hasPunycode (hostname : String) : Bool := (labels hostname).any fun label => "xn--".toList.isPrefixOf label

/-- `replace(/^https?:\/\//, "")` -/
def withoutProtocol (origin : List Char) : List Char :=
  if "https://".toList.isPrefixOf origin then origin.drop 8
  else if "http://".toList.isPrefixOf origin then origin.drop 7
  else origin

def rawHostname (origin : String) : String :=
  let authority := ((withoutProtocol origin.toList).splitOn '/')[0]?.getD []
  String.ofList ((authority.splitOn ':')[0]?.getD [])

def SUSPICIOUS_CHAR_PAIRS : List (List Char × List Char) :=
  [("0".toList, "o".toList), ("1".toList, "l".toList), ("rn".toList, "m".toList), ("vv".toList, "w".toList),
    ("cl".toList, "d".toList)]

/-- `replace(new RegExp(pattern, "g"), replacement)`; the first argument counts what is left of a match. -/
def replaceAll (pattern replacement : List Char) : Nat → List Char → List Char
  | _, [] => []
  | rest + 1, _ :: text => replaceAll pattern replacement rest text
  | 0, c :: text =>
    if pattern.isPrefixOf (c :: text) then
      replacement ++ replaceAll pattern replacement (pattern.length - 1) text
    else c :: replaceAll pattern replacement 0 text

def hasTypoSquatting (hostname referenceHostname : String) : Bool :=
  if hostname = referenceHostname then false
  else
    let hostBase := List.intercalate ['.'] (labels hostname).dropLast
    let refBase := List.intercalate ['.'] (labels referenceHostname).dropLast
    if hostBase = refBase then false
    else SUSPICIOUS_CHAR_PAIRS.any fun pair =>
      replaceAll pair.1 pair.2 0 hostBase == refBase || replaceAll pair.2 pair.1 0 hostBase == refBase

def classifyOriginMatch (tabOrigin credentialOrigin : String) : OriginMatchResult :=
  let rawTabHost := rawHostname tabOrigin
  let rawCredHost := rawHostname credentialOrigin
  if rawTabHost.isEmpty || rawCredHost.isEmpty then .different
  -- on the raw hosts, since a URL parser may decode them
  else if hasPunycode rawTabHost || hasPunycode rawCredHost then .suspicious
  else
    let normalizedTab := normalizeOrigin newUrl tabOrigin
    let normalizedCred := normalizeOrigin newUrl credentialOrigin
    if normalizedTab.isEmpty || normalizedCred.isEmpty || !isHttpsOrigin normalizedTab then .different
    else if normalizedTab = normalizedCred then .exact
    else
      match newUrl normalizedTab, newUrl normalizedCred with
      | some tab, some cred =>
        if getEtldPlus1 tab.hostname ≠ getEtldPlus1 cred.hostname then .different
        else if hasTypoSquatting tab.hostname cred.hostname then .suspicious
        else .similar
      | _, _ => .different

def classifyAllMatches (tabOrigin : String) (credentials : List VaultCredentialSessionItem) :
    List (VaultCredentialSessionItem × OriginMatchResult) :=
  let normalized := normalizeOrigin newUrl tabOrigin
  if normalized.isEmpty || !isHttpsOrigin normalized then []
  else
    (credentials.map fun credential => (credential, classifyOriginMatch newUrl tabOrigin credential.origin)).filter
      fun c => c.2 != .different

end

/-! ## Origins -/

/-- What the classification relies on: the serialized origin of an `https` URL is parsed back, and its host is not
empty and starts with neither a slash nor a colon. -/
structure UrlLaws (newUrl : String → Option Url) : Prop where
  reparse : ∀ s url, newUrl s = some url → url.protocol = "https:" → newUrl (url.protocol ++ "//" ++ url.host) = some url
  host : ∀ s url, newUrl s = some url → url.protocol = "https:" → ∃ c cs, url.host.toList = c :: cs ∧ c ≠ '/' ∧ c ≠ ':'

/-- An `https` origin without punycode labels. -/
structure PlainOrigin (newUrl : String → Option Url) (origin : String) (url : Url) : Prop where
  parsed : newUrl origin = some url
  https : url.protocol = "https:"
  serialized : origin = url.protocol ++ "//" ++ url.host
  plain : hasPunycode (rawHostname origin) = false

section
variable {newUrl : String → Option Url} {tabOrigin credentialOrigin : String} {tab cred : Url} {c : Char}
  {cs text : List Char} {url : Url} {origin : String}

theorem splitOn_head {separator : Char} (hc : c ≠ separator) :
    ∃ rest, ((c :: cs).splitOn separator)[0]?.getD [] = c :: rest := by
  have hbeq : (c == separator) = false := beq_eq_false_iff_ne.mpr hc
  rw [List.splitOn_cons_eq_if_modifyHead, hbeq]
  cases hpieces : cs.splitOn separator with
  | nil => exact absurd hpieces (List.splitOn_ne_nil separator cs)
  | cons piece pieces => exact ⟨piece, rfl⟩

theorem PlainOrigin.normalized (h : PlainOrigin newUrl origin url) : normalizeOrigin newUrl origin = origin := by
  unfold normalizeOrigin
  rw [h.parsed]
  exact h.serialized.symm

theorem PlainOrigin.toList (h : PlainOrigin newUrl origin url) : origin.toList = "https://".toList ++ url.host.toList := by
  rw [h.serialized, h.https, String.toList_append]
  rfl

theorem PlainOrigin.not_isEmpty (h : PlainOrigin newUrl origin url) : origin.isEmpty = false := by
  rw [← Bool.not_eq_true, String.isEmpty_iff]
  intro hnil
  have htext := h.toList
  rw [hnil] at htext
  exact nomatch htext

theorem PlainOrigin.isHttps (h : PlainOrigin newUrl origin url) : isHttpsOrigin origin = true := by
  unfold isHttpsOrigin
  rw [h.toList]
  exact List.isPrefixOf_iff_prefix.mpr (List.prefix_append _ _)

theorem PlainOrigin.rawHostname_not_isEmpty (hlaws : UrlLaws newUrl) (h : PlainOrigin newUrl origin url) :
    (rawHostname origin).isEmpty = false := by
  obtain ⟨c, cs, hhost, hslash, hcolon⟩ := hlaws.host origin url h.parsed h.https
  obtain ⟨rest, hauthority⟩ : ∃ rest, ((c :: cs).splitOn '/')[0]?.getD [] = c :: rest := splitOn_head hslash
  obtain ⟨rest', hname⟩ : ∃ rest', ((c :: rest).splitOn ':')[0]?.getD [] = c :: rest' := splitOn_head hcolon
  have hdrop : withoutProtocol origin.toList = c :: cs := by
    rw [h.toList, hhost]
    rfl
  have hraw : rawHostname origin = String.ofList (c :: rest') := by
    unfold rawHostname
    rw [hdrop]
    dsimp only
    rw [hauthority, hname]
  rw [← Bool.not_eq_true, String.isEmpty_iff, hraw, String.ofList_eq_empty_iff]
  exact List.cons_ne_nil c rest'

theorem hasTypoSquatting_self {hostname : String} : hasTypoSquatting hostname hostname = false := by
  unfold hasTypoSquatting
  exact if_pos rfl

/-- What is left of the classification for `https` origins. -/
theorem classifyOriginMatch_eq (hlaws : UrlLaws newUrl) (htab : PlainOrigin newUrl tabOrigin tab)
    (hcred : PlainOrigin newUrl credentialOrigin cred) :
    classifyOriginMatch newUrl tabOrigin credentialOrigin =
      if tabOrigin = credentialOrigin then .exact
      else if getEtldPlus1 tab.hostname ≠ getEtldPlus1 cred.hostname then .different
      else if hasTypoSquatting tab.hostname cred.hostname then .suspicious
      else .similar := by
  unfold classifyOriginMatch
  simp only [htab.rawHostname_not_isEmpty hlaws, hcred.rawHostname_not_isEmpty hlaws, htab.plain, hcred.plain,
    htab.normalized, hcred.normalized, htab.not_isEmpty, hcred.not_isEmpty, htab.isHttps, htab.parsed, hcred.parsed,
    Bool.or_self, Bool.not_true, Bool.false_eq_true, if_false]

end

section
variable {newUrl : String → Option Url} {tabOrigin credentialOrigin : String} {tab cred : Url}

/-- Of two hosts with one registrable domain the imitation is flagged and no credential is dropped; other hosts are
different. -/
theorem classifyOriginMatch_hosts (hlaws : UrlLaws newUrl) (htab : PlainOrigin newUrl tabOrigin tab)
    (hcred : PlainOrigin newUrl credentialOrigin cred) :
    (getEtldPlus1 tab.hostname = getEtldPlus1 cred.hostname → hasTypoSquatting tab.hostname cred.hostname = true →
      classifyOriginMatch newUrl tabOrigin credentialOrigin = .suspicious) ∧
    (getEtldPlus1 tab.hostname ≠ getEtldPlus1 cred.hostname →
      classifyOriginMatch newUrl tabOrigin credentialOrigin = .different) ∧
    (classifyOriginMatch newUrl tabOrigin credentialOrigin = .exact → tab.protocol = cred.protocol ∧ tab.host = cred.host) ∧
    ∀ credentials, ∀ credential ∈ credentials, credential.origin = credentialOrigin →
      getEtldPlus1 tab.hostname = getEtldPlus1 cred.hostname →
      (credential, classifyOriginMatch newUrl tabOrigin credentialOrigin) ∈
        classifyAllMatches newUrl tabOrigin credentials := by
  have hclassify := classifyOriginMatch_eq hlaws htab hcred
  have hsame : tabOrigin = credentialOrigin → tab = cred := by
    intro he
    have hparsed := htab.parsed
    rw [he, hcred.parsed] at hparsed
    exact (Option.some.inj hparsed).symm
  -- the test for look-alikes comes after that for another registrable domain
  refine ⟨fun hetld htypo => ?_, fun hetld => ?_, fun hexact => ?_, ?_⟩
  · have hne : tabOrigin ≠ credentialOrigin := by
      intro he
      rw [hsame he, hasTypoSquatting_self] at htypo
      exact Bool.false_ne_true htypo
    rw [hclassify, if_neg hne, if_neg (not_not_intro hetld), if_pos htypo]
  · have hne : tabOrigin ≠ credentialOrigin := fun he => hetld (by rw [hsame he])
    rw [hclassify, if_neg hne, if_pos hetld]
  · by_cases he : tabOrigin = credentialOrigin
    · rw [hsame he]
      exact ⟨rfl, rfl⟩
    · rw [hclassify, if_neg he] at hexact
      split at hexact
      · exact nomatch hexact
      · split at hexact <;> exact nomatch hexact
  · rintro credentials credential hmem rfl hetld
    have hkept : classifyOriginMatch newUrl tabOrigin credential.origin ≠ .different := by
      rw [hclassify, if_neg (not_not_intro hetld)]
      split
      · decide
      · split <;> decide
    have hmap : (credential, classifyOriginMatch newUrl tabOrigin credential.origin) ∈
        credentials.map fun credential => (credential, classifyOriginMatch newUrl tabOrigin credential.origin) :=
      List.mem_map.mpr ⟨credential, hmem, rfl⟩
    unfold classifyAllMatches
    simp only [htab.normalized, htab.not_isEmpty, htab.isHttps, Bool.not_true, Bool.or_self, Bool.false_eq_true, if_false]
    rw [List.mem_filter]
    clear hclassify
    generalize classifyOriginMatch newUrl tabOrigin credential.origin = matchType at hkept hmap ⊢
    constructor
    · exact hmap
    · exact bne_iff_ne.mpr hkept

end

/-- A parser of `https` origins whose hosts are lower-case names without a port. -/
def nameUrl (s : String) : Option Url :=
  let host := s.toList.drop 8
  if "https://".toList.isPrefixOf s.toList && !host.isEmpty &&
      host.all fun c => c.isLower || c.isDigit || c == '.' || c == '-' then
    some ⟨"https:", String.ofList host, String.ofList host⟩
  else none

theorem nameUrl_laws : UrlLaws nameUrl := by
  have hparsed : ∀ s url, nameUrl s = some url → url.protocol ++ "//" ++ url.host = s ∧
      ∃ c cs, url.host.toList = c :: cs ∧ c ≠ '/' ∧ c ≠ ':' := by
    intro s url h
    unfold nameUrl at h
    dsimp only at h
    split at h
    · rename_i hguard
      simp only [Bool.and_eq_true, Bool.not_eq_true', List.all_eq_true] at hguard
      obtain ⟨⟨hstarts, hne⟩, hall⟩ := hguard
      obtain ⟨host, hs⟩ := List.isPrefixOf_iff_prefix.mp hstarts
      rw [← hs] at hne hall h
      obtain rfl := Option.some.inj h
      cases host with
      | nil => exact nomatch hne
      | cons c cs =>
        have hc := hall c List.mem_cons_self
        refine ⟨String.toList_injective ?_, c, cs, String.toList_ofList, ?_, ?_⟩
        · rw [← hs]
          change ("https:" ++ "//" ++ String.ofList (c :: cs)).toList = _
          rw [String.toList_append, String.toList_ofList]
          rfl
        · rintro rfl
          exact absurd hc (by decide)
        · rintro rfl
          exact absurd hc (by decide)
    · exact nomatch h
  exact ⟨fun s url h _ => by rwa [(hparsed s url h).1], fun s url h _ => (hparsed s url h).2⟩

theorem classifyOriginMatch_hosts_login :
    classifyOriginMatch nameUrl "https://l0gin.example.com" "https://login.example.com" = .suspicious :=
  have htab : PlainOrigin nameUrl "https://l0gin.example.com" ⟨"https:", "l0gin.example.com", "l0gin.example.com"⟩ :=
    ⟨by decide +kernel, rfl, by decide +kernel, by decide +kernel⟩
  have hcred : PlainOrigin nameUrl "https://login.example.com" ⟨"https:", "login.example.com", "login.example.com"⟩ :=
    ⟨by decide +kernel, rfl, by decide +kernel, by decide +kernel⟩
  (classifyOriginMatch_hosts nameUrl_laws htab hcred).1 (by decide +kernel) (by decide +kernel)

/-- A look-alike of another registrable domain is dropped; imitations are looked for in one direction. -/
theorem classifyOriginMatch_lookalike :
    (hasTypoSquatting "examp1e.com" "example.com" = true ∧
      classifyOriginMatch nameUrl "https://examp1e.com" "https://example.com" = .different ∧
      classifyAllMatches nameUrl "https://examp1e.com" [⟨"1", "Example", "https://example.com", "alice", "secret", none⟩] = []) ∧
    hasTypoSquatting "0o.example.com" "oo.example.com" = true ∧
    classifyOriginMatch nameUrl "https://oo.example.com" "https://0o.example.com" = .similar := by
  decide +kernel

end ZeroVault.Extension

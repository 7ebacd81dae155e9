import ZeroVault.LazyTake
import ZeroVault.MobileQueue
import ZeroVault.NativeHandles
import ZeroVault.VaultItems

/-!
# Autofill on the mobile app

The candidates for a page or an app are found by one lazy pass over the records
of the account. A record that does not decrypt is passed over; a login whose
origin is no https origin makes the whole pass fail for a page
(`autofill_candidates`).
-/

namespace ZeroVault.Autofill

open Lib Mobile
open Browser (VaultItem VaultItemBody AndroidAssociation isPackageSegment isCertificateDigest)
open Native (Handle)

/-! ## The platform -/

/-- A name, an IPv4 address or an IPv6 address in brackets. -/
def PlainHost (host : String) : Prop := ':' ∉ host.toList ∨ host.toList.getLast? = some ']'

/-- What `java.net.URI` parses. -/
structure Uri where
  scheme : Option String
  userInfo : Option String
  host : Option String
  port : Option Nat
  query : Option String
  fragment : Option String
  plain : ∀ h, host = some h → PlainHost h

structure System where
  platform : Platform
  parseUri : String → Option Uri
  /-- The native call on a session, a wrapped item key, a payload and an item. -/
  decryptItem : Handle → CiphertextEnvelope → CiphertextEnvelope → ItemId → Except Failure VaultItem

inductive AutofillStatus
  | unavailable
  | lockedBiometric
  | ready
deriving DecidableEq, Repr

/-- The state of the app. `biometricReady` is that the protocol and the biometric key can be used. -/
structure Phone where
  biometricReady : Bool
  activeAccountId : Option UserId
  sessionForAccount : UserId → Option Handle
  database : Database

def Phone.autofillStatus (phone : Phone) : AutofillStatus :=
  match phone.activeAccountId with
  | none => .unavailable
  | some accountId =>
    if !phone.biometricReady then .unavailable
    else if (phone.sessionForAccount accountId).isSome then .ready else .lockedBiometric

structure AutofillTarget where
  webOrigin : Option String
  packageName : Option String
  signingCertSha256 : Option String
deriving DecidableEq, Repr

structure AutofillCandidate where
  id : ItemId
  title : String
  username : String
deriving DecidableEq, Repr

structure RevealedCredential where
  username : String
  password : String
deriving DecidableEq, Repr

/-! ## Items as JSON objects -/

def typeOf (item : VaultItem) : String :=
  match item.body with
  | .login .. => "login"
  | .secureNote .. => "secure_note"
  | .creditCard .. => "credit_card"

def originOf (item : VaultItem) : String :=
  match item.body with
  | .login origin .. => origin
  | _ => ""

def usernameOf (item : VaultItem) : String :=
  match item.body with
  | .login _ username .. => username
  | _ => ""

def passwordOf (item : VaultItem) : String :=
  match item.body with
  | .login _ _ password .. => password
  | _ => ""

def associationsOf (item : VaultItem) : List AndroidAssociation :=
  match item.body with
  | .login _ _ _ _ androidAssociations => androidAssociations.getD []
  | _ => []

/-- `take(n)`, in UTF-16 code units; a character that does not fit whole is left out. -/
def takeUnits : Nat → List Char → List Char
  | _, [] => []
  | n, c :: cs =>
    let units := if c.toNat < 0x10000 then 1 else 2
    if units ≤ n then c :: takeUnits (n - units) cs else []

def take (n : Nat) (value : String) : String := String.ofList (takeUnits n value.toList)

/-! ## Targets -/

section
variable (S : System)

def normalizedHttpsOrigin (value : String) : Except Failure String :=
  match S.parseUri value with
  | none => .error (.illegalArgument "Invalid HTTPS origin")
  | some uri => do
    require (uri.scheme.any (·.toLower = "https") && uri.host.any (!S.platform.isBlank ·)) "HTTPS origin is required"
    require (uri.userInfo.isNone && uri.query.isNone && uri.fragment.isNone) "Origin contains unsupported components"
    let port := match uri.port with
      | none => ""
      | some port => if port = 443 then "" else ":" ++ toString port
    pure ("https://" ++ (uri.host.getD "").toLower ++ port)

/-- `^[A-Za-z][A-Za-z0-9_]*(?:\.[A-Za-z][A-Za-z0-9_]*)+$`. -/
def ANDROID_PACKAGE_NAME (value : String) : Bool :=
  let segments := value.toList.splitOn '.'
  2 ≤ segments.length && segments.all isPackageSegment

def validateAutofillTarget (target : AutofillTarget) : Except Failure Unit := do
  require (xor target.webOrigin.isSome target.packageName.isSome) "Exactly one Autofill target is required"
  match target.webOrigin with
  | some webOrigin => (normalizedHttpsOrigin S webOrigin).map fun _ => ()
  | none => pure ()
  match target.packageName with
  | some packageName => do
    require (ANDROID_PACKAGE_NAME packageName) "Android package is invalid"
    require (isCertificateDigest (target.signingCertSha256.getD "")) "Signing certificate is invalid"
  | none => pure ()

def appMatches (item : VaultItem) (target : AutofillTarget) : Bool :=
  match target.packageName with
  | none => true
  | some packageName =>
    match target.signingCertSha256 with
    | none => false
    | some certificate => (associationsOf item).any fun association =>
      association.packageName = packageName && association.signingCertificateSha256.toUpper = certificate.toUpper

def loginMatches (item : VaultItem) (target : AutofillTarget) : Except Failure Bool :=
  match target.webOrigin with
  | some requested => do
    let stored ← normalizedHttpsOrigin S (originOf item)
    let wanted ← normalizedHttpsOrigin S requested
    if stored ≠ wanted then pure false else pure (appMatches item target)
  | none => pure (appMatches item target)

/-- `optString("type") == "login" && loginMatches(item, target)`. -/
def itemMatches (item : VaultItem) (target : AutofillTarget) : Except Failure Bool :=
  if typeOf item = "login" then loginMatches S item target else .ok false

/-! ## Records -/

def throwIf (condition : Bool) (code message : String) : Except Failure Unit :=
  if condition then .error (.repository code message) else .ok ()

/-- `ORDER BY record_id`, without the deleted ones. -/
def list (db : Database) (accountId : UserId) : List (ItemId × CiphertextRecordEntity) :=
  ((db.ciphertexts.select fun k row => k.1 = accountId && !row.isDeleted).map fun r => (r.1.2, r.2)).mergeSort
    fun r r' => r.1 ≤ r'.1

def decryptRecord (handle : Handle) (recordId : ItemId) (record : CiphertextRecordEntity) : Except Failure VaultItem := do
  requireIdentifier S.platform recordId "record"
  let item ← S.decryptItem handle record.ciphertextEnvelope.encryptedItemKey
    record.ciphertextEnvelope.encryptedPayload recordId
  require (item.id = recordId) FAILED_REQUIREMENT
  pure item

def candidateOf (recordId : ItemId) (item : VaultItem) : AutofillCandidate :=
  ⟨recordId, take 2048 item.title, take 1024 (usernameOf item)⟩

/-- The function behind `mapNotNull`: `runCatching` is around the decryption only. -/
def candidate (handle : Handle) (target : AutofillTarget) (r : ItemId × CiphertextRecordEntity) :
    Except Failure (Option AutofillCandidate) :=
  match decryptRecord S handle r.1 r.2 with
  | .error _ => .ok none
  | .ok item => (itemMatches S item target).map fun matching => if matching then some (candidateOf r.1 item) else none

def findAutofillCandidates (target : AutofillTarget) (phone : Phone) : Except Failure (List AutofillCandidate) := do
  validateAutofillTarget S target
  throwIf (phone.autofillStatus ≠ .ready) "AUTOFILL_UNAVAILABLE" "Autofill requires biometric unlock"
  let accountId ← orThrow "VAULT_LOCKED" "Vault is locked" phone.activeAccountId
  let handle ← orThrow "VAULT_LOCKED" "Vault is locked" (phone.sessionForAccount accountId)
  takeMapped (candidate S handle target) 100
    (((list phone.database accountId).filter fun r => !r.2.isDeleted && !r.2.hasConflict).filter fun r =>
      r.2.itemType = none || r.2.itemType = some "login")

def revealAutofillCredential (candidateId : ItemId) (target : AutofillTarget) (phone : Phone) :
    Except Failure RevealedCredential := do
  requireIdentifier S.platform candidateId "record"
  validateAutofillTarget S target
  let accountId ← orThrow "VAULT_LOCKED" "Vault is locked" phone.activeAccountId
  throwIf (phone.autofillStatus ≠ .ready) "AUTOFILL_UNAVAILABLE" "Autofill requires biometric unlock"
  let record ← orThrow "ITEM_NOT_FOUND" "Credential no longer exists" (phone.database.getRecord accountId candidateId)
  throwIf (record.isDeleted || record.hasConflict) "AUTOFILL_ITEM_UNAVAILABLE" "Credential cannot be used for Autofill"
  let handle ← orThrow "VAULT_LOCKED" "Vault is locked" (phone.sessionForAccount accountId)
  let item ← decryptRecord S handle candidateId record
  let matching ← itemMatches S item target
  throwIf (!matching) "AUTOFILL_TARGET_MISMATCH" "Credential does not match the requesting app"
  pure ⟨take 1024 (usernameOf item), take 4096 (passwordOf item)⟩

end

/-! ## Origins -/

/-- Host in lower case, port where it is not the one of https. -/
structure HttpsOrigin where
  host : String
  port : Option Nat
  plain : PlainHost host
deriving DecidableEq

def HttpsOrigin.text (o : HttpsOrigin) : String :=
  "https://" ++ o.host ++
    match o.port with
    | none => ""
    | some port => ":" ++ toString port

theorem toLower_eq_colon {c : Char} (h : c.toLower = ':') : c = ':' := by
  unfold Char.toLower at h
  split at h
  · -- an upper-case letter becomes a letter
    rename_i hupper
    have hval : (c.val + ('a'.val - 'A'.val)).toNat = 58 := congrArg (fun d : Char => d.val.toNat) h
    have hlow : 65 ≤ c.val.toNat := hupper.1
    have hhigh : c.val.toNat ≤ 90 := hupper.2
    have hsum : (c.val + ('a'.val - 'A'.val)).toNat = (c.val.toNat + 32) % 2 ^ 32 := UInt32.toNat_add _ _
    omega
  · exact h

theorem plainHost_toLower {host : String} (h : PlainHost host) : PlainHost host.toLower := by
  unfold PlainHost String.toLower
  rw [String.toList_map, List.getLast?_map]
  refine h.imp (fun hc hmem => ?_) (fun hlast => ?_)
  · obtain ⟨c, hin, hlower⟩ := List.mem_map.mp hmem
    rw [toLower_eq_colon hlower] at hin
    exact hc hin
  · rw [hlast]
    rfl

def httpsOrigin (S : System) (value : String) : Option HttpsOrigin :=
  match S.parseUri value with
  | none => none
  | some uri =>
    match hhost : uri.host with
    | none => none
    | some host =>
      if uri.scheme.any (·.toLower = "https") && !S.platform.isBlank host &&
          (uri.userInfo.isNone && uri.query.isNone && uri.fragment.isNone) then
        some ⟨host.toLower, uri.port.filter (· ≠ 443), plainHost_toLower (uri.plain host hhost)⟩
      else none

theorem split_last_colon {α : Type} {sep : α} : ∀ {xs ys ds es : List α}, sep ∉ ds → sep ∉ es →
    xs ++ sep :: ds = ys ++ sep :: es → xs = ys ∧ ds = es
  | [], [], _, _, _, _, h => ⟨rfl, (List.cons.inj h).2⟩
  | [], y :: ys, ds, es, hds, _, h => by
    obtain ⟨rfl, rfl⟩ := List.cons.inj h
    exact absurd (List.mem_append_right _ List.mem_cons_self) hds
  | x :: xs, [], ds, es, _, hes, h => by
    obtain ⟨rfl, rfl⟩ := List.cons.inj h
    exact absurd (List.mem_append_right _ List.mem_cons_self) hes
  | x :: xs, y :: ys, ds, es, hds, hes, h => by
    obtain ⟨rfl, htail⟩ := List.cons.inj h
    obtain ⟨rfl, rfl⟩ := split_last_colon hds hes htail
    exact ⟨rfl, rfl⟩

theorem digits_toString (n : Nat) : ∀ c ∈ (toString n).toList, c.isDigit = true := by
  intro c hc
  rw [Nat.toString_eq_repr, Nat.toList_repr] at hc
  exact Nat.isDigit_of_mem_toDigits (by decide) (by decide) hc

theorem toString_injective {n n' : Nat} (h : toString n = toString n') : n = n' := by
  have hdigits : Nat.toDigits 10 n = Nat.toDigits 10 n' := by
    rw [← Nat.toList_repr, ← Nat.toList_repr, ← Nat.toString_eq_repr, ← Nat.toString_eq_repr, h]
  rw [← Nat.ofDigitChars_toDigits (b := 10) (n := n) (by decide) (by decide), hdigits,
    Nat.ofDigitChars_toDigits (by decide) (by decide)]

theorem colon_not_mem_toString (n : Nat) : ':' ∉ (toString n).toList := fun hc =>
  absurd (digits_toString n ':' hc) (by decide)

theorem PlainHost.no_port {host before : String} {n : Nat} (h : PlainHost host) :
    host.toList ≠ before.toList ++ ':' :: (toString n).toList := by
  intro heq
  rcases h with hc | hlast
  · exact hc (heq ▸ List.mem_append_right _ List.mem_cons_self)
  · have hne : (toString n).toList ≠ [] := by
      rw [Nat.toString_eq_repr, Nat.toList_repr]
      exact Nat.toDigits_ne_nil
    rw [heq, List.getLast?_append_of_ne_nil _ (List.cons_ne_nil _ _), List.getLast?_cons_of_ne_nil hne] at hlast
    exact absurd (digits_toString n _ (List.mem_of_getLast? hlast)) (by decide)

def portChars : Option Nat → List Char
  | none => []
  | some port => ':' :: (toString port).toList

theorem HttpsOrigin.toList_text (o : HttpsOrigin) :
    o.text.toList = "https://".toList ++ (o.host.toList ++ portChars o.port) := by
  unfold HttpsOrigin.text
  rw [String.toList_append, String.toList_append, List.append_assoc]
  cases o.port with
  | none => rfl
  | some port =>
    dsimp only
    rw [String.toList_append]
    rfl

theorem HttpsOrigin.text_injective {o o' : HttpsOrigin} (h : o.text = o'.text) : o = o' := by
  obtain ⟨host, port, hplain⟩ := o
  obtain ⟨host', port', hplain'⟩ := o'
  have h : host.toList ++ portChars port = host'.toList ++ portChars port' := by
    have htexts := congrArg String.toList h
    rw [HttpsOrigin.toList_text, HttpsOrigin.toList_text] at htexts
    exact List.append_cancel_left htexts
  have hparts : host.toList = host'.toList ∧ port = port' := by
    cases port with
    | none =>
      cases port' with
      | none => exact ⟨List.append_cancel_right h, rfl⟩
      | some n' =>
        rw [portChars, List.append_nil] at h
        exact absurd h hplain.no_port
    | some n =>
      cases port' with
      | none =>
        rw [portChars, portChars, List.append_nil] at h
        exact absurd h.symm hplain'.no_port
      | some n' =>
        obtain ⟨hhost, hport⟩ := split_last_colon (colon_not_mem_toString n) (colon_not_mem_toString n') h
        exact ⟨hhost, congrArg some (toString_injective (String.toList_injective hport))⟩
  obtain ⟨hhost, rfl⟩ := hparts
  obtain rfl := String.toList_injective hhost
  rfl

section
variable {S : System}

/-- An https origin is normalized to its text, and nothing else is normalized. -/
theorem normalizedHttpsOrigin_eq (S : System) (value : String) : (∃ o, httpsOrigin S value = some o ∧ normalizedHttpsOrigin S value = .ok o.text) ∨
    httpsOrigin S value = none ∧ ∃ e, normalizedHttpsOrigin S value = .error e := by
  unfold httpsOrigin normalizedHttpsOrigin
  cases huri : S.parseUri value with
  | none => exact .inr ⟨rfl, _, rfl⟩
  | some uri =>
    obtain ⟨scheme, userInfo, host, port, query, fragment, hplain⟩ := uri
    cases host with
    | none =>
      refine .inr ⟨rfl, .illegalArgument "HTTPS origin is required", ?_⟩
      simp only [Option.any_none, Bool.and_false]
      rfl
    | some host =>
      simp only [Option.any_some, Option.getD_some]
      cases hscheme : scheme.any (·.toLower = "https") && !S.platform.isBlank host with
      | false => exact .inr ⟨rfl, _, rfl⟩
      | true =>
        cases hparts : userInfo.isNone && query.isNone && fragment.isNone with
        | false => exact .inr ⟨rfl, _, rfl⟩
        | true =>
          refine .inl ⟨_, rfl, ?_⟩
          cases port with
          | none => rfl
          | some port =>
            by_cases h443 : port = 443
            · subst h443
              rfl
            · have hkept : (some port).filter (· ≠ 443) = some port := by simp [h443]
              unfold HttpsOrigin.text
              simp only [hkept, if_neg h443]
              rfl

/-! ## What a target matches -/

variable {item : VaultItem} {target : AutofillTarget} {handle : Handle} {r : ItemId × CiphertextRecordEntity}

/-- A login for the page or the app. -/
structure Matches (S : System) (item : VaultItem) (target : AutofillTarget) : Prop where
  login : typeOf item = "login"
  origin : ∀ requested, target.webOrigin = some requested →
    ∃ o, httpsOrigin S (originOf item) = some o ∧ httpsOrigin S requested = some o
  app : ∀ packageName, target.packageName = some packageName → ∃ certificate, target.signingCertSha256 = some certificate ∧
    ∃ association ∈ associationsOf item, association.packageName = packageName ∧
      association.signingCertificateSha256.toUpper = certificate.toUpper

def matchesTarget (S : System) (item : VaultItem) (target : AutofillTarget) : Bool :=
  typeOf item = "login" && (target.webOrigin.all fun requested => (httpsOrigin S (originOf item)).isSome &&
    httpsOrigin S (originOf item) = httpsOrigin S requested) && appMatches item target

theorem appMatches_iff : appMatches item target = true ↔ ∀ packageName, target.packageName = some packageName →
    ∃ certificate, target.signingCertSha256 = some certificate ∧
      ∃ association ∈ associationsOf item, association.packageName = packageName ∧
        association.signingCertificateSha256.toUpper = certificate.toUpper := by
  unfold appMatches
  cases target.packageName with
  | none => exact ⟨fun _ _ hname => (nomatch hname), fun _ => rfl⟩
  | some packageName =>
    cases target.signingCertSha256 with
    | none =>
      refine ⟨fun h => (nomatch h), fun h => ?_⟩
      obtain ⟨_, hc, -⟩ := h packageName rfl
      cases hc
    | some certificate =>
      simp only [List.any_eq_true, Bool.and_eq_true, decide_eq_true_eq]
      constructor
      · rintro h name hname
        cases hname
        exact ⟨certificate, rfl, h⟩
      · intro h
        obtain ⟨certificate', hc, h⟩ := h packageName rfl
        cases hc
        exact h

theorem matchesTarget_iff : matchesTarget S item target = true ↔ Matches S item target := by
  unfold matchesTarget
  rw [Bool.and_eq_true, Bool.and_eq_true, decide_eq_true_eq, appMatches_iff, Option.all_eq_true]
  simp only [Bool.and_eq_true, decide_eq_true_eq, Option.isSome_iff_exists]
  constructor
  · rintro ⟨⟨hlogin, horigin⟩, happ⟩
    refine ⟨hlogin, fun requested hrequested => ?_, happ⟩
    obtain ⟨⟨o, ho⟩, hsame⟩ := horigin requested hrequested
    exact ⟨o, ho, hsame ▸ ho⟩
  · intro h
    refine ⟨⟨h.login, fun requested hrequested => ?_⟩, h.app⟩
    obtain ⟨o, ho, ho'⟩ := h.origin requested hrequested
    exact ⟨⟨o, ho⟩, ho.trans ho'.symm⟩

def found (S : System) (handle : Handle) (target : AutofillTarget) (r : ItemId × CiphertextRecordEntity) :
    Option AutofillCandidate :=
  if r.2.isDeleted || r.2.hasConflict then none
  else
    match decryptRecord S handle r.1 r.2 with
    | .error _ => none
    | .ok item => if matchesTarget S item target then some (candidateOf r.1 item) else none

/-- A login that makes the search fail, its origin being none of https, or a
match that is hidden behind a stored type of another name. -/
def Spoils (S : System) (handle : Handle) (target : AutofillTarget) (r : ItemId × CiphertextRecordEntity) : Prop :=
  r.2.isDeleted = false ∧ r.2.hasConflict = false ∧ ∃ item, decryptRecord S handle r.1 r.2 = .ok item ∧
    if r.2.itemType = none ∨ r.2.itemType = some "login" then
      typeOf item = "login" ∧ target.webOrigin.isSome = true ∧ httpsOrigin S (originOf item) = none
    else Matches S item target

theorem valid_origin (h : validateAutofillTarget S target = .ok ()) {requested : String}
    (hrequested : target.webOrigin = some requested) :
    ∃ o, httpsOrigin S requested = some o ∧ normalizedHttpsOrigin S requested = .ok o.text := by
  rcases normalizedHttpsOrigin_eq S requested with hok | ⟨-, e, he⟩
  · exact hok
  · obtain ⟨_, -, h⟩ := Browser.except_bind_ok h
    rw [hrequested] at h
    dsimp only at h
    rw [he] at h
    cases h

theorem not_login_matches (hlogin : typeOf item ≠ "login") : matchesTarget S item target = false := by
  unfold matchesTarget
  rw [decide_eq_false hlogin]
  rfl

theorem loginMatches_eq (hvalid : validateAutofillTarget S target = .ok ()) (hlogin : typeOf item = "login") :
    if target.webOrigin.isSome = true ∧ httpsOrigin S (originOf item) = none then
      ∃ e, loginMatches S item target = .error e
    else loginMatches S item target = .ok (matchesTarget S item target) := by
  unfold loginMatches matchesTarget
  rw [decide_eq_true hlogin, Bool.true_and]
  cases hweb : target.webOrigin with
  | none => rfl
  | some requested =>
    obtain ⟨wanted, hwanted, hwantedText⟩ := valid_origin hvalid hweb
    rcases normalizedHttpsOrigin_eq S (originOf item) with ⟨o, ho, htext⟩ | ⟨ho, e, he⟩
    · rw [ho, htext]
      simp only [reduceCtorEq, and_false, if_false, Option.all_some, Option.isSome_some, Bool.true_and, hwanted,
        hwantedText]
      show (if o.text ≠ wanted.text then pure false else pure (appMatches item target)) = _
      by_cases hsame : o = wanted
      · subst hsame
        rw [if_neg (not_not_intro rfl), decide_eq_true rfl, Bool.true_and]
        rfl
      · rw [if_pos fun ht => hsame (HttpsOrigin.text_injective ht), decide_eq_false fun hs => hsame (Option.some.inj hs)]
        rfl
    · rw [ho, he, if_pos ⟨rfl, rfl⟩]
      exact ⟨e, rfl⟩

/-- The relation of the code fails or is the relation of the model. -/
theorem itemMatches_cases (item : VaultItem) (hvalid : validateAutofillTarget S target = .ok ()) :
    ((typeOf item = "login" ∧ target.webOrigin.isSome = true ∧ httpsOrigin S (originOf item) = none) ∧
      matchesTarget S item target = false ∧ ∃ e, itemMatches S item target = .error e) ∨
    ¬ (typeOf item = "login" ∧ target.webOrigin.isSome = true ∧ httpsOrigin S (originOf item) = none) ∧
      itemMatches S item target = .ok (matchesTarget S item target) := by
  unfold itemMatches
  by_cases hlogin : typeOf item = "login"
  · rw [if_pos hlogin]
    have hmatch := loginMatches_eq hvalid hlogin
    split at hmatch
    · rename_i hunusable
      refine .inl ⟨⟨hlogin, hunusable⟩, ?_, hmatch⟩
      rw [← Bool.not_eq_true, matchesTarget_iff]
      intro h
      obtain ⟨requested, hrequested⟩ := Option.isSome_iff_exists.mp hunusable.1
      obtain ⟨o, ho, -⟩ := h.origin requested hrequested
      rw [hunusable.2] at ho
      cases ho
    · rename_i husable
      exact .inr ⟨fun h => husable h.2, hmatch⟩
  · rw [if_neg hlogin, not_login_matches hlogin]
    exact .inr ⟨fun h => hlogin h.1, rfl⟩

/-! ## One record -/

/-- The stage with the filters in front of it. -/
def usable (S : System) (handle : Handle) (target : AutofillTarget) (r : ItemId × CiphertextRecordEntity) :
    Except Failure (Option AutofillCandidate) :=
  if !r.2.isDeleted && !r.2.hasConflict then
    if r.2.itemType = none || r.2.itemType = some "login" then candidate S handle target r else .ok none
  else .ok none

theorem found_id {c : AutofillCandidate} (h : found S handle target r = some c) : c.id = r.1 := by
  unfold found at h
  split at h
  · cases h
  split at h
  · cases h
  split at h
  · cases h
    rfl
  · cases h

theorem usable_cases (hvalid : validateAutofillTarget S target = .ok ()) :
    (Spoils S handle target r ∧ usable S handle target r ≠ .ok (found S handle target r) ∧
      ∀ c, usable S handle target r ≠ .ok (some c)) ∨
    ¬ Spoils S handle target r ∧ usable S handle target r = .ok (found S handle target r) := by
  obtain ⟨recordId, row⟩ := r
  unfold Spoils usable found candidate
  dsimp only
  cases hdeleted : row.isDeleted with
  | true => exact .inr ⟨fun h => (nomatch h.1), rfl⟩
  | false =>
    cases hconflict : row.hasConflict with
    | true => exact .inr ⟨fun h => (nomatch h.2.1), rfl⟩
    | false =>
      simp only [Bool.not_false, Bool.and_self, Bool.or_self, if_true, true_and, Bool.false_eq_true, if_false]
      cases hdecrypt : decryptRecord S handle recordId row with
      | error e =>
        refine .inr ⟨fun ⟨item, hitem, _⟩ => (nomatch hitem), ?_⟩
        split <;> rfl
      | ok item =>
        simp only [Except.ok.injEq, exists_eq_left', Bool.or_eq_true, decide_eq_true_eq]
        by_cases htype : row.itemType = none ∨ row.itemType = some "login"
        · rw [if_pos htype, if_pos htype]
          rcases itemMatches_cases item hvalid with ⟨hspoils, -, e, he⟩ | ⟨hnot, heq⟩
          · rw [he]
            exact .inl ⟨hspoils, fun h => (nomatch h), fun c h => (nomatch h)⟩
          · rw [heq]
            exact .inr ⟨hnot, rfl⟩
        · rw [if_neg htype, if_neg htype]
          cases hmatches : matchesTarget S item target with
          | false => exact .inr ⟨fun h => absurd (matchesTarget_iff.mpr h) (by rw [hmatches]; decide), rfl⟩
          | true => exact .inl ⟨matchesTarget_iff.mp hmatches, fun h => (nomatch h), fun c h => (nomatch h)⟩

theorem usable_iff (hvalid : validateAutofillTarget S target = .ok ()) :
    usable S handle target r = .ok (found S handle target r) ↔ ¬ Spoils S handle target r := by
  rcases usable_cases hvalid with ⟨hs, hne, -⟩ | ⟨hs, heq⟩
  · exact ⟨fun h => absurd h hne, fun h => absurd hs h⟩
  · exact ⟨fun _ => hs, fun _ => heq⟩

theorem usable_some {c : AutofillCandidate} (hvalid : validateAutofillTarget S target = .ok ())
    (h : usable S handle target r = .ok (some c)) : found S handle target r = some c := by
  rcases usable_cases hvalid with ⟨-, -, hnone⟩ | ⟨-, heq⟩
  · exact absurd h (hnone c)
  · exact Except.ok.inj (heq.symm.trans h)

/-! ## Both calls -/

variable {phone : Phone} {accountId : UserId}

theorem list_nodup (db : Database) (accountId : UserId) : ((list db accountId).map Prod.fst).Nodup := by
  unfold list
  refine ((List.mergeSort_perm _ _).map _).nodup_iff.mpr ?_
  rw [List.map_map]
  have hkeys : ((db.ciphertexts.select fun k row => k.1 = accountId && !row.isDeleted).map Prod.fst).Nodup :=
    (List.filter_sublist.map _).nodup db.ciphertexts.nodup
  refine List.Nodup.map_on ?_ (List.Nodup.of_map _ hkeys)
  rintro ⟨⟨a, k⟩, row⟩ hmem ⟨⟨a', k'⟩, row'⟩ hmem' (hsame : k = k')
  subst hsame
  obtain ⟨hget, hp⟩ := Table.mem_select.mp hmem
  obtain ⟨hget', hp'⟩ := Table.mem_select.mp hmem'
  rw [Bool.and_eq_true, decide_eq_true_eq] at hp hp'
  obtain rfl : a = a' := hp.1.trans hp'.1.symm
  rw [hget] at hget'
  cases hget'
  rfl

structure Ready (phone : Phone) (accountId : UserId) (handle : Handle) : Prop where
  biometric : phone.biometricReady = true
  account : phone.activeAccountId = some accountId
  session : phone.sessionForAccount accountId = some handle

theorem Ready.status (h : Ready phone accountId handle) : phone.autofillStatus = .ready := by
  unfold Phone.autofillStatus
  rw [h.account]
  dsimp only
  rw [h.biometric, h.session]
  rfl

theorem findAutofillCandidates_eq (h : Ready phone accountId handle) (hvalid : validateAutofillTarget S target = .ok ()) :
    findAutofillCandidates S target phone =
      takeMapped (usable S handle target) 100 (list phone.database accountId) := by
  unfold findAutofillCandidates
  rw [hvalid, h.status, h.account]
  show (orThrow "VAULT_LOCKED" "Vault is locked" (phone.sessionForAccount accountId) >>= fun handle => _) = _
  rw [h.session]
  show takeMapped (candidate S handle target) 100 _ = _
  rw [takeMapped_filter, takeMapped_filter]
  rfl

theorem found_some {recordId : ItemId} {row : CiphertextRecordEntity} :
    (found S handle target (recordId, row)).isSome = true ↔ (row.isDeleted || row.hasConflict) = false ∧
      ∃ item, decryptRecord S handle recordId row = .ok item ∧ matchesTarget S item target = true := by
  unfold found
  dsimp only
  cases row.isDeleted || row.hasConflict with
  | true => simp
  | false =>
    cases decryptRecord S handle recordId row with
    | error e => simp
    | ok item => simp

theorem decryptRecord_identifier {recordId : ItemId} {row : CiphertextRecordEntity}
    (h : decryptRecord S handle recordId row = .ok item) : requireIdentifier S.platform recordId "record" = .ok () := by
  obtain ⟨_, hid, -⟩ := Browser.except_bind_ok h
  exact hid

theorem revealAutofillCredential_iff {recordId : ItemId} (h : Ready phone accountId handle)
    (hvalid : validateAutofillTarget S target = .ok ()) :
    (∃ credential, revealAutofillCredential S recordId target phone = .ok credential) ↔
      ∃ row, phone.database.getRecord accountId recordId = some row ∧
        (found S handle target (recordId, row)).isSome = true := by
  have hmatch {item : VaultItem} : itemMatches S item target = .ok true ↔ matchesTarget S item target = true := by
    rcases itemMatches_cases item hvalid with ⟨-, hfalse, e, he⟩ | ⟨-, heq⟩
    · rw [he, hfalse]
      exact ⟨fun h => (nomatch h), fun h => (nomatch h)⟩
    · rw [heq, Except.ok.injEq]
  have hthrow {condition : Bool} {code message : String} {u : Unit} (h : throwIf condition code message = .ok u) :
      condition = false := by
    cases condition with
    | false => rfl
    | true => cases h
  constructor
  · rintro ⟨credential, hok⟩
    obtain ⟨_, -, hok⟩ := Browser.except_bind_ok hok
    obtain ⟨_, -, hok⟩ := Browser.except_bind_ok hok
    obtain ⟨accountId', haccount, hok⟩ := Browser.except_bind_ok hok
    obtain ⟨_, -, hok⟩ := Browser.except_bind_ok hok
    obtain ⟨row, hrow, hok⟩ := Browser.except_bind_ok hok
    obtain ⟨_, hplain, hok⟩ := Browser.except_bind_ok hok
    obtain ⟨handle', hhandle, hok⟩ := Browser.except_bind_ok hok
    obtain ⟨item, hitem, hok⟩ := Browser.except_bind_ok hok
    obtain ⟨matching, hmatching, hok⟩ := Browser.except_bind_ok hok
    obtain ⟨_, hmatched, hok⟩ := Browser.except_bind_ok hok
    obtain rfl : accountId = accountId' := Option.some.inj (h.account.symm.trans (orThrow_ok haccount))
    obtain rfl : handle = handle' := Option.some.inj (h.session.symm.trans (orThrow_ok hhandle))
    cases matching with
    | false => cases hthrow hmatched
    | true => exact ⟨row, orThrow_ok hrow, found_some.mpr ⟨hthrow hplain, item, hitem, hmatch.mp hmatching⟩⟩
  · rintro ⟨row, hrow, hfound⟩
    obtain ⟨hplain, item, hitem, hmatches⟩ := found_some.mp hfound
    refine ⟨⟨take 1024 (usernameOf item), take 4096 (passwordOf item)⟩, ?_⟩
    unfold revealAutofillCredential
    rw [decryptRecord_identifier hitem, hvalid, h.account, h.status]
    show (orThrow _ _ (phone.database.getRecord accountId recordId) >>= _) = _
    rw [hrow]
    show (throwIf (row.isDeleted || row.hasConflict) _ _ >>= _) = _
    rw [hplain]
    show (orThrow _ _ (phone.sessionForAccount accountId) >>= _) = _
    rw [h.session]
    show (decryptRecord S handle recordId row >>= _) = _
    rw [hitem]
    show (itemMatches S item target >>= _) = _
    rw [hmatch.mpr hmatches]
    rfl

theorem findAutofillCandidates_iff (h : Ready phone accountId handle)
    (hvalid : validateAutofillTarget S target = .ok ()) :
    findAutofillCandidates S target phone =
        .ok (((list phone.database accountId).filterMap (found S handle target)).take 100) ↔
      ∀ r, Reached (found S handle target) 100 (list phone.database accountId) r → ¬ Spoils S handle target r := by
  rw [findAutofillCandidates_eq h hvalid]
  rw [takeMapped_iff Prod.fst AutofillCandidate.id
    (fun r c hc => found_id (usable_some hvalid hc)) (fun r c hc => found_id hc)
    (fun r c hnone hc => nomatch hnone.symm.trans (usable_some hvalid hc)) (list_nodup _ _)]
  exact forall_congr' fun r => forall_congr' fun _ => usable_iff hvalid

theorem autofill_candidates (S : System) (phone : Phone) (accountId : UserId) (handle : Handle) (target : AutofillTarget)
    (h : Ready phone accountId handle) (hvalid : validateAutofillTarget S target = .ok ()) :
    (findAutofillCandidates S target phone =
        .ok (((list phone.database accountId).filterMap (found S handle target)).take 100) ↔
      ∀ r, Reached (found S handle target) 100 (list phone.database accountId) r → ¬ Spoils S handle target r) ∧
    ∀ recordId, (∃ credential, revealAutofillCredential S recordId target phone = .ok credential) ↔
      ∃ row item, phone.database.getRecord accountId recordId = some row ∧ row.isDeleted = false ∧
        row.hasConflict = false ∧ decryptRecord S handle recordId row = .ok item ∧ Matches S item target := by
  refine ⟨findAutofillCandidates_iff h hvalid, fun recordId => (revealAutofillCredential_iff h hvalid).trans ?_⟩
  simp only [found_some, Bool.or_eq_false_iff, matchesTarget_iff]
  constructor
  · rintro ⟨row, hrow, ⟨hdeleted, hconflict⟩, item, hitem, hmatches⟩
    exact ⟨row, item, hrow, hdeleted, hconflict, hitem, hmatches⟩
  · rintro ⟨row, item, hrow, hdeleted, hconflict, hitem, hmatches⟩
    exact ⟨row, hrow, ⟨hdeleted, hconflict⟩, item, hitem, hmatches⟩

end

/-! ## A login without an origin -/

def sampleLogin (id : ItemId) (origin : String) : VaultItem where
  title := id
  folder := ""
  notes := ""
  customFields := []
  body := .login origin "ada" "correct horse" none none
  id := id
  createdAt := "2025-01-01T00:00:00.000Z"
  updatedAt := "2025-01-01T00:00:00.000Z"

def sampleEnvelope : CiphertextEnvelope := ⟨.xchacha20Poly1305, "bm9uY2U", "Y2lwaGVydGV4dA", none⟩

/-- Row r5 is deleted. -/
def sampleRow (id : ItemId) : CiphertextRecordEntity where
  ciphertextEnvelope := ⟨id, "u1", 1, "2025-01-01T00:00:00.000Z", "2025-01-01T00:00:00.000Z", sampleEnvelope,
    sampleEnvelope, []⟩
  itemRevision := 1
  lastSyncedAt := "2025-01-01T00:00:00.000Z"
  hasConflict := false
  itemType := none
  isDeleted := id == "r5"

/-- Item r1 has no origin, r3 is of another site and r4 does not decrypt; the others
are of example.com. -/
def sampleSystem : System where
  platform := ⟨(· == ""), fun _ => true, fun _ => true, fun _ => true, fun _ => 200⟩
  parseUri value :=
    if value = "https://example.com" then
      some ⟨some "https", none, some "example.com", none, none, none, fun _ h => .inl (by cases h; decide)⟩
    else if value = "https://example.org" then
      some ⟨some "https", none, some "example.org", none, none, none, fun _ h => .inl (by cases h; decide)⟩
    else if value = "" then some ⟨none, none, none, none, none, none, fun _ h => nomatch h⟩
    else none
  decryptItem _ _ _ id :=
    if id = "r4" then .error (.repository "AUTH_INVALID" "Authentication failed")
    else .ok (sampleLogin id (if id = "r1" then "" else if id = "r3" then "https://example.org" else "https://example.com"))

def samplePhone (ids : List ItemId) : Phone where
  biometricReady := true
  activeAccountId := some "u1"
  sessionForAccount _ := some "session"
  database := { emptyDatabase with
    ciphertexts := ids.foldl (fun t id => t.set ("u1", id) (sampleRow id)) ∅ }

def samplePage : AutofillTarget := ⟨some "https://example.com", none, none⟩

theorem samplePhone_ready (ids : List ItemId) : Ready (samplePhone ids) "u1" "session" := ⟨rfl, rfl, rfl⟩

theorem samplePage_valid : validateAutofillTarget sampleSystem samplePage = .ok () := by decide +kernel

/-- `autofill_candidates` beside an item of another site, one that does not decrypt
and a deleted one. -/
theorem autofill_candidates_page :
    findAutofillCandidates sampleSystem samplePage (samplePhone ["r2", "r3", "r4", "r5"]) =
      .ok [⟨"r2", "r2", "ada"⟩] ∧
    ∃ credential, revealAutofillCredential sampleSystem "r2" samplePage (samplePhone ["r2", "r3", "r4", "r5"]) =
      .ok credential := by
  have hrows : ((samplePhone ["r2", "r3", "r4", "r5"]).database.ciphertexts.select fun k row =>
      k.1 = "u1" && !row.isDeleted).map (fun r => (r.1.2, r.2)) = ["r2", "r3", "r4"].map fun id => (id, sampleRow id) := by
    decide +kernel
  have hlist : list (samplePhone ["r2", "r3", "r4", "r5"]).database "u1" =
      ["r2", "r3", "r4"].map fun id => (id, sampleRow id) := by
    unfold list
    rw [hrows]
    exact List.mergeSort_of_pairwise (by decide +kernel)
  have hfound : ((["r2", "r3", "r4"].map fun id => (id, sampleRow id)).filterMap
      (found sampleSystem "session" samplePage)).take 100 = [⟨"r2", "r2", "ada"⟩] := by decide +kernel
  have husable : ∀ id ∈ ["r2", "r3", "r4"], usable sampleSystem "session" samplePage (id, sampleRow id) =
      .ok (found sampleSystem "session" samplePage (id, sampleRow id)) := by decide +kernel
  obtain ⟨hfind, hreveal⟩ := autofill_candidates sampleSystem (samplePhone ["r2", "r3", "r4", "r5"]) "u1" "session"
    samplePage (samplePhone_ready _) samplePage_valid
  rw [hlist, hfound] at hfind
  refine ⟨hfind.mpr ?_, (hreveal "r2").mpr ⟨sampleRow "r2", sampleLogin "r2" "https://example.com", by decide +kernel, rfl,
    rfl, by decide +kernel, ?_⟩⟩
  · rintro r ⟨before, after, heq, -⟩
    have hr : r ∈ ["r2", "r3", "r4"].map fun id => (id, sampleRow id) := by simp [heq]
    obtain ⟨id, hid, rfl⟩ := List.mem_map.mp hr
    exact (usable_iff samplePage_valid).mp (husable id hid)
  · exact matchesTarget_iff.mp (by decide +kernel)

/-- The login r1 has no origin; r2 is the one that should be offered. -/
theorem login_without_origin_fails :
    ((list (samplePhone ["r1", "r2"]).database "u1").filterMap (found sampleSystem "session" samplePage)).take 100 =
      [⟨"r2", "r2", "ada"⟩] ∧
    findAutofillCandidates sampleSystem samplePage (samplePhone ["r1", "r2"]) ≠ .ok [⟨"r2", "r2", "ada"⟩] := by
  have hrows : ((samplePhone ["r1", "r2"]).database.ciphertexts.select fun k row =>
      k.1 = "u1" && !row.isDeleted).map (fun r => (r.1.2, r.2)) = [("r1", sampleRow "r1"), ("r2", sampleRow "r2")] := by
    decide +kernel
  have hlist : list (samplePhone ["r1", "r2"]).database "u1" = [("r1", sampleRow "r1"), ("r2", sampleRow "r2")] := by
    unfold list
    rw [hrows]
    exact List.mergeSort_of_pairwise (by decide +kernel)
  have hfound : ([("r1", sampleRow "r1"), ("r2", sampleRow "r2")].filterMap
      (found sampleSystem "session" samplePage)).take 100 = [⟨"r2", "r2", "ada"⟩] := by decide +kernel
  have hspoils : Spoils sampleSystem "session" samplePage ("r1", sampleRow "r1") :=
    ⟨rfl, rfl, sampleLogin "r1" "", by decide +kernel, by rw [if_pos (.inl rfl)]; decide +kernel⟩
  rw [hlist]
  refine ⟨hfound, fun h => ?_⟩
  have hclear := (findAutofillCandidates_iff (samplePhone_ready _) samplePage_valid).mp
    (by rw [hlist, hfound]; exact h)
  rw [hlist] at hclear
  exact hclear _ reached_head hspoils

end ZeroVault.Autofill

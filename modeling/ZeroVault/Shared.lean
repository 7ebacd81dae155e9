import Mathlib.Algebra.GroupWithZero.Nat
import Mathlib.Data.List.Basic

/-!
# Wire data and its schemas

The types shared by the clients and the Worker, with the checks their schemas
make. JSON texts are modelled by the values they encode. The formats that the
schema library itself defines are a parameter (`Formats`).
-/

namespace ZeroVault

abbrev UserId := String
abbrev ItemId := String
abbrev MutationId := String

def MAX_BASE64URL_CHARS : Nat := 699052
def MAX_CIPHERTEXT_BASE64URL_CHARS : Nat := 349528
def MAX_AAD_BASE64URL_CHARS : Nat := 10924
def MAX_ENCRYPTED_SEARCH_TOKENS : Nat := 128
def MAX_SYNC_MUTATIONS : Nat := 100

/-- `z.string().uuid()`, `.datetime()` and `.email()`. -/
structure Formats where
  uuid : String → Bool
  datetime : String → Bool
  email : String → Bool

/-- `value.length`: UTF-16 code units. -/
def jsLength (value : String) : Nat := (value.toList.map fun c => if c.toNat < 0x10000 then 1 else 2).sum

/-- `\s`, and what `trim` removes. -/
def isJsSpace (c : Char) : Bool :=
  let n := c.toNat
  (0x9 ≤ n && n ≤ 0xd) || n == 0x20 || n == 0xa0 || n == 0x1680 || (0x2000 ≤ n && n ≤ 0x200a) || n == 0x2028 ||
    n == 0x2029 || n == 0x202f || n == 0x205f || n == 0x3000 || n == 0xfeff

def trimJs (value : List Char) : List Char := ((value.dropWhile isJsSpace).reverse.dropWhile isJsSpace).reverse

/-! ## Base64url -/

def BASE64URL_ALPHABET : List Char :=
  "ABCDEFGHIJKLMNOPQRSTUVWXYZabcdefghijklmnopqrstuvwxyz0123456789-_".toList

def unpadded (value : List Char) : List Char := (value.reverse.dropWhile (· == '=')).reverse

/-- `/^[A-Za-z0-9_-]+={0,2}$/u`, within `max` characters. -/
def base64UrlMax (max : Nat) (value : String) : Bool :=
  let body := unpadded value.toList
  value.length ≤ max && !body.isEmpty && body.all (BASE64URL_ALPHABET.contains ·) &&
    value.length - body.length ≤ 2

def base64UrlSchema (value : String) : Bool := base64UrlMax MAX_BASE64URL_CHARS value

/-- `none` where the source answers `-1`. -/
def decodedBase64UrlLength (value : String) : Option Nat :=
  let n := (unpadded value.toList).length
  let remainder := n % 4
  let padding := value.length - n
  if remainder = 1 ∨ (0 < padding ∧ ¬ ((remainder = 2 ∧ padding = 2) ∨ (remainder = 3 ∧ padding = 1))) then none
  else some (n * 6 / 8)

/-! ## Ciphertext envelopes -/

inductive EnvelopeAlg
  | xchacha20Poly1305
  | aes256Gcm
  | hmacSha256
deriving DecidableEq, Repr

structure CiphertextEnvelope where
  alg : EnvelopeAlg
  nonce : String
  ciphertext : String
  aad : Option String
deriving DecidableEq, Repr

def aeadCiphertextSchema (value : String) : Bool :=
  base64UrlMax MAX_CIPHERTEXT_BASE64URL_CHARS value && (decodedBase64UrlLength value).any (16 ≤ ·)

def aadSchema (value : Option String) : Bool := value.all (base64UrlMax MAX_AAD_BASE64URL_CHARS)

def nonceSchema (bytes : Nat) (value : String) : Bool :=
  base64UrlMax 128 value && decodedBase64UrlLength value == some bytes

def aeadCiphertextEnvelopeSchema (e : CiphertextEnvelope) : Bool :=
  match e.alg with
  | .xchacha20Poly1305 => nonceSchema 24 e.nonce && aeadCiphertextSchema e.ciphertext && aadSchema e.aad
  | .aes256Gcm => nonceSchema 12 e.nonce && aeadCiphertextSchema e.ciphertext && aadSchema e.aad
  | .hmacSha256 => false

/-- `/^[a-f0-9]{64}$/u`. -/
def hexDigest (value : String) : Bool :=
  value.length == 64 && value.toList.all fun c => "0123456789abcdef".toList.contains c

def hmacSha256EnvelopeSchema (e : CiphertextEnvelope) : Bool :=
  e.alg == .hmacSha256 && e.nonce == "AA" && hexDigest e.ciphertext && e.aad.isNone

def legacyCiphertextEnvelopeSchema (e : CiphertextEnvelope) : Bool :=
  base64UrlMax 128 e.nonce && base64UrlMax MAX_CIPHERTEXT_BASE64URL_CHARS e.ciphertext && aadSchema e.aad

/-! ## Encrypted items and item-level plans -/

structure VaultItemCiphertext where
  id : ItemId
  ownerUserId : UserId
  revision : Nat
  createdAt : String
  updatedAt : String
  encryptedItemKey : CiphertextEnvelope
  encryptedPayload : CiphertextEnvelope
  encryptedSearchTokens : List CiphertextEnvelope
deriving DecidableEq, Repr

structure ItemLevelEncryptedUpsert extends VaultItemCiphertext where
  baseItemRevision : Nat
  clientMutationId : MutationId
  ciphertextHash : Option String
deriving DecidableEq, Repr

structure ItemLevelEncryptedDelete where
  id : ItemId
  ownerUserId : UserId
  baseItemRevision : Nat
  deletedAt : String
  clientMutationId : MutationId
deriving DecidableEq, Repr

structure ItemLevelSyncPlan where
  baseRevision : Nat
  upserts : List ItemLevelEncryptedUpsert
  deletes : List ItemLevelEncryptedDelete
deriving DecidableEq, Repr

structure SyncPushRequest where
  baseRevision : Nat
  upserts : List VaultItemCiphertext
  deletes : List ItemId
deriving DecidableEq, Repr

section
variable (F : Formats)

def vaultItemCiphertextSchema (item : VaultItemCiphertext) : Bool :=
  F.uuid item.id && F.uuid item.ownerUserId && F.datetime item.createdAt && F.datetime item.updatedAt &&
    aeadCiphertextEnvelopeSchema item.encryptedItemKey && aeadCiphertextEnvelopeSchema item.encryptedPayload &&
    item.encryptedSearchTokens.all hmacSha256EnvelopeSchema &&
    item.encryptedSearchTokens.length ≤ MAX_ENCRYPTED_SEARCH_TOKENS

def legacyVaultItemCiphertextSchema (item : VaultItemCiphertext) : Bool :=
  F.uuid item.id && F.uuid item.ownerUserId && F.datetime item.createdAt && F.datetime item.updatedAt &&
    legacyCiphertextEnvelopeSchema item.encryptedItemKey &&
    legacyCiphertextEnvelopeSchema item.encryptedPayload &&
    item.encryptedSearchTokens.all legacyCiphertextEnvelopeSchema &&
    item.encryptedSearchTokens.length ≤ MAX_ENCRYPTED_SEARCH_TOKENS

def itemLevelEncryptedUpsertSchema (item : ItemLevelEncryptedUpsert) : Bool :=
  vaultItemCiphertextSchema F item.toVaultItemCiphertext && F.uuid item.clientMutationId &&
    item.ciphertextHash.all base64UrlSchema

def itemLevelEncryptedDeleteSchema (item : ItemLevelEncryptedDelete) : Bool :=
  F.uuid item.id && F.uuid item.ownerUserId && F.datetime item.deletedAt && F.uuid item.clientMutationId

def ItemLevelSyncPlan.itemIds (plan : ItemLevelSyncPlan) : List ItemId :=
  plan.upserts.map (·.id) ++ plan.deletes.map (·.id)

def ItemLevelSyncPlan.mutationIds (plan : ItemLevelSyncPlan) : List MutationId :=
  plan.upserts.map (·.clientMutationId) ++ plan.deletes.map (·.clientMutationId)

def itemLevelSyncPlanSchema (plan : ItemLevelSyncPlan) : Bool :=
  plan.upserts.length ≤ MAX_SYNC_MUTATIONS && plan.deletes.length ≤ MAX_SYNC_MUTATIONS &&
    plan.upserts.all (itemLevelEncryptedUpsertSchema F) && plan.deletes.all (itemLevelEncryptedDeleteSchema F) &&
    plan.itemIds.length ≤ MAX_SYNC_MUTATIONS && decide plan.itemIds.Nodup && decide plan.mutationIds.Nodup

def syncPushRequestSchema (request : SyncPushRequest) : Bool :=
  request.upserts.length ≤ MAX_SYNC_MUTATIONS && request.deletes.length ≤ MAX_SYNC_MUTATIONS &&
    request.upserts.all (legacyVaultItemCiphertextSchema F) && request.deletes.all F.uuid &&
    request.upserts.length + request.deletes.length ≤ MAX_SYNC_MUTATIONS

end

/-! ## Answers of the item-level protocol -/

inductive OperationKind
  | upsert
  | delete
deriving DecidableEq, Repr

inductive ItemLevelServerState
  | missing
  | item (item : VaultItemCiphertext)
  | deleted (itemId : ItemId) (revision : Nat) (deletedAt : String)
deriving DecidableEq, Repr

inductive ConflictReason
  | invalidServerRevision
  | itemRevisionAdvanced
  | itemRevisionMismatch
  | itemOwnerMismatch
  | mutationIdReused
deriving DecidableEq, Repr

structure ItemLevelSyncConflict where
  itemId : ItemId
  operation : OperationKind
  reason : ConflictReason
  clientBaseRevision : Nat
  serverRevision : Nat
  serverItemRevision : Option Nat
  serverState : ItemLevelServerState
deriving DecidableEq, Repr

structure AppliedMutationReceipt where
  clientMutationId : MutationId
  itemId : ItemId
  operation : OperationKind
  appliedItemRevision : Nat
deriving DecidableEq, Repr

structure ItemLevelApplied where
  upsertedItemIds : List ItemId
  deletedItemIds : List ItemId
  mutationReceipts : List AppliedMutationReceipt
deriving DecidableEq, Repr

structure ItemLevelSyncPushResult where
  serverRevision : Nat
  applied : ItemLevelApplied
  conflicts : List ItemLevelSyncConflict
deriving DecidableEq, Repr

/-- `change_json`: a feed entry without its cursor. -/
inductive ItemLevelChange
  | upsert (item : VaultItemCiphertext)
  | delete (itemId : ItemId) (revision : Nat) (deletedAt : String)
deriving DecidableEq, Repr

def ItemLevelChange.itemId : ItemLevelChange → ItemId
  | .upsert item => item.id
  | .delete itemId _ _ => itemId

def ItemLevelChange.revision : ItemLevelChange → Nat
  | .upsert item => item.revision
  | .delete _ revision _ => revision

structure ItemLevelSyncChange where
  cursor : Nat
  change : ItemLevelChange
deriving DecidableEq, Repr

def itemLevelSyncChangeSchema (F : Formats) (c : ItemLevelSyncChange) : Bool :=
  0 < c.cursor && match c.change with
    | .upsert item => vaultItemCiphertextSchema F item
    | .delete itemId _ deletedAt => F.uuid itemId && F.datetime deletedAt

structure DeletedItem where
  id : ItemId
  revision : Nat
  deletedAt : String
deriving DecidableEq, Repr

structure ItemLevelSyncPullResponse where
  serverRevision : Nat
  cursor : Nat
  hasMore : Bool
  changes : List ItemLevelSyncChange
  items : List VaultItemCiphertext
  deletedItemIds : List ItemId
  deletedItems : List DeletedItem
deriving DecidableEq, Repr

end ZeroVault

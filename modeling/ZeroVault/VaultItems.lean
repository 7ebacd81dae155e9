import ZeroVault.Shared

/-!
# Vault items on a browser client

The plaintext items with their schema, the operations of the local vault, and
what becomes of one item on its way to the server and back. Encryption, the URL
parser and Unicode lower-casing are the `Runtime`; a JSON text is the value it
encodes.
-/

namespace ZeroVault.Browser

/-! ## Items -/

inductive FieldType
  | text
  | hidden
  | boolean
deriving DecidableEq, Repr

structure CustomField where
  name : String
  value : String
  fieldType : FieldType
deriving DecidableEq, Repr

structure AndroidAssociation where
  packageName : String
  signingCertificateSha256 : String
deriving DecidableEq, Repr

/-- The fields of one `type`. -/
inductive VaultItemBody
  | login (origin username password : String) (totp : Option String)
      (androidAssociations : Option (List AndroidAssociation))
  | secureNote (noteBody : String)
  | creditCard (cardholderName cardNumber expirationMonth expirationYear cvv brand : String)
deriving DecidableEq, Repr

/-- `Omit<VaultItem, "id" | "createdAt" | "updatedAt">`. -/
structure ItemInput where
  title : String
  folder : String
  notes : String
  customFields : List CustomField
  body : VaultItemBody
deriving DecidableEq, Repr

structure VaultItem extends ItemInput where
  id : ItemId
  createdAt : String
  updatedAt : String
deriving DecidableEq, Repr

/-! ## `vaultItemSchema` -/

def atMost (max : Nat) (value : String) : Bool := jsLength value ≤ max

def customFieldSchema (field : CustomField) : Bool :=
  1 ≤ jsLength field.name && atMost 256 field.name && atMost 4096 field.value

def isPackageSegment : List Char → Bool
  | [] => false
  | c :: cs => c.isAlpha && cs.all fun c => c.isAlphanum || c == '_'

/-- `/^[A-Za-z][A-Za-z0-9_]*(?:\.[A-Za-z][A-Za-z0-9_]*)+$/u`. -/
def packageNameSchema (value : String) : Bool :=
  let segments := value.toList.splitOn '.'
  3 ≤ jsLength value && atMost 255 value && 2 ≤ segments.length && segments.all isPackageSegment

/-- `/^[A-Fa-f0-9]{64}$/u`. -/
def isCertificateDigest (value : String) : Bool :=
  value.length == 64 && value.toList.all fun c => "0123456789abcdefABCDEF".toList.contains c

/-- What the schema makes of an association: the digest is upper-cased. -/
def androidAssociationSchema (a : AndroidAssociation) : Option AndroidAssociation :=
  if packageNameSchema a.packageName && isCertificateDigest a.signingCertificateSha256 then
    some { a with signingCertificateSha256 := a.signingCertificateSha256.toUpper }
  else none

def androidAssociationsSchema (items : List AndroidAssociation) : Option (List AndroidAssociation) := do
  let parsed ← items.mapM androidAssociationSchema
  if parsed.length ≤ 32 ∧ parsed.Nodup then some parsed else none

def vaultItemBodySchema : VaultItemBody → Option VaultItemBody
  | .login origin username password totp androidAssociations =>
    if atMost 4096 origin && atMost 1024 username && atMost 4096 password && totp.all (atMost 1024) then
      match androidAssociations with
      | none => some (.login origin username password totp none)
      | some items => (androidAssociationsSchema items).map fun parsed =>
          .login origin username password totp (some parsed)
    else none
  | .secureNote noteBody => if atMost 65536 noteBody then some (.secureNote noteBody) else none
  | .creditCard cardholderName cardNumber expirationMonth expirationYear cvv brand =>
    if atMost 256 cardholderName && atMost 32 cardNumber && atMost 2 expirationMonth && atMost 4 expirationYear &&
        atMost 8 cvv && atMost 32 brand then
      some (.creditCard cardholderName cardNumber expirationMonth expirationYear cvv brand)
    else none

def vaultItemSchema (F : Formats) (item : VaultItem) : Option VaultItem :=
  if F.uuid item.id && atMost 2048 item.title && atMost 256 item.folder && atMost 16384 item.notes &&
      item.customFields.all customFieldSchema && F.datetime item.createdAt && F.datetime item.updatedAt then
    (vaultItemBodySchema item.body).map fun body => { item with body }
  else none

/-! ## The runtime -/

structure ItemBundle where
  encryptedItemKey : CiphertextEnvelope
  encryptedPayload : CiphertextEnvelope
deriving DecidableEq, Repr

/-- What the clients take from the schema library, the platform and the crypto
core. `encryptItem` encrypts an item's JSON under the key it derives for the item and
wraps that key; the last argument is the randomness of the nonces. -/
structure Runtime (κ : Type) where
  formats : Formats
  hostname : String → Option String
  toLowerCase : String → String
  hmacSha256Hex : κ → String → String
  encryptItem : κ → VaultItem → String → ItemBundle
  decryptItem : κ → ItemBundle → ItemId → Option VaultItem

section
variable {κ : Type} (R : Runtime κ)

/-! ## The local vault -/

structure UnlockedVault (κ : Type) where
  key : κ
  items : List VaultItem
deriving DecidableEq, Repr

def UnlockedVault.itemIds (vault : UnlockedVault κ) : List ItemId := vault.items.map (·.id)

def addItem (vault : UnlockedVault κ) (item : ItemInput) (id : ItemId) (now : String) : UnlockedVault κ :=
  { vault with items := { item with id := id, createdAt := now, updatedAt := now } :: vault.items }

/-- `{ ...item, ...updates, updatedAt: now }`. -/
def VaultItem.update (item : VaultItem) (updates : ItemInput → ItemInput) (now : String) : VaultItem :=
  { item with toItemInput := updates item.toItemInput, updatedAt := now }

def updateItem (vault : UnlockedVault κ) (id : ItemId) (updates : ItemInput → ItemInput) (now : String) :
    UnlockedVault κ :=
  { vault with items := vault.items.map fun item => if item.id = id then item.update updates now else item }

def deleteItem (vault : UnlockedVault κ) (id : ItemId) : UnlockedVault κ :=
  { vault with items := vault.items.filter (·.id ≠ id) }

/-! ## One item on its way -/

def encryptItemForSync (vault : UnlockedVault κ) (item : VaultItem) (nonces : String) : ItemBundle :=
  R.encryptItem vault.key item nonces

/-- `none` where the source throws. -/
def decryptItemFromSync (vault : UnlockedVault κ) (encryptedItemKey encryptedPayload : CiphertextEnvelope)
    (itemId : ItemId) : Option VaultItem := do
  let parsed ← R.decryptItem vault.key ⟨encryptedItemKey, encryptedPayload⟩ itemId
  let item ← vaultItemSchema R.formats parsed
  if item.id = itemId then some item else none

/-! ## Search tokens -/

def SEARCH_DOMAIN : String := "zero-vault:search:v1:"

def isTitleSeparator (c : Char) : Bool := isJsSpace c || "-_.,;:!?()[]\x7b\x7d<>|/@#$%^&*+=".toList.contains c

def isUsernameSeparator (c : Char) : Bool := "@-_.,;:!#$%^&*+=".toList.contains c

def normalizeTerm (raw : String) : String := String.ofList (trimJs (R.toLowerCase raw).toList)

/-- The parts of `value` between separators, normalized, that are long enough. -/
def termsOf (separator : Char → Bool) (value : String) : List String :=
  ((value.toList.splitOnP separator).map fun part => normalizeTerm R (String.ofList part)).filter
    fun term => decide (2 ≤ jsLength term)

/-- The terms in the order the `Set` receives them. -/
def rawSearchTerms (item : VaultItem) : List String :=
  termsOf R isTitleSeparator item.title ++
    match item.body with
    | .login origin username _ _ _ =>
      (match R.hostname origin with
        | some hostname => (termsOf R (· == '.') hostname).filter (· ≠ "www")
        | none => []) ++ termsOf R isUsernameSeparator username
    | .creditCard cardholderName _ _ _ _ brand =>
      termsOf R isTitleSeparator cardholderName ++ termsOf R (fun _ => false) brand
    | .secureNote _ => []

def extractSearchTerms (item : VaultItem) : List String := (rawSearchTerms R item).eraseDups

def generateSearchTokens (vault : UnlockedVault κ) (item : VaultItem) : List CiphertextEnvelope :=
  (extractSearchTerms R item).map fun term =>
    { alg := .hmacSha256, nonce := "AA", ciphertext := R.hmacSha256Hex vault.key (SEARCH_DOMAIN ++ term), aad := none }

end

end ZeroVault.Browser

import ZeroVault.Desktop

/-!
# The local vault of the desktop client

Salt, parameters and wrapped key are three entries of the keychain, written one
after the other. A program that is stopped between the writes leaves entries
that do not belong together, and what `unlock` makes of them decides whether the
vault still opens (`stopped_vault_opens`).
-/

namespace ZeroVault.Desktop

structure KdfParams where
  memoryKib : Nat
  iterations : Nat
  parallelism : Nat
deriving DecidableEq, Repr

def DEFAULT_KDF_PARAMS : KdfParams := ⟨65536, 3, 4⟩

abbrev Salt := List UInt8

/-- What the vault code throws: an exception of the platform, an `Error`, or a value that is none. -/
inductive VaultThrown
  | domException (message : String)
  | thrown (value : Thrown)
deriving DecidableEq, Repr

def vaultError (message : String) : VaultThrown := .thrown (.error message)

/-- Key derivation and key wrapping; an `ω` is a wrapped key. -/
structure VaultCrypto (κ ω : Type) where
  deriveVaultKey : String → Salt → KdfParams → κ
  wrapVaultKey : κ → κ → String → ω
  unwrapVaultKey : κ → ω → Except VaultThrown κ

/-- Different inputs derive different keys, and a wrapped key opens under the one that wrapped it only. -/
structure VaultCrypto.Ideal {κ ω : Type} (C : VaultCrypto κ ω) : Prop where
  derive_injective : ∀ {password salt params password' salt' params'},
    C.deriveVaultKey password salt params = C.deriveVaultKey password' salt' params' →
    password = password' ∧ salt = salt' ∧ params = params'
  unwrap_wrap : ∀ k vaultKey nonce, C.unwrapVaultKey k (C.wrapVaultKey k vaultKey nonce) = .ok vaultKey
  unwrap_unique : ∀ {k k' w vaultKey vaultKey'}, C.unwrapVaultKey k w = .ok vaultKey →
    C.unwrapVaultKey k' w = .ok vaultKey' → k = k'

/-! ## The keychain -/

structure SecureStore (ω : Type) where
  vault_salt : Option Salt
  vault_params : Option KdfParams
  wrapped_vault_key : Option ω
deriving DecidableEq, Repr

inductive SetItem (ω : Type)
  | vault_salt (salt : Salt)
  | vault_params (params : KdfParams)
  | wrapped_vault_key (wrapped : ω)

section
variable {κ ω : Type}

def SetItem.apply (store : SecureStore ω) : SetItem ω → SecureStore ω
  | vault_salt salt => { store with vault_salt := some salt }
  | vault_params params => { store with vault_params := some params }
  | wrapped_vault_key wrapped => { store with wrapped_vault_key := some wrapped }

/-- Tauri rejects with a string. -/
def KEYCHAIN_FAILED : VaultThrown := .thrown .other

/-- The first `done` writes take effect; then one fails, or the process stops. -/
def setItems (done : Nat) (writes : List (SetItem ω)) (store : SecureStore ω) :
    SecureStore ω × Except VaultThrown Unit :=
  ((writes.take done).foldl SetItem.apply store, if writes.length ≤ done then .ok () else .error KEYCHAIN_FAILED)

/-- What `crypto.getRandomValues` gives. -/
structure Fresh (κ : Type) where
  salt : Salt
  key : κ
  nonce : String

def vaultWrites (salt : Salt) (params : KdfParams) (wrapped : ω) : List (SetItem ω) :=
  [.vault_salt salt, .vault_params params, .wrapped_vault_key wrapped]

variable (C : VaultCrypto κ ω)

/-! ## The programs -/

/-- A vault without a wrapped key is an old one: the derived key is the vault key. -/
def storedVaultKey (keyEncryptionKey : κ) : Option ω → Except VaultThrown κ
  | some wrapped => C.unwrapVaultKey keyEncryptionKey wrapped
  | none => .ok keyEncryptionKey

/-- The vault key, where `unlock` returns true. -/
def unlock (masterPassword : String) (fresh : Fresh κ) (done : Nat) (store : SecureStore ω) :
    SecureStore ω × Except VaultThrown κ :=
  match store.vault_salt with
  | none =>
    let keyEncryptionKey := C.deriveVaultKey masterPassword fresh.salt DEFAULT_KDF_PARAMS
    let wrappedKey := C.wrapVaultKey keyEncryptionKey fresh.key fresh.nonce
    let (store, written) := setItems done (vaultWrites fresh.salt DEFAULT_KDF_PARAMS wrappedKey) store
    (store, written.map fun _ => fresh.key)
  | some salt => (store, do
    let params ← match store.vault_params with
      | some params => .ok params
      | none => .error (vaultError "密码库数据损坏，请重置后重试")
    storedVaultKey C (C.deriveVaultKey masterPassword salt params) store.wrapped_vault_key)

variable [DecidableEq κ]

/-- The checks of a change: `vaultKey` is the key of the session. -/
def verifyCurrent (vaultKey : Option κ) (currentPassword : String) (store : SecureStore ω) : Except VaultThrown κ :=
  match vaultKey, store.vault_salt, store.vault_params with
  | none, _, _ => .error (vaultError "密码库已锁定，请先解锁")
  | some vaultKey, some salt, some params =>
    match storedVaultKey C (C.deriveVaultKey currentPassword salt params) store.wrapped_vault_key with
    | .error (.domException _) => .error (vaultError "当前密码不正确")
    | .error err => .error err
    | .ok verifiedVaultKey =>
      if verifiedVaultKey = vaultKey then .ok vaultKey else .error (vaultError "当前密码不正确")
  | _, _, _ => .error (vaultError "密码库参数缺失")

def changeMasterPassword (vaultKey : Option κ) (currentPassword newPassword : String) (fresh : Fresh κ) (done : Nat)
    (store : SecureStore ω) : SecureStore ω × Except VaultThrown Unit :=
  match verifyCurrent C vaultKey currentPassword store with
  | .error err => (store, .error err)
  | .ok vaultKey =>
    let newKeyEncryptionKey := C.deriveVaultKey newPassword fresh.salt DEFAULT_KDF_PARAMS
    let wrappedVaultKey := C.wrapVaultKey newKeyEncryptionKey vaultKey fresh.nonce
    setItems done (vaultWrites fresh.salt DEFAULT_KDF_PARAMS wrappedVaultKey) store

end

/-! ## What opens a stored vault -/

section
variable {κ ω : Type} {C : VaultCrypto κ ω} {store : SecureStore ω} {password : String} {key : κ}

/-- The stored vault has a salt, and `unlock` gives the key for the password. -/
def Opens (C : VaultCrypto κ ω) (store : SecureStore ω) (password : String) (key : κ) : Prop :=
  store.vault_salt ≠ none ∧ ∀ fresh done, unlock C password fresh done store = (store, .ok key)

theorem opens_iff : Opens C store password key ↔
    ∃ salt params, store.vault_salt = some salt ∧ store.vault_params = some params ∧
      storedVaultKey C (C.deriveVaultKey password salt params) store.wrapped_vault_key = .ok key := by
  unfold Opens unlock
  cases hsalt : store.vault_salt with
  | none => exact ⟨fun h => absurd rfl h.1, fun ⟨_, _, h, _⟩ => nomatch h⟩
  | some salt =>
    cases hparams : store.vault_params with
    | none =>
      constructor
      · exact fun h => nomatch (Prod.mk.inj (h.2 ⟨[], key, ""⟩ 0)).2
      · rintro ⟨_, _, _, ⟨⟩, _⟩
    | some params =>
      constructor
      · exact fun h => ⟨salt, params, rfl, rfl, (Prod.mk.inj (h.2 ⟨[], key, ""⟩ 0)).2⟩
      · rintro ⟨_, _, ⟨⟩, ⟨⟩, hk⟩
        exact ⟨nofun, fun _ _ => congrArg _ hk⟩

/-- One entry opens to one key under one salt and one set of parameters only. -/
theorem Opens.same (hC : C.Ideal) {store' : SecureStore ω} {password' : String} (h : Opens C store password key)
    (h' : Opens C store' password' key) (hwrapped : store'.wrapped_vault_key = store.wrapped_vault_key) :
    store'.vault_salt = store.vault_salt ∧ store'.vault_params = store.vault_params := by
  obtain ⟨salt, params, hs, hp, hk⟩ := opens_iff.mp h
  obtain ⟨salt', params', hs', hp', hk'⟩ := opens_iff.mp h'
  have hderived : C.deriveVaultKey password' salt' params' = C.deriveVaultKey password salt params := by
    rw [hwrapped] at hk'
    cases hw : store.wrapped_vault_key with
    | none =>
      rw [hw] at hk hk'
      exact Except.ok.inj (hk'.trans hk.symm)
    | some wrapped =>
      rw [hw] at hk hk'
      exact hC.unwrap_unique hk' hk
  obtain ⟨-, rfl, rfl⟩ := hC.derive_injective hderived
  exact ⟨hs'.trans hs.symm, hp'.trans hp.symm⟩

theorem opens_written (hC : C.Ideal) {done : Nat} (hdone : 3 ≤ done) (salt : Salt) (params : KdfParams) (nonce : String) :
    Opens C (setItems done (vaultWrites salt params
      (C.wrapVaultKey (C.deriveVaultKey password salt params) key nonce)) store).1 password key := by
  unfold setItems vaultWrites
  rw [List.take_of_length_le (by simpa using hdone)]
  exact opens_iff.mpr ⟨salt, params, rfl, rfl, hC.unwrap_wrap _ _ _⟩

/-- The parameters that are stored between the writes. -/
def paramsBetween (done : Nat) (store : SecureStore ω) : Option KdfParams :=
  if done = 1 then store.vault_params else some DEFAULT_KDF_PARAMS

/-- Between the writes the salt is the new one and the wrapped key the old one. -/
theorem setItems_between {done : Nat} (hfirst : 0 < done) (hlast : done < 3) (salt : Salt) (wrapped : ω) :
    setItems done (vaultWrites salt DEFAULT_KDF_PARAMS wrapped) store =
      (⟨some salt, paramsBetween done store, store.wrapped_vault_key⟩, .error KEYCHAIN_FAILED) := by
  match done with
  | 1 => rfl
  | 2 => rfl

/-- A store between the writes opens to the key only by the derivation of the vault before. -/
theorem opens_between (hC : C.Ideal) (h : Opens C store password key) {password' : String} {salt : Salt} {done : Nat}
    (h' : Opens C ⟨some salt, paramsBetween done store, store.wrapped_vault_key⟩ password' key) :
    store.vault_salt = some salt ∧ store.vault_params = paramsBetween done store := by
  obtain ⟨hsalt, hparams⟩ := h.same hC h' rfl
  exact ⟨hsalt.symm, hparams.symm⟩

/-! ## Changing the master password -/

variable {vaultKey : Option κ} {newPassword : String} {fresh : Fresh κ} {done : Nat}

/-- Between the writes, the new salt and the parameters there are the old ones. -/
def SameDerivation (fresh : Fresh κ) (done : Nat) (store : SecureStore ω) : Prop :=
  store.vault_salt = some fresh.salt ∧ store.vault_params = paramsBetween done store

theorem change_opens (hC : C.Ideal) (h : Opens C store password key) (wrapped : ω)
    (hwrapped : wrapped = C.wrapVaultKey (C.deriveVaultKey newPassword fresh.salt DEFAULT_KDF_PARAMS) key fresh.nonce) :
    (Opens C (setItems done (vaultWrites fresh.salt DEFAULT_KDF_PARAMS wrapped) store).1 password key ∨
      Opens C (setItems done (vaultWrites fresh.salt DEFAULT_KDF_PARAMS wrapped) store).1 newPassword key) ↔
      done = 0 ∨ 3 ≤ done ∨ SameDerivation fresh done store := by
  rcases Nat.eq_zero_or_pos done with rfl | hfirst
  · exact iff_of_true (.inl h) (.inl rfl)
  rcases Nat.lt_or_ge done 3 with hlast | hlast
  · rw [setItems_between hfirst hlast]
    constructor
    · exact fun hopens => .inr (.inr (hopens.elim (opens_between hC h) (opens_between hC h)))
    · rintro (h0 | h3 | ⟨hsalt, hparams⟩)
      · omega
      · omega
      · rw [← hsalt, ← hparams]
        exact .inl h
  · exact iff_of_true (.inr (hwrapped ▸ opens_written hC hlast _ _ _)) (.inr (.inl hlast))

variable [DecidableEq κ]

theorem verifyCurrent_ok (h : Opens C store password key) {held : κ}
    (hheld : verifyCurrent C vaultKey password store = .ok held) : vaultKey = some key ∧ held = key := by
  obtain ⟨salt, params, hs, hp, hk⟩ := opens_iff.mp h
  unfold verifyCurrent at hheld
  cases vaultKey with
  | none => cases hheld
  | some session =>
    rw [hs, hp] at hheld
    dsimp only at hheld
    rw [hk] at hheld
    dsimp only at hheld
    split at hheld
    · rename_i he
      cases hheld
      exact ⟨congrArg some he.symm, he.symm⟩
    · cases hheld

theorem verifyCurrent_session (h : Opens C store password key) : verifyCurrent C (some key) password store = .ok key := by
  obtain ⟨salt, params, hs, hp, hk⟩ := opens_iff.mp h
  unfold verifyCurrent
  rw [hs, hp]
  dsimp only
  rw [hk]
  exact if_pos rfl

/-- The change writes only where the session holds the key of the current password. -/
theorem changeMasterPassword_store (h : Opens C store password key) :
    (changeMasterPassword C vaultKey password newPassword fresh done store).1 =
      if vaultKey = some key then (setItems done (vaultWrites fresh.salt DEFAULT_KDF_PARAMS
        (C.wrapVaultKey (C.deriveVaultKey newPassword fresh.salt DEFAULT_KDF_PARAMS) key fresh.nonce)) store).1
      else store := by
  unfold changeMasterPassword
  split
  · rename_i err hrefused
    rw [if_neg]
    rintro rfl
    rw [verifyCurrent_session h] at hrefused
    cases hrefused
  · rename_i held hheld
    obtain ⟨hkey, rfl⟩ := verifyCurrent_ok h hheld
    rw [if_pos hkey]

end

/-! ## The first vault -/

section
variable {κ ω : Type} {C : VaultCrypto κ ω} {store : SecureStore ω} {password : String} {key : κ} {fresh : Fresh κ}
variable {done : Nat}

/-- After a creation that was stopped, `unlock` with the same password gives a key that opens what is stored then,
and it is the key of the first attempt where that came to one. -/
def Repeatable (C : VaultCrypto κ ω) (first : SecureStore ω × Except VaultThrown κ) (password : String)
    (again : Fresh κ) : Prop :=
  ∃ store' key, unlock C password again 3 first.1 = (store', .ok key) ∧ Opens C store' password key ∧
    ∀ made, first.2 = .ok made → made = key

/-- What is there between the writes opens under the password: no wrapped key was left behind, or one that does. -/
def LeftoverOpens (C : VaultCrypto κ ω) (password : String) (salt : Salt) (done : Nat) (store : SecureStore ω) : Prop :=
  ∃ params key, paramsBetween done store = some params ∧
    storedVaultKey C (C.deriveVaultKey password salt params) store.wrapped_vault_key = .ok key

def created (C : VaultCrypto κ ω) (password : String) (fresh : Fresh κ) : ω :=
  C.wrapVaultKey (C.deriveVaultKey password fresh.salt DEFAULT_KDF_PARAMS) fresh.key fresh.nonce

theorem unlock_first (h : store.vault_salt = none) : unlock C password fresh done store =
    ((setItems done (vaultWrites fresh.salt DEFAULT_KDF_PARAMS (created C password fresh)) store).1,
      (setItems done (vaultWrites fresh.salt DEFAULT_KDF_PARAMS (created C password fresh)) store).2.map
        fun _ => fresh.key) := by
  unfold unlock
  rw [h]
  rfl

theorem unlock_stored (h : store.vault_salt ≠ none) : (unlock C password fresh done store).1 = store := by
  unfold unlock
  split
  · contradiction
  · rfl

theorem creation_repeats (hC : C.Ideal) (hsalt : store.vault_salt = none) (again : Fresh κ) :
    Repeatable C (unlock C password fresh done store) password again ↔
      done = 0 ∨ 3 ≤ done ∨ LeftoverOpens C password fresh.salt done store := by
  rw [unlock_first hsalt]
  rcases Nat.eq_zero_or_pos done with rfl | hfirst
  · exact iff_of_true ⟨_, again.key, unlock_first hsalt, opens_written hC (Nat.le_refl 3) _ _ _, nofun⟩ (.inl rfl)
  rcases Nat.lt_or_ge done 3 with hlast | hlast
  · rw [setItems_between hfirst hlast]
    constructor
    · rintro ⟨store', key, hunlock, hopens, -⟩
      -- a stored salt is not replaced: what opens is what is there
      have hsame : store' = ⟨some fresh.salt, paramsBetween done store, store.wrapped_vault_key⟩ :=
        (congrArg Prod.fst hunlock).symm.trans (unlock_stored nofun)
      obtain ⟨salt, params, hs, hparams, hkey⟩ := opens_iff.mp (hsame ▸ hopens)
      cases hs
      exact .inr (.inr ⟨params, key, hparams, hkey⟩)
    · rintro (h0 | h3 | ⟨params, key, hparams, hkey⟩)
      · omega
      · omega
      · have hopens : Opens C ⟨some fresh.salt, paramsBetween done store, store.wrapped_vault_key⟩ password key :=
          opens_iff.mpr ⟨fresh.salt, params, rfl, hparams, hkey⟩
        exact ⟨_, key, hopens.2 again 3, hopens, nofun⟩
  · have hopens : Opens C
        (setItems done (vaultWrites fresh.salt DEFAULT_KDF_PARAMS (created C password fresh)) store).1 password fresh.key :=
      opens_written hC hlast fresh.salt DEFAULT_KDF_PARAMS fresh.nonce
    refine iff_of_true ⟨_, fresh.key, hopens.2 again 3, hopens, fun made hmade => ?_⟩ (.inr (.inl hlast))
    have hall : (setItems done (vaultWrites fresh.salt DEFAULT_KDF_PARAMS (created C password fresh)) store).2 = .ok () :=
      if_pos hlast
    rw [hall] at hmade
    exact (Except.ok.inj hmade).symm

/-- Exactly where a stopped change or creation leaves a vault that opens. -/
theorem stopped_vault_opens [DecidableEq κ] (hC : C.Ideal) :
    (∀ {store : SecureStore ω} {password : String} {key : κ}, Opens C store password key →
      ∀ vaultKey newPassword fresh done,
        (∃ p ∈ [password, newPassword],
          Opens C (changeMasterPassword C vaultKey password newPassword fresh done store).1 p key) ↔
        vaultKey ≠ some key ∨ done = 0 ∨ 3 ≤ done ∨ SameDerivation fresh done store) ∧
    ∀ {store : SecureStore ω}, store.vault_salt = none → ∀ password fresh done again,
      Repeatable C (unlock C password fresh done store) password again ↔
        done = 0 ∨ 3 ≤ done ∨ LeftoverOpens C password fresh.salt done store := by
  refine ⟨fun {store password key} h vaultKey newPassword fresh done => ?_,
    fun hsalt _ _ _ again => creation_repeats hC hsalt again⟩
  simp only [List.mem_cons, List.not_mem_nil, or_false, exists_eq_or_imp, exists_eq_left]
  rw [changeMasterPassword_store h]
  by_cases hkey : vaultKey = some key
  · rw [if_pos hkey, change_opens hC h _ rfl]
    exact ⟨.inr, fun hcase => hcase.resolve_left (· hkey)⟩
  · rw [if_neg hkey]
    exact iff_of_true (.inl h) (.inl hkey)

/-- Keys that are the inputs they are derived from, and envelopes that carry the key they open under. -/
def plainCrypto : VaultCrypto (String × Salt × KdfParams) ((String × Salt × KdfParams) × String × Salt × KdfParams) where
  deriveVaultKey password salt params := (password, salt, params)
  wrapVaultKey k vaultKey _ := (k, vaultKey)
  unwrapVaultKey k wrapped := if k = wrapped.1 then .ok wrapped.2 else .error (.domException "OperationError")

theorem plainCrypto_ideal : plainCrypto.Ideal where
  derive_injective h := by
    cases h
    exact ⟨rfl, rfl, rfl⟩
  unwrap_wrap _ _ _ := if_pos rfl
  unwrap_unique {k k' w _ _} h h' := by
    unfold plainCrypto at h h'
    dsimp only at h h'
    split at h
    · split at h'
      · rename_i hk hk'
        exact hk.trans hk'.symm
      · cases h'
    · cases h

def sampleKey : String × Salt × KdfParams := ("", [7], DEFAULT_KDF_PARAMS)

def sampleFresh : Fresh (String × Salt × KdfParams) := ⟨[2], sampleKey, "n"⟩

def oldVault : SecureStore ((String × Salt × KdfParams) × String × Salt × KdfParams) :=
  ⟨some [1], some DEFAULT_KDF_PARAMS, some (("old", [1], DEFAULT_KDF_PARAMS), sampleKey)⟩

theorem oldVault_opens : Opens plainCrypto oldVault "old" sampleKey :=
  opens_iff.mpr ⟨[1], DEFAULT_KDF_PARAMS, rfl, rfl, rfl⟩

/-- Stopped after the new salt, the vault opens under neither password; a first vault stopped there never comes to be. -/
theorem stopped_vault_locked :
    (Opens plainCrypto oldVault "old" sampleKey ∧ ∀ p ∈ ["old", "new"], ∀ key, ¬ Opens plainCrypto
      (changeMasterPassword plainCrypto (some sampleKey) "old" "new" sampleFresh 1 oldVault).1 p key) ∧
    ¬ Repeatable plainCrypto (unlock plainCrypto "old" sampleFresh 1 ⟨none, none, none⟩) "old" sampleFresh := by
  have hkey (p : String) (hp : p ∈ ["old", "new"]) (key) :
      storedVaultKey plainCrypto (plainCrypto.deriveVaultKey p [2] DEFAULT_KDF_PARAMS) oldVault.wrapped_vault_key ≠
        .ok key := by
    rcases List.mem_cons.mp hp with rfl | hp
    · exact nofun
    · obtain rfl := List.mem_singleton.mp hp
      exact nofun
  refine ⟨⟨oldVault_opens, fun p hp key hopens => ?_⟩, ?_⟩
  · obtain ⟨salt, params, hs, hparams, hk⟩ := opens_iff.mp hopens
    cases hs
    cases hparams
    exact hkey p hp key hk
  · rintro ⟨store', key, hunlock, -, -⟩
    cases hunlock

/-- The rule where the second write of a change of `oldVault` was the last, and of a creation too. -/
theorem stopped_vault_opens_twoWrites :
    ((∃ p ∈ ["old", "new"], Opens plainCrypto
      (changeMasterPassword plainCrypto (some sampleKey) "old" "new" sampleFresh 2 oldVault).1 p sampleKey) ↔
      some sampleKey ≠ some sampleKey ∨ 2 = 0 ∨ 3 ≤ 2 ∨ SameDerivation sampleFresh 2 oldVault) ∧
    (Repeatable plainCrypto (unlock plainCrypto "old" sampleFresh 2 ⟨none, none, none⟩) "old" sampleFresh ↔
      2 = 0 ∨ 3 ≤ 2 ∨ LeftoverOpens plainCrypto "old" [2] 2 ⟨none, none, none⟩) :=
  ⟨(stopped_vault_opens plainCrypto_ideal).1 oldVault_opens (some sampleKey) "new" sampleFresh 2,
    (stopped_vault_opens plainCrypto_ideal).2 rfl "old" sampleFresh 2 sampleFresh⟩

end

end ZeroVault.Desktop

import ZeroVault.BrowserAnswers
import ZeroVault.WebVault

/-!
# Recovering a vault in the web app

`handleRecoverVault` opens a vault with a recovery code and stores it again under
a new key. What it has written when it fails it writes back: the commit its three
entries (`commit_spec`), and the whole the item revisions that a merge may have
stored long before (`recover_spec`).
-/

set_option mvcgen.warning false

namespace ZeroVault.Web

open Lib Browser Std.Do

/-! ## `handleRecoverVault` -/

inductive RecoverVaultResult (γ : Type)
  | ok (encrypted : EncryptedLocalVault γ) (unlocked : UnlockedVault) (recoveredCount : Nat) (recoveryCode : String)
  | noCode
  | noPacket
  | recoveryV2Managed (message : String)
  | passwordTooShort
  | remoteOnlyUnsupported (message : String)
  | remoteItemsFailed (message : String) (failedItemIds : List ItemId)
  | error (message : String)

def RecoverVaultResult.failed {γ : Type} : RecoverVaultResult γ → Bool
  | ok .. => false
  | _ => true

structure RecoveryServer where
  recoveryPacket : Except String (Option RecoveryPacket)
  pullVault : Except String SyncPullResponse

def fetchRecoveryPacket (server : RecoveryServer) : Except String (Option RecoveryPacket) :=
  match server.recoveryPacket with
  | .ok packet => .ok packet
  | .error message =>
    if message = "recovery_packet_not_found" ∨ message = "request_failed_404" then .ok none else .error message

def fetchErrorMessages (code : String) : String :=
  if code = "not_authenticated" ∨ code = "request_failed_401" then "登录状态已过期，无法从服务器读取恢复包。请重新登录后重试。"
  else if code = "network_error" then "无法连接服务器读取恢复包。请检查网络后重试；本机数据未被修改。"
  else if code = "request_timeout" then "读取服务器恢复包超时。请检查网络后重试；本机数据未被修改。"
  else if code = "recovery_packet_response_invalid" then "服务器返回的恢复包格式无效。已安全中止恢复，本机数据未被修改。"
  else "读取服务器恢复包失败。已安全中止恢复，本机数据未被修改。"

section
variable {γ : Type} (C : Core γ) (faults : Faults) (server : RecoveryServer) (readings : Readings)

/-- The packet, or what the program returns for want of one. -/
def findPacket : Program γ (Except (RecoverVaultResult γ) RecoveryPacket) := do
  match ← loadRecoveryPacket C with
  | some packet => pure (.ok packet)
  | none =>
    match fetchRecoveryPacket server with
    | .ok (some packet) => pure (.ok packet)
    | .ok none => pure (.error .noPacket)
    | .error code =>
      if code = "recovery_v2_managed" then
        pure (.error (.recoveryV2Managed "服务器上的恢复材料已升级为 Recovery v2，旧版 Web 客户端无法打开。请使用 Android 客户端完成恢复。"))
      else pure (.error (.error (fetchErrorMessages code)))

def UNSUPPORTED_VAULT : String :=
  "云端旧版密码库格式无法可靠识别；本机数据未被修改。请在原设备导出密码库后迁移。"

def UNSUPPORTED_ITEMS : String :=
  "无法可靠判断云端旧版密码库的加密协议；本机数据未被修改。请在原设备导出密码库后迁移。"

/-- The vault that the remote items are merged into. -/
def remoteVaultOf (remoteItems : List VaultItemCiphertext) (vaultKeyBytes : List UInt8) :
    Except String (Except (RecoverVaultResult γ) UnlockedVault) := do
  match Legacy.getSyncedLocalVaultItem remoteItems with
  | some syncedLocalVaultItem =>
    match ← C.decodeVault syncedLocalVaultItem.encryptedPayload.ciphertext with
    | none => pure (.error (.remoteOnlyUnsupported UNSUPPORTED_VAULT))
    | some remoteEncryptedVault =>
      let remoteVault ← unlockLocalVaultWithRecoveredKey C remoteEncryptedVault vaultKeyBytes
      pure (.ok remoteVault)
  | none =>
    let algorithms : List EnvelopeAlg :=
      (remoteItems.flatMap fun item => [item.encryptedItemKey.alg, item.encryptedPayload.alg]).eraseDups
    match algorithms with
    -- without a sealed vault the algorithm of the items tells what the key is for
    | [.xchacha20Poly1305] =>
      pure (.ok ⟨vaultKeyBytes, .argon2idV13 19456 2 1 "" none, emptySnapshot readings.now⟩)
    | [.aes256Gcm] =>
      C.importKey vaultKeyBytes
      pure (.ok ⟨vaultKeyBytes, .pbkdf2Sha256 600000 "", emptySnapshot readings.now⟩)
    | _ => pure (.error (.remoteOnlyUnsupported UNSUPPORTED_ITEMS))

def saveItemRevisionMap (map : Table ItemId Nat) (storage : Storage γ) : Storage γ :=
  { storage with itemRevisions := .value map }

def setRemoteOriginal (map : Option (Table ItemId Nat)) : Program γ Unit :=
  modify fun store => { store with remoteOriginalRevisionMap := map }

def recoverRemoteItems (vaultKeyBytes : List UInt8) : Program γ (Except (RecoverVaultResult γ) (List VaultItem)) := do
  let remote ← orThrow server.pullVault
  match ← orThrow (remoteVaultOf C readings remote.items vaultKeyBytes) with
  | .error result => pure (.error result)
  | .ok remoteVault =>
    let originalRevisionMap ← loadItemRevisionMap C
    setRemoteOriginal (some originalRevisionMap)
    let merged ← mergeRemoteItems C faults readings.now remoteVault remote.items
    if merged.2.isEmpty then pure (.ok merged.1.snapshot.items)
    else
      undoItem faults (saveItemRevisionMap originalRevisionMap)
      setRemoteOriginal none
      pure (.error (.remoteItemsFailed
        ("有 " ++ toString merged.2.length ++ " 条云端记录无法解密；本机数据未被修改。请回到原设备完成迁移。") merged.2))

def recoverItems (encryptedVault : Option (EncryptedLocalVault γ)) (vaultKeyBytes : List UInt8) :
    Program γ (Except (RecoverVaultResult γ) (List VaultItem)) := do
  match encryptedVault with
  | some encryptedVault =>
    let recovered ← orThrow (unlockLocalVaultWithRecoveredKey C encryptedVault vaultKeyBytes)
    pure (.ok recovered.snapshot.items)
  | none => recoverRemoteItems C faults server readings vaultKeyBytes

structure Restored (γ : Type) where
  unlocked : UnlockedVault
  packet : RecoveryPacket
  encrypted : EncryptedLocalVault γ

def createRestored (recoveryPassword : String) (items : List VaultItem) : Except String (Restored γ) := do
  let created ← createEmptyLocalVault C recoveryPassword readings
  let restoredVault := { created.2 with snapshot := { created.2.snapshot with items := items } }
  let packet ← createRecoveryPacket C readings.recoveryCode restoredVault.key readings.nonce
  let verified ← recoverVaultKey C readings.recoveryCode packet
  if verified ≠ restoredVault.key then throw "新恢复包校验失败；本机数据未被修改。"
  let encrypted ← sealUnlockedVault C restoredVault readings
  pure ⟨restoredVault, packet, encrypted⟩

def attempt (program : Program γ Unit) : Program γ Bool :=
  tryCatch (do program; pure true) fun _ => pure false

def ROLLBACK_FAILED : String :=
  "恢复提交失败，且本地回滚未完整完成。请勿关闭页面并立即导出当前本地数据。"

def savePendingItemMutations (mutations : Table ItemId PendingItemMutation) (storage : Storage γ) : Storage γ :=
  { storage with pendingMutations := .value mutations }

def storeRestored (restored : Restored γ) : Program γ Unit := do
  setItem faults (savePendingItemMutations ∅)
  setItem faults fun storage => { storage with vault := .value restored.encrypted }
  setItem faults fun storage => { storage with recoveryPacket := .value restored.packet }
  setItem faults (savePendingItemMutations ∅)

/-- The three entries go back to what they were, each whether or not the others do. -/
def rollBack (previous : Storage γ) (previousPendingMutations : Table ItemId PendingItemMutation) (commitError : String) :
    Program γ Unit := do
  let vaultBack ← attempt (undoItem faults fun storage => { storage with vault := previous.vault })
  let packetBack ← attempt (undoItem faults fun storage => { storage with recoveryPacket := previous.recoveryPacket })
  let pendingBack ← attempt (undoItem faults (savePendingItemMutations previousPendingMutations))
  if vaultBack && packetBack && pendingBack then throw commitError else throw ROLLBACK_FAILED

def commit (restored : Restored γ) : Program γ Unit := do
  let store ← get
  let previousPendingMutations ← loadPendingItemMutations
  tryCatch (storeRestored faults restored) (rollBack faults store.storage previousPendingMutations)

/-- What the `try` block does. -/
def recover (recoveryInputCode recoveryPassword : String) (encryptedVault : Option (EncryptedLocalVault γ)) :
    Program γ (RecoverVaultResult γ) := do
  match ← findPacket C server with
  | .error result => pure result
  | .ok packet =>
    let vaultKeyBytes ← orThrow (recoverVaultKey C recoveryInputCode packet)
    match ← recoverItems C faults server readings encryptedVault vaultKeyBytes with
    | .error result => pure result
    | .ok recoveredItems =>
      let restored ← orThrow (createRestored C readings recoveryPassword recoveredItems)
      commit faults restored
      let persisted := { restored.unlocked with
        snapshot := { restored.unlocked.snapshot with updatedAt := restored.encrypted.updatedAt } }
      pure (.ok restored.encrypted persisted recoveredItems.length readings.recoveryCode)

def ROLLBACK_OF_METADATA_FAILED : String :=
  "恢复失败，且同步版本元数据未能回滚。请勿继续同步，并立即导出当前本地数据。"

def handleRecoverVault (recoveryInputCode recoveryPassword : String) (encryptedVault : Option (EncryptedLocalVault γ)) :
    Program γ (RecoverVaultResult γ) := do
  setRemoteOriginal none
  if recoveryInputCode = "" then pure .noCode
  else if jsLength recoveryPassword < 12 then pure .passwordTooShort
  else
    tryCatch (recover C faults server readings recoveryInputCode recoveryPassword encryptedVault) fun message => do
      match (← get).remoteOriginalRevisionMap with
      | none => pure (.error message)
      | some remoteOriginalRevisionMap =>
        let undone ← attempt (undoItem faults (saveItemRevisionMap remoteOriginalRevisionMap))
        if undone then pure (.error message) else pure (.error ROLLBACK_OF_METADATA_FAILED)

end

/-! ## What a failure leaves -/

section
variable {γ : Type} {C : Core γ} {faults : Faults} {server : RecoveryServer} {readings : Readings}

/-- An entry as it is loaded; no entry counts as an empty map. -/
def loaded {α : Type} (empty : α) : Entry α → Option α
  | .absent => some empty
  | .malformed _ => none
  | .value v => some v

/-- The entry as it was, or what the program reads of it written back. -/
def WrittenBack {α : Type} (read : Entry α → Option α) (e e' : Entry α) : Prop :=
  e' = e ∨ ∃ a, read e = some a ∧ e' = .value a

theorem WrittenBack.trans {α : Type} {read : Entry α → Option α} {e e' e'' : Entry α}
    (hread : ∀ a, read (.value a) = some a) (h : WrittenBack read e e') (h' : WrittenBack read e' e'') :
    WrittenBack read e e'' := by
  rcases h' with rfl | ⟨a, ha, rfl⟩
  · exact h
  · rcases h with rfl | ⟨b, hb, rfl⟩
    · exact .inr ⟨a, ha, rfl⟩
    · exact .inr ⟨b, hb, by rw [Option.some.inj (ha.symm.trans (hread b))]⟩

/-- Pending mutations that do not parse are read as none. -/
def readMutations (e : Entry (Table ItemId PendingItemMutation)) : Option (Table ItemId PendingItemMutation) :=
  some ((loaded ∅ e).getD ∅)

/-- The storage is as it was, but for maps that are written back as they were read. -/
structure Same (s s' : Storage γ) : Prop where
  vault : s'.vault = s.vault
  recoveryPacket : s'.recoveryPacket = s.recoveryPacket
  pendingMutations : WrittenBack readMutations s.pendingMutations s'.pendingMutations
  itemRevisions : WrittenBack (loaded ∅) s.itemRevisions s'.itemRevisions

theorem Same.refl (s : Storage γ) : Same s s := ⟨rfl, rfl, .inl rfl, .inl rfl⟩

@[spec] theorem orThrow_spec {α : Type} (e : Except String α) (s : Store γ) :
    ⦃fun t => ⌜t = s⌝⦄ orThrow e ⦃post⟨fun a t => ⌜t = s ∧ e = .ok a⌝, fun _ t => ⌜t = s⌝⟩⦄ := by
  cases e with
  | ok a => mvcgen [orThrow]
  | error message => mvcgen [orThrow]

@[spec] theorem setItem_spec (f : Storage γ → Storage γ) (s : Store γ) :
    ⦃fun t => ⌜t = s⌝⦄ setItem faults f
    ⦃post⟨fun _ t => ⌜t = { s with storage := f s.storage, writes := s.writes + 1 }⌝,
      fun _ t => ⌜t = { s with writes := s.writes + 1 }⌝⟩⦄ := by
  mvcgen [setItem]
  case vc1.isTrue h _ _ => rw [h]
  case vc2.isFalse h _ _ _ => exact h ▸ rfl

@[spec] theorem undoItem_spec (hundo : ∀ n, faults.undo n = false) (f : Storage γ → Storage γ) (s : Store γ) :
    ⦃fun t => ⌜t = s⌝⦄ undoItem faults f
    ⦃post⟨fun _ t => ⌜t = { s with storage := f s.storage, undos := s.undos + 1 }⌝, fun _ _ => ⌜False⌝⟩⦄ := by
  mvcgen [undoItem]
  case vc1.isTrue _ _ hfails => exact Bool.noConfusion (hfails.symm.trans (hundo _))
  case vc2.isFalse h _ _ _ => exact h ▸ rfl

@[spec] theorem loadPendingItemMutations_spec (s : Store γ) :
    ⦃fun t => ⌜t = s⌝⦄ loadPendingItemMutations
    ⦃post⟨fun mutations t => ⌜t = s ∧ mutations = (loaded ∅ s.storage.pendingMutations).getD ∅⌝, fun _ _ => ⌜False⌝⟩⦄ := by
  mvcgen [loadPendingItemMutations]
  case vc1.h_1 h _ hvalue => exact ⟨h, by rw [← h, hvalue]; rfl⟩
  case vc2.h_2 h entry other hentry =>
    refine ⟨h, ?_⟩
    rw [← h, hentry]
    cases entry with
    | value mutations => exact (other mutations rfl).elim
    | absent => rfl
    | malformed text => rfl

@[spec] theorem storeRestored_spec (restored : Restored γ) (s : Store γ) :
    ⦃fun t => ⌜t = s⌝⦄ storeRestored faults restored
    ⦃post⟨fun _ t => ⌜t.remoteOriginalRevisionMap = s.remoteOriginalRevisionMap ∧ t.storage = { s.storage with
        vault := .value restored.encrypted, recoveryPacket := .value restored.packet, pendingMutations := .value ∅ }⌝,
      fun _ t => ⌜t.remoteOriginalRevisionMap = s.remoteOriginalRevisionMap ∧
        t.storage.itemRevisions = s.storage.itemRevisions⌝⟩⦄ := by
  mvcgen [storeRestored]
  all_goals simp_all [savePendingItemMutations]

@[spec] theorem rollBack_spec (hundo : ∀ n, faults.undo n = false) (previous : Storage γ)
    (mutations : Table ItemId PendingItemMutation) (commitError : String) (s : Store γ) :
    ⦃fun t => ⌜t = s⌝⦄ rollBack faults previous mutations commitError
    ⦃post⟨fun _ _ => ⌜False⌝, fun _ t => ⌜t.remoteOriginalRevisionMap = s.remoteOriginalRevisionMap ∧
        t.storage = { previous with pendingMutations := .value mutations, itemRevisions := s.storage.itemRevisions }⌝⟩⦄ := by
  mvcgen [rollBack, attempt]
  all_goals simp_all [savePendingItemMutations]

theorem commit_spec (hundo : ∀ n, faults.undo n = false) (restored : Restored γ) (s : Store γ) :
    ⦃fun t => ⌜t = s⌝⦄ commit faults restored
    ⦃post⟨fun _ t => ⌜t.remoteOriginalRevisionMap = s.remoteOriginalRevisionMap ∧ t.storage = { s.storage with
        vault := .value restored.encrypted, recoveryPacket := .value restored.packet, pendingMutations := .value ∅ }⌝,
      fun _ t => ⌜t.remoteOriginalRevisionMap = s.remoteOriginalRevisionMap ∧ Same s.storage t.storage⌝⟩⦄ := by
  mvcgen [commit]
  case vc1.post.success.post.success => rename_i h _ _ h' _ _; obtain ⟨rfl, -⟩ := h'; subst h; exact fun hr hs => ⟨hr, hs⟩
  case vc2 => exact False.elim
  case vc3 =>
    rename_i h _ _ h' _ _ h'' _ _
    obtain ⟨rfl, rfl⟩ := h'
    subst h
    refine fun hr hs => ⟨hr.trans h''.1, ?_⟩
    rw [hs]
    exact ⟨rfl, rfl, .inr ⟨_, rfl, rfl⟩, .inl h''.2⟩
  case vc4 => exact fun _ _ _ => hundo

/-! ## Before the commit -/

/-- Nothing but the item revisions may differ, and these only while the variable
holds what they were. -/
structure Untouched (s : Storage γ) (t : Store γ) : Prop where
  vault : t.storage.vault = s.vault
  recoveryPacket : t.storage.recoveryPacket = s.recoveryPacket
  pendingMutations : WrittenBack readMutations s.pendingMutations t.storage.pendingMutations
  unmerged : t.remoteOriginalRevisionMap = none → WrittenBack (loaded ∅) s.itemRevisions t.storage.itemRevisions
  merged : ∀ map, t.remoteOriginalRevisionMap = some map → loaded ∅ s.itemRevisions = some map

theorem Untouched.same {s : Storage γ} {t : Store γ} (h : Untouched s t) (hnone : t.remoteOriginalRevisionMap = none) :
    Same s t.storage :=
  ⟨h.vault, h.recoveryPacket, h.pendingMutations, h.unmerged hnone⟩

theorem Untouched.restored {s : Storage γ} {t : Store γ} {map : Table ItemId Nat} (h : Untouched s t)
    (hmap : t.remoteOriginalRevisionMap = some map) : Same s (saveItemRevisionMap map t.storage) :=
  ⟨h.vault, h.recoveryPacket, h.pendingMutations, .inr ⟨map, h.merged map hmap, rfl⟩⟩

theorem untouched_start {s : Store γ} (hnone : s.remoteOriginalRevisionMap = none) : Untouched s.storage s :=
  ⟨rfl, rfl, .inl rfl, fun _ => .inl rfl, fun _ hmap => nomatch hnone.symm.trans hmap⟩

@[spec] theorem loadItemRevisionMap_spec (s : Store γ) :
    ⦃fun t => ⌜t = s⌝⦄ loadItemRevisionMap C
    ⦃post⟨fun map t => ⌜t = s ∧ loaded ∅ s.storage.itemRevisions = some map⌝, fun _ t => ⌜t = s⌝⟩⦄ := by
  mvcgen [loadItemRevisionMap]
  all_goals simp_all [loaded]

@[spec] theorem findPacket_spec (s : Store γ) :
    ⦃fun t => ⌜t = s⌝⦄ findPacket C server
    ⦃post⟨fun r t => ⌜t = s ∧ ∀ result, r = .error result → result.failed⌝, fun _ t => ⌜t = s⌝⟩⦄ := by
  mvcgen [findPacket, loadRecoveryPacket]
  case vc1.h_1.h_1 => exact ⟨‹_›, nofun⟩
  case vc6.h_3.isTrue => exact ⟨‹_›, nofun⟩
  all_goals
    refine ⟨‹_›, ?_⟩
    rintro _ ⟨⟩
    rfl

theorem remoteVaultOf_failed {remoteItems : List VaultItemCiphertext} {vaultKeyBytes : List UInt8}
    {result : RecoverVaultResult γ} (h : remoteVaultOf C readings remoteItems vaultKeyBytes = .ok (.error result)) :
    result.failed := by
  unfold remoteVaultOf at h
  split at h
  case h_1 =>
    obtain ⟨decoded, -, h⟩ := except_bind_ok h
    cases decoded with
    | none => cases h; rfl
    | some remoteEncryptedVault =>
      obtain ⟨vault, -, h⟩ := except_bind_ok h
      cases h
  case h_2 =>
    dsimp only at h
    split at h
    · cases h
    · obtain ⟨-, -, h⟩ := except_bind_ok h
      cases h
    · cases h
      rfl

@[spec] theorem mergeRemoteItems_spec (now : String) (vault : UnlockedVault) (remoteItems : List VaultItemCiphertext)
    (s : Store γ) :
    ⦃fun t => ⌜t = s⌝⦄ mergeRemoteItems C faults now vault remoteItems
    ⦃post⟨fun _ t => ⌜∃ map n, t = { s with storage := saveItemRevisionMap map s.storage, writes := n }⌝,
      fun _ t => ⌜∃ n, t = { s with writes := n }⌝⟩⦄ := by
  mvcgen [mergeRemoteItems]
  case vc1.post.success.post.success =>
    rename_i h _ _ _ h' _ _ h''
    exact ⟨_, _, by rw [h'', h'.1, h]; rfl⟩
  case vc2.post.success.post.except.handle =>
    rename_i h _ _ _ h' _ _
    exact fun h'' => ⟨_, by rw [h'', h'.1, h]⟩
  case vc3.post.except.handle =>
    rename_i h _ _
    exact fun h' => ⟨_, h'.trans h⟩

theorem Untouched.of_same {s : Storage γ} {t t' : Store γ} (h : Untouched s t) (hs : Same t.storage t'.storage)
    (hm : t'.remoteOriginalRevisionMap = t.remoteOriginalRevisionMap) : Untouched s t' :=
  ⟨hs.vault.trans h.vault, hs.recoveryPacket.trans h.recoveryPacket,
    h.pendingMutations.trans (fun _ => rfl) hs.pendingMutations,
    fun hnone => (h.unmerged (hm ▸ hnone)).trans (fun _ => rfl) hs.itemRevisions, fun map hmap => h.merged map (hm ▸ hmap)⟩

/-- What merging leaves, with what the revisions were in the variable. -/
theorem untouched_merged {s t : Store γ} {original map : Table ItemId Nat}
    (horiginal : loaded ∅ s.storage.itemRevisions = some original) (hs : t.storage = saveItemRevisionMap map s.storage)
    (hm : t.remoteOriginalRevisionMap = some original) : Untouched s.storage t :=
  ⟨by rw [hs]; rfl, by rw [hs]; rfl, .inl (by rw [hs]; rfl), fun hnone => (nomatch hm.symm.trans hnone),
    fun _ hmap => horiginal.trans (hm.symm.trans hmap)⟩

theorem recoverRemoteItems_spec (hundo : ∀ n, faults.undo n = false) (vaultKeyBytes : List UInt8) (s : Store γ)
    (hnone : s.remoteOriginalRevisionMap = none) :
    ⦃fun t => ⌜t = s⌝⦄ recoverRemoteItems C faults server readings vaultKeyBytes
    ⦃post⟨fun r t => ⌜Untouched s.storage t ∧
        ∀ result, r = .error result → result.failed ∧ t.remoteOriginalRevisionMap = none⌝,
      fun _ t => ⌜Untouched s.storage t⌝⟩⦄ := by
  mvcgen [recoverRemoteItems, setRemoteOriginal]
  -- the server's vault cannot be opened with the key
  case vc1.post.success.post.success.h_1 =>
    rename_i hs _ _ hp _ _ _ _ hv
    obtain ⟨rfl, hresult⟩ := hv
    obtain ⟨rfl, -⟩ := hp
    subst hs
    refine ⟨untouched_start hnone, ?_⟩
    rintro _ ⟨⟩
    exact ⟨remoteVaultOf_failed hresult, hnone⟩
  -- every record was decrypted
  case vc2.post.success.post.success.h_2.post.success.post.success.isTrue =>
    rename_i hs _ _ hp _ _ _ _ hv _ _ hr _ _ _ _ hm
    obtain ⟨map, n, rfl⟩ := hm
    obtain ⟨rfl, horiginal⟩ := hr
    obtain ⟨rfl, -⟩ := hv
    obtain ⟨rfl, -⟩ := hp
    exact hs ▸ ⟨untouched_merged horiginal rfl rfl, nofun⟩
  -- some record was not: the revisions are put back
  case vc4.post.success.post.success.h_2.post.success.post.success.isFalse.post.success =>
    rename_i hs _ _ hp _ _ _ _ hv _ _ hr _ _ _ _ hm _ _ hu _
    obtain ⟨map, n, rfl⟩ := hm
    obtain ⟨rfl, horiginal⟩ := hr
    obtain ⟨rfl, -⟩ := hv
    obtain ⟨rfl, -⟩ := hp
    subst hu hs
    refine ⟨⟨rfl, rfl, .inl rfl, fun _ => .inr ⟨_, horiginal, rfl⟩, nofun⟩, ?_⟩
    rintro _ ⟨⟩
    exact ⟨rfl, rfl⟩
  -- the merge throws, with the revisions of before in the variable
  case vc5.post.success.post.success.h_2.post.success.post.except.handle =>
    rename_i hs _ _ hp _ _ _ _ hv _ _ hr _ _ _
    rintro ⟨n, rfl⟩
    obtain ⟨rfl, horiginal⟩ := hr
    obtain ⟨rfl, -⟩ := hv
    obtain ⟨rfl, -⟩ := hp
    subst hs
    exact ⟨rfl, rfl, .inl rfl, nofun, fun _ hmap => horiginal.trans hmap⟩
  -- from here on what throws comes before the first write
  case vc6.post.success.post.success.h_2.post.except.handle =>
    rename_i hs _ _ hp _ _ _ _ hv _ _
    rintro rfl
    obtain ⟨rfl, -⟩ := hv
    obtain ⟨rfl, -⟩ := hp
    exact hs ▸ untouched_start (hs ▸ hnone)
  case vc7.post.success.post.except.handle =>
    rename_i hs _ _ hp _ _
    rintro rfl
    obtain ⟨rfl, -⟩ := hp
    exact hs ▸ untouched_start (hs ▸ hnone)
  case vc8.post.except.handle =>
    rename_i hs _ _
    rintro rfl
    exact hs ▸ untouched_start (hs ▸ hnone)

theorem recoverItems_spec (hundo : ∀ n, faults.undo n = false) (encryptedVault : Option (EncryptedLocalVault γ))
    (vaultKeyBytes : List UInt8) (s : Store γ) (hnone : s.remoteOriginalRevisionMap = none) :
    ⦃fun t => ⌜t = s⌝⦄ recoverItems C faults server readings encryptedVault vaultKeyBytes
    ⦃post⟨fun r t => ⌜Untouched s.storage t ∧
        ∀ result, r = .error result → result.failed ∧ t.remoteOriginalRevisionMap = none⌝,
      fun _ t => ⌜Untouched s.storage t⌝⟩⦄ := by
  cases encryptedVault with
  | none => exact recoverRemoteItems_spec hundo vaultKeyBytes s hnone
  | some encrypted =>
    mvcgen [recoverItems]
    case vc1.some.post.success =>
      rename_i hs _ _ ht
      obtain ⟨rfl, -⟩ := ht
      exact hs ▸ ⟨untouched_start (hs ▸ hnone), nofun⟩
    case vc2.some.post.except.handle =>
      rename_i hs _ _
      rintro rfl
      exact hs ▸ untouched_start (hs ▸ hnone)

def SealedWith (C : Core γ) (key : List UInt8) (encrypted : EncryptedLocalVault γ) : Prop :=
  ∃ snapshot nonce, C.encryptSnapshot ⟨encrypted.kdf.runtime, key⟩ snapshot nonce = .ok encrypted.cipher

theorem createRestored_sealed {recoveryPassword : String} {items : List VaultItem} {restored : Restored γ}
    (h : createRestored C readings recoveryPassword items = .ok restored) :
    recoverVaultKey C readings.recoveryCode restored.packet = .ok restored.unlocked.key ∧
      SealedWith C restored.unlocked.key restored.encrypted := by
  obtain ⟨created, -, h⟩ := except_bind_ok h
  obtain ⟨packet, -, h⟩ := except_bind_ok h
  obtain ⟨verified, hverified, h⟩ := except_bind_ok h
  dsimp only at h
  split at h
  · obtain ⟨_, hthrow, -⟩ := except_bind_ok h
    cases hthrow
  case isFalse hkey =>
    obtain ⟨encrypted, hsealed, h⟩ := except_bind_ok h
    cases h
    obtain ⟨cipher, hcipher, hsealed⟩ := except_bind_ok hsealed
    cases hsealed
    exact ⟨not_not.mp hkey ▸ hverified, _, _, hcipher⟩

def AllOrNothing (C : Core γ) (s t : Storage γ) : RecoverVaultResult γ → Prop
  | .ok encrypted unlocked _ recoveryCode =>
    t.vault = .value encrypted ∧ t.pendingMutations = .value ∅ ∧ ∃ packet, t.recoveryPacket = .value packet ∧
      recoverVaultKey C recoveryCode packet = .ok unlocked.key ∧ SealedWith C unlocked.key encrypted
  | _ => Same s t

theorem AllOrNothing.of_failed {s t : Storage γ} {result : RecoverVaultResult γ} (hfailed : result.failed)
    (h : Same s t) : AllOrNothing C s t result := by
  cases result with
  | ok => cases hfailed
  | _ => exact h

theorem recover_spec (hundo : ∀ n, faults.undo n = false) (recoveryInputCode recoveryPassword : String)
    (encryptedVault : Option (EncryptedLocalVault γ)) (s : Store γ) (hnone : s.remoteOriginalRevisionMap = none) :
    ⦃fun t => ⌜t = s⌝⦄ recover C faults server readings recoveryInputCode recoveryPassword encryptedVault
    ⦃post⟨fun result t => ⌜AllOrNothing C s.storage t.storage result⌝,
      fun _ t => ⌜Untouched s.storage t⌝⟩⦄ := by
  mvcgen [recover, recoverItems_spec, commit_spec]
  -- there is no packet
  case vc1.post.success.h_1 =>
    rename_i hs _ _ _ _ hp
    obtain ⟨rfl, hfailed⟩ := hp
    exact .of_failed (hfailed _ rfl) (hs ▸ Same.refl _)
  case vc3.hnone =>
    rename_i hs _ _ _ _ hp _ _ hk
    rw [hk.1, hp.1, hs]
    exact hnone
  -- the items cannot be recovered
  case vc4.post.success.h_2.post.success.post.success.h_1 =>
    rename_i hs _ _ _ _ hp _ _ hk _ _ _ _ hi
    obtain ⟨rfl, -⟩ := hk
    obtain ⟨rfl, -⟩ := hp
    subst hs
    obtain ⟨hfailed, hmerged⟩ := hi.2 _ rfl
    exact .of_failed hfailed (hi.1.same hmerged)
  -- everything is committed
  case vc6.post.success.h_2.post.success.post.success.h_2.post.success.post.success =>
    rename_i hr _ _ _ hc
    obtain ⟨hopens, hsealed⟩ := createRestored_sealed hr.2
    rw [hc.2]
    exact ⟨rfl, rfl, _, rfl, hopens, hsealed⟩
  -- a write of the commit fails and the commit undoes the others
  case vc7.post.success.h_2.post.success.post.success.h_2.post.success.post.except.handle =>
    rename_i hs _ _ _ _ hp _ _ hk _ _ _ _ hi _ _ hr _ _
    intro hm hsame
    obtain ⟨rfl, -⟩ := hr
    obtain ⟨rfl, -⟩ := hk
    obtain ⟨rfl, -⟩ := hp
    subst hs
    exact hi.1.of_same hsame hm
  -- what throws before the commit leaves the storage as the items were recovered
  case vc8.post.success.h_2.post.success.post.success.h_2.post.except.handle =>
    rename_i hs _ _ _ _ hp _ _ hk _ _ _ _ hi _ _
    rintro rfl
    obtain ⟨rfl, -⟩ := hk
    obtain ⟨rfl, -⟩ := hp
    exact hs ▸ hi.1
  case vc9.post.success.h_2.post.success.post.except.handle =>
    rename_i hs _ _ _ _ hp _ _ hk _ _
    obtain ⟨rfl, -⟩ := hk
    obtain ⟨rfl, -⟩ := hp
    exact hs ▸ id
  case vc10.post.success.h_2.post.except.handle =>
    rename_i hs _ _ _ _ hp _ _
    rintro rfl
    obtain ⟨rfl, -⟩ := hp
    exact hs ▸ untouched_start (hs ▸ hnone)
  case vc11.post.except.handle =>
    rename_i hs _ _
    rintro rfl
    exact hs ▸ untouched_start (hs ▸ hnone)

theorem handleRecoverVault_spec (hundo : ∀ n, faults.undo n = false) (recoveryInputCode recoveryPassword : String)
    (encryptedVault : Option (EncryptedLocalVault γ)) (s : Store γ) :
    ⦃fun t => ⌜t = s⌝⦄ handleRecoverVault C faults server readings recoveryInputCode recoveryPassword encryptedVault
    ⦃post⟨fun result t => ⌜AllOrNothing C s.storage t.storage result⌝, fun _ _ => ⌜False⌝⟩⦄ := by
  mvcgen [handleRecoverVault, setRemoteOriginal, recover_spec, attempt]
  case vc1.isTrue hs _ _ => exact hs ▸ Same.refl _
  case vc2.isFalse.isTrue hs _ _ _ => exact hs ▸ Same.refl _
  case vc5.isFalse.isFalse.post.success =>
    rename_i hs _ _ _ _ _
    subst hs
    exact id
  case vc6.isFalse.isFalse.post.except.handle.h_1 =>
    rename_i hs _ _ _ _ _ huntouched hnone
    subst hs
    exact huntouched.same hnone
  case vc8.isFalse.isFalse.post.except.handle.h_2.post.success.isTrue =>
    rename_i hs _ _ _ _ _ huntouched _ hmap _ _ ht _
    subst hs ht
    exact huntouched.restored hmap

theorem run_of_spec {α : Type} {program : Program γ α} {s : Store γ} {P : α → Store γ → Prop}
    (h : ⦃fun t => ⌜t = s⌝⦄ program ⦃post⟨fun a t => ⌜P a t⌝, fun _ _ => ⌜False⌝⟩⦄) :
    ∃ a t, program.run s = (.ok a, t) ∧ P a t := by
  have hpost := h s rfl
  rcases hrun : program.run s with ⟨result, t⟩
  have hsame : (StateT.run (ExceptT.run program) s).run = (result, t) := hrun
  simp only [wp, PredTrans.apply_pushExcept, PredTrans.apply_pushArg, hsame] at hpost
  cases result with
  | ok a => exact ⟨a, t, rfl, hpost⟩
  | error message => exact hpost.elim

/-- Recovery stores all it is to store and returns a code that opens it, or changes
nothing: wherever it fails, as long as what it writes back is written. -/
theorem recovery_all_or_nothing (hundo : ∀ n, faults.undo n = false) (recoveryInputCode recoveryPassword : String)
    (encryptedVault : Option (EncryptedLocalVault γ)) (s : Store γ) :
    ∃ result t, (handleRecoverVault C faults server readings recoveryInputCode recoveryPassword encryptedVault).run s =
        (.ok result, t) ∧ AllOrNothing C s.storage t.storage result :=
  run_of_spec (handleRecoverVault_spec hundo recoveryInputCode recoveryPassword encryptedVault s)

end

section

/-- A core that leaves its texts in the clear; every key is the same. -/
def plainCore : Core Legacy.VaultSnapshot where
  runtime :=
    { formats := sampleFormats
      hostname := fun _ => none
      toLowerCase := String.toLower
      hmacSha256Hex := fun _ _ => ""
      encryptItem := fun _ _ _ => ⟨sampleEnvelope, sampleEnvelope⟩
      decryptItem := fun _ _ _ => none }
  importKey := fun _ => .ok ()
  deriveVaultKey := fun _ _ => .ok (List.replicate 32 0)
  encryptSnapshot := fun _ snapshot _ => .ok snapshot
  decryptSnapshot := fun _ snapshot => .ok snapshot
  encryptPacket := fun code _ _ => .ok code
  decryptPacket := fun code packet => if code = packet.ciphertext then .ok (List.replicate 32 0) else .error "OperationError"
  decodeVault := fun _ => .ok none
  syntaxError := fun _ => "SyntaxError"

def storedVault : EncryptedLocalVault Legacy.VaultSnapshot := ⟨.pbkdf2Sha256 600000 "s", ⟨"0", "0", []⟩, 0, "0"⟩

def beforeRecovery : Store Legacy.VaultSnapshot :=
  ⟨⟨.value storedVault, .value ⟨"AES_256_GCM", "n", "CODE", 600000⟩, .value ∅, .absent⟩, 0, 0, none⟩

def packetFails : Faults := ⟨fun n => n == 2, fun _ => false⟩

def nothingFails : Faults := ⟨fun _ => false, fun _ => false⟩

def recoveryUnder (faults : Faults) : Except String (RecoverVaultResult Legacy.VaultSnapshot) × Store Legacy.VaultSnapshot :=
  (handleRecoverVault plainCore faults ⟨.ok none, .error "network_error"⟩ ⟨"1", "t", "m", "NEW"⟩ "CODE"
    "a long password" (some storedVault)).run beforeRecovery

/-- `recovery_all_or_nothing` where the new packet is not stored, and where all is. -/
theorem recovery_all_or_nothing_packet :
    ((recoveryUnder packetFails).1.toOption.any (·.failed) ∧
      (recoveryUnder packetFails).2.storage.vault = .value storedVault ∧
      ∃ result t, recoveryUnder packetFails = (.ok result, t) ∧
        AllOrNothing plainCore beforeRecovery.storage t.storage result) ∧
    (recoveryUnder nothingFails).1.toOption.any (!·.failed) ∧
      (recoveryUnder nothingFails).2.storage.vault ≠ .value storedVault ∧
      ∃ result t, recoveryUnder nothingFails = (.ok result, t) ∧
        AllOrNothing plainCore beforeRecovery.storage t.storage result :=
  ⟨⟨by decide +kernel, by decide +kernel,
      recovery_all_or_nothing (fun _ => rfl) "CODE" "a long password" (some storedVault) beforeRecovery⟩,
    by decide +kernel, by decide +kernel,
    recovery_all_or_nothing (fun _ => rfl) "CODE" "a long password" (some storedVault) beforeRecovery⟩

end

end ZeroVault.Web

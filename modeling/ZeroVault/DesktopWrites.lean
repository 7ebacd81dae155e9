import ZeroVault.Desktop
import ZeroVault.NoLostUpdate

/-!
# The desktop's writes

Six paths of the desktop send a plan. None of them names its mutation, so the
Worker's schema refuses every plan of theirs and no resend is ever recognised.
-/

namespace ZeroVault.Desktop

open Lib
open Browser (Runtime VaultItem)

inductive Write
  | addItem (item : VaultItem)
  | updateItem (item : VaultItem)
  | deleteItem (itemId : ItemId)
  | queuedUpsert (item : VaultItem)
  | queuedDelete (itemId : ItemId)
  | keepLocal (localItem : VaultItem)
  | createCopy (localItem : VaultItem) (clonedItemId : ItemId)

section
variable {κ : Type} (R : Runtime κ) (vaultKey : κ)

def Write.plan (store : CiphertextStore) (nonces : String) (ownerUserId : UserId) (now : String) : Write → Option WirePlan
  | addItem item => some (addItemPlan R vaultKey store item nonces ownerUserId now)
  | updateItem item => some (updateItemPlan R vaultKey store item nonces ownerUserId now)
  | deleteItem itemId => some (deleteItemPlan store itemId ownerUserId now)
  | queuedUpsert item => some (updateItemPlan R vaultKey store item nonces ownerUserId now)
  | queuedDelete itemId => some (deleteItemPlan store itemId ownerUserId now)
  | keepLocal localItem => keepLocalPlan R vaultKey store localItem nonces ownerUserId now
  | createCopy localItem clonedItemId => some (createCopyPlan R vaultKey store localItem clonedItemId nonces ownerUserId now)

end

/-- Sent again after it was applied, the plan changes nothing and is answered
with the same receipts. -/
def Recognised (userId : UserId) (plan : ItemLevelSyncPlan) : Prop :=
  ∀ (env env' : Nat → Env) (s s' : Db) (result : ItemLevelSyncPushResult),
    (pushItemLevelSync env userId plan).run s = (s', .ok result) → result.conflicts = [] →
      ∃ again, (pushItemLevelSync env' userId plan).run s' = (s', .ok again) ∧ again.conflicts = [] ∧
        again.applied.mutationReceipts = result.applied.mutationReceipts

/-- The body satisfies the schema, and its resend is recognised. -/
def SpeaksProtocol (F : Formats) (userId : UserId) (body : WirePlan) : Prop :=
  ∃ plan, body.parse F = some plan ∧ Recognised userId plan

section
variable {κ : Type} {R : Runtime κ} {vaultKey : κ} {F : Formats}
variable {store : CiphertextStore} {nonces now : String} {ownerUserId : UserId} {w : Write} {body : WirePlan}

theorem upsertPlan_unnamed {upsert : WireUpsert} (h : upsert.clientMutationId = none) (baseRevision : Nat) :
    (upsertPlan baseRevision upsert).parse F = none :=
  parse_unnamed (.inl ⟨upsert, List.mem_singleton_self _, h⟩)

theorem deletePlan_unnamed (baseRevision : Nat) (itemId : ItemId) (revision : Nat) :
    (deletePlan baseRevision itemId revision ownerUserId now).parse F = none :=
  parse_unnamed (.inr ⟨_, List.mem_singleton_self _, rfl⟩)

theorem write_refused (h : w.plan R vaultKey store nonces ownerUserId now = some body) : body.parse F = none := by
  cases w with
  | addItem item => cases h; exact upsertPlan_unnamed rfl _
  | updateItem item => cases h; exact upsertPlan_unnamed rfl _
  | deleteItem itemId => cases h; exact deletePlan_unnamed _ _ _
  | queuedUpsert item => cases h; exact upsertPlan_unnamed rfl _
  | queuedDelete itemId => cases h; exact deletePlan_unnamed _ _ _
  | keepLocal localItem =>
    obtain ⟨stored, -, rfl⟩ := Option.map_eq_some_iff.mp h
    exact upsertPlan_unnamed rfl _
  | createCopy localItem clonedItemId => cases h; exact upsertPlan_unnamed rfl _

/-- No body that the desktop sends is one of the Worker's protocol. -/
theorem no_write_speaks_protocol (R : Runtime κ) (vaultKey : κ) (F : Formats) (store : CiphertextStore)
    (nonces now : String) (ownerUserId : UserId) (w : Write) :
    ¬ ∃ body, w.plan R vaultKey store nonces ownerUserId now = some body ∧ SpeaksProtocol F ownerUserId body := by
  rintro ⟨body, hbody, plan, hplan, -⟩
  rw [write_refused hbody] at hplan
  cases hplan

end

/-! ## A new login -/

def sampleRuntime : Runtime Unit where
  formats := sampleFormats
  hostname := fun _ => none
  toLowerCase := String.toLower
  hmacSha256Hex := fun _ _ => "0000000000000000000000000000000000000000000000000000000000000000"
  encryptItem := fun _ _ _ => ⟨sampleEnvelope, sampleEnvelope⟩
  decryptItem := fun _ _ _ => none

def sampleLogin : VaultItem where
  title := "mail"
  folder := ""
  notes := ""
  customFields := []
  body := .login "https://example.org" "a" "b" none none
  id := sampleUpsert.id
  createdAt := sampleUpsert.createdAt
  updatedAt := sampleUpsert.updatedAt

def newLoginBody : WirePlan :=
  addItemPlan sampleRuntime () ⟨∅, 0, none⟩ sampleLogin "" sampleUser sampleUpsert.createdAt

/-- The item is valid, and its body would be a plan if it named a mutation. -/
theorem addItem_refused :
    (Browser.vaultItemSchema sampleFormats sampleLogin).isSome = true ∧ sampleFormats.uuid sampleUser = true ∧
      ¬ SpeaksProtocol sampleFormats sampleUser newLoginBody ∧
      (({ newLoginBody with upserts := newLoginBody.upserts.map fun item =>
        { item with clientMutationId := some sampleUpsert.clientMutationId } } : WirePlan).parse sampleFormats).isSome =
          true := by
  refine ⟨by decide, by decide, ?_, by decide +kernel⟩
  rintro ⟨plan, hplan, -⟩
  have hbody : (Write.addItem sampleLogin).plan sampleRuntime () ⟨∅, 0, none⟩ "" sampleUser sampleUpsert.createdAt =
      some newLoginBody := rfl
  rw [write_refused hbody] at hplan
  cases hplan

end ZeroVault.Desktop

import ZeroVault.SyncStore

/-!
# The item-sync routes

What the Worker makes of the body and the query of an authenticated request,
and of the store's answer. A member that the JSON of a request leaves out is
`none` on the wire.
-/

namespace ZeroVault

open Lib

/-! ## Bodies -/

structure WireUpsert extends VaultItemCiphertext where
  baseItemRevision : Nat
  clientMutationId : Option MutationId
  ciphertextHash : Option String
deriving DecidableEq, Repr

structure WireDelete where
  id : ItemId
  ownerUserId : UserId
  baseItemRevision : Nat
  deletedAt : String
  clientMutationId : Option MutationId
deriving DecidableEq, Repr

structure WirePlan where
  baseRevision : Nat
  upserts : List WireUpsert
  deletes : List WireDelete
deriving DecidableEq, Repr

def WireUpsert.parse (item : WireUpsert) : Option ItemLevelEncryptedUpsert :=
  item.clientMutationId.map fun clientMutationId =>
    { toVaultItemCiphertext := item.toVaultItemCiphertext
      baseItemRevision := item.baseItemRevision
      clientMutationId
      ciphertextHash := item.ciphertextHash }

def WireDelete.parse (item : WireDelete) : Option ItemLevelEncryptedDelete :=
  item.clientMutationId.map fun clientMutationId =>
    ⟨item.id, item.ownerUserId, item.baseItemRevision, item.deletedAt, clientMutationId⟩

/-- `itemLevelSyncPlanSchema.safeParse(body)`. -/
def WirePlan.parse (F : Formats) (body : WirePlan) : Option ItemLevelSyncPlan := do
  let upserts ← body.upserts.mapM WireUpsert.parse
  let deletes ← body.deletes.mapM WireDelete.parse
  let plan : ItemLevelSyncPlan := ⟨body.baseRevision, upserts, deletes⟩
  if itemLevelSyncPlanSchema F plan then some plan else none

theorem parse_unnamed {F : Formats} {body : WirePlan}
    (h : (∃ item ∈ body.upserts, item.clientMutationId = none) ∨ ∃ item ∈ body.deletes, item.clientMutationId = none) :
    body.parse F = none := by
  have hnone : ∀ {α β : Type} {parse : β → Option α} {bs : List β}, (∃ b ∈ bs, parse b = none) → bs.mapM parse = none := by
    intro α β parse bs
    induction bs with
    | nil => simp
    | cons b bs ih =>
      rintro ⟨c, hc, hp⟩
      rcases List.mem_cons.mp hc with rfl | hc
      · simp [hp]
      · have := ih ⟨c, hc, hp⟩
        cases hb : parse b <;> simp [hb, this]
  unfold WirePlan.parse
  rcases h with ⟨item, hi, hm⟩ | ⟨item, hi, hm⟩
  · have hupserts : body.upserts.mapM WireUpsert.parse = none := hnone ⟨item, hi, by simp [WireUpsert.parse, hm]⟩
    rw [hupserts]
    rfl
  · have hdeletes : body.deletes.mapM WireDelete.parse = none := hnone ⟨item, hi, by simp [WireDelete.parse, hm]⟩
    rw [hdeletes]
    cases body.upserts.mapM WireUpsert.parse <;> rfl

/-! ## Answers -/

/-- A response: its status, and what its JSON body has of `error` and of the
answer proper. A body that is no JSON has neither. -/
structure Response (α : Type) where
  status : Nat
  error : Option String
  answer : Option α
deriving DecidableEq, Repr

/-- `POST /vault/item-sync`. -/
def postItemSync (F : Formats) (env : Nat → Env) (userId : UserId) (body : WirePlan) :
    SyncProg (Response ItemLevelSyncPushResult) :=
  match body.parse F with
  | none => pure ⟨400, some "invalid_item_sync_request", none⟩
  | some plan => do
    let result ← pushItemLevelSync env userId plan
    match result with
    | .ok result =>
      if result.conflicts.isEmpty then pure ⟨200, none, some result⟩
      else pure ⟨409, some "sync_conflict", some result⟩
    | .error .itemOwnerMismatch => pure ⟨403, some "item_owner_mismatch", none⟩
    | .error _ => pure ⟨500, some "internal_server_error", none⟩

/-! ## The pull -/

structure ItemSyncQuery where
  cursor : Option String
  limit : Option String
  serverRevision : Option String
deriving DecidableEq, Repr

/-- `z.coerce.number().int().nonnegative()` on decimal digits. -/
def itemLevelSyncCursorSchema (value : String) : Option Nat :=
  let digits := value.toList
  if digits.isEmpty || !digits.all (·.isDigit) then none
  else some (digits.foldl (fun n c => 10 * n + (c.toNat - '0'.toNat)) 0)

/-- `GET /vault/item-sync`. -/
def getItemSync (F : Formats) (userId : UserId) (query : ItemSyncQuery) :
    SyncProg (Response ItemLevelSyncPullResponse) :=
  match itemLevelSyncCursorSchema (query.cursor.getD "0"), itemLevelSyncCursorSchema (query.limit.getD "200") with
  | some cursor, some limit =>
    if limit < 1 ∨ 500 < limit then pure ⟨400, some "invalid_sync_cursor", none⟩
    else do
      let result ← pullItemLevelSync F userId cursor limit
      match result with
      | .ok response => pure ⟨200, none, some response⟩
      | .error _ => pure ⟨500, some "internal_server_error", none⟩
  | _, _ => pure ⟨400, some "invalid_sync_cursor", none⟩

/-- Without a cursor in the query the route reads the first 200 entries. -/
theorem getItemSync_first (F : Formats) (userId : UserId) {query : ItemSyncQuery} (hc : query.cursor = none)
    (hl : query.limit = none) {s : Db} {user : UserRow} (hu : findUserById userId s = some user) :
    (getItemSync F userId query).run s =
      (s, ⟨200, none, some (pullResponse F user.serverRevision 0 200 (s.itemSyncChanges.page userId 0 201))⟩) := by
  have h0 : itemLevelSyncCursorSchema "0" = some 0 := by decide
  have h200 : itemLevelSyncCursorSchema "200" = some 200 := by decide
  unfold getItemSync pullItemLevelSync
  simp only [hc, hl, Option.getD_none, h0, h200]
  rw [if_neg (by omega)]
  simp [hu]

end ZeroVault

import ZeroVault.LegacyDrain

/-!
# What a legacy sync does to local edits

The pulled items take the place of the local items of their ids before anything
is pushed (`mem_merged`). An edit that they overwrite is gone from the stored
vault (`edit_stored`), so it is left to the server whether anything of it
survives (`legacy_sync_keeps_edits`). What can still bring it there is a pending
mutation that carries it, or the sealed vault from before the merge (`edit_kept`).
-/

namespace ZeroVault.Legacy

open Lib Browser

/-! ## The merge -/

theorem place_cons (i : VaultItem) (items : List VaultItem) (c : VaultItem) :
    place (i :: items) c = if i.id = c.id then c :: items else i :: place items c := by
  unfold place
  rw [List.findIdx?_cons]
  by_cases hi : i.id = c.id
  · rw [if_pos (by simpa using hi), if_pos hi]
    rfl
  · rw [if_neg (by simpa using hi), if_neg hi]
    cases hf : items.findIdx? fun x => decide (x.id = c.id) with
    | none => rfl
    | some k => rfl

theorem filter_place (c : VaultItem) (a : ItemId) :
    ∀ items : List VaultItem, (place items c).filter (·.id = a) =
      if c.id = a then c :: (items.filter (·.id = a)).tail else items.filter (·.id = a)
  | [] => by
    by_cases hc : c.id = a
    · simp [place, hc]
    · simp [place, hc]
  | i :: items => by
    have ih := filter_place c a items
    rw [place_cons]
    by_cases hi : i.id = c.id
    · rw [if_pos hi]
      by_cases hc : c.id = a
      · simp [hi, hc]
      · simp [hi, hc]
    · rw [if_neg hi, List.filter_cons, ih]
      by_cases hc : c.id = a
      · have hia : i.id ≠ a := fun h => hi (h.trans hc.symm)
        simp [hc, hia]
      · simp only [if_neg hc, List.filter_cons]

section
variable {κ : Type} {R : Runtime κ}

def version (R : Runtime κ) (vault : UnlockedVault κ) (item : VaultItemCiphertext) : Option VaultItem :=
  decryptItemFromSync R vault item.encryptedItemKey item.encryptedPayload item.id

theorem version_key {v v' : UnlockedVault κ} (h : v.key = v'.key) (item : VaultItemCiphertext) :
    version R v item = version R v' item := by
  unfold version decryptItemFromSync
  rw [h]

def remoteVersion (items : List VaultItemCiphertext) (id : ItemId) : Option VaultItemCiphertext :=
  if id = LOCAL_VAULT_SYNC_ITEM_ID then none else items.reverse.find? (·.id = id)

theorem remoteVersion_snoc (items : List VaultItemCiphertext) (item : VaultItemCiphertext) (id : ItemId) :
    remoteVersion (items ++ [item]) id =
      if item.id = id ∧ id ≠ LOCAL_VAULT_SYNC_ITEM_ID then some item else remoteVersion items id := by
  unfold remoteVersion
  by_cases hl : id = LOCAL_VAULT_SYNC_ITEM_ID
  · simp [hl]
  · by_cases hi : item.id = id
    · simp [hl, hi]
    · simp [hl, hi]

/-- Each pulled item but the sealed vault can be decrypted. -/
def Decrypts (R : Runtime κ) (vault : UnlockedVault κ) (items : List VaultItemCiphertext) : Prop :=
  ∀ item ∈ items, item.id ≠ LOCAL_VAULT_SYNC_ITEM_ID → (version R vault item).isSome

variable {v : LegacyUnlockedVault κ} {now : String}

theorem remoteVersion_mem {items : List VaultItemCiphertext} {id : ItemId} {item : VaultItemCiphertext}
    (h : remoteVersion items id = some item) : item ∈ items ∧ item.id = id ∧ id ≠ LOCAL_VAULT_SYNC_ITEM_ID := by
  unfold remoteVersion at h
  by_cases hl : id = LOCAL_VAULT_SYNC_ITEM_ID
  · rw [if_pos hl] at h
    cases h
  · rw [if_neg hl] at h
    have hp := List.find?_some h
    exact ⟨List.mem_reverse.mp (List.mem_of_find?_eq_some h), of_decide_eq_true hp, hl⟩

theorem version_id {vault : UnlockedVault κ} {item : VaultItemCiphertext} {c : VaultItem}
    (h : version R vault item = some c) : c.id = item.id := decrypt_id h

variable (R now) in
theorem mergeRemoteItem_cases (st : MergeRemoteItemsResult κ) (item : VaultItemCiphertext) :
    (item.id = LOCAL_VAULT_SYNC_ITEM_ID ∧ mergeRemoteItem R now st item = st) ∨
      (item.id ≠ LOCAL_VAULT_SYNC_ITEM_ID ∧ version R st.vault.browser item = none ∧
        (mergeRemoteItem R now st item).vault = st.vault ∧
        (mergeRemoteItem R now st item).failedItemIds = st.failedItemIds ++ [item.id]) ∨
      ∃ c, item.id ≠ LOCAL_VAULT_SYNC_ITEM_ID ∧ version R st.vault.browser item = some c ∧
        (mergeRemoteItem R now st item).vault.key = st.vault.key ∧
        (mergeRemoteItem R now st item).vault.snapshot.items = place st.vault.snapshot.items c ∧
        (mergeRemoteItem R now st item).failedItemIds = st.failedItemIds := by
  unfold mergeRemoteItem
  by_cases hl : item.id = LOCAL_VAULT_SYNC_ITEM_ID
  · rw [if_pos hl]
    exact .inl ⟨hl, rfl⟩
  · rw [if_neg hl]
    cases hv : version R st.vault.browser item with
    | none =>
      unfold version at hv
      rw [hv]
      exact .inr (.inl ⟨hl, rfl, rfl, rfl⟩)
    | some c =>
      unfold version at hv
      rw [hv]
      exact .inr (.inr ⟨c, hl, rfl, rfl, rfl, rfl⟩)

def mergeOf (R : Runtime κ) (now : String) (v : LegacyUnlockedVault κ) (revisions : Table ItemId Nat)
    (items : List VaultItemCiphertext) : MergeRemoteItemsResult κ :=
  items.foldl (mergeRemoteItem R now) ⟨v, revisions, [], []⟩

variable (R v now) in
theorem mergeOf_snoc (revisions : Table ItemId Nat) (items : List VaultItemCiphertext) (item : VaultItemCiphertext) :
    mergeOf R now v revisions (items ++ [item]) = mergeRemoteItem R now (mergeOf R now v revisions items) item := by
  unfold mergeOf
  rw [List.foldl_append]
  rfl

variable {revisions : Table ItemId Nat}

variable (R v now revisions) in
theorem mergeOf_key (items : List VaultItemCiphertext) : (mergeOf R now v revisions items).vault.key = v.key := by
  induction items using List.reverseRecOn with
  | nil => rfl
  | append_singleton items item ih =>
    rw [mergeOf_snoc]
    rcases mergeRemoteItem_cases R now (mergeOf R now v revisions items) item with
      ⟨-, he⟩ | ⟨-, -, he, -⟩ | ⟨c, -, -, he, -⟩
    · rw [he, ih]
    · rw [he, ih]
    · rw [he, ih]

theorem version_merged (items : List VaultItemCiphertext) (item : VaultItemCiphertext) :
    version R (mergeOf R now v revisions items).vault.browser item = version R v.browser item :=
  version_key (mergeOf_key R v now revisions items) item

theorem mergeOf_failed (items : List VaultItemCiphertext) :
    (mergeOf R now v revisions items).failedItemIds = [] ↔ Decrypts R v.browser items := by
  induction items using List.reverseRecOn with
  | nil => exact ⟨fun _ _ hitem => absurd hitem List.not_mem_nil, fun _ => rfl⟩
  | append_singleton items item ih =>
    have hsnoc : Decrypts R v.browser (items ++ [item]) ↔
        Decrypts R v.browser items ∧ (item.id ≠ LOCAL_VAULT_SYNC_ITEM_ID → (version R v.browser item).isSome) := by
      unfold Decrypts
      simp only [List.mem_append, List.mem_singleton, or_imp, forall_and, forall_eq]
    rw [mergeOf_snoc, hsnoc, ← ih]
    rcases mergeRemoteItem_cases R now (mergeOf R now v revisions items) item with
      ⟨hl, he⟩ | ⟨hl, hn, -, he⟩ | ⟨c, hl, hc, -, -, he⟩
    · rw [he]
      exact ⟨fun h => ⟨h, fun hne => absurd hl hne⟩, fun h => h.1⟩
    · rw [version_merged] at hn
      rw [he]
      constructor
      · intro h
        exact absurd (List.append_eq_nil_iff.mp h).2 (List.cons_ne_nil _ _)
      · rintro ⟨-, h⟩
        rw [hn] at h
        exact absurd (h hl) (by decide)
    · rw [version_merged] at hc
      rw [he, hc]
      exact ⟨fun h => ⟨h, fun _ => rfl⟩, fun h => h.1⟩

/-- After the merge the first item of an id is its last pulled version. -/
theorem mergeOf_items (a : ItemId) (items : List VaultItemCiphertext) (hd : Decrypts R v.browser items) :
    (mergeOf R now v revisions items).vault.snapshot.items.filter (·.id = a) =
      match (remoteVersion items a).bind (version R v.browser) with
      | some c => c :: (v.snapshot.items.filter (·.id = a)).tail
      | none => v.snapshot.items.filter (·.id = a) := by
  induction items using List.reverseRecOn with
  | nil =>
    have hn : remoteVersion [] a = none := by
      unfold remoteVersion
      split_ifs <;> rfl
    rw [hn]
    rfl
  | append_singleton items item ih =>
    have ih := ih fun i hi => hd i (List.mem_append_left _ hi)
    rw [mergeOf_snoc, remoteVersion_snoc]
    rcases mergeRemoteItem_cases R now (mergeOf R now v revisions items) item with
      ⟨hl, he⟩ | ⟨hl, hn, -, -⟩ | ⟨c, hl, hc, -, he, -⟩
    · rw [he, ih, if_neg]
      rintro ⟨hi, hne⟩
      exact hne (hi ▸ hl)
    · rw [version_merged] at hn
      have hsome := hd item (List.mem_append_right _ List.mem_cons_self) hl
      rw [hn] at hsome
      cases hsome
    · rw [version_merged] at hc
      rw [he, filter_place, version_id hc]
      by_cases hi : item.id = a
      · rw [if_pos hi, if_pos ⟨hi, hi ▸ hl⟩, Option.bind_some, hc, ih]
        split <;> rfl
      · rw [if_neg hi, if_neg fun h => hi h.1, ih]

/-- Another version of `x` takes its place. -/
def Overwritten (R : Runtime κ) (vault : UnlockedVault κ) (items : List VaultItemCiphertext) (x : VaultItem) : Prop :=
  (∃ item, remoteVersion items x.id = some item ∧ version R vault item ≠ some x) ∧
    x ∉ (vault.items.filter (·.id = x.id)).tail

variable (now revisions) in
theorem mem_merged {items : List VaultItemCiphertext} (hd : Decrypts R v.browser items) {x : VaultItem}
    (hx : x ∈ v.snapshot.items) :
    x ∈ (mergeOf R now v revisions items).vault.snapshot.items ↔ ¬ Overwritten R v.browser items x := by
  have hof (l : List VaultItem) : x ∈ l ↔ x ∈ l.filter (·.id = x.id) := by
    simp only [List.mem_filter, decide_true, and_true]
  rw [hof, mergeOf_items x.id items hd]
  unfold Overwritten
  cases hr : remoteVersion items x.id with
  | none =>
    have hin : x ∈ v.snapshot.items.filter (·.id = x.id) := (hof _).mp hx
    constructor
    · rintro - ⟨⟨item, h, -⟩, -⟩
      cases h
    · exact fun _ => hin
  | some item =>
    obtain ⟨hmem, hid, hl⟩ := remoteVersion_mem hr
    obtain ⟨c, hc⟩ := Option.isSome_iff_exists.mp (hd item hmem (hid ▸ hl))
    rw [Option.bind_some, hc]
    dsimp only
    rw [List.mem_cons, not_and_not_right]
    constructor
    · rintro (he | ht) ⟨item', hi, hne⟩
      · cases hi
        exact absurd (he ▸ hc) hne
      · exact ht
    · intro h
      by_cases he : x = c
      · exact .inl he
      · exact .inr (h ⟨item, rfl, fun h' => he (Option.some.inj (h'.symm.trans hc))⟩)

end

/-! ## What a plan carries -/

section
variable {κ : Type} {R : Runtime κ} {vault : UnlockedVault κ} {u : UserId} {state : SyncState} {draws : Nat → Draw}

/-- An upsert holds the content of `x`. -/
def Carries (R : Runtime κ) (key : κ) (up : ItemLevelEncryptedUpsert) (x : VaultItem) : Prop :=
  up.id = x.id ∧ R.decryptItem key ⟨up.encryptedItemKey, up.encryptedPayload⟩ x.id = some x

/-- An upsert was encrypted from an item of the vault, or was pending before. -/
def Origin (R : Runtime κ) (vault : UnlockedVault κ) (state : SyncState) (up : ItemLevelEncryptedUpsert) : Prop :=
  (∃ it ∈ vault.items, ∃ nonces, up.id = it.id ∧
      (⟨up.encryptedItemKey, up.encryptedPayload⟩ : ItemBundle) = R.encryptItem vault.key it nonces) ∨
    ∃ p, state.pending.get? up.id = some p ∧ p.upsert = some up

structure Known (R : Runtime κ) (vault : UnlockedVault κ) (state : SyncState) (st : PlanState) : Prop where
  upserts : ∀ up ∈ st.upserts, Origin R vault state up
  pending : ∀ id p up, st.nextPendingMutations.get? id = some p → p.upsert = some up → up.id = id →
    Origin R vault state up

theorem freshUpsert_bundle {it : VaultItem} {expected : Nat} {draw : Draw} {up : ItemLevelEncryptedUpsert}
    (h : freshUpsert R vault u it expected draw = some up) :
    (⟨up.encryptedItemKey, up.encryptedPayload⟩ : ItemBundle) = R.encryptItem vault.key it draw.nonces := by
  unfold freshUpsert at h
  dsimp only at h
  split at h
  · cases h
    rfl
  · cases h

theorem planItem_known {draw : Draw} {st st' : PlanState} {it : VaultItem} (hit : it ∈ vault.items)
    (hk : Known R vault state st) (h : planItem R vault u state draw st it = some st') : Known R vault state st' := by
  rcases planItem_cases h with ⟨h1, -, h3, -⟩ | ⟨expected, up, -, -, -, hs, h1, -, h3⟩
  · exact ⟨h1 ▸ hk.upserts, h3 ▸ hk.pending⟩
  · have hup : Origin R vault state up := by
      rcases hs.2 with hr | ⟨-, hf⟩
      · obtain ⟨p, hp, hpu, -, -, hid, -⟩ := replayedUpsert_eq.mp hr
        exact hk.pending it.id p up hp hpu hid
      · exact .inl ⟨it, hit, draw.nonces, (freshUpsert_eq hf).1, freshUpsert_bundle hf⟩
    constructor
    · intro up' hup'
      rw [h1, List.mem_append, List.mem_singleton] at hup'
      rcases hup' with hold | rfl
      · exact hk.upserts up' hold
      · exact hup
    · intro id p up' hp hpu hid
      rw [h3, Table.get?_set] at hp
      split at hp
      · cases hp
        cases hpu
        exact hup
      · exact hk.pending id p up' hp hpu hid

theorem planItems_known {items : List (VaultItem × Nat)} {st st' : PlanState} (hitems : ∀ p ∈ items, p.1 ∈ vault.items)
    (hk : Known R vault state st)
    (h : items.foldlM (fun st p => planItem R vault u state (draws p.2) st p.1) st = some st') :
    Known R vault state st' := by
  induction items generalizing st with
  | nil =>
    cases h
    exact hk
  | cons p items ih =>
    rw [List.foldlM_cons] at h
    obtain ⟨st₁, h1, h⟩ := Option.bind_eq_some_iff.mp h
    exact ih (fun p' hp' => hitems p' (List.mem_cons_of_mem _ hp'))
      (planItem_known (hitems p List.mem_cons_self) hk h1) h

theorem plan_origin {built : BuiltPlan} (h : buildItemLevelSyncPlan R draws vault u state = some built)
    {up : ItemLevelEncryptedUpsert} (hup : up ∈ built.plan.upserts) : Origin R vault state up := by
  unfold buildItemLevelSyncPlan at h
  obtain ⟨st, hst, h⟩ := Option.bind_eq_some_iff.mp h
  cases h
  have hk : Known R vault state st := by
    refine planItems_known ?_ ⟨fun up hup => absurd hup List.not_mem_nil, ?_⟩ hst
    · rintro ⟨it, i⟩ hp
      exact List.fst_mem_of_mem_zipIdx hp
    · rintro id p up hp hpu rfl
      exact .inr ⟨p, hp, hpu⟩
  rw [← (planDeletes_grows u state draws vault.itemIds (state.knownIds.zipIdx vault.items.length)).1] at hup
  exact hk.upserts up hup

/-- A ciphertext decrypts to nothing but what was encrypted. -/
def Authentic (R : Runtime κ) : Prop :=
  ∀ key item nonces x, R.decryptItem key (R.encryptItem key item nonces) item.id = some x → x = item

theorem plan_carries (hR : Authentic R) {built : BuiltPlan}
    (h : buildItemLevelSyncPlan R draws vault u state = some built) {up : ItemLevelEncryptedUpsert}
    (hup : up ∈ built.plan.upserts) {x : VaultItem} (hc : Carries R vault.key up x) :
    x ∈ vault.items ∨ ∃ p, state.pending.get? x.id = some p ∧ p.upsert = some up := by
  obtain ⟨hid, hdec⟩ := hc
  rcases plan_origin h hup with ⟨it, hit, nonces, hitid, hbundle⟩ | ⟨p, hp, hpu⟩
  · rw [hbundle, ← hid, hitid] at hdec
    exact .inl (hR _ _ _ _ hdec ▸ hit)
  · exact .inr ⟨p, hid ▸ hp, hpu⟩

end

/-! ## The pushes -/

section
variable {κ σ : Type} {R : Runtime κ} {W : WebCrypto κ σ} {readings : Readings} {server : Server}

theorem performItemLevelSync_cases (draws : Nat → Draw) (now : String) (storage : Storage σ) (vault : UnlockedVault κ)
    (u : UserId) (push : ItemLevelSyncPlan → Option ItemLevelSyncPushResult) :
    let run := performItemLevelSync R draws now storage vault u push
    let plan := buildItemLevelSyncPlan R draws vault u storage.syncState
    run.storage.vault = storage.vault ∧ run.sent = plan.map (·.plan) ∧
      run.result.map (·.response) = plan.bind fun built => push built.plan := by
  dsimp only
  unfold performItemLevelSync
  cases buildItemLevelSyncPlan R draws vault u storage.syncState with
  | none => exact ⟨rfl, rfl, rfl⟩
  | some built =>
    dsimp only
    cases hp : push built.plan with
    | none => exact ⟨rfl, rfl, by rw [Option.bind_some, hp]; rfl⟩
    | some response =>
      dsimp only
      rw [Option.bind_some, hp]
      split_ifs
      · exact ⟨rfl, rfl, rfl⟩
      · exact ⟨rfl, rfl, rfl⟩

/-- A sealed vault opens to a snapshot that has `x`. -/
def Holds (W : WebCrypto κ σ) (key : κ) (vault : EncryptedLocalVault σ) (x : VaultItem) : Prop :=
  ∃ snapshot, W.decryptSnapshot key vault.cipher = some snapshot ∧ x ∈ snapshot.items

/-- The server took an upsert that carries `x`. -/
def TakesItem (R : Runtime κ) (server : Server) (key : κ) (plan : ItemLevelSyncPlan) (x : VaultItem) : Prop :=
  ∃ response, server.pushItemLevelSync plan = some response ∧
    ∃ up ∈ plan.upserts, up.id ∈ response.applied.upsertedItemIds ∧ Carries R key up x

/-- The server took a sealed vault that holds `x`. -/
def TakesVault (W : WebCrypto κ σ) (server : Server) (key : κ) (sent : EncryptedLocalVault σ × SyncPushRequest)
    (x : VaultItem) : Prop :=
  (∃ revision, server.pushVault sent.2 = .ok revision) ∧ Holds W key sent.1 x

def SyncRun.Accepted (R : Runtime κ) (W : WebCrypto κ σ) (server : Server) (key : κ) (run : SyncRun κ σ)
    (x : VaultItem) : Prop :=
  (∃ plan ∈ run.plans, TakesItem R server key plan x) ∨ ∃ sent ∈ run.vaults, TakesVault W server key sent x

def SyncRun.Stored (W : WebCrypto κ σ) (key : κ) (run : SyncRun κ σ) (x : VaultItem) : Prop :=
  ∃ vault, run.storage.vault = some vault ∧ Holds W key vault x

variable {encryptedVault : EncryptedLocalVault σ} {unlockedVault : Option (LegacyUnlockedVault κ)} {u : UserId}
variable {remote : SyncPullResponse} {baseRevision : Nat} {storage : Storage σ} {plans : List ItemLevelSyncPlan}
variable {mergedVault : Option (EncryptedLocalVault σ × LegacyUnlockedVault κ)}

theorem legacySync_vault :
    (legacySync W readings server encryptedVault u remote baseRevision mergedVault storage plans).storage.vault =
      storage.vault := by
  unfold legacySync
  split
  · rfl
  · dsimp only
    split <;> rfl

theorem itemSynced_vault {active : EncryptedLocalVault σ} {synced : Option VaultItemCiphertext}
    {result : ItemLevelSyncResult κ} :
    (itemSynced W readings server active u synced storage plans result).storage.vault = storage.vault := by
  unfold itemSynced
  split
  · rfl
  · dsimp only
    split <;> rfl

theorem pushMerged_vault :
    (pushMerged R W readings server encryptedVault unlockedVault u remote baseRevision mergedVault storage).storage.vault =
      storage.vault := by
  unfold pushMerged
  split
  · exact legacySync_vault
  · rename_i active _
    have hv := (performItemLevelSync_cases (R := R) readings.draws readings.now storage active.browser u
      server.itemAnswer).1
    dsimp only at hv ⊢
    split
    · rw [itemSynced_vault, hv]
    · rw [legacySync_vault, hv]

theorem legacySync_accepted {key : κ} {x : VaultItem} (hx : Holds W key encryptedVault x) :
    (legacySync W readings server encryptedVault u remote baseRevision mergedVault storage plans).Accepted R W server
        key x ↔
      (∃ plan ∈ plans, TakesItem R server key plan x) ∨
        (remote.serverRevision = baseRevision ∧
          ∃ revision, server.pushVault (encryptedVaultToSyncRequest W encryptedVault u baseRevision readings.now) =
            .ok revision) := by
  unfold legacySync SyncRun.Accepted
  by_cases hr : remote.serverRevision = baseRevision
  · rw [if_neg (not_not.mpr hr)]
    have hsent (run : SyncRun κ σ) (hp : run.plans = plans)
        (hv : run.vaults = [(encryptedVault, encryptedVaultToSyncRequest W encryptedVault u baseRevision readings.now)]) :
        (∃ plan ∈ run.plans, TakesItem R server key plan x) ∨ (∃ sent ∈ run.vaults, TakesVault W server key sent x) ↔
          (∃ plan ∈ plans, TakesItem R server key plan x) ∨
            (remote.serverRevision = baseRevision ∧
              ∃ revision, server.pushVault (encryptedVaultToSyncRequest W encryptedVault u baseRevision readings.now) =
                .ok revision) := by
      rw [hp, hv]
      simp only [List.mem_singleton, exists_eq_left, TakesVault, hx, and_true, hr, true_and]
    dsimp only
    split
    · exact hsent _ rfl rfl
    · exact hsent _ rfl rfl
  · rw [if_pos hr]
    simp [hr]

theorem itemSynced_accepted {key : κ} {x : VaultItem} {active : EncryptedLocalVault σ}
    {synced : Option VaultItemCiphertext} {result : ItemLevelSyncResult κ} (hx : ¬ Holds W key active x) :
    (itemSynced W readings server active u synced storage plans result).Accepted R W server key x ↔
      ∃ plan ∈ plans, TakesItem R server key plan x := by
  unfold itemSynced SyncRun.Accepted
  split
  · simp
  · dsimp only
    split
    · simp [TakesVault, hx]
    · simp

/-- With a merged vault: the server takes the edit from the plan, or from the
vault as it was, which is sent where the item push brings no answer. -/
theorem pushMerged_accepted {key : κ} {x : VaultItem} {sealed : EncryptedLocalVault σ} {merged : LegacyUnlockedVault κ}
    (hx : Holds W key encryptedVault x) (hm : ¬ Holds W key sealed x) :
    let plan := buildItemLevelSyncPlan R readings.draws merged.browser u storage.syncState
    (pushMerged R W readings server encryptedVault unlockedVault u remote baseRevision (some (sealed, merged))
        storage).Accepted R W server key x ↔
      (∃ built, plan = some built ∧ TakesItem R server key built.plan x) ∨
        ((plan.bind fun built => server.itemAnswer built.plan) = none ∧ remote.serverRevision = baseRevision ∧
          ∃ revision, server.pushVault (encryptedVaultToSyncRequest W encryptedVault u baseRevision readings.now) =
            .ok revision) := by
  dsimp only
  obtain ⟨-, hsent, hresult⟩ := performItemLevelSync_cases (R := R) readings.draws readings.now storage merged.browser u
    server.itemAnswer
  have hplans : (∃ plan ∈ ((buildItemLevelSyncPlan R readings.draws merged.browser u storage.syncState).map
        (·.plan)).toList, TakesItem R server key plan x) ↔
      ∃ built, buildItemLevelSyncPlan R readings.draws merged.browser u storage.syncState = some built ∧
        TakesItem R server key built.plan x := by
    simp only [Option.mem_toList, Option.map_eq_some_iff]
    constructor
    · rintro ⟨-, ⟨built, hb, rfl⟩, ht⟩
      exact ⟨built, hb, ht⟩
    · rintro ⟨built, hb, ht⟩
      exact ⟨built.plan, ⟨built, hb, rfl⟩, ht⟩
  unfold pushMerged
  simp only [Option.map_some, Option.some_or, Option.getD_some]
  split
  · rename_i result hr
    rw [itemSynced_accepted hm, hsent, hplans, ← hresult, hr]
    simp
  · rename_i hr
    rw [legacySync_accepted hx, hsent, hplans, ← hresult, hr]
    simp

/-! ## The edits -/

/-- What the vault provider holds after an edit: the stored vault is the one
that was sealed last, and it opens to the items that are unlocked. -/
structure Deps.Open (W : WebCrypto κ σ) (deps : Deps κ σ) (storage : Storage σ) (key : κ) (items : List VaultItem) :
    Prop where
  stored : storage.vault = deps.encryptedVault
  opens : ∀ encrypted, deps.encryptedVault = some encrypted →
    ∃ snapshot, W.decryptSnapshot key encrypted.cipher = some snapshot ∧ snapshot.items = items
  present : deps.encryptedVault.isSome
  unlocked : ∀ v, deps.unlockedVault = some v → v.key = key ∧ v.snapshot.items = items

/-- A run that merges: the vault is unlocked and what was pulled can be decrypted. -/
structure Merging (R : Runtime κ) (pull : Except String SyncPullResponse) (deps : Deps κ σ)
    (encryptedVault : EncryptedLocalVault σ) (v : LegacyUnlockedVault κ) (u : UserId) (remote : SyncPullResponse) :
    Prop where
  encrypted : deps.encryptedVault = some encryptedVault
  unlocked : deps.unlockedVault = some v
  user : deps.user = some u
  csrf : deps.csrfToken ≠ ""
  pulled : pull = .ok remote
  decrypts : Decrypts R v.browser remote.items

/-- The client and the answer to the pull put another version in the place of `x`. -/
def Overwrites (R : Runtime κ) (pull : Except String SyncPullResponse) (deps : Deps κ σ) (x : VaultItem) : Prop :=
  ∃ encryptedVault v u remote, Merging R pull deps encryptedVault v u remote ∧ Overwritten R v.browser remote.items x

def mergedPlan (R : Runtime κ) (readings : Readings) (storage : Storage σ) (v : LegacyUnlockedVault κ) (u : UserId)
    (remote : SyncPullResponse) : Option BuiltPlan :=
  let (storage, merged) := mergeRemoteItems R readings.now storage v remote.items
  buildItemLevelSyncPlan R readings.draws merged.vault.browser u storage.syncState

def refusing (pull : Except String SyncPullResponse) : Server where
  pullVault := pull
  pushItemLevelSync _ := none
  itemAnswerArrives := false
  pushVault _ := .error "sync_conflict"
  vaultAnswerArrives := false

/-- A pending mutation that carries `x` is sent again, and the server takes it. -/
def Resent (R : Runtime κ) (readings : Readings) (server : Server) (storage : Storage σ) (v : LegacyUnlockedVault κ)
    (u : UserId) (remote : SyncPullResponse) (x : VaultItem) : Prop :=
  ∃ p up built response, storage.pendingMutations.get? x.id = some p ∧ p.upsert = some up ∧ Carries R v.key up x ∧
    mergedPlan R readings storage v u remote = some built ∧ up ∈ built.plan.upserts ∧
    server.pushItemLevelSync built.plan = some response ∧ up.id ∈ response.applied.upsertedItemIds

/-- The item push brings no answer, nothing has changed on the server since the
last sync, and it takes the vault as it was before the merge. -/
def FallsBack (R : Runtime κ) (W : WebCrypto κ σ) (readings : Readings) (server : Server) (storage : Storage σ)
    (encryptedVault : EncryptedLocalVault σ) (v : LegacyUnlockedVault κ) (u : UserId) (remote : SyncPullResponse) : Prop :=
  ((mergedPlan R readings storage v u remote).bind fun built => server.itemAnswer built.plan) = none ∧
    remote.serverRevision = storage.serverRevision ∧
    ∃ revision, server.pushVault (encryptedVaultToSyncRequest W encryptedVault u storage.serverRevision readings.now) =
      .ok revision

variable {deps : Deps κ σ} {v : LegacyUnlockedVault κ}

theorem undecryptable_vault (hne : v.snapshot.items ≠ []) {failedItemIds : List ItemId} :
    (undecryptable W v failedItemIds remote storage).storage.vault = storage.vault := by
  unfold undecryptable
  dsimp only
  split
  · rfl
  · rw [if_neg (by rwa [List.isEmpty_iff])]

theorem mergeRemoteItems_eq (now : String) (storage : Storage σ) (v : LegacyUnlockedVault κ)
    (items : List VaultItemCiphertext) :
    mergeRemoteItems R now storage v items =
      ({ storage with itemRevisions := (mergeOf R now v storage.itemRevisions items).revisionMap },
        mergeOf R now v storage.itemRevisions items) := rfl

theorem performSync_merging (m : Merging R server.pullVault deps encryptedVault v u remote) (hne : remote.items ≠ []) :
    let merged := mergeOf R readings.now v storage.itemRevisions remote.items
    let persisted := persistUnlockedVault W { storage with itemRevisions := merged.revisionMap } merged.vault
      readings.nonce readings.now
    performSync R W readings server deps storage =
      pushMerged R W readings server encryptedVault (some v) u remote storage.serverRevision (some persisted.2)
        persisted.1 := by
  have hf : (mergeOf R readings.now v storage.itemRevisions remote.items).failedItemIds.isEmpty = true :=
    List.isEmpty_iff.mpr ((mergeOf_failed remote.items).mpr m.decrypts)
  have he : ¬ remote.items.isEmpty = true := by rwa [List.isEmpty_iff]
  unfold performSync
  rw [m.encrypted, m.user]
  dsimp only
  rw [if_neg m.csrf, m.pulled]
  dsimp only
  rw [m.unlocked]
  dsimp only
  rw [if_neg he, mergeRemoteItems_eq]
  dsimp only
  rw [if_pos hf]

/-- A run that does not merge leaves a vault with items as it is. -/
theorem performSync_vault (hitems : ∀ v, deps.unlockedVault = some v → v.snapshot.items ≠ [])
    (hm : ∀ encryptedVault v u remote, Merging R server.pullVault deps encryptedVault v u remote → remote.items = []) :
    (performSync R W readings server deps storage).storage.vault = storage.vault := by
  unfold performSync
  split
  · rfl
  · rfl
  · rename_i encryptedVault u henc huser
    split_ifs with hcsrf
    · rfl
    split
    · rfl
    · rename_i remote hpull
      dsimp only
      split
      · exact pushMerged_vault
      · rename_i v hv
        split_ifs with he hf
        · exact pushMerged_vault
        · have hd := (mergeOf_failed remote.items).mp (List.isEmpty_iff.mp hf)
          have hnil := hm encryptedVault v u remote ⟨henc, hv, huser, hcsrf, hpull, hd⟩
          exact absurd (List.isEmpty_iff.mpr hnil) he
        · exact undecryptable_vault (hitems v hv)

theorem holds_sealed
    (hW : ∀ key snapshot nonce, W.decryptSnapshot key (W.encryptSnapshot key snapshot nonce) = some snapshot)
    (v : LegacyUnlockedVault κ) (nonce now : String) (x : VaultItem) :
    Holds W v.key (sealUnlockedVault W v nonce now) x ↔ x ∈ v.snapshot.items := by
  unfold Holds sealUnlockedVault
  rw [hW]
  constructor
  · rintro ⟨snapshot, hs, hx⟩
    cases hs
    exact hx
  · intro hx
    exact ⟨_, rfl, hx⟩

/-- A run that merges, when an edit is overwritten. -/
theorem merging_accepted (hR : Authentic R)
    (hW : ∀ key snapshot nonce, W.decryptSnapshot key (W.encryptSnapshot key snapshot nonce) = some snapshot)
    (m : Merging R server.pullVault deps encryptedVault v u remote) (hne : remote.items ≠ []) {x : VaultItem}
    (hx : Holds W v.key encryptedVault x)
    (hlost : x ∉ (mergeOf R readings.now v storage.itemRevisions remote.items).vault.snapshot.items) :
    (performSync R W readings server deps storage).Accepted R W server v.key x ↔
      Resent R readings server storage v u remote x ∨
        FallsBack R W readings server storage encryptedVault v u remote := by
  have hkey := mergeOf_key R v readings.now storage.itemRevisions remote.items
  have hsealed := holds_sealed hW (mergeOf R readings.now v storage.itemRevisions remote.items).vault readings.nonce
    readings.now x
  rw [hkey] at hsealed
  rw [performSync_merging m hne]
  refine (pushMerged_accepted hx (hsealed.not.mpr hlost)).trans (or_congr ⟨?_, ?_⟩ Iff.rfl)
  · rintro ⟨built, hb, response, hr, up, hup, hid, hc⟩
    have hc' := hkey.symm ▸ hc
    rcases plan_carries hR hb hup hc' with hin | ⟨p, hp, hpu⟩
    · exact absurd hin hlost
    · exact ⟨p, up, built, response, hp, hpu, hc, hb, hup, hr, hid⟩
  · rintro ⟨p, up, built, response, -, -, hc, hb, hup, hr, hid⟩
    exact ⟨built, hb, response, hr, up, hup, hid, hc⟩

variable {key : κ} {items edits : List VaultItem} {x : VaultItem}

theorem Merging.unique {pull : Except String SyncPullResponse} {encryptedVault encryptedVault' : EncryptedLocalVault σ}
    {v v' : LegacyUnlockedVault κ} {u u' : UserId} {remote remote' : SyncPullResponse}
    (m : Merging R pull deps encryptedVault v u remote) (m' : Merging R pull deps encryptedVault' v' u' remote') :
    encryptedVault' = encryptedVault ∧ v' = v ∧ u' = u ∧ remote' = remote :=
  ⟨Option.some.inj (m'.encrypted.symm.trans m.encrypted), Option.some.inj (m'.unlocked.symm.trans m.unlocked),
    Option.some.inj (m'.user.symm.trans m.user), Except.ok.inj (m'.pulled.symm.trans m.pulled)⟩

theorem Merging.overwrites (m : Merging R server.pullVault deps encryptedVault v u remote) :
    Overwrites R server.pullVault deps x ↔ Overwritten R v.browser remote.items x := by
  constructor
  · rintro ⟨_, _, _, _, m', ho⟩
    obtain ⟨-, rfl, -, rfl⟩ := m.unique m'
    exact ho
  · exact fun ho => ⟨_, _, _, _, m, ho⟩

section
variable (hW : ∀ key snapshot nonce, W.decryptSnapshot key (W.encryptSnapshot key snapshot nonce) = some snapshot)
variable (ho : deps.Open W storage key items)
include hW ho

/-- Whatever the server answers to the pushes, an edit stays in the stored vault unless it is overwritten. -/
theorem edit_stored (hx : x ∈ items) :
    (performSync R W readings server deps storage).Stored W key x ↔ ¬ Overwrites R server.pullVault deps x := by
  obtain ⟨encryptedVault, henc⟩ := Option.isSome_iff_exists.mp ho.present
  by_cases hm : ∃ v u remote, Merging R server.pullVault deps encryptedVault v u remote ∧ remote.items ≠ []
  · obtain ⟨v, u, remote, m, hne⟩ := hm
    obtain ⟨rfl, rfl⟩ := ho.unlocked v m.unlocked
    rw [m.overwrites, ← mem_merged readings.now storage.itemRevisions m.decrypts hx]
    unfold SyncRun.Stored
    rw [performSync_merging m hne, pushMerged_vault]
    have hkey := mergeOf_key R v readings.now storage.itemRevisions remote.items
    have hsealed := holds_sealed hW (mergeOf R readings.now v storage.itemRevisions remote.items).vault
      readings.nonce readings.now x
    rw [hkey] at hsealed
    rw [← hsealed]
    constructor
    · rintro ⟨vault, hv, hh⟩
      cases hv
      exact hh
    · intro hh
      exact ⟨_, rfl, hh⟩
  · have hnil (enc : EncryptedLocalVault σ) (v : LegacyUnlockedVault κ) (u : UserId) (remote : SyncPullResponse)
        (m : Merging R server.pullVault deps enc v u remote) : remote.items = [] := by
      by_contra hne
      obtain rfl := Option.some.inj (m.encrypted.symm.trans henc)
      exact hm ⟨v, u, remote, m, hne⟩
    have hstored : (performSync R W readings server deps storage).Stored W key x := by
      obtain ⟨snapshot, hs, hi⟩ := ho.opens encryptedVault henc
      refine ⟨encryptedVault, ?_, snapshot, hs, hi ▸ hx⟩
      rw [performSync_vault _ hnil, ho.stored, henc]
      intro v hv hempty
      rw [(ho.unlocked v hv).2] at hempty
      exact List.ne_nil_of_mem hx hempty
    refine iff_of_true hstored ?_
    rintro ⟨enc, v, u, remote, m, ⟨item, hi, -⟩, -⟩
    have hmem := (remoteVersion_mem hi).1
    rw [hnil enc v u remote m] at hmem
    cases hmem

/-- What becomes of an edit that is overwritten, with one server: a plan or the
old vault brings it there, or it is gone. -/
theorem edit_kept (hR : Authentic R) (hx : x ∈ items)
    (m : Merging R server.pullVault deps encryptedVault v u remote) (how : Overwritten R v.browser remote.items x) :
    ((performSync R W readings server deps storage).Stored W key x ∨
        (performSync R W readings server deps storage).Accepted R W server key x) ↔
      Resent R readings server storage v u remote x ∨
        FallsBack R W readings server storage encryptedVault v u remote := by
  obtain ⟨rfl, rfl⟩ := ho.unlocked v m.unlocked
  obtain ⟨snapshot, hs, hi⟩ := ho.opens encryptedVault m.encrypted
  have hne : remote.items ≠ [] := by
    obtain ⟨⟨item, hitem, -⟩, -⟩ := how
    exact List.ne_nil_of_mem (remoteVersion_mem hitem).1
  have hgone : ¬ (performSync R W readings server deps storage).Stored W v.key x :=
    (edit_stored hW ho hx).not.mpr (not_not.mpr (m.overwrites.mpr how))
  have hlost := (mem_merged readings.now storage.itemRevisions m.decrypts hx).not.mpr (not_not.mpr how)
  rw [← merging_accepted hR hW m hne ⟨snapshot, hs, hi ▸ hx⟩ hlost]
  exact or_iff_right hgone

/-- A sync keeps a set of edits whatever the server makes of the pushes, if and
only if nothing that was pulled overwrites one of them. -/
theorem legacy_sync_keeps_edits (hedits : edits ⊆ items) (pull : Except String SyncPullResponse) :
    (∀ server : Server, server.pullVault = pull → ∀ x ∈ edits,
        (performSync R W readings server deps storage).Stored W key x ∨
          (performSync R W readings server deps storage).Accepted R W server key x) ↔
      ∀ x ∈ edits, ¬ Overwrites R pull deps x := by
  constructor
  · intro hkeeps x hx
    -- a server that takes nothing leaves the stored vault alone to keep the edit
    have hrefused : ¬ (performSync R W readings (refusing pull) deps storage).Accepted R W (refusing pull) key x := by
      rintro (⟨_, -, _, ht, -⟩ | ⟨_, -, ⟨_, ht⟩, -⟩)
      · cases ht
      · cases ht
    exact (edit_stored hW ho (hedits hx)).mp ((hkeeps (refusing pull) rfl x hx).resolve_right hrefused)
  · rintro hno server rfl x hx
    exact .inl ((edit_stored hW ho (hedits hx)).mpr (hno x hx))

end

end

/-! ## An edit that is overwritten -/

def unknownEnvelope : CiphertextEnvelope := { sampleEnvelope with ciphertext := "CCCCCCCCCCCCCCCCCCCCCC" }

def twoNotes : Runtime Unit :=
  { sampleRuntime with
    encryptItem := fun _ item _ =>
      if item = firstNote ∨ item = secondNote then sampleBundle item else ⟨sampleEnvelope, unknownEnvelope⟩
    decryptItem := fun _ bundle _ => [firstNote, secondNote].find? fun item => sampleBundle item = bundle }

def plainCrypto : WebCrypto Unit VaultSnapshot where
  encryptSnapshot _ snapshot _ := snapshot
  decryptSnapshot _ snapshot := some snapshot
  nonce _ := ""
  encodeKdf _ := ""
  encodeVault _ := ""
  decodeVault _ := .error "invalid"

def editedSnapshot : VaultSnapshot := ⟨firstNote.createdAt, secondNote.updatedAt, [secondNote]⟩

def editedVault : LegacyUnlockedVault Unit := ⟨(), ⟨310000, ""⟩, editedSnapshot⟩

def editedSealed : EncryptedLocalVault VaultSnapshot := ⟨⟨310000, ""⟩, editedSnapshot, 1, secondNote.updatedAt⟩

def editedDeps : Deps Unit VaultSnapshot := ⟨some editedSealed, some editedVault, some sampleUser, "token"⟩

def editedStorage : Storage VaultSnapshot := ⟨some editedSealed, 0, ∅, none, [], ∅⟩

def sampleReadings : Readings := ⟨sampleDraws 'a', "", secondNote.updatedAt⟩

def pulledItem : VaultItemCiphertext :=
  { sampleUpsert.toVaultItemCiphertext with
    id := sampleId, revision := 1, encryptedPayload := (sampleBundle firstNote).encryptedPayload }

/-- A server that holds the given items at revision 1 and takes every item. -/
def serverWith (items : List VaultItemCiphertext) : Server where
  pullVault := .ok ⟨1, items, []⟩
  pushItemLevelSync := takesAll
  itemAnswerArrives := true
  pushVault _ := .error "sync_conflict"
  vaultAnswerArrives := true

theorem edited_open : editedDeps.Open plainCrypto editedStorage () [secondNote] where
  stored := rfl
  opens := by
    rintro encrypted he
    cases he
    exact ⟨editedSnapshot, rfl, rfl⟩
  present := rfl
  unlocked := by
    rintro v hv
    cases hv
    exact ⟨rfl, rfl⟩

theorem twoNotes_authentic : Authentic twoNotes := by
  intro key item nonces x h
  by_cases h1 : item = firstNote
  · subst h1
    exact (Option.some.inj h).symm
  by_cases h2 : item = secondNote
  · subst h2
    exact (Option.some.inj h).symm
  have henc : twoNotes.encryptItem key item nonces = ⟨sampleEnvelope, unknownEnvelope⟩ :=
    if_neg (not_or.mpr ⟨h1, h2⟩)
  have hnone : ([firstNote, secondNote].find? fun i => sampleBundle i = ⟨sampleEnvelope, unknownEnvelope⟩) = none := by
    decide
  rw [henc] at h
  exact absurd (hnone.symm.trans h) (Option.some_ne_none x).symm

def pulledEdit : VaultItemCiphertext :=
  { pulledItem with encryptedPayload := (sampleBundle secondNote).encryptedPayload }

/-- An edit that is pulled back as it is stays, also where the server takes no push. -/
theorem legacy_sync_keeps_edits_pulledBack :
    let server := refusing (.ok ⟨1, [pulledEdit], []⟩)
    (performSync twoNotes plainCrypto sampleReadings server editedDeps editedStorage).Stored plainCrypto () secondNote ∨
      (performSync twoNotes plainCrypto sampleReadings server editedDeps editedStorage).Accepted twoNotes plainCrypto
        server () secondNote := by
  refine (legacy_sync_keeps_edits (fun _ _ _ => rfl) edited_open (List.Subset.refl _) (.ok ⟨1, [pulledEdit], []⟩)).mpr
    ?_ _ rfl secondNote List.mem_cons_self
  rintro x hx ⟨encryptedVault, v, u, remote, m, ⟨item, hi, hne⟩, -⟩
  cases m.pulled
  cases m.unlocked
  obtain rfl := List.mem_singleton.mp hx
  obtain rfl := List.mem_singleton.mp (remoteVersion_mem hi).1
  exact hne (by decide +kernel)

/-- An edited note, and a server that holds the note as it was and takes every item: the edit is gone. -/
theorem edit_overwritten :
    ¬ ∀ (κ σ : Type) (R : Runtime κ) (W : WebCrypto κ σ) (readings : Readings) (server : Server) (deps : Deps κ σ)
        (storage : Storage σ) (key : κ) (items : List VaultItem), Authentic R →
      (∀ key snapshot nonce, W.decryptSnapshot key (W.encryptSnapshot key snapshot nonce) = some snapshot) →
      deps.Open W storage key items → ∀ x ∈ items,
        (performSync R W readings server deps storage).Stored W key x ∨
          (performSync R W readings server deps storage).Accepted R W server key x := by
  intro hall
  have hkept := hall Unit VaultSnapshot twoNotes plainCrypto sampleReadings (serverWith [pulledItem]) editedDeps
    editedStorage () [secondNote] twoNotes_authentic (fun _ _ _ => rfl) edited_open secondNote List.mem_cons_self
  have hpulled : version twoNotes editedVault.browser pulledItem = some firstNote := by decide +kernel
  have m : Merging twoNotes (serverWith [pulledItem]).pullVault editedDeps editedSealed editedVault sampleUser
      ⟨1, [pulledItem], []⟩ := by
    refine ⟨rfl, rfl, rfl, by decide, rfl, ?_⟩
    rintro item hitem -
    rw [List.mem_singleton.mp hitem, hpulled]
    rfl
  have how : Overwritten twoNotes editedVault.browser [pulledItem] secondNote := by
    refine ⟨⟨pulledItem, by decide, ?_⟩, by decide⟩
    rw [hpulled]
    decide
  rcases (edit_kept (fun _ _ _ => rfl) edited_open twoNotes_authentic List.mem_cons_self m how).mp hkept with
    ⟨p, up, built, response, hp, -⟩ | ⟨-, hr, -⟩
  · cases hp
  · exact absurd hr (by decide)

end ZeroVault.Legacy

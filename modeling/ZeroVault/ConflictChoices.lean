import ZeroVault.FeedIsTable
import ZeroVault.FeedPages
import ZeroVault.NoSelfConflict

/-!
# Resolving a conflict in the extension

`resolveConflict` looks the item's last change up in the feed, applies a choice
to what is stored and starts a run. Whatever the choice, the base that the next
plan names is the revision that the server has.
-/

namespace ZeroVault.Browser

open Lib

/-! ## `resolveConflict` -/

inductive Choice
  | localVersion
  | remote
  | copy
deriving DecidableEq, Repr

structure CopyDraw where
  randomUUID : ItemId
  createdAt : String
  updatedAt : String

section
variable {κ : Type} (R : Runtime κ) (u : UserId) (x : ItemId)

/-- The scan of the feed; each page is pulled from the database of its moment.
`none` where it throws. -/
def lookupConflict : List Db → Nat → Option ItemLevelChange → Option (Option ItemLevelChange)
  | [], _, _ => none
  | db :: dbs, cursor, remote =>
    match ((pullItemLevelSync R.formats u cursor DEFAULT_PULL_LIMIT).run db).2 with
    | .error _ => none
    | .ok pulled =>
      if pulled.cursor < cursor ∨ (pulled.hasMore ∧ pulled.cursor ≤ cursor) then none
      else
        let remote := pulled.changes.foldl (fun remote c => if c.change.itemId = x then some c.change else remote) remote
        if !pulled.hasMore then some remote else lookupConflict dbs pulled.cursor remote

def copyOf (item : VaultItem) (draw : CopyDraw) : VaultItem :=
  { item with
    id := draw.randomUUID
    title := item.title ++ "（副本）"
    createdAt := draw.createdAt
    updatedAt := draw.updatedAt }

def withCopy (choice : Choice) (draw : CopyDraw) (vault : UnlockedVault κ) : UnlockedVault κ :=
  match choice, vault.items.find? (·.id = x) with
  | .copy, some item => { vault with items := vault.items ++ [copyOf item draw] }
  | _, _ => vault

def applyChoice (choice : Choice) (remote : Option ItemLevelChange) (vault : UnlockedVault κ)
    (timestamps : Table ItemId String) : Option (UnlockedVault κ × Table ItemId String) :=
  if choice = .localVersion then some (vault, timestamps.erase x)
  else match remote with
    | some (.upsert item) =>
      if item.ownerUserId ≠ u then none
      else (decryptItemFromSync R vault item.encryptedItemKey item.encryptedPayload x).map fun plain =>
        ({ vault with items := vault.items.filter (·.id ≠ x) ++ [plain] }, timestamps.set x plain.updatedAt)
    | _ => some (deleteItem vault x, timestamps.erase x)

def resolvedRevision (choice : Choice) (remote : Option ItemLevelChange) : Option Nat :=
  remote.bind fun change =>
    if choice = .localVersion ∨ change.live?.isSome then some change.revision else none

def setOrDelete (revisions : Table ItemId Nat) (id : ItemId) : Option Nat → Table ItemId Nat
  | some revision => revisions.set id revision
  | none => revisions.erase id

/-- What is persisted before the next run; `none` where it throws. -/
def resolveConflict (choice : Choice) (draw : CopyDraw) (remote : Option ItemLevelChange) (c : Client κ) :
    Option (Client κ) :=
  if x ∉ c.sync.conflicts then none
  else (applyChoice R u x choice remote (withCopy x choice draw c.vault) c.sync.timestamps).map fun chosen =>
    { c with
      vault := chosen.1
      sync := { c.sync with
        timestamps := chosen.2
        revisions := setOrDelete c.sync.revisions x (resolvedRevision choice remote)
        pending := c.sync.pending.erase x
        conflicts := c.sync.conflicts.filter (· ≠ x) } }

end

/-! ## The scan -/

section
variable {κ : Type} {R : Runtime κ} {u : UserId} {x : ItemId}

theorem lastOf_changes (changes : List ItemLevelSyncChange) (remote : Option ItemLevelChange) :
    changes.foldl (fun remote c => if c.change.itemId = x then some c.change else remote) remote =
      (entriesOf x changes).getLast?.or remote := by
  induction changes using List.reverseRecOn with
  | nil => rfl
  | append_singleton changes c ih =>
    rw [List.foldl_append, ih, entriesOf_snoc]
    by_cases hid : c.change.itemId = x
    · rw [if_pos hid, List.getLast?_concat]
      exact if_pos hid
    · rw [if_neg hid, List.append_nil]
      exact if_neg hid

/-- The scan finds the last entry of the item. -/
theorem lookupConflict_last {dbs : List Db} {rows : List ItemSyncChangeRow} {cursor : Nat}
    {start found : Option ItemLevelChange} (ho : ∀ db ∈ dbs, OrderedFeed db.itemSyncChanges)
    (hrows : ∀ db ∈ dbs, db.itemSyncChanges.itemRows u x = rows)
    (hvalid : ∀ r ∈ rows, itemLevelSyncChangeSchema R.formats r.entry = true) (hord : Ordered ItemSyncChangeRow.cursor rows)
    (h : lookupConflict R u x dbs cursor start = some found) :
    found = (((rows.filter fun r => cursor < r.cursor).getLast?).map (·.change)).or start := by
  induction dbs generalizing cursor start with
  | nil => exact (nomatch h)
  | cons db dbs ih =>
    unfold lookupConflict at h
    split at h
    · exact (nomatch h)
    rename_i pulled hpulled
    split at h
    · exact (nomatch h)
    dsimp only at h
    rw [lastOf_changes] at h
    have hfeed := hrows db List.mem_cons_self
    have hcursor := (ho db List.mem_cons_self).1
    have hvalid' : ∀ r ∈ db.itemSyncChanges.itemRows u x, itemLevelSyncChangeSchema R.formats r.entry = true := hfeed ▸ hvalid
    have hentries : entriesOf x pulled.changes = (window ItemSyncChangeRow.cursor rows cursor pulled.cursor).map (·.change) := by
      rw [pull_run hpulled, pulled_entries hcursor hvalid', hfeed]
    rw [hentries, List.getLast?_map] at h
    rename_i hvalidCursor
    have hle : cursor ≤ pulled.cursor := Nat.not_lt.mp (not_or.mp hvalidCursor).1
    rw [filter_window hord hle, List.getLast?_append]
    split at h
    · rename_i hmore
      have hall : ∀ r ∈ rows, r.cursor ≤ pulled.cursor := by
        rw [pull_run hpulled] at hmore ⊢
        exact hfeed ▸ pulled_last hcursor (by simpa using hmore)
      have hrest : (rows.filter fun r => pulled.cursor < r.cursor) = [] :=
        List.filter_eq_nil_iff.mpr fun r hr hlt => Nat.not_lt.mpr (hall r hr) (of_decide_eq_true hlt)
      cases h
      rw [hrest]
      rfl
    · rw [ih (fun db hdb => ho db (List.mem_cons_of_mem _ hdb)) (fun db hdb => hrows db (List.mem_cons_of_mem _ hdb)) h,
        ← Option.or_assoc, Option.map_or]

end

/-! ## What is persisted -/

section
variable {κ : Type} {R : Runtime κ} {u : UserId} {x : ItemId} {choice : Choice} {draw : CopyDraw}
variable {remote : Option ItemLevelChange} {c c' : Client κ} {vault : UnlockedVault κ}

theorem find?_append {items : List VaultItem} {y : ItemId} :
    (UnlockedVault.mk vault.key (vault.items ++ items)).find? y = (vault.find? y).or (items.find? (·.id = y)) :=
  List.find?_append

theorem withCopy_eq (vault : UnlockedVault κ) :
    withCopy x choice draw vault = { vault with items := vault.items ++
      (if choice = .copy then ((vault.find? x).map (copyOf · draw)).toList else []) } := by
  unfold withCopy UnlockedVault.find?
  cases choice with
  | localVersion => simp
  | remote => simp
  | copy =>
    cases hfind : vault.items.find? (·.id = x) with
    | none => simp
    | some item => rfl

theorem decrypt_key {vault' : UnlockedVault κ} (h : vault'.key = vault.key) (e₁ e₂ : CiphertextEnvelope) (id : ItemId) :
    decryptItemFromSync R vault' e₁ e₂ id = decryptItemFromSync R vault e₁ e₂ id := by
  unfold decryptItemFromSync
  rw [h]

theorem find?_filter (y : ItemId) :
    (UnlockedVault.mk vault.key (vault.items.filter (·.id ≠ x))).find? y = if x = y then none else vault.find? y :=
  find?_deleteItem x

theorem applyChoice_frame {timestamps timestamps' : Table ItemId String} {vault' : UnlockedVault κ}
    (h : applyChoice R u x choice remote vault timestamps = some (vault', timestamps')) :
    vault'.key = vault.key ∧
      ∀ y, y ≠ x → timestamps'.get? y = timestamps.get? y ∧ vault'.find? y = vault.find? y := by
  have hremoved : ∀ y, y ≠ x → (timestamps.erase x).get? y = timestamps.get? y ∧
      (deleteItem vault x).find? y = vault.find? y := fun y hy =>
    ⟨(Table.get?_erase ..).trans (if_neg hy), (find?_deleteItem x).trans (if_neg (Ne.symm hy))⟩
  unfold applyChoice at h
  split at h
  · cases h
    exact ⟨rfl, fun y hy => ⟨(hremoved y hy).1, rfl⟩⟩
  split at h
  · split at h
    · cases h
    obtain ⟨plain, hplain, he⟩ := Option.map_eq_some_iff.mp h
    cases he
    refine ⟨rfl, fun y hy => ⟨(Table.get?_set ..).trans (if_neg hy), ?_⟩⟩
    have hid : plain.id = x := decrypt_id hplain
    have hother : [plain].find? (·.id = y) = none := by
      rw [List.find?_singleton, if_neg]
      rw [decide_eq_true_eq, hid]
      exact Ne.symm hy
    calc (UnlockedVault.mk vault.key (vault.items.filter (·.id ≠ x) ++ [plain])).find? y
        = ((UnlockedVault.mk vault.key (vault.items.filter (·.id ≠ x))).find? y).or ([plain].find? (·.id = y)) :=
          List.find?_append
      _ = vault.find? y := by rw [hother, Option.or_none, find?_filter, if_neg (Ne.symm hy)]
  · cases h
    exact ⟨rfl, hremoved⟩

theorem applyChoice_item {timestamps timestamps' : Table ItemId String} {vault' : UnlockedVault κ}
    (h : applyChoice R u x choice remote vault timestamps = some (vault', timestamps')) :
    (choice = .localVersion ∧ vault' = vault ∧ timestamps'.get? x = none) ∨
      (choice ≠ .localVersion ∧ ∃ row plain, remote = some (.upsert row) ∧
        decryptItemFromSync R vault row.encryptedItemKey row.encryptedPayload x = some plain ∧
        vault'.find? x = some plain ∧ timestamps'.get? x = some plain.updatedAt) ∨
      (choice ≠ .localVersion ∧ (∀ row, remote ≠ some (.upsert row)) ∧ vault'.find? x = none ∧
        timestamps'.get? x = none) := by
  have herased : (timestamps.erase x).get? x = none := (Table.get?_erase ..).trans (if_pos rfl)
  unfold applyChoice at h
  split at h
  · rename_i hlocal
    cases h
    exact .inl ⟨hlocal, rfl, herased⟩
  rename_i hchoice
  split at h
  · rename_i row
    split at h
    · cases h
    obtain ⟨plain, hplain, he⟩ := Option.map_eq_some_iff.mp h
    cases he
    refine .inr (.inl ⟨hchoice, row, plain, rfl, hplain, ?_, (Table.get?_set ..).trans (if_pos rfl)⟩)
    have hid : plain.id = x := decrypt_id hplain
    have hhere : [plain].find? (·.id = x) = some plain := by
      rw [List.find?_singleton, if_pos (decide_eq_true hid)]
    calc (UnlockedVault.mk vault.key (vault.items.filter (·.id ≠ x) ++ [plain])).find? x
        = ((UnlockedVault.mk vault.key (vault.items.filter (·.id ≠ x))).find? x).or ([plain].find? (·.id = x)) :=
          List.find?_append
      _ = some plain := by rw [hhere, find?_filter, if_pos rfl, Option.none_or]
  · rename_i hnone
    cases h
    exact .inr (.inr ⟨hchoice, fun row he => hnone row he, (find?_deleteItem x).trans (if_pos rfl), herased⟩)

inductive Chosen (R : Runtime κ) (x : ItemId) (choice : Choice) (remote : Option ItemLevelChange) (c c' : Client κ) : Prop
  | kept (is : choice = .localVersion) (vault : c'.vault = c.vault)
      (about : c'.sync.about x = (remote.map (·.revision), none, none))
  | taken (row : VaultItemCiphertext) (plain : VaultItem) (isnt : choice ≠ .localVersion)
      (is : remote = some (.upsert row))
      (decrypts : decryptItemFromSync R c.vault row.encryptedItemKey row.encryptedPayload x = some plain)
      (item : c'.vault.find? x = some plain) (about : c'.sync.about x = (some row.revision, some plain.updatedAt, none))
  | removed (isnt : choice ≠ .localVersion) (is : ∀ row, remote ≠ some (.upsert row)) (item : c'.vault.find? x = none)
      (about : c'.sync.about x = (none, none, none))

/-- What a resolution leaves alone. -/
structure Aside (x : ItemId) (choice : Choice) (draw : CopyDraw) (c c' : Client κ) : Prop where
  run : c'.run = c.run
  key : c'.vault.key = c.vault.key
  cursor : c'.sync.cursor = c.sync.cursor
  serverRevision : c'.sync.serverRevision = c.sync.serverRevision
  about : ∀ y, y ≠ x → c'.sync.about y = c.sync.about y
  conflicts : ∀ y, y ∈ c'.sync.conflicts ↔ y ∈ c.sync.conflicts ∧ y ≠ x
  items : ∀ y, y ≠ x → c'.vault.find? y = (withCopy x choice draw c.vault).find? y

theorem get?_setOrDelete {revisions : Table ItemId Nat} {r : Option Nat} (y : ItemId) :
    (setOrDelete revisions x r).get? y = if y = x then r else revisions.get? y := by
  cases r with
  | some r => exact Table.get?_set ..
  | none => exact Table.get?_erase ..

theorem resolveConflict_cases (h : resolveConflict R u x choice draw remote c = some c') :
    Chosen R x choice remote c c' ∧ Aside x choice draw c c' := by
  unfold resolveConflict at h
  split at h
  · exact (nomatch h)
  obtain ⟨⟨vault', timestamps⟩, hchosen, rfl⟩ := Option.map_eq_some_iff.mp h
  obtain ⟨hkey, hother⟩ := applyChoice_frame hchosen
  have hcopyKey : (withCopy x choice draw c.vault).key = c.vault.key := by rw [withCopy_eq]
  have hpending : (c.sync.pending.erase x).get? x = none := (Table.get?_erase ..).trans (if_pos rfl)
  refine ⟨?_, rfl, hkey.trans hcopyKey, rfl, rfl, fun y hy => ?_, fun y => ?_, fun y hy => (hother y hy).2⟩
  · have habout (r : Option Nat) (stamp : Option String) (hr : resolvedRevision choice remote = r)
        (hstamp : timestamps.get? x = stamp) :
        (setOrDelete c.sync.revisions x (resolvedRevision choice remote)).get? x = r ∧ timestamps.get? x = stamp ∧
          (c.sync.pending.erase x).get? x = none := ⟨by rw [get?_setOrDelete, if_pos rfl, hr], hstamp, hpending⟩
    have hpair {about : Option Nat × Option String × Option PendingItemMutation} {r : Option Nat} {stamp : Option String}
        (h : about.1 = r ∧ about.2.1 = stamp ∧ about.2.2 = none) : about = (r, stamp, none) :=
      Prod.ext h.1 (Prod.ext h.2.1 h.2.2)
    rcases applyChoice_item hchosen with ⟨rfl, rfl, hstamp⟩ | ⟨hchoice, row, plain, rfl, hplain, hitem, hstamp⟩ |
      ⟨hchoice, hremote, hitem, hstamp⟩
    · refine .kept rfl ?_ (hpair (habout _ _ ?_ hstamp))
      · show withCopy x .localVersion draw c.vault = c.vault
        rfl
      · cases remote <;> rfl
    · exact .taken row plain hchoice rfl ((decrypt_key hcopyKey _ _ _).symm.trans hplain) hitem
        (hpair (habout _ _ (if_pos (.inr rfl)) hstamp))
    · refine .removed hchoice hremote hitem (hpair (habout _ _ ?_ hstamp))
      cases remote with
      | none => rfl
      | some change =>
        cases change with
        | upsert row => exact absurd rfl (hremote row)
        | delete id n deletedAt => exact if_neg (not_or.mpr ⟨hchoice, Bool.false_ne_true⟩)
  · have hrevision : (setOrDelete c.sync.revisions x (resolvedRevision choice remote)).get? y = c.sync.revisions.get? y := by
      rw [get?_setOrDelete, if_neg hy]
    exact Prod.ext hrevision (Prod.ext (hother y hy).1 ((Table.get?_erase ..).trans (if_neg hy)))
  · simp [List.mem_filter]

end

end ZeroVault.Browser

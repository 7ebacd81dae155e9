import ZeroVault.DesktopWrites
import ZeroVault.OfflineQueue

/-!
# What a push of the offline queue accounts for

Where local storage and encryption work, all that the queue goes through is one
sequence of enqueues: the user's entries of each turn, the entries handed back
after a network failure, and the user's entries of the last refresh.
-/

namespace ZeroVault.Desktop

open Lib
open Browser (Runtime VaultItem)

/-! ## A sequence of enqueues -/

abbrev Enqueues := List (OfflineMutationEntry × StorageUse)

/-- The storage works, and nothing enqueued expires before `horizon`. -/
def Works (horizon : Nat) (use : StorageUse) : Prop := use.reads = true ∧ use.writes = none ∧ use.now ≤ horizon

def AllLive (horizon : Nat) (queue : Queue) : Prop := ∀ e ∈ queue, expired horizon e = false

def Sound (horizon : Nat) (added : Enqueues) : Prop := ∀ p ∈ added, Works horizon p.2 ∧ expired horizon p.1 = false

/-- Enqueued for an item of its own behind a full queue, an entry evicts the queue's head. -/
def Evicts (queue : Queue) (entry head : OfflineMutationEntry) : Prop :=
  queue.length = MAX_QUEUE_SIZE ∧ queue.head? = some head ∧ ∀ e ∈ queue, e.itemId ≠ entry.itemId

def Evicted (added : Enqueues) (queue : Queue) (entry : OfflineMutationEntry) : Prop :=
  ∃ pre e use post, added = pre ++ (e, use) :: post ∧ Evicts (userEnqueues pre queue) e entry

/-- The entry is in the queue that the enqueues leave, unless one of them has evicted it. -/
def Kept (added : Enqueues) (queue : Queue) (entry : OfflineMutationEntry) : Prop :=
  entry ∈ userEnqueues added queue ∨ Evicted added queue entry

section
variable {horizon : Nat} {use : StorageUse} {queue : Queue} {e x : OfflineMutationEntry} {added : Enqueues}

theorem allLive_nil : AllLive horizon [] := fun _ he => absurd he List.not_mem_nil

theorem mem_putEntry_self : e ∈ putEntry e queue := by
  induction queue with
  | nil => exact List.mem_singleton_self e
  | cons y queue ih =>
    unfold putEntry
    split
    · exact List.mem_cons_self
    · exact List.mem_cons_of_mem _ ih

theorem mem_putEntry (h : x ∈ putEntry e queue) : x = e ∨ x ∈ queue := by
  induction queue with
  | nil => exact .inl (List.mem_singleton.mp h)
  | cons y queue ih =>
    unfold putEntry at h
    split at h
    · rcases List.mem_cons.mp h with h | h
      · exact .inl h
      · exact .inr (List.mem_cons_of_mem _ h)
    · rcases List.mem_cons.mp h with rfl | h
      · exact .inr List.mem_cons_self
      · exact (ih h).imp_right (List.mem_cons_of_mem _)

theorem mem_putEntry_other (hx : x ∈ queue) (hne : x.itemId ≠ e.itemId) : x ∈ putEntry e queue := by
  induction queue with
  | nil => cases hx
  | cons y queue ih =>
    unfold putEntry
    split
    · rename_i hy
      rcases List.mem_cons.mp hx with rfl | hx
      · exact absurd hy hne
      · exact List.mem_cons_of_mem _ hx
    · rcases List.mem_cons.mp hx with rfl | hx
      · exact List.mem_cons_self
      · exact List.mem_cons_of_mem _ (ih hx)

theorem length_putEntry (h : ∃ y ∈ queue, y.itemId = e.itemId) : (putEntry e queue).length = queue.length := by
  induction queue with
  | nil => simp at h
  | cons y queue ih =>
    unfold putEntry
    split
    · rfl
    · rename_i hne
      obtain ⟨z, hz, hid⟩ := h
      rcases List.mem_cons.mp hz with rfl | hz
      · exact absurd hid hne
      · exact congrArg (· + 1) (ih ⟨z, hz, hid⟩)

theorem putEntry_new (h : ∀ y ∈ queue, y.itemId ≠ e.itemId) : putEntry e queue = queue ++ [e] := by
  induction queue with
  | nil => rfl
  | cons y queue ih =>
    unfold putEntry
    rw [if_neg (h y List.mem_cons_self), ih fun z hz => h z (List.mem_cons_of_mem _ hz)]
    rfl

theorem dropOldest_fits (h : queue.length ≤ MAX_QUEUE_SIZE) : dropOldest queue = queue := by
  unfold dropOldest
  rw [Nat.sub_eq_zero_of_le h]
  rfl

theorem length_dropOldest : (dropOldest queue).length ≤ MAX_QUEUE_SIZE := by
  unfold dropOldest
  rw [List.length_drop]
  omega

/-- What an enqueue does: nothing is dropped, or the head of a full queue is. -/
theorem dropOldest_putEntry (hb : queue.length ≤ MAX_QUEUE_SIZE) :
    dropOldest (putEntry e queue) = putEntry e queue ∨
      ∃ head rest, queue = head :: rest ∧ Evicts queue e head ∧ dropOldest (putEntry e queue) = rest ++ [e] := by
  by_cases hold : ∃ y ∈ queue, y.itemId = e.itemId
  · exact .inl (dropOldest_fits (by rw [length_putEntry hold]; exact hb))
  · have hnew : ∀ y ∈ queue, y.itemId ≠ e.itemId := fun y hy hid => hold ⟨y, hy, hid⟩
    rw [putEntry_new hnew]
    rcases Nat.lt_or_eq_of_le hb with hlt | hfull
    · exact .inl (dropOldest_fits (by rw [List.length_append]; exact hlt))
    · cases queue with
      | nil => cases hfull
      | cons head rest =>
        refine .inr ⟨head, rest, rfl, ⟨hfull, rfl, hnew⟩, ?_⟩
        unfold dropOldest
        rw [List.length_append, hfull, List.length_singleton, Nat.add_sub_cancel_left]
        rfl

theorem enqueued_self (hb : queue.length ≤ MAX_QUEUE_SIZE) : e ∈ dropOldest (putEntry e queue) := by
  rcases dropOldest_putEntry hb with heq | ⟨head, rest, -, -, heq⟩
  · rw [heq]
    exact mem_putEntry_self
  · rw [heq]
    exact List.mem_append_right _ (List.mem_singleton_self e)

theorem enqueued_other (hb : queue.length ≤ MAX_QUEUE_SIZE) (hx : x ∈ queue) (hne : x.itemId ≠ e.itemId) :
    x ∈ dropOldest (putEntry e queue) ∨ Evicts queue e x := by
  rcases dropOldest_putEntry (e := e) hb with heq | ⟨head, rest, rfl, hevicts, heq⟩
  · rw [heq]
    exact .inl (mem_putEntry_other hx hne)
  · rcases List.mem_cons.mp hx with rfl | hx
    · exact .inr hevicts
    · rw [heq]
      exact .inl (List.mem_append_left _ hx)

theorem cleanExpired_live (hq : AllLive horizon queue) {now : Nat} (hn : now ≤ horizon) : cleanExpired now queue = queue := by
  refine List.filter_eq_self.mpr fun e he => ?_
  have hlive := hq e he
  simp only [expired, decide_eq_false_iff_not, Bool.not_eq_true'] at hlive ⊢
  omega

theorem enqueue_eq (hq : AllLive horizon queue) (hw : Works horizon use) :
    enqueueOfflineMutation use e queue = .ok (dropOldest (putEntry e queue)) := by
  obtain ⟨hreads, hwrites, hnow⟩ := hw
  unfold enqueueOfflineMutation readQueue
  rw [hwrites, hreads]
  simp only [if_true]
  rw [cleanExpired_live hq hnow]

theorem enqueue_live (hq : AllLive horizon queue) (he : expired horizon e = false) :
    AllLive horizon (dropOldest (putEntry e queue)) := by
  intro x hx
  rcases mem_putEntry (List.mem_of_mem_drop hx) with rfl | hx
  · exact he
  · exact hq x hx

theorem userEnqueues_cons (hq : AllLive horizon queue) (hw : Works horizon use) :
    userEnqueues ((e, use) :: added) queue = userEnqueues added (dropOldest (putEntry e queue)) := by
  have hstep : (enqueueOfflineMutation use e queue).toOption.getD queue = dropOldest (putEntry e queue) := by
    rw [enqueue_eq hq hw, Except.toOption, Option.getD]
  simp only [userEnqueues, List.foldl_cons, hstep]

theorem userEnqueues_append (added added' : Enqueues) (queue : Queue) :
    userEnqueues (added ++ added') queue = userEnqueues added' (userEnqueues added queue) := List.foldl_append

theorem userEnqueues_fits (hs : Sound horizon added) (hq : AllLive horizon queue) (hb : queue.length ≤ MAX_QUEUE_SIZE) :
    (userEnqueues added queue).length ≤ MAX_QUEUE_SIZE := by
  induction added generalizing queue with
  | nil => exact hb
  | cons p added ih =>
    obtain ⟨hw, he⟩ := hs p List.mem_cons_self
    rw [userEnqueues_cons hq hw]
    exact ih (fun p' hp' => hs p' (List.mem_cons_of_mem _ hp')) (enqueue_live hq he) length_dropOldest

theorem userEnqueues_live (hs : Sound horizon added) (hq : AllLive horizon queue) :
    AllLive horizon (userEnqueues added queue) := by
  induction added generalizing queue with
  | nil => exact hq
  | cons p added ih =>
    obtain ⟨hw, he⟩ := hs p List.mem_cons_self
    rw [userEnqueues_cons hq hw]
    exact ih (fun p' hp' => hs p' (List.mem_cons_of_mem _ hp')) (enqueue_live hq he)

/-- What comes after an enqueue keeps what it keeps after all that went before. -/
theorem Kept.after {pre : Enqueues} {queue' : Queue} (hqueue : userEnqueues pre queue = queue') (h : Kept added queue' x) :
    Kept (pre ++ added) queue x := by
  subst hqueue
  rcases h with hx | ⟨pre', e, use, post, rfl, hevicts⟩
  · left
    rwa [userEnqueues_append]
  · refine .inr ⟨pre ++ pre', e, use, post, (List.append_assoc _ _ _).symm, ?_⟩
    rwa [userEnqueues_append]

theorem Kept.cons (hq : AllLive horizon queue) (hw : Works horizon use)
    (h : Kept added (dropOldest (putEntry e queue)) x) : Kept ((e, use) :: added) queue x := by
  have hone : userEnqueues [(e, use)] queue = dropOldest (putEntry e queue) := by
    rw [userEnqueues_cons hq hw, userEnqueues, List.foldl_nil]
  exact Kept.after hone h

theorem userEnqueues_kept (hs : Sound horizon added) (hq : AllLive horizon queue) (hb : queue.length ≤ MAX_QUEUE_SIZE)
    (hother : ∀ p ∈ added, p.1.itemId ≠ x.itemId) (hx : x ∈ queue) : Kept added queue x := by
  induction added generalizing queue with
  | nil => exact .inl hx
  | cons p added ih =>
    obtain ⟨hw, he⟩ := hs p List.mem_cons_self
    rcases enqueued_other hb hx fun h => hother p List.mem_cons_self h.symm with hx | hevicts
    · exact Kept.cons hq hw (ih (fun p' hp' => hs p' (List.mem_cons_of_mem _ hp')) (enqueue_live hq he)
        length_dropOldest (fun p' hp' => hother p' (List.mem_cons_of_mem _ hp')) hx)
    · exact .inr ⟨[], p.1, p.2, added, rfl, hevicts⟩

theorem userEnqueues_last {pre post : Enqueues} (hs : Sound horizon (pre ++ (e, use) :: post)) (hq : AllLive horizon queue)
    (hb : queue.length ≤ MAX_QUEUE_SIZE) (hlast : ∀ p ∈ post, p.1.itemId ≠ e.itemId) :
    Kept (pre ++ (e, use) :: post) queue e := by
  have hpre : Sound horizon pre := fun p hp => hs p (List.mem_append_left _ hp)
  have hpost : Sound horizon post := fun p hp => hs p (List.mem_append_right _ (List.mem_cons_of_mem _ hp))
  obtain ⟨hw, he⟩ := hs (e, use) (List.mem_append_right _ List.mem_cons_self)
  have hlive := userEnqueues_live hpre hq
  have hfits := userEnqueues_fits hpre hq hb
  exact Kept.after rfl (Kept.cons hlive hw (userEnqueues_kept hpost (enqueue_live hlive he) length_dropOldest hlast
    (enqueued_self hfits)))

theorem exists_last {α : Type} {P : α → Prop} {xs : List α} (h : ∃ x ∈ xs, P x) :
    ∃ pre x post, xs = pre ++ x :: post ∧ P x ∧ ∀ y ∈ post, ¬ P y := by
  induction xs with
  | nil => simp at h
  | cons x xs ih =>
    by_cases hxs : ∃ y ∈ xs, P y
    · obtain ⟨pre, y, post, rfl, hy, hpost⟩ := ih hxs
      exact ⟨x :: pre, y, post, rfl, hy, hpost⟩
    · obtain ⟨y, hy, hP⟩ := h
      rcases List.mem_cons.mp hy with rfl | hy
      · exact ⟨[], y, xs, rfl, hP, fun z hz hPz => hxs ⟨z, hz, hPz⟩⟩
      · exact absurd ⟨y, hy, hP⟩ hxs

/-- Of the entries enqueued for an item from one of them on, one is kept. -/
theorem userEnqueues_some {pre post : Enqueues} (hs : Sound horizon (pre ++ (e, use) :: post)) (hq : AllLive horizon queue)
    (hb : queue.length ≤ MAX_QUEUE_SIZE) :
    ∃ p ∈ (e, use) :: post, p.1.itemId = e.itemId ∧ Kept (pre ++ (e, use) :: post) queue p.1 := by
  obtain ⟨before, ⟨x, use'⟩, after, heq, hid, hlast⟩ :=
    @exists_last _ (fun p : OfflineMutationEntry × StorageUse => p.1.itemId = e.itemId) ((e, use) :: post)
      ⟨_, List.mem_cons_self, rfl⟩
  refine ⟨(x, use'), by simp [heq], hid, ?_⟩
  rw [heq, ← List.append_assoc] at hs ⊢
  refine userEnqueues_last hs hq hb fun p hp h => hlast p hp ?_
  exact h.trans hid

theorem requeueAll_eq {uses : Nat → StorageUse} (hw : ∀ n, Works horizon (uses n)) {entries : Queue}
    (he : AllLive horizon entries) (hq : AllLive horizon queue) (n : Nat) :
    requeueAll uses entries n queue =
      (userEnqueues (entries.zipIdx n |>.map fun p => (p.1, uses p.2)) queue, n + entries.length, none) := by
  induction entries generalizing n queue with
  | nil => rfl
  | cons e entries ih =>
    have he' : expired horizon e = false := he e List.mem_cons_self
    rw [requeueAll, enqueue_eq hq (hw n)]
    dsimp only
    rw [ih (fun x hx => he x (List.mem_cons_of_mem _ hx)) (enqueue_live hq he')]
    rw [List.zipIdx_cons, List.map_cons, userEnqueues_cons hq (hw n), List.length_cons]
    congr 2
    omega

end

/-! ## Conflict marks -/

def Marked (store : CiphertextStore) (id : ItemId) : Prop := ∃ item, store.getById id = some item ∧ item.hasConflict = true

section
variable {store : CiphertextStore} {id : ItemId}

theorem getById_upsert (item : StoredItem) :
    (store.upsert item).getById id = if id = item.itemId then some item else store.getById id := by
  unfold CiphertextStore.getById CiphertextStore.upsert
  rw [Table.get?_set]
  split
  · rename_i hid
    rw [hid]
    rfl
  · rfl

theorem getById_delete (itemId : ItemId) :
    (store.delete itemId).getById id = if id = itemId then none else store.getById id := by
  unfold CiphertextStore.getById CiphertextStore.delete
  rw [Table.get?_erase]
  split <;> rfl

theorem marked_getConflictIds : id ∈ store.getConflictIds ↔ Marked store id := by
  unfold CiphertextStore.getConflictIds Marked CiphertextStore.getById
  rw [List.mem_map]
  constructor
  · rintro ⟨⟨k, item⟩, hmem, rfl⟩
    obtain ⟨hget, hmark⟩ := Table.mem_select.mp hmem
    exact ⟨{ item with itemId := k }, by rw [hget]; rfl, hmark⟩
  · rintro ⟨_, hget, hmark⟩
    obtain ⟨item, hrow, rfl⟩ := Option.map_eq_some_iff.mp hget
    exact ⟨(id, item), Table.mem_select.mpr ⟨hrow, hmark⟩, rfl⟩

theorem getById_markConflict (itemId : ItemId) : (store.markConflict itemId).getById id =
    (store.getById id).map fun item => if id = itemId then { item with hasConflict := true } else item := by
  unfold CiphertextStore.markConflict CiphertextStore.getById
  rw [Table.get?_updateWhere, Option.map_map, Option.map_map]
  congr 1
  funext item
  by_cases hid : id = itemId <;> simp [hid]

theorem marked_markConflicts (ids : List ItemId) (hid : id ∈ ids ∨ Marked store id)
    (hrow : (store.getById id).isSome = true) : Marked (ids.foldl CiphertextStore.markConflict store) id := by
  induction ids generalizing store with
  | nil => exact hid.resolve_left (List.not_mem_nil)
  | cons itemId ids ih =>
    obtain ⟨item, hitem⟩ := Option.isSome_iff_exists.mp hrow
    have hmark := @getById_markConflict store id itemId
    rw [hitem, Option.map_some] at hmark
    refine ih ?_ (by rw [hmark]; rfl)
    by_cases hsame : id = itemId
    · exact .inr ⟨_, hmark, by simp [hsame]⟩
    · rw [if_neg hsame] at hmark
      rcases hid with hid | ⟨item', hitem', hmarked⟩
      · exact .inl ((List.mem_cons.mp hid).resolve_left hsame)
      · rw [hitem] at hitem'
        cases hitem'
        exact .inr ⟨item, hmark, hmarked⟩

theorem marked_setConflictIds {ids : List ItemId} (hid : id ∈ ids) (hrow : (store.getById id).isSome = true) :
    Marked (store.setConflictIds ids) id := by
  refine marked_markConflicts ids (.inl hid) ?_
  unfold CiphertextStore.clearConflicts CiphertextStore.getById at *
  rw [Table.get?_updateWhere, Option.isSome_map, Option.isSome_map]
  rwa [Option.isSome_map] at hrow

end

/-! ## One turn -/

structure Turn.LocalOk (turn : Turn) : Prop where
  encryptItem : turn.encryptItem = none
  getById : turn.getById = none
  getServerRevision : turn.getServerRevision = none
  searchTokens : turn.searchTokens = none
  getConflictIds : turn.getConflictIds = none
  setConflictIds : turn.setConflictIds = none
  setServerRevision : turn.setServerRevision = none
  storedTokens : turn.storedTokens = none
  upsert : turn.upsert = none
  delete : turn.delete = none
  setLastSyncedAt : turn.setLastSyncedAt = none

section
variable {κ : Type} (R : Runtime κ) (vaultKey : κ) (ownerUserId : UserId) (items : List VaultItem)

/-- What the request for an entry comes to; `none` where none is made. -/
def requestOf (turn : Turn) (store : CiphertextStore) (entry : OfflineMutationEntry) :
    Option (Except Thrown ItemLevelSyncPushResult) :=
  match entry.type with
  | .upsert => (items.find? (·.id = entry.itemId)).map fun item =>
      answerOf [409] (turn.fetch (updateItemPlan R vaultKey store item turn.nonces ownerUserId turn.now))
  | .delete => some (answerOf [409] (turn.fetch (deleteItemPlan store entry.itemId ownerUserId turn.now)))

variable {R vaultKey ownerUserId items} {turn : Turn}

theorem run_settle {α : Type} (k : Unit → StoreProg α) (store : CiphertextStore) :
    (settle none >>= k).run.run store = (k ()).run.run store := rfl

theorem run_readStore {α β : Type} (g : CiphertextStore → α) (k : α → StoreProg β) (store : CiphertextStore) :
    (readStore none g >>= k).run.run store = (k (g store)).run.run store := rfl

theorem run_answered {α : Type} (fetched : Fetch ItemLevelSyncPushResult) (k : ItemLevelSyncPushResult → StoreProg α)
    (store : CiphertextStore) : (answered fetched >>= k).run.run store =
      match answerOf [409] fetched with
      | .error thrown => (.error thrown, store)
      | .ok response => (k response).run.run store := by
  unfold answered
  cases answerOf [409] fetched <;> rfl

/-- The store after a push of an entry was answered with conflicts. -/
def noted (response : ItemLevelSyncPushResult) (store : CiphertextStore) : CiphertextStore :=
  (store.setConflictIds (store.getConflictIds ++ response.conflicts.map (·.itemId))).setServerRevision
    response.serverRevision

theorem run_noteConflicts {α : Type} (hok : turn.LocalOk) (response : ItemLevelSyncPushResult) (k : Unit → StoreProg α)
    (store : CiphertextStore) :
    (noteConflicts turn response >>= k).run.run store = (k ()).run.run (noted response store) := by
  unfold noteConflicts writeConflictIds
  rw [hok.getConflictIds, hok.setConflictIds, hok.setServerRevision]
  rfl

theorem run_pushUpsert (hok : turn.LocalOk) (item : VaultItem) (store : CiphertextStore) :
    (pushUpsert R vaultKey ownerUserId turn item).run.run store =
      match answerOf [409] (turn.fetch (updateItemPlan R vaultKey store item turn.nonces ownerUserId turn.now)) with
      | .error thrown => (.error thrown, store)
      | .ok response =>
        let existing := store.getById item.id
        let upsert := updateUpsert R vaultKey existing item turn.nonces ownerUserId turn.now
        (.ok (), if response.conflicts.isEmpty then
            ((store.upsert (storedUpsert upsert (if item.id ∈ response.applied.upsertedItemIds then response.serverRevision
              else currentRevision existing + 1) turn.now false none)).setServerRevision
                response.serverRevision).setLastSyncedAt turn.now
          else (noted response store).upsert
            (storedUpsert upsert (currentRevision existing) turn.now true (conflictOf response item.id))) := by
  unfold pushUpsert
  rw [hok.encryptItem, hok.getById, hok.getServerRevision, hok.searchTokens, run_settle, run_readStore, run_readStore,
    run_settle, run_answered]
  simp only [updateItemPlan]
  cases answerOf [409] (turn.fetch (upsertPlan store.serverRevision
    (updateUpsert R vaultKey (store.getById item.id) item turn.nonces ownerUserId turn.now))) with
  | error thrown => rfl
  | ok response =>
    dsimp only
    rw [hok.storedTokens, hok.upsert, hok.setServerRevision, hok.setLastSyncedAt]
    cases response.conflicts.isEmpty with
    | true => rfl
    | false => exact run_noteConflicts hok response _ store

theorem run_pushDelete (hok : turn.LocalOk) (itemId : ItemId) (store : CiphertextStore) :
    (pushDelete ownerUserId turn itemId).run.run store =
      match answerOf [409] (turn.fetch (deleteItemPlan store itemId ownerUserId turn.now)) with
      | .error thrown => (.error thrown, store)
      | .ok response =>
        (.ok (), if response.conflicts.isEmpty then
            ((store.delete itemId).setServerRevision response.serverRevision).setLastSyncedAt turn.now
          else match store.getById itemId with
            | some existing => (noted response store).upsert
                { existing with hasConflict := true, conflictServerItemRevision := conflictOf response itemId }
            | none => noted response store) := by
  unfold pushDelete
  rw [hok.getById, hok.getServerRevision, run_readStore, run_readStore, run_answered]
  simp only [deleteItemPlan]
  cases answerOf [409] (turn.fetch (deletePlan store.serverRevision itemId (currentRevision (store.getById itemId))
    ownerUserId turn.now)) with
  | error thrown => rfl
  | ok response =>
    dsimp only
    rw [hok.upsert, hok.delete, hok.setServerRevision, hok.setLastSyncedAt]
    cases response.conflicts.isEmpty with
    | true => rfl
    | false =>
      refine (run_noteConflicts hok response _ store).trans ?_
      cases store.getById itemId <;> rfl

/-! ## One entry -/

def turnResult : Option (Except Thrown ItemLevelSyncPushResult) → Except Thrown Unit
  | some (.error thrown) => .error thrown
  | _ => .ok ()

theorem marked_noted {response : ItemLevelSyncPushResult} {store : CiphertextStore} {id : ItemId} (h : Marked store id) :
    Marked (noted response store) id := by
  refine marked_setConflictIds (List.mem_append_left _ (marked_getConflictIds.mpr h)) ?_
  obtain ⟨item, hitem, -⟩ := h
  rw [hitem]
  rfl

theorem marked_upsert_other {store : CiphertextStore} {id : ItemId} {item : StoredItem} (hne : id ≠ item.itemId)
    (h : Marked store id) : Marked (store.upsert item) id := by
  obtain ⟨x, hx, hmark⟩ := h
  exact ⟨x, by rw [getById_upsert, if_neg hne, hx], hmark⟩

theorem marked_delete_other {store : CiphertextStore} {id itemId : ItemId} (hne : id ≠ itemId) (h : Marked store id) :
    Marked (store.delete itemId) id := by
  obtain ⟨x, hx, hmark⟩ := h
  exact ⟨x, by rw [getById_delete, if_neg hne, hx], hmark⟩

theorem marked_upsert_self {store : CiphertextStore} {item : StoredItem} (h : item.hasConflict = true) :
    Marked (store.upsert item) item.itemId := ⟨item, by rw [getById_upsert, if_pos rfl], h⟩

/-- A conflict is recorded on the row of its item, if there is one. -/
def Recordable (store : CiphertextStore) (entry : OfflineMutationEntry) : Prop :=
  entry.type = .upsert ∨ (store.getById entry.itemId).isSome = true

theorem run_pushEntry (hok : turn.LocalOk) (store : CiphertextStore) (entry : OfflineMutationEntry) :
    ∃ store', (pushEntry R vaultKey ownerUserId turn items entry).run.run store =
        (turnResult (requestOf R vaultKey ownerUserId items turn store entry), store') ∧
      (∀ id, id ≠ entry.itemId → Marked store id → Marked store' id) ∧
      ∀ response, requestOf R vaultKey ownerUserId items turn store entry = some (.ok response) →
        response.conflicts.isEmpty = false → Recordable store entry → Marked store' entry.itemId := by
  unfold pushEntry requestOf Recordable
  -- an upsert whose item is not in memory makes no request
  cases entry.type with
  | upsert =>
    dsimp only
    cases hitem : items.find? (·.id = entry.itemId) with
    | none => exact ⟨store, rfl, fun _ _ h => h, nofun⟩
    | some item =>
      have hid : item.id = entry.itemId := by simpa using List.find?_some hitem
      dsimp only [Option.map_some]
      rw [run_pushUpsert hok]
      cases answerOf [409] (turn.fetch (updateItemPlan R vaultKey store item turn.nonces ownerUserId turn.now)) with
      | error thrown => exact ⟨store, rfl, fun _ _ h => h, nofun⟩
      | ok response =>
        refine ⟨_, rfl, ?_, ?_⟩
        · intro id hne h
          rw [← hid] at hne
          cases response.conflicts.isEmpty with
          | true => exact marked_upsert_other hne h
          | false => exact marked_upsert_other hne (marked_noted h)
        · intro response' hr hc _
          cases hr
          rw [hc, ← hid]
          exact marked_upsert_self rfl
  | delete =>
    dsimp only
    rw [run_pushDelete hok]
    cases answerOf [409] (turn.fetch (deleteItemPlan store entry.itemId ownerUserId turn.now)) with
    | error thrown => exact ⟨store, rfl, fun _ _ h => h, nofun⟩
    | ok response =>
      refine ⟨_, rfl, ?_, ?_⟩
      · intro id hne h
        cases response.conflicts.isEmpty with
        | true => exact marked_delete_other hne h
        | false =>
          cases hrow : store.getById entry.itemId with
          | none => exact marked_noted h
          | some existing =>
            have hid := CiphertextStore.getById_itemId hrow
            refine marked_upsert_other ?_ (marked_noted h)
            rwa [← hid] at hne
      · intro response' hr hc hrow
        cases hr
        rw [hc]
        obtain ⟨existing, hexisting⟩ := Option.isSome_iff_exists.mp (hrow.resolve_left nofun)
        have hid := CiphertextStore.getById_itemId hexisting
        rw [hexisting, ← hid]
        exact marked_upsert_self rfl

/-! ## The loop -/

variable (R vaultKey ownerUserId items) in
/-- The store that the turn at position `i` finds. -/
def storeBefore (W : Pattern) (entries : Queue) (store : CiphertextStore) (i : Nat) : CiphertextStore :=
  (takeTurns R ownerUserId items vaultKey W (entries.take i) store).store

variable (R vaultKey ownerUserId items) in
def requestAt (W : Pattern) (entries : Queue) (store : CiphertextStore) (i : Nat) (entry : OfflineMutationEntry) :
    Option (Except Thrown ItemLevelSyncPushResult) :=
  requestOf R vaultKey ownerUserId items (W.turn i) (storeBefore R vaultKey ownerUserId items W entries store i) entry

def NetworkError (request : Option (Except Thrown ItemLevelSyncPushResult)) : Prop :=
  ∃ thrown, request = some (.error thrown) ∧ getErrorMessage thrown = "网络错误，请检查连接"

variable {W : Pattern} {entries : Queue} {store : CiphertextStore}

theorem takeTurns_snoc (e : OfflineMutationEntry) :
    takeTurns R ownerUserId items vaultKey W (entries ++ [e]) store =
      takeTurn R ownerUserId items vaultKey (W.turn entries.length)
        (takeTurns R ownerUserId items vaultKey W entries store) e := by
  unfold takeTurns
  rw [List.zipIdx_append, List.foldl_append]
  simp

theorem takeTurn_queue (l : Loop) (e : OfflineMutationEntry) :
    (takeTurn R ownerUserId items vaultKey turn l e).queue = userEnqueues turn.enqueued l.queue := by
  unfold takeTurn
  generalize (pushEntry R vaultKey ownerUserId turn items e).run.run l.store = r
  obtain ⟨result, store⟩ := r
  cases result with
  | ok _ => rfl
  | error thrown =>
    dsimp only
    split <;> rfl

def enqueuedInTurns (W : Pattern) (n : Nat) : Enqueues := (List.range n).flatMap fun i => (W.turn i).enqueued

theorem takeTurns_queue : (takeTurns R ownerUserId items vaultKey W entries store).queue =
    userEnqueues (enqueuedInTurns W entries.length) [] := by
  induction entries using List.reverseRecOn with
  | nil => rfl
  | append_singleton entries e ih =>
    rw [takeTurns_snoc, takeTurn_queue, ih, ← userEnqueues_append]
    congr 1
    unfold enqueuedInTurns
    rw [List.length_append, List.length_singleton, List.range_succ, List.flatMap_append]
    simp

theorem requestAt_before {i : Nat} (hi : i ≤ entries.length) (rest : Queue) (e : OfflineMutationEntry) :
    requestAt R vaultKey ownerUserId items W (entries ++ rest) store i e =
      requestAt R vaultKey ownerUserId items W entries store i e := by
  unfold requestAt storeBefore
  rw [List.take_append_of_le_length hi]

theorem takeTurn_local (hok : turn.LocalOk) (l : Loop) (e : OfflineMutationEntry) :
    ∃ store', (takeTurn R ownerUserId items vaultKey turn l e).store = store' ∧
      (∀ id, id ≠ e.itemId → Marked l.store id → Marked store' id) ∧
      (∀ response, requestOf R vaultKey ownerUserId items turn l.store e = some (.ok response) →
        response.conflicts.isEmpty = false → Recordable l.store e → Marked store' e.itemId) ∧
      ((NetworkError (requestOf R vaultKey ownerUserId items turn l.store e) ∧
          (takeTurn R ownerUserId items vaultKey turn l e).networkFailures = l.networkFailures ++ [e]) ∨
        (¬ NetworkError (requestOf R vaultKey ownerUserId items turn l.store e) ∧
          (takeTurn R ownerUserId items vaultKey turn l e).networkFailures = l.networkFailures)) := by
  obtain ⟨store', hrun, hothers, hself⟩ := @run_pushEntry κ R vaultKey ownerUserId items turn hok l.store e
  refine ⟨store', ?_, hothers, hself, ?_⟩
  · unfold takeTurn
    rw [hrun]
    cases turnResult (requestOf R vaultKey ownerUserId items turn l.store e) with
    | ok _ => rfl
    | error thrown =>
      dsimp only
      split <;> rfl
  · unfold takeTurn
    rw [hrun]
    rcases requestOf R vaultKey ownerUserId items turn l.store e with - | ⟨thrown | response⟩
    · exact .inr ⟨nofun, rfl⟩
    · by_cases hnet : getErrorMessage thrown = "网络错误，请检查连接"
      · refine .inl ⟨⟨thrown, rfl, hnet⟩, ?_⟩
        simp only [turnResult, hnet, if_true]
      · refine .inr ⟨?_, ?_⟩
        · rintro ⟨thrown', heq, hnet'⟩
          cases heq
          exact hnet hnet'
        · simp only [turnResult, hnet, if_false]
          rfl
    · exact .inr ⟨nofun, rfl⟩

/-- The turns hand back the entries whose request met a network error. -/
theorem takeTurns_failures (hok : ∀ i, (W.turn i).LocalOk) :
    (takeTurns R ownerUserId items vaultKey W entries store).networkFailures.Sublist entries ∧
      ∀ e, e ∈ (takeTurns R ownerUserId items vaultKey W entries store).networkFailures ↔
        ∃ i, entries[i]? = some e ∧ NetworkError (requestAt R vaultKey ownerUserId items W entries store i e) := by
  -- by the last turn: the turns before it do not depend on it
  induction entries using List.reverseRecOn with
  | nil => exact ⟨List.Sublist.refl _, fun e => ⟨nofun, by rintro ⟨i, hi, -⟩; simp at hi⟩⟩
  | append_singleton entries e ih =>
    obtain ⟨hsub, hmem⟩ := ih
    have hlast : requestAt R vaultKey ownerUserId items W (entries ++ [e]) store entries.length e =
        requestOf R vaultKey ownerUserId items (W.turn entries.length)
          (takeTurns R ownerUserId items vaultKey W entries store).store e := by
      unfold requestAt storeBefore
      rw [List.take_left]
    have hearlier : ∀ x i, (entries ++ [e])[i]? = some x ↔ entries[i]? = some x ∨ (i = entries.length ∧ e = x) := by
      intro x i
      by_cases hi : i < entries.length
      · rw [List.getElem?_append_left hi]
        simp [Nat.ne_of_lt hi]
      · rw [List.getElem?_append_right (Nat.not_lt.mp hi), List.getElem?_eq_none (Nat.not_lt.mp hi)]
        by_cases he : i = entries.length
        · simp [he]
        · have hpos : ¬ i - entries.length = 0 := by omega
          simp [he, hpos]
    have hpre : ∀ x i, entries[i]? = some x → requestAt R vaultKey ownerUserId items W (entries ++ [e]) store i x =
        requestAt R vaultKey ownerUserId items W entries store i x := by
      intro x i hi
      have hlt : i < entries.length := (List.getElem?_eq_some_iff.mp hi).1
      exact requestAt_before (Nat.le_of_lt hlt) [e] x
    rw [takeTurns_snoc]
    obtain ⟨-, -, -, -, hfail⟩ := @takeTurn_local κ R vaultKey ownerUserId items _ (hok entries.length)
      (takeTurns R ownerUserId items vaultKey W entries store) e
    have hmem' : ∀ x, (∃ i, (entries ++ [e])[i]? = some x ∧
        NetworkError (requestAt R vaultKey ownerUserId items W (entries ++ [e]) store i x)) ↔
        x ∈ (takeTurns R ownerUserId items vaultKey W entries store).networkFailures ∨
          (e = x ∧ NetworkError (requestOf R vaultKey ownerUserId items (W.turn entries.length)
            (takeTurns R ownerUserId items vaultKey W entries store).store e)) := by
      intro x
      rw [hmem]
      constructor
      · rintro ⟨i, hi, hnet⟩
        rcases (hearlier x i).mp hi with hi | ⟨rfl, rfl⟩
        · exact .inl ⟨i, hi, by rwa [hpre x i hi] at hnet⟩
        · exact .inr ⟨rfl, by rwa [hlast] at hnet⟩
      · rintro (⟨i, hi, hnet⟩ | ⟨rfl, hnet⟩)
        · exact ⟨i, (hearlier x i).mpr (.inl hi), by rwa [hpre x i hi]⟩
        · exact ⟨entries.length, (hearlier e _).mpr (.inr ⟨rfl, rfl⟩), by rwa [hlast]⟩
    rcases hfail with ⟨hnet, hfail⟩ | ⟨hnet, hfail⟩
    · rw [hfail]
      refine ⟨hsub.append (List.Sublist.refl _), fun x => ?_⟩
      rw [hmem', List.mem_append, List.mem_singleton]
      simp [hnet, eq_comm]
    · rw [hfail]
      refine ⟨hsub.trans (List.sublist_append_left _ _), fun x => ?_⟩
      rw [hmem']
      simp [hnet]

/-- The conflict of an entry stays recorded in the turns of other items. -/
theorem takeTurns_marked (hok : ∀ i, (W.turn i).LocalOk) (hn : (entries.map (·.itemId)).Nodup) {i : Nat}
    {e : OfflineMutationEntry} (hi : entries[i]? = some e) {response : ItemLevelSyncPushResult}
    (hr : requestAt R vaultKey ownerUserId items W entries store i e = some (.ok response))
    (hc : response.conflicts.isEmpty = false)
    (hrow : Recordable (storeBefore R vaultKey ownerUserId items W entries store i) e) :
    Marked (takeTurns R ownerUserId items vaultKey W entries store).store e.itemId := by
  induction entries using List.reverseRecOn with
  | nil => simp at hi
  | append_singleton entries last ih =>
    obtain ⟨store', hstore, hothers, hself, -⟩ := @takeTurn_local κ R vaultKey ownerUserId items _ (hok entries.length)
      (takeTurns R ownerUserId items vaultKey W entries store) last
    rw [takeTurns_snoc, hstore]
    rw [List.map_append, List.map_singleton] at hn
    by_cases hlt : i < entries.length
    · rw [List.getElem?_append_left hlt] at hi
      rw [requestAt_before (Nat.le_of_lt hlt)] at hr
      have hne : e.itemId ≠ last.itemId := by
        intro heq
        have hmem : e.itemId ∈ entries.map (·.itemId) := List.mem_map.mpr ⟨e, List.mem_of_getElem? hi, rfl⟩
        exact (List.nodup_append.mp hn).2.2 _ hmem _ (List.mem_singleton_self _) heq
      refine hothers _ hne (ih (List.nodup_append.mp hn).1 hi hr ?_)
      unfold storeBefore at hrow ⊢
      rwa [List.take_append_of_le_length (Nat.le_of_lt hlt)] at hrow
    · obtain ⟨rfl, rfl⟩ : i = entries.length ∧ last = e := by
        rw [List.getElem?_append_right (Nat.not_lt.mp hlt), List.getElem?_singleton] at hi
        split at hi
        · cases hi
          exact ⟨by omega, rfl⟩
        · cases hi
      unfold requestAt storeBefore at hr
      unfold storeBefore at hrow
      rw [List.take_left] at hr hrow
      exact hself response hr hc hrow

/-! ## The whole push -/

/-- Encryption and local storage work, and the run ends before `horizon`. -/
structure Pattern.LocalOk (W : Pattern) (horizon : Nat) : Prop where
  dequeue : Works horizon W.dequeue
  turn : ∀ i, (W.turn i).LocalOk
  enqueued : ∀ i, Sound horizon (W.turn i).enqueued
  requeue : ∀ i, Works horizon (W.requeue i)
  refresh : W.refresh = none
  enqueuedAtRefresh : Sound horizon W.enqueuedAtRefresh

/-- The entries handed back, with the storage each is enqueued in. -/
def handedBack (W : Pattern) (failures : Queue) : Enqueues := failures.zipIdx.map fun p => (p.1, W.requeue p.2)

theorem mem_handedBack {failures : Queue} {p : OfflineMutationEntry × StorageUse} (h : p ∈ handedBack W failures) :
    p.1 ∈ failures ∧ ∃ i, p.2 = W.requeue i := by
  obtain ⟨⟨e, i⟩, hmem, rfl⟩ := List.mem_map.mp h
  obtain ⟨-, -, he⟩ := List.mem_zipIdx hmem
  exact ⟨by simp [he], i, rfl⟩

theorem handedBack_split {failures : Queue} {e : OfflineMutationEntry} (he : e ∈ failures) :
    ∃ pre use post, handedBack W failures = pre ++ (e, use) :: post ∧
      (∀ p ∈ post, p.1 ∈ failures) := by
  obtain ⟨i, hi⟩ := List.mem_iff_getElem?.mp he
  have hmem : (e, W.requeue i) ∈ handedBack W failures := by
    refine List.mem_map.mpr ⟨(e, i), ?_, rfl⟩
    exact List.mk_mem_zipIdx_iff_getElem?.mpr hi
  obtain ⟨pre, post, heq⟩ := List.append_of_mem hmem
  refine ⟨pre, _, post, heq, fun p hp => ?_⟩
  have hp' : p ∈ handedBack W failures := by
    rw [heq]
    exact List.mem_append_right _ (List.mem_cons_of_mem _ hp)
  exact (mem_handedBack hp').1

theorem sound_append {horizon : Nat} {added added' : Enqueues} (h : Sound horizon added) (h' : Sound horizon added') :
    Sound horizon (added ++ added') := by
  intro p hp
  exact (List.mem_append.mp hp).elim (h p) (h' p)

section
variable {horizon : Nat} {d : Desk}

variable (R vaultKey ownerUserId items) in
/-- What goes through the queue after it is taken: the user's entries of the turns,
those handed back, and the user's of the last refresh. -/
def enqueuedMeanwhile (W : Pattern) (d : Desk) : Enqueues :=
  enqueuedInTurns W d.queue.length ++
    (handedBack W (takeTurns R ownerUserId items vaultKey W d.queue d.store).networkFailures ++ W.enqueuedAtRefresh)

theorem push_eq (hW : W.LocalOk horizon) (hlive : AllLive horizon d.queue) :
    Sound horizon (enqueuedMeanwhile R vaultKey ownerUserId items W d) ∧
      (pushOfflineQueue R ownerUserId items (some vaultKey) true W d).1 =
        ⟨(takeTurns R ownerUserId items vaultKey W d.queue d.store).store,
          userEnqueues (enqueuedMeanwhile R vaultKey ownerUserId items W d) []⟩ := by
  have hsub := (@takeTurns_failures κ R vaultKey ownerUserId items W d.queue d.store hW.turn).1
  have hfailures : AllLive horizon (takeTurns R ownerUserId items vaultKey W d.queue d.store).networkFailures :=
    fun e he => hlive e (hsub.subset he)
  have hturns : Sound horizon (enqueuedInTurns W d.queue.length) := by
    intro p hp
    obtain ⟨i, -, hp⟩ := List.mem_flatMap.mp hp
    exact hW.enqueued i p hp
  have hback : Sound horizon (handedBack W (takeTurns R ownerUserId items vaultKey W d.queue d.store).networkFailures) := by
    intro p hp
    obtain ⟨hmem, i, hi⟩ := mem_handedBack hp
    rw [hi]
    exact ⟨hW.requeue i, hfailures _ hmem⟩
  refine ⟨sound_append hturns (sound_append hback hW.enqueuedAtRefresh), ?_⟩
  have htaken : dequeueOfflineMutations W.dequeue d.queue = .ok d.queue := by
    obtain ⟨hreads, hwrites, hnow⟩ := hW.dequeue
    unfold dequeueOfflineMutations readQueue
    rw [hwrites, hreads]
    simp only [if_true]
    rw [cleanExpired_live hlive hnow]
  have hrequeue := requeueAll_eq hW.requeue hfailures (userEnqueues_live hturns allLive_nil) 0
  unfold pushOfflineQueue pushTaken enqueuedMeanwhile
  simp only [htaken]
  rw [takeTurns_queue, hrequeue, hW.refresh, userEnqueues_append, userEnqueues_append]
  rfl

end

def Confirmed (entry : OfflineMutationEntry) (answer : ItemLevelSyncPushResult) : Prop :=
  match entry.type with
  | .upsert => entry.itemId ∈ answer.applied.upsertedItemIds
  | .delete => entry.itemId ∈ answer.applied.deletedItemIds

def TimedOut (request : Option (Except Thrown ItemLevelSyncPushResult)) : Prop :=
  request = some (.error (.error "request_timeout"))

/-- An entry that the push gives up: its item is not decrypted, its request met an
error that is none of the network, its answer was about something else, or it
deletes an item in conflict that the store has no row for. -/
inductive GivenUp (store : CiphertextStore) (entry : OfflineMutationEntry) :
    Option (Except Thrown ItemLevelSyncPushResult) → Prop
  | notDecrypted : GivenUp store entry none
  | refused (thrown : Thrown) (hn : ¬ NetworkError (some (.error thrown))) (ht : ¬ TimedOut (some (.error thrown))) :
    GivenUp store entry (some (.error thrown))
  | unanswered (answer : ItemLevelSyncPushResult) (hc : answer.conflicts = []) (h : ¬ Confirmed entry answer) :
    GivenUp store entry (some (.ok answer))
  | noRow (answer : ItemLevelSyncPushResult) (hc : answer.conflicts ≠ []) (h : ¬ Recordable store entry) :
    GivenUp store entry (some (.ok answer))

/-- What became of the entry that a request was made for, unless the request timed
out; `added` went through the queue, and `later` are the entries of the user's that
may have taken its place. -/
def Accounted (store : CiphertextStore) (request : Option (Except Thrown ItemLevelSyncPushResult))
    (added later : Enqueues) (final : CiphertextStore) (entry : OfflineMutationEntry) : Prop :=
  (∃ answer, request = some (.ok answer) ∧ answer.conflicts = [] ∧ Confirmed entry answer) ∨
    Marked final entry.itemId ∨
    (∃ e, e.itemId = entry.itemId ∧ (e = entry ∨ ∃ use, (e, use) ∈ later) ∧ Kept added [] e) ∨
    GivenUp store entry request ∨ TimedOut request

section
variable {horizon : Nat} {d : Desk}

/-- The entry that met a network error is queued again, or a later one of the
user's for the same item. -/
theorem handed_back (hW : W.LocalOk horizon) (hlive : AllLive horizon d.queue) (hn : (d.queue.map (·.itemId)).Nodup)
    {i : Nat} {e : OfflineMutationEntry} (hi : d.queue[i]? = some e)
    (hnet : NetworkError (requestAt R vaultKey ownerUserId items W d.queue d.store i e)) :
    ∃ x, x.itemId = e.itemId ∧ (x = e ∨ ∃ use, (x, use) ∈ W.enqueuedAtRefresh) ∧
      Kept (enqueuedMeanwhile R vaultKey ownerUserId items W d) [] x := by
  obtain ⟨hsound, -⟩ := @push_eq κ R vaultKey ownerUserId items W horizon d hW hlive
  obtain ⟨hsub, hmem⟩ := @takeTurns_failures κ R vaultKey ownerUserId items W d.queue d.store hW.turn
  obtain ⟨pre, use, post, hsplit, hpost⟩ := @handedBack_split W _ e ((hmem e).mpr ⟨i, hi, hnet⟩)
  have hassoc : enqueuedMeanwhile R vaultKey ownerUserId items W d =
      (enqueuedInTurns W d.queue.length ++ pre) ++ (e, use) :: (post ++ W.enqueuedAtRefresh) := by
    simp [enqueuedMeanwhile, hsplit]
  rw [hassoc] at hsound ⊢
  obtain ⟨⟨x, use'⟩, hx, hid, hkept⟩ := userEnqueues_some hsound allLive_nil (Nat.zero_le _)
  refine ⟨x, hid, ?_, hkept⟩
  rcases List.mem_cons.mp hx with heq | hx
  · cases heq
    exact .inl rfl
  · rcases List.mem_append.mp hx with hx | hx
    · left
      exact (List.inj_on_of_nodup_map hn) (hsub.subset (hpost _ hx)) (List.mem_of_getElem? hi) hid
    · exact .inr ⟨use', hx⟩

theorem accounted (hW : W.LocalOk horizon) (hlive : AllLive horizon d.queue) (hn : (d.queue.map (·.itemId)).Nodup)
    {i : Nat} {e : OfflineMutationEntry} (hi : d.queue[i]? = some e) :
    Accounted (storeBefore R vaultKey ownerUserId items W d.queue d.store i)
      (requestAt R vaultKey ownerUserId items W d.queue d.store i e)
      (enqueuedMeanwhile R vaultKey ownerUserId items W d) W.enqueuedAtRefresh
      (pushOfflineQueue R ownerUserId items (some vaultKey) true W d).1.store e := by
  by_cases hnet : NetworkError (requestAt R vaultKey ownerUserId items W d.queue d.store i e)
  · exact .inr (.inr (.inl (handed_back hW hlive hn hi hnet)))
  by_cases htime : TimedOut (requestAt R vaultKey ownerUserId items W d.queue d.store i e)
  · exact .inr (.inr (.inr (.inr htime)))
  cases hr : requestAt R vaultKey ownerUserId items W d.queue d.store i e with
  | none => exact .inr (.inr (.inr (.inl .notDecrypted)))
  | some result =>
    rw [hr] at hnet htime
    cases result with
    | error thrown => exact .inr (.inr (.inr (.inl (.refused thrown hnet htime))))
    | ok answer =>
      by_cases hc : answer.conflicts = []
      · by_cases hconfirmed : Confirmed e answer
        · exact .inl ⟨answer, rfl, hc, hconfirmed⟩
        · exact .inr (.inr (.inr (.inl (.unanswered answer hc hconfirmed))))
      · by_cases hrow : Recordable (storeBefore R vaultKey ownerUserId items W d.queue d.store i) e
        · right
          left
          rw [(push_eq hW hlive).2]
          exact takeTurns_marked hW.turn hn hi hr (by simpa using hc) hrow
        · exact .inr (.inr (.inr (.inl (.noRow answer hc hrow))))

/-- The last of the user's entries for an item is kept, unless an entry for it is handed back after that. -/
theorem user_kept (hW : W.LocalOk horizon) (hlive : AllLive horizon d.queue) {pre post : Enqueues}
    {e : OfflineMutationEntry} {use : StorageUse}
    (hsplit : enqueuedInTurns W d.queue.length ++ W.enqueuedAtRefresh = pre ++ (e, use) :: post)
    (hlast : ∀ p ∈ post, p.1.itemId ≠ e.itemId)
    (hback : ∀ i x, d.queue[i]? = some x → x.itemId = e.itemId →
      ¬ NetworkError (requestAt R vaultKey ownerUserId items W d.queue d.store i x)) :
    Kept (enqueuedMeanwhile R vaultKey ownerUserId items W d) [] e := by
  obtain ⟨hsound, -⟩ := @push_eq κ R vaultKey ownerUserId items W horizon d hW hlive
  have hother : ∀ p ∈ handedBack W (takeTurns R ownerUserId items vaultKey W d.queue d.store).networkFailures,
      p.1.itemId ≠ e.itemId := by
    intro p hp heq
    obtain ⟨i, hi, hnet⟩ := ((takeTurns_failures hW.turn).2 p.1).mp (mem_handedBack hp).1
    exact hback i p.1 hi heq hnet
  unfold enqueuedMeanwhile at hsound ⊢
  -- the entry is one of the last refresh, or one of the turns, before what is handed back
  rcases List.append_eq_append_iff.mp hsplit with ⟨middle, rfl, hC⟩ | ⟨middle, hA, hmiddle⟩
  · rw [hC, ← List.append_assoc, ← List.append_assoc] at hsound ⊢
    exact userEnqueues_last hsound allLive_nil (Nat.zero_le _) hlast
  · cases middle with
    | nil =>
      rw [List.nil_append] at hmiddle
      rw [← hmiddle, ← List.append_assoc] at hsound ⊢
      exact userEnqueues_last hsound allLive_nil (Nat.zero_le _) hlast
    | cons p middle =>
      obtain ⟨rfl, rfl⟩ := List.cons.inj hmiddle
      rw [hA, List.append_assoc, List.cons_append] at hsound ⊢
      refine userEnqueues_last hsound allLive_nil (Nat.zero_le _) fun p hp => ?_
      rcases List.mem_append.mp hp with hp | hp
      · exact hlast p (List.mem_append_left _ hp)
      · rcases List.mem_append.mp hp with hp | hp
        · exact hother p hp
        · exact hlast p (List.mem_append_right _ hp)

/-- Where nothing local fails and nothing expires, each entry is accounted for,
and a newer entry of the user's is in the queue unless the push handed back an
older one for its item. -/
theorem offline_push_accounts (R : Runtime κ) (vaultKey : κ) (ownerUserId : UserId) (items : List VaultItem)
    (hW : W.LocalOk horizon) (hlive : AllLive horizon d.queue) (hn : (d.queue.map (·.itemId)).Nodup) :
    (pushOfflineQueue R ownerUserId items (some vaultKey) true W d).1.queue =
      userEnqueues (enqueuedMeanwhile R vaultKey ownerUserId items W d) [] ∧
    (∀ i e, d.queue[i]? = some e →
      Accounted (storeBefore R vaultKey ownerUserId items W d.queue d.store i)
        (requestAt R vaultKey ownerUserId items W d.queue d.store i e)
        (enqueuedMeanwhile R vaultKey ownerUserId items W d) W.enqueuedAtRefresh
        (pushOfflineQueue R ownerUserId items (some vaultKey) true W d).1.store e) ∧
    (∀ pre e use post, enqueuedInTurns W d.queue.length ++ W.enqueuedAtRefresh = pre ++ (e, use) :: post →
      (∀ p ∈ post, p.1.itemId ≠ e.itemId) →
      (∀ i x, d.queue[i]? = some x → x.itemId = e.itemId →
        ¬ NetworkError (requestAt R vaultKey ownerUserId items W d.queue d.store i x)) →
      Kept (enqueuedMeanwhile R vaultKey ownerUserId items W d) [] e) ∧
    (∀ pre e use post, W.enqueuedAtRefresh = pre ++ (e, use) :: post → (∀ p ∈ post, p.1.itemId ≠ e.itemId) →
      Kept (enqueuedMeanwhile R vaultKey ownerUserId items W d) [] e) := by
  obtain ⟨hsound, hpush⟩ := @push_eq κ R vaultKey ownerUserId items W horizon d hW hlive
  refine ⟨by rw [hpush], fun i e hi => accounted hW hlive hn hi,
    fun pre e use post hsplit hlast hback => user_kept hW hlive hsplit hlast hback, fun pre e use post hsplit hlast => ?_⟩
  unfold enqueuedMeanwhile at hsound ⊢
  rw [hsplit, ← List.append_assoc, ← List.append_assoc] at hsound ⊢
  exact userEnqueues_last hsound allLive_nil (Nat.zero_le _) hlast

end

end

/-! ## Queued deletions -/

def sampleUse : StorageUse := ⟨0, true, none⟩

def samplePattern (fetched : Fetch ItemLevelSyncPushResult) : Pattern where
  dequeue := sampleUse
  turn := fun _ =>
    { nonces := "", now := sampleUpsert.createdAt, encryptItem := none, getById := none, getServerRevision := none,
      searchTokens := none, fetch := fun _ => fetched, getConflictIds := none, setConflictIds := none,
      setServerRevision := none, storedTokens := none, upsert := none, delete := none, setLastSyncedAt := none,
      enqueued := [] }
  requeue := fun _ => sampleUse
  refresh := none
  enqueuedAtRefresh := []
  rescue := fun _ => sampleUse
  refreshAgain := none
  enqueuedAtRescue := []

def sampleDeletion : OfflineMutationEntry := ⟨.delete, sampleUpsert.id, 0, 0⟩

def sampleDesk : Desk := ⟨⟨∅, 0, none⟩, [sampleDeletion]⟩

def deletionOf (id : ItemId) : OfflineMutationEntry := ⟨.delete, id, 0, 0⟩

def deletionApplied (id : ItemId) : Response ItemLevelSyncPushResult :=
  ⟨200, none, some ⟨1, ⟨[], [id], [⟨"m", id, .delete, 1⟩]⟩, []⟩⟩

/-- The first request meets a network error and the second is answered; the user deletes
an item before the answer and another one at the last refresh. -/
def busyPattern : Pattern :=
  { samplePattern .failed with
    turn := fun i =>
      { (samplePattern (if i = 0 then .failed else .answered (deletionApplied "y"))).turn i with
        enqueued := if i = 1 then [(deletionOf "z", sampleUse)] else [] }
    enqueuedAtRefresh := [(deletionOf "w", sampleUse)] }

def busyDesk : Desk := ⟨⟨∅, 0, none⟩, [deletionOf "x", deletionOf "y"]⟩

theorem busyPattern_local : busyPattern.LocalOk 0 where
  dequeue := ⟨rfl, rfl, Nat.le_refl 0⟩
  turn := fun _ => ⟨rfl, rfl, rfl, rfl, rfl, rfl, rfl, rfl, rfl, rfl, rfl⟩
  enqueued i p hp := by
    have hp : p ∈ if i = 1 then [(deletionOf "z", sampleUse)] else [] := hp
    split at hp
    · rw [List.mem_singleton.mp hp]
      exact ⟨⟨rfl, rfl, Nat.le_refl 0⟩, by decide⟩
    · cases hp
  requeue := fun _ => ⟨rfl, rfl, Nat.le_refl 0⟩
  refresh := rfl
  enqueuedAtRefresh p hp := by
    rw [List.mem_singleton.mp hp]
    exact ⟨⟨rfl, rfl, Nat.le_refl 0⟩, by decide⟩

/-- `offline_push_accounts` at two deletions with entries of the user's meanwhile. -/
theorem offline_push_accounts_busy :
    (∀ i e, busyDesk.queue[i]? = some e →
      Accounted (storeBefore sampleRuntime () sampleUser [] busyPattern busyDesk.queue busyDesk.store i)
        (requestAt sampleRuntime () sampleUser [] busyPattern busyDesk.queue busyDesk.store i e)
        (enqueuedMeanwhile sampleRuntime () sampleUser [] busyPattern busyDesk) busyPattern.enqueuedAtRefresh
        (pushOfflineQueue sampleRuntime sampleUser [] (some ()) true busyPattern busyDesk).1.store e) ∧
    (pushOfflineQueue sampleRuntime sampleUser [] (some ()) true busyPattern busyDesk).1.queue =
      [deletionOf "z", deletionOf "x", deletionOf "w"] ∧
    Kept (enqueuedMeanwhile sampleRuntime () sampleUser [] busyPattern busyDesk) [] (deletionOf "z") ∧
    Kept (enqueuedMeanwhile sampleRuntime () sampleUser [] busyPattern busyDesk) [] (deletionOf "w") := by
  obtain ⟨hqueue, haccounted, hlast, hrefresh⟩ := offline_push_accounts sampleRuntime () sampleUser [] (d := busyDesk)
    busyPattern_local (by unfold AllLive; decide) (by decide)
  refine ⟨haccounted, hqueue.trans (by decide +kernel), hlast [] _ sampleUse [(deletionOf "w", sampleUse)] (by decide +kernel)
    (by decide) fun i x hx hid => ?_, hrefresh [] _ sampleUse [] rfl (by simp)⟩
  have hx : x ∈ [deletionOf "x", deletionOf "y"] := List.mem_of_getElem? hx
  simp only [List.mem_cons, List.not_mem_nil, or_false] at hx
  rcases hx with rfl | rfl <;> exact absurd hid (by decide)

/-- A deletion that is answered with 401 is lost. -/
theorem unauthorized_entry_lost :
    ¬ ∀ (W : Pattern) (d : Desk) (i : Nat) (e : OfflineMutationEntry), d.queue[i]? = some e →
      (∃ answer, requestAt sampleRuntime () sampleUser [] W d.queue d.store i e = some (.ok answer) ∧
          Confirmed e answer) ∨
        Marked (pushOfflineQueue sampleRuntime sampleUser [] (some ()) true W d).1.store e.itemId ∨
        ∃ x ∈ (pushOfflineQueue sampleRuntime sampleUser [] (some ()) true W d).1.queue, x.itemId = e.itemId := by
  intro h
  rcases h (samplePattern (.answered ⟨401, some "not_authenticated", none⟩)) sampleDesk 0 sampleDeletion rfl with
    ⟨answer, hr, -⟩ | ⟨item, hitem, -⟩ | ⟨x, hx, -⟩
  · cases hr
  · cases hitem
  · cases hx

end ZeroVault.Desktop

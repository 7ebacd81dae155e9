import ZeroVault.ConflictPush

/-!
# The choice takes effect

After a resolution the run pushes the local version at the server's base, or has
nothing to push, and then pulls. The entries of the item that it pulls are older
than what it holds, or end in what the server has (`Follows.page`).
-/

namespace ZeroVault.Browser

open Lib

/-! ## The feed -/

theorem batch_feedGrows {stmts : List SyncStmt} {db db' : Db} (h : execBatch stmts db = some db') : FeedGrows db db' :=
  execAll_rel SyncStmt.exec FeedGrows.refl (fun _ _ _ => FeedGrows.trans) (fun _ _ _ _ hq => exec_feedGrows hq) h

theorem call_feedGrows (call : SyncCall) (db : Db) : FeedGrows db (call.code.run db).1 := by
  cases call with
  | pushVault env w request =>
    have hrun : ((SyncCall.pushVault env w request).code.run db).1 = ((ZeroVault.pushVault env w request).run db).1 := by
      simp only [SyncCall.code, Prog.run_bind]
      rfl
    rw [hrun]
    rcases pushVault_run env w db request with he | ⟨db', hx, -, he⟩
    · rw [he]
      exact .refl db
    · rw [he]
      exact batch_feedGrows hx
  | pushItemLevelSync env w plan =>
    have hrun : ((SyncCall.pushItemLevelSync env w plan).code.run db).1 =
        ((ZeroVault.pushItemLevelSync env w plan).run db).1 := by
      simp only [SyncCall.code, Prog.run_bind]
      rfl
    rw [hrun]
    rcases pushItemLevelSync_run env w plan db with ⟨e, he⟩ | ⟨n, st, db', result, h, he⟩
    · rw [he]
      exact .refl db
    · rw [he]
      exact batch_feedGrows h.batch

theorem Advances.ordered {κ : Type} {R : Runtime κ} {u : UserId} {named : List ItemId} {w w' : World κ}
    (h : Advances R u named w w') (hrun : w'.client.run ≠ none) (ho : OrderedFeed w.server.itemSyncChanges) :
    OrderedFeed w'.server.itemSyncChanges := by
  cases h with
  | other call => exact (call_feedGrows call w.server).ordered ho
  | stops run => exact absurd run hrun
  | plans => exact ho
  | pushes run ids mutations push => exact (batch_feedGrows push.batch).ordered ho
  | pulls => exact ho

/-- A valid history of an item: its entries ascend, and end in what the table holds of it. -/
structure ItemHistory (F : Formats) (u : UserId) (x : ItemId) (db : Db) : Prop where
  cursors : ∀ r ∈ db.itemSyncChanges.itemRows u x, 0 < r.cursor
  owned : ∀ row, db.vaultItems.get? x = some row → row.userId = u
  valid : ∀ r ∈ db.itemSyncChanges.itemRows u x, itemLevelSyncChangeSchema F r.entry = true
  ascending : ((db.itemSyncChanges.itemRows u x).map (·.change)).Pairwise fun a b => a.revision < b.revision
  last : (db.itemSyncChanges.itemRows u x).getLast?.map (·.change) = (db.vaultItems.get? x).map (migratedChange x)

section
variable {ε : Type} {key : ε → Nat} {log : List ε} {c d : Nat}

/-- Of a window of a log, the last entry is the log's, or lies before it. -/
theorem window_last {e : ε} (ho : Ordered key (log ++ [e])) :
    (key e ≤ c ∧ window key (log ++ [e]) c d = []) ∨
      (c < key e ∧ key e ≤ d ∧ (window key (log ++ [e]) c d).getLast? = some e) ∨
        (d < key e ∧ ∀ e' ∈ window key (log ++ [e]) c d, e' ∈ log) := by
  have hbefore := (List.pairwise_append.mp ho).2.2
  unfold window
  by_cases hc : key e ≤ c
  · refine .inl ⟨hc, List.filter_eq_nil_iff.mpr fun e' he' hin => ?_⟩
    have hle : key e' ≤ key e := by
      rcases List.mem_append.mp he' with he' | he'
      · exact Nat.le_of_lt (hbefore e' he' e (List.mem_singleton_self _))
      · exact Nat.le_of_eq (congrArg key (List.mem_singleton.mp he'))
    rw [Bool.and_eq_true, decide_eq_true_eq] at hin
    omega
  · by_cases hd : key e ≤ d
    · refine .inr (.inl ⟨Nat.lt_of_not_le hc, hd, ?_⟩)
      rw [List.filter_append, List.filter_singleton, decide_eq_true (Nat.lt_of_not_le hc), decide_eq_true hd]
      exact List.getLast?_concat
    · refine .inr (.inr ⟨Nat.lt_of_not_le hd, fun e' he' => ?_⟩)
      obtain ⟨hmem, hin⟩ := List.mem_filter.mp he'
      rcases List.mem_append.mp hmem with hmem | hmem
      · exact hmem
      · rw [List.mem_singleton.mp hmem, Bool.and_eq_true, decide_eq_true_eq, decide_eq_true_eq] at hin
        exact absurd hin.2 hd

end

/-! ## The client and the item's history -/

section
variable {κ : Type}

/-- The client has the item as the last entry of its history tells. -/
inductive Holds (R : Runtime κ) (active : UnlockedVault κ) (x : ItemId) (last : Option ItemLevelChange)
    (item : Option VaultItem) (revision : Option Nat) : Prop
  | live (row : VaultItemCiphertext) (plain : VaultItem) (is : last = some (.upsert row))
      (decrypts : decryptItemFromSync R active row.encryptedItemKey row.encryptedPayload x = some plain)
      (item : item = some plain) (revision : revision = some row.revision)
  | gone (isnt : ∀ row, last ≠ some (.upsert row)) (item : item = none) (revision : revision = none)

/-- The client has it so, or has older entries of it again that end in a deletion. -/
inductive Follows (R : Runtime κ) (active : UnlockedVault κ) (x : ItemId) (rows : List ItemSyncChangeRow) (cursor : Nat)
    (item : Option VaultItem) (revision : Option Nat) : Prop
  | holds (is : Holds R active x (rows.getLast?.map (·.change)) item revision)
  | behind (other : x ≠ LOCAL_VAULT_ITEM_ID) (e : ItemSyncChangeRow) (n : Nat) (deletedAt : String)
      (last : rows.getLast? = some e) (is : e.change = .delete x n deletedAt) (ahead : cursor < e.cursor)
      (older : ∀ r, revision = some r → r ≤ n)

variable {R : Runtime κ} {active : UnlockedVault κ} {x : ItemId} {rows : List ItemSyncChangeRow} {c d : Nat}
variable {st st' : PullState}

theorem ascending_last {e r : ItemSyncChangeRow} (hasc : (rows.map (·.change)).Pairwise fun a b => a.revision < b.revision)
    (hlast : rows.getLast? = some e) (hr : r ∈ rows) : r = e ∨ r.change.revision < e.change.revision := by
  obtain ⟨before, rfl⟩ := List.getLast?_eq_some_iff.mp hlast
  rw [List.map_append, List.pairwise_append] at hasc
  rcases List.mem_append.mp hr with hr | hr
  · exact .inr (hasc.2.2 _ (List.mem_map_of_mem hr) _ (List.mem_singleton_self _))
  · exact .inl (List.mem_singleton.mp hr)

theorem window_entry {e : ItemLevelChange}
    (h : ((window ItemSyncChangeRow.cursor rows c d).map (·.change)).getLast? = some e) :
    ∃ r ∈ rows, r.change = e := by
  obtain ⟨r, hr, he⟩ := List.mem_map.mp (List.mem_of_getLast? h)
  exact ⟨r, (List.mem_filter.mp hr).1, he⟩

theorem Holds.page (hids : ∀ r ∈ rows, r.change.itemId = x)
    (hasc : (rows.map (·.change)).Pairwise fun a b => a.revision < b.revision)
    (ho : Ordered ItemSyncChangeRow.cursor rows)
    (h : Holds R active x (rows.getLast?.map (·.change)) (st.items.get? x) (st.state.revisions.get? x))
    (heffect : PageEffect R active x st st' ((window ItemSyncChangeRow.cursor rows c d).map (·.change))) :
    Follows R active x rows d (st'.items.get? x) (st'.state.revisions.get? x) := by
  cases heffect with
  | kept about item =>
    rw [item, show st'.state.revisions.get? x = _ from congrArg Prod.fst about]
    exact .holds h
  | deleted free n deletedAt last newer about item =>
    obtain ⟨r, hr, hchange⟩ := window_entry last
    have hrevision : st'.state.revisions.get? x = none := congrArg Prod.fst about
    cases h with
    | live row plain is decrypts hitem hrev =>
      obtain ⟨e, hlast, he⟩ := Option.map_eq_some_iff.mp is
      have hnewer := newer _ hrev
      rcases ascending_last hasc hlast hr with rfl | hlt
      · rw [he] at hchange
        exact (nomatch hchange)
      · rw [hchange, he] at hlt
        exact absurd hnewer (Nat.not_le.mpr hlt)
    | gone isnt => exact .holds (.gone isnt item hrevision)
  | stored free row plain last id decrypts newer about item =>
    obtain ⟨r, hr, hchange⟩ := window_entry last
    have hrevision : st'.state.revisions.get? x = some row.revision := congrArg Prod.fst about
    cases h with
    | live row' plain' is decrypts' hitem hrev =>
      obtain ⟨e, hlast, he⟩ := Option.map_eq_some_iff.mp is
      have hnewer := newer _ hrev
      rcases ascending_last hasc hlast hr with rfl | hlt
      · exact .holds (.live row plain (by rw [hlast, Option.map_some, hchange]) decrypts item hrevision)
      · rw [hchange, he] at hlt
        exact absurd hnewer (Nat.not_le.mpr hlt)
    | gone isnt =>
      obtain ⟨before, e, rfl⟩ : ∃ before e, rows = before ++ [e] := by
        rcases List.eq_nil_or_concat rows with rfl | ⟨before, e, he⟩
        · exact absurd hr List.not_mem_nil
        · exact ⟨before, e, he.trans List.concat_eq_append⟩
      have hlast : (before ++ [e]).getLast? = some e := List.getLast?_concat
      have hid := hids e (List.mem_append_right _ (List.mem_singleton_self e))
      cases he : e.change with
      | upsert row' => exact absurd (by rw [hlast, Option.map_some, he]) (isnt row')
      | delete id n deletedAt =>
        obtain rfl : id = x := by
          rw [he] at hid
          exact hid
        rcases window_last (c := c) (d := d) ho with ⟨-, hnil⟩ | ⟨-, -, hwindow⟩ | ⟨hahead, hbefore⟩
        · rw [hnil] at last
          exact (nomatch last)
        · rw [List.getLast?_map, hwindow, Option.map_some, he] at last
          exact (nomatch last)
        · refine .behind (fun hlocal => free (.inl hlocal)) e n deletedAt hlast he hahead fun r' hr' => ?_
          rw [hrevision] at hr'
          cases hr'
          have hlt := ascending_last hasc hlast hr
          rw [hchange, he] at hlt
          rcases hlt with rfl | hlt
          · rw [he] at hchange
            exact (nomatch hchange)
          · exact Nat.le_of_lt hlt

theorem Follows.page (hids : ∀ r ∈ rows, r.change.itemId = x)
    (hasc : (rows.map (·.change)).Pairwise fun a b => a.revision < b.revision)
    (ho : Ordered ItemSyncChangeRow.cursor rows) (hfree : Blocked st x → x = LOCAL_VAULT_ITEM_ID)
    (h : Follows R active x rows c (st.items.get? x) (st.state.revisions.get? x))
    (heffect : PageEffect R active x st st' ((window ItemSyncChangeRow.cursor rows c d).map (·.change))) :
    Follows R active x rows d (st'.items.get? x) (st'.state.revisions.get? x) := by
  cases h with
  | holds is => exact is.page hids hasc ho heffect
  | behind other e n deletedAt hlast is ahead older =>
    obtain ⟨before, rfl⟩ := List.getLast?_eq_some_iff.mp hlast
    rcases window_last (c := c) (d := d) ho with ⟨hpast, -⟩ | ⟨-, -, hwindow⟩ | ⟨hahead, hbefore⟩
    · exact absurd ahead (Nat.not_lt.mpr hpast)
    · -- the deletion is in the page
      have hend : ((window ItemSyncChangeRow.cursor (before ++ [e]) c d).map (·.change)).getLast? =
          some (.delete x n deletedAt) := by rw [List.getLast?_map, hwindow, Option.map_some, is]
      cases heffect with
      | kept about item why =>
        rcases why _ (List.mem_of_getLast? hend) with hblocked | ⟨r, hr, hlt⟩
        · exact absurd (hfree hblocked) other
        · exact absurd (older r hr) (Nat.not_le.mpr hlt)
      | deleted free n' deletedAt' last newer about item =>
        refine .holds (.gone (fun row hrow => ?_) item (congrArg Prod.fst about))
        rw [hlast, Option.map_some, is] at hrow
        exact (nomatch hrow)
      | stored free row plain last =>
        rw [hend] at last
        exact (nomatch last)
    · refine .behind other e n deletedAt hlast is hahead fun r hr => ?_
      cases heffect with
      | kept about => exact older r ((congrArg Prod.fst about).symm.trans hr)
      | deleted free n' deletedAt' last newer about =>
        rw [show st'.state.revisions.get? x = none from congrArg Prod.fst about] at hr
        exact (nomatch hr)
      | stored free row plain last id decrypts newer about =>
        rw [show st'.state.revisions.get? x = some row.revision from congrArg Prod.fst about] at hr
        cases hr
        obtain ⟨r', hr', hchange⟩ := window_entry last
        rcases ascending_last hasc hlast hr' with rfl | hlt
        · rw [is] at hchange
          exact (nomatch hchange)
        · rw [hchange, is] at hlt
          exact Nat.le_of_lt hlt

end

/-! ## While the run pulls -/

section
variable {κ : Type} {R : Runtime κ} {u : UserId} {x : ItemId} {named : List ItemId} {w w' : World κ} {l l' : Locals κ}

structure PageTaken (R : Runtime κ) (u : UserId) (l l' : Locals κ) (remote : ItemLevelSyncPullResponse) (st : PullState) :
    Prop where
  applied : remote.changes.foldlM (applyChange R l.active u) ⟨l.state, itemMap l.active.items⟩ = .ok st
  key : l'.active.key = l.active.key
  items : l'.active.itemIds.Nodup
  find : ∀ y, l'.active.find? y = st.items.get? y
  about : ∀ y, l'.state.about y = st.state.about y
  conflicts : l'.state.conflicts = l.state.conflicts
  cursor : l'.state.cursor = remote.cursor
  details : l'.conflictDetails = l.conflictDetails

theorem receivePull_page {remote : ItemLevelSyncPullResponse} (h : receivePull R u l remote = .ok l') :
    ∃ st, PageTaken R u l l' remote st := by
  obtain ⟨st, hst, -, -, rfl⟩ := receivePull_ok h
  have hkeyed : ByItemId st.items := byItemId_page hst (itemMap_byItemId _)
  refine ⟨st, hst, rfl, ?_, fun y => values_find? hkeyed _, fun _ => rfl, congrArg (·.2.2) (frame_page hst), rfl, rfl⟩
  unfold UnlockedVault.itemIds
  rw [values_ids hkeyed]
  exact st.items.nodup

/-- The run pulls or has returned, and knows of no conflict of the item. -/
structure World.Settling (x : ItemId) (w : World κ) : Prop where
  items : w.client.vault.itemIds.Nodup
  quiet : x ∉ w.client.sync.conflicts
  pending : w.client.sync.pending.get? x = none
  run : ∃ run, w.client.run = some run ∧ run.locals.state = w.client.sync ∧ run.locals.active = w.client.vault ∧
    (∀ d ∈ run.locals.conflictDetails, d.itemId ≠ x) ∧ ((∃ l page, run = .pulling l page) ∨ ∃ l, run = .returned l)

theorem World.Settling.pulling {page : Nat} (h : w.Settling x) (hrun : w.client.run = some (.pulling l page)) :
    l.state = w.client.sync ∧ l.active = w.client.vault ∧ ∀ d ∈ l.conflictDetails, d.itemId ≠ x := by
  obtain ⟨run, hrun', hstate, hactive, hdetails, -⟩ := h.run
  rw [hrun] at hrun'
  cases hrun'
  exact ⟨hstate, hactive, hdetails⟩

/-- A step of a run that pulls is another's, or takes a page. -/
theorem World.Settling.steps (h : w.Settling x) (hadv : Advances R u named w w') (hrun : w'.client.run ≠ none) :
    (∃ call, (∀ y ∈ named, y ∉ call.itemIds) ∧ w' = ⟨(SyncCall.code call |>.run w.server).1, w.client⟩) ∨
      ∃ l l' page remote c', w.client.run = some (.pulling l page) ∧
        ((pullItemLevelSync R.formats u l.state.cursor DEFAULT_PULL_LIMIT).run w.server).2 = .ok remote ∧
        receivePull R u l remote = .ok l' ∧ w' = ⟨w.server, c'⟩ ∧ c'.vault = l'.active ∧ c'.sync = l'.state ∧
        ((remote.hasMore = false ∧ c'.run = some (.returned l')) ∨ c'.run = some (.pulling l' (page + 1))) := by
  obtain ⟨run, hrun', -, -, -, hkind⟩ := h.run
  cases hadv with
  | other call others => exact .inl ⟨call, others, rfl⟩
  | stops run => exact absurd run hrun
  | plans hplanning =>
    rw [hplanning] at hrun'
    cases hrun'
    rcases hkind with ⟨l, page, he⟩ | ⟨l, he⟩ <;> exact (nomatch he)
  | pushes hpushing =>
    rw [hpushing] at hrun'
    cases hrun'
    rcases hkind with ⟨l, page, he⟩ | ⟨l, he⟩ <;> exact (nomatch he)
  | pulls hpulling answers accepts vault sync next =>
    exact .inr ⟨_, _, _, _, _, hpulling, answers, accepts, rfl, vault, sync, next⟩

theorem World.Settling.step (h : w.Settling x) (hadv : Advances R u named w w') (hrun : w'.client.run ≠ none) :
    w'.Settling x := by
  rcases h.steps hadv hrun with ⟨call, -, rfl⟩ | ⟨l, l', page, remote, c', hpulling, hanswers, haccepts, rfl, hvault, hsync, hnext⟩
  · exact ⟨h.items, h.quiet, h.pending, h.run⟩
  · obtain ⟨hstate, hactive, hdetails⟩ := h.pulling hpulling
    obtain ⟨st, hpage⟩ := receivePull_page haccepts
    have hpending : l'.state.pending.get? x = none := by
      rw [show l'.state.pending.get? x = st.state.pending.get? x from congrArg (·.2.2) (hpage.about x),
        pending_page hpage.applied, hstate]
      exact h.pending
    refine ⟨hvault ▸ hpage.items, ?_, hsync ▸ hpending, ?_⟩
    · show x ∉ c'.sync.conflicts
      rw [hsync, hpage.conflicts, hstate]
      exact h.quiet
    · have hdetails' : ∀ d ∈ l'.conflictDetails, d.itemId ≠ x := hpage.details ▸ hdetails
      rcases hnext with ⟨-, hreturned⟩ | hpulls
      · exact ⟨_, hreturned, hsync.symm, hvault.symm, hdetails', .inr ⟨l', rfl⟩⟩
      · exact ⟨_, hpulls, hsync.symm, hvault.symm, hdetails', .inl ⟨l', _, rfl⟩⟩

theorem World.Settling.no_conflict (h : w.Settling x) (hrun : w.client.run = some (.returned l)) :
    ∀ d ∈ l.conflicts, d.itemId ≠ x := by
  obtain ⟨run, hrun', hstate, -, hdetails, -⟩ := h.run
  rw [hrun] at hrun'
  cases hrun'
  intro d hd hid
  rcases mem_conflicts hd with hd | hd
  · exact hdetails d hd hid
  · have hstate : l.state = w.client.sync := hstate
    rw [hid, hstate] at hd
    exact h.quiet hd

structure World.FollowsFeed (R : Runtime κ) (u : UserId) (x : ItemId) (history : List ItemSyncChangeRow) (w : World κ) :
    Prop where
  settling : w.Settling x
  ordered : OrderedFeed w.server.itemSyncChanges
  rows : w.server.itemSyncChanges.itemRows u x = history
  follows : Follows R w.client.vault x history w.client.sync.cursor (w.client.vault.find? x) (w.client.sync.revisions.get? x)
  returned : ∀ l, w.client.run = some (.returned l) →
    Holds R w.client.vault x (history.getLast?.map (·.change)) (w.client.vault.find? x) (w.client.sync.revisions.get? x)

theorem Holds.key {active active' : UnlockedVault κ} {last : Option ItemLevelChange} {item : Option VaultItem}
    {revision : Option Nat} (hkey : active'.key = active.key) (h : Holds R active x last item revision) :
    Holds R active' x last item revision := by
  cases h with
  | live row plain is decrypts item revision => exact .live row plain is ((decrypt_key hkey _ _ _).trans decrypts) item revision
  | gone isnt item revision => exact .gone isnt item revision

theorem Follows.key {active active' : UnlockedVault κ} {rows : List ItemSyncChangeRow} {cursor : Nat}
    {item : Option VaultItem} {revision : Option Nat} (hkey : active'.key = active.key)
    (h : Follows R active x rows cursor item revision) : Follows R active' x rows cursor item revision := by
  cases h with
  | holds is => exact .holds (is.key hkey)
  | behind other e n deletedAt last is ahead older => exact .behind other e n deletedAt last is ahead older

theorem World.FollowsFeed.step {rows : List ItemSyncChangeRow} (hx : x ∈ named)
    (hvalid : ∀ r ∈ rows, itemLevelSyncChangeSchema R.formats r.entry = true)
    (hasc : (rows.map (·.change)).Pairwise fun a b => a.revision < b.revision)
    (h : w.FollowsFeed R u x rows) (hadv : Advances R u named w w') (hrun : w'.client.run ≠ none) :
    w'.FollowsFeed R u x rows := by
  have hordered := hadv.ordered hrun h.ordered
  have hsettling := h.settling.step hadv hrun
  rcases h.settling.steps hadv hrun with
    ⟨call, hothers, rfl⟩ | ⟨l, l', page, remote, c', hpulling, hanswers, haccepts, rfl, hvault, hsync, hnext⟩
  · exact ⟨hsettling, hordered, (call.untouched (hothers x hx) u w.server).feed.trans h.rows, h.follows, h.returned⟩
  · obtain ⟨hstate, hactive, -⟩ := h.settling.pulling hpulling
    obtain ⟨st, hpage⟩ := receivePull_page haccepts
    have hrows : ∀ r ∈ rows, r.change.itemId = x := by
      intro r hr
      rw [← h.rows] at hr
      have hmine := (List.mem_filter.mp hr).2
      rw [Bool.and_eq_true, decide_eq_true_eq, decide_eq_true_eq] at hmine
      exact hmine.2
    have ho : Ordered ItemSyncChangeRow.cursor rows := h.rows ▸ List.Pairwise.filter _ h.ordered.1
    have hvalid' : ∀ r ∈ w.server.itemSyncChanges.itemRows u x, itemLevelSyncChangeSchema R.formats r.entry = true :=
      h.rows ▸ hvalid
    have hentries : entriesOf x remote.changes =
        (window ItemSyncChangeRow.cursor rows l.state.cursor remote.cursor).map (·.change) := by
      rw [pull_run hanswers, pulled_entries h.ordered.1 hvalid', h.rows]
    have heffect := page_effect (x := x) hpage.applied (by
      rw [hentries]
      exact List.Pairwise.sublist (List.filter_sublist.map _) hasc)
    rw [hentries] at heffect
    have hfree : Blocked (⟨l.state, itemMap l.active.items⟩ : PullState) x → x = LOCAL_VAULT_ITEM_ID := by
      rintro (hlocal | hpending | hconflict)
      · exact hlocal
      · rw [hstate] at hpending
        exact absurd h.settling.pending (Option.isSome_iff_ne_none.mp (by simpa [Table.contains] using hpending))
      · exact absurd (hstate ▸ hconflict) h.settling.quiet
    have hbefore : Follows R l.active x rows l.state.cursor ((itemMap l.active.items).get? x) (l.state.revisions.get? x) := by
      rw [hactive, hstate, itemMap_get? h.settling.items]
      exact h.follows
    have hafter := hbefore.page hrows hasc ho hfree heffect
    rw [← hpage.find x, ← show l'.state.revisions.get? x = st.state.revisions.get? x from congrArg Prod.fst (hpage.about x),
      ← hpage.cursor, ← hvault, ← hsync] at hafter
    have hkey : c'.vault.key = l.active.key := (congrArg UnlockedVault.key hvault).trans hpage.key
    have hafter := hafter.key hkey
    refine ⟨hsettling, hordered, h.rows, hafter, fun l₁ hreturned => ?_⟩
    rcases hnext with ⟨hmore, -⟩ | hpulls
    · cases hafter with
      | holds is => exact is
      | behind other e n deletedAt last is ahead older =>
        -- the last page ends after every entry
        have hall : e.cursor ≤ remote.cursor := by
          have he : e ∈ w.server.itemSyncChanges.itemRows u x := h.rows.symm ▸ List.mem_of_getLast? last
          rw [pull_run hanswers] at hmore ⊢
          exact pulled_last h.ordered.1 hmore e he
        have hend : c'.sync.cursor = remote.cursor := by rw [hsync, hpage.cursor]
        exact absurd ahead (Nat.not_lt.mpr (hend ▸ hall))
    · rw [hpulls] at hreturned
      cases hreturned

end

/-! ## The copy while the run pulls -/

section
variable {κ : Type} {R : Runtime κ} {u : UserId} {x : ItemId} {named : List ItemId} {w w' : World κ} {it : VaultItem}

/-- What is encrypted of an item is decrypted to it. -/
def Ideal (R : Runtime κ) (key : κ) (it : VaultItem) : Prop :=
  ∀ nonces, R.decryptItem key (R.encryptItem key it nonces) it.id = some it

/-- The vault has the item, or what its schema makes of it. -/
def Kept (R : Runtime κ) (it : VaultItem) (vault : UnlockedVault κ) : Prop :=
  ∃ it', vault.find? it.id = some it' ∧ (it' = it ∨ vaultItemSchema R.formats it = some it')

theorem Encrypts.key {vault vault' : UnlockedVault κ} {e₁ e₂ : CiphertextEnvelope} (hkey : vault'.key = vault.key)
    (h : Encrypts R vault it e₁ e₂) : Encrypts R vault' it e₁ e₂ := by
  unfold Encrypts encryptItemForSync at h ⊢
  rw [hkey]
  exact h

theorem Ideal.decrypts {vault : UnlockedVault κ} {e₁ e₂ : CiphertextEnvelope} {plain : VaultItem} (hideal : Ideal R vault.key it)
    (h : Encrypts R vault it e₁ e₂) (hplain : decryptItemFromSync R vault e₁ e₂ it.id = some plain) :
    vaultItemSchema R.formats it = some plain := by
  obtain ⟨nonces, hbundle⟩ := h
  have hparsed : R.decryptItem vault.key ⟨e₁, e₂⟩ it.id = some it := hbundle ▸ hideal nonces
  unfold decryptItemFromSync at hplain
  rw [hparsed] at hplain
  obtain ⟨parsed, hsame, hplain⟩ := Option.bind_eq_some_iff.mp hplain
  cases hsame
  obtain ⟨item, hitem, hplain⟩ := Option.bind_eq_some_iff.mp hplain
  split at hplain
  · cases hplain
    exact hitem
  · exact (nomatch hplain)

structure World.HasCopy (R : Runtime κ) (u : UserId) (key : κ) (it : VaultItem) (w : World κ) : Prop where
  settling : w.Settling it.id
  key : w.client.vault.key = key
  echoes : Echoes R u it.id it w
  kept : Kept R it w.client.vault

theorem World.HasCopy.step {key : κ} (hideal : Ideal R key it) (hx : it.id ∈ named) (h : w.HasCopy R u key it)
    (hadv : Advances R u named w w') (hrun : w'.client.run ≠ none) : w'.HasCopy R u key it := by
  have hsettling := h.settling.step hadv hrun
  rcases h.settling.steps hadv hrun with
    ⟨call, hothers, rfl⟩ | ⟨l, l', page, remote, c', hpulling, hanswers, haccepts, rfl, hvault, hsync, hnext⟩
  · exact ⟨hsettling, h.key, h.echoes.still (call.untouched (hothers it.id hx) u w.server).feed rfl, h.kept⟩
  · obtain ⟨hstate, hactive, -⟩ := h.settling.pulling hpulling
    obtain ⟨st, hpage⟩ := receivePull_page haccepts
    have hkey : c'.vault.key = w.client.vault.key := by rw [hvault, hpage.key, hactive]
    refine ⟨hsettling, hkey.trans h.key, fun r hr => ?_, ?_⟩
    · obtain ⟨row, hrow, hencrypts⟩ := h.echoes r hr
      exact ⟨row, hrow, hencrypts.key hkey⟩
    · have hkept : ∃ it', st.items.get? it.id = some it' ∧ (it' = it ∨ vaultItemSchema R.formats it = some it') := by
        refine applyChanges_keeps (P := fun st => ∃ it', st.items.get? it.id = some it' ∧
          (it' = it ∨ vaultItemSchema R.formats it = some it')) (fun sc hsc st₁ st₂ happ hst => ?_) hpage.applied ?_
        · obtain ⟨-, -, htakes⟩ := applyChange_takes happ it.id
          have hentry : sc.change.itemId = it.id → ∃ row, sc.change = .upsert row ∧
              Encrypts R w.client.vault it row.encryptedItemKey row.encryptedPayload := by
            intro hid
            rw [pull_run hanswers] at hsc
            obtain ⟨r, hr, hchange⟩ := pull_entry hsc hid
            obtain ⟨row, hrow, hencrypts⟩ := h.echoes r hr
            exact ⟨row, hchange.symm.trans hrow, hencrypts⟩
          cases htakes with
          | other about item =>
            rw [item]
            exact hst
          | delete taken n deletedAt is =>
            obtain ⟨row, hrow, -⟩ := hentry (by rw [is]; rfl)
            rw [is] at hrow
            exact (nomatch hrow)
          | upsert taken row plain is id owner decrypts about item =>
            obtain ⟨row', hrow, hencrypts⟩ := hentry (by rw [is]; exact id)
            rw [is] at hrow
            cases hrow
            have hideal' : Ideal R w.client.vault.key it := h.key ▸ hideal
            exact ⟨plain, item, .inr (hideal'.decrypts hencrypts (hactive ▸ decrypts))⟩
        · show ∃ it', (itemMap l.active.items).get? it.id = some it' ∧ _
          rw [hactive, itemMap_get? h.settling.items]
          exact h.kept
      unfold Kept
      rw [show c'.vault.find? it.id = st.items.get? it.id from hvault ▸ hpage.find it.id]
      exact hkept

end

/-! ## From a resolution to the end of the run -/

section
variable {κ : Type}

/-- What the client keeps true of its stored state at the server. -/
structure Client.Sound (u : UserId) (db : Db) (c : Client κ) : Prop where
  items : c.vault.itemIds.Nodup
  pending : PendingOk u c.sync.pending
  behind : c.sync.serverRevision ≤ db.serverRevision u

structure FreshId (u : UserId) (id : ItemId) (db : Db) (c : Client κ) : Prop where
  item : id ∉ c.vault.itemIds
  about : c.sync.about id = (none, none, none)
  quiet : id ∉ c.sync.conflicts
  row : db.vaultItems.get? id = none
  feed : db.itemSyncChanges.itemRows u id = []

/-- The client's version of the item is the server's. -/
structure HoldsServer (R : Runtime κ) (x : ItemId) (db : Db) (c : Client κ) : Prop where
  live : ∀ row, db.vaultItems.get? x = some row → row.deletedAt = none →
    ∃ plain, decryptItemFromSync R c.vault row.encryptedItemKey row.encryptedPayload x = some plain ∧
      c.vault.find? x = some plain
  gone : (∀ row, db.vaultItems.get? x = some row → row.deletedAt ≠ none) → c.vault.find? x = none

def ServerHas (R : Runtime κ) (vault : UnlockedVault κ) (it : VaultItem) (db : Db) : Prop :=
  ∃ row, db.vaultItems.get? it.id = some row ∧ row.deletedAt = none ∧
    Encrypts R vault it row.encryptedItemKey row.encryptedPayload

/-- What a choice brings about. -/
structure Outcome (R : Runtime κ) (x : ItemId) (choice : Choice) (draw : CopyDraw) (c : Client κ) (w : World κ) : Prop where
  sent : choice = .localVersion → Uploaded R x w.server c
  taken : choice ≠ .localVersion → HoldsServer R x w.server w.client
  copied : choice = .copy → ∀ it, c.vault.find? x = some it →
    ServerHas R c.vault (copyOf it draw) w.server ∧ Kept R (copyOf it draw) w.client.vault

def resolvedIds (x : ItemId) (choice : Choice) (draw : CopyDraw) : List ItemId :=
  x :: if choice = .copy then [draw.randomUUID] else []

variable {R : Runtime κ} {u : UserId} {x z : ItemId} {choice : Choice} {draw : CopyDraw} {remote : Option ItemLevelChange}
variable {c c' : Client κ} {db : Db} {w w' : World κ} {named : List ItemId} {l : Locals κ}

theorem Holds.server {last : Option ItemLevelChange} {revision : Option Nat}
    (h : Holds R c.vault x last (c.vault.find? x) revision)
    (hlast : last = (db.vaultItems.get? x).map (migratedChange x)) : HoldsServer R x db c := by
  cases h with
  | live row plain is decrypts item revision =>
    obtain ⟨row', hrow, hchange⟩ := Option.map_eq_some_iff.mp (hlast.symm.trans is)
    unfold migratedChange at hchange
    split at hchange
    · rename_i hlive
      cases hchange
      refine ⟨fun row hget _ => ?_, fun hgone => absurd hlive (hgone row' hrow)⟩
      rw [hrow] at hget
      cases hget
      exact ⟨plain, decrypts, item⟩
    · exact (nomatch hchange)
  | gone isnt item revision =>
    refine ⟨fun row hget hlive => ?_, fun _ => item⟩
    refine absurd (hlast.trans ?_) (isnt (rowToVaultItem x row))
    rw [hget, Option.map_some, migratedChange, hlive]

theorem World.Ready.settling (h : w.Ready u z) (hrested : Rested z w) (hrun : w.client.run = some (.pulling l 0)) :
    w.Settling z := by
  have hok := h.run _ hrun
  exact ⟨h.items, h.quiet, hrested.unchanged.pending, _, hrun, hok.state, hok.vault, hok.details, .inl ⟨l, 0, rfl⟩⟩

theorem World.Settling.syncs (h : w.Settling z) (hr : w.Syncs R u named w') (hrun : w'.client.run ≠ none) :
    w'.Settling z ∧ (z ∈ named → w'.server.vaultItems.get? z = w.server.vaultItems.get? z) := by
  refine hr.keeps (P := fun w' => w'.Settling z ∧ (z ∈ named → w'.server.vaultItems.get? z = w.server.vaultItems.get? z))
    hrun ⟨h, fun _ => rfl⟩ ?_
  rintro w₁ w₂ hadv hrun₂ ⟨hsettling₁, hrow₁⟩
  refine ⟨hsettling₁.step hadv hrun₂, fun hz => ?_⟩
  rcases hsettling₁.steps hadv hrun₂ with ⟨call, hothers, rfl⟩ | ⟨l, l', page, remote, c', -, -, -, rfl, -⟩
  · exact ((call.untouched (hothers z hz) u w₁.server).row).trans (hrow₁ hz)
  · exact hrow₁ hz

theorem resolveConflict_nodup (h : resolveConflict R u x choice draw remote c = some c') (hn : c.vault.itemIds.Nodup)
    (hcopy : choice = .copy → draw.randomUUID ∉ c.vault.itemIds) : c'.vault.itemIds.Nodup := by
  unfold resolveConflict at h
  split at h
  · exact (nomatch h)
  obtain ⟨⟨vault', timestamps⟩, hchosen, rfl⟩ := Option.map_eq_some_iff.mp h
  -- a copy comes in under a fresh id
  have hwith : (withCopy x choice draw c.vault).itemIds.Nodup := by
    rw [withCopy_eq]
    unfold UnlockedVault.itemIds at hn ⊢
    rw [List.map_append]
    refine List.nodup_append.mpr ⟨hn, ?_, ?_⟩
    · split
      · cases c.vault.find? x with
        | none => exact List.nodup_nil
        | some item => exact List.nodup_singleton _
      · exact List.nodup_nil
    · rintro a ha b hb rfl
      split at hb
      · rename_i hchoice
        cases hfind : c.vault.find? x with
        | none =>
          rw [hfind] at hb
          exact absurd hb List.not_mem_nil
        | some item =>
          rw [hfind] at hb
          have hid : a = draw.randomUUID := List.mem_singleton.mp hb
          exact hcopy hchoice (hid ▸ ha)
      · exact absurd hb List.not_mem_nil
  have hrest : (deleteItem (withCopy x choice draw c.vault) x).itemIds.Nodup :=
    List.Nodup.sublist (List.filter_sublist.map _) hwith
  unfold applyChoice at hchosen
  split at hchosen
  · cases hchosen
    exact hwith
  split at hchosen
  · split at hchosen
    · exact (nomatch hchosen)
    obtain ⟨plain, hplain, he⟩ := Option.map_eq_some_iff.mp hchosen
    cases he
    show (List.map _ (_ ++ [plain])).Nodup
    rw [List.map_append]
    refine List.nodup_append.mpr ⟨hrest, List.nodup_singleton _, ?_⟩
    rintro a ha b hb rfl
    obtain ⟨item, hitem, rfl⟩ := List.mem_map.mp ha
    have hne := (List.mem_filter.mp hitem).2
    rw [List.map_singleton, List.mem_singleton, decrypt_id hplain] at hb
    exact of_decide_eq_true hne hb
  · cases hchosen
    exact hrest

structure Started (c' : Client κ) (w : World κ) : Prop where
  client : w.client = { c' with run := some (.planning ⟨c'.sync, c'.vault, 0, []⟩) }

theorem start_started (h : c'.step R u .start db = some (db, c)) : Started c' (⟨db, c⟩ : World κ) := by
  unfold Client.step at h
  cases hrun : c'.run with
  | none =>
    rw [hrun] at h
    cases h
    exact ⟨rfl⟩
  | some run =>
    rw [hrun] at h
    exact (nomatch h)

theorem Started.ready (h : Started c' w) (hitems : c'.vault.itemIds.Nodup) (hpending : PendingOk u c'.sync.pending)
    (hquiet : z ∉ c'.sync.conflicts) (hbehind : c'.sync.serverRevision ≤ w.server.serverRevision u) : w.Ready u z := by
  have hclient := h.client
  obtain ⟨db, c⟩ := w
  cases hclient
  refine ⟨hitems, hpending, hquiet, hbehind, fun run hrun => ?_⟩
  cases hrun
  exact ⟨rfl, rfl, fun d hd => absurd hd List.not_mem_nil, nofun⟩

theorem Started.rested (h : Started c' w) (hunchanged : Unchanged c'.vault c'.sync z) : Rested z w := by
  have hclient := h.client
  obtain ⟨db, c⟩ := w
  cases hclient
  exact ⟨hunchanged, nofun⟩

theorem Started.waiting (h : Started c' w) (hunsent : Unsent u z w.server c') : Progress R u z w := by
  have hclient := h.client
  obtain ⟨db, c⟩ := w
  cases hclient
  refine .waiting ⟨hunsent.pending, hunsent.dirty, hunsent.gone, hunsent.known, hunsent.owned⟩ fun run hrun => ?_
  cases hrun
  exact .inl ⟨_, rfl⟩

theorem history_revision {change : ItemLevelChange} {row : VaultItemRow} (h : migratedChange x row = change) :
    change.revision = row.revision := by
  rw [← h]
  unfold migratedChange
  split <;> rfl

theorem Chosen.kept_progress (hchosen : Chosen R x .localVersion remote c c') (hstarted : Started c' w)
    (howned : ∀ row, w.server.vaultItems.get? x = some row → row.userId = u)
    (hremote : remote = (w.server.vaultItems.get? x).map (migratedChange x)) : Progress R u x w := by
  cases hchosen with
  | taken row plain isnt => exact absurd rfl isnt
  | removed isnt => exact absurd rfl isnt
  | kept _ vault about =>
    have hrevision : c'.sync.revisions.get? x = remote.map (·.revision) := congrArg Prod.fst about
    have hstamp : c'.sync.timestamps.get? x = none := congrArg (·.2.1) about
    have hpending : c'.sync.pending.get? x = none := congrArg (·.2.2) about
    have hknown : (c'.sync.revisions.get? x).getD 0 = w.server.itemRevision x := by
      rw [hrevision, hremote]
      unfold Db.itemRevision
      cases w.server.vaultItems.get? x with
      | none => rfl
      | some row => exact history_revision rfl
    by_cases hrow : c'.vault.find? x = none ∧ w.server.vaultItems.get? x = none
    · obtain ⟨hfind, hrow⟩ := hrow
      have hunknown : c'.sync.revisions.get? x = none := by rw [hrevision, hremote, hrow]; rfl
      have hunchanged : Unchanged c'.vault c'.sync x :=
        ⟨hpending, fun it hit hid => absurd (hid ▸ List.mem_map_of_mem hit) (find?_eq_none.mp hfind), fun _ => hunknown⟩
      refine .done (hstarted.rested hunchanged) ?_
      unfold Uploaded
      rw [show w.client.vault.find? x = none by rw [hstarted.client]; exact hfind]
      intro row hget
      rw [hrow] at hget
      exact (nomatch hget)
    · refine hstarted.waiting ⟨hpending, fun it _ => by rw [hstamp]; exact nofun, fun hfind => ?_, hknown, howned⟩
      have hne : w.server.vaultItems.get? x ≠ none := fun hnone => hrow ⟨hfind, hnone⟩
      refine ⟨?_, hne⟩
      rw [hrevision, hremote]
      cases hget : w.server.vaultItems.get? x with
      | none => exact absurd hget hne
      | some row => exact Option.some_ne_none _

theorem Chosen.taken_unchanged (hchosen : Chosen R x choice remote c c') (hchoice : choice ≠ .localVersion)
    (hkey : c'.vault.key = c.vault.key) (hitems : c'.vault.itemIds.Nodup) :
    Unchanged c'.vault c'.sync x ∧ Holds R c'.vault x remote (c'.vault.find? x) (c'.sync.revisions.get? x) := by
  cases hchosen with
  | kept is => exact absurd is hchoice
  | taken row plain isnt is decrypts item about =>
    refine ⟨⟨congrArg (·.2.2) about, fun it hit hid => ?_, fun hno => ?_⟩,
      .live row plain is ((decrypt_key hkey _ _ _).trans decrypts) item (congrArg Prod.fst about)⟩
    · have hsame : some it = some plain := ((find?_eq_some hitems).mpr ⟨hit, hid⟩).symm.trans item
      cases hsame
      exact congrArg (·.2.1) about
    · rw [find?_eq_none.mpr hno] at item
      exact (nomatch item)
  | removed isnt is item about =>
    exact ⟨⟨congrArg (·.2.2) about, fun it hit hid => absurd (hid ▸ List.mem_map_of_mem hit) (find?_eq_none.mp item),
      fun _ => congrArg Prod.fst about⟩, .gone is item (congrArg Prod.fst about)⟩

theorem Aside.copy_progress (haside : Aside x .copy draw c c') (hstarted : Started c' w) {it : VaultItem}
    (hfind : c.vault.find? x = some it) (hfresh : FreshId u draw.randomUUID w.server c) :
    c'.vault.find? draw.randomUUID = some (copyOf it draw) ∧ Progress R u draw.randomUUID w := by
  have hother : draw.randomUUID ≠ x := by
    intro he
    rw [find?_eq_none.mpr (he ▸ hfresh.item)] at hfind
    exact (nomatch hfind)
  have hhere : c'.vault.find? draw.randomUUID = some (copyOf it draw) := by
    rw [haside.items _ hother, withCopy_eq, if_pos rfl, hfind]
    refine find?_append.trans ?_
    rw [find?_eq_none.mpr hfresh.item, Option.none_or]
    show [copyOf it draw].find? (·.id = draw.randomUUID) = _
    rw [List.find?_singleton]
    exact if_pos (decide_eq_true rfl)
  have habout := (haside.about _ hother).trans hfresh.about
  refine ⟨hhere, hstarted.waiting ⟨congrArg (·.2.2) habout, fun it' _ => ?_, fun hnone => ?_, ?_, fun row hrow => ?_⟩⟩
  · rw [show c'.sync.timestamps.get? draw.randomUUID = none from congrArg (·.2.1) habout]
    exact nofun
  · rw [hhere] at hnone
    exact (nomatch hnone)
  · rw [show c'.sync.revisions.get? draw.randomUUID = none from congrArg Prod.fst habout]
    unfold Db.itemRevision
    rw [hfresh.row]
    rfl
  · rw [hfresh.row] at hrow
    exact (nomatch hrow)

/-! ## The whole run -/

theorem Chosen.pending (hchosen : Chosen R x choice remote c c') : c'.sync.pending.get? x = none := by
  cases hchosen with
  | kept is vault about => exact congrArg (·.2.2) about
  | taken row plain isnt is decrypts item about => exact congrArg (·.2.2) about
  | removed isnt is item about => exact congrArg (·.2.2) about

theorem Chosen.pendingOk (hchosen : Chosen R x choice remote c c') (haside : Aside x choice draw c c')
    (hp : PendingOk u c.sync.pending) : PendingOk u c'.sync.pending := by
  refine hp.mono fun id p hget => ?_
  by_cases hid : id = x
  · rw [hid, hchosen.pending] at hget
    exact (nomatch hget)
  · exact (congrArg (·.2.2) (haside.about id hid)).symm.trans hget

theorem Uploaded.congr {db' : Db} (hrow : db'.vaultItems.get? z = db.vaultItems.get? z) (hvault : c'.vault = c.vault)
    (h : Uploaded R z db c) : Uploaded R z db' c' := by
  unfold Uploaded at h ⊢
  rw [hrow, hvault]
  exact h

theorem World.FollowsFeed.syncs {history : List ItemSyncChangeRow} (hx : x ∈ named)
    (hvalid : ∀ r ∈ history, itemLevelSyncChangeSchema R.formats r.entry = true)
    (hasc : (history.map (·.change)).Pairwise fun a b => a.revision < b.revision)
    (h : w.FollowsFeed R u x history) (hr : w.Syncs R u named w') (hrun : w'.client.run ≠ none) :
    w'.FollowsFeed R u x history :=
  hr.keeps hrun h fun _ _ hadv hrun h => h.step hx hvalid hasc hadv hrun

theorem World.HasCopy.syncs {key : κ} {it : VaultItem} (hideal : Ideal R key it) (hx : it.id ∈ named)
    (h : w.HasCopy R u key it) (hr : w.Syncs R u named w') (hrun : w'.client.run ≠ none) : w'.HasCopy R u key it :=
  hr.keeps hrun h fun _ _ hadv hrun h => h.step hideal hx hadv hrun

theorem World.Syncs.ordered (hr : w.Syncs R u named w') (hrun : w'.client.run ≠ none)
    (h : OrderedFeed w.server.itemSyncChanges) : OrderedFeed w'.server.itemSyncChanges :=
  hr.keeps (P := fun w => OrderedFeed w.server.itemSyncChanges) hrun h fun _ _ hadv hrun h => hadv.ordered hrun h

theorem early_pulling (hrun : w.client.run = some (.pulling l 0)) : w.Early := by
  refine ⟨_, hrun, fun l' page he => ?_, nofun⟩
  cases he
  rfl

section
variable {w₁ w₂ : World κ}

theorem Chosen.sent (hchosen : Chosen R x .localVersion remote c c') (hready : w₁.Ready u x) (hstarted : Started c' w₁)
    (howned : ∀ row, w₁.server.vaultItems.get? x = some row → row.userId = u)
    (hremote : remote = (w₁.server.vaultItems.get? x).map (migratedChange x)) (hx : x ∈ named)
    (hpush : w₁.Syncs R u named w₂) (hpulls : w₂.client.run = some (.pulling l 0)) :
    w₂.Settling x ∧ Uploaded R x w₂.server c := by
  have hprogress := hchosen.kept_progress hstarted howned hremote
  obtain ⟨hready₂, hrested₂, huploaded, hvault, -⟩ := hprogress.run hx hready hpush hpulls
  refine ⟨hready₂.settling hrested₂ hpulls, huploaded.congr rfl ?_⟩
  cases hchosen with
  | kept is vault =>
    rw [hvault, hstarted.client]
    exact vault.symm
  | taken row plain isnt => exact absurd rfl isnt
  | removed isnt => exact absurd rfl isnt

theorem Chosen.follows (hchosen : Chosen R x choice remote c c') (hchoice : choice ≠ .localVersion)
    (haside : Aside x choice draw c c') (hready : w₁.Ready u x) (hstarted : Started c' w₁) (hitems : c'.vault.itemIds.Nodup)
    (hfeed : OrderedFeed w₁.server.itemSyncChanges)
    (hremote : remote = (w₁.server.itemSyncChanges.itemRows u x).getLast?.map (·.change)) (hx : x ∈ named)
    (hpush : w₁.Syncs R u named w₂) (hpulls : w₂.client.run = some (.pulling l 0)) :
    w₂.FollowsFeed R u x (w₁.server.itemSyncChanges.itemRows u x) ∧
      Holds R w₂.client.vault x remote (w₂.client.vault.find? x) (w₂.client.sync.revisions.get? x) ∧
      w₂.server.vaultItems.get? x = w₁.server.vaultItems.get? x := by
  obtain ⟨hunchanged, hholds⟩ := hchosen.taken_unchanged hchoice haside.key hitems
  obtain ⟨hready₂, hrested₂, hstill⟩ := (hstarted.rested hunchanged).run hx hready hpush (early_pulling hpulls)
  have hvault : w₂.client.vault = c'.vault := by rw [hstill.vault, hstarted.client]
  have hrevision : w₂.client.sync.revisions.get? x = c'.sync.revisions.get? x := by
    rw [show w₂.client.sync.revisions.get? x = w₁.client.sync.revisions.get? x from congrArg Prod.fst hstill.about,
      hstarted.client]
  have hholds₂ : Holds R w₂.client.vault x remote (w₂.client.vault.find? x) (w₂.client.sync.revisions.get? x) := by
    rw [hvault, hrevision]
    exact hholds
  refine ⟨⟨hready₂.settling hrested₂ hpulls, hpush.ordered (hpulls ▸ Option.some_ne_none _) hfeed, hstill.feed, ?_, ?_⟩,
    hholds₂, hstill.row⟩
  · exact .holds (hremote ▸ hholds₂)
  · intro l' hreturned
    rw [hpulls] at hreturned
    exact (nomatch hreturned)

theorem Aside.copied (haside : Aside x .copy draw c c') (hready : w₁.Ready u draw.randomUUID) (hstarted : Started c' w₁)
    {it : VaultItem} (hfind : c.vault.find? x = some it) (hfresh : FreshId u draw.randomUUID w₁.server c)
    (hx : draw.randomUUID ∈ named) (hpush : w₁.Syncs R u named w₂) (hpulls : w₂.client.run = some (.pulling l 0)) :
    w₂.HasCopy R u c.vault.key (copyOf it draw) ∧ ServerHas R c.vault (copyOf it draw) w₂.server := by
  obtain ⟨hhere, hprogress⟩ := haside.copy_progress hstarted hfind hfresh
  obtain ⟨hready₂, hrested₂, huploaded, hvault, hechoes⟩ := hprogress.run hx hready hpush hpulls
  have hvault₁ : w₁.client.vault = c'.vault := by rw [hstarted.client]
  have hvault₂ : w₂.client.vault = c'.vault := hvault.trans hvault₁
  have hkey₂ : c.vault.key = w₂.client.vault.key := by rw [hvault₂, haside.key]
  have hnone : Echoes R u draw.randomUUID (copyOf it draw) w₁ := by
    intro r hr
    rw [hfresh.feed] at hr
    exact absurd hr List.not_mem_nil
  refine ⟨⟨hready₂.settling hrested₂ hpulls, hkey₂.symm, hechoes _ (hvault₁ ▸ hhere) hnone,
    copyOf it draw, hvault₂ ▸ hhere, .inl rfl⟩, ?_⟩
  unfold Uploaded at huploaded
  rw [hvault₂, hhere] at huploaded
  obtain ⟨row, hrow, hlive, hencrypts⟩ := huploaded
  exact ⟨row, hrow, hlive, hencrypts.key (hkey₂.trans (by rw [hvault₂]))⟩

end

/-- After a resolution that finds the item's history as it is when the run
pushes, the run reports no conflict of the item; the server has the client's
version or the client has the server's, and both have the copy. What the
resolution stores of other items is what was stored. -/
theorem resolution_takes_effect {dbs : List Db} {w₁ w₂ w₃ : World κ} {l₂ l₃ : Locals κ}
    (hsound : c.Sound u w₁.server) (hhistory : ItemHistory R.formats u x w₁.server)
    (hfeed : OrderedFeed w₁.server.itemSyncChanges)
    (hscan : ∀ db ∈ dbs, OrderedFeed db.itemSyncChanges ∧
      db.itemSyncChanges.itemRows u x = w₁.server.itemSyncChanges.itemRows u x)
    (hlookup : lookupConflict R u x dbs 0 none = some remote)
    (hresolve : resolveConflict R u x choice draw remote c = some c')
    (hcopy : choice = .copy → FreshId u draw.randomUUID w₁.server c)
    (hideal : ∀ it, c.vault.find? x = some it → Ideal R c.vault.key (copyOf it draw))
    (hstart : c'.step R u .start w₁.server = some (w₁.server, w₁.client))
    (hpush : w₁.Syncs R u (resolvedIds x choice draw) w₂) (hpulls : w₂.client.run = some (.pulling l₂ 0))
    (hrest : w₂.Syncs R u named w₃) (hreturned : w₃.client.run = some (.returned l₃)) :
    (∀ d ∈ l₃.conflicts, d.itemId ≠ x) ∧ Outcome R x choice draw c w₂ ∧
      ((∀ y ∈ resolvedIds x choice draw, y ∈ named) → Outcome R x choice draw c w₃) ∧ Aside x choice draw c c' := by
  obtain ⟨hchosen, haside⟩ := resolveConflict_cases hresolve
  have hstarted : Started c' w₁ := start_started hstart
  have hitems := resolveConflict_nodup hresolve hsound.items fun hchoice => (hcopy hchoice).item
  have hlast : remote = (w₁.server.itemSyncChanges.itemRows u x).getLast?.map (·.change) := by
    have hfound := lookupConflict_last (fun db hdb => (hscan db hdb).1) (fun db hdb => (hscan db hdb).2) hhistory.valid
      (List.Pairwise.filter _ hfeed.1) hlookup
    rw [List.filter_eq_self.mpr fun r hr => decide_eq_true (hhistory.cursors r hr), Option.or_none] at hfound
    exact hfound
  have hremote := hlast.trans hhistory.last
  have hready : ∀ z, z ∉ c'.sync.conflicts → w₁.Ready u z := fun z hz =>
    hstarted.ready hitems (hchosen.pendingOk haside hsound.pending) hz (haside.serverRevision ▸ hsound.behind)
  have hquiet : x ∉ c'.sync.conflicts := fun hx => ((haside.conflicts x).mp hx).2 rfl
  have hx : x ∈ resolvedIds x choice draw := List.mem_cons_self
  have hrun₃ : w₃.client.run ≠ none := hreturned ▸ Option.some_ne_none _
  -- the item itself, when the run begins to pull
  have hsent : choice = .localVersion → w₂.Settling x ∧ Uploaded R x w₂.server c := by
    rintro rfl
    exact hchosen.sent (hready x hquiet) hstarted hhistory.owned hremote hx hpush hpulls
  have htaken : choice ≠ .localVersion → _ := fun hchoice =>
    hchosen.follows hchoice haside (hready x hquiet) hstarted hitems hfeed hlast hx hpush hpulls
  have hsettling : w₂.Settling x := by
    by_cases hchoice : choice = .localVersion
    · exact (hsent hchoice).1
    · exact (htaken hchoice).1.settling
  obtain ⟨hsettling₃, hrow₃⟩ := hsettling.syncs hrest hrun₃
  -- the copy
  have hcopied : choice = .copy → ∀ it, c.vault.find? x = some it →
      w₂.HasCopy R u c.vault.key (copyOf it draw) ∧ ServerHas R c.vault (copyOf it draw) w₂.server := by
    rintro rfl it hfind
    have hfresh := hcopy rfl
    have hfreshQuiet : draw.randomUUID ∉ c'.sync.conflicts := fun hc => hfresh.quiet ((haside.conflicts _).mp hc).1
    have hmem : draw.randomUUID ∈ resolvedIds x .copy draw := List.mem_cons_of_mem _ (List.mem_singleton_self _)
    exact haside.copied (hready _ hfreshQuiet) hstarted hfind hfresh hmem hpush hpulls
  refine ⟨hsettling₃.no_conflict hreturned, ⟨fun hchoice => (hsent hchoice).2, fun hchoice => ?_, fun hchoice it hfind => ?_⟩,
    fun hnamed => ⟨fun hchoice => ?_, fun hchoice => ?_, fun hchoice it hfind => ?_⟩, haside⟩
  · obtain ⟨-, hholds, hrow⟩ := htaken hchoice
    exact hholds.server (hrow ▸ hremote)
  · obtain ⟨hhas, hserver⟩ := hcopied hchoice it hfind
    exact ⟨hserver, hhas.kept⟩
  · exact (hsent hchoice).2.congr (hrow₃ (hnamed x hx)) rfl
  · obtain ⟨hfollows, -, hrow⟩ := htaken hchoice
    have hfollows₃ := hfollows.syncs (hnamed x hx) hhistory.valid hhistory.ascending hrest hrun₃
    refine (hfollows₃.returned l₃ hreturned).server ?_
    rw [← hlast, hrow₃ (hnamed x hx), hrow]
    exact hremote
  · obtain ⟨hhas, row, hrow, hlive, hencrypts⟩ := hcopied hchoice it hfind
    have hmem : (copyOf it draw).id ∈ named := by
      refine hnamed _ (List.mem_cons_of_mem _ ?_)
      rw [if_pos hchoice]
      exact List.mem_singleton_self _
    have hrowCopy := (hhas.settling.syncs hrest hrun₃).2 hmem
    exact ⟨⟨row, hrowCopy.trans hrow, hlive, hencrypts⟩, (hhas.syncs (hideal it hfind) hmem hrest hrun₃).kept⟩

end

/-! ## A conflict that is resolved with a copy -/

section

def copyDraw : CopyDraw :=
  ⟨"0b8f8ed0-4c1a-4e0e-9d5e-0d1c5a0a0005", "2024-04-04T00:00:00.000Z", "2024-04-04T00:00:00.000Z"⟩

def copyNote : VaultItem := copyOf firstNote copyDraw

def copyRuntime : Runtime Unit where
  formats := sampleFormats
  hostname _ := none
  toLowerCase := id
  hmacSha256Hex _ _ := String.ofList (List.replicate 64 '0')
  encryptItem _ item _ := sampleBundle item
  decryptItem _ bundle id := [secondNote, copyNote].find? fun item => item.id = id && sampleBundle item = bundle

def theirUpsert : ItemLevelEncryptedUpsert :=
  { sampleUpsert with encryptedPayload := (sampleBundle secondNote).encryptedPayload }

def theirStore : Db := ((pushItemLevelSync (fun _ => ⟨id, id⟩) sampleUser ⟨0, [theirUpsert], []⟩).run sampleStore).1

def conflictClient : Client Unit := ⟨⟨(), [firstNote]⟩, { emptySyncState with conflicts := [sampleId] }, none⟩

def resolvedClient : Option (Client Unit) :=
  (lookupConflict copyRuntime sampleUser sampleId [theirStore] 0 none).bind fun remote =>
    resolveConflict copyRuntime sampleUser sampleId .copy copyDraw remote conflictClient

def resolvedMoves : List SampleMove → World Unit → Option (World Unit)
  | [], w => some w
  | m :: moves, w =>
    if m.allowed w then (w.step copyRuntime sampleUser m.act).bind (resolvedMoves moves) else none

def SampleMove.ofRun : SampleMove → Bool
  | plan _ | push _ | pull | abort => true
  | _ => false

theorem resolvedMoves_syncs {moves : List SampleMove} {named : List ItemId} (hrun : moves.all SampleMove.ofRun = true)
    {w w' : World Unit} (h : resolvedMoves moves w = some w') : w.Syncs copyRuntime sampleUser named w' := by
  induction moves generalizing w with
  | nil =>
    cases h
    exact .refl
  | cons m moves ih =>
    rw [List.all_cons, Bool.and_eq_true] at hrun
    unfold resolvedMoves at h
    split at h
    · rename_i hm
      obtain ⟨w₁, h1, h2⟩ := Option.bind_eq_some_iff.mp h
      have hallows := SampleMove.allows hm
      refine .head ⟨m.act, ?_, h1⟩ (ih hrun.2 h2)
      cases m with
      | add => exact (nomatch hrun.1)
      | update => exact (nomatch hrun.1)
      | delete => exact (nomatch hrun.1)
      | start => exact (nomatch hrun.1)
      | plan round => exact hallows
      | push delivered => exact trivial
      | pull => exact trivial
      | abort => exact trivial
    · exact (nomatch h)

theorem conflictClient_sound : conflictClient.Sound sampleUser theirStore where
  items := by decide
  pending := ⟨fun _ _ hp => (nomatch hp), fun _ _ _ _ hp => (nomatch hp)⟩
  behind := Nat.zero_le _

theorem theirStore_history : ItemHistory sampleFormats sampleUser sampleId theirStore := by
  have hrow : (theirStore.vaultItems.get? sampleId).all (fun row => row.userId == sampleUser) = true := by decide +kernel
  refine ⟨by decide +kernel, fun row hget => ?_, by decide +kernel, by decide +kernel, by decide +kernel⟩
  rw [hget] at hrow
  exact eq_of_beq hrow

def resolvedRun : Option (Client Unit × World Unit × World Unit) := do
  let c' ← resolvedClient
  let w₂ ← resolvedMoves [.plan 'a', .push true, .plan 'b']
    ⟨theirStore, { c' with run := some (.planning ⟨c'.sync, c'.vault, 0, []⟩) }⟩
  let w₃ ← resolvedMoves [.pull] w₂
  pure (c', w₂, w₃)

def isPulling : Option (Run Unit) → Bool
  | some (.pulling _ 0) => true
  | _ => false

def isReturned : Option (Run Unit) → Bool
  | some (.returned _) => true
  | _ => false

theorem isPulling_eq {run : Option (Run Unit)} (h : isPulling run = true) : ∃ l, run = some (.pulling l 0) := by
  unfold isPulling at h
  split at h
  · exact ⟨_, rfl⟩
  · exact (nomatch h)

theorem isReturned_eq {run : Option (Run Unit)} (h : isReturned run = true) : ∃ l, run = some (.returned l) := by
  unfold isReturned at h
  split at h
  · exact ⟨_, rfl⟩
  · exact (nomatch h)

/-- `resolution_takes_effect` at a conflict of two versions that is resolved with a copy. -/
theorem resolution_takes_effect_copy : ∃ c' w₃ l₃, resolvedClient = some c' ∧ w₃.client.run = some (.returned l₃) ∧
    (∀ d ∈ l₃.conflicts, d.itemId ≠ sampleId) ∧
    Outcome copyRuntime sampleId .copy copyDraw conflictClient w₃ ∧ Aside sampleId .copy copyDraw conflictClient c' := by
  have h : resolvedRun.any (fun r => isPulling r.2.1.client.run && isReturned r.2.2.client.run) = true := by decide +kernel
  obtain ⟨⟨c', w₂, w₃⟩, hruns, hends⟩ := (Option.any_eq_true ..).mp h
  rw [Bool.and_eq_true] at hends
  obtain ⟨l₂, hpulls⟩ := isPulling_eq hends.1
  obtain ⟨l₃, hreturned⟩ := isReturned_eq hends.2
  unfold resolvedRun at hruns
  obtain ⟨c₁, hclient, hruns⟩ := Option.bind_eq_some_iff.mp hruns
  obtain ⟨w₂', hpush, hruns⟩ := Option.bind_eq_some_iff.mp hruns
  obtain ⟨w₃', hpull, hruns⟩ := Option.bind_eq_some_iff.mp hruns
  cases hruns
  have hclient' := hclient
  unfold resolvedClient at hclient'
  obtain ⟨remote, hlookup, hresolve⟩ := Option.bind_eq_some_iff.mp hclient'
  have hideal : ∀ it, conflictClient.vault.find? sampleId = some it →
      Ideal copyRuntime conflictClient.vault.key (copyOf it copyDraw) := by
    intro it hfind nonces
    have hfirst : conflictClient.vault.find? sampleId = some firstNote := by decide
    cases Option.some.inj (hfirst.symm.trans hfind)
    show [secondNote, copyNote].find? (fun item => item.id = copyNote.id && sampleBundle item = sampleBundle copyNote) = some copyNote
    decide
  have hfeed : OrderedFeed theirStore.itemSyncChanges := by
    unfold OrderedFeed Ordered
    decide +kernel
  have hfresh : FreshId sampleUser copyDraw.randomUUID theirStore conflictClient :=
    ⟨by decide, rfl, by decide, by decide +kernel, by decide +kernel⟩
  have hstart : c'.step copyRuntime sampleUser .start theirStore =
      some (theirStore, { c' with run := some (.planning ⟨c'.sync, c'.vault, 0, []⟩) }) := by
    have hrun : c'.run = none := (resolveConflict_cases hresolve).2.run
    unfold Client.step
    rw [hrun]
  have hscan : ∀ db ∈ [theirStore], OrderedFeed db.itemSyncChanges ∧
      db.itemSyncChanges.itemRows sampleUser sampleId = theirStore.itemSyncChanges.itemRows sampleUser sampleId := by
    intro db hdb
    rw [List.mem_singleton.mp hdb]
    exact ⟨hfeed, rfl⟩
  have hsent : World.Syncs copyRuntime sampleUser (resolvedIds sampleId .copy copyDraw) _ w₂ :=
    resolvedMoves_syncs rfl hpush
  have hrest : World.Syncs copyRuntime sampleUser (resolvedIds sampleId .copy copyDraw) w₂ w₃ :=
    resolvedMoves_syncs rfl hpull
  obtain ⟨hquiet, -, houtcome, haside⟩ := resolution_takes_effect conflictClient_sound theirStore_history hfeed hscan hlookup
    hresolve (fun _ => hfresh) hideal hstart hsent hpulls hrest hreturned
  exact ⟨c', w₃, l₃, hclient, hreturned, hquiet, houtcome fun _ => id, haside⟩

end

end ZeroVault.Browser

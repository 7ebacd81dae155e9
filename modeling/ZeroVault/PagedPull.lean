import ZeroVault.ExactlyOnce
import ZeroVault.ItemFeed
import ZeroVault.Paging

/-!
# Paged pulls

A client pulls page after page while writers of any users commit between its
reads. The feed only grows, behind its largest cursor, so the pages together
are one window of it (`paged_pull`).
-/

namespace ZeroVault

open Lib

/-- The loop of the clients: pages from `cursor` on until one has no successor,
but at most `pages` of them. -/
def pullPages (F : Formats) (userId : UserId) (limit : Nat) :
    Nat → Nat → SyncProg (Except SyncError (List ItemLevelSyncPullResponse))
  | 0, _ => pure (.ok [])
  | pages + 1, cursor => do
    let response ← pullItemLevelSync F userId cursor limit
    match response with
    | .error e => pure (.error e)
    | .ok page =>
      if page.hasMore then do
        let rest ← pullPages F userId limit pages page.cursor
        pure (rest.map (page :: ·))
      else pure (.ok [page])

inductive FeedCall
  | push (call : SyncCall)
  | pull (userId : UserId) (cursor limit pages : Nat)

inductive FeedResult
  | push (result : SyncResult)
  | pull (result : Except SyncError (List ItemLevelSyncPullResponse))

def FeedCall.code (F : Formats) : FeedCall → SyncProg FeedResult
  | push call => do
    let result ← call.code
    pure (.push result)
  | pull userId cursor limit pages => do
    let result ← pullPages F userId limit pages cursor
    pure (.pull result)

/-! ## One page -/

def userRows (t : ItemSyncChanges) (u : UserId) : List ItemSyncChangeRow := t.rows.filter fun r => r.userId = u

def ItemSyncChangeRow.entry (r : ItemSyncChangeRow) : ItemLevelSyncChange := ⟨r.cursor, r.change⟩

def safeLimit (limit : Nat) : Nat := max 1 (min limit 500)

section
variable {F : Formats} {u : UserId} {t : ItemSyncChanges} {c n serverRevision : Nat}

theorem page_take (k : Nat) : t.page u c k = ((userRows t u).filter fun r => c < r.cursor).take k := by
  unfold ItemSyncChanges.page userRows
  rw [List.filter_filter]
  congr 2
  funext r
  rw [Bool.and_comm]

theorem selected_page : (t.page u c (n + 1)).take n = page ItemSyncChangeRow.cursor (userRows t u) c n := by
  rw [page_take, List.take_take, Nat.min_eq_left (Nat.le_succ n)]
  rfl

theorem pull_cursor : (pullResponse F serverRevision c n (t.page u c (n + 1))).cursor =
    pageEnd ItemSyncChangeRow.cursor c (page ItemSyncChangeRow.cursor (userRows t u) c n) := by
  simp only [pullResponse, selected_page, pageEnd]

theorem pull_hasMore : (pullResponse F serverRevision c n (t.page u c (n + 1))).hasMore = true ↔
    n < ((userRows t u).filter fun r => c < r.cursor).length := by
  simp only [pullResponse, page_take, decide_eq_true_eq, List.length_take]
  omega

theorem pull_changes : (pullResponse F serverRevision c n (t.page u c (n + 1))).changes =
    ((page ItemSyncChangeRow.cursor (userRows t u) c n).map (·.entry)).filter (itemLevelSyncChangeSchema F) := by
  simp only [pullResponse, selected_page]
  rfl

theorem pull_advances (hn : 0 < n) (h : (pullResponse F serverRevision c n (t.page u c (n + 1))).hasMore = true) :
    c < (pullResponse F serverRevision c n (t.page u c (n + 1))).cursor := by
  rw [pull_hasMore] at h
  rw [pull_cursor]
  rcases pageEnd_cases ItemSyncChangeRow.cursor c (page ItemSyncChangeRow.cursor (userRows t u) c n) with ⟨hnil, -⟩ | ⟨e, he, hend⟩
  · have hlen : min n ((userRows t u).filter fun r => c < r.cursor).length = 0 := by
      rw [← List.length_take]
      exact congrArg List.length hnil
    omega
  · rw [hend]
    exact (mem_page he).2

/-- A page's items and deletions are its last changes, so folding them is
folding its changes. -/
def foldPage (f : ItemId → Option ItemLevelChange) (p : ItemLevelSyncPullResponse) : ItemId → Option ItemLevelChange :=
  applyAll f (p.items.map (fun item => (item.id, .upsert item)) ++
    p.deletedItems.map fun d => (d.id, .delete d.id d.revision d.deletedAt))

def foldChanges (f : ItemId → Option ItemLevelChange) (changes : List ItemLevelSyncChange) :
    ItemId → Option ItemLevelChange :=
  applyAll f (changes.map fun c => (c.change.itemId, c.change))

theorem split_perm (changes : List ItemLevelSyncChange) :
    ((changes.filterMap fun c => match c.change with
        | .upsert item => some item
        | .delete .. => none).map (fun item => (item.id, ItemLevelChange.upsert item)) ++
      (changes.filterMap fun c => match c.change with
        | .upsert _ => none
        | .delete id revision deletedAt => some (DeletedItem.mk id revision deletedAt)).map
          fun d => (d.id, ItemLevelChange.delete d.id d.revision d.deletedAt)).Perm
      (changes.map fun c => (c.change.itemId, c.change)) := by
  induction changes with
  | nil => exact List.Perm.nil
  | cons c changes ih =>
    obtain ⟨cursor, change⟩ := c
    cases change with
    | upsert item => exact ih.cons _
    | delete id revision deletedAt => exact List.perm_middle.trans (ih.cons _)

theorem foldPage_changes (f : ItemId → Option ItemLevelChange) (rows : List ItemSyncChangeRow) :
    foldPage f (pullResponse F serverRevision c n rows) =
      foldChanges f (pullResponse F serverRevision c n rows).changes := by
  unfold foldPage foldChanges
  simp only [pullResponse]
  generalize ((rows.take n).map fun row => (⟨row.cursor, row.change⟩ : ItemLevelSyncChange)).filter
    (itemLevelSyncChangeSchema F) = changes
  have hlatest : latestByItemId changes = latest (changes.map fun c => (c.change.itemId, c)) := by
    unfold latestByItemId latest
    rw [List.foldl_map]
  have hkeys : ((latestByItemId changes).rows.map Prod.snd).map (fun c => (c.change.itemId, c.change)) =
      (latestByItemId changes).rows.map fun x => (x.1, x.2.change) := by
    rw [List.map_map]
    apply List.map_congr_left
    intro x hx
    rw [hlatest] at hx
    obtain ⟨c, -, rfl⟩ := List.mem_map.mp (mem_latest hx)
    rfl
  have hperm := split_perm ((latestByItemId changes).rows.map Prod.snd)
  rw [hkeys] at hperm
  have hnodup : (((latestByItemId changes).rows.map fun x => (x.1, x.2.change)).map Prod.fst).Nodup := by
    rw [List.map_map]
    exact (latestByItemId changes).nodup
  have hcompact := applyAll_latest (fun c : ItemLevelSyncChange => c.change) f (changes.map fun c => (c.change.itemId, c))
  rw [List.map_map, ← hlatest] at hcompact
  exact (applyAll_perm hperm ((hperm.map Prod.fst).nodup_iff.mpr hnodup) f).trans hcompact

end

/-! ## A loop of pages -/

def endCursor (c : Nat) (pages : List ItemLevelSyncPullResponse) : Nat := pages.foldl (fun _ p => p.cursor) c

def foldPages (f : ItemId → Option ItemLevelChange) (pages : List ItemLevelSyncPullResponse) :
    ItemId → Option ItemLevelChange :=
  pages.foldl foldPage f

/-- The pages of a loop, read from the feeds of some moments; all but the last
have a successor. -/
def PagedFrom (F : Formats) (u : UserId) (n : Nat) :
    Nat → List ItemSyncChanges → List ItemLevelSyncPullResponse → Prop
  | _, [], [] => True
  | c, t :: ts, p :: pages =>
    (∃ serverRevision, p = pullResponse F serverRevision c n (t.page u c (n + 1))) ∧
      (p.hasMore = true ∨ pages = []) ∧ PagedFrom F u n p.cursor ts pages
  | _, _, _ => False

section
variable {F : Formats} {u : UserId} {n : Nat} {ts : List ItemSyncChanges} {pages : List ItemLevelSyncPullResponse}

theorem paged_end {c : Nat} (h : PagedFrom F u n c ts pages) :
    endCursor c pages = endFrom ItemSyncChangeRow.cursor n c (ts.map (userRows · u)) := by
  induction ts generalizing c pages with
  | nil =>
    cases pages with
    | nil => rfl
    | cons p pages => exact h.elim
  | cons t ts ih =>
    cases pages with
    | nil => exact h.elim
    | cons p pages =>
      obtain ⟨⟨r, rfl⟩, -, h⟩ := h
      have ih := ih h
      rw [pull_cursor] at ih
      simp only [endCursor, List.foldl_cons, List.map_cons, endFrom] at ih ⊢
      rw [pull_cursor]
      exact ih

theorem paged_changes {c : Nat} (h : PagedFrom F u n c ts pages) :
    pages.flatMap (·.changes) =
      ((pagedFrom ItemSyncChangeRow.cursor n c (ts.map (userRows · u))).map (·.entry)).filter (itemLevelSyncChangeSchema F) := by
  induction ts generalizing c pages with
  | nil =>
    cases pages with
    | nil => rfl
    | cons p pages => exact h.elim
  | cons t ts ih =>
    cases pages with
    | nil => exact h.elim
    | cons p pages =>
      obtain ⟨⟨r, rfl⟩, -, h⟩ := h
      have ih := ih h
      rw [pull_cursor] at ih
      rw [List.flatMap_cons, ih, pull_changes, List.map_cons, pagedFrom, List.map_append, List.filter_append]

theorem paged_fold {c : Nat} (h : PagedFrom F u n c ts pages) (f : ItemId → Option ItemLevelChange) :
    foldPages f pages = foldChanges f (pages.flatMap (·.changes)) := by
  induction ts generalizing c f pages with
  | nil =>
    cases pages with
    | nil => rfl
    | cons p pages => exact h.elim
  | cons t ts ih =>
    cases pages with
    | nil => exact h.elim
    | cons p pages =>
      obtain ⟨⟨r, rfl⟩, -, h⟩ := h
      have ih := ih h
      unfold foldPages foldChanges at ih ⊢
      rw [List.foldl_cons, ih, foldPage_changes, List.flatMap_cons, List.map_append, applyAll_append]
      rfl

/-- All but the last page have a successor; each was read behind the end of the
pages before it. -/
theorem paged_split {c : Nat} (h : PagedFrom F u n c ts pages) :
    ∀ pre p post, pages = pre ++ p :: post → ∃ us t vs serverRevision, ts = us ++ t :: vs ∧ us.length = pre.length ∧
      p = pullResponse F serverRevision (endCursor c pre) n (t.page u (endCursor c pre) (n + 1)) ∧
      PagedFrom F u n c us pre ∧ (p.hasMore = true ∨ post = []) := by
  induction ts generalizing c pages with
  | nil =>
    cases pages with
    | nil =>
      intro pre p post hp
      simp at hp
    | cons p pages => exact h.elim
  | cons t ts ih =>
    cases pages with
    | nil => exact h.elim
    | cons q pages =>
      obtain ⟨⟨r, hq⟩, hmore, h⟩ := h
      intro pre p post hp
      cases pre with
      | nil =>
        obtain ⟨rfl, rfl⟩ := List.cons.inj hp
        exact ⟨[], t, ts, r, rfl, rfl, hq, trivial, hmore⟩
      | cons q' pre =>
        obtain ⟨rfl, hpost⟩ := List.cons.inj hp
        obtain ⟨us, t', vs, r', rfl, hlen, hpage, hpre, hend⟩ := ih h pre p post hpost
        have hmore' : q.hasMore = true ∨ pre = [] := by
          rcases hmore with hmore | hnil
          · exact .inl hmore
          · rw [hnil] at hpost
            simp at hpost
        exact ⟨t :: us, t', vs, r', rfl, congrArg (· + 1) hlen, hpage, ⟨⟨r, hq⟩, hmore', hpre⟩, hend⟩

theorem paged_length {c : Nat} (h : PagedFrom F u n c ts pages) : ts.length = pages.length := by
  induction ts generalizing c pages with
  | nil =>
    cases pages with
    | nil => rfl
    | cons p pages => exact h.elim
  | cons t ts ih =>
    cases pages with
    | nil => exact h.elim
    | cons p pages => exact congrArg (· + 1) (ih h.2.2)

theorem paged_full {c : Nat} (h : PagedFrom F u n c ts pages) (hall : ∀ p ∈ pages, p.hasMore = true) :
    (pagedFrom ItemSyncChangeRow.cursor n c (ts.map (userRows · u))).length = pages.length * n := by
  induction ts generalizing c pages with
  | nil =>
    cases pages with
    | nil => simp [pagedFrom]
    | cons p pages => exact h.elim
  | cons t ts ih =>
    cases pages with
    | nil => exact h.elim
    | cons p pages =>
      obtain ⟨⟨r, rfl⟩, -, h⟩ := h
      have hrest := ih h fun p hp => hall p (List.mem_cons_of_mem _ hp)
      have hmore := pull_hasMore.mp (hall _ List.mem_cons_self)
      have hlen : (page ItemSyncChangeRow.cursor (userRows t u) c n).length =
          min n ((userRows t u).filter fun r => c < r.cursor).length := List.length_take
      rw [pull_cursor] at hrest
      rw [List.map_cons, pagedFrom, List.length_append, hrest, List.length_cons, Nat.succ_mul]
      omega

theorem paged_advances (hn : 0 < n) {c : Nat} (h : PagedFrom F u n c ts pages) {pre post : List ItemLevelSyncPullResponse}
    {p : ItemLevelSyncPullResponse} (hp : pages = pre ++ p :: post) (hmore : p.hasMore = true) :
    endCursor c pre < p.cursor := by
  obtain ⟨us, t, vs, r, -, -, hpage, -, -⟩ := paged_split h pre p post hp
  rw [hpage] at hmore ⊢
  exact pull_advances hn hmore

end

/-! ## What a loop guarantees -/

/-- What a loop returns it read in pairs of reads, the user's row and a page. -/
def PullPost (F : Formats) (u : UserId) (limit fuel c : Nat) (tr : List SyncStep) :
    Except SyncError (List ItemLevelSyncPullResponse) → Prop
  | .error _ => ∃ d ∈ tr, d.before.users.contains u = false
  | .ok pages => ∃ reads : List (Db × Db),
    tr = reads.flatMap (fun r => [queryStep r.1, queryStep r.2]) ∧
      PagedFrom F u (safeLimit limit) c (reads.map fun r => r.2.itemSyncChanges) pages ∧
      (pages.length = fuel ∨ ∃ last, pages.getLast? = some last ∧ last.hasMore = false)

def ReadGuar (_ : List SyncStep) (e : SyncStep) : Prop := e.label = .query ∧ e.after = e.before

section
variable {F : Formats} {u : UserId} {limit : Nat}

theorem pullPages_succ (fuel c : Nat) :
    pullPages F u limit (fuel + 1) c = Prog.act (fun s => (.query, s)) fun s₁ =>
      match findUserById u s₁ with
      | none => Prog.ret (.error .userNotFound)
      | some user => Prog.act (fun s => (.query, s)) fun s₂ =>
        let page := pullResponse F user.serverRevision c (safeLimit limit)
          (s₂.itemSyncChanges.page u c (safeLimit limit + 1))
        if page.hasMore then pullPages F u limit fuel page.cursor >>= fun rest => Prog.ret (rest.map (page :: ·))
        else Prog.ret (.ok [page]) := by
  rw [pullPages, pullItemLevelSync]
  simp only [Prog.query_bind, Prog.act_bind]
  congr 1
  funext s
  cases findUserById u s <;> rfl

theorem pullPages_sat (fuel c : Nat) (tr : List SyncStep) :
    Sat ReadGuar (fun tr' result => ∃ tr'', tr' = tr ++ tr'' ∧ PullPost F u limit fuel c tr'' result)
      (pullPages F u limit fuel c) tr := by
  -- the reads so far stand in front of those of the recursive call
  induction fuel generalizing c tr with
  | zero => exact ⟨[], (List.append_nil tr).symm, [], rfl, trivial, .inl rfl⟩
  | succ fuel ih =>
    rw [pullPages_succ]
    intro s₁
    refine ⟨⟨rfl, rfl⟩, ?_⟩
    dsimp only
    cases hu : findUserById u s₁ with
    | none =>
      have hnone : s₁.users.contains u = false := by
        unfold Table.contains
        rw [show s₁.users.get? u = none from hu]
        rfl
      exact ⟨[queryStep s₁], rfl, queryStep s₁, List.mem_cons_self, hnone⟩
    | some user =>
      intro s₂
      refine ⟨⟨rfl, rfl⟩, ?_⟩
      dsimp only
      generalize hpage : pullResponse F user.serverRevision c (safeLimit limit)
        (s₂.itemSyncChanges.page u c (safeLimit limit + 1)) = page
      by_cases hmore : page.hasMore = true
      · rw [if_pos hmore]
        refine (ih _ _).bind ?_
        rintro tr' rest - ⟨tr'', rfl, hrest⟩
        refine ⟨[queryStep s₁, queryStep s₂] ++ tr'', by simp [queryStep], ?_⟩
        cases rest with
        | error e =>
          obtain ⟨d, hd, hnone⟩ := hrest
          exact ⟨d, List.mem_append_right _ hd, hnone⟩
        | ok rest =>
          obtain ⟨reads, rfl, hpaged, hend⟩ := hrest
          refine ⟨(s₁, s₂) :: reads, rfl, ⟨⟨user.serverRevision, hpage.symm⟩, .inl hmore, hpaged⟩, ?_⟩
          rcases hend with hlen | ⟨last, hlast, hnone⟩
          · left
            rw [List.length_cons, hlen]
          · right
            refine ⟨last, ?_, hnone⟩
            rw [List.getLast?_cons, hlast]
            rfl
      · rw [if_neg hmore]
        refine ⟨[queryStep s₁, queryStep s₂], by simp [queryStep], [(s₁, s₂)], rfl,
          ⟨⟨user.serverRevision, hpage.symm⟩, .inr rfl, trivial⟩, .inr ⟨page, rfl, ?_⟩⟩
        exact Bool.eq_false_iff.mpr hmore

/-- With nobody else at the store the loop ends, once it may read enough pages. -/
theorem pullPages_ends {s : Db} (hu : s.users.contains u = true) (fuel c : Nat)
    (hfuel : ((userRows s.itemSyncChanges u).filter fun r => c < r.cursor).length < fuel * safeLimit limit)
    (ho : Ordered ItemSyncChangeRow.cursor s.itemSyncChanges.rows) :
    ∃ pages last, (pullPages F u limit fuel c).run s = (s, .ok pages) ∧ pages.getLast? = some last ∧
      last.hasMore = false := by
  obtain ⟨user, huser⟩ := Table.contains_eq_true.mp hu
  have huser : findUserById u s = some user := huser
  induction fuel generalizing c with
  | zero => omega
  | succ fuel ih =>
    rw [pullPages_succ]
    simp only [Prog.run_act, huser]
    generalize hpage : pullResponse F user.serverRevision c (safeLimit limit)
      (s.itemSyncChanges.page u c (safeLimit limit + 1)) = page
    by_cases hmore : page.hasMore = true
    · rw [if_pos hmore, Prog.run_bind]
      have hleft : ((userRows s.itemSyncChanges u).filter fun r => page.cursor < r.cursor).length <
          fuel * safeLimit limit := by
        subst hpage
        rw [pull_hasMore] at hmore
        rw [pull_cursor]
        have hord : Ordered ItemSyncChangeRow.cursor (userRows s.itemSyncChanges u) := List.Pairwise.filter _ ho
        have hsplit : ((userRows s.itemSyncChanges u).filter fun r => c < r.cursor).length = _ :=
          length_page (n := safeLimit limit) hord
        have hpage : (page ItemSyncChangeRow.cursor (userRows s.itemSyncChanges u) c (safeLimit limit)).length = safeLimit limit := by
          have hlen : (page ItemSyncChangeRow.cursor (userRows s.itemSyncChanges u) c (safeLimit limit)).length =
              min (safeLimit limit) ((userRows s.itemSyncChanges u).filter fun r => c < r.cursor).length :=
            List.length_take
          omega
        have hmul : (fuel + 1) * safeLimit limit = fuel * safeLimit limit + safeLimit limit := Nat.succ_mul ..
        omega
      obtain ⟨pages, last, hrun, hlast, hnone⟩ := ih page.cursor hleft
      rw [hrun]
      refine ⟨page :: pages, last, rfl, ?_, hnone⟩
      rw [List.getLast?_cons, hlast]
      rfl
    · rw [if_neg hmore]
      exact ⟨[page], page, rfl, rfl, Bool.eq_false_iff.mpr hmore⟩

end

/-! ## A feed that grows -/

/-- The rows of an `AUTOINCREMENT` table, listed by their key. -/
def OrderedFeed (t : ItemSyncChanges) : Prop :=
  Ordered ItemSyncChangeRow.cursor t.rows ∧ ∀ r ∈ t.rows, r.cursor ≤ t.seq

structure FeedGrows (s s' : Db) : Prop where
  users : ∀ u, s.users.contains u = true → s'.users.contains u = true
  rows : s.itemSyncChanges.rows <+: s'.itemSyncChanges.rows
  ordered : OrderedFeed s.itemSyncChanges → OrderedFeed s'.itemSyncChanges

theorem FeedGrows.refl (s : Db) : FeedGrows s s := ⟨fun _ => id, List.prefix_rfl, id⟩

theorem FeedGrows.trans {s₁ s₂ s₃ : Db} (h12 : FeedGrows s₁ s₂) (h23 : FeedGrows s₂ s₃) : FeedGrows s₁ s₃ :=
  ⟨fun u hu => h23.users u (h12.users u hu), h12.rows.trans h23.rows, h23.ordered ∘ h12.ordered⟩

theorem append_ordered {t : ItemSyncChanges} (ho : OrderedFeed t) (u : UserId) (id : ItemId) (n : Nat)
    (change : ItemLevelChange) : OrderedFeed (t.append u id n change) := by
  obtain ⟨hrows, hseq⟩ := ho
  constructor
  · refine List.pairwise_append.mpr ⟨hrows, List.pairwise_singleton _ _, ?_⟩
    intro r hr new hnew
    rw [List.mem_singleton.mp hnew]
    have := hseq r hr
    dsimp only
    omega
  · intro r hr
    rcases List.mem_append.mp hr with hr | hr
    · exact Nat.le_succ_of_le (hseq r hr)
    · rw [List.mem_singleton.mp hr]
      exact Nat.le_refl _

theorem exec_feedGrows {q : SyncStmt} {db db' : Db} (h : q.exec db = some db') : FeedGrows db db' := by
  refine ⟨fun u hu => ?_, ?_, fun ho => ?_⟩
  · have hx : execBatch [q] db = some db' := (execAll_cons SyncStmt.exec).mpr ⟨db', h, rfl⟩
    rw [batch_users hx, hu]
  · rw [exec_feed h]
    split
    · exact List.prefix_append _ _
    · exact List.prefix_rfl
  · rw [exec_feed h]
    split
    · exact append_ordered ho ..
    · exact ho

theorem userRows_prefix {t t' : ItemSyncChanges} (h : t.rows <+: t'.rows) (u : UserId) :
    userRows t u <+: userRows t' u := h.filter _

/-! ## Runs -/

def FeedCall.Valid (F : Formats) : FeedCall → Prop
  | push call => call.Valid F
  | pull .. => True

def FeedCall.guar : FeedCall → List SyncStep → SyncStep → Prop
  | push call => call.guar
  | pull .. => ReadGuar

def FeedCall.post (F : Formats) : FeedCall → List SyncStep → FeedResult → Prop
  | pull u c limit fuel, tr, .pull result => PullPost F u limit fuel c tr result
  | _, _, _ => True

theorem FeedCall.sat (F : Formats) (c : FeedCall) : Sat c.guar (c.post F) (c.code F) [] := by
  cases c with
  | push call => exact call.sat.bind fun _ _ _ _ => trivial
  | pull u c limit fuel =>
    refine (pullPages_sat fuel c []).bind ?_
    rintro tr result - ⟨tr', rfl, hpost⟩
    exact hpost

section
variable {F : Formats} {s₀ s : Db} {h : History FeedCall Db (Access SyncStmt)}
variable {ps : List (Proc FeedCall Db (Access SyncStmt) FeedResult)}

theorem along_feedGrows (hr : Reach (FeedCall.code F) (·.Valid F) s₀ h s ps) : Along FeedGrows s₀ h := by
  refine reach_rel (fun c _ => c.sat F) FeedGrows.refl (fun _ _ _ => FeedGrows.trans) ?_ hr
  intro c tr e _ _ _ hg
  cases c with
  | push call =>
    rcases guar_step hg with ⟨stmts, -, hx⟩ | ⟨-, he⟩
    · exact execAll_rel SyncStmt.exec FeedGrows.refl (fun _ _ _ => FeedGrows.trans)
        (fun q _ _ _ hq => exec_feedGrows hq) hx
    · rw [he]
      exact .refl _
  | pull u c limit fuel =>
    obtain ⟨-, he⟩ := hg
    rw [he]
    exact .refl _

/-- What a loop of pulls from cursor `c` returned, by the feed of `s`. Either its
last page has no successor, and then it returned all the valid changes that the
feed of its last read has, or it used up its bound, and then the feed has at
least that many pages. -/
structure Paged (F : Formats) (u : UserId) (c limit fuel : Nat) (tr : List SyncStep) (s : Db)
    (pages : List ItemLevelSyncPullResponse) : Prop where
  advances : ∀ pre p post, pages = pre ++ p :: post → p.hasMore = true → endCursor c pre < p.cursor
  changes : pages.flatMap (·.changes) =
    ((window ItemSyncChangeRow.cursor (userRows s.itemSyncChanges u) c (endCursor c pages)).map (·.entry)).filter
      (itemLevelSyncChangeSchema F)
  ascending : (pages.flatMap (·.changes)).Pairwise fun a b => a.cursor < b.cursor
  fold : ∀ f, foldPages f pages = foldChanges f (pages.flatMap (·.changes))
  ends : (∃ last d, pages.getLast? = some last ∧ last.hasMore = false ∧ tr.getLast? = some d ∧
      pages.flatMap (·.changes) =
        (((userRows d.before.itemSyncChanges u).filter fun r => c < r.cursor).map (·.entry)).filter
          (itemLevelSyncChangeSchema F)) ∨
    (pages.length = fuel ∧
      fuel * safeLimit limit ≤ ((userRows s.itemSyncChanges u).filter fun r => c < r.cursor).length)

/-- What the reads of a loop tell about its pages, once the feed has grown to
the one of `s`. -/
theorem paged_window {u : UserId} {n c : Nat} {reads : List (Db × Db)} {pages : List ItemLevelSyncPullResponse}
    (hp : PagedFrom F u n c (reads.map fun r => r.2.itemSyncChanges) pages) (hs : OrderedFeed s.itemSyncChanges)
    (hpre : ∀ r ∈ reads, r.2.itemSyncChanges.rows <+: s.itemSyncChanges.rows) :
    pages.flatMap (·.changes) =
      ((window ItemSyncChangeRow.cursor (userRows s.itemSyncChanges u) c (endCursor c pages)).map (·.entry)).filter
        (itemLevelSyncChangeSchema F) := by
  have hord : Ordered ItemSyncChangeRow.cursor (userRows s.itemSyncChanges u) := List.Pairwise.filter _ hs.1
  rw [paged_changes hp, paged_end hp, pagedFrom_window hord]
  intro t ht
  rw [List.map_map] at ht
  obtain ⟨r, hr, rfl⟩ := List.mem_map.mp ht
  exact userRows_prefix (hpre r hr) u

/-- A loop whose last page has no successor returned all that the feed of its
last read held. -/
theorem paged_complete {u : UserId} {n c : Nat} {reads : List (Db × Db)} {pages : List ItemLevelSyncPullResponse}
    {last : ItemLevelSyncPullResponse}
    (hp : PagedFrom F u n c (reads.map fun r => r.2.itemSyncChanges) pages) (hlast : pages.getLast? = some last)
    (hmore : last.hasMore = false)
    (ho : ∀ r ∈ reads, OrderedFeed r.2.itemSyncChanges)
    (hpre : reads.Pairwise fun r r' => r.2.itemSyncChanges.rows <+: r'.2.itemSyncChanges.rows) :
    ∃ init r, reads = init ++ [r] ∧ pages.flatMap (·.changes) =
      (((userRows r.2.itemSyncChanges u).filter fun r => c < r.cursor).map (·.entry)).filter
        (itemLevelSyncChangeSchema F) := by
  obtain ⟨front, hpages⟩ : ∃ front, pages = front ++ [last] :=
    ⟨_, (List.dropLast_append_getLast? last hlast).symm⟩
  obtain ⟨us, t, vs, k, hts, hlen, hpage, hfront, -⟩ := paged_split hp front last [] hpages
  have hvs : vs = [] := by
    have hcount := paged_length hp
    rw [hts, hpages] at hcount
    simp only [List.length_append, List.length_cons, List.length_nil] at hcount
    apply List.eq_nil_of_length_eq_zero
    omega
  subst hvs
  obtain ⟨init, rest, rfl, hinit, hrest⟩ := List.map_eq_append_iff.mp hts
  obtain ⟨r, hr, rfl⟩ : ∃ r, rest = [r] ∧ r.2.itemSyncChanges = t := by
    cases rest with
    | nil => cases hrest
    | cons r rest =>
      obtain ⟨hr, hnil⟩ := List.cons.inj hrest
      exact ⟨r, by rw [List.map_eq_nil_iff.mp hnil], hr⟩
  subst hr
  refine ⟨init, r, rfl, ?_⟩
  have hord : Ordered ItemSyncChangeRow.cursor (userRows r.2.itemSyncChanges u) :=
    List.Pairwise.filter _ (ho r (by simp)).1
  rw [paged_changes hp, List.map_append, List.map_append, List.map_singleton, List.map_singleton, pagedFrom_all hord]
  · intro t ht
    rw [List.map_map] at ht
    obtain ⟨r', hr', rfl⟩ := List.mem_map.mp ht
    exact userRows_prefix ((List.pairwise_append.mp hpre).2.2 r' hr' r (List.mem_singleton_self r)) u
  · have hend : endCursor c front = endFrom ItemSyncChangeRow.cursor n c ((init.map fun r => r.2.itemSyncChanges).map (userRows · u)) := by
      rw [hinit]
      exact paged_end hfront
    rw [← hend]
    have hno : ¬ n < ((userRows r.2.itemSyncChanges u).filter fun r => endCursor c front < r.cursor).length := by
      rw [← @pull_hasMore F u r.2.itemSyncChanges (endCursor c front) n k, ← hpage, hmore]
      exact Bool.false_ne_true
    omega

theorem pairwise_reads {reads : List (Db × Db)}
    (hb : (reads.flatMap fun r => [queryStep r.1, queryStep r.2]).Pairwise fun d e => FeedGrows d.after e.before) :
    reads.Pairwise fun r r' => FeedGrows r.2 r'.2 := by
  induction reads with
  | nil => exact List.Pairwise.nil
  | cons r reads ih =>
    rw [List.flatMap_cons, List.pairwise_append] at hb
    obtain ⟨-, hrest, hcross⟩ := hb
    refine List.pairwise_cons.mpr ⟨fun r' hr' => ?_, ih hrest⟩
    have hmem : queryStep r'.2 ∈ reads.flatMap fun r => [queryStep r.1, queryStep r.2] :=
      List.mem_flatMap.mpr ⟨r', hr', by simp⟩
    exact hcross (queryStep r.2) (by simp) (queryStep r'.2) hmem

theorem getLast?_reads {reads : List (Db × Db)} {r : Db × Db} :
    ((reads ++ [r]).flatMap fun r => [queryStep r.1, queryStep r.2]).getLast? = some (queryStep r.2) := by
  simp

theorem finished_pull (h0 : OrderedFeed s₀.itemSyncChanges) (hr : Reach (FeedCall.code F) (·.Valid F) s₀ h s ps)
    {i : Nat} {u : UserId} {c limit fuel : Nat} {result : Except SyncError (List ItemLevelSyncPullResponse)}
    (hp : ps[i]? = some ⟨.pull u c limit fuel, .ret (.pull result)⟩) (hu : s₀.users.contains u = true) :
    ∃ pages, result = .ok pages ∧ Paged F u c limit fuel (own i h) s pages := by
  have halong := along_feedGrows hr
  have hs : FeedGrows s₀ s := by
    have hlast := (show Along FeedGrows s₀ ([] ++ h) from halong).last
    rwa [List.nil_append, reach_store hr] at hlast
  have hord := hs.ordered h0
  have hbefore := halong.before hr i
  have hsat : ∀ c : FeedCall, c.Valid F → Sat c.guar (c.post F) (c.code F) [] := fun c _ => c.sat F
  have hpost : PullPost F u limit fuel c (own i h) result := reach_result hsat hr hp
  cases result with
  | error e =>
    obtain ⟨d, hd, hnone⟩ := hpost
    rw [(halong.start hr hd).users u hu] at hnone
    cases hnone
  | ok pages =>
    obtain ⟨reads, htr, hpaged, hend⟩ := hpost
    have hmem : ∀ r ∈ reads, queryStep r.2 ∈ own i h := by
      intro r hr
      rw [htr]
      exact List.mem_flatMap.mpr ⟨r, hr, by simp⟩
    have hpre : ∀ r ∈ reads, r.2.itemSyncChanges.rows <+: s.itemSyncChanges.rows :=
      fun r hr => (hbefore.now _ (hmem r hr)).rows
    have hwindow := paged_window hpaged hord hpre
    have hadvances : 0 < safeLimit limit := Nat.lt_of_lt_of_le Nat.zero_lt_one (Nat.le_max_left _ _)
    refine ⟨pages, rfl, fun pre p post he => paged_advances hadvances hpaged he, hwindow, ?_,
      paged_fold hpaged, ?_⟩
    · rw [hwindow]
      apply List.Pairwise.filter
      refine List.pairwise_map.mpr ?_
      have hrows : Ordered ItemSyncChangeRow.cursor s.itemSyncChanges.rows := hord.1
      exact List.Pairwise.filter _ (List.Pairwise.filter _ hrows)
    -- either the fuel ran out on full pages, or some page was the last
    · by_cases hall : ∀ p ∈ pages, p.hasMore = true
      · right
        have hlen : pages.length = fuel := by
          rcases hend with hlen | ⟨last, hlast, hnone⟩
          · exact hlen
          · rw [hall last (List.mem_of_getLast? hlast)] at hnone
            cases hnone
        refine ⟨hlen, ?_⟩
        have hfull := paged_full hpaged hall
        have hrows : Ordered ItemSyncChangeRow.cursor (userRows s.itemSyncChanges u) := List.Pairwise.filter _ hord.1
        have hts : ∀ t ∈ (reads.map fun r => r.2.itemSyncChanges).map (userRows · u), t <+: userRows s.itemSyncChanges u := by
          intro t ht
          rw [List.map_map] at ht
          obtain ⟨r, hr, rfl⟩ := List.mem_map.mp ht
          exact userRows_prefix (hpre r hr) u
        rw [pagedFrom_window hrows hts, hlen] at hfull
        rw [← hfull]
        exact length_window_le
      · left
        obtain ⟨front, last, post, hpages, hno⟩ : ∃ front last post, pages = front ++ last :: post ∧ last.hasMore = false := by
          simp only [not_forall, Bool.not_eq_true] at hall
          obtain ⟨p, hp, hno⟩ := hall
          obtain ⟨front, post, he⟩ := List.append_of_mem hp
          exact ⟨front, p, post, he, hno⟩
        obtain ⟨us, t, vs, k, -, -, -, -, hmore⟩ := paged_split hpaged front last post hpages
        obtain rfl : post = [] := by
          rcases hmore with hmore | hnil
          · rw [hno] at hmore
            cases hmore
          · exact hnil
        have hlast : pages.getLast? = some last := by rw [hpages]; simp
        have hfrom : ∀ r ∈ reads, OrderedFeed r.2.itemSyncChanges :=
          fun r hr' => (halong.start hr (hmem r hr')).ordered h0
        have hpairs := pairwise_reads (htr ▸ hbefore.pairwise)
        obtain ⟨init, r, hreads, hcomplete⟩ := paged_complete hpaged hlast hno hfrom (hpairs.imp fun h => h.rows)
        refine ⟨last, queryStep r.2, hlast, hno, ?_, hcomplete⟩
        rw [htr, hreads]
        exact getLast?_reads

/-- In every run of pushes and loops of pulls each finished loop is `Paged`, and
once the writers stop a loop ends whose bound exceeds the pages of the feed. -/
theorem paged_pull (h0 : OrderedFeed s₀.itemSyncChanges) (hr : Reach (FeedCall.code F) (·.Valid F) s₀ h s ps) {u : UserId}
    (hu : s₀.users.contains u = true) (c limit fuel : Nat) :
    (∀ (i : Nat) result, ps[i]? = some ⟨.pull u c limit fuel, .ret (.pull result)⟩ →
      ∃ pages, result = .ok pages ∧ Paged F u c limit fuel (own i h) s pages) ∧
    (((userRows s.itemSyncChanges u).filter fun r => c < r.cursor).length < fuel * safeLimit limit →
      ∃ pages last, (pullPages F u limit fuel c).run s = (s, .ok pages) ∧ pages.getLast? = some last ∧
        last.hasMore = false) := by
  have hs : FeedGrows s₀ s := by
    have hlast := (show Along FeedGrows s₀ ([] ++ h) from along_feedGrows hr).last
    rwa [List.nil_append, reach_store hr] at hlast
  exact ⟨fun i result hp => finished_pull h0 hr hp hu,
    fun hfuel => pullPages_ends (hs.users u hu) fuel c hfuel (hs.ordered h0).1⟩

end

/-! ## A push and a pull -/

def pushThenPull : Play FeedCall Db (Access SyncStmt) FeedResult :=
  play (FeedCall.code sampleFormats) sampleStore
    [.issue (.push samplePush), .step 0, .step 0, .step 0, .step 0,
      .issue (.pull sampleUser 0 1 2), .step 1, .step 1]

theorem pushThenPull_reach :
    Reach (FeedCall.code sampleFormats) (·.Valid sampleFormats) sampleStore pushThenPull.1 pushThenPull.2.1
      pushThenPull.2.2 := by
  unfold pushThenPull
  apply play_reach
  intro c hc
  simp only [List.mem_cons, Move.issue.injEq, reduceCtorEq, List.not_mem_nil, or_false, false_or] at hc
  rcases hc with rfl | rfl
  · exact samplePush_valid
  · exact trivial

/-- `paged_pull` at a pull that follows a push. -/
theorem paged_pull_pushThenPull :
    ∃ pages, Paged sampleFormats sampleUser 0 1 2 (own 1 pushThenPull.1) pushThenPull.2.1 pages ∧
      (pages.flatMap (·.changes)).length = 1 := by
  have h0 : OrderedFeed sampleStore.itemSyncChanges := ⟨List.Pairwise.nil, nofun⟩
  obtain ⟨pages, hp, hlen⟩ : ∃ pages, pushThenPull.2.2[1]? = some ⟨.pull sampleUser 0 1 2, .ret (.pull (.ok pages))⟩ ∧
      (pages.flatMap (·.changes)).length = 1 := ⟨_, rfl, by decide⟩
  obtain ⟨pages', he, hpaged⟩ := (paged_pull h0 pushThenPull_reach (u := sampleUser) (by decide) 0 1 2).1 1 _ hp
  cases he
  exact ⟨pages, hpaged, hlen⟩

end ZeroVault

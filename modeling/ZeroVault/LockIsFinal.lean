import ZeroVault.ExtensionVault

/-!
# A lock is final

`lock_final`: once a lock is done, the session storage holds no vault access
until an unlock that starts later, in every run whose operations write the entry
only where no lock has come between. The operations do not check this: an entry
that was read before a lock is renewed after it.
-/

namespace ZeroVault.Extension

open Lib

/-! ## What every access does to the entry -/

structure Keeps (tr : List (Step Session Use)) (e : Step Session Use) : Prop where
  keeps : e.label ≠ .setAccess → e.label ≠ .removeAll → e.after.vaultAccess = e.before.vaultAccess
  removes : e.label = .removeAll → e.after.vaultAccess = none
  /-- a lock ends after its own removal -/
  ends : e.label = .badge none → ∃ t₁ r t₂, tr = t₁ ++ r :: t₂ ∧ r.label = .removeAll ∧ ∀ x ∈ t₂, x.label ≠ .badge none

/-- Wherever a call runs it, the program meets `Keeps`. -/
def Safe {α : Type} (p : ExtProg α) : Prop := ∀ tr, Sat Keeps (fun _ _ => True) p tr

section
variable {α β : Type} {p : ExtProg β} {k : β → ExtProg α} {l : Use} {W : Outside}

theorem Safe.pure (a : α) : Safe (pure a : ExtProg α) := fun _ => trivial

theorem Safe.throw (e : String) : Safe (TryProg.throw e : ExtProg α) := fun _ => trivial

theorem Safe.bind (hp : Safe p) (hk : ∀ a, Safe (k a)) : Safe (p >>= k) := by
  intro tr
  refine Sat.bind (hp tr) fun tr' r _ _ => ?_
  cases r with
  | error e => trivial
  | ok a => exact hk a tr'

theorem Safe.orElse {p : ExtProg α} (hp : Safe p) (a : α) : Safe (orElse p a) := by
  intro tr
  refine Sat.bind (hp tr) fun tr' r _ _ => ?_
  cases r <;> trivial

theorem ask_safe {g : Session → α} (hr : l ≠ .removeAll) (hb : l ≠ .badge none) : Safe (ask l g) :=
  fun _ _ => ⟨⟨fun _ _ => rfl, fun h => absurd h hr, fun h => absurd h hb⟩, trivial⟩

theorem update_safe {f : Session → Session} (hf : ∀ s, l ≠ .setAccess → (f s).vaultAccess = s.vaultAccess)
    (hr : l ≠ .removeAll) (hb : l ≠ .badge none) : Safe (update l f) :=
  fun _ s => ⟨⟨fun h _ => hf s h, fun h => absurd h hr, fun h => absurd h hb⟩, trivial⟩

theorem dateNow_safe : Safe dateNow := ask_safe nofun nofun
theorem getAccess_safe : Safe getAccess := ask_safe nofun nofun
theorem setAccess_safe {entry : Access} : Safe (setAccess entry) := update_safe (fun _ h => absurd rfl h) nofun nofun
theorem setPending_safe {entries : List PendingLogin} : Safe (setPending entries) :=
  update_safe (fun _ _ => rfl) nofun nofun
theorem setBadge_safe {tabId : Nat} : Safe (setBadge (some tabId)) := update_safe (fun _ _ => rfl) nofun nofun

theorem check_safe {place : String} : Safe (check W place) := by
  unfold check
  split
  · exact .pure _
  · exact .throw _

theorem readDisk_safe {place : String} : Safe (readDisk W place) := by
  unfold readDisk
  split
  · exact .throw _
  · exact .pure _

/-! ## Lock and access -/

/-- The call's last removal is not followed by the end of a lock. -/
def Removed (tr : List (Step Session Use)) : Prop :=
  ∃ t₁ r t₂, tr = t₁ ++ r :: t₂ ∧ r.label = Use.removeAll ∧ ∀ x ∈ t₂, x.label ≠ Use.badge none

theorem clearBadges_sat {tabIds : List Nat} {tr : List (Step Session Use)} (h : Removed tr) :
    Sat Keeps (fun _ _ => True) (clearBadges tabIds) tr := by
  induction tabIds generalizing tr with
  | nil => exact fun s => ⟨⟨fun _ _ => rfl, nofun, fun _ => h⟩, trivial⟩
  | cons tabId tabIds ih =>
    intro s
    refine ⟨⟨fun _ _ => rfl, nofun, nofun⟩, ih ?_⟩
    obtain ⟨t₁, r, t₂, rfl, hr, ht⟩ := h
    refine ⟨t₁, r, t₂ ++ [_], List.append_assoc .., hr, fun x hx => ?_⟩
    rcases List.mem_append.mp hx with hx | hx
    · exact ht x hx
    · rw [List.mem_singleton.mp hx]; nofun

theorem removeAll_sat {tr : List (Step Session Use)} : Sat Keeps (fun tr' _ => Removed tr') removeAll tr := by
  intro s
  refine ⟨⟨fun _ h => absurd rfl h, fun _ => rfl, nofun⟩, ?_⟩
  exact ⟨tr, _, [], rfl, rfl, fun _ hx => absurd hx List.not_mem_nil⟩

theorem lock_safe : Safe lock := by
  unfold lock
  refine Safe.bind (ask_safe nofun nofun) fun pending tr => ?_
  refine Sat.bind removeAll_sat fun tr' r _ h => ?_
  cases r with
  | error e => trivial
  | ok a => exact clearBadges_sat h

theorem access_safe {touch : Bool} : Safe (access touch) := by
  unfold access
  refine Safe.bind getAccess_safe fun entry => ?_
  cases entry with
  | none => exact .pure _
  | some entry =>
    refine Safe.bind dateNow_safe fun now => ?_
    split
    · exact Safe.bind lock_safe fun _ => .pure _
    split
    · exact Safe.bind dateNow_safe fun _ => Safe.bind setAccess_safe fun _ => .pure _
    · exact .pure _

theorem request_safe {identity : Bool} {reply : Reply} : Safe (request identity reply) := by
  unfold request
  cases reply with
  | ok => exact .pure _
  | failed => exact .throw _
  | denied =>
    cases identity with
    | true => exact Safe.bind lock_safe fun _ => .throw _
    | false => exact .throw _

theorem login_safe : Safe (login W) :=
  Safe.bind request_safe fun _ => Safe.bind check_safe fun _ => Safe.bind request_safe fun _ =>
    Safe.bind check_safe fun _ => .pure _

theorem unlocked_safe {touch : Bool} : Safe (unlocked W touch) := by
  unfold unlocked
  refine Safe.bind access_safe fun session => Safe.bind readDisk_safe fun disk => ?_
  cases session with
  | none => exact .throw _
  | some session =>
    dsimp only
    split
    · exact .throw _
    · exact Safe.bind check_safe fun _ => .pure _

theorem withVault_safe {fn : Access → ExtProg α} {touch : Bool} (h : ∀ a, Safe (fn a)) : Safe (withVault W fn touch) :=
  Safe.bind unlocked_safe h

theorem syncVault_safe {steps : List SyncStep} : Safe (syncVault steps) := by
  induction steps with
  | nil => exact .pure _
  | cons step steps ih =>
    cases step with
    | request reply => exact Safe.bind request_safe fun _ => ih
    | throws => exact .throw _
    | commit =>
      refine Safe.bind access_safe fun session => ?_
      split
      · exact .throw _
      · exact ih

theorem synchronize_safe : Safe (synchronize W) := by
  unfold synchronize
  refine Safe.bind access_safe fun session => ?_
  split
  · exact .pure _
  · exact withVault_safe fun _ => syncVault_safe

/-! ## Operations -/

theorem beginConnect_safe : Safe (beginConnect W) := by
  unfold beginConnect
  refine Safe.bind readDisk_safe fun disk => ?_
  split
  · exact .throw _
  · exact Safe.bind login_safe fun _ => update_safe (fun _ _ => rfl) nofun nofun

theorem getSetup_safe : Safe (getSetup W) := by
  unfold getSetup
  refine Safe.bind (ask_safe nofun nofun) fun setup => ?_
  cases setup with
  | none => exact .throw _
  | some setup => exact Safe.bind request_safe fun _ => Safe.bind check_safe fun _ => .pure _

theorem finishConnect_safe : Safe (finishConnect W) := by
  unfold finishConnect
  refine Safe.bind check_safe fun _ => Safe.bind readDisk_safe fun disk => ?_
  split
  · exact .throw _
  refine Safe.bind getSetup_safe fun setup => ?_
  split
  · exact .throw _
  refine Safe.bind request_safe fun _ => Safe.bind check_safe fun _ => Safe.bind dateNow_safe fun _ =>
    Safe.bind setAccess_safe fun _ => ?_
  exact Safe.bind (update_safe (fun _ _ => rfl) nofun nofun) fun _ => Safe.orElse synchronize_safe ()

theorem unlock_safe {accountPassword : Bool} : Safe (unlock W accountPassword) := by
  unfold unlock
  refine Safe.bind readDisk_safe fun disk => ?_
  split
  · exact .throw _
  have hopen : ∀ identity, Safe (do
      let now ← dateNow
      setAccess ⟨W.text "key", identity, now + TTL⟩
      orElse (synchronize W) ()) := fun identity =>
    Safe.bind dateNow_safe fun _ => Safe.bind setAccess_safe fun _ => Safe.orElse synchronize_safe ()
  refine Safe.bind check_safe fun _ => ?_
  dsimp only
  split
  · refine Safe.bind login_safe fun renewed => ?_
    split
    · exact Safe.bind (.throw _) hopen
    · exact hopen _
  · exact hopen _

theorem pendingLogins_safe : Safe pendingLogins := by
  have hclear : ∀ valid entries, Safe (clearDropped valid entries) := by
    intro valid entries
    induction entries with
    | nil => exact .pure _
    | cons entry entries ih =>
      unfold clearDropped
      dsimp only
      split
      · exact Safe.bind setBadge_safe fun _ => ih
      · exact ih
  unfold pendingLogins
  refine Safe.bind (ask_safe nofun nofun) fun entries => Safe.bind dateNow_safe fun now => ?_
  dsimp only
  split
  · exact Safe.bind setPending_safe fun _ => (hclear _ _).bind fun _ => .pure _
  · exact .pure _

theorem discard_safe {id : String} : Safe (discard id) := by
  unfold discard
  refine Safe.bind pendingLogins_safe fun entries => Safe.bind setPending_safe fun _ => ?_
  split
  · exact .pure _
  · exact setBadge_safe

theorem captureLogin_safe {sender : Sender} {username password document : String} :
    Safe (captureLogin W sender username password document) := by
  unfold captureLogin
  refine Safe.bind check_safe fun _ => ?_
  split
  · exact .pure _
  · exact Safe.bind pendingLogins_safe fun _ => Safe.bind dateNow_safe fun _ => setPending_safe

theorem markReady_safe {sender : Sender} {document : String} {id : Option String} :
    Safe (markReady W sender document id) := by
  unfold markReady
  refine Safe.bind pendingLogins_safe fun entries => ?_
  dsimp only
  split
  · split
    · exact .pure _
    · exact setBadge_safe
  · refine Safe.bind setPending_safe fun _ =>
      Safe.bind ((withVault_safe fun _ => .pure _).orElse _) fun identical => ?_
    split
    · exact discard_safe
    · exact setBadge_safe

theorem forUI_safe {id : String} : Safe (forUI W id) := by
  unfold forUI
  refine Safe.bind pendingLogins_safe fun entries => ?_
  split
  · exact .throw _
  · exact Safe.bind check_safe fun _ => .pure _

theorem candidateDisplay_safe {id : String} : Safe (candidateDisplay W id) :=
  Safe.bind forUI_safe fun _ => (withVault_safe fun _ => .pure _).orElse _

theorem confirmCandidate_safe {id : String} : Safe (confirmCandidate W id) := by
  unfold confirmCandidate
  refine Safe.bind forUI_safe fun _ => Safe.bind candidateDisplay_safe fun identical => ?_
  split
  · exact discard_safe
  · refine Safe.bind check_safe fun _ => Safe.bind ?_ fun _ => discard_safe
    exact (withVault_safe fun _ => check_safe).bind fun _ => Safe.orElse synchronize_safe ()

theorem pullPages_safe {replies : List Reply} : Safe (pullPages replies) := by
  induction replies with
  | nil => exact .pure _
  | cons reply replies ih => exact Safe.bind request_safe fun _ => ih

theorem resolveConflict_safe : Safe (resolveConflict W) :=
  (withVault_safe fun _ => Safe.bind check_safe fun _ => Safe.bind pullPages_safe fun _ => check_safe).bind fun _ =>
    synchronize_safe

theorem popupState_safe : Safe (popupState W) := by
  unfold popupState
  refine Safe.bind readDisk_safe fun _ => Safe.bind access_safe fun session => Safe.bind (ask_safe nofun nofun) fun _ =>
    Safe.bind pendingLogins_safe fun _ => ?_
  split
  · exact withVault_safe fun _ => .pure _
  · exact .pure _

theorem fill_safe : Safe (fill W) := by
  refine withVault_safe fun _ => Safe.bind check_safe fun _ => Safe.bind access_safe fun session => ?_
  split
  · exact .throw _
  · exact check_safe

theorem code_safe (c : Call) : Safe c.code := by
  obtain ⟨op, W⟩ := c
  cases op with
  | lockVault => exact lock_safe
  | popupState => exact popupState_safe
  | extensionStatus => exact Safe.bind access_safe fun _ => .pure _
  | connectAccount => exact beginConnect_safe
  | finishConnect => exact finishConnect_safe
  | unlockVault => exact unlock_safe
  | syncNow => exact synchronize_safe
  | resolveConflict => exact resolveConflict_safe
  | fillMatchedCredential => exact fill_safe
  | totpCode => exact withVault_safe fun _ => check_safe
  | captureLogin => exact captureLogin_safe
  | markReady => exact markReady_safe
  | savePrompt => exact Safe.bind forUI_safe fun _ => Safe.bind candidateDisplay_safe fun _ => .pure _
  | confirmSave => exact Safe.bind forUI_safe fun _ => confirmCandidate_safe
  | excludeSite => exact Safe.bind forUI_safe fun _ => Safe.bind forUI_safe fun _ => discard_safe
  | dismissSave => exact Safe.bind forUI_safe fun _ => discard_safe
  | openUnlock => exact Safe.bind forUI_safe fun _ => .pure _
  | alarm => exact Safe.bind pendingLogins_safe fun _ => Safe.bind access_safe fun _ => synchronize_safe
  | tabRemoved => exact Safe.bind pendingLogins_safe fun _ => setPending_safe
  | tick => exact update_safe (fun _ _ => rfl) nofun nofun

end

/-! ## Runs -/

abbrev ExtHistory := History Call Session Use
abbrev ExtProcs := List (Proc Call Session Use (Except String Unit))

/-- After every removal of a lock the lock has ended, and then `p` happened. -/
def SinceLocks (p : ExtHistory → Prop) (h : ExtHistory) : Prop :=
  ∀ h₁ i c e h₂, h = h₁ ++ .step i c e :: h₂ → e.label = .removeAll →
    ∃ b₁ c' e' b₂, h₂ = b₁ ++ .step i c' e' :: b₂ ∧ e'.label = .badge none ∧ p b₂

/-- An entry is renewed while the storage still holds one, and an unlock that
opens the vault started after every lock that removed the entry had ended. -/
structure Orderly (h : ExtHistory) : Prop where
  renewal : ∀ i c e, .step i c e ∈ h → e.label = .setAccess → c.op.opens = false → e.before.vaultAccess.isSome = true
  opening : ∀ h₁ i c e h₂, h = h₁ ++ .step i c e :: h₂ → e.label = .setAccess → c.op.opens = true →
    SinceLocks (fun b => .issue i c ∈ b) h₁

def Opened (h : ExtHistory) : Prop := ∃ i c, c.op.opens = true ∧ .issue i c ∈ h

section
variable {h h₁ h₂ : ExtHistory} {s₀ s : Session} {ps : ExtProcs}

theorem Orderly.init (ho : Orderly (h₁ ++ h₂)) : Orderly h₁ where
  renewal i c e he := ho.renewal i c e (List.mem_append_left _ he)
  opening a i c e b hh := ho.opening a i c e (b ++ h₂) (by rw [hh]; simp)

theorem SinceLocks.snoc {p : ExtHistory → Prop} (hp : SinceLocks p h) {v : Event Call Session Use}
    (hmono : ∀ b, p b → p (b ++ [v])) (hv : ∀ i c e, v = .step i c e → e.label ≠ .removeAll) :
    SinceLocks p (h ++ [v]) := by
  intro a i c e b hh hl
  rcases List.eq_nil_or_concat b with rfl | ⟨b', w, rfl⟩
  · obtain ⟨-, hve⟩ := List.append_inj' hh rfl
    exact absurd hl (hv i c e (List.cons.inj hve).1)
  · have hsplit : h = a ++ .step i c e :: b' ∧ [v] = [w] :=
      List.append_inj' (by rw [hh]; simp) rfl
    obtain ⟨rfl, hvw⟩ := hsplit
    cases hvw
    obtain ⟨b₁, c', e', b₂, rfl, hdone, hpb⟩ := hp a i c e b' rfl hl
    exact ⟨b₁, c', e', b₂ ++ [v], by simp, hdone, hmono b₂ hpb⟩

theorem Opened.snoc {b : ExtHistory} (hb : Opened b) (v : Event Call Session Use) : Opened (b ++ [v]) := by
  obtain ⟨i, c, hc, hm⟩ := hb
  exact ⟨i, c, hc, List.mem_append_left _ hm⟩

/-- While the storage holds an entry, an unlock has started since every lock. -/
theorem reach_opened (hr : Reach Call.code (fun _ => True) s₀ h s ps) (ho : Orderly h)
    (hs : s.vaultAccess ≠ none) : SinceLocks Opened h := by
  induction hr with
  | start =>
    intro a i c e b hh
    simp at hh
  | issue c hr hc ih =>
    exact (ih ho.init hs).snoc (fun b hb => hb.snoc _) fun _ _ _ hv => by cases hv
  | @step h s ps i c f k hr hi ih =>
    have hsat := reach_sat (fun c _ => code_safe c []) hr i _ hi s
    obtain ⟨hkeeps, -⟩ := hsat
    by_cases hset : (f s).1 = .setAccess
    · have hno : ∀ j c' e, Event.step i c ⟨(f s).1, s, (f s).2⟩ = .step j c' e → e.label ≠ .removeAll := by
        intro j c' e he
        cases he
        rw [hset]
        nofun
      by_cases hopens : c.op.opens = true
      · have hsince := ho.opening h i c _ [] rfl hset hopens
        refine SinceLocks.snoc (fun a j c' e b hh hl => ?_) (fun b hb => hb.snoc _) hno
        obtain ⟨b₁, c'', e', b₂, hb, hdone, hm⟩ := hsince a j c' e b hh hl
        exact ⟨b₁, c'', e', b₂, hb, hdone, i, c, hopens, hm⟩
      · have hsome := ho.renewal i c _ (List.mem_append_right _ List.mem_cons_self) hset (by simpa using hopens)
        refine (ih ho.init ?_).snoc (fun b hb => hb.snoc _) hno
        intro hnone
        rw [hnone] at hsome
        cases hsome
    · by_cases hremove : (f s).1 = .removeAll
      · exact absurd (hkeeps.removes hremove) hs
      · have hsame : (f s).2.vaultAccess = s.vaultAccess := hkeeps.keeps hset hremove
        refine (ih ho.init (hsame ▸ hs)).snoc (fun b hb => hb.snoc _) ?_
        intro j c' e he
        cases he
        exact hremove

/-- Of two splits of a history at different events, the later event is in the
rest of the first. -/
theorem later_split {a b a' b' : ExtHistory} {v w : Event Call Session Use} (h : a ++ v :: b = a' ++ w :: b')
    (hw : w ∉ a) : ∃ b₀, b = b₀ ++ b' := by
  rcases List.append_eq_append_iff.mp h with ⟨m, rfl, hm⟩ | ⟨m, rfl, hm⟩
  · rcases List.cons_eq_append_iff.mp hm with ⟨rfl, hb⟩ | ⟨m', rfl, rfl⟩
    · exact ⟨[], (List.cons.inj hb).2.symm⟩
    · exact ⟨m' ++ [w], by simp⟩
  · rcases List.cons_eq_append_iff.mp hm with ⟨rfl, hb⟩ | ⟨m', rfl, rfl⟩
    · exact ⟨[], (List.cons.inj hb).2⟩
    · exact absurd (List.mem_append_right _ List.mem_cons_self) hw

/-- Where a lock has ended and no unlock has started since, there is no entry. -/
theorem ended_empty {i : Nat} {c : Call} {e : Step Session Use}
    (hr : Reach Call.code (fun _ => True) s₀ (h₁ ++ .step i c e :: h₂) s ps)
    (ho : Orderly (h₁ ++ .step i c e :: h₂)) (hl : e.label = .badge none) (hno : ¬ Opened h₂) :
    s.vaultAccess = none := by
  by_contra hs
  have hsince := reach_opened hr ho hs
  obtain ⟨-, -, hkeeps⟩ := reach_step (fun c _ => code_safe c []) hr
  obtain ⟨t₁, r, t₂, hown, hremove, hlast⟩ := hkeeps.ends hl
  obtain ⟨a₁, c', a₂, rfl, hown₁⟩ := own_split hown
  have hown₂ : own i a₂ = t₂ := by
    rw [own_append, show Event.step i c' r :: a₂ = [Event.step i c' r] ++ a₂ from rfl, own_append, own_step, if_pos rfl,
      hown₁] at hown
    exact (List.cons.inj (List.append_cancel_left hown)).2
  obtain ⟨b₁, c'', e', b₂, hb, hended, hopened⟩ :=
    hsince a₁ i c' r (a₂ ++ .step i c e :: h₂) (by simp) hremove
  have hnot : Event.step i c'' e' ∉ a₂ := by
    intro hm
    exact hlast e' (hown₂ ▸ mem_own.mpr ⟨c'', hm⟩) hended
  obtain ⟨b₀, rfl⟩ := later_split hb hnot
  obtain ⟨j, d, hd, hm⟩ := hopened
  exact hno ⟨j, d, hd, List.mem_append_right _ hm⟩

/-- Once a lock has ended and until an unlock starts, the storage holds no entry,
every read of the entry finds none, and `access` answers null. -/
theorem lock_final (hr : Reach Call.code (fun _ => True) s₀ h s ps) (ho : Orderly h) :
    ∀ h₁ i c e h₂, h = h₁ ++ .step i c e :: h₂ → e.label = .badge none → ¬ Opened h₂ →
      s.vaultAccess = none ∧ (∀ touch, (access touch).run s = (s, .ok none)) ∧
        ∀ j c' e', .step j c' e' ∈ h₂ → e'.label = .getAccess → e'.before.vaultAccess = none := by
  rintro h₁ i c e h₂ rfl hl hno
  have hnone := ended_empty hr ho hl hno
  refine ⟨hnone, fun touch => ?_, fun j c' e' he' _ => ?_⟩
  · unfold access
    rw [show (getAccess >>= _ : ExtProg (Option Access)).run s = _ from TryProg.run_bind ..]
    simp only [getAccess, ask, TryProg.run, Prog.run_act, Prog.run_ret, hnone]
    rfl
  · obtain ⟨a, b, rfl⟩ := List.append_of_mem he'
    have hsplit : h₁ ++ .step i c e :: (a ++ .step j c' e' :: b) = (h₁ ++ .step i c e :: a) ++ .step j c' e' :: b := by
      simp
    rw [hsplit] at hr ho
    obtain ⟨ps', hr'⟩ := reach_prefix hr
    rw [reach_before hr]
    exact ended_empty hr' ho.init hl fun ⟨k, d, hd, hm⟩ => hno ⟨k, d, hd, List.mem_append_left _ hm⟩

end

/-! ## A lock while an entry is being renewed -/

def sampleIdentity : Identity := ⟨"owner", "a@example.org", "device", "key"⟩

def sampleOutside : Outside where
  disk _ := some (some "owner")
  passes _ := true
  reply _ := .ok
  text place := place
  identity := sampleIdentity
  setupStatus := .approved
  pages := []
  sync := []

def unlockedSession : Session := ⟨some ⟨"key", sampleIdentity, 2000⟩, none, none, 1000⟩

/-- A code is shown and the vault locked, the steps taken as `moves` says. -/
def codeAndLock (moves : List Nat) : Play Call Session Use (Except String Unit) :=
  play Call.code unlockedSession
    ([.issue ⟨.totpCode, sampleOutside⟩, .issue ⟨.lockVault, sampleOutside⟩] ++ moves.map .step)

theorem codeAndLock_reach (moves : List Nat) : Reach Call.code (fun _ => True) unlockedSession
    (codeAndLock moves).1 (codeAndLock moves).2.1 (codeAndLock moves).2.2 := by
  unfold codeAndLock
  exact play_reach fun _ _ => trivial

/-- Every entry of the history is written where there is one, by no unlock. -/
def renewsOnly (h : ExtHistory) : Bool :=
  h.all fun
    | .step _ c e => e.label ≠ .setAccess || (!c.op.opens && e.before.vaultAccess.isSome)
    | .issue _ c => !c.op.opens

theorem renewsOnly_orderly {h : ExtHistory} (hr : renewsOnly h = true) : Orderly h ∧ ¬ Opened h := by
  unfold renewsOnly at hr
  rw [List.all_eq_true] at hr
  have hwrite : ∀ i c e, .step i c e ∈ h → e.label = .setAccess →
      c.op.opens = false ∧ e.before.vaultAccess.isSome = true := by
    intro i c e he hl
    have hstep := hr _ he
    simpa [hl] using hstep
  refine ⟨⟨fun i c e he hl _ => (hwrite i c e he hl).2, ?_⟩, ?_⟩
  · rintro h₁ i c e h₂ rfl hl hopens
    have hwrite := (hwrite i c e (by simp) hl).1
    rw [hwrite] at hopens
    cases hopens
  · rintro ⟨i, c, hopens, hm⟩
    have hissue := hr _ hm
    simp [hopens] at hissue

/-- `lock_final` where the entry is renewed before the lock. -/
theorem lock_final_afterRenewal : (codeAndLock [0, 0, 0, 0, 1, 1, 1]).2.1.vaultAccess = none := by
  have ho := (renewsOnly_orderly (h := (codeAndLock [0, 0, 0, 0, 1, 1, 1]).1) (by decide)).1
  refine (lock_final (codeAndLock_reach _) ho ((codeAndLock [0, 0, 0, 0, 1, 1, 1]).1.take 8) 1 _ _ [] rfl rfl ?_).1
  rintro ⟨i, c, -, hm⟩
  cases hm

/-- Renewed after the lock, the entry is back and nobody has unlocked. -/
theorem lock_not_final : ¬ ∀ h s ps, Reach Call.code (fun _ => True) unlockedSession h s ps →
    ∀ h₁ i c e h₂, h = h₁ ++ .step i c e :: h₂ → e.label = .badge none → ¬ Opened h₂ → s.vaultAccess = none := by
  intro hall
  have hnone := hall _ _ _ (codeAndLock_reach [0, 0, 0, 1, 1, 1, 0])
    ((codeAndLock [0, 0, 0, 1, 1, 1, 0]).1.take 7) 1 _ _ ((codeAndLock [0, 0, 0, 1, 1, 1, 0]).1.drop 8) rfl rfl
    (by
      rintro ⟨i, c, -, hm⟩
      have hno : ((codeAndLock [0, 0, 0, 1, 1, 1, 0]).1.drop 8).all (fun
          | .issue .. => false
          | .step .. => true) = true := by decide
      have := List.all_eq_true.mp hno _ hm
      cases this)
  have hsome : (codeAndLock [0, 0, 0, 1, 1, 1, 0]).2.1.vaultAccess.isSome = true := by decide
  rw [hnone] at hsome
  cases hsome

end ZeroVault.Extension

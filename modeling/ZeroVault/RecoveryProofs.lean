import Mathlib.Data.List.Induction
import Mathlib.Tactic.Common
import ZeroVault.NativeHandles

/-!
# Signatures of recovery proofs

A proof that is still in its map was put there by one recovery, and nothing has
ended it since; its session, where it is still open, was used in time at every
step (`Kept`). A signature takes the proof out, so there is at most one
(`recovery_proof_signs_once`).
-/

namespace ZeroVault.Native

open Lib

/-! ## What a call did -/

/-- The recovery that gave out the session and the proof. -/
def Event.Opens (e : Event) (s h : Handle) : Prop :=
  ∃ code packet key, e.op = .openRecovery code packet s h ∧ e.answer = .opened ⟨s, h, key⟩

def Event.signs (e : Event) (h : Handle) : Bool :=
  match e.op, e.answer with
  | .sign h' _, .signature _ => h' = h
  | _, _ => false

/-- A call that uses up or discards the proof, cancels or locks the session. -/
def Event.Ends (e : Event) (s h : Handle) : Prop :=
  match e.op with
  | .sign h' _ => h' = h
  | .discard h' => h' = h ∧ e.answer ≠ .error .invalidInput
  | .cancel h' s' => (h' = h ∨ s' = s) ∧ e.answer ≠ .error .invalidInput
  | .lockVault s' => s' = s ∧ e.answer ≠ .error .invalidInput
  | .lockAll => True
  | _ => False

def Event.uses (e : Event) (s : Handle) : Bool :=
  match e.op with
  | .useSession s' _ => s' = s
  | _ => false

/-- When the session that `o` opened was last used. -/
def lastUse (s : Handle) (o : Event) (mid : List Event) : Instant :=
  mid.foldl (fun t e => if e.uses s then e.now else t) o.now

section
variable {s : Handle} {o e : Event} {mid : List Event}

theorem lastUse_snoc : lastUse s o (mid ++ [e]) = if e.uses s then e.now else lastUse s o mid := by
  unfold lastUse
  rw [List.foldl_append]
  rfl

end

/-! ## One call -/

section
variable {C : Core} {op : Op} {now later : Instant} {r r' : Registry} {s h : Handle}

theorem withSession_proofs {α : Type} (f : Bytes → Option (Except MobileCryptoError α)) (s : Handle) :
    (withSession s f now r).1.recoveryProofs = r.recoveryProofs := by
  unfold withSession
  dsimp only
  split
  · rfl
  split
  · rfl
  split <;> rfl

theorem insertSession_proofs (key : Bytes) : (insertSession s key now r).1.recoveryProofs = r.recoveryProofs := by
  unfold insertSession
  dsimp only
  split <;> rfl

theorem get?_removeExpiredRecoveryProofs {p : RecoveryProofEntry} :
    (removeExpiredRecoveryProofs now r).recoveryProofs.get? h = some p ↔
      r.recoveryProofs.get? h = some p ∧ now - p.createdAt < RECOVERY_PROOF_TTL := by
  unfold removeExpiredRecoveryProofs
  rw [Table.get?_deleteWhere, Option.filter_eq_some_iff]
  simp

theorem get?_removeExpiredSessions {x : SessionEntry} :
    (removeExpiredSessions now r).sessions.get? s = some x ↔
      r.sessions.get? s = some x ∧ now - x.lastUsed < SESSION_IDLE_TTL := by
  unfold removeExpiredSessions
  rw [Table.get?_deleteWhere, Option.filter_eq_some_iff]
  simp

theorem get?_removeRecoveryProofsForSession {p : RecoveryProofEntry} :
    (removeRecoveryProofsForSession s r).recoveryProofs.get? h = some p ↔
      r.recoveryProofs.get? h = some p ∧ p.sessionHandle ≠ s := by
  unfold removeRecoveryProofsForSession
  rw [Table.get?_deleteWhere, Option.filter_eq_some_iff]
  simp

theorem withSession_poisoned {α : Type} {f : Bytes → Option (Except MobileCryptoError α)}
    (hp : (withSession s f now r).1.poisoned = false) : r.poisoned = false := by
  cases hr : r.poisoned with
  | false => rfl
  | true =>
    unfold withSession at hp
    rw [if_pos hr] at hp
    exact hr.symm.trans hp

/-- What a use leaves of a session: the one used is renewed, and was in time. -/
theorem withSession_sessions {α : Type} {f : Bytes → Option (Except MobileCryptoError α)} {s' : Handle} {x : SessionEntry}
    (hp : r.poisoned = false) (hx : (withSession s' f now r).1.sessions.get? s = some x) :
    ∃ x₀, r.sessions.get? s = some x₀ ∧
      ((s' = s ∧ x.lastUsed = now ∧ now - x₀.lastUsed < SESSION_IDLE_TTL) ∨ (s' ≠ s ∧ x.lastUsed = x₀.lastUsed)) := by
  unfold withSession at hx
  rw [if_neg (by rw [hp]; exact Bool.false_ne_true)] at hx
  dsimp only at hx
  cases hg : (removeExpiredSessions now r).sessions.get? s' with
  | none =>
    rw [hg] at hx
    refine ⟨x, (get?_removeExpiredSessions.mp hx).1, .inr ⟨fun he => ?_, rfl⟩⟩
    rw [he, hx] at hg
    cases hg
  | some session =>
    rw [hg] at hx
    have hx : ((removeExpiredSessions now r).sessions.set s' { session with lastUsed := now }).get? s = some x := by
      dsimp only at hx
      split at hx <;> exact hx
    rw [Table.get?_set] at hx
    by_cases he : s = s'
    · rw [if_pos he] at hx
      cases hx
      subst he
      obtain ⟨h1, h2⟩ := get?_removeExpiredSessions.mp hg
      exact ⟨session, h1, .inl ⟨rfl, rfl, h2⟩⟩
    · rw [if_neg he] at hx
      exact ⟨x, (get?_removeExpiredSessions.mp hx).1, .inr ⟨fun h => he h.symm, rfl⟩⟩

theorem withSession_ok {α : Type} {f : Bytes → Option (Except MobileCryptoError α)} {a : α}
    (h : (withSession s f now r).2 = .ok a) : r.poisoned = false ∧
      ∃ x, r.sessions.get? s = some x ∧ now - x.lastUsed < SESSION_IDLE_TTL := by
  unfold withSession at h
  cases hr : r.poisoned with
  | true =>
    rw [if_pos hr] at h
    cases h
  | false =>
    refine ⟨rfl, ?_⟩
    rw [if_neg (by rw [hr]; exact Bool.false_ne_true)] at h
    dsimp only at h
    cases hg : (removeExpiredSessions now r).sessions.get? s with
    | none =>
      rw [hg] at h
      cases h
    | some x => exact ⟨x, get?_removeExpiredSessions.mp hg⟩

theorem insertSession_poisoned {key : Bytes} (hp : (insertSession s key now r).1.poisoned = false) :
    r.poisoned = false := by
  cases hr : r.poisoned with
  | false => rfl
  | true =>
    unfold insertSession at hp
    rw [if_pos hr] at hp
    exact hr.symm.trans hp

theorem insertSession_sessions {key : Bytes} {s' : Handle} {x : SessionEntry}
    (hx : (insertSession s' key now r).1.sessions.get? s = some x) :
    (s = s' ∧ x.lastUsed = now) ∨ r.sessions.get? s = some x := by
  unfold insertSession at hx
  split at hx
  · exact .inr hx
  · dsimp only at hx
    rw [Table.get?_set] at hx
    split at hx
    · rename_i he
      cases hx
      exact .inl ⟨he, rfl⟩
    · exact .inr (get?_removeExpiredSessions.mp hx).1

theorem takeRecoveryProof_spec (h' : Handle) :
    (takeRecoveryProof h' now r).1.sessions = r.sessions ∧ (takeRecoveryProof h' now r).1.poisoned = r.poisoned ∧
      (∀ p, (takeRecoveryProof h' now r).1.recoveryProofs.get? h = some p → r.recoveryProofs.get? h = some p ∧ h ≠ h') ∧
      ∀ p, (takeRecoveryProof h' now r).2 = .ok p →
        r.recoveryProofs.get? h' = some p ∧ now - p.createdAt < RECOVERY_PROOF_TTL := by
  unfold takeRecoveryProof
  dsimp only
  cases hg : (removeExpiredRecoveryProofs now r).recoveryProofs.get? h' with
  | none =>
    refine ⟨rfl, rfl, fun p hp => ⟨(get?_removeExpiredRecoveryProofs.mp hp).1, fun he => ?_⟩, nofun⟩
    rw [← he] at hg
    exact absurd (hg.symm.trans hp) nofun
  | some proof =>
    refine ⟨rfl, rfl, fun p hp => ?_, fun p hp => ?_⟩
    · have hp : ((removeExpiredRecoveryProofs now r).recoveryProofs.erase h').get? h = some p := hp
      rw [Table.get?_erase] at hp
      split at hp
      · cases hp
      · rename_i hne
        exact ⟨(get?_removeExpiredRecoveryProofs.mp hp).1, hne⟩
    · cases hp
      exact get?_removeExpiredRecoveryProofs.mp hg

/-- A signature: the proof was there in time, and so was its session. -/
theorem sign_ok {t sig : Bytes} (hs : (mobileSignRecoveryFinish C h t now later r).2 = .ok sig) :
    h.isEmpty = false ∧ r.poisoned = false ∧ ∃ p, r.recoveryProofs.get? h = some p ∧ now - p.createdAt < RECOVERY_PROOF_TTL ∧
      ∃ x, r.sessions.get? p.sessionHandle = some x ∧ later - x.lastUsed < SESSION_IDLE_TTL := by
  unfold mobileSignRecoveryFinish at hs
  by_cases he : h.isEmpty = true
  · rw [if_pos he] at hs
    cases hs
  rw [if_neg he] at hs
  obtain ⟨h1, h2, -, h4⟩ := @takeRecoveryProof_spec now r h h
  cases ht : takeRecoveryProof h now r with
  | mk r₁ res =>
    rw [ht] at hs h1 h2 h4
    cases res with
    | error e => cases hs
    | ok p =>
      obtain ⟨hp, hyoung⟩ := h4 p rfl
      dsimp only at hs
      split at hs
      · cases hs
      cases hw : withSession p.sessionHandle (fun _ => some (.ok ())) later r₁ with
      | mk r₂ res =>
        rw [hw] at hs
        cases res with
        | error e => cases hs
        | ok a =>
          obtain ⟨hpoison, x, hx, hidle⟩ := withSession_ok (congrArg Prod.snd hw)
          dsimp only at h1 h2
          rw [h1] at hx
          rw [h2] at hpoison
          exact ⟨Bool.eq_false_iff.mpr he, hpoison, p, hp, hyoung, x, hx, hidle⟩

/-- Any attempt to sign uses up its own proof only, and uses its session only. -/
theorem sign_effect {h' : Handle} {t : Bytes} :
    let r' := (mobileSignRecoveryFinish C h' t now later r).1
    (r'.poisoned = false → r.poisoned = false) ∧
      (∀ p, r'.recoveryProofs.get? h = some p → r.recoveryProofs.get? h = some p ∧ (h = h' → h.isEmpty = true)) ∧
      (r.poisoned = false → ∀ x, r'.sessions.get? s = some x → ∃ x₀, r.sessions.get? s = some x₀ ∧
        (x.lastUsed = x₀.lastUsed ∨ ∃ p, r.recoveryProofs.get? h' = some p ∧ p.sessionHandle = s ∧ h'.isEmpty = false)) := by
  dsimp only
  unfold mobileSignRecoveryFinish
  by_cases he : h'.isEmpty = true
  · rw [if_pos he]
    exact ⟨fun hp => hp, fun p hp => ⟨hp, fun heq => heq ▸ he⟩, fun _ x hx => ⟨x, hx, .inl rfl⟩⟩
  rw [if_neg he]
  obtain ⟨h1, h2, h3, h4⟩ := @takeRecoveryProof_spec now r h h'
  cases ht : takeRecoveryProof h' now r with
  | mk r₁ res =>
    rw [ht] at h1 h2 h3 h4
    dsimp only at h1 h2 h3 h4
    have hproofs : ∀ p, r₁.recoveryProofs.get? h = some p → r.recoveryProofs.get? h = some p ∧ (h = h' → h.isEmpty = true) :=
      fun p hp => ⟨(h3 p hp).1, fun heq => absurd heq (h3 p hp).2⟩
    have hsame : (r₁.poisoned = false → r.poisoned = false) ∧ (r.poisoned = false → ∀ x, r₁.sessions.get? s = some x →
        ∃ x₀, r.sessions.get? s = some x₀ ∧
        (x.lastUsed = x₀.lastUsed ∨ ∃ p, r.recoveryProofs.get? h' = some p ∧ p.sessionHandle = s ∧ h'.isEmpty = false)) :=
      ⟨fun hp => h2.symm.trans hp, fun _ x hx => ⟨x, h1 ▸ hx, .inl rfl⟩⟩
    cases res with
    | error e => exact ⟨hsame.1, hproofs, hsame.2⟩
    | ok p =>
      dsimp only
      split
      · exact ⟨hsame.1, hproofs, hsame.2⟩
      cases hw : withSession p.sessionHandle (fun _ => some (.ok ())) later r₁ with
      | mk r₂ res =>
        have hr₂ : r₂ = (@withSession Unit p.sessionHandle (fun _ => some (.ok ())) later r₁).1 := by rw [hw]
        have hall : (r₂.poisoned = false → r.poisoned = false) ∧
            (∀ p, r₂.recoveryProofs.get? h = some p → r.recoveryProofs.get? h = some p ∧ (h = h' → h.isEmpty = true)) ∧
            (r.poisoned = false → ∀ x, r₂.sessions.get? s = some x → ∃ x₀, r.sessions.get? s = some x₀ ∧
              (x.lastUsed = x₀.lastUsed ∨ ∃ p, r.recoveryProofs.get? h' = some p ∧ p.sessionHandle = s ∧ h'.isEmpty = false)) := by
          rw [hr₂]
          refine ⟨fun hp => hsame.1 (withSession_poisoned hp), ?_, fun hp x hx => ?_⟩
          · rw [withSession_proofs]
            exact hproofs
          · obtain ⟨x₀, hx₀, hcase⟩ := withSession_sessions (h2.trans hp) hx
            rw [h1] at hx₀
            refine ⟨x₀, hx₀, ?_⟩
            rcases hcase with ⟨hs, -, -⟩ | ⟨-, hl⟩
            · exact .inr ⟨p, (h4 p rfl).1, hs, Bool.eq_false_iff.mpr he⟩
            · exact .inl hl
        cases res <;> exact hall

theorem open_effect {code : String} {packet : Bytes} {s' h' : Handle} :
    let r' := (mobileOpenRecoveryV2 C code packet s' h' now later r).1
    (r'.poisoned = false → r.poisoned = false) ∧
      (∀ p, r'.recoveryProofs.get? h = some p → r.recoveryProofs.get? h = some p ∨
        (h = h' ∧ p.sessionHandle = s' ∧ p.createdAt = later ∧
          ∃ key, (mobileOpenRecoveryV2 C code packet s' h' now later r).2 = .ok ⟨s', h', key⟩)) ∧
      ∀ x, r'.sessions.get? s = some x → (s = s' ∧ x.lastUsed = now) ∨ r.sessions.get? s = some x := by
  dsimp only
  unfold mobileOpenRecoveryV2
  cases openRecoveryPacket C code packet with
  | error e => exact ⟨fun hp => hp, fun p hp => .inl hp, fun x hx => .inr hx⟩
  | ok keys =>
    obtain ⟨vaultKey, signingSeed⟩ := keys
    dsimp only
    cases hi : insertSession s' vaultKey now r with
    | mk r₁ res =>
      have hr₁ : r₁ = (insertSession s' vaultKey now r).1 := by rw [hi]
      have hproofs : r₁.recoveryProofs = r.recoveryProofs := by rw [hr₁]; exact insertSession_proofs vaultKey
      have hpoison : r₁.poisoned = false → r.poisoned = false := by rw [hr₁]; exact insertSession_poisoned
      have hsessions : ∀ x, r₁.sessions.get? s = some x → (s = s' ∧ x.lastUsed = now) ∨ r.sessions.get? s = some x := by
        rw [hr₁]
        exact fun x hx => insertSession_sessions hx
      cases res with
      | error e => exact ⟨hpoison, fun p hp => .inl (hproofs ▸ hp), hsessions⟩
      | ok given =>
        have hgiven : given = s' := by
          have h2 := congrArg Prod.snd hi
          unfold insertSession at h2
          split at h2 <;> cases h2
          rfl
        subst hgiven
        refine ⟨hpoison, fun p hp => ?_, hsessions⟩
        have hp : ((removeExpiredRecoveryProofs later r₁).recoveryProofs.set h' ⟨signingSeed, given, later⟩).get? h = some p := hp
        rw [Table.get?_set] at hp
        split at hp
        · rename_i he
          cases hp
          exact .inr ⟨he, rfl, rfl, C.verifyingKey signingSeed, rfl⟩
        · have hp := (get?_removeExpiredRecoveryProofs.mp hp).1
          rw [hproofs] at hp
          exact .inl hp

theorem run_poisoned (hp : (op.run C now later r).1.poisoned = false) : r.poisoned = false := by
  cases op with
  | openRecovery code packet s' h' => exact (@open_effect C now later r "" "" code packet s' h').1 hp
  | sign h' t => exact (@sign_effect C now later r "" "" h' t).1 hp
  | discard h' =>
    dsimp only [Op.run, outcome, mobileRecoveryDiscardProof] at hp
    split at hp <;> exact hp
  | cancel h' s' =>
    dsimp only [Op.run, outcome, mobileCancelRecovery] at hp
    split at hp
    · exact hp
    · split at hp <;> exact hp
  | lockVault s' =>
    dsimp only [Op.run, outcome, mobileLockVault] at hp
    split at hp
    · exact hp
    · split at hp <;> exact hp
  | lockAll =>
    dsimp only [Op.run, outcome, mobileLockAllVaults] at hp
    split at hp <;> exact hp
  | isValid s' =>
    dsimp only [Op.run, outcome, mobileSessionIsValid] at hp
    split at hp
    · exact hp
    · split at hp <;> exact hp
  | openSession s' key => exact insertSession_poisoned hp
  | useSession s' f => exact withSession_poisoned hp

/-- A proof that is there after a call was there before, and the call did not
end it; or the call is the recovery that made it. -/
theorem run_proofs {p : RecoveryProofEntry} (hp : (op.run C now later r).1.recoveryProofs.get? h = some p) :
    (r.recoveryProofs.get? h = some p ∧ ((op.run C now later r).1.poisoned = false → h.isEmpty = false →
      ¬ (Event.mk op now later (op.run C now later r).2).Ends p.sessionHandle h)) ∨
    ((Event.mk op now later (op.run C now later r).2).Opens p.sessionHandle h ∧ p.createdAt = later) := by
  -- only the opening of a packet adds a proof; the other calls take proofs out
  cases op with
  | openRecovery code packet s' h' =>
    rcases (@open_effect C now later r "" h code packet s' h').2.1 p hp with hp | ⟨rfl, rfl, hc, key, hans⟩
    · exact .inl ⟨hp, fun _ _ he => he⟩
    · refine .inr ⟨⟨code, packet, key, rfl, ?_⟩, hc⟩
      unfold Op.run outcome
      dsimp only
      rw [hans]
  | sign h' t =>
    obtain ⟨hp, hne⟩ := (@sign_effect C now later r "" h h' t).2.1 p hp
    refine .inl ⟨hp, fun _ hfull he => ?_⟩
    have he : h' = h := he
    rw [hne he.symm] at hfull
    cases hfull
  | discard h' =>
    dsimp only [Op.run, outcome, mobileRecoveryDiscardProof] at hp ⊢
    split at hp
    · rename_i hempty
      refine .inl ⟨hp, fun _ _ he => he.2 ?_⟩
      dsimp only
      rw [if_pos hempty]
    · dsimp only at hp
      rw [Table.get?_erase] at hp
      split at hp
      · cases hp
      · rename_i hne
        exact .inl ⟨hp, fun _ _ he => hne he.1.symm⟩
  | cancel h' s' =>
    dsimp only [Op.run, outcome, mobileCancelRecovery] at hp ⊢
    by_cases hempty : h'.isEmpty = true ∨ s'.isEmpty = true
    · rw [if_pos hempty] at hp
      refine .inl ⟨hp, fun _ _ he => he.2 ?_⟩
      dsimp only
      rw [if_pos hempty]
    · rw [if_neg hempty] at hp
      have hp : (removeRecoveryProofsForSession s' { r with recoveryProofs := r.recoveryProofs.erase h' }).recoveryProofs.get? h =
          some p := by
        split at hp <;> exact hp
      obtain ⟨hp, hs⟩ := get?_removeRecoveryProofsForSession.mp hp
      rw [Table.get?_erase] at hp
      split at hp
      · cases hp
      · rename_i hne
        refine .inl ⟨hp, fun _ _ he => ?_⟩
        rcases he.1 with he | he
        · exact hne he.symm
        · exact hs he.symm
  | lockVault s' =>
    dsimp only [Op.run, outcome, mobileLockVault] at hp ⊢
    by_cases hempty : s'.isEmpty = true
    · rw [if_pos hempty] at hp
      refine .inl ⟨hp, fun _ _ he => he.2 ?_⟩
      dsimp only
      rw [if_pos hempty]
    · rw [if_neg hempty] at hp ⊢
      by_cases hpoison : r.poisoned = true
      · rw [if_pos hpoison] at hp ⊢
        refine .inl ⟨hp, fun hno => ?_⟩
        exact absurd (hpoison.symm.trans hno) (by decide)
      · rw [if_neg hpoison] at hp
        obtain ⟨hp, hs⟩ := get?_removeRecoveryProofsForSession.mp hp
        exact .inl ⟨hp, fun _ _ he => hs he.1.symm⟩
  | lockAll =>
    dsimp only [Op.run, outcome, mobileLockAllVaults] at hp ⊢
    by_cases hpoison : r.poisoned = true
    · rw [if_pos hpoison] at hp ⊢
      exact .inl ⟨hp, fun hno => absurd (hpoison.symm.trans hno) (by decide)⟩
    · rw [if_neg hpoison] at hp
      cases hp
  | isValid s' =>
    dsimp only [Op.run, outcome, mobileSessionIsValid] at hp
    refine .inl ⟨?_, fun _ _ he => he⟩
    split at hp
    · exact hp
    · split at hp <;> exact hp
  | openSession s' key =>
    have hp : (insertSession s' key now r).1.recoveryProofs.get? h = some p := hp
    rw [insertSession_proofs] at hp
    exact .inl ⟨hp, fun _ _ he => he⟩
  | useSession s' f =>
    have hp : (withSession s' f now r).1.recoveryProofs.get? h = some p := hp
    rw [withSession_proofs] at hp
    exact .inl ⟨hp, fun _ _ he => he⟩

/-- A session that is open after a call: opened by it, used by it in time, used
for a signature, or as it was. -/
theorem run_sessions {x : SessionEntry} (hp : (op.run C now later r).1.poisoned = false)
    (hx : (op.run C now later r).1.sessions.get? s = some x) :
    (s ∈ op.sessionHandles ∧ x.lastUsed = now) ∨ ∃ x₀, r.sessions.get? s = some x₀ ∧
      ((∃ f, op = .useSession s f ∧ x.lastUsed = now ∧ now - x₀.lastUsed < SESSION_IDLE_TTL) ∨
        ((∀ f, op ≠ .useSession s f) ∧ x.lastUsed = x₀.lastUsed) ∨
        ∃ h t p, op = .sign h t ∧ h.isEmpty = false ∧ r.recoveryProofs.get? h = some p ∧ p.sessionHandle = s) := by
  have hpoison := run_poisoned hp
  -- only the opening and the use of a session write its time of last use
  cases op with
  | openRecovery code packet s' h' =>
    rcases (@open_effect C now later r s "" code packet s' h').2.2 x hx with ⟨rfl, hl⟩ | hx
    · exact .inl ⟨List.mem_singleton_self s, hl⟩
    · exact .inr ⟨x, hx, .inr (.inl ⟨fun _ he => (by cases he), rfl⟩)⟩
  | sign h' t =>
    obtain ⟨x₀, hx₀, hcase⟩ := (@sign_effect C now later r s "" h' t).2.2 hpoison x hx
    refine .inr ⟨x₀, hx₀, .inr ?_⟩
    rcases hcase with hl | ⟨p, hp, hs, hfull⟩
    · exact .inl ⟨fun _ he => (by cases he), hl⟩
    · exact .inr ⟨h', t, p, rfl, hfull, hp, hs⟩
  | discard h' =>
    refine .inr ⟨x, ?_, .inr (.inl ⟨fun _ he => (by cases he), rfl⟩)⟩
    dsimp only [Op.run, outcome, mobileRecoveryDiscardProof] at hx
    split at hx <;> exact hx
  | cancel h' s' =>
    refine .inr ⟨x, ?_, .inr (.inl ⟨fun _ he => (by cases he), rfl⟩)⟩
    dsimp only [Op.run, outcome, mobileCancelRecovery] at hx
    split at hx
    · exact hx
    · split at hx
      · exact hx
      · dsimp only at hx
        rw [Table.get?_erase] at hx
        split at hx
        · cases hx
        · exact hx
  | lockVault s' =>
    refine .inr ⟨x, ?_, .inr (.inl ⟨fun _ he => (by cases he), rfl⟩)⟩
    dsimp only [Op.run, outcome, mobileLockVault] at hx
    split at hx
    · exact hx
    · split at hx
      · exact hx
      · have hx : (r.sessions.erase s').get? s = some x := hx
        rw [Table.get?_erase] at hx
        split at hx
        · cases hx
        · exact hx
  | lockAll =>
    refine .inr ⟨x, ?_, .inr (.inl ⟨fun _ he => (by cases he), rfl⟩)⟩
    dsimp only [Op.run, outcome, mobileLockAllVaults] at hx
    split at hx
    · exact hx
    · cases hx
  | isValid s' =>
    refine .inr ⟨x, ?_, .inr (.inl ⟨fun _ he => (by cases he), rfl⟩)⟩
    dsimp only [Op.run, outcome, mobileSessionIsValid] at hx
    split at hx
    · exact hx
    · split at hx
      · exact hx
      · exact (get?_removeExpiredSessions.mp hx).1
  | openSession s' key =>
    rcases insertSession_sessions hx with ⟨rfl, hl⟩ | hx
    · exact .inl ⟨List.mem_singleton_self s, hl⟩
    · exact .inr ⟨x, hx, .inr (.inl ⟨fun _ he => (by cases he), rfl⟩)⟩
  | useSession s' f =>
    obtain ⟨x₀, hx₀, ⟨rfl, hl, hidle⟩ | ⟨hne, hl⟩⟩ := withSession_sessions hpoison hx
    · exact .inr ⟨x₀, hx₀, .inl ⟨f, rfl, hl, hidle⟩⟩
    · refine .inr ⟨x₀, hx₀, .inr (.inl ⟨fun f' he => ?_, hl⟩)⟩
      cases he
      exact hne rfl

end

/-! ## A run -/

/-- The session was used in time at every step, or not since. -/
def InTime (s : Handle) (o : Event) (mid : List Event) : Prop :=
  ∀ mid₁ m mid₂, mid = mid₁ ++ m :: mid₂ →
    m.now - lastUse s o mid₁ < SESSION_IDLE_TTL ∨ lastUse s o mid = lastUse s o mid₁

structure Kept (r : Registry) (p : RecoveryProofEntry) (h : Handle) (o : Event) (mid : List Event) : Prop where
  opened : o.Opens p.sessionHandle h
  created : p.createdAt = o.later
  alive : r.poisoned = false → h.isEmpty = false → ∀ m ∈ mid, ¬ m.Ends p.sessionHandle h
  session : r.poisoned = false → ∀ x, r.sessions.get? p.sessionHandle = some x →
    x.lastUsed = lastUse p.sessionHandle o mid ∧ InTime p.sessionHandle o mid

structure Ledger (events : List Event) (r : Registry) : Prop where
  kept : ∀ h p, r.recoveryProofs.get? h = some p → ∃ pre o mid, events = pre ++ o :: mid ∧ Kept r p h o mid
  distinct : ∀ h h' p p', r.recoveryProofs.get? h = some p → r.recoveryProofs.get? h' = some p' →
    p.sessionHandle = p'.sessionHandle → h = h'
  signed : ∀ e ∈ events, ∀ h, e.signs h = true → ∃ o ∈ events, ∃ s, o.Opens s h

section
variable {C : Core} {events : List Event} {r : Registry} {s h : Handle} {e o : Event}

theorem Event.Opens.proof (ho : o.Opens s h) : h ∈ o.op.proofHandles := by
  obtain ⟨code, packet, key, hop, -⟩ := ho
  rw [hop]
  exact List.mem_singleton_self h

theorem Event.Opens.session (ho : o.Opens s h) : s ∈ o.op.sessionHandles := by
  obtain ⟨code, packet, key, hop, -⟩ := ho
  rw [hop]
  exact List.mem_singleton_self s

theorem signs_sign (hs : e.signs h = true) : ∃ t sig, e.op = .sign h t ∧ e.answer = .signature sig := by
  obtain ⟨op, now, later, answer⟩ := e
  unfold Event.signs at hs
  cases op with
  | sign h' t =>
    cases answer with
    | signature sig =>
      have hs : h' = h := of_decide_eq_true hs
      exact ⟨t, sig, by rw [hs], rfl⟩
    | _ => cases hs
  | _ => cases hs

theorem FreshHandles.append {events' : List Event} (hf : FreshHandles (events ++ events')) : FreshHandles events := by
  unfold FreshHandles at hf ⊢
  rw [List.flatMap_append, List.flatMap_append, List.nodup_append, List.nodup_append] at hf
  exact ⟨hf.1.1, hf.2.1⟩

theorem FreshHandles.before {e : Event} (hf : FreshHandles (events ++ [e])) : FreshHandles events := hf.append

theorem FreshHandles.session (hf : FreshHandles (events ++ [e])) (hs : s ∈ e.op.sessionHandles) (ho : o ∈ events) :
    s ∉ o.op.sessionHandles := by
  intro hso
  obtain ⟨hf, -⟩ := hf
  rw [List.flatMap_append, List.nodup_append] at hf
  exact hf.2.2 s (List.mem_flatMap.mpr ⟨o, ho, hso⟩) s (by simpa using hs) rfl

theorem FreshHandles.proof (hf : FreshHandles (events ++ [e])) (hs : h ∈ e.op.proofHandles) (ho : o ∈ events) :
    h ∉ o.op.proofHandles := by
  intro hso
  obtain ⟨-, hf⟩ := hf
  rw [List.flatMap_append, List.nodup_append] at hf
  exact hf.2.2 h (List.mem_flatMap.mpr ⟨o, ho, hso⟩) h (by simpa using hs) rfl

theorem split_snoc {mid : List Event} {mid₁ mid₂ : List Event} {m : Event} (h : mid ++ [e] = mid₁ ++ m :: mid₂) :
    (mid₁ = mid ∧ m = e) ∨ ∃ rest, mid₂ = rest ++ [e] ∧ mid = mid₁ ++ m :: rest := by
  rcases List.eq_nil_or_concat mid₂ with rfl | ⟨rest, last, rfl⟩
  · obtain ⟨h1, h2⟩ := List.append_inj' h rfl
    cases h2
    exact .inl ⟨h1.symm, rfl⟩
  · rw [List.concat_eq_append, ← List.cons_append, ← List.append_assoc] at h
    obtain ⟨h1, h2⟩ := List.append_inj' h rfl
    cases h2
    exact .inr ⟨rest, List.concat_eq_append, h1⟩

/-- A call after which the session is still open keeps it in time. -/
theorem InTime.snoc {mid : List Event} (hin : InTime s o mid)
    (he : e.uses s = true → e.now - lastUse s o mid < SESSION_IDLE_TTL)
    (hclock : ∀ m ∈ mid, m.now ≤ e.now) : InTime s o (mid ++ [e]) := by
  intro mid₁ m mid₂ hsplit
  rw [lastUse_snoc]
  rcases split_snoc hsplit with ⟨rfl, rfl⟩ | ⟨rest, -, hmid⟩
  · by_cases hu : m.uses s = true
    · exact .inl (he hu)
    · rw [if_neg hu]
      exact .inr rfl
  · have hm : m ∈ mid := by
      rw [hmid]
      exact List.mem_append_right _ List.mem_cons_self
    rcases hin mid₁ m rest hmid with hlt | hsame
    · exact .inl hlt
    · by_cases hu : e.uses s = true
      · left
        rw [← hsame]
        exact Nat.lt_of_le_of_lt (Nat.sub_le_sub_right (hclock m hm) _) (he hu)
      · rw [if_neg hu]
        exact .inr hsame

theorem Kept.call {op : Op} {now later : Instant} {p : RecoveryProofEntry} {pre mid : List Event}
    (hk : Kept r p h o mid) (hl : Ledger events r) (hevents : events = pre ++ o :: mid)
    (hf : FreshHandles (events ++ [⟨op, now, later, (op.run C now later r).2⟩]))
    (hclock : ∀ e ∈ events, e.later ≤ now) (hordered : ∀ e ∈ events, e.now ≤ e.later)
    (hp : r.recoveryProofs.get? h = some p) (hp' : (op.run C now later r).1.recoveryProofs.get? h = some p)
    (hends : (op.run C now later r).1.poisoned = false → h.isEmpty = false →
      ¬ (Event.mk op now later (op.run C now later r).2).Ends p.sessionHandle h) :
    Kept (op.run C now later r).1 p h o (mid ++ [⟨op, now, later, (op.run C now later r).2⟩]) := by
  have hold : ∀ m ∈ mid, m ∈ events := fun m hm => by
    rw [hevents]
    exact List.mem_append_right _ (List.mem_cons_of_mem _ hm)
  refine ⟨hk.opened, hk.created, fun hpoison hfull m hm => ?_, fun hpoison x hx => ?_⟩
  · rcases List.mem_append.mp hm with hm | hm
    · exact hk.alive (run_poisoned hpoison) hfull m hm
    · rw [List.mem_singleton.mp hm]
      exact hends hpoison hfull
  · have huses : ∀ b, (Event.mk op now later (op.run C now later r).2).uses p.sessionHandle = b →
        (b = true ↔ ∃ f, op = .useSession p.sessionHandle f) := by
      intro b hb
      subst hb
      cases op with
      | useSession s' f =>
        simp only [Event.uses, decide_eq_true_eq]
        constructor
        · rintro rfl
          exact ⟨f, rfl⟩
        · rintro ⟨f', he⟩
          cases he
          rfl
      | _ =>
        constructor
        · intro hu
          cases hu
        · rintro ⟨f', he⟩
          cases he
    have hclock' : ∀ m ∈ mid, m.now ≤ now := fun m hm =>
      Nat.le_trans (hordered m (hold m hm)) (hclock m (hold m hm))
    rcases run_sessions hpoison hx with ⟨hnew, -⟩ | ⟨x₀, hx₀, hcase⟩
    · have ho : o ∈ events := by
        rw [hevents]
        exact List.mem_append_right _ List.mem_cons_self
      exact absurd hk.opened.session (hf.session hnew ho)
    · obtain ⟨hlast, hin⟩ := hk.session (run_poisoned hpoison) x₀ hx₀
      rw [lastUse_snoc]
      rcases hcase with ⟨f, rfl, hl', hidle⟩ | ⟨hno, hl'⟩ | ⟨h', t, p', rfl, hfull, hp'', hs⟩
      · have hu := (huses _ rfl).mpr ⟨f, rfl⟩
        rw [hlast] at hidle
        rw [if_pos hu]
        exact ⟨hl', hin.snoc (fun _ => hidle) hclock'⟩
      · have hu : ¬ (Event.mk op now later (op.run C now later r).2).uses p.sessionHandle = true := by
          intro hu
          obtain ⟨f, hop⟩ := (huses _ rfl).mp hu
          exact hno f hop
        rw [if_neg hu]
        exact ⟨hl'.trans hlast, hin.snoc (fun h => absurd h hu) hclock'⟩
      · -- the session of another proof, which has a session of its own
        have hsame := hl.distinct h' h p' p hp'' hp hs
        subst hsame
        exact absurd rfl (hends hpoison hfull)

theorem Runs.initial {a b : List Event} (hr : Runs C events r) (h : events = a ++ b) : ∃ r', Runs C a r' := by
  induction hr generalizing b with
  | start =>
    obtain ⟨rfl, -⟩ := List.append_eq_nil_iff.mp h.symm
    exact ⟨_, .start⟩
  | @call events r op now later before clock since ih =>
    rcases List.eq_nil_or_concat b with rfl | ⟨rest, last, rfl⟩
    · rw [List.append_nil] at h
      subst h
      exact ⟨_, .call op now later before clock since⟩
    · rw [List.concat_eq_append, ← List.append_assoc] at h
      exact ih (List.append_inj' h rfl).1

theorem Runs.clock {e : Event} (hr : Runs C events r) (he : e ∈ events) : e.now ≤ e.later := by
  induction hr with
  | start => cases he
  | call op now later before clock since ih =>
    rcases List.mem_append.mp he with he | he
    · exact ih he
    · rw [List.mem_singleton.mp he]
      exact clock

theorem opens_session {op : Op} {now later : Instant} {x : SessionEntry}
    (ho : (Event.mk op now later (op.run C now later r).2).Opens s h)
    (hfresh : r.sessions.get? s = none)
    (hx : (op.run C now later r).1.sessions.get? s = some x) : x.lastUsed = now := by
  obtain ⟨code, packet, key, hop, -⟩ := ho
  have hop : op = .openRecovery code packet s h := hop
  subst hop
  rcases (@open_effect C now later r s "" code packet s h).2.2 x hx with ⟨-, hl⟩ | hx
  · exact hl
  · rw [hfresh] at hx
    cases hx

theorem Runs.sessions (hr : Runs C events r) (hp : r.poisoned = false) {x : SessionEntry}
    (hx : r.sessions.get? s = some x) : ∃ e ∈ events, s ∈ e.op.sessionHandles := by
  induction hr generalizing x with
  | start => cases hx
  | @call events r op now later before clock since ih =>
    rcases run_sessions hp hx with ⟨hnew, -⟩ | ⟨x₀, hx₀, -⟩
    · exact ⟨_, List.mem_append_right _ (List.mem_singleton_self _), hnew⟩
    · obtain ⟨e, he, hs⟩ := ih (run_poisoned hp) hx₀
      exact ⟨e, List.mem_append_left _ he, hs⟩

theorem ledger_call {op : Op} {now later : Instant} (hl : Ledger events r) (hr : Runs C events r)
    (hf : FreshHandles (events ++ [⟨op, now, later, (op.run C now later r).2⟩])) (hclock : ∀ e ∈ events, e.later ≤ now) :
    Ledger (events ++ [⟨op, now, later, (op.run C now later r).2⟩]) (op.run C now later r).1 := by
  have hopened : ∀ h p, r.recoveryProofs.get? h = some p → ∃ o ∈ events, o.Opens p.sessionHandle h := by
    intro h p hp
    obtain ⟨pre, o, mid, hevents, hk⟩ := hl.kept h p hp
    exact ⟨o, by rw [hevents]; exact List.mem_append_right _ List.mem_cons_self, hk.opened⟩
  -- a proof of the call itself is new: its handle was not drawn before
  refine ⟨fun h p hp => ?_, fun h h' p p' hp hp' hs => ?_, fun e he h hs => ?_⟩
  · rcases run_proofs hp with ⟨hp₀, hends⟩ | ⟨ho, hc⟩
    · obtain ⟨pre, o, mid, hevents, hk⟩ := hl.kept h p hp₀
      refine ⟨pre, o, mid ++ [⟨op, now, later, (op.run C now later r).2⟩], by rw [hevents]; simp, ?_⟩
      exact hk.call hl hevents hf hclock (fun e he => hr.clock he) hp₀ hp hends
    · refine ⟨events, _, [], rfl, ho, hc, fun _ _ => nofun, fun hpoison x hx => ⟨?_, ?_⟩⟩
      · have hfresh : r.sessions.get? p.sessionHandle = none := by
          cases hg : r.sessions.get? p.sessionHandle with
          | none => rfl
          | some x₀ =>
            obtain ⟨e, he, hse⟩ := hr.sessions (run_poisoned hpoison) hg
            exact absurd hse (hf.session ho.session he)
        exact opens_session ho hfresh hx
      · intro mid₁ m mid₂ hsplit
        simp at hsplit
  · rcases run_proofs hp with ⟨hp₀, -⟩ | ⟨ho, -⟩
    · rcases run_proofs hp' with ⟨hp₀', -⟩ | ⟨ho', -⟩
      · exact hl.distinct h h' p p' hp₀ hp₀' hs
      · obtain ⟨o, hmem, hopen⟩ := hopened h p hp₀
        exact absurd (hs ▸ hopen.session) (hf.session ho'.session hmem)
    · rcases run_proofs hp' with ⟨hp₀', -⟩ | ⟨ho', -⟩
      · obtain ⟨o, hmem, hopen⟩ := hopened h' p' hp₀'
        exact absurd (hs ▸ hopen.session) (hf.session ho.session hmem)
      · obtain ⟨_, _, _, hop, -⟩ := ho
        obtain ⟨_, _, _, hop', -⟩ := ho'
        exact (Op.openRecovery.inj (hop.symm.trans hop')).2.2.2
  · rcases List.mem_append.mp he with he | he
    · obtain ⟨o, ho, s, hopen⟩ := hl.signed e he h hs
      exact ⟨o, List.mem_append_left _ ho, s, hopen⟩
    · rw [List.mem_singleton.mp he] at hs
      obtain ⟨t, sig, hop, hans⟩ := signs_sign hs
      dsimp only at hop hans
      subst hop
      have hok : (mobileSignRecoveryFinish C h t now later r).2 = .ok sig := by
        unfold Op.run outcome at hans
        dsimp only at hans
        split at hans
        · rename_i a hres
          cases hans
          exact hres
        · cases hans
      obtain ⟨-, -, p, hp, -⟩ := sign_ok hok
      obtain ⟨o, hmem, hopen⟩ := hopened h p hp
      exact ⟨o, List.mem_append_left _ hmem, _, hopen⟩

theorem ledger (hr : Runs C events r) (hf : FreshHandles events) : Ledger events r := by
  induction hr with
  | start => exact ⟨nofun, nofun, nofun⟩
  | call op now later before clock since ih => exact ledger_call (ih hf.before) before hf since

structure Vouched (pre : List Event) (e : Event) (h s : Handle) (o : Event) (mid : List Event) : Prop where
  opened : o.Opens s h
  untouched : ∀ m ∈ mid, ¬ m.Ends s h
  young : e.now - o.later < RECOVERY_PROOF_TTL
  inUse : e.later - lastUse s o mid < SESSION_IDLE_TTL
  inTime : ∀ mid₁ m mid₂, mid = mid₁ ++ m :: mid₂ → m.now - lastUse s o mid₁ < SESSION_IDLE_TTL

theorem signed_vouched {op : Op} {now later : Instant} (hl : Ledger events r) (hr : Runs C events r)
    (hclock : ∀ e ∈ events, e.later ≤ now) (hnow : now ≤ later)
    (hs : (Event.mk op now later (op.run C now later r).2).signs h = true) :
    ∃ before o mid s, events = before ++ o :: mid ∧
      Vouched events ⟨op, now, later, (op.run C now later r).2⟩ h s o mid := by
  obtain ⟨t, sig, hop, hans⟩ := signs_sign hs
  dsimp only at hop hans
  subst hop
  have hok : (mobileSignRecoveryFinish C h t now later r).2 = .ok sig := by
    unfold Op.run outcome at hans
    dsimp only at hans
    split at hans
    · rename_i a hres
      cases hans
      exact hres
    · cases hans
  obtain ⟨hfull, hpoison, p, hp, hyoung, x, hx, hidle⟩ := sign_ok hok
  obtain ⟨before, o, mid, hevents, hk⟩ := hl.kept h p hp
  obtain ⟨hlast, hin⟩ := hk.session hpoison x hx
  rw [hlast] at hidle
  rw [hk.created] at hyoung
  refine ⟨before, o, mid, p.sessionHandle, hevents, hk.opened, hk.alive hpoison hfull, hyoung, hidle, ?_⟩
  intro mid₁ m mid₂ hmid
  rcases hin mid₁ m mid₂ hmid with hlt | hsame
  · exact hlt
  · have hm : m ∈ events := by
      rw [hevents, hmid]
      simp
    have hle : m.now ≤ later := Nat.le_trans (hr.clock hm) (Nat.le_trans (hclock m hm) hnow)
    rw [← hsame]
    exact Nat.lt_of_le_of_lt (Nat.sub_le_sub_right hle _) hidle

/-- No proof signs twice: a second signature would have been opened again. -/
theorem signed_first {op : Op} {now later : Instant} (hl : Ledger events r) (hr : Runs C events r)
    (hf : FreshHandles events) (hclock : ∀ e ∈ events, e.later ≤ now) (hnow : now ≤ later)
    (hs : (Event.mk op now later (op.run C now later r).2).signs h = true) : ∀ e ∈ events, e.signs h = false := by
  obtain ⟨before, o, mid, s, hevents, hv⟩ := signed_vouched hl hr hclock hnow hs
  intro e he
  by_contra hsigns
  have hsigns : e.signs h = true := Bool.not_eq_false _ ▸ hsigns
  obtain ⟨t, sig, hop, -⟩ := signs_sign hsigns
  rw [hevents] at he
  rcases List.mem_append.mp he with he | he
  · -- the proof would have been opened before `o` opened it
    obtain ⟨r', hr'⟩ := hr.initial hevents
    rw [hevents] at hf
    have hsplit : before ++ o :: mid = (before ++ [o]) ++ mid := by simp
    rw [hsplit] at hf
    have hf' : FreshHandles (before ++ [o]) := hf.append
    obtain ⟨o', ho', s', hopen⟩ := (ledger hr' hf'.before).signed e he h hsigns
    exact hf'.proof hv.opened.proof ho' hopen.proof
  · rcases List.mem_cons.mp he with rfl | he
    · obtain ⟨_, _, _, hop', -⟩ := hv.opened
      rw [hop] at hop'
      cases hop'
    · refine hv.untouched e he ?_
      unfold Event.Ends
      rw [hop]

/-- A proof handle yields at most one signature, and only while its session
lives and both are in time. -/
theorem recovery_proof_signs_once (hr : Runs C events r) (hf : FreshHandles events) :
    (∀ h, events.countP (·.signs h) ≤ 1) ∧
      ∀ pre e post h, events = pre ++ e :: post → e.signs h = true →
        ∃ before o mid s, pre = before ++ o :: mid ∧ Vouched pre e h s o mid := by
  induction hr with
  | start => exact ⟨fun h => Nat.zero_le 1, fun pre e post h he => by simp at he⟩
  | @call events r op now later before clock since ih =>
    have hl := ledger before hf.before
    obtain ⟨ih1, ih2⟩ := ih hf.before
    refine ⟨fun h => ?_, fun pre e post h hsplit hs => ?_⟩
    · rw [List.countP_append, List.countP_singleton]
      by_cases hs : (Event.mk op now later (op.run C now later r).2).signs h = true
      · have hnone : events.countP (·.signs h) = 0 := List.countP_eq_zero.mpr fun e he => by
          rw [signed_first hl before hf.before since clock hs e he]
          exact Bool.false_ne_true
        exact Nat.le_of_eq (by rw [hnone, if_pos hs, Nat.zero_add])
      · rw [if_neg hs]
        exact ih1 h
    · rcases split_snoc hsplit with ⟨rfl, rfl⟩ | ⟨rest, -, hevents⟩
      · exact signed_vouched hl before since clock hs
      · exact ih2 pre e rest h hevents hs

end

/-! ## A sample recovery -/

def sampleCore : Core where
  decodeRecoveryCode code := .ok (ascii code)
  deriveRecoveryKey code salt := .ok (code ++ salt)
  decryptXChaCha20 _ _ ciphertext _ := some (ciphertext.take RECOVERY_V2_PLAINTEXT_LEN)
  deriveRecoverySigningSeed vaultKey authSalt := .ok (vaultKey ++ authSalt)
  verifyingKey seed := seed
  sign seed transcript := seed ++ transcript

def samplePacket : Bytes := List.replicate RECOVERY_V2_PACKET_LEN RECOVERY_V2_VERSION

/-- A recovery, a use of its session after a minute, and two attempts to
sign. -/
def sampleOps : List (Op × Instant) :=
  [(.openRecovery "code" samplePacket "session" "proof", 0), (.useSession "session" fun key => some (.ok key), fromSecs 60),
    (.sign "proof" RECOVERY_V2_FINISH_PREFIX, fromSecs 300), (.sign "proof" RECOVERY_V2_FINISH_PREFIX, fromSecs 301)]

def runOps (C : Core) (ops : List (Op × Instant)) : List Event × Registry :=
  ops.foldl (fun st p => (st.1 ++ [⟨p.1, p.2, p.2, (p.1.run C p.2 p.2 st.2).2⟩], (p.1.run C p.2 p.2 st.2).1)) ([], .empty)

theorem runOps_runs (C : Core) (ops : List (Op × Instant)) (h : (ops.map Prod.snd).Pairwise (· ≤ ·)) :
    Runs C (runOps C ops).1 (runOps C ops).2 ∧ (runOps C ops).1.map (·.later) = ops.map Prod.snd := by
  induction ops using List.reverseRecOn with
  | nil => exact ⟨.start, rfl⟩
  | append_singleton ops p ih =>
    rw [List.map_append, List.pairwise_append] at h
    obtain ⟨hr, hlater⟩ := ih h.1
    have hstep : runOps C (ops ++ [p]) = ((runOps C ops).1 ++ [⟨p.1, p.2, p.2, (p.1.run C p.2 p.2 (runOps C ops).2).2⟩],
        (p.1.run C p.2 p.2 (runOps C ops).2).1) := by
      unfold runOps
      rw [List.foldl_append]
      rfl
    rw [hstep]
    refine ⟨.call p.1 p.2 p.2 hr (Nat.le_refl _) fun e he => ?_, ?_⟩
    · have hm : e.later ∈ ops.map Prod.snd := hlater ▸ List.mem_map_of_mem he
      exact h.2.2 e.later hm p.2 (List.mem_singleton_self _)
    · rw [List.map_append, List.map_append, hlater]
      rfl

/-- `recovery_proof_signs_once` at two attempts to sign. -/
theorem recovery_proof_signs_once_twice :
    (∀ h, (runOps sampleCore sampleOps).1.countP (·.signs h) ≤ 1) ∧
      ∃ e ∈ (runOps sampleCore sampleOps).1, e.signs "proof" = true := by
  have hr := (runOps_runs sampleCore sampleOps (by decide)).1
  have hrun : FreshHandles (runOps sampleCore sampleOps).1 ∧
      (runOps sampleCore sampleOps).1.any (fun e => e.signs "proof") = true := by
    unfold FreshHandles
    decide +kernel
  exact ⟨(recovery_proof_signs_once hr hrun.1).1, List.any_eq_true.mp hrun.2⟩

end ZeroVault.Native

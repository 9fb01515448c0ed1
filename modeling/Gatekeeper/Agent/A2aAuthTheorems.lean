import Gatekeeper.Agent.A2aAuth

/-!
# What the middleware accepts

The checks of `requireWebBotAuth` as one statement, and the laws of the platform that the
results about it rest on.
-/

namespace Gatekeeper.Agent

open Encoding Js Pattern ExpiringSet

variable {P : SigPlatform}

/-! ## The verifier -/

theorem verifyRequest_iff {opts : VerifyOptions} {key : P.Key} {req : VerifyRequest}
    {input signature : String} :
    verifyRequest P opts key req input signature = true ↔
      ∃ parts base, readSignature input signature = some parts ∧
        acceptsParts opts parts = true ∧ rebuiltBase P req parts = some base ∧
        P.verify key (utf8 base) (P.fromBase64 parts.signature) = true := by
  unfold verifyRequest
  constructor
  · intro h
    split at h
    · cases h
    rename_i parts hparts
    rw [Bool.and_eq_true] at h
    obtain ⟨haccepts, h⟩ := h
    split at h
    · cases h
    rename_i base hbase
    exact ⟨parts, base, hparts, haccepts, hbase, h⟩
  · rintro ⟨parts, base, hparts, haccepts, hbase, hverify⟩
    rw [hparts]
    dsimp only
    rw [haccepts, hbase]
    exact hverify

/-- A fresh signature states its times. -/
theorem isFresh_iff {opts : VerifyOptions} {params : String} :
    isFresh opts params = true ↔ ∃ created expires, createdOf params = some created ∧
      expiresOf params = some expires ∧ created ≤ opts.now + opts.skewSeconds ∧
      opts.now ≤ expires + opts.skewSeconds ∧ opts.now ≤ created + opts.maxAgeSeconds := by
  unfold isFresh
  constructor
  · intro h
    split at h
    · rename_i created expires hcreated hexpires
      simp only [Bool.and_eq_true, decide_eq_true_eq] at h
      exact ⟨created, expires, hcreated, hexpires, h.1.1, h.1.2, h.2⟩
    · cases h
  · rintro ⟨created, expires, hcreated, hexpires, hfuture, hpast, hage⟩
    rw [hcreated, hexpires]
    simp only [Bool.and_eq_true, decide_eq_true_eq]
    exact ⟨⟨hfuture, hpast⟩, hage⟩

/-! ## The middleware -/

theorem withinMaxAge_default {created : Option ℕ} {now : ℕ} :
    withinMaxAge defaultServer created now = true ↔ ∃ c, created = some c ∧ now ≤ c + 300 := by
  cases created with
  | none => simp [withinMaxAge]
  | some c =>
    simp only [withinMaxAge, defaultServer, Bool.not_eq_true', decide_eq_false_iff_not,
      Option.some.injEq, exists_eq_left']
    omega

/-- The ledger admits a nonce that it does not hold, and no request without one. -/
theorem admit_iff {ledger : Ledger} {a : Arrival} {c : Caller} :
    (admitKey ledger (visitOf a c)).1 = true ↔
      ∃ n, c.nonce = some n ∧ holds (evict a.admittedAt ledger) n = false := by
  rw [admitKey_fst]
  constructor
  · rintro ⟨i, hi, hheld⟩
    obtain ⟨n, hn, rfl⟩ := Option.map_eq_some_iff.mp hi
    exact ⟨n, hn, hheld⟩
  · rintro ⟨n, hn, hheld⟩
    exact ⟨_, Option.map_eq_some_iff.mpr ⟨n, hn, rfl⟩, hheld⟩

/-- What a request must show before the ledger is asked. -/
structure Vetted (P : SigPlatform) (S : AuthServer) (a : Arrival) (c : Caller) : Prop where
  origin : signatureAgentOrigin P (headerText a.req.signatureAgent) = some c.origin
  signed : ∃ input signature params key,
    signatureHeaders a.req = some (input, signature) ∧ sigParams input = some params ∧
    params.keyid = some c.keyid ∧ callerKey P a c.origin c.keyid = .ok key ∧
    verifyRequest P { expectedKeyid := c.keyid, now := a.verifiedAt } key (toVerify a.req) input
      signature = true ∧
    withinMaxAge S params.created a.agedAt = true ∧ c.nonce = params.nonce ∧
    c.expires = params.expires

theorem vet_eq_ok {S : AuthServer} {a : Arrival} {c : Caller} :
    vet P S a = .ok c ↔ Vetted P S a c := by
  constructor
  · intro h
    unfold vet at h
    split at h
    · cases h
    rename_i input signature hheaders
    split at h
    · cases h
    rename_i origin horigin
    split at h
    · cases h
    rename_i keyid hkeyid
    rw [Option.bind_eq_some_iff] at hkeyid
    obtain ⟨params, hparams, hkeyid⟩ := hkeyid
    cases hkey : callerKey P a origin keyid with
    | error e =>
      rw [hkey] at h
      cases h
    | ok key =>
      rw [hkey, hparams] at h
      change (if _ then _ else _) = _ at h
      split_ifs at h with hverify hage
      cases h
      exact ⟨horigin, input, signature, params, key, hheaders, hparams, hkeyid, hkey, hverify,
        hage, rfl, rfl⟩
  · rintro ⟨horigin, input, signature, params, key, hheaders, hparams, hkeyid, hkey, hverify,
      hage, hnonce, hexpires⟩
    unfold vet
    rw [hheaders]
    dsimp only
    rw [horigin]
    dsimp only
    rw [hparams, Option.bind_some, hkeyid]
    dsimp only
    rw [hkey]
    show (if _ then _ else _) = _
    rw [if_pos hverify, Option.bind_some, if_pos hage, Option.bind_some, Option.bind_some,
      ← hnonce, ← hexpires]
    rfl

/-- A request that is accepted: not skipped, vetted, and with a nonce the ledger does not
hold. -/
theorem accepted_iff {S : AuthServer} {ledger : Ledger} {a : Arrival} {o k : String} :
    (webBotAuth P S ledger a).1 = .accepted o k ↔
      S.skip a.req = false ∧ ∃ c, Vetted P S a c ∧ c.origin = o ∧ c.keyid = k ∧
        (admitKey ledger (visitOf a c)).1 = true := by
  unfold webBotAuth
  cases hskip : S.skip a.req with
  | true => simp
  | false =>
    cases hvet : vet P S a with
    | error e =>
      have hnone : ∀ c, ¬ Vetted P S a c := by
        intro c hc
        rw [vet_eq_ok.mpr hc] at hvet
        cases hvet
      simp [hnone]
    | ok c =>
      have hc := vet_eq_ok.mp hvet
      have hunique : ∀ c', Vetted P S a c' → c' = c := by
        intro c' hc'
        rw [vet_eq_ok.mpr hc'] at hvet
        exact Except.ok.inj hvet
      simp only [Bool.false_eq_true, if_false, true_and]
      cases hadmit : (admitKey ledger (visitOf a c)).1 with
      | false =>
        simp only [Bool.false_eq_true, if_false, reduceCtorEq, false_iff, not_exists,
          not_and]
        intro c' hc' _ _
        rw [hunique c' hc', hadmit]
        exact Bool.false_ne_true
      | true =>
        simp only [if_true, Outcome.accepted.injEq]
        constructor
        · rintro ⟨ho, hk⟩
          exact ⟨c, hc, ho, hk, hadmit⟩
        · rintro ⟨c', hc', ho, hk, _⟩
          rw [hunique c' hc'] at ho hk
          exact ⟨ho, hk⟩

end Gatekeeper.Agent

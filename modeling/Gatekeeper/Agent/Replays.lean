import Gatekeeper.Agent.SampleCaller

/-!
# Replays

The ledger remembers a nonce until the `expires` of the signature that carried it. The verifier
lets a signature pass for some time after that, so a run admits a nonce twice exactly when a
request that verifies comes back that late.
-/

namespace Gatekeeper.Agent

open Encoding Js Pattern ExpiringSet

variable (P : SigPlatform) (S : AuthServer)

/-! ## Runs -/

/-- The requests of a run, each with what became of it. -/
def serve : Ledger → List Arrival → List (Arrival × Outcome)
  | _, [] => []
  | ledger, a :: as =>
    (a, (webBotAuth P S ledger a).1) :: serve (webBotAuth P S ledger a).2 as

/-- The clock does not run backwards, from one reading to the next. -/
def InClockOrder (as : List Arrival) : Prop :=
  (as.flatMap fun a => [a.verifiedAt, a.agedAt, a.admittedAt]).Pairwise (· ≤ ·)

def statedParams (req : Incoming) : Option SigParams :=
  (headerText req.signatureInput).bind sigParams

/-- The nonce that a request carries. -/
def nonceOfRequest (req : Incoming) : Option String := (statedParams req).bind (·.nonce)

/-- The `expires` that a request states. -/
def expiryOfRequest (req : Incoming) : Option ℕ := (statedParams req).bind (·.expires)

def Accepted (x : Arrival × Outcome) : Prop := ∃ o k, x.2 = .accepted o k

/-- No two accepted requests carry the same nonce. -/
def NoReplay (as : List Arrival) : Prop :=
  (serve P S [] as).Pairwise fun x y =>
    Accepted x → Accepted y → nonceOfRequest x.1.req ≠ nonceOfRequest y.1.req

/-- The request carries this nonce and passes every check that does not ask the ledger. -/
def carries (n : String) (a : Arrival) : Bool :=
  !S.skip a.req && (vet P S a).isOk && nonceOfRequest a.req == some n

/-- Each nonce comes back, in a request that passes, only up to the `expires` of the first such
request that carried it. -/
def ReturnsInTime (as : List Arrival) : Prop :=
  ∀ n first rest, as.filter (carries P S n) = first :: rest →
    ∀ a ∈ rest, ∃ e, expiryOfRequest first.req = some e ∧ a.admittedAt ≤ e

/-! ## What a vetted request states -/

variable {P S}

/-- The ledger is asked about the nonce and the expiry that the request states. -/
theorem Vetted.stated {a : Arrival} {c : Caller} (h : Vetted P S a c) :
    nonceOfRequest a.req = c.nonce ∧ ∃ e, expiryOfRequest a.req = some e ∧ c.expires = some e := by
  obtain ⟨input, signature, params, key, hheaders, hparams, _, _, hverify, _, hnonce, hexpires⟩ :=
    h.signed
  obtain ⟨parts, base, hparts, haccepts, _, _⟩ := verifyRequest_iff.mp hverify
  have hinput : headerText a.req.signatureInput = some input := by
    simp only [signatureHeaders, Option.bind_eq_bind, Option.bind_eq_some_iff] at hheaders
    obtain ⟨i, hi, s, _, h⟩ := hheaders
    cases h
    exact (Option.filter_eq_some_iff.mp hi).1
  have hstated : statedParams a.req = some params := by
    rw [statedParams, hinput]
    exact hparams
  obtain rfl := Option.some.inj (hparams.symm.trans (sigParams_of_readSignature hparts))
  -- a signature that is fresh states when it expires
  have hfresh : isFresh _ parts.params = true := (Bool.and_eq_true_iff.mp haccepts).2
  refine ⟨by rw [nonceOfRequest, hstated, hnonce]; rfl, ?_⟩
  obtain ⟨_, e, _, he, _⟩ := isFresh_iff.mp hfresh
  refine ⟨e, ?_, hexpires.trans he⟩
  rw [expiryOfRequest, hstated]
  exact he

/-! ## The ledger's side of a run -/

variable (P S)

/-- What a request asks of the ledger, if it gets that far. -/
def visit (a : Arrival) : Option (Visit String ℕ) :=
  if S.skip a.req then none
  else
    match vet P S a with
    | .ok c => some (visitOf a c)
    | .error _ => none

def visits (as : List Arrival) : List (Visit String ℕ) := as.filterMap (visit P S)

/-- The nonce of a request that was accepted. -/
def acceptedNonce (x : Arrival × Outcome) : Option String :=
  match x.2 with
  | .accepted _ _ => nonceOfRequest x.1.req
  | _ => none

variable {P S}

theorem visit_eq_some {a : Arrival} {v : Visit String ℕ} :
    visit P S a = some v ↔ S.skip a.req = false ∧ ∃ c, Vetted P S a c ∧ v = visitOf a c := by
  unfold visit
  cases hskip : S.skip a.req with
  | true => simp
  | false =>
    simp only [Bool.false_eq_true, if_false, true_and]
    constructor
    · intro h
      split at h
      · rename_i c hvet
        exact ⟨c, vet_eq_ok.mp hvet, (Option.some.inj h).symm⟩
      · cases h
    · rintro ⟨c, hc, rfl⟩
      rw [vet_eq_ok.mpr hc]

/-- A request that does not get to the ledger is not accepted and leaves it as it is; one that
does is accepted when its nonce is admitted. -/
theorem webBotAuth_step (ledger : Ledger) (a : Arrival) :
    (∀ v, visit P S a = some v →
      (webBotAuth P S ledger a).2 = (admitKey ledger v).2 ∧
      acceptedNonce (a, (webBotAuth P S ledger a).1) =
        if (admitKey ledger v).1 then v.item.map (·.key) else none) ∧
    (visit P S a = none →
      (webBotAuth P S ledger a).2 = ledger ∧
      acceptedNonce (a, (webBotAuth P S ledger a).1) = none) := by
  unfold visit webBotAuth
  cases hskip : S.skip a.req with
  | true => simp [acceptedNonce]
  | false =>
    cases hvet : vet P S a with
    | error e => simp [acceptedNonce]
    | ok c =>
      refine ⟨?_, by simp⟩
      intro v hv
      obtain rfl := Option.some.inj hv
      have hkey : (visitOf a c).item.map (·.key) = nonceOfRequest a.req := by
        rw [(vet_eq_ok.mp hvet).stated.1, visitOf, Option.map_map]
        exact Option.map_id'
      rw [hkey]
      dsimp only [Bool.false_eq_true, if_false]
      cases hadmit : (admitKey ledger (visitOf a c)).1 with
      | false => simp [acceptedNonce]
      | true => simp [acceptedNonce]

/-- The nonces of the accepted requests are the keys that the ledger admits. -/
theorem filterMap_serve (ledger : Ledger) (as : List Arrival) :
    (serve P S ledger as).filterMap acceptedNonce = admitted ledger (visits P S as) := by
  induction as generalizing ledger with
  | nil => rfl
  | cons a as ih =>
    obtain ⟨hsome, hnone⟩ := @webBotAuth_step P S ledger a
    rw [serve, visits]
    cases hv : visit P S a with
    | none =>
      obtain ⟨hledger, hnonce⟩ := hnone hv
      rw [List.filterMap_cons_none hnonce, List.filterMap_cons_none hv, hledger]
      exact ih ledger
    | some v =>
      obtain ⟨hledger, hnonce⟩ := hsome v hv
      rw [List.filterMap_cons, hnonce, hledger, List.filterMap_cons_some hv, admitted]
      cases hadmit : (admitKey ledger v).1 with
      | false => exact ih _
      | true =>
        obtain ⟨i, hitem, _⟩ := admitKey_fst.mp hadmit
        rw [hitem]
        exact congrArg (i.key :: ·) (ih _)

/-- An accepted request carries a nonce. -/
theorem nonce_of_accepted {ledger : Ledger} {as : List Arrival} {x : Arrival × Outcome}
    (hx : x ∈ serve P S ledger as) (h : Accepted x) :
    ∃ n, nonceOfRequest x.1.req = some n ∧ acceptedNonce x = some n := by
  induction as generalizing ledger with
  | nil => cases hx
  | cons a as ih =>
    rw [serve, List.mem_cons] at hx
    rcases hx with rfl | hx
    · obtain ⟨o, k, hok⟩ := h
      obtain ⟨-, c, hc, -, -, hadmit⟩ := accepted_iff.mp hok
      obtain ⟨n, hn, _⟩ := admit_iff.mp hadmit
      have hnonce : nonceOfRequest a.req = some n := hc.stated.1.trans hn
      refine ⟨n, hnonce, ?_⟩
      rw [acceptedNonce, hok]
      exact hnonce
    · exact ih hx

/-- What is not accepted has no accepted nonce. -/
theorem accepted_of_acceptedNonce {x : Arrival × Outcome} {n : String}
    (h : acceptedNonce x = some n) : Accepted x ∧ nonceOfRequest x.1.req = some n := by
  unfold acceptedNonce at h
  split at h
  · rename_i o k hok
    exact ⟨⟨o, k, hok⟩, h⟩
  · cases h

/-- No replay is accepted exactly when the ledger admits no nonce twice. -/
theorem noReplay_iff_nodup {as : List Arrival} :
    NoReplay P S as ↔ (admitted [] (visits P S as)).Nodup := by
  rw [← filterMap_serve, List.Nodup, List.pairwise_filterMap, NoReplay]
  refine List.Pairwise.iff_of_mem ?_
  intro x y hx hy
  constructor
  · intro h n hn m hm heq
    obtain ⟨hxa, hxn⟩ := accepted_of_acceptedNonce hn
    obtain ⟨hya, hym⟩ := accepted_of_acceptedNonce hm
    exact h hxa hya (by rw [hxn, hym, heq])
  · intro h hxa hya heq
    obtain ⟨n, hxn, hn⟩ := nonce_of_accepted hx hxa
    obtain ⟨m, hym, hm⟩ := nonce_of_accepted hy hya
    exact h n hn m hm (Option.some.inj (hxn.symm.trans (heq.trans hym)))

/-! ## When a nonce comes back -/

theorem carries_iff {n : String} {a : Arrival} :
    carries P S n a = true ↔ ∃ c, visit P S a = some (visitOf a c) ∧ Vetted P S a c ∧
      c.nonce = some n := by
  have hok : (vet P S a).isOk = true ↔ ∃ c, Vetted P S a c := by
    cases hvet : vet P S a with
    | error e =>
      simp only [Except.isOk, Except.toBool, Bool.false_eq_true, false_iff, not_exists]
      intro c hc
      rw [vet_eq_ok.mpr hc] at hvet
      cases hvet
    | ok c => exact ⟨fun _ => ⟨c, vet_eq_ok.mp hvet⟩, fun _ => rfl⟩
  rw [carries, Bool.and_eq_true, Bool.and_eq_true, Bool.not_eq_true', hok, beq_iff_eq]
  constructor
  · rintro ⟨⟨hskip, c, hc⟩, hn⟩
    exact ⟨c, visit_eq_some.mpr ⟨hskip, c, hc, rfl⟩, hc, hc.stated.1.symm.trans hn⟩
  · rintro ⟨c, hv, hc, hn⟩
    obtain ⟨hskip, _⟩ := visit_eq_some.mp hv
    exact ⟨⟨hskip, c, hc⟩, hc.stated.1.trans hn⟩

/-- The visits with a nonce are those of the requests that carry it. -/
theorem returns_visits (n : String) (as : List Arrival) :
    returns n (visits P S as) = (as.filter (carries P S n)).map fun a =>
      (a.admittedAt, (expiryOfRequest a.req).getD (a.admittedAt + 300)) := by
  rw [returns, visits, List.filterMap_filterMap]
  induction as with
  | nil => rfl
  | cons a as ih =>
    by_cases hc : carries P S n a = true
    · obtain ⟨c, hv, hvetted, hn⟩ := carries_iff.mp hc
      obtain ⟨e, he, hce⟩ := hvetted.stated.2
      rw [List.filter_cons_of_pos hc, List.map_cons, ← ih]
      refine List.filterMap_cons_some ?_
      rw [hv, Option.bind_some, visitOf, hn, he, hce]
      exact if_pos rfl
    · rw [List.filter_cons_of_neg hc, ← ih]
      refine List.filterMap_cons_none ?_
      cases hv : visit P S a with
      | none => rfl
      | some v =>
        obtain ⟨_, c, hvetted, rfl⟩ := visit_eq_some.mp hv
        -- a visit with another nonce, or with none
        cases hn : c.nonce with
        | none => rw [Option.bind_some, visitOf, hn]; rfl
        | some m =>
          have hne : m ≠ n := by
            rintro rfl
            exact hc (carries_iff.mpr ⟨c, hv, hvetted, hn⟩)
          rw [Option.bind_some, visitOf, hn]
          exact if_neg hne

/-- A clock that does not run backwards brings the visits in the order of time. -/
theorem inOrder_visits {as : List Arrival} (h : InClockOrder as) : InOrder 0 (visits P S as) := by
  refine ⟨fun v _ => Nat.zero_le _, ?_⟩
  rw [visits, List.pairwise_filterMap]
  have hpair := (List.pairwise_flatMap.mp h).2
  refine hpair.imp ?_
  intro a b hab v hv w hw
  obtain ⟨_, c, _, rfl⟩ := visit_eq_some.mp hv
  obtain ⟨_, c', _, rfl⟩ := visit_eq_some.mp hw
  exact hab a.admittedAt (by simp) b.admittedAt (by simp)

/-- Over any run, no two accepted requests carry the same nonce exactly when each nonce comes
back only up to the `expires` of the first request that carried it. -/
theorem no_replay_iff (P : SigPlatform) (S : AuthServer) {as : List Arrival}
    (h : InClockOrder as) : NoReplay P S as ↔ ReturnsInTime P S as := by
  rw [noReplay_iff_nodup, nodup_admitted_iff (inOrder_visits h)]
  refine forall_congr' fun n => ?_
  rw [returns_visits]
  constructor
  · intro hin first rest hfilter a ha
    obtain ⟨c, _, hvetted, _⟩ := carries_iff.mp
      (List.of_mem_filter (hfilter ▸ List.mem_cons_self : first ∈ as.filter (carries P S n)))
    obtain ⟨e, he, _⟩ := hvetted.stated.2
    rw [hfilter, List.map_cons] at hin
    have hle := hin _ _ rfl _ (List.mem_map_of_mem ha)
    rw [he] at hle
    exact ⟨e, he, hle⟩
  · intro hin first rest hmap r hr
    cases hfilter : as.filter (carries P S n) with
    | nil =>
      rw [hfilter] at hmap
      cases hmap
    | cons b bs =>
      rw [hfilter, List.map_cons] at hmap
      obtain ⟨rfl, rfl⟩ := List.cons.inj hmap
      obtain ⟨a, ha, rfl⟩ := List.mem_map.mp hr
      obtain ⟨e, he, hle⟩ := hin b bs hfilter a ha
      rw [he]
      exact hle

/-- A request signed for one minute, sent once and then once more. -/
def sampleRun (first second : ℕ) : List Arrival :=
  [arrivalOf sampleIncoming first, arrivalOf sampleIncoming second]

theorem no_replay_iff_sample :
    NoReplay samplePlatformOfKeys defaultServer (sampleRun 1700000010 1700000020) ↔
      ReturnsInTime samplePlatformOfKeys defaultServer (sampleRun 1700000010 1700000020) :=
  no_replay_iff samplePlatformOfKeys defaultServer (by unfold InClockOrder; decide)

theorem visit_sample {now : ℕ} (h : 1700000000 ≤ now) (h' : now ≤ 1700000090) :
    visit samplePlatformOfKeys defaultServer (arrivalOf sampleIncoming now) =
      some ⟨now, some ⟨"bm9uY2UtMQ==", 1700000060⟩⟩ := by
  have hexpires : expiresOf sampleParts.params = some 1700000060 :=
    (expiresOf_sigParamsText _ _).trans (by decide +kernel)
  have hvetted : Vetted samplePlatformOfKeys defaultServer (arrivalOf sampleIncoming now)
      (callerOf sampleParts "https://agent.example" "agent-1") :=
    (vetted_iff_of_signed sample_ideal sampleIncoming_signed).mpr
      ⟨sampleIncoming_presented h h', rfl⟩
  refine visit_eq_some.mpr ⟨rfl, _, hvetted, ?_⟩
  rw [visitOf, callerOf, nonceOf_sample, hexpires]
  rfl

/-- One second after a signature has expired its nonce is forgotten, and for another half minute
the signature verifies. -/
theorem late_replay_accepted : InClockOrder (sampleRun 1700000010 1700000061) ∧
    ¬ NoReplay samplePlatformOfKeys defaultServer (sampleRun 1700000010 1700000061) := by
  refine ⟨by unfold InClockOrder; decide, ?_⟩
  have hvisits : visits samplePlatformOfKeys defaultServer (sampleRun 1700000010 1700000061) =
      [⟨1700000010, some ⟨"bm9uY2UtMQ==", 1700000060⟩⟩,
        ⟨1700000061, some ⟨"bm9uY2UtMQ==", 1700000060⟩⟩] := by
    rw [visits, sampleRun,
      List.filterMap_cons_some (visit_sample (by decide) (by decide)),
      List.filterMap_cons_some (visit_sample (by decide) (by decide)), List.filterMap_nil]
  rw [noReplay_iff_nodup, hvisits]
  decide

end Gatekeeper.Agent

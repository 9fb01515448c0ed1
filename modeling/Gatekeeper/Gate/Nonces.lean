import Gatekeeper.Gate.Sessions

/-!
# Bindings used more than once

A credential binding carries a nonce, but nothing in the tenant's maps remembers nonces: a
nonce that was dispatched is kept from being dispatched again only by what stops any other
request. `one_dispatch_per_nonce_iff` says exactly which sessions use every binding once.
-/

namespace Gatekeeper.Gate

open Encoding Interaction

/-- The request carries a binding with this nonce. -/
def CarriesNonce (nonce : String) (i : ExecuteInvocation) : Prop :=
  i.request.credential.map (·.nonce.val) = some nonce

instance (nonce : String) (i : ExecuteInvocation) : Decidable (CarriesNonce nonce i) :=
  inferInstanceAs (Decidable (_ = _))

/-! ## What stops a request -/

/-- The request fails the checks of the gate, under the mandate and at the time it meets. -/
def FailsChecks (C : Crates) (i : ExecuteInvocation) : Prop :=
  ∀ tid nowSecs a t mandate, i.trace = opening tid nowSecs a ++ t →
    mandateOf C a = .ok mandate → ¬ Passes C i.request mandate nowSecs

/-- The secret the mandate names is missing, empty or not text. -/
def LacksCredential (tid : Bytes) (i : ExecuteInvocation) : Prop :=
  ∃ key a, (⟨.kvGet (secretsMap (hexEncode tid)) key, a⟩ : HostEvent) ∈ i.trace ∧
    ¬ ∃ v, a = .ok (some (utf8 v)) ∧ v ≠ ""

/-- The request comes under a key that one of these invocations was dispatched under. -/
def KeyUsed (earlier : List ExecuteInvocation) (j : ExecuteInvocation) : Prop :=
  ∃ k, UnderKey k j ∧ ∃ i ∈ earlier, UnderKey k i ∧ outboundCalls i.trace ≠ []

/-- One of the ordinary stops applies to the request. -/
def Stopped (C : Crates) (tid : Bytes) (earlier : List ExecuteInvocation)
    (j : ExecuteInvocation) : Prop :=
  FailsChecks C j ∨ LacksCredential tid j ∨ KeyUsed earlier j

/-- An opening can be read off a trace. -/
theorem opening_inj {tid tid' : Bytes} {nowSecs nowSecs' : UInt64}
    {a a' : Except String (Option Bytes)} {t t' : List HostEvent}
    (h : opening tid nowSecs a ++ t = opening tid' nowSecs' a' ++ t') :
    tid = tid' ∧ nowSecs = nowSecs' ∧ a = a' := by
  simp only [opening, List.cons_append, List.nil_append, List.cons.injEq] at h
  obtain ⟨htid, hnow, ha, -⟩ := h
  cases htid
  cases hnow
  cases ha
  exact ⟨rfl, rfl, rfl⟩

/-- What one opening shows of the mandate, every reading of the trace shows. -/
theorem failsChecks_of_opening {C : Crates} {i : ExecuteInvocation} {tid : Bytes}
    {nowSecs : UInt64} {a : Except String (Option Bytes)} {t : List HostEvent}
    (ht : i.trace = opening tid nowSecs a ++ t)
    (h : ∀ mandate, mandateOf C a = .ok mandate → ¬ Passes C i.request mandate nowSecs) :
    FailsChecks C i := by
  intro tid' nowSecs' a' t' mandate ht' hread
  obtain ⟨rfl, rfl, rfl⟩ := opening_inj (ht.symm.trans ht')
  exact h mandate hread

theorem not_called_of_failsChecks {C : Crates} {i : ExecuteInvocation}
    (hemits : Emits (executeActionWasm C i.request) i.trace i.result) (h : FailsChecks C i) :
    outboundCalls i.trace = [] := by
  by_contra hcall
  have hd := dispatched_of_emits hemits hcall
  generalize ht : i.trace = t at hd
  generalize i.result = r at hd
  cases hd with
  | intro hj happ => exact h _ _ _ _ _ ht hj.read ((assess_approved_iff hj.verdict).mp happ)

/-- A dispatch read a secret it could send, if it read one. -/
theorem Dispatched.secret_sent {C : Crates} {req : ExecuteReq} {tid : Bytes} {s s' : Kv}
    {t : List HostEvent} {r : Except Fault ExecuteOut} {key : Bytes}
    {a : Except String (Option Bytes)} (h : Dispatched C req t r)
    (ha : Along (kvHost tid) s t s')
    (hmem : (⟨.kvGet (secretsMap (hexEncode tid)) key, a⟩ : HostEvent) ∈ t) :
    ∃ v, a = .ok (some (utf8 v)) ∧ v ≠ "" := by
  obtain ⟨tid', rest, rfl, hgets⟩ := h.gets
  obtain ⟨s₁, hdid, -⟩ := along_cons.mp ha
  obtain rfl : tid' = tid := hdid.1
  rcases hgets _ _ _ hmem with hmap | ⟨hmap, -⟩ | ⟨-, hsecret⟩
  · exact absurd hmap.symm (mandateMap_ne_secretsMap _)
  · exact absurd hmap (secretsMap_ne_dispatchedMap _)
  · exact hsecret

/-! ## Sessions that use a binding once -/

section Session

variable {C : Crates} {tid : Bytes} {s s' : Kv} {is l₁ l₂ : List ExecuteInvocation}
  {j : ExecuteInvocation}

/-- A request that is stopped makes no call. -/
theorem not_called_of_stopped
    (h : Session (kvHost tid) (AdminStep tid) (executeActionWasm C) s (l₁ ++ j :: l₂) s')
    (hrel : ∀ i ∈ l₁ ++ j :: l₂, Reliable (dispatchedOf tid) i.trace)
    (hstop : Stopped C tid l₁ j) : outboundCalls j.trace = [] := by
  obtain ⟨s₁, hbefore, hafter⟩ := h.split
  obtain ⟨s₂, s₃, -, hemits, halong, -⟩ := hafter.uncons
  -- the checks, the credential and the key each stop it in their own way
  rcases hstop with hfails | ⟨key, a, hmem, hsecret⟩ | ⟨k, hjk, i, hi, hik, hcall⟩
  · exact not_called_of_failsChecks hemits hfails
  · by_contra hcalled
    exact hsecret ((dispatched_of_emits hemits hcalled).secret_sent halong hmem)
  · have hpair := (List.pairwise_append.mp (session_pairwise_key h hrel)).2.2
    exact hpair i hi j List.mem_cons_self k hik hjk hcall

/-- A request that makes no call is stopped, when the session began without records. -/
theorem stopped_of_not_called
    (h : Session (kvHost tid) (AdminStep tid) (executeActionWasm C) s (l₁ ++ j :: l₂) s')
    (hempty : ∀ key, s (dispatchedOf tid) key = none) (hcall : outboundCalls j.trace = []) :
    Stopped C tid l₁ j := by
  obtain ⟨s₁, hbefore, hafter⟩ := h.split
  obtain ⟨s₂, s₃, hadmin, hemits, halong, -⟩ := hafter.uncons
  have hexplained : Explained C tid l₁ s₂ :=
    ((Explained.start hempty).session hbefore).admin hadmin
  have hexec := execution_of_emits hemits
  generalize ht : j.trace = t at hexec halong hcall
  generalize j.result = r at hexec
  -- how the run ended says what stopped it
  cases hexec with
  | @unreadable tid' nowSecs a f hf =>
    refine .inl (failsChecks_of_opening (ht.trans (List.append_nil _).symm) ?_)
    intro mandate hread
    rw [hf] at hread
    cases hread
  | @trapped tid' nowSecs a mandate f hread hf =>
    refine .inl (failsChecks_of_opening (ht.trans (List.append_nil _).symm) ?_)
    intro mandate' hread' hpasses
    rw [hread] at hread'
    cases hread'
    obtain ⟨v, hv⟩ := assess_of_passes hpasses
    rw [hf] at hv
    cases hv
  | rejected hj happ hl =>
    refine .inl (failsChecks_of_opening ht ?_)
    intro mandate' hread' hpasses
    rw [hj.read] at hread'
    cases hread'
    rw [(assess_approved_iff hj.verdict).mpr hpasses] at happ
    cases happ
  | @replayed tid' nowSecs a mandate v k b p l hj happ hk hb hl =>
    obtain ⟨rfl, halong⟩ := along_opening halong
    obtain ⟨hread, -⟩ := along_lookup halong
    obtain ⟨bytes, rfl⟩ : ∃ bytes, b = .ok (some bytes) := by
      rcases b with e | _ | bytes
      · cases hb
      · cases hb
      · exact ⟨bytes, rfl⟩
    obtain ⟨k', o, hkey, -, i, hi, hd⟩ := hexplained _ _ (hread _ rfl).symm
    obtain rfl := utf8_injective hkey
    exact .inr (.inr ⟨k, (assess_idemKey hj.verdict happ).symm.trans hk, i, hi, hd.key, hd.called⟩)
  | unauthenticated hj happ hnone hheaders =>
    obtain ⟨rfl, -⟩ := along_opening halong
    rcases emits_outboundHeaders hheaders with ⟨-, -, hr⟩ | ⟨hkey, a, rfl, hr⟩
    · cases hr
    · refine .inr (.inl ⟨_, a, ?_, ?_⟩)
      · rw [ht]
        exact List.mem_append_right _ (List.mem_append_right _ (List.mem_singleton_self _))
      · rintro ⟨v, hv, hne⟩
        rw [(credential_ok_iff hkey).mpr ⟨v, hv, hne, rfl⟩] at hr
        cases hr
  | dispatched hd =>
    obtain ⟨headers, hone⟩ := hd.one_call
    rw [hcall] at hone
    cases hone

/-- What holds of each element and everything before it holds pairwise. -/
theorem pairwise_of_splits {α : Type} {R : α → α → Prop} {l : List α}
    (h : ∀ l₁ b l₂, l = l₁ ++ b :: l₂ → ∀ a ∈ l₁, R a b) : l.Pairwise R := by
  induction l with
  | nil => exact List.Pairwise.nil
  | cons a l ih =>
    refine List.Pairwise.cons ?_ (ih ?_)
    · intro b hb
      obtain ⟨m₁, m₂, rfl⟩ := List.append_of_mem hb
      exact h (a :: m₁) b m₂ rfl a List.mem_cons_self
    · rintro l₁ b l₂ rfl c hc
      exact h (a :: l₁) b l₂ rfl c (List.mem_cons_of_mem a hc)

/-- Every binding is dispatched at most once in exactly those sessions in which each request
that brings back a dispatched nonce is stopped: it fails the gate's checks, or the credential
is missing, or its key has been dispatched under before. -/
theorem one_dispatch_per_nonce_iff
    (h : Session (kvHost tid) (AdminStep tid) (executeActionWasm C) s is s')
    (hrel : ∀ i ∈ is, Reliable (dispatchedOf tid) i.trace)
    (hempty : ∀ key, s (dispatchedOf tid) key = none) :
    (∀ nonce,
      ((is.filter (CarriesNonce nonce)).flatMap fun i => outboundCalls i.trace).length ≤ 1) ↔
    ∀ l₁ j l₂, is = l₁ ++ j :: l₂ →
      (∃ nonce, CarriesNonce nonce j ∧
        ∃ i ∈ l₁, CarriesNonce nonce i ∧ outboundCalls i.trace ≠ []) →
      Stopped C tid l₁ j := by
  constructor
  · rintro honce l₁ j l₂ rfl ⟨nonce, hj, i, hi, hni, hcall⟩
    refine stopped_of_not_called h hempty ?_
    have hcount := honce nonce
    simp only [List.filter_append, List.filter_cons, hj, decide_true, if_true,
      List.flatMap_append, List.flatMap_cons, List.length_append] at hcount
    -- the earlier dispatch already counts one call, so this one counts none
    have hearlier : outboundCalls i.trace ⊆
        (l₁.filter (CarriesNonce nonce)).flatMap fun i => outboundCalls i.trace := by
      intro o ho
      exact List.mem_flatMap.mpr ⟨i, List.mem_filter.mpr ⟨hi, decide_eq_true hni⟩, ho⟩
    have hpos : 0 < ((l₁.filter (CarriesNonce nonce)).flatMap fun i =>
        outboundCalls i.trace).length := by
      obtain ⟨o, ho⟩ := List.exists_mem_of_ne_nil _ hcall
      exact List.length_pos_of_mem (hearlier ho)
    exact List.eq_nil_of_length_eq_zero (by omega)
  · intro hstopped nonce
    refine length_outbound_le_one ?_ ?_
    · intro i hi
      exact one_call_of_emits (h.emits_of_mem (List.mem_of_mem_filter hi))
    · rw [List.pairwise_filter]
      refine pairwise_of_splits ?_
      rintro l₁ j l₂ rfl i hi hni hnj hcall
      exact not_called_of_stopped h hrel (hstopped l₁ j l₂ rfl
        ⟨nonce, of_decide_eq_true hnj, i, hi, of_decide_eq_true hni, hcall⟩)

end Session

/-- The sample request again, without its key. -/
def sampleReqNoKey : ExecuteReq := { sampleReq with idempotencyKey := none }

theorem one_dispatch_per_nonce_iff_sample :
    (∀ nonce, (((sampleSession [sampleReq, sampleReqNoKey]).filter (CarriesNonce nonce)).flatMap
      fun i => outboundCalls i.trace).length ≤ 1) ↔
    ∀ l₁ j l₂, sampleSession [sampleReq, sampleReqNoKey] = l₁ ++ j :: l₂ →
      (∃ nonce, CarriesNonce nonce j ∧
        ∃ i ∈ l₁, CarriesNonce nonce i ∧ outboundCalls i.trace ≠ []) →
      Stopped sampleCrates sampleTid l₁ j :=
  one_dispatch_per_nonce_iff (session_sample _) (fun _ hi => reliable_sampleSession hi)
    sampleKv_dispatched

/-- One binding, sent twice without a key in common, is dispatched twice. -/
theorem nonce_dispatched_twice :
    ¬ ∀ (C : Crates) (tid : Bytes) (s s' : Kv) (is : List ExecuteInvocation),
      Session (kvHost tid) (AdminStep tid) (executeActionWasm C) s is s' → ∀ nonce,
      ((is.filter (CarriesNonce nonce)).flatMap fun i => outboundCalls i.trace).length ≤ 1 := by
  intro h
  have honce := h _ _ _ _ _ (session_sample [sampleReq, sampleReqNoKey]) "n-1"
  exact absurd honce (by decide +kernel)

end Gatekeeper.Gate

import Gatekeeper.Agent.SampleCaller

/-!
# Who the caller is

The origin of a caller is read from `Signature-Agent`, which `signRequest` does not cover. So a
copy of a request is taken for the signer's as long as that header was not altered, or names a
directory that does not list the signer's key.
-/

namespace Gatekeeper.Agent

open Encoding Js Pattern Text ExpiringSet

variable {P : SigPlatform}

/-- Whoever it names, the server would let the copy through: it does not skip it, the headers can
be read, the times fit and the nonce is new. -/
structure Receivable (S : AuthServer) (ledger : Ledger) (a : Arrival) (params : String) : Prop where
  notSkipped : S.skip a.req = false
  onLine : params.toList.any isLineEnd = false
  fresh : ∀ k, isFresh { expectedKeyid := k, now := a.verifiedAt } params = true
  age : withinMaxAge S (createdOf params) a.agedAt = true
  newNonce : ∃ n, nonceOf params = some n ∧ holds (evict a.admittedAt ledger) n = false

/-- The directory of the origin that the copy names lists the signer's key. -/
def ListsSigner (P : SigPlatform) (sk : P.PrivateKey) (a : Arrival) (params : String) : Prop :=
  ∃ o k, signatureAgentOrigin P (headerText a.req.signatureAgent) = some o ∧
    keyidOf params = some k ∧ callerKey P a o k = .ok (P.publicKey sk)

/-- Which copies are accepted, and as whose. -/
theorem accepted_copy_iff (hP : P.Lawful) (hI : P.Ideal) {S : AuthServer} {ledger : Ledger}
    {sk : P.PrivateKey} {out : OutRequest} {params : SigningParams} {headers : SignedHeaders}
    (hsign : signRequest P sk out params = some headers) {a : Arrival}
    (hcopy : CopyOf P out headers a.req) {o k : String} :
    (webBotAuth P S ledger a).1 = .accepted o k ↔
      Receivable S ledger a (sigParamsText (coveredComponents out) params) ∧
      signatureAgentOrigin P (headerText a.req.signatureAgent) = some o ∧
      keyidOf (sigParamsText (coveredComponents out) params) = some k ∧
      callerKey P a o k = .ok (P.publicKey sk) := by
  obtain ⟨lines, hlines, hread⟩ := readSignature_signRequest hI hsign
  have hsigned : ∀ {parts : SignatureParts},
      readSignature headers.signatureInput headers.signature = some parts →
      SignedBy P sk a.req parts ∧ parts.params = sigParamsText (coveredComponents out) params := by
    intro parts hparts
    obtain ⟨hsigned, _, hparams⟩ := signedBy_of_copy hP hI hsign hcopy hparts
    exact ⟨hsigned, hparams⟩
  constructor
  · intro haccepted
    obtain ⟨hskip, c, hvetted, rfl, rfl, hadmit⟩ := accepted_iff.mp haccepted
    obtain ⟨input, signature, _, _, hheaders, _, _, _, hverify, _⟩ := hvetted.signed
    obtain ⟨parts, _, hparts, _⟩ := verifyRequest_iff.mp hverify
    -- what was read is what the signer wrote
    have hsame : readSignature headers.signatureInput headers.signature = some parts := by
      simp only [signatureHeaders, hcopy.signatureInput, hcopy.signature, Option.bind_eq_bind,
        Option.bind_eq_some_iff, Option.filter_eq_some_iff] at hheaders
      obtain ⟨_, ⟨hi, _⟩, _, ⟨hs, _⟩, heq⟩ := hheaders
      obtain ⟨rfl, rfl⟩ := Prod.mk.inj (Option.some.inj heq)
      rw [Option.some.inj hi, Option.some.inj hs]
      exact hparts
    obtain ⟨hby, hparams⟩ := hsigned hsame
    obtain ⟨hpresented, hc⟩ := (vetted_iff_of_signed hI hby).mp hvetted
    obtain ⟨n, hn, hheld⟩ := admit_iff.mp hadmit
    rw [hc] at hn
    rw [← hparams]
    refine ⟨⟨hskip, ?_, fun _ => hpresented.fresh, hpresented.age, n, hn, hheld⟩,
      hpresented.origin, hpresented.keyid, hpresented.key⟩
    rw [hsame] at hread
    rw [hparams]
    exact (Option.ite_none_right_eq_some.mp hread.symm).1
  · rintro ⟨hreceivable, horigin, hkeyid, hkey⟩
    rw [if_pos hreceivable.onLine] at hread
    obtain ⟨hby, hparams⟩ := hsigned hread
    obtain ⟨n, hn, hheld⟩ := hreceivable.newNonce
    rw [← hparams] at hkeyid hn
    have hpresented : Presented P S sk a (writtenParts P sk out params lines) o k :=
      ⟨horigin, hkeyid, hkey, tag_sigParamsText _ _, hreceivable.fresh k, hreceivable.age⟩
    have hvetted := (vetted_iff_of_signed hI hby (c := callerOf _ o k)).mpr ⟨hpresented, rfl⟩
    exact accepted_iff.mpr
      ⟨hreceivable.notSkipped, _, hvetted, rfl, rfl, admit_iff.mpr ⟨n, hn, hheld⟩⟩

/-- A copy of a request that `signingFetch` sent is never taken for another caller's exactly when
it still names the signer's origin (under a key name that can be read back), or the directory of
the origin it names does not list the signer's key, or the server refuses it whoever it names. -/
theorem caller_authentic_iff (hP : P.Lawful) (hI : P.Ideal) {S : AuthServer} {ledger : Ledger}
    {sk : P.PrivateKey} {keyid directoryOrigin method url body : String} {now : ℕ}
    {random : Bytes} {sent : SentRequest}
    (hfetch : signingFetch P sk keyid directoryOrigin now random method url body = some sent)
    {a : Arrival} (hcopy : CopyOf P sent.request sent.headers a.req) :
    ∀ A, P.parseUrl directoryOrigin = some A →
      ((∀ o k, (webBotAuth P S ledger a).1 = .accepted o k → o = A.origin ∧ k = keyid) ↔
        (signatureAgentOrigin P (headerText a.req.signatureAgent) = some A.origin ∧
          '"' ∉ keyid.toList) ∨
        ¬ ListsSigner P sk a
          (sigParamsText (coveredComponents sent.request) (fetchParams keyid now random)) ∨
        ¬ Receivable S ledger a
          (sigParamsText (coveredComponents sent.request) (fetchParams keyid now random))) := by
  intro A _
  obtain ⟨hne, hsign⟩ := signingFetch_spec hfetch
  have hquote : keyidOf (sigParamsText (coveredComponents sent.request)
      (fetchParams keyid now random)) = some keyid ↔ '"' ∉ keyid.toList :=
    keyidOf_sigParamsText sent.request hne
  constructor
  · intro hall
    by_contra hneg
    rw [not_or, not_or, not_not, not_not] at hneg
    obtain ⟨hnamed, ⟨o, k, horigin, hkeyid, hkey⟩, hreceivable⟩ := hneg
    obtain ⟨rfl, rfl⟩ := hall o k
      ((accepted_copy_iff hP hI hsign hcopy).mpr ⟨hreceivable, horigin, hkeyid, hkey⟩)
    exact hnamed ⟨horigin, hquote.mp hkeyid⟩
  · intro hcases o k haccepted
    obtain ⟨hreceivable, horigin, hkeyid, hkey⟩ :=
      (accepted_copy_iff hP hI hsign hcopy).mp haccepted
    rcases hcases with ⟨hnamed, hclean⟩ | hnot | hnot
    · exact ⟨Option.some.inj (horigin.symm.trans hnamed),
        Option.some.inj (hkeyid.symm.trans (hquote.mpr hclean))⟩
    · exact absurd ⟨o, k, horigin, hkeyid, hkey⟩ hnot
    · exact absurd hreceivable hnot

theorem caller_authentic_iff_sample :
    (∀ o k, (webBotAuth samplePlatformOfKeys defaultServer []
        (arrivalOf (copyNaming otherAgent) 1700000010)).1 = .accepted o k →
      o = agentUrl.origin ∧ k = "agent-1") ↔
    (signatureAgentOrigin samplePlatformOfKeys (some otherAgent.text) = some agentUrl.origin ∧
      '"' ∉ "agent-1".toList) ∨
    ¬ ListsSigner samplePlatformOfKeys sampleSigner (arrivalOf (copyNaming otherAgent) 1700000010)
      (sigParamsText (coveredComponents sampleSent.request) sampleFetchParams) ∨
    ¬ Receivable defaultServer [] (arrivalOf (copyNaming otherAgent) 1700000010)
      (sigParamsText (coveredComponents sampleSent.request) sampleFetchParams) :=
  caller_authentic_iff sample_lawful sample_ideal signingFetch_sample
    (a := arrivalOf (copyNaming otherAgent) 1700000010) (copyNaming_copy otherAgent) agentUrl
    parse_agent

/-! ## A copy that names another origin -/

theorem receivable_sample (agent : Line) {now : ℕ} (h : 1700000000 ≤ now)
    (h' : now ≤ 1700000300) : Receivable defaultServer [] (arrivalOf (copyNaming agent) now)
      (sigParamsText (coveredComponents sampleSent.request) sampleFetchParams) := by
  have hcreated : createdOf (sigParamsText (coveredComponents sampleSent.request)
      sampleFetchParams) = some 1700000000 :=
    (createdOf_sigParamsText _ _).trans (by decide +kernel)
  have hexpires : expiresOf (sigParamsText (coveredComponents sampleSent.request)
      sampleFetchParams) = some 1700000300 :=
    (expiresOf_sigParamsText _ _).trans (by decide +kernel)
  refine ⟨rfl, fetchParams_onLine, fun k => ?_, ?_, _,
    nonceOf_sigParamsText _ (by decide) (by decide) (by decide), rfl⟩
  · refine isFresh_iff.mpr ⟨_, _, hcreated, hexpires, ?_⟩
    dsimp only [arrivalOf]
    omega
  · refine withinMaxAge_default.mpr ⟨_, hcreated, ?_⟩
    dsimp only [arrivalOf]
    omega

/-- The other origin's directory is taken for the signer's, and its name for the caller's. -/
theorem other_origin_accepted :
    signingFetch samplePlatformOfKeys sampleSigner "agent-1" "https://agent.example" 1700000000
        (List.replicate 64 0) "get" "https://gate.example/a2a" "" = some sampleSent ∧
      CopyOf samplePlatformOfKeys sampleSent.request sampleSent.headers (copyNaming otherAgent) ∧
      (webBotAuth samplePlatformOfKeys defaultServer []
        (arrivalOf (copyNaming otherAgent) 1700000010)).1 =
          .accepted "https://other.example" "agent-1" := by
  refine ⟨signingFetch_sample, copyNaming_copy otherAgent, ?_⟩
  refine (accepted_copy_iff sample_lawful sample_ideal
    (signingFetch_spec signingFetch_sample).2 (copyNaming_copy otherAgent)).mpr
    ⟨receivable_sample otherAgent (by omega) (by omega), ?_, ?_, rfl⟩
  · decide +kernel
  · exact (keyidOf_sigParamsText _ (by decide)).mpr (by decide)

end Gatekeeper.Agent

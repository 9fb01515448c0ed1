import Gatekeeper.Lib.ValueEmbedding
import Gatekeeper.Agent.CredentialBinding
import Gatekeeper.Agent.Digests
import Gatekeeper.Agent.Exchange
import Gatekeeper.Agent.EngineTheorems
import Gatekeeper.Agent.A2aServer

/-!
# The functions that are modelled on both kinds of values

`credential-binding.mjs` and the signing half of `x402.mjs` are modelled on values with well-formed
texts, where they meet the gate and the mandate, and on values with code units, where any JSON can
arrive. On what the first becomes in the second the two models give the same.
-/

namespace Gatekeeper.Agent

open Js Encoding

/-! ## Digests -/

/-- What `writeBigUInt64BE` adds: an error for a text of more bytes than a length can say. -/
def UpToSize {α : Type} (x y : Except Error α) : Prop := x = y ∨ x = .error .rangeError

section
variable {α β : Type}

theorem UpToSize.refl (x : Except Error α) : UpToSize x x := .inl rfl

theorem UpToSize.bind {x y : Except Error α} {f g : α → Except Error β} (h : UpToSize x y)
    (hfg : ∀ a, UpToSize (f a) (g a)) : UpToSize (x >>= f) (y >>= g) := by
  rcases h with rfl | rfl
  · cases x with
    | error e => exact .refl _
    | ok a => exact hfg a
  · exact .inr rfl

end

theorem preimage_cons (p : Value) (ps : List Value) :
    preimage (p :: ps) =
      p.text >>= fun t => preimage ps >>= fun b => .ok (frame (utf8 t) ++ b) := by
  rw [preimage, List.mapM_cons]
  cases p.text with
  | error e => rfl
  | ok t =>
    rw [preimage]
    cases ps.mapM Value.text <;> rfl

theorem preimage_embed {ps : List Value} (h : ∀ p ∈ ps, p.IsJson) :
    UpToSize (Digests.preimage (ps.map Value.embed)) (preimage ps) := by
  induction ps with
  | nil => exact .refl _
  | cons p ps ih =>
    rw [List.forall_mem_cons] at h
    rw [List.map_cons, Digests.preimage, preimage_cons, ← embed?_of_isJson h.1,
      template_embed? h.1.isRead, map_bind]
    refine (UpToSize.refl p.text).bind fun t => ?_
    rw [Ecma.bytesOf_ofString, Digests.framed]
    split_ifs with hfits
    · exact (ih h.2).bind fun b => .refl _
    · exact .inr rfl

theorem sha256Hex_embed (sha256 : Bytes → Bytes) {ps : List Value} (h : ∀ p ∈ ps, p.IsJson) :
    UpToSize (Digests.sha256Hex sha256 (ps.map Value.embed)) (sha256Hex sha256 ps) :=
  (preimage_embed h).bind fun _ => .refl _

theorem read_embed {v : Value} (h : v.IsJson) (name : String) :
    Digests.read v.embed name = (v.get name).map Value.embed? := by
  cases v with
  | undefined => exact h.elim
  | null => rfl
  | object ms => exact congrArg Except.ok (get?_embed h name)
  | _ => rfl

theorem orElse_embed {v w : Value} (h : v.IsRead) (hw : w.IsJson) :
    Digests.orElse v.embed? w.embed = (v.orElse w).embed ∧ (v.orElse w).IsJson := by
  rcases h with rfl | h
  · exact ⟨rfl, hw⟩
  cases v with
  | undefined => exact h.elim
  | null => exact ⟨rfl, hw⟩
  | _ => exact ⟨rfl, h⟩

theorem isJson_string (s : String) : (Value.string s).IsJson := trivial

theorem isJson_zero : (Value.number (Number.ofNat 0)).IsJson := trivial

theorem embed_zero : (Value.number (Number.ofNat 0)).embed = .number (.ofRat 0) := by
  rw [Value.embed, toNum_ofNat, Nat.cast_zero]

section
variable (sha256 : Bytes → Bytes) {action binding : Value}

/-- A field as it is hashed. -/
theorem field_embed {v : Value} (h : v.IsJson) (name : String) :
    Digests.orElse (v.embed.get? name) (Digests.text "") =
        ((v.get? name).orElse (.string "")).embed ∧
      ((v.get? name).orElse (.string "")).IsJson := by
  rw [get?_embed h]
  exact orElse_embed (isRead_get? h.isRead name) (isJson_string "")

theorem actionDigest_embed (h : action.IsJson) :
    UpToSize (Digests.actionDigest sha256 action.embed) (actionDigest sha256 action) := by
  by_cases hnull : action = .null
  · rw [hnull]
    exact .refl _
  have hamount := orElse_embed (isRead_get? h.isRead "amount_cents") isJson_zero
  rw [← get?_embed h, embed_zero] at hamount
  have hkind := field_embed h "kind"
  have hasset := field_embed h "asset"
  have hcounterparty := field_embed h "counterparty"
  have htemplate := template_embed? hamount.2.isRead
  rw [embed?_of_isJson hamount.2, ← hamount.1] at htemplate
  unfold Digests.actionDigest Digests.actionParts actionDigest
  rw [read_embed h, get_eq_get? h hnull, htemplate]
  cases ((action.get? "amount_cents").orElse (.number (Number.ofNat 0))).text with
  | error e => exact .refl _
  | ok t =>
    show UpToSize (Digests.sha256Hex sha256
      [Digests.orElse (action.get? "kind").embed? _, _, _, _]) _
    rw [← get?_embed h, hkind.1, hasset.1, hcounterparty.1]
    refine @sha256Hex_embed sha256 [_, _, .string t, _] ?_
    simp only [List.forall_mem_cons]
    exact ⟨hkind.2, hasset.2, trivial, hcounterparty.2, List.forall_mem_nil _⟩

theorem expectedCommitment_embed (hb : binding.IsJson) (ha : action.IsJson) :
    UpToSize (Digests.expectedCommitment sha256 binding.embed action.embed)
      (expectedCommitment sha256 binding action) := by
  by_cases hnull : binding = .null
  · rw [hnull]
    exact .refl _
  have hissuer := field_embed hb "issuer"
  have hsubject := field_embed hb "subject"
  have hclaims := field_embed hb "claims_digest"
  have hnonce := field_embed hb "nonce"
  unfold Digests.expectedCommitment Digests.commitmentParts expectedCommitment
  rw [read_embed hb, get_eq_get? hb hnull]
  rcases actionDigest_embed sha256 ha with heq | herror
  · rw [heq]
    cases actionDigest sha256 action with
    | error e => exact .refl _
    | ok digest =>
      show UpToSize (Digests.sha256Hex sha256
        [_, Digests.orElse (binding.get? "issuer").embed? _, _, _, _, _]) _
      rw [← get?_embed hb, hissuer.1, hsubject.1, hclaims.1, hnonce.1]
      refine @sha256Hex_embed sha256 [.string bindingDomain, _, _, _, .string digest, _] ?_
      simp only [List.forall_mem_cons]
      exact ⟨trivial, hissuer.2, hsubject.2, hclaims.2, trivial, hnonce.2, List.forall_mem_nil _⟩
  · rw [herror]
    exact .inr rfl

/-! ## Digests of claims -/

theorem unitJson_eq {u : ℕ} (h : u < 65536) :
    String.ofList (Ecma.Value.string [UInt16.ofNat u]).write = unitJson u := by
  have hu : (UInt16.ofNat u).toNat = u := by rw [UInt16.toNat_ofNat', Nat.mod_eq_of_lt h]
  have hhalf : (Ecma.isHigh (UInt16.ofNat u) || Ecma.isLow (UInt16.ofNat u)) = true ↔
      0xD800 ≤ u ∧ u < 0xE000 := by
    simp only [Ecma.isHigh, Ecma.isLow, hu, Bool.or_eq_true, Bool.and_eq_true, decide_eq_true_eq]
    omega
  rw [Ecma.Value.write, Ecma.quote, Ecma.quoteUnits, Ecma.quoteUnit, unitJson, hu]
  by_cases hu' : 0xD800 ≤ u ∧ u < 0xE000
  · rw [if_pos (hhalf.mpr hu'), if_pos hu', ← String.toList_inj]
    simp
  · rw [if_neg (fun hb => hu' (hhalf.mp hb)), if_neg hu', ← String.toList_inj]
    simp [Value.json, Value.writeJson, Json.writeString]

/-- The keys of a value and what stands under them. -/
theorem entries_embed {claims : Value} (h : claims.IsJson) (hnull : claims ≠ .null) :
    ∃ ms, Digests.entries claims.embed = .ok ms ∧
      ms.map (fun m => (m.1, String.ofList m.2.write)) =
        claims.entries.map fun e => (Ecma.ofString e.1, e.2) := by
  cases claims with
  | undefined => exact h.elim
  | null => exact absurd rfl hnull
  | bool b => exact ⟨[], rfl, rfl⟩
  | number x => exact ⟨[], rfl, rfl⟩
  | string s =>
    refine ⟨_, rfl, ?_⟩
    rw [Value.entries, ofString_eq, List.mapIdx_eq_zipIdx_map, List.zipIdx_map, List.map_map,
      List.map_map, List.map_map]
    refine List.map_congr_left fun p hp => Prod.ext rfl ?_
    exact unitJson_eq (lt_of_mem_utf16 (List.fst_mem_of_mem_zipIdx hp))
  | array xs =>
    refine ⟨_, rfl, ?_⟩
    rw [Value.entries, embedElements_eq, List.mapIdx_eq_zipIdx_map, List.zipIdx_map, List.map_map,
      List.map_map, List.map_map]
    refine List.map_congr_left fun p hp => Prod.ext rfl ?_
    have hx := allJson_iff.mp h _ (List.fst_mem_of_mem_zipIdx hp)
    exact (jsonText_embed hx).trans (json_toJson hx).symm
  | object ms =>
    refine ⟨_, rfl, ?_⟩
    rw [Value.entries, embedMembers_eq, List.map_map, List.map_map]
    refine List.map_congr_left fun p hp => Prod.ext rfl ?_
    have hx := allJsonMembers_iff.mp h _ hp
    exact (jsonText_embed hx).trans (json_toJson hx).symm

theorem sortMembers_entries (es : List (String × String)) :
    Ecma.sortMembers (es.map fun e => (Ecma.ofString e.1, e.2)) =
      (es.insertionSort fun e f => textLe e.1 f.1).map fun e => (Ecma.ofString e.1, e.2) := by
  refine (List.map_insertionSort _ _ _ es fun e _ f _ => ?_).symm
  show utf16 e.1 ≤ utf16 f.1 ↔
    (Ecma.ofString e.1).map UInt16.toNat ≤ (Ecma.ofString f.1).map UInt16.toNat
  rw [map_toNat_ofString, map_toNat_ofString]

theorem claimsParts_embed {claims : Value} (h : claims.IsJson) (hnull : claims ≠ .null) :
    Digests.claimsParts claims.embed =
      .ok (((claimsParts claims).map Value.string).map Value.embed) := by
  obtain ⟨ms, hms, heq⟩ := entries_embed h hnull
  have hsort := sortMembers_entries claims.entries
  have hmap := Ecma.map_sortMembers (fun x : Ecma.Value => String.ofList x.write) ms
  rw [heq, hsort] at hmap
  rw [Digests.claimsParts, hms]
  refine congrArg Except.ok ?_
  calc (Ecma.sortMembers ms).flatMap Digests.claimParts
      = ((Ecma.sortMembers ms).map fun m => (m.1, String.ofList m.2.write)).flatMap
          fun p => [.string p.1, Digests.text p.2] := by
        rw [List.flatMap_map]
        rfl
    _ = ((claimsParts claims).map Value.string).map Value.embed := by
        rw [hmap, List.flatMap_map, claimsParts, List.map_flatMap, List.map_flatMap]
        rfl

theorem claimsDigest_embed {claims : Value} (h : claims.IsJson) (hnull : claims ≠ .null) :
    UpToSize (Digests.claimsDigest sha256 claims.embed) (claimsDigest sha256 claims) := by
  rw [Digests.claimsDigest, claimsParts_embed h hnull]
  refine sha256Hex_embed sha256 fun p hp => ?_
  obtain ⟨t, -, rfl⟩ := List.mem_map.mp hp
  trivial

end

/-! ## Payments -/

section
open Interaction

/-- `ethers` reads the same addresses in both models. -/
structure SameAddresses (E : Exchange.Ethers) (P : Platform) : Prop where
  getAddress : ∀ v : Value, v.IsRead → E.getAddress v.embed? = addressOf P v

def Eip712Domain.embed (d : Eip712Domain) : Exchange.Eip712Domain where
  name := d.name.embed
  version := Ecma.ofString d.version
  chainId := d.chainId.toNum
  verifyingContract := d.verifyingContract

variable {E : Exchange.Ethers} {P : Platform} {requirement resource : Value}

theorem jsonText_embed? {v : Value} (h : v.IsRead) : Exchange.jsonText v.embed? = v.json := by
  rcases h with rfl | h
  · rfl
  · rw [embed?_of_isJson h]
    exact jsonText_embed h

/-- The network as it is shown: nothing for one that is missing. -/
theorem chainIdFor_shown {network : Value} (h : network.IsRead) :
    Exchange.chainIdFor network.embed? =
      (Ecma.template (some (network.orElse (.string "")).embed) >>= fun s =>
        match caipChain (Ecma.plain s) with
        | some n => .ok (.ofRat n)
        | none => .error (.error
          s!"x402: unsupported network {network.json} — expected CAIP-2 eip155:<chainId>")) := by
  rw [← jsonText_embed? h]
  rcases h with rfl | h
  · rfl
  cases network with
  | undefined => exact h.elim
  | _ => rfl

theorem chainIdFor_embed {network : Value} (h : network.IsRead) :
    Exchange.chainIdFor network.embed? = (chainIdFor network).map Number.toNum := by
  have hjson := (orElse_embed h (isJson_string "")).2
  have htext := template_embed? hjson.isRead
  rw [embed?_of_isJson hjson] at htext
  rw [chainIdFor_shown h, htext, chainIdFor]
  cases (network.orElse (.string "")).text with
  | error e => rfl
  | ok s =>
    dsimp only [Except.map, bind, Except.bind]
    rw [Ecma.plain_ofString]
    cases caipChain s with
    | some n => exact congrArg Except.ok (toNum_ofNat n).symm
    | none => rfl

theorem embed?_getD {v : Value} (h : v.IsRead) : v.embed?.getD .null = v.embed := by
  rcases h with rfl | h
  · rfl
  · rw [embed?_of_isJson h, Option.getD_some]

theorem extra_embed (h : requirement.IsJson) (name : String) :
    Exchange.extra requirement.embed name =
      ((requirement.get? "extra").get? name).embed? := by
  rw [Exchange.extra, get?_embed h, embed?_get? (isRead_get? h.isRead "extra")]

theorem eip712Domain_embed (hE : SameAddresses E P) (h : requirement.IsJson) :
    Exchange.eip712Domain E requirement.embed =
      (eip712Domain P requirement).map Eip712Domain.embed := by
  have hname := isRead_get? (isRead_get? h.isRead "extra") "name"
  have hversion := isRead_get? (isRead_get? h.isRead "extra") "version"
  unfold Exchange.eip712Domain eip712Domain
  simp only [extra_embed h, truthy_embed? hname, truthy_embed? hversion]
  by_cases htruthy : ((requirement.get? "extra").get? "name").truthy = true ∧
      ((requirement.get? "extra").get? "version").truthy = true
  · have hnull : requirement ≠ .null := by
      rintro rfl
      exact absurd htruthy.1 (by decide)
    have hembed := embed?_getD hname
    rw [if_neg (by simp [htruthy]), if_neg (not_not.mpr htruthy), get_eq_get? h hnull,
      get_eq_get? h hnull, hembed, template_embed? hversion, get?_embed h, get?_embed h,
      hE.getAddress _ (isRead_get? h.isRead "asset"),
      chainIdFor_embed (isRead_get? h.isRead "network")]
    cases ((requirement.get? "extra").get? "version").text with
    | error e => rfl
    | ok version =>
      show ((chainIdFor (requirement.get? "network")).map Number.toNum >>= _) =
        Except.map _ (chainIdFor (requirement.get? "network") >>= _)
      cases chainIdFor (requirement.get? "network") with
      | error e => rfl
      | ok chainId =>
        show (addressOf P (requirement.get? "asset") >>= _) =
          Except.map _ (addressOf P (requirement.get? "asset") >>= _)
        cases addressOf P (requirement.get? "asset") <;> rfl
  · have hbool : (!(((requirement.get? "extra").get? "name").truthy &&
        ((requirement.get? "extra").get? "version").truthy)) = true := by
      rwa [Bool.not_eq_true', ← Bool.not_eq_true, Bool.and_eq_true]
    rw [if_pos hbool, if_pos htruthy]
    rfl

/-- The authorization as it stands in a payload. -/
def Authorization.embed (a : Authorization) : Ecma.Value :=
  .object [(Ecma.ofString "from", Exchange.textOf a.fromAddress),
    (Ecma.ofString "to", Exchange.textOf a.toAddress),
    (Ecma.ofString "value", Exchange.textOf a.value),
    (Ecma.ofString "validAfter", Exchange.textOf a.validAfter),
    (Ecma.ofString "validBefore", Exchange.textOf a.validBefore),
    (Ecma.ofString "nonce", Exchange.textOf a.nonce)]

/-- The payment as the value that is encoded in a header. -/
def Payment.embed (p : Payment) : Ecma.Value :=
  .object ((Ecma.ofString "x402Version", .number (.ofRat p.x402Version)) ::
    (p.resource.map fun r => (Ecma.ofString "resource", r.embed)).toList ++
    [(Ecma.ofString "accepted", p.accepted.embed),
      (Ecma.ofString "payload", .object
        [(Ecma.ofString "signature", Exchange.textOf p.signature),
          (Ecma.ofString "authorization", p.authorization.embed)])])

theorem authorizationAt_embed {now : ℕ} (h : now + validForSecs < 2 ^ 53)
    (fromAddress toAddress value nonce : String) :
    Exchange.authorizationAt (.ofRat now) (.ofRat validForSecs) fromAddress toAddress
        (Ecma.ofString value) nonce =
      (authorizationAt now fromAddress toAddress value nonce).embed := by
  have hnow : Double.IsDouble now := Double.isDouble_of_lt (by omega)
  have hsub := sub_ofRat hnow (Double.isDouble_of_lt (show 60 < 2 ^ 53 by decide))
  have hafter : Exchange.numberText ((Numeric.ofRat now).sub (.ofRat 60)) =
      toString ((now : ℤ) - 60) := by
    rw [Nat.cast_ofNat] at hsub
    rw [Exchange.numberText, hsub, ← text_ofRat (by omega)]
    push_cast
    rfl
  have hbefore : Exchange.numberText ((Numeric.ofRat now).add (.ofRat validForSecs)) =
      toString (now + validForSecs) := by
    rw [Exchange.numberText, add_ofRat hnow (Double.isDouble_of_lt (by decide))]
    have htext := @text_ofRat (now + validForSecs : ℕ) (by omega)
    rw [Int.cast_natCast] at htext
    exact htext
  rw [Exchange.authorizationAt, hafter, hbefore]
  rfl

/-- A resource goes into the payment when it is there. -/
theorem resourceMember_embed (h : resource.IsRead) :
    Exchange.resourceMember resource.embed? =
      ((if resource.truthy then some resource else none).map fun r =>
        (Ecma.ofString "resource", r.embed)).toList := by
  rw [Exchange.resourceMember, truthy_embed? h, embed?_getD h]
  split_ifs <;> rfl

/-- What the client is answered when the wallet signs. -/
def walletAnswer (E : Exchange.Ethers) (wallet : E.Wallet) (now : ℕ) (nonce : String) :
    (op : ClientOp) → op.Res
  | .nowSecs => now
  | .getAddress => .ok (E.address wallet)
  | .randomBytes => nonce
  | .signTypedData domain authorization =>
    Exchange.signTypedData E wallet domain.embed
      (Exchange.authorizationOf (some authorization.embed))
  | .fetch _ _ => .error .typeError
  | .decide _ _ _ => .error .typeError
  | .settle _ _ => .error .typeError

/-- What the client does with its answers. -/
theorem run_signPayment (answer : (op : ClientOp) → op.Res) :
    (run answer (signPayment P requirement resource)).2 = (do
      let domain ← eip712Domain P requirement
      let sender ← answer .getAddress
      let toAddress ← requirement.get "payTo" >>= addressOf P
      let value ← requirement.get "amount" >>= Value.text
      let authorization :=
        authorizationAt (answer .nowSecs) sender toAddress value (answer .randomBytes)
      let signature ← answer (.signTypedData domain authorization)
      return {
        x402Version := 2
        resource := if resource.truthy then some resource else none
        accepted := requirement
        signature, authorization }) := by
  simp only [signPayment, run_bind]
  rfl

/-- The client, answered by the wallet, makes the payment that the wallet's side makes. -/
theorem signPayment_embed (hE : SameAddresses E P) (h : requirement.IsJson)
    (hresource : resource.IsRead) (wallet : E.Wallet) {now : ℕ}
    (hnow : now + validForSecs < 2 ^ 53) (nonce : String) :
    Exchange.signPayment E requirement.embed resource.embed? wallet nonce (.ofRat now)
        (.ofRat validForSecs) =
      (run (walletAnswer E wallet now nonce) (signPayment P requirement resource)).2.map
        Payment.embed := by
  rw [run_signPayment, Exchange.signPayment, eip712Domain_embed hE h]
  cases hd : eip712Domain P requirement with
  | error e => rfl
  | ok domain =>
    have hnull : requirement ≠ .null := by
      rintro rfl
      cases hd
    rw [get_eq_get? h hnull, get_eq_get? h hnull, get?_embed h, get?_embed h,
      hE.getAddress _ (isRead_get? h.isRead "payTo"),
      template_embed? (isRead_get? h.isRead "amount")]
    show (addressOf P (requirement.get? "payTo") >>= _) =
      Except.map _ (addressOf P (requirement.get? "payTo") >>= _)
    cases addressOf P (requirement.get? "payTo") with
    | error e => rfl
    | ok toAddress =>
      show ((requirement.get? "amount").text.map _ >>= _) =
        Except.map _ ((requirement.get? "amount").text >>= _)
      cases (requirement.get? "amount").text with
      | error e => rfl
      | ok value =>
        have hauth := authorizationAt_embed hnow (E.address wallet) toAddress value nonce
        dsimp only [bind, Except.bind, Except.map, pure, Except.pure, walletAnswer]
        rw [hauth]
        cases Exchange.signTypedData E wallet domain.embed _ with
        | error e => rfl
        | ok signature =>
          refine congrArg Except.ok ?_
          rw [Exchange.paymentOf, resourceMember_embed hresource, Payment.embed]
          rfl

end

/-! ## Verdicts -/

theorem get?_object_embed (ms : List (String × Value)) (name : String) :
    (Value.object ms).embed.get? name = (ms.lookup name).map Value.embed :=
  lookup_embedMembers ms name

theorem embed_texts (texts : List String) :
    (Value.array (texts.map Value.string)).embed =
      .array ((texts.map Ecma.ofString).map Ecma.Value.string) := by
  rw [Value.embed, embedElements_eq, List.map_map, List.map_map]
  rfl

/-- An object with a decision to refuse, the reasons for it and no error. -/
theorem rejected_of_members {ms : List (String × Value)} {texts : List String}
    (hdecision : ms.lookup "decision" = some (.string "rejected"))
    (hreasons : ms.lookup "reasons" = some (.array (texts.map Value.string)))
    (herror : ms.lookup "error" = none) : A2a.Rejected (Value.object ms).embed where
  decision := by
    rw [get?_object_embed, hdecision]
    rfl
  reasons := ⟨texts.map Ecma.ofString, by
    rw [get?_object_embed, hreasons, Option.map_some, embed_texts]⟩
  noError := by
    rw [get?_object_embed, herror]
    rfl

/-- A verdict that refuses, of either engine, is one for the task that asked for it. -/
theorem rejected_of_decideWith {C : Gate.Crates} {H : EngineHost} {engine v : Value}
    {args : DecideArgs} (h : decideWith C H engine args = .ok v)
    (hv : v.get? "decision" = .string "rejected") : A2a.Rejected v.embed := by
  rcases decideWith_cases h with ⟨w, hw, rfl⟩ | ⟨_, _, h⟩
  · rcases decideCli_cases hw with ⟨e, rfl⟩ | ⟨req, out, _, _, rfl⟩
    · cases hv
    · have hdecision : Value.string out.decision = .string "rejected" := hv
      exact rejected_of_members (congrArg some hdecision) rfl rfl
  · obtain ⟨_, _, d, _, _, _, rfl⟩ := decideComponent_ok h
    have hdecision : Value.string d.decision = .string "rejected" := hv
    exact rejected_of_members (congrArg some hdecision) rfl rfl

end Gatekeeper.Agent

import Mathlib.Data.List.Sort
import Gatekeeper.Lib.EcmaOps
import Gatekeeper.Lib.JsValueTheorems

/-!
# Selective disclosure

`selective-disclosure.mjs` and `acceptIfCapable` of `a2a.mjs`. A claim is signed as the text
`key=value`, so the verifier reads back what was signed unless a text can be read in another way.
-/

namespace Gatekeeper.Agent.Disclosure

open Ecma Encoding
open Js (Error)

/-! ## Hex -/

def toHex (b : Bytes) : Str := ofString (hexEncode b)

/-- `Buffer.from(.., "hex")`: the bytes before the first pair that is none. -/
def hexBytes : List Char → Bytes
  | a :: b :: cs =>
    match Json.hexDigitValue a, Json.hexDigitValue b with
    | some hi, some lo => UInt8.ofNat (hi * 16 + lo) :: hexBytes cs
    | _, _ => []
  | _ => []

def toBytes (h : Str) : Bytes :=
  let cs := toChars h
  hexBytes (if "0x".toList.isPrefixOf cs then cs.drop 2 else cs)

theorem hexDigitValue_hexDigit {n : ℕ} (h : n < 16) :
    Json.hexDigitValue (hexDigit n) = some n := by
  have table : ∀ i : Fin 16, Json.hexDigitValue (hexDigit i) = some i.val := by decide
  exact table ⟨n, h⟩

theorem hexBytes_hexChars (b : Bytes) : hexBytes (hexChars b) = b := by
  induction b with
  | nil => rfl
  | cons x b ih =>
    have hx := x.toNat_lt
    have hbyte : UInt8.ofNat (x.toNat / 16 * 16 + x.toNat % 16) = x := by
      rw [Nat.div_add_mod' x.toNat 16]
      exact UInt8.ofNat_toNat
    rw [hexChars, List.flatMap_cons, ← hexChars]
    change hexBytes (hexDigit (x.toNat / 16) :: hexDigit (x.toNat % 16) :: hexChars b) = _
    rw [hexBytes, hexDigitValue_hexDigit (by omega), hexDigitValue_hexDigit (by omega)]
    simp only [hbyte, ih]

/-- Bytes are read back from their hex text. -/
@[simp] theorem toBytes_toHex (b : Bytes) : toBytes (toHex b) = b := by
  have hprefix : "0x".toList.isPrefixOf (hexChars b) = false := by
    cases b with
    | nil => rfl
    | cons x b =>
      have hdigit : ∀ i : Fin 16, hexDigit i ≠ 'x' := by decide
      have hne : hexDigit (x.toNat % 16) ≠ 'x' :=
        hdigit ⟨x.toNat % 16, Nat.mod_lt _ (by decide)⟩
      by_contra h
      rw [Bool.not_eq_false, List.isPrefixOf_iff_prefix] at h
      exact hne (List.cons_prefix_cons.mp (List.cons_prefix_cons.mp h).2).1.symm
  have hchars : toChars (toHex b) = hexChars b := by
    rw [toHex, toChars_ofString, hexEncode, String.toList_ofList]
  rw [toBytes, hchars, hprefix]
  exact hexBytes_hexChars b

/-! ## The signature scheme -/

/-- The functions of BBS+ that are used. A proof is made for the messages at some positions. -/
structure Bbs where
  publicKeyFromPrivateKey : Str → Str
  sign : (publicKey secretKey : Bytes) → (messages : List Bytes) → Except Error Bytes
  createProof : (signature publicKey : Bytes) → (messages : List Bytes) → (revealed : List ℕ) →
    (nonce : Bytes) → Except Error Bytes
  verifyProof : (proof publicKey : Bytes) → (messages : List Bytes) → (nonce : Bytes) →
    Except Error Bool

/-- An ideal scheme: a proof verifies for the messages at its positions, and for nothing but
messages, in order, of a list that was signed under the key. -/
structure Bbs.Ideal (bbs : Bbs) (Signed : Bytes → List Bytes → Prop) : Prop where
  sound : ∀ {proof publicKey nonce : Bytes} {shown : List Bytes},
    bbs.verifyProof proof publicKey shown nonce = .ok true →
      ∃ messages, Signed publicKey messages ∧ shown.Sublist messages
  complete : ∀ {skHex : Str} {messages : List Bytes} {signature : Bytes} {revealed : List ℕ}
    (nonce : Bytes),
    bbs.sign (toBytes (bbs.publicKeyFromPrivateKey skHex)) (toBytes skHex) messages =
        .ok signature →
      revealed ≠ [] → revealed.Pairwise (· < ·) → (∀ i ∈ revealed, i < messages.length) →
      ∃ proof,
        bbs.createProof signature (toBytes (bbs.publicKeyFromPrivateKey skHex)) messages revealed
            nonce = .ok proof ∧
          bbs.verifyProof proof (toBytes (bbs.publicKeyFromPrivateKey skHex))
            (revealed.filterMap (messages[·]?)) nonce = .ok true

/-! ## Records and presentations -/

/-- The claims of a record. An object has no key twice. -/
structure Claims where
  members : List (Str × Value)
  nodup : (members.map Prod.fst).Nodup

def Claims.keys (claims : Claims) : List Str := claims.members.map Prod.fst

def Claims.get? (claims : Claims) (k : Str) : Option Value := claims.members.lookup k

structure Credential where
  issuerPublicKey : Str
  keys : List Str
  claims : Claims
  signature : Str

structure Presentation where
  issuerPublicKey : Str
  disclosed : List Value
  proof : Str
  nonce : Str

/-! ## The functions -/

def encodeClaim (k v : Option Value) : Except Error Bytes := do
  let key ← template k
  let value ← template v
  return bytesOf (key ++ ofString "=" ++ value)

variable (bbs : Bbs)

/-- `skHex` is the random key that is drawn. -/
def issueRecord (skHex : Str) (claims : Claims) : Except Error Credential := do
  let issuerPublicKey := bbs.publicKeyFromPrivateKey skHex
  let keys := claims.keys
  let messages ← keys.mapM fun k => encodeClaim (some (.string k)) (claims.get? k)
  let signature ← bbs.sign (toBytes issuerPublicKey) (toBytes skHex) messages
  return { issuerPublicKey, keys, claims, signature := toHex signature }

/-- The entry of a claim in a presentation. -/
def entry (k : Str) (v : Value) : Value :=
  .object [(ofString "key", .string k), (ofString "value", v)]

/-- `{ key: cred.keys[i], value: cred.claims[cred.keys[i]] }`. -/
def disclosedAt (cred : Credential) (i : ℕ) : Value :=
  let key := cred.keys[i]?
  let value := key.bind cred.claims.get?
  .object ((key.toList.map fun k => (ofString "key", .string k)) ++
    value.toList.map fun v => (ofString "value", v))

/-- `[...new Set(..)].sort((a, b) => a - b)` of the positions of the keys. -/
def revealedPositions (keys revealKeys : List Str) : List ℕ :=
  (revealKeys.map keys.idxOf).eraseDups.insertionSort (· ≤ ·)

/-- `nonce` are the random bytes that are drawn. -/
def discloseOnly (nonce : Bytes) (cred : Credential) (revealKeys : List Str) :
    Except Error Presentation :=
  if revealKeys.isEmpty then .error (.error "discloseOnly: reveal at least one claim")
  else
    match revealKeys.find? fun k => !cred.keys.contains k with
    | some k =>
      .error (.error ("discloseOnly: unknown claim '" ++ plain k ++ "' (signed claims: " ++
        plain ((ofString ", ").intercalate cred.keys) ++ ")"))
    | none => do
      let messages ← cred.keys.mapM fun k => encodeClaim (some (.string k)) (cred.claims.get? k)
      let revealed := revealedPositions cred.keys revealKeys
      let proof ← bbs.createProof (toBytes cred.signature) (toBytes cred.issuerPublicKey) messages
        revealed nonce
      return { issuerPublicKey := cred.issuerPublicKey, disclosed := revealed.map (disclosedAt cred),
               proof := toHex proof, nonce := toHex nonce }

/-- The message of an entry: taking `null` apart throws. -/
def entryMessage : Value → Except Error Bytes
  | .null => .error .typeError
  | d => encodeClaim (d.get? "key") (d.get? "value")

def verifyDisclosure (d : Presentation) : Except Error Bool := do
  let messages ← d.disclosed.mapM entryMessage
  bbs.verifyProof (toBytes d.proof) (toBytes d.issuerPublicKey) messages (toBytes d.nonce)

/-- `v === k` for a text `k`. -/
def isKey (v : Option Value) (k : Str) : Bool :=
  match v with
  | some (.string t) => t == k
  | _ => false

def acceptIfCapable (presentation : Presentation) (requiredKey : Str)
    (requiredValue : Option Value) : Except Error Bool := do
  let ok ← verifyDisclosure bbs presentation
  match presentation.disclosed.find? fun d => isKey (d.get? "key") requiredKey with
  | none => return false
  | some claim =>
    if ok then
      let value ← template (claim.get? "value")
      let required ← template requiredValue
      return value == required
    else return false

/-! ## What a record and a presentation say -/

/-- The record maps `k` to a value with the text `t`. -/
def IsClaim (claims : Claims) (k t : Str) : Prop :=
  ∃ v, claims.get? k = some v ∧ template (some v) = .ok t

/-- An entry discloses the text `t` under the key `k`. -/
def Discloses (d : Value) (k t : Str) : Prop :=
  template (d.get? "key") = .ok k ∧ template (d.get? "value") = .ok t

/-- No signed text can be read in another way than as a claim: its key and its value end and begin
at an equals sign. -/
def Unambiguous (claims : Claims) : Prop :=
  ∀ k t, IsClaim claims k t → ∀ k' t',
    toChars k' ++ '=' :: toChars t' = toChars k ++ '=' :: toChars t → IsClaim claims k' t'

/-- What is accepted under the key of a credential are claims of its record. -/
structure AcceptsClaimsOnly (cred : Credential) : Prop where
  verified : ∀ p : Presentation, toBytes p.issuerPublicKey = toBytes cred.issuerPublicKey →
    verifyDisclosure bbs p = .ok true →
      ∀ d ∈ p.disclosed, ∃ k t, Discloses d k t ∧ IsClaim cred.claims k t
  capable : ∀ (p : Presentation) (k : Str) (v : Option Value),
    toBytes p.issuerPublicKey = toBytes cred.issuerPublicKey →
      acceptIfCapable bbs p k v = .ok true →
        ∃ t, template v = .ok t ∧ IsClaim cred.claims k t

/-- What is disclosed on request are the claims asked for, once each and in order, and it
verifies. -/
def DisclosesOnRequest (cred : Credential) : Prop :=
  ∀ (nonce : Bytes) (revealKeys : List Str), revealKeys ≠ [] →
    (∀ k ∈ revealKeys, k ∈ cred.keys) →
      ∃ p, discloseOnly bbs nonce cred revealKeys = .ok p ∧ verifyDisclosure bbs p = .ok true ∧
        p.issuerPublicKey = cred.issuerPublicKey ∧
        p.disclosed = (cred.claims.members.filter fun m => revealKeys.contains m.1).map
          fun m => entry m.1 m.2

/-! ## Messages -/

theorem encodeClaim_eq_ok {k v : Option Value} {b : Bytes} :
    encodeClaim k v = .ok b ↔ ∃ key value, template k = .ok key ∧ template v = .ok value ∧
      bytesOf (key ++ ofString "=" ++ value) = b := by
  rw [encodeClaim, Js.bind_eq_ok]
  constructor
  · rintro ⟨key, hkey, h⟩
    obtain ⟨value, hvalue, h⟩ := Js.bind_eq_ok.mp h
    exact ⟨key, value, hkey, hvalue, Except.ok.inj h⟩
  · rintro ⟨key, value, hkey, hvalue, rfl⟩
    exact ⟨key, hkey, Js.bind_eq_ok.mpr ⟨value, hvalue, rfl⟩⟩

/-- The bytes of `key=value` tell the characters around one equals sign. -/
theorem claimBytes_eq_iff {k t k' t' : Str} :
    bytesOf (k' ++ ofString "=" ++ t') = bytesOf (k ++ ofString "=" ++ t) ↔
      toChars k' ++ '=' :: toChars t' = toChars k ++ '=' :: toChars t := by
  have hchars : ∀ k t : Str, toChars (k ++ ofString "=" ++ t) = toChars k ++ '=' :: toChars t := by
    intro k t
    rw [List.append_assoc]
    exact toChars_append (u := 61) (by decide) k t
  rw [bytesOf_eq_iff, hchars, hchars]

theorem entryMessage_eq_ok {d : Value} {b : Bytes} :
    entryMessage d = .ok b →
      ∃ k t, Discloses d k t ∧ bytesOf (k ++ ofString "=" ++ t) = b := by
  intro h
  have hclaim : encodeClaim (d.get? "key") (d.get? "value") = .ok b := by
    cases d with
    | null => cases h
    | _ => exact h
  obtain ⟨k, t, hk, ht, hb⟩ := encodeClaim_eq_ok.mp hclaim
  exact ⟨k, t, ⟨hk, ht⟩, hb⟩

theorem get?_entry (k : Str) (v : Value) :
    (entry k v).get? "key" = some (.string k) ∧ (entry k v).get? "value" = some v := by
  have hne : (ofString "value" == ofString "key") = false := ofString_beq (by decide)
  rw [entry, Value.get?, Value.get?, List.lookup_cons_self, List.lookup_cons, hne,
    List.lookup_cons_self]
  exact ⟨rfl, rfl⟩

theorem entryMessage_entry (k : Str) (v : Value) :
    entryMessage (entry k v) = encodeClaim (some (.string k)) (some v) := by
  have hget := get?_entry k v
  rw [← hget.1, ← hget.2]
  rfl

/-- An entry discloses one text under one key. -/
theorem discloses_entry {k k' t : Str} {v : Value} (h : Discloses (entry k v) k' t) :
    k' = k ∧ template (some v) = .ok t := by
  rw [Discloses, (get?_entry k v).1, (get?_entry k v).2] at h
  exact ⟨(Except.ok.inj h.1).symm, h.2⟩

/-- The messages that stand for a record. -/
def messagesOf (claims : Claims) : Except Error (List Bytes) :=
  claims.keys.mapM fun k => encodeClaim (some (.string k)) (claims.get? k)

variable {bbs} {Signed : Bytes → List Bytes → Prop} {skHex : Str} {claims : Claims}
  {cred : Credential}

variable (bbs skHex claims) in
/-- The credential with a signature. -/
def issued (signature : Bytes) : Credential where
  issuerPublicKey := bbs.publicKeyFromPrivateKey skHex
  keys := claims.keys
  claims := claims
  signature := toHex signature

theorem issueRecord_eq_ok (h : issueRecord bbs skHex claims = .ok cred) :
    ∃ messages signature, messagesOf claims = .ok messages ∧
      bbs.sign (toBytes (bbs.publicKeyFromPrivateKey skHex)) (toBytes skHex) messages =
        .ok signature ∧ cred = issued bbs skHex claims signature := by
  obtain ⟨messages, hmessages, h⟩ := Js.bind_eq_ok.mp h
  obtain ⟨signature, hsignature, h⟩ := Js.bind_eq_ok.mp h
  exact ⟨messages, signature, hmessages, hsignature, (Except.ok.inj h).symm⟩

/-- A message of a record is the one of a claim. -/
theorem claim_of_message {messages : List Bytes} (h : messagesOf claims = .ok messages) {b : Bytes}
    (hb : b ∈ messages) :
    ∃ k t, IsClaim claims k t ∧ bytesOf (k ++ ofString "=" ++ t) = b := by
  obtain ⟨k, hk, hencode⟩ := Js.exists_of_mem_mapM h hb
  obtain ⟨key, t, hkey, ht, hbytes⟩ := encodeClaim_eq_ok.mp hencode
  obtain rfl := Except.ok.inj hkey
  obtain ⟨m, hm, rfl⟩ := List.mem_map.mp hk
  have hget : claims.get? m.1 = some m.2 := (lookup_eq_some_iff claims.nodup).mpr hm
  rw [hget] at ht
  exact ⟨m.1, t, ⟨m.2, hget, ht⟩, hbytes⟩

/-! ## What is accepted -/

/-- Behind an accepted presentation each entry has the bytes of a claim. -/
theorem claim_of_verified (hideal : bbs.Ideal Signed)
    (honly : ∀ ms, Signed (toBytes cred.issuerPublicKey) ms → messagesOf claims = .ok ms)
    {p : Presentation} (hkey : toBytes p.issuerPublicKey = toBytes cred.issuerPublicKey)
    (h : verifyDisclosure bbs p = .ok true) {d : Value} (hd : d ∈ p.disclosed) :
    ∃ k' t' k t, Discloses d k' t' ∧ IsClaim claims k t ∧
      toChars k' ++ '=' :: toChars t' = toChars k ++ '=' :: toChars t := by
  obtain ⟨shown, hshown, hverify⟩ := Js.bind_eq_ok.mp h
  obtain ⟨messages, hsigned, hsub⟩ := hideal.sound hverify
  rw [hkey] at hsigned
  obtain ⟨b, hb, hmessage⟩ := Js.exists_of_mapM hshown hd
  obtain ⟨k', t', hdiscloses, hbytes'⟩ := entryMessage_eq_ok hmessage
  obtain ⟨k, t, hclaim, hbytes⟩ := claim_of_message (honly messages hsigned) (hsub.subset hb)
  exact ⟨k', t', k, t, hdiscloses, hclaim, claimBytes_eq_iff.mp (hbytes'.trans hbytes.symm)⟩

theorem eq_of_isKey {v : Option Value} {k : Str} (h : isKey v k = true) :
    v = some (.string k) := by
  unfold isKey at h
  split at h
  · rw [beq_iff_eq.mp h]
  · cases h

/-- What is accepted as a capability is an entry of a verified presentation. -/
theorem acceptIfCapable_eq_ok {p : Presentation} {k : Str} {v : Option Value}
    (h : acceptIfCapable bbs p k v = .ok true) :
    verifyDisclosure bbs p = .ok true ∧ ∃ d ∈ p.disclosed, ∃ t, template v = .ok t ∧
      Discloses d k t := by
  obtain ⟨ok, hok, h⟩ := Js.bind_eq_ok.mp h
  cases hfind : p.disclosed.find? fun d => isKey (d.get? "key") k with
  | none =>
    rw [hfind] at h
    cases h
  | some d =>
    rw [hfind] at h
    cases ok with
    | false => cases h
    | true =>
      obtain ⟨value, hvalue, h⟩ := Js.bind_eq_ok.mp h
      obtain ⟨required, hrequired, h⟩ := Js.bind_eq_ok.mp h
      have heq : value = required := beq_iff_eq.mp (Except.ok.inj h)
      have hkey : template (d.get? "key") = .ok k := by
        have hd := List.find?_some hfind
        rw [eq_of_isKey hd]
        rfl
      rw [heq] at hvalue
      exact ⟨hok, d, List.mem_of_find?_eq_some hfind, required, hrequired, hkey, hvalue⟩

theorem acceptsClaimsOnly_of_unambiguous (hideal : bbs.Ideal Signed)
    (honly : ∀ ms, Signed (toBytes cred.issuerPublicKey) ms → messagesOf cred.claims = .ok ms)
    (h : Unambiguous cred.claims) : AcceptsClaimsOnly bbs cred where
  verified := by
    intro p hkey hp d hd
    obtain ⟨k', t', k, t, hdiscloses, hclaim, hchars⟩ := claim_of_verified hideal honly hkey hp hd
    exact ⟨k', t', hdiscloses, h k t hclaim k' t' hchars⟩
  capable := by
    intro p k v hkey hp
    obtain ⟨hverified, d, hd, t, ht, hdk⟩ := acceptIfCapable_eq_ok hp
    obtain ⟨k', t', k₀, t₀, hdiscloses, hclaim, hchars⟩ :=
      claim_of_verified hideal honly hkey hverified hd
    obtain rfl := Except.ok.inj (hdk.1.symm.trans hdiscloses.1)
    obtain rfl := Except.ok.inj (hdk.2.symm.trans hdiscloses.2)
    exact ⟨t, ht, h k₀ t₀ hclaim k t hchars⟩

/-! ## What is disclosed on request -/

theorem nodup_eraseDups (is : List ℕ) : is.eraseDups.Nodup := by
  induction hn : is.length using Nat.strong_induction_on generalizing is with
  | _ n ih =>
    cases is with
    | nil => exact List.nodup_nil
    | cons i is =>
      have hle := List.length_filter_le (fun j => !j == i) is
      rw [List.length_cons] at hn
      rw [List.eraseDups_cons, List.nodup_cons]
      refine ⟨?_, ih _ (by omega) _ rfl⟩
      rw [List.mem_eraseDups, List.mem_filter]
      intro h
      simp at h

/-- Distinct positions below `n`, in order, are those of the first `n` that are among them. -/
theorem sorted_positions {is : List ℕ} {n : ℕ} (h : ∀ i ∈ is, i < n) :
    is.eraseDups.insertionSort (· ≤ ·) = (List.range n).filter fun i => is.contains i := by
  have hsorted : (is.eraseDups.insertionSort (· ≤ ·)).Pairwise (· < ·) := by
    rw [← List.sortedLT_iff_pairwise, List.sortedLT_iff_nodup_and_sortedLE,
      List.sortedLE_iff_pairwise]
    exact ⟨(List.perm_insertionSort _ _).nodup_iff.mpr (nodup_eraseDups is),
      List.pairwise_insertionSort _ _⟩
  have hrange : ((List.range n).filter fun i => is.contains i).Pairwise (· < ·) :=
    List.pairwise_lt_range.filter _
  refine hsorted.eq_of_mem_iff hrange fun i => ?_
  rw [List.mem_insertionSort, List.mem_eraseDups, List.mem_filter, List.mem_range,
    List.contains_iff_mem]
  exact ⟨fun hi => ⟨h i hi, hi⟩, And.right⟩

/-- Items taken by their positions are the items that are kept. -/
theorem map_filter_range {α β : Type} {l : List α} {p : ℕ → Bool} {q : α → Bool} {f : ℕ → β}
    {g : α → β} (h : ∀ i a, l[i]? = some a → p i = q a ∧ f i = g a) :
    ((List.range l.length).filter p).map f = (l.filter q).map g := by
  induction l generalizing p f with
  | nil => rfl
  | cons a l ih =>
    have hhead := h 0 a rfl
    have htail := ih (p := p ∘ Nat.succ) (f := f ∘ Nat.succ) fun i b hb => h (i + 1) b hb
    rw [List.length_cons, List.range_succ_eq_map, List.filter_cons, List.filter_cons, hhead.1,
      List.filter_map]
    split_ifs
    · rw [List.map_cons, List.map_cons, List.map_map, htail, hhead.2]
    · rw [List.map_map, htail]

theorem disclosedAt_eq {i : ℕ} {m : Str × Value} (hkeys : cred.keys = cred.claims.keys)
    (h : cred.claims.members[i]? = some m) : disclosedAt cred i = entry m.1 m.2 := by
  have hkey : cred.keys[i]? = some m.1 := by
    rw [hkeys, Claims.keys, List.getElem?_map, h]
    rfl
  have hget : cred.claims.get? m.1 = some m.2 :=
    (lookup_eq_some_iff cred.claims.nodup).mpr (List.mem_of_getElem? h)
  rw [disclosedAt, hkey, Option.bind_some, hget]
  rfl

/-- The position of a key is among those of the keys asked for when the key is. -/
theorem contains_position {i : ℕ} {m : Str × Value} {revealKeys : List Str}
    (hsigned : ∀ k ∈ revealKeys, k ∈ claims.keys) (h : claims.members[i]? = some m) :
    (revealKeys.map claims.keys.idxOf).contains i = revealKeys.contains m.1 := by
  have hkey : claims.keys[i]? = some m.1 := by
    rw [Claims.keys, List.getElem?_map, h]
    rfl
  obtain ⟨hi, hget⟩ := List.getElem?_eq_some_iff.mp hkey
  rw [Bool.eq_iff_iff, List.contains_iff_mem, List.contains_iff_mem, List.mem_map]
  constructor
  · rintro ⟨k, hk, hidx⟩
    have hk' : claims.keys[claims.keys.idxOf k]? = some k := by
      rw [List.getElem?_idxOf (hsigned k hk)]
    rw [hidx, hkey, Option.some.injEq] at hk'
    rw [hk']
    exact hk
  · intro hm
    refine ⟨m.1, hm, ?_⟩
    rw [← hget]
    exact claims.nodup.idxOf_getElem i hi

/-- The entry at a position has the message at that position. -/
theorem message_at {messages : List Bytes} (hkeys : cred.keys = cred.claims.keys)
    (hmessages : messagesOf cred.claims = .ok messages) {i : ℕ} (hi : i < messages.length) :
    ∃ b, messages[i]? = some b ∧ entryMessage (disclosedAt cred i) = .ok b := by
  have hall := Js.mapM_eq_ok.mp hmessages
  have hik : i < cred.claims.keys.length := by
    rw [hall.length_eq]
    exact hi
  have him : i < cred.claims.members.length := by
    rw [Claims.keys, List.length_map] at hik
    exact hik
  have hencode := hall.get hik hi
  have hmember : cred.claims.members[i]? = some cred.claims.members[i] :=
    List.getElem?_eq_getElem him
  have hget : cred.claims.get? cred.claims.members[i].1 = some cred.claims.members[i].2 :=
    (lookup_eq_some_iff cred.claims.nodup).mpr (List.mem_of_getElem? hmember)
  have hkey : cred.claims.keys.get ⟨i, hik⟩ = cred.claims.members[i].1 := by
    simp [Claims.keys]
  rw [hkey, hget] at hencode
  refine ⟨messages.get ⟨i, hi⟩, List.getElem?_eq_getElem hi, ?_⟩
  rw [disclosedAt_eq hkeys hmember, entryMessage_entry]
  exact hencode

/-- The entries at some positions have the messages at those positions. -/
theorem shown_messages {messages : List Bytes} (hkeys : cred.keys = cred.claims.keys)
    (hmessages : messagesOf cred.claims = .ok messages) {is : List ℕ}
    (h : ∀ i ∈ is, i < messages.length) :
    (is.map (disclosedAt cred)).mapM entryMessage = .ok (is.filterMap (messages[·]?)) := by
  induction is with
  | nil => rfl
  | cons i is ih =>
    rw [List.forall_mem_cons] at h
    obtain ⟨b, hb, hentry⟩ := message_at hkeys hmessages h.1
    rw [List.map_cons, List.mapM_cons, hentry, ih h.2, List.filterMap_cons, hb]
    rfl

theorem revealedPositions_eq {revealKeys : List Str}
    (hsigned : ∀ k ∈ revealKeys, k ∈ claims.keys) :
    revealedPositions claims.keys revealKeys =
      (List.range claims.members.length).filter fun i =>
        (revealKeys.map claims.keys.idxOf).contains i := by
  refine sorted_positions fun i hi => ?_
  obtain ⟨k, hk, rfl⟩ := List.mem_map.mp hi
  have hlt := List.idxOf_lt_length_iff.mpr (hsigned k hk)
  rw [Claims.keys, List.length_map] at hlt
  exact hlt

theorem revealedPositions_lt {revealKeys : List Str}
    (hsigned : ∀ k ∈ revealKeys, k ∈ claims.keys) :
    ∀ i ∈ revealedPositions claims.keys revealKeys, i < claims.members.length := by
  intro i hi
  rw [revealedPositions_eq hsigned, List.mem_filter, List.mem_range] at hi
  exact hi.1

theorem revealedPositions_sorted {revealKeys : List Str}
    (hsigned : ∀ k ∈ revealKeys, k ∈ claims.keys) :
    (revealedPositions claims.keys revealKeys).Pairwise (· < ·) := by
  rw [revealedPositions_eq hsigned]
  exact List.pairwise_lt_range.filter _

theorem revealedPositions_ne_nil {keys revealKeys : List Str} (hne : revealKeys ≠ []) :
    revealedPositions keys revealKeys ≠ [] := by
  obtain ⟨k, ks, rfl⟩ := List.exists_cons_of_ne_nil hne
  refine List.ne_nil_of_mem (a := keys.idxOf k) ?_
  rw [revealedPositions, List.mem_insertionSort, List.mem_eraseDups]
  exact List.mem_cons_self

/-- The entries at the positions are those of the claims asked for. -/
theorem map_disclosedAt {revealKeys : List Str} (hkeys : cred.keys = cred.claims.keys)
    (hsigned : ∀ k ∈ revealKeys, k ∈ cred.claims.keys) :
    (revealedPositions cred.claims.keys revealKeys).map (disclosedAt cred) =
      (cred.claims.members.filter fun m => revealKeys.contains m.1).map
        fun m => entry m.1 m.2 := by
  rw [revealedPositions_eq hsigned]
  refine map_filter_range fun i m hm => ?_
  exact ⟨contains_position hsigned hm, disclosedAt_eq hkeys hm⟩

/-- The presentation of a proof that could be made. -/
theorem discloseOnly_of {revealKeys : List Str} {messages : List Bytes} {proof nonce : Bytes}
    (hne : revealKeys ≠ []) (hsigned : ∀ k ∈ revealKeys, k ∈ cred.keys)
    (hmessages : (cred.keys.mapM fun k => encodeClaim (some (.string k)) (cred.claims.get? k)) =
      .ok messages)
    (hproof : bbs.createProof (toBytes cred.signature) (toBytes cred.issuerPublicKey) messages
      (revealedPositions cred.keys revealKeys) nonce = .ok proof) :
    discloseOnly bbs nonce cred revealKeys = .ok
      { issuerPublicKey := cred.issuerPublicKey,
        disclosed := (revealedPositions cred.keys revealKeys).map (disclosedAt cred),
        proof := toHex proof, nonce := toHex nonce } := by
  have hempty : revealKeys.isEmpty = false := List.isEmpty_eq_false_iff.mpr hne
  have hfind : revealKeys.find? (fun k => !cred.keys.contains k) = none := by
    rw [List.find?_eq_none]
    intro k hk
    simpa using hsigned k hk
  rw [discloseOnly, hempty, hfind, hmessages]
  change (do let proof ← bbs.createProof (toBytes cred.signature) _ messages _ nonce; _) = _
  rw [hproof]
  rfl

/-- What an honest holder makes of a credential. -/
theorem discloseOnly_eq_ok (hideal : bbs.Ideal Signed)
    (hissue : issueRecord bbs skHex claims = .ok cred) (nonce : Bytes) {revealKeys : List Str}
    (hne : revealKeys ≠ []) (hsigned : ∀ k ∈ revealKeys, k ∈ claims.keys) :
    ∃ proof shown,
      discloseOnly bbs nonce cred revealKeys = .ok
        { issuerPublicKey := cred.issuerPublicKey,
          disclosed := (claims.members.filter fun m => revealKeys.contains m.1).map
            fun m => entry m.1 m.2,
          proof := toHex proof, nonce := toHex nonce } ∧
      ((claims.members.filter fun m => revealKeys.contains m.1).map
        fun m => entry m.1 m.2).mapM entryMessage = .ok shown ∧
      bbs.verifyProof proof (toBytes cred.issuerPublicKey) shown nonce = .ok true := by
  obtain ⟨messages, signature, hmessages, hsign, rfl⟩ := issueRecord_eq_ok hissue
  have hlength : messages.length = claims.members.length := by
    rw [← (Js.mapM_eq_ok.mp hmessages).length_eq, Claims.keys, List.length_map]
  have hbound : ∀ i ∈ revealedPositions claims.keys revealKeys, i < messages.length := by
    rw [hlength]
    exact revealedPositions_lt hsigned
  obtain ⟨proof, hproof, hverify⟩ := hideal.complete nonce hsign (revealedPositions_ne_nil hne)
    (revealedPositions_sorted hsigned) hbound
  have hentries : (revealedPositions claims.keys revealKeys).map
        (disclosedAt (issued bbs skHex claims signature)) =
      (claims.members.filter fun m => revealKeys.contains m.1).map fun m => entry m.1 m.2 :=
    map_disclosedAt rfl hsigned
  have hkeys : (issued bbs skHex claims signature).keys =
      (issued bbs skHex claims signature).claims.keys := rfl
  have hshown := shown_messages hkeys hmessages hbound
  have hmade : discloseOnly bbs nonce (issued bbs skHex claims signature) revealKeys = .ok _ :=
    discloseOnly_of hne hsigned hmessages (by rw [issued, toBytes_toHex]; exact hproof)
  have hclaims : (issued bbs skHex claims signature).claims.keys = claims.keys := rfl
  rw [hkeys, hclaims, hentries] at hmade
  rw [hentries] at hshown
  exact ⟨proof, _, hmade, hshown, hverify⟩

theorem verifyDisclosure_of {p : Presentation} {proof nonce : Bytes} {shown : List Bytes}
    (hproof : p.proof = toHex proof) (hnonce : p.nonce = toHex nonce)
    (hshown : p.disclosed.mapM entryMessage = .ok shown)
    (hverify : bbs.verifyProof proof (toBytes p.issuerPublicKey) shown nonce = .ok true) :
    verifyDisclosure bbs p = .ok true := by
  refine Js.bind_eq_ok.mpr ⟨shown, hshown, ?_⟩
  rw [hproof, hnonce, toBytes_toHex, toBytes_toHex]
  exact hverify

theorem claims_of_issueRecord (hissue : issueRecord bbs skHex claims = .ok cred) :
    cred.claims = claims ∧ cred.keys = claims.keys := by
  obtain ⟨messages, signature, -, -, rfl⟩ := issueRecord_eq_ok hissue
  exact ⟨rfl, rfl⟩

theorem disclosesOnRequest (hideal : bbs.Ideal Signed)
    (hissue : issueRecord bbs skHex claims = .ok cred) : DisclosesOnRequest bbs cred := by
  intro nonce revealKeys hne hsigned
  obtain ⟨hclaims, hkeys⟩ := claims_of_issueRecord hissue
  rw [hkeys] at hsigned
  obtain ⟨proof, shown, hmade, hshown, hverify⟩ :=
    discloseOnly_eq_ok hideal hissue nonce hne hsigned
  rw [hclaims]
  exact ⟨_, hmade, verifyDisclosure_of rfl rfl hshown hverify, rfl, rfl⟩

/-! ## The claim about disclosures -/

/-- A key is that of one claim. -/
theorem filter_key {ms : List (Str × Value)} (h : (ms.map Prod.fst).Nodup) {k : Str} {v : Value}
    (hm : (k, v) ∈ ms) : ms.filter (fun m => [k].contains m.1) = [(k, v)] := by
  induction ms with
  | nil => cases hm
  | cons m ms ih =>
    rw [List.map_cons, List.nodup_cons] at h
    have hcontains : ∀ j, [k].contains j = decide (j = k) := by
      intro j
      rw [Bool.eq_iff_iff, List.contains_iff_mem, List.mem_singleton, decide_eq_true_iff]
    rcases List.mem_cons.mp hm with rfl | hm
    · have hrest : ms.filter (fun m => [k].contains m.1) = [] := by
        rw [List.filter_eq_nil_iff]
        intro n hn hc
        rw [hcontains, decide_eq_true_iff] at hc
        exact h.1 (List.mem_map.mpr ⟨n, hn, hc⟩)
      rw [List.filter_cons_of_pos (by simp), hrest]
    · have hne : m.1 ≠ k := by
        intro heq
        exact h.1 (List.mem_map.mpr ⟨(k, v), hm, heq.symm⟩)
      rw [List.filter_cons_of_neg (by rw [hcontains, decide_eq_true_iff]; exact hne), ih h.2 hm]

/-- A holder can present a claim as any reading of its text. -/
theorem exists_accepted (hideal : bbs.Ideal Signed)
    (hissue : issueRecord bbs skHex claims = .ok cred) {k t k' t' : Str} (hclaim : IsClaim claims k t)
    (hchars : toChars k' ++ '=' :: toChars t' = toChars k ++ '=' :: toChars t) :
    ∃ p : Presentation, p.issuerPublicKey = cred.issuerPublicKey ∧
      p.disclosed = [entry k' (.string t')] ∧ verifyDisclosure bbs p = .ok true := by
  obtain ⟨v, hget, ht⟩ := hclaim
  have hmem : (k, v) ∈ claims.members := (lookup_eq_some_iff claims.nodup).mp hget
  have hkey : ∀ j ∈ [k], j ∈ claims.keys := by
    intro j hj
    rw [List.mem_singleton.mp hj]
    exact List.mem_map.mpr ⟨(k, v), hmem, rfl⟩
  obtain ⟨proof, shown, -, hshown, hverify⟩ :=
    discloseOnly_eq_ok hideal hissue [] (List.cons_ne_nil k []) hkey
  rw [filter_key claims.nodup hmem] at hshown
  -- the two entries have the same message
  have hsame : entryMessage (entry k' (.string t')) = entryMessage (entry k v) := by
    rw [entryMessage_entry, entryMessage_entry, encodeClaim_eq_ok.mpr ⟨k, t, rfl, ht, rfl⟩]
    exact encodeClaim_eq_ok.mpr ⟨k', t', rfl, rfl, claimBytes_eq_iff.mpr hchars⟩
  refine ⟨{ issuerPublicKey := cred.issuerPublicKey, disclosed := [entry k' (.string t')],
            proof := toHex proof, nonce := toHex [] }, rfl, rfl, ?_⟩
  refine verifyDisclosure_of rfl rfl ?_ hverify
  rw [← hshown, List.map_singleton, List.mapM_cons, List.mapM_cons, hsame]

/-- A record whose keys and texts have no equals sign and no replacement is read in one way. -/
theorem unambiguous_of_plain
    (h : ∀ k t, IsClaim claims k t → ('=' ∉ toChars k ∧ '=' ∉ toChars t) ∧
      '\uFFFD' ∉ toChars k ∧ '\uFFFD' ∉ toChars t) : Unambiguous claims := by
  intro k t hclaim k' t' hchars
  obtain ⟨⟨hk, ht⟩, hreplaced⟩ := h k t hclaim
  obtain ⟨hkey, -, htext⟩ := (List.append_cons_inj_of_notMem hk ht).mp hchars.symm
  have hk' : k' = k := by
    rw [← flatMap_toChars (hkey ▸ hreplaced.1 : '\uFFFD' ∉ toChars k'), ← hkey,
      flatMap_toChars hreplaced.1]
  have ht' : t' = t := by
    rw [← flatMap_toChars (htext ▸ hreplaced.2 : '\uFFFD' ∉ toChars t'), ← htext,
      flatMap_toChars hreplaced.2]
  rw [hk', ht']
  exact hclaim

/-- Under a key that signed one record, what is accepted are claims of the record exactly when no
signed text can be read in another way. What is asked for is always disclosed, and verifies. -/
theorem accepted_disclosures_iff (hideal : bbs.Ideal Signed)
    (hissue : issueRecord bbs skHex claims = .ok cred)
    (honly : ∀ ms, Signed (toBytes cred.issuerPublicKey) ms → messagesOf claims = .ok ms) :
    (AcceptsClaimsOnly bbs cred ↔ Unambiguous claims) ∧ DisclosesOnRequest bbs cred := by
  obtain ⟨hclaims, -⟩ := claims_of_issueRecord hissue
  refine ⟨⟨?_, ?_⟩, disclosesOnRequest hideal hissue⟩
  · intro haccepts k t hclaim k' t' hchars
    obtain ⟨p, hkey, hdisclosed, hverified⟩ := exists_accepted hideal hissue hclaim hchars
    have hentry : entry k' (.string t') ∈ p.disclosed := by
      rw [hdisclosed]
      exact List.mem_singleton_self _
    obtain ⟨k'', t'', hdiscloses, hclaim'⟩ :=
      haccepts.verified p (congrArg toBytes hkey) hverified _ hentry
    obtain ⟨rfl, ht⟩ := discloses_entry hdiscloses
    obtain rfl := Except.ok.inj ht
    rw [← hclaims]
    exact hclaim'
  · intro hunambiguous
    rw [← hclaims] at honly hunambiguous
    exact acceptsClaimsOnly_of_unambiguous hideal honly hunambiguous

/-! ## Samples -/

/-- A record of one claim. -/
def singleClaim (k t : String) : Claims where
  members := [(ofString k, .string (ofString t))]
  nodup := List.nodup_singleton _

theorem isClaim_singleClaim {k t : String} {k' t' : Str} (h : IsClaim (singleClaim k t) k' t') :
    k' = ofString k ∧ t' = ofString t := by
  obtain ⟨v, hget, ht⟩ := h
  have hmem := (lookup_eq_some_iff (singleClaim k t).nodup).mp hget
  obtain ⟨rfl, rfl⟩ := Prod.mk.inj (List.mem_singleton.mp hmem)
  exact ⟨rfl, (Except.ok.inj ht).symm⟩

theorem messagesOf_singleClaim (k t : String) :
    messagesOf (singleClaim k t) = .ok [bytesOf (ofString k ++ ofString "=" ++ ofString t)] := by
  have hget : (singleClaim k t).get? (ofString k) = some (.string (ofString t)) :=
    List.lookup_cons_self
  refine Js.mapM_eq_ok.mpr (.cons ?_ .nil)
  rw [hget]
  rfl

/-- A scheme for one message. -/
def sampleBbs (message : Bytes) : Bbs where
  publicKeyFromPrivateKey := id
  sign := fun _ _ messages => if messages = [message] then .ok [] else .error .typeError
  createProof := fun _ _ _ _ _ => .ok []
  verifyProof := fun _ _ shown _ => .ok (shown == [] || shown == [message])

theorem sampleBbs_ideal (message : Bytes) :
    (sampleBbs message).Ideal fun _ messages => messages = [message] where
  sound := by
    intro proof publicKey nonce shown h
    refine ⟨[message], rfl, ?_⟩
    rcases Bool.or_eq_true_iff.mp (Except.ok.inj h) with h | h
    · rw [beq_iff_eq.mp h]
      exact List.nil_sublist _
    · rw [beq_iff_eq.mp h]
  complete := by
    intro skHex messages signature revealed nonce hsign hne hsorted hbound
    obtain rfl : messages = [message] := by
      by_contra hmessages
      rw [sampleBbs] at hsign
      simp only [if_neg hmessages] at hsign
      cases hsign
    -- the one position there is
    have hzero : revealed = [0] := by
      have hall : ∀ i ∈ revealed, i = 0 := fun i hi => Nat.lt_one_iff.mp (hbound i hi)
      cases revealed with
      | nil => exact absurd rfl hne
      | cons i is =>
        obtain rfl := hall i List.mem_cons_self
        cases is with
        | nil => rfl
        | cons j js =>
          have hlt := List.rel_of_pairwise_cons hsorted (List.mem_cons_self (a := j))
          have hj := hall j (List.mem_cons_of_mem _ List.mem_cons_self)
          omega
    refine ⟨[], rfl, ?_⟩
    rw [hzero]
    change Except.ok ([message] == [] || [message] == [message]) = .ok true
    rw [beq_self_eq_true, Bool.or_true]

/-- The credential of a record of one claim. -/
theorem issueRecord_singleClaim (k t : String) :
    issueRecord (sampleBbs (bytesOf (ofString k ++ ofString "=" ++ ofString t))) []
        (singleClaim k t) =
      .ok (issued (sampleBbs (bytesOf (ofString k ++ ofString "=" ++ ofString t))) []
        (singleClaim k t) []) := by
  refine Js.bind_eq_ok.mpr ⟨_, messagesOf_singleClaim k t, Js.bind_eq_ok.mpr ⟨[], ?_, rfl⟩⟩
  exact if_pos rfl

/-- The message of the claim `capability=payments.execute`. -/
def capabilityMessage : Bytes :=
  bytesOf (ofString "capability" ++ ofString "=" ++ ofString "payments.execute")

def capabilityCredential : Credential :=
  issued (sampleBbs capabilityMessage) [] (singleClaim "capability" "payments.execute") []

theorem accepted_disclosures_sample :
    AcceptsClaimsOnly (sampleBbs capabilityMessage) capabilityCredential ∧
      DisclosesOnRequest (sampleBbs capabilityMessage) capabilityCredential := by
  have hexact := accepted_disclosures_iff (sampleBbs_ideal capabilityMessage)
    (issueRecord_singleClaim "capability" "payments.execute")
    (fun ms hms => by rw [hms]; exact messagesOf_singleClaim _ _)
  refine ⟨hexact.1.mpr (unambiguous_of_plain fun k t h => ?_), hexact.2⟩
  obtain ⟨rfl, rfl⟩ := isClaim_singleClaim h
  rw [toChars_ofString, toChars_ofString]
  decide

/-- The message of the claim `a=b=c`. -/
def splitMessage : Bytes := bytesOf (ofString "a" ++ ofString "=" ++ ofString "b=c")

/-- The claim `a=b=c`, presented under the key `a=b`. -/
def splitPresentation : Presentation where
  issuerPublicKey := []
  disclosed := [entry (ofString "a=b") (.string (ofString "c"))]
  proof := toHex []
  nonce := toHex []

theorem entryMessage_split :
    entryMessage (entry (ofString "a=b") (.string (ofString "c"))) = .ok splitMessage := by
  rw [entryMessage_entry, encodeClaim_eq_ok]
  refine ⟨_, _, rfl, rfl, claimBytes_eq_iff.mpr ?_⟩
  rw [toChars_ofString, toChars_ofString, toChars_ofString, toChars_ofString]
  decide

/-- A claim is accepted under a key that the record does not have. -/
theorem accepted_disclosures_split :
    (sampleBbs splitMessage).Ideal (fun _ messages => messages = [splitMessage]) ∧
      issueRecord (sampleBbs splitMessage) [] (singleClaim "a" "b=c") =
        .ok (issued (sampleBbs splitMessage) [] (singleClaim "a" "b=c") []) ∧
      splitPresentation.issuerPublicKey =
        (issued (sampleBbs splitMessage) [] (singleClaim "a" "b=c") []).issuerPublicKey ∧
      acceptIfCapable (sampleBbs splitMessage) splitPresentation (ofString "a=b")
        (some (.string (ofString "c"))) = .ok true ∧
      ¬ IsClaim (singleClaim "a" "b=c") (ofString "a=b") (ofString "c") := by
  refine ⟨sampleBbs_ideal splitMessage, issueRecord_singleClaim "a" "b=c", rfl, ?_, ?_⟩
  · have hshown : splitPresentation.disclosed.mapM entryMessage = .ok [splitMessage] :=
      Js.mapM_eq_ok.mpr (.cons entryMessage_split .nil)
    have hverify : (sampleBbs splitMessage).verifyProof [] (toBytes []) [splitMessage] [] =
        .ok true := by
      change Except.ok ([splitMessage] == [] || [splitMessage] == [splitMessage]) = .ok true
      rw [beq_self_eq_true, Bool.or_true]
    have hfind : splitPresentation.disclosed.find?
        (fun d => isKey (d.get? "key") (ofString "a=b")) =
          some (entry (ofString "a=b") (.string (ofString "c"))) := by
      rw [splitPresentation, List.find?_cons_of_pos]
      rw [(get?_entry _ _).1]
      exact beq_self_eq_true (ofString "a=b")
    refine Js.bind_eq_ok.mpr ⟨true, verifyDisclosure_of rfl rfl hshown hverify, ?_⟩
    rw [hfind]
    change (do let value ← template ((entry _ _).get? "value"); _) = _
    rw [(get?_entry _ _).2]
    exact congrArg Except.ok (beq_self_eq_true (ofString "c"))
  · intro h
    exact absurd (ofString_injective (isClaim_singleClaim h).1) (by decide)

end Gatekeeper.Agent.Disclosure

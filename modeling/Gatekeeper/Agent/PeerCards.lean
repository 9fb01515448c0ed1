import Gatekeeper.Agent.SignedCards

/-!
# Reports on a peer's card

The functions of `a2a-card.mjs`: a card is fetched, validated, and its signatures are reported.
The report on the signatures is complete when no entry is malformed; where one is, `verifyCard`
throws, and `discoverPeer` with it. How deep a card may be nested before the engine's call stack
ends is outside the model.
-/

namespace Gatekeeper.Agent

open Ecma Encoding
open Js (Error bind_eq_ok map_eq_ok)

/-! ## A resolver that may answer each call differently -/

/-- The loop over the signatures, with the answers `resolve i` to the call for the entry `i`. -/
def checkEntriesVia (P : CardPlatform) (resolve : ℕ → KeyResolver) (payload : String) (i : ℕ) :
    List Value → Except Error (List EntryOutcome)
  | [] => .ok []
  | s :: ss => do
    let o ← checkEntry P (resolve i) payload i s
    let os ← checkEntriesVia P resolve payload (i + 1) ss
    return o :: os

def verifyCardVia (P : CardPlatform) (resolve : ℕ → KeyResolver) (card : Value) :
    Except Error CardReport :=
  if (signaturesOf card).isEmpty then .ok ⟨0, [ofString "card carries no signatures"]⟩
  else (checkEntriesVia P resolve (cardPayload card) 0 (signaturesOf card)).map cardReport

theorem checkEntriesVia_const (P : CardPlatform) (resolve : KeyResolver) (payload : String)
    (i : ℕ) (ss : List Value) :
    checkEntriesVia P (fun _ => resolve) payload i ss = checkEntries P resolve payload i ss := by
  induction ss generalizing i with
  | nil => rfl
  | cons s ss ih => rw [checkEntriesVia, checkEntries, ih]

/-- A resolver that answers by the key id alone. -/
theorem verifyCardVia_const (P : CardPlatform) (resolve : KeyResolver) (card : Value) :
    verifyCardVia P (fun _ => resolve) card = verifyCard P resolve card := by
  rw [verifyCardVia, verifyCard, checkEntriesVia_const]
  rfl

/-! ## Validation -/

/-- The texts of the members that are missing. -/
def missingFields (card : Value) : List Str :=
  (["name", "description", "version", "skills"].filter fun field => (card.get? field).isNone).map
    fun field => ofString s!"missing {field}"

/-- `v?.name`, for an element of an array. -/
def lacks (v : Value) (name : String) : Bool := !truthy (v.get? name)

/-- A text for each element without a member. -/
def lacking (vs : List Value) (name : String) (text : ℕ → String) : List Str :=
  ((vs.mapIdx fun i v => (i, v)).filter fun p => lacks p.2 name).map fun p => ofString (text p.1)

/-- `v`, where it is an array. -/
def elements : Option Value → List Value
  | some (.array vs) => vs
  | _ => []

def isArray : Option Value → Bool
  | some (.array _) => true
  | _ => false

/-- `card.protocolVersion ?? ..`: else the version of the first interface that has one. -/
def protocolVersion (card : Value) (interfaces : List Value) : Option Value :=
  match card.get? "protocolVersion" with
  | none | some .null =>
    (interfaces.find? fun i => truthy (i.get? "protocolVersion")).bind (·.get? "protocolVersion")
  | v => v

structure CardValidity where
  valid : Bool
  problems : List Str
  warnings : List Str
deriving DecidableEq

/-- A text under a condition. -/
def saidWhen (c : Bool) (text : String) : List Str := if c then [ofString text] else []

/-- What is found wrong with a card that is an object or an array. -/
def cardProblems (card : Value) : List Str :=
  let skills := card.get? "skills"
  let interfaces := elements (card.get? "supportedInterfaces")
  let addressable := truthy (card.get? "url") || truthy (card.get? "did") ||
    interfaces.any fun i => truthy (i.get? "url")
  missingFields card ++ saidWhen (skills.isSome && !isArray skills) "skills is not an array" ++
    lacking (elements skills) "id" (fun i => s!"skills[{i}] has no id") ++
    lacking interfaces "url" (fun n => s!"supportedInterfaces[{n}] has no url") ++
    saidWhen (!addressable)
      "card has neither url, did nor a supportedInterfaces url — nothing to talk to"

def cardWarnings (card : Value) : List Str :=
  let skills := card.get? "skills"
  let interfaces := elements (card.get? "supportedInterfaces")
  lacking (elements skills) "name" (fun i => s!"skills[{i}] has no name") ++
    saidWhen (isArray skills && (elements skills).isEmpty) "card advertises no skills" ++
    lacking interfaces "protocolBinding"
      (fun n => s!"supportedInterfaces[{n}] names no protocolBinding") ++
    saidWhen (!truthy (protocolVersion card interfaces))
      "no protocolVersion — client must guess the dialect" ++
    saidWhen (lacks card "capabilities") "no capabilities block"

def validateAgentCard (card : Value) : CardValidity :=
  match card with
  | .object _ | .array _ =>
    ⟨(cardProblems card).isEmpty, cardProblems card, cardWarnings card⟩
  | _ => ⟨false, [ofString "card is not an object"], []⟩

/-! ## Discovery -/

def agentCardPath : String := "/.well-known/agent-card.json"

/-- What `fetchImpl` resolves to. `json` is what `res.json()` makes of the body, where it does not
throw. -/
structure FetchedCard where
  ok : Bool
  status : ℕ
  json : Option Value

structure Peer where
  url : String
  card : Value
  validity : CardValidity
  signatures : CardReport

/-- The address of the card. `newUrl path base` is `new URL(path, base).toString()`. -/
def cardUrl (newUrl : String → String → Except Error String) (originOrUrl : String) :
    Except Error String :=
  if Text.contains originOrUrl "/.well-known/" then .ok originOrUrl
  else newUrl agentCardPath originOrUrl

def discoverPeer (P : CardPlatform) (newUrl : String → String → Except Error String)
    (fetchImpl : String → Except Error FetchedCard) (resolve : ℕ → KeyResolver)
    (originOrUrl : String) : Except Error Peer := do
  let url ← cardUrl newUrl originOrUrl
  let res ← fetchImpl url
  if res.ok then
    match res.json with
    | none => .error (.error s!"agent card {url}: not JSON")
    | some card =>
      let signatures ← verifyCardVia P resolve card
      return ⟨url, card, validateAgentCard card, signatures⟩
  else .error (.error s!"agent card {url}: HTTP {res.status}")

/-! ## The verdict on one entry -/

variable {P : CardPlatform} {payload : String} {s : Value}

/-- The entry is signed for the payload by the key that its id resolves to. -/
def ChecksOut (P : CardPlatform) (resolve : KeyResolver) (payload : String) (s : Value) : Prop :=
  ∃ kid jwk, Asks P s kid ∧ resolve kid = .ok (some jwk) ∧ truthy (some jwk) = true ∧
    verifies P payload s jwk = .ok true

theorem checkEntry_of_checksOut {resolve : KeyResolver} (i : ℕ)
    (h : ChecksOut P resolve payload s) : checkEntry P resolve payload i s = .ok .verified := by
  obtain ⟨kid, jwk, hasks, hresolve, hjwk, hverifies⟩ := h
  obtain ⟨header, hentry, halg, hkid, htruthy⟩ := checkEntry_of_asks i hasks
  rw [hentry, checkHeader_of_asks i halg hkid htruthy, hresolve]
  simp only [hjwk, Bool.not_true, Bool.false_eq_true, if_false, Option.getD_some, hverifies]
  rfl

/-- A text in the report, when there is one, is behind the entry's place. -/
theorem labelled_of_ok {v : Option Value} {f : Str → EntryOutcome} {i : ℕ}
    (hf : ∀ t, ∃ u, f t = .problem (entryLabel i ++ u)) {o : EntryOutcome}
    (h : (do let t ← template v; return f t : Except Error EntryOutcome) = .ok o) :
    ∃ u, o = .problem (entryLabel i ++ u) := by
  obtain ⟨t, _, h⟩ := bind_eq_ok.mp h
  obtain rfl := Except.ok.inj h
  exact hf t

/-- Past the resolver, the entry checks out or is named in a problem. -/
theorem checkHeader_cases {resolve : KeyResolver} {header kid : Value} {i : ℕ}
    {o : EntryOutcome} (hasks : Asks P s kid) (halg : isText (header.get? "alg") "EdDSA" = true)
    (hkid : header.get? "kid" = some kid) (htruthy : truthy (some kid) = true)
    (h : checkHeader P resolve payload i s header = .ok o) :
    o = .verified ∧ ChecksOut P resolve payload s ∨ ∃ u, o = .problem (entryLabel i ++ u) := by
  rw [checkHeader_of_asks i halg hkid htruthy] at h
  cases hresolve : resolve kid with
  | error v =>
    rw [hresolve] at h
    obtain ⟨m, _, h⟩ := bind_eq_ok.mp h
    exact .inr (labelled_of_ok (fun t => ⟨t, rfl⟩) h)
  | ok jwk =>
    rw [hresolve] at h
    by_cases hjwk : truthy jwk = true
    · obtain ⟨jwk, rfl⟩ := exists_of_truthy hjwk
      simp only [hjwk, Bool.not_true, Bool.false_eq_true, if_false, Option.getD_some] at h
      obtain ⟨ok, hverifies, h⟩ := bind_eq_ok.mp h
      cases ok with
      | true =>
        obtain rfl := Except.ok.inj h
        exact .inl ⟨rfl, kid, jwk, hasks, hresolve, hjwk, hverifies⟩
      | false =>
        refine .inr (labelled_of_ok
          (fun t => ⟨ofString "signature does not verify for " ++ t, ?_⟩) h)
        rw [List.append_assoc]
    · rw [Bool.not_eq_true] at hjwk
      simp only [hjwk, Bool.not_false, if_true] at h
      refine .inr (labelled_of_ok
        (fun t => ⟨ofString "kid " ++ (t ++ ofString " did not resolve"), ?_⟩) h)
      rw [List.append_assoc, List.append_assoc]

/-- The body of the loop verifies what checks out, and names everything else in a problem. -/
theorem checkEntry_cases {resolve : KeyResolver} {i : ℕ} {o : EntryOutcome}
    (h : checkEntry P resolve payload i s = .ok o) :
    o = .verified ∧ ChecksOut P resolve payload s ∨ ∃ u, o = .problem (entryLabel i ++ u) := by
  rw [checkEntry] at h
  cases hdecode : headerOf P s with
  | none =>
    rw [hdecode] at h
    obtain rfl := Except.ok.inj h
    exact .inr ⟨_, rfl⟩
  | some header =>
    rw [hdecode] at h
    replace h : checkHeader P resolve payload i s header = .ok o := by
      cases header with
      | null => cases h
      | _ => exact h
    by_cases halg : isText (header.get? "alg") "EdDSA" = true
    · by_cases htruthy : truthy (header.get? "kid") = true
      · obtain ⟨kid, hkid⟩ := exists_of_truthy htruthy
        rw [hkid] at htruthy
        exact checkHeader_cases ⟨header, hdecode, halg, hkid, htruthy⟩ halg hkid htruthy h
      · rw [Bool.not_eq_true] at htruthy
        simp only [checkHeader, halg, htruthy, Bool.not_true, Bool.not_false, Bool.false_eq_true,
          if_false, if_true] at h
        obtain rfl := Except.ok.inj h
        exact .inr ⟨_, rfl⟩
    · rw [Bool.not_eq_true] at halg
      simp only [checkHeader, halg, Bool.not_false, if_true] at h
      refine .inr (labelled_of_ok
        (fun t => ⟨ofString "alg " ++ (t ++ ofString " is not EdDSA"), ?_⟩) h)
      rw [List.append_assoc, List.append_assoc]

/-! ## The report on all of them -/

/-- The number of entries, from place `i` on, that check out, and one problem for every other
entry, behind its place. -/
inductive ReportsOn (P : CardPlatform) (resolve : ℕ → KeyResolver) (payload : String) :
    ℕ → List Value → ℕ → List Str → Prop where
  | nil {i} : ReportsOn P resolve payload i [] 0 []
  | verified {i s ss n problems} : ChecksOut P (resolve i) payload s →
      ReportsOn P resolve payload (i + 1) ss n problems →
      ReportsOn P resolve payload i (s :: ss) (n + 1) problems
  | problem {i s ss n problems} (text : Str) : ¬ ChecksOut P (resolve i) payload s →
      ReportsOn P resolve payload (i + 1) ss n problems →
      ReportsOn P resolve payload i (s :: ss) n ((entryLabel i ++ text) :: problems)

variable {resolve : ℕ → KeyResolver}

theorem ReportsOn.total {i n : ℕ} {ss : List Value} {problems : List Str}
    (h : ReportsOn P resolve payload i ss n problems) : n + problems.length = ss.length := by
  induction h with
  | nil => rfl
  | verified _ _ ih =>
    rw [List.length_cons, ← ih]
    omega
  | problem _ _ _ ih =>
    rw [List.length_cons, List.length_cons, ← ih]
    omega

theorem cardReport_verified (os : List EntryOutcome) :
    cardReport (.verified :: os) = ⟨(cardReport os).verified + 1, (cardReport os).problems⟩ := by
  simp [cardReport]

/-- The loop reports on every entry it is given. -/
theorem reportsOn_of_checkEntries {ss : List Value} {i : ℕ} {os : List EntryOutcome}
    (h : checkEntriesVia P resolve payload i ss = .ok os) :
    ReportsOn P resolve payload i ss (cardReport os).verified (cardReport os).problems := by
  induction ss generalizing i os with
  | nil =>
    obtain rfl := Except.ok.inj h
    exact .nil
  | cons s ss ih =>
    obtain ⟨o, hentry, h⟩ := bind_eq_ok.mp h
    obtain ⟨rest, hrest, h⟩ := bind_eq_ok.mp h
    obtain rfl := Except.ok.inj h
    rcases checkEntry_cases hentry with ⟨rfl, hout⟩ | ⟨u, rfl⟩
    · rw [cardReport_verified]
      exact .verified hout (ih hrest)
    · refine .problem u (fun hout => ?_) (ih hrest)
      cases hentry.symm.trans (checkEntry_of_checksOut i hout)

/-- What a report on a card has to say. -/
structure Covers (P : CardPlatform) (resolve : ℕ → KeyResolver) (card : Value) (r : CardReport) :
    Prop where
  none : signaturesOf card = [] → r.verified = 0 ∧ r.problems.length = 1
  each : signaturesOf card ≠ [] →
    ReportsOn P resolve (cardPayload card) 0 (signaturesOf card) r.verified r.problems
  total : signaturesOf card ≠ [] →
    r.verified + r.problems.length = (signaturesOf card).length

/-- No entry from place `i` on makes the loop throw. -/
def NoneMalformed (P : CardPlatform) (resolve : ℕ → KeyResolver) (payload : String) (i : ℕ)
    (ss : List Value) : Prop :=
  ∀ j s, ss[j]? = some s → ¬ Malformed P (resolve (i + j)) payload s

theorem noneMalformed_cons {ss : List Value} {i : ℕ} :
    NoneMalformed P resolve payload i (s :: ss) ↔
      ¬ Malformed P (resolve i) payload s ∧ NoneMalformed P resolve payload (i + 1) ss := by
  constructor
  · intro h
    refine ⟨h 0 s rfl, fun j t ht => ?_⟩
    rw [Nat.add_right_comm]
    exact h (j + 1) t ht
  · rintro ⟨hfirst, hrest⟩ j t ht
    cases j with
    | zero =>
      obtain rfl := Option.some.inj ht
      exact hfirst
    | succ j =>
      rw [← Nat.add_assoc, Nat.add_right_comm]
      exact hrest j t ht

/-- The loop ends when no entry is malformed. -/
theorem exists_checkEntriesVia {ss : List Value} (i : ℕ) :
    (∃ os, checkEntriesVia P resolve payload i ss = .ok os) ↔
      NoneMalformed P resolve payload i ss := by
  induction ss generalizing i with
  | nil => exact iff_of_true ⟨[], rfl⟩ fun j s h => by cases h
  | cons s ss ih =>
    rw [noneMalformed_cons, ← ih (i + 1), ← checkEntry_throws_iff i, checkEntriesVia]
    cases checkEntry P (resolve i) payload i s with
    | error e => exact iff_of_false (by rintro ⟨os, ⟨⟩⟩) fun h => h.1 ⟨e, rfl⟩
    | ok o =>
      cases checkEntriesVia P resolve payload (i + 1) ss with
      | error e => exact iff_of_false (by rintro ⟨os, ⟨⟩⟩) (by rintro ⟨-, os, ⟨⟩⟩)
      | ok os => exact iff_of_true ⟨o :: os, rfl⟩ ⟨by rintro ⟨e, ⟨⟩⟩, os, rfl⟩

/-! ## When a card is reported on -/

/-- A report that `verifyCard` returns covers the card. -/
theorem covers_of_verifyCard {card : Value} {r : CardReport}
    (h : verifyCardVia P resolve card = .ok r) : Covers P resolve card r := by
  rw [verifyCardVia] at h
  split_ifs at h with hempty
  · rw [List.isEmpty_iff] at hempty
    obtain rfl := Except.ok.inj h
    exact ⟨fun _ => ⟨rfl, rfl⟩, fun hne => absurd hempty hne, fun hne => absurd hempty hne⟩
  · rw [List.isEmpty_iff] at hempty
    obtain ⟨os, hos, rfl⟩ := map_eq_ok.mp h
    have hreports := reportsOn_of_checkEntries hos
    exact ⟨fun hnil => absurd hnil hempty, fun _ => hreports, fun _ => hreports.total⟩

theorem exists_verifyCard {card : Value} :
    (∃ r, verifyCardVia P resolve card = .ok r) ↔
      NoneMalformed P resolve (cardPayload card) 0 (signaturesOf card) := by
  rw [verifyCardVia, ← exists_checkEntriesVia]
  split_ifs with hempty
  · rw [List.isEmpty_iff] at hempty
    rw [hempty]
    exact iff_of_true ⟨_, rfl⟩ ⟨[], rfl⟩
  · constructor
    · rintro ⟨r, h⟩
      obtain ⟨os, hos, -⟩ := map_eq_ok.mp h
      exact ⟨os, hos⟩
    · rintro ⟨os, hos⟩
      rw [hos]
      exact ⟨_, rfl⟩

/-- A card that is served is discovered when its signatures are reported. -/
theorem exists_discoverPeer {newUrl : String → String → Except Error String}
    {fetchImpl : String → Except Error FetchedCard} {originOrUrl url : String} {status : ℕ}
    {card : Value} (hurl : cardUrl newUrl originOrUrl = .ok url)
    (hfetch : fetchImpl url = .ok ⟨true, status, some card⟩) :
    (∃ peer, discoverPeer P newUrl fetchImpl resolve originOrUrl = .ok peer) ↔
      ∃ r, verifyCardVia P resolve card = .ok r := by
  rw [discoverPeer, hurl]
  show (∃ peer, (fetchImpl url >>= _) = Except.ok peer) ↔ _
  rw [hfetch]
  show (∃ peer, (verifyCardVia P resolve card >>= _) = Except.ok peer) ↔ _
  constructor
  · rintro ⟨peer, h⟩
    obtain ⟨r, hr, -⟩ := bind_eq_ok.mp h
    exact ⟨r, hr⟩
  · rintro ⟨r, hr⟩
    rw [hr]
    exact ⟨_, rfl⟩

/-- A card's signatures are reported, each of them with its verdict, if and only if no entry is
malformed, and so is a card that is served discovered. -/
theorem card_reported_iff (P : CardPlatform) (resolve : ℕ → KeyResolver) (card : Value) :
    ((∃ r, verifyCardVia P resolve card = .ok r ∧ Covers P resolve card r) ↔
      NoneMalformed P resolve (cardPayload card) 0 (signaturesOf card)) ∧
    ∀ newUrl fetchImpl originOrUrl url status,
      cardUrl newUrl originOrUrl = .ok url →
      fetchImpl url = .ok ⟨true, status, some card⟩ →
      ((∃ peer, discoverPeer P newUrl fetchImpl resolve originOrUrl = .ok peer) ↔
        NoneMalformed P resolve (cardPayload card) 0 (signaturesOf card)) := by
  refine ⟨?_, fun newUrl fetchImpl originOrUrl url status hurl hfetch => ?_⟩
  · rw [← exists_verifyCard]
    exact ⟨fun ⟨r, hr, _⟩ => ⟨r, hr⟩, fun ⟨r, hr⟩ => ⟨r, hr, covers_of_verifyCard hr⟩⟩
  · rw [exists_discoverPeer hurl hfetch, exists_verifyCard]

/-- A card whose one signature checks out is discovered where it is served. -/
theorem card_reported_sample :
    ∃ peer, discoverPeer sampleCardPlatform (fun path base => .ok (base ++ path))
      (fun _ => .ok ⟨true, 200, some (presentedCard .null)⟩) (fun _ => sampleResolver)
      "https://agent.example" = .ok peer := by
  obtain ⟨url, hurl⟩ : ∃ url, cardUrl (fun path base => .ok (base ++ path))
      "https://agent.example" = .ok url := by
    rw [cardUrl]
    split_ifs
    · exact ⟨_, rfl⟩
    · exact ⟨_, rfl⟩
  refine ((card_reported_iff sampleCardPlatform (fun _ => sampleResolver)
    (presentedCard .null)).2 _ _ _ url 200 hurl rfl).mpr fun j s hs => ?_
  rw [signaturesOf_presentedCard] at hs
  cases j with
  | zero =>
    obtain rfl := Option.some.inj hs
    exact not_malformed_signatureEntry sampleCard_lawful sample_resolves _ _
  | succ j => cases hs

/-! ## A header that is `null` -/

theorem verifyCardVia_of_throws {card : Value} {ss : List Value} {e : Error}
    (hcard : signaturesOf card = s :: ss)
    (h : checkEntry P (resolve 0) (cardPayload card) 0 s = .error e) :
    verifyCardVia P resolve card = .error e := by
  rw [verifyCardVia, hcard, if_neg (by simp), checkEntriesVia, h]
  rfl

def nullEntry : Value :=
  .object [(ofString "protected", .string (ofString (b64u "null"))),
    (ofString "signature", .string [])]

/-- The entry that signs the rest of the card. -/
def goodEntry : Value := signatureEntry sampleCardPlatform () sampleKid (testCard .null)

/-- A card with the one entry before the other. -/
def maskedCard : Value :=
  .object [(ofString "name", .string (ofString "Test")),
    (ofString "signatures", .array [nullEntry, goodEntry]), (ofString "x", .null)]

theorem signaturesOf_maskedCard : signaturesOf maskedCard = [nullEntry, goodEntry] :=
  signaturesOf_members _ _ _

theorem withoutSignatures_maskedCard :
    withoutSignatures maskedCard =
      .object [(ofString "name", .string (ofString "Test")), (ofString "x", .null)] :=
  withoutSignatures_members _ _ _

theorem headerOf_nullEntry : headerOf sampleCardPlatform nullEntry = some .null := by
  have hget : nullEntry.get? "protected" = some (.string (ofString (b64u "null"))) := by
    rw [nullEntry, Value.get?, List.lookup_cons_self]
  have hdecode := sampleCard_lawful.fromBase64Url_encode (utf8 "null")
  have hparse := jsonParse_write .null
  rw [headerOf, hget, b64u, hdecode]
  · show jsonParse (Text.fromUtf8Lossy _) = _
    rw [Text.fromUtf8Lossy_utf8]
    exact hparse
  · intro h
    cases h

/-- The entry whose header is `null` hides the verdict on the one that checks out. -/
theorem verifyCard_throws :
    verifyCardVia sampleCardPlatform (fun _ => sampleResolver) maskedCard = .error .typeError ∧
      ChecksOut sampleCardPlatform sampleResolver (cardPayload maskedCard) goodEntry := by
  have hentry : checkEntry sampleCardPlatform sampleResolver (cardPayload maskedCard) 0
      nullEntry = .error .typeError := by rw [checkEntry, headerOf_nullEntry]
  refine ⟨verifyCardVia_of_throws signaturesOf_maskedCard hentry, ?_⟩
  have hpayload : cardPayload maskedCard = cardPayload (testCard .null) := by
    rw [cardPayload, cardPayload, withoutSignatures_maskedCard, withoutSignatures_testCard]
    refine congrArg (fun l => b64u (String.ofList l)) ((canonicalize_inj ?_ ?_).mpr ?_)
    · have hkeys : (["name", "x"].map ofString).Nodup := nodup_ofString (by decide)
      exact ⟨hkeys, trivial, trivial, trivial⟩
    · exact distinct_testCard trivial
    · refine ⟨rfl, ⟨_, List.mem_cons_of_mem _ (List.mem_singleton_self _), rfl⟩,
        ⟨.null, List.mem_cons_self, trivial⟩, trivial⟩
  have hcheck : checkEntry sampleCardPlatform sampleResolver (cardPayload maskedCard) 1
      goodEntry = .ok .verified :=
    (checkEntry_signatureEntry sampleCard_lawful sampleCard_ideal sample_resolves _ _ _).mpr
      ⟨ofString_ne (t := "") (by decide), hpayload⟩
  rcases checkEntry_cases hcheck with ⟨-, hout⟩ | ⟨u, hu⟩
  · exact hout
  · cases hu

end Gatekeeper.Agent

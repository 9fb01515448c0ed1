import Gatekeeper.Lib.Memo
import Gatekeeper.Agent.DidWeb
import Gatekeeper.Agent.PeerCards

/-!
# `discoverPeer` on the web

`didWebResolver` of `card-signature.mjs` and the discovery of a peer through it. The web may
answer each request differently; the resolver keeps the documents it was given, so a card is
checked against one document for each DID.
-/

namespace Gatekeeper.Agent

open Ecma Encoding Interaction
open Js (Error bind_eq_ok)

/-! ## The resolver -/

/-- A request, with the `accept` header it carries. -/
inductive WebOp where
  | fetch (url accept : String)
deriving DecidableEq

@[reducible] def WebOp.Res : WebOp → Type
  | fetch _ _ => Except Error FetchedCard

/-- Code that makes requests. -/
abbrev Fetching (α : Type) : Type := Prog WebOp WebOp.Res Error α

abbrev WebEvent : Type := Event WebOp WebOp.Res

abbrev Documents : Type := Cache Str Value

def didAccept : String := "application/did+json, application/json"

/-- What the resolver makes of an answer. -/
def documentIn (res : FetchedCard) : Except Error Value :=
  if res.ok then
    match res.json with
    | none => .error .syntaxError
    | some doc => .ok doc
  else .error (.error s!"did:web document fetch failed: HTTP {res.status}")

/-- The request for the document of a DID. -/
def fetchDocument (did : Str) : Fetching Value := do
  let url ← Prog.ofExcept (didWebDocumentUrl (plain did))
  let answer ← Prog.perform (.fetch url didAccept)
  Prog.ofExcept (answer >>= documentIn)

/-- The parts of `kid.split("#")`. -/
def didOf (kid : Str) : Str := (kid.splitOn 35).headD []

def fragmentOf (kid : Str) : Option Str := (kid.splitOn 35)[1]?

/-- `v === s`. -/
def isStr (v : Option Value) (s : Str) : Bool :=
  match v with
  | some (.string t) => t == s
  | _ => false

/-- The id of a method is the whole key id, or the fragment alone. -/
def Named (kid : Str) (m : Value) : Bool :=
  isStr (m.get? "id") kid ||
    isStr (m.get? "id") (ofString "#" ++ (fragmentOf kid).getD (ofString "undefined"))

/-- `find` over the methods of a document. A `null` throws when it is reached. -/
def findMethod (kid : Str) : List Value → Except Error (Option Value)
  | [] => .ok none
  | .null :: _ => .error .typeError
  | m :: ms => if Named kid m then .ok (some m) else findMethod kid ms

/-- `doc.verificationMethod ?? []`, as something that has a `find`. -/
def methodsOf : Value → Except Error (List Value)
  | .null => .error .typeError
  | doc =>
    match doc.get? "verificationMethod" with
    | none | some .null => .ok []
    | some (.array ms) => .ok ms
    | some _ => .error .typeError

/-- What a document has under a key id. -/
def jwkIn (doc : Value) (kid : Str) : Except Error Value := do
  let methods ← methodsOf doc
  let vm ← findMethod kid methods
  return (vm.bind (·.get? "publicKeyJwk")).getD .null

def isDidWeb (did : Str) : Bool := (ofString "did:web:").isPrefixOf did

/-- The function that `didWebResolver` returns, on what its cache holds. Only a text has a
`split`. -/
def resolveJwk (docs : Documents) : Value → Fetching (Except Error Value × Documents)
  | .string kid =>
    if isDidWeb (didOf kid) then do
      let (doc, docs) ← ask fetchDocument docs (didOf kid)
      return (doc >>= fun doc => jwkIn doc kid, docs)
    else pure (.ok .null, docs)
  | _ => pure (.error .typeError, docs)

/-! ## The card -/

variable (P : CardPlatform) (engineText : Error → Str)

/-- An error as it is caught. The texts of the errors that the language raises are its own. -/
def caught (e : Error) : Value :=
  .object [(ofString "message", .string (match e with
    | .error message => ofString message
    | e => engineText e))]

def awaited : Except Error Value → Except (Option Value) (Option Value)
  | .ok jwk => .ok (some jwk)
  | .error e => .error (some (caught engineText e))

/-- The key id that the resolver is asked for. -/
def askedKid (s : Value) : Option Value :=
  match headerOf P s with
  | some header =>
    if isText (header.get? "alg") "EdDSA" && truthy (header.get? "kid") then header.get? "kid"
    else none
  | none => none

/-- The body of the loop, with the resolver's answer awaited in the middle of it. -/
def checkEntryOnWeb (payload : String) (i : ℕ) (docs : Documents) (s : Value) :
    Fetching (EntryOutcome × Documents) :=
  match askedKid P s with
  | none => do
    let o ← Prog.ofExcept (checkEntry P (fun _ => .ok none) payload i s)
    return (o, docs)
  | some kid => do
    let (jwk, docs) ← resolveJwk docs kid
    let o ← Prog.ofExcept (checkEntry P (fun _ => awaited engineText jwk) payload i s)
    return (o, docs)

def checkEntriesOnWeb (payload : String) (i : ℕ) (docs : Documents) :
    List Value → Fetching (List EntryOutcome)
  | [] => pure []
  | s :: ss => do
    let (o, docs) ← checkEntryOnWeb P engineText payload i docs s
    let os ← checkEntriesOnWeb payload (i + 1) docs ss
    return o :: os

/-- `verifyCard(card, didWebResolver(..))`. -/
def verifyCardOnWeb (card : Value) : Fetching CardReport :=
  if (signaturesOf card).isEmpty then pure ⟨0, [ofString "card carries no signatures"]⟩
  else do
    let os ← checkEntriesOnWeb P engineText (cardPayload card) 0 Cache.empty (signaturesOf card)
    return cardReport os

def cardAccept : String := "application/json"

def discoverPeerOnWeb (newUrl : String → String → Except Error String) (originOrUrl : String) :
    Fetching Peer := do
  let url ← Prog.ofExcept (cardUrl newUrl originOrUrl)
  let answer ← Prog.perform (.fetch url cardAccept)
  let res ← Prog.ofExcept answer
  if res.ok then
    match res.json with
    | none => Prog.fail (.error s!"agent card {url}: not JSON")
    | some card => do
      let signatures ← verifyCardOnWeb P engineText card
      return ⟨url, card, validateAgentCard card, signatures⟩
  else Prog.fail (.error s!"agent card {url}: HTTP {res.status}")

/-! ## What a document is given for -/

/-- The resolver that has these documents and asks for no others. -/
def documentResolver (docs : Documents) : KeyResolver
  | .string kid =>
    if isDidWeb (didOf kid) then
      match docs (didOf kid) with
      | some doc => awaited engineText (jwkIn doc kid)
      | none => .error none
    else .ok (some .null)
  | _ => .error (some (caught engineText .typeError))

/-- The document was the answer to a request for the document of this DID. -/
def ServedAs (t : List WebEvent) (did : Str) (doc : Value) : Prop :=
  ∃ url status, didWebDocumentUrl (plain did) = .ok url ∧
    (⟨.fetch url didAccept, .ok ⟨true, status, some doc⟩⟩ : WebEvent) ∈ t

/-- A request for the document of a DID that a signature on the card names. -/
def ForKeyOf (card : Value) (e : WebEvent) : Prop :=
  ∃ s ∈ signaturesOf card, ∃ kid url, Asks P s (.string kid) ∧ isDidWeb (didOf kid) = true ∧
    didWebDocumentUrl (plain (didOf kid)) = .ok url ∧ e.op = .fetch url didAccept

variable {P engineText}

theorem askedKid_eq_some {s kid : Value} : askedKid P s = some kid ↔ Asks P s kid := by
  rw [askedKid, Asks]
  cases headerOf P s with
  | none => exact iff_of_false (by rintro ⟨⟩) (by rintro ⟨_, ⟨⟩, _⟩)
  | some header =>
    simp only [Option.some.injEq, exists_eq_left', Option.ite_none_right_eq_some, Bool.and_eq_true]
    constructor
    · rintro ⟨⟨halg, htruthy⟩, hkid⟩
      exact ⟨halg, hkid, hkid ▸ htruthy⟩
    · rintro ⟨halg, hkid, htruthy⟩
      exact ⟨⟨halg, hkid.symm ▸ htruthy⟩, hkid⟩

/-! ## One request -/

theorem documentIn_eq_ok {res : FetchedCard} {doc : Value} :
    documentIn res = .ok doc ↔ ∃ status, res = ⟨true, status, some doc⟩ := by
  obtain ⟨ok, status, json⟩ := res
  cases ok with
  | false => exact iff_of_false (by rintro ⟨⟩) (by rintro ⟨_, ⟨⟩⟩)
  | true =>
    cases json with
    | none => exact iff_of_false (by rintro ⟨⟩) (by rintro ⟨_, ⟨⟩⟩)
    | some doc' =>
      constructor
      · intro h
        cases h
        exact ⟨status, rfl⟩
      · rintro ⟨_, ⟨⟩⟩
        rfl

theorem emits_fetchDocument {did : Str} {t : List WebEvent} {r : Except Error Value} :
    Emits (fetchDocument did) t r ↔
      (∃ e, didWebDocumentUrl (plain did) = .error e ∧ t = [] ∧ r = .error e) ∨
      ∃ url answer, didWebDocumentUrl (plain did) = .ok url ∧
        t = [⟨.fetch url didAccept, answer⟩] ∧ r = (answer >>= documentIn) := by
  rw [fetchDocument, emits_ofExcept_bind]
  refine or_congr Iff.rfl ⟨?_, ?_⟩
  · rintro ⟨url, hurl, h⟩
    obtain ⟨answer, rfl, rfl⟩ := emits_await.mp h
    exact ⟨url, answer, hurl, rfl, rfl⟩
  · rintro ⟨url, answer, hurl, rfl, rfl⟩
    exact ⟨url, hurl, emits_await.mpr ⟨answer, rfl, rfl⟩⟩

theorem servedAs_of_emits {did : Str} {t : List WebEvent} {doc : Value}
    (h : Emits (fetchDocument did) t (.ok doc)) : ServedAs t did doc := by
  rcases emits_fetchDocument.mp h with ⟨e, -, -, hr⟩ | ⟨url, answer, hurl, rfl, hr⟩
  · cases hr
  · obtain ⟨res, rfl, hdoc⟩ := bind_eq_ok.mp hr.symm
    obtain ⟨status, rfl⟩ := documentIn_eq_ok.mp hdoc
    exact ⟨url, status, hurl, List.mem_singleton_self _⟩

/-- What a call of the resolver leaves behind. -/
structure Resolved (engineText : Error → Str) (docs : Documents) (kid : Value)
    (t : List WebEvent) (x : Except Error Value) (docs' : Documents) : Prop where
  grows : docs.Grows docs'
  found : ∀ did doc, docs' did = some doc → docs did = some doc ∨ ServedAs t did doc
  answered : ∀ jwk, x = .ok jwk → documentResolver engineText docs' kid = .ok (some jwk)
  refused : ∀ e, x = .error e → ∃ v, documentResolver engineText docs' kid = .error v
  length_le : t.length ≤ 1
  asked : ∀ e ∈ t, ∃ k url, kid = .string k ∧ isDidWeb (didOf k) = true ∧
    didWebDocumentUrl (plain (didOf k)) = .ok url ∧ e.op = .fetch url didAccept

/-- Without a request there is nothing new. -/
theorem resolved_of_pure {docs : Documents} {kid : Value} {x : Except Error Value}
    (h : documentResolver engineText docs kid = awaited engineText x) :
    Resolved engineText docs kid [] x docs where
  grows := .refl docs
  found := fun _ _ h => .inl h
  answered := by
    rintro jwk rfl
    exact h
  refused := by
    rintro e rfl
    exact ⟨_, h⟩
  length_le := Nat.zero_le 1
  asked := by
    intro e he
    cases he

/-- The requests that `ask` makes for a DID. -/
theorem emits_ask_document {docs : Documents} {did : Str} {t : List WebEvent}
    {r : Except Error (Except Error Value × Documents)}
    (h : Emits (ask fetchDocument docs did) t r) :
    t.length ≤ 1 ∧ ∀ e ∈ t, ∃ url, didWebDocumentUrl (plain did) = .ok url ∧
      e.op = .fetch url didAccept := by
  rcases emits_ask.mp h with ⟨_, -, rfl, -⟩ | ⟨-, x, hx, -⟩
  · exact ⟨Nat.zero_le 1, fun e he => by cases he⟩
  · rcases emits_fetchDocument.mp hx with ⟨_, -, rfl, -⟩ | ⟨url, answer, hurl, rfl, -⟩
    · exact ⟨Nat.zero_le 1, fun e he => by cases he⟩
    · refine ⟨le_refl 1, fun e he => ⟨url, hurl, ?_⟩⟩
      rw [List.mem_singleton.mp he]

theorem resolved_of_emits {docs docs' : Documents} {kid : Value} {t : List WebEvent}
    {x : Except Error Value} (h : Emits (resolveJwk docs kid) t (.ok (x, docs'))) :
    Resolved engineText docs kid t x docs' := by
  cases kid with
  | string k =>
    rw [resolveJwk] at h
    split_ifs at h with hdid
    · obtain ⟨⟨y, c⟩, hask, hr⟩ : ∃ r, Emits (ask fetchDocument docs (didOf k)) t (.ok r) ∧
          (x, docs') = (r.1 >>= fun doc => jwkIn doc k, r.2) := by
        obtain ⟨r', hr', heq⟩ := emits_bind_pure.mp h
        cases r' with
        | error e => cases heq
        | ok r => exact ⟨r, hr', Except.ok.inj heq⟩
      cases hr
      have hasked := asked_of_emits hask
      obtain ⟨hlen, hurls⟩ := emits_ask_document hask
      have hresolver : documentResolver engineText c (.string k) =
          match c (didOf k) with
          | some doc => awaited engineText (jwkIn doc k)
          | none => .error none := by rw [documentResolver, if_pos hdid]
      refine ⟨hasked.grows, fun did doc hdoc => ?_, fun jwk hjwk => ?_, fun e he => ?_, hlen,
        fun e he => ?_⟩
      · rcases hasked.found did doc hdoc with hold | ⟨rfl, hnew⟩
        · exact .inl hold
        · exact .inr (servedAs_of_emits hnew)
      · obtain ⟨doc, rfl, hin⟩ := bind_eq_ok.mp hjwk
        rw [hresolver, hasked.kept doc rfl]
        show awaited engineText (jwkIn doc k) = _
        rw [hin, awaited]
      · rw [hresolver]
        cases y with
        | error e' =>
          rw [hasked.lacking e' rfl]
          exact ⟨none, rfl⟩
        | ok doc =>
          rw [hasked.kept doc rfl]
          replace he : jwkIn doc k = .error e := he
          show ∃ v, awaited engineText (jwkIn doc k) = _
          rw [he]
          exact ⟨_, rfl⟩
      · obtain ⟨url, hurl, hop⟩ := hurls e he
        exact ⟨k, url, rfl, hdid, hurl, hop⟩
    · obtain ⟨rfl, hr⟩ := emits_pure.mp h
      cases hr
      refine resolved_of_pure ?_
      rw [documentResolver, if_neg hdid, awaited]
  | _ =>
    obtain ⟨rfl, hr⟩ := emits_pure.mp h
    cases hr
    exact resolved_of_pure rfl

/-! ## The loop -/

/-- What the body of the loop does to one entry. -/
structure Judged (P : CardPlatform) (engineText : Error → Str) (payload : String) (i : ℕ)
    (docs : Documents) (s : Value) (t : List WebEvent) (o : EntryOutcome) (docs' : Documents) :
    Prop where
  grows : docs.Grows docs'
  found : ∀ did doc, docs' did = some doc → docs did = some doc ∨ ServedAs t did doc
  verdict : o = .verified ∧ ChecksOut P (documentResolver engineText docs') payload s ∨
    (∃ u, o = .problem (entryLabel i ++ u)) ∧
      ¬ ChecksOut P (documentResolver engineText docs') payload s
  length_le : t.length ≤ 1
  asked : ∀ e ∈ t, ∃ kid url, Asks P s (.string kid) ∧ isDidWeb (didOf kid) = true ∧
    didWebDocumentUrl (plain (didOf kid)) = .ok url ∧ e.op = .fetch url didAccept

theorem asks_unique {s kid kid' : Value} (h : Asks P s kid) (h' : Asks P s kid') : kid = kid' :=
  Option.some.inj ((askedKid_eq_some.mpr h).symm.trans (askedKid_eq_some.mpr h'))

/-- Only what the resolver says of the entry's own key id matters. -/
theorem checksOut_iff {resolve resolve' : KeyResolver} {payload : String} {s kid : Value}
    (hasks : Asks P s kid)
    (h : ∀ jwk, resolve kid = .ok (some jwk) ↔ resolve' kid = .ok (some jwk)) :
    ChecksOut P resolve payload s ↔ ChecksOut P resolve' payload s := by
  constructor
  · rintro ⟨kid', jwk, hasks', hresolve, hrest⟩
    obtain rfl := asks_unique hasks hasks'
    exact ⟨kid, jwk, hasks, (h jwk).mp hresolve, hrest⟩
  · rintro ⟨kid', jwk, hasks', hresolve, hrest⟩
    obtain rfl := asks_unique hasks hasks'
    exact ⟨kid, jwk, hasks, (h jwk).mpr hresolve, hrest⟩

/-- The verdict under the one resolver, told by another that says the same of the entry. -/
theorem verdict_of_checkEntry {resolve resolve' : KeyResolver} {payload : String} {i : ℕ}
    {s : Value} {o : EntryOutcome} (h : checkEntry P resolve payload i s = .ok o)
    (hsame : ChecksOut P resolve payload s ↔ ChecksOut P resolve' payload s) :
    o = .verified ∧ ChecksOut P resolve' payload s ∨
      (∃ u, o = .problem (entryLabel i ++ u)) ∧ ¬ ChecksOut P resolve' payload s := by
  rw [← hsame]
  rcases checkEntry_cases h with hverified | ⟨u, rfl⟩
  · exact .inl hverified
  · refine .inr ⟨⟨u, rfl⟩, fun hout => ?_⟩
    cases h.symm.trans (checkEntry_of_checksOut i hout)

theorem judged_of_emits {payload : String} {i : ℕ} {docs docs' : Documents} {s : Value}
    {t : List WebEvent} {o : EntryOutcome}
    (h : Emits (checkEntryOnWeb P engineText payload i docs s) t (.ok (o, docs'))) :
    Judged P engineText payload i docs s t o docs' := by
  rw [checkEntryOnWeb] at h
  cases hkid : askedKid P s with
  | none =>
    rw [hkid] at h
    obtain ⟨x, hx, h⟩ := (emits_ofExcept_bind.mp h).resolve_left (by rintro ⟨_, -, -, ⟨⟩⟩)
    obtain ⟨rfl, hr⟩ := emits_pure.mp h
    cases hr
    have hnever : ∀ resolve, ¬ ChecksOut P resolve payload s := by
      rintro resolve ⟨kid, -, hasks, -⟩
      rw [askedKid_eq_some.mpr hasks] at hkid
      cases hkid
    exact ⟨.refl docs, fun _ _ h => .inl h,
      verdict_of_checkEntry hx (iff_of_false (hnever _) (hnever _)), Nat.zero_le 1,
      fun e he => by cases he⟩
  | some kid =>
    rw [hkid] at h
    have hasks := askedKid_eq_some.mp hkid
    obtain ⟨⟨x, c⟩, t₁, t₂, rfl, hresolve, h⟩ :=
      (emits_bind.mp h).resolve_left (by rintro ⟨_, -, ⟨⟩⟩)
    have hresolved : Resolved engineText docs kid t₁ x c := resolved_of_emits hresolve
    obtain ⟨y, hy, h⟩ := (emits_ofExcept_bind.mp h).resolve_left (by rintro ⟨_, -, -, ⟨⟩⟩)
    obtain ⟨rfl, hr⟩ := emits_pure.mp h
    cases hr
    rw [List.append_nil]
    refine ⟨hresolved.grows, hresolved.found, verdict_of_checkEntry hy ?_, hresolved.length_le,
      fun e he => ?_⟩
    · refine checksOut_iff hasks fun jwk => ?_
      cases x with
      | error e =>
        obtain ⟨v, hv⟩ := hresolved.refused e rfl
        rw [hv]
        exact iff_of_false (by rintro ⟨⟩) (by rintro ⟨⟩)
      | ok jwk' =>
        rw [hresolved.answered jwk' rfl]
        rfl
    · obtain ⟨k, url, rfl, hrest⟩ := hresolved.asked e he
      exact ⟨k, url, hasks, hrest⟩

/-- The report looks at the resolvers from its first place on. -/
theorem ReportsOn.congr {resolve resolve' : ℕ → KeyResolver} {payload : String} {i n : ℕ}
    {ss : List Value} {problems : List Str} (h : ReportsOn P resolve payload i ss n problems)
    (heq : ∀ j, i ≤ j → resolve j = resolve' j) : ReportsOn P resolve' payload i ss n problems := by
  induction h with
  | nil => exact .nil
  | @verified i s ss n problems hout _ ih =>
    rw [heq i (le_refl i)] at hout
    exact .verified hout (ih fun j hj => heq j (by omega))
  | @problem i s ss n problems text hout _ ih =>
    rw [heq i (le_refl i)] at hout
    exact .problem text hout (ih fun j hj => heq j (by omega))

theorem ServedAs.mono {t t' : List WebEvent} {did : Str} {doc : Value} (h : ServedAs t did doc)
    (hsub : t ⊆ t') : ServedAs t' did doc := by
  obtain ⟨url, status, hurl, hmem⟩ := h
  exact ⟨url, status, hurl, hsub hmem⟩

/-- The documents that the loop has after each of its entries. -/
structure Run (P : CardPlatform) (engineText : Error → Str) (payload : String) (i : ℕ)
    (docs : Documents) (ss : List Value) (t : List WebEvent) (os : List EntryOutcome)
    (after : ℕ → Documents) : Prop where
  start : ∀ j, docs.Grows (after j)
  grows : ∀ j, (after j).Grows (after (j + 1))
  found : ∀ j did doc, after j did = some doc → docs did = some doc ∨ ServedAs t did doc
  reports : ReportsOn P (fun j => documentResolver engineText (after j)) payload i ss
    (cardReport os).verified (cardReport os).problems
  length_le : t.length ≤ ss.length
  asked : ∀ e ∈ t, ∃ s ∈ ss, ∃ kid url, Asks P s (.string kid) ∧ isDidWeb (didOf kid) = true ∧
    didWebDocumentUrl (plain (didOf kid)) = .ok url ∧ e.op = .fetch url didAccept

theorem Run.nil (payload : String) (i : ℕ) (docs : Documents) :
    Run P engineText payload i docs [] [] [] fun _ => docs where
  start := fun _ => .refl docs
  grows := fun _ => .refl docs
  found := fun _ _ _ h => .inl h
  reports := .nil
  length_le := le_refl 0
  asked := by
    intro e he
    cases he

/-- One entry, and then the others with the documents it leaves behind. -/
theorem Run.cons {payload : String} {i : ℕ} {docs docs' : Documents} {s : Value} {ss : List Value}
    {t t' : List WebEvent} {o : EntryOutcome} {os : List EntryOutcome} {after : ℕ → Documents}
    (hs : Judged P engineText payload i docs s t o docs')
    (h : Run P engineText payload (i + 1) docs' ss t' os after) :
    Run P engineText payload i docs (s :: ss) (t ++ t') (o :: os)
      fun j => if j ≤ i then docs' else after j where
  start := by
    intro j
    split_ifs
    · exact hs.grows
    · exact hs.grows.trans (h.start j)
  grows := by
    intro j
    split_ifs with hj hj' hj'
    · exact .refl docs'
    · exact h.start (j + 1)
    · omega
    · exact h.grows j
  found := by
    intro j did doc hdoc
    have hold : ∀ {d : Documents}, (d did = some doc → docs' did = some doc ∨ ServedAs t' did doc) →
        d did = some doc → docs did = some doc ∨ ServedAs (t ++ t') did doc := by
      intro d hd hdoc
      rcases hd hdoc with hdoc | hserved
      · rcases hs.found did doc hdoc with hdoc | hserved
        · exact .inl hdoc
        · exact .inr (hserved.mono (List.subset_append_left _ _))
      · exact .inr (hserved.mono (List.subset_append_right _ _))
    split_ifs at hdoc
    · exact hold .inl hdoc
    · exact hold (h.found j did doc) hdoc
  reports := by
    have hrest : ReportsOn P
        (fun j => documentResolver engineText (if j ≤ i then docs' else after j)) payload (i + 1) ss
          (cardReport os).verified (cardReport os).problems :=
      h.reports.congr fun j hj => by rw [if_neg (by omega)]
    have hfirst : (if i ≤ i then docs' else after i) = docs' := if_pos (le_refl i)
    rcases hs.verdict with ⟨rfl, hout⟩ | ⟨⟨u, rfl⟩, hout⟩
    · rw [cardReport_verified]
      exact .verified (by rwa [hfirst]) hrest
    · exact .problem u (by rwa [hfirst]) hrest
  length_le := by
    have hone := hs.length_le
    have hmore := h.length_le
    rw [List.length_append, List.length_cons]
    omega
  asked := by
    intro e he
    rcases List.mem_append.mp he with he | he
    · exact ⟨s, List.mem_cons_self, hs.asked e he⟩
    · obtain ⟨s', hs', hasked⟩ := h.asked e he
      exact ⟨s', List.mem_cons_of_mem _ hs', hasked⟩

theorem exists_run {payload : String} {i : ℕ} {docs : Documents} {ss : List Value}
    {t : List WebEvent} {os : List EntryOutcome}
    (h : Emits (checkEntriesOnWeb P engineText payload i docs ss) t (.ok os)) :
    ∃ after, Run P engineText payload i docs ss t os after := by
  induction ss generalizing i docs t os with
  | nil =>
    obtain ⟨rfl, hr⟩ := emits_pure.mp h
    cases hr
    exact ⟨_, .nil payload i docs⟩
  | cons s ss ih =>
    obtain ⟨⟨o, c⟩, t₁, t₂, rfl, hentry, h⟩ :=
      (emits_bind.mp h).resolve_left (by rintro ⟨_, -, ⟨⟩⟩)
    obtain ⟨x, hrest, hr⟩ := emits_bind_pure.mp h
    cases x with
    | error e => cases hr
    | ok os' =>
      cases hr
      obtain ⟨after, hafter⟩ := ih hrest
      exact ⟨_, .cons (judged_of_emits hentry) hafter⟩

/-! ## The peer that is discovered -/

/-- The documents that a card's report rests on, and the requests that were made for them. -/
structure RestsOn (P : CardPlatform) (engineText : Error → Str) (card : Value) (r : CardReport)
    (t : List WebEvent) (after : ℕ → Documents) : Prop where
  grows : ∀ i, (after i).Grows (after (i + 1))
  served : ∀ i did doc, after i did = some doc → ServedAs t did doc
  covers : Covers P (fun i => documentResolver engineText (after i)) card r
  length_le : t.length ≤ (signaturesOf card).length
  asked : ∀ e ∈ t, ForKeyOf P card e

theorem exists_restsOn {card : Value} {t : List WebEvent} {r : CardReport}
    (h : Emits (verifyCardOnWeb P engineText card) t (.ok r)) :
    ∃ after, RestsOn P engineText card r t after := by
  rw [verifyCardOnWeb] at h
  split_ifs at h with hempty
  · obtain ⟨rfl, hr⟩ := emits_pure.mp h
    cases hr
    rw [List.isEmpty_iff] at hempty
    refine ⟨fun _ => Cache.empty, fun _ => .refl _, fun _ _ _ hdoc => ?_, ⟨fun _ => ⟨rfl, rfl⟩,
      fun hne => absurd hempty hne, fun hne => absurd hempty hne⟩, Nat.zero_le _,
      fun e he => ?_⟩
    · cases hdoc
    · cases he
  · obtain ⟨x, hloop, hr⟩ := emits_bind_pure.mp h
    cases x with
    | error e => cases hr
    | ok os =>
      cases hr
      rw [List.isEmpty_iff] at hempty
      obtain ⟨after, hrun⟩ := exists_run hloop
      refine ⟨after, hrun.grows, fun i did doc hdoc => ?_, ⟨fun hnil => absurd hnil hempty,
        fun _ => hrun.reports, fun _ => hrun.reports.total⟩, hrun.length_le, hrun.asked⟩
      exact (hrun.found i did doc hdoc).resolve_left (by rintro ⟨⟩)

/-- A card that is served and reported on is discovered. -/
theorem emits_discoverPeer {newUrl : String → String → Except Error String}
    {originOrUrl url : String} {n : ℕ} {card : Value} {t : List WebEvent} {r : CardReport}
    (hurl : cardUrl newUrl originOrUrl = .ok url)
    (h : Emits (verifyCardOnWeb P engineText card) t (.ok r)) :
    Emits (discoverPeerOnWeb P engineText newUrl originOrUrl)
      (⟨.fetch url cardAccept, .ok ⟨true, n, some card⟩⟩ :: t)
      (.ok ⟨url, card, validateAgentCard card, r⟩) :=
  emits_ofExcept_bind.mpr (.inr ⟨url, hurl, emits_perform_bind.mpr
    ⟨_, t, rfl, emits_bind_pure.mpr ⟨_, h, rfl⟩⟩⟩)

/-- The report on a peer rests on the documents that the web served for the DIDs its card names.
The web may answer every request differently: there is one document for each DID in the report,
and at most one request for a document to a signature. -/
theorem discovered_from_documents {newUrl : String → String → Except Error String}
    {originOrUrl : String} {t : List WebEvent} {peer : Peer}
    (h : Emits (discoverPeerOnWeb P engineText newUrl originOrUrl) t (.ok peer)) :
    ∃ status t' after, cardUrl newUrl originOrUrl = .ok peer.url ∧
      t = ⟨.fetch peer.url cardAccept, .ok ⟨true, status, some peer.card⟩⟩ :: t' ∧
      RestsOn P engineText peer.card peer.signatures t' after ∧
      peer.validity = validateAgentCard peer.card := by
  rw [discoverPeerOnWeb] at h
  obtain ⟨url, hurl, hfetch⟩ := (emits_ofExcept_bind.mp h).resolve_left (by rintro ⟨_, -, -, ⟨⟩⟩)
  obtain ⟨answer, t', rfl, hres⟩ := emits_perform_bind.mp hfetch
  cases answer with
  | error e => cases (emits_done.mp hres).2
  | ok res =>
    obtain ⟨ok, status, json⟩ := res
    cases ok with
    | false => cases (emits_fail.mp hres).2
    | true =>
      cases json with
      | none => cases (emits_fail.mp hres).2
      | some card =>
        obtain ⟨x, hverify, hr⟩ := emits_bind_pure.mp hres
        cases x with
        | error e => cases hr
        | ok r =>
          cases hr
          obtain ⟨after, hrests⟩ := exists_restsOn hverify
          exact ⟨status, t', after, hurl, rfl, hrests, rfl⟩

/-! ## A card with one signature -/

theorem askedKid_signatureEntry (hP : P.Lawful) (sk : P.PrivateKey) {kid : Str} (card : Value)
    (hkid : kid ≠ []) : askedKid P (signatureEntry P sk kid card) = some (.string kid) := by
  obtain ⟨halg, hget⟩ := get?_protectedHeader kid
  refine askedKid_eq_some.mpr ⟨_, headerOf_signatureEntry hP sk _ _, ?_, hget, decide_eq_true hkid⟩
  rw [halg]
  exact isText_iff.mpr rfl

/-- The one signature counts if it is over what is presented and its key is found. -/
theorem emits_verify_signed (hP : P.Lawful) (hideal : P.Ideal) {sk : P.PrivateKey} {kid : Str}
    {presented card jwk : Value} {docs : Documents} {t : List WebEvent} (hkid : kid ≠ [])
    (hsignatures : signaturesOf presented = [signatureEntry P sk kid card])
    (hpayload : cardPayload presented = cardPayload card)
    (hkey : publicKeyFromJwk P jwk = .ok (P.publicKey sk))
    (hresolve : Emits (resolveJwk Cache.empty (.string kid)) t (.ok (.ok jwk, docs))) :
    Emits (verifyCardOnWeb P engineText presented) t (.ok ⟨1, []⟩) := by
  have hresolves : Resolves (fun _ => awaited engineText (.ok jwk)) kid (P.publicKey sk) :=
    ⟨jwk, rfl, hkey⟩
  have hcheck := (checkEntry_signatureEntry hP hideal hresolves (cardPayload presented) 0 card).mpr
    ⟨hkid, hpayload⟩
  have hentry : Emits (checkEntryOnWeb P engineText (cardPayload presented) 0 Cache.empty
      (signatureEntry P sk kid card)) t (.ok (.verified, docs)) := by
    rw [checkEntryOnWeb, askedKid_signatureEntry hP sk card hkid]
    exact emits_bind.mpr (.inr ⟨_, t, [], (List.append_nil t).symm, hresolve,
      emits_ofExcept_bind.mpr (.inr ⟨_, hcheck, emits_pure.mpr ⟨rfl, rfl⟩⟩)⟩)
  have hloop : Emits (checkEntriesOnWeb P engineText (cardPayload presented) 0 Cache.empty
      [signatureEntry P sk kid card]) t (.ok [.verified]) :=
    emits_bind.mpr (.inr ⟨_, t, [], (List.append_nil t).symm, hentry,
      emits_bind_pure.mpr ⟨.ok [], emits_pure.mpr ⟨rfl, rfl⟩, rfl⟩⟩)
  rw [verifyCardOnWeb, hsignatures, if_neg (by simp)]
  exact emits_bind_pure.mpr ⟨_, hloop, rfl⟩

/-! ### A card that is signed with the sample key -/

/-- A document that lists the sample key. -/
def sampleDocument : Value :=
  .object [(ofString "verificationMethod", .array [.object [(ofString "id", .string sampleKid),
    (ofString "publicKeyJwk", sampleJwk)]])]

def sampleSigned : Value := signCard sampleCardPlatform () sampleKid (testCard .null)

theorem cardPayload_sampleSigned : cardPayload sampleSigned = cardPayload (testCard .null) := by
  have hname : ofString "name" ≠ ofString "signatures" := ofString_ne (by decide)
  have hx : ofString "x" ≠ ofString "signatures" := ofString_ne (by decide)
  have hsame : withoutSignatures sampleSigned = withoutSignatures (testCard .null) := by
    simp [sampleSigned, signCard, testCard, setMember, withoutSignatures, hname, hname.symm, hx,
      hx.symm]
  rw [cardPayload, hsame, cardPayload]

/-- The document of the key id is asked for, and has the key. -/
theorem emits_resolve_sample : ∃ url docs,
    Emits (resolveJwk Cache.empty (.string sampleKid))
      [⟨.fetch url didAccept, .ok ⟨true, 200, some sampleDocument⟩⟩]
      (.ok (.ok sampleJwk, docs)) := by
  have hlocated : (didWebDocumentUrl (plain (didOf sampleKid))).toOption.isSome = true := by
    decide +kernel
  have hweb : isDidWeb (didOf sampleKid) = true := by decide +kernel
  cases hurl : didWebDocumentUrl (plain (didOf sampleKid)) with
  | error e =>
    rw [hurl] at hlocated
    cases hlocated
  | ok url =>
    have hask : Emits (ask fetchDocument Cache.empty (didOf sampleKid))
        [⟨.fetch url didAccept, .ok ⟨true, 200, some sampleDocument⟩⟩]
        (.ok (.ok sampleDocument, Cache.empty.keep (didOf sampleKid)
          (.ok sampleDocument : Except Error Value)) : Except Error _) :=
      emits_ask.mpr (.inr ⟨rfl, _, emits_fetchDocument.mpr (.inr ⟨url, _, hurl, rfl, rfl⟩), rfl⟩)
    refine ⟨url, Cache.empty.keep (didOf sampleKid) (.ok sampleDocument : Except Error Value), ?_⟩
    rw [resolveJwk, if_pos hweb]
    exact emits_bind_pure.mpr ⟨_, hask, by rfl⟩

theorem discovered_from_documents_sample : ∃ t after,
    t ≠ [] ∧ RestsOn sampleCardPlatform (fun _ => []) sampleSigned ⟨1, []⟩ t after := by
  obtain ⟨jwk, hjwk, hkey⟩ := sample_resolves
  obtain rfl : sampleJwk = jwk := Option.some.inj (Except.ok.inj hjwk)
  obtain ⟨documentUrl, docs, hresolve⟩ := emits_resolve_sample
  have hverify : Emits (verifyCardOnWeb sampleCardPlatform (fun _ => []) sampleSigned) _
      (.ok ⟨1, []⟩) :=
    emits_verify_signed sampleCard_lawful sampleCard_ideal (ofString_ne (t := "") (by decide))
      (signaturesOf_signCard _) cardPayload_sampleSigned hkey hresolve
  obtain ⟨url, hurl⟩ : ∃ url, cardUrl (fun path base => .ok (base ++ path))
      "https://agent.example" = .ok url := by
    rw [cardUrl]
    split_ifs
    · exact ⟨_, rfl⟩
    · exact ⟨_, rfl⟩
  obtain ⟨_, t', after, -, ht, hrests, -⟩ :=
    discovered_from_documents (emits_discoverPeer (n := 200) hurl hverify)
  obtain ⟨-, rfl⟩ := List.cons.inj ht
  exact ⟨_, after, List.cons_ne_nil _ _, hrests⟩

end Gatekeeper.Agent

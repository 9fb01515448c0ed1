import Mathlib.Data.List.Pairwise
import Gatekeeper.Lib.EventLoop
import Gatekeeper.Lib.Parsed
import Gatekeeper.Agent.PaidRequests

/-!
# `x402-settle.mjs`: the paywall

The resource server of the settlement run: a request without a payment is told the price, one with
a payment is answered after the facilitator verified and settled it. The answer of `/settle` is
kept in a variable of the module, which all requests that are under way share.
-/

namespace Gatekeeper.Agent.Exchange

open Ecma Encoding EventLoop Interaction
open Js (Error)

variable (E : Ethers)

/-! ## Replies -/

/-- What is given to `res.writeHead` and `res.end`; the body as the value that is stringified. -/
structure Reply where
  status : ℕ
  headers : List (String × String)
  body : Value

def x402Version : Str × Value := (ofString "x402Version", .number (.ofRat 2))

/-- The challenge of a 402. -/
def challengeOf (accepts : List Value) (resource : Option Value) (error : String) : Value :=
  .object ([x402Version, (ofString "error", textOf error)] ++ resourceMember resource ++
    [(ofString "accepts", .array accepts)])

/-- The 402 of a resource server: header and body hold the same challenge. -/
def paymentRequired (accepts : List Value) (resource : Option Value) : Reply :=
  let challenge := challengeOf accepts resource "payment required"
  { status := 402
    headers := [("payment-required", encodeHeader challenge), ("content-type", "application/json")]
    body := challenge }

def settlementHeader (settlement : Value) : List (String × String) :=
  [("payment-response", encodeHeader settlement)]

/-- The 402 for a payment that was turned down. A reason that is not there is left out. -/
def refusal (error : Option Value) : Reply where
  status := 402
  headers := [("content-type", "application/json")]
  body := .object (x402Version :: (error.map fun e => (ofString "error", e)).toList)

/-- The quote that is paid for, with the receipt. -/
def quoted (settlement : Value) : Reply where
  status := 200
  headers := ("content-type", "application/json") :: settlementHeader settlement
  body := .object [(ofString "quote", textOf "MERIDIAN-PC-2026"),
    (ofString "nav_cents", .number (.ofRat 10250))]

def quoteResource : Value :=
  .object [(ofString "url", textOf "/quote"),
    (ofString "description", textOf "one Meridian fund quote"),
    (ofString "mimeType", textOf "application/json")]

/-! ## The server -/

/-- A request to the facilitator, under its path. -/
structure Post where
  path : String
  body : Value

/-- The JSON that came back, or the error of the fetch. -/
abbrev PostResult : Post → Type := fun _ => Except Error Value

abbrev PostEvent : Type := Event Post PostResult

/-- What the facilitator is sent. The requirement is the one the server holds. -/
def facilitatorBody (requirement payment : Value) : Value :=
  .object [x402Version, (ofString "paymentPayload", payment),
    (ofString "paymentRequirements", requirement)]

/-- `v.name` of an answer, which may be `null`. -/
def answerField (v : Value) (name : String) : Except Error (Option Value) :=
  match v with
  | .null => .error .typeError
  | v => .ok (v.get? name)

def post (requirement payment : Value) (path : String) : Code Value Post PostResult Error Value :=
  await ⟨path, facilitatorBody requirement payment⟩ >>= compute

/-- The handler of the server, on the variable `settlement`. An error is not caught by anything. -/
def paywall (requirement : Value) (headers : String → Option String) :
    Code Value Post PostResult Error Reply :=
  let payment := readPaymentHeader E headers
  if !truthy (some payment) then pure (paymentRequired [requirement] (some quoteResource))
  else do
    let verdict ← post requirement payment "/verify"
    let isValid ← compute (answerField verdict "isValid")
    if !truthy isValid then pure (refusal (verdict.get? "invalidReason"))
    else do
      let answer ← post requirement payment "/settle"
      writeState answer
      let settlement ← readState
      let success ← compute (answerField settlement "success")
      if !truthy success then pure (refusal (settlement.get? "errorReason"))
      else pure (quoted settlement)

def postAlone (requirement payment : Value) (path : String) : Prog Post PostResult Error Value :=
  Prog.perform ⟨path, facilitatorBody requirement payment⟩ >>= Prog.ofExcept

/-- The handler with a variable of its own. -/
def paywallAlone (requirement : Value) (headers : String → Option String) :
    Prog Post PostResult Error Reply :=
  let payment := readPaymentHeader E headers
  if !truthy (some payment) then pure (paymentRequired [requirement] (some quoteResource))
  else do
    let verdict ← postAlone requirement payment "/verify"
    let isValid ← Prog.ofExcept (answerField verdict "isValid")
    if !truthy isValid then pure (refusal (verdict.get? "invalidReason"))
    else do
      let settlement ← postAlone requirement payment "/settle"
      let success ← Prog.ofExcept (answerField settlement "success")
      if !truthy success then pure (refusal (settlement.get? "errorReason"))
      else pure (quoted settlement)

theorem alone_ite {c : Bool} {m n : Code Value Post PostResult Error Reply}
    {p q : Prog Post PostResult Error Reply} (hm : m.Alone p) (hn : n.Alone q) :
    Code.Alone (if c then m else n) (if c then p else q) := by
  cases c
  · exact hn
  · exact hm

/-- The variable is read only where it was written before the next await. -/
theorem alone_paywall (requirement : Value) (headers : String → Option String) :
    (paywall E requirement headers).Alone (paywallAlone E requirement headers) := by
  have hpost : ∀ (payment : Value) (path : String),
      (post requirement payment path).Alone (postAlone requirement payment path) :=
    fun _ _ => alone_bind (alone_await _) alone_compute
  refine alone_ite (alone_pure _) ?_
  refine alone_bind (hpost _ _) fun verdict => alone_bind (alone_compute _) fun isValid => ?_
  refine alone_ite (alone_pure _) ?_
  refine alone_bind (hpost _ _) fun answer => alone_write_read ?_
  exact alone_bind (alone_compute _) fun success => alone_ite (alone_pure _) (alone_pure _)

/-! ## One request -/

/-- How a request ends that ends: without a payment it is told the price and nothing is asked;
with one, the facilitator is asked to verify it, to settle it only if it is valid, and the quote
is given only if that succeeded. -/
inductive Served (requirement payment : Value) : List PostEvent → Reply → Prop where
  | told : truthy (some payment) = false →
      Served requirement payment [] (paymentRequired [requirement] (some quoteResource))
  | invalid {verdict : Value} : truthy (some payment) = true → verdict ≠ .null →
      truthy (verdict.get? "isValid") = false →
      Served requirement payment [⟨⟨"/verify", facilitatorBody requirement payment⟩, .ok verdict⟩]
        (refusal (verdict.get? "invalidReason"))
  | unsettled {verdict settlement : Value} : truthy (some payment) = true →
      truthy (verdict.get? "isValid") = true → settlement ≠ .null →
      truthy (settlement.get? "success") = false →
      Served requirement payment [⟨⟨"/verify", facilitatorBody requirement payment⟩, .ok verdict⟩,
        ⟨⟨"/settle", facilitatorBody requirement payment⟩, .ok settlement⟩]
        (refusal (settlement.get? "errorReason"))
  | settled {verdict settlement : Value} : truthy (some payment) = true →
      truthy (verdict.get? "isValid") = true → truthy (settlement.get? "success") = true →
      Served requirement payment [⟨⟨"/verify", facilitatorBody requirement payment⟩, .ok verdict⟩,
        ⟨⟨"/settle", facilitatorBody requirement payment⟩, .ok settlement⟩] (quoted settlement)

theorem answerField_eq_ok {v : Value} {name : String} {x : Option Value}
    (h : answerField v name = .ok x) : v ≠ .null ∧ x = v.get? name := by
  cases v with
  | null => cases h
  | _ => exact ⟨by rintro ⟨⟩, (Except.ok.inj h).symm⟩

theorem emits_postAlone {requirement payment v : Value} {path : String} {t : List PostEvent}
    (h : Emits (postAlone requirement payment path) t (.ok v)) :
    t = [⟨⟨path, facilitatorBody requirement payment⟩, .ok v⟩] := by
  obtain ⟨x, rfl, hx⟩ := emits_await.mp h
  rw [hx]

theorem bind_ok_of_emits {α β : Type} {p : Prog Post PostResult Error α}
    {f : α → Prog Post PostResult Error β} {t : List PostEvent} {b : β}
    (h : Emits (p >>= f) t (.ok b)) :
    ∃ a t₁ t₂, t = t₁ ++ t₂ ∧ Emits p t₁ (.ok a) ∧ Emits (f a) t₂ (.ok b) := by
  rcases emits_bind.mp h with ⟨e, -, he⟩ | h
  · cases he
  · exact h

theorem served_of_emits {requirement : Value} {headers : String → Option String}
    {t : List PostEvent} {reply : Reply}
    (h : Emits (paywallAlone E requirement headers) t (.ok reply)) :
    Served requirement (readPaymentHeader E headers) t reply := by
  rw [paywallAlone] at h
  generalize readPaymentHeader E headers = payment at h ⊢
  cases hpayment : truthy (some payment) with
  | false =>
    rw [hpayment] at h
    obtain ⟨rfl, hreply⟩ := emits_pure.mp h
    cases hreply
    exact .told hpayment
  | true =>
    rw [hpayment] at h
    obtain ⟨verdict, t₁, t₂, rfl, hverify, hrest⟩ := bind_ok_of_emits h
    obtain rfl := emits_postAlone hverify
    obtain ⟨isValid, t₃, t₄, rfl, hfield, hbranch⟩ := bind_ok_of_emits hrest
    obtain ⟨rfl, hisValid⟩ := emits_ofExcept.mp hfield
    obtain ⟨hverdict, rfl⟩ := answerField_eq_ok hisValid.symm
    cases hvalid : truthy (verdict.get? "isValid") with
    | false =>
      rw [hvalid] at hbranch
      obtain ⟨rfl, hreply⟩ := emits_pure.mp hbranch
      cases hreply
      exact .invalid hpayment hverdict hvalid
    | true =>
      rw [hvalid] at hbranch
      obtain ⟨settlement, t₅, t₆, rfl, hsettle, hlast⟩ := bind_ok_of_emits hbranch
      obtain rfl := emits_postAlone hsettle
      obtain ⟨success, t₇, t₈, rfl, hread, hend⟩ := bind_ok_of_emits hlast
      obtain ⟨rfl, hsuccess⟩ := emits_ofExcept.mp hread
      obtain ⟨hsettlement, rfl⟩ := answerField_eq_ok hsuccess.symm
      cases hdone : truthy (settlement.get? "success") with
      | false =>
        rw [hdone] at hend
        obtain ⟨rfl, hreply⟩ := emits_pure.mp hend
        cases hreply
        exact .unsettled hpayment hvalid hsettlement hdone
      | true =>
        rw [hdone] at hend
        obtain ⟨rfl, hreply⟩ := emits_pure.mp hend
        cases hreply
        exact .settled hpayment hvalid hdone

theorem emits_bind_ok {α β : Type} {p : Prog Post PostResult Error α}
    {f : α → Prog Post PostResult Error β} {t₁ t₂ : List PostEvent} {a : α} {r : Except Error β}
    (h₁ : Emits p t₁ (.ok a)) (h₂ : Emits (f a) t₂ r) : Emits (p >>= f) (t₁ ++ t₂) r :=
  emits_bind.mpr (.inr ⟨a, t₁, t₂, rfl, h₁, h₂⟩)

theorem emits_answerField {β : Type} {v : Value} {name : String}
    {f : Option Value → Prog Post PostResult Error β} {t : List PostEvent} {r : Except Error β}
    (hv : v ≠ .null) (h : Emits (f (v.get? name)) t r) :
    Emits (Prog.ofExcept (answerField v name) >>= f) t r := by
  refine emits_ofExcept_bind.mpr (.inr ⟨v.get? name, ?_, h⟩)
  cases v with
  | null => exact absurd rfl hv
  | _ => rfl

theorem ne_null_of_truthy {v : Value} {name : String} (h : truthy (v.get? name) = true) :
    v ≠ .null := by
  rintro rfl
  cases h

/-- Each way of being served is a run. -/
theorem emits_of_served {requirement : Value} {headers : String → Option String}
    {t : List PostEvent} {reply : Reply}
    (h : Served requirement (readPaymentHeader E headers) t reply) :
    Emits (paywallAlone E requirement headers) t (.ok reply) := by
  rw [paywallAlone]
  generalize readPaymentHeader E headers = payment at h ⊢
  have hpost : ∀ (path : String) (v : Value), Emits (postAlone requirement payment path)
      [⟨⟨path, facilitatorBody requirement payment⟩, .ok v⟩] (.ok v) :=
    fun path v => emits_await.mpr ⟨.ok v, rfl, rfl⟩
  cases h with
  | told hpayment =>
    rw [hpayment]
    exact emits_pure.mpr ⟨rfl, rfl⟩
  | invalid hpayment hverdict hvalid =>
    rw [hpayment]
    refine emits_bind_ok (hpost _ _) (emits_answerField hverdict ?_)
    rw [hvalid]
    exact emits_pure.mpr ⟨rfl, rfl⟩
  | @unsettled verdict settlement hpayment hvalid hsettlement hdone =>
    rw [hpayment]
    refine emits_bind_ok (hpost _ verdict) (emits_answerField (ne_null_of_truthy hvalid) ?_)
    rw [hvalid]
    refine emits_bind_ok (hpost _ settlement) (emits_answerField hsettlement ?_)
    rw [hdone]
    exact emits_pure.mpr ⟨rfl, rfl⟩
  | @settled verdict settlement hpayment hvalid hdone =>
    rw [hpayment]
    refine emits_bind_ok (hpost _ verdict) (emits_answerField (ne_null_of_truthy hvalid) ?_)
    rw [hvalid]
    refine emits_bind_ok (hpost _ settlement) (emits_answerField (ne_null_of_truthy hdone) ?_)
    rw [hdone]
    exact emits_pure.mpr ⟨rfl, rfl⟩

theorem object_of_truthy {v : Value} {name : String} (h : truthy (v.get? name) = true) :
    ∃ ms, v = .object ms := by
  cases v with
  | object ms => exact ⟨ms, rfl⟩
  | _ => cases h

theorem decodeHeader_object (hE : E.Lawful) (ms : List (Str × Value)) :
    decodeHeader E (some (encodeHeader (.object ms))) = (Value.object ms).parsed := by
  apply decodeHeader_encodeHeader hE
  rw [Value.write, bracket]
  exact List.cons_ne_nil _ _

/-! ## All requests -/

/-- The facilitator reported this payment as settled. -/
def ReportsSettled (e : PostEvent) (payment : Value) : Prop :=
  e.op.path = "/settle" ∧ e.op.body.get? "paymentPayload" = some payment ∧
    ∃ settlement, e.res = .ok settlement ∧ truthy (settlement.get? "success") = true

/-- The two calls did not both settle one authorization; `authorization` is what the facilitator
tells payments apart by. -/
def Apart {ι κ : Type} (authorization : Value → κ) (e f : ι × PostEvent) : Prop :=
  ∀ payment payment', ReportsSettled e.2 payment → ReportsSettled f.2 payment' →
    authorization payment ≠ authorization payment'

theorem Apart.symm {ι κ : Type} {authorization : Value → κ} {e f : ι × PostEvent}
    (h : Apart authorization e f) : Apart authorization f e :=
  fun payment payment' hf he heq => h payment' payment he hf heq.symm

/-- The facilitator settles no authorization twice. -/
def SettlesOnce {ι κ : Type} (authorization : Value → κ) (tr : List (ι × PostEvent)) : Prop :=
  tr.Pairwise (Apart authorization)

theorem paymentPayload_facilitatorBody (requirement payment : Value) :
    (facilitatorBody requirement payment).get? "paymentPayload" = some payment := by
  simp (disch := decide) [facilitatorBody, x402Version, Value.get?, List.lookup_cons, ofString_beq]

/-- A reply with the quote comes after the payment was reported as settled, and carries what the
facilitator said of it. -/
structure PaidFor (requirement payment : Value) (t : List PostEvent) (reply : Reply) : Prop where
  settles : ∃ e ∈ t, ReportsSettled e payment
  verified : ∃ verdict settlement, truthy (verdict.get? "isValid") = true ∧
    t = [⟨⟨"/verify", facilitatorBody requirement payment⟩, .ok verdict⟩,
      ⟨⟨"/settle", facilitatorBody requirement payment⟩, .ok settlement⟩] ∧
    decodeHeader E (reply.headers.lookup "payment-response") = settlement.parsed

theorem paidFor_of_served (hE : E.Lawful) {requirement payment : Value} {t : List PostEvent}
    {reply : Reply} (h : Served requirement payment t reply) (h200 : reply.status = 200) :
    PaidFor E requirement payment t reply := by
  cases h with
  | told => cases h200
  | invalid => cases h200
  | unsettled => cases h200
  | @settled verdict settlement hpayment hvalid hdone =>
    obtain ⟨ms, rfl⟩ := object_of_truthy hdone
    refine ⟨⟨_, List.mem_cons_of_mem _ (List.mem_singleton_self _), rfl,
      paymentPayload_facilitatorBody _ _, _, rfl, hdone⟩, verdict, _, hvalid, rfl, ?_⟩
    exact decodeHeader_object E hE ms

/-- An authorization that is settled once is settled for one request. -/
theorem eq_of_settlesOnce {ι κ : Type} {authorization : Value → κ} {tr : List (ι × PostEvent)}
    (h : SettlesOnce authorization tr) {i j : ι} {e f : PostEvent} {payment payment' : Value}
    (he : (i, e) ∈ tr) (hf : (j, f) ∈ tr) (hsettled : ReportsSettled e payment)
    (hsettled' : ReportsSettled f payment')
    (heq : authorization payment = authorization payment') : i = j := by
  by_contra hij
  have hne : (i, e) ≠ (j, f) := fun h => hij (congrArg Prod.fst h)
  have : Std.Symm (@Apart ι κ authorization) := ⟨fun _ _ => Apart.symm⟩
  exact List.Pairwise.forall h he hf hne _ _ hsettled hsettled' heq

variable {ι κ : Type} [DecidableEq ι]

/-- In any interleaving of requests that share the variable, each request that is answered is
answered by its own payment and the facilitator's answers to it, and no two get the quote for
one authorization. -/
theorem quotes_paid_for (hE : E.Lawful) {requirement : Value} {headers : ι → String → Option String}
    {tr : List (ι × PostEvent)} {ts : ι → Option (Task Value Post PostResult Error Reply)}
    {settlement : Value}
    (h : Loop (fun i => paywall E requirement (headers i)) (fun _ => none) .null tr ts settlement) :
    (∀ i reply, ts i = some (.ended (.ok reply)) →
      Served requirement (readPaymentHeader E (headers i)) (proj i tr) reply ∧
      (reply.status = 200 →
        PaidFor E requirement (readPaymentHeader E (headers i)) (proj i tr) reply)) ∧
    ∀ authorization : Value → κ, SettlesOnce authorization tr →
      ∀ i j reply reply', ts i = some (.ended (.ok reply)) → reply.status = 200 →
        ts j = some (.ended (.ok reply')) → reply'.status = 200 →
        authorization (readPaymentHeader E (headers i)) =
          authorization (readPaymentHeader E (headers j)) → i = j := by
  have hserved : ∀ i reply, ts i = some (.ended (.ok reply)) →
      Served requirement (readPaymentHeader E (headers i)) (proj i tr) reply :=
    fun i reply hi => served_of_emits E
      (h.emits (fun i => alone_paywall E requirement (headers i)) hi)
  refine ⟨fun i reply hi => ⟨hserved i reply hi, paidFor_of_served E hE (hserved i reply hi)⟩, ?_⟩
  intro authorization honce i j reply reply' hi h200 hj h200' heq
  obtain ⟨e, he, hsettled⟩ := (paidFor_of_served E hE (hserved i reply hi) h200).settles
  obtain ⟨f, hf, hsettled'⟩ := (paidFor_of_served E hE (hserved j reply' hj) h200').settles
  exact eq_of_settlesOnce honce (mem_proj.mp he) (mem_proj.mp hf) hsettled hsettled' heq

/-! ## Two requests with one payment -/

def validVerdict : Value := .object [(ofString "isValid", .bool true)]

def firstSettlement : Value := .object [(ofString "success", .bool true)]

def secondSettlement : Value :=
  .object [(ofString "success", .bool false), (ofString "errorReason", textOf "nonce already used")]

/-- The calls for a payment that is valid. -/
def callsFor (requirement payment settlement : Value) : List PostEvent :=
  [⟨⟨"/verify", facilitatorBody requirement payment⟩, .ok validVerdict⟩,
    ⟨⟨"/settle", facilitatorBody requirement payment⟩, .ok settlement⟩]

theorem not_reportsSettled_verify {requirement payment verdict payment' : Value} :
    ¬ ReportsSettled ⟨⟨"/verify", facilitatorBody requirement payment⟩, .ok verdict⟩ payment' := by
  rintro ⟨hpath, -⟩
  have hne : "/verify" ≠ "/settle" := by decide
  exact hne hpath

theorem not_reportsSettled_second {requirement payment payment' : Value} {e : PostEvent}
    (he : e ∈ callsFor requirement payment secondSettlement) : ¬ ReportsSettled e payment' := by
  rcases List.mem_cons.mp he with rfl | he
  · exact not_reportsSettled_verify
  · obtain rfl := List.mem_singleton.mp he
    rintro ⟨-, -, settlement, hres, hsuccess⟩
    cases hres
    cases hsuccess

/-- The payment is sent twice; the second time it buys nothing. -/
theorem quotes_paid_for_sample : ∃ tr : List (Bool × PostEvent), ∃ ts settlement,
    Loop (fun _ => paywall sampleEthers sampleRequirement sampleHeaders) (fun _ => none) .null tr ts
      settlement ∧
    SettlesOnce id tr ∧ (∃ reply, ts true = some (.ended (.ok reply)) ∧ reply.status = 200 ∧
      PaidFor sampleEthers sampleRequirement (readPaymentHeader sampleEthers sampleHeaders)
        (proj true tr) reply) ∧
    ∃ reply, ts false = some (.ended (.ok reply)) ∧ reply.status = 402 := by
  obtain ⟨payment, hread⟩ : ∃ payment, readPaymentHeader sampleEthers sampleHeaders = payment :=
    ⟨_, rfl⟩
  have htruthy : truthy (some payment) = true := by
    rw [← hread, readPaymentHeader_of_carries sampleEthers_lawful sampleHeaders_carry]
    rfl
  have hvalid : truthy (validVerdict.get? "isValid") = true := rfl
  have hfirst : truthy (firstSettlement.get? "success") = true := rfl
  have hsecond : truthy (secondSettlement.get? "success") = false := rfl
  have hpaid : Emits (paywallAlone sampleEthers sampleRequirement sampleHeaders)
      (callsFor sampleRequirement payment firstSettlement) (.ok (quoted firstSettlement)) := by
    apply emits_of_served
    rw [hread]
    exact .settled htruthy hvalid hfirst
  have hrefused : Emits (paywallAlone sampleEthers sampleRequirement sampleHeaders)
      (callsFor sampleRequirement payment secondSettlement)
      (.ok (refusal (secondSettlement.get? "errorReason"))) := by
    apply emits_of_served
    rw [hread]
    exact .unsettled htruthy hvalid (by rintro ⟨⟩) hsecond
  have hrun : ∀ (i : Bool) ts es r s,
      Emits (paywallAlone sampleEthers sampleRequirement sampleHeaders) es r → ts i = none →
      ∃ s', Loop (fun _ => paywall sampleEthers sampleRequirement sampleHeaders) ts s
        (es.map (Prod.mk i)) (Function.update ts i (some (.ended r))) s' := by
    intro i ts es r s hes hi
    refine Code.Alone.loop (i := i)
      (p := fun _ => paywallAlone sampleEthers sampleRequirement sampleHeaders) ?_ hes hi s
    exact alone_paywall sampleEthers sampleRequirement sampleHeaders
  obtain ⟨s₁, h₁⟩ := hrun true (fun _ => none) _ _ .null hpaid rfl
  obtain ⟨s₂, h₂⟩ := hrun false (Function.update (fun _ => none) true
    (some (.ended (.ok (quoted firstSettlement))))) _ _ s₁ hrefused rfl
  have hloop := h₁.append h₂
  obtain ⟨hserved, -⟩ :=
    @quotes_paid_for sampleEthers Bool Value _ sampleEthers_lawful _ _ _ _ _ hloop
  refine ⟨_, _, _, hloop, ?_, ⟨_, rfl, rfl, ?_⟩, _, rfl, rfl⟩
  · refine List.pairwise_append.mpr ⟨List.pairwise_pair.mpr ?_, List.pairwise_pair.mpr ?_, ?_⟩
    · exact fun _ _ h => absurd h not_reportsSettled_verify
    · exact fun _ _ h => absurd h not_reportsSettled_verify
    · intro e _ f hf _ _ _ h
      obtain ⟨g, hg, rfl⟩ := List.mem_map.mp hf
      exact absurd h (not_reportsSettled_second hg)
  · exact (hserved true _ rfl).2 rfl

end Gatekeeper.Agent.Exchange

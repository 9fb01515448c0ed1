import Gatekeeper.Gate.Spend
import Gatekeeper.Lib.Refinement
import Gatekeeper.Agent.Engine

/-!
# The component behind a host in JavaScript

`gate-wasm.mjs`: a clock, a tenant id, a `Map` of `Map`s for the store, and two HTTP imports that
refuse. Below it stands a ledger that says what a sequence of calls amounts to: the mandate that
was provisioned last, and what was approved on each day.
-/

namespace Gatekeeper.Agent

open Encoding Interaction Js Gate Refinement Unsigned

/-! ## The store -/

/-- `Map<string, Map<string, Uint8Array>>`. -/
abbrev JsKv : Type := String → Option (String → Option Bytes)

/-- `kv.get(map)?.get(key)`. -/
def JsKv.find (kv : JsKv) (map key : String) : Option Bytes := (kv map).bind (· key)

/-- `if (!kv.has(map)) kv.set(map, new Map()); kv.get(map).set(key, value)`. -/
def JsKv.set (kv : JsKv) (map key : String) (value : Bytes) : JsKv :=
  let inner := (kv map).getD fun _ => none
  Function.update kv map (some (Function.update inner key (some value)))

theorem JsKv.find_set (kv : JsKv) (map key map' key' : String) (value : Bytes) :
    (kv.set map key value).find map' key' =
      if map' = map ∧ key' = key then some value else kv.find map' key' := by
  rw [JsKv.find, JsKv.set, JsKv.find]
  by_cases hmap : map' = map
  · subst hmap
    rw [Function.update_self, Option.bind_some]
    by_cases hkey : key' = key
    · subst hkey
      rw [Function.update_self, if_pos ⟨rfl, rfl⟩]
    · rw [Function.update_of_ne hkey, if_neg fun h => hkey h.2]
      cases kv map' <;> rfl
  · rw [Function.update_of_ne hmap, if_neg fun h => hmap h.1]

/-! ## The host -/

/-- `calls`. -/
structure CallCounts where
  kvGet : ℕ
  kvPut : ℕ
  http : ℕ
  httpWithPlaceholders : ℕ
deriving DecidableEq

structure LocalHost where
  kv : JsKv
  logs : List String
  calls : CallCounts

/-- `TextDecoder.decode`: a byte order mark at the start is dropped. -/
def decodeText (b : Bytes) : String :=
  match (Text.fromUtf8Lossy b).toList with
  | '\uFEFF' :: cs => String.ofList cs
  | cs => String.ofList cs

theorem decodeText_utf8 {s : String} (h : s.toList.head? ≠ some '\uFEFF') :
    decodeText (utf8 s) = s := by
  rw [decodeText, Text.fromUtf8Lossy_utf8]
  split
  · rename_i cs hs
    rw [hs] at h
    exact absurd rfl h
  · exact String.ofList_toList

def refusal (what : String) : String :=
  s!"gate-wasm host: {what} refused — outbound HTTP is the enclave's job, " ++
    "this host never dials out"

/-- The imports. The two that refuse throw, which ends the call of the component. -/
def LocalHost.serve (tid : Bytes) (nowSecs : UInt64) :
    (op : HostOp) → LocalHost → op.Res × LocalHost
  | .tenantDid, s => (tid, s)
  | .clusterTimestampSecs, s => (nowSecs, s)
  | .logInfo message, s => (.ok (), { s with logs := s.logs ++ [message] })
  | .kvGet map key, s =>
    (.ok (s.kv.find map (decodeText key)),
      { s with calls := { s.calls with kvGet := s.calls.kvGet + 1 } })
  | .kvPut map key value, s =>
    (.ok (), { s with
      kv := s.kv.set map (decodeText key) value
      calls := { s.calls with kvPut := s.calls.kvPut + 1 } })
  | .httpCall _, s =>
    (.error (refusal "http"), { s with calls := { s.calls with http := s.calls.http + 1 } })
  | .hwpCall _, s =>
    (.error (.upstreamError (refusal "httpWithPlaceholders")),
      { s with calls := { s.calls with
        httpWithPlaceholders := s.calls.httpWithPlaceholders + 1 } })

/-- What `loadGate` starts with, when it is given no store. -/
def LocalHost.fresh : LocalHost := ⟨fun _ => none, [], ⟨0, 0, 0, 0⟩⟩

/-! ## The tenant -/

/-- The value of a hex digit of either case. -/
def hexValue (c : Char) : Option ℕ :=
  if '0' ≤ c && c ≤ '9' then some (c.toNat - 48)
  else if 'a' ≤ c && c ≤ 'f' then some (c.toNat - 87)
  else if 'A' ≤ c && c ≤ 'F' then some (c.toNat - 55)
  else none

def hexBytes : List Char → Option Bytes
  | [] => some []
  | hi :: lo :: cs => do
    let h ← hexValue hi
    let l ← hexValue lo
    return UInt8.ofNat (16 * h + l) :: (← hexBytes cs)
  | [_] => none

def notTenantDid (did : String) : Error :=
  .error s!"not a tenant DID: {(Value.string did).json} (expected did:t3n:<40 hex>)"

/-- `/^did:t3n:([0-9a-f]{40})$/i`, and the bytes of the digits. -/
def tenantIdBytes (did : String) : Except Error Bytes :=
  let (scheme, digits) := did.toList.splitAt 8
  match hexBytes digits with
  | some tid =>
    if scheme.map Char.toLower = "did:t3n:".toList ∧ tid.length = 20 then .ok tid
    else .error (notTenantDid did)
  | none => .error (notTenantDid did)

theorem hexValue_spec {c : Char} {n : ℕ} (h : hexValue c = some n) :
    n < 16 ∧ hexDigit n = c.toLower := by
  have htable : ∀ k : Fin 128, (hexValue (Char.ofNat k)).all
      (fun n => n < 16 && hexDigit n == (Char.ofNat k).toLower) = true := by decide
  have hsmall : c.toNat < 128 := by
    have hle : ∀ {d : Char}, c ≤ d → c.toNat ≤ d.toNat := fun hd => hd
    simp only [hexValue, Bool.and_eq_true, decide_eq_true_eq] at h
    split_ifs at h with h₁ h₂ h₃
    · exact lt_of_le_of_lt (hle h₁.2) (by decide)
    · exact lt_of_le_of_lt (hle h₂.2) (by decide)
    · exact lt_of_le_of_lt (hle h₃.2) (by decide)
  have hc := htable ⟨c.toNat, hsmall⟩
  rw [Char.ofNat_toNat, h, Option.all_some, Bool.and_eq_true, decide_eq_true_eq, beq_iff_eq] at hc
  exact hc

/-- The digits of a tenant id, in lower case. -/
theorem hexChars_hexBytes {digits : List Char} {tid : Bytes} (h : hexBytes digits = some tid) :
    hexChars tid = digits.map Char.toLower := by
  induction digits using hexBytes.induct generalizing tid with
  | case1 =>
    obtain rfl : [] = tid := Option.some.inj h
    rfl
  | case2 hi lo cs ih =>
    simp only [hexBytes, Option.bind_eq_bind, Option.bind_eq_some_iff] at h
    obtain ⟨m, hm, n, hn, rest, hrest, htid⟩ := h
    obtain rfl := Option.some.inj htid
    obtain ⟨hmlt, hmchar⟩ := hexValue_spec hm
    obtain ⟨hnlt, hnchar⟩ := hexValue_spec hn
    have hbyte : (UInt8.ofNat (16 * m + n)).toNat = 16 * m + n :=
      UInt8.toNat_ofNat_of_lt' (by change _ < 256; omega)
    rw [hexChars, List.flatMap_cons, ← hexChars, ih hrest, hbyte,
      show (16 * m + n) / 16 = m by omega, show (16 * m + n) % 16 = n by omega, hmchar, hnchar]
    rfl
  | case3 c => cases h

theorem tenantIdBytes_spec {did : String} {tid : Bytes} (h : tenantIdBytes did = .ok tid) :
    tid.length = 20 ∧ did.toList.map Char.toLower = "did:t3n:".toList ++ hexChars tid := by
  simp only [tenantIdBytes, List.splitAt_eq] at h
  split at h
  · rename_i tid' hdigits
    split_ifs at h with hdid
    obtain rfl := Except.ok.inj h
    refine ⟨hdid.2, ?_⟩
    rw [hexChars_hexBytes hdigits, ← hdid.1, ← List.map_append, List.take_append_drop]
  · cases h

/-! ## The methods -/

/-- How `serde_json` describes an input that it cannot read. -/
structure SerdeTexts where
  evaluate : Value → String
  spend : Value → String

/-- `GateError`. -/
def gateError (message : String) : Error := .error message

/-- One call of an export on a request that was read. The clock is asked before anything is read
or written, and `BigInt` may refuse what it says. -/
def invokeExport {α : Type} (tid : Bytes) (now : Except Error UInt64) (trap : Error)
    (p : Guest α) (s : LocalHost) : Except Error α × LocalHost :=
  match now with
  | .error e => (.error e, s)
  | .ok nowSecs =>
    match (runFrom (LocalHost.serve tid nowSecs) p s).2 with
    | (.ok a, s') => (.ok a, s')
    | (.error (.err e), s') => (.error (gateError e), s')
    | (.error .panic, s') => (.error trap, s')

/-- `BigInt(nowOverride ?? now())`. -/
def clockSecs (nowSecs : Value) (clock : ℕ) : Except Error UInt64 := do
  let n ← (nowSecs.orElse (.number (Number.ofNat clock))).toBigInt
  return toUint64 n

def auditValue (row : AuditRow) : Value :=
  .object ([("kind", .string row.kind), ("asset", .string row.asset),
    ("amount_cents", .number (Number.ofNat row.amountCents.toNat)),
    ("max_amount_cents", .number (Number.ofNat row.maxAmountCents.toNat))] ++
    (row.counterparty.map fun c => ("counterparty", .string c)).toList)

/-- What `JSON.parse` makes of the output of `evaluate`. -/
def decisionValue (d : Decision) : Value :=
  .object [("decision", .string d.decision), ("reasons", .array (d.reasons.map Value.string)),
    ("evaluated_at_secs", .number (Number.ofNat d.evaluatedAtSecs.toNat)),
    ("mandate_source", .string d.mandateSource), ("tenant_did", .string d.tenantDid),
    ("audit", auditValue d.audit)]

/-- An output of `spend`. -/
def receiptValue (decision : String) (before after limit remaining : ℕ)
    (window requested : String) : Value :=
  .object [("daily_limit_cents", .number (Number.ofNat limit)), ("decision", .string decision),
    ("remaining", .number (Number.ofNat remaining)),
    ("spent_after", .number (Number.ofNat after)),
    ("spent_before", .number (Number.ofNat before)), ("window", .string window),
    ("window_requested", .string requested)]

def spendInput (action limit : Value) : Value :=
  (Value.object [("action", action), ("daily_limit_cents", limit),
    ("window", .string "ignored-by-contract")]).toJson

/-- The `SpendReq` that an object stands for. -/
def jsonSpendReq (v : Value) : Option SpendReq := do
  let action ← jsonAction (v.get? "action")
  let dailyLimitCents ← jsonAmount (v.get? "daily_limit_cents")
  let window ← orDefault "" jsonText (v.get? "window")
  return { action, dailyLimitCents, window }

inductive LocalOp where
  | provisionMandate (mandate : Value) (key : String)
  | evaluate (action mandate : Value)
  | spend (action dailyLimitCents : Value)

/-- A call of a method: with `opts.now_secs`, and what `now()` says then. -/
structure LocalCall where
  op : LocalOp
  nowSecs : Value
  clock : ℕ

/-- `enc.encode(JSON.stringify(mandate))`. -/
def mandateBytes : Value → Bytes
  | .undefined => []
  | v => utf8 v.json

/-- The gate of a tenant: what its methods return. -/
structure LocalGate where
  crates : Crates
  texts : SerdeTexts
  trap : Error
  tid : Bytes

namespace LocalGate

variable (G : LocalGate)

def provisionMandate (mandate : Value) (key : String) (s : LocalHost) : LocalHost :=
  { s with kv := s.kv.set (mandateMap (hexEncode G.tid)) key (mandateBytes mandate) }

def evaluate (action mandate : Value) (now : Except Error UInt64) (s : LocalHost) :
    Except Error Value × LocalHost :=
  let input := evaluateInput ⟨action, mandate, .undefined, .undefined, .undefined⟩
  match jsonEvaluateReq input with
  | none => (.error (gateError s!"evaluate: bad input: {G.texts.evaluate input}"), s)
  | some req =>
    let answer := invokeExport G.tid now G.trap (evaluateWasm G.crates req) s
    (answer.1.map decisionValue, answer.2)

def spend (action limit : Value) (now : Except Error UInt64) (s : LocalHost) :
    Except Error Value × LocalHost :=
  match jsonSpendReq (spendInput action limit) with
  | none =>
    (.error (gateError s!"spend: bad input: {G.texts.spend (spendInput action limit)}"), s)
  | some req =>
    let answer := invokeExport G.tid now G.trap (spendWasm req) s
    (answer.1.map fun o => receiptValue o.decision o.spentBefore.toNat o.spentAfter.toNat
      o.dailyLimitCents.toNat o.remaining.toNat o.window o.windowRequested, answer.2)

def step (s : LocalHost) (call : LocalCall) : Except Error Value × LocalHost :=
  match call.op with
  | .provisionMandate mandate key => (.ok .undefined, G.provisionMandate mandate key s)
  | .evaluate action mandate => G.evaluate action mandate (clockSecs call.nowSecs call.clock) s
  | .spend action limit => G.spend action limit (clockSecs call.nowSecs call.clock) s

end LocalGate

/-- `loadGate`, with a store of its own. -/
def loadGate (C : Crates) (texts : SerdeTexts) (trap : Error) (tenantDid : String) :
    Except Error LocalGate :=
  (tenantIdBytes tenantDid).map fun tid => ⟨C, texts, trap, tid⟩

/-- The DID of a gate whose caller does not care. -/
def localTenant : String := "did:t3n:" ++ "".pushn '0' 40

end Gatekeeper.Agent

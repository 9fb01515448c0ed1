import Gatekeeper.Agent.LocalGate

/-!
# What a local gate amounts to

The abstract machine keeps one mandate and one natural number a day, and answers from them. The
component behind the JavaScript host answers just so, call after call, and never dials out.
-/

namespace Gatekeeper.Agent

open Encoding Interaction Js Gate Refinement Unsigned

/-! ## The ledger -/

/-- The bytes provisioned last, the exact sum approved on each day, and what was read and
written. -/
structure GateLedger where
  mandate : Option Bytes
  approved : UInt64 → ℕ
  gets : ℕ
  puts : ℕ

def GateLedger.empty : GateLedger := ⟨none, fun _ => 0, 0, 0⟩

/-- A sum as a `u64` shows it. -/
def shown (total : ℕ) : ℕ := min total maxU64

namespace GateLedger

variable (L : GateLedger) (G : LocalGate)

/-- A mandate of the caller is decided by; else the one provisioned. -/
def judge (req : EvaluateReq) (nowSecs : UInt64) : Except Fault Decision :=
  let did := s!"did:t3n:{hexEncode G.tid}"
  match req.mandate with
  | some m => .ok (buildDecision G.crates req.action m nowSecs "inline" did)
  | none => (mandateOf G.crates (.ok L.mandate)).map fun m =>
      buildDecision G.crates req.action m nowSecs "kv" did

def afterEvaluate (req : EvaluateReq) : GateLedger :=
  match req.mandate with
  | some _ => L
  | none => { L with gets := L.gets + 1 }

/-- Whether another amount stays within the limit of the call. -/
def Admits (req : SpendReq) (day : UInt64) : Prop :=
  shown (L.approved day + req.action.amountCents.toNat) ≤ req.dailyLimitCents.toNat

instance (req : SpendReq) (day : UInt64) : Decidable (L.Admits req day) := Nat.decLe _ _

def afterSpend (req : SpendReq) (day : UInt64) : GateLedger :=
  let total := L.approved day + req.action.amountCents.toNat
  if L.Admits req day then
    { L with
      approved := Function.update L.approved day total
      gets := L.gets + 1
      puts := L.puts + 1 }
  else { L with gets := L.gets + 1 }

/-- What the caller is told. -/
def receipt (req : SpendReq) (day : UInt64) : Value :=
  let after := shown ((L.afterSpend req day).approved day)
  receiptValue (if L.Admits req day then "approved" else "rejected") (shown (L.approved day)) after
    req.dailyLimitCents.toNat (req.dailyLimitCents.toNat - after) s!"d{day}" req.window

def step (call : LocalCall) : Except Error Value × GateLedger :=
  match call.op with
  | .provisionMandate mandate key =>
    (.ok .undefined,
      if key = "default" then { L with mandate := some (mandateBytes mandate) } else L)
  | .evaluate action mandate =>
    let input := evaluateInput ⟨action, mandate, .undefined, .undefined, .undefined⟩
    match jsonEvaluateReq input, clockSecs call.nowSecs call.clock with
    | none, _ => (.error (gateError s!"evaluate: bad input: {G.texts.evaluate input}"), L)
    | some _, .error e => (.error e, L)
    | some req, .ok nowSecs =>
      match L.judge G req nowSecs with
      | .ok d => (.ok (decisionValue d), L.afterEvaluate req)
      | .error (.err e) => (.error (gateError e), L.afterEvaluate req)
      | .error .panic => (.error G.trap, L.afterEvaluate req)
  | .spend action limit =>
    match jsonSpendReq (spendInput action limit), clockSecs call.nowSecs call.clock with
    | none, _ =>
      (.error (gateError s!"spend: bad input: {G.texts.spend (spendInput action limit)}"), L)
    | some _, .error e => (.error e, L)
    | some req, .ok nowSecs =>
      (.ok (L.receipt req (nowSecs / 86400)), L.afterSpend req (nowSecs / 86400))

end GateLedger

/-! ## What a state of the host stands for -/

structure Represents (tid : Bytes) (s : LocalHost) (L : GateLedger) : Prop where
  mandate : s.kv.find (mandateMap (hexEncode tid)) "default" = L.mandate
  days : ∀ day : UInt64, Spells (s.kv.find (spentMap (hexEncode tid)) s!"d{day}")
    (shown (L.approved day))
  calls : s.calls = ⟨L.gets, L.puts, 0, 0⟩
  maps : ∀ map, s.kv map ≠ none →
    map = mandateMap (hexEncode tid) ∨ map = spentMap (hexEncode tid)

theorem represents_fresh (tid : Bytes) : Represents tid LocalHost.fresh GateLedger.empty where
  mandate := rfl
  days := fun _ => rfl
  calls := rfl
  maps := fun _ h => absurd rfl h

/-! ## One call -/

theorem mandateMap_ne_spentMap (tidHex : String) : mandateMap tidHex ≠ spentMap tidHex := by
  intro h
  have hchars := congrArg String.toList h
  simp [mandateMap, spentMap, toString] at hchars

variable {G : LocalGate} {s : LocalHost} {L : GateLedger}

theorem Represents.relogged (h : Represents G.tid s L) (logs : List String) :
    Represents G.tid { s with logs := logs } L := ⟨h.mandate, h.days, h.calls, h.maps⟩

theorem Represents.read (h : Represents G.tid s L) :
    Represents G.tid { s with calls := { s.calls with kvGet := s.calls.kvGet + 1 } }
      { L with gets := L.gets + 1 } := by
  refine ⟨h.mandate, h.days, ?_, h.maps⟩
  rw [h.calls]

theorem runFrom_evaluateWasm (h : Represents G.tid s L) (req : EvaluateReq) (nowSecs : UInt64) :
    (runFrom (LocalHost.serve G.tid nowSecs) (evaluateWasm G.crates req) s).2.1 =
        L.judge G req nowSecs ∧
      Represents G.tid (runFrom (LocalHost.serve G.tid nowSecs) (evaluateWasm G.crates req) s).2.2
        (L.afterEvaluate req) := by
  rw [evaluateWasm, runFrom_perform_bind]
  dsimp only [LocalHost.serve]
  rw [runFrom_perform_bind]
  dsimp only [LocalHost.serve]
  rw [runFrom_bind, mandateAndSource, GateLedger.judge, GateLedger.afterEvaluate]
  cases req.mandate with
  | some m =>
    exact ⟨rfl, h.relogged _⟩
  | none =>
    dsimp only
    have hread :
        s.kv.find (mandateMap (hexEncode G.tid)) (decodeText (utf8 "default")) = L.mandate := by
      rw [decodeText_utf8 (by decide), h.mandate]
    rw [readMandate, kvGet, bind_assoc, runFrom_perform_bind]
    dsimp only [LocalHost.serve]
    rw [hread]
    cases mandateOf G.crates (.ok L.mandate) with
    | error e => exact ⟨rfl, h.read⟩
    | ok m => exact ⟨rfl, h.read.relogged _⟩

theorem decodeText_dayBucket (nowSecs : UInt64) :
    decodeText (utf8 (dayBucket nowSecs)) = s!"d{nowSecs / 86400}" := by
  refine decodeText_utf8 ?_
  rw [dayBucket, String.toList_append]
  show some 'd' ≠ some '\uFEFF'
  decide

/-- The state after a call that read this total: it is written when the call approves. -/
def LocalHost.spent (s : LocalHost) (tid : Bytes) (req : SpendReq) (nowSecs before : UInt64) :
    LocalHost :=
  if admitsSpend req before then
    { s with
      kv := s.kv.set (spentMap (hexEncode tid)) s!"d{nowSecs / 86400}"
        (utf8 (toString (saturatingAdd before req.action.amountCents)))
      calls := { s.calls with kvGet := s.calls.kvGet + 1, kvPut := s.calls.kvPut + 1 } }
  else { s with calls := { s.calls with kvGet := s.calls.kvGet + 1 } }

theorem runFrom_spendWasm {tid : Bytes} (req : SpendReq) {nowSecs before : UInt64}
    (hread : totalOf (.ok (s.kv.find (spentMap (hexEncode tid)) s!"d{nowSecs / 86400}")) =
      .ok before) :
    ∃ message, (runFrom (LocalHost.serve tid nowSecs) (spendWasm req) s).2 =
      (.ok (spendOut req nowSecs before),
        { s.spent tid req nowSecs before with logs := s.logs ++ [message] }) := by
  rw [spendWasm, runFrom_perform_bind]
  dsimp only [LocalHost.serve]
  rw [runFrom_perform_bind]
  dsimp only [LocalHost.serve]
  rw [kvGet, runFrom_perform_bind]
  dsimp only [LocalHost.serve]
  rw [decodeText_dayBucket, hread, LocalHost.spent]
  show ∃ _, (runFrom _ (recordSpend _ _ req before >>= _) _).2 = _
  rw [recordSpend]
  cases admitsSpend req before with
  | false => exact ⟨_, rfl⟩
  | true =>
    rw [if_pos rfl, if_pos rfl, putTotal, kvPut, bind_assoc, runFrom_perform_bind]
    dsimp only [LocalHost.serve]
    rw [decodeText_dayBucket]
    exact ⟨_, rfl⟩

/-- The total that an entry stands for is read. -/
theorem totalOf_shown {entry : Option Bytes} {total : ℕ} (h : Spells entry (shown total)) :
    ∃ before, totalOf (.ok entry) = .ok before ∧ before.toNat = shown total := by
  cases entry with
  | none => exact ⟨0, rfl, h.symm⟩
  | some b =>
    obtain ⟨n, hn, htotal⟩ := h
    exact ⟨n, by rw [totalOf, hn, Option.getD_some], htotal⟩

theorem shown_add (a b : ℕ) : min (shown a + b) maxU64 = shown (a + b) := by
  unfold shown
  omega

section Spend

variable {req : SpendReq} {nowSecs before : UInt64}

theorem admitsSpend_iff_admits (hbefore : before.toNat = shown (L.approved (nowSecs / 86400))) :
    admitsSpend req before = true ↔ L.Admits req (nowSecs / 86400) := by
  rw [admitsSpend_iff, hbefore, shown_add]
  rfl

theorem Represents.spent (h : Represents G.tid s L)
    (hbefore : before.toNat = shown (L.approved (nowSecs / 86400))) :
    Represents G.tid (s.spent G.tid req nowSecs before) (L.afterSpend req (nowSecs / 86400)) := by
  rw [LocalHost.spent, GateLedger.afterSpend]
  by_cases hadmits : admitsSpend req before = true
  · rw [if_pos hadmits, if_pos ((admitsSpend_iff_admits hbefore).mp hadmits)]
    refine ⟨?_, fun day => ?_, by simp only [h.calls], fun map hmap => ?_⟩
    all_goals dsimp only at *
    · rw [JsKv.find_set, if_neg fun hmap => mandateMap_ne_spentMap _ hmap.1]
      exact h.mandate
    · rw [JsKv.find_set]
      by_cases hday : day = nowSecs / 86400
      · subst hday
        rw [if_pos ⟨rfl, rfl⟩, Function.update_self, ← shown_add, ← hbefore,
          ← toNat_saturatingAdd]
        exact spells_toString _
      · rw [if_neg fun hkey => hday (dayKey_inj (congrArg utf8 hkey.2)),
          Function.update_of_ne hday]
        exact h.days day
    · by_cases hspent : map = spentMap (hexEncode G.tid)
      · exact .inr hspent
      · refine h.maps map ?_
        rwa [JsKv.set, Function.update_of_ne hspent] at hmap
  · have hledger : ¬ L.Admits req (nowSecs / 86400) :=
      fun hadmitted => hadmits ((admitsSpend_iff_admits hbefore).mpr hadmitted)
    rw [if_neg hadmits, if_neg hledger]
    exact h.read

/-- What a call reports is what the ledger says. -/
theorem receipt_spendOut (hbefore : before.toNat = shown (L.approved (nowSecs / 86400))) :
    receiptValue (spendOut req nowSecs before).decision
      (spendOut req nowSecs before).spentBefore.toNat
      (spendOut req nowSecs before).spentAfter.toNat
      (spendOut req nowSecs before).dailyLimitCents.toNat
      (spendOut req nowSecs before).remaining.toNat (spendOut req nowSecs before).window
      (spendOut req nowSecs before).windowRequested = L.receipt req (nowSecs / 86400) := by
  have hadmits : admitsSpend req before = true ↔ L.Admits req (nowSecs / 86400) :=
    admitsSpend_iff_admits hbefore
  have hafter : (settled req before).toNat =
      shown ((L.afterSpend req (nowSecs / 86400)).approved (nowSecs / 86400)) := by
    rw [settled, GateLedger.afterSpend]
    by_cases h : admitsSpend req before = true
    · rw [if_pos h, if_pos (hadmits.mp h), toNat_saturatingAdd, hbefore, shown_add]
      dsimp only
      rw [Function.update_self]
    · rw [if_neg h, if_neg fun hledger => h (hadmits.mpr hledger), hbefore]
  have hdecision : spendDecision req before =
      if L.Admits req (nowSecs / 86400) then "approved" else "rejected" := by
    rw [spendDecision]
    exact if_congr hadmits rfl rfl
  simp only [spendOut, GateLedger.receipt, toNat_saturatingSub, hafter, hdecision, hbefore]
  rfl

end Spend

/-! ## Runs of calls -/

theorem Represents.provision (h : Represents G.tid s L) (mandate : Value) (key : String) :
    Represents G.tid (G.provisionMandate mandate key s)
      (if key = "default" then { L with mandate := some (mandateBytes mandate) } else L) := by
  have hdays : ∀ day : UInt64, (s.kv.set (mandateMap (hexEncode G.tid)) key
      (mandateBytes mandate)).find (spentMap (hexEncode G.tid)) s!"d{day}" =
        s.kv.find (spentMap (hexEncode G.tid)) s!"d{day}" := by
    intro day
    rw [JsKv.find_set, if_neg fun hmap => mandateMap_ne_spentMap _ hmap.1.symm]
  have hmaps : ∀ map,
      s.kv.set (mandateMap (hexEncode G.tid)) key (mandateBytes mandate) map ≠ none →
      map = mandateMap (hexEncode G.tid) ∨ map = spentMap (hexEncode G.tid) := by
    intro map hmap
    by_cases hmandate : map = mandateMap (hexEncode G.tid)
    · exact .inl hmandate
    · refine h.maps map ?_
      rwa [JsKv.set, Function.update_of_ne hmandate] at hmap
  split_ifs with hkey
  · refine ⟨?_, fun day => ?_, h.calls, hmaps⟩
    · rw [LocalGate.provisionMandate, JsKv.find_set, if_pos ⟨rfl, hkey.symm⟩]
    · rw [LocalGate.provisionMandate, hdays]
      exact h.days day
  · refine ⟨?_, fun day => ?_, h.calls, hmaps⟩
    · rw [LocalGate.provisionMandate, JsKv.find_set, if_neg fun hmap => hkey hmap.2.symm]
      exact h.mandate
    · rw [LocalGate.provisionMandate, hdays]
      exact h.days day

theorem Represents.step (h : Represents G.tid s L) (call : LocalCall) :
    (G.step s call).1 = (L.step G call).1 ∧
      Represents G.tid (G.step s call).2 (L.step G call).2 := by
  obtain ⟨op, time, clock⟩ := call
  cases op with
  | provisionMandate mandate key =>
    exact ⟨rfl, h.provision mandate key⟩
  | evaluate action mandate =>
    simp only [LocalGate.step, LocalGate.evaluate, GateLedger.step]
    cases jsonEvaluateReq _ with
    | none => exact ⟨rfl, h⟩
    | some req =>
      cases clockSecs time clock with
      | error e => exact ⟨rfl, h⟩
      | ok nowSecs =>
        obtain ⟨hanswer, hleft⟩ := runFrom_evaluateWasm h req nowSecs
        dsimp only [invokeExport]
        generalize (runFrom _ (evaluateWasm G.crates req) s).2 = left at hanswer hleft ⊢
        obtain ⟨r, s'⟩ := left
        dsimp only at hanswer hleft
        rw [← hanswer]
        rcases r with (e | _) | d
        · exact ⟨rfl, hleft⟩
        · exact ⟨rfl, hleft⟩
        · exact ⟨rfl, hleft⟩
  | spend action limit =>
    simp only [LocalGate.step, LocalGate.spend, GateLedger.step]
    cases jsonSpendReq _ with
    | none => exact ⟨rfl, h⟩
    | some req =>
      cases clockSecs time clock with
      | error e => exact ⟨rfl, h⟩
      | ok nowSecs =>
        obtain ⟨before, hread, hbefore⟩ := totalOf_shown (h.days (nowSecs / 86400))
        dsimp only [invokeExport]
        obtain ⟨message, hleft⟩ := runFrom_spendWasm req hread
        rw [hleft]
        refine ⟨congrArg Except.ok (receipt_spendOut hbefore), ?_⟩
        exact (h.spent hbefore).relogged _

/-- The component behind the JavaScript host refines the ledger. -/
theorem refines_ledger (G : LocalGate) :
    Refines G.step (fun L call => GateLedger.step L G call) (Represents G.tid) where
  answer := fun call h => (h.step call).1
  keeps := fun call h => (h.step call).2

/-! ## The bound of a day -/

/-- Every `spend` among the calls that can be read names a limit up to this. -/
def LimitsUpTo (bound : ℕ) (calls : List LocalCall) : Prop :=
  ∀ call ∈ calls, ∀ action limit req, call.op = .spend action limit →
    jsonSpendReq (spendInput action limit) = some req → req.dailyLimitCents.toNat ≤ bound

theorem GateLedger.approved_afterSpend {bound : ℕ} (hbound : bound < maxU64) {req : SpendReq}
    (hlimit : req.dailyLimitCents.toNat ≤ bound) (hdays : ∀ day, L.approved day ≤ bound)
    (day day' : UInt64) : (L.afterSpend req day).approved day' ≤ bound := by
  rw [GateLedger.afterSpend]
  split_ifs with hadmits
  · by_cases hday : day' = day
    · subst hday
      -- below the cut-off what is shown is the exact sum
      have hshown : shown (L.approved day' + req.action.amountCents.toNat) ≤ bound :=
        le_trans hadmits hlimit
      show Function.update L.approved day' _ day' ≤ bound
      rw [Function.update_self]
      unfold shown at hshown
      omega
    · show Function.update L.approved day _ day' ≤ bound
      rw [Function.update_of_ne hday]
      exact hdays day'
  · exact hdays day'

theorem GateLedger.approved_step {bound : ℕ} (hbound : bound < maxU64) {call : LocalCall}
    (hlimit : LimitsUpTo bound [call]) (hdays : ∀ day, L.approved day ≤ bound) (day : UInt64) :
    (L.step G call).2.approved day ≤ bound := by
  have hcall := hlimit call (List.mem_singleton_self call)
  obtain ⟨op, time, clock⟩ := call
  cases op with
  | provisionMandate mandate key =>
    simp only [GateLedger.step]
    split_ifs
    · exact hdays day
    · exact hdays day
  | evaluate action mandate =>
    have hafter : ∀ req : EvaluateReq, (L.afterEvaluate req).approved day ≤ bound := by
      intro req
      rw [GateLedger.afterEvaluate]
      split
      · exact hdays day
      · exact hdays day
    simp only [GateLedger.step]
    split
    · exact hdays day
    · exact hdays day
    · split
      · exact hafter _
      · exact hafter _
      · exact hafter _
  | spend action limit =>
    simp only [GateLedger.step]
    split
    · exact hdays day
    · exact hdays day
    · rename_i req nowSecs hreq _
      exact GateLedger.approved_afterSpend hbound (hcall action limit req rfl hreq) hdays _ day

theorem GateLedger.approved_runs {bound : ℕ} (hbound : bound < maxU64) {calls : List LocalCall}
    (hlimits : LimitsUpTo bound calls) (hdays : ∀ day, L.approved day ≤ bound) (day : UInt64) :
    (runs (fun L call => GateLedger.step L G call) calls L).2.approved day ≤ bound := by
  induction calls generalizing L with
  | nil => exact hdays day
  | cons call calls ih =>
    refine ih (fun c hc => hlimits c (List.mem_cons_of_mem _ hc)) fun day' => ?_
    refine GateLedger.approved_step hbound (fun c hc => ?_) hdays day'
    rw [List.mem_singleton.mp hc]
    exact hlimits call List.mem_cons_self

/-- Whatever is called on a gate of its own store: it answers as the ledger does, for the tenant
of its DID, it holds the ledger and nothing else, it has never dialled out, and no day's sum has
passed the largest limit that was named. -/
theorem local_gate_keeps_ledger {C : Crates} {texts : SerdeTexts} {trap : Error}
    {tenantDid : String} {G : LocalGate} (h : loadGate C texts trap tenantDid = .ok G)
    (calls : List LocalCall) :
    let gate := runs G.step calls LocalHost.fresh
    let ledger := runs (fun L call => GateLedger.step L G call) calls GateLedger.empty
    gate.1 = ledger.1 ∧ Represents G.tid gate.2 ledger.2 ∧
      tenantDid.toList.map Char.toLower = (s!"did:t3n:{hexEncode G.tid}").toList ∧
      gate.2.calls.http = 0 ∧ gate.2.calls.httpWithPlaceholders = 0 ∧
      ∀ bound < maxU64, LimitsUpTo bound calls → ∀ day, ledger.2.approved day ≤ bound := by
  obtain ⟨hanswers, hleft⟩ := (refines_ledger G).runs (represents_fresh G.tid) calls
  obtain ⟨tid, htid, rfl⟩ : ∃ tid, tenantIdBytes tenantDid = .ok tid ∧
      (⟨C, texts, trap, tid⟩ : LocalGate) = G := by
    rw [loadGate] at h
    cases htid : tenantIdBytes tenantDid with
    | error e =>
      rw [htid] at h
      cases h
    | ok tid =>
      rw [htid] at h
      exact ⟨tid, rfl, Except.ok.inj h⟩
  refine ⟨hanswers, hleft, ?_, ?_, ?_, fun bound hbound hlimits day => ?_⟩
  · rw [(tenantIdBytes_spec htid).2, String.toList_append]
    exact congrArg ("did:t3n:".toList ++ ·) String.toList_ofList.symm
  · rw [hleft.calls]
  · rw [hleft.calls]
  · exact GateLedger.approved_runs hbound hlimits (fun _ => Nat.zero_le _) day

/-! ## A sample gate -/

def sampleGate : LocalGate := ⟨sampleCrates, ⟨fun _ => "", fun _ => ""⟩, .rangeError,
  List.replicate 20 0⟩

/-- Two orders of 600 dollars on one day, under a limit of 1000. -/
def sampleSpends : List LocalCall :=
  let action := Value.object [("kind", .string "rwa.buy"), ("asset", .string "USDC"),
    ("amount_cents", .number (Number.ofNat 60000))]
  let order := LocalOp.spend action (.number (Number.ofNat 100000))
  [⟨order, .undefined, 1786000000⟩, ⟨order, .undefined, 1786000060⟩]

def localLedger : List (Except Error Value) × GateLedger :=
  runs (fun L call => GateLedger.step L sampleGate call) sampleSpends GateLedger.empty

theorem local_gate_keeps_ledger_sample :
    (runs sampleGate.step sampleSpends LocalHost.fresh).1 = localLedger.1 ∧
      localLedger.2.approved 20671 = 60000 := by
  have hgate : loadGate sampleCrates ⟨fun _ => "", fun _ => ""⟩ .rangeError localTenant =
      .ok sampleGate := by rfl
  exact ⟨(local_gate_keeps_ledger hgate sampleSpends).1, by decide +kernel⟩

end Gatekeeper.Agent

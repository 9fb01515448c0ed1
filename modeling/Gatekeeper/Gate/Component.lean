import Gatekeeper.Gate.Pools
import Gatekeeper.Gate.Spend
import Gatekeeper.Lib.Footprint

/-!
# The component

The four functions `lib.rs` exports, from the bytes of the envelope on, and any number of
calls of them that interleave. What an export may do to the host is a table, `MayCall`; every
run keeps to it, so one table bounds every interleaving.
-/

namespace Gatekeeper.Gate

open Encoding Interaction

/-! ## The exports -/

/-- `serde_json::from_slice` at the types of the requests. -/
structure Requests where
  evaluate : Bytes → Except String EvaluateReq
  spend : Bytes → Except String SpendReq
  dispatchAction : Bytes → Except String DispatchReq
  executeAction : Bytes → Except String ExecuteReq

/-- The request in the `input` of an envelope: the check of `lib.rs` that there is one, and
the parse that `gate.rs` starts with. -/
def requestOf {α : Type} (name : String) (read : Bytes → Except String α) :
    Option Bytes → Except Fault α
  | none => .error (.err s!"{name}: missing input")
  | some input =>
    match read input with
    | .error e => .error (.err s!"{name}: bad input: {e}")
    | .ok req => .ok req

inductive Export where
  | evaluate
  | spend
  | dispatchAction
  | executeAction
deriving DecidableEq

/-- What the exports return, before it is serialised. -/
inductive ComponentOut where
  | evaluate (out : Decision)
  | spend (out : SpendOut)
  | dispatchAction (out : Json.Value)
  | executeAction (out : ExecuteOut)

namespace Component

variable (C : Crates) (R : Requests)

def evaluate (input : Option Bytes) : Guest ComponentOut := do
  let req ← Prog.ofExcept (requestOf "evaluate" R.evaluate input)
  let out ← evaluateWasm C req
  pure (.evaluate out)

def spend (input : Option Bytes) : Guest ComponentOut := do
  let req ← Prog.ofExcept (requestOf "spend" R.spend input)
  let out ← spendWasm req
  pure (.spend out)

def dispatchAction (input : Option Bytes) : Guest ComponentOut := do
  let req ← Prog.ofExcept (requestOf "dispatch_action" R.dispatchAction input)
  let out ← dispatchActionWasm C req
  pure (.dispatchAction out)

def executeAction (input : Option Bytes) : Guest ComponentOut := do
  let req ← Prog.ofExcept (requestOf "execute_action" R.executeAction input)
  let out ← executeActionWasm C req
  pure (.executeAction out)

end Component

/-- A call of the component: which export, and the `input` of its envelope. -/
structure ComponentCall where
  function : Export
  input : Option Bytes

def component (C : Crates) (R : Requests) (call : ComponentCall) : Guest ComponentOut :=
  match call.function with
  | .evaluate => Component.evaluate C R call.input
  | .spend => Component.spend R call.input
  | .dispatchAction => Component.dispatchAction C R call.input
  | .executeAction => Component.executeAction C R call.input

/-! ## What each export may do -/

/-- The host calls an export may make for the tenant with this id. -/
def MayCall (tidHex : String) : Export → HostOp → Prop
  | .dispatchAction, .httpCall _ => True
  | .dispatchAction, .logInfo _ => True
  | .dispatchAction, _ => False
  | _, .tenantDid => True
  | _, .clusterTimestampSecs => True
  | _, .logInfo _ => True
  | .evaluate, .kvGet mapName _ => mapName = mandateMap tidHex
  | .spend, .kvGet mapName _ => mapName = spentMap tidHex
  | .spend, .kvPut mapName _ _ => mapName = spentMap tidHex
  | .executeAction, .kvGet mapName _ =>
      mapName = mandateMap tidHex ∨ mapName = dispatchedMap tidHex ∨ mapName = secretsMap tidHex
  | .executeAction, .kvPut mapName _ _ => mapName = dispatchedMap tidHex
  | .executeAction, .httpCall _ => True
  | .executeAction, .hwpCall _ => True
  | _, _ => False

/-- Whose maps a run uses is answered by its first call. A run that does not ask for the tenant
may only do what its export may do for every tenant. -/
inductive Confined (f : Export) {α : Type} : Guest α → Prop where
  | asks {g : Bytes → Guest α} : (∀ tidHex, MayCall tidHex f .tenantDid) →
      (∀ tid, Within (MayCall (hexEncode tid) f) (g tid)) →
      Confined f (Prog.perform HostOp.tenantDid >>= g)
  | anyTenant {p : Guest α} : (∀ tidHex, Within (MayCall tidHex f) p) → Confined f p

theorem Confined.map {f : Export} {α β : Type} {p : Guest α} (h : Confined f p) (g : α → β) :
    Confined f (p >>= fun a => pure (g a)) := by
  cases h with
  | asks hask h =>
    rw [bind_assoc]
    exact .asks hask fun tid => within_bind (h tid) fun _ => within_pure _
  | anyTenant h => exact .anyTenant fun tidHex => within_bind (h tidHex) fun _ => within_pure _

/-- A call whose envelope cannot be read ends before it reaches the host. -/
theorem Confined.request {f : Export} {α β : Type} {p : β → Guest α} (r : Except Fault β)
    (h : ∀ req, Confined f (p req)) : Confined f (Prog.ofExcept r >>= p) := by
  cases r with
  | error e => exact .anyTenant fun _ => within_ofExcept (.error e)
  | ok req => exact h req

theorem mayCall_logInfo (f : Export) (tidHex message : String) :
    Within (MayCall tidHex f) (logInfo message) := by
  refine within_perform ?_
  cases f <;> trivial

theorem mayCall_readMandate (C : Crates) {f : Export} {tidHex : String}
    (h : MayCall tidHex f (.kvGet (mandateMap tidHex) (utf8 "default"))) :
    Within (MayCall tidHex f) (readMandate C tidHex) :=
  within_perform_bind h fun _ => within_ofExcept _

theorem confined_evaluateWasm (C : Crates) (req : EvaluateReq) :
    Confined .evaluate (evaluateWasm C req) := by
  unfold evaluateWasm
  refine .asks (fun _ => trivial) fun tid => within_perform_bind trivial fun nowSecs => ?_
  refine within_bind ?_ fun source => ?_
  · unfold mandateAndSource
    split
    · exact within_pure _
    · exact within_bind (mayCall_readMandate C rfl) fun _ => within_pure _
  · exact within_bind (mayCall_logInfo _ _ _) fun _ => within_pure _

theorem confined_spendWasm (req : SpendReq) : Confined .spend (spendWasm req) := by
  unfold spendWasm
  refine .asks (fun _ => trivial) fun tid => within_perform_bind trivial fun nowSecs => ?_
  refine within_perform_bind rfl fun a => within_bind (within_ofExcept _) fun before => ?_
  refine within_bind ?_ fun _ => within_bind (mayCall_logInfo _ _ _) fun _ => within_pure _
  unfold recordSpend putTotal
  split
  · refine within_perform_bind rfl fun a => ?_
    split
    · exact within_pure _
    · exact within_fail _
  · exact within_pure _

theorem confined_dispatchActionWasm (C : Crates) (req : DispatchReq) :
    Confined .dispatchAction (dispatchActionWasm C req) := by
  unfold dispatchActionWasm callHttp
  refine .anyTenant fun tidHex => within_bind ?_ fun json => ?_
  · exact within_perform_bind trivial fun _ => within_pure _
  · exact within_bind (mayCall_logInfo _ _ _) fun _ => within_pure _

theorem mayCall_readPrevious (tidHex : String) (v : Verdict) :
    Within (MayCall tidHex .executeAction) (readPrevious tidHex v) := by
  unfold readPrevious readDispatchRecord
  split
  · refine within_bind (within_perform_bind (.inr (.inl rfl)) fun a => ?_) fun _ => within_pure _
    rcases a with e | _ | bytes
    · exact within_bind (mayCall_logInfo _ _ _) fun _ => within_pure _
    · exact within_pure _
    · exact within_pure _
  · exact within_pure _

theorem mayCall_outboundHeaders (tidHex : String) (mandate : Mandate) :
    Within (MayCall tidHex .executeAction) (outboundHeaders tidHex mandate) := by
  unfold outboundHeaders readSecret
  split_ifs
  · exact within_ofExcept _
  · refine within_bind ?_ fun _ => within_ofExcept _
    exact within_perform_bind (.inr (.inr rfl)) fun _ => within_ofExcept _

theorem mayCall_sendOut (tidHex : String) (req : ExecuteReq) (request : Request) :
    Within (MayCall tidHex .executeAction) (sendOut req request) := by
  unfold sendOut callPlaceholders callHttp
  split_ifs
  · refine within_perform_bind trivial fun a => ?_
    split
    · exact within_pure _
    · exact within_pure _
  · exact within_perform_bind trivial fun _ => within_pure _

theorem mayCall_dispatch (C : Crates) (req : ExecuteReq) (tidHex : String) (mandate : Mandate)
    (idemKey : Option String) (out : ExecuteOut) :
    Within (MayCall tidHex .executeAction) (dispatch C req tidHex mandate idemKey out) := by
  unfold dispatch
  refine within_bind (mayCall_outboundHeaders tidHex mandate) fun headers => ?_
  refine within_bind (mayCall_sendOut tidHex req _) fun response => ?_
  cases idemKey with
  | none => exact within_pure _
  | some k =>
    refine within_bind (within_perform_bind rfl fun a => ?_) fun _ => within_pure _
    split
    · exact within_pure _
    · exact within_pure _

theorem confined_executeActionWasm (C : Crates) (req : ExecuteReq) :
    Confined .executeAction (executeActionWasm C req) := by
  unfold executeActionWasm
  refine .asks (fun _ => trivial) fun tid => within_perform_bind trivial fun nowSecs => ?_
  refine within_bind (mayCall_readMandate C (.inl rfl)) fun mandate => ?_
  refine within_bind (within_ofExcept _) fun v => ?_
  refine within_bind (mayCall_readPrevious _ v) fun previous => ?_
  rcases previous with _ | ⟨k, prev⟩
  · refine within_bind ?_ fun out => within_bind (mayCall_logInfo _ _ _) fun _ => within_pure _
    unfold dispatchIfApproved
    split_ifs
    · exact mayCall_dispatch C req _ mandate v.idemKey _
    · exact within_pure _
  · exact within_bind (mayCall_logInfo _ _ _) fun _ => within_pure _

/-- Every export keeps to its row of the table, whatever bytes it is called with. -/
theorem confined_component (C : Crates) (R : Requests) (call : ComponentCall) :
    Confined call.function (component C R call) := by
  unfold component
  split
  · rename_i hf
    rw [hf]
    exact .request _ fun req => (confined_evaluateWasm C req).map _
  · rename_i hf
    rw [hf]
    exact .request _ fun req => (confined_spendWasm req).map _
  · rename_i hf
    rw [hf]
    exact .request _ fun req => (confined_dispatchActionWasm C req).map _
  · rename_i hf
    rw [hf]
    exact .request _ fun req => (confined_executeActionWasm C req).map _

/-! ## Whose maps a call names -/

theorem dispatchedMap_ne_spentMap (tidHex tidHex' : String) :
    dispatchedMap tidHex ≠ spentMap tidHex' := by
  intro h
  have hlast := congrArg (fun name : String => name.toList.getLast?) h
  simp only [dispatchedMap, spentMap, String.toList_append, toString] at hlast
  rw [List.getLast?_append_of_ne_nil _ (by decide), List.getLast?_append_of_ne_nil _ (by decide)]
    at hlast
  exact absurd hlast (by decide)

/-- The map a call names. -/
def HostOp.mapName : HostOp → Option String
  | kvGet mapName _ => some mapName
  | kvPut mapName _ _ => some mapName
  | _ => none

def tenantMaps (tidHex : String) : List String :=
  [mandateMap tidHex, spentMap tidHex, dispatchedMap tidHex, secretsMap tidHex]

theorem MayCall.mem_tenantMaps {tidHex mapName : String} {f : Export} {op : HostOp}
    (h : MayCall tidHex f op) (hmap : op.mapName = some mapName) :
    mapName ∈ tenantMaps tidHex := by
  cases op with
  | kvGet m key =>
    obtain rfl := Option.some.inj hmap
    cases f with
    | evaluate => exact h ▸ by simp [tenantMaps]
    | spend => exact h ▸ by simp [tenantMaps]
    | dispatchAction => exact h.elim
    | executeAction => rcases h with rfl | rfl | rfl <;> simp [tenantMaps]
  | kvPut m key value =>
    obtain rfl := Option.some.inj hmap
    cases f with
    | evaluate => exact h.elim
    | spend => exact h ▸ by simp [tenantMaps]
    | dispatchAction => exact h.elim
    | executeAction => exact h ▸ by simp [tenantMaps]
  | _ => cases hmap

/-- The id in the name of a map, up to the second colon. -/
def ownerOf (mapName : String) : List Char := (mapName.toList.drop 2).takeWhile (· ≠ ':')

theorem ne_colon_of_mem_hexChars {b : Bytes} {c : Char} (hc : c ∈ hexChars b) : c ≠ ':' := by
  have table : ∀ i : Fin 16, hexDigit i ≠ ':' := by decide
  simp only [hexChars, List.mem_flatMap, List.mem_cons, List.not_mem_nil, or_false] at hc
  obtain ⟨x, -, rfl | rfl⟩ := hc
  · exact table ⟨x.toNat / 16, by have := x.toNat_lt; omega⟩
  · exact table ⟨x.toNat % 16, Nat.mod_lt _ (by decide)⟩

theorem ownerOf_name (tid : Bytes) (rest : String) :
    ownerOf ("z:" ++ hexEncode tid ++ (":" ++ rest)) = hexChars tid := by
  have hchars : ("z:" ++ hexEncode tid ++ (":" ++ rest)).toList.drop 2 =
      hexChars tid ++ ':' :: rest.toList := by
    simp [hexEncode]
  rw [ownerOf, hchars, List.takeWhile_append_of_pos, List.takeWhile_cons_of_neg (by simp),
    List.append_nil]
  intro c hc
  exact decide_eq_true (ne_colon_of_mem_hexChars hc)

/-- The name of a map tells its tenant. -/
theorem ownerOf_of_mem {tid : Bytes} {mapName : String}
    (h : mapName ∈ tenantMaps (hexEncode tid)) : ownerOf mapName = hexChars tid := by
  have hname : ∃ rest, mapName = "z:" ++ hexEncode tid ++ (":" ++ rest) := by
    simp only [tenantMaps, List.mem_cons, List.not_mem_nil, or_false] at h
    rcases h with rfl | rfl | rfl | rfl
    · exact ⟨"mandate", by simp [mandateMap, toString, String.append_assoc]⟩
    · exact ⟨"spent", by simp [spentMap, toString, String.append_assoc]⟩
    · exact ⟨"dispatched", by simp [dispatchedMap, toString, String.append_assoc]⟩
    · exact ⟨"secrets", by simp [secretsMap, toString, String.append_assoc]⟩
  obtain ⟨rest, rfl⟩ := hname
  exact ownerOf_name tid rest

theorem tenant_unique {tid tid' : Bytes} {mapName : String}
    (h : mapName ∈ tenantMaps (hexEncode tid)) (h' : mapName ∈ tenantMaps (hexEncode tid')) :
    tid = tid' :=
  hexChars_injective ((ownerOf_of_mem h).symm.trans (ownerOf_of_mem h'))

/-- A run does what its export may do for the tenant it was answered, and names no map before
it was answered. -/
theorem Confined.of_steps {f : Export} {α : Type} {p q : Guest α} {t : List HostEvent}
    (h : Confined f p) (hsteps : Steps p t q) :
    ∃ tid, (∀ e ∈ t, MayCall (hexEncode tid) f e.op) ∧
      ((∃ e ∈ t, e.op.mapName ≠ none) → (⟨.tenantDid, tid⟩ : HostEvent) ∈ t) := by
  cases h with
  | asks hask h =>
    cases hsteps with
    | nil =>
      exact ⟨[], fun e he => absurd he List.not_mem_nil,
        fun ⟨e, he, _⟩ => absurd he List.not_mem_nil⟩
    | @cons _ _ tid t _ hsteps =>
      exact ⟨tid, List.forall_mem_cons.mpr ⟨hask _, (h tid).of_steps hsteps⟩,
        fun _ => List.mem_cons_self⟩
  | anyTenant h =>
    have hmay : ∀ tidHex, ∀ e ∈ t, MayCall tidHex f e.op := fun _ => (h _).of_steps hsteps
    refine ⟨[], hmay _, fun ⟨e, he, hmap⟩ => ?_⟩
    -- no map belongs to every tenant
    obtain ⟨mapName, hname⟩ := Option.ne_none_iff_exists'.mp hmap
    have hzero := (hmay (hexEncode [0]) e he).mem_tenantMaps hname
    cases tenant_unique hzero ((hmay (hexEncode [1]) e he).mem_tenantMaps hname)

/-! ## The runs of the component -/

/-- Every complete run of the component: it refuses the envelope without a call, or it is a run
of the function it was asked for on the request it read. -/
inductive ComponentRun (C : Crates) (R : Requests) (call : ComponentCall) :
    List HostEvent → Prop where
  | refused : ComponentRun C R call []
  | evaluate {req t r} : call.function = .evaluate →
      requestOf "evaluate" R.evaluate call.input = .ok req →
      Emits (evaluateWasm C req) t r → ComponentRun C R call t
  | spend {req t r} : call.function = .spend →
      requestOf "spend" R.spend call.input = .ok req →
      Emits (spendWasm req) t r → ComponentRun C R call t
  | dispatchAction {req t r} : call.function = .dispatchAction →
      requestOf "dispatch_action" R.dispatchAction call.input = .ok req →
      Emits (dispatchActionWasm C req) t r → ComponentRun C R call t
  | executeAction {req t r} : call.function = .executeAction →
      requestOf "execute_action" R.executeAction call.input = .ok req →
      Emits (executeActionWasm C req) t r → ComponentRun C R call t

/-- A function of the component: its request is read first, and what it returns is wrapped. -/
theorem emits_request_bind {α β γ : Type} {x : Except Fault α} {p : α → Guest β} {g : β → γ}
    {t : List HostEvent} {r : Except Fault γ}
    (h : Emits (Prog.ofExcept x >>= fun req => p req >>= fun out => pure (g out)) t r) :
    t = [] ∨ ∃ req r', x = .ok req ∧ Emits (p req) t r' := by
  rcases emits_ofExcept_bind.mp h with ⟨_, _, ht, _⟩ | ⟨req, hx, h⟩
  · exact .inl ht
  · obtain ⟨r', h, _⟩ := emits_bind_pure.mp h
    exact .inr ⟨req, r', hx, h⟩

theorem componentRun_of_emits {C : Crates} {R : Requests} {call : ComponentCall}
    {t : List HostEvent} {r : Except Fault ComponentOut} (h : Emits (component C R call) t r) :
    ComponentRun C R call t := by
  unfold component at h
  split at h
  all_goals
    rename_i hf
    rcases emits_request_bind h with rfl | ⟨req, r', hreq, h⟩
  · exact .refused
  · exact .evaluate hf hreq h
  · exact .refused
  · exact .spend hf hreq h
  · exact .refused
  · exact .dispatchAction hf hreq h
  · exact .refused
  · exact .executeAction hf hreq h

theorem emits_dispatchActionWasm {C : Crates} {req : DispatchReq} {t : List HostEvent}
    {r : Except Fault Json.Value} (h : Emits (dispatchActionWasm C req) t r) :
    ∃ x l, t = ⟨.httpCall (dispatchRequest req), x⟩ :: l ∧ Logs l := by
  unfold dispatchActionWasm callHttp at h
  rw [bind_assoc, emits_perform_bind] at h
  obtain ⟨x, l, rfl, h⟩ := h
  rw [pure_bind] at h
  exact ⟨x, l, rfl, (emits_logInfo_pure h).1⟩

/-- Only two exports have a call that leaves the enclave. -/
theorem MayCall.outbound {tidHex : String} {f : Export} {op : HostOp}
    (h : MayCall tidHex f op) (ho : op.outbound ≠ none) :
    f = .dispatchAction ∨ f = .executeAction := by
  cases op with
  | httpCall request => cases f <;> simp_all [MayCall]
  | hwpCall request => cases f <;> simp_all [MayCall]
  | _ => exact absurd rfl ho

/-- An invocation that may write a map is `spend` on the totals or `execute_action` on the
dispatch records. -/
theorem MayCall.put {tidHex mapName : String} {f : Export} {key value : Bytes}
    (h : MayCall tidHex f (.kvPut mapName key value)) :
    (f = .spend ∧ mapName = spentMap tidHex) ∨
      (f = .executeAction ∧ mapName = dispatchedMap tidHex) := by
  cases f with
  | evaluate => exact h.elim
  | spend => exact .inl ⟨rfl, h⟩
  | dispatchAction => exact h.elim
  | executeAction => exact .inr ⟨rfl, h⟩

theorem ComponentRun.one_call {C : Crates} {R : Requests} {call : ComponentCall}
    {t : List HostEvent} (h : ComponentRun C R call t) : (outboundCalls t).length ≤ 1 := by
  have hsilent : ∀ {α : Type} {p : Guest α} {r : Except Fault α} {f : Export}, Confined f p →
      Emits p t r → f = .evaluate ∨ f = .spend → (outboundCalls t).length ≤ 1 := by
    intro α p r f hp hemits hf
    obtain ⟨tid, hmay, -⟩ := hp.of_steps hemits
    rw [outboundCalls, List.filterMap_eq_nil_iff.mpr]
    · exact Nat.zero_le 1
    · intro e he
      by_contra ho
      rcases (hmay e he).outbound ho with rfl | rfl <;> simp at hf
  cases h with
  | refused => exact Nat.zero_le 1
  | @evaluate req t r _ _ hemits => exact hsilent (confined_evaluateWasm C req) hemits (.inl rfl)
  | @spend req t r _ _ hemits => exact hsilent (confined_spendWasm req) hemits (.inr rfl)
  | dispatchAction _ _ hemits =>
    obtain ⟨x, l, rfl, hl⟩ := emits_dispatchActionWasm hemits
    rw [outboundCalls_cons, hl.outboundCalls]
    exact le_refl 1
  | executeAction _ _ hemits => exact one_call_of_emits hemits

/-- Only writes change the maps. -/
def ChangesByPut (H : HostRel HostOp HostOp.Res Kv) : Prop :=
  ∀ op s x s' mapName key, H op s x s' → s' mapName key ≠ s mapName key →
    ∃ value, op = .kvPut mapName key value

theorem changesByPut_kvHost (tid : Bytes) : ChangesByPut (kvHost tid) := by
  intro op s x s' mapName key h hne
  cases hop : op.written with
  | none =>
    rw [kvHost_of_not_written h hop] at hne
    exact absurd rfl hne
  | some entry =>
    cases op with
    | kvPut m k value =>
      rcases h with rfl | ⟨rfl, -⟩
      · by_cases heq : mapName = m ∧ key = k
        · obtain ⟨rfl, rfl⟩ := heq
          exact ⟨value, rfl⟩
        · exact absurd (if_neg heq) hne
      · exact absurd rfl hne
    | _ => cases hop

/-! ## Any number of calls at the same time -/

section Pool

variable {ι σ : Type} [DecidableEq ι] {C : Crates} {R : Requests} {calls : ι → ComponentCall}
  {H : HostRel HostOp HostOp.Res σ} {env : σ → σ → Prop} {s s' : σ}
  {tr : List (ι × HostEvent)} {ps' : ι → Guest ComponentOut} {i j : ι}

/-- The calls of the component, all started and none yet run. -/
def invoked (C : Crates) (R : Requests) (calls : ι → ComponentCall) : ι → Guest ComponentOut :=
  fun i => component C R (calls i)

/-- An invocation of a pool does what its export may do for one tenant, the one it was answered
if it names any map. -/
theorem pool_may_call (h : Pool H env (invoked C R calls) s tr ps' s') (i : ι) :
    ∃ tid, (∀ e, (i, e) ∈ tr → MayCall (hexEncode tid) (calls i).function e.op) ∧
      ∀ e, (i, e) ∈ tr → e.op.mapName ≠ none → (i, (⟨.tenantDid, tid⟩ : HostEvent)) ∈ tr := by
  obtain ⟨tid, hmay, hasked⟩ := (confined_component C R (calls i)).of_steps (h.steps_proj i)
  refine ⟨tid, fun e he => hmay e (mem_proj.mpr he), fun e he hmap => ?_⟩
  exact mem_proj.mp (hasked ⟨e, mem_proj.mpr he, hmap⟩)

/-- An invocation of a pool that has not finished is the beginning of a complete run. -/
theorem pool_componentRun (h : Pool H env (invoked C R calls) s tr ps' s') (i : ι) :
    ∃ t, ComponentRun C R (calls i) (proj i tr ++ t) := by
  obtain ⟨t, r, hemits⟩ := exists_emits_of_steps anyAnswer (h.steps_proj i)
  exact ⟨t, componentRun_of_emits hemits⟩

theorem pool_component_one_call (h : Pool H env (invoked C R calls) s tr ps' s') (i : ι) :
    (outboundCalls (proj i tr)).length ≤ 1 := by
  obtain ⟨t, hrun⟩ := pool_componentRun h i
  have hone := hrun.one_call
  rw [outboundCalls_append, List.length_append] at hone
  omega

/-- Whatever bytes the component is called with, however its calls interleave and whatever the
host answers: each call does what its export may do for one tenant and calls out at most once,
the tenant is the one named to the call wherever it names a map, and two calls that name one map
were made for the same tenant. -/
theorem component_confined (h : Pool H env (invoked C R calls) s tr ps' s') :
    (∀ i, (outboundCalls (proj i tr)).length ≤ 1 ∧
      ∃ tid, (∀ e, (i, e) ∈ tr → MayCall (hexEncode tid) (calls i).function e.op) ∧
        ∀ e mapName, (i, e) ∈ tr → e.op.mapName = some mapName →
          (i, (⟨.tenantDid, tid⟩ : HostEvent)) ∈ tr) ∧
    ∀ i j e e' mapName, (i, e) ∈ tr → (j, e') ∈ tr → e.op.mapName = some mapName →
      e'.op.mapName = some mapName → ∃ tid, (i, (⟨.tenantDid, tid⟩ : HostEvent)) ∈ tr ∧
        (j, (⟨.tenantDid, tid⟩ : HostEvent)) ∈ tr := by
  constructor
  · intro i
    obtain ⟨tid, hmay, hasked⟩ := pool_may_call h i
    refine ⟨pool_component_one_call h i, tid, hmay, ?_⟩
    intro e mapName he hmap
    refine hasked e he ?_
    rw [hmap]
    exact Option.some_ne_none mapName
  · intro i j e e' mapName he he' hmap hmap'
    obtain ⟨tid, hmay, hasked⟩ := pool_may_call h i
    obtain ⟨tid', hmay', hasked'⟩ := pool_may_call h j
    obtain rfl : tid = tid' :=
      tenant_unique ((hmay e he).mem_tenantMaps hmap) ((hmay' e' he').mem_tenantMaps hmap')
    refine ⟨tid, hasked e he ?_, hasked' e' he' ?_⟩
    · rw [hmap]
      exact Option.some_ne_none mapName
    · rw [hmap']
      exact Option.some_ne_none mapName

/-- What the environment leaves alone changes by the hand of a call that may write it: the
totals by `spend`, the dispatch records by `execute_action`, each of the tenant it was made
for. Mandates and secrets change by no call. -/
theorem component_changes {H : HostRel HostOp HostOp.Res Kv} {env : Kv → Kv → Prop} {s s' : Kv}
    {mapName : String} {key : Bytes} (hH : ChangesByPut H)
    (henv : ∀ s s', env s s' → s' mapName key = s mapName key)
    (h : Pool H env (invoked C R calls) s tr ps' s') (hne : s' mapName key ≠ s mapName key) :
    ∃ i tid value x, (i, (⟨.kvPut mapName key value, x⟩ : HostEvent)) ∈ tr ∧
      (i, (⟨.tenantDid, tid⟩ : HostEvent)) ∈ tr ∧
      (((calls i).function = .spend ∧ mapName = spentMap (hexEncode tid)) ∨
        ((calls i).function = .executeAction ∧ mapName = dispatchedMap (hexEncode tid))) := by
  have hwrite : ∃ e ∈ tr, ∃ value, e.2.op = .kvPut mapName key value := by
    by_contra hnone
    refine hne (h.invariant (I := fun u => u mapName key = s mapName key) ?_ ?_ rfl)
    · intro s₁ s₂ hstep hI
      exact (henv _ _ hstep).trans hI
    · intro e he s₁ s₂ hstep hI
      by_contra hchange
      exact hnone ⟨e, he, hH _ _ _ _ _ _ hstep fun heq => hchange (heq.trans hI)⟩
  obtain ⟨⟨i, op, x⟩, he, value, hop⟩ := hwrite
  obtain rfl : op = .kvPut mapName key value := hop
  obtain ⟨tid, hmay, hasked⟩ := pool_may_call h i
  exact ⟨i, tid, value, x, he, hasked _ he (Option.some_ne_none _), (hmay _ he).put⟩

end Pool

/-! ### An order and a spend at the same time -/

def openMandateJson : String :=
  "\x7b\"max_amount_cents\":5000,\"allowed_assets\":[\"USDC\"],\"allowed_kinds\":[\"trade\"]," ++
    "\"allowed_counterparties\":[\"fund\"],\"allowed_issuers\":[\"did:web:kyc\"]," ++
    "\"counterparty_limits\":\x7b\"fund\":2500\x7d,\"credential_key\":\"broker\"\x7d"

/-- A mandate that asks for no binding. -/
def openMandate : Mandate := { sampleMandate with requireCredential := false }

def openCrates : Crates := cratesWith [(utf8 openMandateJson, openMandate)]

def openKv : Kv := fun mapName _ =>
  if mapName = mandateMap "ab" then some (utf8 openMandateJson)
  else if mapName = secretsMap "ab" then some (utf8 "s3cret")
  else none

def sampleActionJson : String :=
  "\x7b\"kind\":\"trade\",\"asset\":\"USDC\",\"amount_cents\":100,\"counterparty\":\"fund\"," ++
    "\"issuer\":\"did:web:kyc\"\x7d"

def sampleOrderJson : String :=
  "\x7b\"action\":" ++ sampleActionJson ++ ",\"url\":\"https://broker.example/orders\"," ++
    "\"method\":\"post\",\"body\":\"buy 1\"\x7d"

def sampleOrder : ExecuteReq := { sampleReq with credential := none, idempotencyKey := none }

def sampleSpendJson : String :=
  "\x7b\"action\":" ++ sampleActionJson ++ ",\"daily_limit_cents\":500,\"window\":\"d0\"\x7d"

/-- What is read of these two texts. -/
def sampleRequests : Requests where
  evaluate := fun _ => .error "missing field `action` at line 1 column 2"
  spend := fun input =>
    if input = utf8 sampleSpendJson then .ok (sampleSpend 100 500)
    else .error "missing field `daily_limit_cents` at line 1 column 2"
  dispatchAction := fun _ => .error "missing field `url` at line 1 column 2"
  executeAction := fun input =>
    if input = utf8 sampleOrderJson then .ok sampleOrder
    else .error "missing field `url` at line 1 column 2"

def sampleCalls : Bool → ComponentCall
  | false => ⟨.executeAction, some (utf8 sampleOrderJson)⟩
  | true => ⟨.spend, some (utf8 sampleSpendJson)⟩

/-- Both calls against the tenant's host, in the order of the schedule. -/
def sampleRace (schedule : List Bool) :
    List (Bool × HostEvent) × (Bool → Guest ComponentOut) × Kv :=
  runPool sampleHost schedule (invoked openCrates sampleRequests sampleCalls) openKv

theorem pool_sampleRace (schedule : List Bool) : Pool (kvHost sampleTid) (fun _ _ => False)
    (invoked openCrates sampleRequests sampleCalls) openKv (sampleRace schedule).1
    (sampleRace schedule).2.1 (sampleRace schedule).2.2 :=
  pool_runPool kvHost_sampleHost _ _ _ _

/-- The spend runs while the order is being made. -/
def raceSchedule : List Bool :=
  [false, false, false, true, true, true, false, false, true, true, false]

theorem component_confined_sample :
    (outboundCalls (proj false (sampleRace raceSchedule).1)).length ≤ 1 ∧
    ∃ tid, (∀ e, (true, e) ∈ (sampleRace raceSchedule).1 →
        MayCall (hexEncode tid) .spend e.op) ∧
      ∀ e mapName, (true, e) ∈ (sampleRace raceSchedule).1 → e.op.mapName = some mapName →
        (true, (⟨.tenantDid, tid⟩ : HostEvent)) ∈ (sampleRace raceSchedule).1 := by
  have h := component_confined (pool_sampleRace raceSchedule)
  exact ⟨(h.1 false).1, (h.1 true).2⟩

theorem sampleRace_changes : (sampleRace raceSchedule).2.2 (spentMap "ab") (utf8 "d19675") ≠
    openKv (spentMap "ab") (utf8 "d19675") := by
  decide +kernel

theorem component_changes_sample : ∃ i tid,
    (i, (⟨.tenantDid, tid⟩ : HostEvent)) ∈ (sampleRace raceSchedule).1 ∧
      (sampleCalls i).function = .spend := by
  obtain ⟨i, tid, value, x, -, htid, ⟨hf, -⟩ | ⟨-, hmap⟩⟩ :=
    component_changes (changesByPut_kvHost _) (fun _ _ h => h.elim) (pool_sampleRace raceSchedule)
      sampleRace_changes
  · exact ⟨i, tid, htid, hf⟩
  · exact absurd hmap.symm (dispatchedMap_ne_spentMap _ _)

end Gatekeeper.Gate

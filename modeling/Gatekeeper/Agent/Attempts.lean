import Mathlib.Tactic.Ring
import Gatekeeper.Gate.Sessions

/-!
# `executeContract`

The retry loop in front of the contract: a call that the node refuses for its fuel quota is
made again after a wait, any other answer is final. An attempt may have reached the enclave
although its answer was lost, so the loop is followed together with the enclave's session.
-/

namespace Gatekeeper.Agent

open Encoding Interaction Gate Text

/-! ## The loop -/

/-- What an attempt throws, by the text `String(e?.message ?? e)`. -/
structure Thrown where
  message : String
deriving DecidableEq

/-- What `executeContract` does to the world. -/
inductive AttemptOp where
  | execute
  | log (message : String)
  | sleep (ms : ℕ)
deriving DecidableEq

@[reducible] def AttemptOp.Res (α : Type) : AttemptOp → Type
  | execute => Except Thrown α
  | log _ => Unit
  | sleep _ => Unit

/-- A helper of `lib.mjs` while it runs. -/
abbrev Attempting (α : Type) : Type := Prog AttemptOp (AttemptOp.Res α) Thrown α

abbrev AttemptEvent (α : Type) : Type := Event AttemptOp (AttemptOp.Res α)

/-- `/fuel_per_minute|quota exceeded/i.test(msg)`. -/
def isQuotaError (msg : String) : Bool :=
  contains (toAsciiUppercase msg) "FUEL_PER_MINUTE" ||
    contains (toAsciiUppercase msg) "QUOTA EXCEEDED"

def waitMs (attempt : ℕ) : ℕ := 20_000 * (attempt + 1)

def quotaMessage (retries attempt : ℕ) : String :=
  s!"       node fuel quota reached (10 executes/minute) — waiting {waitMs attempt / 1000}s, " ++
    s!"attempt {attempt + 1}/{retries}"

variable {α : Type}

/-- The loop from one attempt on. -/
def attemptFrom (retries attempt : ℕ) : Attempting α :=
  .call .execute fun answer =>
    match answer with
    | .ok out => pure out
    | .error e =>
      if h : isQuotaError e.message = false ∨ retries ≤ attempt then Prog.fail e
      else .call (.log (quotaMessage retries attempt)) fun _ =>
        .call (.sleep (waitMs attempt)) fun _ => attemptFrom retries (attempt + 1)
termination_by retries - attempt
decreasing_by omega

def executeContract (retries : ℕ) : Attempting α := attemptFrom retries 0

/-! ## Its runs -/

/-- The runs of the loop from one attempt on. -/
inductive Attempts (retries : ℕ) : ℕ → List (AttemptEvent α) → Except Thrown α → Prop where
  | answered {attempt : ℕ} {out : α} :
      Attempts retries attempt [⟨.execute, .ok out⟩] (.ok out)
  | thrown {attempt : ℕ} {e : Thrown} : isQuotaError e.message = false ∨ retries ≤ attempt →
      Attempts retries attempt [⟨.execute, .error e⟩] (.error e)
  | again {attempt : ℕ} {e : Thrown} {t : List (AttemptEvent α)} {r : Except Thrown α} :
      isQuotaError e.message = true → attempt < retries → Attempts retries (attempt + 1) t r →
      Attempts retries attempt (⟨.execute, .error e⟩ :: ⟨.log (quotaMessage retries attempt), ()⟩ ::
        ⟨.sleep (waitMs attempt), ()⟩ :: t) r

/-- One attempt: it is answered, its failure is thrown, or the next one follows. -/
theorem emits_attempt {retries attempt : ℕ} {t : List (AttemptEvent α)} {r : Except Thrown α}
    (h : Emits (attemptFrom retries attempt) t r) :
    (∃ out, t = [⟨.execute, .ok out⟩] ∧ r = .ok out) ∨
    (∃ e, (isQuotaError e.message = false ∨ retries ≤ attempt) ∧
      t = [⟨.execute, .error e⟩] ∧ r = .error e) ∨
    ∃ e t', isQuotaError e.message = true ∧ attempt < retries ∧
      t = ⟨.execute, .error e⟩ :: ⟨.log (quotaMessage retries attempt), ()⟩ ::
        ⟨.sleep (waitMs attempt), ()⟩ :: t' ∧ Emits (attemptFrom retries (attempt + 1)) t' r := by
  rw [attemptFrom] at h
  obtain ⟨answer, t₁, rfl, hrest⟩ := emits_call.mp h
  cases answer with
  | ok out =>
    obtain ⟨rfl, rfl⟩ := emits_pure.mp hrest
    exact .inl ⟨out, rfl, rfl⟩
  | error e =>
    dsimp only at hrest
    split at hrest
    · rename_i hstop
      obtain ⟨rfl, rfl⟩ := emits_fail.mp hrest
      exact .inr (.inl ⟨e, hstop, rfl, rfl⟩)
    · rename_i hgo
      rw [not_or, Bool.not_eq_false, not_le] at hgo
      obtain ⟨_, t₂, rfl, hlogged⟩ := emits_call.mp hrest
      obtain ⟨_, t₃, rfl, hslept⟩ := emits_call.mp hlogged
      exact .inr (.inr ⟨e, t₃, hgo.1, hgo.2, rfl, hslept⟩)

theorem attempts_of_emits {retries attempt : ℕ} {t : List (AttemptEvent α)} {r : Except Thrown α}
    (h : Emits (attemptFrom retries attempt) t r) : Attempts retries attempt t r := by
  -- by the number of attempts that are left
  induction hn : retries - attempt generalizing attempt t with
  | zero =>
    rcases emits_attempt h with ⟨out, rfl, rfl⟩ | ⟨e, hstop, rfl, rfl⟩ | ⟨e, t', -, hlt, -, -⟩
    · exact .answered
    · exact .thrown hstop
    · omega
  | succ n ih =>
    rcases emits_attempt h with
      ⟨out, rfl, rfl⟩ | ⟨e, hstop, rfl, rfl⟩ | ⟨e, t', hquota, hlt, rfl, hnext⟩
    · exact .answered
    · exact .thrown hstop
    · exact .again hquota hlt (ih hnext (by omega))

theorem emits_of_attempts {retries attempt : ℕ} {t : List (AttemptEvent α)} {r : Except Thrown α}
    (h : Attempts retries attempt t r) : Emits (attemptFrom retries attempt) t r := by
  induction h with
  | answered =>
    rw [attemptFrom]
    exact emits_call.mpr ⟨_, [], rfl, emits_pure.mpr ⟨rfl, rfl⟩⟩
  | thrown hstop =>
    rw [attemptFrom]
    refine emits_call.mpr ⟨_, [], rfl, ?_⟩
    dsimp only
    rw [dif_pos hstop]
    exact emits_fail.mpr ⟨rfl, rfl⟩
  | @again attempt e t r hquota hlt _ ih =>
    rw [attemptFrom]
    refine emits_call.mpr ⟨_, _, rfl, ?_⟩
    dsimp only
    rw [dif_neg (by simp [hquota, hlt])]
    exact emits_call.mpr ⟨(), _, rfl, emits_call.mpr ⟨(), _, rfl, ih⟩⟩

/-- How often the contract was called. -/
def executes (t : List (AttemptEvent α)) : ℕ := t.countP fun e => e.op = .execute

/-- How long the loop slept, in milliseconds. -/
def slept (t : List (AttemptEvent α)) : ℕ :=
  (t.map fun e => match e.op with | .sleep ms => ms | _ => 0).sum

theorem slept_cons (e : AttemptEvent α) (t : List (AttemptEvent α)) :
    slept (e :: t) = (match e.op with | .sleep ms => ms | _ => 0) + slept t := rfl

/-- The loop has a bounded number of attempts, and its waits add up to a bounded time. -/
theorem Attempts.bounds {retries attempt : ℕ} {t : List (AttemptEvent α)} {r : Except Thrown α}
    (h : Attempts retries attempt t r) (hle : attempt ≤ retries) :
    executes t ≤ retries - attempt + 1 ∧
      slept t + 10_000 * (attempt * (attempt + 1)) ≤ 10_000 * (retries * (retries + 1)) := by
  have hmono : attempt * (attempt + 1) ≤ retries * (retries + 1) :=
    Nat.mul_le_mul hle (Nat.add_le_add_right hle 1)
  induction h with
  | answered =>
    refine ⟨by simp [executes], ?_⟩
    show 0 + _ ≤ _
    omega
  | thrown =>
    refine ⟨by simp [executes], ?_⟩
    show 0 + _ ≤ _
    omega
  | @again attempt e t r _ hlt _ ih =>
    obtain ⟨hcount, htime⟩ := ih hlt (Nat.mul_le_mul hlt (Nat.add_le_add_right hlt 1))
    constructor
    · have hcons : executes (⟨.execute, .error e⟩ :: ⟨.log (quotaMessage retries attempt), ()⟩ ::
          ⟨.sleep (waitMs attempt), ()⟩ :: t) = executes t + 1 := by
        simp [executes]
      omega
    · have hstep : (attempt + 1) * (attempt + 1 + 1) =
          attempt * (attempt + 1) + 2 * (attempt + 1) := by ring
      rw [hstep] at htime
      simp only [slept_cons, waitMs]
      omega

/-! ## The node behind it -/

section Node

variable {C : Crates} {tid : Bytes} {req : ExecuteReq} {retries attempt : ℕ}
  {t : List (AttemptEvent ExecuteOut)} {r : Except Thrown ExecuteOut}
  {u u' : Kv × List ExecuteInvocation} {k : String}

/-- What the node does between two calls of this caller: any invocations of others. -/
def Meanwhile (C : Crates) (tid : Bytes) (u u' : Kv × List ExecuteInvocation) : Prop :=
  ∃ is, u'.2 = u.2 ++ is ∧ Session (kvHost tid) (AdminStep tid) (executeActionWasm C) u.1 is u'.1

/-- The node, with the history of the enclave. A call is refused, or the enclave runs it to its
end; and then the answer may still be lost, with an error of any text in its place. -/
def node (C : Crates) (tid : Bytes) (req : ExecuteReq) :
    HostRel AttemptOp (AttemptOp.Res ExecuteOut) (Kv × List ExecuteInvocation)
  | .execute, u, answer, u' =>
      (Meanwhile C tid u u' ∧ ∃ e, answer = .error e) ∨
      ∃ w i, Meanwhile C tid u w ∧ i.request = req ∧ u'.2 = w.2 ++ [i] ∧
        Session (kvHost tid) (AdminStep tid) (executeActionWasm C) w.1 [i] u'.1 ∧
        ∀ out, answer = .ok out → i.result = .ok out
  | .log _, u, _, u' => Meanwhile C tid u u'
  | .sleep _, u, _, u' => Meanwhile C tid u u'

theorem Meanwhile.trans {w : Kv × List ExecuteInvocation} (h₁ : Meanwhile C tid u w)
    (h₂ : Meanwhile C tid w u') : Meanwhile C tid u u' := by
  obtain ⟨is, his, hsession⟩ := h₁
  obtain ⟨js, hjs, hsession'⟩ := h₂
  exact ⟨is ++ js, by rw [hjs, his, List.append_assoc], hsession.append hsession'⟩

/-- Whatever the caller does, the enclave goes through a session. -/
theorem meanwhile_of_node {op : AttemptOp} {answer : op.Res ExecuteOut}
    (h : node C tid req op u answer u') : Meanwhile C tid u u' := by
  cases op with
  | execute =>
    rcases h with ⟨hmean, -⟩ | ⟨w, i, hmean, -, hhist, hsession, -⟩
    · exact hmean
    · exact hmean.trans ⟨[i], hhist, hsession⟩
  | log => exact h
  | sleep => exact h

theorem meanwhile_of_along (h : Along (node C tid req) u t u') : Meanwhile C tid u u' := by
  induction h with
  | nil => exact ⟨[], (List.append_nil _).symm, Session.nil _⟩
  | cons hstep _ ih => exact (meanwhile_of_node hstep).trans ih

/-- An answer the loop returns is what the enclave returned to its last attempt. -/
theorem Attempts.answer (h : Attempts retries attempt t r) (ha : Along (node C tid req) u t u')
    {out : ExecuteOut} (hr : r = .ok out) :
    ∃ w i, Meanwhile C tid u w ∧ i.request = req ∧ i.result = .ok out ∧ u'.2 = w.2 ++ [i] ∧
      Session (kvHost tid) (AdminStep tid) (executeActionWasm C) w.1 [i] u'.1 := by
  induction h generalizing u with
  | @answered attempt out' =>
    cases hr
    obtain ⟨u₁, hstep, hnil⟩ := along_cons.mp ha
    obtain rfl := along_nil.mp hnil
    rcases hstep with ⟨-, e, he⟩ | ⟨w, i, hmean, hreq, hhist, hsession, hout⟩
    · cases he
    · exact ⟨w, i, hmean, hreq, hout _ rfl, hhist, hsession⟩
  | thrown => cases hr
  | again _ _ _ ih =>
    obtain ⟨u₁, hexecute, ha⟩ := along_cons.mp ha
    obtain ⟨u₂, hlog, ha⟩ := along_cons.mp ha
    obtain ⟨u₃, hsleep, ha⟩ := along_cons.mp ha
    obtain ⟨w, i, hmean, hrest⟩ := ih ha hr
    exact ⟨w, i, ((meanwhile_of_node hexecute).trans (hlog.trans hsleep)).trans hmean, hrest⟩

/-- An order sent through the retry loop goes out at most once, whatever the node refuses,
whatever answers are lost on the way and whatever others do meanwhile; and an approval that the
loop returns carries the outcome of that one dispatch. The loop ends after a bounded number of
attempts and a bounded wait. -/
theorem retried_order_dispatched_once {s s' : Kv} {hist : List ExecuteInvocation}
    (hC : C.RoundTrips) (h : Emits (executeContract retries) t r)
    (ha : Along (node C tid req) (s, []) t (s', hist))
    (hrel : ∀ i ∈ hist, Reliable (dispatchedOf tid) i.trace)
    (hk : trimmedKey req.idempotencyKey = some k) :
    executes t ≤ retries + 1 ∧ slept t ≤ 10_000 * (retries * (retries + 1)) ∧
    ((hist.filter (UnderKey k)).flatMap fun i => outboundCalls i.trace).length ≤ 1 ∧
    ∀ out, r = .ok out → out.decision = "approved" → ∀ j ∈ hist, UnderKey k j →
      outboundCalls j.trace ≠ [] →
      ∃ first v, j.result = .ok first ∧ first.response = some v ∧ out.response = some v := by
  have hattempts : Attempts retries 0 t r := attempts_of_emits h
  obtain ⟨hcount, htime⟩ := hattempts.bounds (Nat.zero_le _)
  obtain ⟨is, hhist, hsession⟩ := meanwhile_of_along ha
  obtain rfl : hist = is := hhist
  refine ⟨by omega, by omega, length_outbound_le_one ?_ ?_, ?_⟩
  · intro i hi
    exact one_call_of_emits (hsession.emits_of_mem (List.mem_of_mem_filter hi))
  · rw [List.pairwise_filter]
    refine (session_pairwise_key hsession hrel).imp ?_
    intro i j hij hi hj
    exact hij k (of_decide_eq_true hi) (of_decide_eq_true hj)
  · intro out hr hdecision j hj hjk hcall
    obtain ⟨w, i, ⟨js, hw, -⟩, hreq, hout, hlast, -⟩ := hattempts.answer ha hr
    obtain ⟨l₁, l₂, rfl⟩ := List.append_of_mem hj
    obtain ⟨s₁, -, hafter⟩ := hsession.split
    have hrel' : ∀ m ∈ j :: l₂, Reliable (dispatchedOf tid) m.trace := fun m hm =>
      hrel m (List.mem_append_right _ hm)
    obtain ⟨first, o, hfirst, hresponse, hlater⟩ := session_after_dispatch hafter hrel' hjk hcall
    refine ⟨first, outcomeJson o, hfirst, hresponse, ?_⟩
    -- the answered attempt is the dispatch itself, or it came after it
    have hi : i ∈ j :: l₂ := by
      have hend : (j :: l₂).getLast? = some i := by
        have := congrArg List.getLast? hlast
        rwa [List.getLast?_append_of_ne_nil _ (List.cons_ne_nil _ _), List.getLast?_concat] at this
      exact List.mem_of_getLast? hend
    rcases List.mem_cons.mp hi with rfl | hi
    · rw [hfirst] at hout
      cases hout
      exact hresponse
    · have hik : UnderKey k i := by
        rw [UnderKey, hreq]
        exact hk
      rw [(hlater i hi hik).2.2 out hout hdecision, recorded_outcome hC o]
      rfl

end Node

/-! ### An order whose first answer is lost -/

def lostAnswer : Thrown := ⟨"quota exceeded (fuel_per_minute)"⟩

def hungUp : Thrown := ⟨"socket hang up"⟩

def placedOrder : ExecuteInvocation × Kv :=
  invoke sampleHost (executeActionWasm sampleCrates) sampleReq sampleKv

def retriedOrder : ExecuteInvocation × Kv :=
  invoke sampleHost (executeActionWasm sampleCrates) sampleReq placedOrder.2

/-- Both attempts reach the enclave, and both answers are lost. -/
def lostTrace : List (AttemptEvent ExecuteOut) :=
  [⟨.execute, .error lostAnswer⟩, ⟨.log (quotaMessage 3 0), ()⟩, ⟨.sleep (waitMs 0), ()⟩,
    ⟨.execute, .error hungUp⟩]

theorem emits_lostTrace : Emits (executeContract 3) lostTrace (.error hungUp) :=
  emits_of_attempts (.again (by decide) (by decide) (.thrown (.inl (by decide))))

theorem meanwhile_refl (C : Crates) (tid : Bytes) (u : Kv × List ExecuteInvocation) :
    Meanwhile C tid u u := ⟨[], (List.append_nil _).symm, Session.nil _⟩

theorem session_placedOrder : Session (kvHost sampleTid) (AdminStep sampleTid)
    (executeActionWasm sampleCrates) sampleKv [placedOrder.1] placedOrder.2 :=
  session_invoke kvHost_sampleHost _ _ sampleReq sampleKv

theorem session_retriedOrder : Session (kvHost sampleTid) (AdminStep sampleTid)
    (executeActionWasm sampleCrates) placedOrder.2 [retriedOrder.1] retriedOrder.2 :=
  session_invoke kvHost_sampleHost _ _ sampleReq placedOrder.2

/-- The enclave runs the call, and its answer is lost. -/
theorem node_lost {C : Crates} {tid : Bytes} {s s' : Kv} {hist : List ExecuteInvocation}
    {i : ExecuteInvocation} (e : Thrown)
    (h : Session (kvHost tid) (AdminStep tid) (executeActionWasm C) s [i] s') :
    node C tid i.request .execute (s, hist) (.error e) (s', hist ++ [i]) :=
  .inr ⟨(s, hist), i, meanwhile_refl C tid _, rfl, rfl, h, fun _ hout => by cases hout⟩

theorem along_lostTrace : Along (node sampleCrates sampleTid sampleReq) (sampleKv, []) lostTrace
    (retriedOrder.2, [placedOrder.1, retriedOrder.1]) :=
  .cons (node_lost lostAnswer session_placedOrder) (.cons (meanwhile_refl _ _ _)
    (.cons (meanwhile_refl _ _ _) (.cons (node_lost hungUp session_retriedOrder) (.nil _))))

theorem retried_order_dispatched_once_sample :
    (([placedOrder.1, retriedOrder.1].filter (UnderKey "k-1")).flatMap fun i =>
      outboundCalls i.trace).length ≤ 1 := by
  refine (retried_order_dispatched_once (roundTrips_cratesWith _) emits_lostTrace along_lostTrace
    ?_ (by decide)).2.2.1
  intro i hi
  rcases List.mem_cons.mp hi with rfl | hi
  · exact reliable_sampleHost fun _ he => res_of_mem_runFrom he
  · obtain rfl := List.mem_singleton.mp hi
    exact reliable_sampleHost fun _ he => res_of_mem_runFrom he

end Gatekeeper.Agent

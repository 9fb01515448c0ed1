import Mathlib.Logic.Function.Basic
import Gatekeeper.Lib.Machine
import Gatekeeper.Agent.SampleCaller

/-!
# Requests at the same time

`requireWebBotAuth` while other requests are under way. The handler of a request waits once, for the
key directory of the caller, which the resolver of `a2a-auth.mjs` fetches or has in its cache. The
ledger is asked after every other check, so a request that does not verify leaves no trace in it.
-/

namespace Gatekeeper.Agent.Interference

open Encoding Js Pattern ExpiringSet

variable (P : SigPlatform)

/-! ## The handler, before and after it waits -/

/-- What a request names before the directory is asked for. -/
structure Named where
  input : String
  signature : String
  origin : String
  keyid : String

def named (req : Incoming) : Except String Named :=
  match signatureHeaders req with
  | none => .error "request is not signed (web-bot-auth required)"
  | some (input, signature) =>
    match signatureAgentOrigin P (headerText req.signatureAgent) with
    | none =>
      .error "Signature-Agent must name the https origin that serves your key directory"
    | some origin =>
      match (sigParams input).bind (·.keyid) with
      | none => .error "signature names no keyid"
      | some keyid => .ok { input, signature, origin, keyid }

/-- The checks behind the directory and before the ledger. -/
def checked (S : AuthServer) (a : Arrival) (n : Named) : Except String Caller := do
  let key ← callerKey P a n.origin n.keyid
  if verifyRequest P { expectedKeyid := n.keyid, now := a.verifiedAt } key (toVerify a.req)
      n.input n.signature then
    if withinMaxAge S ((sigParams n.input).bind (·.created)) a.agedAt then
      return {
        origin := n.origin, keyid := n.keyid
        nonce := (sigParams n.input).bind (·.nonce)
        expires := (sigParams n.input).bind (·.expires) }
    else
      throw (s!"signature is older than this server accepts ({S.maxAgeText}s from " ++
        "created)")
  else
    throw "signature does not verify (method, authority, path, body digest, or expiry)"

/-- What the handler does until it waits: it is done, or it waits for a directory. -/
def start (S : AuthServer) (req : Incoming) : Outcome ⊕ Named :=
  if S.skip req then .inl .skipped
  else
    match named P req with
    | .error reason => .inl (.refused reason)
    | .ok n => .inr n

/-- What it does with the answer. -/
def finish (S : AuthServer) (ledger : Ledger) (a : Arrival) (n : Named) : Outcome × Ledger :=
  match checked P S a n with
  | .error reason => (.refused reason, ledger)
  | .ok c =>
    let (isNew, ledger') := admitKey ledger (visitOf a c)
    if isNew then (.accepted c.origin c.keyid, ledger')
    else (.refused "nonce already used — replay refused", ledger')

/-! ## The directories -/

structure Response where
  ok : Bool
  status : ℕ
  /-- `await res.json()`. -/
  json : Except Error Value

/-- What a resolver is set up with. What is fetched does not change. -/
structure Directories where
  fetchImpl : String → Except Error Response
  /-- `age < ttlMs`. -/
  isFresh : ℤ → Bool

def fetchDirectory (D : Directories) (origin : String) : Except Error Value := do
  let res ← D.fetchImpl (origin ++ directoryPath)
  if res.ok then res.json
  else throw (.error s!"key directory {origin}: HTTP {res.status}")

/-- A directory with the time it was stored at. -/
structure Stored where
  time : ℕ
  directory : Value

abbrev Cache : Type := String → Option Stored

/-- What the resolver has in its cache. -/
def cached (D : Directories) (cache : Cache) (origin : String) (now : ℕ) : Option Value :=
  (cache origin).bind fun hit =>
    if D.isFresh ((now : ℤ) - hit.time) then some hit.directory else none

/-- The cache after a fetch. A failure is not stored. -/
def store (cache : Cache) (origin : String) (now : ℕ) (answer : Except Error Value) : Cache :=
  match answer with
  | .ok directory => Function.update cache origin (some { time := now, directory })
  | .error _ => cache

/-! ## The server -/

/-- A handler that waits, with the answer of the resolver once it is there. -/
structure Waiting where
  named : Named
  answer : Option (Except Error Value)

/-- The state of one instance. -/
structure Server (ι : Type) where
  cache : Cache
  ledger : Ledger
  waiting : ι → Option Waiting

def Server.setWaiting {ι : Type} [DecidableEq ι] (s : Server ι) (i : ι) (w : Option Waiting) :
    Server ι :=
  { s with waiting := Function.update s.waiting i w }

theorem Server.setWaiting_self {ι : Type} [DecidableEq ι] (s : Server ι) (i : ι)
    (w : Option Waiting) : (s.setWaiting i w).waiting i = w := Function.update_self _ _ _

theorem Server.setWaiting_of_ne {ι : Type} [DecidableEq ι] (s : Server ι) {i j : ι} (h : j ≠ i)
    (w : Option Waiting) : (s.setWaiting i w).waiting j = s.waiting j := Function.update_of_ne h _ _

def Server.initial {ι : Type} : Server ι where
  cache := fun _ => none
  ledger := []
  waiting := fun _ => none

/-- What happens: a request arrives, a fetch for it ends, or its handler goes on with the answer,
all with the clock as it is read there. -/
inductive Event (ι : Type) where
  | arrive (i : ι) (now : ℕ)
  | fetched (i : ι) (now : ℕ)
  | resume (i : ι) (verifiedAt agedAt admittedAt : ℕ)

variable {ι : Type}

def Event.request : Event ι → ι
  | .arrive i _ => i
  | .fetched i _ => i
  | .resume i _ _ _ => i

def Event.isFetch : Event ι → Bool
  | .fetched _ _ => true
  | _ => false

variable [DecidableEq ι] (S : AuthServer) (D : Directories) (requests : ι → Incoming)

/-- One event. What is put out is what becomes of a request. -/
def step (s : Server ι) : Event ι → Option (Server ι × List (ι × Outcome))
  | .arrive i now =>
    match s.waiting i, start P S (requests i) with
    | some _, _ => none
    | none, .inl outcome => some (s, [(i, outcome)])
    | none, .inr n =>
      let answer := (cached D s.cache n.origin now).map Except.ok
      some (s.setWaiting i (some ⟨n, answer⟩), [])
  | .fetched i now =>
    match s.waiting i with
    | some ⟨n, none⟩ =>
      let answer := fetchDirectory D n.origin
      let s := { s with cache := store s.cache n.origin now answer }
      some (s.setWaiting i (some ⟨n, some answer⟩), [])
    | _ => none
  | .resume i verifiedAt agedAt admittedAt =>
    match s.waiting i with
    | some ⟨n, some answer⟩ =>
      let a : Arrival := ⟨requests i, fun _ => answer, verifiedAt, agedAt, admittedAt⟩
      let (outcome, ledger) := finish P S s.ledger a n
      some ({ s with ledger }.setWaiting i none, [(i, outcome)])
    | _ => none

/-! ## A server without a cache -/

/-- A server whose directories are there at once. -/
structure Direct (ι : Type) where
  ledger : Ledger
  waiting : ι → Option Named

def Direct.initial : Direct ι where
  ledger := []
  waiting := fun _ => none

def directStep (t : Direct ι) : Event ι → Option (Direct ι × List (ι × Outcome))
  | .arrive i _ =>
    match t.waiting i, start P S (requests i) with
    | some _, _ => none
    | none, .inl outcome => some (t, [(i, outcome)])
    | none, .inr n => some ({ t with waiting := Function.update t.waiting i (some n) }, [])
  | .fetched _ _ => none
  | .resume i verifiedAt agedAt admittedAt =>
    match t.waiting i with
    | some n =>
      let a : Arrival := ⟨requests i, fetchDirectory D, verifiedAt, agedAt, admittedAt⟩
      let (outcome, ledger) := finish P S t.ledger a n
      some ({ ledger, waiting := Function.update t.waiting i none }, [(i, outcome)])
    | none => none

/-! ## The two parts are the handler -/

variable {P S D requests}

theorem vet_eq (a : Arrival) : vet P S a = named P a.req >>= checked P S a := by
  unfold vet named
  cases signatureHeaders a.req with
  | none => rfl
  | some pair =>
    obtain ⟨input, signature⟩ := pair
    dsimp only
    cases signatureAgentOrigin P (headerText a.req.signatureAgent) with
    | none => rfl
    | some origin =>
      dsimp only
      cases (sigParams input).bind (·.keyid) with
      | none => rfl
      | some keyid => rfl

/-- A handler that is done without waiting does what the whole handler does. -/
theorem webBotAuth_of_done {a : Arrival} {o : Outcome} (h : start P S a.req = .inl o)
    (ledger : Ledger) : webBotAuth P S ledger a = (o, ledger) := by
  rw [start] at h
  rw [webBotAuth]
  split_ifs at h ⊢ with hskip
  · rw [Sum.inl.inj h]
  · cases hnamed : named P a.req with
    | error reason =>
      rw [hnamed] at h
      have hvet : vet P S a = .error reason := by rw [vet_eq, hnamed]; rfl
      rw [hvet, ← Sum.inl.inj h]
    | ok n =>
      rw [hnamed] at h
      cases h

theorem start_eq_inr {req : Incoming} {n : Named} (h : start P S req = .inr n) :
    S.skip req = false ∧ named P req = .ok n := by
  rw [start] at h
  split_ifs at h with hskip
  rw [Bool.not_eq_true] at hskip
  cases hnamed : named P req with
  | error reason =>
    rw [hnamed] at h
    cases h
  | ok m =>
    rw [hnamed] at h
    rw [Sum.inr.inj h]
    exact ⟨hskip, rfl⟩

/-- The two parts of a handler that waits are the whole handler. -/
theorem webBotAuth_of_waits {a : Arrival} {n : Named} (h : start P S a.req = .inr n)
    (ledger : Ledger) : webBotAuth P S ledger a = finish P S ledger a n := by
  obtain ⟨hskip, hnamed⟩ := start_eq_inr h
  have hvet : vet P S a = checked P S a n := by
    rw [vet_eq, hnamed]
    rfl
  rw [webBotAuth, hskip, hvet, finish]
  rfl

/-- The answer for the origin that is named is all that counts. -/
theorem finish_congr {ledger : Ledger} {n : Named} {req : Incoming}
    {resolve resolve' : String → Except Error Value} (h : resolve n.origin = resolve' n.origin)
    (v a m : ℕ) :
    finish P S ledger ⟨req, resolve, v, a, m⟩ n = finish P S ledger ⟨req, resolve', v, a, m⟩ n := by
  have hkey : callerKey P ⟨req, resolve, v, a, m⟩ n.origin n.keyid =
      callerKey P ⟨req, resolve', v, a, m⟩ n.origin n.keyid := by
    simp only [callerKey, h]
  have hchecked : checked P S ⟨req, resolve, v, a, m⟩ n =
      checked P S ⟨req, resolve', v, a, m⟩ n := by
    rw [checked, checked, hkey]
  rw [finish, finish, hchecked]
  rfl

/-- A request that is refused by a check before the ledger leaves the ledger as it is. -/
theorem finish_of_refused {a : Arrival} {n : Named} (h : start P S a.req = .inr n)
    {reason : String} (hvet : vet P S a = .error reason) (ledger : Ledger) :
    finish P S ledger a n = (.refused reason, ledger) := by
  rw [← webBotAuth_of_waits h, webBotAuth, (start_eq_inr h).1, hvet]
  rfl

/-! ## What an event does -/

section Steps

variable {s s' : Server ι} {t t' : Direct ι} {i : ι} {o : Outcome} {n : Named} {now v a m : ℕ}
  {answer : Except Error Value} {out : List (ι × Outcome)}

theorem step_of_done (hwaiting : s.waiting i = none) (hstart : start P S (requests i) = .inl o) :
    step P S D requests s (.arrive i now) = some (s, [(i, o)]) := by
  rw [step, hwaiting, hstart]

theorem step_of_waits (hwaiting : s.waiting i = none)
    (hstart : start P S (requests i) = .inr n) :
    step P S D requests s (.arrive i now) =
      some (s.setWaiting i (some ⟨n, (cached D s.cache n.origin now).map Except.ok⟩), []) := by
  rw [step, hwaiting, hstart]

theorem step_of_fetched (hwaiting : s.waiting i = some ⟨n, none⟩) :
    step P S D requests s (.fetched i now) =
      some ({ s with cache := store s.cache n.origin now (fetchDirectory D n.origin) }.setWaiting i
        (some ⟨n, some (fetchDirectory D n.origin)⟩), []) := by
  rw [step, hwaiting]

theorem step_of_resume (hwaiting : s.waiting i = some ⟨n, some answer⟩) :
    step P S D requests s (.resume i v a m) =
      some ({ s with
        ledger := (finish P S s.ledger ⟨requests i, fun _ => answer, v, a, m⟩ n).2 }.setWaiting i
          none, [(i, (finish P S s.ledger ⟨requests i, fun _ => answer, v, a, m⟩ n).1)]) := by
  rw [step, hwaiting]

theorem step_arrive (h : step P S D requests s (.arrive i now) = some (s', out)) :
    s.waiting i = none ∧
      ((∃ o, start P S (requests i) = .inl o ∧ s' = s ∧ out = [(i, o)]) ∨
        ∃ n, start P S (requests i) = .inr n ∧ out = [] ∧
          s' = s.setWaiting i (some ⟨n, (cached D s.cache n.origin now).map Except.ok⟩)) := by
  cases hwaiting : s.waiting i with
  | some w =>
    rw [step, hwaiting] at h
    cases h
  | none =>
    refine ⟨rfl, ?_⟩
    cases hstart : start P S (requests i) with
    | inl o =>
      rw [step_of_done hwaiting hstart] at h
      obtain ⟨rfl, rfl⟩ := Prod.mk.inj (Option.some.inj h)
      exact .inl ⟨o, rfl, rfl, rfl⟩
    | inr n =>
      rw [step_of_waits hwaiting hstart] at h
      obtain ⟨rfl, rfl⟩ := Prod.mk.inj (Option.some.inj h)
      exact .inr ⟨n, rfl, rfl, rfl⟩

theorem step_fetched (h : step P S D requests s (.fetched i now) = some (s', out)) :
    out = [] ∧ ∃ n, s.waiting i = some ⟨n, none⟩ ∧
      s' = { s with cache := store s.cache n.origin now (fetchDirectory D n.origin) }.setWaiting i
        (some ⟨n, some (fetchDirectory D n.origin)⟩) := by
  cases hwaiting : s.waiting i with
  | none =>
    rw [step, hwaiting] at h
    cases h
  | some w =>
    obtain ⟨n, answer⟩ := w
    cases answer with
    | some r =>
      rw [step, hwaiting] at h
      cases h
    | none =>
      rw [step_of_fetched hwaiting] at h
      obtain ⟨rfl, rfl⟩ := Prod.mk.inj (Option.some.inj h)
      exact ⟨rfl, n, rfl, rfl⟩

theorem step_resume (h : step P S D requests s (.resume i v a m) = some (s', out)) :
    ∃ n answer, s.waiting i = some ⟨n, some answer⟩ ∧
      out = [(i, (finish P S s.ledger ⟨requests i, fun _ => answer, v, a, m⟩ n).1)] ∧
      s' = { s with
        ledger := (finish P S s.ledger ⟨requests i, fun _ => answer, v, a, m⟩ n).2 }.setWaiting i
          none := by
  cases hwaiting : s.waiting i with
  | none =>
    rw [step, hwaiting] at h
    cases h
  | some w =>
    obtain ⟨n, answer⟩ := w
    cases answer with
    | none =>
      rw [step, hwaiting] at h
      cases h
    | some r =>
      rw [step_of_resume hwaiting] at h
      obtain ⟨rfl, rfl⟩ := Prod.mk.inj (Option.some.inj h)
      exact ⟨n, r, rfl, rfl, rfl⟩

theorem directStep_of_done (hwaiting : t.waiting i = none)
    (hstart : start P S (requests i) = .inl o) :
    directStep P S D requests t (.arrive i now) = some (t, [(i, o)]) := by
  rw [directStep, hwaiting, hstart]

theorem directStep_of_waits (hwaiting : t.waiting i = none)
    (hstart : start P S (requests i) = .inr n) :
    directStep P S D requests t (.arrive i now) =
      some ({ t with waiting := Function.update t.waiting i (some n) }, []) := by
  rw [directStep, hwaiting, hstart]

theorem directStep_of_resume (hwaiting : t.waiting i = some n) :
    directStep P S D requests t (.resume i v a m) =
      some ({ ledger := (finish P S t.ledger ⟨requests i, fetchDirectory D, v, a, m⟩ n).2,
              waiting := Function.update t.waiting i none },
        [(i, (finish P S t.ledger ⟨requests i, fetchDirectory D, v, a, m⟩ n).1)]) := by
  rw [directStep, hwaiting]

theorem directStep_arrive
    (h : directStep P S D requests t (.arrive i now) = some (t', out)) :
    t.waiting i = none ∧
      ((∃ o, start P S (requests i) = .inl o ∧ t' = t ∧ out = [(i, o)]) ∨
        ∃ n, start P S (requests i) = .inr n ∧ out = [] ∧
          t' = { t with waiting := Function.update t.waiting i (some n) }) := by
  cases hwaiting : t.waiting i with
  | some n =>
    rw [directStep, hwaiting] at h
    cases h
  | none =>
    refine ⟨rfl, ?_⟩
    cases hstart : start P S (requests i) with
    | inl o =>
      rw [directStep_of_done hwaiting hstart] at h
      obtain ⟨rfl, rfl⟩ := Prod.mk.inj (Option.some.inj h)
      exact .inl ⟨o, rfl, rfl, rfl⟩
    | inr n =>
      rw [directStep_of_waits hwaiting hstart] at h
      obtain ⟨rfl, rfl⟩ := Prod.mk.inj (Option.some.inj h)
      exact .inr ⟨n, rfl, rfl, rfl⟩

theorem directStep_resume
    (h : directStep P S D requests t (.resume i v a m) = some (t', out)) :
    ∃ n, t.waiting i = some n ∧
      out = [(i, (finish P S t.ledger ⟨requests i, fetchDirectory D, v, a, m⟩ n).1)] ∧
      t' = { ledger := (finish P S t.ledger ⟨requests i, fetchDirectory D, v, a, m⟩ n).2,
             waiting := Function.update t.waiting i none } := by
  cases hwaiting : t.waiting i with
  | none =>
    rw [directStep, hwaiting] at h
    cases h
  | some n =>
    rw [directStep_of_resume hwaiting] at h
    obtain ⟨rfl, rfl⟩ := Prod.mk.inj (Option.some.inj h)
    exact ⟨n, rfl, rfl, rfl⟩

end Steps

/-! ## The cache does not show -/

/-- All that is cached, or waits to be used, is what would be fetched. -/
structure Refines (D : Directories) (s : Server ι) (t : Direct ι) : Prop where
  ledger : s.ledger = t.ledger
  waiting : ∀ i, (s.waiting i).map (·.named) = t.waiting i
  answers : ∀ i n r, s.waiting i = some ⟨n, some r⟩ → r = fetchDirectory D n.origin
  cache : ∀ o e, s.cache o = some e → fetchDirectory D o = .ok e.directory

omit [DecidableEq ι] in
theorem refines_initial : Refines D (Server.initial : Server ι) Direct.initial where
  ledger := rfl
  waiting := fun _ => rfl
  answers := fun _ _ _ h => nomatch h
  cache := fun _ _ h => nomatch h

variable {s : Server ι} {t : Direct ι}

omit [DecidableEq ι] in
/-- What is found in the cache is what would be fetched. -/
theorem Refines.of_cached (h : Refines D s t) {o : String} {now : ℕ} {d : Value}
    (hcached : cached D s.cache o now = some d) : fetchDirectory D o = .ok d := by
  obtain ⟨e, he, hfresh⟩ := Option.bind_eq_some_iff.mp hcached
  rw [Option.ite_none_right_eq_some, Option.some.injEq] at hfresh
  rw [h.cache o e he, hfresh.2]

/-- A handler begins or goes on to wait, or ends. -/
theorem Refines.setWaiting (h : Refines D s t) (i : ι) {w : Option Waiting}
    (hw : ∀ n r, w = some ⟨n, some r⟩ → r = fetchDirectory D n.origin) (ledger : Ledger) :
    Refines D ({ s with ledger }.setWaiting i w)
      { ledger, waiting := Function.update t.waiting i (w.map (·.named)) } where
  ledger := rfl
  waiting := by
    intro j
    change _ = Function.update t.waiting i (w.map (·.named)) j
    by_cases hj : j = i
    · rw [hj, Server.setWaiting_self, Function.update_self]
    · rw [Server.setWaiting_of_ne _ hj, Function.update_of_ne hj]
      exact h.waiting j
  answers := by
    intro j n r hj
    by_cases heq : j = i
    · rw [heq, Server.setWaiting_self] at hj
      exact hw n r hj
    · rw [Server.setWaiting_of_ne _ heq] at hj
      exact h.answers j n r hj
  cache := h.cache

omit [DecidableEq ι] in
theorem Refines.store (h : Refines D s t) (o : String) (now : ℕ) :
    Refines D { s with cache := store s.cache o now (fetchDirectory D o) } t where
  ledger := h.ledger
  waiting := h.waiting
  answers := h.answers
  cache := by
    intro o' e he
    change Interference.store s.cache o now (fetchDirectory D o) o' = some e at he
    cases hfetch : fetchDirectory D o with
    | error err =>
      rw [hfetch] at he
      exact h.cache o' e he
    | ok d =>
      rw [hfetch, Interference.store] at he
      by_cases heq : o' = o
      · rw [heq, Function.update_self] at he
        rw [heq, hfetch, ← Option.some.inj he]
      · rw [Function.update_of_ne heq] at he
        exact h.cache o' e he

/-- Without the fetches the events are those of a server whose directories are there at once. -/
theorem step_refines :
    Machine.Follows (step P S D requests) (directStep P S D requests) (fun _ => True)
      (fun e => !e.isFetch) (fun _ => true) (Refines D) where
  kept := by
    intro s s' t e out h _ hkeep hstep
    rw [List.filter_true]
    cases e with
    | fetched i now => cases hkeep
    | arrive i now =>
      obtain ⟨hwaiting, hdone | hwaits⟩ := step_arrive hstep
      · obtain ⟨o, hstart, rfl, rfl⟩ := hdone
        have hnone : t.waiting i = none := by rw [← h.waiting, hwaiting]; rfl
        exact ⟨t, directStep_of_done hnone hstart, h⟩
      · obtain ⟨n, hstart, rfl, rfl⟩ := hwaits
        have hnone : t.waiting i = none := by rw [← h.waiting, hwaiting]; rfl
        refine ⟨_, directStep_of_waits hnone hstart, ?_⟩
        rw [← h.ledger]
        refine h.setWaiting i ?_ s.ledger
        intro n' r hw
        obtain ⟨rfl, hr⟩ := Waiting.mk.inj (Option.some.inj hw)
        obtain ⟨d, hd, rfl⟩ := Option.map_eq_some_iff.mp hr
        exact (h.of_cached hd).symm
    | resume i v a m =>
      obtain ⟨n, answer, hwaiting, rfl, rfl⟩ := step_resume hstep
      have hsome : t.waiting i = some n := by rw [← h.waiting, hwaiting]; rfl
      have hfinish : finish P S s.ledger ⟨requests i, fun _ => answer, v, a, m⟩ n =
          finish P S t.ledger ⟨requests i, fetchDirectory D, v, a, m⟩ n := by
        rw [h.ledger]
        exact finish_congr (h.answers i n answer hwaiting) v a m
      refine ⟨_, ?_, h.setWaiting i (w := none) (fun _ _ hw => nomatch hw) _⟩
      rw [directStep_of_resume hsome, hfinish]
      rfl
  dropped := by
    intro s s' t e out h _ hkeep hstep
    cases e with
    | arrive i now => cases hkeep
    | resume i v a m => cases hkeep
    | fetched i now =>
      obtain ⟨rfl, n, hwaiting, rfl⟩ := step_fetched hstep
      refine ⟨rfl, ?_⟩
      have hset := (h.store n.origin now).setWaiting i
        (w := some ⟨n, some (fetchDirectory D n.origin)⟩)
        (fun n' r hw => by
          obtain ⟨rfl, hr⟩ := Waiting.mk.inj (Option.some.inj hw)
          exact (Option.some.inj hr).symm) s.ledger
      -- the handler waited for the same directory before
      have hsame : Function.update t.waiting i (some n) = t.waiting := by
        rw [Function.update_eq_self_iff, ← h.waiting, hwaiting]
        rfl
      have hdirect : ({ ledger := s.ledger, waiting := t.waiting } : Direct ι) = t := by
        rw [h.ledger]
      rw [Option.map_some, hsame, hdirect] at hset
      exact hset

/-! ## Requests of others do not show -/

variable (P S D requests) in
/-- If the event belongs to another request, that request is refused before the ledger. -/
def Harmless (mine : ι → Bool) : Event ι → Prop
  | .resume i v a m =>
    mine i = false → ∀ c, ¬ Vetted P S ⟨requests i, fetchDirectory D, v, a, m⟩ c
  | _ => True

variable (P S requests) in
/-- Two servers with one ledger, where the same of my requests wait. -/
structure Agrees (mine : ι → Bool) (t u : Direct ι) : Prop where
  ledger : t.ledger = u.ledger
  waiting : ∀ i, mine i = true → t.waiting i = u.waiting i
  started : ∀ i n, t.waiting i = some n → start P S (requests i) = .inr n

variable {mine : ι → Bool} {t u : Direct ι}

omit [DecidableEq ι] in
theorem agrees_initial : Agrees P S requests mine Direct.initial Direct.initial where
  ledger := rfl
  waiting := fun _ _ => rfl
  started := fun _ _ h => nomatch h

/-- The same happens to a request on both servers. -/
theorem Agrees.update (h : Agrees P S requests mine t u) (i : ι) {w : Option Named}
    (hw : ∀ n, w = some n → start P S (requests i) = .inr n) (ledger : Ledger) :
    Agrees P S requests mine { ledger, waiting := Function.update t.waiting i w }
      { ledger, waiting := Function.update u.waiting i w } where
  ledger := rfl
  waiting := by
    intro j hj
    change Function.update t.waiting i w j = Function.update u.waiting i w j
    by_cases heq : j = i
    · rw [heq, Function.update_self, Function.update_self]
    · rw [Function.update_of_ne heq, Function.update_of_ne heq]
      exact h.waiting j hj
  started := by
    intro j n hj
    change Function.update t.waiting i w j = some n at hj
    by_cases heq : j = i
    · rw [heq, Function.update_self] at hj
      rw [heq]
      exact hw n hj
    · rw [Function.update_of_ne heq] at hj
      exact h.started j n hj

/-- Something happens to another request on the one server. -/
theorem Agrees.update_other (h : Agrees P S requests mine t u) {i : ι} (hi : mine i = false)
    {w : Option Named} (hw : ∀ n, w = some n → start P S (requests i) = .inr n) :
    Agrees P S requests mine { t with waiting := Function.update t.waiting i w } u where
  ledger := h.ledger
  waiting := by
    intro j hj
    have hne : j ≠ i := by
      rintro rfl
      rw [hi] at hj
      cases hj
    change Function.update t.waiting i w j = u.waiting j
    rw [Function.update_of_ne hne]
    exact h.waiting j hj
  started := (h.update i hw t.ledger).started

omit [DecidableEq ι] in
theorem filter_mine {i : ι} (h : mine i = true) (o : Outcome) :
    [(i, o)].filter (fun o => mine o.1) = [(i, o)] := List.filter_cons_of_pos h

omit [DecidableEq ι] in
theorem filter_other {i : ι} (h : mine i = false) (o : Outcome) :
    [(i, o)].filter (fun o => mine o.1) = [] :=
  List.filter_cons_of_neg (by rw [h]; exact Bool.false_ne_true)

/-- Without the events of requests that are refused before the ledger, my requests end alike. -/
theorem directStep_agrees :
    Machine.Follows (directStep P S D requests) (directStep P S D requests)
      (Harmless P S D requests mine) (fun e => mine e.request) (fun o => mine o.1)
      (Agrees P S requests mine) where
  kept := by
    intro t t' u e out h _ hmine hstep
    cases e with
    | fetched i now => cases hstep
    | arrive i now =>
      obtain ⟨hwaiting, hdone | hwaits⟩ := directStep_arrive hstep
      · obtain ⟨o, hstart, rfl, rfl⟩ := hdone
        rw [h.waiting i hmine] at hwaiting
        rw [filter_mine (i := i) hmine]
        exact ⟨u, directStep_of_done hwaiting hstart, h⟩
      · obtain ⟨n, hstart, rfl, rfl⟩ := hwaits
        rw [h.waiting i hmine] at hwaiting
        refine ⟨_, directStep_of_waits hwaiting hstart, ?_⟩
        rw [← h.ledger]
        refine h.update i (fun n' hn' => ?_) t.ledger
        rw [hstart, Option.some.inj hn']
    | resume i v a m =>
      obtain ⟨n, hwaiting, rfl, rfl⟩ := directStep_resume hstep
      rw [h.waiting i hmine] at hwaiting
      refine ⟨_, ?_, h.update i (w := none) (fun _ hn => nomatch hn) _⟩
      rw [directStep_of_resume hwaiting, filter_mine (i := i) hmine, h.ledger]
  dropped := by
    intro t t' u e out h hharmless hother hstep
    cases e with
    | fetched i now => cases hstep
    | arrive i now =>
      obtain ⟨hwaiting, hdone | hwaits⟩ := directStep_arrive hstep
      · obtain ⟨o, hstart, rfl, rfl⟩ := hdone
        exact ⟨filter_other hother o, h⟩
      · obtain ⟨n, hstart, rfl, rfl⟩ := hwaits
        refine ⟨rfl, h.update_other (i := i) hother fun n' hn' => ?_⟩
        rw [hstart, Option.some.inj hn']
    | resume i v a m =>
      obtain ⟨n, hwaiting, rfl, rfl⟩ := directStep_resume hstep
      -- the request is refused, and the ledger is as before
      obtain ⟨reason, hvet⟩ :
          ∃ reason, vet P S ⟨requests i, fetchDirectory D, v, a, m⟩ = .error reason := by
        cases hvet : vet P S ⟨requests i, fetchDirectory D, v, a, m⟩ with
        | error reason => exact ⟨reason, rfl⟩
        | ok c => exact absurd (vet_eq_ok.mp hvet) (hharmless hother c)
      rw [finish_of_refused (h.started i n hwaiting) hvet]
      exact ⟨filter_other hother _, h.update_other hother (w := none) fun _ hn => nomatch hn⟩

/-! ## The claim about insertions -/

/-- Two runs of one instance in which my requests arrive and go on at the same times. Whatever else
arrives in the one, and is refused before the ledger, my requests end as in the other. -/
theorem insertions_do_not_show {es es' : List (Event ι)} {s s' : Server ι}
    {log log' : List (ι × Outcome)}
    (h : Machine.run (step P S D requests) Server.initial es = some (s, log))
    (h' : Machine.run (step P S D requests) Server.initial es' = some (s', log'))
    (hsame : (es'.filter fun e => !e.isFetch).filter (fun e => mine e.request) =
      es.filter fun e => !e.isFetch)
    (hrefused : ∀ i v a m, .resume i v a m ∈ es' → mine i = false →
      ∀ c, ¬ Vetted P S ⟨requests i, fetchDirectory D, v, a, m⟩ c) :
    log'.filter (fun o => mine o.1) = log := by
  obtain ⟨t, hrun, -⟩ := step_refines.run refines_initial (fun _ _ => trivial) h
  obtain ⟨t', hrun', -⟩ := step_refines.run refines_initial (fun _ _ => trivial) h'
  rw [List.filter_true] at hrun hrun'
  have hharmless : ∀ e ∈ es'.filter (fun e => !e.isFetch), Harmless P S D requests mine e := by
    intro e he
    cases e with
    | arrive i now => trivial
    | fetched i now => trivial
    | resume i v a m => exact hrefused i v a m (List.mem_of_mem_filter he)
  obtain ⟨u, hmine, -⟩ := directStep_agrees.run agrees_initial hharmless hrun'
  rw [hsame, hrun] at hmine
  exact (Prod.mk.inj (Option.some.inj hmine)).2.symm

/-! ## A forged request -/

theorem named_of_vetted {a : Arrival} {c : Caller} (h : Vetted P S a c) :
    ∃ n, named P a.req = .ok n := by
  have hvet := vet_eq_ok.mpr h
  rw [vet_eq] at hvet
  cases hnamed : named P a.req with
  | error reason =>
    rw [hnamed] at hvet
    cases hvet
  | ok n => exact ⟨n, rfl⟩

/-- The directory of one origin is there, and no other. -/
def oneDirectory : Directories where
  fetchImpl := fun url =>
    if url = "https://agent.example" ++ directoryPath then
      .ok { ok := true, status := 200, json := .ok sampleDirectory }
    else .error .typeError
  isFresh := fun age => age < 300000

theorem fetch_agent : fetchDirectory oneDirectory "https://agent.example" = .ok sampleDirectory := by
  simp only [fetchDirectory, oneDirectory, if_pos]
  rfl

theorem fetch_other : fetchDirectory oneDirectory "https://other.example" = .error .typeError := by
  have hne : "https://other.example" ++ directoryPath ≠ "https://agent.example" ++ directoryPath := by
    decide
  simp only [fetchDirectory, oneDirectory, if_neg hne]
  rfl

/-- A copy of the request, nonce and all, that names another origin. -/
def forgedIncoming : Incoming := { sampleIncoming with signatureAgent := some otherAgent }

/-- The request and the forged one. -/
def twoRequests (genuine : Bool) : Incoming := if genuine then sampleIncoming else forgedIncoming

theorem origin_forged :
    signatureAgentOrigin samplePlatformOfKeys (headerText forgedIncoming.signatureAgent) =
      some "https://other.example" := by
  decide +kernel

theorem vetted_sample (v : ℕ) (h : 1700000000 ≤ v) (h' : v ≤ 1700000090) :
    Vetted samplePlatformOfKeys defaultServer
      ⟨sampleIncoming, fetchDirectory oneDirectory, v, v, v⟩
      (callerOf sampleParts "https://agent.example" "agent-1") := by
  have hpresented := sampleIncoming_presented h h'
  refine (vetted_iff_of_signed sample_ideal sampleIncoming_signed).mpr ⟨?_, rfl⟩
  refine ⟨hpresented.origin, hpresented.keyid, ?_, hpresented.tag, hpresented.fresh,
    hpresented.age⟩
  have hsame : (arrivalOf sampleIncoming v).resolve "https://agent.example" =
      .ok sampleDirectory := by simp [arrivalOf]
  rw [← hpresented.key]
  change callerKey _ _ "https://agent.example" "agent-1" = _
  simp only [callerKey, hsame, fetch_agent]

theorem start_of_named {req : Incoming} {n : Named} (h : named P req = .ok n) :
    start P defaultServer req = .inr n := by
  rw [start, h]
  rfl

theorem start_sample : ∃ n, start samplePlatformOfKeys defaultServer sampleIncoming = .inr n := by
  obtain ⟨n, hnamed⟩ := named_of_vetted (vetted_sample 1700000010 (by decide) (by decide))
  exact ⟨n, start_of_named hnamed⟩

/-- The forged request names what the genuine one does, but for the origin. -/
theorem start_forged {n : Named}
    (h : start samplePlatformOfKeys defaultServer sampleIncoming = .inr n) :
    start samplePlatformOfKeys defaultServer forgedIncoming =
      .inr { n with origin := "https://other.example" } := by
  have hnamed := (start_eq_inr h).2
  refine start_of_named ?_
  have hheaders : signatureHeaders forgedIncoming = signatureHeaders sampleIncoming := rfl
  unfold named at hnamed ⊢
  rw [hheaders, origin_forged]
  cases hpair : signatureHeaders sampleIncoming with
  | none =>
    rw [hpair] at hnamed
    cases hnamed
  | some pair =>
    obtain ⟨input, signature⟩ := pair
    rw [hpair] at hnamed
    dsimp only at hnamed ⊢
    cases horigin : signatureAgentOrigin samplePlatformOfKeys
        (headerText sampleIncoming.signatureAgent) with
    | none =>
      rw [horigin] at hnamed
      cases hnamed
    | some origin =>
      rw [horigin] at hnamed
      dsimp only at hnamed
      cases hkeyid : (sigParams input).bind (·.keyid) with
      | none =>
        rw [hkeyid] at hnamed
        cases hnamed
      | some keyid =>
        rw [hkeyid] at hnamed
        cases hnamed
        rfl

theorem not_vetted_forged (v a m : ℕ) (c : Caller) :
    ¬ Vetted samplePlatformOfKeys defaultServer
      ⟨forgedIncoming, fetchDirectory oneDirectory, v, a, m⟩ c := by
  rintro ⟨horigin, input, signature, params, key, -, -, -, hkey, -⟩
  rw [← Option.some.inj (origin_forged.symm.trans horigin)] at hkey
  simp only [callerKey, fetch_other] at hkey
  cases hkey

theorem accepted_sample (now : ℕ) (h : 1700000000 ≤ now) (h' : now ≤ 1700000090) {n : Named}
    (hstart : start samplePlatformOfKeys defaultServer sampleIncoming = .inr n) :
    (finish samplePlatformOfKeys defaultServer []
      ⟨sampleIncoming, fun _ => fetchDirectory oneDirectory n.origin, now, now, now⟩ n).1 =
        .accepted "https://agent.example" "agent-1" := by
  have hwhole := webBotAuth_of_waits
    (a := ⟨sampleIncoming, fetchDirectory oneDirectory, now, now, now⟩) hstart []
  have hanswer : finish samplePlatformOfKeys defaultServer []
      ⟨sampleIncoming, fun _ => fetchDirectory oneDirectory n.origin, now, now, now⟩ n =
        finish samplePlatformOfKeys defaultServer []
          ⟨sampleIncoming, fetchDirectory oneDirectory, now, now, now⟩ n :=
    finish_congr rfl now now now
  have hnonce : (callerOf sampleParts "https://agent.example" "agent-1").nonce =
      some "bm9uY2UtMQ==" := by rw [callerOf, nonceOf_sample]
  rw [hanswer, ← hwhole]
  exact accepted_iff.mpr ⟨rfl, _, vetted_sample now h h', rfl, rfl,
    admit_iff.mpr ⟨_, hnonce, rfl⟩⟩

/-- The request alone. -/
def aloneEvents : List (Event Bool) :=
  [.arrive true 0, .fetched true 1, .resume true 1700000010 1700000010 1700000010]

/-- The request with the forged one around it. -/
def besideEvents : List (Event Bool) :=
  [.arrive false 0, .arrive true 0, .fetched false 1, .fetched true 1,
    .resume false 1700000010 1700000010 1700000010,
    .resume true 1700000010 1700000010 1700000010]

/-- The events of the sample server. -/
def sampleStep : Server Bool → Event Bool → Option (Server Bool × List (Bool × Outcome)) :=
  step samplePlatformOfKeys defaultServer oneDirectory twoRequests

/-- The request is accepted, alone and beside a forged request with its nonce. -/
theorem insertions_do_not_show_sample :
    ∃ s s' log, Machine.run sampleStep Server.initial aloneEvents =
        some (s, [(true, .accepted "https://agent.example" "agent-1")]) ∧
      Machine.run sampleStep Server.initial besideEvents = some (s', log) ∧
      log.filter (fun o => o.1) = [(true, .accepted "https://agent.example" "agent-1")] := by
  obtain ⟨n, hstart⟩ := start_sample
  have hgenuine : start samplePlatformOfKeys defaultServer (twoRequests true) = .inr n := hstart
  have hforged : start samplePlatformOfKeys defaultServer (twoRequests false) =
      .inr { n with origin := "https://other.example" } := start_forged hstart
  have haccepted := accepted_sample 1700000010 (by decide) (by decide) hstart
  have halone : ∃ s log, Machine.run sampleStep Server.initial aloneEvents = some (s, log) ∧
      log = [(true, .accepted "https://agent.example" "agent-1")] := by
    refine Machine.exists_run_cons (step_of_waits rfl hgenuine) ?_
    refine Machine.exists_run_cons (step_of_fetched (n := n) rfl) ?_
    refine Machine.exists_run_cons (step_of_resume (n := n) rfl) ?_
    refine ⟨_, [], rfl, ?_⟩
    rw [← haccepted]
    rfl
  have hbeside : ∃ s log, Machine.run sampleStep Server.initial besideEvents = some (s, log) ∧
      True := by
    refine Machine.exists_run_cons (step_of_waits rfl hforged) ?_
    refine Machine.exists_run_cons (step_of_waits rfl hgenuine) ?_
    refine Machine.exists_run_cons (step_of_fetched rfl) ?_
    refine Machine.exists_run_cons (step_of_fetched (n := n) rfl) ?_
    refine Machine.exists_run_cons (step_of_resume rfl) ?_
    refine Machine.exists_run_cons (step_of_resume (n := n) rfl) ?_
    exact ⟨_, [], rfl, trivial⟩
  obtain ⟨s, _, hrun, rfl⟩ := halone
  obtain ⟨s', log, hrun', -⟩ := hbeside
  have hrefused : ∀ i v a m, .resume i v a m ∈ besideEvents → id i = false →
      ∀ c, ¬ Vetted samplePlatformOfKeys defaultServer
        ⟨twoRequests i, fetchDirectory oneDirectory, v, a, m⟩ c := by
    intro i v a m _ hother c
    cases i with
    | true => cases hother
    | false => exact not_vetted_forged v a m c
  exact ⟨s, s', log, hrun, hrun', insertions_do_not_show hrun hrun' rfl hrefused⟩

end Gatekeeper.Agent.Interference

import Gatekeeper.Lib.Cell
import Gatekeeper.Lib.Footprint
import Gatekeeper.Agent.Setup

/-!
# What provisioning grants

The access lists and the seeded entries of a tenant after any number of runs of `setup.mjs`, with
calls of the contract in between. A run whose registration goes through grants the contract what
its exports use; a run whose registration fails leaves each map it creates open to all.
-/

namespace Gatekeeper.Agent

open Interaction Js Gate

/-! ## Cells of the tenant -/

/-- The access list that an operation gives a map. -/
def aclWritten (tail : String) : ControlOp → Option Acl
  | .create t acl => if t = tail then some acl else none
  | .update t acl => if t = tail then some acl else none
  | _ => none

/-- The value that an operation gives an entry. -/
def entryWritten (tail key : String) : ControlOp → Option String
  | .entrySet t k value => if t = tail ∧ k = key then some value else none
  | _ => none

theorem acl_setAcl (s : Tenant) (t tail : String) (acl : Acl) :
    (s.setAcl t acl).acl tail = if t = tail then some acl else s.acl tail := by
  split_ifs with h
  · rw [h]
    exact Function.update_self ..
  · exact Function.update_of_ne (Ne.symm h) _ _

theorem entries_setEntry (s : Tenant) (t k value tail key : String) :
    (s.setEntry t k value).entries tail key =
      if t = tail ∧ k = key then some value else s.entries tail key := by
  rw [Tenant.setEntry]
  by_cases ht : t = tail
  · subst ht
    by_cases hk : k = key
    · subst hk
      simp
    · simp [hk, Ne.symm hk]
  · simp [ht, Ne.symm ht]

/-- The effect of an operation on the access list of a map. -/
theorem acl_of_effect {op : ControlOp} {s s' : Tenant} (tail : String) (h : Effect op s s') :
    s'.acl tail = (aclWritten tail op).or (s.acl tail) := by
  cases op with
  | create t acl =>
    rw [h.2, acl_setAcl, aclWritten]
    split_ifs <;> rfl
  | update t acl =>
    rw [h.2, acl_setAcl, aclWritten]
    split_ifs <;> rfl
  | entrySet t k value =>
    obtain rfl : s' = _ := h
    rfl
  | dispatchAction req => exact congrFun h.1 tail
  | executeAction req => exact congrFun h.1 tail
  | _ =>
    obtain rfl : s' = s := h
    rfl

/-- The maps that only the tenant admin writes. -/
def adminMaps : List String := ["mandate", "secrets"]

theorem entries_of_contractRuns {s s' : Tenant} {tail : String} (htail : tail ∈ adminMaps)
    (h : contractRuns s s') : s'.entries tail = s.entries tail := by
  simp only [adminMaps, List.mem_cons, List.not_mem_nil, or_false] at htail
  rcases htail with rfl | rfl
  · exact h.2.1
  · exact h.2.2

theorem entries_of_effect {op : ControlOp} {s s' : Tenant} {tail : String} (key : String)
    (htail : tail ∈ adminMaps) (h : Effect op s s') :
    s'.entries tail key = (entryWritten tail key op).or (s.entries tail key) := by
  cases op with
  | create t acl =>
    rw [h.2]
    rfl
  | update t acl =>
    rw [h.2]
    rfl
  | entrySet t k value =>
    obtain rfl : s' = _ := h
    rw [entries_setEntry, entryWritten]
    split_ifs <;> rfl
  | dispatchAction req => exact congrFun (entries_of_contractRuns htail h) key
  | executeAction req => exact congrFun (entries_of_contractRuns htail h) key
  | _ =>
    obtain rfl : s' = s := h
    rfl

/-- A part of the tenant that changes by what operations write to it. -/
def tenantCell {γ : Type} (read : Tenant → Option γ) (writes : ControlOp → Option γ)
    (effect : ∀ {op s s'}, Effect op s s' → read s' = (writes op).or (read s)) :
    Cell controlPlane γ where
  read := read
  writes := writes
  sure := Succeeded
  step := by
    rintro op s x s' (h | ⟨-, rfl⟩)
    · rw [effect h]
      cases writes op with
      | none => exact .inl rfl
      | some v => exact .inr ⟨Option.some_ne_none v, rfl⟩
    · exact .inl rfl
  written := by
    rintro op s x s' (h | ⟨hfailed, -⟩) hsure hne
    · rw [effect h]
      cases hv : writes op with
      | none => exact absurd hv hne
      | some v => rfl
    · exact absurd hsure hfailed

def aclCell (tail : String) : Cell controlPlane Acl :=
  tenantCell (fun s => s.acl tail) (aclWritten tail) fun h => acl_of_effect tail h

def entryCell (tail key : String) (htail : tail ∈ adminMaps) : Cell controlPlane String :=
  tenantCell (fun s => s.entries tail key) (entryWritten tail key) fun h =>
    entries_of_effect key htail h

theorem read_entryCell {tail key : String} {htail : tail ∈ adminMaps} {s s' : Tenant}
    (h : contractRuns s s') :
    (entryCell tail key htail).read s' = (entryCell tail key htail).read s :=
  congrFun (entries_of_contractRuns htail h) key

/-! ## What a run writes -/

/-- The maps that the contract uses. -/
def gateMaps : List String := ["mandate", "spent", "dispatched", "secrets"]

/-- The operations of a run that has got this contract id, or none. -/
def Provisions (contractId : Option ℕ) (imported env : Env) : ControlOp → Prop
  | .create tail acl => tail ∈ gateMaps ∧ acl = aclOf tail (contractOnly contractId)
  | .update tail acl =>
    tail ∈ gateMaps ∧ acl = aclOf tail (contractOnly contractId) ∧ contractId ≠ none
  | .entrySet tail key value =>
    (tail = "mandate" ∧ key = "default" ∧ value = (defaultMandate imported).json) ∨
    (tail = "secrets" ∧ key = credentialKey ∧ env.has "BROKER_API_KEY" = true ∧
      env "BROKER_API_KEY" = some value)
  | _ => False

theorem provisions_ensureMap {contractId : Option ℕ} {imported env : Env} {tail : String}
    {acl : Acl} (hmap : tail ∈ gateMaps) (hacl : acl = aclOf tail (contractOnly contractId)) :
    Interaction.Within (Provisions contractId imported env) (ensureMap contractId tail acl) := by
  refine within_perform_bind ⟨hmap, hacl⟩ fun created => ?_
  split
  · exact within_pure ()
  · split_ifs with hnone
    · exact within_pure ()
    · have hset : contractId ≠ none := fun h => hnone (by rw [h, Option.isNone_none])
      exact within_perform_bind ⟨hmap, hacl, hset⟩ fun _ => within_pure ()

theorem provisions_provision (contractId : Option ℕ) (imported env : Env) :
    Interaction.Within (Provisions contractId imported env)
      (provision contractId imported env) := by
  have hseed : ∀ tail key value, Provisions contractId imported env (.entrySet tail key value) →
      Interaction.Within (Provisions contractId imported env) (seed tail key value) :=
    fun _ _ _ h => within_perform_bind h fun _ => within_pure ()
  refine within_bind (provisions_ensureMap (by decide) rfl) fun _ => ?_
  refine within_bind (hseed _ _ _ (.inl ⟨rfl, rfl, rfl⟩)) fun _ => ?_
  refine within_bind (provisions_ensureMap (by decide) rfl) fun _ => ?_
  refine within_bind (provisions_ensureMap (by decide) rfl) fun _ => ?_
  refine within_bind (provisions_ensureMap (by decide) rfl) fun _ => ?_
  split_ifs with hkey
  · obtain ⟨v, hv⟩ : ∃ v, env "BROKER_API_KEY" = some v := by
      rw [Env.has] at hkey
      cases h : env "BROKER_API_KEY" with
      | none =>
        rw [h] at hkey
        cases hkey
      | some v => exact ⟨v, rfl⟩
    exact hseed _ _ _ (.inr ⟨rfl, rfl, hkey, by rw [hv, Option.getD_some]⟩)
  · exact within_pure ()

/-- The id of the contract that a run registered, if it got one. -/
def registeredId (t : List ControlEvent) : Option ℕ :=
  t.findSome? fun
    | ⟨.register _, a⟩ => contractIdOf a
    | _ => none

theorem registeredId_of_within {contractId : Option ℕ} {imported env : Env} {t : List ControlEvent}
    (h : ∀ e ∈ t, Provisions contractId imported env e.op) : registeredId t = none := by
  refine List.findSome?_eq_none_iff.mpr fun e he => ?_
  have hop := h e he
  obtain ⟨op, x⟩ := e
  cases op with
  | register tail => exact hop.elim
  | _ => rfl

/-- The calls of a run before it provisions. -/
def setupOpening (a : Except Error (Option ℕ)) : List ControlEvent :=
  [⟨.openSession, .ok ()⟩, ⟨.readWasm, .ok ()⟩, ⟨.register "gate", a⟩]

/-- A call that a script cannot do without: it fails and ends the script, or the script goes on. -/
theorem emits_required {α : Type} {op : ControlOp} {g : op.Res → Except Error Unit}
    {f : Control α} {t : List ControlEvent} {r : Except Error α}
    (h : Emits (Prog.perform op >>= fun x => Prog.ofExcept (g x) >>= fun _ => f) t r) :
    (∃ x e, g x = .error e ∧ t = [⟨op, x⟩] ∧ r = .error e) ∨
      ∃ x t', g x = .ok () ∧ t = ⟨op, x⟩ :: t' ∧ Emits f t' r := by
  obtain ⟨x, t', rfl, hanswered⟩ := emits_perform_bind.mp h
  rcases emits_ofExcept_bind.mp hanswered with ⟨e, he, rfl, rfl⟩ | ⟨⟨⟩, hok, hrest⟩
  · exact .inl ⟨x, e, he, rfl, rfl⟩
  · exact .inr ⟨x, t', hok, rfl, hrest⟩

/-- A run is over before it registers anything, or it provisions with the id it got. -/
theorem setup_cases {run : SetupRun} {t : List ControlEvent} {r : Except Error Unit}
    (h : Emits (setup run) t r) :
    ((∀ e ∈ t, e.op = .openSession ∨ e.op = .readWasm) ∧ ∃ e, r = .error e) ∨
    ∃ env a t', loadEnv run.file run.imported = .ok env ∧ t = setupOpening a ++ t' ∧
      registeredId t = contractIdOf a ∧
      Emits (provision (registeredId t) run.imported env) t' r := by
  rw [setup] at h
  rcases emits_ofExcept_bind.mp h with ⟨e, -, rfl, rfl⟩ | ⟨env, henv, hopen⟩
  · exact .inl ⟨List.forall_mem_nil _, e, rfl⟩
  rcases emits_required hopen with ⟨opened, e, -, rfl, rfl⟩ | ⟨opened, t₁, rfl, rfl, hread⟩
  · refine .inl ⟨fun e' he' => .inl ?_, e, rfl⟩
    rw [List.mem_singleton.mp he']
  rcases emits_required hread with ⟨wasm, e, -, rfl, rfl⟩ | ⟨wasm, t₂, rfl, rfl, hregister⟩
  · refine .inl ⟨fun e' he' => ?_, e, rfl⟩
    rcases List.mem_cons.mp he' with rfl | he'
    · exact .inl rfl
    · rw [List.mem_singleton.mp he']
      exact .inr rfl
  obtain ⟨a, t', rfl, hprovision⟩ := emits_perform_bind.mp hregister
  have hid : registeredId (setupOpening a ++ t') = contractIdOf a := by
    have hnone := registeredId_of_within
      ((provisions_provision (contractIdOf a) run.imported env).of_steps hprovision)
    rw [registeredId, List.findSome?_append, ← registeredId, ← registeredId, hnone, Option.or_none]
    cases hid : contractIdOf a with
    | none => simp [registeredId, setupOpening, hid]
    | some id => simp [registeredId, setupOpening, hid]
  refine .inr ⟨env, a, t', henv, rfl, hid, ?_⟩
  rw [show _ :: _ :: _ :: t' = setupOpening a ++ t' from rfl, hid]
  exact hprovision

/-- The calls of a run that write are those of its provisioning. -/
theorem provisions_of_setup {run : SetupRun} {t : List ControlEvent} {r : Except Error Unit}
    (h : Emits (setup run) t r) {e : ControlEvent} (he : e ∈ t) :
    (∀ tail key, aclWritten tail e.op = none ∧ entryWritten tail key e.op = none) ∨
    ∃ env, loadEnv run.file run.imported = .ok env ∧
      Provisions (registeredId t) run.imported env e.op := by
  have hsilent : e.op = .openSession ∨ e.op = .readWasm ∨ e.op = .register "gate" →
      ∀ tail key, aclWritten tail e.op = none ∧ entryWritten tail key e.op = none := by
    rintro (hop | hop | hop) tail key
    all_goals
      rw [hop]
      exact ⟨rfl, rfl⟩
  rcases setup_cases h with ⟨hops, -⟩ | ⟨env, a, t', henv, ht, -, hprovision⟩
  · refine .inl (hsilent ?_)
    rcases hops e he with hop | hop
    · exact .inl hop
    · exact .inr (.inl hop)
  · rw [ht] at he
    rcases List.mem_append.mp he with hopening | hin
    · refine .inl (hsilent ?_)
      simp only [setupOpening, List.mem_cons, List.not_mem_nil, or_false] at hopening
      rcases hopening with rfl | rfl | rfl
      · exact .inl rfl
      · exact .inr (.inl rfl)
      · exact .inr (.inr rfl)
    · exact .inr ⟨env, henv, (provisions_provision _ _ _).of_steps hprovision e hin⟩

theorem acl_of_setup {run : SetupRun} {t : List ControlEvent} {r : Except Error Unit}
    (h : Emits (setup run) t r) {e : ControlEvent} (he : e ∈ t) {tail : String} {acl : Acl}
    (hwrites : aclWritten tail e.op = some acl) :
    tail ∈ gateMaps ∧ acl = aclOf tail (contractOnly (registeredId t)) := by
  rcases provisions_of_setup h he with hnone | ⟨env, -, hop⟩
  · rw [(hnone tail "").1] at hwrites
    cases hwrites
  · obtain ⟨op, x⟩ := e
    have hcell : ∀ {u : String} {b : Acl}, u ∈ gateMaps ∧
        b = aclOf u (contractOnly (registeredId t)) →
        (if u = tail then some b else none) = some acl →
        tail ∈ gateMaps ∧ acl = aclOf tail (contractOnly (registeredId t)) := by
      intro u b hb hif
      split_ifs at hif with hu
      rw [← hu, ← Option.some.inj hif]
      exact hb
    cases op with
    | create u b => exact hcell hop hwrites
    | update u b => exact hcell ⟨hop.1, hop.2.1⟩ hwrites
    | _ => cases hwrites

/-- What a run may write to an entry. -/
theorem entry_of_setup {run : SetupRun} {t : List ControlEvent} {r : Except Error Unit}
    (h : Emits (setup run) t r) {e : ControlEvent} (he : e ∈ t) {tail key value : String}
    (hwrites : entryWritten tail key e.op = some value) :
    (tail = "mandate" ∧ key = "default" ∧ value = (defaultMandate run.imported).json) ∨
    (tail = "secrets" ∧ key = credentialKey ∧ ∃ env, loadEnv run.file run.imported = .ok env ∧
      env.has "BROKER_API_KEY" = true ∧ env "BROKER_API_KEY" = some value) := by
  rcases provisions_of_setup h he with hnone | ⟨env, henv, hop⟩
  · rw [(hnone tail key).2] at hwrites
    cases hwrites
  · obtain ⟨op, x⟩ := e
    cases op with
    | entrySet u k v =>
      rw [entryWritten] at hwrites
      split_ifs at hwrites with huk
      obtain ⟨rfl, rfl⟩ := huk
      obtain rfl := Option.some.inj hwrites
      rcases hop with hop | ⟨hmap, hkey, hhas, hv⟩
      · exact .inl hop
      · exact .inr ⟨hmap, hkey, env, henv, hhas, hv⟩
    | _ => cases hwrites

/-! ## What the contract uses -/

/-- The host's name of a tenant's map. -/
def canonicalName (tidHex tail : String) : String := s!"z:{tidHex}:{tail}"

/-- Some export reads the map. -/
def ContractReads (tail : String) : Prop :=
  ∃ tidHex f key, MayCall tidHex f (.kvGet (canonicalName tidHex tail) key)

/-- Some export writes to the map. -/
def ContractWrites (tail : String) : Prop :=
  ∃ tidHex f key value, MayCall tidHex f (.kvPut (canonicalName tidHex tail) key value)

theorem canonicalName_inj {tidHex tail tail' : String} :
    canonicalName tidHex tail = canonicalName tidHex tail' ↔ tail = tail' := by
  refine ⟨fun h => ?_, congrArg _⟩
  have hlists := congrArg String.toList h
  simp only [canonicalName, String.toList_append, toString, List.append_cancel_left_eq] at hlists
  exact String.toList_inj.mp hlists

theorem mandateMap_eq (tidHex : String) : mandateMap tidHex = canonicalName tidHex "mandate" := by
  simp only [mandateMap, canonicalName, String.append_assoc]
  rfl

theorem spentMap_eq (tidHex : String) : spentMap tidHex = canonicalName tidHex "spent" := by
  simp only [spentMap, canonicalName, String.append_assoc]
  rfl

theorem dispatchedMap_eq (tidHex : String) :
    dispatchedMap tidHex = canonicalName tidHex "dispatched" := by
  simp only [dispatchedMap, canonicalName, String.append_assoc]
  rfl

theorem secretsMap_eq (tidHex : String) : secretsMap tidHex = canonicalName tidHex "secrets" := by
  simp only [secretsMap, canonicalName, String.append_assoc]
  rfl

theorem contractReads_iff {tail : String} : ContractReads tail ↔ tail ∈ gateMaps := by
  simp only [gateMaps, List.mem_cons, List.not_mem_nil, or_false]
  constructor
  · rintro ⟨tidHex, f, key, h⟩
    cases f with
    | evaluate => exact .inl (canonicalName_inj.mp (h.trans (mandateMap_eq tidHex)))
    | spend => exact .inr (.inl (canonicalName_inj.mp (h.trans (spentMap_eq tidHex))))
    | dispatchAction => exact h.elim
    | executeAction =>
      rcases h with h | h | h
      · exact .inl (canonicalName_inj.mp (h.trans (mandateMap_eq tidHex)))
      · exact .inr (.inr (.inl (canonicalName_inj.mp (h.trans (dispatchedMap_eq tidHex)))))
      · exact .inr (.inr (.inr (canonicalName_inj.mp (h.trans (secretsMap_eq tidHex)))))
  · rintro (rfl | rfl | rfl | rfl)
    · exact ⟨"", .evaluate, [], (mandateMap_eq "").symm⟩
    · exact ⟨"", .spend, [], (spentMap_eq "").symm⟩
    · exact ⟨"", .executeAction, [], .inr (.inl (dispatchedMap_eq "").symm)⟩
    · exact ⟨"", .executeAction, [], .inr (.inr (secretsMap_eq "").symm)⟩

theorem contractWrites_iff {tail : String} :
    ContractWrites tail ↔ tail = "spent" ∨ tail = "dispatched" := by
  constructor
  · rintro ⟨tidHex, f, key, value, h⟩
    cases f with
    | spend => exact .inl (canonicalName_inj.mp (h.trans (spentMap_eq tidHex)))
    | executeAction => exact .inr (canonicalName_inj.mp (h.trans (dispatchedMap_eq tidHex)))
    | evaluate => exact h.elim
    | dispatchAction => exact h.elim
  · rintro (rfl | rfl)
    · exact ⟨"", .spend, [], [], (spentMap_eq "").symm⟩
    · exact ⟨"", .executeAction, [], [], (dispatchedMap_eq "").symm⟩

/-- Nobody but the contract writes to a map, and it only where its exports do. -/
theorem aclOf_writers {tail : String} {contract : Grant} {n : ℕ} :
    (aclOf tail contract).writers.Allows n ↔ ContractWrites tail ∧ contract.Allows n := by
  rw [contractWrites_iff, aclOf]
  split_ifs with h
  · exact ⟨fun hn => ⟨h, hn⟩, fun hn => hn.2⟩
  · exact ⟨fun hn => absurd hn List.not_mem_nil, fun hn => absurd hn.1 h⟩

theorem aclOf_readers (tail : String) (contract : Grant) :
    (aclOf tail contract).readers = contract := by
  rw [aclOf]
  split_ifs <;> rfl

/-! ## A run that comes through -/

/-- No update of an access list failed. -/
def Repointed (t : List ControlEvent) : Prop :=
  ∀ tail acl e, ⟨.update tail acl, .error e⟩ ∉ t

theorem ensureMap_succeeds {contractId : Option ℕ} {tail : String} {acl : Acl}
    {t : List ControlEvent} {r : Except Error Unit}
    (h : Emits (ensureMap contractId tail acl) t r) : r = .ok () := by
  obtain ⟨created, t', -, hcreated⟩ := emits_perform_bind.mp h
  cases created with
  | ok u => exact (emits_pure.mp hcreated).2
  | error e =>
    simp only at hcreated
    split_ifs at hcreated
    · exact (emits_pure.mp hcreated).2
    · obtain ⟨updated, t'', -, hupdated⟩ := emits_perform_bind.mp hcreated
      exact (emits_pure.mp hupdated).2

theorem seed_succeeds {tail key value : String} {t : List ControlEvent} {r : Except Error Unit}
    (h : Emits (seed tail key value) t r) : r = .ok () := by
  obtain ⟨answer, t', -, hanswer⟩ := emits_perform_bind.mp h
  exact (emits_pure.mp hanswer).2

/-- A part that never fails is followed by the rest. -/
theorem split_of_succeeds {p q : Control Unit} {t : List ControlEvent} {r : Except Error Unit}
    (hp : ∀ t r, Emits p t r → r = .ok ()) (h : Emits (p >>= fun _ => q) t r) :
    ∃ t₁ t₂, t = t₁ ++ t₂ ∧ Emits p t₁ (.ok ()) ∧ Emits q t₂ r := by
  rcases emits_bind.mp h with ⟨e, hfail, -⟩ | ⟨⟨⟩, t₁, t₂, ht, h₁, h₂⟩
  · cases hp _ _ hfail
  · exact ⟨t₁, t₂, ht, h₁, h₂⟩

/-- The provisioning of a run ensures each of the four maps. -/
theorem ensures_of_provision {contractId : Option ℕ} {imported env : Env} {t : List ControlEvent}
    {r : Except Error Unit} (h : Emits (provision contractId imported env) t r) {tail : String}
    (hmap : tail ∈ gateMaps) :
    ∃ t', t' ⊆ t ∧
      Emits (ensureMap contractId tail (aclOf tail (contractOnly contractId))) t' (.ok ()) := by
  obtain ⟨t₁, rest₁, rfl, hmandate, h⟩ := split_of_succeeds (fun _ _ => ensureMap_succeeds) h
  obtain ⟨t₂, rest₂, rfl, -, h⟩ := split_of_succeeds (fun _ _ => seed_succeeds) h
  obtain ⟨t₃, rest₃, rfl, hspent, h⟩ := split_of_succeeds (fun _ _ => ensureMap_succeeds) h
  obtain ⟨t₄, rest₄, rfl, hdispatched, h⟩ := split_of_succeeds (fun _ _ => ensureMap_succeeds) h
  obtain ⟨t₅, rest₅, rfl, hsecrets, -⟩ := split_of_succeeds (fun _ _ => ensureMap_succeeds) h
  simp only [gateMaps, List.mem_cons, List.not_mem_nil, or_false] at hmap
  rcases hmap with rfl | rfl | rfl | rfl
  · exact ⟨t₁, fun e he => by simp [he], hmandate⟩
  · exact ⟨t₃, fun e he => by simp [he], hspent⟩
  · exact ⟨t₄, fun e he => by simp [he], hdispatched⟩
  · exact ⟨t₅, fun e he => by simp [he], hsecrets⟩

/-- With an id, a map is created, or its access list is updated. -/
theorem granted_of_ensureMap {id : ℕ} {tail : String} {acl : Acl} {t : List ControlEvent}
    (h : Emits (ensureMap (some id) tail acl) t (.ok ())) (hupdates : Repointed t) :
    ∃ e ∈ t, aclWritten tail e.op = some acl ∧ Succeeded e.op e.res := by
  obtain ⟨created, t', rfl, hcreated⟩ := emits_perform_bind.mp h
  cases created with
  | ok u => exact ⟨_, List.mem_cons_self, if_pos rfl, rfl⟩
  | error e =>
    obtain ⟨updated, t'', rfl, -⟩ := emits_perform_bind.mp hcreated
    cases updated with
    | error e' => exact absurd (List.mem_cons_of_mem _ List.mem_cons_self) (hupdates tail acl e')
    | ok u => exact ⟨_, List.mem_cons_of_mem _ List.mem_cons_self, if_pos rfl, rfl⟩

theorem granted_of_setup {run : SetupRun} {t : List ControlEvent} {r : Except Error Unit} {id : ℕ}
    (h : Emits (setup run) t r) (hid : registeredId t = some id) (hupdates : Repointed t)
    {tail : String} (hmap : tail ∈ gateMaps) :
    ∃ e ∈ t, aclWritten tail e.op = some (aclOf tail (.only [id])) ∧ Succeeded e.op e.res := by
  rcases setup_cases h with ⟨hops, -⟩ | ⟨env, a, t', -, rfl, -, hprovision⟩
  · have hnone : registeredId t = none := by
      refine List.findSome?_eq_none_iff.mpr fun e he => ?_
      obtain ⟨op, x⟩ := e
      rcases hops _ he with rfl | rfl
      · rfl
      · rfl
    rw [hnone] at hid
    cases hid
  · rw [hid] at hprovision
    obtain ⟨t₁, hsub, hensure⟩ := ensures_of_provision hprovision hmap
    have hin : ∀ e ∈ t₁, e ∈ setupOpening a ++ t' :=
      fun e he => List.mem_append_right _ (hsub he)
    obtain ⟨e, he, hgrant⟩ := granted_of_ensureMap hensure
      fun u b x hx => hupdates u b x (hin _ hx)
    exact ⟨e, hin e he, hgrant⟩

/-! ## A run without an id -/

/-- Without an id, an access list that is there stays, and one that is created lets every
contract read. -/
theorem acl_of_unregistered {run : SetupRun} {t : List ControlEvent} {r : Except Error Unit}
    {s s' : Tenant} (h : Emits (setup run) t r) (ha : Along controlPlane s t s')
    (hid : registeredId t = none) (tail : String) :
    s'.acl tail = s.acl tail ∨ (s.acl tail = none ∧ s'.acl tail = some (aclOf tail .all)) := by
  refine ha.invariant (I := fun u =>
    u.acl tail = s.acl tail ∨ (s.acl tail = none ∧ u.acl tail = some (aclOf tail .all)))
    (fun e he u u' hstep hu => ?_) (.inl rfl)
  rcases hstep with heffect | ⟨-, rfl⟩
  · rw [acl_of_effect tail heffect]
    cases hwrites : aclWritten tail e.op with
    | none => exact hu
    | some acl =>
      rcases provisions_of_setup h he with hnone | ⟨env, -, hop⟩
      · rw [(hnone tail "").1] at hwrites
        cases hwrites
      · obtain ⟨op, x⟩ := e
        rw [hid] at hop
        cases op with
        | create v b =>
          rw [aclWritten] at hwrites
          split_ifs at hwrites with hv
          subst hv
          rw [← Option.some.inj hwrites, hop.2]
          rcases hu with hsame | ⟨-, hthere⟩
          · exact .inr ⟨hsame ▸ heffect.1, rfl⟩
          · rw [heffect.1] at hthere
            cases hthere
        | update v b => exact absurd rfl hop.2.2
        | _ => cases hwrites
  · exact hu

/-! ## Sessions of runs -/

/-- Runs of `setup.mjs`, with calls of the contract in between. -/
abbrev SetupSession : Tenant → List (Invocation ControlOp ControlOp.Res Error Unit SetupRun) →
    Tenant → Prop :=
  Session controlPlane contractRuns setup

section Runs
variable {is : List (Invocation ControlOp ControlOp.Res Error Unit SetupRun)}
  {i : Invocation ControlOp ControlOp.Res Error Unit SetupRun} {s : Tenant} {tail : String}

theorem acl_of_contractRuns {s s' : Tenant} (h : contractRuns s s') :
    (aclCell tail).read s' = (aclCell tail).read s :=
  congrFun h.1 tail

/-- A list that is set came from some run, and so is one of the four. -/
theorem granted_within {acl : Acl} (h : SetupSession Tenant.empty is s)
    (hacl : s.acl tail = some acl) (n : ℕ) :
    ContractReads tail ∧
      (acl.writers.Allows n → ContractWrites tail ∧ acl.readers.Allows n) := by
  rcases Cell.session_origin (c := aclCell tail) h (fun _ _ => acl_of_contractRuns) hacl with
    hempty | ⟨j, hj, e, he, hw⟩
  · cases hempty
  · obtain ⟨hmap, rfl⟩ := acl_of_setup (h.emits_of_mem hj) he hw
    refine ⟨contractReads_iff.mpr hmap, fun hn => ?_⟩
    rw [aclOf_readers]
    exact aclOf_writers.mp hn

/-- A last run whose updates go through settles the lists on its own id. -/
theorem acl_of_repointed {id : ℕ} (h : SetupSession Tenant.empty (is ++ [i]) s)
    (hid : registeredId i.trace = some id) (hupdates : Repointed i.trace)
    (hreads : ContractReads tail) : s.acl tail = some (aclOf tail (.only [id])) := by
  obtain ⟨s₁, s₂, hemits, halong, hrest⟩ := Cell.session_last h
  obtain ⟨e, he, hwrites, hsure⟩ :=
    granted_of_setup hemits hid hupdates (contractReads_iff.mp hreads)
  have hsettled : s₂.acl tail = some (aclOf tail (.only [id])) := by
    refine Cell.settles (c := aclCell tail) halong (fun e' he' => ?_) he hwrites hsure
    cases hw : (aclCell tail).writes e'.op with
    | none => exact .inl rfl
    | some acl =>
      rw [(acl_of_setup hemits he' hw).2, hid]
      exact .inr rfl
  exact (Cell.read_of_session_nil (c := aclCell tail) hrest
    fun _ _ => acl_of_contractRuns).trans hsettled

/-- A last run without an id, against the state in which it starts. -/
theorem exists_start_of_unregistered (h : SetupSession Tenant.empty (is ++ [i]) s) :
    ∃ before, SetupSession Tenant.empty is before ∧
      (registeredId i.trace = none → ∀ tail, s.acl tail = before.acl tail ∨
        (before.acl tail = none ∧ s.acl tail = some (aclOf tail .all))) := by
  obtain ⟨s₀, hbefore, hlast⟩ := h.split
  obtain ⟨s₁, s₂, hmoves, hemits, halong, hrest⟩ := hlast.uncons
  have hstart := hbefore.append (Session.of_env hmoves)
  rw [List.append_nil] at hstart
  refine ⟨s₁, hstart, fun hid tail => ?_⟩
  have hafter : s.acl tail = s₂.acl tail :=
    Cell.read_of_session_nil (c := aclCell tail) hrest fun _ _ => acl_of_contractRuns
  rw [hafter]
  exact acl_of_unregistered hemits halong hid tail

end Runs

/-- After any runs, only the contract writes, and only where its exports do. A run that gets an
id and whose updates go through leaves each of the four maps open to that contract alone; a run
that gets none leaves what is there, and each map that it creates open to every contract. -/
theorem setup_grants {is : List (Invocation ControlOp ControlOp.Res Error Unit SetupRun)}
    {i : Invocation ControlOp ControlOp.Res Error Unit SetupRun} {s : Tenant}
    (h : SetupSession Tenant.empty (is ++ [i]) s) :
    (∀ tail acl n, s.acl tail = some acl → ContractReads tail ∧
      (acl.writers.Allows n → ContractWrites tail ∧ acl.readers.Allows n)) ∧
    (∀ id, registeredId i.trace = some id → Repointed i.trace →
      ∀ tail, ContractReads tail → ∃ acl, s.acl tail = some acl ∧
        ∀ n, (acl.readers.Allows n ↔ n = id) ∧
          (acl.writers.Allows n ↔ n = id ∧ ContractWrites tail)) ∧
    ∃ before, SetupSession Tenant.empty is before ∧
      (registeredId i.trace = none → ∀ tail, s.acl tail = before.acl tail ∨
        (before.acl tail = none ∧ ∃ acl, s.acl tail = some acl ∧ ∀ n, acl.readers.Allows n)) := by
  refine ⟨fun tail acl n hacl => granted_within h hacl n, fun id hid hupdates tail hreads => ?_, ?_⟩
  · refine ⟨_, acl_of_repointed h hid hupdates hreads, fun n => ⟨?_, ?_⟩⟩
    · rw [aclOf_readers]
      exact List.mem_singleton
    · rw [aclOf_writers, and_comm]
      exact and_congr_left' List.mem_singleton
  · obtain ⟨before, hbefore, hkept⟩ := exists_start_of_unregistered h
    refine ⟨before, hbefore, fun hid tail => ?_⟩
    rcases hkept hid tail with hsame | ⟨hnone, hall⟩
    · exact .inl hsame
    · refine .inr ⟨hnone, _, hall, fun n => ?_⟩
      rw [aclOf_readers]
      trivial

/-! ## A sample run -/

/-- A control plane that registers contract 479 and carries out what it can. -/
def sampleControl : (op : ControlOp) → Tenant → op.Res × Tenant
  | .register _, s => (.ok (some 479), s)
  | .create tail acl, s =>
    match s.acl tail with
    | none => (.ok (), s.setAcl tail acl)
    | some _ => (.error (.error "map exists"), s)
  | .update tail acl, s =>
    match s.acl tail with
    | none => (.error (.error "no such map"), s)
    | some _ => (.ok (), s.setAcl tail acl)
  | .entrySet tail key value, s => (.ok (), s.setEntry tail key value)
  | .dispatchAction _, s => (.error hungUp, s)
  | .executeAction _, s => (.error hungUp, s)
  | .openSession, s => (.ok (), s)
  | .readWasm, s => (.ok (), s)
  | .submitUserInput, s => (.ok (), s)
  | .grantEgress _, s => (.ok (), s)

theorem controlPlane_sampleControl (op : ControlOp) (s : Tenant) :
    controlPlane op s (sampleControl op s).1 (sampleControl op s).2 := by
  cases op with
  | create tail acl =>
    rw [sampleControl]
    split
    · rename_i hnone
      exact .inl ⟨hnone, rfl⟩
    · exact .inr ⟨(fun h => nomatch h), rfl⟩
  | update tail acl =>
    rw [sampleControl]
    split
    · exact .inr ⟨(fun h => nomatch h), rfl⟩
    · rename_i acl' hsome
      exact .inl ⟨by rw [hsome]; exact Option.some_ne_none acl', rfl⟩
  | dispatchAction req => exact .inl ⟨rfl, rfl, rfl⟩
  | executeAction req => exact .inl ⟨rfl, rfl, rfl⟩
  | _ => exact .inl rfl

/-- A run with the broker's key in `agent/.env` only. -/
def sampleSetupRun : SetupRun where
  imported := fun name => if name = "T3N_API_KEY" ∨ name = "DID" then some "set" else none
  file := "BROKER_API_KEY=key"

def sampleSetup : Invocation ControlOp ControlOp.Res Error Unit SetupRun :=
  (invoke sampleControl setup sampleSetupRun Tenant.empty).1

theorem registeredId_sampleSetup : registeredId sampleSetup.trace = some 479 := by rfl

theorem repointed_sampleSetup : Repointed sampleSetup.trace := by
  have hnone : sampleSetup.trace.all (fun e => match e.op with
    | .update _ _ => false
    | _ => true) = true := by rfl
  intro tail acl e h
  exact Bool.false_ne_true (List.all_eq_true.mp hnone _ h)

theorem setup_grants_sample : ∃ acl : Acl,
    (invoke sampleControl setup sampleSetupRun Tenant.empty).2.acl "secrets" = some acl ∧
      ∀ n, (acl.readers.Allows n ↔ n = 479) ∧
        (acl.writers.Allows n ↔ n = 479 ∧ ContractWrites "secrets") := by
  have hsession : SetupSession Tenant.empty ([] ++ [sampleSetup]) _ :=
    session_invoke controlPlane_sampleControl contractRuns setup sampleSetupRun Tenant.empty
  exact (setup_grants hsession).2.1 479 registeredId_sampleSetup repointed_sampleSetup "secrets"
    (contractReads_iff.mpr (by decide))

end Gatekeeper.Agent

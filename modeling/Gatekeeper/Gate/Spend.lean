import Mathlib.Algebra.BigOperators.Group.List.Basic
import Gatekeeper.Gate.EntryPoints
import Gatekeeper.Gate.Sessions
import Gatekeeper.Lib.Transactions

/-!
# The spend counter

`spend` adds up, under one key a day, what it approved on that day. The invariant ties each
entry of the `spent` map to the history: it spells the exact sum, cut off at `u64::MAX`.
-/

namespace Gatekeeper.Gate

open Encoding Interaction Unsigned

/-! ## The runs of `spend` -/

/-- The calls every `spend` starts with. -/
def spendOpening (tid : Bytes) (nowSecs : UInt64) (a : Except String (Option Bytes)) :
    List HostEvent :=
  [⟨.tenantDid, tid⟩, ⟨.clusterTimestampSecs, nowSecs⟩,
    ⟨.kvGet (spentMap (hexEncode tid)) (utf8 (dayBucket nowSecs)), a⟩]

/-- The write of the new total. -/
def totalWrite (req : SpendReq) (tid : Bytes) (nowSecs before : UInt64) : HostOp :=
  .kvPut (spentMap (hexEncode tid)) (utf8 (dayBucket nowSecs))
    (utf8 (toString (saturatingAdd before req.action.amountCents)))

/-- Every complete run of `spend`: its calls with their answers, and its result. -/
inductive Spending (req : SpendReq) : List HostEvent → Except Fault SpendOut → Prop where
  /-- The day's entry cannot be read. -/
  | unreadable {tid nowSecs a f} : totalOf a = .error f →
      Spending req (spendOpening tid nowSecs a) (.error f)
  /-- The limit would be passed. -/
  | rejected {tid nowSecs a before l} : totalOf a = .ok before →
      admitsSpend req before = false → Logs l →
      Spending req (spendOpening tid nowSecs a ++ l) (.ok (spendOut req nowSecs before))
  /-- The new total cannot be written. -/
  | unwritten {tid nowSecs a before e f} : totalOf a = .ok before →
      admitsSpend req before = true →
      Spending req
        (spendOpening tid nowSecs a ++ [⟨totalWrite req tid nowSecs before, .error e⟩])
        (.error f)
  /-- The total is written. -/
  | admitted {tid nowSecs a before l} : totalOf a = .ok before →
      admitsSpend req before = true → Logs l →
      Spending req
        (spendOpening tid nowSecs a ++ ⟨totalWrite req tid nowSecs before, .ok ()⟩ :: l)
        (.ok (spendOut req nowSecs before))

/-- The write step of a run: none, or one that fails the run or goes through. -/
theorem emits_recordSpend {req : SpendReq} {tid : Bytes} {nowSecs before : UInt64}
    {t : List HostEvent} {r : Except Fault Unit}
    (h : Emits (recordSpend (hexEncode tid) (utf8 (dayBucket nowSecs)) req before) t r) :
    (admitsSpend req before = false ∧ t = [] ∧ r = .ok ()) ∨
    (admitsSpend req before = true ∧ ∃ e f,
      t = [⟨totalWrite req tid nowSecs before, .error e⟩] ∧ r = .error f) ∨
    (admitsSpend req before = true ∧
      t = [⟨totalWrite req tid nowSecs before, .ok ()⟩] ∧ r = .ok ()) := by
  unfold recordSpend at h
  split at h
  · rename_i hadmits
    rw [putTotal, kvPut, emits_perform_bind] at h
    obtain ⟨a, t', rfl, h⟩ := h
    rcases a with e | ⟨⟩
    · obtain ⟨rfl, rfl⟩ := emits_fail.mp h
      exact .inr (.inl ⟨hadmits, e, _, rfl, rfl⟩)
    · obtain ⟨rfl, rfl⟩ := emits_pure.mp h
      exact .inr (.inr ⟨hadmits, rfl, rfl⟩)
  · rename_i hadmits
    obtain ⟨rfl, rfl⟩ := emits_pure.mp h
    exact .inl ⟨Bool.eq_false_iff.mpr hadmits, rfl, rfl⟩

theorem spending_of_emits {req : SpendReq} {t : List HostEvent} {r : Except Fault SpendOut}
    (h : Emits (spendWasm req) t r) : Spending req t r := by
  unfold spendWasm at h
  rw [emits_perform_bind] at h
  obtain ⟨tid, t₁, rfl, h⟩ := h
  rw [emits_perform_bind] at h
  obtain ⟨nowSecs, t₂, rfl, h⟩ := h
  replace h := emits_perform_bind.mp h
  obtain ⟨a, t₃, rfl, h⟩ := h
  rw [emits_bind] at h
  rcases h with ⟨f, hread, rfl⟩ | ⟨before, t₄, t₅, rfl, hread, h⟩
  · obtain ⟨rfl, hf⟩ := emits_ofExcept.mp hread
    exact .unreadable hf.symm
  obtain ⟨rfl, hbefore⟩ := emits_ofExcept.mp hread
  rw [emits_bind] at h
  rcases h with ⟨f, hrecord, rfl⟩ | ⟨_, t₆, t₇, rfl, hrecord, h⟩
  · rcases emits_recordSpend hrecord with
      ⟨-, -, hr⟩ | ⟨hadmits, e, f', rfl, -⟩ | ⟨-, -, hr⟩
    · cases hr
    · exact .unwritten hbefore.symm hadmits
    · cases hr
  · obtain ⟨hlogs, rfl⟩ := emits_logInfo_pure h
    rcases emits_recordSpend hrecord with
      ⟨hadmits, rfl, -⟩ | ⟨-, e, f', -, hr⟩ | ⟨hadmits, rfl, -⟩
    · exact .rejected hbefore.symm hadmits hlogs
    · cases hr
    · exact .admitted hbefore.symm hadmits hlogs

/-! ## The day's entry -/

/-- The name of a tenant's map of totals. -/
def spentOf (tid : Bytes) : String := spentMap (hexEncode tid)

/-- The key of a UTC day. -/
def dayKey (day : UInt64) : Bytes := utf8 s!"d{day}"

theorem dayKey_inj {day day' : UInt64} (h : dayKey day = dayKey day') : day = day' := by
  have hchars := congrArg String.toList (utf8_injective h)
  replace hchars : ("d" ++ toString day).toList = ("d" ++ toString day').toList := hchars
  rw [String.toList_append, String.toList_append] at hchars
  exact toString_amount_inj (String.toList_inj.mp (List.append_cancel_left hchars))

/-- The total an entry stands for: what it spells, and 0 when there is none. -/
def Spells (entry : Option Bytes) (total : ℕ) : Prop :=
  match entry with
  | none => total = 0
  | some b => ∃ n, entryTotal b = some n ∧ n.toNat = total

theorem spells_toString (n : UInt64) : Spells (some (utf8 (toString n))) n.toNat := by
  refine ⟨n, ?_, rfl⟩
  rw [entryTotal, ofUtf8_utf8, Option.bind_some, parseU64_toString]

/-- A call that can read an entry starts from the total it stands for. -/
theorem totalOf_spells {entry : Option Bytes} {total : ℕ} {before : UInt64}
    (h : Spells entry total) (hread : totalOf (.ok entry) = .ok before) : before.toNat = total := by
  cases entry with
  | none =>
    obtain rfl : total = 0 := h
    cases hread
    rfl
  | some b =>
    obtain ⟨n, hn, rfl⟩ := h
    rw [totalOf, hn] at hread
    cases hread
    rfl

/-! ## What one call does to it -/

/-- The clock a trace was answered. -/
def clockOf (t : List HostEvent) : Option UInt64 :=
  t.findSome? fun e =>
    match e with
    | ⟨.clusterTimestampSecs, nowSecs⟩ => some nowSecs
    | _ => none

/-- The day a trace ran on. -/
def dayOf (t : List HostEvent) : Option UInt64 := (clockOf t).map (· / 86400)

abbrev SpendInvocation : Type := Invocation HostOp HostOp.Res Fault SpendOut SpendReq

/-- Whether a call approved its amount. -/
def approvedBy : Except Fault SpendOut → Bool
  | .ok out => out.decision == "approved"
  | .error _ => false

theorem approvedBy_spendOut (req : SpendReq) (nowSecs before : UInt64) :
    approvedBy (.ok (spendOut req nowSecs before)) = admitsSpend req before := by
  unfold approvedBy spendOut spendDecision
  cases admitsSpend req before <;> rfl

/-- What one committed or rolled back call did: nothing when it failed, and otherwise it
reports the total it read, and stores the new one when it approved. -/
inductive Settled (tid : Bytes) (s : Kv) (i : SpendInvocation) (nowSecs : UInt64) : Kv → Prop where
  | failed {f} : i.result = .error f → Settled tid s i nowSecs s
  | rejected {before} : totalOf (.ok (s (spentOf tid) (dayKey (nowSecs / 86400)))) = .ok before →
      i.result = .ok (spendOut i.request nowSecs before) →
      admitsSpend i.request before = false → Settled tid s i nowSecs s
  | admitted {before} : totalOf (.ok (s (spentOf tid) (dayKey (nowSecs / 86400)))) = .ok before →
      i.result = .ok (spendOut i.request nowSecs before) →
      admitsSpend i.request before = true →
      Settled tid s i nowSecs (s.put (spentOf tid) (dayKey (nowSecs / 86400))
        (utf8 (toString (saturatingAdd before i.request.action.amountCents))))

/-- The opening of a run reads the entry of the tenant's day. -/
theorem along_spendOpening {tid tid' : Bytes} {nowSecs : UInt64}
    {a : Except String (Option Bytes)} {s s' : Kv} {t : List HostEvent}
    (h : Along (kvHost tid) s (spendOpening tid' nowSecs a ++ t) s') :
    tid' = tid ∧ (∀ v, a = .ok v → v = s (spentOf tid) (dayKey (nowSecs / 86400))) ∧
      Along (kvHost tid) s t s' := by
  simp only [spendOpening, List.cons_append, List.nil_append, along_cons] at h
  obtain ⟨s₁, ⟨rfl, rfl⟩, s₂, hclock, s₃, ⟨rfl, hv⟩, hrest⟩ := h
  obtain rfl : s₃ = s₁ := hclock
  exact ⟨rfl, hv, hrest⟩

/-- A total was read, so the host answered with the entry. -/
theorem totalOf_read {tid : Bytes} {nowSecs before : UInt64}
    {a : Except String (Option Bytes)} {s : Kv}
    (ha : ∀ v, a = .ok v → v = s (spentOf tid) (dayKey (nowSecs / 86400)))
    (hread : totalOf a = .ok before) :
    totalOf (.ok (s (spentOf tid) (dayKey (nowSecs / 86400)))) = .ok before := by
  cases a with
  | error e => cases hread
  | ok v => rwa [← ha v rfl]

theorem settled_of_transaction {tid : Bytes} {s s' : Kv} {i : SpendInvocation}
    (h : Transaction (kvHost tid) spendWasm s i s') :
    ∃ nowSecs, clockOf i.trace = some nowSecs ∧ Settled tid s i nowSecs s' := by
  obtain ⟨s₁, hemits, halong, hok, herror⟩ := h.along
  have hspending := spending_of_emits hemits
  obtain ⟨req, t, r⟩ := i
  dsimp only at hspending halong hok herror ⊢
  cases hspending with
  | @unreadable tid' nowSecs a f hread =>
    obtain rfl := herror _ rfl
    exact ⟨nowSecs, rfl, .failed rfl⟩
  | @rejected tid' nowSecs a before l hread hadmits hl =>
    obtain rfl := hok _ rfl
    obtain ⟨rfl, ha, hrest⟩ := along_spendOpening halong
    obtain rfl := along_of_no_writes hrest hl.writes
    exact ⟨nowSecs, rfl, .rejected (totalOf_read ha hread) rfl hadmits⟩
  | @unwritten tid' nowSecs a before e f hread hadmits =>
    obtain rfl := herror _ rfl
    exact ⟨nowSecs, rfl, .failed rfl⟩
  | @admitted tid' nowSecs a before l hread hadmits hl =>
    obtain rfl := hok _ rfl
    obtain ⟨rfl, ha, hrest⟩ := along_spendOpening halong
    obtain ⟨s₂, hput, hlogs⟩ := along_cons.mp hrest
    obtain rfl := along_of_no_writes hlogs hl.writes
    -- the write went through, so it is not the one that may have failed
    have hstored : s' = s.put (spentOf tid') (dayKey (nowSecs / 86400))
        (utf8 (toString (saturatingAdd before req.action.amountCents))) := by
      rcases hput with hput | ⟨-, e, he⟩
      · exact hput
      · cases he
    rw [hstored]
    exact ⟨nowSecs, rfl, .admitted (totalOf_read ha hread) rfl hadmits⟩

/-! ## What a run of calls does to it -/

/-- What a call added to the sum approved on a day. -/
def addedOn (day : UInt64) (i : SpendInvocation) : ℕ :=
  if dayOf i.trace = some day ∧ approvedBy i.result = true then
    i.request.action.amountCents.toNat
  else 0

/-- The exact sum of the amounts approved on a day. -/
def approvedOn (day : UInt64) (is : List SpendInvocation) : ℕ := (is.map (addedOn day)).sum

@[simp] theorem approvedOn_snoc (day : UInt64) (is : List SpendInvocation) (i : SpendInvocation) :
    approvedOn day (is ++ [i]) = approvedOn day is + addedOn day i := by
  simp [approvedOn]

theorem addedOn_of_not_approved {day : UInt64} {i : SpendInvocation}
    (h : approvedBy i.result = false) : addedOn day i = 0 := by
  rw [addedOn, if_neg (by simp [h])]

theorem addedOn_of_approved {nowSecs : UInt64} {i : SpendInvocation}
    (hclock : clockOf i.trace = some nowSecs) (h : approvedBy i.result = true) :
    addedOn (nowSecs / 86400) i = i.request.action.amountCents.toNat := by
  rw [addedOn, dayOf, hclock, if_pos ⟨rfl, h⟩]

theorem addedOn_of_ne {day nowSecs : UInt64} {i : SpendInvocation}
    (hclock : clockOf i.trace = some nowSecs) (h : day ≠ nowSecs / 86400) : addedOn day i = 0 := by
  rw [addedOn, dayOf, hclock, if_neg]
  rintro ⟨hday, -⟩
  exact h (Option.some.inj hday).symm

/-- Every entry of the map stands for what was approved on its day, cut off at `u64::MAX`. -/
def Tallies (tid : Bytes) (hist : List SpendInvocation) (s : Kv) : Prop :=
  ∀ day, Spells (s (spentOf tid) (dayKey day)) (min (approvedOn day hist) maxU64)

section Step

variable {tid : Bytes} {s s' : Kv} {hist : List SpendInvocation} {i : SpendInvocation}
  {nowSecs before : UInt64}

/-- The total a call starts from. -/
theorem Tallies.read_eq (h : Tallies tid hist s)
    (hread : totalOf (.ok (s (spentOf tid) (dayKey (nowSecs / 86400)))) = .ok before) :
    before.toNat = min (approvedOn (nowSecs / 86400) hist) maxU64 :=
  totalOf_spells (h _) hread

/-- The total an approved call ends with. Cutting off twice is cutting off once. -/
theorem Tallies.after (h : Tallies tid hist s)
    (hread : totalOf (.ok (s (spentOf tid) (dayKey (nowSecs / 86400)))) = .ok before)
    (hclock : clockOf i.trace = some nowSecs) (happ : approvedBy i.result = true) :
    (saturatingAdd before i.request.action.amountCents).toNat =
      min (approvedOn (nowSecs / 86400) (hist ++ [i])) maxU64 := by
  rw [toNat_saturatingAdd, h.read_eq hread, approvedOn_snoc, addedOn_of_approved hclock happ]
  omega

/-- One more call, and the entries stand for one more history. -/
theorem Tallies.step (h : Tallies tid hist s) (hclock : clockOf i.trace = some nowSecs)
    (hi : Settled tid s i nowSecs s') : Tallies tid (hist ++ [i]) s' := by
  intro day
  -- only an approval changes the map, and it changes the entry of its day
  cases hi with
  | failed hr =>
    rw [approvedOn_snoc, addedOn_of_not_approved (by rw [hr]; rfl)]
    exact h day
  | rejected _ hr hadmits =>
    rw [approvedOn_snoc, addedOn_of_not_approved (by rw [hr, approvedBy_spendOut, hadmits])]
    exact h day
  | admitted hread hr hadmits =>
    by_cases hday : day = nowSecs / 86400
    · subst hday
      rw [Kv.put_self, ← h.after hread hclock (by rw [hr, approvedBy_spendOut, hadmits])]
      exact spells_toString _
    · rw [Kv.put_of_ne_key _ _ _ fun hkey => hday (dayKey_inj hkey), approvedOn_snoc,
        addedOn_of_ne hclock hday]
      exact h day

/-- What a call leaves of the map and says of it, given what came before. -/
structure Accounts (tid : Bytes) (hist : List SpendInvocation) (i : SpendInvocation)
    (nowSecs : UInt64) (s s' : Kv) : Prop where
  otherDays : ∀ key, key ≠ dayKey (nowSecs / 86400) →
    s' (spentOf tid) key = s (spentOf tid) key
  unapproved : approvedBy i.result = false → s' = s
  approved : ∀ out, i.result = .ok out → (out.decision = "approved" ↔
    min (approvedOn (nowSecs / 86400) hist + i.request.action.amountCents.toNat) maxU64 ≤
      i.request.dailyLimitCents.toNat)
  within : ∀ out, i.result = .ok out → out.decision = "approved" →
    i.request.dailyLimitCents.toNat < maxU64 →
    approvedOn (nowSecs / 86400) (hist ++ [i]) ≤ i.request.dailyLimitCents.toNat
  before : ∀ out, i.result = .ok out →
    out.spentBefore.toNat = min (approvedOn (nowSecs / 86400) hist) maxU64
  after : ∀ out, i.result = .ok out →
    out.spentAfter.toNat = min (approvedOn (nowSecs / 86400) (hist ++ [i])) maxU64
  remaining : ∀ out, i.result = .ok out → out.remaining.toNat =
    i.request.dailyLimitCents.toNat - min (approvedOn (nowSecs / 86400) (hist ++ [i])) maxU64
  echoed : ∀ out, i.result = .ok out → out.dailyLimitCents = i.request.dailyLimitCents ∧
    out.window = dayBucket nowSecs ∧ out.windowRequested = i.request.window

theorem admitsSpend_iff {req : SpendReq} {before : UInt64} :
    admitsSpend req before = true ↔
      min (before.toNat + req.action.amountCents.toNat) maxU64 ≤ req.dailyLimitCents.toNat := by
  rw [admitsSpend, decide_eq_true_iff, UInt64.le_iff_toNat_le, toNat_saturatingAdd]

theorem spendDecision_approved {req : SpendReq} {before : UInt64} :
    spendDecision req before = "approved" ↔ admitsSpend req before = true := by
  unfold spendDecision
  cases admitsSpend req before <;> simp

/-- A call that returned reports the total it read and the one it left. -/
theorem Tallies.reported (h : Tallies tid hist s) (hclock : clockOf i.trace = some nowSecs)
    (hread : totalOf (.ok (s (spentOf tid) (dayKey (nowSecs / 86400)))) = .ok before)
    (hr : i.result = .ok (spendOut i.request nowSecs before)) :
    (settled i.request before).toNat =
      min (approvedOn (nowSecs / 86400) (hist ++ [i])) maxU64 := by
  have happ : approvedBy i.result = admitsSpend i.request before := by
    rw [hr, approvedBy_spendOut]
  unfold settled
  cases hadmits : admitsSpend i.request before with
  | false =>
    rw [if_neg (by decide), h.read_eq hread, approvedOn_snoc,
      addedOn_of_not_approved (happ.trans hadmits), Nat.add_zero]
  | true => exact h.after hread hclock (happ.trans hadmits)

theorem Tallies.accounts (h : Tallies tid hist s) (hclock : clockOf i.trace = some nowSecs)
    (hi : Settled tid s i nowSecs s') : Accounts tid hist i nowSecs s s' := by
  -- a failed call has no output, and a call that returned has the output of its total
  have hother : ∀ key, key ≠ dayKey (nowSecs / 86400) →
      s' (spentOf tid) key = s (spentOf tid) key := by
    intro key hkey
    cases hi with
    | failed => rfl
    | rejected => rfl
    | admitted => exact Kv.put_of_ne_key _ _ _ hkey
  have hout : ∀ out, i.result = .ok out → ∃ before,
      totalOf (.ok (s (spentOf tid) (dayKey (nowSecs / 86400)))) = .ok before ∧
        out = spendOut i.request nowSecs before ∧
        i.result = .ok (spendOut i.request nowSecs before) := by
    intro out hr
    cases hi with
    | failed hf =>
      rw [hf] at hr
      cases hr
    | rejected hread hr' => exact ⟨_, hread, Except.ok.inj (hr.symm.trans hr'), hr'⟩
    | admitted hread hr' => exact ⟨_, hread, Except.ok.inj (hr.symm.trans hr'), hr'⟩
  refine ⟨hother, ?_, ?_, ?_, ?_, ?_, ?_, ?_⟩
  · intro happ
    cases hi with
    | failed => rfl
    | rejected => rfl
    | admitted _ hr hadmits =>
      rw [hr, approvedBy_spendOut, hadmits] at happ
      cases happ
  · intro out hr
    obtain ⟨before, hread, rfl, -⟩ := hout out hr
    rw [show (spendOut i.request nowSecs before).decision = spendDecision i.request before from rfl,
      spendDecision_approved, admitsSpend_iff, h.read_eq hread]
    omega
  · intro out hr hdecision hlimit
    obtain ⟨before, hread, rfl, hr'⟩ := hout out hr
    have hadmits : admitsSpend i.request before = true := spendDecision_approved.mp hdecision
    have hafter := h.after hread hclock (by rw [hr', approvedBy_spendOut, hadmits])
    rw [toNat_saturatingAdd] at hafter
    have hle := admitsSpend_iff.mp hadmits
    -- below the cut-off the entry is the exact sum
    omega
  · intro out hr
    obtain ⟨before, hread, rfl, -⟩ := hout out hr
    exact h.read_eq hread
  · intro out hr
    obtain ⟨before, hread, rfl, hr'⟩ := hout out hr
    exact h.reported hclock hread hr'
  · intro out hr
    obtain ⟨before, hread, rfl, hr'⟩ := hout out hr
    rw [← h.reported hclock hread hr']
    exact toNat_saturatingSub _ _
  · intro out hr
    obtain ⟨before, -, rfl, -⟩ := hout out hr
    exact ⟨rfl, rfl, rfl⟩

end Step

/-! ## The caller's window -/

/-- The request with another window. -/
def SpendReq.withWindow (req : SpendReq) (w : String) : SpendReq := { req with window := w }

/-- The output with another window echoed. -/
def SpendOut.withRequested (out : SpendOut) (w : String) : SpendOut :=
  { out with windowRequested := w }

/-- The caller's window changes nothing but its echo. -/
theorem spendWasm_withWindow (req : SpendReq) (w : String) :
    spendWasm (req.withWindow w) = spendWasm req >>= fun out => pure (out.withRequested w) := by
  simp only [spendWasm, bind_assoc, pure_bind]
  rfl

/-! ## The counter -/

/-- What may happen to the tenant's maps between two calls: the `spent` map is written by
the contract alone. -/
def SpentStep (tid : Bytes) (s s' : Kv) : Prop :=
  ∀ key, s' (spentOf tid) key = s (spentOf tid) key

/-- The spend counter is exact, and the caller has no hand in it. After any run of calls
from an empty `spent` map each entry stands for the sum approved on its day; each call
accounts for itself against the calls before it; and the caller's window is only echoed. -/
theorem spend_counter_exact {tid : Bytes} {s s' : Kv} {is : List SpendInvocation}
    (h : Transactions (kvHost tid) (SpentStep tid) spendWasm s is s')
    (hempty : ∀ key, s (spentOf tid) key = none) :
    Tallies tid is s' ∧
    (∀ l₁ i l₂, is = l₁ ++ i :: l₂ → ∃ nowSecs s₁ s₂, clockOf i.trace = some nowSecs ∧
      Transactions (kvHost tid) (SpentStep tid) spendWasm s l₁ s₁ ∧
      Transaction (kvHost tid) spendWasm s₁ i s₂ ∧
      Transactions (kvHost tid) (SpentStep tid) spendWasm s₂ l₂ s' ∧
      Accounts tid l₁ i nowSecs s₁ s₂) ∧
    ∀ req w, spendWasm (req.withWindow w) =
      spendWasm req >>= fun out => pure (out.withRequested w) := by
  have hstart : Tallies tid [] s := by
    intro day
    rw [hempty]
    rfl
  have htallies : ∀ {is s'}, Transactions (kvHost tid) (SpentStep tid) spendWasm s is s' →
      Tallies tid is s' := by
    intro is s' h
    refine h.history ?_ ?_ hstart
    · intro hist s s' henv ht day
      rw [henv]
      exact ht day
    · intro hist s i s' hi ht
      obtain ⟨nowSecs, hclock, hsettled⟩ := settled_of_transaction hi
      exact ht.step hclock hsettled
  refine ⟨htallies h, ?_, spendWasm_withWindow⟩
  rintro l₁ i l₂ rfl
  obtain ⟨s₁, s₂, hbefore, hi, hafter⟩ := h.split
  obtain ⟨nowSecs, hclock, hsettled⟩ := settled_of_transaction hi
  exact ⟨nowSecs, s₁, s₂, hclock, hbefore, hi, hafter,
    (htallies hbefore).accounts hclock hsettled⟩

/-- A spend of the sample tenant's agent. -/
def sampleSpend (amountCents dailyLimitCents : UInt64) : SpendReq where
  action := { sampleAction with amountCents := amountCents }
  dailyLimitCents := dailyLimitCents
  window := "d0"

theorem sampleKv_spent (key : Bytes) : sampleKv (spentOf sampleTid) key = none := by
  rw [sampleKv, if_neg (by decide), if_neg (by decide)]

theorem spend_counter_exact_sample :
    Tallies sampleTid
      (runTransactions sampleHost spendWasm [sampleSpend 60 100, sampleSpend 60 100] sampleKv).1
      (runTransactions sampleHost spendWasm [sampleSpend 60 100, sampleSpend 60 100]
        sampleKv).2 :=
  (spend_counter_exact (transactions_runTransactions kvHost_sampleHost _ _ _ _)
    sampleKv_spent).1

end Gatekeeper.Gate

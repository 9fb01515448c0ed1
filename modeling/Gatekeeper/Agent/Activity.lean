import Mathlib.Data.Finset.Card
import Gatekeeper.Lib.Paging

/-!
# The activity ledger

`readActivity` of `audit.mjs` follows the service's cursor through the pages of the ledger, and
`reconcile` counts calls in what it read. Against a service that keeps its contract the newest
entries are read, each once.
-/

namespace Gatekeeper.Agent

open Paging

/-! ## The functions -/

structure LedgerEntry where
  seqNo : ℕ
  contract : String
  function : String
  outcome : String
deriving DecidableEq

structure ActivityRequest where
  limit : ℕ
  beforeSeq : Option ℕ

/-- What `getActivityLog` resolves to. `none` stands for a member that is missing or `null`. -/
structure ActivityPage where
  entries : Option (List LedgerEntry)
  nextSeq : Option ℕ

/-- What the service answers to each of its calls. -/
abbrev ActivityLog := ℕ → ActivityRequest → ActivityPage

/-- `before ? {before_seq: before} : {}`: zero is not sent. -/
def sentBefore : Option ℕ → Option ℕ
  | some 0 => none
  | before => before

/-- The loop of `readActivity`, from one call on. -/
def readFrom (getActivityLog : ActivityLog) (limit pageSize call : ℕ) (before : Option ℕ)
    (entries : List LedgerEntry) : List LedgerEntry :=
  if entries.length < limit then
    let page := getActivityLog call ⟨min pageSize (limit - entries.length), sentBefore before⟩
    let got := page.entries.getD []
    if got = [] then entries ++ got
    else
      match page.nextSeq with
      | none => entries ++ got
      | some next => readFrom getActivityLog limit pageSize (call + 1) (some next) (entries ++ got)
  else entries
termination_by limit - entries.length
decreasing_by
  have hgot : 0 < got.length := List.length_pos_iff.mpr (by assumption)
  have hlength : (entries ++ got).length = entries.length + got.length := List.length_append
  show limit - (entries ++ got).length < limit - entries.length
  omega

def readActivity (getActivityLog : ActivityLog) (limit pageSize : ℕ) : List LedgerEntry :=
  readFrom getActivityLog limit pageSize 0 none []

structure AgentRow where
  decision : String
  dispatched : Bool

structure Reconciliation where
  agentRows : ℕ
  agentClaimedDispatched : ℕ
  ledgerCalls : ℕ
  ledgerSuccessful : ℕ
  ledgerErrored : ℕ
  consistent : Bool

/-- The calls of a function, on any contract where none is given. -/
def isCall (contract : Option String) (fn : String) (e : LedgerEntry) : Bool :=
  (contract.all fun c => c = "" || e.contract = c) && e.function = fn

def succeeded (e : LedgerEntry) : Bool := e.outcome = "success"

def reconcile (agentRows : List AgentRow) (entries : List LedgerEntry)
    (contract : Option String) (fn : String) : Reconciliation :=
  let calls := entries.filter (isCall contract fn)
  let ok := (calls.filter succeeded).length
  let claimedDispatched := (agentRows.filter (·.dispatched)).length
  { agentRows := agentRows.length
    agentClaimedDispatched := claimedDispatched
    ledgerCalls := calls.length
    ledgerSuccessful := ok
    ledgerErrored := calls.length - ok
    consistent := claimedDispatched ≤ ok }

/-! ## The service's contract -/

/-- Each answer is a page of the ledger, with at least one entry, where there is one, and at most
as many as were asked for. -/
def ServesLedger (getActivityLog : ActivityLog) (ledger : List LedgerEntry) : Prop :=
  ∀ call request, 1 ≤ request.limit → ∃ m, 1 ≤ m ∧ m ≤ request.limit ∧
    getActivityLog call request =
      ⟨some ((below LedgerEntry.seqNo ledger request.beforeSeq).take m),
        cursorAfter LedgerEntry.seqNo (below LedgerEntry.seqNo ledger request.beforeSeq) m⟩

variable {getActivityLog : ActivityLog} {ledger : List LedgerEntry} {limit pageSize : ℕ}

/-- The loop goes on from a cursor that is sent. -/
theorem sentBefore_of_cursorAfter {l : List LedgerEntry} {m next : ℕ}
    (hl : Descending LedgerEntry.seqNo l) (h : cursorAfter LedgerEntry.seqNo l m = some next) :
    sentBefore (some next) = some next := by
  obtain ⟨e, -, hlt⟩ := exists_below hl h
  cases next with
  | zero => exact absurd hlt (Nat.not_lt_zero _)
  | succ next => rfl

theorem descending_below (hledger : Descending LedgerEntry.seqNo ledger) (before : Option ℕ) :
    Descending LedgerEntry.seqNo (below LedgerEntry.seqNo ledger before) := by
  cases before with
  | none => exact hledger
  | some b => exact List.Pairwise.filter _ hledger

/-- What a split into read entries and the rest says about the newest entries. -/
theorem take_of_splits {entries : List LedgerEntry} {before : Option ℕ} {n : ℕ}
    (h : Splits LedgerEntry.seqNo ledger entries before) (hlen : entries.length ≤ n) :
    ledger.take n =
      entries ++ (below LedgerEntry.seqNo ledger before).take (n - entries.length) := by
  have htake := congrArg (List.take n) h
  rw [List.take_append, List.take_of_length_le hlen] at htake
  exact htake.symm

/-- From a place where the entries read and those below the cursor make up the ledger, the loop
reads the newest `limit` entries. -/
theorem readFrom_eq_take (hledger : Descending LedgerEntry.seqNo ledger)
    (hserves : ServesLedger getActivityLog ledger) (hpage : 1 ≤ pageSize) {call : ℕ}
    {before : Option ℕ} {entries : List LedgerEntry} (hlen : entries.length ≤ limit)
    (hsplit : Splits LedgerEntry.seqNo ledger entries (sentBefore before)) :
    readFrom getActivityLog limit pageSize call before entries = ledger.take limit := by
  induction hn : limit - entries.length using Nat.strong_induction_on
    generalizing call before entries with
  | _ n ih =>
    subst hn
    have htake := take_of_splits hsplit hlen
    rw [readFrom]
    by_cases hmore : entries.length < limit
    · rw [if_pos hmore]
      have hasked : 1 ≤ min pageSize (limit - entries.length) := le_min hpage (by omega)
      obtain ⟨m, hpos, hm, hanswer⟩ := hserves call ⟨_, sentBefore before⟩ hasked
      have hroom : m ≤ limit - entries.length := hm.trans (min_le_right _ _)
      rw [hanswer]
      dsimp only [Option.getD_some]
      by_cases hgot : (below LedgerEntry.seqNo ledger (sentBefore before)).take m = []
      · -- nothing is below the cursor
        have hnil : below LedgerEntry.seqNo ledger (sentBefore before) = [] := by
          rcases List.take_eq_nil_iff.mp hgot with h | h
          · omega
          · exact h
        rw [if_pos hgot, hgot, htake, hnil, List.take_nil]
      · rw [if_neg hgot]
        cases hnext : cursorAfter LedgerEntry.seqNo
            (below LedgerEntry.seqNo ledger (sentBefore before)) m with
        | none =>
          obtain ⟨hall, hlength⟩ := take_of_cursorAfter hpos hnext
          rw [htake, hall, List.take_of_length_le (hlength.trans hroom)]
        | some next =>
          have hsent := sentBefore_of_cursorAfter (descending_below hledger _) hnext
          have hgrown : (entries ++
              (below LedgerEntry.seqNo ledger (sentBefore before)).take m).length ≤ limit := by
            rw [List.length_append]
            have := List.length_take_le m (below LedgerEntry.seqNo ledger (sentBefore before))
            omega
          have hpositive := List.length_pos_iff.mpr hgot
          refine ih _ ?_ hgrown ?_ rfl
          · rw [List.length_append]
            omega
          · rw [hsent]
            exact hsplit.next hledger hnext
    · rw [if_neg hmore, htake, Nat.sub_eq_zero_of_le (Nat.not_lt.mp hmore), List.take_zero,
        List.append_nil]

/-! ## What is read and counted -/

/-- Against a service that keeps its contract, `readActivity` returns the newest entries, and no
successful call is counted twice. -/
theorem readActivity_exact (hledger : Descending LedgerEntry.seqNo ledger)
    (hserves : ServesLedger getActivityLog ledger) (hpage : 1 ≤ pageSize) :
    readActivity getActivityLog limit pageSize = ledger.take limit ∧
      ((readActivity getActivityLog limit pageSize).map LedgerEntry.seqNo).Nodup ∧
      ∀ agentRows contract fn,
        (reconcile agentRows (readActivity getActivityLog limit pageSize) contract
            fn).ledgerSuccessful =
          (((ledger.take limit).filter fun e =>
            isCall contract fn e && succeeded e).map LedgerEntry.seqNo).toFinset.card := by
  have hread : readActivity getActivityLog limit pageSize = ledger.take limit :=
    readFrom_eq_take hledger hserves hpage (Nat.zero_le _) (splits_start _ _)
  have hnodup : ∀ {l : List LedgerEntry}, l.Sublist ledger →
      (l.map LedgerEntry.seqNo).Nodup := by
    intro l hl
    rw [List.Nodup, List.pairwise_map]
    exact (hledger.sublist hl).imp fun hlt => (ne_of_lt hlt).symm
  rw [hread]
  refine ⟨rfl, hnodup (List.take_sublist _ _), fun agentRows contract fn => ?_⟩
  rw [List.toFinset_card_of_nodup
    (hnodup (List.filter_sublist.trans (List.take_sublist _ _))), List.length_map, reconcile]
  dsimp only
  rw [List.filter_filter]
  exact congrArg List.length (List.filter_congr fun e _ => Bool.and_comm _ _)

/-- A service that sends one entry at first and as many as it may afterwards. -/
def slowStart (ledger : List LedgerEntry) : ActivityLog := fun call request =>
  let m := if call = 0 then 1 else request.limit
  ⟨some ((below LedgerEntry.seqNo ledger request.beforeSeq).take m),
    cursorAfter LedgerEntry.seqNo (below LedgerEntry.seqNo ledger request.beforeSeq) m⟩

theorem slowStart_serves (ledger : List LedgerEntry) :
    ServesLedger (slowStart ledger) ledger := by
  intro call request hlimit
  refine ⟨if call = 0 then 1 else request.limit, ?_, ?_, rfl⟩
  · split_ifs
    · exact Nat.le_refl 1
    · exact hlimit
  · split_ifs
    · exact hlimit
    · exact Nat.le_refl _

def sampleLedger : List LedgerEntry :=
  [⟨7, "z:tenant:gate", "execute_action", "success"⟩,
    ⟨3, "z:tenant:gate", "execute_action", "error"⟩, ⟨0, "z:tenant:gate", "decide", "success"⟩]

theorem readActivity_sample : readActivity (slowStart sampleLedger) 200 2 = sampleLedger := by
  have hledger : Descending LedgerEntry.seqNo sampleLedger := by
    unfold Descending
    decide
  exact (readActivity_exact hledger (slowStart_serves _) (by decide)).1

end Gatekeeper.Agent

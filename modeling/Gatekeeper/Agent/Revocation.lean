import Gatekeeper.Agent.PublishedLists

/-!
# `revocation.mjs`: is a credential revoked

The status list a credential names is asked first, the registry where the list gives no answer.
Of all the status entries, in both of their placements, only one is asked, so the others count
exactly where `EntriesCount` says.
-/

namespace Gatekeeper.Agent

open Bitstring Encoding Js

/-! ## The two methods -/

/-- `isRevoked` of a configured registry, for a credential id and an issuer. -/
abbrev Registry : Type := Value → Value → Except Error Bool

structure RevocationReport where
  checked : Bool
  revoked : Bool
  reason : String

/-- The registry's answer. Without a registry, and where it throws, nothing is checked. -/
def checkRevocation (N : Node) (registry : Option Registry) (failClosed : Bool)
    (vcId issuer : Value) : RevocationReport :=
  match registry with
  | none => {
      checked := false
      revoked := failClosed
      reason := "revocation registry not configured (set REVOCATION_REGISTRY_ADDRESS + " ++
        "REVOCATION_RPC_URL)" }
  | some isRevoked =>
    match isRevoked vcId issuer with
    | .ok revoked => {
        checked := true
        revoked := revoked
        reason := if revoked then "credential revoked on-chain" else "not revoked" }
    | .error e => {
        checked := false
        revoked := failClosed
        reason := s!"revocation check failed: {N.errorText e}" }

/-- Where a credential's status entry lives: at the top, or inside the subject. -/
def credentialStatusOf (vc : Value) : Value :=
  ((vc.get? "credentialStatus").orElse
    ((vc.get? "credentialSubject").get? "credentialStatus")).orElse .null

structure CredentialReport where
  checked : Bool
  revoked : Bool
  method : String
  reason : String

/-- The report of the registry, after a list that gave no answer for a reason. -/
def viaRegistry (r : RevocationReport) (listReason : Option String) : CredentialReport where
  checked := r.checked
  revoked := r.revoked
  method := if r.checked then "on-chain-registry" else "none"
  reason :=
    match listReason with
    | some reason => if r.checked then r.reason else s!"{reason}; {r.reason}"
    | none => r.reason

/-- The index of a report, as a template shows it. -/
def shownIndex (r : StatusReport) : String :=
  (r.index.map fun n => (Number.whole n).text).getD "undefined"

def listReport (r : StatusReport) : CredentialReport where
  checked := true
  revoked := r.revoked
  method := "bitstring-status-list"
  reason :=
    if r.revoked then s!"revoked at list index {shownIndex r}"
    else s!"not revoked (index {shownIndex r})"

/-- The registry is the fallback where the list gave no answer. -/
def reportOf (asked : RevocationReport) (r : StatusReport) : CredentialReport :=
  if r.checked then listReport r else viaRegistry asked (some (r.reason.getD "undefined"))

def checkCredentialStatus (N : Node) (fetch : FetchList) (registry : Option Registry)
    (failClosed : Bool) (vc : Value) : Except Error CredentialReport :=
  let entry := credentialStatusOf vc
  let asked := checkRevocation N registry failClosed (vc.get? "id") (vc.get? "issuer")
  if entry.truthy then (checkStatus N fetch entry).map (reportOf asked)
  else .ok (viaRegistry asked none)

/-! ## What counts -/

/-- The entries of a `credentialStatus`: one, or the members of a list. -/
def statusEntries : Value → List Value
  | .array xs => xs
  | v => [v]

/-- The entries of a credential, at the top and inside the subject. -/
def credentialEntries (vc : Value) : List Value :=
  statusEntries (vc.get? "credentialStatus") ++
    statusEntries ((vc.get? "credentialSubject").get? "credentialStatus")

/-- The entry names a set bit of a reachable list of matching purpose. -/
def EntrySet (N : Node) (fetch : FetchList) (entry : Value) : Prop :=
  ∃ n bytes, Consults N fetch entry n bytes ∧ 0 ≤ n.val ∧ n.val < 8 * bytes.length ∧
    bitAt bytes n.val.toNat = 1

/-- The credential is reported as checked and not revoked. -/
def Clears (r : Except Error CredentialReport) : Prop :=
  ∃ report, r = .ok report ∧ report.checked = true ∧ report.revoked = false

/-- The registry is there and says that the credential is not revoked. -/
def RegistryClears (registry : Option Registry) (vc : Value) : Prop :=
  ∃ isRevoked, registry = some isRevoked ∧
    isRevoked (vc.get? "id") (vc.get? "issuer") = .ok false

/-- When no set entry is passed over: there is none, or the list of the entry that is asked answers
with a set bit, or it does not answer and the registry does not clear the credential, or there is
no text to report of that entry. -/
def EntriesCount (N : Node) (fetch : FetchList) (registry : Option Registry) (vc : Value) :
    Prop :=
  let asked := entryOf (credentialStatusOf vc)
  (∀ entry ∈ credentialEntries vc, ¬ EntrySet N fetch entry) ∨
  (∃ n bytes, Consults N fetch asked n bytes ∧ getBit bytes (.whole n) = .ok 1) ∨
  ((∀ n bytes b, Consults N fetch asked n bytes → getBit bytes (.whole n) ≠ .ok b) ∧
    ¬ RegistryClears registry vc) ∨
  Unshowable fetch asked

theorem clears_viaRegistry_iff {N : Node} {registry : Option Registry} {failClosed : Bool}
    {vc : Value} {listReason : Option String} :
    Clears (.ok (viaRegistry (checkRevocation N registry failClosed (vc.get? "id")
      (vc.get? "issuer")) listReason)) ↔ RegistryClears registry vc := by
  simp only [Clears, RegistryClears, Except.ok.injEq, exists_eq_left', viaRegistry]
  cases registry with
  | none => simp [checkRevocation]
  | some isRevoked =>
    cases hanswer : isRevoked (vc.get? "id") (vc.get? "issuer") with
    | error e => simp [checkRevocation, hanswer]
    | ok revoked => simp [checkRevocation, hanswer]

theorem entryOf_of_falsy {v : Value} (hv : v.truthy = false) : (entryOf v).truthy = false := by
  cases v with
  | array xs => cases hv
  | _ => exact hv

theorem Consults.truthy {N : Node} {fetch : FetchList} {entry : Value} {n : Whole} {bytes : Bytes}
    (h : Consults N fetch entry n bytes) : entry.truthy = true := by
  have htype := h.isEntry
  cases entry with
  | object ms => rfl
  | _ => cases htype

/-- A list that answered clears the credential when the bit read is not set. -/
theorem clears_of_answered {r : Except Error StatusReport} {n : Whole} {b : ℕ}
    (h : Answered r n b) (asked : RevocationReport) :
    Clears (r.map (reportOf asked)) ↔ b ≠ 1 := by
  obtain ⟨report, rfl, hchecked, hrevoked, -⟩ := h
  simp [Clears, Except.map, reportOf, hchecked, listReport, hrevoked]

/-- Without an answer of a list the registry is asked, unless the reason cannot be shown. -/
theorem clears_of_unanswered {N : Node} {registry : Option Registry} {failClosed : Bool}
    {vc : Value} {r : Except Error StatusReport} (h : Unanswered r) :
    Clears (r.map (reportOf
        (checkRevocation N registry failClosed (vc.get? "id") (vc.get? "issuer")))) ↔
      (¬ ∃ e, r = .error e) ∧ RegistryClears registry vc := by
  rcases h with ⟨e, rfl⟩ | ⟨reason, rfl⟩
  · refine iff_of_false ?_ fun h => h.1 ⟨e, rfl⟩
    rintro ⟨report, hreport, -⟩
    cases hreport
  · rw [and_iff_right (by rintro ⟨e, ⟨⟩⟩)]
    exact @clears_viaRegistry_iff N registry failClosed vc (some reason)

/-- There is no entry to ask. -/
theorem unasked_of_falsy {N : Node} {fetch : FetchList} {v : Value} (h : v.truthy = false) :
    (∀ n bytes, ¬ Consults N fetch (entryOf v) n bytes) ∧ ¬ Unshowable fetch (entryOf v) := by
  have hfalsy := entryOf_of_falsy h
  refine ⟨fun n bytes hconsults => ?_, fun hshown => ?_⟩
  · rw [hconsults.truthy] at hfalsy
    cases hfalsy
  · rw [hshown.truthy] at hfalsy
    cases hfalsy

/-- Whether the credential is cleared depends on what the first entry consults, on the registry
where it consults nothing, and on whether there is a text to report. -/
theorem clears_iff (N : Node) (fetch : FetchList) (registry : Option Registry) (failClosed : Bool)
    (vc : Value) :
    Clears (checkCredentialStatus N fetch registry failClosed vc) ↔
      ¬ ((∃ n bytes, Consults N fetch (entryOf (credentialStatusOf vc)) n bytes ∧
          getBit bytes (.whole n) = .ok 1) ∨
        ((∀ n bytes b, Consults N fetch (entryOf (credentialStatusOf vc)) n bytes →
          getBit bytes (.whole n) ≠ .ok b) ∧ ¬ RegistryClears registry vc) ∨
        Unshowable fetch (entryOf (credentialStatusOf vc))) := by
  rw [checkCredentialStatus]
  cases htruthy : (credentialStatusOf vc).truthy with
  -- there is no entry to ask: the registry is
  | false =>
    obtain ⟨hnone, hshown⟩ := @unasked_of_falsy N fetch _ htruthy
    have hfirst : ¬ ∃ n bytes, Consults N fetch (entryOf (credentialStatusOf vc)) n bytes ∧
        getBit bytes (.whole n) = .ok 1 := fun ⟨n, bytes, h, _⟩ => hnone n bytes h
    have hunasked : ∀ n bytes b, Consults N fetch (entryOf (credentialStatusOf vc)) n bytes →
        getBit bytes (.whole n) ≠ .ok b := fun n bytes _ h => absurd h (hnone n bytes)
    rw [if_neg (by decide), clears_viaRegistry_iff]
    tauto
  | true =>
    rw [if_pos rfl, ← checkStatus_error_iff (N := N)]
    rcases checkStatus_cases N fetch (credentialStatusOf vc) with
      ⟨n, bytes, b, hconsults, hbit, hanswered⟩ | ⟨hnone, hunanswered⟩
    -- the first entry is answered, with the bit that `getBit` reads
    · have hfirst : (∃ n bytes, Consults N fetch (entryOf (credentialStatusOf vc)) n bytes ∧
          getBit bytes (.whole n) = .ok 1) ↔ b = 1 := by
        constructor
        · rintro ⟨m, ys, hconsults', hbit'⟩
          obtain ⟨rfl, rfl⟩ := hconsults.unique hconsults'
          exact Except.ok.inj (hbit.symm.trans hbit')
        · rintro rfl
          exact ⟨n, bytes, hconsults, hbit⟩
      have hasked : ¬ ∀ n bytes b, Consults N fetch (entryOf (credentialStatusOf vc)) n bytes →
          getBit bytes (.whole n) ≠ .ok b := fun h => h n bytes b hconsults hbit
      have hreturns : ¬ ∃ e, checkStatus N fetch (credentialStatusOf vc) = .error e := by
        rintro ⟨e, he⟩
        obtain ⟨report, hreport, -⟩ := hanswered
        rw [hreport] at he
        cases he
      rw [clears_of_answered hanswered, hfirst]
      tauto
    -- it is not: the registry is asked, unless the reason cannot be shown
    · have hfirst : ¬ ∃ n bytes, Consults N fetch (entryOf (credentialStatusOf vc)) n bytes ∧
          getBit bytes (.whole n) = .ok 1 := by
        rintro ⟨n, bytes, hconsults, hbit⟩
        exact hnone n bytes 1 hconsults hbit
      rw [clears_of_unanswered hunanswered]
      tauto

/-- A set entry of either placement keeps the credential from being cleared exactly when it
counts. -/
theorem set_entry_counts_iff (N : Node) (fetch : FetchList) (registry : Option Registry)
    (failClosed : Bool) (vc : Value) :
    ((∃ entry ∈ credentialEntries vc, EntrySet N fetch entry) →
      ¬ Clears (checkCredentialStatus N fetch registry failClosed vc)) ↔
    EntriesCount N fetch registry vc := by
  have hset : (∃ entry ∈ credentialEntries vc, EntrySet N fetch entry) ↔
      ¬ ∀ entry ∈ credentialEntries vc, ¬ EntrySet N fetch entry := by
    push Not
    rfl
  rw [hset, clears_iff, not_not]
  exact or_iff_not_imp_left.symm

/-! ## A set entry that is passed over -/

def clearThenSet : Value := .object [("credentialStatus", .array [entryAt "0", entryAt "7"])]

/-- The second of two entries names a set bit, and the credential is cleared by the first. -/
theorem second_entry_passed_over :
    ¬ ∀ (N : Node) (fetch : FetchList) (registry : Option Registry) (failClosed : Bool)
      (vc : Value), (∃ entry ∈ credentialEntries vc, EntrySet N fetch entry) →
      ¬ Clears (checkCredentialStatus N fetch registry failClosed vc) := by
  intro h
  have hzero : Consults sampleNode (servingList [1]) (entryAt "0") (smallWhole 0 (by decide)) [1] :=
    consults_entryAt [1] (by decide +kernel)
  have hseven : Consults sampleNode (servingList [1]) (entryAt "7") (smallWhole 7 (by decide))
      [1] := consults_entryAt [1] (by decide +kernel)
  have hset : EntrySet sampleNode (servingList [1]) (entryAt "7") :=
    ⟨_, _, hseven, by decide, by decide, by decide⟩
  have hclear : getBit [1] (.whole (smallWhole 0 (by decide))) = .ok 0 := by
    rw [getBit_of_inside (by decide) (by decide) (by decide)]
    rfl
  apply h sampleNode (servingList [1]) none false clearThenSet
  · exact ⟨entryAt "7", List.mem_append_left _ (List.mem_cons_of_mem _
      (List.mem_singleton_self _)), hset⟩
  · rcases checkStatus_cases sampleNode (servingList [1]) (credentialStatusOf clearThenSet) with
      ⟨n, bytes, b, hconsults, hbit, hanswered⟩ | ⟨hnone, -⟩
    · obtain ⟨rfl, rfl⟩ := hconsults.unique hzero
      have htruthy : (credentialStatusOf clearThenSet).truthy = true := rfl
      rw [checkCredentialStatus, if_pos htruthy]
      apply (clears_of_answered hanswered _).mpr
      rw [hclear] at hbit
      cases hbit
      decide
    · exact absurd hclear (hnone _ _ _ hzero)

end Gatekeeper.Agent

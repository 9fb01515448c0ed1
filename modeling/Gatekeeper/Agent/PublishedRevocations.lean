import Mathlib.Data.List.Induction
import Gatekeeper.Lib.NumberReading
import Gatekeeper.Agent.Revocation

/-!
# The life of a revocation

`publish-status-list.mjs` writes the list that a text of indices asks for; a credential issued
with a `statusEntry` into that list is checked against what stands at the site. A text can list
no negative index, so the list says of each holder what the last run that went through was told.
-/

namespace Gatekeeper.Agent

open Bitstring Encoding Js

/-! ## The indices of a text -/

/-- `DEMO_REVOKED_INDEX`. -/
def demoRevokedIndex : Whole := smallWhole 7 (by decide)

/-- `Number(s.trim())`, for a whole number that is not negative. -/
def revokedIndex (s : List Char) : Option Whole :=
  (stringToNumber (String.ofList (trimWhite s))).toWhole.filter fun n => 0 ≤ n.val

/-- The indices that `REVOKED_INDICES` lists. An empty text is not a missing one. -/
def revokedIndices (env : Option String) : List Whole :=
  ((env.getD (Number.whole demoRevokedIndex).text).toList.splitOn ',').filterMap revokedIndex

example : revokedIndices (some "") = [smallWhole 0 (by decide)] := by decide +kernel

theorem nonneg_of_mem_revokedIndices {env : Option String} {i : Whole}
    (h : i ∈ revokedIndices env) : 0 ≤ i.val := by
  obtain ⟨s, -, hs⟩ := List.mem_filterMap.mp h
  obtain ⟨-, hi⟩ := Option.filter_eq_some_iff.mp hs
  exact of_decide_eq_true hi

theorem text_of_lt {n : Whole} (h0 : 0 ≤ n.val) (h : n.val < 2 ^ 53) :
    (Number.whole n).text = toString n.val.natAbs := by
  have hnat : n.val.natAbs < 2 ^ 53 := by omega
  rw [Number.text, if_neg (by omega), wholeText, if_pos (by omega), Double.shortest_of_lt hnat]

theorem toList_text {n : Whole} (h0 : 0 ≤ n.val) (h : n.val < 2 ^ 53) :
    (Number.whole n).text.toList = Nat.toDigits 10 n.val.natAbs := by
  rw [text_of_lt h0 h, Nat.toString_eq_repr, Nat.toList_repr]

/-- The number that the text of a small whole number spells. -/
theorem toWhole_text {n : Whole} (h0 : 0 ≤ n.val) (h : n.val < 2 ^ 53) :
    (stringToNumber (Number.whole n).text).toWhole = some n := by
  have hval : ((n.val.natAbs : ℤ) : ℚ) = n.val := by rw [Int.natCast_natAbs, abs_of_nonneg h0]
  rw [text_of_lt h0 h, stringToNumber_of_bigInt (stringToBigInt_toString _), hval, ← toNum_whole,
    Number.toNum, Numeric.toWhole]
  simp [Whole.toFinite]

theorem isDigit_of_mem_text {n : Whole} (h0 : 0 ≤ n.val) (h : n.val < 2 ^ 53) {c : Char}
    (hc : c ∈ (Number.whole n).text.toList) : c.isDigit = true := by
  rw [toList_text h0 h] at hc
  exact Nat.isDigit_of_mem_toDigits (by decide) (by decide) hc

/-- A text that lists small indices by their numbers is read as these. -/
theorem revokedIndices_intercalate {is : List Whole} (hne : is ≠ [])
    (his : ∀ i ∈ is, 0 ≤ i.val ∧ i.val < 2 ^ 53) :
    revokedIndices (some (",".intercalate (is.map fun i => (Number.whole i).text))) = is := by
  have hpieces : (",".intercalate (is.map fun i => (Number.whole i).text)).toList.splitOn ',' =
      is.map fun i => (Number.whole i).text.toList := by
    have hsep : ",".toList = [','] := rfl
    have hdigit : Char.isDigit ',' = false := by decide
    have hcomma : ∀ l ∈ is.map fun i => (Number.whole i).text.toList, ',' ∉ l := by
      intro l hl hmem
      obtain ⟨i, hi, rfl⟩ := List.mem_map.mp hl
      rw [isDigit_of_mem_text (his i hi).1 (his i hi).2 hmem] at hdigit
      cases hdigit
    have hmap : (is.map fun i => (Number.whole i).text).map String.toList =
        is.map fun i => (Number.whole i).text.toList := List.map_map
    rw [String.toList_intercalate, hsep, hmap, List.splitOn_intercalate _ hcomma]
    exact fun h => hne (List.map_eq_nil_iff.mp h)
  have hindex : ∀ i ∈ is, revokedIndex (Number.whole i).text.toList = some i := by
    intro i hi
    obtain ⟨h0, h⟩ := his i hi
    have hplain := trimWhite_eq_self fun c hc => isWhite_of_isDigit (isDigit_of_mem_text h0 h hc)
    rw [revokedIndex, hplain, String.ofList_toList, toWhole_text h0 h, Option.filter_some,
      if_pos (by simpa using h0)]
  have hsome : (is.map fun i => (Number.whole i).text.toList).filterMap revokedIndex = is := by
    have hcomp : ∀ i ∈ is, (revokedIndex ∘ fun i => (Number.whole i).text.toList) i = some i :=
      fun i hi => by rw [Function.comp_apply, hindex i hi]
    rw [List.filterMap_map, List.filterMap_congr hcomp, List.filterMap_some]
  rw [revokedIndices, Option.getD_some, hpieces, hsome]

/-! ## A run -/

/-- The read-back loop. -/
def survives (bytes : Bytes) : List Whole → Except Error Unit
  | [] => .ok ()
  | i :: revoked => do
    let b ← getBit bytes (.whole i)
    if b ≠ 1 then
      .error (.error s!"index {(Number.whole i).text} did not survive the round trip")
    else survives bytes revoked

/-- The list at the site after a run, and how the run ends. -/
structure Publication where
  site : Option Value
  outcome : Except Error Unit

/-- What a run asks of `buildStatusList`. -/
def revocationOptions (id : String) (issuer : Value) (revoked : List Whole) :
    StatusListOptions where
  id := id
  issuer := issuer
  revoked := revoked

/-- What follows the building of a list: it is written, and read back after that. -/
def publication (N : Node) (revoked : List Whole) (site : Option Value) :
    Except Error Value → Publication
  | .error e => { site, outcome := .error e }
  | .ok doc => {
      site := some doc
      outcome := do
        let bytes ← decodeList N (publishedList doc)
        survives bytes revoked }

def publishStatusList (N : Node) (id : String) (issuer : Value) (env : Option String)
    (site : Option Value) : Publication :=
  let revoked := revokedIndices env
  publication N revoked site (buildStatusList N (revocationOptions id issuer revoked))

/-- The text lists no index past the end. -/
def WithinList (env : Option String) : Prop := ∀ i ∈ revokedIndices env, i.val < minimumEntries

/-- A revocation list in which exactly these holders are marked. -/
structure Marks (N : Node) (doc : Value) (revoked : List Whole) : Prop where
  isList : (doc.get? "credentialSubject").get? "type" = .string "BitstringStatusList"
  purpose : (doc.get? "credentialSubject").get? "statusPurpose" = .string "revocation"
  bits : ∃ bytes, decodeList N (publishedList doc) = .ok bytes ∧
    ∀ i : Whole, 0 ≤ i.val → i.val < minimumEntries →
      getBit bytes (.whole i) = .ok (if i ∈ revoked then 1 else 0)

theorem survives_of_marked {bytes : Bytes} {revoked : List Whole}
    (h : ∀ i ∈ revoked, getBit bytes (.whole i) = .ok 1) : survives bytes revoked = .ok () := by
  induction revoked with
  | nil => rfl
  | cons i revoked ih =>
    rw [survives, h i List.mem_cons_self]
    exact ih fun j hj => h j (List.mem_cons_of_mem _ hj)

theorem buildStatusList_eq_ok {N : Node} {o : StatusListOptions} {doc : Value}
    (h : buildStatusList N o = .ok doc) : ∃ bytes, doc = statusListDocument N o bytes := by
  rw [buildStatusList] at h
  split_ifs at h
  obtain ⟨bytes, -, hdoc⟩ := bind_eq_ok.mp h
  exact ⟨bytes, (Except.ok.inj hdoc).symm⟩

theorem subject_document (N : Node) (o : StatusListOptions) (bytes : Bytes) :
    (statusListDocument N o bytes).get? "credentialSubject" = statusListSubject N o bytes := by
  rw [statusListDocument]
  split <;> simp [Value.get?, List.lookup_cons]

/-- Without a negative index the list is published unless an index is past its end, and each bit
says whether its holder is one of the indices. -/
theorem buildStatusList_of_nonneg {N : Node} (hN : N.Lawful) {o : StatusListOptions}
    (hlength : o.length = minimumEntries) (hpurpose : o.statusPurpose = .string "revocation")
    (hnonneg : ∀ i ∈ o.revoked, 0 ≤ i.val) :
    (¬ (∀ i ∈ o.revoked, i.val < minimumEntries) ∧ ∃ e, buildStatusList N o = .error e) ∨
    ((∀ i ∈ o.revoked, i.val < minimumEntries) ∧
      ∃ doc, buildStatusList N o = .ok doc ∧ Marks N doc o.revoked) := by
  have hmax : minimumEntries < 2 ^ 31 := by decide
  rcases buildStatusList_cases hN (o := o) hlength.ge with
    ⟨⟨i, hi, hstop⟩, he⟩ | ⟨hnone, doc, bytes, hdoc, hdecode, hbytes, hbits⟩
  · refine .inl ⟨fun hwithin => ?_, he⟩
    have hi0 := hnonneg i hi
    have hlt := hwithin i hi
    rw [hlength] at hstop
    rcases outside_of_stops hmax hstop with h | h <;> omega
  have hwithin : ∀ i ∈ o.revoked, i.val < minimumEntries := by
    intro i hi
    rw [← hlength]
    exact not_le.mp (mt Or.inl (hnone i hi))
  have hlow : ∀ i ∈ o.revoked, toInt32 i.val = i.val := by
    intro i hi
    have hlt := hwithin i hi
    exact toInt32_of_lt (hnonneg i hi) (by omega)
  have hread : ∀ i : Whole, 0 ≤ i.val → i.val < minimumEntries →
      getBit bytes (.whole i) = .ok (if i ∈ o.revoked then 1 else 0) := by
    intro i h0 hlt
    have hin : i.val < 8 * bytes.length := by
      rw [hbytes, hlength, listBytes]
      omega
    have hiff : bitAt bytes i.val.toNat = 1 ↔ i ∈ o.revoked := by
      rw [hbits]
      constructor
      · rintro ⟨j, hj, heq⟩
        rw [hlow j hj] at heq
        rwa [whole_ext (m := i) (n := j) (by omega)]
      · intro hi
        exact ⟨i, hi, by rw [hlow i hi]; omega⟩
    have hle := bitAt_le_one bytes i.val.toNat
    rw [getBit_of_inside h0 hin (by omega), Except.ok.injEq]
    split_ifs with hi
    · exact hiff.mpr hi
    · have hne := mt hiff.mp hi
      omega
  obtain ⟨written, rfl⟩ := buildStatusList_eq_ok hdoc
  refine .inr ⟨hwithin, _, hdoc, ?_, ?_, bytes, hdecode, hread⟩
  · rw [subject_document]
    rfl
  · rw [subject_document]
    exact hpurpose

/-- A run goes through exactly if its text lists no index past the end; otherwise it leaves the
site as it was. The read-back never fails. -/
theorem publishStatusList_cases {N : Node} (hN : N.Lawful) (id : String) (issuer : Value)
    (env : Option String) (site : Option Value) :
    (¬ WithinList env ∧ ∃ e, publishStatusList N id issuer env site = ⟨site, .error e⟩) ∨
    (WithinList env ∧ ∃ doc, publishStatusList N id issuer env site = ⟨some doc, .ok ()⟩ ∧
      Marks N doc (revokedIndices env)) := by
  have hnonneg : ∀ i ∈ revokedIndices env, 0 ≤ i.val := fun i hi => nonneg_of_mem_revokedIndices hi
  obtain ⟨o, ho, hlength, hpurpose, hrevoked⟩ : ∃ o, revocationOptions id issuer
      (revokedIndices env) = o ∧ o.length = minimumEntries ∧
      o.statusPurpose = .string "revocation" ∧ o.revoked = revokedIndices env :=
    ⟨_, rfl, rfl, rfl, rfl⟩
  rw [← hrevoked] at hnonneg
  have hcases := buildStatusList_of_nonneg hN hlength hpurpose hnonneg
  rw [hrevoked] at hcases
  rw [publishStatusList, ho]
  rcases hcases with ⟨hnot, e, he⟩ | ⟨hwithin, doc, hdoc, hmarks⟩
  · refine .inl ⟨hnot, e, ?_⟩
    rw [he, publication]
  · obtain ⟨bytes, hdecode, hread⟩ := hmarks.bits
    have hback : survives bytes (revokedIndices env) = .ok () :=
      survives_of_marked fun i hi => by
        rw [hread i (hnonneg i (hrevoked ▸ hi)) (hwithin i hi), if_pos hi]
    refine .inr ⟨hwithin, doc, ?_, hmarks⟩
    rw [hdoc, publication, hdecode]
    exact congrArg (Publication.mk (some doc)) hback

/-! ## A credential that names the list -/

/-- The `credentialStatus` an issuer puts inside a credential. -/
def statusEntry (statusListCredential : String) (statusListIndex : Whole)
    (statusPurpose : Value := .string "revocation") : Value :=
  .object [("id", .string s!"{statusListCredential}#{(Number.whole statusListIndex).text}"),
    ("type", .string "BitstringStatusListEntry"), ("statusPurpose", statusPurpose),
    ("statusListIndex", .string (Number.whole statusListIndex).text),
    ("statusListCredential", .string statusListCredential)]

/-- Each credential issued into the list is answered by it, wherever it is fetched: revoked,
if it is one of these. -/
def AnswersFor (N : Node) (doc : Value) (revoked : List Whole) : Prop :=
  ∀ (fetch : FetchList) (registry : Option Registry) (failClosed : Bool) (vc : Value)
    (url : String) (i : Whole), credentialStatusOf vc = statusEntry url i → url ≠ "" →
    Serves fetch (.string url) doc → 0 ≤ i.val → i.val < minimumEntries →
    ∃ report, checkCredentialStatus N fetch registry failClosed vc = .ok report ∧
      report.checked = true ∧ report.method = "bitstring-status-list" ∧
      (report.revoked = true ↔ i ∈ revoked)

theorem consults_statusEntry {N : Node} {fetch : FetchList} {doc : Value} {url : String}
    {i : Whole} {bytes : Bytes} (hlist : (doc.get? "credentialSubject").get? "type" =
      .string "BitstringStatusList")
    (hpurpose : (doc.get? "credentialSubject").get? "statusPurpose" = .string "revocation")
    (hbytes : decodeList N (publishedList doc) = .ok bytes) (hurl : url ≠ "")
    (hserves : Serves fetch (.string url) doc) (h0 : 0 ≤ i.val) (h : i.val < 2 ^ 53) :
    Consults N fetch (statusEntry url i) i bytes where
  isEntry := by simp [statusEntry, Value.get?, List.lookup_cons]
  index := by
    refine ⟨_, ?_, toWhole_text h0 h⟩
    simp [statusEntry, Value.get?, List.lookup_cons, Value.toNumber]
  url := by simp [statusEntry, Value.get?, List.lookup_cons, Value.truthy, hurl]
  list := by
    refine ⟨doc, ?_, hlist, ?_, hbytes⟩
    · simpa [statusEntry, Value.get?, List.lookup_cons] using hserves
    · rw [hpurpose]
      simp [statusEntry, Value.get?, List.lookup_cons, strictEq]

theorem answersFor_of_marks {N : Node} {doc : Value} {revoked : List Whole}
    (h : Marks N doc revoked) : AnswersFor N doc revoked := by
  intro fetch registry failClosed vc url i hvc hurl hserves h0 hlt
  have hmax : (minimumEntries : ℤ) < 2 ^ 53 := by decide
  obtain ⟨bytes, hbytes, hbits⟩ := h.bits
  have hconsults := consults_statusEntry h.isList h.purpose hbytes hurl hserves h0 (by omega)
  have hread := hbits i h0 hlt
  have hentry : entryOf (credentialStatusOf vc) = statusEntry url i := by rw [hvc]; rfl
  have htruthy : (credentialStatusOf vc).truthy = true := by rw [hvc]; rfl
  rw [← hentry] at hconsults
  rcases checkStatus_cases N fetch (credentialStatusOf vc) with
    ⟨n, xs, b, hconsults', hbit, report, hreport, hchecked, hrevoked, -⟩ | ⟨hnone, -⟩
  · obtain ⟨rfl, rfl⟩ := hconsults'.unique hconsults
    rw [hread, Except.ok.injEq] at hbit
    rw [checkCredentialStatus, if_pos htruthy, hreport]
    refine ⟨_, rfl, ?_⟩
    rw [reportOf, if_pos hchecked]
    refine ⟨rfl, rfl, ?_⟩
    show report.revoked = true ↔ _
    rw [hrevoked, ← hbit, beq_iff_eq]
    split_ifs with hi
    · exact iff_of_true rfl hi
    · exact iff_of_false (by decide) hi
  · exact absurd hread (hnone _ _ _ hconsults)

/-! ## The runs -/

/-- The list at the site after the runs. -/
def siteAfter (N : Node) (id : String) (issuer : Value) (runs : List (Option String)) :
    Option Value :=
  runs.foldl (fun site env => (publishStatusList N id issuer env site).site) none

/-- What stands at the site: nothing if no run went through, else the list of the last one that
did. -/
def FromLastRun (N : Node) (runs : List (Option String)) : Option Value → Prop
  | none => ∀ env ∈ runs, ¬ WithinList env
  | some doc => ∃ before env after, runs = before ++ env :: after ∧ WithinList env ∧
      (∀ later ∈ after, ¬ WithinList later) ∧ Marks N doc (revokedIndices env)

theorem fromLastRun_siteAfter {N : Node} (hN : N.Lawful) (id : String) (issuer : Value)
    (runs : List (Option String)) : FromLastRun N runs (siteAfter N id issuer runs) := by
  induction runs using List.reverseRecOn with
  | nil => exact fun env henv => by cases henv
  | append_singleton runs env ih =>
    rw [siteAfter, List.foldl_append, List.foldl_cons, List.foldl_nil, ← siteAfter]
    rcases publishStatusList_cases hN id issuer env (siteAfter N id issuer runs) with
      ⟨hnot, e, he⟩ | ⟨hwithin, doc, hdoc, hmarks⟩
    · rw [he]
      cases hsite : siteAfter N id issuer runs with
      | none =>
        rw [hsite] at ih
        intro env' henv'
        rcases List.mem_append.mp henv' with h | h
        · exact ih env' h
        · rwa [List.mem_singleton.mp h]
      | some doc =>
        rw [hsite] at ih
        obtain ⟨before, env', after, rfl, hwithin, hafter, hmarks⟩ := ih
        refine ⟨before, env', after ++ [env], by simp, hwithin, fun later hlater => ?_, hmarks⟩
        rcases List.mem_append.mp hlater with h | h
        · exact hafter later h
        · rwa [List.mem_singleton.mp h]
    · rw [hdoc]
      exact ⟨runs, env, [], rfl, hwithin, List.forall_mem_nil _, hmarks⟩

/-- After any runs the list at the site answers for the last one that went through, and one does
unless it lists an index past the end. A text that joins numbers lists just these. -/
theorem revocation_follows_last_run {N : Node} (hN : N.Lawful) (id : String) (issuer : Value)
    (runs : List (Option String)) :
    (∀ is : List Whole, is ≠ [] → (∀ i ∈ is, 0 ≤ i.val ∧ i.val < 2 ^ 53) →
      revokedIndices (some (",".intercalate (is.map fun i => (Number.whole i).text))) = is) ∧
    (∀ env site, (publishStatusList N id issuer env site).outcome = .ok () ↔ WithinList env) ∧
    (siteAfter N id issuer runs = none → ∀ env ∈ runs, ¬ WithinList env) ∧
    ∀ doc, siteAfter N id issuer runs = some doc →
      ∃ before env after, runs = before ++ env :: after ∧ WithinList env ∧
        (∀ later ∈ after, ¬ WithinList later) ∧ AnswersFor N doc (revokedIndices env) := by
  have hlast := fromLastRun_siteAfter hN id issuer runs
  refine ⟨fun is hne his => revokedIndices_intercalate hne his, fun env site => ?_,
    fun hsite => ?_, fun doc hsite => ?_⟩
  · rcases publishStatusList_cases hN id issuer env site with
      ⟨hnot, e, he⟩ | ⟨hwithin, doc, hdoc, -⟩
    · rw [he]
      exact iff_of_false (by rintro ⟨⟩) hnot
    · rw [hdoc]
      exact iff_of_true rfl hwithin
  · rwa [hsite] at hlast
  · rw [hsite] at hlast
    obtain ⟨before, env, after, hruns, hwithin, hafter, hmarks⟩ := hlast
    exact ⟨before, env, after, hruns, hwithin, hafter, answersFor_of_marks hmarks⟩

/-- Holders 7 and 42 are revoked, and a slip in the run after that changes nothing. -/
theorem revocation_follows_last_run_sample :
    ∃ doc, siteAfter sampleNode "https://example.test/status/1" .undefined
        [some "7, 42", some "7,42,131072"] = some doc ∧
      AnswersFor sampleNode doc [smallWhole 7 (by decide), smallWhole 42 (by decide)] := by
  have hfirst : revokedIndices (some "7, 42") =
      [smallWhole 7 (by decide), smallWhole 42 (by decide)] := by decide +kernel
  have hsecond : revokedIndices (some "7,42,131072") = [smallWhole 7 (by decide),
      smallWhole 42 (by decide), smallWhole 131072 (by decide)] := by decide +kernel
  have hwithin : WithinList (some "7, 42") := by
    rw [WithinList, hfirst]
    decide
  have hnot : ¬ WithinList (some "7,42,131072") := by
    rw [WithinList, hsecond]
    decide
  obtain ⟨-, -, hnone, hsome⟩ := revocation_follows_last_run lawful_sampleNode
    "https://example.test/status/1" .undefined [some "7, 42", some "7,42,131072"]
  cases hsite : siteAfter sampleNode "https://example.test/status/1" .undefined
      [some "7, 42", some "7,42,131072"] with
  | none => exact absurd hwithin (hnone hsite _ List.mem_cons_self)
  | some doc =>
    obtain ⟨before, env, after, hruns, henv, -, hanswers⟩ := hsome doc hsite
    refine ⟨doc, rfl, ?_⟩
    have hmem : env ∈ [some "7, 42", some "7,42,131072"] := by
      rw [hruns]
      exact List.mem_append_right _ List.mem_cons_self
    rcases List.mem_cons.mp hmem with rfl | hmem
    · rwa [hfirst] at hanswers
    · rw [List.mem_singleton.mp hmem] at henv
      exact absurd henv hnot

end Gatekeeper.Agent

import Gatekeeper.Agent.SampleList

/-!
# What a status list answers

`getBit` and `setBit` work on the low 32 bits of an index, read with a sign. On indices below
`2 ^ 31` they read and write the bit that is asked for; beyond, and below zero for `setBit`,
they may use another bit or none.
-/

namespace Gatekeeper.Agent

open Bitstring Encoding Js

/-! ## Indices -/

theorem whole_ext {m n : Whole} (h : m.val = n.val) : m = n := by
  cases m
  cases n
  cases h
  rfl

theorem toInt32_of_lt {n : ℤ} (h0 : 0 ≤ n) (h : n < 2 ^ 31) : toInt32 n = n := by
  apply Int.bmod_eq_of_le
  · norm_num
    omega
  · norm_num
    omega

theorem getBit_of_neg {bytes : Bytes} {n : Whole} (h : n.val < 0) :
    ∃ e, getBit bytes (.whole n) = .error e := by
  rw [getBit, if_pos h]
  exact ⟨_, rfl⟩

theorem typedGet_div {bytes : Bytes} {w : ℤ} (h : 0 ≤ w) :
    (typedGet bytes (w / 8)).getD 0 = bytes.getD (w.toNat / 8) 0 := by
  have hbyte : (w / 8).toNat = w.toNat / 8 := by omega
  rw [typedGet, if_pos (by omega), hbyte, List.getD_eq_getElem?_getD]

/-- What `getBit` reads: the bit of the low 32 bits of the index, and zero where these are
negative. -/
theorem getBit_whole {bytes : Bytes} {n : Whole} (h : 0 ≤ n.val) :
    getBit bytes (.whole n) =
      if toInt32 n.val < 0 then .ok 0
      else if 8 * (bytes.length : ℤ) ≤ toInt32 n.val then .error (pastEnd n)
      else .ok (bitAt bytes (toInt32 n.val).toNat) := by
  rw [getBit, if_neg (by omega), byteOf, shiftOf]
  generalize toInt32 n.val = w
  by_cases hw : w < 0
  · have hget : typedGet bytes (w / 8) = none := if_neg (by omega)
    rw [if_pos hw, if_neg (by omega), hget, bit_eq_getLsbD]
    simp
  rw [if_neg hw]
  by_cases hend : 8 * (bytes.length : ℤ) ≤ w
  · rw [if_pos hend, if_pos (by omega)]
  · have hmod : (w % 8).toNat = w.toNat % 8 := by omega
    rw [if_neg hend, if_neg (by omega), typedGet_div (by omega), hmod, bitAt]

/-- What `setBit` writes: the bit of the low 32 bits of the index, and nothing where these are
negative. -/
theorem setBit_whole {bytes : Bytes} {n : Whole} {on : Bool} :
    setBit bytes n on =
      if toInt32 n.val < 0 then .ok bytes
      else if 8 * (bytes.length : ℤ) ≤ toInt32 n.val then .error (pastEnd n)
      else .ok (writeBit bytes (toInt32 n.val).toNat on) := by
  rw [setBit, byteOf, shiftOf]
  generalize toInt32 n.val = w
  by_cases hw : w < 0
  · rw [if_pos hw, if_neg (by omega), typedSet, if_neg (by omega)]
  rw [if_neg hw]
  by_cases hend : 8 * (bytes.length : ℤ) ≤ w
  · rw [if_pos hend, if_pos (by omega)]
  · have hbyte : (w / 8).toNat = w.toNat / 8 := by omega
    have hmod : (w % 8).toNat = w.toNat % 8 := by omega
    rw [if_neg hend, if_neg (by omega), typedGet_div (by omega), hmod, typedSet,
      if_pos (by omega), hbyte, writeBit]

/-! ## Reading a bit -/

/-- Bit `n` is what `getBit` returns, and past the end it throws. -/
structure ReadsBit (bytes : Bytes) (n : Whole) : Prop where
  inside : 0 ≤ n.val → n.val < 8 * bytes.length →
    getBit bytes (.whole n) = .ok (bitAt bytes n.val.toNat)
  outside : n.val < 0 ∨ 8 * bytes.length ≤ n.val → ∃ e, getBit bytes (.whole n) = .error e

/-- The indices at which it does: those of 31 bits, those past the end whose low 32 bits are
past the end as well, and those inside whose low 32 bits happen to lead to the same bit. -/
def ReadableBit (bytes : Bytes) (n : Whole) : Prop :=
  n.val < 2 ^ 31 ∨
  (8 * bytes.length ≤ n.val ∧ 8 * bytes.length ≤ toInt32 n.val) ∨
  (n.val < 8 * bytes.length ∧ bitAt bytes n.val.toNat =
    if toInt32 n.val < 0 then 0 else bitAt bytes (toInt32 n.val).toNat)

theorem readsBit_of_lt {bytes : Bytes} {n : Whole} (h : n.val < 2 ^ 31) : ReadsBit bytes n := by
  constructor
  · intro h0 hlt
    rw [getBit_whole h0, toInt32_of_lt h0 h, if_neg (by omega), if_neg (by omega)]
  · rintro (hneg | hend)
    · exact getBit_of_neg hneg
    · have h0 : 0 ≤ n.val := by omega
      rw [getBit_whole h0, toInt32_of_lt h0 h, if_neg (by omega), if_pos hend]
      exact ⟨_, rfl⟩

theorem readsBit_iff {bytes : Bytes} {n : Whole} : ReadsBit bytes n ↔ ReadableBit bytes n := by
  rcases lt_or_ge n.val (2 ^ 31) with hlt | hge
  · exact ⟨fun _ => .inl hlt, fun _ => readsBit_of_lt hlt⟩
  have h0 : 0 ≤ n.val := by omega
  rcases lt_or_ge n.val (8 * bytes.length) with hin | hout
  -- inside the list: what is read is the bit of the low 32 bits, or zero
  · have hdone : ReadsBit bytes n ↔
        getBit bytes (.whole n) = .ok (bitAt bytes n.val.toNat) := by
      constructor
      · exact fun h => h.inside h0 hin
      · intro h
        refine ⟨fun _ _ => h, ?_⟩
        rintro (hneg | hend) <;> omega
    have hlow : toInt32 n.val < 8 * bytes.length := by
      have hle : toInt32 n.val ≤ (2 ^ 32 - 1) / 2 := Int.bmod_le (by norm_num)
      omega
    rw [hdone, getBit_whole h0, ReadableBit, or_iff_right (by omega), or_iff_right (by omega),
      and_iff_right hin, if_neg (not_le.mpr hlow)]
    split
    · rw [Except.ok.injEq, eq_comm]
    · rw [Except.ok.injEq, eq_comm]
  -- past the end: it throws where the low 32 bits are past the end too
  · have hdone : ReadsBit bytes n ↔ ∃ e, getBit bytes (.whole n) = .error e := by
      constructor
      · exact fun h => h.outside (.inr hout)
      · intro h
        refine ⟨fun _ hin => ?_, fun _ => h⟩
        omega
    rw [hdone, getBit_whole h0, ReadableBit, or_iff_right (by omega),
      or_iff_left (by rintro ⟨hin, -⟩; omega), and_iff_right hout]
    split
    · rename_i hneg
      simp only [reduceCtorEq, exists_false, false_iff]
      omega
    · split
      · rename_i hend
        exact ⟨fun _ => hend, fun _ => ⟨_, rfl⟩⟩
      · rename_i hend
        simp [hend]

/-! ## Checking an entry -/

/-- The document answers the entry: it is a status list, for the purpose that is asked for where
both name one, and it holds these bytes. -/
structure ListAnswers (N : Node) (entry list : Value) (bytes : Bytes) : Prop where
  isList : (list.get? "credentialSubject").get? "type" = .string "BitstringStatusList"
  purpose : ¬ ((entry.get? "statusPurpose").truthy ∧
    ((list.get? "credentialSubject").get? "statusPurpose").truthy ∧
    strictEq (entry.get? "statusPurpose")
      ((list.get? "credentialSubject").get? "statusPurpose") = false)
  decodes : decodeList N ((list.get? "credentialSubject").get? "encodedList") = .ok bytes

/-- A fetch that brings a document. -/
def Serves (fetch : FetchList) (url list : Value) : Prop :=
  ∃ res, fetch url = .ok res ∧ res.ok = true ∧ res.json = .ok list

/-- The entry names bit `n` of a reachable list that answers it with these bytes. -/
structure Consults (N : Node) (fetch : FetchList) (entry : Value) (n : Whole) (bytes : Bytes) :
    Prop where
  isEntry : entry.get? "type" = .string "BitstringStatusListEntry"
  index : ∃ x, (entry.get? "statusListIndex").toNumber = .ok x ∧ x.toWhole = some n
  url : (entry.get? "statusListCredential").truthy = true
  list : ∃ list, Serves fetch (entry.get? "statusListCredential") list ∧
    ListAnswers N entry list bytes

/-- A report that did not read a bit. -/
def Unanswered (r : Except Error StatusReport) : Prop :=
  (∃ e, r = .error e) ∨ ∃ reason, r = .ok (unchecked reason)

/-- A report of a bit that was read. -/
def Answered (r : Except Error StatusReport) (n : Whole) (b : ℕ) : Prop :=
  ∃ report, r = .ok report ∧ report.checked = true ∧ report.revoked = (b == 1) ∧
    report.index = some n

theorem fetchList_eq_ok {N : Node} {fetch : FetchList} {url list : Value} :
    fetchList N fetch url = .ok (.ok list) ↔ Serves fetch url list := by
  constructor
  · intro h
    rw [fetchList] at h
    split at h
    · rename_i r hattempt
      cases h
      obtain ⟨res, hres, hattempt⟩ := bind_eq_ok.mp hattempt
      split at hattempt
      · rename_i hok
        obtain ⟨doc, hdoc, hret⟩ := bind_eq_ok.mp hattempt
        cases hret
        exact ⟨res, hres, hok, hdoc⟩
      · obtain ⟨shown, -, hret⟩ := bind_eq_ok.mp hattempt
        cases hret
    · obtain ⟨shown, -, hret⟩ := bind_eq_ok.mp h
      cases hret
  · rintro ⟨res, hres, hok, hjson⟩
    simp [fetchList, hres, hok, hjson, bind, Except.bind, pure, Except.pure]

theorem readList_cases (N : Node) (entry list : Value) (n : Whole) :
    (∃ bytes b, ListAnswers N entry list bytes ∧ getBit bytes (.whole n) = .ok b ∧
      Answered (readList N entry list n) n b) ∨
    ((∀ bytes b, ListAnswers N entry list bytes → getBit bytes (.whole n) ≠ .ok b) ∧
      Unanswered (readList N entry list n)) := by
  rw [readList]
  split
  · rename_i htype
    refine .inr ⟨fun bytes b h => ?_, .inr ⟨_, rfl⟩⟩
    exact absurd (Value.isString_iff.mpr h.isList) (by simpa using htype)
  rename_i htype
  rw [not_not, Value.isString_iff] at htype
  split
  · rename_i hpurpose
    refine .inr ⟨fun bytes b h => absurd hpurpose h.purpose, ?_⟩
    cases (entry.get? "statusPurpose").text with
    | error e => exact .inl ⟨e, rfl⟩
    | ok a =>
      cases ((list.get? "credentialSubject").get? "statusPurpose").text with
      | error e => exact .inl ⟨e, rfl⟩
      | ok s => exact .inr ⟨_, rfl⟩
  rename_i hpurpose
  cases hdecode : decodeList N ((list.get? "credentialSubject").get? "encodedList") with
  | error e =>
    refine .inr ⟨fun bytes b h => ?_, .inr ⟨_, rfl⟩⟩
    rw [h.decodes] at hdecode
    cases hdecode
  | ok bytes =>
    cases hbit : getBit bytes (.whole n) with
    | error e =>
      refine .inr ⟨fun bytes' b h => ?_, .inr ⟨N.errorText e, ?_⟩⟩
      · rw [h.decodes] at hdecode
        cases hdecode
        simp [hbit]
      · simp [hbit, bind, Except.bind]
    | ok b =>
      refine .inl ⟨bytes, b, ⟨htype, hpurpose, hdecode⟩, hbit, ?_⟩
      simp [Answered, hbit, bind, Except.bind, pure, Except.pure]

/-- Either the entry checked consults a list and the bit `getBit` reads there is reported, or
nothing is. -/
theorem checkStatus_cases (N : Node) (fetch : FetchList) (v : Value) :
    (∃ n bytes b, Consults N fetch (entryOf v) n bytes ∧ getBit bytes (.whole n) = .ok b ∧
      Answered (checkStatus N fetch v) n b) ∨
    ((∀ n bytes b, Consults N fetch (entryOf v) n bytes → getBit bytes (.whole n) ≠ .ok b) ∧
      Unanswered (checkStatus N fetch v)) := by
  rw [checkStatus]
  generalize entryOf v = entry
  dsimp only
  split
  · rename_i htruthy
    refine .inr ⟨fun n bytes b h => ?_, .inr ⟨_, rfl⟩⟩
    -- only objects have a `type`, and they are truthy
    have htype := h.isEntry
    cases entry <;> simp_all [Value.get?, Value.truthy]
  split
  · rename_i htype
    refine .inr ⟨fun n bytes b h => ?_, ?_⟩
    · exact absurd (Value.isString_iff.mpr h.isEntry) (by simpa using htype)
    · cases (entry.get? "type").text with
      | error e => exact .inl ⟨e, rfl⟩
      | ok shown => exact .inr ⟨_, rfl⟩
  rename_i htype
  rw [not_not, Value.isString_iff] at htype
  cases hnumber : (entry.get? "statusListIndex").toNumber with
  | error e =>
    refine .inr ⟨fun n bytes b h => ?_, .inl ⟨e, rfl⟩⟩
    obtain ⟨x, hx, -⟩ := h.index
    rw [hx] at hnumber
    cases hnumber
  | ok x =>
    simp only [bind, Except.bind]
    split
    · rename_i n hurl hwhole
      have hn : ∀ {n' bytes}, Consults N fetch entry n' bytes → n' = n := by
        intro n' bytes h
        obtain ⟨x', hx', hwhole'⟩ := h.index
        rw [hx'] at hnumber
        cases hnumber
        exact Option.some.inj (hwhole'.symm.trans hwhole)
      cases hfetch : fetchList N fetch (entry.get? "statusListCredential") with
      | error e =>
        refine .inr ⟨fun n' bytes b h => ?_, .inl ⟨e, rfl⟩⟩
        obtain ⟨list, hserves, -⟩ := h.list
        rw [fetchList_eq_ok.mpr hserves] at hfetch
        cases hfetch
      | ok fetched =>
        cases fetched with
        | error reason =>
          refine .inr ⟨fun n' bytes b h => ?_, .inr ⟨reason, rfl⟩⟩
          obtain ⟨list, hserves, -⟩ := h.list
          rw [fetchList_eq_ok.mpr hserves] at hfetch
          cases hfetch
        | ok list =>
          have hserves := fetchList_eq_ok.mp hfetch
          rcases readList_cases N entry list n with
            ⟨bytes, b, hlist, hbit, hanswered⟩ | ⟨hnone, hunanswered⟩
          · exact .inl ⟨n, bytes, b, ⟨htype, ⟨x, hnumber, hwhole⟩, hurl, ⟨list, hserves, hlist⟩⟩,
              hbit, hanswered⟩
          · refine .inr ⟨fun n' bytes b h => ?_, hunanswered⟩
            obtain rfl := hn h
            obtain ⟨list', hserves', hlist⟩ := h.list
            have heq := (fetchList_eq_ok.mpr hserves' : fetchList N fetch _ = _).symm.trans hfetch
            cases heq
            exact hnone bytes b hlist
    · rename_i hnot
      refine .inr ⟨fun n bytes b h => ?_, .inr ⟨_, rfl⟩⟩
      obtain ⟨x', hx', hwhole⟩ := h.index
      rw [hx'] at hnumber
      cases hnumber
      exact absurd hwhole (hnot n h.url)

/-! ## Where there is no text to report -/

/-- `String(v)` throws. -/
def NoText (v : Value) : Prop := ∃ e, v.text = .error e

theorem noText_iff {v : Value} : NoText v ↔ ∀ t, v.text ≠ .ok t := by
  cases h : v.text with
  | error e => simp [NoText, h]
  | ok t => simp [NoText, h]

/-- Some field of the entry, or of the list under its URL, stands where its text or its number is
needed, and has none. -/
inductive Unshowable (fetch : FetchList) (entry : Value) : Prop where
  | type : entry.truthy = true → entry.get? "type" ≠ .string "BitstringStatusListEntry" →
      NoText (entry.get? "type") → Unshowable fetch entry
  | index {e : Error} : entry.get? "type" = .string "BitstringStatusListEntry" →
      (entry.get? "statusListIndex").toNumber = .error e → Unshowable fetch entry
  | url {x : Numeric} {n : Whole} : entry.get? "type" = .string "BitstringStatusListEntry" →
      (entry.get? "statusListIndex").toNumber = .ok x → x.toWhole = some n →
      (entry.get? "statusListCredential").truthy = true →
      (∀ list, ¬ Serves fetch (entry.get? "statusListCredential") list) →
      NoText (entry.get? "statusListCredential") → Unshowable fetch entry
  | purpose {x : Numeric} {n : Whole} {list : Value} :
      entry.get? "type" = .string "BitstringStatusListEntry" →
      (entry.get? "statusListIndex").toNumber = .ok x → x.toWhole = some n →
      (entry.get? "statusListCredential").truthy = true →
      Serves fetch (entry.get? "statusListCredential") list →
      (list.get? "credentialSubject").get? "type" = .string "BitstringStatusList" →
      (entry.get? "statusPurpose").truthy = true →
      ((list.get? "credentialSubject").get? "statusPurpose").truthy = true →
      strictEq (entry.get? "statusPurpose")
        ((list.get? "credentialSubject").get? "statusPurpose") = false →
      NoText (entry.get? "statusPurpose") ∨
        NoText ((list.get? "credentialSubject").get? "statusPurpose") → Unshowable fetch entry

/-- A list that is not served is reported under its URL. -/
theorem fetchList_error_iff {N : Node} {fetch : FetchList} {url : Value} :
    (∃ e, fetchList N fetch url = .error e) ↔ (∀ list, ¬ Serves fetch url list) ∧ NoText url := by
  constructor
  · rintro ⟨e, he⟩
    refine ⟨fun list hserves => ?_, ?_⟩
    · rw [fetchList_eq_ok.mpr hserves] at he
      cases he
    · rw [noText_iff]
      intro t ht
      rw [fetchList, ht] at he
      split at he
      · cases he
      · cases he
  · rintro ⟨hnone, e, he⟩
    refine ⟨e, ?_⟩
    rw [fetchList, he]
    split
    · rename_i r hattempt
      obtain ⟨res, hres, hread⟩ := bind_eq_ok.mp hattempt
      split at hread
      · rename_i hok
        obtain ⟨list, hlist, -⟩ := bind_eq_ok.mp hread
        exact absurd ⟨res, hres, hok, hlist⟩ (hnone list)
      · cases hread
    · rfl

theorem readList_error_iff {N : Node} {entry list : Value} {n : Whole} :
    (∃ e, readList N entry list n = .error e) ↔
      (list.get? "credentialSubject").get? "type" = .string "BitstringStatusList" ∧
      (entry.get? "statusPurpose").truthy = true ∧
      ((list.get? "credentialSubject").get? "statusPurpose").truthy = true ∧
      strictEq (entry.get? "statusPurpose")
        ((list.get? "credentialSubject").get? "statusPurpose") = false ∧
      (NoText (entry.get? "statusPurpose") ∨
        NoText ((list.get? "credentialSubject").get? "statusPurpose")) := by
  rw [readList]
  split
  · rename_i htype
    rw [Value.isString_iff] at htype
    simp [htype]
  rename_i htype
  rw [not_not, Value.isString_iff] at htype
  split
  · rename_i hpurpose
    simp only [htype, hpurpose, true_and, NoText]
    cases (entry.get? "statusPurpose").text with
    | error e => simp [bind, Except.bind]
    | ok a =>
      cases ((list.get? "credentialSubject").get? "statusPurpose").text with
      | error e => simp [bind, Except.bind]
      | ok s => simp [bind, Except.bind, pure, Except.pure]
  · rename_i hpurpose
    constructor
    · rintro ⟨e, he⟩
      split at he
      · cases he
      · cases he
    · rintro ⟨-, hasked, hserved, hne, -⟩
      exact absurd ⟨hasked, hserved, hne⟩ hpurpose

theorem Unshowable.truthy {fetch : FetchList} {entry : Value} (h : Unshowable fetch entry) :
    entry.truthy = true := by
  have hobject : entry.get? "type" = .string "BitstringStatusListEntry" →
      entry.truthy = true := by
    intro htype
    cases entry with
    | object ms => rfl
    | _ => cases htype
  cases h with
  | type htruthy => exact htruthy
  | index htype => exact hobject htype
  | url htype => exact hobject htype
  | purpose htype => exact hobject htype

/-- An entry of another type is reported by its type. -/
theorem unshowable_of_other {fetch : FetchList} {entry : Value} (htruthy : entry.truthy = true)
    (htype : entry.get? "type" ≠ .string "BitstringStatusListEntry") :
    Unshowable fetch entry ↔ NoText (entry.get? "type") := by
  constructor
  · intro h
    cases h with
    | type _ _ htext => exact htext
    | index h => exact absurd h htype
    | url h => exact absurd h htype
    | purpose h => exact absurd h htype
  · exact .type htruthy htype

/-- An entry of the type is read for its index, its list is fetched, and the list is read. -/
theorem unshowable_iff {N : Node} {fetch : FetchList} {entry : Value}
    (htype : entry.get? "type" = .string "BitstringStatusListEntry") :
    Unshowable fetch entry ↔ (∃ e, (entry.get? "statusListIndex").toNumber = .error e) ∨
      ∃ x n, (entry.get? "statusListIndex").toNumber = .ok x ∧ x.toWhole = some n ∧
        (entry.get? "statusListCredential").truthy = true ∧
        ((∃ e, fetchList N fetch (entry.get? "statusListCredential") = .error e) ∨
          ∃ list, Serves fetch (entry.get? "statusListCredential") list ∧
            ∃ e, readList N entry list n = .error e) := by
  simp only [fetchList_error_iff, readList_error_iff]
  constructor
  · intro h
    cases h with
    | type _ h => exact absurd htype h
    | index _ h => exact .inl ⟨_, h⟩
    | url _ hnumber hwhole hurl hnone htext =>
      exact .inr ⟨_, _, hnumber, hwhole, hurl, .inl ⟨hnone, htext⟩⟩
    | purpose _ hnumber hwhole hurl hserves hlist hasked hserved hne htext =>
      exact .inr ⟨_, _, hnumber, hwhole, hurl,
        .inr ⟨_, hserves, hlist, hasked, hserved, hne, htext⟩⟩
  · rintro (⟨e, h⟩ | ⟨x, n, hnumber, hwhole, hurl, ⟨hnone, htext⟩ |
      ⟨list, hserves, hlist, hasked, hserved, hne, htext⟩⟩)
    · exact .index htype h
    · exact .url htype hnumber hwhole hurl hnone htext
    · exact .purpose htype hnumber hwhole hurl hserves hlist hasked hserved hne htext

/-- Checking throws exactly where a text or a number that it needs is not there. -/
theorem checkStatus_error_iff {N : Node} {fetch : FetchList} {v : Value} :
    (∃ e, checkStatus N fetch v = .error e) ↔ Unshowable fetch (entryOf v) := by
  rw [checkStatus]
  generalize entryOf v = entry
  dsimp only
  split
  · rename_i htruthy
    exact iff_of_false (by rintro ⟨e, ⟨⟩⟩) fun h => htruthy h.truthy
  rename_i htruthy
  rw [not_not] at htruthy
  split
  · rename_i htype
    rw [Value.isString_iff] at htype
    rw [unshowable_of_other htruthy htype, NoText]
    cases (entry.get? "type").text with
    | error e => simp [bind, Except.bind]
    | ok t => simp [bind, Except.bind, pure, Except.pure]
  rename_i htype
  rw [not_not, Value.isString_iff] at htype
  rw [unshowable_iff htype (N := N)]
  cases hnumber : (entry.get? "statusListIndex").toNumber with
  | error e => exact iff_of_true ⟨e, rfl⟩ (.inl ⟨e, rfl⟩)
  | ok x =>
    simp only [bind, Except.bind]
    split
    · rename_i n hurl hwhole
      cases hfetch : fetchList N fetch (entry.get? "statusListCredential") with
      | error e => exact iff_of_true ⟨e, rfl⟩ (.inr ⟨x, n, rfl, hwhole, hurl, .inl ⟨e, rfl⟩⟩)
      | ok fetched =>
        have hserves : ∀ {list}, Serves fetch (entry.get? "statusListCredential") list →
            fetched = .ok list := fun h =>
          Except.ok.inj (hfetch.symm.trans (fetchList_eq_ok.mpr h))
        cases fetched with
        | error reason =>
          refine iff_of_false (by rintro ⟨e, ⟨⟩⟩) ?_
          rintro (⟨e, ⟨⟩⟩ | ⟨_, _, -, -, -, ⟨e, ⟨⟩⟩ | ⟨list, hlist, -⟩⟩)
          cases hserves hlist
        | ok list =>
          constructor
          · rintro ⟨e, he⟩
            exact .inr ⟨x, n, rfl, hwhole, hurl, .inr ⟨list, fetchList_eq_ok.mp hfetch, e, he⟩⟩
          · rintro (⟨e, ⟨⟩⟩ | ⟨_, m, ⟨⟩, hm, -, ⟨e, ⟨⟩⟩ | ⟨list', hlist, hread⟩⟩)
            obtain rfl := Except.ok.inj (hserves hlist)
            obtain rfl := Option.some.inj (hwhole.symm.trans hm)
            exact hread
    · rename_i hnot
      refine iff_of_false (by rintro ⟨e, ⟨⟩⟩) ?_
      rintro (⟨e, ⟨⟩⟩ | ⟨_, n, ⟨⟩, hwhole, hurl, -⟩)
      exact hnot n hurl hwhole

/-- A list and an index are consulted as one. -/
theorem Consults.unique {N : Node} {fetch : FetchList} {entry : Value} {m n : Whole}
    {xs ys : Bytes} (hx : Consults N fetch entry m xs) (hy : Consults N fetch entry n ys) :
    m = n ∧ xs = ys := by
  constructor
  · obtain ⟨x, hx, hm⟩ := hx.index
    obtain ⟨y, hy, hn⟩ := hy.index
    cases hx.symm.trans hy
    exact Option.some.inj (hm.symm.trans hn)
  · obtain ⟨l, hl, hlist⟩ := hx.list
    obtain ⟨l', hl', hlist'⟩ := hy.list
    cases (fetchList_eq_ok (N := N)).mpr hl |>.symm.trans (fetchList_eq_ok.mpr hl')
    cases hlist.decodes.symm.trans hlist'.decodes
    rfl

theorem not_checked_of_unanswered {r : Except Error StatusReport} {report : StatusReport}
    (h : Unanswered r) (hr : r = .ok report) : report.checked = false := by
  rcases h with ⟨e, he⟩ | ⟨reason, hreason⟩
  · rw [he] at hr
    cases hr
  · rw [hreason] at hr
    cases hr
    rfl

/-- Every answer comes from a list that was consulted, and it is the bit that was asked for, at
exactly the indices where `getBit` reads that. -/
theorem status_answer_iff (N : Node) (fetch : FetchList) :
    (∀ (v : Value) (report : StatusReport),
      checkStatus N fetch v = .ok report → report.checked = true →
        ∃ n bytes, Consults N fetch (entryOf v) n bytes) ∧
    ∀ (bytes : Bytes) (n : Whole),
      (ReadsBit bytes n ∧ ∀ (v : Value) (report : StatusReport),
        Consults N fetch (entryOf v) n bytes → checkStatus N fetch v = .ok report →
        report.checked = true → 0 ≤ n.val ∧ n.val < 8 * bytes.length ∧
          (report.revoked = true ↔ bitAt bytes n.val.toNat = 1)) ↔
      ReadableBit bytes n := by
  constructor
  · intro v report hreport hchecked
    rcases checkStatus_cases N fetch v with ⟨n, bytes, b, hconsults, -, -⟩ | ⟨-, hunanswered⟩
    · exact ⟨n, bytes, hconsults⟩
    · rw [not_checked_of_unanswered hunanswered hreport] at hchecked
      cases hchecked
  · intro bytes n
    rw [readsBit_iff]
    refine and_iff_left_of_imp fun hread v report hconsults hreport hchecked => ?_
    have hreads := readsBit_iff.mpr hread
    rcases checkStatus_cases N fetch v with
      ⟨m, xs, b, hconsults', hbit, report', hreport', -, hrevoked, -⟩ | ⟨-, hunanswered⟩
    · obtain ⟨rfl, rfl⟩ := hconsults.unique hconsults'
      cases hreport.symm.trans hreport'
      by_cases hin : 0 ≤ n.val ∧ n.val < 8 * bytes.length
      · refine ⟨hin.1, hin.2, ?_⟩
        rw [hreads.inside hin.1 hin.2] at hbit
        cases hbit
        rw [hrevoked, beq_iff_eq]
      · obtain ⟨e, he⟩ := hreads.outside (by omega)
        rw [he] at hbit
        cases hbit
    · rw [not_checked_of_unanswered hunanswered hreport] at hchecked
      cases hchecked

/-! ## An index past the end that is answered -/

theorem two_le_length_utf16 (c d : Char) (cs : List Char) :
    2 ≤ (utf16 (String.ofList (c :: d :: cs))).length := by
  have hunits : ∀ c, 1 ≤ (codeUnits c).length := by
    intro c
    rw [codeUnits]
    split <;> simp
  have hc := hunits c
  have hd := hunits d
  simp only [utf16, String.toList_ofList, List.flatMap_cons, List.length_append]
  omega

/-- What is published is what is read. -/
theorem decodeList_encodeList {N : Node} (hN : N.Lawful) (bytes : Bytes) :
    decodeList N (.string (encodeList N bytes)) = .ok bytes := by
  obtain ⟨rest, hmagic⟩ := hN.gzip_magic bytes
  obtain ⟨text, htext⟩ : ∃ text, (base64UrlEncode (N.gzipSync bytes)).toList = text := ⟨_, rfl⟩
  have hlist : (encodeList N bytes).toList = 'u' :: text := by
    rw [encodeList, String.toList_append, htext]
    rfl
  cases text with
  | nil =>
    -- the text of no bytes, which `gzip` never writes
    have hempty : base64UrlEncode (N.gzipSync bytes) = base64UrlEncode [] := by
      rw [← String.toList_inj, htext]
      rfl
    have hnil := base64UrlEncode_injective hempty
    rw [hmagic] at hnil
    cases hnil
  | cons c cs =>
    have hlength : ¬ (utf16 (encodeList N bytes)).length < 2 := by
      rw [← String.ofList_toList (s := encodeList N bytes), hlist, not_lt]
      exact two_le_length_utf16 'u' c cs
    simp only [decodeList, if_neg hlength, hlist]
    rw [← htext, String.ofList_toList, hN.fromBase64Url, hN.gunzip_gzip]

def sampleListUrl : Value := .string "https://example.test/status/1"

/-- A fetch that brings one list from everywhere. -/
def servingList (bytes : Bytes) : FetchList := fun _ => .ok {
  ok := true
  status := 200
  json := .ok (.object [("credentialSubject", .object [("type", .string "BitstringStatusList"),
    ("encodedList", .string (encodeList sampleNode bytes))])]) }

def entryAt (index : String) : Value :=
  .object [("type", .string "BitstringStatusListEntry"), ("statusListIndex", .string index),
    ("statusListCredential", sampleListUrl)]

/-- An index text for bit `n`, at a server of these bytes, consults them. -/
theorem consults_entryAt {index : String} {n : Whole} (bytes : Bytes)
    (h : (stringToNumber index).toWhole = some n) :
    Consults sampleNode (servingList bytes) (entryAt index) n bytes where
  isEntry := rfl
  index := ⟨_, rfl, h⟩
  url := rfl
  list := ⟨_, ⟨_, rfl, rfl, rfl⟩, {
    isList := rfl
    purpose := by
      rintro ⟨h, -⟩
      cases h
    decodes := decodeList_encodeList lawful_sampleNode bytes }⟩

def two_pow_31 : Whole := ⟨2147483648, by decide +kernel⟩

/-- Bit `2 ^ 31` of a list of eight bits is read as zero, and reported as checked. -/
theorem out_of_range_answered :
    ¬ (∀ (bytes : Bytes) (n : Whole), 0 ≤ n.val → ReadsBit bytes n) ∧
    ¬ ∀ (N : Node) (fetch : FetchList) (v : Value) (report : StatusReport) (n : Whole)
      (bytes : Bytes), Consults N fetch (entryOf v) n bytes → checkStatus N fetch v = .ok report →
      report.checked = true → n.val < 8 * bytes.length := by
  have hlow : toInt32 two_pow_31.val < 0 := by decide
  have hbit : getBit [0] (.whole two_pow_31) = .ok 0 := by
    rw [getBit_whole (by decide), if_pos hlow]
  have hindex : (stringToNumber "2147483648").toWhole = some two_pow_31 := by decide +kernel
  have hconsults := consults_entryAt [0] hindex
  constructor
  · intro h
    obtain ⟨e, he⟩ := (h [0] two_pow_31 (by decide)).outside (.inr (by decide))
    rw [hbit] at he
    cases he
  · intro h
    rcases checkStatus_cases sampleNode (servingList [0]) (entryAt "2147483648") with
      ⟨n, bytes, b, -, -, report, hreport, hchecked, -⟩ | ⟨hnone, -⟩
    · have hlt := h _ _ _ report two_pow_31 [0] hconsults hreport hchecked
      exact absurd hlt (by decide)
    · exact hnone _ _ _ hconsults hbit

end Gatekeeper.Agent

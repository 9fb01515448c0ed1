import Gatekeeper.Gate.GateCli

/-!
# What the reasons say

The reasons `decide` gives at two times are the same only when it is one time or the mandate's
window holds both, and none of them speaks of what a mandate requires beside the action.
-/

namespace Gatekeeper.Gate

/-! ## The reasons at two times -/

/-- The time is within the mandate's window. -/
structure InWindow (mandate : Mandate) (nowSecs : UInt64) : Prop where
  active : mandate.validAfterSecs = 0 ∨ mandate.validAfterSecs ≤ nowSecs
  unexpired : mandate.expiresAtSecs = 0 ∨ nowSecs ≤ mandate.expiresAtSecs

/-- The reasons that name the time. -/
def timeReasons (mandate : Mandate) (nowSecs : UInt64) : List String :=
  [validAfterReason mandate nowSecs, expiryReason mandate nowSecs].reduceOption

/-- The reasons that do not. -/
def timelessReasons (C : Crates) (action : Action) (mandate : Mandate) : List String :=
  [kindReason C action mandate, assetReason C action mandate,
    counterpartyReason C action mandate, issuerReason C action mandate,
    amountReason action mandate, subLimitReason action mandate].reduceOption

theorem decide_snd (C : Crates) (action : Action) (mandate : Mandate) (nowSecs : UInt64) :
    (Gate.decide C action mandate nowSecs).2 =
      timeReasons mandate nowSecs ++ timelessReasons C action mandate := by
  rw [timeReasons, timelessReasons, ← List.reduceOption_append]
  rfl

theorem timeReasons_eq_nil {mandate : Mandate} {nowSecs : UInt64} :
    timeReasons mandate nowSecs = [] ↔ InWindow mandate nowSecs := by
  have hcases : timeReasons mandate nowSecs = [] ↔
      validAfterReason mandate nowSecs = none ∧ expiryReason mandate nowSecs = none := by
    rw [timeReasons]
    cases validAfterReason mandate nowSecs <;> cases expiryReason mandate nowSecs <;>
      simp [List.reduceOption]
  rw [hcases, validAfterReason_eq_none, expiryReason_eq_none]
  exact ⟨fun ⟨h₁, h₂⟩ => ⟨h₁, h₂⟩, fun ⟨h₁, h₂⟩ => ⟨h₁, h₂⟩⟩

/-- A reason that names the time ends with it. -/
theorem reason_ends {mandate : Mandate} {t : UInt64} {r : String}
    (h : validAfterReason mandate t = some r ∨ expiryReason mandate t = some r) :
    ∃ p, r.toList = p ++ ' ' :: (Nat.toDigits 10 t.toNat ++ [')']) := by
  have hdigits : (toString t).toList = Nat.toDigits 10 t.toNat := Nat.toList_repr
  have hnow : (toString " (now ").toList = " (now".toList ++ [' '] := rfl
  have hclose : (toString ")").toList = [')'] := rfl
  rw [validAfterReason, expiryReason] at h
  rcases h with h | h
  · split_ifs at h
    cases h
    refine ⟨(toString "mandate not active until ").toList ++
      ((toString mandate.validAfterSecs).toList ++ " (now".toList), ?_⟩
    simp only [String.toList_append, hdigits, hnow, hclose, List.append_assoc, List.cons_append,
      List.nil_append]
  · split_ifs at h
    cases h
    refine ⟨(toString "mandate expired at ").toList ++
      ((toString mandate.expiresAtSecs).toList ++ " (now".toList), ?_⟩
    simp only [String.toList_append, hdigits, hnow, hclose, List.append_assoc, List.cons_append,
      List.nil_append]

/-- A reason that names the time says which time it was. -/
theorem time_of_reason {mandate : Mandate} {t u : UInt64} {r : String}
    (ht : validAfterReason mandate t = some r ∨ expiryReason mandate t = some r)
    (hu : validAfterReason mandate u = some r ∨ expiryReason mandate u = some r) : t = u := by
  have read_back : ∀ {x : UInt64} {p : List Char},
      r.toList = p ++ ' ' :: (Nat.toDigits 10 x.toNat ++ [')']) →
      r.toList.reverse.tail.takeWhile Char.isDigit = (Nat.toDigits 10 x.toNat).reverse := by
    intro x p h
    have hall : ∀ c ∈ (Nat.toDigits 10 x.toNat).reverse, c.isDigit = true := fun c hc =>
      Nat.isDigit_of_mem_toDigits (by decide) (by decide) (List.mem_reverse.mp hc)
    have hlist : r.toList.reverse.tail = (Nat.toDigits 10 x.toNat).reverse ++ ' ' :: p.reverse := by
      simp [h]
    rw [hlist, List.takeWhile_append_of_pos hall, List.takeWhile_cons_of_neg (by decide),
      List.append_nil]
  obtain ⟨p, hp⟩ := reason_ends ht
  obtain ⟨q, hq⟩ := reason_ends hu
  have hsame := List.reverse_injective ((read_back hp).symm.trans (read_back hq))
  have hnat := congrArg (Nat.ofDigitChars 10 · 0) hsame
  simp only [Nat.ofDigitChars_ten_toDigits] at hnat
  exact UInt64.toNat_inj.mp hnat

theorem timeReasons_eq_iff {mandate : Mandate} {t u : UInt64} :
    timeReasons mandate t = timeReasons mandate u ↔
      t = u ∨ (InWindow mandate t ∧ InWindow mandate u) := by
  constructor
  · intro h
    by_cases hnil : timeReasons mandate t = []
    · rw [hnil] at h
      exact .inr ⟨timeReasons_eq_nil.mp hnil, timeReasons_eq_nil.mp h.symm⟩
    -- the first reason stands in both lists, and it names the time
    · obtain ⟨r, hr⟩ := List.exists_mem_of_ne_nil _ hnil
      have mem_reasons : ∀ {x : UInt64}, r ∈ timeReasons mandate x →
          validAfterReason mandate x = some r ∨ expiryReason mandate x = some r := by
        intro x hx
        rw [timeReasons, List.reduceOption_mem_iff, List.mem_cons, List.mem_singleton] at hx
        rcases hx with hx | hx
        · exact .inl hx.symm
        · exact .inr hx.symm
      exact .inl (time_of_reason (mem_reasons hr) (mem_reasons (h ▸ hr)))
  · rintro (rfl | ⟨ht, hu⟩)
    · rfl
    · rw [timeReasons_eq_nil.mpr ht, timeReasons_eq_nil.mpr hu]

/-! ## How reasons begin -/

def reasonHeads : List String :=
  ["mandate not active until ", "mandate expired at ", "action kind '", "asset '",
   "counterparty '", "counterparty required by mandate but none supplied",
   "credential issuer '", "credential issuer required by mandate but none supplied", "amount "]

theorem optInReason_some {list : List String} {value : Option RString} {missing r : String}
    {unlisted : String → String} (h : optInReason list value missing unlisted = some r) :
    r = missing ∨ ∃ v, r = unlisted v := by
  unfold optInReason at h
  split_ifs at h
  split at h
  · split_ifs at h
    exact .inr ⟨_, (Option.some.inj h).symm⟩
  · exact .inl (Option.some.inj h).symm

theorem head_of_mem_decide {C : Crates} {action : Action} {mandate : Mandate}
    {nowSecs : UInt64} {r : String} (hr : r ∈ (Gate.decide C action mandate nowSecs).2) :
    ∃ p ∈ reasonHeads, p.toList <+: r.toList := by
  rw [Gate.decide, List.reduceOption_mem_iff] at hr
  simp only [checks, List.mem_cons, List.not_mem_nil, or_false] at hr
  -- the text of each reason is a concatenation that its head opens
  have opens : ∀ (p : String) {s : String}, p ∈ reasonHeads → r = p ++ s →
      ∃ p ∈ reasonHeads, p.toList <+: r.toList := by
    rintro p s hp rfl
    exact ⟨p, hp, by rw [String.toList_append]; exact List.prefix_append _ _⟩
  rcases hr with hr | hr | hr | hr | hr | hr | hr | hr
  · rw [validAfterReason] at hr
    split_ifs at hr
    simp only [Option.some.injEq, String.append_assoc] at hr
    exact opens "mandate not active until " (by decide) hr
  · rw [expiryReason] at hr
    split_ifs at hr
    simp only [Option.some.injEq, String.append_assoc] at hr
    exact opens "mandate expired at " (by decide) hr
  · rw [kindReason] at hr
    split_ifs at hr
    simp only [Option.some.injEq, String.append_assoc] at hr
    exact opens "action kind '" (by decide) hr
  · rw [assetReason] at hr
    split_ifs at hr
    simp only [Option.some.injEq, String.append_assoc] at hr
    exact opens "asset '" (by decide) hr
  · rw [counterpartyReason] at hr
    rcases optInReason_some hr.symm with h | ⟨v, h⟩
    · exact ⟨r, by rw [h]; decide, List.prefix_rfl⟩
    · simp only [String.append_assoc] at h
      exact opens "counterparty '" (by decide) h
  · rw [issuerReason] at hr
    rcases optInReason_some hr.symm with h | ⟨v, h⟩
    · exact ⟨r, by rw [h]; decide, List.prefix_rfl⟩
    · simp only [String.append_assoc] at h
      exact opens "credential issuer '" (by decide) h
  · rw [amountReason] at hr
    split_ifs at hr
    simp only [Option.some.injEq, String.append_assoc] at hr
    exact opens "amount " (by decide) hr
  · rw [subLimitReason] at hr
    split at hr
    · split_ifs at hr
      simp only [Option.some.injEq, String.append_assoc] at hr
      exact opens "amount " (by decide) hr
    · cases hr

/-- No reason of `decide` speaks of what the mandate requires the caller to supply. -/
theorem decide_not_requires {C : Crates} {action : Action} {mandate : Mandate}
    {nowSecs : UInt64} {r : String} (hr : r ∈ (Gate.decide C action mandate nowSecs).2) :
    ¬ "mandate requires".toList <+: r.toList := by
  obtain ⟨p, hp, hpr⟩ := head_of_mem_decide hr
  have hheads : ∀ p ∈ reasonHeads, ¬ p.toList <+: "mandate requires".toList ∧
      ¬ "mandate requires".toList <+: p.toList := by decide
  intro h
  -- two prefixes of one text are prefixes of each other
  rcases List.prefix_or_prefix_of_prefix hpr h with h | h
  · exact (hheads p hp).1 h
  · exact (hheads p hp).2 h

/-! ## `gate_cli` and `decide` -/

theorem demands_eq_nil {mandate : Mandate} :
    demands mandate = [] ↔
      mandate.requireCredential = false ∧ mandate.requireIdempotencyKey = false := by
  rw [demands]
  cases mandate.requireCredential <;> cases mandate.requireIdempotencyKey <;> simp

theorem prefix_of_mem_demands {mandate : Mandate} {r : String} (h : r ∈ demands mandate) :
    "mandate requires".toList <+: r.toList := by
  have hboth : ∀ r ∈ ["mandate requires a credential binding, none supplied",
      "mandate requires an idempotency key, none supplied"],
      "mandate requires".toList <+: r.toList := by decide
  apply hboth
  rw [demands, List.mem_append] at h
  rcases h with h | h
  · split_ifs at h
    · exact List.mem_cons.mpr (.inl (List.mem_singleton.mp h))
    · cases h
  · split_ifs at h
    · exact List.mem_cons_of_mem _ h
    · cases h

/-- The reasons for one who supplies nothing are those of `decide` at another time exactly when
the mandate requires nothing more and tells the two times not apart. -/
theorem reasons_eq_iff {C : Crates} {action : Action} {mandate : Mandate} {t u : UInt64} :
    (Gate.decide C action mandate t).2 ++ demands mandate = (Gate.decide C action mandate u).2 ↔
      demands mandate = [] ∧ (t = u ∨ (InWindow mandate t ∧ InWindow mandate u)) := by
  constructor
  · intro h
    have hnil : demands mandate = [] := by
      rw [List.eq_nil_iff_forall_not_mem]
      intro r hr
      have hmem : r ∈ (Gate.decide C action mandate u).2 := h ▸ List.mem_append_right _ hr
      exact decide_not_requires hmem (prefix_of_mem_demands hr)
    rw [hnil, List.append_nil, decide_snd, decide_snd, List.append_left_inj] at h
    exact ⟨hnil, timeReasons_eq_iff.mp h⟩
  · rintro ⟨hnil, h⟩
    rw [hnil, List.append_nil, decide_snd, decide_snd, timeReasons_eq_iff.mpr h]

end Gatekeeper.Gate

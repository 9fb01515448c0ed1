import Gatekeeper.Lib.Text

/-!
# Patterns in text

What simple regular expressions find: the leftmost match of a pattern, the text between a mark
and a closing character, the digits behind a mark. And lines, which a text joins and separates.
-/

namespace Pattern

/-! ## Leftmost matches -/

variable {α : Type}

/-- What a pattern captures at the leftmost place where it matches. -/
def firstMatch (p : List Char → Option α) : List Char → Option α
  | [] => p []
  | c :: cs => (p (c :: cs)).or (firstMatch p cs)

/-- What follows a mark that the text starts with. -/
def after (mark cs : List Char) : Option (List Char) :=
  if mark.isPrefixOf cs then some (cs.drop mark.length) else none

/-- `mark([^stop]+)stop`, at the start. -/
def enclosed (mark : String) (stop : Char) (cs : List Char) : Option String := do
  let rest ← after mark.toList cs
  let body := rest.takeWhile (· ≠ stop)
  if body ≠ [] ∧ (rest.drop body.length).head? = some stop then some (String.ofList body) else none

/-- `mark(\d+)`, at the start, as the number the digits spell. -/
def digitsAfter (mark : String) (cs : List Char) : Option ℕ := do
  let rest ← after mark.toList cs
  let ds := rest.takeWhile Char.isDigit
  if ds ≠ [] then some (Nat.ofDigitChars 10 ds 0) else none

/-- A pattern that matches at the start is found there. -/
theorem firstMatch_of_some {p : List Char → Option α} {cs : List Char} {a : α}
    (h : p cs = some a) : firstMatch p cs = some a := by
  cases cs with
  | nil => exact h
  | cons c cs => rw [firstMatch, h, Option.some_or]

/-- A mark does not start before a character that is not in it, unless the text there has the
rest of the mark as well. -/
theorem not_mark_before {m q t r : List Char} {x y : Char} (hx : x ∉ t) (hy : y ∉ m) (hne : x ≠ y) :
    ¬ (m ++ x :: q) <+: (t ++ y :: r) := by
  induction m generalizing t with
  | nil =>
    cases t with
    | nil =>
      intro h
      exact hne (List.cons_prefix_cons.mp h).1
    | cons c t =>
      intro h
      obtain rfl := (List.cons_prefix_cons.mp h).1
      exact hx List.mem_cons_self
  | cons d m ih =>
    rw [List.mem_cons, not_or] at hy
    cases t with
    | nil =>
      intro h
      exact hy.1 (List.cons_prefix_cons.mp h).1.symm
    | cons c t =>
      rw [List.mem_cons, not_or] at hx
      intro h
      exact ih hx.2 hy.2 (List.cons_prefix_cons.mp h).2

/-- The text up to a closing character that is not in it. -/
theorem takeWhile_append_stop {stop : Char} {body rest : List Char} (h : stop ∉ body) :
    (body ++ stop :: rest).takeWhile (· ≠ stop) = body := by
  have hall : ∀ c ∈ body, decide (c ≠ stop) = true := by
    intro c hc
    rw [decide_eq_true_iff]
    rintro rfl
    exact h hc
  rw [List.takeWhile_append_of_pos hall, List.takeWhile_cons_of_neg (by simp), List.append_nil]

theorem after_append (mark rest : List Char) : after mark (mark ++ rest) = some rest := by
  have hpre : mark.isPrefixOf (mark ++ rest) = true :=
    List.isPrefixOf_iff_prefix.mpr (List.prefix_append _ _)
  rw [after, if_pos hpre, List.drop_left]

/-- A pattern that begins with a mark is found behind a text that lacks a character of it. -/
theorem firstMatch_skip {p : List Char → Option α} {mark pre rest : List Char} {x y : Char}
    (hp : ∀ cs, ¬ mark <+: cs → p cs = none) (hx : x ∉ pre) (hmark : x ∈ mark)
    (hy : y ∉ mark.takeWhile (· ≠ x)) (hne : x ≠ y) :
    firstMatch p (pre ++ y :: rest) = firstMatch p rest := by
  obtain ⟨m, q, rfl, hm⟩ := List.eq_append_cons_of_mem hmark
  rw [takeWhile_append_stop hm] at hy
  induction pre with
  | nil =>
    have hnone : p ([] ++ y :: rest) = none := hp _ (not_mark_before List.not_mem_nil hy hne)
    rw [List.nil_append] at hnone ⊢
    rw [firstMatch, hnone, Option.none_or]
  | cons c pre ih =>
    rw [List.cons_append, firstMatch, ← List.cons_append, hp _ (not_mark_before hx hy hne),
      Option.none_or]
    exact ih fun h => hx (List.mem_cons_of_mem _ h)

theorem after_eq_none {mark cs : List Char} (h : ¬ mark <+: cs) : after mark cs = none := by
  rw [after, if_neg fun hp => h (List.isPrefixOf_iff_prefix.mp hp)]

theorem enclosed_eq_none {mark : String} {stop : Char} {cs : List Char}
    (h : ¬ mark.toList <+: cs) : enclosed mark stop cs = none := by
  rw [enclosed, after_eq_none h]
  rfl

theorem digitsAfter_eq_none {mark : String} {cs : List Char} (h : ¬ mark.toList <+: cs) :
    digitsAfter mark cs = none := by
  rw [digitsAfter, after_eq_none h]
  rfl

/-- The digits of a number have no letter and no sign among them. -/
theorem not_mem_digits {c : Char} (h : c.isDigit = false) (n : ℕ) : c ∉ (toString n).toList := by
  intro hc
  rw [Nat.toString_eq_repr, Nat.toList_repr] at hc
  rw [Nat.isDigit_of_mem_toDigits (by decide) (by decide) hc] at h
  cases h

/-- A mark begins neither in a text without its character `x` nor at the `y` behind it. -/
def Separates (mark : String) (x y : Char) : Prop :=
  x ∈ mark.toList ∧ y ∉ mark.toList.takeWhile (· ≠ x) ∧ x ≠ y

instance (mark : String) (x y : Char) : Decidable (Separates mark x y) :=
  inferInstanceAs (Decidable (_ ∧ _))

theorem enclosed_skip {mark : String} {stop x y : Char} {pre rest : List Char}
    (hsep : Separates mark x y) (hx : x ∉ pre) :
    firstMatch (enclosed mark stop) (pre ++ y :: rest) = firstMatch (enclosed mark stop) rest :=
  firstMatch_skip (fun _ => enclosed_eq_none) hx hsep.1 hsep.2.1 hsep.2.2

theorem digitsAfter_skip {mark : String} {x y : Char} {pre rest : List Char}
    (hsep : Separates mark x y) (hx : x ∉ pre) :
    firstMatch (digitsAfter mark) (pre ++ y :: rest) = firstMatch (digitsAfter mark) rest :=
  firstMatch_skip (fun _ => digitsAfter_eq_none) hx hsep.1 hsep.2.1 hsep.2.2

/-- Digits are read up to the first character that is none. -/
theorem digitsAfter_of_digits {mark : String} {ds : List Char} {stop : Char} {rest : List Char}
    (hne : ds ≠ []) (hds : ∀ c ∈ ds, c.isDigit = true) (h : stop.isDigit = false) :
    digitsAfter mark (mark.toList ++ (ds ++ stop :: rest)) =
      some (Nat.ofDigitChars 10 ds 0) := by
  have htake : (ds ++ stop :: rest).takeWhile Char.isDigit = ds := by
    rw [List.takeWhile_append_of_pos hds, List.takeWhile_cons_of_neg (by simp [h]),
      List.append_nil]
  rw [digitsAfter, after_append, Option.bind_eq_bind, Option.bind_some, htake, if_pos hne]

/-- The digits of a number are read back. -/
theorem digitsAfter_append {mark : String} {n : ℕ} {stop : Char} {rest : List Char}
    (h : stop.isDigit = false) :
    digitsAfter mark (mark.toList ++ ((toString n).toList ++ stop :: rest)) = some n := by
  have hdigits : ∀ c ∈ Nat.toDigits 10 n, c.isDigit = true := fun c hc =>
    Nat.isDigit_of_mem_toDigits (by decide) (by decide) hc
  rw [Nat.toString_eq_repr, Nat.toList_repr, digitsAfter_of_digits Nat.toDigits_ne_nil hdigits h,
    Nat.ofDigitChars_toDigits (by decide) (by decide)]

/-- Text between a mark and its closing character is captured. -/
theorem enclosed_append {mark : String} {stop : Char} {body rest : List Char} (hne : body ≠ [])
    (h : stop ∉ body) :
    enclosed mark stop (mark.toList ++ (body ++ stop :: rest)) = some (String.ofList body) := by
  simp only [enclosed, after_append, Option.bind_eq_bind, Option.bind_some,
    takeWhile_append_stop h]
  rw [if_pos ⟨hne, by rw [List.drop_left]; rfl⟩]

/-- What is captured does not contain the closing character. -/
theorem not_mem_of_enclosed {mark : String} {stop : Char} {cs : List Char} {t : String}
    (h : firstMatch (enclosed mark stop) cs = some t) : stop ∉ t.toList := by
  have hat : ∀ ds, enclosed mark stop ds = some t → stop ∉ t.toList := by
    intro ds hds hmem
    obtain ⟨rest, _, hbody⟩ := Option.bind_eq_some_iff.mp hds
    dsimp only at hbody
    split_ifs at hbody
    obtain rfl := Option.some.inj hbody
    rw [String.toList_ofList] at hmem
    exact absurd (List.all_eq_true.mp List.all_takeWhile _ hmem) (by simp)
  induction cs with
  | nil => exact hat [] h
  | cons c cs ih =>
    rw [firstMatch, Option.or_eq_some_iff] at h
    rcases h with h | ⟨_, h⟩
    · exact hat _ h
    · exact ih h

/-- The pieces of a text are made of its characters. -/
theorem mem_of_mem_splitOn {a c : Char} {cs piece : List Char} (h : piece ∈ cs.splitOn a)
    (hc : c ∈ piece) : c ∈ cs := by
  induction cs generalizing piece with
  | nil =>
    rw [List.splitOn_nil, List.mem_singleton] at h
    rw [h] at hc
    exact hc
  | cons d cs ih =>
    rw [List.splitOn_cons_eq_if_modifyHead] at h
    split_ifs at h
    · rcases List.mem_cons.mp h with rfl | h
      · cases hc
      · exact List.mem_cons_of_mem _ (ih h hc)
    · cases hpieces : cs.splitOn a with
      | nil => exact absurd hpieces (List.splitOn_ne_nil a cs)
      | cons first rest =>
        rw [hpieces, List.modifyHead_cons] at h
        rcases List.mem_cons.mp h with rfl | h
        · rcases List.mem_cons.mp hc with rfl | hc
          · exact List.mem_cons_self
          · exact List.mem_cons_of_mem _ (ih (hpieces ▸ List.mem_cons_self) hc)
        · exact List.mem_cons_of_mem _ (ih (hpieces ▸ List.mem_cons_of_mem _ h) hc)

/-- Splitting at one character and joining with another replaces the one by the other. -/
theorem intercalate_splitOn_map {a b : Char} (cs : List Char) :
    [b].intercalate (cs.splitOn a) = cs.map fun c => if c = a then b else c := by
  induction cs with
  | nil => rfl
  | cons c cs ih =>
    rw [List.splitOn_cons_eq_if_modifyHead, List.map_cons, ← ih]
    cases hpieces : cs.splitOn a with
    | nil => exact absurd hpieces (List.splitOn_ne_nil a cs)
    | cons first rest =>
      by_cases hc : c = a
      · simp [hc, List.intercalate_cons_cons]
      · cases rest with
        | nil => simp [hc]
        | cons second rest => simp [hc, List.intercalate_cons_cons]

/-- Two texts that both end where a predicate first fails, and what follows them. -/
theorem append_inj_of_stop {p : Char → Bool} {xs ys r s : List Char} (hx : ∀ c ∈ xs, p c = true)
    (hy : ∀ c ∈ ys, p c = true) (hr : ∀ c ∈ r.head?, p c = false)
    (hs : ∀ c ∈ s.head?, p c = false) (h : xs ++ r = ys ++ s) : xs = ys ∧ r = s := by
  have stop : ∀ {zs t : List Char}, (∀ c ∈ zs, p c = true) → (∀ c ∈ t.head?, p c = false) →
      (zs ++ t).takeWhile p = zs := by
    intro zs t hz ht
    rw [List.takeWhile_append_of_pos hz]
    cases t with
    | nil => rw [List.takeWhile_nil, List.append_nil]
    | cons c t =>
      rw [List.takeWhile_cons_of_neg (by rw [ht c rfl]; exact Bool.false_ne_true),
        List.append_nil]
  have htake := congrArg (List.takeWhile p) h
  rw [stop hx hr, stop hy hs] at htake
  rw [htake] at h
  exact ⟨htake, List.append_cancel_left h⟩

/-! ## Lines -/

/-- A text that stands on one line. -/
structure Line where
  text : String
  noBreak : '\n' ∉ text.toList
deriving DecidableEq

/-- The lines with a line feed between each two. -/
def joinLines (lines : List String) : String :=
  String.ofList (['\n'].intercalate (lines.map String.toList))

/-- A text tells its lines apart when no line has a line feed in it. -/
theorem joinLines_inj {ls ms : List String} (hl : ∀ l ∈ ls, '\n' ∉ l.toList)
    (hm : ∀ m ∈ ms, '\n' ∉ m.toList) (hls : ls ≠ []) (hms : ms ≠ [])
    (h : joinLines ls = joinLines ms) : ls = ms := by
  have split : ∀ {xs : List String}, (∀ x ∈ xs, '\n' ∉ x.toList) → xs ≠ [] →
      (['\n'].intercalate (xs.map String.toList)).splitOn '\n' = xs.map String.toList := by
    intro xs hx hne
    refine List.splitOn_intercalate _ ?_ (by simpa using hne)
    intro l hl
    obtain ⟨x, hmem, rfl⟩ := List.mem_map.mp hl
    exact hx x hmem
  have hchars := congrArg (List.splitOn '\n') (String.ofList_injective h)
  rw [split hl hls, split hm hms] at hchars
  exact List.map_injective_iff.mpr (fun _ _ => String.toList_injective) hchars

end Pattern

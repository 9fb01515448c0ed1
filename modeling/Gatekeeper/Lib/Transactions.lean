import Gatekeeper.Lib.Interaction

/-!
# Invocations as transactions

A host that runs each invocation as one atomic transaction keeps what it wrote when it
returns, and takes it back when it fails.
-/

namespace Interaction

variable {Op : Type} {Res : Op → Type} {ε α β σ : Type}

/-- One invocation, committed or rolled back. -/
inductive Transaction (H : HostRel Op Res σ) (body : β → Prog Op Res ε α) :
    σ → Invocation Op Res ε α β → σ → Prop where
  | commit {s s' : σ} {i : Invocation Op Res ε α β} {a : α} :
      Emits (body i.request) i.trace i.result → Along H s i.trace s' → i.result = .ok a →
      Transaction H body s i s'
  | rollback {s s' : σ} {i : Invocation Op Res ε α β} {e : ε} :
      Emits (body i.request) i.trace i.result → Along H s i.trace s' → i.result = .error e →
      Transaction H body s i s

/-- A transaction is a complete run, and what came of it depends on its result alone. -/
theorem Transaction.along {H : HostRel Op Res σ} {body : β → Prog Op Res ε α} {s s' : σ}
    {i : Invocation Op Res ε α β} (h : Transaction H body s i s') :
    ∃ s₁, Emits (body i.request) i.trace i.result ∧ Along H s i.trace s₁ ∧
      (∀ a, i.result = .ok a → s' = s₁) ∧ ∀ e, i.result = .error e → s' = s := by
  cases h with
  | commit hemits halong hok =>
    refine ⟨_, hemits, halong, fun _ _ => rfl, fun e he => ?_⟩
    rw [hok] at he
    cases he
  | rollback hemits halong herror =>
    refine ⟨_, hemits, halong, fun a ha => ?_, fun _ _ => rfl⟩
    rw [herror] at ha
    cases ha

/-- Transactions one after another. Between two of them the environment may change the
state as `env` allows. -/
inductive Transactions (H : HostRel Op Res σ) (env : σ → σ → Prop) (body : β → Prog Op Res ε α) :
    σ → List (Invocation Op Res ε α β) → σ → Prop where
  | nil (s : σ) : Transactions H env body s [] s
  | env {s s' s'' : σ} {is : List (Invocation Op Res ε α β)} :
      env s s' → Transactions H env body s' is s'' → Transactions H env body s is s''
  | cons {s s' s'' : σ} {i : Invocation Op Res ε α β} {is : List (Invocation Op Res ε α β)} :
      Transaction H body s i s' → Transactions H env body s' is s'' →
      Transactions H env body s (i :: is) s''

section Transactions

variable {H : HostRel Op Res σ} {env : σ → σ → Prop} {body : β → Prog Op Res ε α}
  {s s' : σ} {i : Invocation Op Res ε α β} {is js : List (Invocation Op Res ε α β)}

/-- What ran, and what the state was before and after it. -/
theorem Transactions.split (h : Transactions H env body s (is ++ i :: js) s') :
    ∃ s₁ s₂, Transactions H env body s is s₁ ∧ Transaction H body s₁ i s₂ ∧
      Transactions H env body s₂ js s' := by
  generalize hl : is ++ i :: js = l at h
  induction h generalizing is with
  | nil => cases List.append_eq_nil_iff.mp hl |>.2
  | env he _ ih =>
    obtain ⟨s₁, s₂, h₁, h₂, h₃⟩ := ih hl
    exact ⟨s₁, s₂, .env he h₁, h₂, h₃⟩
  | @cons s s₁ s' j l' hj hrest ih =>
    cases is with
    | nil =>
      obtain ⟨rfl, rfl⟩ := List.cons.inj hl
      exact ⟨s, s₁, .nil s, hj, hrest⟩
    | cons i' is =>
      obtain ⟨rfl, hl'⟩ := List.cons.inj hl
      obtain ⟨s₂, s₃, h₁, h₂, h₃⟩ := ih hl'
      exact ⟨s₂, s₃, .cons hj h₁, h₂, h₃⟩

/-- What ties the state to the history, and is kept by the environment and by each
transaction, holds after any run of them. -/
theorem Transactions.history {I : List (Invocation Op Res ε α β) → σ → Prop}
    {hist : List (Invocation Op Res ε α β)} (h : Transactions H env body s is s')
    (henv : ∀ hist s s', env s s' → I hist s → I hist s')
    (hstep : ∀ hist s i s', Transaction H body s i s' → I hist s → I (hist ++ [i]) s')
    (hI : I hist s) : I (hist ++ is) s' := by
  -- the history grows by the transactions that have run
  induction h generalizing hist with
  | nil => rwa [List.append_nil]
  | env he _ ih => exact ih (henv _ _ _ he hI)
  | cons hi _ ih =>
    rw [List.append_cons]
    exact ih (hstep _ _ _ _ hi hI)

end Transactions

/-- The transactions of these requests, from a state, against a host that answers by a
function. -/
def runTransactions (f : (op : Op) → σ → Res op × σ) (body : β → Prog Op Res ε α) :
    List β → σ → List (Invocation Op Res ε α β) × σ
  | [], s => ([], s)
  | b :: bs, s =>
    let now := runFrom f (body b) s
    let rest := runTransactions f body bs (match now.2.1 with | .ok _ => now.2.2 | .error _ => s)
    (⟨b, now.1, now.2.1⟩ :: rest.1, rest.2)

theorem transactions_runTransactions {H : HostRel Op Res σ} {f : (op : Op) → σ → Res op × σ}
    (hf : ∀ op s, H op s (f op s).1 (f op s).2) (env : σ → σ → Prop)
    (body : β → Prog Op Res ε α) (bs : List β) (s : σ) :
    Transactions H env body s (runTransactions f body bs s).1
      (runTransactions f body bs s).2 := by
  induction bs generalizing s with
  | nil => exact .nil s
  | cons b bs ih =>
    refine .cons ?_ (ih _)
    have hemits := emits_runFrom f (body b) s
    have halong := along_runFrom hf (body b) s
    generalize hr : (runFrom f (body b) s).2.1 = r at hemits ⊢
    cases r with
    | ok a => exact .commit hemits halong rfl
    | error e => exact .rollback hemits halong rfl

end Interaction

import Meta1Core.Ledger.Frame

/-!
# Objects beside the ledger

Some operations move amounts between the ledger and objects that no other operation looks at.
-/

namespace Meta1Core.Ledger

open Lib (Returns)
open Protocol

structure Extended (X : Type) where
  ledger : State
  objects : X

namespace Extended

variable {X : Type}

abbrev Evaluation (X : Type) := EStateM Exception (Extended X)

def onLedger {α : Type} (x : Ledger.Evaluation α) : Evaluation X α := fun s =>
  match x s.ledger with
  | .ok a ledger => .ok a { s with ledger }
  | .error e ledger => .error e { s with ledger }

def require (condition : Prop) [Decidable condition] (message : String) : Evaluation X Unit :=
  onLedger (Ledger.require condition message)

def headBlockTime : Evaluation X Nat := do return (← get).ledger.headBlockTime

def startEvaluate {α β : Type} (ctx : TransactionEvaluationState) (payer : AccountId) (fee : Asset)
    (requiredFee : Int) (doEvaluate : Evaluation X α) (doApply : α → Evaluation X β) :
    Evaluation X β := do
  let coreFeePaid ← onLedger (prepareFee payer fee)
  if ctx.skipFeeScheduleCheck = false then
    require (requiredFee ≤ coreFeePaid) "Insufficient Fee Paid"
  let prepared ← doEvaluate
  onLedger (convertFee ctx fee coreFeePaid)
  onLedger (payFee ctx payer coreFeePaid)
  let result ← doApply prepared
  onLedger (adjustBalance payer fee.neg)
  return result

variable {s s' : Extended X}

variable {α β : Type}

variable {x : Ledger.Evaluation α}

theorem returns_onLedger {a : α} : Returns (onLedger x) s a s' ↔
      ∃ ledger, Returns x s.ledger a ledger ∧ s' = { s with ledger } := by
  unfold Returns onLedger
  cases x s.ledger with
  | ok b ledger => simp [eq_comm, and_comm]
  | error e ledger => simp

variable {b : β}

theorem of_onLedger {f : α → Evaluation X β} (h : Returns (onLedger x >>= f) s b s') :
    ∃ a ledger, Returns x s.ledger a ledger ∧ Returns (f a) { s with ledger } b s' := by
  obtain ⟨a, t, hx, hf⟩ := h.of_bind
  obtain ⟨ledger, hledger, rfl⟩ := returns_onLedger.mp hx
  exact ⟨a, ledger, hledger, hf⟩

theorem of_require {c : Prop} [Decidable c] {m : String} {f : Unit → Evaluation X β}
    (h : Returns (require c m >>= f) s b s') : c ∧ Returns (f ()) s b s' := by
  obtain ⟨_, ledger, hrequire, hf⟩ := of_onLedger h
  obtain ⟨hc, rfl⟩ := returns_require.mp hrequire
  exact ⟨hc, hf⟩

theorem of_fetch {V : Type} {t : Table V} {id : Nat} {f : V → Evaluation X β}
    (h : Returns (onLedger (t.fetch id) >>= f) s b s') :
    ∃ v, (t.read s.ledger).find id = some v ∧ Returns (f v) s b s' := by
  obtain ⟨v, ledger, hfetch, hf⟩ := of_onLedger h
  obtain ⟨hv, rfl⟩ := Table.fetch_iff.mp hfetch
  exact ⟨v, hv, hf⟩

theorem returns_headBlockTime_bind {f : Nat → Evaluation X β} :
    Returns (headBlockTime >>= f) s b s' ↔ Returns (f s.ledger.headBlockTime) s b s' := Iff.rfl

theorem of_headBlockTime {f : Nat → Evaluation X β} (h : Returns (headBlockTime >>= f) s b s') :
    Returns (f s.ledger.headBlockTime) s b s' := h

structure FeePaid (s s' : Extended X) : Prop where
  objects : s'.objects = s.objects
  fees : FeesOnly s.ledger s'.ledger
  balances : SameBalances s.ledger s'.ledger

theorem of_startEvaluate {ctx : TransactionEvaluationState} {payer : AccountId} {fee : Asset}
    {requiredFee : Int} {doEvaluate : Evaluation X α} {doApply : α → Evaluation X β} {r : β}
    (h : Returns (startEvaluate ctx payer fee requiredFee doEvaluate doApply) s r s') :
    ∃ x s1 s2 s3, 0 ≤ fee.amount ∧ Returns doEvaluate s x s1 ∧ FeePaid s1 s2 ∧
      Returns (doApply x) s2 r s3 ∧ s' = { s3 with ledger := s'.ledger } ∧
      Returns (adjustBalance payer fee.neg) s3.ledger () s'.ledger := by
  obtain ⟨coreFeePaid, ledger, hprepare, hchecked⟩ := of_onLedger h
  obtain rfl := prepareFee_unchanged _ _ _ _ _ hprepare
  obtain ⟨_, _, hfee, -⟩ := hprepare.of_bind
  obtain ⟨hnonneg, -⟩ := returns_require.mp hfee
  have hrest : Returns (do
      let prepared ← doEvaluate
      onLedger (convertFee ctx fee coreFeePaid)
      onLedger (payFee ctx payer coreFeePaid)
      let result ← doApply prepared
      onLedger (adjustBalance payer fee.neg)
      return result) s r s' := by
    rcases hchecked.of_ite with ⟨-, hcheck⟩ | ⟨-, hrest⟩
    · exact (of_require hcheck).2
    · exact hrest
  obtain ⟨x, s1, hevaluate, h1⟩ := hrest.of_bind
  obtain ⟨_, l1, hconvert, h2⟩ := of_onLedger h1
  obtain ⟨_, l2, hpay, h3⟩ := of_onLedger h2
  obtain ⟨r', s3, happly, h4⟩ := h3.of_bind
  obtain ⟨_, l3, hadjust, h5⟩ := of_onLedger h4
  obtain ⟨rfl, rfl⟩ := h5.of_pure
  have hfees : FeesOnly s1.ledger l2 :=
    (convertFee_feesOnly _ _ _ _ _ _ hconvert).trans (payFee_feesOnly _ _ _ _ _ _ hpay)
  have hbalances : SameBalances s1.ledger l2 :=
    (payFee_sameBalances _ _ _ _ _ _ hpay).trans (convertFee_sameBalances _ _ _ _ _ _ hconvert)
  exact ⟨x, s1, { s1 with ledger := l2 }, s3, hnonneg, hevaluate, ⟨rfl, hfees, hbalances⟩, happly,
    rfl, hadjust⟩

end Extended

end Meta1Core.Ledger

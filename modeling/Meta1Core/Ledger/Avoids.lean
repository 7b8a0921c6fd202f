import Meta1Core.Ledger.Frame

/-!
# Which assertions can fail

A statement that holds no assertion with a given text, nor calls a function that does, never throws
that text; the balances and fees of an operation throw the texts listed here only.
-/

namespace Meta1Core.Ledger

open Lib (Rows Index Returns Relates Raises)
open Protocol

/-- `x` never fails with the assertion `text`. -/
def Avoids {α : Type} (text : String) (x : Evaluation α) : Prop := ∀ s, ¬Raises x s (.fc text)

def ledgerTexts : List String :=
  ["overflow", "Unable to find Object", "Insufficient Balance",
    "overflow when calculating percent", "Invalid negative value for balance",
    "Market reward should not be greater than issuer fees",
    "Referrer reward shouldn't be greater than total reward",
    "Market fee shouldn't be greater than receives", "fee.amount >= 0",
    "Account attempted to pay fee by using an unauthorized asset",
    "fee_from_pool.asset_id == asset_id_type()", "Fee pool balance is less than required",
    "Insufficient Fee Paid", "asset_id == o.asset_id", "a.asset_id == b.asset_id",
    "amount.value > 0", "result <= GRAPHENE_MAX_SHARE_SUPPLY", "invalid asset * price",
    "invalid asset::multiply_and_round_up(price)", "base.asset_id != quote.asset_id"]

variable {text : String}

namespace Avoids

variable {α β : Type} {x y : Evaluation α} {f : α → Evaluation β}

theorem bind (hx : Avoids text x) (hf : ∀ a, Avoids text (f a)) : Avoids text (x >>= f) := by
  intro s h
  rcases Raises.bind_iff.mp h with h | ⟨a, s', -, h⟩
  · exact hx s h
  · exact hf a s' h

theorem pure (a : α) : Avoids text (pure a : Evaluation α) := fun _ h => Raises.pure_iff.mp h

theorem get : Avoids text (get : Evaluation State) := fun _ h => Raises.get_iff.mp h

theorem modify (g : State → State) : Avoids text (modify g : Evaluation Unit) :=
  fun _ h => Raises.modify_iff.mp h

theorem lift {y : Except Exception α} (h : y ≠ .error (.fc text)) :
    Avoids text (liftM y : Evaluation α) :=
  fun _ hraises => h (Raises.lift_iff.mp hraises)

theorem ite {c : Prop} [Decidable c] (hx : Avoids text x) (hy : Avoids text y) :
    Avoids text (if c then x else y) := by
  split
  · exact hx
  · exact hy

theorem require {c : Prop} [Decidable c] {m : String} (h : m ≠ text) :
    Avoids text (require c m) := by
  intro s hraises
  have heq := (raises_require.mp hraises).2
  exact h (Exception.fc.inj heq).symm

theorem raises_bind (hx : Avoids text x) {s : State} (h : Raises (x >>= f) s (.fc text)) :
    ∃ a s', Returns x s a s' ∧ Raises (f a) s' (.fc text) := by
  rcases Raises.bind_iff.mp h with h | h
  · exact absurd h (hx s)
  · exact h

end Avoids

theorem ne_of_ledgerTexts (h : text ∉ ledgerTexts) {m : String} (hm : m ∈ ledgerTexts) :
    m ≠ text :=
  fun heq => h (heq ▸ hm)

section Except

variable {α β : Type} {x : Except Exception α} {f : α → Except Exception β} {e : Exception}

theorem fcAssert_ne_error {c : Prop} [Decidable c] {m : String} (h : m ≠ text) :
    fcAssert c m ≠ .error (.fc text) := by
  unfold fcAssert
  split
  · exact nofun
  · exact fun heq => h (Exception.fc.inj (Except.error.inj heq))

variable (h : text ∉ ledgerTexts)

include h

theorem safe_ne_error (v : Int) : safe v ≠ .error (.fc text) := by
  unfold safe
  split
  · exact nofun
  · intro heq
    exact ne_of_ledgerTexts h (by decide) (Exception.fc.inj (Except.error.inj heq))

theorem calculatePercent_ne_error (value : Int) (percent : Nat) :
    calculatePercent value percent ≠ .error (.fc text) :=
  bind_ne_error (fcAssert_ne_error (ne_of_ledgerTexts h (by decide))) fun _ => nofun

theorem calculateMarketFee_ne_error (id : AssetId) (a : AssetObject) (amount : Asset)
    (isMaker : Bool) : calculateMarketFee id a amount isMaker ≠ .error (.fc text) := by
  unfold calculateMarketFee
  dsimp only
  split
  · exact nofun
  split
  · exact nofun
  split
  · exact nofun
  exact bind_ne_error (calculatePercent_ne_error h _ _) fun _ => nofun

theorem asset_lt_ne_error (a b : Asset) : a.lt b ≠ .error (.fc text) :=
  bind_ne_error (fcAssert_ne_error (ne_of_ledgerTexts h (by decide))) fun _ => nofun

theorem asset_le_ne_error (a b : Asset) : a.le b ≠ .error (.fc text) :=
  bind_ne_error (asset_lt_ne_error h _ _) fun _ => nofun

theorem asset_sub_ne_error (a b : Asset) : a.sub b ≠ .error (.fc text) :=
  bind_ne_error (fcAssert_ne_error (ne_of_ledgerTexts h (by decide))) fun _ =>
    bind_ne_error (safe_ne_error h _) fun _ => nofun

theorem asset_add_ne_error (a b : Asset) : a.add b ≠ .error (.fc text) :=
  bind_ne_error (fcAssert_ne_error (ne_of_ledgerTexts h (by decide))) fun _ =>
    bind_ne_error (safe_ne_error h _) fun _ => nofun

theorem scale_ne_error (n d slack : Int) (id : AssetId) :
    Asset.scale n d slack id ≠ .error (.fc text) :=
  bind_ne_error (fcAssert_ne_error (ne_of_ledgerTexts h (by decide))) fun _ =>
    bind_ne_error (fcAssert_ne_error (ne_of_ledgerTexts h (by decide))) fun _ => nofun

theorem asset_mul_ne_error (a : Asset) (p : Price) : a.mul p ≠ .error (.fc text) := by
  unfold Asset.mul
  split
  · exact scale_ne_error h _ _ _ _
  split
  · exact scale_ne_error h _ _ _ _
  · exact fun heq => ne_of_ledgerTexts h (by decide) (Exception.fc.inj (Except.error.inj heq))

theorem multiplyAndRoundUp_ne_error (a : Asset) (p : Price) :
    a.multiplyAndRoundUp p ≠ .error (.fc text) := by
  unfold Asset.multiplyAndRoundUp
  split
  · exact scale_ne_error h _ _ _ _
  split
  · exact scale_ne_error h _ _ _ _
  · exact fun heq => ne_of_ledgerTexts h (by decide) (Exception.fc.inj (Except.error.inj heq))

theorem asset_div_ne_error (a b : Asset) : a.div b ≠ .error (.fc text) :=
  bind_ne_error (fcAssert_ne_error (ne_of_ledgerTexts h (by decide))) fun _ => nofun

end Except

section Ledger

variable (h : text ∉ ledgerTexts)

include h

theorem fetch_avoids {V : Type} (t : Table V) (id : Nat) : Avoids text (t.fetch id) := by
  refine .bind .get fun s => ?_
  split
  · exact .pure _
  · intro s hraises
    exact ne_of_ledgerTexts h (by decide) (Exception.fc.inj (Raises.throw_iff.mp hraises))

theorem update_avoids {V : Type} (t : Table V) (id : Nat) {f : V → Except Exception V}
    (hf : ∀ v, f v ≠ .error (.fc text)) : Avoids text (t.update id f) :=
  .bind (fetch_avoids h _ _) fun v => .bind (.lift (hf v)) fun _ => .modify _

omit h in
theorem create_avoids {V : Type} (t : Table V) (v : V) : Avoids text (t.create v) :=
  .bind .get fun _ => .bind (.modify _) fun _ => .pure _

theorem adjustBalance_avoids (account : AccountId) (delta : Asset) :
    Avoids text (adjustBalance account delta) := by
  unfold adjustBalance
  refine .ite (.pure _) (.bind .get fun s => ?_)
  split
  · exact .bind (.require (ne_of_ledgerTexts h (by decide))) fun _ => .modify _
  · refine .ite (.bind (.require (ne_of_ledgerTexts h (by decide))) fun _ => ?_) ?_
    all_goals exact .bind (.lift (safe_ne_error h _)) fun _ => .modify _

theorem depositMarketFeeVestingBalance_avoids (account : AccountId) (delta : Asset) :
    Avoids text (depositMarketFeeVestingBalance account delta) := by
  unfold depositMarketFeeVestingBalance
  refine .bind (.require (ne_of_ledgerTexts h (by decide))) fun _ =>
    .ite (.pure _) (.bind .get fun s => ?_)
  split
  · exact .bind (create_avoids _ _) fun _ => .pure _
  · exact update_avoids h _ _ fun v => bind_ne_error (asset_add_ne_error h _ _) fun _ => nofun

theorem payRewards_avoids (seller : AccountObject) (id : AssetId) (a : AssetObject)
    (issuerFees : Asset) : Avoids text (payRewards seller id a issuerFees) := by
  unfold payRewards
  dsimp only
  refine .ite (.pure _) (.ite (.pure _)
    (.bind (.lift (calculatePercent_ne_error h _ _)) fun reward =>
      .ite (.pure _) (.bind (fetch_avoids h _ _) fun registrar => .ite (.pure _)
        (.bind (.require (ne_of_ledgerTexts h (by decide))) fun _ => ?_))))
  have hrest (registrarReward : Int) : Avoids text (do
      if 0 < registrarReward then
        depositMarketFeeVestingBalance seller.registrar ⟨registrarReward, id⟩
      return reward) :=
    .ite (.bind (depositMarketFeeVestingBalance_avoids h _ _) fun _ => .pure _) (.pure _)
  exact .ite (.bind (.lift (calculatePercent_ne_error h _ _)) fun referrerReward =>
    .bind (fetch_avoids h _ _) fun referrer =>
      .ite (.bind (.require (ne_of_ledgerTexts h (by decide))) fun _ =>
        .bind (.lift (safe_ne_error h _)) fun rest =>
          .bind (depositMarketFeeVestingBalance_avoids h _ _) fun _ => hrest _) (hrest _)) (hrest _)

theorem payCalculatedMarketFees_avoids (seller : Option AccountObject) (id : AssetId)
    (receives issuerFees : Asset) :
    Avoids text (payCalculatedMarketFees seller id receives issuerFees) := by
  unfold payCalculatedMarketFees
  refine .bind (.lift (asset_le_ne_error h _ _)) fun _ =>
    .bind (.require (ne_of_ledgerTexts h (by decide))) fun _ =>
      .ite (.bind (fetch_avoids h _ _) fun a => .bind ?_ fun reward => .ite ?_ (.pure _)) (.pure _)
  · cases seller with
    | some seller => exact payRewards_avoids h _ _ _ _
    | none => exact .pure _
  · exact update_avoids h _ _ fun v => bind_ne_error (safe_ne_error h _) fun _ =>
      bind_ne_error (safe_ne_error h _) fun _ => nofun

theorem payMarketFees_avoids (seller : Option AccountObject) (id : AssetId) (receives : Asset)
    (isMaker : Bool) : Avoids text (payMarketFees seller id receives isMaker) :=
  .bind (fetch_avoids h _ _) fun _ => .bind (.lift (calculateMarketFee_ne_error h _ _ _ _)) fun _ =>
    .bind (payCalculatedMarketFees_avoids h _ _ _ _) fun _ => .pure _

theorem prepareFee_avoids (payer : AccountId) (fee : Asset) :
    Avoids text (prepareFee payer fee) := by
  refine .bind (.require (ne_of_ledgerTexts h (by decide))) fun _ =>
    .bind (fetch_avoids h _ _) fun _ => .bind (fetch_avoids h _ _) fun _ =>
      .bind (.require (ne_of_ledgerTexts h (by decide))) fun _ => .ite (.pure _) ?_
  exact .bind (.lift (asset_mul_ne_error h _ _)) fun _ =>
    .bind (.require (ne_of_ledgerTexts h (by decide))) fun _ =>
      .bind (.require (ne_of_ledgerTexts h (by decide))) fun _ => .pure _

theorem convertFee_avoids (ctx : TransactionEvaluationState) (fee : Asset) (coreFeePaid : Int) :
    Avoids text (convertFee ctx fee coreFeePaid) :=
  .ite (update_avoids h _ _ fun _ => bind_ne_error (safe_ne_error h _) fun _ =>
    bind_ne_error (safe_ne_error h _) fun _ => nofun) (.pure _)

theorem payFee_avoids (ctx : TransactionEvaluationState) (payer : AccountId) (coreFeePaid : Int) :
    Avoids text (payFee ctx payer coreFeePaid) := by
  refine .ite (.bind .get fun s => update_avoids h _ _ fun v => ?_) (.pure _)
  unfold AccountObject.payFee
  split
  all_goals exact bind_ne_error (safe_ne_error h _) fun _ => nofun

theorem of_raises_startEvaluate {α β : Type} {ctx : TransactionEvaluationState}
    {payer : AccountId} {fee : Asset} {requiredFee : Int} {doEvaluate : Evaluation α}
    {doApply : α → Evaluation β} {s : State}
    (hraises : Raises (startEvaluate ctx payer fee requiredFee doEvaluate doApply) s (.fc text)) :
    Raises doEvaluate s (.fc text) ∨
      ∃ x s1 s2, Returns doEvaluate s x s1 ∧ FeesOnly s1 s2 ∧ SameBalances s1 s2 ∧
        Raises (doApply x) s2 (.fc text) := by
  obtain ⟨coreFeePaid, s0, hprepare, hchecked⟩ := (prepareFee_avoids h _ _).raises_bind hraises
  obtain rfl := prepareFee_unchanged _ _ _ _ _ hprepare
  have hrest : Raises (do
      let prepared ← doEvaluate
      convertFee ctx fee coreFeePaid
      payFee ctx payer coreFeePaid
      let result ← doApply prepared
      adjustBalance payer fee.neg
      return result) s0 (.fc text) := by
    rcases Raises.ite_iff.mp hchecked with ⟨-, hcheck⟩ | ⟨-, hunchecked⟩
    · obtain ⟨_, _, hrequire, hrest⟩ :=
        (Avoids.require (ne_of_ledgerTexts h (by decide))).raises_bind hcheck
      obtain ⟨-, rfl⟩ := returns_require.mp hrequire
      exact hrest
    · exact hunchecked
  rcases Raises.bind_iff.mp hrest with hevaluate | ⟨x, s1, hevaluate, happlied⟩
  · exact .inl hevaluate
  obtain ⟨_, t1, hconvert, hpaid⟩ := (convertFee_avoids h _ _ _).raises_bind happlied
  obtain ⟨_, t2, hpay, happly⟩ := (payFee_avoids h _ _ _).raises_bind hpaid
  rcases Raises.bind_iff.mp happly with happly | ⟨r, s3, -, hend⟩
  · have hfees : FeesOnly s1 t2 :=
      (convertFee_feesOnly _ _ _ _ _ _ hconvert).trans (payFee_feesOnly _ _ _ _ _ _ hpay)
    have hbalances : SameBalances s1 t2 :=
      IsTrans.trans _ _ _ (convertFee_sameBalances _ _ _ _ _ _ hconvert)
        (payFee_sameBalances _ _ _ _ _ _ hpay)
    exact .inr ⟨x, s1, t2, hevaluate, hfees, hbalances, happly⟩
  · exact absurd hend (Avoids.bind (adjustBalance_avoids h _ _) (fun _ => .pure _) _)

end Ledger

end Meta1Core.Ledger

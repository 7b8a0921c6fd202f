import Meta1Core.Voting.FeeSplit

/-!
# The fees in every run

What the split of the fees relies on holds in every state that a chain reaches: the percentages are
checked where they come from, whoever is paid exists, and the balances for the cashback are usable.
-/

namespace Meta1Core.Voting

open Lib (Index of_bind Reachable)
open Protocol
open Vesting (VestingBalanceObject Usable IsShare blockchainAccounts)

variable {s s' : State}

def ChainParameters.Validated (p : ChainParameters) : Prop :=
  p.networkPercentOfFee + p.lifetimeReferrerPercentOfFee ≤ percent100

instance (p : ChainParameters) : Decidable p.Validated := inferInstanceAs (Decidable (_ ≤ _))

/-- What `validate` checks of an event before it is applied.  A vesting balance stays usable, and
time goes on. -/
def Admitted (s : State) : Event → Prop
  | .createAccount op => op.referrerPercent ≤ percent100
  | .payFee _ coreFee => 0 ≤ coreFee
  | .changeVestingBalance id vbo => ∀ old, s.vestingBalances.find id = some old →
      Usable s.headBlockTime old → Usable s.headBlockTime vbo
  | .elsewhere headBlockTime parameters _ currentSupply accumulatedFees =>
      s.headBlockTime ≤ headBlockTime ∧ parameters.Validated ∧ IsShare currentSupply ∧
        IsShare accumulatedFees
  | _ => True

def ValidGenesis (s : State) : Prop :=
  IsGenesis s ∧ s.parameters.Validated ∧ IsShare s.currentSupply

structure Sound (s : State) : Prop where
  payable : Payable s
  parameters : s.parameters.Validated
  percentages : ∀ id a, s.accounts.find id = some a → a.Percentages
  parties : ∀ id a, s.accounts.find id = some a → a.Parties s
  counts : ∀ id a, s.accounts.find id = some a → a.Counts

variable {account k : AccountId}

theorem Sound.modifyAccount (h : Sound s) {f : AccountObject → AccountObject}
    (hf : ∀ a, s.accounts.find k = some a → (f a).Percentages ∧ (f a).Parties s ∧ (f a).Counts ∧
      (f a).cashbackVb = a.cashbackVb) : Sound (s.modifyAccount k f) := by
  have hfind := find_modifyAccount s k f
  have hsome := isSome_find_modifyAccount s k (f := f)
  have hcases : ∀ id b, (s.modifyAccount k f).accounts.find id = some b →
      (∃ a, s.accounts.find k = some a ∧ id = k ∧ b = f a) ∨ s.accounts.find id = some b := by
    intro id b hb
    rw [hfind] at hb
    split at hb
    · rename_i heq
      obtain ⟨a, ha, rfl⟩ := Option.map_eq_some_iff.mp hb
      exact .inl ⟨a, ha, heq, rfl⟩
    · exact .inr hb
  constructor
  case payable =>
    refine ⟨fun id b vb hb hvb => ?_, h.payable.currentSupply, h.payable.accumulatedFees⟩
    rcases hcases id b hb with ⟨a, ha, -, rfl⟩ | hb
    · rw [(hf a ha).2.2.2] at hvb
      exact h.payable.usable k a vb ha hvb
    · exact h.payable.usable id b vb hb hvb
  case parameters => exact h.parameters
  case percentages =>
    intro id b hb
    rcases hcases id b hb with ⟨a, ha, -, rfl⟩ | hb
    · exact (hf a ha).1
    · exact h.percentages id b hb
  case parties =>
    intro id b hb
    rcases hcases id b hb with ⟨a, ha, -, rfl⟩ | hb
    · exact (hf a ha).2.1.congr fun x => hsome x
    · exact (h.parties id b hb).congr fun x => hsome x
  case counts =>
    intro id b hb
    rcases hcases id b hb with ⟨a, ha, -, rfl⟩ | hb
    · exact (hf a ha).2.2.1
    · exact h.counts id b hb

theorem Sound.modifyAccount_of_terms (h : Sound s) {f : AccountObject → AccountObject}
    (hf : ∀ a, s.accounts.find k = some a →
      (f a).terms = a.terms ∧ (f a).cashbackVb = a.cashbackVb) : Sound (s.modifyAccount k f) := by
  apply h.modifyAccount
  intro a ha
  obtain ⟨hterms, hcashback⟩ := hf a ha
  exact ⟨(h.percentages k a ha).of_terms hterms, (h.parties k a ha).of_terms hterms,
    (h.counts k a ha).of_terms hterms, hcashback⟩

theorem Sound.create (h : Sound s) {a : AccountObject} (hpercentages : a.Percentages)
    (hparties : a.Parties s) (hcounts : a.Counts) (hcashback : a.cashbackVb = none) :
    Sound { s with accounts := s.accounts.create a } := by
  have hfind := Index.find_create s.accounts a
  have hsome : ∀ x, (s.accounts.find x).isSome = true →
      ((s.accounts.create a).find x).isSome = true := fun x hx => isSome_find_create _ _ hx
  have hkeep : ∀ b : AccountObject, b.Parties s →
      b.Parties { s with accounts := s.accounts.create a } := fun b hb =>
    ⟨hsome _ hb.registrar, hsome _ hb.referrer, hsome _ hb.lifetimeReferrer⟩
  have hcases : ∀ id b, (s.accounts.create a).find id = some b →
      b = a ∨ s.accounts.find id = some b := by
    intro id b hb
    rw [hfind] at hb
    split at hb
    · exact .inl (Option.some.inj hb).symm
    · exact .inr hb
  constructor
  case payable =>
    refine ⟨fun id b vb hb hvb => ?_, h.payable.currentSupply, h.payable.accumulatedFees⟩
    rcases hcases id b hb with rfl | hb
    · rw [hcashback] at hvb
      cases hvb
    · exact h.payable.usable id b vb hb hvb
  case parameters => exact h.parameters
  case percentages =>
    intro id b hb
    rcases hcases id b hb with rfl | hb
    · exact hpercentages
    · exact h.percentages id b hb
  case parties =>
    intro id b hb
    rcases hcases id b hb with rfl | hb
    · exact hkeep b hparties
    · exact hkeep b (h.parties id b hb)
  case counts =>
    intro id b hb
    rcases hcases id b hb with rfl | hb
    · exact hcounts
    · exact h.counts id b hb

theorem isShare_zero : (0 : Int) ≤ 0 ∧ (0 : Int) < 2 ^ 63 := by decide

theorem Sound.payOutFees (h : Sound s) {total : Int} {requireVesting : Bool} (hnonneg : 0 ≤ total)
    (hsmall : total < 2 ^ 63) (hs : payOutFees k total requireVesting s = .ok s') : Sound s' := by
  obtain ⟨a, -, -, -, ha, -, -, -⟩ := payOutFees_cases hs
  have hsplits := (h.percentages k a ha).splits hnonneg hsmall
  have hpays := h.payable.pays_payOutFees ha (h.parties k a ha) hsplits hsmall requireVesting
  obtain ⟨hsettled, b, hb, hkept⟩ := settled_payOutFees ha hs
  -- an account of the new state is an old one, but for its cashback and the referrer of the payer
  have hold : ∀ id c, s'.accounts.find id = some c → ∃ c' : AccountObject, c.terms = c'.terms ∧
      c'.Percentages ∧ c'.Parties s ∧ c'.Counts := by
    intro id c hc
    by_cases heq : id = k
    · subst heq
      rw [hb] at hc
      cases hc
      have hpercentages := h.percentages id a ha
      have hcounts := h.counts id a ha
      exact ⟨a.withReferrer (s.payee a), AccountObject.terms_eq_of_kept_eq hkept,
        ⟨hpercentages.fee, hpercentages.rewards⟩, (h.parties id a ha).withPayee,
        ⟨hcounts.pendingFees, hcounts.pendingVestedFees, hcounts.lifetimeFeesPaid⟩⟩
    · have hsame := hsettled.kept id heq
      rw [hc] at hsame
      obtain ⟨c', hc', hkept'⟩ := Option.map_eq_some_iff.mp hsame.symm
      exact ⟨c', (AccountObject.terms_eq_of_kept_eq hkept').symm, h.percentages id c' hc',
        h.parties id c' hc', h.counts id c' hc'⟩
  constructor
  case payable => exact (hpays.2 s' hs).2
  case parameters =>
    rw [hsettled.parameters]
    exact h.parameters
  case percentages =>
    intro id c hc
    obtain ⟨c', hsame, hpercentages, -, -⟩ := hold id c hc
    exact hpercentages.of_terms hsame
  case parties =>
    intro id c hc
    obtain ⟨c', hsame, -, hparties, -⟩ := hold id c hc
    exact (hparties.of_terms hsame).congr hsettled.isSome_find
  case counts =>
    intro id c hc
    obtain ⟨c', hsame, -, -, hcounts⟩ := hold id c hc
    exact hcounts.of_terms hsame

theorem Sound.processFees (h : Sound s) (hs : processFees k s = .ok s') : Sound s' := by
  obtain ⟨a, ha, ⟨-, rfl⟩ | ⟨-, s1, s2, lifetimeFeesPaid, h1, h2, rfl⟩⟩ := processFees_cases hs
  · exact h
  have hcounts := h.counts k a ha
  have hsound1 := h.payOutFees hcounts.pendingFees.1 hcounts.pendingFees.2 h1
  have hsound2 := hsound1.payOutFees hcounts.pendingVestedFees.1 hcounts.pendingVestedFees.2 h2
  obtain ⟨hiff, hdone⟩ := h.payable.processFees_isOk_iff ha (h.percentages k a ha)
    (h.parties k a ha) hcounts
  obtain ⟨c, hc, -, -, hpaid⟩ := (hdone _ hs).1.reset
  have hfits := (hiff.mp ⟨_, hs⟩).lifetimeFeesPaid
  apply hsound2.modifyAccount
  intro b hb
  have hpercentages := hsound2.percentages k b hb
  have hparties := hsound2.parties k b hb
  -- the counter is the sum that was checked
  have hcounter : lifetimeFeesPaid = a.statistics.lifetimeFeesPaid + a.allFees := by
    rw [find_modifyAccount, if_pos rfl, hb] at hc
    cases hc
    exact hpaid
  have hall : 0 ≤ a.allFees := Int.add_nonneg hcounts.pendingFees.1 hcounts.pendingVestedFees.1
  have hold := hcounts.lifetimeFeesPaid.1
  refine ⟨⟨hpercentages.fee, hpercentages.rewards⟩,
    ⟨hparties.registrar, hparties.referrer, hparties.lifetimeReferrer⟩, ⟨?_, ?_, ?_⟩, rfl⟩
  · exact isShare_zero
  · exact isShare_zero
  · show 0 ≤ lifetimeFeesPaid ∧ lifetimeFeesPaid < 2 ^ 63
    omega

/-! ## Steps -/

theorem Sound.createAccount (h : Sound s) {op : AccountCreateOperation}
    (hpercent : op.referrerPercent ≤ percent100) (hs : op.evaluate s = .ok s') : Sound s' := by
  unfold AccountCreateOperation.evaluate at hs
  obtain ⟨u, heval, hs⟩ := of_bind hs
  obtain ⟨referrer, hreferrer, hs⟩ := of_bind hs
  cases hs
  unfold AccountCreateOperation.doEvaluate at heval
  obtain ⟨registrar, hregistrar, -⟩ := of_bind heval
  have hreferrer := account_eq_ok.mp hreferrer
  apply h.create
  · refine ⟨h.parameters, ?_⟩
    show op.storedPercent s.headBlockTime ≤ percent100
    unfold AccountCreateOperation.storedPercent
    split
    · exact Nat.min_le_right _ _
    · exact hpercent
  · refine ⟨?_, ?_, ?_⟩
    · show (s.accounts.find op.registrar).isSome = true
      rw [account_eq_ok.mp hregistrar]
      rfl
    · show (s.accounts.find op.referrer).isSome = true
      rw [hreferrer]
      rfl
    · exact (h.parties op.referrer referrer hreferrer).lifetimeReferrer
  · exact ⟨isShare_zero, isShare_zero, isShare_zero⟩
  · rfl

theorem Sound.upgradeAccount (h : Sound s) {upgrade : Bool}
    (hs : upgradeAccount account upgrade s = .ok s') : Sound s' := by
  unfold Voting.upgradeAccount at hs
  obtain ⟨a, -, hs⟩ := of_bind hs
  obtain ⟨-, hs⟩ := of_fcAssert hs
  split at hs
  · obtain ⟨s1, h1, hs⟩ := of_bind hs
    cases hs
    have hsound := h.processFees h1
    apply hsound.modifyAccount
    intro b hb
    have hpercentages := hsound.percentages account b hb
    have hcounts := hsound.counts account b hb
    have hself : (s1.accounts.find account).isSome = true := by
      rw [hb]
      rfl
    refine ⟨⟨?_, hpercentages.rewards⟩, ⟨hself, hself, hself⟩,
      ⟨hcounts.pendingFees, hcounts.pendingVestedFees, hcounts.lifetimeFeesPaid⟩, rfl⟩
    have hfee := hpercentages.fee
    show b.networkFeePercentage + (percent100 - b.networkFeePercentage) ≤ percent100
    omega
  · obtain ⟨-, hs⟩ := of_fcAssert hs
    split at hs
    · obtain ⟨-, hs⟩ := of_fcAssert hs
      cases hs
      exact h.modifyAccount_of_terms fun _ _ => ⟨rfl, rfl⟩
    · obtain ⟨s1, h1, hs⟩ := of_bind hs
      cases hs
      have hsound := h.processFees h1
      apply hsound.modifyAccount
      intro b hb
      have hpercentages := hsound.percentages account b hb
      have hparties := hsound.parties account b hb
      have hcounts := hsound.counts account b hb
      have hself : (s1.accounts.find account).isSome = true := by
        rw [hb]
        rfl
      exact ⟨⟨hpercentages.fee, hpercentages.rewards⟩,
        ⟨hparties.registrar, hself, hparties.lifetimeReferrer⟩,
        ⟨hcounts.pendingFees, hcounts.pendingVestedFees, hcounts.lifetimeFeesPaid⟩, rfl⟩

theorem Sound.adjustBalance (h : Sound s) {delta : Int}
    (hs : adjustBalance account delta s = .ok s') : Sound s' := by
  unfold Voting.adjustBalance at hs
  split at hs
  · cases hs
    exact h
  obtain ⟨a, ha, hs⟩ := of_bind hs
  obtain ⟨b, hb, hs⟩ := of_bind hs
  cases hs
  have hterms : b.terms = a.terms ∧ b.cashbackVb = a.cashbackVb := by
    unfold AccountObject.adjustCoreBalance at hb
    split at hb
    · obtain ⟨-, hb⟩ := of_fcAssert hb
      cases hb
      exact ⟨rfl, rfl⟩
    · obtain ⟨-, hb⟩ := of_fcAssert hb
      obtain ⟨balance, -, hb⟩ := of_bind hb
      cases hb
      exact ⟨rfl, rfl⟩
  apply h.modifyAccount_of_terms
  intro a' ha'
  rw [account_eq_ok.mp ha] at ha'
  cases ha'
  exact hterms

theorem Sound.payFee (h : Sound s) {coreFee : Int} (hfee : 0 ≤ coreFee)
    (hs : payFee account coreFee s = .ok s') : Sound s' := by
  unfold Voting.payFee at hs
  obtain ⟨a, ha, hs⟩ := of_bind hs
  obtain ⟨statistics, hstatistics, hs⟩ := of_bind hs
  cases hs
  have ha := account_eq_ok.mp ha
  have hcounts := h.counts account a ha
  have hpending := hcounts.pendingFees.1
  have hvested := hcounts.pendingVestedFees.1
  have hcounts' : ({ a with statistics } : AccountObject).Counts := by
    unfold AccountStatistics.payFee at hstatistics
    split at hstatistics
    · obtain ⟨fees, hsafe, hstatistics⟩ := of_bind hstatistics
      cases hstatistics
      obtain ⟨rfl, -, hlt⟩ := of_safe hsafe
      exact ⟨⟨Int.add_nonneg hpending hfee, hlt⟩, hcounts.pendingVestedFees,
        hcounts.lifetimeFeesPaid⟩
    · obtain ⟨fees, hsafe, hstatistics⟩ := of_bind hstatistics
      cases hstatistics
      obtain ⟨rfl, -, hlt⟩ := of_safe hsafe
      exact ⟨hcounts.pendingFees, ⟨Int.add_nonneg hvested hfee, hlt⟩, hcounts.lifetimeFeesPaid⟩
  apply h.modifyAccount
  intro a' ha'
  rw [ha] at ha'
  cases ha'
  have hpercentages := h.percentages account a ha
  have hparties := h.parties account a ha
  exact ⟨⟨hpercentages.fee, hpercentages.rewards⟩,
    ⟨hparties.registrar, hparties.referrer, hparties.lifetimeReferrer⟩, hcounts', rfl⟩

theorem Sound.addCoreInOrders (h : Sound s) {delta : Int}
    (hs : addCoreInOrders account delta s = .ok s') : Sound s' := by
  unfold Voting.addCoreInOrders at hs
  obtain ⟨a, -, hs⟩ := of_bind hs
  obtain ⟨totalCoreInOrders, -, hs⟩ := of_bind hs
  cases hs
  exact h.modifyAccount_of_terms fun _ _ => ⟨rfl, rfl⟩

theorem Sound.setOrders (h : Sound s) (orders : Index CoreOrder) : Sound { s with orders } where
  payable := ⟨h.payable.usable, h.payable.currentSupply, h.payable.accumulatedFees⟩
  parameters := h.parameters
  percentages := h.percentages
  parties id a ha := (h.parties id a ha).congr fun _ => rfl
  counts := h.counts

theorem Sound.setVestingBalances (h : Sound s) {vestingBalances : Index VestingBalanceObject}
    (hkeep : ∀ id vbo, s.vestingBalances.find id = some vbo → Usable s.headBlockTime vbo →
      ∃ vbo', vestingBalances.find id = some vbo' ∧ Usable s.headBlockTime vbo') :
    Sound { s with vestingBalances } where
  payable := by
    refine ⟨fun x a id ha hid => ?_, h.payable.currentSupply, h.payable.accumulatedFees⟩
    obtain ⟨vbo, hfound, husable⟩ := h.payable.usable x a id ha hid
    exact hkeep id vbo hfound husable
  parameters := h.parameters
  percentages := h.percentages
  parties id a ha := (h.parties id a ha).congr fun _ => rfl
  counts := h.counts

theorem refresh_eq (a : AccountObject) : a.refresh =
    { a with
      statistics := { a.statistics with coreInBalance := a.refresh.statistics.coreInBalance }
      coreBalance := a.refresh.coreBalance } := by
  unfold AccountObject.refresh
  split <;> rfl

theorem Sound.refreshBalances (h : Sound s) : Sound (refreshBalances s) := by
  unfold Voting.refreshBalances
  induction s.ids generalizing s with
  | nil => exact h
  | cons id ids ih => exact ih (h.modifyAccount_of_terms fun a _ => by rw [refresh_eq]; exact ⟨rfl, rfl⟩)

theorem visitAccount_eq_ok {id : AccountId} {d d' : State × Tallies}
    (h : visitAccount id d = .ok d') : processFees id d.1 = .ok d'.1 := by
  unfold visitAccount at h
  obtain ⟨a, -, h⟩ := of_bind h
  obtain ⟨t, -, h⟩ := of_bind h
  obtain ⟨s, hs, h⟩ := of_bind h
  cases h
  exact hs

theorem Sound.performAccountMaintenance (h : Sound s) {t t' : Tallies}
    (hs : performAccountMaintenance s t = .ok (s', t')) : Sound s' := by
  unfold Voting.performAccountMaintenance at hs
  cases hsweep : sweepAccounts (Voting.refreshBalances s) (t.start s) with
  | error e =>
    rw [hsweep] at hs
    cases hs
  | ok r =>
    obtain ⟨visited, s1, t1⟩ := r
    rw [hsweep] at hs
    cases hs
    have hkeep : ∀ id (d d' : State × Tallies), Sound d.1 → visitAccount id d = .ok d' →
        Sound d'.1 := fun id d d' hd hvisit => hd.processFees (visitAccount_eq_ok hvisit)
    exact Lib.Sweep.sweep_keeps (P := fun d => Sound d.1) hkeep h.refreshBalances hsweep

theorem Sound.step (h : Sound s) {e : Event} (he : Admitted s e)
    (hs : step s e = .ok s') : Sound s' := by
  cases e with
  | createAccount op => exact h.createAccount he hs
  | updateAccount account newOptions =>
    obtain ⟨a, -, hs⟩ := of_bind hs
    obtain ⟨u, -, hs⟩ := of_bind hs
    cases hs
    refine h.modifyAccount_of_terms fun b _ => ?_
    unfold AccountObject.updateOptions AccountObject.terms
    split
    · exact ⟨rfl, rfl⟩
    · exact ⟨rfl, rfl⟩
  | upgradeAccount account upgrade => exact h.upgradeAccount hs
  | adjustBalance account delta => exact h.adjustBalance hs
  | payFee account coreFee => exact h.payFee he hs
  | placeOrder o =>
    obtain ⟨-, hs⟩ := of_fcAssert hs
    obtain ⟨s1, h1, hs⟩ := of_bind hs
    cases hs
    exact (h.addCoreInOrders h1).setOrders _
  | changeOrder id remains =>
    unfold Voting.step Voting.changeOrder at hs
    dsimp only at hs
    split at hs
    · cases hs
    · obtain ⟨-, hs⟩ := of_fcAssert hs
      obtain ⟨s1, h1, hs⟩ := of_bind hs
      cases hs
      exact (h.addCoreInOrders h1).setOrders _
  | closeOrder id =>
    unfold Voting.step Voting.closeOrder at hs
    dsimp only at hs
    split at hs
    · cases hs
    · obtain ⟨s1, h1, hs⟩ := of_bind hs
      cases hs
      exact (h.addCoreInOrders h1).setOrders _
  | createVestingBalance vbo =>
    cases hs
    refine h.setVestingBalances fun id old hfound husable => ⟨old, ?_, husable⟩
    rw [Index.find_create, if_neg]
    · exact hfound
    · rintro rfl
      rw [Index.find_next] at hfound
      cases hfound
  | changeVestingBalance id vbo =>
    cases hs
    refine h.setVestingBalances fun id' old hfound husable => ?_
    rw [Index.find_modify]
    by_cases heq : id' = id
    · subst heq
      rw [if_pos rfl, hfound]
      exact ⟨vbo, rfl, he old hfound husable⟩
    · rw [if_neg heq]
      exact ⟨old, hfound, husable⟩
  | maintenance t =>
    cases hresult : Voting.performAccountMaintenance s t with
    | error e =>
      rw [Voting.step, hresult] at hs
      cases hs
    | ok r =>
      rw [Voting.step, hresult] at hs
      cases hs
      exact h.performAccountMaintenance hresult
  | elsewhere headBlockTime parameters ballot currentSupply accumulatedFees =>
    obtain ⟨htime, hparameters, hsupply, hfees⟩ := he
    cases hs
    refine ⟨⟨fun x a id ha hid => ?_, hsupply, hfees⟩, hparameters, h.percentages,
      fun id a ha => (h.parties id a ha).congr fun _ => rfl, h.counts⟩
    obtain ⟨vbo, hfound, husable⟩ := h.payable.usable x a id ha hid
    exact ⟨vbo, hfound, husable.later htime⟩

/-! ## Genesis -/

theorem find_genesisAccounts (maxCoreSupply : Int) (numSpecialAccounts : Nat) (id : AccountId) :
    (genesisAccounts maxCoreSupply numSpecialAccounts).find id =
      (specialAccounts maxCoreSupply)[id]? := by
  have hfind := Index.find_foldl_create ∅ (specialAccounts maxCoreSupply) id
  have hnext : ¬id < (∅ : Index AccountObject).next := Nat.not_lt_zero id
  rw [if_neg hnext] at hfind
  exact hfind

theorem sound_genesis (h : ValidGenesis s) : Sound s := by
  obtain ⟨⟨maxCoreSupply, numSpecialAccounts, initialTimestamp, initialParameters, hsupply, rfl⟩,
    hparameters, hrange⟩ := h
  have hfind := find_genesisAccounts maxCoreSupply numSpecialAccounts
  have hsome : ∀ x < 6, ((genesisAccounts maxCoreSupply numSpecialAccounts).find x).isSome =
      true := by
    intro x hx
    rw [hfind]
    exact Option.isSome_iff_exists.mpr ⟨_, List.getElem?_eq_getElem hx⟩
  have haccount : ∀ id a, (genesisAccounts maxCoreSupply numSpecialAccounts).find id = some a →
      a.Percentages ∧ a.Counts ∧ a.cashbackVb = none ∧ a.registrar < 6 ∧ a.referrer < 6 ∧
        a.lifetimeReferrer < 6 := by
    intro id a ha
    rw [hfind] at ha
    have hmem := List.mem_of_getElem? ha
    unfold specialAccounts at hmem
    simp only [List.mem_cons, List.not_mem_nil, or_false] at hmem
    rcases hmem with rfl | rfl | rfl | rfl | rfl | rfl
    · exact ⟨⟨(by decide : 4000 + (percent100 - 4000) ≤ percent100), Nat.zero_le _⟩,
        ⟨isShare_zero, isShare_zero, isShare_zero⟩, rfl, (by decide : committeeAccount < 6),
        (by decide : committeeAccount < 6), (by decide : committeeAccount < 6)⟩
    all_goals exact ⟨⟨by decide, by decide⟩, ⟨isShare_zero, isShare_zero, isShare_zero⟩, rfl,
      by decide, by decide, by decide⟩
  constructor
  case payable =>
    refine ⟨fun x a id ha hid => ?_, hrange, (by decide : IsShare 0)⟩
    rw [(haccount x a ha).2.2.1] at hid
    cases hid
  case parameters => exact hparameters
  case percentages => exact fun id a ha => (haccount id a ha).1
  case parties =>
    intro id a ha
    obtain ⟨-, -, -, hregistrar, hreferrer, hlifetime⟩ := haccount id a ha
    exact ⟨hsome _ hregistrar, hsome _ hreferrer, hsome _ hlifetime⟩
  case counts => exact fun id a ha => (haccount id a ha).2.1

theorem sound_of_reachable (h : Reachable step ValidGenesis Admitted s) : Sound s :=
  h.invariant Sound (fun _ => sound_genesis) fun _ _ _ hs he hstep => hs.step he hstep

/-- In every state that a chain reaches the fees of an account are split into cuts that are not negative
and add up to them.  They are processed if and only if the products of 64 bits and the sums fit, and
whenever they are, everybody gets his cut and the counters are reset. -/
theorem processFees_conserves (h : Reachable step ValidGenesis Admitted s) {k : AccountId}
    {a : AccountObject} (ha : s.accounts.find k = some a) :
    (a.Splits a.statistics.pendingFees ∧ a.Splits a.statistics.pendingVestedFees) ∧
      ((∃ s', processFees k s = .ok s' ∧ Conserved k a s s') ↔ FeesFit s a) ∧
      (∀ s', processFees k s = .ok s' → Conserved k a s s') ∧
      ∀ x amount requireVesting, (s.accounts.find x).isSome = true → 0 ≤ amount →
        amount < 2 ^ 63 → Pays (ProductFits s x amount requireVesting) (due x amount) s
          (depositCashback x amount requireVesting s) := by
  have hsound := sound_of_reachable h
  have hpercentages := hsound.percentages k a ha
  have hcounts := hsound.counts k a ha
  obtain ⟨hiff, hdone⟩ := hsound.payable.processFees_isOk_iff ha hpercentages
    (hsound.parties k a ha) hcounts
  refine ⟨⟨hpercentages.splits hcounts.pendingFees.1 hcounts.pendingFees.2,
    hpercentages.splits hcounts.pendingVestedFees.1 hcounts.pendingVestedFees.2⟩, ⟨?_, ?_⟩,
    fun s' hs' => (hdone s' hs').1, ?_⟩
  · rintro ⟨s', hs', -⟩
    exact hiff.mp ⟨s', hs'⟩
  · intro hfits
    obtain ⟨s', hs'⟩ := hiff.mpr hfits
    exact ⟨s', hs', (hdone s' hs').1⟩
  · intro x amount requireVesting hx hnonneg hsmall
    obtain ⟨b, hb⟩ := Option.isSome_iff_exists.mp hx
    exact hsound.payable.pays_depositCashback hb hnonneg hsmall requireVesting

def memberPays (fees : Nat) : List Event :=
  [.createAccount ⟨0, 0, 0, "member", {}⟩, .upgradeAccount 6 true,
    .adjustBalance 0 (-1000000000000), .adjustBalance 6 1000000000000] ++
  (List.replicate fees [Event.adjustBalance 6 (-100000000000), .payFee 6 100000000000]).flatten

theorem admitted_memberPays (fees : Nat) : ∀ e ∈ memberPays fees, ∀ s, Admitted s e := by
  intro e he s
  rcases List.mem_append.mp he with hfirst | hfees
  · simp only [List.mem_cons, List.not_mem_nil, or_false] at hfirst
    rcases hfirst with rfl | rfl | rfl | rfl
    · exact (by decide : 0 ≤ percent100)
    all_goals trivial
  · obtain ⟨pair, hpair, he⟩ := List.mem_flatten.mp hfees
    rw [List.eq_of_mem_replicate hpair, List.mem_cons, List.mem_singleton] at he
    rcases he with rfl | rfl
    · trivial
    · exact (by decide : (0 : Int) ≤ 100000000000)

theorem validGenesis : ValidGenesis (genesis 1000000000000000 6 1600000000 {}) :=
  ⟨⟨1000000000000000, 6, 1600000000, {}, by decide, rfl⟩, by decide, by decide⟩

theorem processFees_conserves_member : ∃ s a s',
    Reachable step ValidGenesis Admitted s ∧ s.accounts.find 6 = some a ∧
      a.allFees = 100000000000 ∧ processFees 6 s = .ok s' ∧ Conserved 6 a s s' := by
  obtain ⟨s, hreach, hend⟩ : ∃ s, Reachable step ValidGenesis Admitted s ∧
      ((s.accounts.find 6).any fun a => decide (a.allFees = 100000000000)) = true ∧
      Lib.Succeeds (processFees 6 s) fun _ => True :=
    Reachable.of_run (memberPays 1) validGenesis (.of_forall (admitted_memberPays 1) _)
      (by decide +kernel)
  obtain ⟨hany, s', hs', -⟩ := hend
  rw [Option.any_eq_true] at hany
  obtain ⟨a, ha, hfees⟩ := hany
  obtain ⟨-, -, hdone, -⟩ := processFees_conserves hreach ha
  exact ⟨s, a, s', hreach, ha, of_decide_eq_true hfees, hs', hdone s' hs'⟩

/-- Ten fees at once make a product of more than 64 bits when the member's cut is deposited. -/
theorem processFees_undefined : ∃ s, Reachable step ValidGenesis Admitted s ∧
    processFees 6 s = .error .undefined := by
  obtain ⟨s, hreach, hend⟩ : ∃ s, Reachable step ValidGenesis Admitted s ∧
      (match processFees 6 s with
        | .error e => decide (e = .undefined)
        | .ok _ => false) = true :=
    Reachable.of_run (memberPays 10) validGenesis (.of_forall (admitted_memberPays 10) _)
      (by decide +kernel)
  refine ⟨s, hreach, ?_⟩
  cases hs : processFees 6 s with
  | error e =>
    rw [hs] at hend
    rw [of_decide_eq_true hend]
  | ok s' =>
    rw [hs] at hend
    cases hend

end Meta1Core.Voting

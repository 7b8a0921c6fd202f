import Meta1Core.Pools.Steps

/-!
# The representation invariant of liquidity pools

A pool holds something of its first asset exactly if it holds something of the second one, and
exactly if there are shares of it.
-/

namespace Meta1Core.Pools

open Lib (Index Returns Relates Raises Reachable)
open Protocol Ledger

structure PoolSound (p : LiquidityPool) (supply : Int) : Prop where
  nonnegA : 0 ≤ p.balanceA
  nonnegB : 0 ≤ p.balanceB
  ltA : p.balanceA < 2 ^ 63
  ltB : p.balanceB < 2 ^ 63
  both : 0 < p.balanceA ↔ 0 < p.balanceB
  shares : 0 < p.balanceA ↔ 0 < supply
  virtualValue : (p.virtualValue : Int) = p.balanceA * p.balanceB

structure Sound (v : View) : Prop where
  supply : ∀ id a, v.assets id = some a →
    0 ≤ a.currentSupply ∧ a.currentSupply ≤ a.options.maxSupply ∧
      a.options.maxSupply ≤ maxShareSupply
  pool : ∀ id p, v.pools id = some p → ∃ a, v.assets p.shareAsset = some a ∧
    a.forLiquidityPool = some id ∧ PoolSound p a.currentSupply

namespace PoolSound

variable {p : LiquidityPool} {supply : Int}

theorem withBalances {x y : Int} (hx : 0 ≤ x) (hy : 0 ≤ y) (hx63 : x < 2 ^ 63) (hy63 : y < 2 ^ 63)
    (hboth : 0 < x ↔ 0 < y) (hshares : 0 < x ↔ 0 < supply) :
    PoolSound (withBalances p x y) supply := by
  refine ⟨hx, hy, hx63, hy63, hboth, hshares, ?_⟩
  obtain ⟨x, rfl⟩ := Int.eq_ofNat_of_zero_le hx
  obtain ⟨y, rfl⟩ := Int.eq_ofNat_of_zero_le hy
  have hprod := mul_lt_of_lt (show x < 2 ^ 63 by omega) (show y < 2 ^ 63 by omega)
  change ((mul128 (uint128 x) (uint128 y) : Nat) : Int) = x * y
  rw [uint128_natCast (by omega), uint128_natCast (by omega), mul128_of_lt (by omega),
    Int.natCast_mul]

theorem empty (h : PoolSound p supply) (hempty : p.balanceA = 0) :
    p.balanceB = 0 ∧ ¬0 < supply := by
  have := h.both
  have := h.shares
  have := h.nonnegB
  constructor
  · omega
  · omega

theorem balances (h : PoolSound p supply) (hpos : 0 < p.balanceA) :
    ∃ x y : Nat, p.balanceA = x ∧ p.balanceB = y ∧ 0 < x ∧ 0 < y ∧ x < 2 ^ 63 ∧ y < 2 ^ 63 ∧
      p.virtualValue = x * y := by
  obtain ⟨x, hx⟩ := Int.eq_ofNat_of_zero_le h.nonnegA
  obtain ⟨y, hy⟩ := Int.eq_ofNat_of_zero_le h.nonnegB
  have hB := h.both.mp hpos
  have hvirtual := h.virtualValue
  rw [hx, hy, ← Int.natCast_mul] at hvirtual
  have := h.ltA
  have := h.ltB
  exact ⟨x, y, hx, hy, by omega, by omega, by omega, by omega, Int.ofNat.inj hvirtual⟩

end PoolSound

namespace Sound

variable {v : View} {id : Nat} {p : LiquidityPool} {a : AssetObject}

theorem share (h : Sound v) (hp : v.pools id = some p) (ha : v.assets p.shareAsset = some a) :
    a.forLiquidityPool = some id ∧ PoolSound p a.currentSupply := by
  obtain ⟨a', ha', hfor, hsound⟩ := h.pool id p hp
  cases ha'.symm.trans ha
  exact ⟨hfor, hsound⟩

theorem supply_setAsset (h : Sound v) {j : AssetId} {a' : AssetObject}
    (ha' : 0 ≤ a'.currentSupply ∧ a'.currentSupply ≤ a'.options.maxSupply ∧
      a'.options.maxSupply ≤ maxShareSupply) :
    ∀ k b, (v.setAsset j a').assets k = some b → 0 ≤ b.currentSupply ∧
      b.currentSupply ≤ b.options.maxSupply ∧ b.options.maxSupply ≤ maxShareSupply := by
  intro k b hb
  rcases eq_or_ne k j with rfl | hne
  · rw [View.setAsset_self] at hb
    cases hb
    exact ha'
  · rw [View.setAsset_of_ne _ hne] at hb
    exact h.supply k b hb

theorem replace (h : Sound v) {pools : Nat → Option LiquidityPool} {j : AssetId} {a' : AssetObject}
    (ha : v.assets j = some a) (howner : ∀ k, a.forLiquidityPool = some k → k = id)
    (hothers : ∀ k, k ≠ id → pools k = v.pools k)
    (ha' : 0 ≤ a'.currentSupply ∧ a'.currentSupply ≤ a'.options.maxSupply ∧
      a'.options.maxSupply ≤ maxShareSupply)
    (hpool : ∀ q, pools id = some q → q.shareAsset = j ∧ a'.forLiquidityPool = some id ∧
      PoolSound q a'.currentSupply) :
    Sound (View.setAsset ⟨pools, v.assets⟩ j a') where
  supply := h.supply_setAsset ha'
  pool := by
    intro k q hq
    rcases eq_or_ne k id with rfl | hne
    · obtain ⟨hshare, hfor, hsound⟩ := hpool q hq
      exact ⟨a', by rw [hshare]; exact View.setAsset_self _ _ _, hfor, hsound⟩
    · obtain ⟨b, hb, hfor, hsound⟩ := h.pool k q ((hothers k hne).symm.trans hq)
      have hshare : q.shareAsset ≠ j := by
        intro heq
        rw [heq, ha] at hb
        cases hb
        exact hne (howner k hfor)
      exact ⟨b, (View.setAsset_of_ne _ hshare _).trans hb, hfor, hsound⟩

theorem move (h : Sound v) {x y delta : Int} (hp : v.pools id = some p)
    (ha : v.assets p.shareAsset = some a)
    (hsupply : 0 ≤ a.currentSupply + delta ∧ a.currentSupply + delta ≤ a.options.maxSupply)
    (hpool : PoolSound (withBalances p x y) (a.currentSupply + delta)) :
    Sound (v.move id p a x y delta) := by
  have hfor := (h.share hp ha).1
  refine h.replace ha (fun k hk => Option.some.inj (hk.symm.trans hfor))
    (fun k hne => View.setPool_of_ne v hne _) ⟨hsupply.1, hsupply.2, (h.supply _ a ha).2.2⟩ ?_
  intro q hq
  rw [Function.update_self] at hq
  cases hq
  exact ⟨rfl, hfor, hpool⟩

theorem create (h : Sound v) {op : LiquidityPoolCreateOperation} (id : Nat)
    (ha : v.assets op.shareAsset = some a) (hfree : a.forLiquidityPool = none)
    (hzero : a.currentSupply = 0) :
    Sound ((v.setPool id op.newPool).setAsset op.shareAsset
      { a with forLiquidityPool := some id }) := by
  refine h.replace ha (fun k hk => nomatch hfree.symm.trans hk)
    (fun k hne => View.setPool_of_ne v hne _) (h.supply _ a ha) ?_
  intro q hq
  rw [Function.update_self] at hq
  cases hq
  refine ⟨rfl, rfl, ?_⟩
  change PoolSound op.newPool a.currentSupply
  rw [hzero]
  exact ⟨le_refl _, le_refl _, Int.pow_pos (by decide), Int.pow_pos (by decide), Iff.rfl, Iff.rfl, rfl⟩

theorem delete (h : Sound v) (hp : v.pools id = some p) (ha : v.assets p.shareAsset = some a) :
    Sound ((v.removePool id).setAsset p.shareAsset { a with forLiquidityPool := none }) := by
  have hfor := (h.share hp ha).1
  refine h.replace ha (fun k hk => Option.some.inj (hk.symm.trans hfor))
    (fun k hne => View.removePool_of_ne v hne) (h.supply _ a ha) ?_
  intro q hq
  rw [Function.update_self] at hq
  cases hq

theorem setSupply (h : Sound v) {j : AssetId} {delta : Int} (ha : v.assets j = some a)
    (hsupply : 0 ≤ a.currentSupply + delta ∧ a.currentSupply + delta ≤ a.options.maxSupply)
    (hshares : a.forLiquidityPool ≠ none → 0 < a.currentSupply ∧ 0 < a.currentSupply + delta) :
    Sound (v.setAsset j (addSupply a delta)) where
  supply := h.supply_setAsset ⟨hsupply.1, hsupply.2, (h.supply _ a ha).2.2⟩
  pool := by
    intro k q hq
    obtain ⟨b, hb, hfor, hsound⟩ := h.pool k q hq
    rcases eq_or_ne q.shareAsset j with heq | hne
    · rw [heq, ha] at hb
      cases hb
      obtain ⟨hbefore, hafter⟩ := hshares (by rw [hfor]; exact nofun)
      refine ⟨addSupply a delta, by rw [heq]; exact View.setAsset_self _ _ _, hfor,
        { hsound with shares := ?_ }⟩
      exact ⟨fun _ => hafter, fun _ => hsound.shares.mpr hbefore⟩
    · exact ⟨b, (View.setAsset_of_ne _ hne _).trans hb, hfor, hsound⟩

end Sound

/-! ## What the operations do to the invariant -/

variable {s s2 s' : State}

/-- The amounts of an operation are `int64_t`, as far as the evaluators compute with them. -/
def Operation.Representable : Operation → Prop
  | .deposit op => op.amountA.amount < 2 ^ 63 ∧ op.amountB.amount < 2 ^ 63
  | _ => True

instance : DecidablePred Operation.Representable
  | .deposit _ => instDecidableAnd
  | .create _ | .delete _ | .withdraw _ | .exchange _ | .issue _ | .reserve _ => .isTrue trivial

variable {op : LiquidityPoolDepositOperation}

theorem depositAmounts_sound {p : LiquidityPool} {a : AssetObject} (hvalid : op.validate = .ok ())
    (hrep : op.amountA.amount < 2 ^ 63 ∧ op.amountB.amount < 2 ^ 63)
    (hpool : PoolSound p a.currentSupply) (hnonempty : p.balanceA ≠ 0)
    (hmax : a.currentSupply ≤ a.options.maxSupply ∧ a.options.maxSupply ≤ maxShareSupply) :
    depositAmounts p a.currentSupply a.options.maxSupply op.amountA.amount op.amountB.amount =
        .error (.fc "Aborting due to zero outcome") ∨
      ∃ (m : DepositAmounts) (bA bB supply maxSupply amountA amountB : Nat),
        depositAmounts p a.currentSupply a.options.maxSupply op.amountA.amount op.amountB.amount =
          .ok m ∧ p.balanceA = bA ∧ p.balanceB = bB ∧ a.currentSupply = supply ∧
        a.options.maxSupply = maxSupply ∧ op.amountA.amount = amountA ∧ op.amountB.amount = amountB ∧
        0 < bA ∧ 0 < bB ∧ 0 < supply ∧ maxSupply < 2 ^ 63 ∧
        DepositSpec bA bB supply maxSupply amountA amountB m := by
  obtain ⟨-, hvalid⟩ := of_fcAssert hvalid
  obtain ⟨hamounts, -⟩ := of_fcAssert hvalid
  have hpos : 0 < p.balanceA := lt_of_le_of_ne hpool.nonnegA (Ne.symm hnonempty)
  obtain ⟨bA, bB, hA, hB, hApos, hBpos, hA63, hB63, -⟩ := hpool.balances hpos
  have hsupply := hpool.shares.mp hpos
  obtain ⟨supply, hs⟩ := Int.eq_ofNat_of_zero_le (le_of_lt hsupply)
  obtain ⟨maxSupply, hmx⟩ := Int.eq_ofNat_of_zero_le (le_of_lt (lt_of_lt_of_le hsupply hmax.1))
  obtain ⟨amountA, ha⟩ := Int.eq_ofNat_of_zero_le (le_of_lt hamounts.1)
  obtain ⟨amountB, hb⟩ := Int.eq_ofNat_of_zero_le (le_of_lt hamounts.2)
  have hmax63 : maxSupply < 2 ^ 63 := by
    have := hmax.2
    unfold maxShareSupply at this
    omega
  rw [hs, hmx, ha, hb]
  rcases depositAmounts_spec hA hB hApos hBpos hA63 hB63 (show 0 < supply by omega) (by omega) hmax63
    (show amountA < 2 ^ 63 by omega) (show amountB < 2 ^ 63 by omega) with herr | ⟨m, hm, hspec⟩
  · exact .inl herr
  · exact .inr ⟨m, bA, bB, supply, maxSupply, amountA, amountB, hm, hA, hB, rfl, rfl, rfl, rfl,
      hApos, hBpos, by omega, hmax63, hspec⟩

theorem depositAmounts_ok {p : LiquidityPool} {a : AssetObject} {m : DepositAmounts}
    (hvalid : op.validate = .ok ()) (hrep : op.amountA.amount < 2 ^ 63 ∧ op.amountB.amount < 2 ^ 63)
    (hpool : PoolSound p a.currentSupply) (hnonempty : p.balanceA ≠ 0)
    (hmax : a.currentSupply ≤ a.options.maxSupply ∧ a.options.maxSupply ≤ maxShareSupply)
    (hm : depositAmounts p a.currentSupply a.options.maxSupply op.amountA.amount
      op.amountB.amount = .ok m) :
    ∃ bA bB supply maxSupply amountA amountB : Nat, p.balanceA = bA ∧ p.balanceB = bB ∧
      a.currentSupply = supply ∧ a.options.maxSupply = maxSupply ∧ op.amountA.amount = amountA ∧
      op.amountB.amount = amountB ∧ 0 < bA ∧ 0 < bB ∧ 0 < supply ∧ maxSupply < 2 ^ 63 ∧
      DepositSpec bA bB supply maxSupply amountA amountB m := by
  rcases depositAmounts_sound hvalid hrep hpool hnonempty hmax with herr | ⟨m', bA, bB, supply,
    maxSupply, amountA, amountB, hm', hspec⟩
  · exact nomatch herr.symm.trans hm
  · cases hm'.symm.trans hm
    exact ⟨bA, bB, supply, maxSupply, amountA, amountB, hspec⟩

theorem DepositSpec.casts {bA bB supply maxSupply amountA amountB : Nat} {m : DepositAmounts}
    (h : DepositSpec bA bB supply maxSupply amountA amountB m) (hmax : maxSupply < 2 ^ 63)
    (hA : amountA < 2 ^ 63) (hB : amountB < 2 ^ 63) :
    int64Cast m.a128 = m.a128 ∧ int64Cast m.b128 = m.b128 ∧ int64Cast m.newSupply = m.newSupply := by
  have := h.a128_le
  have := h.b128_le
  have := h.newSupply_le
  exact ⟨int64Cast_of_lt (by omega), int64Cast_of_lt (by omega), int64Cast_of_lt (by omega)⟩

theorem deposit_sound {p : LiquidityPool} {a : AssetObject} {d : Deposit}
    (hvalid : op.validate = .ok ()) (hrep : op.amountA.amount < 2 ^ 63 ∧ op.amountB.amount < 2 ^ 63)
    (hpool : PoolSound p a.currentSupply)
    (hmax : 0 ≤ a.currentSupply ∧ a.currentSupply ≤ a.options.maxSupply ∧
      a.options.maxSupply ≤ maxShareSupply) (hd : DepositOutcome op p a d)
    (hA63 : p.balanceA + d.poolReceivesA < 2 ^ 63) (hB63 : p.balanceB + d.poolReceivesB < 2 ^ 63) :
    (0 < a.currentSupply + d.accountReceives ∧
      a.currentSupply + d.accountReceives ≤ a.options.maxSupply) ∧
    (0 < p.balanceA + d.poolReceivesA ∧ 0 < p.balanceB + d.poolReceivesB) ∧
    PoolSound (withBalances p (p.balanceA + d.poolReceivesA) (p.balanceB + d.poolReceivesB))
      (a.currentSupply + d.accountReceives) := by
  obtain ⟨-, hamounts⟩ := of_fcAssert hvalid
  obtain ⟨hpos, -⟩ := of_fcAssert hamounts
  have hnum : 0 < a.currentSupply + d.accountReceives ∧
      a.currentSupply + d.accountReceives ≤ a.options.maxSupply ∧
      0 < p.balanceA + d.poolReceivesA ∧ 0 < p.balanceB + d.poolReceivesB := by
    cases hd with
    | initial hempty hle =>
      obtain ⟨hB, hsupply⟩ := hpool.empty hempty
      dsimp only
      omega
    | further m hnonempty hm =>
      obtain ⟨bA, bB, supply, maxSupply, x, y, hA, hB, hs, hmx, hx, hy, hApos, hBpos, hspos, hmax63,
        hspec⟩ := depositAmounts_ok hvalid hrep hpool hnonempty hmax.2 hm
      obtain ⟨hca, hcb, hcs⟩ := hspec.casts hmax63 (by omega) (by omega)
      have := hspec.newSupply_le
      have := hspec.pos
      dsimp only
      rw [hca, hcb, hcs, hs, hmx, hA, hB]
      omega
  obtain ⟨hspos, hsmax, hApos, hBpos⟩ := hnum
  refine ⟨⟨hspos, hsmax⟩, ⟨hApos, hBpos⟩, ?_⟩
  exact .withBalances hApos.le hBpos.le hA63 hB63 (iff_of_true hApos hBpos)
    (iff_of_true hApos hspos)

theorem withdrawAmount_sound {share balance supply : Int} {feePercent : Nat} {w : WithdrawAmount}
    (hshare : 0 < share) (hlt : share < supply) (hs63 : supply < 2 ^ 63) (hbalance : 0 < balance)
    (hb63 : balance < 2 ^ 63) (hw : withdrawAmount share balance supply feePercent = .ok w) :
    int64Cast w.pays = w.pays ∧ int64Cast w.fee = w.fee ∧ (w.pays + w.fee : Int) < balance ∧
      (w.pays + w.fee : Int) * supply ≤ share * balance := by
  obtain ⟨n, rfl⟩ := Int.eq_ofNat_of_zero_le hshare.le
  obtain ⟨b, rfl⟩ := Int.eq_ofNat_of_zero_le hbalance.le
  obtain ⟨k, rfl⟩ := Int.eq_ofNat_of_zero_le (hshare.trans hlt).le
  rcases withdrawAmount_spec feePercent (show n < k by omega) (show 0 < b by omega) (by omega)
    (by omega) with herr | ⟨w', hw', hspec⟩
  · exact nomatch herr.symm.trans hw
  · cases hw'.symm.trans hw
    have hsum := hspec.sum_lt
    refine ⟨int64Cast_of_lt (by omega), int64Cast_of_lt (by omega), by omega, ?_⟩
    exact_mod_cast hspec.sum_le

theorem withdraw_sound {op : LiquidityPoolWithdrawOperation} {p : LiquidityPool} {a : AssetObject}
    {w : Withdrawal} (hvalid : op.validate = .ok ()) (hpool : PoolSound p a.currentSupply)
    (hmax : 0 ≤ a.currentSupply ∧ a.currentSupply ≤ a.options.maxSupply ∧
      a.options.maxSupply ≤ maxShareSupply)
    (hA : 0 < p.balanceA) (hB : 0 < p.balanceB) (hle : op.shareAmount.amount ≤ a.currentSupply)
    (hw : WithdrawOutcome op p a w) :
    0 ≤ a.currentSupply + -op.shareAmount.amount ∧
      a.currentSupply + -op.shareAmount.amount ≤ a.options.maxSupply ∧
    PoolSound (withBalances p (p.balanceA - w.poolPaysA) (p.balanceB - w.poolPaysB))
      (a.currentSupply + -op.shareAmount.amount) := by
  obtain ⟨-, hvalid⟩ := of_fcAssert hvalid
  have hpos := fcAssert_eq_ok.mp hvalid
  have hltA := hpool.ltA
  have hltB := hpool.ltB
  refine ⟨by omega, by omega, ?_⟩
  cases hw with
  | all hall =>
    dsimp only
    exact .withBalances (by omega) (by omega) (by omega) (by omega) (by omega) (by omega)
  | part wa wb hpart hwa hwb =>
    have hs63 : a.currentSupply < 2 ^ 63 := by
      unfold maxShareSupply at hmax
      omega
    obtain ⟨hca, -, hsumA, -⟩ :=
      withdrawAmount_sound hpos (lt_of_le_of_ne hle (Ne.symm hpart)) hs63 hA hltA hwa
    obtain ⟨hcb, -, hsumB, -⟩ :=
      withdrawAmount_sound hpos (lt_of_le_of_ne hle (Ne.symm hpart)) hs63 hB hltB hwb
    dsimp only
    rw [hca, hcb]
    exact .withBalances (by omega) (by omega) (by omega) (by omega) (by omega) (by omega)

theorem exchangeAmount_sound {virtualValue : Nat} {receives newBalance pays : Int}
    {feePercent : Nat} {e : ExchangeAmount} (hreceives : 0 < receives) (hpays : 0 < pays)
    (hp63 : pays < 2 ^ 63) (hvirtual : (virtualValue : Int) = receives * pays)
    (hnew : receives ≤ newBalance) (h63 : newBalance < 2 ^ 63)
    (he : exchangeAmount virtualValue newBalance pays feePercent = .ok e) :
    int64Cast (e.delta - e.poolTakerFee) = (e.delta : Int) - e.poolTakerFee ∧
      int64Cast e.poolTakerFee = e.poolTakerFee ∧ (e.delta : Int) - e.poolTakerFee < pays ∧
      0 ≤ (e.delta : Int) - e.poolTakerFee ∧
      receives * pays ≤ newBalance * (pays - ((e.delta : Int) - e.poolTakerFee)) := by
  obtain ⟨r, rfl⟩ := Int.eq_ofNat_of_zero_le hreceives.le
  obtain ⟨y, rfl⟩ := Int.eq_ofNat_of_zero_le hpays.le
  obtain ⟨n, rfl⟩ := Int.eq_ofNat_of_zero_le (hreceives.le.trans hnew)
  obtain rfl : virtualValue = r * y := by exact_mod_cast hvirtual
  rcases exchangeAmount_spec feePercent (show 0 < r by omega) (show 0 < y by omega)
    (show r ≤ n by omega) (by omega) (by omega) with herr | ⟨e', he', hspec⟩
  · exact nomatch herr.symm.trans he
  · cases he'.symm.trans he
    have hfee := hspec.fee_le
    have hdelta := hspec.delta_lt
    refine ⟨?_, int64Cast_of_lt (by omega), by omega, by omega, ?_⟩
    · rw [int64Cast_of_lt (by omega)]
      omega
    · have hproduct : ((r * y : Nat) : Int) ≤ ((n * (y - e.delta) : Nat) : Int) :=
        Int.ofNat_le.mpr hspec.product
      rw [Int.natCast_mul, Int.natCast_mul, Int.natCast_sub hdelta.le] at hproduct
      refine hproduct.trans (Int.mul_le_mul_of_nonneg_left ?_ (Int.natCast_nonneg _))
      omega

theorem exchange_sound {p : LiquidityPool} {supply : Int} {x : Exchange} {sellsA : Prop}
    [Decidable sellsA] (hpool : PoolSound p supply) (hA : 0 < p.balanceA) (hB : 0 < p.balanceB)
    (hx : if sellsA then ExchangeOutcome p p.balanceA p.balanceB x
      else ExchangeOutcome p p.balanceB p.balanceA x)
    (h63 : (exchangedBalances p sellsA x).1 < 2 ^ 63 ∧ (exchangedBalances p sellsA x).2 < 2 ^ 63) :
    PoolSound (withBalances p (exchangedBalances p sellsA x).1 (exchangedBalances p sellsA x).2)
      supply ∧
    p.balanceA * p.balanceB ≤
      (exchangedBalances p sellsA x).1 * (exchangedBalances p sellsA x).2 := by
  have hsupply := hpool.shares.mp hA
  unfold exchangedBalances at h63 ⊢
  split at hx
  · rename_i hside
    rw [if_pos hside] at h63 ⊢
    dsimp only at h63 ⊢
    obtain ⟨e, he, hpays, -⟩ := hx.amount
    have hreceived := hx.received_pos
    obtain ⟨hcast, -, hlt, hnonneg, hproduct⟩ := exchangeAmount_sound hA hB hpool.ltB
      hpool.virtualValue (by omega) hx.fits he
    rw [hpays, hcast] at h63 ⊢
    refine ⟨.withBalances (by omega) (by omega) h63.1 h63.2 (by omega) (by omega), hproduct⟩
  · rename_i hside
    rw [if_neg hside] at h63 ⊢
    dsimp only at h63 ⊢
    obtain ⟨e, he, hpays, -⟩ := hx.amount
    have hreceived := hx.received_pos
    obtain ⟨hcast, -, hlt, hnonneg, hproduct⟩ := exchangeAmount_sound hB hA hpool.ltA
      (by rw [hpool.virtualValue, Int.mul_comm]) (by omega) hx.fits he
    rw [hpays, hcast] at h63 ⊢
    rw [Int.mul_comm, Int.mul_comm (p.balanceA - _)]
    refine ⟨.withBalances (by omega) (by omega) h63.1 h63.2 (by omega) (by omega), hproduct⟩

section Accepted

variable {ctx : TransactionEvaluationState} {requiredFee : Int} {r : ExchangeResult}

theorem accepted {α : Type} {payer : AccountId} {fee : Asset} {doEvaluate : Evaluation α}
    {doApply : α → Evaluation ExchangeResult}
    (hunchanged : ∀ x s1, Returns doEvaluate s x s1 → s1 = s)
    (h : Returns (startEvaluate ctx payer fee requiredFee doEvaluate doApply) s r s') :
    ∃ x s2 s3, Returns doEvaluate s x s ∧ view s2 = view s ∧ Returns (doApply x) s2 r s3 ∧
      view s' = view s3 := by
  obtain ⟨x, s1, s2, s3, hevaluate, hfees, happly, hfees'⟩ := of_startEvaluate h
  obtain rfl := hunchanged x s1 hevaluate
  exact ⟨x, s2, s3, hevaluate, view_eq_of_feesOnly hfees, happly, view_eq_of_feesOnly hfees'⟩

theorem deposit_accepted {op : LiquidityPoolDepositOperation}
    (h : Returns (startEvaluate ctx op.account op.fee requiredFee op.doEvaluate op.doApply) s r s') :
    ∃ p a d, (view s).pools op.pool = some p ∧ (view s).assets p.shareAsset = some a ∧
      DepositOutcome op p a d ∧ p.balanceA + d.poolReceivesA < 2 ^ 63 ∧
      p.balanceB + d.poolReceivesB < 2 ^ 63 ∧
      view s' = (view s).move op.pool p a (p.balanceA + d.poolReceivesA)
        (p.balanceB + d.poolReceivesB) d.accountReceives ∧
      r.paid = [⟨d.poolReceivesA, p.assetA⟩, ⟨d.poolReceivesB, p.assetB⟩] ∧
      r.received = [⟨d.accountReceives, p.shareAsset⟩] := by
  obtain ⟨d, s2, s3, hevaluate, hview, happly, hview'⟩ :=
    accepted (fun _ _ h => (deposit_evaluated h).1) h
  obtain ⟨-, p, a, hp, ha, hd⟩ := deposit_evaluated hevaluate
  simp only [LiquidityPoolDepositOperation.doApply, Returns.bind_iff, returns_require,
    Returns.pure_iff] at happly
  obtain ⟨_, s4, hmove, p', _, hp', _, _, ⟨-, rfl⟩, _, _, hshare, _, _, ⟨-, rfl⟩, rfl, rfl⟩ := happly
  obtain ⟨rfl, hp'⟩ := fetchPool_view hp'
  obtain ⟨rfl, -⟩ := fetchAsset_view hshare
  obtain ⟨q, b, hq, hb, hA, hB, hmoved⟩ := deposit_moved hmove
  rw [hview] at hq hb hmoved
  cases hq.symm.trans hp
  cases hb.symm.trans ha
  rw [hmoved] at hp'
  cases (View.move_pools ..).symm.trans hp'
  exact ⟨p, a, d, hp, ha, hd, hA, hB, hview'.trans hmoved, rfl, rfl⟩

theorem withdraw_accepted {op : LiquidityPoolWithdrawOperation}
    (h : Returns (startEvaluate ctx op.account op.fee requiredFee op.doEvaluate op.doApply) s r s') :
    ∃ p a w, (view s).pools op.pool = some p ∧ (view s).assets p.shareAsset = some a ∧
      op.shareAmount.assetId = p.shareAsset ∧ 0 < p.balanceA ∧ 0 < p.balanceB ∧
      op.shareAmount.amount ≤ a.currentSupply ∧ WithdrawOutcome op p a w ∧
      view s' = (view s).move op.pool p a (p.balanceA - w.poolPaysA) (p.balanceB - w.poolPaysB)
        (-op.shareAmount.amount) ∧
      r.received = [⟨w.poolPaysA, p.assetA⟩, ⟨w.poolPaysB, p.assetB⟩] := by
  obtain ⟨w, s2, s3, hevaluate, hview, happly, hview'⟩ :=
    accepted (fun _ _ h => (withdraw_evaluated h).1) h
  obtain ⟨-, p, a, hp, ha, hshare, hpos, hpos', hle, hw⟩ := withdraw_evaluated hevaluate
  simp only [LiquidityPoolWithdrawOperation.doApply, Returns.bind_iff, returns_require,
    Returns.pure_iff] at happly
  obtain ⟨_, s4, hmove, p', _, hp', _, _, ⟨-, rfl⟩, _, _, hasset, _, _, ⟨-, rfl⟩, rfl, rfl⟩ := happly
  obtain ⟨rfl, hp'⟩ := fetchPool_view hp'
  obtain ⟨rfl, -⟩ := fetchAsset_view hasset
  obtain ⟨q, b, hq, hb, -, -, hmoved⟩ := withdraw_moved hmove
  rw [hview] at hq hb hmoved
  cases hq.symm.trans hp
  cases hb.symm.trans ha
  rw [hmoved] at hp'
  cases (View.move_pools ..).symm.trans hp'
  exact ⟨p, a, w, hp, ha, hshare, hpos, hpos', hle, hw, hview'.trans hmoved, rfl⟩

theorem exchange_accepted {op : LiquidityPoolExchangeOperation}
    (h : Returns (startEvaluate ctx op.account op.fee requiredFee op.doEvaluate op.doApply) s r s') :
    ∃ p a x b, (view s).pools op.pool = some p ∧ (view s).assets p.shareAsset = some a ∧
      0 < p.balanceA ∧ 0 < p.balanceB ∧
      (if op.amountToSell.assetId = p.assetA then ExchangeOutcome p p.balanceA p.balanceB x
        else ExchangeOutcome p p.balanceB p.balanceA x) ∧
      b = exchangedBalances p (op.amountToSell.assetId = p.assetA) x ∧
      b.1 < 2 ^ 63 ∧ b.2 < 2 ^ 63 ∧ view s' = (view s).move op.pool p a b.1 b.2 0 := by
  obtain ⟨x, s2, s3, hevaluate, hview, happly, hview'⟩ :=
    accepted (fun _ _ h => (exchange_evaluated h).1) h
  obtain ⟨-, p, hp, hpos, hpos', hx⟩ := exchange_evaluated hevaluate
  simp only [LiquidityPoolExchangeOperation.doApply, Returns.bind_iff, returns_require,
    Returns.pure_iff] at happly
  obtain ⟨_, s4, hmove, p', _, hp', _, _, ⟨-, rfl⟩, _, _, ⟨-, rfl⟩, rfl, rfl⟩ := happly
  obtain ⟨rfl, -⟩ := fetchPool_view hp'
  obtain ⟨q, a, b, hq, ha, hb, hA, hB, -, hmoved⟩ := exchange_moved hmove
  rw [hview] at hq ha hmoved
  cases hq.symm.trans hp
  exact ⟨p, a, x, b, hp, ha, hpos, hpos', hx, hb, hA, hB, hview'.trans hmoved⟩

end Accepted

theorem evaluate_sound {ctx : TransactionEvaluationState} {calculateFee : Operation → Int}
    {op : Operation} {r : ExchangeResult} (hsound : Sound (view s)) (hrep : op.Representable)
    (h : Returns (evaluate ctx calculateFee op) s r s') : Sound (view s') := by
  cases op with
  | create op =>
    obtain ⟨_, -, h⟩ := h.of_lift
    obtain ⟨_, s2, s3, hevaluate, hview, happly, hview'⟩ :=
      accepted (fun _ _ h => (create_evaluated h).1) h
    obtain ⟨-, a, ha, hfree, hzero⟩ := create_evaluated hevaluate
    obtain ⟨id, b, -, hb, hmoved⟩ := create_applied happly
    rw [hview] at hb hmoved
    cases hb.symm.trans ha
    rw [hview', hmoved]
    exact hsound.create id ha hfree hzero
  | delete op =>
    obtain ⟨_, -, h⟩ := h.of_lift
    obtain ⟨p, s2, s3, hevaluate, hview, happly, hview'⟩ :=
      accepted (fun _ _ h => (delete_evaluated h).1) h
    obtain ⟨-, hp, -⟩ := delete_evaluated hevaluate
    obtain ⟨a, ha, hmoved⟩ := delete_applied happly
    rw [hview] at ha hmoved
    rw [hview', hmoved]
    exact hsound.delete hp ha
  | deposit op =>
    obtain ⟨_, hvalid, h⟩ := h.of_lift
    obtain ⟨p, a, d, hp, ha, hd, hA, hB, hmoved, -⟩ := deposit_accepted h
    obtain ⟨hsupply, -, hpool⟩ := deposit_sound hvalid hrep (hsound.share hp ha).2
      (hsound.supply _ a ha) hd hA hB
    rw [hmoved]
    exact hsound.move hp ha ⟨hsupply.1.le, hsupply.2⟩ hpool
  | withdraw op =>
    obtain ⟨_, hvalid, h⟩ := h.of_lift
    obtain ⟨p, a, w, hp, ha, -, hA, hB, hle, hw, hmoved, -⟩ := withdraw_accepted h
    obtain ⟨hnonneg, hsupply, hpool⟩ := withdraw_sound hvalid (hsound.share hp ha).2
      (hsound.supply _ a ha) hA hB hle hw
    rw [hmoved]
    exact hsound.move hp ha ⟨hnonneg, hsupply⟩ hpool
  | exchange op =>
    obtain ⟨_, hvalid, h⟩ := h.of_lift
    obtain ⟨p, a, x, b, hp, ha, hA, hB, hx, rfl, hA63, hB63, hmoved⟩ := exchange_accepted h
    have hpool := (hsound.share hp ha).2
    rw [hmoved]
    refine hsound.move hp ha ?_ ?_
    · rw [Int.add_zero]
      exact ⟨(hsound.supply _ a ha).1, (hsound.supply _ a ha).2.1⟩
    · rw [Int.add_zero]
      exact (exchange_sound hpool hA hB hx ⟨hA63, hB63⟩).1
  | issue op =>
    obtain ⟨_, hvalid, h⟩ := h.of_lift
    obtain ⟨_, s2, s3, hevaluate, hview, happly, hview'⟩ :=
      accepted (fun _ _ h => (issue_evaluated h).1) h
    obtain ⟨-, a, ha, hfree, hle⟩ := issue_evaluated hevaluate
    obtain ⟨b, hb, hmoved⟩ := issue_applied happly
    rw [hview] at hb hmoved
    cases hb.symm.trans ha
    obtain ⟨-, hvalid⟩ := of_fcAssert hvalid
    obtain ⟨-, hvalid⟩ := of_fcAssert hvalid
    obtain ⟨hpos, -⟩ := of_fcAssert hvalid
    rw [hview', hmoved]
    have := (hsound.supply _ a ha).1
    exact hsound.setSupply ha ⟨by omega, hle⟩ fun hne => absurd hfree hne
  | reserve op =>
    obtain ⟨_, hvalid, h⟩ := h.of_lift
    obtain ⟨_, s2, s3, hevaluate, hview, happly, hview'⟩ :=
      accepted (fun _ _ h => (reserve_evaluated h).1) h
    obtain ⟨-, a, ha, hle, hlt⟩ := reserve_evaluated hevaluate
    obtain ⟨b, hb, hmoved⟩ := reserve_applied happly
    rw [hview] at hb hmoved
    cases hb.symm.trans ha
    obtain ⟨-, hvalid⟩ := of_fcAssert hvalid
    obtain ⟨-, hvalid⟩ := of_fcAssert hvalid
    have hpos := fcAssert_eq_ok.mp hvalid
    rw [hview', hmoved]
    have := hsound.supply _ a ha
    exact hsound.setSupply ha ⟨by omega, by omega⟩ fun hne => by
      have := hlt hne
      omega

end Meta1Core.Pools

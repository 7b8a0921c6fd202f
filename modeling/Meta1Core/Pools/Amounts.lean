import Meta1Core.Pools.Evaluators

/-!
# The amounts of pool operations

For a pool that holds something of both assets, each of the 128-bit computations is exact: no
product wraps, no assertion labelled "Internal error" fails, and every result fits into 63 bits.
-/

namespace Meta1Core.Pools

open Protocol Ledger

/-! ## 128-bit arithmetic without wrap -/

theorem mul128_of_lt {a b : Nat} (h : a * b < 2 ^ 128) : mul128 a b = a * b := by
  unfold mul128
  rw [← Int.natCast_mul]
  exact uint128_natCast h

theorem mul128_le (a b : Nat) : mul128 a b ≤ a * b := by
  have hle : (a * b) % 2 ^ 128 ≤ a * b := Nat.mod_le _ _
  unfold mul128 uint128
  rw [← Int.natCast_mul]
  omega

theorem div128_of_pos {n d : Nat} (hd : 0 < d) : div128 n d = .ok (n / d) := by
  rw [div128, if_neg (Nat.pos_iff_ne_zero.mp hd)]

theorem divRoundUp128_of_lt {n d : Nat} (hd : 0 < d) (h : n + d < 2 ^ 128) :
    divRoundUp128 n d = .ok ((n + d - 1) / d) := by
  have hsum : ((n : Int) + d - 1) = ((n + d - 1 : Nat) : Int) := by omega
  rw [divRoundUp128, div128_of_pos hd, hsum, uint128_natCast (by omega)]

theorem mul_lt_of_lt {a b : Nat} (ha : a < 2 ^ 63) (hb : b < 2 ^ 63) : a * b < 2 ^ 126 := by
  calc a * b < 2 ^ 63 * 2 ^ 63 := Nat.mul_lt_mul'' ha hb
    _ = 2 ^ 126 := by norm_num

structure RoundedUp (n d q : Nat) : Prop where
  le : n ≤ q * d
  lt : q * d < n + d

theorem roundedUp_div (n : Nat) {d : Nat} (hd : 0 < d) : RoundedUp n d ((n + d - 1) / d) := by
  have hlow := Nat.div_mul_le_self (n + d - 1) d
  have hhigh := Nat.lt_div_mul_add (a := n + d - 1) hd
  exact ⟨by omega, by omega⟩

namespace RoundedUp

variable {n d q k : Nat}

theorem le_of_le_mul (h : RoundedUp n d q) (hk : n ≤ k * d) : q ≤ k := by
  by_contra hlt
  have hmul : (k + 1) * d ≤ q * d := Nat.mul_le_mul_right d (by omega)
  rw [Nat.add_mul] at hmul
  have := h.lt
  omega

theorem pos (h : RoundedUp n d q) (hn : 0 < n) : 0 < q := by
  by_contra hq
  have hle := h.le
  rw [Nat.eq_zero_of_not_pos hq, Nat.zero_mul] at hle
  omega

end RoundedUp

structure DepositSpec (balanceA balanceB supply maxSupply amountA amountB : Nat)
    (m : DepositAmounts) : Prop where
  pos : 0 < m.newSupply
  newSupply_le : supply + m.newSupply ≤ maxSupply
  roundedUpA : RoundedUp (m.newSupply * balanceA) supply m.a128
  roundedUpB : RoundedUp (m.newSupply * balanceB) supply m.b128
  a128_le : m.a128 ≤ amountA
  b128_le : m.b128 ≤ amountB

theorem min_mul_le {supply amount balance cap other : Nat} :
    Min.min (Min.min (mul128 supply amount / balance) other) cap * balance ≤ amount * supply := by
  calc Min.min (Min.min (mul128 supply amount / balance) other) cap * balance
      ≤ mul128 supply amount / balance * balance := Nat.mul_le_mul_right _ (by omega)
    _ ≤ mul128 supply amount := Nat.div_mul_le_self _ _
    _ ≤ amount * supply := by
      rw [Nat.mul_comm amount]
      exact mul128_le _ _

theorem depositAmounts_spec {p : LiquidityPool} {balanceA balanceB supply maxSupply amountA
    amountB : Nat} (hA : p.balanceA = balanceA) (hB : p.balanceB = balanceB)
    (hApos : 0 < balanceA) (hBpos : 0 < balanceB) (hA63 : balanceA < 2 ^ 63)
    (hB63 : balanceB < 2 ^ 63) (hsupply : 0 < supply) (hmax : supply ≤ maxSupply)
    (hmax63 : maxSupply < 2 ^ 63) (haA : amountA < 2 ^ 63) (haB : amountB < 2 ^ 63) :
    depositAmounts p supply maxSupply amountA amountB = .error (.fc "Aborting due to zero outcome") ∨
      ∃ m, depositAmounts p supply maxSupply amountA amountB = .ok m ∧
        DepositSpec balanceA balanceB supply maxSupply amountA amountB m := by
  have hsub : safe ((maxSupply : Int) - supply) = .ok ((maxSupply - supply : Nat) : Int) := by
    rw [safe, if_pos (by omega)]
    congr 1
    omega
  unfold depositAmounts
  rw [hA, hB, hsub]
  simp only [uint128_natCast (show balanceA < 2 ^ 128 by omega),
    uint128_natCast (show balanceB < 2 ^ 128 by omega),
    uint128_natCast (show supply < 2 ^ 128 by omega),
    uint128_natCast (show amountA < 2 ^ 128 by omega),
    uint128_natCast (show amountB < 2 ^ 128 by omega), div128_of_pos hApos, div128_of_pos hBpos,
    uint128_natCast (show maxSupply - supply < 2 ^ 128 by omega), bind, Except.bind]
  set newSupply := Min.min (Min.min (mul128 supply amountA / balanceA)
    (mul128 supply amountB / balanceB)) (maxSupply - supply) with hnew
  by_cases hpos : 0 < newSupply
  · right
    have hcap : newSupply ≤ maxSupply - supply := by omega
    have h63 : newSupply < 2 ^ 63 := by omega
    have hmulA : newSupply * balanceA ≤ amountA * supply := min_mul_le
    have hmulB : newSupply * balanceB ≤ amountB * supply := by
      rw [hnew, Nat.min_comm (mul128 supply amountA / balanceA)]
      exact min_mul_le
    have hltA := mul_lt_of_lt h63 hA63
    have hltB := mul_lt_of_lt h63 hB63
    have hupA := roundedUp_div (newSupply * balanceA) hsupply
    have hupB := roundedUp_div (newSupply * balanceB) hsupply
    have hleA := hupA.le_of_le_mul hmulA
    have hleB := hupB.le_of_le_mul hmulB
    rw [mul128_of_lt (by omega), mul128_of_lt (by omega),
      divRoundUp128_of_lt hsupply (by omega), divRoundUp128_of_lt hsupply (by omega)]
    refine ⟨⟨newSupply, _, _⟩, ?_, ⟨hpos, by dsimp only; omega, hupA, hupB, hleA, hleB⟩⟩
    simp [fcAssert, hpos, hleA, hleB]
    rfl
  · left
    simp [fcAssert, hpos]

structure WithdrawSpec (share balance supply : Nat) (w : WithdrawAmount) : Prop where
  sum_le : (w.pays + w.fee) * supply ≤ share * balance
  sum_lt : w.pays + w.fee < balance

theorem withdrawAmount_spec {share balance supply : Nat} (feePercent : Nat) (hshare : share < supply)
    (hbalance : 0 < balance) (hb63 : balance < 2 ^ 63) (hs63 : supply < 2 ^ 63) :
    withdrawAmount share balance supply feePercent =
        .error (.fc "Withdrawal fee percent of the pool is too high") ∨
      ∃ w, withdrawAmount share balance supply feePercent = .ok w ∧
        WithdrawSpec share balance supply w := by
  have hprod := mul_lt_of_lt (show share < 2 ^ 63 by omega) hb63
  have hmul : share * balance / supply * supply ≤ share * balance := Nat.div_mul_le_self _ _
  have hlt : share * balance / supply < balance := by
    rw [Nat.div_lt_iff_lt_mul (by omega), Nat.mul_comm balance]
    exact Nat.mul_lt_mul_of_pos_right hshare hbalance
  unfold withdrawAmount
  simp only [uint128_natCast (show balance < 2 ^ 128 by omega),
    uint128_natCast (show supply < 2 ^ 128 by omega),
    uint128_natCast (show share < 2 ^ 128 by omega), mul128_of_lt (show share * balance < 2 ^ 128 by omega),
    div128_of_pos (show 0 < supply by omega), bind, Except.bind, fcAssert, if_pos hlt]
  set part := share * balance / supply
  by_cases hfee : mul128 part feePercent / percent100 ≤ part
  · right
    refine ⟨_, by rw [if_pos hfee]; rfl, ?_, ?_⟩
    · change (part - mul128 part feePercent / percent100 +
        mul128 part feePercent / percent100) * supply ≤ share * balance
      rw [Nat.sub_add_cancel hfee]
      exact hmul
    · change part - mul128 part feePercent / percent100 +
        mul128 part feePercent / percent100 < balance
      rw [Nat.sub_add_cancel hfee]
      exact hlt
  · left
    rw [if_neg hfee]

structure ExchangeSpec (virtualValue newBalance pays : Nat) (x : ExchangeAmount) : Prop where
  fee_le : x.poolTakerFee ≤ x.delta
  delta_lt : x.delta < pays
  product : virtualValue ≤ newBalance * (pays - x.delta)

theorem exchangeAmount_spec {receives newBalance pays : Nat} (feePercent : Nat)
    (hreceives : 0 < receives) (hpays : 0 < pays) (hnew : receives ≤ newBalance)
    (hr63 : newBalance < 2 ^ 63) (hp63 : pays < 2 ^ 63) :
    exchangeAmount (receives * pays) newBalance pays feePercent =
        .error (.fc "Taker fee percent of the pool is too high") ∨
      ∃ x, exchangeAmount (receives * pays) newBalance pays feePercent = .ok x ∧
        ExchangeSpec (receives * pays) newBalance pays x := by
  have hprod := mul_lt_of_lt (show receives < 2 ^ 63 by omega) hp63
  have hup := roundedUp_div (receives * pays) (show 0 < newBalance by omega)
  unfold exchangeAmount
  simp only [uint128_natCast (show newBalance < 2 ^ 128 by omega),
    uint128_natCast (show pays < 2 ^ 128 by omega),
    divRoundUp128_of_lt (show 0 < newBalance by omega)
      (show receives * pays + newBalance < 2 ^ 128 by omega), bind, Except.bind, fcAssert]
  set newPays := (receives * pays + newBalance - 1) / newBalance
  have hle : newPays ≤ pays := hup.le_of_le_mul (by
    rw [Nat.mul_comm pays]
    exact Nat.mul_le_mul_right _ hnew)
  have hpos : 0 < newPays := hup.pos (Nat.mul_pos hreceives hpays)
  have hdelta : uint128 ((pays : Int) - newPays) = pays - newPays := by
    rw [show (pays : Int) - newPays = ((pays - newPays : Nat) : Int) by omega]
    exact uint128_natCast (by omega)
  rw [if_pos (by exact_mod_cast hle), hdelta]
  by_cases hfee : mul128 (pays - newPays) feePercent / percent100 ≤ pays - newPays
  · right
    refine ⟨_, by simp only [if_pos hfee]; rfl, hfee, by dsimp only; omega, ?_⟩
    dsimp only
    rw [Nat.sub_sub_self hle, Nat.mul_comm newBalance]
    exact hup.le
  · left
    simp only [if_neg hfee]

end Meta1Core.Pools

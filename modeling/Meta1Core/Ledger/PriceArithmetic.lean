import Meta1Core.Ledger.MedianFeed
import Meta1Core.Lib.Rounding

/-!
# The arithmetic of prices (`asset.cpp`)

Prices are compared, and amounts are converted, through products in `uint128_t`.  The rest of the
development converts amounts with `Asset.mul` and `Asset.multiplyAndRoundUp`, over the integers;
`assetMul_iff_mul` and `multiplyAndRoundUp_iff` say that these return the same amounts.
-/

namespace Meta1Core.Ledger

open Lib Protocol

def mul128 (a b : Int) : Nat := uint128 a * uint128 b % 2 ^ 128

theorem mul128_eq {a b : Int} (ha : 0 ≤ a) (ha' : a < 2 ^ 63) (hb : 0 ≤ b) (hb' : b < 2 ^ 63) :
    (mul128 a b : Int) = a * b := by
  have hprod : a * b < 2 ^ 63 * 2 ^ 63 := mul_lt_mul'' ha' hb' ha hb
  unfold mul128
  rw [Int.natCast_emod, Int.natCast_mul, uint128_of_nonneg ha (by omega),
    uint128_of_nonneg hb (by omega)]
  apply Int.emod_eq_of_lt (mul_nonneg ha hb)
  omega

def priceEq (a b : Price) : Bool :=
  if (a.base.assetId, a.quote.assetId) ≠ (b.base.assetId, b.quote.assetId) then false
  else
    let amult := mul128 b.quote.amount a.base.amount
    let bmult := mul128 a.quote.amount b.base.amount
    amult = bmult

def priceLt (a b : Price) : Bool :=
  if a.base.assetId < b.base.assetId then true
  else if b.base.assetId < a.base.assetId then false
  else if a.quote.assetId < b.quote.assetId then true
  else if b.quote.assetId < a.quote.assetId then false
  else
    let amult := mul128 b.quote.amount a.base.amount
    let bmult := mul128 a.quote.amount b.base.amount
    amult < bmult

/-- The end of either conversion: a `uint128_t` becomes an amount. -/
def assetOf128 (result : Nat) (id : AssetId) : Except Exception Asset := do
  fcAssert ((result : Int) ≤ maxShareSupply) "result <= GRAPHENE_MAX_SHARE_SUPPLY"
  return ⟨int64Cast result, id⟩

def assetMul (a : Asset) (b : Price) : Except Exception Asset :=
  if a.assetId = b.base.assetId then do
    fcAssert (0 < b.base.amount) "b.base.amount.value > 0"
    let result := mul128 a.amount b.quote.amount / uint128 b.base.amount
    assetOf128 result b.quote.assetId
  else if a.assetId = b.quote.assetId then do
    fcAssert (0 < b.quote.amount) "b.quote.amount.value > 0"
    let result := mul128 a.amount b.base.amount / uint128 b.quote.amount
    assetOf128 result b.base.assetId
  else .error (.fc "invalid asset * price")

def addLess128 (a : Nat) (b : Int) : Nat := (a + uint128 b + (2 ^ 128 - 1)) % 2 ^ 128

def multiplyAndRoundUp (a : Asset) (b : Price) : Except Exception Asset :=
  if a.assetId = b.base.assetId then do
    fcAssert (0 < b.base.amount) "b.base.amount.value > 0"
    let result :=
      addLess128 (mul128 a.amount b.quote.amount) b.base.amount / uint128 b.base.amount
    assetOf128 result b.quote.assetId
  else if a.assetId = b.quote.assetId then do
    fcAssert (0 < b.quote.amount) "b.quote.amount.value > 0"
    let result :=
      addLess128 (mul128 a.amount b.base.amount) b.quote.amount / uint128 b.quote.amount
    assetOf128 result b.base.assetId
  else .error (.fc "invalid asset::multiply_and_round_up(price)")

structure Amount63 (a : Asset) : Prop where
  nonneg : 0 ≤ a.amount
  lt : a.amount < 2 ^ 63

structure PositivePrice (p : Price) : Prop where
  base_pos : 0 < p.base.amount
  base_lt : p.base.amount < 2 ^ 63
  quote_pos : 0 < p.quote.amount
  quote_lt : p.quote.amount < 2 ^ 63

structure ValidPrice (p : Price) : Prop extends PositivePrice p where
  assets_ne : p.base.assetId ≠ p.quote.assetId

theorem validPrice_iff {p : Price} (h : Int64Price p) :
    ValidPrice p ↔ p.validate = .ok () := by
  unfold Price.validate
  rw [fcAssert_bind_eq_ok, fcAssert_bind_eq_ok, fcAssert_eq_ok]
  constructor
  · intro hp
    exact ⟨hp.base_pos, hp.quote_pos, hp.assets_ne⟩
  · intro ⟨hbase, hquote, hne⟩
    exact { base_pos := hbase, base_lt := h.base_lt, quote_pos := hquote, quote_lt := h.quote_lt,
            assets_ne := hne }

namespace PositivePrice

variable {p : Price}

theorem inv (h : PositivePrice p) : PositivePrice p.inv where
  base_pos := h.quote_pos
  base_lt := h.quote_lt
  quote_pos := h.base_pos
  quote_lt := h.base_lt

theorem amount63_quote (h : PositivePrice p) : Amount63 p.quote := ⟨h.quote_pos.le, h.quote_lt⟩

end PositivePrice

theorem ValidPrice.inv {p : Price} (h : ValidPrice p) : ValidPrice p.inv where
  toPositivePrice := h.toPositivePrice.inv
  assets_ne := h.assets_ne.symm

theorem assetOf128_eq_ok {result : Nat} {id : AssetId} {r : Asset} :
    assetOf128 result id = .ok r ↔ (result : Int) ≤ maxShareSupply ∧ r = ⟨result, id⟩ := by
  unfold assetOf128
  rw [fcAssert_bind_eq_ok]
  apply and_congr_right
  intro hle
  have hcast : int64Cast result = result := by
    apply int64Cast_of_lt
    unfold maxShareSupply at hle
    omega
  rw [hcast]
  exact ⟨fun h => (Except.ok.inj h).symm, fun h => congrArg Except.ok h.symm⟩

section

variable {a b : Asset} {d : Int}

theorem mul128_div_eq (ha : Amount63 a) (hb : Amount63 b) (hd : 0 ≤ d) (hd' : d < 2 ^ 63) :
    ((mul128 a.amount b.amount / uint128 d : Nat) : Int) = a.amount * b.amount / d := by
  rw [Int.natCast_ediv, mul128_eq ha.nonneg ha.lt hb.nonneg hb.lt, uint128_of_nonneg hd (by omega)]

theorem addLess128_div_eq (ha : Amount63 a) (hb : Amount63 b) (hd : 0 < d) (hd' : d < 2 ^ 63) :
    ((addLess128 (mul128 a.amount b.amount) d / uint128 d : Nat) : Int) =
      Lib.ceilDiv (a.amount * b.amount) d := by
  have hmul := mul128_eq ha.nonneg ha.lt hb.nonneg hb.lt
  have hprod : a.amount * b.amount < 2 ^ 63 * 2 ^ 63 :=
    mul_lt_mul'' ha.lt hb.lt ha.nonneg hb.nonneg
  have hdiv := uint128_of_nonneg hd.le (by omega)
  have hsum : (addLess128 (mul128 a.amount b.amount) d : Int) = a.amount * b.amount + (d - 1) := by
    unfold addLess128
    omega
  rw [Int.natCast_ediv, hsum, hdiv, Lib.ceilDiv]

end

section

variable {a r : Asset} {p : Price}

theorem assetMul_inv (hp : ValidPrice p) (a : Asset) : assetMul a p.inv = assetMul a p := by
  unfold assetMul fcAssert Price.inv
  by_cases hbase : a.assetId = p.base.assetId
  · have hquote : a.assetId ≠ p.quote.assetId := fun h => hp.assets_ne (hbase.symm.trans h)
    simp [hbase, hp.assets_ne, hp.base_pos]
  · by_cases hquote : a.assetId = p.quote.assetId
    · simp [hquote, hp.assets_ne.symm, hp.quote_pos]
    · simp [hbase, hquote]

theorem multiplyAndRoundUp_inv (hp : ValidPrice p) (a : Asset) :
    multiplyAndRoundUp a p.inv = multiplyAndRoundUp a p := by
  unfold multiplyAndRoundUp fcAssert Price.inv
  by_cases hbase : a.assetId = p.base.assetId
  · simp [hbase, hp.assets_ne, hp.base_pos]
  · by_cases hquote : a.assetId = p.quote.assetId
    · simp [hquote, hp.assets_ne.symm, hp.quote_pos]
    · simp [hbase, hquote]

theorem assetMul_eq_ok (ha : Amount63 a) (hp : PositivePrice p)
    (hid : a.assetId = p.base.assetId) :
    assetMul a p = .ok r ↔ a.amount * p.quote.amount / p.base.amount ≤ maxShareSupply ∧
      r = ⟨a.amount * p.quote.amount / p.base.amount, p.quote.assetId⟩ := by
  rw [assetMul, if_pos hid, fcAssert_bind_eq_ok, and_iff_right hp.base_pos, assetOf128_eq_ok,
    mul128_div_eq ha hp.amount63_quote hp.base_pos.le hp.base_lt]

theorem multiplyAndRoundUp_eq_ok (ha : Amount63 a) (hp : PositivePrice p)
    (hid : a.assetId = p.base.assetId) :
    multiplyAndRoundUp a p = .ok r ↔
      Lib.ceilDiv (a.amount * p.quote.amount) p.base.amount ≤ maxShareSupply ∧
      r = ⟨Lib.ceilDiv (a.amount * p.quote.amount) p.base.amount, p.quote.assetId⟩ := by
  rw [multiplyAndRoundUp, if_pos hid, fcAssert_bind_eq_ok, and_iff_right hp.base_pos,
    assetOf128_eq_ok, addLess128_div_eq ha hp.amount63_quote hp.base_pos hp.base_lt]

theorem assetMul_iff_mul (ha : Amount63 a) (hp : ValidPrice p) :
    assetMul a p = .ok r ↔ a.mul p = .ok r := by
  by_cases hbase : a.assetId = p.base.assetId
  · have hnonneg : 0 ≤ a.amount * p.quote.amount := mul_nonneg ha.nonneg hp.quote_pos.le
    rw [assetMul_eq_ok ha hp.toPositivePrice hbase, Asset.mul_base_eq_ok hbase,
      and_iff_right hp.base_pos, and_iff_right hnonneg]
  · by_cases hquote : a.assetId = p.quote.assetId
    · have hnonneg : 0 ≤ a.amount * p.base.amount := mul_nonneg ha.nonneg hp.base_pos.le
      rw [← assetMul_inv hp, assetMul_eq_ok ha hp.inv.toPositivePrice hquote, Asset.mul,
        if_neg hbase, if_pos hquote, Asset.scale_eq_ok, add_zero, and_iff_right hp.quote_pos,
        and_iff_right hnonneg]
      rfl
    · unfold assetMul Asset.mul
      simp [hbase, hquote]

theorem multiplyAndRoundUp_iff (ha : Amount63 a) (hp : ValidPrice p) :
    multiplyAndRoundUp a p = .ok r ↔ a.multiplyAndRoundUp p = .ok r := by
  by_cases hbase : a.assetId = p.base.assetId
  · have hnonneg : 0 ≤ a.amount * p.quote.amount := mul_nonneg ha.nonneg hp.quote_pos.le
    have hslack : 0 ≤ a.amount * p.quote.amount + (p.base.amount - 1) :=
      add_nonneg hnonneg (Int.sub_nonneg_of_le hp.base_pos)
    rw [multiplyAndRoundUp_eq_ok ha hp.toPositivePrice hbase, Asset.multiplyAndRoundUp,
      if_pos hbase, Asset.scale_eq_ok, and_iff_right hp.base_pos, and_iff_right hslack]
    rfl
  · by_cases hquote : a.assetId = p.quote.assetId
    · have hnonneg : 0 ≤ a.amount * p.base.amount := mul_nonneg ha.nonneg hp.base_pos.le
      have hslack : 0 ≤ a.amount * p.base.amount + (p.quote.amount - 1) :=
        add_nonneg hnonneg (Int.sub_nonneg_of_le hp.quote_pos)
      rw [← multiplyAndRoundUp_inv hp, multiplyAndRoundUp_eq_ok ha hp.inv.toPositivePrice hquote,
        Asset.multiplyAndRoundUp, if_neg hbase, if_pos hquote, Asset.scale_eq_ok,
        and_iff_right hp.quote_pos, and_iff_right hslack]
      rfl
    · unfold multiplyAndRoundUp Asset.multiplyAndRoundUp
      simp [hbase, hquote]

end

section

variable {a b a' : Asset} {p : Price}

theorem amount63_of_le {v : Int} (id : AssetId) (h0 : 0 ≤ v) (h : v ≤ maxShareSupply) :
    Amount63 ⟨v, id⟩ where
  nonneg := h0
  lt := by
    unfold maxShareSupply at h
    show v < 2 ^ 63
    omega

section

variable (ha : Amount63 a) (hp : ValidPrice p) (hid : a.assetId = p.base.assetId)

include ha hp hid

theorem roundsTo_of_base (hb : assetMul a p = .ok b) (ha' : multiplyAndRoundUp b p = .ok a') :
    RoundsTo p.quote.amount p.base.amount a.amount b.amount a'.amount ∧
      b.assetId = p.quote.assetId ∧ a'.assetId = p.base.assetId ∧
      b.amount ≤ maxShareSupply := by
  obtain ⟨hmax, rfl⟩ := (assetMul_eq_ok ha hp.toPositivePrice hid).mp hb
  have hnonneg : 0 ≤ a.amount * p.quote.amount / p.base.amount :=
    Int.ediv_nonneg (mul_nonneg ha.nonneg hp.quote_pos.le) hp.base_pos.le
  have hvalue := amount63_of_le p.quote.assetId hnonneg hmax
  rw [← multiplyAndRoundUp_inv hp,
    multiplyAndRoundUp_eq_ok hvalue hp.inv.toPositivePrice rfl] at ha'
  obtain ⟨-, rfl⟩ := ha'
  exact ⟨⟨rfl, rfl⟩, rfl, rfl, hmax⟩

theorem stabilizes_of_base (hb : assetMul a p = .ok b) (ha' : multiplyAndRoundUp b p = .ok a') :
    a'.le a = .ok true ∧ assetMul a' p = .ok b := by
  obtain ⟨hrounds, hbid, haid', hmax⟩ := roundsTo_of_base ha hp hid hb ha'
  have hle : a'.amount ≤ a.amount := hrounds.le hp.quote_pos hp.base_pos
  have hvalue := hrounds.least_value hp.quote_pos hp.base_pos
  have hback : Amount63 a' := by
    refine ⟨?_, lt_of_le_of_lt hle ha.lt⟩
    rw [← hrounds.least, ← hrounds.value]
    apply ceilDiv_nonneg _ hp.quote_pos
    apply mul_nonneg _ hp.base_pos.le
    exact Int.ediv_nonneg (mul_nonneg ha.nonneg hp.quote_pos.le) hp.base_pos.le
  constructor
  · rw [Asset.le_eq (haid'.trans hid.symm), decide_eq_true hle]
  · rw [assetMul_eq_ok hback hp.toPositivePrice haid', hvalue]
    refine ⟨hmax, ?_⟩
    cases b
    cases hbid
    rfl

theorem returns_of_base (hb : assetMul a p = .ok b) (hmax : a.amount ≤ maxShareSupply) :
    ∃ a', multiplyAndRoundUp b p = .ok a' := by
  obtain ⟨hfits, rfl⟩ := (assetMul_eq_ok ha hp.toPositivePrice hid).mp hb
  have hnonneg : 0 ≤ a.amount * p.quote.amount / p.base.amount :=
    Int.ediv_nonneg (mul_nonneg ha.nonneg hp.quote_pos.le) hp.base_pos.le
  have hvalue := amount63_of_le p.quote.assetId hnonneg hfits
  have hrounds : RoundsTo p.quote.amount p.base.amount a.amount _ _ := ⟨rfl, rfl⟩
  have hle := hrounds.le hp.quote_pos hp.base_pos
  have hback := (multiplyAndRoundUp_eq_ok hvalue hp.inv.toPositivePrice rfl).mpr
    ⟨hle.trans hmax, rfl⟩
  exact ⟨_, (multiplyAndRoundUp_inv hp _).symm.trans hback⟩

theorem covers_of_base {c d : Asset} (hc : multiplyAndRoundUp a p = .ok c)
    (hd : assetMul c p = .ok d) : a.le d = .ok true := by
  obtain ⟨hmax, rfl⟩ := (multiplyAndRoundUp_eq_ok ha hp.toPositivePrice hid).mp hc
  have hnonneg : 0 ≤ Lib.ceilDiv (a.amount * p.quote.amount) p.base.amount :=
    ceilDiv_nonneg (mul_nonneg ha.nonneg hp.quote_pos.le) hp.base_pos
  have hvalue := amount63_of_le p.quote.assetId hnonneg hmax
  rw [← assetMul_inv hp, assetMul_eq_ok hvalue hp.inv.toPositivePrice rfl] at hd
  obtain ⟨-, rfl⟩ := hd
  have hcovers := le_ceilDiv_value a.amount hp.quote_pos hp.base_pos
  rw [Asset.le_eq]
  · exact congrArg Except.ok (decide_eq_true hcovers)
  · exact hid

end

end

/-- What matching relies on: rounding down and then up the way back comes to an amount that is worth
the same, and rounding up loses nothing. -/
structure Stabilizes (p : Price) (a : Asset) : Prop where
  returns : ∀ b, assetMul a p = .ok b → a.amount ≤ maxShareSupply →
    ∃ a', multiplyAndRoundUp b p = .ok a'
  back : ∀ b a', assetMul a p = .ok b → multiplyAndRoundUp b p = .ok a' →
    a'.le a = .ok true ∧ assetMul a' p = .ok b
  covers : ∀ c d, multiplyAndRoundUp a p = .ok c → assetMul c p = .ok d → a.le d = .ok true

namespace Stabilizes

variable {a : Asset} {p : Price}

theorem of_base (ha : Amount63 a) (hp : ValidPrice p) (hid : a.assetId = p.base.assetId) :
    Stabilizes p a where
  returns _ hb := returns_of_base ha hp hid hb
  back _ _ hb ha' := stabilizes_of_base ha hp hid hb ha'
  covers _ _ hc hd := covers_of_base ha hp hid hc hd

theorem of_inv (hp : ValidPrice p) (h : Stabilizes p.inv a) : Stabilizes p a where
  returns b hb := by
    rw [← assetMul_inv hp] at hb
    rw [← multiplyAndRoundUp_inv hp]
    exact h.returns b hb
  back b a' hb ha' := by
    rw [← assetMul_inv hp] at hb ⊢
    rw [← multiplyAndRoundUp_inv hp] at ha'
    exact h.back b a' hb ha'
  covers c d hc hd := by
    rw [← multiplyAndRoundUp_inv hp] at hc
    rw [← assetMul_inv hp] at hd
    exact h.covers c d hc hd

theorem of_valid (ha : Amount63 a) (hp : ValidPrice p) : Stabilizes p a := by
  by_cases hbase : a.assetId = p.base.assetId
  · exact of_base ha hp hbase
  · by_cases hquote : a.assetId = p.quote.assetId
    · exact of_inv hp (of_base ha hp.inv hquote)
    · -- an amount of a third asset is not converted at all
      have hmul (b : Asset) : assetMul a p ≠ .ok b := by
        rw [assetMul, if_neg hbase, if_neg hquote]
        exact fun h => nomatch h
      have hround (c : Asset) : multiplyAndRoundUp a p ≠ .ok c := by
        rw [multiplyAndRoundUp, if_neg hbase, if_neg hquote]
        exact fun h => nomatch h
      exact ⟨fun b hb => absurd hb (hmul b), fun b _ hb => absurd hb (hmul b),
        fun c _ hc => absurd hc (hround c)⟩

end Stabilizes

section

variable {a b : Price}

theorem cross_eq (ha : PositivePrice a) (hb : PositivePrice b) :
    (mul128 b.quote.amount a.base.amount : Int) = b.quote.amount * a.base.amount :=
  mul128_eq hb.quote_pos.le hb.quote_lt ha.base_pos.le ha.base_lt

theorem priceLt_iff (ha : PositivePrice a) (hb : PositivePrice b) :
    priceLt a b = true ↔ Price.lt a b := by
  have hleft := cross_eq ha hb
  have hright := cross_eq hb ha
  unfold priceLt Price.lt
  rw [← hleft, ← hright, Int.ofNat_lt]
  by_cases hbase : a.base.assetId = b.base.assetId
  · by_cases hquote : a.quote.assetId = b.quote.assetId
    · simp [hbase, hquote]
    · rcases lt_or_gt_of_ne hquote with hlt | hgt
      · simp [hbase, hlt]
      · simp [hbase, hquote, hgt, hgt.not_gt]
  · rcases lt_or_gt_of_ne hbase with hlt | hgt
    · simp [hlt]
    · simp [hbase, hgt, hgt.not_gt]

theorem priceEq_iff (ha : PositivePrice a) (hb : PositivePrice b) :
    priceEq a b = true ↔ Price.same a b := by
  have hleft := cross_eq ha hb
  have hright := cross_eq hb ha
  unfold priceEq Price.same
  rw [← hleft, ← hright, Int.natCast_inj]
  by_cases hbase : a.base.assetId = b.base.assetId
  · by_cases hquote : a.quote.assetId = b.quote.assetId
    · simp [hbase, hquote]
    · simp [hquote]
  · simp [hbase]

theorem comparable_of_valid (h : ValidPrice a) : Comparable a :=
  .valid ((validPrice_iff ⟨h.base_lt, h.quote_lt⟩).mp h)

theorem priceLt_iff_key (ha : ValidPrice a) (hb : ValidPrice b) :
    priceLt a b = true ↔ priceKey a < priceKey b := by
  rw [priceLt_iff ha.toPositivePrice hb.toPositivePrice]
  exact lt_iff_priceKey (comparable_of_valid ha) (comparable_of_valid hb)

theorem priceEq_iff_key (ha : ValidPrice a) (hb : ValidPrice b) :
    priceEq a b = true ↔ priceKey a = priceKey b := by
  have haq : (a.quote.amount : ℚ) ≠ 0 := by exact_mod_cast ha.quote_pos.ne'
  have hbq : (b.quote.amount : ℚ) ≠ 0 := by exact_mod_cast hb.quote_pos.ne'
  have hvalue : a.value = b.value ↔
      b.quote.amount * a.base.amount = a.quote.amount * b.base.amount := by
    rw [Price.value, Price.value, div_eq_div_iff haq hbq, mul_comm, mul_comm (b.base.amount : ℚ)]
    exact_mod_cast Iff.rfl
  rw [priceEq_iff ha.toPositivePrice hb.toPositivePrice, Price.same, ← hvalue]
  unfold priceKey
  rw [EmbeddingLike.apply_eq_iff_eq, Prod.mk.injEq, EmbeddingLike.apply_eq_iff_eq, Prod.mk.injEq]

theorem priceEq_iff_incomparable (ha : ValidPrice a) (hb : ValidPrice b) :
    priceEq a b = true ↔ ¬priceLt a b = true ∧ ¬priceLt b a = true := by
  rw [priceEq_iff_key ha hb, priceLt_iff_key ha hb, priceLt_iff_key hb ha, not_lt, not_lt,
    le_antisymm_iff, and_comm]

theorem priceLt_inv (hbase : a.base.assetId = b.base.assetId)
    (hquote : a.quote.assetId = b.quote.assetId) (ha : PositivePrice a) (hb : PositivePrice b) :
    priceLt b.inv a.inv = priceLt a b := by
  rw [Bool.eq_iff_iff, priceLt_iff hb.inv ha.inv, priceLt_iff ha hb,
    Price.lt_iff hquote.symm hbase.symm, Price.lt_iff hbase hquote, Price.inv, Price.inv,
    mul_comm a.base.amount, mul_comm b.base.amount]

theorem strictWeakOrder_priceLt :
    IsStrictWeakOrder {p : Price // ValidPrice p} fun a b => priceLt a.1 b.1 = true where
  irrefl a := by
    rw [priceLt_iff_key a.2 a.2]
    exact lt_irrefl _
  trans a b c hab hbc := by
    rw [priceLt_iff_key a.2 b.2] at hab
    rw [priceLt_iff_key b.2 c.2] at hbc
    rw [priceLt_iff_key a.2 c.2]
    exact hab.trans hbc
  incomp_trans a b c hab hbc := by
    rw [← priceEq_iff_incomparable a.2 b.2, priceEq_iff_key a.2 b.2] at hab
    rw [← priceEq_iff_incomparable b.2 c.2, priceEq_iff_key b.2 c.2] at hbc
    rw [← priceEq_iff_incomparable a.2 c.2, priceEq_iff_key a.2 c.2]
    exact hab.trans hbc

end

/-- Conversions through a valid price stabilize, and `<` is a strict weak order of the valid prices
whose equivalence is `==` and which `~` turns around. -/
theorem validPrice_arithmetic :
    (∀ (p : Price) (a : Asset), ValidPrice p → Amount63 a → Stabilizes p a) ∧
      (IsStrictWeakOrder {p : Price // ValidPrice p} fun a b => priceLt a.1 b.1 = true) ∧
      (∀ a b : Price, ValidPrice a → ValidPrice b →
        (priceEq a b = true ↔ ¬priceLt a b = true ∧ ¬priceLt b a = true)) ∧
      ∀ a b : Price, ValidPrice a → ValidPrice b → a.base.assetId = b.base.assetId →
        a.quote.assetId = b.quote.assetId → priceLt b.inv a.inv = priceLt a b :=
  ⟨fun _ _ hp ha => .of_valid ha hp, strictWeakOrder_priceLt,
    fun _ _ ha hb => priceEq_iff_incomparable ha hb,
    fun _ _ ha hb hbase hquote => priceLt_inv hbase hquote ha.toPositivePrice hb.toPositivePrice⟩

theorem validPrice_arithmetic_seven :
    assetMul ⟨7, 1⟩ ⟨⟨3, 1⟩, ⟨2, 0⟩⟩ = .ok ⟨4, 0⟩ ∧
      multiplyAndRoundUp ⟨4, 0⟩ ⟨⟨3, 1⟩, ⟨2, 0⟩⟩ = .ok ⟨6, 1⟩ ∧
      assetMul ⟨6, 1⟩ ⟨⟨3, 1⟩, ⟨2, 0⟩⟩ = .ok ⟨4, 0⟩ := by
  have hvalid : ValidPrice ⟨⟨3, 1⟩, ⟨2, 0⟩⟩ := by
    exact { base_pos := by decide, base_lt := by decide, quote_pos := by decide,
            quote_lt := by decide, assets_ne := by decide }
  have hback : multiplyAndRoundUp ⟨4, 0⟩ ⟨⟨3, 1⟩, ⟨2, 0⟩⟩ = .ok ⟨6, 1⟩ := by decide
  have hstable := validPrice_arithmetic.1 ⟨⟨3, 1⟩, ⟨2, 0⟩⟩ ⟨7, 1⟩ hvalid ⟨by decide, by decide⟩
  exact ⟨by decide, hback, (hstable.back ⟨4, 0⟩ ⟨6, 1⟩ (by decide) hback).2⟩

/-- A price between an asset and itself is not the other way around for what comes back. -/
theorem sameAsset_unstable :
    ¬∀ (p : Price) (a : Asset), PositivePrice p → Amount63 a → Stabilizes p a := by
  intro h
  have hpositive : PositivePrice ⟨⟨3, 1⟩, ⟨10, 1⟩⟩ :=
    ⟨by decide, by decide, by decide, by decide⟩
  have hstable := h ⟨⟨3, 1⟩, ⟨10, 1⟩⟩ ⟨3, 1⟩ hpositive ⟨by decide, by decide⟩
  have hback := (hstable.back ⟨10, 1⟩ ⟨34, 1⟩ (by decide) (by decide)).1
  exact absurd hback (by decide)

end Meta1Core.Ledger

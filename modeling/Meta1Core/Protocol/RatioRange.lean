import Mathlib.Tactic.Positivity
import Meta1Core.Protocol.Asset

/-!
# The range of a product with a ratio

The product of a price and a ratio is rounded into the range of prices whose two amounts are at most
`GRAPHENE_MAX_SHARE_SUPPLY`.  The rounding compares two candidates by differences whose products
need not fit into `int128_t`; wherever they do not, either candidate may be taken.
-/

namespace Meta1Core.Protocol

open Lib

/-- `a - b`, with what it is where the products on the way overflow -/
def sub128With (wrapped : Rat → Rat → Rat) (a b : Rat) : Rat :=
  match sub128 a b with
  | .ok d => d
  | .error _ => wrapped a b

namespace Price

/-- Of the two candidates take the one that is closer to the exact product. -/
def refineWith (wrapped : Rat → Rat → Rat) (ocp : Rat) (r : Shrunk) : Rat :=
  let ncp := unitCandidate ocp
  if r.shrinked = false then r.value
  else if ncp.num = maxShareSupply ∨ (ncp.den : Int) = maxShareSupply then ncp
  else if |sub128With wrapped ncp ocp| < |sub128With wrapped r.value ocp| then ncp
  else r.value

def mulRatioWith (wrapped : Rat → Rat → Rat) (p : Price) (num den : Nat) : Except Exception Price := do
  p.validate
  fcAssert (0 < num ∧ 0 < den) "r.numerator() > 0 && r.denominator() > 0"
  if num = den then return p
  let ocp ← rational128 (mkRat p.base.amount p.quote.amount.toNat * mkRat num den)
  let r ← shrink 128 ocp false
  let cp := refineWith wrapped ocp r
  let np ← Asset.div ⟨cp.num, p.base.assetId⟩ ⟨cp.den, p.quote.assetId⟩
  let np :=
    if (r.shrinked ∨ r.usingMax) ∧ (den < num ∧ lt np p ∨ num < den ∧ lt p np) then p else np
  np.validate
  return np

variable {wrapped : Rat → Rat → Rat} {d den fuel num : Nat} {cp ocp : Rat} {p q : Price}

theorem sub128With_eq {a b d : Rat} (h : sub128 a b = .ok d) :
    sub128With wrapped a b = d := by
  unfold sub128With
  rw [h]

theorem refineWith_eq {r : Shrunk} (h : refine ocp r = .ok cp) : refineWith wrapped ocp r = cp := by
  unfold refine at h
  unfold refineWith
  dsimp only
  split at h
  · rename_i hshrinked
    rw [if_pos hshrinked]
    exact Except.ok.inj h
  · rename_i hshrinked
    rw [if_neg hshrinked]
    dsimp only at h
    split at h
    · rename_i hedge
      rw [if_pos hedge]
      exact Except.ok.inj h
    · rename_i hedge
      rw [if_neg hedge]
      obtain ⟨diff1, hdiff1, h⟩ := of_bind h
      obtain ⟨diff2, hdiff2, h⟩ := of_bind h
      rw [sub128With_eq hdiff1, sub128With_eq hdiff2]
      exact Except.ok.inj h

/-! ## Bounds -/

theorem lt_iff {a b : Price} (hbase : a.base.assetId = b.base.assetId)
    (hquote : a.quote.assetId = b.quote.assetId) :
    lt a b ↔ b.quote.amount * a.base.amount < a.quote.amount * b.base.amount := by
  simp [lt, hbase, hquote]

theorem num_mkRat_le {n : Int} (hn : 0 ≤ n) : (mkRat n d).num ≤ n := by
  rw [Rat.num_mkRat]
  split
  · exact hn
  · exact Int.ediv_le_self _ hn

theorem den_mkRat_le {n : Int} (hd : 0 < d) : (mkRat n d).den ≤ d := by
  rw [Rat.den_mkRat, if_neg hd.ne']
  exact Nat.div_le_self ..

theorem num_mkRat_pos {n : Int} (hn : 0 < n) (hd : 0 < d) : 0 < (mkRat n d).num := by
  rw [Rat.num_pos, Rat.mkRat_eq_div]
  exact div_pos (Int.cast_pos.mpr hn) (Nat.cast_pos.mpr hd)

/-- A positive fraction whose sides are at most `GRAPHENE_MAX_SHARE_SUPPLY` -/
structure Fits (q : Rat) : Prop where
  pos : 0 < q.num
  num_le : q.num ≤ maxShareSupply
  den_le : (q.den : Int) ≤ maxShareSupply

theorem fits_mkRat {n : Int} (hn : 0 < n) (hd : 0 < d) (hnum : n ≤ maxShareSupply)
    (hden : (d : Int) ≤ maxShareSupply) : Fits (mkRat n d) :=
  ⟨num_mkRat_pos hn hd, (num_mkRat_le hn.le).trans hnum, (Int.ofNat_le.mpr (den_mkRat_le hd)).trans hden⟩

theorem fits_shrink {shrinked : Bool} {r : Shrunk} (hpos : 0 < cp.num)
    (h : shrink fuel cp shrinked = .ok r) : Fits r.value := by
  induction fuel generalizing cp shrinked with
  | zero => cases h
  | succ fuel ih =>
    unfold shrink at h
    split at h
    · rename_i hfits
      cases h
      exact ⟨hpos, hfits.1, hfits.2⟩
    split at h
    · cases h
      show Fits (mkRat 1 maxShareSupply.toNat)
      apply fits_mkRat <;> decide
    split at h
    · cases h
      show Fits (mkRat maxShareSupply 1)
      apply fits_mkRat <;> decide
    · -- neither side is 1, so neither half is 0
      have hden := cp.den_pos
      exact ih (num_mkRat_pos (by omega) (by omega)) h

theorem fits_unitCandidate (hpos : 0 < ocp.num) : Fits (unitCandidate ocp) := by
  have hmax : 0 < maxShareSupply := by decide
  have hden : (0 : Int) < ocp.den := Int.natCast_pos.mpr ocp.den_pos
  unfold unitCandidate
  split
  · rename_i hlt
    have hquot : 1 ≤ ocp.num / ocp.den := Int.le_ediv_of_mul_le hden (by omega)
    apply fits_mkRat
    · exact lt_min hquot hmax
    · exact Nat.one_pos
    · exact min_le_right _ _
    · decide
  · rename_i hle
    have hquot : 1 ≤ (ocp.den : Int) / ocp.num := Int.le_ediv_of_mul_le hpos (by omega)
    have hmin : 0 < Min.min ((ocp.den : Int) / ocp.num) maxShareSupply := lt_min hquot hmax
    apply fits_mkRat
    · decide
    · omega
    · decide
    · rw [Int.toNat_of_nonneg hmin.le]
      exact min_le_right _ _

theorem fits_refineWith {r : Shrunk} (hpos : 0 < ocp.num) (h : Fits r.value) :
    Fits (refineWith wrapped ocp r) := by
  unfold refineWith
  dsimp only
  split
  · exact h
  split
  · exact fits_unitCandidate hpos
  split
  · exact fits_unitCandidate hpos
  · exact h

structure Within (p q : Price) : Prop where
  base_id : q.base.assetId = p.base.assetId
  quote_id : q.quote.assetId = p.quote.assetId
  base_pos : 0 < q.base.amount
  quote_pos : 0 < q.quote.amount
  base_le : q.base.amount ≤ maxShareSupply
  quote_le : q.quote.amount ≤ maxShareSupply

theorem within_or_eq (h : p.mulRatioWith wrapped num den = .ok q) (hne : num ≠ den) :
    p.validate = .ok () ∧
      (Within p q ∨ q = p ∧ ∃ np, Within p np ∧ (den < num ∧ lt np p ∨ num < den ∧ lt p np)) := by
  unfold mulRatioWith at h
  obtain ⟨u, hvalid, h⟩ := of_bind h
  refine ⟨hvalid, ?_⟩
  obtain ⟨hbase, hvalid⟩ := of_fcAssert hvalid
  obtain ⟨hquote, -⟩ := of_fcAssert hvalid
  obtain ⟨⟨hnum, hden⟩, h⟩ := of_fcAssert h
  rw [if_neg hne] at h
  obtain ⟨ocp, hocp, h⟩ := of_bind h
  obtain ⟨r, hr, h⟩ := of_bind h
  obtain ⟨np, hdiv, h⟩ := of_bind h
  obtain ⟨-, hnp⟩ := of_fcAssert hdiv
  have hpos : 0 < ocp.num := by
    unfold rational128 at hocp
    split at hocp
    · cases hocp
      rw [Rat.num_pos]
      apply mul_pos
      · exact Rat.num_pos.mp (num_mkRat_pos hbase (by omega))
      · exact Rat.num_pos.mp (num_mkRat_pos (by omega) hden)
    · cases hocp
  have hfits : Fits (refineWith wrapped ocp r) := fits_refineWith hpos (fits_shrink hpos hr)
  have hwithin : Within p np := by
    cases hnp
    exact ⟨rfl, rfl, hfits.pos, Int.natCast_pos.mpr (Rat.den_pos _), hfits.num_le, hfits.den_le⟩
  obtain ⟨u', -, h⟩ := of_bind h
  cases h
  split
  · rename_i hside
    exact .inr ⟨rfl, np, hwithin, hside.2⟩
  · exact .inl hwithin

theorem validate_eq_ok {u : Unit} (h : p.validate = .ok u) :
    0 < p.base.amount ∧ 0 < p.quote.amount := by
  obtain ⟨hbase, h⟩ := of_fcAssert h
  obtain ⟨hquote, -⟩ := of_fcAssert h
  exact ⟨hbase, hquote⟩

theorem not_lt_min (h : p.mulRatioWith wrapped num den = .ok q) (hlt : den < num)
    (hbelow : maxShareSupply * p.base.amount < p.quote.amount) :
    q.quote.amount ≤ maxShareSupply * q.base.amount := by
  obtain ⟨hvalid, hwithin | ⟨-, np, hwithin, hside⟩⟩ := within_or_eq h hlt.ne'
  · have hbase := hwithin.base_pos
    have hquote := hwithin.quote_le
    unfold maxShareSupply at *
    omega
  · -- what is in the range is not below the price
    obtain ⟨hbase, hquote⟩ := validate_eq_ok hvalid
    have hnp : lt np p := by
      rcases hside with hside | hside
      · exact hside.2
      · exact absurd hside.1 (Nat.lt_asymm hlt)
    exfalso
    have hcross : p.quote.amount * np.base.amount < np.quote.amount * p.base.amount :=
      (lt_iff hwithin.base_id hwithin.quote_id).mp hnp
    have hlower : p.quote.amount ≤ p.quote.amount * np.base.amount :=
      le_mul_of_one_le_right hquote.le hwithin.base_pos
    have hupper : np.quote.amount * p.base.amount ≤ maxShareSupply * p.base.amount :=
      mul_le_mul_of_nonneg_right hwithin.quote_le hbase.le
    omega

theorem not_max_lt (h : p.mulRatioWith wrapped num den = .ok q) (hlt : num < den)
    (habove : maxShareSupply * p.quote.amount < p.base.amount) :
    q.base.amount ≤ maxShareSupply * q.quote.amount := by
  obtain ⟨hvalid, hwithin | ⟨-, np, hwithin, hside⟩⟩ := within_or_eq h hlt.ne
  · have hquote := hwithin.quote_pos
    have hbase := hwithin.base_le
    unfold maxShareSupply at *
    omega
  · obtain ⟨hbase, hquote⟩ := validate_eq_ok hvalid
    have hnp : lt p np := by
      rcases hside with hside | hside
      · exact absurd hside.1 (Nat.lt_asymm hlt)
      · exact hside.2
    exfalso
    have hcross : np.quote.amount * p.base.amount < p.quote.amount * np.base.amount :=
      (lt_iff hwithin.base_id.symm hwithin.quote_id.symm).mp hnp
    have hlower : p.base.amount ≤ np.quote.amount * p.base.amount :=
      le_mul_of_one_le_left hbase.le hwithin.quote_pos
    have hupper : p.quote.amount * np.base.amount ≤ p.quote.amount * maxShareSupply :=
      mul_le_mul_of_nonneg_left hwithin.base_le hquote.le
    have hcomm := mul_comm p.quote.amount maxShareSupply
    omega

theorem exists_shrink (hpos : 0 < cp.num) (hlt : cp.num < 2 ^ fuel) (shrinked : Bool) :
    ∃ r, shrink fuel cp shrinked = .ok r := by
  induction fuel generalizing cp shrinked with
  | zero =>
    rw [pow_zero] at hlt
    omega
  | succ fuel ih =>
    unfold shrink
    split
    · exact ⟨_, rfl⟩
    split
    · exact ⟨_, rfl⟩
    split
    · exact ⟨_, rfl⟩
    · -- neither side is 1, so neither half is 0
      have hden := cp.den_pos
      have hnum := num_mkRat_le (n := cp.num / 2) (d := cp.den / 2) (by omega)
      rw [pow_succ] at hlt
      exact ih (num_mkRat_pos (by omega) (by omega)) (by omega) true

theorem exists_rational128 {a b : Int} {n : Nat} (ha : 0 < a) (ha_lt : a < 2 ^ 63) (hb : 0 < b)
    (hb_lt : b < 2 ^ 63) (hn : 0 < n) (hn_lt : n < 2 ^ 31) (hd : 0 < d) (hd_lt : d < 2 ^ 31) :
    ∃ ocp, rational128 (mkRat a b.toNat * mkRat n d) = .ok ocp ∧ 0 < ocp.num ∧
      ocp.num < 2 ^ 127 := by
  rw [Rat.mkRat_mul_mkRat]
  have hnum0 : 0 < a * n := mul_pos ha (Int.natCast_pos.mpr hn)
  have hnum : a * n < 2 ^ 94 := by
    calc a * n < 2 ^ 63 * n := mul_lt_mul_of_pos_right ha_lt (Int.natCast_pos.mpr hn)
      _ ≤ 2 ^ 63 * 2 ^ 31 := by omega
      _ = 2 ^ 94 := rfl
  have hden0 : 0 < b.toNat * d := Nat.mul_pos (by omega) hd
  have hden : b.toNat * d < 2 ^ 94 := by
    calc b.toNat * d < 2 ^ 63 * d := Nat.mul_lt_mul_of_pos_right (by omega) hd
      _ ≤ 2 ^ 63 * 2 ^ 31 := by omega
      _ = 2 ^ 94 := rfl
  have hpos := num_mkRat_pos hnum0 hden0
  have hle := num_mkRat_le (d := b.toNat * d) hnum0.le
  have hden_le := den_mkRat_le (n := a * n) hden0
  have hfits : |(mkRat (a * n) (b.toNat * d)).num| < 2 ^ 127 ∧
      ((mkRat (a * n) (b.toNat * d)).den : Int) < 2 ^ 127 := by
    rw [abs_of_pos hpos]
    omega
  exact ⟨_, if_pos hfits, hpos, by omega⟩

theorem exists_mulRatioWith (wrapped : Rat → Rat → Rat) (hvalid : p.validate = .ok ())
    (hbase_lt : p.base.amount < 2 ^ 63) (hquote_lt : p.quote.amount < 2 ^ 63) (hnum : 0 < num)
    (hnum_lt : num < 2 ^ 31) (hden : 0 < den) (hden_lt : den < 2 ^ 31) :
    ∃ q, p.mulRatioWith wrapped num den = .ok q := by
  obtain ⟨hbase, h⟩ := of_fcAssert hvalid
  obtain ⟨hquote, hne⟩ := of_fcAssert h
  have hids : p.base.assetId ≠ p.quote.assetId := fcAssert_eq_ok.mp hne
  have hpos : 0 < num ∧ 0 < den := ⟨hnum, hden⟩
  by_cases heq : num = den
  · refine ⟨p, bind_eq_ok.mpr ⟨(), hvalid, fcAssert_bind_eq_ok.mpr ⟨hpos, ?_⟩⟩⟩
    rw [if_pos heq]
    rfl
  obtain ⟨ocp, hocp, hocp_pos, hlt⟩ :=
    exists_rational128 hbase hbase_lt hquote hquote_lt hnum hnum_lt hden hden_lt
  obtain ⟨r, hr⟩ : ∃ r, shrink 128 ocp false = .ok r :=
    exists_shrink hocp_pos (hlt.trans (by decide)) false
  have hfits : Fits (refineWith wrapped ocp r) := fits_refineWith hocp_pos (fits_shrink hocp_pos hr)
  generalize hcp : refineWith wrapped ocp r = cp at hfits
  let np : Price := ⟨⟨cp.num, p.base.assetId⟩, ⟨cp.den, p.quote.assetId⟩⟩
  have hdiv : Asset.div ⟨cp.num, p.base.assetId⟩ ⟨cp.den, p.quote.assetId⟩ = .ok np :=
    fcAssert_bind_eq_ok.mpr ⟨hids, rfl⟩
  have hnp : np.validate = .ok () :=
    fcAssert_bind_eq_ok.mpr ⟨hfits.pos, fcAssert_bind_eq_ok.mpr
      ⟨Int.natCast_pos.mpr (Rat.den_pos _), hne⟩⟩
  have hresult : (if (r.shrinked ∨ r.usingMax) ∧ (den < num ∧ lt np p ∨ num < den ∧ lt p np) then p
      else np).validate = .ok () := by
    split
    · exact hvalid
    · exact hnp
  refine ⟨if (r.shrinked ∨ r.usingMax) ∧ (den < num ∧ lt np p ∨ num < den ∧ lt p np) then p
    else np, bind_eq_ok.mpr ⟨(), hvalid, fcAssert_bind_eq_ok.mpr ⟨hpos, ?_⟩⟩⟩
  rw [if_neg heq]
  refine bind_eq_ok.mpr ⟨ocp, hocp, bind_eq_ok.mpr ⟨r, hr, ?_⟩⟩
  dsimp only
  rw [hcp]
  exact bind_eq_ok.mpr ⟨np, hdiv, bind_eq_ok.mpr ⟨(), hresult, rfl⟩⟩

end Price

end Meta1Core.Protocol

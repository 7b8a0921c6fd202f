import Meta1Core.Lib.RelativeError
import Meta1Core.Protocol.RatioRange

/-!
# A larger ratio never gives a smaller price (`asset.cpp`)

`price * ratio` rounds where a side of the product is out of range.  The result is then within a
small fraction of the product, unless the product itself is out of range, so ratios that differ by
more than that fraction keep their order.
-/

namespace Meta1Core.Protocol

open Lib (Near of_bind)

namespace Price

def halvingError : ℚ := 1 / 2 ^ 42

variable {cp x : ℚ} {den fuel num : ℕ} {p q : Price}

theorem near_mkRat_halves (hn : 2 ^ 43 ≤ cp.num) (hd : (2 : ℤ) ^ 43 ≤ cp.den) :
    Near halvingError cp (mkRat (cp.num / 2) (cp.den / 2)) := by
  have hnear := Lib.near_halves (by norm_num : (2 : ℤ) ≤ 2 ^ 43) hn hd
  have herror : (2 : ℚ) / ((2 ^ 43 : ℤ) : ℚ) = halvingError := by
    unfold halvingError
    norm_num
  have hcp : ((cp.num : ℤ) : ℚ) / (((cp.den : ℤ)) : ℚ) = cp := by
    exact_mod_cast Rat.num_div_den cp
  have hhalf : ((cp.den / 2 : ℕ) : ℚ) = (((cp.den : ℤ) / 2 : ℤ) : ℚ) := by
    rw [← Int.cast_natCast, Int.natCast_ediv, Nat.cast_ofNat]
  rw [herror, hcp] at hnear
  rw [Rat.mkRat_eq_div, hhalf]
  exact hnear

theorem sides_large (hlow : 1 / 2 ^ 19 ≤ cp) (hhigh : cp ≤ 2 ^ 19)
    (hbig : ¬(cp.num ≤ maxShareSupply ∧ (cp.den : ℤ) ≤ maxShareSupply)) :
    2 ^ 43 ≤ cp.num ∧ (2 : ℤ) ^ 43 ≤ cp.den := by
  have hden : (0 : ℚ) < cp.den := by exact_mod_cast cp.den_pos
  have hcp : (cp.num : ℚ) = cp * cp.den := (Rat.mul_den_eq_num cp).symm
  have hle : (cp.num : ℚ) ≤ 2 ^ 19 * cp.den := by
    rw [hcp]
    exact mul_le_mul_of_nonneg_right hhigh hden.le
  have hge : (cp.den : ℚ) ≤ 2 ^ 19 * cp.num := by
    rw [hcp]
    have := mul_le_mul_of_nonneg_right hlow hden.le
    linarith
  have hle' : cp.num ≤ 2 ^ 19 * (cp.den : ℤ) := by exact_mod_cast hle
  have hge' : (cp.den : ℤ) ≤ 2 ^ 19 * cp.num := by exact_mod_cast hge
  unfold maxShareSupply at hbig
  constructor
  · omega
  · omega

theorem near_shrink (hlow : 1 / 2 ^ 18 ≤ x) (hhigh : x ≤ 2 ^ 18) :
    ∀ {cp : ℚ} {shrinked : Bool} {r : Shrunk} {i : ℕ}, i + fuel ≤ 128 →
      Near (i * (1 / 2 ^ 41)) x cp → shrink fuel cp shrinked = .ok r →
      Near (1 / 2 ^ 34) x r.value := by
  have hx : (0 : ℚ) < x := lt_of_lt_of_le (by norm_num) hlow
  induction fuel with
  | zero =>
    intro cp shrinked r i _ _ h
    cases h
  | succ fuel ih =>
    intro cp shrinked r i hi hnear h
    have hi' : (i : ℚ) ≤ 128 := by exact_mod_cast (by omega : i ≤ 128)
    have hsmall : (i : ℚ) * (1 / 2 ^ 41) ≤ 1 / 2 ^ 34 := by
      calc (i : ℚ) * (1 / 2 ^ 41) ≤ 128 * (1 / 2 ^ 41) :=
            mul_le_mul_of_nonneg_right hi' (by norm_num)
        _ = 1 / 2 ^ 34 := by norm_num
    obtain ⟨hlower, hupper⟩ := Near.iff.mp (hnear.mono hx.le hsmall)
    have hcp_low : 1 / 2 ^ 19 ≤ cp := by
      have := mul_le_mul_of_nonneg_right hlow (by norm_num : (0 : ℚ) ≤ 1 - 1 / 2 ^ 34)
      linarith
    have hcp_twice : cp ≤ 2 * x := by linarith
    have hcp_high : cp ≤ 2 ^ 19 := by linarith
    unfold shrink at h
    split at h
    · cases h
      exact hnear.mono hx.le hsmall
    · rename_i hbig
      obtain ⟨hnum, hden⟩ := sides_large hcp_low hcp_high hbig
      rw [if_neg (by omega), if_neg (by omega)] at h
      have hstep := hnear.trans (near_mkRat_halves hnum hden) hcp_twice (by norm_num [halvingError])
      apply ih (i := i + 1) (by omega) _ h
      have herror : (i : ℚ) * (1 / 2 ^ 41) + 2 * halvingError = ((i + 1 : ℕ) : ℚ) * (1 / 2 ^ 41) := by
        unfold halvingError
        push_cast
        ring
      rw [← herror]
      exact hstep

theorem shrinked_of_shrink {r : Shrunk} (h : shrink fuel cp true = .ok r) :
    r.shrinked = true := by
  induction fuel generalizing cp with
  | zero => cases h
  | succ fuel ih =>
    unfold shrink at h
    split at h
    · cases h
      rfl
    split at h
    · cases h
      rfl
    split at h
    · cases h
      rfl
    · exact ih h

def maxRatio : ℚ := maxShareSupply

theorem fits_le {q : ℚ} (h : Fits q) : q ≤ maxRatio := by
  have hden : (1 : ℚ) ≤ q.den := by exact_mod_cast q.den_pos
  have hnum : (q.num : ℚ) ≤ maxRatio := by
    unfold maxRatio
    exact_mod_cast h.num_le
  have hpos : (0 : ℚ) < q := Rat.num_pos.mp h.pos
  calc q = q * 1 := (mul_one q).symm
    _ ≤ q * q.den := mul_le_mul_of_nonneg_left hden hpos.le
    _ = q.num := Rat.mul_den_eq_num q
    _ ≤ maxRatio := hnum

theorem le_fits {q : ℚ} (h : Fits q) : 1 / maxRatio ≤ q := by
  have hmax : (0 : ℚ) < maxRatio := by norm_num [maxRatio, maxShareSupply]
  have hden : (q.den : ℚ) ≤ maxRatio := by
    unfold maxRatio
    exact_mod_cast h.den_le
  have hnum : (1 : ℚ) ≤ q.num := by exact_mod_cast h.pos
  have hpos : (0 : ℚ) < q := Rat.num_pos.mp h.pos
  rw [div_le_iff₀ hmax]
  calc (1 : ℚ) ≤ q.num := hnum
    _ = q * q.den := (Rat.mul_den_eq_num q).symm
    _ ≤ q * maxRatio := mul_le_mul_of_nonneg_left hden hpos.le

theorem mkRat_min_eq : mkRat 1 maxShareSupply.toNat = 1 / maxRatio := by
  show mkRat 1 9000000000000000000 = 1 / maxRatio
  norm_num [maxRatio, maxShareSupply, Rat.mkRat_eq_div]

theorem mkRat_max_eq : mkRat maxShareSupply 1 = maxRatio := by
  norm_num [maxRatio, Rat.mkRat_eq_div]

/-- `cp` is what `price * ratio` makes of the exact product `ocp`; `adjusted` tells whether it was
rounded. -/
def Rounds (ocp cp : ℚ) (adjusted : Bool) : Prop :=
  ∃ r, shrink 128 ocp false = .ok r ∧ refine ocp r = .ok cp ∧ adjusted = (r.shrinked || r.usingMax)

def Accurate (ocp cp : ℚ) : Prop :=
  cp = maxRatio ∧ maxRatio ≤ ocp ∨ cp = 1 / maxRatio ∧ ocp ≤ 1 / maxRatio ∨
    Near (1 / 2 ^ 17) ocp cp

theorem rational128_eq_ok {q q' : ℚ} (h : rational128 q = .ok q') : q' = q := by
  unfold rational128 at h
  split at h
  · exact (Except.ok.inj h).symm
  · cases h

theorem sub128_eq_ok {a b d : ℚ} (h : sub128 a b = .ok d) : d = a - b := by
  unfold sub128 at h
  dsimp only at h
  split at h
  · cases h
  · exact rational128_eq_ok h

theorem of_refine {ocp : ℚ} {r : Shrunk} (h : refine ocp r = .ok cp) :
    r.shrinked = false ∧ cp = r.value ∨
      cp = unitCandidate ocp ∧ ((unitCandidate ocp).num = maxShareSupply ∨
        ((unitCandidate ocp).den : ℤ) = maxShareSupply) ∨
      ¬((unitCandidate ocp).num = maxShareSupply ∨ ((unitCandidate ocp).den : ℤ) = maxShareSupply) ∧
        |cp - ocp| ≤ |unitCandidate ocp - ocp| ∧ |cp - ocp| ≤ |r.value - ocp| := by
  unfold refine at h
  split at h
  · rename_i hshrinked
    exact Or.inl ⟨hshrinked, (Except.ok.inj h).symm⟩
  dsimp only at h
  split at h
  · rename_i hedge
    exact Or.inr (Or.inl ⟨(Except.ok.inj h).symm, hedge⟩)
  rename_i hedge
  obtain ⟨diff1, h1, h⟩ := of_bind h
  obtain ⟨diff2, h2, h⟩ := of_bind h
  have hcp := (Except.ok.inj h).symm
  rw [sub128_eq_ok h1, sub128_eq_ok h2] at hcp
  refine Or.inr (Or.inr ⟨hedge, ?_⟩)
  by_cases hcloser : |unitCandidate ocp - ocp| < |r.value - ocp|
  · rw [if_pos hcloser] at hcp
    rw [hcp]
    exact ⟨le_rfl, hcloser.le⟩
  · rw [if_neg hcloser] at hcp
    rw [hcp]
    exact ⟨not_lt.mp hcloser, le_rfl⟩

theorem unitCandidate_of_lt (h : (x.den : ℤ) < x.num) :
    unitCandidate x = ((Min.min (x.num / x.den) maxShareSupply : ℤ) : ℚ) := by
  unfold unitCandidate
  rw [if_pos h, Rat.mkRat_eq_div, Nat.cast_one, div_one]

theorem unitCandidate_of_le (hx : 0 < x) (h : x.num ≤ x.den) :
    unitCandidate x = 1 / ((Min.min ((x.den : ℤ) / x.num) maxShareSupply : ℤ) : ℚ) := by
  have hnum : 0 < x.num := Rat.num_pos.mpr hx
  have hquot : 1 ≤ (x.den : ℤ) / x.num := Int.le_ediv_of_mul_le hnum (by omega)
  have hmin : 0 ≤ Min.min ((x.den : ℤ) / x.num) maxShareSupply :=
    le_min (by omega) (by decide)
  have hcast : ((Min.min ((x.den : ℤ) / x.num) maxShareSupply).toNat : ℚ) =
      ((Min.min ((x.den : ℤ) / x.num) maxShareSupply : ℤ) : ℚ) := by
    rw [← Int.cast_natCast, Int.toNat_of_nonneg hmin]
  unfold unitCandidate
  rw [if_neg (by omega), Rat.mkRat_eq_div, hcast, Int.cast_one]

theorem accurate_of_edge (hx : 0 < x)
    (h : (unitCandidate x).num = maxShareSupply ∨ ((unitCandidate x).den : ℤ) = maxShareSupply) :
    Accurate x (unitCandidate x) := by
  have hden : (0 : ℤ) < x.den := by exact_mod_cast x.den_pos
  have hnum : 0 < x.num := Rat.num_pos.mpr hx
  have hden' : (0 : ℚ) < x.den := by exact_mod_cast x.den_pos
  have hmax : (0 : ℚ) < maxRatio := by norm_num [maxRatio, maxShareSupply]
  rcases lt_or_ge (x.den : ℤ) x.num with hlt | hge
  · left
    have hunit := unitCandidate_of_lt hlt
    have hmin : Min.min (x.num / x.den) maxShareSupply = maxShareSupply := by
      rw [hunit, Rat.num_intCast, Rat.den_intCast] at h
      rcases h with h | h
      · exact h
      · exact absurd h (by decide)
    rw [hmin] at hunit
    refine ⟨hunit, ?_⟩
    have hle : maxShareSupply * x.den ≤ x.num :=
      (Int.le_ediv_iff_mul_le hden).mp (min_eq_right_iff.mp hmin)
    have hle' : maxRatio * x.den ≤ x * x.den := by
      rw [Rat.mul_den_eq_num]
      unfold maxRatio
      exact_mod_cast hle
    exact le_of_mul_le_mul_right hle' hden'
  · right
    left
    have hunit := unitCandidate_of_le hx hge
    have hpos : 0 < Min.min ((x.den : ℤ) / x.num) maxShareSupply :=
      lt_min (Int.le_ediv_of_mul_le hnum (by omega)) (by decide)
    have hmin : Min.min ((x.den : ℤ) / x.num) maxShareSupply = maxShareSupply := by
      rw [hunit, one_div, Rat.inv_intCast_num_of_pos hpos, Rat.inv_intCast_den_of_pos hpos] at h
      rcases h with h | h
      · exact absurd h (by decide)
      · exact h
    rw [hmin] at hunit
    refine ⟨hunit, ?_⟩
    have hle : maxShareSupply * x.num ≤ x.den :=
      (Int.le_ediv_iff_mul_le hnum).mp (min_eq_right_iff.mp hmin)
    have hle' : x * x.den * maxRatio ≤ x.den := by
      rw [Rat.mul_den_eq_num, mul_comm]
      unfold maxRatio
      exact_mod_cast hle
    rw [le_div_iff₀ hmax]
    apply le_of_mul_le_mul_right _ hden'
    linarith

theorem near_unitCandidate_of_large (hx : 2 ^ 18 ≤ x)
    (hedge : (unitCandidate x).num ≠ maxShareSupply) :
    Near (1 / 2 ^ 17) x (unitCandidate x) := by
  have hden : (0 : ℤ) < x.den := by exact_mod_cast x.den_pos
  have hden' : (0 : ℚ) < x.den := by exact_mod_cast x.den_pos
  have hlt : (x.den : ℤ) < x.num := by
    have hlt : (x.den : ℚ) < x.num := by
      rw [← Rat.mul_den_eq_num x]
      have := mul_le_mul_of_nonneg_right hx hden'.le
      linarith
    exact_mod_cast hlt
  have hunit := unitCandidate_of_lt hlt
  have hmin : Min.min (x.num / x.den) maxShareSupply = x.num / x.den := by
    rw [hunit, Rat.num_intCast] at hedge
    exact (min_choice _ _).resolve_right hedge
  rw [hmin] at hunit
  have hlower : x.num / x.den * (x.den : ℤ) ≤ x.num := Int.ediv_mul_le _ hden.ne'
  have hupper : x.num < (x.num / x.den + 1) * (x.den : ℤ) := Int.lt_ediv_add_one_mul_self _ hden
  have hlower' : unitCandidate x ≤ x := by
    apply le_of_mul_le_mul_right _ hden'
    rw [hunit, Rat.mul_den_eq_num]
    exact_mod_cast hlower
  have hupper' : x < unitCandidate x + 1 := by
    apply lt_of_mul_lt_mul_right _ hden'.le
    rw [hunit, Rat.mul_den_eq_num]
    exact_mod_cast hupper
  rw [Near.iff]
  constructor <;> linarith

theorem near_unitCandidate_of_small (hpos : 0 < x) (hx : x ≤ 1 / 2 ^ 18)
    (hedge : ((unitCandidate x).den : ℤ) ≠ maxShareSupply) :
    Near (1 / 2 ^ 17) x (unitCandidate x) := by
  have hnum : 0 < x.num := Rat.num_pos.mpr hpos
  have hnum' : (0 : ℚ) < x.num := by exact_mod_cast hnum
  have hden' : (0 : ℚ) < x.den := by exact_mod_cast x.den_pos
  have hxd : x * x.den = x.num := Rat.mul_den_eq_num x
  have hle : x.num ≤ x.den := by
    have hle : (x.num : ℚ) ≤ x.den := by
      rw [← hxd]
      have := mul_le_mul_of_nonneg_right hx hden'.le
      linarith
    exact_mod_cast hle
  have hunit := unitCandidate_of_le hpos hle
  obtain ⟨k, hk⟩ : ∃ k, (x.den : ℤ) / x.num = k := ⟨_, rfl⟩
  rw [hk] at hunit
  have hk_pos : 0 < k := by
    rw [← hk]
    exact Int.le_ediv_of_mul_le hnum (by omega)
  have hmin : Min.min k maxShareSupply = k := by
    have hmin_pos : 0 < Min.min k maxShareSupply := lt_min hk_pos (by decide)
    rw [hunit, one_div, Rat.inv_intCast_den_of_pos hmin_pos] at hedge
    exact (min_choice _ _).resolve_right hedge
  rw [hmin] at hunit
  have hlower : k * x.num ≤ x.den := by
    rw [← hk]
    exact Int.ediv_mul_le _ hnum.ne'
  have hupper : (x.den : ℤ) < (k + 1) * x.num := by
    rw [← hk]
    exact Int.lt_ediv_add_one_mul_self _ hnum
  have hlower' : (k : ℚ) * x ≤ 1 := by
    apply le_of_mul_le_mul_right _ hden'
    rw [mul_assoc, hxd, one_mul]
    exact_mod_cast hlower
  have hupper' : 1 < ((k : ℚ) + 1) * x := by
    apply lt_of_mul_lt_mul_right _ hden'.le
    rw [mul_assoc, hxd, one_mul]
    exact_mod_cast hupper
  have hk_pos' : (0 : ℚ) < k := by exact_mod_cast hk_pos
  rw [Near.iff, hunit]
  constructor
  · rw [le_div_iff₀ hk_pos']
    linarith
  · rw [div_le_iff₀ hk_pos']
    -- `k * x` is at least `1 - x`, and `x` is small
    have hkx : 1 - x ≤ k * x := by linarith
    linarith

theorem accurate_of_not_shrinked (hx : 0 < x) {r : Shrunk} (h : shrink (fuel + 1) x false = .ok r)
    (hr : r.shrinked = false) : Accurate x r.value := by
  have hmax : (0 : ℚ) < maxRatio := by norm_num [maxRatio, maxShareSupply]
  have hxd : x * x.den = x.num := Rat.mul_den_eq_num x
  have hden' : (0 : ℚ) < x.den := by exact_mod_cast x.den_pos
  unfold shrink at h
  split at h
  · cases h
    exact Or.inr (Or.inr (Near.refl hx.le (by norm_num)))
  rename_i hbig
  split at h
  · rename_i hone
    cases h
    right
    left
    have hgt : maxShareSupply < (x.den : ℤ) := by
      rw [hone] at hbig
      unfold maxShareSupply at *
      omega
    have hgt' : maxRatio ≤ x.den := by
      unfold maxRatio
      exact_mod_cast hgt.le
    rw [hone, Int.cast_one] at hxd
    refine ⟨mkRat_min_eq, ?_⟩
    rw [le_div_iff₀ hmax]
    calc x * maxRatio ≤ x * x.den := mul_le_mul_of_nonneg_left hgt' hx.le
      _ = 1 := hxd
  split at h
  · rename_i hone
    cases h
    left
    have hgt : maxShareSupply < x.num := by
      rw [hone] at hbig
      unfold maxShareSupply at *
      omega
    rw [hone, Nat.cast_one, mul_one] at hxd
    refine ⟨mkRat_max_eq, ?_⟩
    rw [hxd]
    unfold maxRatio
    exact_mod_cast hgt.le
  · rw [shrinked_of_shrink h] at hr
    cases hr

theorem accurate_of_rounds {adjusted : Bool} (hx : 0 < x) (h : Rounds x cp adjusted) :
    Accurate x cp := by
  obtain ⟨r, hshrink, hrefine, -⟩ := h
  rcases of_refine hrefine with ⟨hshrinked, rfl⟩ | ⟨rfl, hedge⟩ | ⟨hedge, hunit, hloop⟩
  · exact accurate_of_not_shrinked hx hshrink hshrinked
  · exact accurate_of_edge hx hedge
  right
  right
  rcases le_total x (1 / 2 ^ 18) with hsmall | hlow
  · exact (near_unitCandidate_of_small hx hsmall (fun h => hedge (Or.inr h))).of_closer hunit
  rcases le_total (2 ^ 18) x with hlarge | hhigh
  · exact (near_unitCandidate_of_large hlarge (fun h => hedge (Or.inl h))).of_closer hunit
  have hnear : Near (1 / 2 ^ 34) x r.value :=
    near_shrink hlow hhigh (i := 0) le_rfl (Near.refl hx.le (by norm_num)) hshrink
  exact (hnear.mono hx.le (by norm_num)).of_closer hloop

theorem fits_of_rounds {adjusted : Bool} (hx : 0 < x) (h : Rounds x cp adjusted) :
    Fits cp := by
  obtain ⟨r, hshrink, hrefine, -⟩ := h
  have hnum : 0 < x.num := Rat.num_pos.mpr hx
  rw [← @refineWith_eq (fun a b => a - b) _ _ _ hrefine]
  exact fits_refineWith hnum (fits_shrink hnum hshrink)

theorem eq_of_rounds (h : Rounds x cp false) : cp = x := by
  obtain ⟨r, hshrink, hrefine, hadjusted⟩ := h
  obtain ⟨hshrinked, hmax⟩ := Bool.or_eq_false_iff.mp hadjusted.symm
  unfold refine at hrefine
  rw [if_pos hshrinked] at hrefine
  cases hrefine
  unfold shrink at hshrink
  split at hshrink
  · cases hshrink
    rfl
  split at hshrink
  · cases hshrink
    cases hmax
  split at hshrink
  · cases hshrink
    cases hmax
  · rw [shrinked_of_shrink hshrink] at hshrinked
    cases hshrinked

theorem rounds_mono {y cx cy : ℚ} {ax ay : Bool} (hx : 0 < x) (hgap : x * (1 + 1 / 32000) ≤ y)
    (hcx : Rounds x cx ax) (hcy : Rounds y cy ay) : cx ≤ cy := by
  have hy : 0 < y := lt_of_lt_of_le (by positivity) hgap
  have hmax : (0 : ℚ) < maxRatio := by norm_num [maxRatio, maxShareSupply]
  have hle := fits_le (fits_of_rounds hx hcx)
  have hge := le_fits (fits_of_rounds hy hcy)
  rcases accurate_of_rounds hx hcx with ⟨hcx, hlarge⟩ | ⟨hcx, -⟩ | hnear
  · rcases accurate_of_rounds hy hcy with ⟨hcy, -⟩ | ⟨-, hsmall⟩ | hnear'
    · rw [hcx, hcy]
    · have hone : (1 : ℚ) < maxRatio := by norm_num [maxRatio, maxShareSupply]
      have hinv : 1 / maxRatio < 1 := (div_lt_one hmax).mpr hone
      linarith
    · have hlower := (Near.iff.mp hnear').1
      rw [hcx]
      linarith
  · rw [hcx]
    exact hge
  · have hupper := (Near.iff.mp hnear).2
    rcases accurate_of_rounds hy hcy with ⟨hcy, -⟩ | ⟨hcy, hsmall⟩ | hnear'
    · rw [hcy]
      exact hle
    · rw [hcy]
      linarith
    · exact Lib.le_of_near hnear hnear' hx.le (by norm_num) hgap (by norm_num)

def value (p : Price) : ℚ := p.base.amount / p.quote.amount

theorem lt_iff_value {a b : Price} (hbase : a.base.assetId = b.base.assetId)
    (hquote : a.quote.assetId = b.quote.assetId) (ha : 0 < a.quote.amount)
    (hb : 0 < b.quote.amount) : lt a b ↔ a.value < b.value := by
  have ha' : (0 : ℚ) < a.quote.amount := by exact_mod_cast ha
  have hb' : (0 : ℚ) < b.quote.amount := by exact_mod_cast hb
  rw [lt_iff hbase hquote, value, value, div_lt_div_iff₀ ha' hb', mul_comm b.quote.amount,
    mul_comm a.quote.amount]
  exact_mod_cast Iff.rfl

/-- The product of a price and a ratio: the rounded product, or the price itself where that is on the
wrong side of it -/
structure Scaled (p q : Price) (num den : ℕ) : Prop where
  base_pos : 0 < p.base.amount
  quote_pos : 0 < p.quote.amount
  num_pos : 0 < num
  den_pos : 0 < den
  base_id : q.base.assetId = p.base.assetId
  quote_id : q.quote.assetId = p.quote.assetId
  base_pos' : 0 < q.base.amount
  quote_pos' : 0 < q.quote.amount
  rounded : num ≠ den → ∃ cp adjusted, Rounds (p.value * (num / den)) cp adjusted ∧
    q.value = if adjusted = true ∧ (den < num ∧ cp < p.value ∨ num < den ∧ p.value < cp)
      then p.value else cp

theorem scaled_of_mulRatio (h : p.mulRatio num den = .ok q) :
    Scaled p q num den := by
  unfold mulRatio at h
  obtain ⟨u, hvalid, h⟩ := of_bind h
  obtain ⟨hbase, hquote⟩ := validate_eq_ok hvalid
  obtain ⟨⟨hnum, hden⟩, h⟩ := of_fcAssert h
  by_cases heq : num = den
  · rw [if_pos heq] at h
    cases h
    exact ⟨hbase, hquote, hnum, hden, rfl, rfl, hbase, hquote, fun hne => absurd heq hne⟩
  rw [if_neg heq] at h
  obtain ⟨ocp, hocp, h⟩ := of_bind h
  obtain ⟨r, hshrink, h⟩ := of_bind h
  obtain ⟨cp, hrefine, h⟩ := of_bind h
  obtain ⟨np, hdiv, h⟩ := of_bind h
  obtain ⟨-, hnp⟩ := of_fcAssert hdiv
  cases hnp
  obtain ⟨u', hvalid', h⟩ := of_bind h
  cases h
  obtain ⟨hbase', hquote'⟩ := validate_eq_ok hvalid'
  have hexact : ocp = p.value * (num / den) := by
    have hcast : ((p.quote.amount.toNat : ℕ) : ℚ) = p.quote.amount := by
      exact_mod_cast Int.toNat_of_nonneg hquote.le
    rw [rational128_eq_ok hocp, Rat.mkRat_eq_div, Rat.mkRat_eq_div, hcast, value]
    rfl
  have hcp : (⟨⟨cp.num, p.base.assetId⟩, ⟨cp.den, p.quote.assetId⟩⟩ : Price).value = cp := by
    show ((cp.num : ℤ) : ℚ) / ((cp.den : ℤ) : ℚ) = cp
    rw [Int.cast_natCast]
    exact Rat.num_div_den cp
  have hdenpos : (0 : ℤ) < cp.den := Int.natCast_pos.mpr cp.den_pos
  have hless : lt ⟨⟨cp.num, p.base.assetId⟩, ⟨cp.den, p.quote.assetId⟩⟩ p ↔ cp < p.value := by
    have hiff := lt_iff_value (a := ⟨⟨cp.num, p.base.assetId⟩, ⟨cp.den, p.quote.assetId⟩⟩) (b := p)
      rfl rfl hdenpos hquote
    rwa [hcp] at hiff
  have hmore : lt p ⟨⟨cp.num, p.base.assetId⟩, ⟨cp.den, p.quote.assetId⟩⟩ ↔ p.value < cp := by
    have hiff := lt_iff_value (a := p) (b := ⟨⟨cp.num, p.base.assetId⟩, ⟨cp.den, p.quote.assetId⟩⟩)
      rfl rfl hquote hdenpos
    rwa [hcp] at hiff
  have hcond : ((r.shrinked = true ∨ r.usingMax = true) ∧
      (den < num ∧ lt ⟨⟨cp.num, p.base.assetId⟩, ⟨cp.den, p.quote.assetId⟩⟩ p ∨
        num < den ∧ lt p ⟨⟨cp.num, p.base.assetId⟩, ⟨cp.den, p.quote.assetId⟩⟩)) ↔
      (r.shrinked || r.usingMax) = true ∧ (den < num ∧ cp < p.value ∨ num < den ∧ p.value < cp) := by
    rw [Bool.or_eq_true, hless, hmore]
  refine ⟨hbase, hquote, hnum, hden, ?_, ?_, hbase', hquote', fun _ => ⟨cp, _, ⟨r, ?_, ?_, rfl⟩, ?_⟩⟩
  · split <;> rfl
  · split <;> rfl
  · rw [← hexact]
    exact hshrink
  · rw [← hexact]
    exact hrefine
  · by_cases hback : (r.shrinked || r.usingMax) = true ∧
        (den < num ∧ cp < p.value ∨ num < den ∧ p.value < cp)
    · rw [if_pos (hcond.mpr hback), if_pos hback]
    · rw [if_neg (fun hc => hback (hcond.mp hc)), if_neg hback]
      exact hcp

theorem of_mulRatio (h : p.mulRatio num den = .ok q) (hlt : den < num) :
    0 < p.base.amount ∧ 0 < p.quote.amount ∧ 0 < den ∧
      q.base.assetId = p.base.assetId ∧ q.quote.assetId = p.quote.assetId ∧
      0 < q.base.amount ∧ 0 < q.quote.amount ∧
      ∃ cp adjusted, Rounds (p.value * (num / den)) cp adjusted ∧
        q.value = if adjusted = true ∧ cp < p.value then p.value else cp := by
  have hscaled := scaled_of_mulRatio h
  obtain ⟨cp, adjusted, hrounds, hvalue⟩ := hscaled.rounded hlt.ne'
  refine ⟨hscaled.base_pos, hscaled.quote_pos, hscaled.den_pos, hscaled.base_id, hscaled.quote_id,
    hscaled.base_pos', hscaled.quote_pos', cp, adjusted, hrounds, ?_⟩
  rw [hvalue]
  have hcond : (den < num ∧ cp < p.value ∨ num < den ∧ p.value < cp) ↔ cp < p.value := by
    constructor
    · rintro (⟨-, hless⟩ | ⟨hgt, -⟩)
      · exact hless
      · omega
    · exact fun hless => Or.inl ⟨hlt, hless⟩
  simp only [hcond]

theorem value_pos (hbase : 0 < p.base.amount) (hquote : 0 < p.quote.amount) :
    0 < p.value := by
  apply div_pos
  · exact_mod_cast hbase
  · exact_mod_cast hquote

theorem le_mulRatio (h : p.mulRatio num den = .ok q) (hle : den ≤ num) : p.value ≤ q.value := by
  rcases hle.eq_or_lt with rfl | hlt
  · have hsame : p = q := by
      unfold mulRatio at h
      obtain ⟨u, -, h⟩ := of_bind h
      obtain ⟨-, h⟩ := of_fcAssert h
      rw [if_pos rfl] at h
      exact Except.ok.inj h
    rw [hsame]
  obtain ⟨hbase, hquote, hden, -, -, -, -, cp, adjusted, hrounds, hvalue⟩ := of_mulRatio h hlt
  have hdenq : (0 : ℚ) < den := by exact_mod_cast hden
  have hltq : (den : ℚ) < num := by exact_mod_cast hlt
  rw [hvalue]
  split
  · exact le_rfl
  · rename_i hnot
    cases adjusted with
    | true => exact not_lt.mp fun hless => hnot ⟨rfl, hless⟩
    | false =>
      rw [eq_of_rounds hrounds]
      exact (lt_mul_of_one_lt_right (value_pos hbase hquote) ((one_lt_div hdenq).mpr hltq)).le

theorem mulRatio_le (h : p.mulRatio num den = .ok q) (hlt : num < den) : q.value ≤ p.value := by
  have hscaled := scaled_of_mulRatio h
  obtain ⟨cp, adjusted, hrounds, hvalue⟩ := hscaled.rounded hlt.ne
  have hdenq : (0 : ℚ) < den := by exact_mod_cast hscaled.den_pos
  have hltq : (num : ℚ) < den := by exact_mod_cast hlt
  rw [hvalue]
  split
  · exact le_rfl
  · rename_i hnot
    cases adjusted with
    | true => exact not_lt.mp fun hmore => hnot ⟨rfl, Or.inr ⟨hlt, hmore⟩⟩
    | false =>
      rw [eq_of_rounds hrounds]
      exact mul_le_of_le_one_right (value_pos hscaled.base_pos hscaled.quote_pos).le
        ((div_lt_one hdenq).mpr hltq).le

theorem mulRatio_mono {q1 q2 : Price} {n1 n2 : ℕ} (h1 : p.mulRatio n1 den = .ok q1)
    (h2 : p.mulRatio n2 den = .ok q2) (hden : den < n1) (hle : n1 ≤ n2) (hn1 : n1 ≤ 32000) :
    q1.value ≤ q2.value := by
  rcases hle.eq_or_lt with rfl | hlt
  · rw [Except.ok.inj (h1.symm.trans h2)]
  obtain ⟨hbase, hquote, hdenpos, -, -, -, -, c1, a1, hr1, hv1⟩ := of_mulRatio h1 hden
  obtain ⟨-, -, -, -, -, -, -, c2, a2, hr2, hv2⟩ := of_mulRatio h2 (hden.trans hlt)
  have hp : 0 < p.value := by
    apply div_pos
    · exact_mod_cast hbase
    · exact_mod_cast hquote
  have hdenq : (0 : ℚ) < den := by exact_mod_cast hdenpos
  have hn1q : (den : ℚ) < n1 := by exact_mod_cast hden
  have hx : 0 < p.value * (n1 / den) := mul_pos hp (div_pos (by linarith) hdenq)
  have hgap : p.value * (n1 / den) * (1 + 1 / 32000) ≤ p.value * (n2 / den) := by
    have hstep : (n1 : ℚ) * (1 + 1 / 32000) ≤ n2 := by
      have hn1' : (n1 : ℚ) ≤ 32000 := by exact_mod_cast hn1
      have hn2 : (n1 : ℚ) + 1 ≤ n2 := by exact_mod_cast hlt
      linarith
    calc p.value * (n1 / den) * (1 + 1 / 32000) = p.value * (n1 * (1 + 1 / 32000) / den) := by ring
      _ ≤ p.value * (n2 / den) := by
          apply mul_le_mul_of_nonneg_left _ hp.le
          exact div_le_div_of_nonneg_right hstep hdenq.le
  have hmono : c1 ≤ c2 := rounds_mono hx hgap hr1 hr2
  -- a product that is not adjusted is exact, and so above the price
  have hexact {n : ℕ} {c : ℚ} (hn : den < n) (h : Rounds (p.value * (n / den)) c false) :
      p.value < c := by
    have hnq : (den : ℚ) < n := by exact_mod_cast hn
    have hone : 1 < (n : ℚ) / den := (one_lt_div hdenq).mpr hnq
    rw [eq_of_rounds h]
    exact lt_mul_of_one_lt_right hp hone
  have hge2 : p.value ≤ q2.value := by
    rw [hv2]
    split
    · exact le_rfl
    · rename_i hnot
      cases a2 with
      | true => exact not_lt.mp (fun hless => hnot ⟨rfl, hless⟩)
      | false => exact (hexact (hden.trans hlt) hr2).le
  rw [hv1]
  split
  · exact hge2
  · rw [hv2]
    split
    · rename_i hnot hless
      have hless1 : c1 < p.value := lt_of_le_of_lt hmono hless.2
      cases a1 with
      | true => exact absurd ⟨rfl, hless1⟩ hnot
      | false => exact absurd (hexact hden hr1) (not_lt.mpr hless1.le)
    · exact hmono

end Price

end Meta1Core.Protocol

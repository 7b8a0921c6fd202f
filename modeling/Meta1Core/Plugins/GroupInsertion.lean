import Meta1Core.Plugins.GroupSteps

/-!
# Insertion

An order is put into the next group when that group takes the capped price in, else into the
previous one when that takes it in, else into a group of its own.
-/

namespace Meta1Core.Plugins

open Lib (OrderedMap)
open OrderGroup (lo hi Holds)
open Protocol

variable {wrapped : Rat → Rat → Rat} {group : Nat} {orders : List LimitOrder} {idx idx' : OgData}
  {o : LimitOrder} {p : SellPrice}

/-- The price is below `price::min` and below the upper bound of a group that is entirely below
`price::min`: the bound would be lowered to it. -/
def LowersMax (group : Nat) (p : SellPrice) (idx : OgData) : Prop :=
  p.cappedMin ∧ ∃ e ∈ idx.entries, SameMarket group p e ∧ e.2.maxPrice.lt p.min ∧
    ¬p.lt e.1.minPrice ∧ p.lt e.2.maxPrice

instance (group : Nat) (p : SellPrice) (idx : OgData) : Decidable (LowersMax group p idx) :=
  inferInstanceAs (Decidable (_ ∧ _))

/-- The group reaches up to the capped price, or its percentage does. -/
def TakesIn (wrapped : Rat → Rat → Rat) (group : Nat) (c : SellPrice) (e : OrderGroup) : Prop :=
  ¬e.2.maxPrice.lt c ∨
    Lib.Succeeds (e.1.minPrice.price.mulRatioWith wrapped (percent100 + group) percent100)
      fun maxPrice => ¬maxPrice.lt c.price

instance (wrapped : Rat → Rat → Rat) (group : Nat) (c : SellPrice) (e : OrderGroup) :
    Decidable (TakesIn wrapped group c e) := inferInstanceAs (Decidable (_ ∨ _))

/-- The price is above `price::max`, and the highest group that begins at or below `price::max`
takes it in: its bound would be raised past another group that begins above `price::max` and not
above the price. -/
def OverrunsNext (wrapped : Rat → Rat → Rat) (group : Nat) (p : SellPrice) (idx : OgData) : Prop :=
  p.cappedMax ∧ ∃ e ∈ idx.entries, SameMarket group p e ∧ ¬p.max.lt e.1.minPrice ∧
    (∀ e' ∈ idx.entries, SameMarket group p e' → e.1.minPrice.lt e'.1.minPrice →
      p.max.lt e'.1.minPrice) ∧
    TakesIn wrapped group p.max e ∧
    ∃ e' ∈ idx.entries, SameMarket group p e' ∧ p.max.lt e'.1.minPrice ∧ ¬p.lt e'.1.minPrice

instance (wrapped : Rat → Rat → Rat) (group : Nat) (p : SellPrice) (idx : OgData) :
    Decidable (OverrunsNext wrapped group p idx) := inferInstanceAs (Decidable (_ ∧ _))

/-! ## Comparisons of a market -/

variable {e : OrderGroup} {c q : SellPrice}

theorem lo_lt_iff {e' : OrderGroup} (h : SameMarket group p e) (h' : SameMarket group p e') :
    e.1.minPrice.lt e'.1.minPrice ↔ lo e < lo e' :=
  SellPrice.lt_iff ((sameMarket_iff.mp h).2.trans (sameMarket_iff.mp h').2.symm)

theorem lt_lo_iff (hc : c.market = p.market) (h : SameMarket group p e) :
    c.lt e.1.minPrice ↔ c.value < lo e :=
  SellPrice.lt_iff (hc.trans (sameMarket_iff.mp h).2.symm)

theorem hi_lt_iff (hc : c.market = p.market) (hmarket : e.2.maxPrice.market = p.market) :
    e.2.maxPrice.lt c ↔ hi e < c.value :=
  SellPrice.lt_iff (hmarket.trans hc.symm)

theorem lt_hi_iff (hc : c.market = p.market) (hmarket : e.2.maxPrice.market = p.market) :
    c.lt e.2.maxPrice ↔ c.value < hi e :=
  SellPrice.lt_iff (hc.trans hmarket.symm)

theorem sameMarket_capped : SameMarket group p.capped e ↔ SameMarket group p e := by
  rw [sameMarket_iff, sameMarket_iff, market_capped]

theorem Tidy.hi_market (h : Tidy group orders idx) (he : e ∈ idx) (hsame : SameMarket group p e) :
    e.2.maxPrice.market = p.market :=
  (h.market e he hsame.1).trans (sameMarket_iff.mp hsame).2

theorem market_max (p : SellPrice) : p.max.market = p.market := rfl

theorem market_min (p : SellPrice) : p.min.market = p.market := rfl

theorem exists_sellPrice {r : Price} {num den : Nat}
    (h : q.price.mulRatioWith wrapped num den = .ok r) (hne : num ≠ den) :
    ∃ r' : SellPrice, r'.price = r ∧ r'.market = q.market := by
  obtain ⟨-, hwithin | ⟨rfl, -⟩⟩ := Price.within_or_eq h hne
  · have hdistinct : r.base.assetId ≠ r.quote.assetId := by
      rw [hwithin.base_id, hwithin.quote_id]
      exact q.distinct
    exact ⟨⟨r, hwithin.base_pos, hwithin.quote_pos, hdistinct⟩, rfl,
      Prod.ext hwithin.base_id hwithin.quote_id⟩
  · exact ⟨q, rfl, rfl⟩

theorem not_lt_minValue {r : Price} (hgroup : 0 < group)
    (h : q.price.mulRatioWith wrapped (percent100 + group) percent100 = .ok r)
    (hq : q.value < minValue) (hc : c.value = minValue) (hmarket : c.market = q.market) :
    ¬r.lt c.price := by
  have hbelow : maxShareSupply * q.price.base.amount < q.price.quote.amount := by
    rw [← value_min q, SellPrice.value_lt_iff] at hq
    simpa [SellPrice.min, Price.min] using hq
  have hcross := Price.not_lt_min h (by omega) hbelow
  obtain ⟨r', rfl, hmarket'⟩ := exists_sellPrice h (by omega)
  show ¬r'.lt c
  rw [SellPrice.lt_iff (hmarket'.trans hmarket.symm), hc, ← value_min r', SellPrice.value_lt_iff]
  simpa [SellPrice.min, Price.min] using hcross

theorem not_maxValue_lt {r : Price} (hgroup : 0 < group)
    (h : q.price.mulRatioWith wrapped percent100 (percent100 + group) = .ok r)
    (hq : maxValue < q.value) (hc : c.value = maxValue) (hmarket : c.market = q.market) :
    ¬c.price.lt r := by
  have habove : maxShareSupply * q.price.quote.amount < q.price.base.amount := by
    rw [← value_max q, SellPrice.value_lt_iff] at hq
    simpa [SellPrice.max, Price.max, mul_comm] using hq
  have hcross := Price.not_max_lt h (by omega) habove
  obtain ⟨r', rfl, hmarket'⟩ := exists_sellPrice h (by omega)
  show ¬c.lt r'
  rw [SellPrice.lt_iff (hmarket.trans hmarket'.symm), hc, ← value_max r', SellPrice.value_lt_iff]
  simpa [SellPrice.max, Price.max, mul_comm] using hcross

theorem Tidy.joinNext (h : Tidy group orders idx) {updateMax : Bool} (he : e ∈ idx)
    (hsame : SameMarket group o.sellPrice e) (hle : lo e ≤ o.sellPrice.capped.value)
    (hnext : ∀ e' ∈ idx, SameMarket group o.sellPrice e' → lo e' ≤ o.sellPrice.capped.value → lo e' ≤ lo e)
    (hupdate : updateMax = true ↔ hi e < o.sellPrice.capped.value)
    (htakes : TakesIn wrapped group o.sellPrice.capped e)
    (hlowers : ¬LowersMax group o.sellPrice idx)
    (hoverruns : ¬OverrunsNext wrapped group o.sellPrice idx)
    (hok : idx.joinNext group o updateMax e = .ok idx') : Inserted group orders o idx idx' := by
  have hmarket := h.hi_market he hsame
  have habove : ∀ e' ∈ idx, SameMarket group o.sellPrice e' → lo e < lo e' →
      o.sellPrice.capped.value < lo e' := by
    intro e' he' hsame' hlt
    by_contra hnot
    exact absurd (hnext e' he' hsame' (not_lt.mp hnot)) (not_le.mpr hlt)
  unfold OgData.joinNext at hok
  simp only [lt_lo_iff rfl hsame, hi_lt_iff rfl hmarket, hupdate] at hok
  rcases capped_cases o.sellPrice with ⟨hvalue, hmax, hmin, hc⟩ | ⟨hvalue, hmax, hmin, hc⟩ |
      ⟨hlower, hupper, hmax, hmin, hc⟩
  · -- above `price::max`
    have hcapped : o.sellPrice.capped = o.sellPrice.max := if_pos hmax
    rw [if_neg (fun hand => hmin hand.1)] at hok
    rw [hc] at hle habove hok
    have hpast : ∀ e' ∈ idx, SameMarket group o.sellPrice e' → lo e < lo e' →
        o.sellPrice.value < lo e' := by
      intro e' he' hsame' hlt
      by_contra hnot
      apply hoverruns
      rw [hcapped] at htakes
      refine ⟨hmax, e, he, hsame, ?_, ?_, htakes, e', he', hsame', ?_, ?_⟩
      · rw [lt_lo_iff (market_max _) hsame, value_max]
        exact not_lt.mpr hle
      · intro e'' he'' hsame'' hlt''
        rw [lt_lo_iff (market_max _) hsame'', value_max]
        exact habove e'' he'' hsame'' ((lo_lt_iff hsame hsame'').mp hlt'')
      · rw [lt_lo_iff (market_max _) hsame', value_max]
        exact habove e' he' hsame' hlt
      · rw [lt_lo_iff rfl hsame']
        exact hnot
    by_cases hraise : hi e < maxValue ∨ o.sellPrice.cappedMax ∧ hi e < o.sellPrice.value
    · rw [if_pos hraise] at hok
      have hhi : hi e ≤ o.sellPrice.value := by
        rcases hraise with hraise | hraise
        · linarith
        · exact hraise.2.le
      exact h.addTo he hsame rfl (hle.trans hvalue.le) le_rfl hhi hpast hok
    · rw [if_neg hraise] at hok
      rw [not_or, not_and, not_lt, not_lt] at hraise
      exact h.addTo he hsame hmarket (hle.trans hvalue.le) (hraise.2 hmax) le_rfl
        (fun e' he' hsame' hlt => (h.apart _ e he e' he' hsame hsame' hlt).hi_lt) hok
  · -- below `price::min`
    rw [hc] at hle habove hok
    by_cases hfirst : o.sellPrice.value < lo e
    · rw [if_pos ⟨hmin, hfirst⟩] at hok
      apply h.rekey he hsame hfirst _ hok
      intro e' he' hsame' hlt
      exact absurd (h.apart _ e' he' e he hsame' hsame hlt).lt_lo (not_lt.mpr hle)
    · rw [if_neg fun hand => hfirst hand.2] at hok
      by_cases hraise : hi e < minValue
      · rw [if_pos (.inl hraise)] at hok
        have hhi : hi e ≤ o.sellPrice.value := by
          by_contra hnot
          apply hlowers
          refine ⟨hmin, e, he, hsame, ?_, ?_, ?_⟩
          · rw [hi_lt_iff (market_min _) hmarket, value_min]
            exact hraise
          · rw [lt_lo_iff rfl hsame]
            exact hfirst
          · rw [lt_hi_iff rfl hmarket]
            exact not_le.mp hnot
        apply h.addTo he hsame rfl (not_lt.mp hfirst) le_rfl hhi _ hok
        intro e' he' hsame' hlt
        exact hvalue.trans (habove e' he' hsame' hlt)
      · rw [if_neg (by rintro (hraise' | hand); exacts [hraise hraise', hmax hand.1])] at hok
        exact h.addTo he hsame hmarket (not_lt.mp hfirst) (hvalue.le.trans (not_lt.mp hraise)) le_rfl
          (fun e' he' hsame' hlt => (h.apart _ e he e' he' hsame hsame' hlt).hi_lt) hok
  · -- in the range
    rw [hc] at hle habove hok
    rw [if_neg (fun hand => hmin hand.1)] at hok
    by_cases hraise : hi e < o.sellPrice.value
    · rw [if_pos (.inl hraise)] at hok
      exact h.addTo he hsame rfl hle le_rfl hraise.le habove hok
    · rw [if_neg (by rintro (hraise' | hand); exacts [hraise hraise', hmax hand.1])] at hok
      exact h.addTo he hsame hmarket hle (not_lt.mp hraise) le_rfl
        (fun e' he' hsame' hlt => (h.apart _ e he e' he' hsame hsame' hlt).hi_lt) hok

theorem capped_bounds (p : SellPrice) : minValue ≤ p.capped.value ∧ p.capped.value ≤ maxValue := by
  have hrange := minValue_lt_maxValue
  rcases capped_cases p with ⟨-, -, -, hc⟩ | ⟨-, -, -, hc⟩ | ⟨hlower, hupper, -, -, hc⟩
  · rw [hc]
    exact ⟨hrange.le, le_rfl⟩
  · rw [hc]
    exact ⟨le_rfl, hrange.le⟩
  · rw [hc]
    exact ⟨hlower, hupper⟩

theorem capped_le (h : minValue < p.capped.value) : p.capped.value ≤ p.value := by
  rcases capped_cases p with ⟨hvalue, -, -, hc⟩ | ⟨-, -, -, hc⟩ | ⟨-, -, -, -, hc⟩
  · rw [hc]
    exact hvalue.le
  · rw [hc] at h
    exact absurd h (lt_irrefl _)
  · exact hc.le

theorem le_capped (h : ¬p.cappedMax) : p.value ≤ p.capped.value := by
  rcases capped_cases p with ⟨-, hmax, -, -⟩ | ⟨hvalue, -, -, hc⟩ | ⟨-, -, -, -, hc⟩
  · exact absurd hmax h
  · rw [hc]
    exact hvalue.le
  · exact hc.ge

theorem Tidy.checkPrevious (h : Tidy group orders idx) (hgroup : 0 < group)
    (hbelow : ∀ e ∈ idx, SameMarket group o.sellPrice e → lo e ≤ o.sellPrice.capped.value →
      hi e < o.sellPrice.capped.value ∧ minValue < o.sellPrice.capped.value)
    (hok : idx.checkPrevious wrapped group o = .ok idx') : Inserted group orders o idx idx' := by
  have hcapped := capped_bounds o.sellPrice
  have hlower : ∀ e ∈ idx, SameMarket group o.sellPrice e → lo e ≤ o.sellPrice.capped.value →
      hi e < o.sellPrice.value ∧ lo e ≤ maxValue ∧ minValue < o.sellPrice.value := by
    intro e he hsame hle
    obtain ⟨hhi, hmin⟩ := hbelow e he hsame hle
    have hprice := capped_le hmin
    exact ⟨hhi.trans_le hprice, hle.trans hcapped.2, hmin.trans_le hprice⟩
  have hfirst : (∀ e, idx.previous ⟨group, o.sellPrice.capped⟩ = some e →
      ¬SameMarket group o.sellPrice e) → Inserted group orders o idx (idx.createOgo group o) := by
    intro hnone
    apply h.createOgo
    intro e he hsame
    refine .inl (hlower e he hsame ?_)
    apply previous_none _ he (sameMarket_capped.mpr hsame)
    intro e' he' hsame'
    exact hnone e' he' (sameMarket_capped.mp hsame')
  unfold OgData.checkPrevious at hok
  split at hok
  · rename_i hprevious
    cases hok
    apply hfirst
    intro e he
    rw [hprevious] at he
    cases he
  · rename_i e hprevious
    split at hok
    · rename_i hother
      cases hok
      apply hfirst
      intro e' he'
      rw [hprevious] at he'
      cases he'
      exact hother
    · rename_i hsame
      rw [not_not] at hsame
      obtain ⟨he, hlt, hlowest⟩ := previous_spec hprevious (sameMarket_capped.mpr hsame)
      have hmarket := h.hi_market he hsame
      obtain ⟨minPrice, hminPrice, hok⟩ := Lib.of_bind hok
      split at hok
      · -- out of the range of the previous group too
        rename_i hout
        cases hok
        apply h.createOgo
        intro e' he' hsame'
        by_cases hle : lo e' ≤ o.sellPrice.capped.value
        · exact .inl (hlower e' he' hsame' hle)
        · have hle' := hlowest e' he' (sameMarket_capped.mpr hsame') (not_le.mp hle)
          have hmax : ¬o.sellPrice.cappedMax := by
            intro hmax
            have hvalue : o.sellPrice.capped.value = maxValue := by
              rw [SellPrice.capped, if_pos hmax, value_max]
            have hhi : maxValue < hi e := by
              have hordered := h.ordered e he hsame.1
              linarith
            exact not_maxValue_lt hgroup hminPrice hhi hvalue
              ((market_capped _).trans hmarket.symm) hout
          have hprice := le_capped hmax
          exact .inr ⟨by linarith, by linarith, by linarith⟩
      · simp only [lt_lo_iff rfl hsame] at hok
        split at hok
        · -- above `price::max`, in a group that is above it
          rename_i hmax
          have hvalue : o.sellPrice.capped.value = maxValue := by
            rw [SellPrice.capped, if_pos hmax.1, value_max]
          have hlast : ∀ e' ∈ idx, SameMarket group o.sellPrice e' → ¬lo e < lo e' := by
            intro e' he' hsame' hlt'
            have hle := (h.apart _ e he e' he' hsame hsame' hlt').lo_le
            linarith
          have hmaxPrice : ∀ maxPrice : SellPrice, maxPrice.market = o.sellPrice.market →
              o.sellPrice.value ≤ maxPrice.value → hi e ≤ maxPrice.value →
                idx.addTo o maxPrice e = .ok idx' → Inserted group orders o idx idx' := by
            intro maxPrice hmarket' hle hhi hok
            exact h.addTo he hsame hmarket' (not_lt.mp hmax.2) hle hhi
              (fun e' he' hsame' hlt' => absurd hlt' (hlast e' he' hsame')) hok
          split at hok
          · rename_i hraise
            rw [hi_lt_iff rfl hmarket] at hraise
            exact hmaxPrice o.sellPrice rfl le_rfl hraise.le hok
          · rename_i hkeep
            rw [hi_lt_iff rfl hmarket, not_lt] at hkeep
            exact hmaxPrice e.2.maxPrice hmarket hkeep le_rfl hok
        · rename_i hnot
          have hprice : o.sellPrice.value < lo e := by
            by_cases hmax : o.sellPrice.cappedMax
            · by_contra hge
              exact hnot ⟨hmax, hge⟩
            · exact (le_capped hmax).trans_lt hlt
          apply h.rekey he hsame hprice _ hok
          intro e' he' hsame' hlt'
          have hle : lo e' ≤ o.sellPrice.capped.value := by
            by_contra hge
            have hle' := hlowest e' he' (sameMarket_capped.mpr hsame') (not_le.mp hge)
            linarith
          obtain ⟨hhi, -, hmin⟩ := hlower e' he' hsame' hle
          exact ⟨hhi, hmin⟩

theorem Tidy.insertOrder (h : Tidy group orders idx) (hgroup : 0 < group)
    (hlowers : ¬LowersMax group o.sellPrice idx) (hoverruns : ¬OverrunsNext wrapped group o.sellPrice idx)
    (hok : idx.insertOrder wrapped group o = .ok idx') : Inserted group orders o idx idx' := by
  have hcapped := capped_bounds o.sellPrice
  have hnone : (∀ e, idx.lowerBound ⟨group, o.sellPrice.capped⟩ = some e →
      ¬SameMarket group o.sellPrice e) → idx.checkPrevious wrapped group o = .ok idx' →
        Inserted group orders o idx idx' := by
    intro hnone hok
    apply h.checkPrevious hgroup _ hok
    intro e he hsame hle
    have hlt : o.sellPrice.capped.value < lo e := by
      apply lowerBound_none _ he (sameMarket_capped.mpr hsame)
      intro e' he' hsame'
      exact hnone e' he' (sameMarket_capped.mp hsame')
    exact absurd hle (not_le.mpr hlt)
  unfold OgData.insertOrder at hok
  split at hok
  · rename_i hempty
    cases hok
    apply h.createOgo
    intro e he
    rw [OrderedMap.mem_def, hempty] at he
    cases he
  split at hok
  · rename_i hbound
    apply hnone _ hok
    intro e he
    rw [hbound] at he
    cases he
  · rename_i e hbound
    split at hok
    · rename_i hother
      apply hnone _ hok
      intro e' he'
      rw [hbound] at he'
      cases he'
      exact hother
    · rename_i hsame
      rw [not_not] at hsame
      obtain ⟨he, hle, hhighest⟩ := lowerBound_spec hbound (sameMarket_capped.mpr hsame)
      have hmarket := h.hi_market he hsame
      have hnext : ∀ e' ∈ idx, SameMarket group o.sellPrice e' → lo e' ≤ o.sellPrice.capped.value →
          lo e' ≤ lo e := by
        intro e' he' hsame' hle'
        exact hhighest e' he' (sameMarket_capped.mpr hsame') hle'
      split at hok
      · rename_i hraise
        have hhi := (hi_lt_iff (market_capped _) hmarket).mp hraise
        obtain ⟨maxPrice, hmaxPrice, hok⟩ := Lib.of_bind hok
        split at hok
        · -- out of the range of the next group
          rename_i hout
          apply h.checkPrevious hgroup _ hok
          intro e' he' hsame' hle'
          constructor
          · rcases (hnext e' he' hsame' hle').lt_or_eq with hlt | heq
            · have hbelow := (h.apart _ e' he' e he hsame' hsame hlt).hi_lt
              linarith
            · rw [eq_of_lo_eq he' he hsame' hsame heq]
              exact hhi
          · by_contra hmin
            have hvalue : o.sellPrice.capped.value = minValue := le_antisymm (not_lt.mp hmin) hcapped.1
            have hlo : lo e < minValue := by
              have hordered := h.ordered e he hsame.1
              linarith
            exact not_lt_minValue hgroup hmaxPrice hlo hvalue
              ((market_capped _).trans (sameMarket_iff.mp hsame).2.symm) hout
        · rename_i hin
          have htakes : TakesIn wrapped group o.sellPrice.capped e := .inr ⟨maxPrice, hmaxPrice, hin⟩
          exact h.joinNext he hsame hle hnext (iff_of_true rfl hhi) htakes hlowers hoverruns hok
      · rename_i hreaches
        have hhi := mt (hi_lt_iff (market_capped _) hmarket).mpr hreaches
        exact h.joinNext he hsame hle hnext (iff_of_false Bool.false_ne_true hhi) (.inl hreaches)
          hlowers hoverruns hok

end Meta1Core.Plugins

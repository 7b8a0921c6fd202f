import Meta1Core.Settlement.ForceMatch

/-!
# What a settlement leaves alone

A settlement of one asset covers debt of that asset: its supply and the debt of its call orders go
down by the same amount.
-/

namespace Meta1Core.Settlement

open Lib (Rows Index Returns Relates RoundsTo ceilDiv of_bind)
open Protocol Ledger Market

/-! ## Relations between states -/

def debtOf (mia : AssetId) (s : State) : Int :=
  s.callOrders.total fun _ o => if o.debtType = mia then o.debt else 0

def callsOf (m : AssetId) (s : State) : List (Σ _ : Nat, CallOrder) :=
  s.callOrders.rows.entries.filter fun e => e.2.debtType = m

structure SameFor (m : AssetId) (s s' : State) : Prop where
  asset : s'.assetView m = s.assetView m
  debt : debtOf m s' = debtOf m s
  calls : callsOf m s' = callsOf m s
  markets : ∀ id o', s'.callOrders.find id = some o' →
    ∃ o, s.callOrders.find id = some o ∧ o'.callPrice = o.callPrice
  settlements : ∀ id f, f.balance.assetId = m →
    (s'.forceSettlements.find id = some f ↔ s.forceSettlements.find id = some f)

structure Settles (mia : AssetId) (r : Int) (s s' : State) : Prop where
  time : s'.headBlockTime = s.headBlockTime
  others : ∀ m ≠ mia, SameFor m s s'
  asset : s'.assetView mia =
    (s.assetView mia).map fun a => { a with currentSupply := a.currentSupply - r }
  debt : debtOf mia s' = debtOf mia s - r
  settlements : ∀ id f', s'.forceSettlements.find id = some f' →
    ∃ f, s.forceSettlements.find id = some f ∧ f'.balance.assetId = f.balance.assetId ∧
      f'.settlementDate = f.settlementDate

variable {mia m : AssetId} {r r' : Int} {s s' t : State}

namespace SameFor

theorem trans (h : SameFor m s s') (h' : SameFor m s' t) : SameFor m s t where
  asset := h'.asset.trans h.asset
  debt := h'.debt.trans h.debt
  calls := h'.calls.trans h.calls
  markets id o'' ho'' := by
    obtain ⟨o', ho', hprice'⟩ := h'.markets id o'' ho''
    obtain ⟨o, ho, hprice⟩ := h.markets id o' ho'
    exact ⟨o, ho, hprice'.trans hprice⟩
  settlements id f hf := (h'.settlements id f hf).trans (h.settlements id f hf)

theorem of_feesOnly (h : FeesOnly s s') : SameFor m s s' where
  asset := h.assets m
  debt := by
    unfold debtOf
    rw [h.callOrders]
  calls := by
    unfold callsOf
    rw [h.callOrders]
  markets id o' ho' := ⟨o', by rwa [h.callOrders] at ho', rfl⟩
  settlements _ _ _ := by rw [h.forceSettlements]

end SameFor

namespace Settles

theorem of_feesOnly (h : FeesOnly s s') : Settles mia 0 s s' where
  time := h.headBlockTime
  others _ _ := SameFor.of_feesOnly h
  asset := by
    rw [h.assets]
    simp
  debt := by
    unfold debtOf
    rw [h.callOrders, sub_zero]
  settlements id f hf := ⟨f, by rwa [h.forceSettlements] at hf, rfl, rfl⟩

theorem refl (mia : AssetId) (s : State) : Settles mia 0 s s := of_feesOnly (FeesOnly.refl s)

theorem trans (h : Settles mia r s s') (h' : Settles mia r' s' t) : Settles mia (r + r') s t where
  time := h'.time.trans h.time
  others m hm := (h.others m hm).trans (h'.others m hm)
  asset := by
    rw [h'.asset, h.asset, Option.map_map]
    congr 1
    funext a
    simp [sub_sub]
  debt := by
    rw [h'.debt, h.debt, sub_sub]
  settlements id f'' hf'' := by
    obtain ⟨f', hf', hasset', hdate'⟩ := h'.settlements id f'' hf''
    obtain ⟨f, hf, hasset, hdate⟩ := h.settlements id f' hf'
    exact ⟨f, hf, hasset'.trans hasset, hdate'.trans hdate⟩

theorem of_settlements {F : Index ForceSettlement} (hs' : s' = { s with forceSettlements := F })
    (hothers : ∀ id f, f.balance.assetId ≠ mia →
      (F.find id = some f ↔ s.forceSettlements.find id = some f))
    (hkept : ∀ id f', F.find id = some f' → ∃ f, s.forceSettlements.find id = some f ∧
      f'.balance.assetId = f.balance.assetId ∧ f'.settlementDate = f.settlementDate) :
    Settles mia 0 s s' := by
  subst hs'
  refine ⟨rfl, fun m hm => ⟨rfl, rfl, rfl, fun _ o ho => ⟨o, ho, rfl⟩, fun id f hf => ?_⟩, ?_, ?_,
    hkept⟩
  · apply hothers
    rwa [hf]
  · show s.assetView mia = _
    simp
  · show debtOf mia s = _
    omega

theorem of_remove {id : Nat} {f : ForceSettlement} (hfind : s.forceSettlements.find id = some f)
    (hf : f.balance.assetId = mia)
    (hs' : s' = { s with forceSettlements := s.forceSettlements.remove id }) :
    Settles mia 0 s s' := by
  apply of_settlements hs'
  · intro j g hg
    rw [Index.find_remove]
    by_cases hj : j = id
    · subst hj
      rw [if_pos rfl, hfind]
      simp only [reduceCtorEq, Option.some.injEq, false_iff]
      rintro rfl
      exact hg hf
    · rw [if_neg hj]
  · intro j g hg
    rw [Index.find_remove] at hg
    by_cases hj : j = id
    · rw [if_pos hj] at hg
      cases hg
    · rw [if_neg hj] at hg
      exact ⟨g, hg, rfl, rfl⟩

theorem of_modify {id : Nat} {f f' : ForceSettlement}
    (hfind : s.forceSettlements.find id = some f) (hf : f.balance.assetId = mia)
    (hs' : s' = { s with forceSettlements := s.forceSettlements.modify id fun _ => f' })
    (hasset : f'.balance.assetId = f.balance.assetId)
    (hdate : f'.settlementDate = f.settlementDate) : Settles mia 0 s s' := by
  apply of_settlements hs'
  · intro j g hg
    rw [Index.find_modify]
    by_cases hj : j = id
    · subst hj
      rw [if_pos rfl, hfind]
      simp only [Option.map_some, Option.some.injEq]
      constructor
      · rintro rfl
        exact absurd (hasset.trans hf) hg
      · rintro rfl
        exact absurd hf hg
    · rw [if_neg hj]
  · intro j g hg
    rw [Index.find_modify] at hg
    by_cases hj : j = id
    · rw [if_pos hj, hfind] at hg
      cases hg
      exact ⟨f, by rw [hj]; exact hfind, hasset, hdate⟩
    · rw [if_neg hj] at hg
      exact ⟨g, hg, rfl, rfl⟩

end Settles

variable {id : Nat} {closed : Bool}

theorem settles_of_book {o o' : CallOrder} {a : AssetObject} (hfind : s.callOrders.find id = some o)
    (hcalls : s'.callOrders =
      if closed then (s.callOrders.modify id fun _ => o').remove id
      else s.callOrders.modify id fun _ => o') (htype : o.debtType = mia)
    (hprice : o'.callPrice = o.callPrice) (hdebt : o'.debt = o.debt - r)
    (hclosed : closed → o'.debt = 0) (ha : s.assets.find mia = some a)
    (hassets : s'.assets = s.assets.modify mia fun _ =>
      { a with currentSupply := a.currentSupply + -r })
    (hsettlements : s'.forceSettlements = s.forceSettlements)
    (htime : s'.headBlockTime = s.headBlockTime) : Settles mia r s s' := by
  have hmodified : (s.callOrders.modify id fun _ => o').find id = some o' := by
    rw [Index.find_modify, if_pos rfl, hfind]
    rfl
  have htype' : o'.debtType = mia := (congrArg (·.quote.assetId) hprice).trans htype
  have hcallsOf (m : AssetId) (hm : m ≠ mia) : callsOf m s' = callsOf m s := by
    have hp : decide (o.debtType = m) = false := decide_eq_false (htype ▸ hm.symm)
    have hp' : decide (o'.debtType = m) = false := decide_eq_false (htype' ▸ hm.symm)
    have hmodify := Index.filter_modify (p := fun e => e.2.debtType = m) (f := fun _ => o') hfind hp hp'
    unfold callsOf
    rw [hcalls]
    by_cases hc : closed = true
    · rw [if_pos hc]
      exact (Index.filter_remove hmodified hp').trans hmodify
    · rw [if_neg hc]
      exact hmodify
  have hmarkets (j : Nat) (g' : CallOrder) (hg' : s'.callOrders.find j = some g') :
      ∃ g, s.callOrders.find j = some g ∧ g'.callPrice = g.callPrice := by
    have hsource (hg : (s.callOrders.modify id fun _ => o').find j = some g') :
        ∃ g, s.callOrders.find j = some g ∧ g'.callPrice = g.callPrice := by
      rw [Index.find_modify] at hg
      by_cases hj : j = id
      · rw [if_pos hj, hfind] at hg
        cases hg
        exact ⟨o, hj ▸ hfind, hprice⟩
      · rw [if_neg hj] at hg
        exact ⟨g', hg, rfl⟩
    rw [hcalls] at hg'
    by_cases hc : closed = true
    · rw [if_pos hc, Index.find_remove] at hg'
      by_cases hj : j = id
      · rw [if_pos hj] at hg'
        cases hg'
      · rw [if_neg hj] at hg'
        exact hsource hg'
    · rw [if_neg hc] at hg'
      exact hsource hg'
  have htotal (m : AssetId) : debtOf m s' = debtOf m s - if mia = m then r else 0 := by
    obtain ⟨w, hw⟩ : ∃ w : Nat → CallOrder → Int,
        (fun (_ : Nat) (o : CallOrder) => if o.debtType = m then o.debt else 0) = w := ⟨_, rfl⟩
    have hweight : w id o' = w id o - if mia = m then r else 0 := by
      rw [← hw]
      show (if o'.debtType = m then o'.debt else 0) =
        (if o.debtType = m then o.debt else 0) - if mia = m then r else 0
      rw [htype', htype, hdebt]
      split <;> omega
    have hmodify := Index.total_modify w hfind fun _ => o'
    unfold debtOf
    rw [hw, hcalls]
    by_cases hc : closed = true
    · have hzero : w id o' = 0 := by
        rw [← hw]
        show (if o'.debtType = m then o'.debt else 0) = 0
        rw [hclosed hc, ite_self]
      rw [if_pos hc, Index.total_remove w hmodified, hmodify]
      omega
    · rw [if_neg hc, hmodify]
      omega
  have hview (m : AssetId) : s'.assetView m = if m = mia then
      some { a with currentSupply := a.currentSupply + -r }.withoutFees else s.assetView m := by
    unfold State.assetView
    rw [hassets, Index.find_modify, ha]
    by_cases hm : m = mia
    · rw [if_pos hm, if_pos hm]
      rfl
    · rw [if_neg hm, if_neg hm]
  refine ⟨htime, fun m hm => ⟨?_, ?_, hcallsOf m hm, hmarkets, ?_⟩, ?_, ?_, ?_⟩
  · rw [hview, if_neg hm]
  · rw [htotal, if_neg hm.symm, sub_zero]
  · intro j f _
    rw [hsettlements]
  · rw [hview, if_pos rfl, State.assetView_of_find ha]
    rfl
  · rw [htotal, if_pos rfl]
  · intro j f hf
    rw [hsettlements] at hf
    exact ⟨f, hf, rfl, rfl⟩

variable {max pays receives : Asset}

theorem settles_of_fillCallOrder (h : Returns (fillCallOrder id pays receives) s closed s') :
    Settles receives.assetId receives.amount s s' ∧
      s'.forceSettlements = s.forceSettlements := by
  obtain ⟨order, a, s1, hfind, hdebt, -, -, hclosed, ha, -, hrelease, hs'⟩ := of_fillCallOrder h
  obtain ⟨hframe, -⟩ := of_releaseCollateral hrelease
  have hsettlements : s'.forceSettlements = s.forceSettlements := by rw [hs', hframe]
  have htime : s'.headBlockTime = s.headBlockTime := by rw [hs', hframe]
  have hassets : s'.assets = s.assets.modify receives.assetId fun _ =>
      { a with currentSupply := a.currentSupply + -receives.amount } := by rw [hs', hframe]
  have hcalls : s'.callOrders =
      if closed then (s.callOrders.modify id fun _ =>
        { order with
          debt := order.debt - receives.amount
          collateral := if closed then 0 else order.collateral - pays.amount }).remove id
      else s.callOrders.modify id fun _ =>
        { order with
          debt := order.debt - receives.amount
          collateral := if closed then 0 else order.collateral - pays.amount } := by
    rw [hs', hframe]
  have hzero (hc : closed) : order.debt - receives.amount = 0 :=
    of_decide_eq_true (hclosed.symm.trans hc)
  exact ⟨settles_of_book hfind hcalls hdebt rfl rfl hzero ha hassets hsettlements htime,
    hsettlements⟩

theorem of_cancelSettleOrder {u : Unit} (h : Returns (cancelSettleOrder id) s u s') :
    ∃ f, s.forceSettlements.find id = some f ∧
      s'.forceSettlements = s.forceSettlements.remove id ∧ Settles f.balance.assetId 0 s s' := by
  obtain ⟨f, hfind, h1⟩ := of_fetch h
  obtain ⟨_, t, hadjust, hremove⟩ := h1.of_bind
  have hfees := adjustBalance_feesOnly _ _ _ _ _ hadjust
  have hs' := Table.remove_iff.mp hremove
  have hfind' : t.forceSettlements.find id = some f := by rwa [hfees.forceSettlements]
  refine ⟨f, hfind, ?_, ?_⟩
  · rw [hs', ← hfees.forceSettlements]
    rfl
  · exact (Settles.of_feesOnly hfees).trans (Settles.of_remove hfind' rfl hs')

theorem of_fillSettleOrder {isMaker filled : Bool}
    (h : Returns (fillSettleOrder id pays receives isMaker) s filled s') :
    ∃ f, s.forceSettlements.find id = some f ∧ Settles f.balance.assetId 0 s s' ∧
      (s'.forceSettlements.find id = none ∨ pays.amount < f.balance.amount ∧
        s'.forceSettlements.find id =
          some { f with balance := ⟨f.balance.amount - pays.amount, f.balance.assetId⟩ }) := by
  obtain ⟨f, hfind, h1⟩ := of_fetch h
  obtain ⟨owner, -, h2⟩ := of_fetch h1
  obtain ⟨fees, t, hfees, h3⟩ := h2.of_bind
  obtain ⟨part, hpart, h4⟩ := h3.of_lift
  obtain ⟨_, t1, hupdate, h5⟩ := h4.of_bind
  obtain ⟨rest, -, h6⟩ := h5.of_lift
  obtain ⟨_, t2, hadjust, h7⟩ := h6.of_bind
  obtain ⟨_, t3, hremove, h8⟩ := h7.of_bind
  obtain ⟨-, rfl⟩ := h8.of_pure
  have hfees := payMarketFees_feesOnly _ _ _ _ _ _ _ hfees
  have hadjust := adjustBalance_feesOnly _ _ _ _ _ hadjust
  have hfind' : t.forceSettlements.find id = some f := by rwa [hfees.forceSettlements]
  refine ⟨f, hfind, ?_⟩
  have hstart : Settles f.balance.assetId 0 s t := Settles.of_feesOnly hfees
  have hcharge : Settles f.balance.assetId 0 t1 t2 := Settles.of_feesOnly hadjust
  rcases returns_onlyIf.mp hupdate with ⟨htrue, hupdate⟩ | ⟨hfalse, rfl⟩
  · -- part of it is left
    rcases returns_onlyIf.mp hremove with ⟨hfull, -⟩ | ⟨-, rfl⟩
    · rw [htrue] at hfull
      cases hfull
    obtain ⟨g, g', hg, hsub, ht1⟩ := Table.update_iff.mp hupdate
    obtain rfl : f = g := Option.some.inj (hfind'.symm.trans hg)
    obtain ⟨balance, hbalance, hg'⟩ := of_bind hsub
    cases hg'
    rw [htrue] at hpart
    obtain ⟨-, hlt⟩ := Asset.lt_eq_ok.mp hpart
    obtain ⟨-, rfl⟩ := Asset.sub_eq_ok hbalance
    have hfind1 : t1.forceSettlements.find id =
        some { f with balance := ⟨f.balance.amount - pays.amount, f.balance.assetId⟩ } := by
      rw [ht1]
      show (t.forceSettlements.modify id _).find id = _
      rw [Index.find_modify, if_pos rfl, hfind']
      rfl
    refine ⟨?_, Or.inr ⟨of_decide_eq_true hlt.symm, ?_⟩⟩
    · exact (hstart.trans (Settles.of_modify hfind' rfl ht1 rfl rfl)).trans hcharge
    · rw [hadjust.forceSettlements, hfind1]
  · rcases returns_onlyIf.mp hremove with ⟨-, hremove⟩ | ⟨hpart, -⟩
    · have hs' := Table.remove_iff.mp hremove
      have hfind2 : t2.forceSettlements.find id = some f := by rwa [hadjust.forceSettlements]
      refine ⟨(hstart.trans hcharge).trans (Settles.of_remove hfind2 rfl hs'), Or.inl ?_⟩
      rw [hs']
      show (t2.forceSettlements.remove id).find id = none
      rw [Index.find_remove, if_pos rfl]
    · exact absurd (Bool.eq_false_of_not_eq_true hfalse) hpart

variable {price : Price}

theorem of_settleAmounts {debt balance : Asset} {outcome : SettleMatch} (hp : GoodPrice price)
    (hid : balance.assetId = price.base.assetId) (hdebt : 0 < debt.amount)
    (hbalance : 0 < balance.amount) (hmax : 0 < max.amount)
    (h : settleAmounts debt balance max price = .ok outcome) {cull : Bool}
    (htrade : outcome = .trade pays receives cull) :
    receives.assetId = price.base.assetId ∧ 0 < receives.amount ∧
      receives.amount ≤ balance.amount ∧ receives.amount ≤ max.amount := by
  have hbase := hp.base_pos
  have hquote := hp.quote_pos
  obtain ⟨forSale, hforSale, h1⟩ := of_bind h
  obtain ⟨-, rfl⟩ := Asset.min_eq_ok hforSale
  obtain ⟨x, hx, h2⟩ := of_bind h1
  obtain ⟨-, hx⟩ := Asset.min_eq_ok hx
  dsimp only at hx
  have hx_id : x.assetId = price.base.assetId := by rw [hx]; exact hid
  have hx_pos : 0 < x.amount := by rw [hx]; exact lt_min (lt_min hbalance hmax) hdebt
  have hx_balance : x.amount ≤ balance.amount := by
    rw [hx]
    exact (min_le_left _ _).trans (min_le_left _ _)
  have hx_max : x.amount ≤ max.amount := by
    rw [hx]
    exact (min_le_left _ _).trans (min_le_right _ _)
  obtain ⟨value, hvalue, h3⟩ := of_bind h2
  obtain ⟨-, hnonneg, -, hvalue⟩ := (Asset.mul_base_eq_ok hx_id).mp hvalue
  by_cases hzero : value.amount = 0
  · rw [if_pos hzero] at h3
    by_cases hall : x = debt
    · rw [if_pos hall, htrade] at h3
      cases h3
      exact ⟨hx_id, hx_pos, hx_balance, hx_max⟩
    · rw [if_neg hall, htrade] at h3
      cases h3
  rw [if_neg hzero] at h3
  by_cases hall : x = debt
  · rw [if_pos hall] at h3
    obtain ⟨up, -, h4⟩ := of_bind h3
    rw [htrade] at h4
    cases h4
    exact ⟨hx_id, hx_pos, hx_balance, hx_max⟩
  · rw [if_neg hall] at h3
    obtain ⟨rounded, hrounded, h4⟩ := of_bind h3
    rw [htrade] at h4
    cases h4
    have hvalue_id : pays.assetId = price.quote.assetId := by rw [hvalue]
    obtain ⟨-, -, -, hreceives⟩ :=
      (Asset.multiplyAndRoundUp_quote_eq_ok hvalue_id hp.ids.symm).mp hrounded
    have hround : RoundsTo price.quote.amount price.base.amount x.amount pays.amount
        receives.amount := by
      constructor
      · rw [hvalue]
      · rw [hreceives]
        rfl
    have hvalue_pos : 0 < pays.amount := by
      refine lt_of_le_of_ne ?_ (Ne.symm hzero)
      rw [hvalue]
      exact Int.ediv_nonneg hnonneg hbase.le
    have hle := hround.le hquote hbase
    have hreceives_id : receives.assetId = price.base.assetId := by rw [hreceives]
    exact ⟨hreceives_id, hround.least_pos hquote hbase hvalue_pos, hle.trans hx_balance,
      hle.trans hx_max⟩

theorem of_matchSettle {callId : Nat} {f : ForceSettlement}
    (h : Returns (matchSettle callId id price max) s receives s') (hp : GoodPrice price)
    (hbase : price.base.assetId = mia) (hmax : 0 < max.amount)
    (hfind : s.forceSettlements.find id = some f) (hf : f.balance.assetId = mia) :
    receives.assetId = mia ∧ Settles mia receives.amount s s' ∧ 0 < f.balance.amount ∧
      (receives.amount = 0 ∧ (s'.forceSettlements.find id = none ∨ s' = s ∧ ∃ call,
            s.callOrders.find callId = some call ∧ call.debtType = mia ∧
            settleAmounts call.getDebt f.balance max price = .ok (.nothing false)) ∨
        0 < receives.amount ∧ receives.amount ≤ max.amount ∧
          (s'.forceSettlements.find id = none ∨ receives.amount < f.balance.amount ∧
            s'.forceSettlements.find id =
              some { f with balance := ⟨f.balance.amount - receives.amount, mia⟩ })) := by
  obtain ⟨call, hcall, h1⟩ := of_fetch h
  obtain ⟨g, hg, h2⟩ := of_fetch h1
  obtain rfl : f = g := Option.some.inj (hfind.symm.trans hg)
  obtain ⟨htype, h3⟩ := of_require h2
  obtain ⟨⟨hdebt, -, hbalance⟩, h4⟩ := of_require h3
  obtain ⟨outcome, hamounts, h5⟩ := h4.of_lift
  have htype' : call.debtType = mia := htype.trans hf
  cases outcome with
  | nothing cancel =>
    obtain ⟨_, t, hcancel, hreturn⟩ := h5.of_bind
    obtain ⟨rfl, rfl⟩ := hreturn.of_pure
    rcases returns_onlyIf.mp hcancel with ⟨-, hcancel⟩ | ⟨hkept, rfl⟩
    · obtain ⟨g, hg, hremove, hsettles⟩ := of_cancelSettleOrder hcancel
      obtain rfl : f = g := Option.some.inj (hfind.symm.trans hg)
      rw [hf] at hsettles
      refine ⟨hf, hsettles, hbalance, Or.inl ⟨rfl, Or.inl ?_⟩⟩
      rw [hremove, Index.find_remove, if_pos rfl]
    · rw [Bool.eq_false_of_not_eq_true hkept] at hamounts
      exact ⟨hf, Settles.refl _ _, hbalance, Or.inl ⟨rfl, Or.inr ⟨rfl, call, hcall, htype', hamounts⟩⟩⟩
  | trade pays r cull =>
    obtain ⟨hr_id, hr_pos, -, hr_max⟩ :=
      of_settleAmounts hp (hf.trans hbase.symm) hdebt hbalance hmax hamounts rfl
    rw [hbase] at hr_id
    obtain ⟨closed, t, hfillCall, h6⟩ := h5.of_bind
    obtain ⟨filled, t', hfillSettle, h7⟩ := h6.of_bind
    obtain ⟨_, t'', hcull, hreturn⟩ := h7.of_bind
    obtain ⟨rfl, rfl⟩ := hreturn.of_pure
    obtain ⟨hcovers, hsame⟩ := settles_of_fillCallOrder hfillCall
    rw [hr_id] at hcovers
    obtain ⟨g, hg, hpays, hleft⟩ := of_fillSettleOrder hfillSettle
    rw [hsame] at hg
    obtain rfl : f = g := Option.some.inj (hfind.symm.trans hg)
    rw [hf] at hpays hleft
    have hboth := hcovers.trans hpays
    rw [add_zero] at hboth
    rcases returns_onlyIf.mp hcull with ⟨-, hcancel⟩ | ⟨-, rfl⟩
    · -- what is left is dust
      obtain ⟨g, hg, hremove, hsettles⟩ := of_cancelSettleOrder hcancel
      have hg_id : g.balance.assetId = mia := by
        rcases hleft with hnone | ⟨-, hsome⟩
        · rw [hnone] at hg
          cases hg
        · rw [hsome] at hg
          cases hg
          rfl
      rw [hg_id] at hsettles
      have hall := hboth.trans hsettles
      rw [add_zero] at hall
      refine ⟨hr_id, hall, hbalance, Or.inr ⟨hr_pos, hr_max, Or.inl ?_⟩⟩
      rw [hremove, Index.find_remove, if_pos rfl]
    · exact ⟨hr_id, hboth, hbalance, Or.inr ⟨hr_pos, hr_max, hleft⟩⟩

end Meta1Core.Settlement

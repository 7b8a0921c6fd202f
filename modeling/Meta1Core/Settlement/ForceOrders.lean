import Meta1Core.Lib.Sorted
import Meta1Core.Settlement.ForceFrames

/-!
# One force settlement

The first settlement of an asset is matched until it is gone, until the volume of the asset is used
up, or until a match is in vain.  Each match takes from its balance, so this ends.
-/

namespace Meta1Core.Settlement

open Lib (Rows Index Returns KeyOrder)
open Protocol Ledger Market

structure IsFirst (m : AssetId) (id : Nat) (f : ForceSettlement) (s : State) : Prop where
  find : s.forceSettlements.find id = some f
  asset : f.balance.assetId = m
  least : ∀ id' f', s.forceSettlements.find id' = some f' → f'.balance.assetId = m →
    f.settlementDate < f'.settlementDate ∨ f.settlementDate = f'.settlementDate ∧ id ≤ id'

variable {m : AssetId} {id : Nat} {f : ForceSettlement} {r : Int} {s s' t : State}

namespace IsFirst

theorem unique (h : IsFirst m id f s) {id' : Nat} {f' : ForceSettlement}
    (h' : IsFirst m id' f' s) : id' = id ∧ f' = f := by
  have hle := h.least id' f' h'.find h'.asset
  have hge := h'.least id f h.find h.asset
  have hid : id' = id := by omega
  refine ⟨hid, Option.some.inj ?_⟩
  rw [← h.find, ← h'.find, hid]

theorem of_settles (h : IsFirst m id f s) {mia : AssetId} (hs : Settles mia r s s')
    {f' : ForceSettlement} (hfind : s'.forceSettlements.find id = some f') :
    IsFirst m id f' s' := by
  obtain ⟨g, hg, hasset, hdate⟩ := hs.settlements id f' hfind
  obtain rfl : f = g := Option.some.inj (h.find.symm.trans hg)
  refine ⟨hfind, hasset.trans h.asset, fun j g' hg' hm => ?_⟩
  obtain ⟨g, hg, hasset', hdate'⟩ := hs.settlements j g' hg'
  have hleast := h.least j g hg (hasset'.symm.trans hm)
  omega

theorem of_sameFor (h : SameFor m s s') (hfirst : IsFirst m id f s') : IsFirst m id f s where
  find := (h.settlements id f hfirst.asset).mp hfirst.find
  asset := hfirst.asset
  least j g hg hm := hfirst.least j g ((h.settlements j g hm).mpr hg) hm

end IsFirst

theorem pairwise_ordered {V K : Type} [LinearOrder K] {before : V → V → Prop}
    [DecidableRel before] {rows : List (Σ _ : Nat, V)} {key : V → K}
    (h : ∀ v v', before v v' ↔ key v < key v') :
    (ordered before rows).Pairwise (KeyOrder key) :=
  Lib.pairwise_insertionSort_of_key fun _ _ _ _ => h _ _

theorem pairwise_settlementsByExpiration (s : State) :
    (settlementsByExpiration s).Pairwise (KeyOrder fun f : ForceSettlement =>
      toLex (ForceSettlement.settlementAssetId f, f.settlementDate)) := by
  apply pairwise_ordered
  intro f f'
  rw [Prod.Lex.toLex_lt_toLex]

theorem mem_settlementsByExpiration {e : Σ _ : Nat, ForceSettlement} :
    e ∈ settlementsByExpiration s ↔ s.forceSettlements.find e.1 = some e.2 :=
  mem_ordered.trans Rows.mem_entries_iff

theorem of_find_settlement {q : AssetId → Prop} [DecidablePred q]
    (h : (settlementsByExpiration s).find? (fun e =>
      decide (q (ForceSettlement.settlementAssetId e.2))) = some ⟨id, f⟩) :
    IsFirst f.balance.assetId id f s ∧ q f.balance.assetId ∧
      ∀ id' f', s.forceSettlements.find id' = some f' → q f'.balance.assetId →
        f.balance.assetId ≤ f'.balance.assetId := by
  have hq : q f.balance.assetId := by
    have hsome := List.find?_some h
    exact of_decide_eq_true hsome
  have hfind := mem_settlementsByExpiration.mp (List.mem_of_find?_eq_some h)
  have hleast := Lib.find?_least (pairwise_settlementsByExpiration s) h
  have hkey (id' : Nat) (f' : ForceSettlement) (hf' : s.forceSettlements.find id' = some f')
      (hq' : q f'.balance.assetId) : f.balance.assetId < f'.balance.assetId ∨
        f.balance.assetId = f'.balance.assetId ∧ (f.settlementDate < f'.settlementDate ∨
          f.settlementDate = f'.settlementDate ∧ id ≤ id') := by
    have hmem : (⟨id', f'⟩ : Σ _ : Nat, ForceSettlement) ∈ settlementsByExpiration s :=
      mem_settlementsByExpiration.mpr hf'
    rcases hleast _ hmem (decide_eq_true hq') with heq | hkey
    · cases heq
      exact Or.inr ⟨rfl, Or.inr ⟨rfl, le_rfl⟩⟩
    rw [Lib.keyOrder_iff, Prod.Lex.toLex_lt_toLex, toLex_inj, Prod.mk.injEq] at hkey
    rcases hkey with (hlt | ⟨hasset, hdate⟩) | ⟨⟨hasset, hdate⟩, hid⟩
    · exact Or.inl hlt
    · exact Or.inr ⟨hasset, Or.inl hdate⟩
    · exact Or.inr ⟨hasset, Or.inr ⟨hdate, hid⟩⟩
  refine ⟨⟨hfind, rfl, fun id' f' hf' hm => ?_⟩, hq, fun id' f' hf' hq' => ?_⟩
  · rcases hkey id' f' hf' (by rw [hm]; exact hq) with hlt | ⟨-, hdate⟩
    · exact absurd hlt hm.not_gt
    · exact hdate
  · rcases hkey id' f' hf' hq' with hlt | ⟨heq, -⟩
    · exact hlt.le
    · exact heq.le

theorem of_find_settlement_none {q : AssetId → Prop} [DecidablePred q]
    (h : (settlementsByExpiration s).find? (fun e =>
      decide (q (ForceSettlement.settlementAssetId e.2))) = none)
    (hf : s.forceSettlements.find id = some f) : ¬q f.balance.assetId := by
  intro hq
  exact List.find?_eq_none.mp h ⟨id, f⟩ (mem_settlementsByExpiration.mpr hf) (decide_eq_true hq)

def settleWeight (current : AssetId) (f : ForceSettlement) : Int :=
  if current < f.balance.assetId then 4 else 2

theorem two_le_settleWeight (current : AssetId) (f : ForceSettlement) :
    2 ≤ settleWeight current f := by
  unfold settleWeight
  split <;> omega

def leftToSettle (current : AssetId) (s : State) : Int :=
  s.forceSettlements.total fun _ f => settleWeight current f

theorem leftToSettle_nonneg (current : AssetId) (s : State) : 0 ≤ leftToSettle current s := by
  apply Index.total_nonneg
  intro id f _
  have := two_le_settleWeight current f
  omega

theorem leftToSettle_remove (hf : s.forceSettlements.find id = some f) (current : AssetId) :
    leftToSettle current s = settleWeight current f +
      (s.forceSettlements.remove id).total fun _ f => settleWeight current f := by
  have hremove := Index.total_remove
    (fun (_ : Nat) (f : ForceSettlement) => settleWeight current f) hf
  unfold leftToSettle
  omega

theorem leftToSettle_le (h : Settles m r s s') (current : AssetId) :
    leftToSettle current s' ≤ leftToSettle current s := by
  apply Index.total_le_total
  · intro id f _
    have := two_le_settleWeight current f
    omega
  · intro id f' hf'
    obtain ⟨f, hf, hasset, -⟩ := h.settlements id f' hf'
    refine ⟨f, hf, ?_⟩
    unfold settleWeight
    rw [hasset]

theorem leftToSettle_of_gone (h : Settles m r s s') (hf : s.forceSettlements.find id = some f)
    (hgone : s'.forceSettlements.find id = none) (current : AssetId) :
    leftToSettle current s' + 2 ≤ leftToSettle current s := by
  have hle : leftToSettle current s' ≤
      (s.forceSettlements.remove id).total fun _ f => settleWeight current f := by
    apply Index.total_le_total
    · intro j g _
      have := two_le_settleWeight current g
      omega
    · intro j g' hg'
      obtain ⟨g, hg, hasset, -⟩ := h.settlements j g' hg'
      have hne : j ≠ id := by
        rintro rfl
        rw [hgone] at hg'
        cases hg'
      refine ⟨g, by rw [Index.find_remove, if_neg hne, hg], ?_⟩
      unfold settleWeight
      rw [hasset]
  have hweight := two_le_settleWeight current f
  rw [leftToSettle_remove hf]
  omega

theorem leftToSettle_of_lt {current next : AssetId} (hlt : current < next)
    (hf : s.forceSettlements.find id = some f) (hnext : f.balance.assetId = next) :
    leftToSettle next s + 2 ≤ leftToSettle current s := by
  have hle : ((s.forceSettlements.remove id).total fun _ f => settleWeight next f) ≤
      (s.forceSettlements.remove id).total fun _ f => settleWeight current f := by
    apply Index.total_le_total
    · intro j g _
      have := two_le_settleWeight current g
      omega
    · intro j g hg
      refine ⟨g, hg, ?_⟩
      unfold settleWeight
      split
      · rename_i hlater
        rw [if_pos (hlt.trans hlater)]
      · split <;> omega
  have hnow : settleWeight next f = 2 := if_neg hnext.not_gt
  have hbefore : settleWeight current f = 4 := if_pos (hlt.trans_eq hnext.symm)
  rw [leftToSettle_remove hf, leftToSettle_remove hf current]
  omega

/-! ## A match in vain -/

def marketOf (p : Price) : AssetId ×ₗ AssetId := toLex (p.base.assetId, p.quote.assetId)

theorem lt_of_market {p q : Price} (h : marketOf p < marketOf q) : p.lt q ∧ ¬q.lt p := by
  unfold Price.lt
  rcases Prod.Lex.toLex_lt_toLex.mp h with hbase | ⟨hbase, hquote⟩
  · exact ⟨Or.inl hbase, fun hqp => hqp.elim hbase.asymm fun hqp => hbase.ne' hqp.1⟩
  · refine ⟨Or.inr ⟨hbase, Or.inl hquote⟩, fun hqp => ?_⟩
    rcases hqp with hqp | ⟨-, hqp | ⟨hqp, -⟩⟩
    · exact hqp.ne' hbase
    · exact hquote.asymm hqp
    · exact hquote.ne' hqp

/-- Which call order of an asset is the least collateralized one is not changed by what settlements of
other assets do. -/
theorem SameFor.leastCollateralized (h : SameFor m s s') {backing : AssetId}
    {e : Σ _ : Nat, CallOrder} (hleast : leastCollateralized backing m s = some e)
    (htype : e.2.debtType = m) : Settlement.leastCollateralized backing m s' = some e := by
  obtain ⟨market, hmarket⟩ : ∃ market : (Σ _ : Nat, CallOrder) → AssetId ×ₗ AssetId,
      market = fun b => marketOf b.2.collateralization := ⟨_, rfl⟩
  have hr (a b : Σ _ : Nat, CallOrder) (hlt : market a < market b) :
      (a.2.collateralization.lt b.2.collateralization ∨
        ¬b.2.collateralization.lt a.2.collateralization ∧ a.1 ≤ b.1) ∧
      ¬(b.2.collateralization.lt a.2.collateralization ∨
        ¬a.2.collateralization.lt b.2.collateralization ∧ b.1 ≤ a.1) := by
    rw [hmarket] at hlt
    obtain ⟨hbefore, hafter⟩ := lt_of_market hlt
    exact ⟨Or.inl hbefore, fun hba => hba.elim hafter fun hba => hba.1 hbefore⟩
  have hle := Lib.key_le_of_head? hr hleast
  refine Lib.head?_of_sameClass hr hleast (fun b hb => ?_) ?_
  · obtain ⟨hmem, hmin⟩ := List.mem_filter.mp hb
    by_cases hb_type : b.2.debtType = m
    · -- an order of the asset is the same before
      have hsame : b ∈ callsOf m s' := List.mem_filter.mpr ⟨hmem, decide_eq_true hb_type⟩
      rw [h.calls] at hsame
      exact hle b (List.mem_filter.mpr ⟨(List.mem_filter.mp hsame).1, hmin⟩)
    · -- one of another asset was in the same market before
      obtain ⟨o, ho, hprice⟩ := h.markets b.1 b.2 (Rows.mem_entries_iff.mp hmem)
      have hsame : marketOf o.collateralization = marketOf b.2.collateralization := by
        show marketOf o.callPrice = marketOf b.2.callPrice
        rw [hprice]
      have hlt : marketOf (Price.min backing m) < marketOf o.collateralization := by
        rw [hsame]
        refine lt_of_not_ge fun hge => of_decide_eq_true hmin (lt_of_market ?_).1
        refine lt_of_le_of_ne hge fun heq => hb_type ?_
        exact (Prod.mk.inj (toLex_inj.mp heq)).2
      rw [hmarket] at hle ⊢
      dsimp only at hle ⊢
      rw [← hsame]
      exact hle ⟨b.1, o⟩ (List.mem_filter.mpr
        ⟨Rows.mem_entries_iff.mpr ho, decide_eq_true (lt_of_market hlt).2⟩)
  · have hclass (s : State) : ((s.callOrders.rows.entries.filter fun b =>
          (Price.min backing m).le b.2.collateralization).filter fun b => market b = market e) =
        ((callsOf m s).filter fun b =>
          (Price.min backing m).le b.2.collateralization).filter fun b => market b = market e := by
      unfold callsOf
      rw [List.filter_filter, List.filter_filter, List.filter_filter]
      refine List.filter_congr fun b _ => ?_
      by_cases hb : market b = market e
      · have hb_type : b.2.debtType = m := by
          rw [hmarket] at hb
          exact (Prod.mk.inj (toLex_inj.mp hb)).2.trans htype
        simp [hb_type]
      · simp [hb]
    rw [hclass, hclass, h.calls]

/-- No collateral is worth what is left of the volume: a match with the least collateralized call order
is in vain. -/
def NoMatch (m backing : AssetId) (f : ForceSettlement) (remaining : Int) (price : Price)
    (s : State) : Prop :=
  ∃ e, leastCollateralized backing m s = some e ∧ e.2.debtType = m ∧
    settleAmounts e.2.getDebt f.balance ⟨remaining, m⟩ price = .ok (.nothing false)

/-- What the inner loop does to the settlement `id` -/
structure OrderSettled (c : Cursor) (backing : AssetId) (id : Nat) (settled settled' : Asset)
    (inVain : Bool) (s s' : State) : Prop where
  asset : settled'.assetId = c.currentAsset
  settles : Settles c.currentAsset (settled'.amount - settled.amount) s s'
  le : settled.amount ≤ settled'.amount
  capped : settled'.amount = settled.amount ∨ settled'.amount ≤ c.maxSettlementVolume.amount
  vain : inVain = true → ∃ f, s'.forceSettlements.find id = some f ∧
    NoMatch c.currentAsset backing f (c.maxSettlementVolume.amount - settled'.amount)
      c.settlementFillPrice s'
  done : inVain = false → s'.forceSettlements.find id = none ∨
    c.maxSettlementVolume.amount ≤ settled'.amount

theorem of_settleOrder {c : Cursor} {backing : AssetId} (hp : GoodPrice c.settlementFillPrice)
    (hbase : c.settlementFillPrice.base.assetId = c.currentAsset) {fuel : Nat} {settled : Asset}
    (hsettled : settled.assetId = c.currentAsset) (hfuel : 0 < fuel)
    (hasset : ∀ f, s.forceSettlements.find id = some f → f.balance.assetId = c.currentAsset)
    (hbalance : ∀ f, s.forceSettlements.find id = some f → f.balance.amount.toNat < fuel)
    {result : Option (Asset × Bool)}
    (h : Returns (settleOrder c backing id fuel settled) s result s') :
    ∃ settled' inVain, result = some (settled', inVain) ∧
      OrderSettled c backing id settled settled' inVain s s' := by
  induction fuel generalizing s settled with
  | zero => omega
  | succ fuel ih =>
    unfold settleOrder at h
    obtain ⟨below, hbelow, h1⟩ := h.of_lift
    obtain ⟨hmax, hbelow⟩ := Asset.lt_eq_ok.mp hbelow
    have h2 := h1.of_get
    have hrefl : Settles c.currentAsset (settled.amount - settled.amount) s s := by
      rw [sub_self]
      exact Settles.refl _ _
    rcases h2.of_ite with ⟨hstop, hreturn⟩ | ⟨hgo, h3⟩
    · -- the volume is used up, or the settlement is gone
      obtain ⟨rfl, rfl⟩ := hreturn.of_pure
      refine ⟨settled, false, rfl, hsettled, hrefl, le_rfl, Or.inl rfl, nofun, fun _ => ?_⟩
      rcases hstop with hfull | hgone
      · right
        rw [hbelow, decide_eq_true_eq] at hfull
        exact not_lt.mp hfull
      · exact Or.inl hgone
    obtain ⟨hlt, hthere⟩ := not_or.mp hgo
    rw [hbelow, decide_eq_true_eq, not_not] at hlt
    obtain ⟨f, hf⟩ := Option.ne_none_iff_exists'.mp hthere
    have h4 := h3.of_get
    split at h4
    · exact (Returns.throw_iff.mp h4).elim
    rename_i callId call hleast
    obtain ⟨_, -, h5⟩ := h4.of_lift
    obtain ⟨maxSettlement, hsub, h6⟩ := h5.of_lift
    obtain ⟨-, rfl⟩ := Asset.sub_eq_ok hsub
    obtain ⟨order, horder, h7⟩ := of_fetch h6
    obtain rfl : f = order := Option.some.inj (hf.symm.trans horder)
    have hf_id := hasset f hf
    rcases h7.of_ite with ⟨-, hcancel⟩ | ⟨-, h8⟩
    · -- nothing is left of the balance
      obtain ⟨_, t, hcancel, hreturn⟩ := hcancel.of_bind
      obtain ⟨rfl, rfl⟩ := hreturn.of_pure
      obtain ⟨g, hg, hremove, hsettles⟩ := of_cancelSettleOrder hcancel
      obtain rfl : f = g := Option.some.inj (hf.symm.trans hg)
      have hgone : s'.forceSettlements.find id = none := by
        rw [hremove, Index.find_remove, if_pos rfl]
      rw [hf_id] at hsettles
      refine ⟨settled, false, rfl, hsettled, ?_, le_rfl, Or.inl rfl, nofun, fun _ => Or.inl hgone⟩
      rw [sub_self]
      exact hsettles
    obtain ⟨newSettled, t, hmatch, h9⟩ := h8.of_bind
    obtain ⟨hnew_id, hsettles, hpos, houtcome⟩ := of_matchSettle hmatch hp hbase
      (show 0 < c.maxSettlementVolume.amount - settled.amount by omega) hf hf_id
    rcases houtcome with ⟨hzero, hleft⟩ | ⟨hnew_pos, hnew_le, hleft⟩
    · -- the match is in vain, or the settlement is cancelled
      rw [if_pos hzero] at h9
      have h10 := h9.of_get
      obtain ⟨rfl, rfl⟩ := h10.of_pure
      rw [hzero] at hsettles
      refine ⟨settled, _, rfl, hsettled, ?_, le_rfl, Or.inl rfl, fun hvain => ?_, fun hdone => ?_⟩
      · rw [sub_self]
        exact hsettles
      · rcases hleft with hgone | ⟨rfl, call', hcall', htype, hamounts⟩
        · exact absurd hgone (of_decide_eq_true hvain)
        · obtain rfl : call = call' :=
            Option.some.inj ((find_of_leastCollateralized hleast).symm.trans hcall')
          refine ⟨f, hf, _, hleast, htype, ?_⟩
          rw [← hmax, hsettled] at hamounts
          exact hamounts
      · exact Or.inl (not_not.mp (of_decide_eq_false hdone))
    · rw [if_neg hnew_pos.ne'] at h9
      obtain ⟨sum, hsum, h10⟩ := h9.of_lift
      obtain ⟨-, rfl⟩ := Asset.add_eq_ok hsum
      have hfuel' := hbalance f hf
      have hleft_id (g : ForceSettlement) (hg : t.forceSettlements.find id = some g) :
          g.balance.assetId = c.currentAsset ∧ g.balance.amount.toNat < fuel := by
        rcases hleft with hgone | ⟨hless, hsome⟩
        · rw [hgone] at hg
          cases hg
        · rw [hsome] at hg
          cases hg
          refine ⟨rfl, ?_⟩
          show (f.balance.amount - newSettled.amount).toNat < fuel
          omega
      have hsum_id : (⟨settled.amount + newSettled.amount, settled.assetId⟩ : Asset).assetId =
          c.currentAsset := hsettled
      obtain ⟨settled', inVain, rfl, hrest⟩ := ih hsum_id (by omega)
        (fun g hg => (hleft_id g hg).1) (fun g hg => (hleft_id g hg).2) h10
      have hle := hrest.le
      have hcapped := hrest.capped
      have hsum := hsettles.trans hrest.settles
      dsimp only at hle hcapped hsum hnew_le
      rw [show newSettled.amount + (settled'.amount - (settled.amount + newSettled.amount)) =
        settled'.amount - settled.amount by omega] at hsum
      exact ⟨settled', inVain, rfl, hrest.asset, hsum, by omega, by omega, hrest.vain, hrest.done⟩

end Meta1Core.Settlement

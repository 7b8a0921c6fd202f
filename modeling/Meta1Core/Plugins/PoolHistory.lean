import Mathlib.Data.List.Pairwise
import Meta1Core.Fc.Exception
import Meta1Core.Lib.Ranges
import Meta1Core.Lib.Sorted

/-!
# The history of a liquidity pool (`market_history_plugin.hpp`, `api.cpp`)

The container has its objects in four orders, each of which lists the pools one after the other and
the newest object of a pool first.
-/

namespace Meta1Core.Plugins

open Lib (ClosedBelow lowerBound collect)

/-- `liquidity_pool_history_object`; `ω` are the operations with their results. -/
structure LiquidityPoolHistory (ω : Type) where
  id : Nat
  pool : Nat
  sequence : Nat
  time : Nat
  opType : Int
  op : ω
  deriving DecidableEq

/-- `liquidity_pool_history_index`: its objects, and the unique keys `by_id` and `by_pool_seq` -/
structure LiquidityPoolHistoryIndex (ω : Type) where
  objects : List (LiquidityPoolHistory ω)
  byId : objects.Pairwise fun a b => a.id ≠ b.id
  byPoolSeq : objects.Pairwise fun a b => ¬(a.pool = b.pool ∧ a.sequence = b.sequence)

variable {ω γ : Type} [LinearOrder γ]

/-! ## Orders -/

/-- `std::greater< uint64_t >` of the sequences -/
def NewerSequence (a b : LiquidityPoolHistory ω) : Prop := b.sequence < a.sequence

/-- `std::greater< time_point_sec >`, then `std::greater< uint64_t >` -/
def NewerTime (a b : LiquidityPoolHistory ω) : Prop :=
  b.time < a.time ∨ b.time = a.time ∧ b.sequence < a.sequence

instance : DecidableRel (NewerSequence (ω := ω)) := fun _ _ => inferInstanceAs (Decidable (_ < _))

instance : DecidableRel (NewerTime (ω := ω)) := fun _ _ => inferInstanceAs (Decidable (_ ∨ _))

/-- The order of an index: the groups in their order, and in a group the newer before the older -/
def Grouped (group : LiquidityPoolHistory ω → γ)
    (newer : LiquidityPoolHistory ω → LiquidityPoolHistory ω → Prop)
    (a b : LiquidityPoolHistory ω) : Prop :=
  group a < group b ∨ group a = group b ∧ newer a b

instance (group : LiquidityPoolHistory ω → γ)
    (newer : LiquidityPoolHistory ω → LiquidityPoolHistory ω → Prop) [DecidableRel newer] :
    DecidableRel (Grouped group newer) := fun _ _ => inferInstanceAs (Decidable (_ ∨ _))

def LiquidityPoolHistoryIndex.ordered (h : LiquidityPoolHistoryIndex ω)
    (before : LiquidityPoolHistory ω → LiquidityPoolHistory ω → Prop) [DecidableRel before] :
    List (LiquidityPoolHistory ω) :=
  h.objects.insertionSort fun a b => ¬before b a

/-- The first part of the keys of `by_pool_seq` and `by_pool_time` -/
def byPool (e : LiquidityPoolHistory ω) : Nat := e.pool

/-- The first parts of the keys of `by_pool_op_type_seq` and `by_pool_op_type_time` -/
def byPoolOpType (e : LiquidityPoolHistory ω) : Nat ×ₗ Int := toLex (e.pool, e.opType)

/-- Before the key that a query by sequence begins at; a key without its last part compares the other
parts only. -/
def beforeStart (group : LiquidityPoolHistory ω → γ) (target : γ) (start : Option Nat)
    (e : LiquidityPoolHistory ω) : Bool :=
  group e < target || (group e = target && start.any fun start => start < e.sequence)

def notBehindStop (group : LiquidityPoolHistory ω → γ) (target : γ) (stop : Option Nat)
    (e : LiquidityPoolHistory ω) : Bool :=
  !(target < group e || (group e = target && stop.any fun stop => e.time < stop))

def LiquidityPoolHistoryIndex.collectBySequence (h : LiquidityPoolHistoryIndex ω)
    (group : LiquidityPoolHistory ω → γ) (target : γ) (start stop : Option Nat) (limit : Nat) :
    Except Exception (List (LiquidityPoolHistory ω)) :=
  let idx := h.ordered (Grouped group NewerSequence)
  let idxT := h.ordered (Grouped group NewerTime)
  let itr := lowerBound (beforeStart group target start) idx
  let itrTemp := lowerBound (notBehindStop group target stop) idxT
  let itrStop :=
    match idxT[itrTemp]? with
    | none => idx.length
    -- `idx.iterator_to( *itr_temp )`
    | some e => idx.findIdx fun e' => e'.id = e.id
  match collect idx itrStop limit itr with
  | none => .error .undefined
  | some result => .ok result

structure HistoryApi (ω : Type) where
  hasMarketHistoryPlugin : Bool
  apiLimitGetLiquidityPoolHistory : Nat
  chainDatabase : Option (LiquidityPoolHistoryIndex ω)

def HistoryApi.getLiquidityPoolHistoryBySequence (api : HistoryApi ω) (poolId : Nat)
    (start stop olimit : Option Nat) (operationType : Option Int) :
    Except Exception (List (LiquidityPoolHistory ω)) := do
  fcAssert (api.hasMarketHistoryPlugin = true) "Market history plugin is not enabled."
  let limit := olimit.getD 101
  fcAssert (limit ≤ api.apiLimitGetLiquidityPoolHistory)
    "limit can not be greater than ${configured_limit}"
  match api.chainDatabase with
  | none => .error (.fc "Internal error: the chain database is not availalbe")
  | some h =>
    if limit = 0 then return []
    else
      match operationType with
      | some operationType =>
        h.collectBySequence byPoolOpType (toLex (poolId, operationType)) start stop limit
      | none => h.collectBySequence byPool poolId start stop limit

namespace LiquidityPoolHistoryIndex

variable {h : LiquidityPoolHistoryIndex ω} {group : LiquidityPoolHistory ω → γ} {target : γ}

/-- The times of a pool do not decrease when its sequences increase. -/
def Chronological (h : LiquidityPoolHistoryIndex ω) : Prop :=
  ∀ a ∈ h.objects, ∀ b ∈ h.objects, a.pool = b.pool → a.sequence < b.sequence → a.time ≤ b.time

variable {a b e : LiquidityPoolHistory ω}

theorem eq_of_sequence (h : LiquidityPoolHistoryIndex ω) (ha : a ∈ h.objects) (hb : b ∈ h.objects)
    (hpool : a.pool = b.pool) (hsequence : a.sequence = b.sequence) : a = b := by
  by_contra hne
  have hsymm : Std.Symm fun a b : LiquidityPoolHistory ω =>
      ¬(a.pool = b.pool ∧ a.sequence = b.sequence) :=
    ⟨fun a b hab hba => hab ⟨hba.1.symm, hba.2.symm⟩⟩
  exact h.byPoolSeq.forall ha hb hne ⟨hpool, hsequence⟩

theorem mem_ordered {before : LiquidityPoolHistory ω → LiquidityPoolHistory ω → Prop}
    [DecidableRel before] : e ∈ h.ordered before ↔ e ∈ h.objects :=
  List.mem_insertionSort _

theorem Chronological.newerTime_iff (hchrono : h.Chronological) (ha : a ∈ h.objects)
    (hb : b ∈ h.objects) (hpool : a.pool = b.pool) :
    NewerTime a b ↔ NewerSequence a b := by
  unfold NewerTime NewerSequence
  constructor
  · rintro (hlt | ⟨-, hlt⟩)
    · by_contra hle
      rcases Nat.lt_or_eq_of_le (Nat.not_lt.mp hle) with hlt' | heq
      · exact absurd (hchrono a ha b hb hpool hlt') (Nat.not_le.mpr hlt)
      · rw [h.eq_of_sequence ha hb hpool heq] at hlt
        exact Nat.lt_irrefl _ hlt
    · exact hlt
  · intro hlt
    have hle := hchrono b hb a ha hpool.symm hlt
    rcases Nat.lt_or_eq_of_le hle with hlt' | heq
    · exact .inl hlt'
    · exact .inr ⟨heq, hlt⟩

theorem Chronological.ordered_eq (hchrono : h.Chronological)
    (hgroup : ∀ a b, group a = group b → a.pool = b.pool) :
    h.ordered (Grouped group NewerTime) = h.ordered (Grouped group NewerSequence) := by
  apply Lib.insertionSort_congr
  intro a ha b hb
  apply not_congr
  unfold Grouped
  apply or_congr_right
  apply and_congr_right
  intro heq
  exact hchrono.newerTime_iff hb ha (hgroup b a heq)

theorem ordered_pairwise (h : LiquidityPoolHistoryIndex ω)
    (hgroup : ∀ a b, group a = group b → a.pool = b.pool) :
    (h.ordered (Grouped group NewerSequence)).Pairwise (Grouped group NewerSequence) := by
  have hnot : ∀ a b : LiquidityPoolHistory ω, ¬Grouped group NewerSequence b a ↔
      group a < group b ∨ group a = group b ∧ b.sequence ≤ a.sequence := by
    intro a b
    unfold Grouped NewerSequence
    rcases lt_trichotomy (group a) (group b) with hlt | heq | hlt
    · simp [hlt, hlt.not_gt, hlt.ne']
    · simp [heq]
    · simp [hlt, hlt.not_gt, hlt.ne']
  have htotal : Std.Total fun a b : LiquidityPoolHistory ω => ¬Grouped group NewerSequence b a := by
    constructor
    intro a b
    rw [hnot, hnot]
    rcases lt_trichotomy (group a) (group b) with hlt | heq | hlt
    · exact .inl (.inl hlt)
    · rcases le_total b.sequence a.sequence with hle | hle
      · exact .inl (.inr ⟨heq, hle⟩)
      · exact .inr (.inr ⟨heq.symm, hle⟩)
    · exact .inr (.inl hlt)
  have htrans : IsTrans (LiquidityPoolHistory ω) fun a b => ¬Grouped group NewerSequence b a := by
    constructor
    intro a b c hab hbc
    rw [hnot] at hab hbc ⊢
    rcases hab with hab | ⟨hab, hle⟩
    · rcases hbc with hbc | ⟨hbc, -⟩
      · exact .inl (hab.trans hbc)
      · exact .inl (hbc ▸ hab)
    · rcases hbc with hbc | ⟨hbc, hle'⟩
      · exact .inl (hab.symm ▸ hbc)
      · exact .inr ⟨hab.trans hbc, hle'.trans hle⟩
  have hsorted : (h.ordered (Grouped group NewerSequence)).Pairwise
      fun a b => ¬Grouped group NewerSequence b a := List.pairwise_insertionSort _ _
  have hunique : (h.ordered (Grouped group NewerSequence)).Pairwise
      fun a b => ¬(a.pool = b.pool ∧ a.sequence = b.sequence) := by
    apply h.byPoolSeq.perm (List.perm_insertionSort _ _).symm
    exact fun hab hba => hab ⟨hba.1.symm, hba.2.symm⟩
  refine (hsorted.and hunique).imp fun {a b} hab => ?_
  rcases (hnot a b).mp hab.1 with hlt | ⟨heq, hle⟩
  · exact .inl hlt
  · refine .inr ⟨heq, Nat.lt_of_le_of_ne hle fun hsequence => ?_⟩
    exact hab.2 ⟨hgroup a b heq, hsequence.symm⟩

variable {start stop : Option Nat} {limit : Nat}

theorem beforeStart_iff :
    beforeStart group target start e = true ↔
      group e < target ∨ group e = target ∧ ∃ s ∈ start, s < e.sequence := by
  unfold beforeStart
  rw [Bool.or_eq_true, Bool.and_eq_true, decide_eq_true_iff, decide_eq_true_iff, Option.any_eq_true]
  simp

theorem notBehindStop_iff :
    notBehindStop group target stop e = true ↔
      ¬(target < group e ∨ group e = target ∧ ∃ t ∈ stop, e.time < t) := by
  unfold notBehindStop
  rw [Bool.not_eq_true', ← Bool.not_eq_true, Bool.or_eq_true, Bool.and_eq_true, decide_eq_true_iff,
    decide_eq_true_iff, Option.any_eq_true]
  simp

theorem closedBelow_beforeStart (h : LiquidityPoolHistoryIndex ω)
    (hgroup : ∀ a b, group a = group b → a.pool = b.pool) :
    ClosedBelow (beforeStart group target start) (h.ordered (Grouped group NewerSequence)) := by
  apply ClosedBelow.of_pairwise (h.ordered_pairwise hgroup)
  intro a b hab hb
  rw [beforeStart_iff] at hb ⊢
  rcases hab with hlt | ⟨heq, hnewer⟩
  · rcases hb with hb | ⟨hb, -⟩
    · exact .inl (hlt.trans hb)
    · exact .inl (hb ▸ hlt)
  · rw [heq]
    refine hb.imp_right fun ⟨htarget, s, hs, hlt⟩ => ⟨htarget, s, hs, ?_⟩
    exact Nat.lt_trans hlt hnewer

theorem Chronological.closedBelow_notBehindStop (hchrono : h.Chronological)
    (hgroup : ∀ a b, group a = group b → a.pool = b.pool) :
    ClosedBelow (notBehindStop group target stop) (h.ordered (Grouped group NewerSequence)) := by
  refine (h.ordered_pairwise hgroup).imp_of_mem fun {a b} ha hb hab hnot => ?_
  rw [notBehindStop_iff] at hnot ⊢
  rintro (hlt | ⟨heq, t, ht, hlt⟩)
  · apply hnot
    rcases hab with hab | ⟨hab, -⟩
    · exact .inl (hlt.trans hab)
    · exact .inl (hab ▸ hlt)
  · apply hnot
    rcases hab with hab | ⟨hab, hnewer⟩
    · exact .inl (heq ▸ hab)
    · have hle := hchrono b (mem_ordered.mp hb) a (mem_ordered.mp ha) (hgroup b a hab.symm) hnewer
      exact .inr ⟨hab.symm.trans heq, t, ht, Nat.lt_of_le_of_lt hle hlt⟩

theorem Chronological.collectBySequence_eq (hchrono : h.Chronological)
    (hgroup : ∀ a b, group a = group b → a.pool = b.pool) :
    h.collectBySequence group target start stop limit =
      match collect (h.ordered (Grouped group NewerSequence))
        (lowerBound (notBehindStop group target stop) (h.ordered (Grouped group NewerSequence))) limit
        (lowerBound (beforeStart group target start) (h.ordered (Grouped group NewerSequence))) with
      | none => .error .undefined
      | some result => .ok result := by
  have hids : (h.ordered (Grouped group NewerSequence)).Pairwise fun a b => a.id ≠ b.id := by
    apply h.byId.perm (List.perm_insertionSort _ _).symm
    exact fun hab => Ne.symm hab
  unfold collectBySequence
  rw [hchrono.ordered_eq hgroup]
  generalize h.ordered (Grouped group NewerSequence) = idx at hids ⊢
  dsimp only
  cases hlookup : idx[lowerBound (notBehindStop group target stop) idx]? with
  | none =>
    have hle := List.getElem?_eq_none_iff.mp hlookup
    rw [Nat.le_antisymm (Lib.lowerBound_le _ idx) hle]
  | some e =>
    dsimp only
    rw [Lib.findIdx_key_eq hids hlookup]

end LiquidityPoolHistoryIndex

/-! ## The answer -/

def newest (limit : Nat) (entries : List (LiquidityPoolHistory ω)) : List (LiquidityPoolHistory ω) :=
  (entries.insertionSort fun a b => b.sequence ≤ a.sequence).take limit

/-- The entry is of the pool, and of the type if one is given, not after `start` and not before
`stop`. -/
def Asked (poolId : Nat) (start stop : Option Nat) (operationType : Option Int)
    (e : LiquidityPoolHistory ω) : Prop :=
  e.pool = poolId ∧ (∀ type ∈ operationType, e.opType = type) ∧ (∀ s ∈ start, e.sequence ≤ s) ∧
    ∀ t ∈ stop, t ≤ e.time

instance (poolId : Nat) (start stop : Option Nat) (operationType : Option Int) :
    DecidablePred (Asked (ω := ω) poolId start stop operationType) := fun _ =>
  inferInstanceAs (Decidable (_ ∧ _ ∧ _ ∧ _))

namespace LiquidityPoolHistoryIndex

variable {h : LiquidityPoolHistoryIndex ω} {group : LiquidityPoolHistory ω → γ} {target : γ}
  {start stop : Option Nat} {limit : Nat}

/-- No entry of the group is both after `start` and before `stop`. -/
def Uncrossed (h : LiquidityPoolHistoryIndex ω) (group : LiquidityPoolHistory ω → γ) (target : γ)
    (start stop : Option Nat) : Prop :=
  ∀ s ∈ start, ∀ t ∈ stop, ∀ e ∈ h.objects, group e = target → e.sequence ≤ s ∨ t ≤ e.time

theorem Chronological.lowerBound_le_iff (hchrono : h.Chronological)
    (hgroup : ∀ a b, group a = group b → a.pool = b.pool) :
    lowerBound (beforeStart group target start) (h.ordered (Grouped group NewerSequence)) ≤
        lowerBound (notBehindStop group target stop) (h.ordered (Grouped group NewerSequence)) ↔
      h.Uncrossed group target start stop := by
  have hstart : ClosedBelow (beforeStart group target start)
      (h.ordered (Grouped group NewerSequence)) := h.closedBelow_beforeStart hgroup
  have hstop : ClosedBelow (notBehindStop group target stop)
      (h.ordered (Grouped group NewerSequence)) := hchrono.closedBelow_notBehindStop hgroup
  constructor
  · intro hle s hs t ht e he htarget
    by_contra hcrossed
    obtain ⟨hafter, hbefore⟩ := not_or.mp hcrossed
    obtain ⟨i, hi, rfl⟩ := List.getElem_of_mem
      (mem_ordered.mpr he : e ∈ h.ordered (Grouped group NewerSequence))
    have hlt := (hstart.lt_lowerBound_iff hi).mpr
      (beforeStart_iff.mpr (.inr ⟨htarget, s, hs, Nat.not_le.mp hafter⟩))
    have hnot := (hstop.lt_lowerBound_iff hi).mp (Nat.lt_of_lt_of_le hlt hle)
    exact notBehindStop_iff.mp hnot (.inr ⟨htarget, t, ht, Nat.not_le.mp hbefore⟩)
  · intro huncrossed
    by_contra hlt
    have hlt := Nat.not_le.mp hlt
    -- the entry at the end position
    have hi := Nat.lt_of_lt_of_le hlt (Lib.lowerBound_le _ _)
    have hbefore := beforeStart_iff.mp ((hstart.lt_lowerBound_iff hi).mp hlt)
    have hbehind := mt (hstop.lt_lowerBound_iff hi).mpr (Nat.lt_irrefl _)
    rw [notBehindStop_iff, not_not] at hbehind
    have he := mem_ordered.mp (List.getElem_mem hi)
    rcases hbehind with hbehind | ⟨htarget, t, ht, htime⟩
    · rcases hbefore with hbefore | ⟨htarget, -⟩
      · exact lt_asymm hbehind hbefore
      · exact lt_irrefl _ (htarget ▸ hbehind)
    · rcases hbefore with hbefore | ⟨-, s, hs, hsequence⟩
      · exact lt_irrefl _ (htarget ▸ hbefore)
      · rcases huncrossed s hs t ht _ he htarget with hle | hle
        · exact Nat.not_le.mpr hsequence hle
        · exact Nat.not_le.mpr htime hle

theorem filter_ordered (h : LiquidityPoolHistoryIndex ω)
    (hgroup : ∀ a b, group a = group b → a.pool = b.pool) {P : LiquidityPoolHistory ω → Prop}
    [DecidablePred P] (hP : ∀ e, P e → group e = target) :
    ((h.ordered (Grouped group NewerSequence)).filter P) =
      (h.objects.filter P).insertionSort fun a b => b.sequence ≤ a.sequence := by
  have hmem : ∀ {e}, e ∈ h.objects.filter P → e ∈ h.objects ∧ P e := fun he =>
    ⟨List.mem_of_mem_filter he, of_decide_eq_true (List.mem_filter.mp he).2⟩
  have htotal : Std.Total fun a b : LiquidityPoolHistory ω => b.sequence ≤ a.sequence :=
    ⟨fun a b => le_total b.sequence a.sequence⟩
  have htrans : IsTrans (LiquidityPoolHistory ω) fun a b => b.sequence ≤ a.sequence :=
    ⟨fun a b c hab hbc => hbc.trans hab⟩
  have hperm : ((h.ordered (Grouped group NewerSequence)).filter P).Perm (h.objects.filter P) :=
    (List.perm_insertionSort _ _).filter _
  have hsorted := List.pairwise_insertionSort
    (fun a b : LiquidityPoolHistory ω => b.sequence ≤ a.sequence) (h.objects.filter P)
  refine List.Perm.eq_of_pairwise ?_ ?_ hsorted (hperm.trans (List.perm_insertionSort _ _).symm)
  · intro a b ha hb hle hle'
    obtain ⟨ha, hPa⟩ := hmem (hperm.mem_iff.mp ha)
    obtain ⟨hb, hPb⟩ := hmem ((List.mem_insertionSort _).mp hb)
    exact h.eq_of_sequence ha hb (hgroup a b ((hP a hPa).trans (hP b hPb).symm))
      (Nat.le_antisymm hle' hle)
  · refine ((h.ordered_pairwise hgroup).filter _).imp_of_mem fun {a b} ha hb hab => ?_
    have hPa := of_decide_eq_true (List.mem_filter.mp ha).2
    have hPb := of_decide_eq_true (List.mem_filter.mp hb).2
    rcases hab with hlt | ⟨-, hnewer⟩
    · rw [hP a hPa, hP b hPb] at hlt
      exact absurd hlt (lt_irrefl _)
    · exact Nat.le_of_lt hnewer

theorem Chronological.collectBySequence_eq_newest_iff (hchrono : h.Chronological)
    (hgroup : ∀ a b, group a = group b → a.pool = b.pool) {P : LiquidityPoolHistory ω → Prop}
    [DecidablePred P] (hP : ∀ e, P e ↔ group e = target ∧ (∀ s ∈ start, e.sequence ≤ s) ∧
      ∀ t ∈ stop, t ≤ e.time) (hlimit : 0 < limit) :
    h.collectBySequence group target start stop limit = .ok (newest limit (h.objects.filter P)) ↔
      h.Uncrossed group target start stop := by
  rw [hchrono.collectBySequence_eq hgroup, ← hchrono.lowerBound_le_iff hgroup]
  constructor
  · intro heq
    by_contra hlt
    -- nothing is asked for, and the loop begins behind the position where it should stop
    obtain ⟨s, hs, t, ht, e, he, htarget, hafter, hbefore⟩ : ∃ s ∈ start, ∃ t ∈ stop,
        ∃ e ∈ h.objects, group e = target ∧ s < e.sequence ∧ e.time < t := by
      rw [hchrono.lowerBound_le_iff hgroup] at hlt
      unfold Uncrossed at hlt
      push Not at hlt
      exact hlt
    have hnone : h.objects.filter P = [] := by
      apply List.filter_eq_nil_iff.mpr
      intro e' he' hPe'
      obtain ⟨htarget', hstart, hstop⟩ := (hP e').mp (of_decide_eq_true hPe')
      have hle := hchrono e' he' e he (hgroup e' e (htarget'.trans htarget.symm))
        (Nat.lt_of_le_of_lt (hstart s hs) hafter)
      exact Nat.not_le.mpr hbefore ((hstop t ht).trans hle)
    rw [hnone, newest, List.insertionSort_nil, List.take_nil] at heq
    apply Lib.collect_ne_nil (fun hsame => hlt (Nat.le_of_eq hsame)) hlimit
    split at heq
    · cases heq
    · rename_i hcollect
      cases heq
      exact hcollect
  · intro hle
    rw [Lib.collect_eq (Lib.lowerBound_le _ _) limit hle,
      (h.closedBelow_beforeStart hgroup).drop_take_lowerBound
        (hchrono.closedBelow_notBehindStop hgroup), newest, ← h.filter_ordered hgroup
          (fun e he => ((hP e).mp he).1)]
    dsimp only
    congr 2
    apply List.filter_congr
    intro e _
    rw [Bool.eq_iff_iff, decide_eq_true_iff, Bool.and_eq_true, Bool.not_eq_true', ← Bool.not_eq_true,
      beforeStart_iff, notBehindStop_iff, hP]
    constructor
    · rintro ⟨hbefore, hbehind⟩
      obtain ⟨hge, hstart⟩ := not_or.mp hbefore
      obtain ⟨hle, hstop⟩ := not_or.mp hbehind
      have htarget := le_antisymm (not_lt.mp hle) (not_lt.mp hge)
      refine ⟨htarget, fun s hs => ?_, fun t ht => ?_⟩
      · exact Nat.not_lt.mp fun hlt => hstart ⟨htarget, s, hs, hlt⟩
      · exact Nat.not_lt.mp fun hlt => hstop ⟨htarget, t, ht, hlt⟩
    · rintro ⟨htarget, hstart, hstop⟩
      rw [htarget]
      constructor
      · rintro (hlt | ⟨-, s, hs, hlt⟩)
        · exact lt_irrefl _ hlt
        · exact Nat.not_lt.mpr (hstart s hs) hlt
      · rintro (hlt | ⟨-, t, ht, hlt⟩)
        · exact lt_irrefl _ hlt
        · exact Nat.not_lt.mpr (hstop t ht) hlt

end LiquidityPoolHistoryIndex

/-- The answer is right exactly when nothing is asked for or no entry of the pool (and of the type)
is both after `start` and before `stop`. -/
theorem poolHistoryBySequence_eq_newest_iff {api : HistoryApi ω} {h : LiquidityPoolHistoryIndex ω}
    (hchrono : h.Chronological) (hdatabase : api.chainDatabase = some h)
    (hplugin : api.hasMarketHistoryPlugin = true) (poolId : Nat) (start stop olimit : Option Nat)
    (operationType : Option Int)
    (hlimit : olimit.getD 101 ≤ api.apiLimitGetLiquidityPoolHistory) :
    api.getLiquidityPoolHistoryBySequence poolId start stop olimit operationType =
        .ok (newest (olimit.getD 101)
          (h.objects.filter fun e => Asked poolId start stop operationType e)) ↔
      olimit.getD 101 = 0 ∨ ∀ s ∈ start, ∀ t ∈ stop, ∀ e ∈ h.objects, e.pool = poolId →
        (∀ type ∈ operationType, e.opType = type) → e.sequence ≤ s ∨ t ≤ e.time := by
  have hquery : api.getLiquidityPoolHistoryBySequence poolId start stop olimit operationType =
      if olimit.getD 101 = 0 then .ok [] else
        match operationType with
        | some operationType => h.collectBySequence byPoolOpType (toLex (poolId, operationType))
            start stop (olimit.getD 101)
        | none => h.collectBySequence byPool poolId start stop (olimit.getD 101) := by
    unfold HistoryApi.getLiquidityPoolHistoryBySequence fcAssert
    rw [if_pos hplugin, hdatabase]
    show ((if olimit.getD 101 ≤ api.apiLimitGetLiquidityPoolHistory then Except.ok () else _) >>=
      fun _ => _) = _
    rw [if_pos hlimit]
    rfl
  rw [hquery]
  by_cases hzero : olimit.getD 101 = 0
  · rw [if_pos hzero, hzero]
    exact iff_of_true rfl (.inl rfl)
  · have hpositive := Nat.pos_of_ne_zero hzero
    rw [if_neg hzero, or_iff_right hzero]
    cases operationType with
    | none =>
      dsimp only
      have hgroup : ∀ a b : LiquidityPoolHistory ω, byPool a = byPool b → a.pool = b.pool :=
        fun _ _ heq => heq
      rw [hchrono.collectBySequence_eq_newest_iff hgroup (fun e => ?_) hpositive]
      · unfold LiquidityPoolHistoryIndex.Uncrossed byPool
        simp
      · simp [Asked, byPool]
    | some type =>
      dsimp only
      have hgroup : ∀ a b : LiquidityPoolHistory ω, byPoolOpType a = byPoolOpType b →
          a.pool = b.pool := fun a b heq => congrArg (fun k => (ofLex k).1) heq
      rw [hchrono.collectBySequence_eq_newest_iff hgroup (fun e => ?_) hpositive]
      · unfold LiquidityPoolHistoryIndex.Uncrossed byPoolOpType
        simp
      · simp [Asked, byPoolOpType, and_assoc]

def twoPools : LiquidityPoolHistoryIndex Unit where
  objects := [⟨0, 1, 1, 10, 63, ()⟩, ⟨1, 2, 1, 15, 63, ()⟩]
  byId := by decide
  byPoolSeq := by decide

def poolApi : HistoryApi Unit := ⟨true, 101, some twoPools⟩

theorem twoPools_chronological : twoPools.Chronological := by
  unfold LiquidityPoolHistoryIndex.Chronological
  decide

theorem poolHistoryBySequence_eq_newest_iff_twoPools :
    poolApi.getLiquidityPoolHistoryBySequence 1 (some 1) (some 10) none (some 63) =
      .ok (newest 101 (twoPools.objects.filter fun e => Asked 1 (some 1) (some 10) (some 63) e)) := by
  have hdatabase : poolApi.chainDatabase = some twoPools := rfl
  apply (poolHistoryBySequence_eq_newest_iff twoPools_chronological hdatabase rfl 1 (some 1) (some 10)
    none (some 63) (by decide)).mpr
  decide

/-- No entry of pool 1 is asked for, and the answer is the entry of pool 2. -/
theorem poolHistoryBySequence_crossed :
    twoPools.Chronological ∧
      poolApi.getLiquidityPoolHistoryBySequence 1 (some 0) (some 20) (some 1) none =
        .ok [⟨1, 2, 1, 15, 63, ()⟩] ∧
      newest 1 (twoPools.objects.filter fun e => Asked 1 (some 0) (some 20) none e) = [] := by
  exact ⟨twoPools_chronological, by decide, by decide⟩

end Meta1Core.Plugins

import Meta1Core.Transactions.Duplicates

/-!
# Replay protection

A node that has checked everything since the last checkpoint, or since the last block of a reindex,
knows every transaction of its chain that has not expired.  So it does not apply one again, and it
accepts the same blocks as a node without checkpoints.
-/

namespace Meta1Core.Transactions

open Allocation (u32 u32Sub)
open Lib (Reachable bind_eq_ok of_bind)

variable {σ Id Block TrxId Trx : Type} {R : ChainRules σ Id Block TrxId Trx} [DecidableEq TrxId]

variable {u u' : State R}

variable {skip' : Skip} {ts : List Trx}

theorem view_applyTransactions {skip : Skip} {s s' : State R} (hview : s.view = s'.view)
    (h : applyTransactions R skip s ts = .ok u) (h' : applyTransactions R skip' s' ts = .ok u') :
    u.view = u'.view := by
  induction ts generalizing s s' with
  | nil =>
    cases h
    cases h'
    exact hview
  | cons t ts ih =>
    obtain ⟨s1, hfirst, hrest⟩ := of_bind h
    obtain ⟨s1', hfirst', hrest'⟩ := of_bind h'
    obtain ⟨x, hpasses, rfl⟩ := applyTransaction_eq_ok.mp hfirst
    obtain ⟨x', hpasses', rfl⟩ := applyTransaction_eq_ok.mp hfirst'
    have hoperations := hpasses.operations
    rw [hview] at hoperations
    have hx : x = x' := R.applyOperations_unique _ _ _ _ _ _ hoperations hpasses'.operations
    apply ih _ hrest hrest'
    show { s.view with objects := x } = { s'.view with objects := x' }
    rw [hview, hx]

variable [DecidableEq Id]

theorem view_applyBlockWith {skip : Skip} {s s' : State R} {b : Block} (hview : s.view = s'.view)
    (h : applyBlockWith R skip s b = .ok u) (h' : applyBlockWith R skip' s' b = .ok u') :
    u.view = u'.view := by
  obtain ⟨_, -, h⟩ := of_bind h
  obtain ⟨-, h⟩ := of_fcAssert h
  obtain ⟨-, h⟩ := of_fcAssert h
  obtain ⟨s1, htransactions, h⟩ := of_bind h
  obtain ⟨x, hfinish, h⟩ := of_bind h
  obtain ⟨_, -, h'⟩ := of_bind h'
  obtain ⟨-, h'⟩ := of_fcAssert h'
  obtain ⟨-, h'⟩ := of_fcAssert h'
  obtain ⟨s1', htransactions', h'⟩ := of_bind h'
  obtain ⟨x', hfinish', h'⟩ := of_bind h'
  cases h
  cases h'
  rw [view_applyTransactions hview htransactions htransactions'] at hfinish
  rw [R.finish_unique _ _ _ _ _ _ hfinish hfinish']

variable (R) in
inductive Leads : List Block → View σ Id → Prop
  | genesis : Leads [] (State.genesis R).view
  | block {skip : Skip} {chain : List Block} {s s' : State R} {b : Block} :
      Leads chain s.view → applyBlockWith R skip s b = .ok s' → Leads (b :: chain) s'.view

variable {v : View σ Id}

theorem Leads.unique {chain : List Block} {v' : View σ Id} (h : Leads R chain v)
    (h' : Leads R chain v') : v = v' := by
  induction h generalizing v' with
  | genesis =>
    cases h'
    rfl
  | block _ happly ih =>
    cases h' with
    | block hrest happly' => exact view_applyBlockWith (ih hrest) happly happly'

theorem Leads.headNum_ne_zero {chain : List Block} (h : Leads R chain v) {b : Block}
    (hmem : b ∈ chain) : v.headNum ≠ 0 := by
  cases h with
  | genesis => cases hmem
  | block _ happly =>
    rw [(of_applyBlockWith happly).headNum]
    exact Nat.succ_ne_zero _

/-- The transactions of the chain that have not expired are recorded, apart from the ones up to the
last checkpoint and those that expire before a time. -/
structure Kept (c : Checkpoints Id) (time : Nat) (s : State R) (chain : List Block) : Prop where
  leads : Leads R chain s.view
  applied : ∀ t ∈ s.recorded.rows, ∃ b ∈ chain, t ∈ R.transactions b
  recorded : ∀ b ∈ chain, ∀ t ∈ R.transactions b, t ∈ s.recorded.rows ∨
    R.expiration t < s.view.headTime ∨ c.Covers R b ∨ R.expiration t < time

variable {c : Checkpoints Id} {time : Nat} {s s' : State R} {chain : List Block} {skip : Skip}
  {b : Block}

theorem Kept.mono {time' : Nat} (h : Kept c time s chain) (hle : time ≤ time') :
    Kept c time' s chain := by
  refine ⟨h.leads, h.applied, ?_⟩
  intro b hb t ht
  rcases h.recorded b hb t ht with hrecorded | hexpired | hcovers | hlt
  · exact .inl hrecorded
  · exact .inr (.inl hexpired)
  · exact .inr (.inr (.inl hcovers))
  · exact .inr (.inr (.inr (Nat.lt_of_lt_of_le hlt hle)))

theorem Kept.block (h : Kept c time s chain) (happly : applyBlock R c skip s b = .ok s')
    (hskipped : skip.transactionDupeCheck = true → ¬c.Covers R b →
      ∀ t ∈ R.transactions b, R.expiration t < time) : Kept c time s' (b :: chain) := by
  obtain ⟨skip', hwith, hnot, -⟩ := of_applyBlock happly
  have happlied := of_applyBlockWith hwith
  have hlater := happlied.later
  constructor
  case leads => exact .block h.leads hwith
  case applied =>
    intro t ht
    rcases ((happlied.recorded t).mp ht).1 with ⟨-, hnew⟩ | hold
    · exact ⟨b, List.mem_cons_self, hnew⟩
    · obtain ⟨b', hb', ht'⟩ := h.applied t hold
      exact ⟨b', List.mem_cons_of_mem _ hb', ht'⟩
  case recorded =>
    intro b' hb' t ht
    rw [happlied.recorded, happlied.headTime]
    by_cases hexpired : R.expiration t < R.timestamp b
    · exact .inr (.inl hexpired)
    have hdue : R.timestamp b ≤ R.expiration t := Nat.le_of_not_lt hexpired
    rcases List.mem_cons.mp hb' with rfl | hb'
    · by_cases hcovers : c.Covers R b'
      · exact .inr (.inr (.inl hcovers))
      rw [hnot hcovers]
      cases hskip : skip.transactionDupeCheck with
      | false => exact .inl ⟨.inl ⟨rfl, ht⟩, hdue⟩
      | true => exact .inr (.inr (.inr (hskipped hskip hcovers t ht)))
    · rcases h.recorded b' hb' t ht with hrecorded | hold | hcovers | hlt
      · exact .inl ⟨.inr hrecorded, hdue⟩
      · omega
      · exact .inr (.inr (.inl hcovers))
      · exact .inr (.inr (.inr hlt))

structure Sound (c : Checkpoints Id) (n : Node R) : Prop where
  kept : Kept c n.replayedUntil n.state n.chain
  undo : ∀ e ∈ n.undo, Kept c n.replayedUntil e.1 e.2
  replay : ∀ r, n.replay = some r → r.skip.transactionDupeCheck = true →
    R.timestamp r.last ≤ n.replayedUntil ∧
      ∀ q ∈ r.queue, R.timestamp q.1 < u32Sub (R.timestamp r.last) q.2

/-- Everything that was applied without the check has expired: the blocks up to the last checkpoint,
and what was on disk at a reindex. -/
structure Settled (c : Checkpoints Id) (n : Node R) : Prop where
  covered : ∀ b ∈ n.chain, c.Covers R b → ∀ t ∈ R.transactions b,
    R.expiration t < n.state.view.headTime
  replayed : n.replayedUntil ≤ n.state.view.headTime

/-- The limit on expirations has not been raised since a block was loaded; there is none for the first
block. -/
def InWindow (v : View σ Id) (last : Block) (q : Block × Nat) : Prop :=
  if v.headNum = 0 then ∀ t ∈ R.transactions q.1, R.expiration t < R.timestamp last
  else R.maximumTimeUntilExpiration v.objects ≤ q.2 ∧ q.2 ≤ R.timestamp last

/-- Blocks are pushed with the check, above the last checkpoint by a settled node only, and what a
reindex applies without it is in the window. -/
def Condition (c : Checkpoints Id) (n : Node R) : Event Block → Prop
  | .pushBlock b skip => skip.transactionDupeCheck = false ∧ (¬c.Covers R b → Settled c n)
  | .replayTurn => ∀ r, n.replay = some r → ¬r.Loads R → r.skip.transactionDupeCheck = true →
      ∀ q ∈ r.queue.head?, ¬c.Covers R q.1 → InWindow (R := R) n.state.view r.last q
  | _ => True

variable {n n' : Node R}

theorem Sound.start : Sound c (.start R) := by
  refine ⟨⟨.genesis, ?_, nofun⟩, nofun, nofun⟩
  intro t ht
  cases ht

theorem Sound.apply (h : Sound c n) (happly : n.apply c skip b = .ok n')
    (hskipped : skip.transactionDupeCheck = true → ¬c.Covers R b →
      ∀ t ∈ R.transactions b, R.expiration t < n.replayedUntil) :
    Kept c n.replayedUntil n'.state n'.chain ∧ (∀ e ∈ n'.undo, Kept c n.replayedUntil e.1 e.2) ∧
      n'.replay = n.replay ∧ n'.replayedUntil = n.replayedUntil := by
  obtain ⟨state, hstate, hn'⟩ := of_bind happly
  cases hn'
  refine ⟨h.kept.block hstate hskipped, ?_, rfl, rfl⟩
  intro e he
  rcases List.mem_cons.mp he with rfl | he
  · exact h.kept
  · exact h.undo e he

theorem expiration_lt_last {last : Block} {q : Block × Nat}
    (happly : applyBlock R c skip s q.1 = .ok s') (hwindow : InWindow (R := R) s.view last q)
    (hold : R.timestamp q.1 < u32Sub (R.timestamp last) q.2) :
    ∀ t ∈ R.transactions q.1, R.expiration t < R.timestamp last := by
  intro t ht
  obtain ⟨skip', hwith, -⟩ := of_applyBlock happly
  have happlied := of_applyBlockWith hwith
  unfold InWindow at hwindow
  split at hwindow
  · exact hwindow t ht
  · rename_i hnum
    obtain ⟨hmaximum, hle⟩ := hwindow
    have hexpiration := (happlied.expiration hnum t ht).2
    have hlater := happlied.later
    have hlast := R.timestamp_lt last
    have hwrap : u32 (s.view.headTime + R.maximumTimeUntilExpiration s.view.objects) ≤
        s.view.headTime + R.maximumTimeUntilExpiration s.view.objects := Nat.mod_le _ _
    have hsub : u32Sub (R.timestamp last) q.2 = R.timestamp last - q.2 := by
      unfold u32Sub
      omega
    omega

variable {r : Replay Block}

theorem Sound.load (h : Sound c n) (hr : n.replay = some r) :
    Sound c { n with replay := some (r.load n.state) } := by
  refine ⟨h.kept, h.undo, ?_⟩
  intro r' hr' hskip
  cases hr'
  unfold Replay.load at hskip ⊢
  cases hdisk : r.disk r.nextNum with
  | none =>
    rw [hdisk] at hskip
    exact h.replay r hr hskip
  | some b =>
    rw [hdisk] at hskip
    dsimp only at hskip ⊢
    split at hskip
    · cases hskip
    · rename_i hrecent
      obtain ⟨hlast, hqueue⟩ := h.replay r hr hskip
      refine ⟨hlast, fun q hq => ?_⟩
      rcases List.mem_append.mp hq with hq | hq
      · exact hqueue q hq
      · rw [List.mem_singleton.mp hq]
        simpa using hrecent

theorem Sound.replayTurn (h : Sound c n) (hr : n.replay = some r)
    (hcond : Condition c n .replayTurn) (hturn : n.replayTurn c r = .ok n') : Sound c n' := by
  unfold Node.replayTurn at hturn
  split at hturn
  · cases hturn
    exact h.load hr
  · rename_i hloads
    split at hturn
    · rename_i q queue hqueue
      obtain ⟨n1, happly, hn'⟩ := of_bind hturn
      cases hn'
      obtain ⟨state, hstate, -⟩ := of_bind happly
      have hmem : q ∈ r.queue := by
        rw [hqueue]
        exact List.mem_cons_self
      have hskipped : r.skip.transactionDupeCheck = true → ¬c.Covers R q.1 →
          ∀ t ∈ R.transactions q.1, R.expiration t < n.replayedUntil := by
        intro hskip hcovers t ht
        obtain ⟨hlast, hold⟩ := h.replay r hr hskip
        have hwindow := hcond r hr hloads hskip q (by rw [hqueue]; rfl) hcovers
        have := expiration_lt_last hstate hwindow (hold q hmem) t ht
        omega
      obtain ⟨hkept, hundo, -, htime⟩ := h.apply happly hskipped
      constructor
      case kept =>
        show Kept c n1.replayedUntil _ _
        rw [htime]
        exact hkept
      case undo =>
        show ∀ e ∈ _, Kept c n1.replayedUntil _ _
        rw [htime]
        exact hundo
      case replay =>
        intro r' hr' hskip
        cases hr'
        obtain ⟨hlast, hold⟩ := h.replay r hr hskip
        show R.timestamp r.last ≤ n1.replayedUntil ∧ _
        rw [htime]
        refine ⟨hlast, fun q' hq' => hold q' ?_⟩
        rw [hqueue]
        exact List.mem_cons_of_mem _ hq'
    · cases hturn
      exact ⟨h.kept, h.undo, nofun⟩

theorem Sound.startReindex (h : Sound c n) (disk : Nat → Option Block) (last : Block)
    (skip : Skip) : Sound c (n.startReindex disk last skip) := by
  unfold Node.startReindex
  split
  · exact h
  constructor
  case undo => nofun
  case kept =>
    apply h.kept.mono
    dsimp only
    split
    · exact Nat.le_max_left ..
    · exact Nat.le_refl _
  case replay =>
    intro r hr hskip
    cases hr
    replace hskip : skip.transactionDupeCheck = true := hskip
    refine ⟨?_, nofun⟩
    dsimp only
    rw [if_pos hskip]
    exact Nat.le_max_right ..

theorem step_sound {e : Event Block} (h : Sound c n) (hcond : Condition c n e)
    (hstep : step R c n e = .ok n') : Sound c n' := by
  cases e with
  | pushBlock b skip =>
    obtain ⟨hnone, hstep⟩ := of_fcAssert hstep
    obtain ⟨hkept, hundo, hreplay, htime⟩ :=
      h.apply hstep fun hskip => absurd hskip (by rw [hcond.1]; nofun)
    rw [← htime] at hkept hundo
    refine ⟨hkept, hundo, ?_⟩
    intro r hr
    rw [hreplay, Option.isNone_iff_eq_none.mp hnone] at hr
    cases hr
  | popBlock =>
    obtain ⟨hnone, hstep⟩ := of_fcAssert hstep
    split at hstep
    · rename_i state chain undo hundo
      cases hstep
      refine ⟨h.undo (state, chain) (by rw [hundo]; exact List.mem_cons_self), ?_, h.replay⟩
      intro e he
      exact h.undo e (by rw [hundo]; exact List.mem_cons_of_mem _ he)
    · cases hstep
  | wipe =>
    obtain ⟨-, hstep⟩ := of_fcAssert hstep
    cases hstep
    exact .start
  | reindex disk last skip =>
    obtain ⟨-, hstep⟩ := of_fcAssert hstep
    cases hstep
    exact h.startReindex disk last skip
  | replayTurn =>
    cases hr : n.replay with
    | none =>
      simp only [step, hr] at hstep
      cases hstep
    | some r =>
      simp only [step, hr] at hstep
      exact h.replayTurn hr hcond hstep

theorem sound_of_reachable (h : Reachable (step R c) (· = .start R) (Condition c) n) :
    Sound c n := by
  apply h.invariant (Sound c)
  · rintro _ rfl
    exact .start
  · intro n1 e n2 hs hcond hstep
    exact step_sound hs hcond hstep

variable {t : Trx}

theorem Sound.recorded (h : Sound c n) (hsettled : Settled c n) (hb : b ∈ n.chain)
    (ht : t ∈ R.transactions b) (hdue : n.state.view.headTime ≤ R.expiration t) :
    t ∈ n.state.recorded.rows := by
  have hreplayed := hsettled.replayed
  rcases h.kept.recorded b hb t ht with hrecorded | hexpired | hcovers | hlt
  · exact hrecorded
  · omega
  · have := hsettled.covered b hb hcovers t ht
    omega
  · omega

theorem Sound.fresh (h : Sound c n) (hsettled : Settled c n)
    (hskip : skip.transactionDupeCheck = false) (hcovers : ¬c.Covers R b)
    (happly : applyBlock R c skip n.state b = .ok s') :
    ((R.transactions b).map R.trxId).Nodup ∧ ∀ t ∈ R.transactions b, ∀ b' ∈ n.chain,
      ∀ t' ∈ R.transactions b', R.trxId t' ≠ R.trxId t := by
  rw [applyBlock_of_not_covers hcovers] at happly
  have happlied := of_applyBlockWith happly
  obtain ⟨hnodup, hunknown⟩ := happlied.fresh hskip
  refine ⟨hnodup, ?_⟩
  intro t ht b' hb' t' ht' hid
  have hnum := h.kept.leads.headNum_ne_zero hb'
  -- the old transaction expires when the new one does, which is not yet
  have hdue := (happlied.expiration hnum t ht).1
  rw [R.expiration_eq_of_trxId_eq t t' hid.symm] at hdue
  exact hunknown t ht ⟨t', h.recorded hsettled hb' ht' hdue, hid⟩

omit [DecidableEq Id] in
theorem not_applyTransaction_of_expired (hnum : u.view.headNum ≠ 0)
    (hexpired : R.expiration t < u.view.headTime) : applyTransaction R skip u t ≠ .ok u' := by
  intro h
  obtain ⟨x, hpasses, -⟩ := applyTransaction_eq_ok.mp h
  have hnow := (of_checkReference (hpasses.reference hnum)).2
  omega

theorem expired_of_removed (happly : applyBlock R c skip s b = .ok s') (hold : t ∈ s.recorded.rows)
    (hnew : t ∉ s'.recorded.rows) : R.expiration t < s'.view.headTime := by
  obtain ⟨skip', hwith, -⟩ := of_applyBlock happly
  have happlied := of_applyBlockWith hwith
  rw [happlied.headTime]
  by_contra hdue
  exact hnew ((happlied.recorded t).mpr ⟨.inr hold, Nat.le_of_not_lt hdue⟩)

structure Agree (s s' : State R) : Prop where
  view : s.view = s'.view
  knows : ∀ t, (s.view.headNum ≠ 0 → s.view.headTime ≤ R.expiration t) →
    (s.knows (R.trxId t) ↔ s'.knows (R.trxId t))

omit [DecidableEq Id] in
theorem Agree.applyTransaction (h : Agree s s') (happly : applyTransaction R skip s t = .ok u) :
    ∃ u', applyTransaction R skip s' t = .ok u' ∧ Agree u u' := by
  obtain ⟨x, hpasses, rfl⟩ := applyTransaction_eq_ok.mp happly
  have hview := h.view
  have hdue : s.view.headNum ≠ 0 → s.view.headTime ≤ R.expiration t :=
    fun hnum => (of_checkReference (hpasses.reference hnum)).2
  have hpasses' : Passes skip s' t x := by
    constructor
    case valid => exact hpasses.valid
    case fresh => exact fun hcheck => fun hknown => hpasses.fresh hcheck ((h.knows t hdue).mpr hknown)
    case authorized => rw [← hview]; exact hpasses.authorized
    case reference => rw [← hview]; exact hpasses.reference
    case operations => rw [← hview]; exact hpasses.operations
  refine ⟨_, applyTransaction_eq_ok.mpr ⟨x, hpasses', rfl⟩, ?_, ?_⟩
  · show { s.view with objects := x } = { s'.view with objects := x }
    rw [hview]
  · intro t' hdue'
    rw [knows_record, knows_record]
    exact or_congr_right (h.knows t' hdue')

omit [DecidableEq Id] in
theorem Agree.applyTransactions (h : Agree s s') (happly : applyTransactions R skip s ts = .ok u) :
    ∃ u', applyTransactions R skip s' ts = .ok u' ∧ Agree u u' := by
  induction ts generalizing s s' with
  | nil =>
    cases happly
    exact ⟨s', rfl, h⟩
  | cons t ts ih =>
    obtain ⟨s1, hfirst, hrest⟩ := of_bind happly
    obtain ⟨s1', hfirst', hagree⟩ := h.applyTransaction hfirst
    obtain ⟨u', hrest', hend⟩ := ih hagree hrest
    exact ⟨u', bind_eq_ok.mpr ⟨s1', hfirst', hrest'⟩, hend⟩

theorem Agree.applyBlockWith (h : Agree s s') (happly : applyBlockWith R skip s b = .ok u) :
    ∃ u', applyBlockWith R skip s' b = .ok u' ∧ Agree u u' := by
  obtain ⟨_, hcheck, happly⟩ := of_bind happly
  obtain ⟨hprevious, happly⟩ := of_fcAssert happly
  obtain ⟨hlater, happly⟩ := of_fcAssert happly
  obtain ⟨s1, htransactions, happly⟩ := of_bind happly
  obtain ⟨x, hfinish, happly⟩ := of_bind happly
  cases happly
  obtain ⟨s1', htransactions', hagree⟩ := h.applyTransactions htransactions
  have happlied := of_applyTransactions htransactions
  rw [h.view] at hcheck hprevious hlater
  rw [hagree.view] at hfinish
  refine ⟨_, bind_eq_ok.mpr ⟨_, hcheck, fcAssert_bind_eq_ok.mpr ⟨hprevious,
    fcAssert_bind_eq_ok.mpr ⟨hlater, bind_eq_ok.mpr ⟨_, htransactions',
      bind_eq_ok.mpr ⟨x, hfinish, rfl⟩⟩⟩⟩⟩, rfl, ?_⟩
  intro t hdue
  have hdue : R.timestamp b ≤ R.expiration t := hdue (Nat.succ_ne_zero _)
  -- rows with the same id expire at the same time
  have hclear : ∀ v : State R,
      (State.mk (R := R) ⟨x, R.blockNum b, R.timestamp b, R.id b⟩
        (v.recorded.clear (R.timestamp b))).knows (R.trxId t) ↔ v.knows (R.trxId t) := by
    intro v
    refine exists_congr fun r => and_congr_left fun hid => ?_
    rw [Lib.Expiring.mem_clear, R.expiration_eq_of_trxId_eq r t hid]
    exact and_iff_left hdue
  rw [hclear, hclear]
  apply hagree.knows
  intro _
  rw [happlied.headTime, h.view]
  omega

variable (R) in
def applyBlocks (c : Checkpoints Id) :
    State R → List (Block × Skip) → Except Exception (State R)
  | s, [] => .ok s
  | s, e :: rest => do
    let s ← applyBlock R c e.2 s e.1
    applyBlocks c s rest

variable {c' : Checkpoints Id}

theorem Agree.applyBlocks {bs : List (Block × Skip)} (h : Agree s s')
    (hbs : ∀ e ∈ bs, ¬c.Covers R e.1 ∧ ¬c'.Covers R e.1) (happly : applyBlocks R c s bs = .ok u) :
    ∃ u', applyBlocks R c' s' bs = .ok u' ∧ Agree u u' := by
  induction bs generalizing s s' with
  | nil =>
    cases happly
    exact ⟨s', rfl, h⟩
  | cons e bs ih =>
    obtain ⟨s1, hfirst, hrest⟩ := of_bind happly
    obtain ⟨hcovers, hcovers'⟩ := hbs e List.mem_cons_self
    rw [applyBlock_of_not_covers hcovers] at hfirst
    obtain ⟨s1', hfirst', hagree⟩ := h.applyBlockWith hfirst
    rw [← applyBlock_of_not_covers hcovers'] at hfirst'
    obtain ⟨u', hrest', hend⟩ := ih hagree (fun e he => hbs e (List.mem_cons_of_mem _ he)) hrest
    exact ⟨u', bind_eq_ok.mpr ⟨s1', hfirst', hrest'⟩, hend⟩

theorem Sound.agree {m : Node R} (h : Sound c n) (hsettled : Settled c n) (h' : Sound c' m)
    (hsettled' : Settled c' m) (hchain : n.chain = m.chain) : Agree n.state m.state := by
  have hleads := h'.kept.leads
  rw [← hchain] at hleads
  have hview := h.kept.leads.unique hleads
  have hknows : ∀ (c1 c2 : Checkpoints Id) (n1 n2 : Node R), Sound c1 n1 → Sound c2 n2 →
      Settled c2 n2 → n1.chain = n2.chain → ∀ t,
      (n2.state.view.headNum ≠ 0 → n2.state.view.headTime ≤ R.expiration t) →
      n1.state.knows (R.trxId t) → n2.state.knows (R.trxId t) := by
    rintro c1 c2 n1 n2 h1 h2 hsettled2 hsame t hdue ⟨r, hr, hid⟩
    obtain ⟨b, hb, hrb⟩ := h1.kept.applied r hr
    rw [hsame] at hb
    have hnum := h2.kept.leads.headNum_ne_zero hb
    refine ⟨r, h2.recorded hsettled2 hb hrb ?_, hid⟩
    rw [R.expiration_eq_of_trxId_eq r t hid]
    exact hdue hnum
  refine ⟨hview, fun t hdue => ⟨?_, ?_⟩⟩
  · apply hknows c c' n m h h' hsettled' hchain t
    rw [← hview]
    exact hdue
  · exact hknows c' c m n h' h hsettled hchain.symm t hdue

/-- In every run that meets the condition, no block applied with the check holds a transaction twice
or one of the chain, what has not expired is recorded, only what has expired is taken out of the
index, and a node without checkpoints accepts the same continuations. -/
theorem replay_protected (h : Reachable (step R c) (· = .start R) (Condition c) n) :
    (∀ b skip s', Condition c n (.pushBlock b skip) → ¬c.Covers R b →
      applyBlock R c skip n.state b = .ok s' →
      ((R.transactions b).map R.trxId).Nodup ∧ ∀ t ∈ R.transactions b, ∀ b' ∈ n.chain,
        ∀ t' ∈ R.transactions b', R.trxId t' ≠ R.trxId t) ∧
    (Settled c n → ∀ b ∈ n.chain, ∀ t ∈ R.transactions b,
      n.state.view.headTime ≤ R.expiration t → t ∈ n.state.recorded.rows) ∧
    (∀ b skip s', applyBlock R c skip n.state b = .ok s' →
      ∀ t ∈ n.state.recorded.rows, t ∉ s'.recorded.rows →
      ∀ u skip' u', s'.view.headTime ≤ u.view.headTime → u.view.headNum ≠ 0 →
        applyTransaction R skip' u t ≠ .ok u') ∧
    ∀ m, Reachable (step R .none) (· = .start R) (Condition .none) m → n.chain = m.chain →
      Settled c n → Settled .none m →
      ∀ bs : List (Block × Skip), (∀ e ∈ bs, ¬c.Covers R e.1) →
        ((∃ u, applyBlocks R c n.state bs = .ok u) ↔ ∃ u, applyBlocks R .none m.state bs = .ok u) := by
  have hsound := sound_of_reachable h
  refine ⟨?_, ?_, ?_, ?_⟩
  · intro b skip s' hcond hcovers happly
    exact hsound.fresh (hcond.2 hcovers) hcond.1 hcovers happly
  · intro hsettled b hb t ht hdue
    exact hsound.recorded hsettled hb ht hdue
  · intro b skip s' happly t hold hnew u skip' u' htime hnum
    have hexpired := expired_of_removed happly hold hnew
    exact not_applyTransaction_of_expired hnum (by omega)
  · intro m hm hchain hsettled hsettled' bs hbs
    have hsound' := sound_of_reachable hm
    constructor
    · rintro ⟨u, hu⟩
      have hagree := hsound.agree hsettled hsound' hsettled' hchain
      obtain ⟨u', hu', -⟩ :=
        hagree.applyBlocks (fun e he => ⟨hbs e he, Checkpoints.none_covers⟩) hu
      exact ⟨u', hu'⟩
    · rintro ⟨u, hu⟩
      have hagree := hsound'.agree hsettled' hsound hsettled hchain.symm
      obtain ⟨u', hu', -⟩ :=
        hagree.applyBlocks (fun e he => ⟨Checkpoints.none_covers, hbs e he⟩) hu
      exact ⟨u', hu'⟩

instance (c : Checkpoints Id) (n : Node R) : Decidable (Settled c n) :=
  decidable_of_iff ((∀ b ∈ n.chain, c.Covers R b → ∀ t ∈ R.transactions b,
      R.expiration t < n.state.view.headTime) ∧ n.replayedUntil ≤ n.state.view.headTime)
    ⟨fun h => ⟨h.1, h.2⟩, fun h => ⟨h.1, h.2⟩⟩

instance (v : View σ Id) (last : Block) (q : Block × Nat) :
    Decidable (InWindow (R := R) v last q) :=
  inferInstanceAs (Decidable (if v.headNum = 0 then
    ∀ t ∈ R.transactions q.1, R.expiration t < R.timestamp last
    else R.maximumTimeUntilExpiration v.objects ≤ q.2 ∧ q.2 ≤ R.timestamp last))

instance (c : Checkpoints Id) (n : Node R) : (e : Event Block) → Decidable (Condition c n e)
  | .pushBlock b skip => inferInstanceAs
      (Decidable (skip.transactionDupeCheck = false ∧ (¬c.Covers R b → Settled c n)))
  | .popBlock | .wipe | .reindex .. => .isTrue trivial
  | .replayTurn =>
    decidable_of_iff (∀ r ∈ n.replay, ¬r.Loads R → r.skip.transactionDupeCheck = true →
      ∀ q ∈ r.queue.head?, ¬c.Covers R q.1 → InWindow (R := R) n.state.view r.last q) Iff.rfl

structure SampleTrx where
  nonce : Nat
  expiration : Nat
  deriving DecidableEq

structure SampleBlock where
  previous : Nat
  timestamp : Nat
  transactions : List SampleTrx
  deriving DecidableEq

def sampleRules : ChainRules Nat Nat SampleBlock SampleTrx SampleTrx where
  id b := b.previous + 1
  previous := SampleBlock.previous
  numFromId := id
  zero := 0
  num_id _ := rfl
  num_zero := rfl
  previous_eq_of_id_eq _ _ := Nat.succ.inj
  genesis := 0
  genesisTime := 0
  timestamp b := u32 b.timestamp
  transactions := SampleBlock.transactions
  trxId := id
  expiration := SampleTrx.expiration
  validate _ := .ok ()
  verifyAuthority _ _ := .ok ()
  matchesReference _ _ := true
  fitsSize _ _ := true
  maximumTimeUntilExpiration _ := 86400
  applyOperations _ v _ := .ok (v.objects + 1)
  checkBlock _ _ _ := .ok ()
  finish _ v _ := .ok v.objects
  timestamp_lt _ := Nat.mod_lt _ (by decide)
  expiration_eq_of_trxId_eq _ _ := congrArg _
  maximum_of_applyOperations _ _ _ _ _ := rfl
  applyOperations_unique _ _ _ _ _ _ h h' := Except.ok.inj (h.symm.trans h')
  finish_unique _ _ _ _ _ _ h h' := Except.ok.inj (h.symm.trans h')

def sampleCheckpoints : Checkpoints Nat := ⟨[(1, 1)], List.pairwise_singleton _ _⟩

def sampleFirst (expiration : Nat) : SampleBlock := ⟨0, 100, [⟨7, expiration⟩]⟩
def sampleSecond : SampleBlock := ⟨1, 103, [⟨8, 200⟩]⟩

theorem replay_protected_checkpoint :
    ∃ n, Reachable (step sampleRules sampleCheckpoints) (· = .start sampleRules)
        (Condition sampleCheckpoints) n ∧
      n.chain = [sampleSecond, sampleFirst 50] ∧ ⟨8, 200⟩ ∈ n.state.recorded.rows := by
  have hrun : ∃ n, Reachable (step sampleRules sampleCheckpoints) (· = .start sampleRules)
      (Condition sampleCheckpoints) n ∧ (n.chain = [sampleSecond, sampleFirst 50] ∧
        Settled sampleCheckpoints n ∧ n.state.view.headTime = 103) := by
    refine Reachable.of_run (s := .start sampleRules)
      [.pushBlock (sampleFirst 50) {}, .pushBlock sampleSecond {}] rfl ?_ ?_
    · decide +kernel
    · decide +kernel
  obtain ⟨n, hreach, hchain, hsettled, htime⟩ := hrun
  refine ⟨n, hreach, hchain, ?_⟩
  have hpresent := (replay_protected hreach).2.1 hsettled sampleSecond
  rw [hchain, htime] at hpresent
  exact hpresent List.mem_cons_self ⟨8, 200⟩ (List.mem_singleton.mpr rfl) (by decide)

def sampleAgain : SampleBlock := ⟨1, 103, [⟨7, 200⟩]⟩

/-- The same transaction is applied with the block of the checkpoint and with the next one, which a
node without checkpoints does not accept. -/
theorem applied_twice :
    Lib.Succeeds (Lib.run (step sampleRules sampleCheckpoints) (.start sampleRules)
      [.pushBlock (sampleFirst 200) {}, .pushBlock sampleAgain {}]) (fun n =>
        n.chain = [sampleAgain, sampleFirst 200] ∧ n.state.view.objects = 2) ∧
    ¬sampleCheckpoints.Covers sampleRules sampleAgain ∧
    Lib.Succeeds (Lib.run (step sampleRules .none) (.start sampleRules)
      [.pushBlock (sampleFirst 200) {}]) (fun n =>
        (applyBlock sampleRules .none {} n.state sampleAgain).isOk = false) := by
  refine ⟨?_, ?_, ?_⟩
  · decide +kernel
  · decide +kernel
  · decide +kernel

end Meta1Core.Transactions

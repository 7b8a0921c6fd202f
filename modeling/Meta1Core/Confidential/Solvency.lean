import Meta1Core.Confidential.Evaluators
import Meta1Core.Ledger.Frame

/-!
# Solvency of confidential transfers

The public counter `confidential_supply` has to agree with amounts that nobody can read.  It does in
every run whose operations come with range proofs that are true.
-/

namespace Meta1Core.Confidential

open Lib (Rows Index Returns Relates of_bind)
open Protocol Ledger

variable {s s' : State}

def live (t : Index BlindedBalance) (id : AssetId) : Int :=
  t.total fun _ b => if b.assetId = id then (b.commitment.value.val : Int) else 0

def Unique (t : Index BlindedBalance) : Prop :=
  ∀ i j b c, t.find i = some b → t.find j = some c → b.commitment = c.commitment → i = j

/-- Every hidden amount is within the largest supply. -/
def InRange (t : Index BlindedBalance) : Prop :=
  ∀ i b, t.find i = some b → (b.commitment.value.val : Int) ≤ maxShareSupply

theorem live_nonneg (t : Index BlindedBalance) (id : AssetId) : 0 ≤ live t id := by
  refine Index.total_nonneg fun _ b _ => ?_
  split
  · exact Int.natCast_nonneg _
  · exact Int.le_refl 0

theorem live_create (t : Index BlindedBalance) (b : BlindedBalance) (id : AssetId) :
    live (t.create b) id
      = live t id + if id = b.assetId then (b.commitment.value.val : Int) else 0 := by
  rw [live, Index.total_create]
  simp only [live, eq_comm]

variable {t t' : Index BlindedBalance} {fbaId i : Nat} {u v : Unit} {id : AssetId}
  {inputs : List BlindInput} {outputs : List BlindOutput} {delta requiredFee total : Int}
  {before : Commitment → Commitment → Bool} {ctx : Context}

variable {b : BlindedBalance}

theorem live_remove (h : t.find i = some b) (id : AssetId) : live (t.remove i) id
      = live t id - if id = b.assetId then (b.commitment.value.val : Int) else 0 := by
  rw [live, Index.total_remove _ h]
  simp only [live, eq_comm]

theorem Unique.create (h : Unique t) (hnew : ∀ i c, t.find i = some c → c.commitment ≠ b.commitment) :
    Unique (t.create b) := by
  intro i j c d hi hj heq
  rw [Index.find_create] at hi hj
  split at hi <;> split at hj
  · rename_i h1 h2
    exact h1.trans h2.symm
  · cases hi
    exact absurd heq.symm (hnew j d hj)
  · cases hj
    exact absurd heq (hnew i c hi)
  · exact h i j c d hi hj heq

def Within (t' t : Index BlindedBalance) : Prop := ∀ i b, t'.find i = some b → t.find i = some b

theorem Within.remove (t : Index BlindedBalance) (i : Nat) : Within (t.remove i) t := by
  intro j b hj
  rw [Index.find_remove] at hj
  split at hj
  · cases hj
  · exact hj

theorem Within.unique (h : Within t' t) (ht : Unique t) : Unique t' :=
  fun i j b c hi hj heq => ht i j b c (h i b hi) (h j c hj) heq

theorem Within.inRange (h : Within t' t) (ht : InRange t) :
    InRange t' := fun i b hi => ht i b (h i b hi)

theorem each_cons_iff {α : Type} {f : α → Evaluation Unit} {a : α} {rest : List α} :
    Returns (each f (a :: rest)) s u s' ↔ ∃ v t, Returns (f a) s v t ∧ Returns (each f rest) t u s' :=
  Returns.bind_iff

theorem each_unchanged {α : Type} {f : α → Evaluation Unit} {P : α → State → Prop}
    (hf : ∀ a s u s', Returns (f a) s u s' → s' = s ∧ P a s) {items : List α}
    (h : Returns (each f items) s u s') : s' = s ∧ ∀ a ∈ items, P a s := by
  induction items generalizing s with
  | nil =>
    obtain ⟨-, rfl⟩ := h.of_pure
    exact ⟨rfl, by simp⟩
  | cons a rest ih =>
    obtain ⟨v, t, hfirst, hrest⟩ := each_cons_iff.mp h
    obtain ⟨rfl, hP⟩ := hf a s v t hfirst
    obtain ⟨hsame, hPs⟩ := ih hrest
    exact ⟨hsame, List.forall_mem_cons.mpr ⟨hP, hPs⟩⟩

variable {m : String} {c : Commitment}

theorem returns_getBlindedBalance (h : Returns (getBlindedBalance m c) s i s') :
    s' = s ∧ ∃ b, s.blindedBalances.find i = some b ∧ b.commitment = c := by
  obtain ⟨t, s1, hget, hmatch⟩ := h.of_bind
  obtain ⟨ht, hs1⟩ := Returns.get_iff.mp hget
  rw [ht, hs1] at hmatch
  split at hmatch
  · rename_i id hfound
    obtain ⟨rfl, rfl⟩ := hmatch.of_pure
    obtain ⟨b, hb, hc⟩ := Index.of_findId_eq_some hfound
    exact ⟨rfl, b, hb, of_decide_eq_true hc⟩
  · exact (Returns.throw_iff.mp hmatch).elim

theorem checkOwner_unchanged {out : BlindOutput} (h : Returns (checkOwner out) s u s') :
    s' = s ∧ True := by
  refine ⟨(each_unchanged (P := fun _ _ => True) (fun entry s u s' hfetch => ?_) h).1, trivial⟩
  obtain ⟨_, _, hfound, hpure⟩ := hfetch.of_bind
  obtain ⟨-, rfl⟩ := Table.fetch_iff.mp hfound
  obtain ⟨-, rfl⟩ := hpure.of_pure
  exact ⟨rfl, trivial⟩

def InputOf (id : AssetId) (input : BlindInput) (s : State) : Prop :=
  ∃ i b, s.blindedBalances.find i = some b ∧ b.commitment = input.commitment ∧ b.assetId = id

theorem returns_checkInput {input : BlindInput} (h : Returns (checkInput m id input) s u s') :
    s' = s ∧ InputOf id input s := by
  obtain ⟨i, s1, hid, hafter⟩ := h.of_bind
  obtain ⟨rfl, b, hb, hc⟩ := returns_getBlindedBalance hid
  obtain ⟨b', s2, hfetch, hchecks⟩ := hafter.of_bind
  obtain ⟨hb', rfl⟩ := Table.fetch_iff.mp hfetch
  obtain ⟨_, s3, hfirst, hsecond⟩ := hchecks.of_bind
  obtain ⟨hasset, rfl⟩ := returns_require.mp hfirst
  obtain ⟨-, rfl⟩ := returns_require.mp hsecond
  have hsame : some b' = some b := hb'.symm.trans hb
  cases hsame
  exact ⟨rfl, i, b, hb, hc, hasset⟩

theorem each_removeInput (h : Returns (each (removeInput m) inputs) s u s')
    (hasset : ∀ i b, s.blindedBalances.find i = some b →
      b.commitment ∈ inputs.map (·.commitment) → b.assetId = id) :
    s' = { s with blindedBalances := s'.blindedBalances } ∧
      Within s'.blindedBalances s.blindedBalances ∧
      ∀ j, live s'.blindedBalances j
        = live s.blindedBalances j - if j = id then (hiddenSum (inputs.map (·.commitment)) : Int) else 0 := by
  induction inputs generalizing s with
  | nil =>
    obtain ⟨-, rfl⟩ := h.of_pure
    exact ⟨rfl, fun _ _ hi => hi, fun j => by simp [hiddenSum]⟩
  | cons input rest ih =>
    obtain ⟨v, t, hfirst, hrest⟩ := each_cons_iff.mp h
    obtain ⟨i, s1, hid, hremove⟩ := hfirst.of_bind
    obtain ⟨hs1, b, hb, hc⟩ := returns_getBlindedBalance hid
    rw [hs1] at hremove
    have ht : t = { s with blindedBalances := s.blindedBalances.remove i } :=
      Table.remove_iff.mp hremove
    have hwithin : Within t.blindedBalances s.blindedBalances := by
      rw [ht]
      exact Within.remove _ _
    obtain ⟨hs', hwithin', hlive⟩ := ih hrest fun j c hj hmem =>
      hasset j c (hwithin j c hj) (List.mem_cons_of_mem _ hmem)
    have hbasset : b.assetId = id := hasset i b hb (by rw [hc]; exact List.mem_cons_self)
    refine ⟨?_, fun j c hj => hwithin j c (hwithin' j c hj), fun j => ?_⟩
    · rw [hs', ht]
    · rw [hlive j, ht]
      change live (s.blindedBalances.remove i) j - _ = _
      rw [live_remove hb, hbasset, hc, List.map_cons, hiddenSum_cons]
      push_cast
      split <;> omega

theorem each_createOutput (h : Returns (each (createOutput id) outputs) s u s')
    (hunique : Unique s.blindedBalances) :
    s' = { s with blindedBalances := s'.blindedBalances } ∧ Unique s'.blindedBalances ∧
      (∀ i b, s'.blindedBalances.find i = some b →
        s.blindedBalances.find i = some b ∨ b.commitment ∈ outputs.map (·.commitment)) ∧
      ∀ j, live s'.blindedBalances j
        = live s.blindedBalances j + if j = id then (hiddenSum (outputs.map (·.commitment)) : Int) else 0 := by
  induction outputs generalizing s with
  | nil =>
    obtain ⟨-, rfl⟩ := h.of_pure
    exact ⟨rfl, hunique, fun _ _ hi => Or.inl hi, fun j => by simp [hiddenSum]⟩
  | cons out rest ih =>
    obtain ⟨v, t, hfirst, hrest⟩ := each_cons_iff.mp h
    obtain ⟨t0, s1, hget, hcreate⟩ := hfirst.of_bind
    obtain ⟨ht0, hs1⟩ := Returns.get_iff.mp hget
    rw [ht0, hs1] at hcreate
    obtain ⟨_, s2, hnew, hcreate⟩ := hcreate.of_bind
    obtain ⟨hnone, hs2⟩ := returns_require.mp hnew
    rw [hs2] at hcreate
    obtain ⟨i, s3, hcreated, hpure⟩ := hcreate.of_bind
    obtain ⟨-, hs3⟩ := Table.create_iff.mp hcreated
    obtain ⟨-, rfl⟩ := hpure.of_pure
    have ht : t = { s with
        blindedBalances := s.blindedBalances.create ⟨out.commitment, id, out.owner⟩ } := hs3
    have hunique' : Unique t.blindedBalances := by
      rw [ht]
      refine hunique.create fun j c hj heq => ?_
      have := Index.of_findId_eq_none hnone hj
      simp [heq] at this
    obtain ⟨hs', hun, hfrom, hlive⟩ := ih hrest hunique'
    refine ⟨by rw [hs', ht], hun, fun j c hj => ?_, fun j => ?_⟩
    · rcases hfrom j c hj with hold | hmem
      · rw [ht] at hold
        change (s.blindedBalances.create _).find j = some c at hold
        rw [Index.find_create] at hold
        split at hold
        · cases hold
          exact Or.inr List.mem_cons_self
        · exact Or.inl hold
      · exact Or.inr (List.mem_cons_of_mem _ hmem)
    · rw [hlive j, ht]
      change live (s.blindedBalances.create _) j + _ = _
      rw [live_create, List.map_cons, hiddenSum_cons]
      push_cast
      split <;> omega

/-- The hidden amount is at most what the range proof announces. -/
def Proven (out : BlindOutput) : Prop :=
  ∀ maxValue ∈ out.rangeProof.announced, out.commitment.value.val ≤ maxValue

theorem le_of_validateRanges (h : validateRanges outputs = .ok u)
    (hproven : ∀ out ∈ outputs, Proven out) :
    ∀ c ∈ outputs.map (·.commitment), c.value.val ≤ 9000000000000000000 := by
  induction outputs with
  | nil => simp
  | cons out rest ih =>
    obtain ⟨maxValue, hinfo, hrest⟩ := of_bind h
    obtain ⟨hmax, hranges⟩ := of_fcAssert hrest
    obtain ⟨hout, hothers⟩ := List.forall_mem_cons.mp hproven
    refine List.forall_mem_cons.mpr ⟨?_, ih hranges hothers⟩
    have hannounced : out.rangeProof.announced = some maxValue := by
      unfold rangeGetInfo at hinfo
      split at hinfo
      · rename_i m hm
        cases hinfo
        exact hm
      · cases hinfo
    have hle := hout maxValue hannounced
    unfold maxShareSupply at hmax
    show out.commitment.value.val ≤ _
    omega

theorem of_validateRangeProofs (h : validateRangeProofs outputs = .ok u)
    (hproven : 1 < outputs.length → ∀ out ∈ outputs, Proven out) :
    (1 < outputs.length ∧ ∀ c ∈ outputs.map (·.commitment), c.value.val ≤ 9000000000000000000) ∨
      outputs.length ≤ 1 := by
  unfold validateRangeProofs at h
  split at h
  · rename_i hmany
    exact Or.inl ⟨hmany, le_of_validateRanges h (hproven hmany)⟩
  · exact Or.inr (by omega)

theorem hiddenSum_eq {outputs : List Commitment}
    (hmod : total ≡ hiddenSum outputs [ZMOD groupOrder]) (h0 : 0 ≤ total)
    (hle : total ≤ maxShareSupply) (hlength : outputs.length < 2 ^ 32)
    (hrange : ∀ c ∈ outputs, c.value.val ≤ 9000000000000000000) :
    (hiddenSum outputs : Int) = total := by
  have hsum := hiddenSum_le hrange
  have hbound : outputs.length * 9000000000000000000 ≤ 2 ^ 32 * 9000000000000000000 :=
    Nat.mul_le_mul_right _ (Nat.le_of_lt hlength)
  unfold maxShareSupply at hle
  have hq : (2 : Int) ^ 32 * 9000000000000000000 < groupOrder := by decide
  refine (eq_of_modEq hmod h0 (by omega) (Int.natCast_nonneg _) ?_).symm
  omega

theorem single_eq (hmod : total ≡ hiddenSum [c] [ZMOD groupOrder]) (h0 : 0 ≤ total)
    (hle : total ≤ maxShareSupply) : (hiddenSum [c] : Int) = total := by
  have hq : maxShareSupply < (groupOrder : Int) := by decide
  refine (eq_of_modEq hmod h0 (by omega) (Int.natCast_nonneg _) ?_).symm
  rw [hiddenSum_singleton]
  exact_mod_cast c.value.isLt

theorem countable_eq_ok {α : Type} {items : List α} :
    countable items = .ok u ↔ items.length < 2 ^ 32 := by
  unfold countable
  split <;> simp_all

variable {op : TransferToBlindOperation}

theorem TransferToBlindOperation.hiddenSum_outputs (h : op.validate before = .ok u)
    (hproven : 1 < op.outputs.length → ∀ out ∈ op.outputs, Proven out)
    (hle : op.amount.amount ≤ maxShareSupply) : 0 < op.amount.amount ∧
      (hiddenSum (op.outputs.map (·.commitment)) : Int) = op.amount.amount := by
  obtain ⟨-, h1⟩ := of_fcAssert h
  obtain ⟨hpos, h2⟩ := of_fcAssert h1
  obtain ⟨_, hlength, h3⟩ := of_bind h2
  obtain ⟨_, -, h4⟩ := of_bind h3
  obtain ⟨hne, h5⟩ := of_fcAssert h4
  obtain ⟨⟨-, hsum⟩, hranges⟩ := of_fcAssert h5
  refine ⟨hpos, ?_⟩
  have hq : maxShareSupply < (groupOrder : Int) := by decide
  rw [hiddenSum_blind (by omega), Int.toNat_of_nonneg (by omega), add_zero] at hsum
  rcases of_validateRangeProofs hranges hproven with ⟨-, hrange⟩ | hfew
  · exact hiddenSum_eq hsum (by omega) hle (by simpa using countable_eq_ok.mp hlength) hrange
  · obtain ⟨out, hout⟩ : ∃ out, op.outputs = [out] :=
      List.length_eq_one_iff.mp (by have := List.length_pos_iff.mpr hne; omega)
    rw [hout] at hsum ⊢
    exact single_eq hsum (by omega) hle

theorem TransferFromBlindOperation.hiddenSum_inputs {op : TransferFromBlindOperation}
    (h : op.validate before = .ok u)
    (hle : (hiddenSum (op.inputs.map (·.commitment)) : Int) ≤ maxShareSupply) :
    0 < op.amount.amount ∧ 0 ≤ op.fee.amount ∧ op.amount.assetId = op.fee.assetId ∧
      (hiddenSum (op.inputs.map (·.commitment)) : Int) = op.amount.amount + op.fee.amount := by
  obtain ⟨hpos, h1⟩ := of_fcAssert h
  obtain ⟨hfee, h2⟩ := of_fcAssert h1
  obtain ⟨-, h3⟩ := of_fcAssert h2
  obtain ⟨hasset, h4⟩ := of_fcAssert h3
  obtain ⟨netPublic, hnet, h5⟩ := of_bind h4
  obtain ⟨_, -, h6⟩ := of_bind h5
  obtain ⟨_, -, h7⟩ := of_bind h6
  obtain ⟨-, h8⟩ := of_fcAssert h7
  obtain ⟨-, hsum⟩ := fcAssert_eq_ok.mp h8
  refine ⟨hpos, hfee, hasset, ?_⟩
  unfold addInt64 at hnet
  split at hnet
  · rename_i hfits
    cases hnet
    have hq : (2 : Int) ^ 63 < groupOrder := by decide
    have hmax : maxShareSupply < (groupOrder : Int) := by decide
    rw [hiddenSum_blind (by omega), Int.toNat_of_nonneg (by omega), add_zero] at hsum
    rw [eq_of_modEq hsum (Int.natCast_nonneg _) (by omega) (by omega) (by omega)]
    ring
  · cases hnet

theorem BlindTransferOperation.hiddenSum_outputs {op : BlindTransferOperation}
    (h : op.validate before = .ok u)
    (hproven : 1 < op.outputs.length → ∀ out ∈ op.outputs, Proven out)
    (hcovers : op.outputs.length = 1 → op.fee.amount ≤ hiddenSum (op.inputs.map (·.commitment)))
    (hle : (hiddenSum (op.inputs.map (·.commitment)) : Int) ≤ maxShareSupply)
    (hfee0 : 0 ≤ op.fee.amount) (hfee : op.fee.amount ≤ maxShareSupply) :
    (hiddenSum (op.outputs.map (·.commitment)) : Int)
        = hiddenSum (op.inputs.map (·.commitment)) - op.fee.amount ∧
      ∀ c ∈ op.outputs.map (·.commitment), (c.value.val : Int) ≤ maxShareSupply := by
  obtain ⟨_, -, h1⟩ := of_bind h
  obtain ⟨_, -, h2⟩ := of_bind h1
  obtain ⟨_, hlength, h3⟩ := of_bind h2
  obtain ⟨_, -, h4⟩ := of_bind h3
  obtain ⟨-, h5⟩ := of_fcAssert h4
  obtain ⟨⟨-, hsum⟩, h6⟩ := of_fcAssert h5
  obtain ⟨_, hranges, -⟩ := of_bind h6
  have hq : maxShareSupply < (groupOrder : Int) := by decide
  have hmod : (hiddenSum (op.inputs.map (·.commitment)) : Int) - op.fee.amount
      ≡ hiddenSum (op.outputs.map (·.commitment)) [ZMOD groupOrder] := by
    have := hsum.sub_right op.fee.amount
    rwa [add_sub_cancel_right] at this
  rcases of_validateRangeProofs hranges hproven with ⟨-, hrange⟩ | hfew
  · -- every output is within range, so the sum with the fee does not wrap around
    have hbound := hiddenSum_le hrange
    have hcount : op.outputs.length < 2 ^ 32 := countable_eq_ok.mp hlength
    rw [List.length_map] at hbound
    have hsmall : (2 : Int) ^ 32 * 9000000000000000000 + maxShareSupply < groupOrder := by decide
    have hmul : op.outputs.length * 9000000000000000000 ≤ 2 ^ 32 * 9000000000000000000 :=
      Nat.mul_le_mul_right _ (Nat.le_of_lt hcount)
    have heq := eq_of_modEq hsum (Int.natCast_nonneg _) (by omega) (by omega) (by omega)
    refine ⟨by omega, fun c hc => ?_⟩
    have := hrange c hc
    unfold maxShareSupply
    omega
  · rcases Nat.le_one_iff_eq_zero_or_eq_one.mp hfew with hnone | hone
    · -- nothing is created: the inputs are the fee
      rw [List.length_eq_zero_iff.mp hnone] at hsum ⊢
      have heq := eq_of_modEq hsum (Int.natCast_nonneg _) (by omega)
        (by simpa [hiddenSum] using hfee0) (by simpa [hiddenSum] using by omega)
      simp only [List.map_nil] at heq ⊢
      exact ⟨by omega, by simp⟩
    · have hcovered := hcovers hone
      obtain ⟨out, hout⟩ := List.length_eq_one_iff.mp hone
      rw [hout] at hmod ⊢
      have heq := single_eq hmod (by omega) (by omega)
      refine ⟨heq, ?_⟩
      rw [hiddenSum_singleton] at heq
      intro c hc
      rw [List.mem_singleton.mp hc]
      omega

/-- `confidential_supply` is what the blinded balances hide, and every hidden amount is within the
    largest supply. -/
structure Solvent (s : State) : Prop where
  supply : ∀ id a, s.assets.find id = some a → a.confidentialSupply = live s.blindedBalances id
  inRange : InRange s.blindedBalances

structure Sound (s : State) : Prop where
  supply : ∀ id a, s.assetView id = some a → a.confidentialSupply = live s.blindedBalances id
  inRange : InRange s.blindedBalances
  unique : Unique s.blindedBalances
  nonneg : s.BalancesNonneg
  bounded : ∀ id, s.publicBalance id + live s.blindedBalances id ≤ maxShareSupply

theorem Sound.solvent (h : Sound s) : Solvent s where
  supply id a ha := by
    have hview := h.supply id a.withoutFees (State.assetView_of_find ha)
    exact hview
  inRange := h.inRange

theorem Sound.live_le (h : Sound s) (id : AssetId) : live s.blindedBalances id ≤ maxShareSupply := by
  have hbound := h.bounded id
  have hpublic := h.nonneg.publicBalance_nonneg id
  omega

structure Moved (id : AssetId) (delta : Int) (s s' : State) : Prop where
  supply : ∀ j a', s'.assetView j = some a' → ∃ a, s.assetView j = some a ∧
    a'.confidentialSupply = a.confidentialSupply + if j = id then delta else 0
  live : ∀ j, live s'.blindedBalances j = live s.blindedBalances j + if j = id then delta else 0
  inRange : InRange s'.blindedBalances
  unique : Unique s'.blindedBalances
  nonneg : s'.BalancesNonneg
  publicBalance : ∀ j, s'.publicBalance j ≤ s.publicBalance j - if j = id then delta else 0

theorem Moved.sound (h : Moved id delta s s') (hs : Sound s) :
    Sound s' where
  supply j a' ha' := by
    obtain ⟨a, ha, heq⟩ := h.supply j a' ha'
    rw [heq, hs.supply j a ha, h.live j]
  inRange := h.inRange
  unique := h.unique
  nonneg := h.nonneg
  bounded j := by
    have hbound := hs.bounded j
    have hpublic := h.publicBalance j
    rw [h.live j]
    omega

theorem fees_paid {fee : Asset} {coreFeePaid : Int} {payer : AccountId} {t : State}
    (hconvert : Returns (convertFee ctx.trxState fee coreFeePaid) s () t)
    (hpay : Returns (payFbaFee ctx.isConfigured ctx.trxState payer fbaId coreFeePaid) t () s') :
    s'.balances = s.balances ∧ s'.blindedBalances = s.blindedBalances ∧
      ∀ id, s'.assetView id = s.assetView id := by
  have hfees := (convertFee_feesOnly _ _ _ _ _ _ hconvert).trans
    (payFbaFee_feesOnly _ _ _ _ _ _ _ _ hpay)
  have hsame : s'.balances = s.balances :=
    (payFbaFee_sameBalances _ _ _ _ _ _ _ _ hpay).trans
      (convertFee_sameBalances _ _ _ _ _ _ hconvert)
  exact ⟨hsame, hfees.blindedBalances, hfees.assets⟩

theorem returns_adjustConfidentialSupply (h : Returns (adjustConfidentialSupply id delta) s u s') :
    s'.balances = s.balances ∧ s'.blindedBalances = s.blindedBalances ∧
      (∃ a, s.assetView id = some a ∧ 0 ≤ a.confidentialSupply + delta) ∧
      ∀ j a', s'.assetView j = some a' → ∃ a, s.assetView j = some a ∧
        a'.confidentialSupply = a.confidentialSupply + if j = id then delta else 0 := by
  obtain ⟨a, a', hfind, hf, rfl, hview⟩ := assetView_of_update h
  obtain ⟨supply, hsafe, hrest⟩ := of_bind hf
  obtain ⟨rfl, -⟩ := of_safe hsafe
  obtain ⟨hnonneg, hpure⟩ := of_fcAssert hrest
  cases hpure
  refine ⟨rfl, rfl, ⟨_, State.assetView_of_find hfind, hnonneg⟩, fun j a1 hj => ?_⟩
  rw [hview j] at hj
  split at hj
  · rename_i heq
    cases hj
    rw [heq]
    exact ⟨_, State.assetView_of_find hfind, by rw [if_pos rfl]; rfl⟩
  · rename_i hne
    exact ⟨a1, hj, by rw [if_neg hne, add_zero]⟩

theorem inRange_of_outputs (ht : InRange t)
    (hfrom : ∀ i b, t'.find i = some b → t.find i = some b ∨ b.commitment ∈ outputs.map (·.commitment))
    (hrange : ∀ c ∈ outputs.map (·.commitment), (c.value.val : Int) ≤ maxShareSupply) :
    InRange t' := by
  intro i b hb
  rcases hfrom i b hb with hold | hnew
  · exact ht i b hold
  · exact hrange _ hnew

theorem value_le_hiddenSum {cs : List Commitment} (h : c ∈ cs) : c.value.val ≤ hiddenSum cs :=
  List.single_le_sum (by simp) _ (List.mem_map_of_mem h)

theorem TransferToBlindOperation.moved (hs : Sound s) (hvalid : op.validate ctx.before = .ok u)
    (hproven : 1 < op.outputs.length → ∀ out ∈ op.outputs, Proven out)
    (h : Returns (startEvaluateWith ctx.trxState op.sender op.fee requiredFee
      (payFbaFee ctx.isConfigured ctx.trxState op.sender fbaId) op.doEvaluate fun _ => op.doApply)
      s v s') : Moved op.amount.assetId op.amount.amount s s' := by
  obtain ⟨_, _, s1, t1, s2, s3, hfee, heval, hconvert, hpay, happly, hend⟩ := of_startEvaluateWith h
  have hs1 : s1 = s := by
    obtain ⟨_, _, hfetch, h1⟩ := heval.of_bind
    obtain ⟨-, rfl⟩ := Table.fetch_iff.mp hfetch
    obtain ⟨_, _, hr1, h2⟩ := h1.of_bind
    obtain ⟨-, rfl⟩ := returns_require.mp hr1
    obtain ⟨_, _, hr2, h3⟩ := h2.of_bind
    obtain ⟨-, rfl⟩ := returns_require.mp hr2
    obtain ⟨_, _, hr3, h4⟩ := h3.of_bind
    obtain ⟨-, rfl⟩ := returns_require.mp hr3
    exact (each_unchanged (fun _ _ _ _ => checkOwner_unchanged) h4).1
  obtain ⟨hbal, hblind, hview⟩ := fees_paid hconvert hpay
  rw [hs1] at hbal hblind hview
  obtain ⟨_, t2, htake, h1⟩ := happly.of_bind
  obtain ⟨ht2, hnonneg2, hpublic2, hcover⟩ :=
    adjustBalance_spec htake (balancesNonneg_congr hbal hs.nonneg)
  obtain ⟨_, t3, hsupply, hcreate⟩ := h1.of_bind
  obtain ⟨hbal3, hblind3, -, hview3⟩ := returns_adjustConfidentialSupply hsupply
  have hblind2 : t3.blindedBalances = s.blindedBalances := by
    rw [hblind3, ht2]
    exact hblind
  obtain ⟨hs3, hunique, hfrom, hlive⟩ :=
    each_createOutput hcreate (by rw [hblind2]; exact hs.unique)
  have hbal' : s3.balances = t2.balances := by
    rw [hs3]
    exact hbal3
  obtain ⟨hs', hnonneg', hpublic', -⟩ := adjustBalance_spec hend (balancesNonneg_congr hbal' hnonneg2)
  have hblind' : s'.blindedBalances = s3.blindedBalances := by rw [hs']
  -- the amount was in the balance of the sender
  have hle : op.amount.amount ≤ maxShareSupply := by
    have hbound := hs.bounded op.amount.assetId
    have hlive0 := live_nonneg s.blindedBalances op.amount.assetId
    change -(-op.amount.amount) ≤ s2.publicBalance op.amount.assetId at hcover
    rw [publicBalance_congr hbal] at hcover
    omega
  obtain ⟨hpos, hsum⟩ := op.hiddenSum_outputs hvalid hproven hle
  refine ⟨fun j a' ha' => ?_, fun j => ?_, ?_, by rw [hblind']; exact hunique, hnonneg', fun j => ?_⟩
  · have hafter : s'.assetView j = t3.assetView j := by
      rw [hs']
      change s3.assetView j = _
      rw [hs3]
      rfl
    rw [hafter] at ha'
    obtain ⟨a, ha, heq⟩ := hview3 j a' ha'
    rw [ht2] at ha
    exact ⟨a, (hview j).symm.trans ha, heq⟩
  · rw [hblind', hlive j, hblind2, hsum]
  · rw [hblind']
    refine inRange_of_outputs (by rw [hblind2]; exact hs.inRange) hfrom fun c hc => ?_
    have := value_le_hiddenSum hc
    omega
  · rw [hpublic' j, publicBalance_congr hbal', hpublic2 j, publicBalance_congr hbal]
    change _ + (if j = op.amount.assetId then -op.amount.amount else 0)
      + (if j = op.fee.assetId then -op.fee.amount else 0) ≤ _
    split <;> split <;> omega

theorem assetId_of_inputs (hunique : Unique s.blindedBalances)
    (hinputs : ∀ input ∈ inputs, InputOf id input s) (hb : s.blindedBalances.find i = some b)
    (hmem : b.commitment ∈ inputs.map (·.commitment)) : b.assetId = id := by
  obtain ⟨input, hinput, heq⟩ := List.mem_map.mp hmem
  obtain ⟨j, c, hc, hcommitment, hasset⟩ := hinputs input hinput
  have hij := hunique i j b c hb hc (heq.symm.trans hcommitment.symm)
  rw [hij, hc] at hb
  cases hb
  exact hasset

theorem hiddenSum_inputs_le (hlive : ∀ j, live t' j = live t j
      - if j = id then (hiddenSum (inputs.map (·.commitment)) : Int) else 0) :
    (hiddenSum (inputs.map (·.commitment)) : Int) ≤ live t id := by
  have hafter := live_nonneg t' id
  rw [hlive id, if_pos rfl] at hafter
  omega

theorem TransferFromBlindOperation.moved {op : TransferFromBlindOperation} (hs : Sound s)
    (hvalid : op.validate ctx.before = .ok u)
    (h : Returns (startEvaluateWith ctx.trxState tempAccount op.fee requiredFee
      (payFbaFee ctx.isConfigured ctx.trxState tempAccount fbaId) op.doEvaluate fun _ => op.doApply)
      s v s') :
    Moved op.amount.assetId (-(op.amount.amount + op.fee.amount)) s s' := by
  obtain ⟨_, _, s1, t1, s2, s3, -, heval, hconvert, hpay, happly, hend⟩ := of_startEvaluateWith h
  obtain ⟨hs1, hinputs⟩ : s1 = s ∧ ∀ input ∈ op.inputs, InputOf op.fee.assetId input s := by
    obtain ⟨_, s0, hfetch, hcheck⟩ := heval.of_bind
    obtain ⟨-, hs0⟩ := Table.fetch_iff.mp hfetch
    rw [hs0] at hcheck
    exact each_unchanged (fun _ _ _ _ => returns_checkInput) hcheck
  obtain ⟨hbal, hblind, hview⟩ := fees_paid hconvert hpay
  rw [hs1] at hbal hblind hview
  obtain ⟨_, t2, hpayer, h1⟩ := happly.of_bind
  obtain ⟨ht2, hnonneg2, hpublic2, -⟩ :=
    adjustBalance_spec hpayer (balancesNonneg_congr hbal hs.nonneg)
  obtain ⟨_, t3, hto, h2⟩ := h1.of_bind
  obtain ⟨ht3, hnonneg3, hpublic3, -⟩ := adjustBalance_spec hto hnonneg2
  have hblind3 : t3.blindedBalances = s.blindedBalances := by
    rw [ht3]
    change t2.blindedBalances = _
    rw [ht2]
    exact hblind
  obtain ⟨_, t4, hremove, h3⟩ := h2.of_bind
  obtain ⟨ht4, hwithin, hlive⟩ := each_removeInput hremove fun i b hb hmem => by
    rw [hblind3] at hb
    exact assetId_of_inputs hs.unique hinputs hb hmem
  rw [hblind3] at hwithin hlive
  obtain ⟨taken, htaken, hsupply⟩ := h3.of_lift
  obtain ⟨rfl, -⟩ := of_safe htaken
  obtain ⟨hbal5, hblind5, -, hview5⟩ := returns_adjustConfidentialSupply hsupply
  have hbal' : s3.balances = t3.balances := by
    rw [hbal5, ht4]
  obtain ⟨hs', hnonneg', hpublic', -⟩ := adjustBalance_spec hend (balancesNonneg_congr hbal' hnonneg3)
  have hblind' : s'.blindedBalances = t4.blindedBalances := by
    rw [hs']
    exact hblind5
  have hle := (hiddenSum_inputs_le hlive).trans (hs.live_le _)
  obtain ⟨hpos, hfee, hasset, hsum⟩ := op.hiddenSum_inputs hvalid hle
  refine ⟨fun j a' ha' => ?_, fun j => ?_, by rw [hblind']; exact hwithin.inRange hs.inRange,
    by rw [hblind']; exact hwithin.unique hs.unique, hnonneg', fun j => ?_⟩
  · have hafter : s'.assetView j = s3.assetView j := by
      rw [hs']
      rfl
    rw [hafter] at ha'
    obtain ⟨a, ha, heq⟩ := hview5 j a' ha'
    have hbefore : t4.assetView j = s2.assetView j := by
      rw [ht4]
      change t3.assetView j = _
      rw [ht3]
      change t2.assetView j = _
      rw [ht2]
      rfl
    exact ⟨a, (hview j).symm.trans (hbefore.symm.trans ha), heq⟩
  · rw [hblind', hlive j, hsum, hasset]
    split <;> omega
  · rw [hpublic' j, publicBalance_congr hbal', hpublic3 j, hpublic2 j, publicBalance_congr hbal,
      hasset]
    change _ + (if j = op.fee.assetId then -op.fee.amount else 0) ≤ _
    split <;> omega

theorem BlindTransferOperation.moved {op : BlindTransferOperation} (hs : Sound s)
    (hvalid : op.validate ctx.before = .ok u)
    (hproven : 1 < op.outputs.length → ∀ out ∈ op.outputs, Proven out)
    (hcovers : op.outputs.length = 1 → op.fee.amount ≤ hiddenSum (op.inputs.map (·.commitment)))
    (h : Returns (startEvaluateWith ctx.trxState tempAccount op.fee requiredFee
      (payFbaFee ctx.isConfigured ctx.trxState tempAccount fbaId) op.doEvaluate fun _ => op.doApply)
      s v s') :
    Moved op.fee.assetId (-op.fee.amount) s s' := by
  obtain ⟨_, _, s1, t1, s2, s3, hfee0, heval, hconvert, hpay, happly, hend⟩ := of_startEvaluateWith h
  obtain ⟨hs1, hinputs⟩ : s1 = s ∧ ∀ input ∈ op.inputs, InputOf op.fee.assetId input s := by
    obtain ⟨_, s0, hfetch, hcheck⟩ := heval.of_bind
    obtain ⟨-, hs0⟩ := Table.fetch_iff.mp hfetch
    rw [hs0] at hcheck
    obtain ⟨_, s0', howners, hcheck'⟩ := hcheck.of_bind
    rw [(each_unchanged (fun _ _ _ _ => checkOwner_unchanged) howners).1] at hcheck'
    exact each_unchanged (fun _ _ _ _ => returns_checkInput) hcheck'
  obtain ⟨hbal, hblind, hview⟩ := fees_paid hconvert hpay
  rw [hs1] at hbal hblind hview
  obtain ⟨_, t2, hpayer, h1⟩ := happly.of_bind
  obtain ⟨ht2, hnonneg2, hpublic2, -⟩ :=
    adjustBalance_spec hpayer (balancesNonneg_congr hbal hs.nonneg)
  have hblind2 : t2.blindedBalances = s.blindedBalances := by
    rw [ht2]
    exact hblind
  obtain ⟨_, t3, hremove, h2⟩ := h1.of_bind
  obtain ⟨ht3, hwithin, hlive3⟩ := each_removeInput hremove fun i b hb hmem => by
    rw [hblind2] at hb
    exact assetId_of_inputs hs.unique hinputs hb hmem
  rw [hblind2] at hwithin hlive3
  obtain ⟨_, t4, hcreate, hsupply⟩ := h2.of_bind
  obtain ⟨ht4, hunique, hfrom, hlive4⟩ := each_createOutput hcreate (hwithin.unique hs.unique)
  obtain ⟨hbal5, hblind5, ⟨a0, ha0, hcover⟩, hview5⟩ := returns_adjustConfidentialSupply hsupply
  have hviews (j : AssetId) : t4.assetView j = s.assetView j := by
    rw [ht4]
    change t3.assetView j = _
    rw [ht3]
    change t2.assetView j = _
    rw [ht2]
    exact hview j
  have hbal' : s3.balances = t2.balances := by
    rw [hbal5, ht4]
    change t3.balances = _
    rw [ht3]
  obtain ⟨hs', hnonneg', hpublic', -⟩ := adjustBalance_spec hend (balancesNonneg_congr hbal' hnonneg2)
  have hblind' : s'.blindedBalances = t4.blindedBalances := by
    rw [hs']
    exact hblind5
  have hlive_le := hs.live_le op.fee.assetId
  -- the counter covers the fee
  have hfee : op.fee.amount ≤ maxShareSupply := by
    rw [hviews] at ha0
    rw [hs.supply _ a0 ha0] at hcover
    omega
  obtain ⟨hsum, hrange⟩ := op.hiddenSum_outputs hvalid hproven hcovers
    ((hiddenSum_inputs_le hlive3).trans hlive_le) hfee0 hfee
  refine ⟨fun j a' ha' => ?_, fun j => ?_, ?_, by rw [hblind']; exact hunique, hnonneg', fun j => ?_⟩
  · have hafter : s'.assetView j = s3.assetView j := by
      rw [hs']
      rfl
    rw [hafter] at ha'
    obtain ⟨a, ha, heq⟩ := hview5 j a' ha'
    exact ⟨a, (hviews j).symm.trans ha, heq⟩
  · rw [hblind', hlive4 j, hlive3 j, hsum]
    split <;> omega
  · rw [hblind']
    exact inRange_of_outputs (hwithin.inRange hs.inRange) hfrom hrange
  · rw [hpublic' j, publicBalance_congr hbal', hpublic2 j, publicBalance_congr hbal]
    change _ + (if j = op.fee.assetId then -op.fee.amount else 0) ≤ _
    split <;> omega

/-- The operation is backed: where range proofs are read they are true, and the inputs of a blind
    transfer with a single output hide at least its fee. -/
def Backed : Operation → Prop
  | .toBlind op => 1 < op.outputs.length → ∀ out ∈ op.outputs, Proven out
  | .fromBlind _ => True
  | .blindTransfer op =>
    (1 < op.outputs.length → ∀ out ∈ op.outputs, Proven out) ∧
      (op.outputs.length = 1 → op.fee.amount ≤ hiddenSum (op.inputs.map (·.commitment)))

def putIn (id : AssetId) : Operation → Int
  | .toBlind op => if id = op.amount.assetId then op.amount.amount else 0
  | .fromBlind _ => 0
  | .blindTransfer _ => 0

def withdrawn (id : AssetId) : Operation → Int
  | .toBlind _ => 0
  | .fromBlind op => if id = op.amount.assetId then op.amount.amount + op.fee.amount else 0
  | .blindTransfer op => if id = op.fee.assetId then op.fee.amount else 0

theorem step_sound {op : Operation} (hs : Sound s) (hbacked : Backed op)
    (h : step s (ctx, op) = .ok s') :
    Sound s' ∧ ∀ id, live s'.blindedBalances id
      = live s.blindedBalances id + putIn id op - withdrawn id op := by
  obtain ⟨u, hret⟩ := Lib.commit_eq_ok.mp h
  cases op with
  | toBlind op =>
    obtain ⟨_, hvalid, hrest⟩ := hret.of_lift
    have hmoved := op.moved hs hvalid hbacked hrest
    refine ⟨hmoved.sound hs, fun id => ?_⟩
    rw [hmoved.live id, putIn, withdrawn, sub_zero]
  | fromBlind op =>
    obtain ⟨_, hvalid, hrest⟩ := hret.of_lift
    have hmoved := op.moved hs hvalid hrest
    refine ⟨hmoved.sound hs, fun id => ?_⟩
    rw [hmoved.live id, putIn, withdrawn]
    split <;> omega
  | blindTransfer op =>
    obtain ⟨_, hvalid, hrest⟩ := hret.of_lift
    have hmoved := op.moved hs hvalid hbacked.1 hbacked.2 hrest
    refine ⟨hmoved.sound hs, fun id => ?_⟩
    rw [hmoved.live id, putIn, withdrawn]
    split <;> omega

structure Initial (s : State) : Prop where
  blindedBalances : s.blindedBalances = ∅
  supply : ∀ id a, s.assets.find id = some a → a.confidentialSupply = 0
  nonneg : s.BalancesNonneg
  bounded : ∀ id, s.publicBalance id ≤ maxShareSupply

theorem Initial.sound (h : Initial s) : Sound s where
  supply id a ha := by
    obtain ⟨a0, hfind, rfl⟩ := Option.map_eq_some_iff.mp ha
    rw [h.blindedBalances]
    exact h.supply id a0 hfind
  inRange i b hb := by
    rw [h.blindedBalances] at hb
    cases hb
  unique i j b c hb := by
    rw [h.blindedBalances] at hb
    cases hb
  nonneg := h.nonneg
  bounded id := by
    rw [h.blindedBalances]
    exact Int.le_trans (Int.le_of_eq (add_zero _)) (h.bounded id)

theorem run_sound {es : List (Context × Operation)} (hs : Sound s)
    (hrun : Lib.run step s es = .ok s') (hbacked : ∀ e ∈ es, Backed e.2) :
    Sound s' ∧ ∀ id, live s'.blindedBalances id = live s.blindedBalances id
      + (es.map fun e => putIn id e.2).sum - (es.map fun e => withdrawn id e.2).sum := by
  induction es generalizing s with
  | nil =>
    cases hrun
    exact ⟨hs, fun id => by simp⟩
  | cons e rest ih =>
    obtain ⟨t, hstep, hrest⟩ := Lib.run_cons_eq_ok.mp hrun
    obtain ⟨hfirst, hothers⟩ := List.forall_mem_cons.mp hbacked
    obtain ⟨ht, hlive⟩ := step_sound hs hfirst hstep
    obtain ⟨hs', hlive'⟩ := ih ht hrest hothers
    refine ⟨hs', fun id => ?_⟩
    rw [hlive' id, hlive id, List.map_cons, List.map_cons, List.sum_cons, List.sum_cons]
    ring

/-- In every run of backed operations the blinded balances stay solvent, and of no asset more is
    taken out of them than was put in. -/
theorem solvent_of_backed {es : List (Context × Operation)} (hinit : Initial s)
    (hrun : Lib.run step s es = .ok s') (hbacked : ∀ e ∈ es, Backed e.2) :
    Solvent s' ∧ ∀ id, (es.map fun e => withdrawn id e.2).sum ≤ (es.map fun e => putIn id e.2).sum := by
  obtain ⟨hs', hlive⟩ := run_sound hinit.sound hrun hbacked
  refine ⟨hs'.solvent, fun id => ?_⟩
  have hnonneg := live_nonneg s'.blindedBalances id
  rw [hlive id, hinit.blindedBalances] at hnonneg
  have hempty : live ∅ id = 0 := rfl
  omega

def sampleAccount : AccountObject := { registrar := 0, referrer := 0 }

def sampleState : State where
  accounts := ((((Index.create ∅ sampleAccount).create sampleAccount).create sampleAccount).create
    sampleAccount).create sampleAccount
  balances := AList.insert (0, core) 100 ∅
  assets := Index.create ∅
    { issuer := 0, options := { coreExchangeRate := ⟨⟨1, core⟩, ⟨1, core⟩⟩ } }
  fbaAccumulators := ((Index.create ∅ {}).create {}).create {}

def sampleContext : Context where
  trxState := {}
  calculateFee _ := 0
  before c d := c.blinding < d.blinding
  isConfigured _ _ := false

def sampleOwner : Authority PublicKey Address where
  weightThreshold := 1
  accountAuths := []
  keyAuths := [(7, 1)]
  addressAuths := []

def sampleOutputs (a b : Fin groupOrder) : List BlindOutput :=
  [⟨⟨⟨1, by decide⟩, a⟩, ⟨some 100⟩, sampleOwner⟩, ⟨⟨⟨2, by decide⟩, b⟩, ⟨some 100⟩, sampleOwner⟩]

def sampleTransfer (a b : Fin groupOrder) : Operation :=
  .toBlind
    { fee := ⟨0, core⟩, amount := ⟨10, core⟩, sender := 0, blindingFactor := ⟨3, by decide⟩
      outputs := sampleOutputs a b }

theorem sampleState_initial : Initial sampleState where
  blindedBalances := rfl
  supply := by
    refine Index.forall_find_iff.mpr ?_
    decide
  nonneg := by
    intro k v hv
    change (AList.insert (0, core) 100 ∅ : Rows (AccountId × AssetId) Int).lookup k = some v at hv
    rw [Rows.lookup_insert_eq] at hv
    split at hv
    · cases hv
      decide
    · cases hv
  bounded id := by
    change Rows.total _ (AList.insert (0, core) 100 ∅) ≤ _
    rw [Rows.total_insert]
    change 0 - 0 + (if core = id then (100 : Int) else 0) ≤ maxShareSupply
    split <;> decide

theorem solvent_of_backed_split :
    ∃ s', Lib.run step sampleState [(sampleContext, sampleTransfer ⟨4, by decide⟩ ⟨6, by decide⟩)]
      = .ok s' ∧ Solvent s' := by
  have hrun : Lib.Succeeds (Lib.run step sampleState
      [(sampleContext, sampleTransfer ⟨4, by decide⟩ ⟨6, by decide⟩)])
      fun t => live t.blindedBalances core = 10 := by
    decide +kernel
  obtain ⟨s', heq, -⟩ := hrun
  refine ⟨s', heq, (solvent_of_backed sampleState_initial heq ?_).1⟩
  intro e he
  rw [List.mem_singleton.mp he]
  intro _ out hout
  simp only [sampleOutputs, List.mem_cons, List.not_mem_nil, or_false] at hout
  rcases hout with rfl | rfl <;> simp [Proven]

/-- Outputs of 20 and minus 10: the sum is right, both proofs announce at most 100, and nothing
    asks whether they hold. -/
theorem not_solvent_of_wrapped :
    ∃ s', Initial sampleState ∧ Lib.run step sampleState
        [(sampleContext, sampleTransfer ⟨20, by decide⟩ ⟨groupOrder - 10, by decide⟩)] = .ok s' ∧
      ¬Solvent s' := by
  have hrun : Lib.Succeeds (Lib.run step sampleState
      [(sampleContext, sampleTransfer ⟨20, by decide⟩ ⟨groupOrder - 10, by decide⟩)])
      fun t => (t.blindedBalances.find 1).map (fun b => b.commitment.value.val)
        = some (groupOrder - 10) := by
    decide +kernel
  obtain ⟨s', heq, hvalue⟩ := hrun
  refine ⟨s', sampleState_initial, heq, fun hsolvent => ?_⟩
  obtain ⟨b, hb, hb'⟩ := Option.map_eq_some_iff.mp hvalue
  have hrange := hsolvent.inRange 1 b hb
  rw [hb'] at hrange
  exact absurd hrange (by decide)

end Meta1Core.Confidential

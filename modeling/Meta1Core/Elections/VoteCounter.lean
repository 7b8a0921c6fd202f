import Mathlib.Data.List.Perm.Basic
import Mathlib.Data.Nat.Log
import Meta1Core.Protocol.Authority

/-!
# The vote counter (`vote_count.hpp`)

`vote_counter` makes an authority from vote totals of 64 bits, which come in descending order.
-/

namespace Meta1Core.Elections

open Protocol

def maxUint32 : Nat := 2 ^ 32 - 1
def maxWeight : Nat := 2 ^ 16 - 1

def setAccountAuth (k : AccountId) (w : UInt16) :
    List (AccountId × UInt16) → List (AccountId × UInt16)
  | [] => [(k, w)]
  | (a, v) :: rest =>
    if k < a then (k, w) :: (a, v) :: rest
    else if k = a then (k, w) :: rest
    else (a, v) :: setAccountAuth k w rest

def emptyAuthority {Key Addr : Type} : Authority Key Addr := ⟨0, [], [], []⟩

def addAuthority {Key Addr : Type} (au : Authority Key Addr) (k : AccountId) (w : UInt16) :
    Authority Key Addr :=
  { au with accountAuths := setAccountAuth k w au.accountAuths }

/-- `vote_counter`; the bit shift is -1 until the first vote. -/
structure VoteCounter (Key Addr : Type) where
  lastVotes : Nat := 2 ^ 64 - 1
  totalVotes : Nat := 0
  bitshift : Int := -1
  auth : Authority Key Addr := emptyAuthority

namespace VoteCounter

variable {Key Addr : Type}

def add (vc : VoteCounter Key Addr) (who : AccountId) (votes : UInt64) :
    Except Exception (VoteCounter Key Addr) :=
  if votes.toNat = 0 then return vc
  else do
    cAssert (votes.toNat ≤ vc.lastVotes) "votes <= last_votes"
    let bitshift : Int :=
      if vc.bitshift = -1 then max ((votes.toNat.log2 : Int) - 15) 0 else vc.bitshift
    let scaledVotes := max (votes.toNat >>> bitshift.toNat) 1
    cAssert (scaledVotes ≤ maxWeight) "scaled_votes <= std::numeric_limits<weight_type>::max()"
    let totalVotes := vc.totalVotes + scaledVotes
    cAssert (totalVotes ≤ maxUint32) "total_votes <= std::numeric_limits<uint32_t>::max()"
    return {
      lastVotes := votes.toNat
      totalVotes := totalVotes
      bitshift := bitshift
      auth := addAuthority vc.auth who (UInt16.ofNat scaledVotes) }

def finish (vc : VoteCounter Key Addr) (outAuth : Authority Key Addr) :
    Except Exception (Authority Key Addr) :=
  if vc.totalVotes = 0 then return outAuth
  else do
    cAssert (vc.totalVotes ≤ maxUint32) "total_votes <= std::numeric_limits<uint32_t>::max()"
    let weight := UInt32.ofNat vc.totalVotes
    return { vc.auth with weightThreshold := (weight >>> 1) + 1 }

def isEmpty (vc : VoteCounter Key Addr) : Bool := vc.totalVotes = 0

def addAll (vc : VoteCounter Key Addr) (votes : List (AccountId × UInt64)) :
    Except Exception (VoteCounter Key Addr) :=
  votes.foldlM (fun vc e => vc.add e.1 e.2) vc

end VoteCounter

def countVotes {Key Addr : Type} (votes : List (AccountId × UInt64)) (outAuth : Authority Key Addr) :
    Except Exception (Authority Key Addr) := do
  (← VoteCounter.addAll {} votes).finish outAuth

theorem setAccountAuth_perm {k : AccountId} {w : UInt16} {entries : List (AccountId × UInt16)}
    (h : k ∉ entries.map Prod.fst) : (setAccountAuth k w entries).Perm ((k, w) :: entries) := by
  induction entries with
  | nil => rfl
  | cons e entries ih =>
    obtain ⟨a, v⟩ := e
    have hne : k ≠ a := fun heq => h (by simp [heq])
    have hrest := ih fun hmem => h (by simp [hmem])
    rw [setAccountAuth]
    by_cases hlt : k < a
    · rw [if_pos hlt]
    · rw [if_neg hlt, if_neg hne]
      exact (hrest.cons _).trans (.swap _ _ _)

theorem weight_perm {α : Type} {xs ys : List (α × UInt16)} (h : xs.Perm ys) :
    weight xs = weight ys := (h.map _).sum_nat

theorem weight_cons {α : Type} (e : α × UInt16) (es : List (α × UInt16)) :
    weight (e :: es) = e.2.toNat + weight es := rfl

def scaled (shift votes : Nat) : Nat := max (votes >>> shift) 1

theorem scaled_mono (shift : Nat) {v u : Nat} (h : v ≤ u) : scaled shift v ≤ scaled shift u := by
  have hshift : v >>> shift ≤ u >>> shift := by
    rw [Nat.shiftRight_eq_div_pow, Nat.shiftRight_eq_div_pow]
    exact Nat.div_le_div_right h
  unfold scaled
  omega

theorem one_le_scaled (shift votes : Nat) : 1 ≤ scaled shift votes := le_max_right _ _

def Fits (shift votes : Nat) : Prop := votes < 2 ^ (shift + 16)

theorem scaled_le {shift votes : Nat} (h : Fits shift votes) : scaled shift votes ≤ maxWeight := by
  have hlt : votes >>> shift < 2 ^ 16 := by
    rw [Nat.shiftRight_eq_div_pow]
    apply Nat.div_lt_of_lt_mul
    rw [← Nat.pow_add]
    exact h
  unfold scaled maxWeight
  omega

theorem fits_first (votes : Nat) : Fits (votes.log2 - 15) votes := by
  unfold Fits
  apply Nat.lt_of_lt_of_le Nat.lt_log2_self
  exact Nat.pow_le_pow_right (by decide) (by omega)

namespace VoteCounter

variable {Key Addr : Type}

theorem add_zero (vc : VoteCounter Key Addr) (who : AccountId) {votes : UInt64}
    (h : votes = 0) : vc.add who votes = .ok vc := by
  subst h
  rfl

def shiftFor (vc : VoteCounter Key Addr) (votes : UInt64) : Nat :=
  if vc.bitshift = -1 then votes.toNat.log2 - 15 else vc.bitshift.toNat

theorem add_eq {vc : VoteCounter Key Addr} {who : AccountId} {votes : UInt64} (hpos : votes ≠ 0)
    (hbitshift : -1 ≤ vc.bitshift) (hlast : votes.toNat ≤ vc.lastVotes)
    (hfits : Fits (vc.shiftFor votes) votes.toNat)
    (hroom : vc.totalVotes + scaled (vc.shiftFor votes) votes.toNat ≤ maxUint32) :
    vc.add who votes = .ok
      { lastVotes := votes.toNat
        totalVotes := vc.totalVotes + scaled (vc.shiftFor votes) votes.toNat
        bitshift := vc.shiftFor votes
        auth := addAuthority vc.auth who (UInt16.ofNat (scaled (vc.shiftFor votes) votes.toNat)) } := by
  have hne : votes.toNat ≠ 0 := fun h => hpos (UInt64.toNat_inj.mp h)
  have hbits : (if vc.bitshift = -1 then max ((votes.toNat.log2 : Int) - 15) 0 else vc.bitshift) =
      (vc.shiftFor votes : Int) := by
    unfold shiftFor
    split <;> omega
  have hscaled : max (votes.toNat >>> vc.shiftFor votes) 1 ≤ maxWeight := scaled_le hfits
  have hroom' : vc.totalVotes + max (votes.toNat >>> vc.shiftFor votes) 1 ≤ maxUint32 := hroom
  unfold add
  rw [if_neg hne, hbits]
  simp only [Int.toNat_natCast, cAssert_of hlast, cAssert_of hscaled, cAssert_of hroom']
  rfl

/-! ## All votes -/

def counted (votes : List (AccountId × UInt64)) : List (AccountId × UInt64) :=
  votes.filter fun e => e.2 ≠ 0

def weighed (shift : Nat) (votes : List (AccountId × UInt64)) : List (AccountId × UInt16) :=
  (counted votes).map fun e => (e.1, UInt16.ofNat (scaled shift e.2.toNat))

theorem counted_cons_zero {e : AccountId × UInt64} (h : e.2 = 0) (votes : List (AccountId × UInt64)) :
    counted (e :: votes) = counted votes := by
  simp [counted, h]

theorem counted_cons {e : AccountId × UInt64} (h : e.2 ≠ 0) (votes : List (AccountId × UInt64)) :
    counted (e :: votes) = e :: counted votes := by
  simp [counted, h]

theorem addAll_cons (vc : VoteCounter Key Addr) (e : AccountId × UInt64)
    (votes : List (AccountId × UInt64)) :
    vc.addAll (e :: votes) = vc.add e.1 e.2 >>= fun vc => vc.addAll votes := by
  rw [addAll, List.foldlM_cons]
  rfl

theorem addAll_fixed {shift : Nat} : ∀ {votes : List (AccountId × UInt64)}
    {vc : VoteCounter Key Addr}, vc.bitshift = shift → Fits shift vc.lastVotes →
    (votes.map Prod.fst).Nodup → (∀ e ∈ votes, e.1 ∉ vc.auth.accountAuths.map Prod.fst) →
    votes.Pairwise (fun a b => b.2 ≤ a.2) → (∀ e ∈ votes, e.2.toNat ≤ vc.lastVotes) →
    vc.totalVotes + votes.length * maxWeight ≤ maxUint32 →
      ∃ vc', vc.addAll votes = .ok vc' ∧
        vc'.totalVotes = vc.totalVotes +
          ((counted votes).map fun e => scaled shift e.2.toNat).sum ∧
        vc'.totalVotes ≤ maxUint32 ∧
        vc'.auth = { vc.auth with accountAuths := vc'.auth.accountAuths } ∧
        vc'.auth.accountAuths.Perm (vc.auth.accountAuths ++ weighed shift votes)
  | [], vc, _, _, _, _, _, _, hroom =>
    ⟨vc, rfl, rfl, by omega, rfl, by rw [weighed, counted]; simp⟩
  | e :: votes, vc, hshift, hfits, hnodup, hfresh, hsorted, hlast, hroom => by
    obtain ⟨hnot, hnodup'⟩ := List.nodup_cons.mp hnodup
    obtain ⟨hle, hsorted'⟩ := List.pairwise_cons.mp hsorted
    have hmax : 0 ≤ maxWeight := Nat.zero_le _
    rw [List.length_cons, Nat.add_mul] at hroom
    rw [addAll_cons]
    by_cases hzero : e.2 = 0
    -- what has no votes is passed over
    · rw [add_zero vc e.1 hzero, weighed, counted_cons_zero hzero]
      exact addAll_fixed hshift hfits hnodup' (fun x hx => hfresh x (List.mem_cons_of_mem _ hx))
        hsorted' (fun x hx => hlast x (List.mem_cons_of_mem _ hx)) (by omega)
    · have hthis : vc.shiftFor e.2 = shift := by
        unfold shiftFor
        rw [if_neg (by omega), hshift, Int.toNat_natCast]
      have hfitsE : Fits shift e.2.toNat := Nat.lt_of_le_of_lt (hlast e List.mem_cons_self) hfits
      have hscaled := scaled_le hfitsE
      have hadd := @add_eq _ _ vc e.1 e.2 hzero (by omega) (hlast e List.mem_cons_self)
        (by rw [hthis]; exact hfitsE) (by rw [hthis]; omega)
      rw [hthis] at hadd
      have hperm : (setAccountAuth e.1 (UInt16.ofNat (scaled shift e.2.toNat))
          vc.auth.accountAuths).Perm _ := setAccountAuth_perm (hfresh e List.mem_cons_self)
      obtain ⟨vc', hall, htotal, hmax', hauth, hentries⟩ := @addAll_fixed shift votes
        { lastVotes := e.2.toNat
          totalVotes := vc.totalVotes + scaled shift e.2.toNat
          bitshift := shift
          auth := addAuthority vc.auth e.1 (UInt16.ofNat (scaled shift e.2.toNat)) }
        rfl hfitsE hnodup' (by
          intro x hx hmem
          rcases List.mem_cons.mp ((hperm.map Prod.fst).mem_iff.mp hmem) with heq | hmem
          · exact hnot (heq ▸ List.mem_map_of_mem hx)
          · exact hfresh x (List.mem_cons_of_mem _ hx) hmem)
        hsorted' (fun x hx => hle x hx) (by simp only; omega)
      refine ⟨vc', ?_, ?_, hmax', hauth, ?_⟩
      · rw [hadd]
        exact hall
      · rw [htotal, counted_cons hzero, List.map_cons, List.sum_cons, Nat.add_assoc]
      · rw [weighed, counted_cons hzero, List.map_cons]
        apply hentries.trans
        apply (hperm.append_right _).trans
        exact List.perm_middle.symm

theorem addAll_spec : ∀ {votes : List (AccountId × UInt64)}, votes.length ≤ 2 ^ 16 + 1 →
    (votes.map Prod.fst).Nodup → votes.Pairwise (fun a b => b.2 ≤ a.2) →
      ∃ (vc : VoteCounter Key Addr) (shift : Nat), addAll {} votes = .ok vc ∧
        (∀ e ∈ counted votes, Fits shift e.2.toNat) ∧
        vc.totalVotes = ((counted votes).map fun e => scaled shift e.2.toNat).sum ∧
        vc.totalVotes ≤ maxUint32 ∧
        vc.auth = { emptyAuthority with accountAuths := vc.auth.accountAuths } ∧
        vc.auth.accountAuths.Perm (weighed shift votes)
  | [], _, _, _ => ⟨{}, 0, rfl, by simp [counted], rfl, Nat.zero_le _, rfl, .nil⟩
  | e :: votes, hlen, hnodup, hsorted => by
    obtain ⟨hnot, hnodup'⟩ := List.nodup_cons.mp hnodup
    obtain ⟨hle, hsorted'⟩ := List.pairwise_cons.mp hsorted
    rw [List.length_cons] at hlen
    rw [addAll_cons]
    by_cases hzero : e.2 = 0
    · rw [add_zero _ e.1 hzero, counted_cons_zero hzero]
      simp only [weighed, counted_cons_zero hzero]
      exact addAll_spec (by omega) hnodup' hsorted'
    · have hfits := fits_first e.2.toNat
      have hscaled := scaled_le hfits
      have hweight : maxWeight = 65535 := rfl
      have huint : maxUint32 = 4294967295 := rfl
      have hlt := e.2.toNat_lt
      have hprod : votes.length * maxWeight ≤ 65536 * 65535 :=
        Nat.mul_le_mul (by omega) (Nat.le_of_eq hweight)
      have hadd := @add_eq Key Addr {} e.1 e.2 hzero (Int.le_refl _)
        (by rw [show ({} : VoteCounter Key Addr).lastVotes = 2 ^ 64 - 1 from rfl]; omega) hfits
        (by
          show 0 + scaled (e.2.toNat.log2 - 15) e.2.toNat ≤ maxUint32
          omega)
      have hshift : shiftFor ({} : VoteCounter Key Addr) e.2 = e.2.toNat.log2 - 15 := rfl
      rw [hshift] at hadd
      obtain ⟨vc, hall, htotal, hmax, hauth, hentries⟩ := @addAll_fixed Key Addr
        (e.2.toNat.log2 - 15) votes
        { lastVotes := e.2.toNat
          totalVotes := 0 + scaled (e.2.toNat.log2 - 15) e.2.toNat
          bitshift := (e.2.toNat.log2 - 15 : Nat)
          auth := addAuthority emptyAuthority e.1
            (UInt16.ofNat (scaled (e.2.toNat.log2 - 15) e.2.toNat)) }
        rfl hfits hnodup' (by
          intro x hx hmem
          have heq : x.1 = e.1 := List.mem_singleton.mp hmem
          exact hnot (heq ▸ List.mem_map_of_mem hx))
        hsorted' (fun x hx => hle x hx) (by simp only; omega)
      refine ⟨vc, e.2.toNat.log2 - 15, ?_, ?_, ?_, hmax, hauth, ?_⟩
      · rw [hadd]
        exact hall
      · intro x hx
        rw [counted_cons hzero] at hx
        rcases List.mem_cons.mp hx with rfl | hx
        · exact hfits
        · exact Nat.lt_of_le_of_lt (hle x (List.mem_of_mem_filter hx)) hfits
      · rw [htotal, counted_cons hzero, List.map_cons, List.sum_cons, Nat.zero_add]
      · rw [weighed, counted_cons hzero, List.map_cons]
        exact hentries

theorem weight_weighed {shift : Nat} : ∀ {votes : List (AccountId × UInt64)},
    (∀ e ∈ counted votes, Fits shift e.2.toNat) →
      weight (weighed shift votes) = ((counted votes).map fun e => scaled shift e.2.toNat).sum := by
  intro votes hfits
  unfold weighed weight
  rw [List.map_map]
  congr 1
  apply List.map_congr_left
  intro e he
  have hle := scaled_le (hfits e he)
  exact UInt16.toNat_ofNat_of_lt' (by rw [UInt16.size]; unfold maxWeight at hle; omega)

theorem sum_scaled_pos {shift : Nat} {votes : List (AccountId × UInt64)} :
    ((counted votes).map fun e => scaled shift e.2.toNat).sum ≠ 0 ↔ ∃ e ∈ votes, e.2 ≠ 0 := by
  have hmem : ∀ e, e ∈ counted votes ↔ e ∈ votes ∧ e.2 ≠ 0 := fun e => by simp [counted]
  simp only [← hmem]
  cases counted votes with
  | nil => simp
  | cons e es =>
    have hpos := one_le_scaled shift e.2.toNat
    rw [List.map_cons, List.sum_cons]
    exact ⟨fun _ => ⟨e, List.mem_cons_self⟩, fun _ => by omega⟩

end VoteCounter

def approving {Key Addr : Type} (au : Authority Key Addr) (signed : AccountId → Bool) : Nat :=
  weight (au.accountAuths.filter fun entry => signed entry.1)

/-- Who has votes has a weight, in the order of the votes and within 16 bits, who has none has none,
and only more than half of the weight approves. -/
structure SoundMajority {Key Addr : Type} (votes : List (AccountId × UInt64))
    (au : Authority Key Addr) : Prop where
  weights : ∃ scale : UInt64 → Nat, (∀ v u, v ≤ u → scale v ≤ scale u) ∧
    (∀ e ∈ VoteCounter.counted votes, 1 ≤ scale e.2 ∧ scale e.2 ≤ maxWeight) ∧
    au.accountAuths.Perm
      ((VoteCounter.counted votes).map fun e => (e.1, UInt16.ofNat (scale e.2)))
  accountsOnly : au.keyAuths = [] ∧ au.addressAuths = []
  threshold : au.weightThreshold.toNat = weight au.accountAuths / 2 + 1
  possible : au.weightThreshold.toNat ≤ weight au.accountAuths
  intersect : ∀ signed signed' : AccountId → Bool,
    au.weightThreshold.toNat ≤ approving au signed →
    au.weightThreshold.toNat ≤ approving au signed' →
      ∃ entry ∈ au.accountAuths, signed entry.1 = true ∧ signed' entry.1 = true

theorem exists_common {α : Type} {entries : List (α × UInt16)} {p q : α × UInt16 → Bool}
    (h : weight entries < weight (entries.filter p) + weight (entries.filter q)) :
    ∃ e ∈ entries, p e = true ∧ q e = true := by
  induction entries with
  | nil => simp [weight] at h
  | cons e entries ih =>
    by_cases hboth : p e = true ∧ q e = true
    · exact ⟨e, List.mem_cons_self, hboth⟩
    · have hrest : weight entries < weight (entries.filter p) + weight (entries.filter q) := by
        rw [List.filter_cons, List.filter_cons, weight_cons] at h
        cases hp : p e <;> cases hq : q e <;> simp_all [weight_cons] <;> omega
      obtain ⟨e', he', hcommon⟩ := ih hrest
      exact ⟨e', List.mem_cons_of_mem _ he', hcommon⟩

variable {Key Addr : Type}

theorem half_threshold {total : Nat} (hmax : total ≤ maxUint32) :
    ((UInt32.ofNat total >>> 1) + 1).toNat = total / 2 + 1 := by
  have hlt : total < 2 ^ 32 := by
    unfold maxUint32 at hmax
    omega
  rw [UInt32.toNat_add, UInt32.toNat_shiftRight, UInt32.toNat_ofNat_of_lt' hlt]
  show (total >>> 1 + 1) % 2 ^ 32 = _
  rw [Nat.shiftRight_eq_div_pow]
  omega

theorem countVotes_spec {votes : List (AccountId × UInt64)} (hlen : votes.length ≤ 2 ^ 16 + 1)
    (hnodup : (votes.map Prod.fst).Nodup) (hsorted : votes.Pairwise fun a b => b.2 ≤ a.2)
    (out : Authority Key Addr) :
    ∃ au, countVotes votes out = .ok au ∧
      ((∃ e ∈ votes, e.2 ≠ 0) → SoundMajority votes au) ∧
      ((∀ e ∈ votes, e.2 = 0) → au = out) := by
  obtain ⟨vc, shift, hall, hfits, htotal, hmax, hauth, hentries⟩ :=
    @VoteCounter.addAll_spec Key Addr votes hlen hnodup hsorted
  have hpos := @VoteCounter.sum_scaled_pos shift votes
  rw [← htotal] at hpos
  unfold countVotes
  rw [hall]
  show ∃ au, vc.finish out = .ok au ∧ _
  by_cases hzero : vc.totalVotes = 0
  · refine ⟨out, by rw [VoteCounter.finish, if_pos hzero]; rfl, fun h => ?_, fun _ => rfl⟩
    exact absurd hzero (hpos.mpr h)
  · have hsome := hpos.mp hzero
    have hweight : weight vc.auth.accountAuths = vc.totalVotes := by
      rw [weight_perm hentries, VoteCounter.weight_weighed hfits, htotal]
    have hhalf := half_threshold hmax
    refine ⟨{ vc.auth with weightThreshold := (UInt32.ofNat vc.totalVotes >>> 1) + 1 }, ?_,
      fun _ => ?_, fun h => ?_⟩
    · unfold VoteCounter.finish
      rw [if_neg hzero, cAssert_of hmax]
      rfl
    · constructor
      · refine ⟨fun v => scaled shift v.toNat, fun v u h => scaled_mono shift h, fun e he => ?_,
          hentries⟩
        exact ⟨one_le_scaled shift _, scaled_le (hfits e he)⟩
      · show vc.auth.keyAuths = [] ∧ vc.auth.addressAuths = []
        rw [hauth]
        exact ⟨rfl, rfl⟩
      · show _ = weight vc.auth.accountAuths / 2 + 1
        rw [hweight, hhalf]
      · show _ ≤ weight vc.auth.accountAuths
        rw [hweight, hhalf]
        omega
      · intro signed signed' h h'
        simp only [hhalf] at h h'
        apply exists_common
        show weight vc.auth.accountAuths < approving vc.auth signed + approving vc.auth signed'
        have h : vc.totalVotes / 2 + 1 ≤ approving vc.auth signed := h
        have h' : vc.totalVotes / 2 + 1 ≤ approving vc.auth signed' := h'
        omega
    · obtain ⟨e, he, hne⟩ := hsome
      exact absurd (h e he) hne

end Meta1Core.Elections

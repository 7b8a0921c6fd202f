import Mathlib.Data.Nat.ModEq
import Meta1Core.Witnesses.Slots

/-!
# The shuffle (`db_witness_schedule.cpp`)

Once in a round the active witnesses are shuffled: each place in turn is swapped with a place that
is not before it, chosen by a 64-bit number that depends on the time and the place.  Whatever that
number is, nobody is lost and nobody gets two places.
-/

namespace Meta1Core.Witnesses

open Lib

open Allocation (u32)

theorem WitnessSet.nodup (w : WitnessSet) : w.ids.Nodup := w.ascending.imp Nat.ne_of_lt

namespace State

/-- The place, among `n`, that the loop swaps with place `i` -/
def swapIndex (time n i : Nat) : Nat := i + shuffleKey time i % (n - i)

def swapChecked (ws : List WitnessId) (i j : Nat) : Except Exception (List WitnessId) :=
  match ws[i]?, ws[j]? with
  | some wi, some wj => .ok ((ws.set i wj).set j wi)
  | _, _ => .error .undefined

def shuffleStep (time : Nat) (ws : List WitnessId) (i : Nat) : Except Exception (List WitnessId) :=
  let jmax := u32 (ws.length - i)
  if jmax = 0 then .error .undefined
  else
    let j := u32 (i + shuffleKey time i % jmax)
    swapChecked ws i j

/-- The loop, which ends badly at a place that is not there or at a division by zero -/
def shuffleChecked (time : Nat) (ws : List WitnessId) : Except Exception (List WitnessId) :=
  (List.range ws.length).foldlM (shuffleStep time) ws

theorem swap_perm (ws : List WitnessId) (i j : Nat) : (swap ws i j).Perm ws := by
  unfold swap
  split
  · rename_i wi wj hwi hwj
    obtain ⟨hi, rfl⟩ := List.getElem?_eq_some_iff.mp hwi
    obtain ⟨hj, rfl⟩ := List.getElem?_eq_some_iff.mp hwj
    exact List.set_set_perm hi hj
  · exact List.Perm.refl ws

variable {ws : List WitnessId} {i : Nat}

theorem swapChecked_eq {j : Nat} (hi : i < ws.length) (hj : j < ws.length) :
    swapChecked ws i j = .ok (swap ws i j) := by
  unfold swapChecked swap
  rw [List.getElem?_eq_getElem hi, List.getElem?_eq_getElem hj]

theorem le_swapIndex (time n i : Nat) : i ≤ swapIndex time n i := Nat.le_add_right i _

theorem swapIndex_lt {n : Nat} (time : Nat) (h : i < n) : swapIndex time n i < n := by
  have hmod : shuffleKey time i % (n - i) < n - i := Nat.mod_lt _ (Nat.sub_pos_of_lt h)
  unfold swapIndex
  omega

theorem shuffleStep_eq (time : Nat) (h : i < ws.length) (h32 : ws.length < 2 ^ 32) :
    shuffleStep time ws i = .ok (swap ws i (swapIndex time ws.length i)) := by
  have hlt := swapIndex_lt time h
  have hjmax : u32 (ws.length - i) = ws.length - i := by
    unfold u32
    omega
  have hj : u32 (i + shuffleKey time i % (ws.length - i)) = swapIndex time ws.length i :=
    Nat.mod_eq_of_lt (hlt.trans h32)
  unfold shuffleStep
  rw [hjmax, if_neg (by omega)]
  show swapChecked ws i (u32 (i + shuffleKey time i % (ws.length - i))) = _
  rw [hj]
  exact swapChecked_eq h hlt

theorem foldl_swap_perm (time : Nat) (places : List Nat) (ws : List WitnessId) :
    (places.foldl (fun ws i => swap ws i (swapIndex time ws.length i)) ws).Perm ws := by
  induction places generalizing ws with
  | nil => exact List.Perm.refl ws
  | cons i places ih =>
    rw [List.foldl_cons]
    exact (ih _).trans (swap_perm ws i _)

theorem shuffle_perm (time : Nat) (ws : List WitnessId) : (shuffle time ws).Perm ws :=
  foldl_swap_perm time (List.range ws.length) ws

theorem foldlM_shuffleStep (time n : Nat) (h32 : n < 2 ^ 32) (places : List Nat) :
    ∀ ws : List WitnessId, ws.length = n → (∀ i ∈ places, i < n) →
      places.foldlM (shuffleStep time) ws =
        .ok (places.foldl (fun ws i => swap ws i (swapIndex time ws.length i)) ws) := by
  induction places with
  | nil => exact fun ws _ _ => rfl
  | cons i places ih =>
    intro ws hlen hlt
    have hi : i < ws.length := hlen ▸ hlt i List.mem_cons_self
    have hstep := shuffleStep_eq time hi (hlen ▸ h32)
    have hswapped : (swap ws i (swapIndex time ws.length i)).length = n :=
      (swap_perm ws i _).length_eq.trans hlen
    rw [List.foldlM_cons, hstep]
    exact ih _ hswapped fun j hj => hlt j (List.mem_cons_of_mem i hj)

theorem shuffleChecked_eq (time : Nat) (h32 : ws.length < 2 ^ 32) :
    shuffleChecked time ws = .ok (shuffle time ws) :=
  foldlM_shuffleStep time ws.length h32 _ ws rfl fun _ => List.mem_range.mp

theorem updateWitnessSchedule_of_reshuffles {s : State} (h : s.Reshuffles) :
    s.updateWitnessSchedule.shuffledWitnesses.Perm s.activeWitnesses.ids := by
  rw [updateWitnessSchedule, if_pos h]
  exact shuffle_perm s.dynamic.time s.activeWitnesses.ids

/-- At the end of a round the schedule becomes a permutation of the active witnesses, through swaps
that stay in the vector; at any other block it stays what it is. -/
theorem updateWitnessSchedule_permutes (s : State) (h : s.activeWitnesses.ids ≠ []) :
    (s.dynamic.headBlockNumber % s.activeWitnesses.ids.length = 0 →
      s.updateWitnessSchedule.shuffledWitnesses.Perm s.activeWitnesses.ids ∧
        s.updateWitnessSchedule.shuffledWitnesses ≠ [] ∧
        s.updateWitnessSchedule.shuffledWitnesses.Nodup ∧ (∀ w ∈ s.activeWitnesses.ids,
          s.updateWitnessSchedule.shuffledWitnesses.count w = 1) ∧
        (∀ i < s.activeWitnesses.ids.length,
          i ≤ swapIndex s.dynamic.time s.activeWitnesses.ids.length i ∧
            swapIndex s.dynamic.time s.activeWitnesses.ids.length i <
              s.activeWitnesses.ids.length) ∧ (s.activeWitnesses.ids.length < 2 ^ 32 →
          shuffleChecked s.dynamic.time s.activeWitnesses.ids =
            .ok s.updateWitnessSchedule.shuffledWitnesses)) ∧
      (s.dynamic.headBlockNumber % s.activeWitnesses.ids.length ≠ 0 →
        s.updateWitnessSchedule = s) := by
  constructor
  · intro hround
    have hperm := updateWitnessSchedule_of_reshuffles hround
    have hnodup := hperm.nodup_iff.mpr s.activeWitnesses.nodup
    refine ⟨hperm, ?_, hnodup, ?_, ?_, ?_⟩
    · intro hnil
      rw [hnil] at hperm
      exact h hperm.nil_eq.symm
    · intro w hw
      exact List.count_eq_one_of_mem hnodup (hperm.mem_iff.mpr hw)
    · intro i hi
      exact ⟨le_swapIndex _ _ i, swapIndex_lt _ hi⟩
    · intro h32
      have hloop := shuffleChecked_eq s.dynamic.time h32
      rw [updateWitnessSchedule, if_pos (show s.Reshuffles from hround)]
      exact hloop
  · intro hround
    exact if_neg hround

def roundEnd : State where
  parameters := ⟨5, 3, 0⟩
  activeWitnesses := ⟨[4, 7, 9], by decide⟩
  dynamic := { headBlockNumber := 6, time := 1030 }
  shuffledWitnesses := [9, 4, 7]
  witnesses := ∅

theorem updateWitnessSchedule_permutes_three :
    roundEnd.updateWitnessSchedule.shuffledWitnesses.Perm [4, 7, 9] :=
  ((updateWitnessSchedule_permutes roundEnd (by decide)).1 (by decide)).1

variable {s s' : State} {k : Nat}

/-- There is somebody on the schedule, and nobody twice. -/
def Scheduled (s : State) : Prop := s.shuffledWitnesses ≠ [] ∧ s.shuffledWitnesses.Nodup

theorem updateWitnessSchedule_perm (h : s.updateWitnessSchedule.Reshuffles) :
    s.updateWitnessSchedule.shuffledWitnesses.Perm s.updateWitnessSchedule.activeWitnesses.ids := by
  have hactive : s.updateWitnessSchedule.activeWitnesses = s.activeWitnesses := by
    rw [updateWitnessSchedule_spec]
  rw [updateWitnessSchedule_spec] at h
  rw [hactive]
  exact updateWitnessSchedule_of_reshuffles h

variable {e : BlockEvent}

theorem applyBlock_perm (h : s.applyBlock e = .ok s') (hshuffle : s'.Reshuffles) :
    s'.shuffledWitnesses.Perm s'.activeWitnesses.ids := by
  obtain ⟨_, _, h⟩ := of_bind h
  obtain ⟨⟨_, _⟩, _, h⟩ := of_bind h
  obtain ⟨_, _, h⟩ := of_bind h
  obtain ⟨_, _, h⟩ := of_bind h
  obtain ⟨_, _, h⟩ := of_bind h
  obtain rfl := Except.ok.inj h
  exact updateWitnessSchedule_perm hshuffle

theorem Scheduled.applyBlock (hs : s.Scheduled) (h : s.applyBlock e = .ok s') : s'.Scheduled := by
  have happlied := applyBlock_spec h
  by_cases hshuffle : s'.Reshuffles
  · have hperm := applyBlock_perm h hshuffle
    refine ⟨fun hnil => ?_, hperm.nodup_iff.mpr s'.activeWitnesses.nodup⟩
    -- the number of a block is not zero
    rw [hnil] at hperm
    unfold Reshuffles at hshuffle
    rw [← hperm.nil_eq, happlied.headBlockNumber] at hshuffle
    rw [List.length_nil, Nat.mod_zero] at hshuffle
    exact Nat.succ_ne_zero _ hshuffle
  · unfold Scheduled
    rw [happlied.shuffledWitnesses hshuffle]
    exact hs

/-- Of any `n` numbers in a row one is `j` modulo `n`. -/
theorem existsUnique_add_mod (b : Nat) {j n : Nat} (h : j < n) : ∃! i, i < n ∧ (b + i) % n = j := by
  have hn : 0 < n := Nat.zero_lt_of_lt h
  have hmod : (b + (j + (n - b % n)) % n) % n = j := by
    have hb := Nat.div_add_mod b n
    have hlt := Nat.mod_lt b hn
    have hsum : b + (j + (n - b % n)) = j + n * (b / n + 1) := by
      rw [Nat.mul_succ]
      omega
    rw [Nat.add_mod_mod, hsum, Nat.add_mul_mod_self_left, Nat.mod_eq_of_lt h]
  refine ⟨(j + (n - b % n)) % n, ⟨Nat.mod_lt _ hn, hmod⟩, fun i ⟨hi, heq⟩ => ?_⟩
  exact (Nat.ModEq.add_left_cancel' b (heq.trans hmod.symm)).eq_of_lt_of_lt hi (Nat.mod_lt _ hn)

theorem getScheduledWitness_eq_ok {w : WitnessId} (hfits : s.dynamic.currentAslot + k < 2 ^ 64) :
    s.getScheduledWitness k = .ok w ↔
      s.shuffledWitnesses[(s.dynamic.currentAslot + k) % s.shuffledWitnesses.length]? = some w := by
  have haslot : u64 (s.dynamic.currentAslot + k) = s.dynamic.currentAslot + k := Nat.mod_eq_of_lt hfits
  unfold getScheduledWitness
  dsimp only
  rw [haslot]
  cases s.shuffledWitnesses[(s.dynamic.currentAslot + k) % s.shuffledWitnesses.length]? <;> simp

/-- Whoever is on the schedule has one of any slots in a row that are as many as the schedule is long. -/
theorem slots_shared (h : Reachable applyBlock Scheduled (fun _ _ => True) s)
    (hfits : s.dynamic.currentAslot + k + s.shuffledWitnesses.length ≤ 2 ^ 64) :
    ∀ w ∈ s.shuffledWitnesses,
      ∃! i, i < s.shuffledWitnesses.length ∧ s.getScheduledWitness (k + i) = .ok w := by
  have hs : s.Scheduled :=
    h.invariant Scheduled (fun _ h => h) fun _ _ _ hs _ h => hs.applyBlock h
  intro w hw
  obtain ⟨j, hj, rfl⟩ := List.mem_iff_getElem.mp hw
  have hone := existsUnique_add_mod (s.dynamic.currentAslot + k) hj
  have heq : ∀ i, (i < s.shuffledWitnesses.length ∧
      s.getScheduledWitness (k + i) = .ok s.shuffledWitnesses[j]) ↔
        i < s.shuffledWitnesses.length ∧
          (s.dynamic.currentAslot + k + i) % s.shuffledWitnesses.length = j := by
    intro i
    apply and_congr_right
    intro hi
    have hlt := Nat.mod_lt (s.dynamic.currentAslot + k + i) (Nat.zero_lt_of_lt hj)
    rw [getScheduledWitness_eq_ok (by omega), ← Nat.add_assoc, List.getElem?_eq_getElem hlt,
      Option.some.injEq, hs.2.getElem_inj_iff]
  simpa only [heq] using hone

theorem slots_shared_sample :
    ∃ s : State, s.dynamic.headBlockNumber = 9 ∧ s.Reshuffles ∧
      ∃! i, i < 3 ∧ s.getScheduledWitness (1 + i) = .ok 0 := by
  let nextBlock : BlockEvent := { sampleBlock with block := ⟨⟨8, 80⟩, 1015, 1, 90, 11⟩ }
  obtain ⟨s, hreached, hnumber, hshuffle, hlength, haslot, hmem⟩ :
      ∃ s : State, Reachable applyBlock Scheduled (fun _ _ => True) s ∧
        s.dynamic.headBlockNumber = 9 ∧ s.Reshuffles ∧ s.shuffledWitnesses.length = 3 ∧
        s.dynamic.currentAslot = 203 ∧ 0 ∈ s.shuffledWitnesses :=
    Reachable.of_run [sampleBlock, nextBlock] (s := sampleState) ⟨by decide, by decide⟩ (by decide)
      (by decide +kernel)
  have hshared := slots_shared (k := 1) hreached (by rw [hlength, haslot]; decide) 0 hmem
  rw [hlength] at hshared
  exact ⟨s, hnumber, hshuffle, hshared⟩

end State

end Meta1Core.Witnesses

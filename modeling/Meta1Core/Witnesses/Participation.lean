import Mathlib.Data.List.Count
import Mathlib.Data.List.Induction
import Meta1Core.Witnesses.Slots

/-!
# Witness participation (`db_update.cpp`, `db_witness_schedule.cpp`)

`recent_slots_filled` is a word of 128 bits.  The bit of a block should enter at the lowest place,
where its slot is; it enters above the slots that were missed before it.
-/

namespace Meta1Core.Witnesses

/-- `w << n`, which is undefined for a built-in 128-bit word from `n = 128` on -/
def shiftLeft (w : BitVec 128) (n : Nat) : Except Exception (BitVec 128) :=
  if n < 128 then .ok (w <<< n) else .error .undefined

/-- `init_genesis`: `std::numeric_limits< uint128_t >::max()` -/
def initialSlotsFilled : BitVec 128 := BitVec.allOnes 128

/-- What `update_global_dynamic_data` does to `recent_slots_filled` -/
def updateSlotsFilled (recentSlotsFilled : BitVec 128) (missedBlocks : Nat) :
    Except Exception (BitVec 128) := do
  shiftLeft ((← shiftLeft recentSlotsFilled 1) + 1#128) missedBlocks

/-- The word after blocks that missed these numbers of slots, the first block first -/
def slotsFilled (missed : List Nat) : Except Exception (BitVec 128) :=
  missed.foldlM updateSlotsFilled initialSlotsFilled

def popcount (w : BitVec 128) : Nat := (List.range 128).countP w.getLsbD

def witnessParticipationRate (recentSlotsFilled : BitVec 128) : Nat :=
  10000 * popcount recentSlotsFilled / 128

structure Produced where
  missed : Nat
  slot : Nat
  deriving DecidableEq

def produced (aslot : Nat) : List Nat → List Produced
  | [] => []
  | m :: ms => ⟨m, aslot + (m + 1)⟩ :: produced (aslot + (m + 1)) ms

def headSlot (missed : List Nat) : Nat := (missed.map (· + 1)).sum

/-- A block was produced in the slot; the slots before the first block count as filled. -/
def Filled (missed : List Nat) (slot : Int) : Prop :=
  (∀ first ∈ (produced 0 missed).head?, slot < first.slot) ∨
    ∃ b ∈ produced 0 missed, slot = b.slot

instance (missed : List Nat) (slot : Int) : Decidable (Filled missed slot) :=
  inferInstanceAs (Decidable (_ ∨ _))

/-- The filled ones among the last `window` slots, the last of which is the head block's -/
def filledAmong (window : Nat) (missed : List Nat) : Nat :=
  (List.range window).countP fun k : Nat => Filled missed (headSlot missed - k)

/-- The first block after the genesis misses no slot, and no other block of the window misses a slot
that has left the window. -/
structure WithinWindow (window : Nat) (missed : List Nat) : Prop where
  first : ∀ b ∈ (produced 0 missed).head?, headSlot missed < b.slot + window → b.missed = 0
  inside : ∀ b ∈ produced 0 missed, headSlot missed < b.slot + window →
    headSlot missed + b.missed < b.slot + window

theorem headSlot_concat (ms : List Nat) (m : Nat) :
    headSlot (ms ++ [m]) = headSlot ms + (m + 1) := by
  simp [headSlot]

theorem produced_concat (aslot : Nat) (ms : List Nat) (m : Nat) :
    produced aslot (ms ++ [m]) =
      produced aslot ms ++ [⟨m, aslot + headSlot ms + (m + 1)⟩] := by
  induction ms generalizing aslot with
  | nil => simp [produced, headSlot]
  | cons n ms ih => simp [produced, ih, headSlot, Nat.add_assoc]

variable {aslot m n : Nat} {ms : List Nat}

theorem slot_le_headSlot {b : Produced} (h : b ∈ produced aslot ms) :
    b.slot ≤ aslot + headSlot ms := by
  induction ms generalizing aslot with
  | nil => simp [produced] at h
  | cons n ms ih =>
    have hhead : headSlot (n :: ms) = n + 1 + headSlot ms := by simp [headSlot]
    rcases List.mem_cons.mp h with rfl | h
    · simp only
      omega
    · have := ih h
      omega

theorem produced_ne_nil (h : ms ≠ []) : produced aslot ms ≠ [] := by
  cases ms with
  | nil => exact absurd rfl h
  | cons m ms => simp [produced]

theorem countP_range_slot {p q : Nat → Bool} {i : Nat} (hi : i ≤ m)
    (hlow : ∀ k < n, k ≤ m → p k = decide (k = i))
    (hhigh : ∀ k, m + 1 + k < n → p (m + 1 + k) = q k) :
    (List.range n).countP p =
      if i < n then (List.range (n - (m + 1))).countP q + 1 else 0 := by
  -- the places up to the own ones
  have hown : ∀ l, l ≤ n → l ≤ m + 1 → (List.range l).countP p = if i < l then 1 else 0 := by
    intro l hln hlm
    have hcongr : (List.range l).countP p = (List.range l).count i := by
      rw [List.count_eq_countP]
      apply List.countP_congr
      intro k hk
      have hk := List.mem_range.mp hk
      rw [hlow k (by omega) (by omega)]
      simp
    rw [hcongr, List.nodup_range.count]
    simp
  by_cases hn : n ≤ m + 1
  · rw [hown n (Nat.le_refl n) hn, Nat.sub_eq_zero_of_le hn]
    simp
  · obtain ⟨r, rfl⟩ := Nat.exists_eq_add_of_le (Nat.le_of_not_le hn)
    have hrest : (List.range r).countP (fun k => p (m + 1 + k)) = (List.range r).countP q := by
      apply List.countP_congr
      intro k hk
      rw [hhigh k (Nat.add_lt_add_left (List.mem_range.mp hk) _)]
    rw [List.range_add, List.countP_append, List.countP_map, Function.comp_def, hrest,
      hown (m + 1) (by omega) (Nat.le_refl _), if_pos (by omega), if_pos (by omega),
      Nat.add_sub_cancel_left, Nat.add_comm]

theorem getLsbD_shifted (w : BitVec 128) {k : Nat} (hk : k < 128) :
    ((w <<< 1 + 1#128) <<< m).getLsbD k =
      (decide (k = m) || decide (m < k) && w.getLsbD (k - (m + 1))) := by
  have hdisjoint : w <<< 1 &&& 1#128 = 0#128 := by
    ext i hi
    simp
    omega
  rw [BitVec.add_eq_or_of_and_eq_zero _ _ hdisjoint]
  simp
  grind

theorem updateSlotsFilled_eq_ok {w w' : BitVec 128} :
    updateSlotsFilled w m = .ok w' ↔ m < 128 ∧ w' = (w <<< 1 + 1#128) <<< m := by
  show shiftLeft (w <<< 1 + 1#128) m = .ok w' ↔ _
  unfold shiftLeft
  split
  · rename_i hm
    simp [hm, eq_comm]
  · rename_i hm
    simp [hm]

theorem countP_shifted (w : BitVec 128) (m : Nat) (hn : n ≤ 128) :
    (List.range n).countP ((w <<< 1 + 1#128) <<< m).getLsbD =
      if m < n then (List.range (n - (m + 1))).countP w.getLsbD + 1 else 0 := by
  apply countP_range_slot (Nat.le_refl m)
  · intro k hk hkm
    rw [getLsbD_shifted w (by omega)]
    simp [Nat.not_lt.mpr hkm]
  · intro k hk
    rw [getLsbD_shifted w (by omega), Nat.add_sub_cancel_left]
    simp [show m + 1 + k ≠ m by omega, show m < m + 1 + k by omega]

theorem filled_concat (h : ms ≠ []) (m : Nat) (slot : Int) :
    Filled (ms ++ [m]) slot ↔ Filled ms slot ∨ slot = headSlot (ms ++ [m]) := by
  have hhead : (produced 0 (ms ++ [m])).head? = (produced 0 ms).head? := by
    rw [produced_concat, List.head?_append_of_ne_nil _ (produced_ne_nil h)]
  unfold Filled
  rw [hhead, produced_concat, headSlot_concat, or_assoc]
  simp [or_and_right, exists_or]

theorem Filled.le_headSlot {slot : Int} (h : Filled ms slot) (hne : ms ≠ []) :
    slot ≤ headSlot ms := by
  rcases h with hfirst | ⟨b, hb, rfl⟩
  · have hmem := List.head_mem (@produced_ne_nil 0 ms hne)
    have hlt := hfirst _ (List.head?_eq_some_head (produced_ne_nil hne))
    have hle := slot_le_headSlot hmem
    omega
  · have hle := slot_le_headSlot hb
    omega

theorem filledAmong_concat (h : ms ≠ []) (m n : Nat) :
    filledAmong n (ms ++ [m]) =
      if 0 < n then filledAmong (n - (m + 1)) ms + 1 else 0 := by
  have hhead := headSlot_concat ms m
  apply countP_range_slot (Nat.zero_le m)
  · intro k _ hkm
    rw [decide_eq_decide, filled_concat h]
    constructor
    · rintro (hf | heq)
      · have hle := hf.le_headSlot h
        omega
      · omega
    · rintro rfl
      exact .inr (by simp)
  · intro k _
    rw [decide_eq_decide, filled_concat h]
    have hslot : ((headSlot (ms ++ [m]) : Nat) : Int) - (m + 1 + k : Nat) = headSlot ms - k := by
      omega
    rw [hslot]
    exact or_iff_left (by omega)

theorem filled_singleton (m : Nat) {slot : Int} (h : slot ≤ headSlot [m]) : Filled [m] slot := by
  have hs : headSlot [m] = m + 1 := rfl
  unfold Filled
  simp [produced]
  omega

theorem filledAmong_of_forall (h : ∀ slot : Int, slot ≤ headSlot ms → Filled ms slot) (n : Nat) :
    filledAmong n ms = n := by
  have hall : (List.range n).countP (fun k : Nat => Filled ms (headSlot ms - k)) =
      (List.range n).length := by
    rw [List.countP_eq_length]
    intro k _
    simpa using h _ (by omega)
  rw [filledAmong, hall, List.length_range]

theorem withinWindow_concat (h : ms ≠ []) (m n : Nat) :
    WithinWindow n (ms ++ [m]) ↔ (0 < n → m < n) ∧ WithinWindow (n - (m + 1)) ms := by
  have hhead : (produced 0 (ms ++ [m])).head? = (produced 0 ms).head? := by
    rw [produced_concat, List.head?_append_of_ne_nil _ (produced_ne_nil h)]
  have hslot := headSlot_concat ms m
  have hle : ∀ b ∈ produced 0 ms, b.slot ≤ headSlot ms := fun b hb => by
    have := slot_le_headSlot hb
    omega
  have hmem : ∀ b : Produced, b ∈ produced 0 (ms ++ [m]) ↔
      b ∈ produced 0 ms ∨ b = ⟨m, headSlot ms + (m + 1)⟩ := by
    intro b
    rw [produced_concat, List.mem_append, List.mem_singleton, Nat.zero_add]
  constructor
  · intro hw
    refine ⟨fun hn => ?_, fun b hb hin => ?_, fun b hb hin => ?_⟩
    · have := hw.inside _ ((hmem _).mpr (.inr rfl)) (by simp only; omega)
      simp only at this
      omega
    · have := hle b (List.mem_of_mem_head? hb)
      exact hw.first b (by rwa [hhead]) (by omega)
    · have := hle b hb
      have := hw.inside b ((hmem b).mpr (.inl hb)) (by omega)
      omega
  · rintro ⟨hown, hw⟩
    constructor
    · intro b hb hin
      rw [hhead] at hb
      have := hle b (List.mem_of_mem_head? hb)
      exact hw.first b hb (by omega)
    · intro b hb hin
      rcases (hmem b).mp hb with hb | rfl
      · have := hle b hb
        have := hw.inside b hb (by omega)
        omega
      · simp only at hin ⊢
        have := hown (by omega)
        omega

theorem withinWindow_singleton (m n : Nat) : WithinWindow n [m] ↔ (0 < n → m = 0) := by
  have hslot : headSlot [m] = m + 1 := rfl
  constructor
  · intro hw hn
    exact hw.first ⟨m, 0 + (m + 1)⟩ rfl (by simp only; omega)
  · intro hm
    constructor
    · intro b hb hin
      obtain rfl : (⟨m, 0 + (m + 1)⟩ : Produced) = b := Option.some.inj hb
      exact hm (by simp only at hin; omega)
    · intro b hb hin
      obtain rfl : b = ⟨m, 0 + (m + 1)⟩ := List.mem_singleton.mp hb
      simp only at hin ⊢
      have := hm (by omega)
      omega

theorem slotsFilled_concat_eq_ok {w' : BitVec 128} :
    slotsFilled (ms ++ [m]) = .ok w' ↔
      ∃ w, slotsFilled ms = .ok w ∧ m < 128 ∧ w' = (w <<< 1 + 1#128) <<< m := by
  unfold slotsFilled
  rw [List.foldlM_append, Lib.bind_eq_ok]
  refine exists_congr fun w => and_congr_right fun _ => ?_
  show (updateSlotsFilled w m >>= pure) = .ok w' ↔ _
  rw [bind_pure, updateSlotsFilled_eq_ok]

theorem exists_slotsFilled_iff (ms : List Nat) :
    (∃ w, slotsFilled ms = .ok w) ↔ ∀ m ∈ ms, m < 128 := by
  induction ms using List.reverseRecOn with
  | nil => exact ⟨fun _ _ h => absurd h List.not_mem_nil, fun _ => ⟨_, rfl⟩⟩
  | append_singleton ms m ih =>
    simp only [slotsFilled_concat_eq_ok, List.mem_append, List.mem_singleton]
    constructor
    · rintro ⟨w', w, hw, hm, -⟩ n (hn | rfl)
      · exact ih.mp ⟨w, hw⟩ n hn
      · exact hm
    · intro h
      obtain ⟨w, hw⟩ := ih.mpr fun n hn => h n (.inl hn)
      exact ⟨_, w, hw, h m (.inr rfl), rfl⟩

theorem countP_slotsFilled {w : BitVec 128} (h : slotsFilled ms = .ok w) :
    ∀ n ≤ 128, (List.range n).countP w.getLsbD ≤ filledAmong n ms ∧
      ((List.range n).countP w.getLsbD = filledAmong n ms ↔ WithinWindow n ms) := by
  have hones : ∀ n ≤ 128, (List.range n).countP initialSlotsFilled.getLsbD = n := by
    intro n hn
    have hall : (List.range n).countP initialSlotsFilled.getLsbD = (List.range n).length := by
      rw [List.countP_eq_length]
      intro k hk
      have := List.mem_range.mp hk
      rw [initialSlotsFilled, BitVec.getLsbD_allOnes]
      simp
      omega
    rw [hall, List.length_range]
  induction ms using List.reverseRecOn generalizing w with
  | nil =>
    obtain rfl : initialSlotsFilled = w := Except.ok.inj h
    intro n hn
    have hfilled : filledAmong n [] = n :=
      filledAmong_of_forall (fun slot _ => .inl (by simp [produced])) n
    rw [hones n hn, hfilled]
    exact ⟨Nat.le_refl n, fun _ => ⟨by simp [produced], by simp [produced]⟩, fun _ => rfl⟩
  | append_singleton ms m ih =>
    obtain ⟨v, hv, hm, rfl⟩ := slotsFilled_concat_eq_ok.mp h
    intro n hn
    rw [countP_shifted v m hn]
    by_cases hne : ms = []
    -- the first block: all slots up to its own count as filled
    · subst hne
      obtain rfl : initialSlotsFilled = v := Except.ok.inj hv
      have hfilled : filledAmong n [m] = n :=
        filledAmong_of_forall (fun slot hs => filled_singleton m hs) n
      rw [List.nil_append, hfilled, withinWindow_singleton, hones _ (by omega)]
      split <;> omega
    · obtain ⟨hle, heq⟩ := ih hv (n - (m + 1)) (by omega)
      rw [filledAmong_concat hne, withinWindow_concat hne, ← heq]
      by_cases hmn : m < n
      · rw [if_pos hmn, if_pos (by omega)]
        simp [hmn, hle]
      · have hnone : (List.range 0).countP v.getLsbD = filledAmong 0 ms := rfl
        rw [if_neg hmn, Nat.sub_eq_zero_of_le (by omega), and_iff_left hnone]
        split <;> omega

/-- The participation rate counts the filled ones of the last 128 slots exactly when no block has
missed 128 slots or more and the window cuts no block off from the slots missed before it. -/
theorem participation_iff (missed : List Nat) :
    (∃ w, slotsFilled missed = .ok w ∧ popcount w = filledAmong 128 missed ∧
        witnessParticipationRate w = 10000 * filledAmong 128 missed / 128) ↔
      (∀ m ∈ missed, m < 128) ∧ WithinWindow 128 missed := by
  rw [← exists_slotsFilled_iff]
  constructor
  · rintro ⟨w, hw, hcount, -⟩
    exact ⟨⟨w, hw⟩, (countP_slotsFilled hw 128 (Nat.le_refl _)).2.mp hcount⟩
  · rintro ⟨⟨w, hw⟩, hin⟩
    have hcount : popcount w = filledAmong 128 missed :=
      (countP_slotsFilled hw 128 (Nat.le_refl _)).2.mpr hin
    exact ⟨w, hw, hcount, by rw [witnessParticipationRate, hcount]⟩

/-- One slot is missed before the second block, and 127 blocks later the block's slot is the oldest
one of the window, but its bit has been shifted out. -/
theorem participation_drops_block :
    ¬ ∃ w, slotsFilled (0 :: 1 :: List.replicate 127 0) = .ok w ∧
      popcount w = filledAmong 128 (0 :: 1 :: List.replicate 127 0) ∧
      witnessParticipationRate w =
        10000 * filledAmong 128 (0 :: 1 :: List.replicate 127 0) / 128 := by
  have hhead : headSlot (0 :: 1 :: List.replicate 127 0) = 130 := by decide +kernel
  rintro ⟨w, hw, hcount, -⟩
  have hin := (countP_slotsFilled hw 128 (Nat.le_refl _)).2.mp hcount
  have hlt := hin.inside ⟨1, 3⟩ (by simp [produced]) (by rw [hhead]; decide)
  rw [hhead] at hlt
  exact absurd hlt (by decide)

end Meta1Core.Witnesses

import Meta1Core.Protocol.Extension

/-!
# The encoding of an extension is canonical

What an extension is packed to are entries with increasing indices, and every such sequence of
entries with valid values is the packed form of one extension.
-/

namespace Meta1Core.Protocol.Extension

open Lib (Codec)

structure Entry where
  index : UInt32
  payload : List UInt8

/-- The entry names one of the members, which start with the index `base`, and holds a value of it. -/
def Entry.Valid (maxDepth : Nat) (base : UInt32) (ms : List Member) (e : Entry) : Prop :=
  base ≤ e.index ∧ ∃ m, ms[e.index.toNat - base.toNat]? = some m ∧
    ∃ v, (m.codec maxDepth).unpack e.payload = .ok (v, [])

section Serializer

variable (unsignedInt : Codec Exception UInt32)

def packEntries : List Entry → Except Exception (List UInt8)
  | [] => return []
  | e :: es => do
    let index ← unsignedInt.pack e.index
    return index ++ (e.payload ++ (← packEntries es))

def packCounted (count : UInt32) (es : List Entry) :
    Except Exception (List UInt8) := do
  return (← unsignedInt.pack count) ++ (← packEntries unsignedInt es)

variable {unsignedInt}

variable {es : List Entry} {b : List UInt8} {maxDepth : Nat} {ms : List Member}

theorem packEntries_cons_eq_ok {e : Entry} :
    packEntries unsignedInt (e :: es) = .ok b ↔
      ∃ index rest, unsignedInt.pack e.index = .ok index ∧
        packEntries unsignedInt es = .ok rest ∧ b = index ++ (e.payload ++ rest) := by
  rw [packEntries]
  simp only [Lib.bind_eq_ok, pure, Except.pure, Except.ok.injEq]
  constructor
  · rintro ⟨index, hi, rest, hr, rfl⟩
    exact ⟨index, rest, hi, hr, rfl⟩
  · rintro ⟨index, rest, hi, hr, rfl⟩
    exact ⟨index, hi, rest, hr, rfl⟩

theorem Entry.valid_cons_of_lt {base : UInt32} {m : Member} {e : Entry}
    (hroom : base.toNat + 1 < 2 ^ 32) (hlt : base < e.index) :
    e.Valid maxDepth base (m :: ms) ↔ e.Valid maxDepth (base + 1) ms := by
  have hsucc := toNat_succ hroom
  have hlt' : base.toNat < e.index.toNat := hlt
  have hplace : e.index.toNat - base.toNat = e.index.toNat - (base + 1).toNat + 1 := by omega
  unfold Entry.Valid
  rw [hplace, List.getElem?_cons_succ]
  refine and_congr_left fun _ => ⟨fun _ => ?_, fun _ => ?_⟩
  · rw [UInt32.le_iff_toNat_le]
    omega
  · rw [UInt32.le_iff_toNat_le]
    omega

theorem exists_entries : ∀ {ms : List Member},
    (∀ m ∈ ms, (m.codec maxDepth).Lawful) → ∀ {vs : Values ms} {which : UInt32} {b : List UInt8},
      which.toNat + ms.length < 2 ^ 32 →
      packReadVisitor unsignedInt maxDepth ms vs which = .ok b →
      ∃ es : List Entry, es.Pairwise (·.index < ·.index) ∧
        (∀ e ∈ es, e.Valid maxDepth which ms) ∧ es.length = present ms vs ∧
        packEntries unsignedInt es = .ok b
  | [], _, _, _, b, _, h => ⟨[], .nil, by simp, rfl, h⟩
  | m :: ms, hms, (some v, vs), which, b, hroom, h => by
    rw [List.length_cons] at hroom
    have hsucc := toNat_succ (n := which) (by omega)
    obtain ⟨index, value, rest, hi, hv, hr, rfl⟩ := packReadVisitor_cons_some.mp h
    obtain ⟨es, hinc, hvalid, hlen, hes⟩ :=
      exists_entries (fun m h => hms m (List.mem_cons_of_mem _ h)) (by omega) hr
    have hgt : ∀ e ∈ es, which < e.index := fun e he => by
      have := (hvalid e he).1
      rw [UInt32.le_iff_toNat_le] at this
      rw [UInt32.lt_iff_toNat_lt]
      omega
    refine ⟨⟨which, value⟩ :: es, .cons hgt hinc, ?_, ?_, ?_⟩
    · intro e he
      rcases List.mem_cons.mp he with rfl | he
      · refine ⟨UInt32.le_refl _, m, by simp, v, ?_⟩
        exact (hms m List.mem_cons_self).unpack_nil_iff.mpr hv
      · exact (Entry.valid_cons_of_lt (by omega) (hgt e he)).mpr (hvalid e he)
    · rw [List.length_cons, hlen]
      exact Nat.add_comm _ 1
    · exact packEntries_cons_eq_ok.mpr ⟨index, rest, hi, hes, rfl⟩
  | m :: ms, hms, (none, vs), which, b, hroom, h => by
    rw [List.length_cons] at hroom
    have hsucc := toNat_succ (n := which) (by omega)
    rw [packReadVisitor_cons_none] at h
    obtain ⟨es, hinc, hvalid, hlen, hes⟩ :=
      exists_entries (fun m h => hms m (List.mem_cons_of_mem _ h)) (by omega) h
    refine ⟨es, hinc, fun e he => ?_, by rw [hlen]; exact (Nat.zero_add _).symm, hes⟩
    have hgt : which < e.index := by
      have := (hvalid e he).1
      rw [UInt32.le_iff_toNat_le] at this
      rw [UInt32.lt_iff_toNat_lt]
      omega
    exact (Entry.valid_cons_of_lt (by omega) hgt).mpr (hvalid e he)

theorem exists_values : ∀ {ms : List Member},
    (∀ m ∈ ms, (m.codec maxDepth).Lawful) → ∀ {es : List Entry} {which : UInt32} {b : List UInt8},
      which.toNat + ms.length < 2 ^ 32 → es.Pairwise (·.index < ·.index) →
      (∀ e ∈ es, e.Valid maxDepth which ms) → packEntries unsignedInt es = .ok b →
      ∃ vs : Values ms, packReadVisitor unsignedInt maxDepth ms vs which = .ok b ∧
        present ms vs = es.length
  | [], _, [], _, _, _, _, _, h => ⟨(), h, rfl⟩
  | [], _, e :: es, _, _, _, _, hvalid, _ => by
    obtain ⟨-, m, hm, -⟩ := hvalid e List.mem_cons_self
    simp at hm
  | m :: ms, hms, es, which, b, hroom, hinc, hvalid, h => by
    rw [List.length_cons] at hroom
    have hms' : ∀ m ∈ ms, (m.codec maxDepth).Lawful := fun m h => hms m (List.mem_cons_of_mem _ h)
    have hsucc := toNat_succ (n := which) (by omega)
    -- either the first entry is the first member's, or all entries are behind it
    by_cases hfirst : ∃ e es', es = e :: es' ∧ e.index = which
    · obtain ⟨e, es', rfl, rfl⟩ := hfirst
      obtain ⟨hlt, hinc'⟩ := List.pairwise_cons.mp hinc
      obtain ⟨index, rest, hi, hr, rfl⟩ := packEntries_cons_eq_ok.mp h
      obtain ⟨vs, hvs, hpresent⟩ := exists_values hms' (by omega) hinc' (fun e' he' =>
        (Entry.valid_cons_of_lt (by omega) (hlt e' he')).mp
          (hvalid e' (List.mem_cons_of_mem _ he'))) hr
      obtain ⟨-, m', hm', v, hv⟩ := hvalid e List.mem_cons_self
      obtain rfl : m = m' := by simpa using hm'
      rw [(hms m List.mem_cons_self).unpack_nil_iff] at hv
      refine ⟨(some v, vs), packReadVisitor_cons_some.mpr ⟨index, _, rest, hi, hv, hvs, rfl⟩, ?_⟩
      rw [List.length_cons, ← hpresent]
      exact Nat.add_comm 1 _
    · have hgt : ∀ e ∈ es, which < e.index := by
        intro e he
        cases es with
        | nil => simp at he
        | cons e' es' =>
          have hle := (hvalid e' List.mem_cons_self).1
          have hne : e'.index ≠ which := fun heq => hfirst ⟨e', es', rfl, heq⟩
          have hlt : which < e'.index := UInt32.lt_of_le_of_ne hle (Ne.symm hne)
          rcases List.mem_cons.mp he with rfl | he
          · exact hlt
          · exact UInt32.lt_trans hlt ((List.pairwise_cons.mp hinc).1 e he)
      obtain ⟨vs, hvs, hpresent⟩ := exists_values hms' (by omega) hinc (fun e he =>
        (Entry.valid_cons_of_lt (by omega) (hgt e he)).mp (hvalid e he)) h
      exact ⟨(none, vs), hvs, by rw [← hpresent]; exact Nat.zero_add _⟩

theorem packCounted_eq_ok {count : UInt32} :
    packCounted unsignedInt count es = .ok b ↔
      ∃ c body, unsignedInt.pack count = .ok c ∧ packEntries unsignedInt es = .ok body ∧
        b = c ++ body := by
  unfold packCounted
  simp only [Lib.bind_eq_ok, pure, Except.pure, Except.ok.injEq]
  constructor
  · rintro ⟨c, hc, body, hbody, rfl⟩
    exact ⟨c, body, hc, hbody, rfl⟩
  · rintro ⟨c, body, hc, hbody, rfl⟩
    exact ⟨c, hc, body, hbody, rfl⟩

theorem pack_eq_ok {vs : Values ms} :
    pack unsignedInt ms vs maxDepth = .ok b ↔
      2 ≤ maxDepth ∧ ∃ count body, unsignedInt.pack (countVisitor ms vs 0) = .ok count ∧
        packReadVisitor unsignedInt (maxDepth - 1 - 1) ms vs 0 = .ok body ∧ b = count ++ body := by
  have hdepth : 0 < maxDepth - 1 ↔ 2 ≤ maxDepth := by omega
  unfold pack
  simp only [Lib.bind_eq_ok, fcAssert_eq_ok, exists_and_left, exists_const, pure, Except.pure,
    Except.ok.injEq, hdepth]
  constructor
  · rintro ⟨-, count, hcount, h2, body, hbody, rfl⟩
    exact ⟨h2, count, hcount, body, hbody, rfl⟩
  · rintro ⟨h2, count, hcount, body, hbody, rfl⟩
    exact ⟨by omega, count, hcount, h2, body, hbody, rfl⟩

theorem Entry.Valid.index_lt {e : Entry} (h : e.Valid maxDepth 0 ms) :
    e.index.toNat < ms.length := by
  obtain ⟨-, m, hm, -⟩ := h
  exact (List.getElem?_eq_some_iff.mp hm).1

variable (hlawful : unsignedInt.Lawful)

include hlawful

theorem packEntries_compare (hms : ∀ m ∈ ms, (m.codec maxDepth).Lawful) :
    ∀ {es' : List Entry} {b b' x y : List UInt8}, (∀ e ∈ es, e.Valid maxDepth 0 ms) →
      (∀ e ∈ es', e.Valid maxDepth 0 ms) → packEntries unsignedInt es = .ok b →
      packEntries unsignedInt es' = .ok b' → es.length ≤ es'.length → b ++ x = b' ++ y →
      ∃ more z, es' = es ++ more ∧ packEntries unsignedInt more = .ok z ∧ x = z ++ y := by
  induction es with
  | nil =>
    intro es' b b' x y _ _ hb hb' _ heq
    obtain rfl : [] = b := Except.ok.inj hb
    exact ⟨es', b', rfl, hb', heq⟩
  | cons e es ih =>
    intro es' b b' x y hvalid hvalid' hb hb' hlen heq
    cases es' with
    | nil => simp at hlen
    | cons e' es' =>
      obtain ⟨index, r, hi, hr, rfl⟩ := packEntries_cons_eq_ok.mp hb
      obtain ⟨index', r', hi', hr', rfl⟩ := packEntries_cons_eq_ok.mp hb'
      simp only [List.append_assoc] at heq
      obtain ⟨hindex, -, hrest⟩ := hlawful.split hi hi' heq
      -- equal indices name the same member, whose codec finds the same end of the value
      obtain ⟨-, m, hm, v, hv⟩ := hvalid e List.mem_cons_self
      obtain ⟨-, m', hm', v', hv'⟩ := hvalid' e' List.mem_cons_self
      rw [← hindex, hm] at hm'
      cases hm'
      have hcodec := hms m (List.mem_of_getElem? hm)
      rw [hcodec.unpack_nil_iff] at hv hv'
      obtain ⟨-, hpayload, htail⟩ := hcodec.split hv hv' hrest
      obtain ⟨more, z, rfl, hz, rfl⟩ := ih (fun e h => hvalid e (List.mem_cons_of_mem _ h))
        (fun e h => hvalid' e (List.mem_cons_of_mem _ h)) hr hr' (by simpa using hlen) htail
      have he : e' = e := by
        cases e
        cases e'
        simp_all
      exact ⟨more, z, by rw [he]; rfl, hz, rfl⟩

theorem exists_unpack_iff (hfew : ms.length < 2 ^ 32)
    (hms : ∀ m ∈ ms, (m.codec (maxDepth - 1 - 1)).Lawful) {stream rest : List UInt8} :
    (∃ vs, unpack unsignedInt ms stream maxDepth = .ok (vs, rest)) ↔
      2 ≤ maxDepth ∧ ∃ (count : UInt32) (es : List Entry) (b : List UInt8),
        es.length = count.toNat ∧ es.Pairwise (·.index < ·.index) ∧
        (∀ e ∈ es, e.Valid (maxDepth - 1 - 1) 0 ms) ∧
        packCounted unsignedInt count es = .ok b ∧ stream = b ++ rest := by
  have hzero : (0 : UInt32).toNat = 0 := rfl
  simp only [unpack_iff_pack hlawful hfew hms, pack_eq_ok, packCounted_eq_ok]
  constructor
  · rintro ⟨vs, b, ⟨hdepth, count, body, hcount, hbody, rfl⟩, rfl⟩
    obtain ⟨es, hinc, hvalid, hlen, hes⟩ := exists_entries hms (by omega) hbody
    exact ⟨hdepth, countVisitor ms vs 0, es, count ++ body,
      hlen.trans ((countVisitor_eq_iff hfew vs _).mp rfl), hinc, hvalid,
      ⟨count, body, hcount, hes, rfl⟩, rfl⟩
  · rintro ⟨hdepth, count, es, b, hlen, hinc, hvalid, ⟨c, body, hc, hes, rfl⟩, rfl⟩
    obtain ⟨vs, hbody, hpresent⟩ := exists_values hms (by omega) hinc hvalid hes
    refine ⟨vs, c ++ body, ⟨hdepth, c, body, ?_, hbody, rfl⟩, rfl⟩
    rwa [(countVisitor_eq_iff hfew vs count).mpr (hpresent.trans hlen)]

theorem not_unpack_of_index (hfew : ms.length < 2 ^ 32)
    (hms : ∀ m ∈ ms, (m.codec (maxDepth - 1 - 1)).Lawful) {count : UInt32} {w : UInt32}
    {index : List UInt8} (hcount : es.length < count.toNat)
    (hvalid : ∀ e ∈ es, e.Valid (maxDepth - 1 - 1) 0 ms)
    (hw : ms.length ≤ w.toNat ∨ ∃ e ∈ es, w ≤ e.index)
    (hb : packCounted unsignedInt count es = .ok b) (hindex : unsignedInt.pack w = .ok index)
    (tail : List UInt8) (vs : Values ms) (rest : List UInt8) :
    unpack unsignedInt ms (b ++ (index ++ tail)) maxDepth ≠ .ok (vs, rest) := by
  intro haccept
  obtain ⟨-, count', es', b', hlen, hinc, hvalid', hb', heq⟩ :=
    (exists_unpack_iff hlawful hfew hms).mp ⟨vs, haccept⟩
  obtain ⟨c, body, hc, hbody, rfl⟩ := packCounted_eq_ok.mp hb
  obtain ⟨c', body', hc', hbody', rfl⟩ := packCounted_eq_ok.mp hb'
  rw [List.append_assoc, List.append_assoc] at heq
  obtain ⟨rfl, -, htail⟩ := hlawful.split hc hc' heq
  obtain ⟨more, z, rfl, hz, hx⟩ := packEntries_compare hlawful hms hvalid hvalid' hbody hbody'
    (by omega) htail
  cases more with
  | nil =>
    rw [List.append_nil] at hlen
    omega
  | cons e more =>
    obtain ⟨index', r, hi, -, rfl⟩ := packEntries_cons_eq_ok.mp hz
    rw [List.append_assoc] at hx
    obtain rfl := (hlawful.split hindex hi hx).1
    have hmem : e ∈ es ++ e :: more := by simp
    rcases hw with hunknown | ⟨e', he', hle⟩
    · have := (hvalid' e hmem).index_lt
      omega
    · have hlt := (List.pairwise_append.mp hinc).2.2 e' he' e List.mem_cons_self
      rw [UInt32.lt_iff_toNat_lt] at hlt
      rw [UInt32.le_iff_toNat_le] at hle
      omega

/-- An extension round-trips, and its encoding is the only one that is accepted: the count and as
many entries of known members, with increasing indices and valid values. -/
theorem extension_canonical (htotal : unsignedInt.Total) {ms : List Member} {maxDepth : Nat}
    (hfew : ms.length < 2 ^ 32) (hms : ∀ m ∈ ms, (m.codec (maxDepth - 1 - 1)).Lawful) :
    (2 ≤ maxDepth → ∀ vs, Packable (maxDepth - 1 - 1) ms vs →
      ∃ b, pack unsignedInt ms vs maxDepth = .ok b) ∧
    (∀ vs b rest, pack unsignedInt ms vs maxDepth = .ok b →
      unpack unsignedInt ms (b ++ rest) maxDepth = .ok (vs, rest)) ∧
    (∀ stream rest, (∃ vs, unpack unsignedInt ms stream maxDepth = .ok (vs, rest)) ↔
      2 ≤ maxDepth ∧ ∃ (count : UInt32) (es : List Entry) (b : List UInt8),
        es.length = count.toNat ∧ es.Pairwise (·.index < ·.index) ∧
        (∀ e ∈ es, e.Valid (maxDepth - 1 - 1) 0 ms) ∧
        packCounted unsignedInt count es = .ok b ∧ stream = b ++ rest) ∧
    (∀ stream vs rest, unpack unsignedInt ms stream maxDepth = .ok (vs, rest) →
      ∃ b, pack unsignedInt ms vs maxDepth = .ok b ∧ stream = b ++ rest) ∧
    (∀ (count : UInt32) (es : List Entry) (w : UInt32) (b index tail : List UInt8),
      es.length < count.toNat → (∀ e ∈ es, e.Valid (maxDepth - 1 - 1) 0 ms) →
      (ms.length ≤ w.toNat ∨ ∃ e ∈ es, w ≤ e.index) →
      packCounted unsignedInt count es = .ok b → unsignedInt.pack w = .ok index →
      ∀ vs rest, unpack unsignedInt ms (b ++ (index ++ tail)) maxDepth ≠ .ok (vs, rest)) := by
  refine ⟨fun hdepth vs hvs => exists_pack htotal hdepth hvs, ?_, ?_, ?_, ?_⟩
  · intro vs b rest hb
    exact (unpack_iff_pack hlawful hfew hms).mpr ⟨b, hb, rfl⟩
  · exact fun stream rest => exists_unpack_iff hlawful hfew hms
  · exact fun stream vs rest h => (unpack_iff_pack hlawful hfew hms).mp h
  · intro count es w b index tail hcount hvalid hw hb hindex vs rest
    exact not_unpack_of_index hlawful hfew hms hcount hvalid hw hb hindex tail vs rest

end Serializer

def readSample (k : Nat) : List UInt8 → Except Exception (UInt32 × List UInt8)
  | [] => .error (.fc "out of range")
  | b :: s =>
    if b.toNat < 128 then
      if k * 128 + b.toNat < 2 ^ 32 then .ok (UInt32.ofNat (k * 128 + b.toNat), s)
      else .error (.fc "overflow")
    else if b = 255 then readSample (k + 1) s
    else .error (.fc "not canonical")

def sampleUnsignedInt : Codec Exception UInt32 where
  pack n := .ok (List.replicate (n.toNat / 128) 255 ++ [UInt8.ofNat (n.toNat % 128)])
  unpack := readSample 0

theorem readSample_replicate (j k : Nat) {r : UInt8} (hr : r.toNat < 128)
    (hlt : (k + j) * 128 + r.toNat < 2 ^ 32) (rest : List UInt8) :
    readSample k (List.replicate j 255 ++ r :: rest) =
      .ok (UInt32.ofNat ((k + j) * 128 + r.toNat), rest) := by
  induction j generalizing k with
  | zero =>
    rw [Nat.add_zero] at hlt ⊢
    rw [List.replicate_zero, List.nil_append, readSample, if_pos hr, if_pos hlt]
  | succ j ih =>
    rw [List.replicate_succ, List.cons_append, readSample, if_neg (by decide), if_pos rfl,
      ih (k + 1) (by rw [Nat.add_right_comm]; exact hlt)]
    rw [Nat.add_right_comm, Nat.add_assoc]

theorem exists_of_readSample {s rest : List UInt8} {n : UInt32} : ∀ {k : Nat},
    readSample k s = .ok (n, rest) → ∃ (j : Nat) (r : UInt8), r.toNat < 128 ∧
      s = List.replicate j 255 ++ r :: rest ∧ n.toNat = (k + j) * 128 + r.toNat := by
  induction s with
  | nil => exact fun h => nomatch h
  | cons b s ih =>
    intro k h
    rw [readSample] at h
    by_cases hb : b.toNat < 128
    · rw [if_pos hb] at h
      by_cases hlt : k * 128 + b.toNat < 2 ^ 32
      · rw [if_pos hlt] at h
        obtain ⟨rfl, rfl⟩ := Prod.mk.inj (Except.ok.inj h)
        exact ⟨0, b, hb, rfl, UInt32.toNat_ofNat_of_lt' hlt⟩
      · rw [if_neg hlt] at h
        cases h
    · rw [if_neg hb] at h
      by_cases hmore : b = 255
      · rw [if_pos hmore] at h
        obtain ⟨j, r, hr, rfl, hn⟩ := ih h
        refine ⟨j + 1, r, hr, ?_, by rw [hn]; omega⟩
        rw [hmore, List.replicate_succ, List.cons_append]
      · rw [if_neg hmore] at h
        cases h

theorem sampleUnsignedInt_lawful : sampleUnsignedInt.Lawful where
  roundTrip := by
    intro n b hb rest
    obtain rfl := Except.ok.inj hb
    have hlt := n.toNat_lt
    have hlow : (UInt8.ofNat (n.toNat % 128)).toNat = n.toNat % 128 :=
      UInt8.toNat_ofNat_of_lt' (by rw [UInt8.size]; omega)
    have hsum : (0 + n.toNat / 128) * 128 + n.toNat % 128 = n.toNat := by omega
    have hread := readSample_replicate (n.toNat / 128) 0 (r := UInt8.ofNat (n.toNat % 128))
      (by omega) (by omega) rest
    rw [hlow, hsum, UInt32.ofNat_toNat] at hread
    rw [List.append_assoc]
    exact hread
  canonical := by
    intro s n rest h
    obtain ⟨j, r, hr, rfl, hn⟩ := exists_of_readSample h
    have hj : n.toNat / 128 = j := by omega
    have hmod : n.toNat % 128 = r.toNat := by omega
    refine ⟨_, rfl, ?_⟩
    rw [hj, hmod, UInt8.ofNat_toNat]
    simp

def byteMember : Member where
  Value := UInt8
  codec _ :=
    { pack := fun v => .ok [v]
      unpack := fun
        | [] => .error (.fc "out of range")
        | b :: s => .ok (b, s) }

theorem byteMember_lawful (maxDepth : Nat) : (byteMember.codec maxDepth).Lawful where
  roundTrip := by
    intro v b hb rest
    obtain rfl := Except.ok.inj hb
    rfl
  canonical := by
    intro s v rest h
    cases s with
    | nil => cases h
    | cons b s =>
      obtain ⟨rfl, rfl⟩ := Prod.mk.inj (Except.ok.inj h)
      exact ⟨[b], rfl, rfl⟩

theorem extension_canonical_two_bytes :
    unpack sampleUnsignedInt [byteMember, byteMember] [1, 1, 7, 9] 1000 =
        .ok ((none, some (7 : UInt8), ()), [9]) ∧
      ∀ vs rest, unpack sampleUnsignedInt [byteMember, byteMember] [2, 1, 7, 1, 7] 1000 ≠
        .ok (vs, rest) := by
  have hms : ∀ m ∈ [byteMember, byteMember], (m.codec (1000 - 1 - 1)).Lawful := by
    intro m hm
    rcases List.mem_pair.mp hm with rfl | rfl <;> exact byteMember_lawful _
  obtain ⟨-, hround, -, -, hreject⟩ := @extension_canonical _ sampleUnsignedInt_lawful
    (fun n => ⟨_, rfl⟩) [byteMember, byteMember] 1000 (by decide) hms
  constructor
  · exact hround (none, some (7 : UInt8), ()) [1, 1, 7] [9] rfl
  · refine hreject 2 [⟨1, [7]⟩] 1 [2, 1, 7] [1] [7] (by decide) ?_ (.inr ?_) rfl rfl
    · intro e he
      obtain rfl := List.mem_singleton.mp he
      exact ⟨by decide, byteMember, rfl, (7 : UInt8), rfl⟩
    · exact ⟨⟨1, [7]⟩, List.mem_cons_self, by decide⟩

end Meta1Core.Protocol.Extension

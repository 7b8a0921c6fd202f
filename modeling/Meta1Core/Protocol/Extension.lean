import Meta1Core.Lib.Codec
import Meta1Core.Fc.Exception

/-!
# Extensions (`ext.hpp`)

An extension is a struct all of whose members are optional.  It is packed as the number of the
members that are there, and for each of these its index and its value.
-/

namespace Meta1Core.Protocol.Extension

open Lib (Codec bind_eq_ok of_bind)

structure Member where
  Value : Type
  codec : (maxDepth : Nat) → Codec Exception Value

def Values : List Member → Type
  | [] => Unit
  | m :: ms => Option m.Value × Values ms

/-- `graphene_extension_pack_count_visitor` -/
def countVisitor : (ms : List Member) → Values ms → (count : UInt32) → UInt32
  | [], _, count => count
  | _ :: ms, (v, vs), count => countVisitor ms vs (count + if v.isSome then 1 else 0)

section Serializer

-- `fc::raw::pack` and `unpack` of an `unsigned_int`
variable (unsignedInt : Codec Exception UInt32)

def packReadVisitor (maxDepth : Nat) :
    (ms : List Member) → Values ms → (which : UInt32) → Except Exception (List UInt8)
  | [], _, _ => return []
  | m :: ms, (some v, vs), which => do
    let index ← unsignedInt.pack which
    let value ← (m.codec maxDepth).pack v
    return index ++ (value ++ (← packReadVisitor maxDepth ms vs (which + 1)))
  | _ :: ms, (none, vs), which => packReadVisitor maxDepth ms vs (which + 1)

def pack (ms : List Member) (value : Values ms) (maxDepth : Nat) :
    Except Exception (List UInt8) := do
  fcAssert (0 < maxDepth) "_max_depth > 0"
  let count ← unsignedInt.pack (countVisitor ms value 0)
  fcAssert (0 < maxDepth - 1) "_max_depth > 0"
  return count ++ (← packReadVisitor unsignedInt (maxDepth - 1 - 1) ms value 0)

/-- The state of a `graphene_extension_unpack_visitor`, with what is left of the stream -/
structure UnpackVisitor where
  which : UInt32 := 0
  nextWhich : UInt32 := 0
  countLeft : UInt32 := 0
  stream : List UInt8

def maybeReadNextWhich (s : UnpackVisitor) : Except Exception UnpackVisitor :=
  if s.countLeft > 0 then do
    let (w, stream) ← unsignedInt.unpack s.stream
    return { s with nextWhich := w, stream := stream }
  else return s

def visitMember (maxDepth : Nat) (m : Member) (s : UnpackVisitor) :
    Except Exception (Option m.Value × UnpackVisitor) :=
  if s.countLeft > 0 ∧ s.which = s.nextWhich then do
    let (temp, stream) ← (m.codec maxDepth).unpack s.stream
    let s ← maybeReadNextWhich unsignedInt
      { s with stream := stream, countLeft := s.countLeft - 1 }
    return (some temp, { s with which := s.which + 1 })
  else return (none, { s with which := s.which + 1 })

def unpackVisit (maxDepth : Nat) :
    (ms : List Member) → UnpackVisitor → Except Exception (Values ms × UnpackVisitor)
  | [], s => return ((), s)
  | m :: ms, s => do
    let (v, s) ← visitMember unsignedInt maxDepth m s
    let (vs, s) ← unpackVisit maxDepth ms s
    return ((v, vs), s)

def unpack (ms : List Member) (stream : List UInt8) (maxDepth : Nat) :
    Except Exception (Values ms × List UInt8) := do
  fcAssert (0 < maxDepth) "_max_depth > 0"
  fcAssert (0 < maxDepth - 1) "_max_depth > 0"
  let (c, stream) ← unsignedInt.unpack stream
  let vtor ← maybeReadNextWhich unsignedInt { countLeft := c, stream := stream }
  let (value, vtor) ← unpackVisit unsignedInt (maxDepth - 1 - 1) ms vtor
  -- an extension that is not recognized throws here
  fcAssert (vtor.countLeft = 0) "vtor.count_left == 0"
  return (value, vtor.stream)

def present : (ms : List Member) → Values ms → Nat
  | [], _ => 0
  | _ :: ms, (v, vs) => (if v.isSome then 1 else 0) + present ms vs

theorem toNat_succ {n : UInt32} (h : n.toNat + 1 < 2 ^ 32) : (n + 1).toNat = n.toNat + 1 := by
  rw [UInt32.toNat_add]
  exact Nat.mod_eq_of_lt h

theorem countVisitor_toNat : ∀ (ms : List Member) (vs : Values ms) (count : UInt32),
    count.toNat + ms.length < 2 ^ 32 →
      (countVisitor ms vs count).toNat = count.toNat + present ms vs
  | [], _, _, _ => rfl
  | m :: ms, (v, vs), count, hroom => by
    rw [List.length_cons] at hroom
    cases v with
    | none =>
      show (countVisitor ms vs (count + 0)).toNat = count.toNat + (0 + present ms vs)
      rw [show count + 0 = count from UInt32.add_zero count,
        countVisitor_toNat ms vs count (by omega), Nat.zero_add]
    | some v =>
      have hsucc := toNat_succ (n := count) (by omega)
      show (countVisitor ms vs (count + 1)).toNat = count.toNat + (1 + present ms vs)
      rw [countVisitor_toNat ms vs (count + 1) (by omega), hsucc, Nat.add_assoc]

variable {ms : List Member}

theorem countVisitor_eq_iff (hfew : ms.length < 2 ^ 32) (vs : Values ms) (count : UInt32) :
    countVisitor ms vs 0 = count ↔ present ms vs = count.toNat := by
  have hzero : (0 : UInt32).toNat = 0 := rfl
  have hcount := countVisitor_toNat ms vs 0 (by omega)
  rw [← UInt32.toNat_inj, hcount, hzero, Nat.zero_add]

variable {unsignedInt}

variable {maxDepth : Nat} {m : Member} {which : UInt32}

variable {vs : Values ms}

theorem packReadVisitor_cons_some {v : m.Value} {b : List UInt8} :
    packReadVisitor unsignedInt maxDepth (m :: ms) (some v, vs) which = .ok b ↔
      ∃ index value rest, unsignedInt.pack which = .ok index ∧
        (m.codec maxDepth).pack v = .ok value ∧
        packReadVisitor unsignedInt maxDepth ms vs (which + 1) = .ok rest ∧
        b = index ++ (value ++ rest) := by
  rw [packReadVisitor]
  simp only [bind_eq_ok, pure, Except.pure, Except.ok.injEq]
  constructor
  · rintro ⟨index, hi, value, hv, rest, hr, rfl⟩
    exact ⟨index, value, rest, hi, hv, hr, rfl⟩
  · rintro ⟨index, value, rest, hi, hv, hr, rfl⟩
    exact ⟨index, hi, value, hv, rest, hr, rfl⟩

theorem packReadVisitor_cons_none :
    packReadVisitor unsignedInt maxDepth (m :: ms) (none, vs) which =
      packReadVisitor unsignedInt maxDepth ms vs (which + 1) := rfl

theorem exists_first_index : ∀ {ms : List Member} {vs : Values ms}
    {which : UInt32} {b : List UInt8}, which.toNat + ms.length < 2 ^ 32 →
      packReadVisitor unsignedInt maxDepth ms vs which = .ok b → 0 < present ms vs →
      ∃ i index rest, unsignedInt.pack i = .ok index ∧ which.toNat ≤ i.toNat ∧ b = index ++ rest
  | [], _, _, _, _, _, hpos => absurd hpos (Nat.lt_irrefl 0)
  | m :: ms, (some v, vs), which, b, _, h, _ => by
    obtain ⟨index, value, rest, hi, -, -, rfl⟩ := packReadVisitor_cons_some.mp h
    exact ⟨which, index, value ++ rest, hi, Nat.le_refl _, rfl⟩
  | m :: ms, (none, vs), which, b, hroom, h, hpos => by
    rw [List.length_cons] at hroom
    have hsucc := toNat_succ (n := which) (by omega)
    have hpos' : 0 < present ms vs := by simpa [present] using hpos
    rw [packReadVisitor_cons_none] at h
    obtain ⟨i, index, rest, hi, hle, rfl⟩ := exists_first_index (by omega) h hpos'
    exact ⟨i, index, rest, hi, by omega, rfl⟩

/-! ## The visitor that unpacks -/

/-- The visitor goes through the members with these values, has none left to take and leaves `rest`. -/
def Ends (unsignedInt : Codec Exception UInt32) (maxDepth : Nat) (ms : List Member)
    (s : UnpackVisitor) (vs : Values ms) (rest : List UInt8) : Prop :=
  ∃ s', unpackVisit unsignedInt maxDepth ms s = .ok (vs, s') ∧ s'.countLeft = 0 ∧ s'.stream = rest

/-- The unread bytes start with the packed members, from the index `which` on. -/
def Starts (unsignedInt : Codec Exception UInt32) (maxDepth : Nat) (ms : List Member)
    (which countLeft : UInt32) (u : List UInt8) (vs : Values ms) (rest : List UInt8) : Prop :=
  ∃ b, packReadVisitor unsignedInt maxDepth ms vs which = .ok b ∧ u = b ++ rest ∧
    present ms vs = countLeft.toNat

variable {s : UnpackVisitor} {rest : List UInt8}

variable {v : Option m.Value}

theorem ends_cons : Ends unsignedInt maxDepth (m :: ms) s (v, vs) rest ↔
      ∃ s1, visitMember unsignedInt maxDepth m s = .ok (v, s1) ∧
        Ends unsignedInt maxDepth ms s1 vs rest := by
  unfold Ends
  rw [unpackVisit]
  simp only [bind_eq_ok, pure, Except.pure, Except.ok.injEq]
  constructor
  · rintro ⟨s', ⟨⟨v', s1⟩, hm, ⟨vs', s2⟩, hms, heq⟩, hzero, hrest⟩
    obtain ⟨hvs, rfl⟩ := Prod.mk.inj heq
    obtain ⟨rfl, rfl⟩ := Prod.mk.inj hvs
    exact ⟨s1, hm, s2, hms, hzero, hrest⟩
  · rintro ⟨s1, hm, s', hms, hzero, hrest⟩
    exact ⟨s', ⟨(v, s1), hm, (vs, s'), hms, rfl⟩, hzero, hrest⟩

variable {s' : UnpackVisitor}

theorem visitMember_taken (hcount : s.countLeft ≠ 0) (hwhich : s.which = s.nextWhich) :
    visitMember unsignedInt maxDepth m s = .ok (v, s') ↔
      ∃ temp stream s1, (m.codec maxDepth).unpack s.stream = .ok (temp, stream) ∧
        maybeReadNextWhich unsignedInt
          { s with stream := stream, countLeft := s.countLeft - 1 } = .ok s1 ∧
        v = some temp ∧ s' = { s1 with which := s1.which + 1 } := by
  unfold visitMember
  rw [if_pos ⟨UInt32.pos_iff_ne_zero.mpr hcount, hwhich⟩]
  simp only [bind_eq_ok, pure, Except.pure, Except.ok.injEq]
  constructor
  · rintro ⟨⟨temp, stream⟩, hread, s1, hnext, heq⟩
    obtain ⟨rfl, rfl⟩ := Prod.mk.inj heq
    exact ⟨temp, stream, s1, hread, hnext, rfl, rfl⟩
  · rintro ⟨temp, stream, s1, hread, hnext, rfl, rfl⟩
    exact ⟨(temp, stream), hread, s1, hnext, rfl⟩

theorem visitMember_reset (h : ¬(s.countLeft ≠ 0 ∧ s.which = s.nextWhich)) :
    visitMember unsignedInt maxDepth m s = .ok (none, { s with which := s.which + 1 }) := by
  unfold visitMember
  rw [if_neg (by rwa [gt_iff_lt, UInt32.pos_iff_ne_zero])]
  rfl

def Packable (maxDepth : Nat) : (ms : List Member) → Values ms → Prop
  | [], _ => True
  | m :: ms, (v, vs) =>
    (∀ x ∈ v, ∃ b, (m.codec maxDepth).pack x = .ok b) ∧ Packable maxDepth ms vs

theorem exists_packReadVisitor (htotal : unsignedInt.Total) :
    ∀ {ms : List Member} {vs : Values ms} (which : UInt32), Packable maxDepth ms vs →
      ∃ b, packReadVisitor unsignedInt maxDepth ms vs which = .ok b
  | [], _, _, _ => ⟨[], rfl⟩
  | m :: ms, (some v, vs), which, h => by
    obtain ⟨index, hi⟩ := htotal which
    obtain ⟨value, hv⟩ := h.1 v rfl
    obtain ⟨rest, hr⟩ := exists_packReadVisitor htotal (which + 1) h.2
    exact ⟨_, packReadVisitor_cons_some.mpr ⟨index, value, rest, hi, hv, hr, rfl⟩⟩
  | m :: ms, (none, vs), which, h => exists_packReadVisitor htotal (which + 1) h.2

theorem exists_pack (htotal : unsignedInt.Total) (hdepth : 2 ≤ maxDepth)
    (h : Packable (maxDepth - 1 - 1) ms vs) : ∃ b, pack unsignedInt ms vs maxDepth = .ok b := by
  obtain ⟨count, hcount⟩ := htotal (countVisitor ms vs 0)
  obtain ⟨body, hbody⟩ := exists_packReadVisitor htotal 0 h
  refine ⟨count ++ body, ?_⟩
  unfold pack
  refine fcAssert_bind_eq_ok.mpr ⟨by omega, bind_eq_ok.mpr ⟨count, hcount, ?_⟩⟩
  exact fcAssert_bind_eq_ok.mpr ⟨by omega, bind_eq_ok.mpr ⟨body, hbody, rfl⟩⟩

def UnpackVisitor.Unread (unsignedInt : Codec Exception UInt32) (s : UnpackVisitor)
    (u : List UInt8) : Prop :=
  if s.countLeft = 0 then u = s.stream
  else ∃ index, unsignedInt.pack s.nextWhich = .ok index ∧ u = index ++ s.stream

variable (hlawful : unsignedInt.Lawful)

include hlawful

theorem maybeReadNextWhich_spec (h : maybeReadNextWhich unsignedInt s = .ok s') :
    s'.which = s.which ∧ s'.countLeft = s.countLeft ∧ s'.Unread unsignedInt s.stream := by
  unfold maybeReadNextWhich at h
  split at h
  · rename_i hpos
    obtain ⟨⟨w, stream⟩, hread, heq⟩ := of_bind h
    obtain rfl := Except.ok.inj heq
    have hne : s.countLeft ≠ 0 := (UInt32.pos_iff_ne_zero).mp hpos
    refine ⟨rfl, rfl, ?_⟩
    unfold UnpackVisitor.Unread
    rw [if_neg hne]
    exact hlawful.canonical hread
  · rename_i hpos
    obtain rfl := Except.ok.inj h
    have hzero : s.countLeft = 0 := by simpa [UInt32.pos_iff_ne_zero] using hpos
    exact ⟨rfl, rfl, by rw [UnpackVisitor.Unread, if_pos hzero]⟩

theorem exists_maybeReadNextWhich (h : s.countLeft ≠ 0 →
    ∃ i index rest, unsignedInt.pack i = .ok index ∧ s.stream = index ++ rest) :
    ∃ s', maybeReadNextWhich unsignedInt s = .ok s' := by
  unfold maybeReadNextWhich
  split
  · rename_i hpos
    obtain ⟨i, index, rest, hi, hs⟩ := h ((UInt32.pos_iff_ne_zero).mp hpos)
    rw [hs, hlawful.roundTrip hi]
    exact ⟨_, rfl⟩
  · exact ⟨_, rfl⟩

theorem readAhead_iff {w : UInt32} (hroom : w.toNat + ms.length < 2 ^ 32)
    (hvisit : ∀ (s1 : UnpackVisitor) (u : List UInt8), s1.which = w → s1.Unread unsignedInt u →
      (Ends unsignedInt maxDepth ms s1 vs rest ↔
        Starts unsignedInt maxDepth ms w s1.countLeft u vs rest)) :
    (∃ s1, maybeReadNextWhich unsignedInt s = .ok s1 ∧
        Ends unsignedInt maxDepth ms { s1 with which := w } vs rest) ↔
      Starts unsignedInt maxDepth ms w s.countLeft s.stream vs rest := by
  constructor
  · rintro ⟨s1, hread, hends⟩
    obtain ⟨-, hcount, hunread⟩ := maybeReadNextWhich_spec hlawful hread
    rw [← hcount]
    exact (hvisit { s1 with which := w } s.stream rfl hunread).mp hends
  · rintro ⟨b, hb, hs, hpresent⟩
    obtain ⟨s1, hread⟩ := exists_maybeReadNextWhich hlawful (s := s) fun hne => by
      have hpos : 0 < present ms vs := by
        rw [hpresent]
        exact UInt32.pos_iff_ne_zero.mpr hne
      obtain ⟨i, index, r, hi, -, rfl⟩ := exists_first_index hroom hb hpos
      exact ⟨i, index, r ++ rest, hi, by rw [hs, List.append_assoc]⟩
    obtain ⟨-, hcount, hunread⟩ := maybeReadNextWhich_spec hlawful hread
    refine ⟨s1, hread, (hvisit { s1 with which := w } s.stream rfl hunread).mpr ?_⟩
    rw [hcount]
    exact ⟨b, hb, hs, hpresent⟩

theorem unpackVisit_iff : ∀ (ms : List Member),
    (∀ m ∈ ms, (m.codec maxDepth).Lawful) → ∀ (vs : Values ms) (s : UnpackVisitor)
    (u rest : List UInt8), s.which.toNat + ms.length < 2 ^ 32 → s.Unread unsignedInt u →
      (Ends unsignedInt maxDepth ms s vs rest ↔
        Starts unsignedInt maxDepth ms s.which s.countLeft u vs rest)
  | [], _, (), s, u, rest, _, hunread => by
    unfold UnpackVisitor.Unread at hunread
    have hcount : s.countLeft = 0 ↔ 0 = s.countLeft.toNat := by
      rw [← UInt32.toNat_inj, eq_comm]
      rfl
    constructor
    · rintro ⟨s', hs', hzero, rfl⟩
      obtain rfl : s = s' := congrArg Prod.snd (Except.ok.inj hs')
      rw [if_pos hzero] at hunread
      exact ⟨[], rfl, hunread, hcount.mp hzero⟩
    · rintro ⟨b, hb, rfl, hzero⟩
      obtain rfl : [] = b := Except.ok.inj hb
      have hzero := hcount.mpr hzero
      rw [if_pos hzero] at hunread
      exact ⟨s, rfl, hzero, hunread.symm⟩
  | m :: ms, hms, (v, vs), s, u, rest, hroom, hunread => by
    rw [List.length_cons] at hroom
    have hm : (m.codec maxDepth).Lawful := hms m List.mem_cons_self
    have hms' : ∀ m ∈ ms, (m.codec maxDepth).Lawful := fun m h => hms m (List.mem_cons_of_mem _ h)
    have hsucc := toNat_succ (n := s.which) (by omega)
    have ih := unpackVisit_iff ms hms' vs
    rw [ends_cons]
    by_cases htaken : s.countLeft ≠ 0 ∧ s.which = s.nextWhich
    · obtain ⟨hne, hwhich⟩ := htaken
      rw [UnpackVisitor.Unread, if_neg hne] at hunread
      obtain ⟨index, hindex, rfl⟩ := hunread
      rw [← hwhich] at hindex
      have hleft : (s.countLeft - 1).toNat + 1 = s.countLeft.toNat := by
        have hpos : 0 < s.countLeft.toNat := UInt32.pos_iff_ne_zero.mpr hne
        rw [UInt32.toNat_sub_of_le _ _ (by exact hpos)]
        exact Nat.sub_add_cancel hpos
      have hahead : ∀ stream : List UInt8, _ := fun stream =>
        readAhead_iff hlawful (s := { s with stream := stream, countLeft := s.countLeft - 1 })
          (w := s.which + 1) (by omega)
          fun s1 u hw hu => hw ▸ ih s1 u rest (by rw [hw]; omega) hu
      constructor
      · rintro ⟨s', hvisit, hends⟩
        obtain ⟨temp, stream, s1, hread, hnext, rfl, rfl⟩ :=
          (visitMember_taken hne hwhich).mp hvisit
        have hsame := (maybeReadNextWhich_spec hlawful hnext).1
        simp only at hsame
        rw [hsame] at hends
        obtain ⟨b, hb, rfl, hpresent⟩ := (hahead stream).mp ⟨s1, hnext, hends⟩
        obtain ⟨value, hvalue, hstream⟩ := hm.canonical hread
        refine ⟨index ++ (value ++ b), packReadVisitor_cons_some.mpr
          ⟨index, value, b, hindex, hvalue, hb, rfl⟩, ?_, ?_⟩
        · rw [hstream]
          simp
        · rw [← hleft, ← hpresent]
          exact Nat.add_comm 1 _
      · rintro ⟨b, hb, hu, hpresent⟩
        cases v with
        | none =>
          -- the next index in the bytes would be a greater one
          have hpos : 0 < present ms vs := by
            have : present ms vs = s.countLeft.toNat := by simpa [present] using hpresent
            omega
          rw [packReadVisitor_cons_none] at hb
          obtain ⟨i, index', r, hi, hle, rfl⟩ := exists_first_index (by omega) hb hpos
          rw [List.append_assoc] at hu
          have heq := (hlawful.split hindex hi hu).1
          rw [← heq] at hle
          omega
        | some v =>
          obtain ⟨index', value, r, hi, hvalue, hr, rfl⟩ := packReadVisitor_cons_some.mp hb
          rw [List.append_assoc] at hu
          have hstream := (hlawful.split hindex hi hu).2.2
          rw [List.append_assoc] at hstream
          have hread := hm.roundTrip hvalue (r ++ rest)
          rw [← hstream] at hread
          have hpresent' : present ms vs = (s.countLeft - 1).toNat := by
            have : 1 + present ms vs = s.countLeft.toNat := hpresent
            omega
          obtain ⟨s1, hnext, hends⟩ := (hahead (r ++ rest)).mpr ⟨r, hr, rfl, hpresent'⟩
          have hsame := (maybeReadNextWhich_spec hlawful hnext).1
          simp only at hsame
          refine ⟨_, (visitMember_taken hne hwhich).mpr ⟨v, _, s1, hread, hnext, rfl, rfl⟩, ?_⟩
          rw [hsame]
          exact hends
    · have hrest := ih { s with which := s.which + 1 } u rest (by simp only; omega) hunread
      rw [visitMember_reset htaken]
      constructor
      · rintro ⟨s', hvisit, hends⟩
        obtain ⟨rfl, rfl⟩ := Prod.mk.inj (Except.ok.inj hvisit)
        obtain ⟨b, hb, hu, hpresent⟩ := hrest.mp hends
        exact ⟨b, hb, hu, by rw [← hpresent]; exact Nat.zero_add _⟩
      · rintro ⟨b, hb, hu, hpresent⟩
        cases v with
        | none =>
          exact ⟨_, rfl, hrest.mpr ⟨b, hb, hu, by rw [← hpresent]; exact (Nat.zero_add _).symm⟩⟩
        | some v =>
          -- the index in the bytes is this member's, but it was not read ahead
          obtain ⟨index', value, r, hi, -, -, rfl⟩ := packReadVisitor_cons_some.mp hb
          have hne : s.countLeft ≠ 0 := by
            have hone : 1 + present ms vs = s.countLeft.toNat := hpresent
            rintro hzero
            rw [hzero] at hone
            exact absurd hone (by simp)
          rw [UnpackVisitor.Unread, if_neg hne] at hunread
          obtain ⟨index, hindex, rfl⟩ := hunread
          rw [List.append_assoc] at hu
          exact absurd ⟨hne, (hlawful.split hindex hi hu).1.symm⟩ htaken

theorem unpack_iff_pack (hfew : ms.length < 2 ^ 32)
    (hms : ∀ m ∈ ms, (m.codec (maxDepth - 1 - 1)).Lawful) {stream : List UInt8} :
    unpack unsignedInt ms stream maxDepth = .ok (vs, rest) ↔
      ∃ b, pack unsignedInt ms vs maxDepth = .ok b ∧ stream = b ++ rest := by
  unfold unpack pack
  rw [fcAssert_bind_eq_ok, fcAssert_bind_eq_ok]
  simp only [fcAssert_bind_eq_ok]
  have hahead : ∀ (c : UInt32) (str : List UInt8), _ := fun c str =>
    readAhead_iff hlawful (s := { countLeft := c, stream := str }) (w := 0)
      (show (0 : UInt32).toNat + ms.length < 2 ^ 32 by
        rw [show (0 : UInt32).toNat = 0 from rfl]; omega) fun s1 u hw hu => by
        rw [← hw]
        exact unpackVisit_iff hlawful ms hms vs s1 u rest
          (by rw [hw, show (0 : UInt32).toNat = 0 from rfl]; omega) hu
  constructor
  · rintro ⟨hdepth, hdepth', h⟩
    obtain ⟨⟨c, str⟩, hcount, h⟩ := of_bind h
    obtain ⟨s1, hnext, h⟩ := of_bind h
    obtain ⟨⟨vs', s'⟩, hvisit, h⟩ := of_bind h
    obtain ⟨hzero, h⟩ := of_fcAssert h
    obtain ⟨rfl, rfl⟩ := Prod.mk.inj (Except.ok.inj h)
    have hsame := (maybeReadNextWhich_spec hlawful hnext).1
    have hends : Ends unsignedInt (maxDepth - 1 - 1) ms { s1 with which := 0 } vs' s'.stream := by
      rw [show ({ s1 with which := 0 } : UnpackVisitor) = s1 by
        rw [show (0 : UInt32) = s1.which from hsame.symm]]
      exact ⟨s', hvisit, hzero, rfl⟩
    obtain ⟨b, hb, hstr, hpresent⟩ := (hahead c str).mp ⟨s1, hnext, hends⟩
    obtain ⟨count, hpack, rfl⟩ := hlawful.canonical hcount
    rw [← (countVisitor_eq_iff hfew vs' c).mpr hpresent] at hpack
    refine ⟨count ++ b, ⟨hdepth, ?_⟩, ?_⟩
    · refine bind_eq_ok.mpr ⟨count, hpack, ?_⟩
      refine fcAssert_bind_eq_ok.mpr ⟨hdepth', bind_eq_ok.mpr ⟨b, hb, rfl⟩⟩
    · rw [show str = b ++ s'.stream from hstr, List.append_assoc]
  · rintro ⟨b, ⟨hdepth, h⟩, rfl⟩
    obtain ⟨count, hpack, h⟩ := of_bind h
    obtain ⟨hdepth', h⟩ := of_fcAssert h
    obtain ⟨body, hbody, h⟩ := of_bind h
    obtain rfl := Except.ok.inj h
    refine ⟨hdepth, hdepth', bind_eq_ok.mpr ⟨(countVisitor ms vs 0, body ++ rest), ?_, ?_⟩⟩
    · rw [List.append_assoc]
      exact hlawful.roundTrip hpack _
    · obtain ⟨s1, hnext, hends⟩ := (hahead (countVisitor ms vs 0) (body ++ rest)).mpr
        ⟨body, hbody, rfl, (countVisitor_eq_iff hfew vs _).mp rfl⟩
      have hsame := (maybeReadNextWhich_spec hlawful hnext).1
      rw [show ({ s1 with which := 0 } : UnpackVisitor) = s1 by
        rw [show (0 : UInt32) = s1.which from hsame.symm]] at hends
      obtain ⟨s', hvisit, hzero, rfl⟩ := hends
      exact bind_eq_ok.mpr ⟨s1, hnext, bind_eq_ok.mpr ⟨(vs, s'), hvisit,
        fcAssert_bind_eq_ok.mpr ⟨hzero, rfl⟩⟩⟩

end Serializer

end Meta1Core.Protocol.Extension

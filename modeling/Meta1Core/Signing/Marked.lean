import Meta1Core.Signing.Remembered

/-!
# The signatures that are used

A signature is used if its key is marked at an authority that the search comes to.  Which keys an
authority marks does not depend on the rest of the search, so that a transaction passes or fails by the
set of authorities that come into view.
-/

namespace Meta1Core.Signing

open Lib Protocol

section

variable {Key Addr : Type} [LinearOrder Key] [DecidableEq Addr]

/-! ## The keys that an authority marks -/

def marks {α : Type} (key : α → Option Key) (threshold : UInt32) :
    List (α × UInt16) → UInt32 → List Key
  | [], _ => []
  | (a, w) :: rest, total =>
    match key a with
    | some k =>
      k :: if threshold ≤ total + w.toUInt32 then [] else marks key threshold rest (total + w.toUInt32)
    | none => marks key threshold rest total

def signatureKey (sigs : List Key) (k : Key) : Option Key := if k ∈ sigs then some k else none

def marked (h : Hashing Key Addr) (sigs : List Key) (au : Authority Key Addr) : List Key :=
  marks (signatureKey sigs) au.weightThreshold au.keyAuths 0 ++
    match tally (fun k => decide (k ∈ sigs)) au.weightThreshold au.keyAuths 0 with
    | none => []
    | some total => marks (addressSigs h sigs) au.weightThreshold au.addressAuths total

variable {h : Hashing Key Addr} {sigs : List Key}

variable (h sigs) in
structure Tabled (s : SignState Key Addr) : Prop where
  keys : s.providedSignatures.map Prod.fst = sigs
  tables : ∀ tables, s.addressTables = some tables →
    tables = { available := addressSigs h [], provided := addressSigs h sigs }

def markKeys (ks : List Key) (signatures : List (Key × Bool)) : List (Key × Bool) :=
  signatures.map fun entry => (entry.1, entry.2 || decide (entry.1 ∈ ks))

theorem markKeys_nil (signatures : List (Key × Bool)) : markKeys [] signatures = signatures := by
  simp [markKeys]

theorem markKeys_append (ks ks' : List Key) (signatures : List (Key × Bool)) :
    markKeys (ks ++ ks') signatures = markKeys ks' (markKeys ks signatures) := by
  simp [markKeys, Bool.or_assoc]

theorem setSigned_eq {k : Key} {signatures : List (Key × Bool)} (hk : k ∈ signatures.map Prod.fst) :
    setSigned k signatures = markKeys [k] signatures := by
  rw [setSigned, if_pos hk]
  refine List.map_congr_left fun entry _ => ?_
  by_cases heq : entry.1 = k
  · simp [heq]
  · simp [heq]

variable (h sigs) in
structure Marks (ks : List Key) (s s' : SignState Key Addr) : Prop where
  tabled : Tabled h sigs s'
  examined : s'.examined = s.examined
  signatures : s'.providedSignatures = markKeys ks s.providedSignatures

variable {s s' : SignState Key Addr}

theorem Marks.trans {ks ks' : List Key} {s1 : SignState Key Addr} (hmarks : Marks h sigs ks s s1)
    (hmarks' : Marks h sigs ks' s1 s') :
    Marks h sigs (ks ++ ks') s s' where
  tabled := hmarks'.tabled
  examined := hmarks'.examined.trans hmarks.examined
  signatures := by rw [hmarks'.signatures, hmarks.signatures, markKeys_append]

theorem Tabled.marks_nil (htabled : Tabled h sigs s) : Marks h sigs [] s s :=
  ⟨htabled, rfl, (markKeys_nil _).symm⟩

theorem markSigned_marks {k : Key} {b : Bool} (htabled : Tabled h sigs s) (hk : k ∈ sigs)
    (hret : Returns (markSigned k) s b s') : b = true ∧ Marks h sigs [k] s s' := by
  obtain ⟨u, s1, hmodify, hpure⟩ := hret.of_bind
  obtain ⟨rfl, rfl⟩ := hpure.of_pure
  have hs1 := Returns.modify_iff.mp hmodify
  subst hs1
  have hk' : k ∈ s.providedSignatures.map Prod.fst := htabled.keys ▸ hk
  exact ⟨rfl, ⟨(setSigned_keys hk').trans htabled.keys, htabled.tables⟩, rfl, setSigned_eq hk'⟩

theorem signedByKey_marks {k : Key} {b : Bool} (htabled : Tabled h sigs s)
    (hret : Returns (signedByKey [] k) s b s') :
    b = (signatureKey sigs k).isSome ∧ Marks h sigs (signatureKey sigs k).toList s s' := by
  have hret := hret.of_get
  rw [htabled.keys] at hret
  unfold signatureKey
  rcases hret.of_ite with ⟨hmem, hmark⟩ | ⟨hmem, hpure⟩
  · have hk : k ∈ sigs := hmem.resolve_right List.not_mem_nil
    rw [if_pos hk]
    exact markSigned_marks htabled hk hmark
  · rw [if_neg fun hk => hmem (.inl hk)]
    obtain ⟨rfl, rfl⟩ := hpure.of_pure
    exact ⟨rfl, htabled.marks_nil⟩

omit [LinearOrder Key] in
theorem getAddressTables_spec {tables : AddressTables Key Addr} (htabled : Tabled h sigs s)
    (hret : Returns (getAddressTables h []) s tables s') :
    tables = { available := addressSigs h [], provided := addressSigs h sigs } ∧
      Tabled h sigs s' ∧ s'.providedSignatures = s.providedSignatures ∧ s'.examined = s.examined := by
  have hret := hret.of_get
  cases hmade : s.addressTables with
  | some made =>
    rw [hmade] at hret
    obtain ⟨rfl, rfl⟩ := hret.of_pure
    exact ⟨htabled.tables _ hmade, htabled, rfl, rfl⟩
  | none =>
    rw [hmade, htabled.keys] at hret
    obtain ⟨u, s1, hset, hpure⟩ := hret.of_bind
    obtain ⟨rfl, rfl⟩ := hpure.of_pure
    have hs1 := Returns.set_iff.mp hset
    subst hs1
    exact ⟨rfl, ⟨htabled.keys, fun tables htables => (Option.some.inj htables).symm⟩, rfl, rfl⟩

theorem signedByAddress_marks {a : Addr} {b : Bool} (htabled : Tabled h sigs s)
    (hret : Returns (signedByAddress h [] a) s b s') :
    b = (addressSigs h sigs a).isSome ∧ Marks h sigs (addressSigs h sigs a).toList s s' := by
  obtain ⟨tables, s1, htables, hret⟩ := hret.of_bind
  obtain ⟨rfl, htabled1, hprovided, hexamined⟩ := getAddressTables_spec htabled htables
  cases hkey : addressSigs h sigs a with
  | some k =>
    simp only [hkey] at hret
    have hk : k ∈ sigs := ((tableOf_addressSigs sigs).1 a k hkey).1
    obtain ⟨rfl, hmarks⟩ := markSigned_marks htabled1 hk hret
    refine ⟨rfl, hmarks.tabled, hmarks.examined.trans hexamined, ?_⟩
    rw [hmarks.signatures, hprovided]
    rfl
  | none =>
    simp only [hkey] at hret
    exact (Returns.throw_iff.mp hret).elim

theorem weigh_marks {α : Type} {signed : α → Check (SignState Key Addr) Bool} {key : α → Option Key}
    (hsigned : ∀ a s b s', Tabled h sigs s → Returns (signed a) s b s' →
      b = (key a).isSome ∧ Marks h sigs (key a).toList s s') {threshold total : UInt32}
    {entries : List (α × UInt16)} {r : Option UInt32} (htabled : Tabled h sigs s)
    (hret : Returns (weigh signed threshold entries total) s r s') :
    r = tally (fun a => (key a).isSome) threshold entries total ∧
      Marks h sigs (marks key threshold entries total) s s' := by
  induction entries generalizing total s with
  | nil =>
    obtain ⟨rfl, rfl⟩ := hret.of_pure
    exact ⟨rfl, htabled.marks_nil⟩
  | cons entry rest ih =>
    obtain ⟨a, w⟩ := entry
    obtain ⟨b, s1, hfirst, hret⟩ := hret.of_bind
    obtain ⟨rfl, hmarks⟩ := hsigned a s b s1 htabled hfirst
    unfold tally marks
    cases hkey : key a with
    | none =>
      rw [hkey] at hret hmarks
      obtain ⟨hr, hrest⟩ := ih hmarks.tabled hret
      exact ⟨hr, hmarks.trans hrest⟩
    | some k1 =>
      rw [hkey] at hret hmarks
      simp only [Option.isSome_some, if_true] at hret ⊢
      rcases hret.of_ite with ⟨hstop, hpure⟩ | ⟨hstop, hret⟩
      · obtain ⟨rfl, rfl⟩ := hpure.of_pure
        rw [if_pos hstop, if_pos hstop]
        exact ⟨rfl, hmarks⟩
      · rw [if_neg hstop, if_neg hstop]
        obtain ⟨hr, hrest⟩ := ih hmarks.tabled hret
        exact ⟨hr, hmarks.trans hrest⟩

theorem weighSignatures_marks {au : Authority Key Addr} {r : Option UInt32}
    (htabled : Tabled h sigs s) (hret : Returns (weighSignatures (signState h []) au) s r s') :
    Marks h sigs (marked h sigs au) { s with examined := au :: s.examined } s' := by
  obtain ⟨u, s1, hexamine, hret⟩ := hret.of_bind
  have hs1 := Returns.modify_iff.mp hexamine
  subst hs1
  have htabled1 : Tabled h sigs { s with examined := au :: s.examined } := ⟨htabled.keys, htabled.tables⟩
  obtain ⟨r1, s2, hkeys, hret⟩ := hret.of_bind
  obtain ⟨hr1, hmarks⟩ :=
    weigh_marks (fun k s b s' ht hret => signedByKey_marks ht hret) htabled1 hkeys
  have hsigned : (fun k => (signatureKey sigs k).isSome) = fun k => decide (k ∈ sigs) := by
    funext k
    unfold signatureKey
    split <;> simp [*]
  rw [hsigned] at hr1
  unfold marked
  rw [← hr1]
  cases r1 with
  | none =>
    obtain ⟨-, rfl⟩ := hret.of_pure
    rw [List.append_nil]
    exact hmarks
  | some total =>
    obtain ⟨-, hmarks'⟩ :=
      weigh_marks (fun a s b s' ht hret => signedByAddress_marks ht hret) hmarks.tabled hret
    exact hmarks.trans hmarks'

variable (h sigs) in
structure Exact (s : SignState Key Addr) : Prop extends Tabled h sigs s where
  signatures : s.providedSignatures =
    sigs.map fun k => (k, decide (∃ au ∈ s.examined, k ∈ marked h sigs au))

variable (h sigs) in
def KeepsExact (α : Type) (x : Check (SignState Key Addr) α) : Prop :=
  ∀ s a s', Exact h sigs s → Returns x s a s' → Exact h sigs s'

theorem signers_keepExact (rules : Rules Key Addr) :
    Relates.Signers (signState h []) (signState h []) rules (fun _ => True)
      (fun α x _ => KeepsExact h sigs α x) where
  pure a s a' s' hexact hret := (hret.of_pure).2 ▸ hexact
  throw _ s a s' _ hret := (Returns.throw_iff.mp hret).elim
  bind hx hf s b s' hexact hret := by
    obtain ⟨a, s1, hret1, hret2⟩ := hret.of_bind
    exact hf a s1 b s' (hx s a s1 hexact hret1) hret2
  weighSignatures au _ s r s' hexact hret := by
    have hmarks := weighSignatures_marks hexact.toTabled hret
    refine ⟨hmarks.tabled, ?_⟩
    rw [hmarks.signatures, hmarks.examined]
    show markKeys _ s.providedSignatures = _
    rw [hexact.signatures]
    unfold markKeys
    rw [List.map_map]
    refine List.map_congr_left fun k _ => ?_
    simp [Bool.or_comm]
  isApproved id s b s' hexact hret := by
    have hret := hret.of_get
    exact (hret.of_pure).2 ▸ hexact
  approve id s u s' hexact hret := by
    have hs' := Returns.modify_iff.mp hret
    subst hs'
    exact ⟨⟨hexact.keys, hexact.tables⟩, hexact.signatures⟩
  active _ _ _ := trivial
  owner _ _ _ := trivial

theorem Exact.unused_iff (hexact : Exact h sigs s) :
    (s.providedSignatures.any fun entry => !entry.2) = false ↔
      ∀ k ∈ sigs, ∃ au ∈ s.examined, k ∈ marked h sigs au := by
  rw [hexact.signatures]
  simp

end

end Meta1Core.Signing

import Meta1Core.Signing.SignState

/-!
# Two searches side by side

A relation of programs that their statements hand on relates the searches of two signers as soon as it
relates the answers of these.
-/

namespace Meta1Core.Signing

open Protocol

/-- The assertions of `verify_authority` about an authority that is missing; one of them reads through a
null pointer for its text. -/
def Failure.IsMissing : Failure → Prop
  | .txMissingOtherAuth => True
  | .txMissingOwnerAuth _ => True
  | .txMissingActiveAuth _ => True
  | .nullAuthority => True
  | _ => False

section

variable {Key Addr : Type} {σ τ : Type}

structure Relates (P : (α : Type) → Check σ α → Check τ α → Prop) : Prop where
  pure : ∀ {α : Type} (a : α), P α (pure a) (pure a)
  throw : ∀ {α : Type} {e : Failure}, e.IsMissing → P α (throw e) (throw e)
  bind : ∀ {α β : Type} {x : Check σ α} {y : Check τ α} {f : α → Check σ β} {g : α → Check τ β},
    P α x y → (∀ a, P β (f a) (g a)) → P β (x >>= f) (y >>= g)

namespace Relates

variable {P : (α : Type) → Check σ α → Check τ α → Prop}

theorem ite {α : Type} {c : Prop} [Decidable c] {x x' : Check σ α} {y y' : Check τ α} (hx : P α x y)
    (hx' : P α x' y') : P α (if c then x else x') (if c then y else y') := by
  split
  · exact hx
  · exact hx'

theorem weigh (hP : Relates P) {α : Type} {f : α → Check σ Bool} {g : α → Check τ Bool}
    (threshold : UInt32) {entries : List (α × UInt16)}
    (hf : ∀ entry ∈ entries, P _ (f entry.1) (g entry.1))
    (total : UInt32) :
    P _ (Signing.weigh f threshold entries total) (Signing.weigh g threshold entries total) := by
  induction entries generalizing total with
  | nil => exact hP.pure _
  | cons entry rest ih =>
    have hrest := ih fun entry hentry => hf entry (List.mem_cons_of_mem _ hentry)
    refine hP.bind (hf entry List.mem_cons_self) fun b => ite (ite ?_ ?_) ?_
    · exact hP.pure none
    · exact hrest _
    · exact hrest _

theorem each (hP : Relates P) {α : Type} {f : α → Check σ PUnit} {g : α → Check τ PUnit} {items : List α}
    (hf : ∀ a ∈ items, P _ (f a) (g a)) : P _ (Signing.each f items) (Signing.each g items) := by
  induction items with
  | nil => exact hP.pure _
  | cons a rest ih =>
    refine hP.bind (hf a List.mem_cons_self) fun _ => ?_
    exact ih fun a ha => hf a (List.mem_cons_of_mem _ ha)

theorem checkPointer (hP : Relates P) {f : Authority Key Addr → Check σ Bool}
    {g : Authority Key Addr → Check τ Bool} {pointer : Option (Authority Key Addr)}
    (hf : ∀ au, pointer = some au → P _ (f au) (g au)) :
    P _ (checkPointer f pointer) (checkPointer g pointer) := by
  cases pointer with
  | none => exact hP.pure false
  | some au => exact hf au rfl

structure Signers (S : Signer Key Addr σ) (S' : Signer Key Addr τ) (rules : Rules Key Addr)
    (Q : Authority Key Addr → Prop) (P : (α : Type) → Check σ α → Check τ α → Prop) : Prop
    extends Relates P where
  weighSignatures : ∀ au, Q au → P _ (weighSignatures S au) (weighSignatures S' au)
  isApproved : ∀ id, P _ (S.isApproved id) (S'.isApproved id)
  approve : ∀ id, P _ (S.approve id) (S'.approve id)
  active : ∀ id au, rules.getActive id = some au → Q au
  owner : ∀ id au, rules.getOwner id = some au → Q au

end Relates

namespace Relates.Signers

variable {P : (α : Type) → Check σ α → Check τ α → Prop} {S : Signer Key Addr σ}
  {S' : Signer Key Addr τ} {rules : Rules Key Addr} {Q : Authority Key Addr → Prop}

section

variable (hP : Signers S S' rules Q P)

include hP

theorem checkWith {f : AccountId → Check σ Bool} {g : AccountId → Check τ Bool}
    (hf : ∀ id, P _ (f id) (g id)) {au : Authority Key Addr} (hau : Q au) :
    P _ (checkWith S f au) (checkWith S' g au) := by
  refine hP.bind (hP.weighSignatures au hau) fun r => ?_
  cases r with
  | none => exact hP.pure true
  | some total =>
    refine hP.bind (hP.weigh _ (fun entry _ => hf entry.1) _) fun r' => ?_
    cases r' with
    | none => exact hP.pure true
    | some total' => exact hP.pure _

theorem checkAccount {f : Authority Key Addr → Check σ Bool} {g : Authority Key Addr → Check τ Bool}
    (hf : ∀ au, Q au → P _ (f au) (g au)) (id : AccountId) :
    P _ (checkAccount rules f id) (checkAccount rules g id) := by
  refine hP.bind (hP.checkPointer fun au hau => hf au (hP.active id au hau)) fun b =>
    ite (hP.pure true) (ite ?_ (hP.pure false))
  exact hP.checkPointer fun au hau => hf au (hP.owner id au hau)

theorem approves (levels : Nat) (id : AccountId) :
    P _ (approves S rules levels id) (approves S' rules levels id) := by
  induction levels generalizing id with
  | zero => exact hP.isApproved id
  | succ levels ih =>
    refine hP.bind (hP.isApproved id) fun b => ite (hP.pure true) ?_
    refine hP.bind (hP.checkAccount (fun au hau => hP.checkWith ih hau) id) fun b' =>
      ite ?_ (hP.pure false)
    exact hP.bind (hP.approve id) fun _ => hP.pure true

theorem checkAuthority {au : Authority Key Addr} (hau : Q au) :
    P _ (checkAuthority S rules au) (checkAuthority S' rules au) :=
  hP.checkWith (hP.approves _) hau

theorem checkOwnerPointer (id : AccountId) :
    P _ (Signing.checkPointer (Signing.checkAuthority S rules) (rules.getOwner id))
      (Signing.checkPointer (Signing.checkAuthority S' rules) (rules.getOwner id)) :=
  hP.checkPointer fun au hau => hP.checkAuthority (hP.owner id au hau)

theorem checkAuthorityOf (id : AccountId) :
    P _ (checkAuthorityOf S rules id) (checkAuthorityOf S' rules id) := by
  refine hP.bind (hP.isApproved id) fun b => ite (hP.pure true) ?_
  exact hP.checkAccount (fun au hau => hP.checkAuthority hau) id

theorem checkOwner (ownerApprovals : List AccountId) (id : AccountId) :
    P _ (checkOwner S rules ownerApprovals id) (checkOwner S' rules ownerApprovals id) := by
  refine ite (hP.pure _) (hP.bind (hP.checkOwnerPointer id) fun b => ite (hP.pure _) (hP.throw ?_))
  split
  · trivial
  · trivial

theorem checkActive (id : AccountId) : P _ (checkActive S rules id) (checkActive S' rules id) := by
  refine hP.bind (hP.checkAuthorityOf id) fun b => ite (hP.pure _) ?_
  refine hP.bind (hP.checkOwnerPointer id) fun b' => ite (hP.pure _) (hP.throw ?_)
  split
  · trivial
  · trivial

theorem search {required : Required Key Addr} (hother : ∀ au ∈ required.other, Q au)
    (ownerApprovals : List AccountId) :
    P _ (search S rules required ownerApprovals) (search S' rules required ownerApprovals) := by
  refine hP.bind (hP.each fun au hau => ?_) fun _ =>
    hP.bind (hP.each fun id _ => hP.checkOwner ownerApprovals id) fun _ =>
      hP.each fun id _ => hP.checkActive id
  exact hP.bind (hP.checkAuthority (hother au hau)) fun b => ite (hP.pure _) (hP.throw trivial)

end

end Relates.Signers

end

end Meta1Core.Signing

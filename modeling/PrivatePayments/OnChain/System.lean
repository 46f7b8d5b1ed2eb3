import PrivatePayments.Contracts.PoolAcceptance
import PrivatePayments.Contracts.AspMembership
import PrivatePayments.Contracts.AspNonMembership

/-!
# PrivatePayments.OnChain.System

A pool together with the contracts it calls: its token, and any number of ASP membership
and non-membership contracts, of which the pool reads the two that are registered with it.
An action is one invocation by anybody; a failing one changes nothing. What a call of the
pool finds on the ledger (`Pool.CallEnv`) is computed here from the other contracts.
-/

namespace PrivatePayments.OnChain

open Pool (Address Host CallEnv Transaction PoolStorage)
open AspMembership (MembershipStorage MembershipM)
open AspNonMembership (AspStorage AspM)

/-- The token contract: its balances, `transfer` for the addresses that have authorised it,
and its other functions. -/
structure TokenContract (σ κ : Type) where
  balance : σ → Address → Int
  transfer : σ → (Address → Bool) → Address → Address → Int → Option σ
  call : σ → (Address → Bool) → κ → σ

/-- What the pool relies on: a transfer moves its amount and is authorised and covered by the
account it debits; no other function takes from an account that has not signed. -/
structure TokenContract.Standard {σ κ : Type} (token : TokenContract σ κ) : Prop where
  authorised : ∀ {t signed src dst amount t'},
    token.transfer t signed src dst amount = some t' → signed src = true
  moves : ∀ {t signed src dst amount t'}, token.transfer t signed src dst amount = some t' →
    ∀ a, token.balance t' a = token.balance t a - (if a = src then amount else 0) +
      (if a = dst then amount else 0)
  covered : ∀ {t signed src dst amount t'},
    token.transfer t signed src dst amount = some t' → amount ≤ token.balance t src
  call_le : ∀ {t signed c a}, signed a = false →
    token.balance t a ≤ token.balance (token.call t signed c) a

/-- A pool at its address, with the token it was constructed with. -/
structure Deployment (σ κ : Type) where
  host : Host
  pool : Address
  token : Address
  tokenContract : TokenContract σ κ

/-- The ledger entries of the pool and of the contracts around it. -/
structure State (σ : Type) where
  pool : PoolStorage
  membership : Address → Option MembershipStorage
  nonMembership : Address → Option AspStorage
  token : σ

/-- The functions of the pool that change its storage. -/
inductive PoolCall
  | transact (tx : Transaction)
  | updateAdmin (newAdmin : Address)
  | updateAspMembership (newAspMembership : Address)
  | updateAspNonMembership (newAspNonMembership : Address)

/-- The functions of the membership contract that change its storage. -/
inductive MembershipCall
  | insertLeaf (leaf : U256)
  | setAdminInsertOnly (adminOnly : Bool)
  | updateAdmin (newAdmin : Address)

def MembershipCall.function (authorised : Bool) : MembershipCall → MembershipM Unit
  | .insertLeaf leaf => AspMembership.insertLeaf authorised leaf
  | .setAdminInsertOnly adminOnly => AspMembership.setAdminInsertOnly authorised adminOnly
  | .updateAdmin newAdmin => AspMembership.updateAdmin authorised newAdmin

/-- The functions of the non-membership contract that change its storage. -/
inductive NonMembershipCall
  | insertLeaf (key value : U256)
  | deleteLeaf (key : U256)
  | updateAdmin (newAdmin : Address)

def NonMembershipCall.function (authorised : Bool) : NonMembershipCall → AspM Unit
  | .insertLeaf key value => AspNonMembership.insertLeaf authorised key value
  | .deleteLeaf key => AspNonMembership.deleteLeaf authorised key
  | .updateAdmin newAdmin => AspNonMembership.updateAdmin authorised newAdmin

/-- One invocation. `signed` are the addresses that have authorised it, `foreign` the roots
that contracts other than the modelled ones return to the pool. -/
inductive Action (κ : Type)
  | pool (signed : Address → Bool) (foreign : Address → Option U256) (call : PoolCall)
  | membership (contract : Address) (signed : Address → Bool) (call : MembershipCall)
  | nonMembership (contract : Address) (signed : Address → Bool) (call : NonMembershipCall)
  | deployMembership (contract admin : Address) (levels : Nat)
  | deployNonMembership (contract admin : Address)
  | token (signed : Address → Bool) (call : κ)

/-- The value that a call returns, for a caller that traps on an error. -/
def returned {σ ε α : Type} (f : Contract σ ε α) (s : σ) : Option α :=
  match f.run s with
  | .ok a _ => some a
  | .error _ _ => none

/-- `get_root` of the contract at an address. -/
def State.rootAt {σ : Type} (st : State σ) (foreign : Address → Option U256) (a : Address) :
    Option U256 :=
  match st.membership a, st.nonMembership a with
  | some m, _ => returned AspMembership.getRoot m
  | none, some n => returned AspNonMembership.getRoot n
  | none, none => foreign a

variable {σ κ : Type} (D : Deployment σ κ)

namespace Deployment

/-- A contract has no key: the pool signs nothing. -/
def signers (signed : Address → Bool) (a : Address) : Bool := signed a && a ≠ D.pool

/-- Who has authorised the transfers that the pool makes: it invokes the token itself. -/
def transferSigners (signed : Address → Bool) (a : Address) : Bool :=
  D.signers signed a || a = D.pool

/-- What a call of the pool finds on the ledger, where `caller` has to have signed. -/
def callEnv (st : State σ) (signed : Address → Bool) (foreign : Address → Option U256)
    (caller : Option Address) : CallEnv where
  this := D.pool
  authorised := caller.any (D.signers signed)
  transfer token src dst amount :=
    if token = D.token then
      (D.tokenContract.transfer st.token (D.transferSigners signed) src dst amount).map fun _ => ()
    else none
  aspMembershipRoot := st.rootAt foreign
  aspNonMembershipRoot := st.rootAt foreign

/-- A call of the pool, with what it finds on the ledger. -/
def poolCall (st : State σ) (signed : Address → Bool) (foreign : Address → Option U256) :
    PoolCall → Pool.Call
  | .transact tx => .transact (D.callEnv st signed foreign (some tx.sender)) tx
  | .updateAdmin newAdmin => .updateAdmin (D.callEnv st signed foreign st.pool.admin) newAdmin
  | .updateAspMembership asp =>
      .updateAspMembership (D.callEnv st signed foreign st.pool.admin) asp
  | .updateAspNonMembership asp =>
      .updateAspNonMembership (D.callEnv st signed foreign st.pool.admin) asp

/-- The token after the transfer of a call: a deposit, a withdrawal, or none. -/
def settle (t : σ) (signed : Address → Bool) : PoolCall → Option σ
  | .transact tx =>
      if 0 < tx.extData.extAmount.val then
        D.tokenContract.transfer t (D.transferSigners signed) tx.sender D.pool
          tx.extData.extAmount.val
      else if tx.extData.extAmount.val < 0 then
        D.tokenContract.transfer t (D.transferSigners signed) D.pool tx.extData.recipient
          (-tx.extData.extAmount.val)
      else some t
  | _ => some t

/-- An invocation of a contract at an address, if there is one. -/
def invokeAt {τ ε : Type} (contracts : Address → Option τ) (a : Address)
    (f : τ → Contract τ ε Unit) : Address → Option τ :=
  match contracts a with
  | some s => Function.update contracts a (some (Contract.invoke (f s) s).2)
  | none => contracts

/-- A deployment at an address that is free, if the constructor succeeds. -/
def deployAt {τ ε : Type} (contracts : Address → Option τ) (a : Address) (free : Bool)
    (f : Contract τ ε Unit) (empty : τ) : Address → Option τ :=
  match free, f.run empty with
  | true, .ok _ s => Function.update contracts a (some s)
  | _, _ => contracts

/-- One action. -/
def step (st : State σ) : Action κ → State σ
  | .pool signed foreign call =>
      match Contract.invoke ((D.poolCall st signed foreign call).function D.host) st.pool with
      | (.ok _, pool) =>
          { st with pool, token := (D.settle st.token signed call).getD st.token }
      | (.error _, _) => st
  | .membership contract signed call => { st with
      membership := invokeAt st.membership contract fun m =>
        call.function (m.admin.any (D.signers signed)) }
  | .nonMembership contract signed call => { st with
      nonMembership := invokeAt st.nonMembership contract fun n =>
        call.function (n.admin.any (D.signers signed)) }
  | .deployMembership contract admin levels => { st with
      membership := deployAt st.membership contract
        ((st.membership contract).isNone && (st.nonMembership contract).isNone)
        (AspMembership.constructor admin levels) {} }
  | .deployNonMembership contract admin => { st with
      nonMembership := deployAt st.nonMembership contract
        ((st.membership contract).isNone && (st.nonMembership contract).isNone)
        (AspNonMembership.constructor admin) {} }
  | .token signed call => { st with
      token := D.tokenContract.call st.token (D.signers signed) call }

/-- A sequence of actions. -/
def run (st : State σ) (acts : List (Action κ)) : State σ := acts.foldl D.step st

/-- The calls of the pool among the actions, with what each of them finds. -/
def poolCalls : State σ → List (Action κ) → List Pool.Call
  | _, [] => []
  | st, .pool signed foreign call :: acts =>
      D.poolCall st signed foreign call ::
        poolCalls (D.step st (.pool signed foreign call)) acts
  | st, act :: acts => poolCalls (D.step st act) acts

/-- The transactions that are accepted, in order. -/
def accepted (st : State σ) (acts : List (Action κ)) : List Transaction :=
  (Pool.run D.host st.pool (D.poolCalls st acts)).1

/-- The state in which a pool has just been constructed, with no ASP contract yet. -/
structure Constructed (levels : Nat) (verifier : Address) (st : State σ) : Prop where
  pool : ∃ admin aspMembership aspNonMembership,
    (Pool.constructor admin D.token verifier aspMembership aspNonMembership levels).run {} =
      .ok () st.pool
  membership : ∀ a, st.membership a = none
  nonMembership : ∀ a, st.nonMembership a = none

end Deployment

end PrivatePayments.OnChain

import Bdt.Base.References
import Bdt.Connection.ConnectionCalls

/-!
# The references of an ack package

`BdtConfirmConnection` generates an ack package and shares it: the response cache of the container
keeps it, the acceptor may keep it as its `ackPackage`, and so may the actions of a builder that is
confirmed. The model counts its references, over a heap that has no other package. Other calls may
change the connection before the section under `stateLock`, and holders may give the package back at
any time.

`ackBalanced_iff`: the references are those of the holders that are left exactly when there was no ack
package, or the connection was not connecting any more in the section.
-/

namespace Bdt

open Base List

/-- Who holds a reference to the ack package. -/
inductive AckHolder where
  /-- `BdtConfirmConnection` itself. -/
  | caller
  | cache
  | acceptor
  /-- An action of a builder. -/
  | action
  deriving DecidableEq

/-- The actions that a passive builder confirms. -/
inductive PassiveBuildAction where
  | ackUdpTunnel
  | acceptStream
  | connectReverseStream
  | acceptPackageConnection
  deriving DecidableEq

/-- `confirm` of the action takes a reference to the response. -/
def PassiveBuildAction.keepsResponse : PassiveBuildAction → Bool
  | .acceptPackageConnection => true
  | .ackUdpTunnel | .acceptStream | .connectReverseStream => false

/-- The builder of a container. -/
structure ContainerBuilder where
  passive : Bool
  seq : UInt32
  /-- The actions of the runtime that is building, if there is one. -/
  actions : Option (List PassiveBuildAction)

/-- The ack package, and who holds it. Without a package nobody does. -/
structure AckPackage where
  heap : List (Counted Unit) := []
  held : List AckHolder := []

/-- What other calls do in the meantime. -/
structure ConfirmOthers where
  /-- The connection that the section finds. -/
  meanwhile : BdtConnection
  /-- The holders that give the package back before the section, and behind it. -/
  before : List AckHolder := []
  behind : List AckHolder := []

namespace AckPackage

def references (ack : AckPackage) : List Nat :=
  ack.held.map fun _ => 0

/-- `ConnectionGenAckPackage`, the reference. -/
def gen : AckPackage where
  heap := [.new ()]
  held := [.caller]

/-- `Bdt_PackageAddRef` for a holder. -/
def addRef (ack : AckPackage) (holder : AckHolder) : Option AckPackage :=
  (Base.addRef ack.heap 0).map fun heap => { heap, held := holder :: ack.held }

/-- `Bdt_PackageRelease` by a holder. -/
def release (ack : AckPackage) (holder : AckHolder) : Option AckPackage :=
  (Base.release ack.heap 0).map fun heap => { heap, held := ack.held.erase holder }

/-- Another call makes a holder give the package back, if it has it. -/
def giveBack (ack : AckPackage) (holder : AckHolder) : Option AckPackage :=
  if holder ≠ .caller ∧ holder ∈ ack.held then ack.release holder else some ack

/-- `PassiveBuildActionConfirm`. -/
def confirmAction (ack : AckPackage) (action : PassiveBuildAction) : Option AckPackage :=
  if action.keepsResponse then ack.addRef .action else some ack

/-- `BdtTunnel_SetCachedResponse`, with `TunnelBuilderConfirm`. -/
def setCachedResponse (ack : AckPackage) (seq : UInt32) (builder : Option ContainerBuilder) :
    Option AckPackage := do
  let ack ← ack.addRef .cache
  match builder with
  | none => some ack
  | some builder =>
    if builder.passive ∧ builder.seq = seq then
      (builder.actions.getD []).foldlM confirmAction ack
    else some ack

/-- `ConnectionSendAck`. -/
def send (ack : AckPackage) : Option AckPackage :=
  if .acceptor ∈ ack.held then do
    let ack ← ack.addRef .caller
    ack.release .caller
  else some ack

end AckPackage

/-- The acceptor keeps the ack package. -/
def BdtConnection.keepsAck (c : BdtConnection) : Prop :=
  c.acceptor.map ConnectionAcceptor.ins = some (.maybeBuilder none true)

instance (c : BdtConnection) : Decidable c.keepsAck :=
  inferInstanceAs (Decidable (_ = _))

/-- The acceptor takes a reference in the section, when it becomes a holder. -/
def AckPackage.keepInSection (meanwhile locked : BdtConnection) (ack : AckPackage) :
    Option AckPackage :=
  if meanwhile.state = .connecting ∧ locked.keepsAck then ack.addRef .acceptor else some ack

/-- The section of `BdtConfirmConnection`, and the release behind it. It has no result when it uses an
acceptor that is null. -/
def confirmSection (meanwhile : BdtConnection) (userData : Option Nat) (ack : AckPackage) :
    Option AckPackage := do
  let locked ← meanwhile.confirmAcceptor userData
  let ack ← ack.keepInSection meanwhile locked.connection
  ack.release .caller

/-- `BdtConfirmConnection`, as far as it uses the ack package. -/
def confirmConnection (builder : Option ContainerBuilder) (others : ConfirmOthers)
    (userData : Option Nat) (c : BdtConnection) : Option AckPackage :=
  if c.passive = false ∨ c.state ≠ .connecting ∨ c.firstAnswer ≠ none then some {}
  else do
    let ack ← AckPackage.gen.setCachedResponse c.connectSeq builder
    let ack ← others.before.foldlM AckPackage.giveBack ack
    let ack ← confirmSection others.meanwhile userData ack
    if others.meanwhile.state ≠ .connecting then some ack
    else
      let ack ← others.behind.foldlM AckPackage.giveBack ack
      let ack ← ack.send
      ack.release .caller

namespace AckPackage

/-- The references are those of the holders, and `BdtConfirmConnection` has `n` of them. -/
structure Owned (n : Nat) (ack : AckPackage) : Prop where
  balanced : Balanced ack.heap ack.references
  caller : ack.held.count .caller = n

variable {n : Nat} {ack next : AckPackage} {holder : AckHolder}

theorem zero_mem_references (h : holder ∈ ack.held) : 0 ∈ ack.references :=
  mem_map.mpr ⟨holder, h, rfl⟩

theorem owned_gen : Owned 1 gen :=
  ⟨balanced_nil.alloc (), rfl⟩

/-- As long as someone holds the package, another one can. -/
theorem Owned.addRef (h : Owned n ack) (hheld : ack.held ≠ []) (holder : AckHolder) :
    ∃ next, ack.addRef holder = some next ∧
      Owned (n + if holder = .caller then 1 else 0) next ∧ next.held = holder :: ack.held := by
  obtain ⟨first, hfirst⟩ := exists_mem_of_ne_nil _ hheld
  obtain ⟨heap, hadd, hbalanced⟩ := h.balanced.exists_addRef (zero_mem_references hfirst)
  refine ⟨⟨heap, holder :: ack.held⟩, ?_, ⟨hbalanced, ?_⟩, rfl⟩
  · rw [AckPackage.addRef, hadd, Option.map_some]
  rw [count_cons, h.caller]
  by_cases hcaller : holder = .caller
  · rw [if_pos hcaller, if_pos (beq_iff_eq.mpr hcaller)]
  · rw [if_neg hcaller, if_neg (fun hsame => hcaller (beq_iff_eq.mp hsame))]

theorem Owned.release (h : Owned n ack) (hheld : holder ∈ ack.held) :
    ∃ next, ack.release holder = some next ∧
      Owned (n - if holder = .caller then 1 else 0) next ∧ next.held = ack.held.erase holder := by
  have hperm : ack.references.Perm (0 :: (ack.held.erase holder).map fun _ => 0) :=
    (perm_cons_erase hheld).map fun _ => 0
  obtain ⟨heap, hrelease, hbalanced⟩ := (h.balanced.perm hperm).exists_release
  refine ⟨⟨heap, ack.held.erase holder⟩, ?_, ⟨hbalanced, ?_⟩, rfl⟩
  · rw [AckPackage.release, hrelease, Option.map_some]
  show (ack.held.erase holder).count .caller = _
  by_cases hcaller : holder = .caller
  · rw [if_pos hcaller, hcaller, count_erase_self, h.caller]
  · rw [if_neg hcaller, count_erase_of_ne (Ne.symm hcaller), h.caller, Nat.sub_zero]

theorem Owned.giveBack (h : Owned n ack) (holder : AckHolder) :
    ∃ next, ack.giveBack holder = some next ∧ Owned n next := by
  unfold AckPackage.giveBack
  split
  case isTrue hgives =>
    obtain ⟨next, hnext, howned, -⟩ := h.release hgives.2
    rw [if_neg hgives.1, Nat.sub_zero] at howned
    exact ⟨next, hnext, howned⟩
  case isFalse => exact ⟨ack, rfl, h⟩

theorem Owned.giveBacks (h : Owned n ack) (holders : List AckHolder) :
    ∃ next, holders.foldlM AckPackage.giveBack ack = some next ∧ Owned n next := by
  induction holders generalizing ack with
  | nil => exact ⟨ack, rfl, h⟩
  | cons holder holders ih =>
    obtain ⟨next, hnext, hnextOwned⟩ := h.giveBack holder
    obtain ⟨last, hlast, hlastOwned⟩ := ih hnextOwned
    refine ⟨last, ?_, hlastOwned⟩
    rw [foldlM_cons, hnext]
    exact hlast

section

variable (h : Owned (n + 1) ack)
include h

theorem Owned.held_ne : ack.held ≠ [] := by
  intro hnil
  have hcaller := h.caller
  rw [hnil] at hcaller
  cases hcaller

theorem Owned.confirmActions (actions : List PassiveBuildAction) :
    ∃ next, actions.foldlM confirmAction ack = some next ∧ Owned (n + 1) next := by
  induction actions generalizing ack with
  | nil => exact ⟨ack, rfl, h⟩
  | cons action actions ih =>
    obtain ⟨next, hnext, hnextOwned⟩ :
        ∃ next, ack.confirmAction action = some next ∧ Owned (n + 1) next := by
      unfold confirmAction
      split
      case isTrue =>
        obtain ⟨next, hnext, howned, -⟩ := h.addRef h.held_ne .action
        exact ⟨next, hnext, howned⟩
      case isFalse => exact ⟨ack, rfl, h⟩
    obtain ⟨last, hlast, hlastOwned⟩ := ih hnextOwned
    refine ⟨last, ?_, hlastOwned⟩
    rw [foldlM_cons, hnext]
    exact hlast

theorem Owned.setCachedResponse (seq : UInt32) (builder : Option ContainerBuilder) :
    ∃ next, ack.setCachedResponse seq builder = some next ∧ Owned (n + 1) next := by
  obtain ⟨cached, hcached, howned, -⟩ := h.addRef h.held_ne .cache
  unfold AckPackage.setCachedResponse
  rw [hcached]
  cases builder with
  | none => exact ⟨cached, rfl, howned⟩
  | some builder =>
    by_cases hconfirms : builder.passive ∧ builder.seq = seq
    · obtain ⟨next, hnext, hnextOwned⟩ := Owned.confirmActions howned (builder.actions.getD [])
      exact ⟨next, (if_pos hconfirms).trans hnext, hnextOwned⟩
    · exact ⟨cached, if_neg hconfirms, howned⟩

theorem Owned.keepInSection (meanwhile locked : BdtConnection) :
    ∃ next, ack.keepInSection meanwhile locked = some next ∧ Owned (n + 1) next := by
  unfold AckPackage.keepInSection
  split
  case isTrue =>
    obtain ⟨next, hnext, howned, -⟩ := h.addRef h.held_ne .acceptor
    exact ⟨next, hnext, howned⟩
  case isFalse => exact ⟨ack, rfl, h⟩

theorem Owned.releaseCaller : ∃ next, ack.release .caller = some next ∧ Owned n next := by
  have hmem : .caller ∈ ack.held :=
    count_pos_iff.mp (by rw [h.caller]; exact Nat.succ_pos n)
  obtain ⟨next, hnext, howned, -⟩ := h.release hmem
  exact ⟨next, hnext, howned⟩

end

theorem Owned.send (h : Owned n ack) : ∃ next, ack.send = some next ∧ Owned n next := by
  unfold AckPackage.send
  split
  case isTrue hacceptor =>
    obtain ⟨added, hadded, haddedOwned, -⟩ :=
      h.addRef (ne_nil_of_mem hacceptor) .caller
    obtain ⟨next, hnext, howned⟩ := Owned.releaseCaller haddedOwned
    refine ⟨next, ?_, howned⟩
    rw [hadded]
    exact hnext
  case isFalse => exact ⟨ack, rfl, h⟩

theorem Owned.not_release (h : Owned 0 ack) (hnext : ack.release .caller = some next) :
    ¬ Balanced next.heap next.references := by
  obtain ⟨heap, hrelease, rfl⟩ := Option.map_eq_some_iff.mp hnext
  have hcaller : .caller ∉ ack.held := count_eq_zero.mp h.caller
  show ¬ Balanced heap ((ack.held.erase .caller).map fun _ => 0)
  rw [erase_of_not_mem hcaller]
  exact h.balanced.not_release hrelease

end AckPackage

open AckPackage

variable {builder : Option ContainerBuilder} {others : ConfirmOthers} {userData : Option Nat}
  {c : BdtConnection}

/-- The section has a result where the connection has an acceptor, or is not connecting any more, and
the function does not hold the package behind it. -/
theorem owned_confirmSection {ack : AckPackage} {meanwhile : BdtConnection} (h : ack.Owned 1) :
    (∃ next, confirmSection meanwhile userData ack = some next ∧ next.Owned 0) ∨
      meanwhile.state = .connecting ∧ confirmSection meanwhile userData ack = none := by
  unfold confirmSection
  cases hlocked : meanwhile.confirmAcceptor userData with
  | none =>
    refine .inr ⟨?_, rfl⟩
    by_contra hstate
    rw [BdtConnection.confirmAcceptor, if_pos hstate] at hlocked
    cases hlocked
  | some locked =>
    obtain ⟨kept, hkept, hkeptOwned⟩ := h.keepInSection meanwhile locked.connection
    obtain ⟨next, hnext, hnextOwned⟩ := hkeptOwned.releaseCaller
    refine .inl ⟨next, ?_, hnextOwned⟩
    show (ack.keepInSection meanwhile locked.connection).bind _ = _
    rw [hkept]
    exact hnext

/-- The references of the ack package are those of the holders that are left, in the calls that
generate none, and in those that find the connection changed. -/
theorem ackBalanced_iff (builder : Option ContainerBuilder) (others : ConfirmOthers)
    (userData : Option Nat) (c : BdtConnection) :
    (∃ ack, confirmConnection builder others userData c = some ack ∧
        Balanced ack.heap ack.references) ↔
      c.passive = false ∨ c.state ≠ .connecting ∨ c.firstAnswer ≠ none ∨
        others.meanwhile.state ≠ .connecting := by
  unfold confirmConnection
  by_cases hignored : c.passive = false ∨ c.state ≠ .connecting ∨ c.firstAnswer ≠ none
  · rw [if_pos hignored]
    refine iff_of_true ⟨{}, rfl, balanced_nil⟩ ?_
    rcases hignored with h | h | h
    · exact .inl h
    · exact .inr (.inl h)
    · exact .inr (.inr (.inl h))
  rw [if_neg hignored]
  have hreaches (h : others.meanwhile.state = .connecting) :
      ¬ (c.passive = false ∨ c.state ≠ .connecting ∨ c.firstAnswer ≠ none ∨
        others.meanwhile.state ≠ .connecting) := by
    rintro (hc | hc | hc | hc)
    · exact hignored (.inl hc)
    · exact hignored (.inr (.inl hc))
    · exact hignored (.inr (.inr hc))
    · exact hc h
  obtain ⟨cached, hcached, hcachedOwned⟩ := owned_gen.setCachedResponse c.connectSeq builder
  obtain ⟨before, hbefore, hbeforeOwned⟩ := hcachedOwned.giveBacks others.before
  rw [hcached]
  show (∃ ack, ((others.before.foldlM giveBack cached).bind _) = some ack ∧ _) ↔ _
  rw [hbefore]
  show (∃ ack, ((confirmSection others.meanwhile userData before).bind _) = some ack ∧ _) ↔ _
  rcases owned_confirmSection hbeforeOwned with ⟨locked, hlocked, hlockedOwned⟩ | ⟨hstate, hlocked⟩
  case inr =>
    -- the acceptor is null
    rw [hlocked]
    exact iff_of_false (fun ⟨ack, hack, _⟩ => by cases hack) (hreaches hstate)
  case inl =>
  rw [hlocked]
  by_cases hstate : others.meanwhile.state = .connecting
  · refine iff_of_false ?_ (hreaches hstate)
    rintro ⟨ack, hack, hbalanced⟩
    obtain ⟨behind, hbehind, hbehindOwned⟩ := hlockedOwned.giveBacks others.behind
    obtain ⟨sent, hsent, hsentOwned⟩ := hbehindOwned.send
    rw [Option.bind_some, if_neg (not_not_intro hstate), hbehind] at hack
    replace hack : (behind.send).bind _ = some ack := hack
    rw [hsent] at hack
    exact hsentOwned.not_release hack hbalanced
  · refine iff_of_true ⟨locked, ?_, hlockedOwned.balanced⟩ (.inr (.inr (.inr hstate)))
    exact if_pos hstate

/-- A connection that a package has made connecting, with an acceptor that no interface is bound to. -/
def passiveConnecting : BdtConnection :=
  { ConnectionCreate (.ofList 32 [1]) 64 1 7 true with
    state := .connecting
    acceptor := some ⟨0, .maybeBuilder none false⟩
    allocated := 1 }

/-- It is confirmed: the cache and the acceptor keep the ack package, which has one reference. -/
theorem ack_overreleased :
    ¬ ∃ ack, confirmConnection none { meanwhile := passiveConnecting } none passiveConnecting =
        some ack ∧ Balanced ack.heap ack.references := by
  rintro ⟨ack, hack, hbalanced⟩
  cases hack
  have hcount := hbalanced.count 0 _ rfl
  cases hcount

end Bdt

import Bdt.Base.SlotTable
import Bdt.Global.Peerid

/-!
# The ping clients of the super nodes

A model of the ping manager of `Ping.imp.inl`: its slots, the clients in them with their references,
and the functions that change these. A client is where it was allocated. The slots are the memory from
`pingClients` on, of which the manager uses the first `maxPingClientCount`.

`BdtSnClient_UpdateSNList` puts new clients into free slots before it takes the old ones out.
`updated_iff` says when the slots are enough for that.
-/

namespace Bdt

open Base List

inductive PingClientStatus where
  | init
  | connecting
  | online
  | offline
  deriving DecidableEq, Repr

/-- The members of `PingClient` that its references and its life go with. -/
structure PingClient where
  /-- The peerid of `snPeerInfo`. -/
  snPeerid : Peerid
  status : PingClientStatus := .init
  refCount : Int := 1
  deriving DecidableEq, Repr

namespace PingClient

variable (client : PingClient)

def addRef : PingClient :=
  { client with refCount := client.refCount + 1 }

/-- The client is freed when its count is zero. -/
def release : PingClient :=
  { client with refCount := client.refCount - 1 }

/-- `PingClientStart`. A client that was never pinged does not get offline by it. -/
def start : PingClient :=
  if client.status = .init then { client with status := .connecting } else client

def stop : PingClient :=
  { client with status := .offline }

def setStatus (status : PingClientStatus) (client : PingClient) : PingClient :=
  { client with status }

theorem setStatus_snPeerid (status : PingClientStatus) (client : PingClient) :
    (client.setStatus status).snPeerid = client.snPeerid := rfl

theorem addRef_snPeerid : client.addRef.snPeerid = client.snPeerid := rfl

theorem release_snPeerid : client.release.snPeerid = client.snPeerid := rfl

theorem start_release_snPeerid : client.start.release.snPeerid = client.snPeerid := by
  unfold start
  split
  case isTrue => rfl
  case isFalse => rfl

theorem stop_release_snPeerid : client.stop.release.snPeerid = client.snPeerid := rfl

end PingClient

structure PingManager where
  maxPingClientCount : Nat
  pingClients : Nat → Option Nat := fun _ => none
  /-- The clients that were created, in that order. -/
  clients : List PingClient := []

namespace PingManager

/-- `PingManagerInit`. -/
def init (onlineSnLimit : UInt32) : PingManager where
  maxPingClientCount := min 16 (onlineSnLimit * 2).toNat

def modify (manager : PingManager) (client : Nat) (change : PingClient → PingClient) :
    PingManager :=
  { manager with clients := manager.clients.modify client change }

variable (manager : PingManager)

def modifyAll (clients : List Nat) (change : PingClient → PingClient) : PingManager :=
  clients.foldl (fun manager client => manager.modify client change) manager

/-- The peerid of a client. -/
def snPeerid (manager : PingManager) (client : Nat) : Option Peerid :=
  manager.clients[client]?.map (·.snPeerid)

/-- The clients in the slots of the manager. -/
def slotClients : List Nat :=
  (List.range manager.maxPingClientCount).filterMap manager.pingClients

/-- `PingManagerFindPingClientByPeeridWithoutLock`. -/
def findPingClientByPeerid (peerid : Peerid) : Option Nat :=
  manager.slotClients.find? fun client => manager.snPeerid client = some peerid

/-- The clients that leave their slots. -/
def takeOut (leaves : Nat → Bool) : PingManager :=
  { manager with
    pingClients := fun i =>
      if i < manager.maxPingClientCount then
        (manager.pingClients i).filter fun client => !leaves client
      else manager.pingClients i }

/-! ## The update of the list -/

/-- The variables of the loop in `BdtSnClient_UpdateSNList` that puts the new clients into slots. -/
structure Placing where
  manager : PingManager
  nextEmptyPos : Nat := 0
  newClients : List Nat := []
  dupClients : List Nat := []

/-- A new client and the peerid that it was created for. -/
def Placing.next (placing : Placing) (new : Peerid × Nat) : Placing :=
  let manager := placing.manager
  match manager.findPingClientByPeerid new.1 with
  | some _ => { placing with dupClients := placing.dupClients ++ [new.2] }
  | none =>
    let nextEmptyPos := nextFree manager.pingClients
      (manager.maxPingClientCount - placing.nextEmptyPos) placing.nextEmptyPos
    { placing with
      manager :=
        { manager with pingClients := put manager.pingClients nextEmptyPos new.2 }.modify new.2
          PingClient.addRef
      nextEmptyPos := nextEmptyPos + 1
      newClients := placing.newClients ++ [new.2] }

/-- `PingClientCreate`, for each of the super nodes. -/
def create (snPeerids : List Peerid) : PingManager :=
  { manager with clients := manager.clients ++ snPeerids.map fun snPeerid => { snPeerid } }

/-- A client whose peerid is not among those that are kept. -/
def Excluded (snPeerids : List Peerid) (client : Nat) : Bool :=
  snPeerids.all fun peerid => manager.snPeerid client ≠ some peerid

/-- `PingManagerRemoveClientsExclude`. There is room for all sixteen in `removeClients`, so that it
finds no more when it calls itself. -/
def removeClientsExclude (snPeerids : List Peerid) : PingManager :=
  let removeClients := manager.slotClients.filter (manager.Excluded snPeerids)
  (manager.takeOut (manager.Excluded snPeerids)).modifyAll removeClients
    fun client => client.stop.release

/-- The new clients of `BdtSnClient_UpdateSNList`, and the slots they are put into. -/
def placeNew (snPeerids : List Peerid) : Placing :=
  (snPeerids.zipIdx manager.clients.length).foldl Placing.next
    { manager := manager.create snPeerids }

/-- What is in a slot is started, and the others are released. -/
def Placing.startNew (placing : Placing) : PingManager :=
  (placing.manager.modifyAll placing.newClients fun client => client.start.release).modifyAll
    placing.dupClients PingClient.release

/-- `BdtSnClient_UpdateSNList`, with the peerids of `snPeerInfos`. -/
def UpdateSNList (snPeerids : List Peerid) : PingManager :=
  let snPeerids := snPeerids.take 8
  (manager.placeNew snPeerids).startNew.removeClientsExclude snPeerids

/-! ## The other steps -/

/-- The first half of `PingManagerOnTimer`: the clients that got offline leave their slots. -/
def sweep : PingManager :=
  let offline : Nat → Bool := fun client =>
    manager.clients[client]?.any (·.status = .offline)
  (manager.takeOut offline).modifyAll (manager.slotClients.filter offline) PingClient.release

inductive Event where
  | update (snPeerids : List Peerid)
  | sweep
  /-- What a response, a timeout or a stop makes of the status of a client. -/
  | status (client : Nat) (status : PingClientStatus)
  /-- The references that a thread takes and gives back while it works on a client. -/
  | addRef (client : Nat)
  | release (client : Nat)

def next : Event → PingManager
  | .update snPeerids => manager.UpdateSNList snPeerids
  | .sweep => manager.sweep
  | .status client status => manager.modify client (PingClient.setStatus status)
  | .addRef client => manager.modify client PingClient.addRef
  | .release client => manager.modify client PingClient.release

/-! ## Clients and slots -/

variable {manager : PingManager} {peerid : Peerid} {client i : Nat}

@[simp] theorem modify_pingClients (client : Nat) (change : PingClient → PingClient) :
    (manager.modify client change).pingClients = manager.pingClients := rfl

@[simp] theorem modify_length (client : Nat) (change : PingClient → PingClient) :
    (manager.modify client change).clients.length = manager.clients.length :=
  List.length_modify ..

variable {change : PingClient → PingClient}

theorem modify_snPeerid
    (hchange : ∀ client, (change client).snPeerid = client.snPeerid) (client : Nat) :
    (manager.modify client change).snPeerid = manager.snPeerid := by
  funext other
  unfold snPeerid modify
  rw [List.getElem?_modify]
  cases manager.clients[other]? with
  | none => rfl
  | some => by_cases h : client = other <;> simp [h, hchange]

theorem modify_of_ne {other : Nat} (h : client ≠ other) (change : PingClient → PingClient) :
    (manager.modify client change).clients[other]? = manager.clients[other]? := by
  simp [modify, List.getElem?_modify, h]

theorem modifyAll_fixed (manager : PingManager) (clients : List Nat)
    (change : PingClient → PingClient) :
    (manager.modifyAll clients change).maxPingClientCount = manager.maxPingClientCount ∧
      (manager.modifyAll clients change).pingClients = manager.pingClients ∧
      (manager.modifyAll clients change).clients.length = manager.clients.length := by
  induction clients generalizing manager with
  | nil => exact ⟨rfl, rfl, rfl⟩
  | cons client _ ih =>
    obtain ⟨hmax, hslots, hlength⟩ := ih (manager.modify client change)
    exact ⟨hmax, hslots, hlength.trans (modify_length ..)⟩

theorem modifyAll_snPeerid
    (hchange : ∀ client, (change client).snPeerid = client.snPeerid) (clients : List Nat) :
    (manager.modifyAll clients change).snPeerid = manager.snPeerid := by
  induction clients generalizing manager with
  | nil => rfl
  | cons client _ ih => exact ih.trans (modify_snPeerid hchange client)

variable {news : List (Peerid × Nat)} {leaves : Nat → Bool} {clients : List Nat}

theorem modifyAll_of_notMem (h : client ∉ clients) (change : PingClient → PingClient) :
    (manager.modifyAll clients change).clients[client]? = manager.clients[client]? := by
  induction clients generalizing manager with
  | nil => rfl
  | cons _ _ ih =>
    rw [mem_cons, not_or] at h
    exact (ih h.2).trans (modify_of_ne (Ne.symm h.1) change)

theorem modifyAll_of_mem (hnodup : clients.Nodup) (h : client ∈ clients)
    (change : PingClient → PingClient) : (manager.modifyAll clients change).clients[client]? =
      manager.clients[client]?.map change := by
  induction clients generalizing manager with
  | nil => cases h
  | cons other clients ih =>
    rw [List.nodup_cons] at hnodup
    have hcons : manager.modifyAll (other :: clients) change =
        (manager.modify other change).modifyAll clients change := rfl
    rw [hcons]
    obtain rfl | hmem := mem_cons.mp h
    · rw [modifyAll_of_notMem hnodup.1]
      simp [modify, List.getElem?_modify]
    · rw [ih hnodup.2 hmem, modify_of_ne]
      rintro rfl
      exact hnodup.1 hmem

/-- A slot of the manager holds a client of the peer. -/
def Has (manager : PingManager) (peerid : Peerid) : Prop :=
  ∃ i < manager.maxPingClientCount, ∃ client, manager.pingClients i = some client ∧
    manager.snPeerid client = some peerid

theorem mem_slotClients :
    client ∈ manager.slotClients ↔
      ∃ i < manager.maxPingClientCount, manager.pingClients i = some client := by
  simp [slotClients]

theorem find_eq_none_iff : manager.findPingClientByPeerid peerid = none ↔ ¬ manager.Has peerid := by
  unfold findPingClientByPeerid Has
  rw [find?_eq_none]
  simp only [mem_slotClients, decide_eq_true_eq]
  constructor
  · intro h ⟨i, hi, client, hslot, hpeer⟩
    exact h client ⟨i, hi, hslot⟩ hpeer
  · intro h client ⟨i, hi, hslot⟩ hpeer
    exact h ⟨i, hi, client, hslot, hpeer⟩

instance : DecidablePred manager.Has := fun peerid =>
  decidable_of_iff ((manager.findPingClientByPeerid peerid).isSome) (by
    rw [Option.isSome_iff_ne_none, ne_eq, find_eq_none_iff, not_not])

/-- What an update of the list is for: each of the first eight peers has one client in a slot, a
client that was there stays, one that is not listed is stopped and released once, and nothing is
written beyond the slots of the manager. -/
structure Updated (manager : PingManager) (snPeerids : List Peerid) (after : PingManager) :
    Prop where
  limit : after.maxPingClientCount = manager.maxPingClientCount
  listed : ∀ peerid, after.Has peerid ↔ peerid ∈ snPeerids.take 8
  once : ∀ i < manager.maxPingClientCount, ∀ j < manager.maxPingClientCount,
    ∀ client other, after.pingClients i = some client → after.pingClients j = some other →
      after.snPeerid client = after.snPeerid other → i = j
  kept : ∀ i < manager.maxPingClientCount, ∀ client peerid,
    manager.pingClients i = some client → manager.snPeerid client = some peerid →
      peerid ∈ snPeerids.take 8 →
        after.pingClients i = some client ∧ after.clients[client]? = manager.clients[client]?
  removed : ∀ i < manager.maxPingClientCount, ∀ client peerid,
    manager.pingClients i = some client → manager.snPeerid client = some peerid →
      peerid ∉ snPeerids.take 8 →
        client ∉ after.slotClients ∧
          after.clients[client]? = manager.clients[client]?.map fun client => client.stop.release
  beyond : ∀ i, manager.maxPingClientCount ≤ i → after.pingClients i = manager.pingClients i

/-- What holds of the manager between its steps: one slot for a peer. -/
structure Valid (manager : PingManager) : Prop where
  limit : manager.maxPingClientCount ≤ 16
  allocated : ∀ i client, manager.pingClients i = some client → client < manager.clients.length
  distinct : ∀ i < manager.maxPingClientCount, ∀ j < manager.maxPingClientCount,
    ∀ client other, manager.pingClients i = some client → manager.pingClients j = some other →
      manager.snPeerid client = manager.snPeerid other → i = j

theorem slotClients_nodup (h : manager.Valid) : manager.slotClients.Nodup := by
  unfold slotClients List.Nodup
  rw [pairwise_filterMap]
  refine nodup_range.imp_of_mem fun {i j} hi hj hne client hclient other hother heq => ?_
  subst heq
  exact hne (h.distinct i (mem_range.mp hi) j (mem_range.mp hj) client client hclient
    hother rfl)

theorem takeOut_eq_some (hi : i < manager.maxPingClientCount) :
    (manager.takeOut leaves).pingClients i = some client ↔
      manager.pingClients i = some client ∧ leaves client = false := by
  simp [takeOut, hi, Option.filter_eq_some_iff]

theorem takeOut_beyond (hi : manager.maxPingClientCount ≤ i) :
    (manager.takeOut leaves).pingClients i = manager.pingClients i :=
  if_neg (Nat.not_lt.mpr hi)

theorem Valid.takeOut (h : manager.Valid) (leaves : Nat → Bool) :
    (manager.takeOut leaves).Valid where
  limit := h.limit
  allocated i client hslot := by
    by_cases hi : i < manager.maxPingClientCount
    · exact h.allocated i client ((takeOut_eq_some hi).mp hslot).1
    · exact h.allocated i client (takeOut_beyond (Nat.le_of_not_lt hi) ▸ hslot)
  distinct i hi j hj client other hslot hother heq := by
    have hstays : ∀ {i client}, i < manager.maxPingClientCount →
        (manager.takeOut leaves).pingClients i = some client →
          manager.pingClients i = some client :=
      fun hi hslot => ((takeOut_eq_some hi).mp hslot).1
    exact h.distinct i hi j hj client other (hstays hi hslot) (hstays hj hother) heq

section

variable (h : manager.Valid) (hchange : ∀ client, (change client).snPeerid = client.snPeerid)
include h hchange

theorem Valid.modify (client : Nat) :
    (manager.modify client change).Valid where
  limit := h.limit
  allocated i other hslot := (modify_length client change).symm ▸ h.allocated i other hslot
  distinct := by
    rw [modify_snPeerid hchange]
    exact h.distinct

theorem Valid.modifyAll (clients : List Nat) :
    (manager.modifyAll clients change).Valid := by
  induction clients generalizing manager with
  | nil => exact h
  | cons client _ ih => exact ih (h.modify hchange client)

end

theorem init_valid (onlineSnLimit : UInt32) : (init onlineSnLimit).Valid where
  limit := Nat.min_le_left ..
  allocated := nofun
  distinct := nofun

/-- A client that was created before keeps its peer. -/
theorem create_snPeerid (snPeerids : List Peerid) (h : client < manager.clients.length) :
    (manager.create snPeerids).snPeerid client = manager.snPeerid client := by
  simp [create, snPeerid, getElem?_append_left h]

theorem Valid.create (h : manager.Valid) (snPeerids : List Peerid) :
    (manager.create snPeerids).Valid where
  limit := h.limit
  allocated i client hslot :=
    (h.allocated i client hslot).trans_le (by simp [PingManager.create])
  distinct i hi j hj client other hslot hother heq := by
    rw [create_snPeerid snPeerids (h.allocated i client hslot),
      create_snPeerid snPeerids (h.allocated j other hother)] at heq
    exact h.distinct i hi j hj client other hslot hother heq

/-- A client of a new peer is put into a free slot, or beyond the slots of the manager. -/
theorem Valid.put (h : manager.Valid) (hnot : ¬ manager.Has peerid)
    (hpeer : manager.snPeerid client = some peerid) (hclient : client < manager.clients.length)
    (hfree : i < manager.maxPingClientCount → manager.pingClients i = none) :
    { manager with pingClients := put manager.pingClients i client }.Valid where
  limit := h.limit
  allocated j other hslot := by
    obtain ⟨-, rfl⟩ | ⟨-, hslot⟩ := put_eq_some.mp hslot
    · exact hclient
    · exact h.allocated j other hslot
  distinct j hj k hk other another hslot hanother heq := by
    change manager.snPeerid other = manager.snPeerid another at heq
    obtain ⟨rfl, rfl⟩ | ⟨-, hheld⟩ := put_eq_some.mp hslot
    · obtain ⟨rfl, -⟩ | ⟨-, hheld⟩ := put_eq_some.mp hanother
      · rfl
      · -- Another slot would hold a client of the new peer.
        exact absurd ⟨k, hk, another, hheld, heq.symm.trans hpeer⟩ hnot
    · obtain ⟨rfl, rfl⟩ | ⟨-, hheldToo⟩ := put_eq_some.mp hanother
      · exact absurd ⟨j, hj, other, hheld, heq.trans hpeer⟩ hnot
      · exact h.distinct j hj k hk other another hheld hheldToo heq

/-! ## New clients in slots -/

variable {placing : Placing} {new : Peerid × Nat} {first : Nat} {done : List Peerid}

theorem Placing.next_has (h : placing.manager.Has new.1) :
    placing.next new = { placing with dupClients := placing.dupClients ++ [new.2] } := by
  unfold Placing.next
  dsimp only
  cases hfind : placing.manager.findPingClientByPeerid new.1 with
  | none => exact absurd h (find_eq_none_iff.mp hfind)
  | some => rfl

/-- Where the next client is put. -/
def Placing.emptyPos (placing : Placing) : Nat :=
  nextFree placing.manager.pingClients
    (placing.manager.maxPingClientCount - placing.nextEmptyPos) placing.nextEmptyPos

theorem Placing.next_put (h : ¬ placing.manager.Has new.1) :
    placing.next new =
      { placing with
        manager :=
          { placing.manager with
            pingClients := put placing.manager.pingClients placing.emptyPos new.2 }.modify new.2
              PingClient.addRef
        nextEmptyPos := placing.emptyPos + 1
        newClients := placing.newClients ++ [new.2] } := by
  unfold Placing.next
  dsimp only
  rw [find_eq_none_iff.mpr h]
  rfl

/-- What the loop that puts new clients into slots keeps, from a manager on: what was in a slot stays
there, and no other client than the new ones is written. -/
structure Placing.Keeps (start : PingManager) (first : Nat) (placing : Placing) : Prop where
  valid : placing.manager.Valid
  max : placing.manager.maxPingClientCount = start.maxPingClientCount
  snPeerid : placing.manager.snPeerid = start.snPeerid
  length : placing.manager.clients.length = start.clients.length
  slot : ∀ i < start.maxPingClientCount, ∀ client, start.pingClients i = some client →
    placing.manager.pingClients i = some client
  clients : ∀ client < first, placing.manager.clients[client]? = start.clients[client]?
  new : ∀ client ∈ placing.newClients ++ placing.dupClients, first ≤ client

/-- A client that was created for a list. -/
def Created (start : PingManager) (first : Nat) (new : Peerid × Nat) : Prop :=
  first ≤ new.2 ∧ new.2 < start.clients.length ∧ start.snPeerid new.2 = some new.1

variable {start : PingManager}

theorem Placing.Keeps.next (h : placing.Keeps start first) (hnew : Created start first new) :
    (placing.next new).Keeps start first := by
  obtain ⟨hfirst, hlength, hpeer⟩ := hnew
  have hnews : ∀ {clients others : List Nat}, (∀ client ∈ clients ++ others, first ≤ client) →
      ∀ client, client ∈ clients ∨ client = new.2 ∨ client ∈ others → first ≤ client := by
    intro clients others hall client hclient
    obtain hclient | rfl | hclient := hclient
    · exact hall client (mem_append_left _ hclient)
    · exact hfirst
    · exact hall client (mem_append_right _ hclient)
  by_cases hhas : placing.manager.Has new.1
  · rw [Placing.next_has hhas]
    refine ⟨h.valid, h.max, h.snPeerid, h.length, h.slot, h.clients, fun client hclient => ?_⟩
    simp only [mem_append, mem_singleton] at hclient
    exact hnews h.new client (by tauto)
  rw [Placing.next_put hhas]
  have hfree : placing.emptyPos < placing.manager.maxPingClientCount →
      placing.manager.pingClients placing.emptyPos = none := nextFree_free_of_lt _ _ _
  have hput := h.valid.put hhas ((congrFun h.snPeerid new.2).trans hpeer)
    (hlength.trans_eq h.length.symm) hfree
  constructor
  case valid => exact hput.modify PingClient.addRef_snPeerid new.2
  case max => exact h.max
  case snPeerid => exact (modify_snPeerid PingClient.addRef_snPeerid new.2).trans h.snPeerid
  case length => exact (modify_length ..).trans h.length
  case slot =>
    intro i hi client hslot
    have hheld := h.slot i hi client hslot
    refine (put_of_ne ?_).trans hheld
    rintro rfl
    rw [hfree (hi.trans_eq h.max.symm)] at hheld
    cases hheld
  case clients =>
    intro client hclient
    rw [modify_of_ne (by omega)]
    exact h.clients client hclient
  case new =>
  intro client hclient
  simp only [mem_append, mem_singleton] at hclient
  exact hnews h.new client (by tauto)

theorem Placing.Keeps.all (h : placing.Keeps start first)
    (hnews : ∀ new ∈ news, Created start first new) :
    (news.foldl Placing.next placing).Keeps start first := by
  induction news generalizing placing with
  | nil => exact h
  | cons new news ih =>
    rw [forall_mem_cons] at hnews
    exact ih (h.next hnews.1) hnews.2

/-- The peers of a list that no slot holds a client of. -/
def freshPeers (manager : PingManager) (snPeerids : List Peerid) : Finset Peerid :=
  snPeerids.toFinset.filter fun peerid => ¬ manager.Has peerid

/-- The new clients of the peers so far went into free slots. -/
structure Placing.Fits (start : PingManager) (done : List Peerid) (placing : Placing) : Prop where
  pos : placing.nextEmptyPos ≤ start.maxPingClientCount
  used : UsedBelow placing.manager.pingClients placing.nextEmptyPos
  has : ∀ peerid, placing.manager.Has peerid ↔ start.Has peerid ∨ peerid ∈ done
  card : (freeSlots start.maxPingClientCount placing.manager.pingClients).card +
    (start.freshPeers done).card = (freeSlots start.maxPingClientCount start.pingClients).card
  beyond : ∀ i, start.maxPingClientCount ≤ i → placing.manager.pingClients i = start.pingClients i

/-- A new client was put beyond the slots of the manager. -/
def Placing.Overflows (start : PingManager) (first : Nat) (placing : Placing) : Prop :=
  ∃ i, start.maxPingClientCount ≤ i ∧ i < placing.nextEmptyPos ∧
    ∃ client, placing.manager.pingClients i = some client ∧ first ≤ client

/-- What was put beyond the slots is not overwritten. -/
theorem Placing.Overflows.next (h : placing.Overflows start first) (new : Peerid × Nat) :
    (placing.next new).Overflows start first := by
  obtain ⟨i, hi, hpos, client, hslot, hclient⟩ := h
  by_cases hhas : placing.manager.Has new.1
  · rw [Placing.next_has hhas]
    exact ⟨i, hi, hpos, client, hslot, hclient⟩
  rw [Placing.next_put hhas]
  have hlt : i < placing.emptyPos := hpos.trans_le le_nextFree
  exact ⟨i, hi, hlt.trans (Nat.lt_succ_self _), client,
    (put_of_ne (Nat.ne_of_lt hlt)).trans hslot, hclient⟩

theorem Placing.Overflows.all (h : placing.Overflows start first) (news : List (Peerid × Nat)) :
    (news.foldl Placing.next placing).Overflows start first := by
  induction news generalizing placing with
  | nil => exact h
  | cons new news ih => exact ih (h.next new)

theorem freshPeers_concat_of_mem (h : manager.Has peerid ∨ peerid ∈ done) :
    manager.freshPeers (done ++ [peerid]) = manager.freshPeers done := by
  ext other
  simp only [freshPeers, Finset.mem_filter, mem_toFinset, mem_append, mem_singleton]
  constructor
  · intro ⟨hmem, hnot⟩
    obtain hmem | rfl := hmem
    · exact ⟨hmem, hnot⟩
    · exact ⟨h.resolve_left hnot, hnot⟩
  · intro ⟨hmem, hnot⟩
    exact ⟨.inl hmem, hnot⟩

theorem card_freshPeers_concat (hhas : ¬ manager.Has peerid) (hmem : peerid ∉ done) :
    (manager.freshPeers (done ++ [peerid])).card = (manager.freshPeers done).card + 1 := by
  have hinsert : manager.freshPeers (done ++ [peerid]) =
      insert peerid (manager.freshPeers done) := by
    ext other
    simp only [freshPeers, Finset.mem_filter, mem_toFinset, mem_append,
      mem_singleton, Finset.mem_insert]
    constructor
    · intro ⟨hother, hnot⟩
      exact hother.symm.imp_right fun hother => ⟨hother, hnot⟩
    · rintro (rfl | ⟨hother, hnot⟩)
      · exact ⟨.inr rfl, hhas⟩
      · exact ⟨.inl hother, hnot⟩
  rw [hinsert, Finset.card_insert_of_notMem]
  simp [freshPeers, hmem]

theorem card_freshPeers_le {some all : List Peerid} (h : some ⊆ all) :
    (manager.freshPeers some).card ≤ (manager.freshPeers all).card := by
  refine Finset.card_le_card (Finset.filter_subset_filter _ fun peerid hmem => ?_)
  exact mem_toFinset.mpr (h (mem_toFinset.mp hmem))

theorem modify_has (hchange : ∀ client, (change client).snPeerid = client.snPeerid) (client : Nat)
    (peerid : Peerid) : (manager.modify client change).Has peerid ↔ manager.Has peerid := by
  unfold Has
  rw [modify_snPeerid hchange]
  rfl

theorem put_has (hpeer : manager.snPeerid client = some peerid)
    (hi : i < manager.maxPingClientCount) (hfree : manager.pingClients i = none) (other : Peerid) :
    { manager with pingClients := put manager.pingClients i client }.Has other ↔
      manager.Has other ∨ other = peerid := by
  constructor
  · intro ⟨j, hj, held, hslot, hheld⟩
    obtain ⟨-, rfl⟩ | ⟨-, hslot⟩ := put_eq_some.mp hslot
    · exact .inr (Option.some.inj (hheld.symm.trans hpeer))
    · exact .inl ⟨j, hj, held, hslot, hheld⟩
  intro h
  obtain ⟨j, hj, held, hslot, hheld⟩ | rfl := h
  · refine ⟨j, hj, held, put_eq_some.mpr (.inr ⟨?_, hslot⟩), hheld⟩
    rintro rfl
    cases hfree.symm.trans hslot
  · exact ⟨i, hi, client, put_self, hpeer⟩

theorem Placing.Fits.next (h : placing.Fits start done) (hkeeps : placing.Keeps start first)
    (hnew : Created start first new) :
    (placing.next new).Fits start (done ++ [new.1]) ∨
      (placing.next new).Overflows start first ∧
        (freeSlots start.maxPingClientCount start.pingClients).card <
          (start.freshPeers (done ++ [new.1])).card := by
  have hcard := h.card
  by_cases hhas : placing.manager.Has new.1
  · -- A client of the peer is there.
    left
    have hbefore := (h.has new.1).mp hhas
    rw [Placing.next_has hhas]
    refine ⟨h.pos, h.used, fun peerid => (h.has peerid).trans ?_, ?_, h.beyond⟩
    · rw [mem_append, mem_singleton]
      constructor
      · exact fun hpeerid => hpeerid.imp_right .inl
      rintro (hpeerid | hpeerid | rfl)
      · exact .inl hpeerid
      · exact .inr hpeerid
      · exact hbefore
    · rw [freshPeers_concat_of_mem hbefore]
      exact hcard
  have hnot := mt (h.has new.1).mpr hhas
  rw [not_or] at hnot
  have hfresh := card_freshPeers_concat hnot.1 hnot.2
  have hpos : placing.nextEmptyPos ≤ placing.manager.maxPingClientCount := hkeeps.max ▸ h.pos
  rw [Placing.next_put hhas]
  by_cases hfree : (freeSlots start.maxPingClientCount placing.manager.pingClients).Nonempty
  · left
    have hlt : placing.emptyPos < placing.manager.maxPingClientCount :=
      nextFree_lt h.used hpos (hkeeps.max ▸ hfree)
    have hempty : placing.manager.pingClients placing.emptyPos = none :=
      nextFree_free_of_lt _ _ _ hlt
    have hpeer := (congrFun hkeeps.snPeerid new.2).trans hnew.2.2
    rw [hkeeps.max] at hlt
    refine ⟨hlt, h.used.put_next new.2, fun peerid => ?_, ?_, fun i hi => ?_⟩
    · rw [modify_has PingClient.addRef_snPeerid,
        put_has hpeer (hlt.trans_eq hkeeps.max.symm) hempty, h.has peerid, mem_append,
        mem_singleton, or_assoc]
    · have hput := card_freeSlots_put new.2 hlt hempty
      rw [hfresh]
      dsimp only [modify_pingClients]
      omega
    · exact (put_of_ne (Nat.ne_of_gt (hlt.trans_le hi))).trans (h.beyond i hi)
  right
  rw [Finset.not_nonempty_iff_eq_empty] at hfree
  have hlast : placing.emptyPos = start.maxPingClientCount := by
    rw [← hkeeps.max] at hfree ⊢
    exact nextFree_full hpos hfree
  rw [hfree, Finset.card_empty] at hcard
  refine ⟨⟨start.maxPingClientCount, Nat.le_refl _, ?_, new.2, ?_, hnew.1⟩, by omega⟩
  · dsimp only
    omega
  · rw [hlast]
    exact put_self

theorem Placing.Fits.all (h : placing.Fits start done) (hkeeps : placing.Keeps start first)
    (hnews : ∀ new ∈ news, Created start first new) :
    (news.foldl Placing.next placing).Fits start (done ++ news.map Prod.fst) ∨
      (news.foldl Placing.next placing).Overflows start first ∧
        (freeSlots start.maxPingClientCount start.pingClients).card <
          (start.freshPeers (done ++ news.map Prod.fst)).card := by
  induction news generalizing placing done with
  | nil => exact .inl (by simpa using h)
  | cons new news ih =>
    rw [forall_mem_cons] at hnews
    rw [foldl_cons, map_cons, append_cons]
    obtain hfits | ⟨hover, hcard⟩ := h.next hkeeps hnews.1
    · exact ih hfits (hkeeps.next hnews.1) hnews.2
    · exact .inr ⟨hover.all news, hcard.trans_le (card_freshPeers_le (subset_append_left ..))⟩

/-! ## The update -/

section Update

variable (hvalid : manager.Valid) (snPeerids : List Peerid)
include hvalid

theorem create_has (peerid : Peerid) :
    (manager.create snPeerids).Has peerid ↔ manager.Has peerid := by
  have hpeer : ∀ i client, manager.pingClients i = some client →
      ((manager.create snPeerids).snPeerid client = some peerid ↔
        manager.snPeerid client = some peerid) := by
    intro i client hslot
    rw [create_snPeerid snPeerids (hvalid.allocated i client hslot)]
  constructor
  · intro ⟨i, hi, client, hslot, hclient⟩
    exact ⟨i, hi, client, hslot, (hpeer i client hslot).mp hclient⟩
  · intro ⟨i, hi, client, hslot, hclient⟩
    exact ⟨i, hi, client, hslot, (hpeer i client hslot).mpr hclient⟩

theorem create_freshPeers (peerids : List Peerid) :
    (manager.create snPeerids).freshPeers peerids = manager.freshPeers peerids :=
  Finset.filter_congr fun peerid _ => not_congr (create_has hvalid snPeerids peerid)

omit hvalid in
theorem created_of_mem {new : Peerid × Nat}
    (hnew : new ∈ snPeerids.zipIdx manager.clients.length) :
    Created (manager.create snPeerids) manager.clients.length new := by
  obtain ⟨hfirst, hpeer⟩ := List.mem_zipIdx_iff_le_and_getElem?_sub.mp hnew
  have hlt := (List.getElem?_eq_some_iff.mp hpeer).1
  refine ⟨hfirst, ?_, ?_⟩
  · simp only [create, length_append, length_map]
    omega
  · simp [snPeerid, create, getElem?_append_right hfirst, hpeer]

theorem placeNew_keeps :
    (manager.placeNew snPeerids).Keeps (manager.create snPeerids) manager.clients.length := by
  refine Placing.Keeps.all ?_ fun new hnew => created_of_mem snPeerids hnew
  exact ⟨hvalid.create snPeerids, rfl, rfl, rfl, fun _ _ _ hslot => hslot, fun _ _ => rfl, nofun⟩

theorem placeNew_fits :
    (manager.placeNew snPeerids).Fits (manager.create snPeerids) snPeerids ∨
      (manager.placeNew snPeerids).Overflows (manager.create snPeerids) manager.clients.length ∧
        (freeSlots manager.maxPingClientCount manager.pingClients).card <
          (manager.freshPeers snPeerids).card := by
  have hstart : Placing.Fits (manager.create snPeerids) []
      { manager := manager.create snPeerids } :=
    ⟨Nat.zero_le _, nofun, by simp, by simp [freshPeers], fun _ _ => rfl⟩
  have hkeeps : Placing.Keeps (manager.create snPeerids) manager.clients.length
      { manager := manager.create snPeerids } :=
    ⟨hvalid.create snPeerids, rfl, rfl, rfl, fun _ _ _ hslot => hslot, fun _ _ => rfl, nofun⟩
  have hall := hstart.all hkeeps fun new hnew => created_of_mem snPeerids hnew
  rw [nil_append, zipIdx_map_fst, create_freshPeers hvalid] at hall
  exact hall

end Update

theorem startNew_fixed (placing : Placing) :
    placing.startNew.maxPingClientCount = placing.manager.maxPingClientCount ∧
      placing.startNew.pingClients = placing.manager.pingClients ∧
      placing.startNew.snPeerid = placing.manager.snPeerid := by
  unfold Placing.startNew
  have hfirst := modifyAll_fixed placing.manager placing.newClients
    fun client => client.start.release
  have hsecond := modifyAll_fixed
    (placing.manager.modifyAll placing.newClients fun client => client.start.release)
    placing.dupClients PingClient.release
  refine ⟨hsecond.1.trans hfirst.1, hsecond.2.1.trans hfirst.2.1, ?_⟩
  rw [modifyAll_snPeerid PingClient.release_snPeerid,
    modifyAll_snPeerid PingClient.start_release_snPeerid]

theorem Placing.Keeps.startNew {start : PingManager} {first : Nat} {placing : Placing}
    (h : placing.Keeps start first) :
    placing.startNew.Valid ∧
      ∀ client < first, placing.startNew.clients[client]? = start.clients[client]? := by
  constructor
  · exact (h.valid.modifyAll PingClient.start_release_snPeerid _).modifyAll
      PingClient.release_snPeerid _
  intro client hclient
  have hnot : client ∉ placing.newClients ++ placing.dupClients :=
    fun hmem => Nat.not_lt.mpr (h.new client hmem) hclient
  rw [mem_append, not_or] at hnot
  unfold Placing.startNew
  rw [modifyAll_of_notMem hnot.2, modifyAll_of_notMem hnot.1]
  exact h.clients client hclient

/-! ## What is excluded -/

theorem not_excluded_iff (snPeerids : List Peerid) (hpeer : manager.snPeerid client = some peerid) :
    manager.Excluded snPeerids client = false ↔ peerid ∈ snPeerids := by
  simp [Excluded, hpeer]

section Remove

variable (hvalid : manager.Valid) (snPeerids : List Peerid)

theorem removeClientsExclude_fixed :
    (manager.removeClientsExclude snPeerids).maxPingClientCount = manager.maxPingClientCount ∧
      (manager.removeClientsExclude snPeerids).pingClients =
        (manager.takeOut (manager.Excluded snPeerids)).pingClients ∧
      (manager.removeClientsExclude snPeerids).snPeerid = manager.snPeerid := by
  have hfixed := modifyAll_fixed (manager.takeOut (manager.Excluded snPeerids))
    (manager.slotClients.filter (manager.Excluded snPeerids)) fun client => client.stop.release
  exact ⟨hfixed.1, hfixed.2.1, modifyAll_snPeerid PingClient.stop_release_snPeerid _⟩

theorem removeClientsExclude_has (peerid : Peerid) :
    (manager.removeClientsExclude snPeerids).Has peerid ↔
      manager.Has peerid ∧ peerid ∈ snPeerids := by
  obtain ⟨hmax, hslots, hpeers⟩ := manager.removeClientsExclude_fixed snPeerids
  unfold Has
  rw [hmax, hslots, hpeers]
  constructor
  · intro ⟨i, hi, client, hslot, hpeer⟩
    obtain ⟨hheld, hstays⟩ := (takeOut_eq_some hi).mp hslot
    exact ⟨⟨i, hi, client, hheld, hpeer⟩, (not_excluded_iff snPeerids hpeer).mp hstays⟩
  · intro ⟨⟨i, hi, client, hheld, hpeer⟩, hlisted⟩
    exact ⟨i, hi, client,
      (takeOut_eq_some hi).mpr ⟨hheld, (not_excluded_iff snPeerids hpeer).mpr hlisted⟩, hpeer⟩

theorem removeClientsExclude_kept (h : manager.Excluded snPeerids client = false) :
    (manager.removeClientsExclude snPeerids).clients[client]? = manager.clients[client]? := by
  refine modifyAll_of_notMem ?_ _
  rw [mem_filter, h]
  exact fun hmem => Bool.false_ne_true hmem.2

include hvalid in
theorem removeClientsExclude_removed (hmem : client ∈ manager.slotClients)
    (h : manager.Excluded snPeerids client = true) :
    (manager.removeClientsExclude snPeerids).clients[client]? =
      manager.clients[client]?.map fun client => client.stop.release :=
  modifyAll_of_mem ((slotClients_nodup hvalid).filter _) (mem_filter.mpr ⟨hmem, h⟩) _

include hvalid in
theorem removeClientsExclude_valid : (manager.removeClientsExclude snPeerids).Valid :=
  (hvalid.takeOut _).modifyAll PingClient.stop_release_snPeerid _

end Remove

/-! ## When the update is right -/

section Update

variable (hvalid : manager.Valid) (snPeerids : List Peerid)
include hvalid

/-- The slots after an update: those that the new clients were put into, without what is
excluded. -/
theorem updateSNList_fixed :
    (manager.UpdateSNList snPeerids).maxPingClientCount = manager.maxPingClientCount ∧
      (∀ i, manager.maxPingClientCount ≤ i → (manager.UpdateSNList snPeerids).pingClients i =
        (manager.placeNew (snPeerids.take 8)).manager.pingClients i) ∧
      ∀ peerid, (manager.UpdateSNList snPeerids).Has peerid ↔
        (manager.placeNew (snPeerids.take 8)).manager.Has peerid ∧ peerid ∈ snPeerids.take 8 := by
  have hkeeps := placeNew_keeps hvalid (snPeerids.take 8)
  obtain ⟨hmax, hslots, hpeers⟩ := startNew_fixed (manager.placeNew (snPeerids.take 8))
  obtain ⟨hmaxAfter, hslotsAfter, -⟩ := (manager.placeNew
    (snPeerids.take 8)).startNew.removeClientsExclude_fixed (snPeerids.take 8)
  have hlimit : (manager.placeNew (snPeerids.take 8)).startNew.maxPingClientCount =
      manager.maxPingClientCount := hmax.trans hkeeps.max
  refine ⟨hmaxAfter.trans hlimit, fun i hi => ?_, fun peerid => ?_⟩
  · exact (congrFun hslotsAfter i).trans
      ((takeOut_beyond (hlimit.trans_le hi)).trans (congrFun hslots i))
  · refine (removeClientsExclude_has ..).trans (and_congr_left' ?_)
    unfold Has
    rw [hmax, hslots, hpeers]

theorem updateSNList_valid : (manager.UpdateSNList snPeerids).Valid :=
  removeClientsExclude_valid (placeNew_keeps hvalid _).startNew.1 _

/-- A client that was in a slot, before the list is cleared of what is excluded. -/
theorem startNew_client {i client : Nat} {peerid : Peerid} (hi : i < manager.maxPingClientCount)
    (hslot : manager.pingClients i = some client) (hpeer : manager.snPeerid client = some peerid) :
    (manager.placeNew snPeerids).startNew.pingClients i = some client ∧
      (manager.placeNew snPeerids).startNew.snPeerid client = some peerid ∧
      (manager.placeNew snPeerids).startNew.clients[client]? = manager.clients[client]? := by
  have hkeeps := placeNew_keeps hvalid snPeerids
  have hclient := hvalid.allocated i client hslot
  obtain ⟨-, hslots, hpeers⟩ := startNew_fixed (manager.placeNew snPeerids)
  refine ⟨(congrFun hslots i).trans (hkeeps.slot i hi client hslot), ?_, ?_⟩
  · rw [hpeers, hkeeps.snPeerid, create_snPeerid snPeerids hclient, hpeer]
  · exact (hkeeps.startNew.2 client hclient).trans (getElem?_append_left hclient)

/-- The update does what it is for exactly if there are no more new peers than free slots. -/
theorem updated_iff :
    manager.Updated snPeerids (manager.UpdateSNList snPeerids) ↔
      (manager.freshPeers (snPeerids.take 8)).card ≤
        (freeSlots manager.maxPingClientCount manager.pingClients).card := by
  obtain ⟨hlimit, hbeyond, hhas⟩ := updateSNList_fixed hvalid snPeerids
  have hkeeps := placeNew_keeps hvalid (snPeerids.take 8)
  obtain hfits | ⟨⟨i, hi, -, client, hslot, hclient⟩, hcard⟩ :=
    placeNew_fits hvalid (snPeerids.take 8)
  case inr =>
    -- A new client stands where nothing may be written.
    refine iff_of_false (fun hupdated => ?_) (Nat.not_le.mpr hcard)
    have hold := (hbeyond i hi).symm.trans (hupdated.beyond i hi)
    have := hvalid.allocated i client (hold.symm.trans hslot)
    omega
  case inl =>
  have hcard := hfits.card
  rw [create_freshPeers hvalid] at hcard
  refine iff_of_true ?_ (Nat.le.intro ((Nat.add_comm ..).trans hcard))
  constructor
  case limit => exact hlimit
  case listed =>
    intro peerid
    rw [hhas, hfits.has]
    exact ⟨fun h => h.2, fun h => ⟨.inr h, h⟩⟩
  case once =>
    have hvalidAfter := updateSNList_valid hvalid snPeerids
    intro i hi j hj
    exact hvalidAfter.distinct i (hi.trans_eq hlimit.symm) j (hj.trans_eq hlimit.symm)
  case kept =>
    intro i hi client peerid hslot hpeer hlisted
    obtain ⟨hheld, hpeerid, hclient⟩ :=
      startNew_client hvalid (snPeerids.take 8) hi hslot hpeer
    have hstays := (not_excluded_iff (snPeerids.take 8) hpeerid).mpr hlisted
    have hmax := (startNew_fixed (manager.placeNew (snPeerids.take 8))).1.trans hkeeps.max
    constructor
    · exact (congrFun (removeClientsExclude_fixed _).2.1 i).trans
        ((takeOut_eq_some (hi.trans_eq hmax.symm)).mpr ⟨hheld, hstays⟩)
    · exact (removeClientsExclude_kept _ hstays).trans hclient
  case removed =>
    intro i hi client peerid hslot hpeer hnot
    obtain ⟨hheld, hpeerid, hclient⟩ :=
      startNew_client hvalid (snPeerids.take 8) hi hslot hpeer
    have hleaves : (manager.placeNew (snPeerids.take 8)).startNew.Excluded (snPeerids.take 8)
        client = true :=
      Bool.eq_true_of_not_eq_false (mt (not_excluded_iff _ hpeerid).mp hnot)
    have hmax := (startNew_fixed (manager.placeNew (snPeerids.take 8))).1.trans hkeeps.max
    constructor
    · rw [mem_slotClients]
      intro ⟨j, hj, hafter⟩
      have hstays := ((takeOut_eq_some (hj.trans_eq (hlimit.trans hmax.symm))).mp
        ((congrFun (removeClientsExclude_fixed _).2.1 j).symm.trans hafter)).2
      exact Bool.false_ne_true (hstays.symm.trans hleaves)
    · refine (removeClientsExclude_removed hkeeps.startNew.1 _ ?_ hleaves).trans ?_
      · exact mem_slotClients.mpr ⟨i, hi.trans_eq hmax.symm, hheld⟩
      · rw [hclient]
  case beyond =>
    intro i hi
    exact (hbeyond i hi).trans (hfits.beyond i hi)

end Update

/-! ## Runs -/

theorem next_valid (hvalid : manager.Valid) (event : Event) : (manager.next event).Valid := by
  cases event with
  | update snPeerids => exact updateSNList_valid hvalid snPeerids
  | sweep => exact (hvalid.takeOut _).modifyAll PingClient.release_snPeerid _
  | status client status => exact hvalid.modify (PingClient.setStatus_snPeerid status) client
  | addRef client => exact hvalid.modify PingClient.addRef_snPeerid client
  | release client => exact hvalid.modify PingClient.release_snPeerid client

/-- The slots are valid whatever happens to an empty manager. -/
theorem run_valid (onlineSnLimit : UInt32) (events : List Event) :
    (events.foldl next (init onlineSnLimit)).Valid := by
  have hstart := init_valid onlineSnLimit
  generalize init onlineSnLimit = manager at hstart
  induction events generalizing manager with
  | nil => exact hstart
  | cons event _ ih => exact ih _ (next_valid hstart event)

/-! ## An update without a free slot -/

def snPeer (n : UInt8) : Peerid :=
  .ofList BDT_PEERID_LENGTH [n]

/-- Of two super nodes one is removed, and the other one, which is named twice, is kept. -/
theorem updated_twice :
    ((init 3).UpdateSNList [snPeer 1, snPeer 2]).Updated [snPeer 2, snPeer 3, snPeer 2]
      (((init 3).UpdateSNList [snPeer 1, snPeer 2]).UpdateSNList [snPeer 2, snPeer 3, snPeer 2]) :=
  (updated_iff (updateSNList_valid (init_valid 3) _) _).mpr (by decide +kernel)

/-- The six slots are used, and the list changes to another super node: its client is put into a
seventh one, where it is never found again. -/
theorem no_slot_left :
    ¬ ∀ manager : PingManager, manager.Valid → ∀ snPeerids : List Peerid,
      manager.Updated snPeerids (manager.UpdateSNList snPeerids) := by
  intro hupdated
  let sixPeers := [snPeer 1, snPeer 2, snPeer 3, snPeer 4, snPeer 5, snPeer 6]
  have hbeyond := (hupdated ((init 3).UpdateSNList sixPeers)
    (updateSNList_valid (init_valid 3) sixPeers) [snPeer 7]).beyond 6
      (by decide +kernel)
  revert hbeyond
  decide +kernel

end PingManager

end Bdt

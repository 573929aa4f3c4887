import Bdt.History.PeerUpdaterRuns

/-!
# The lifetime of the peers

Whoever refers to a peer refers to one that was not freed. The map, the `snVector`s and whoever holds a
reference can rely on it in every run. An operation that limits the count before it takes its own
references can not: `peer_history_lifetime`.
-/

namespace Bdt

open Base

/-- Whether a call reads the variables of its operation. -/
def UpdaterCall.readsNodes (isUsed : Bool) : UpdaterCall → Bool
  | superNode .. | countSuperNodes | updateSuperNodeInfo _ | updateConnect .. | startTransfer ..
  | addOuterSuperNode _ | addOuterSnPeerid _ | setLocal _ => true
  | addRef => isUsed
  | makeSure .. | useLocal | limitPeerCount | addOuter _ | relink .. => false

namespace PeerUpdaterRun

/-- The nodes that the operation in progress goes on to use. -/
def inUse (run : PeerUpdaterRun) : List NodeId :=
  if run.pending.any (·.readsNodes run.isUsed) then run.varNodes else []

/-- No node is freed that someone refers to. -/
structure Alive (run : PeerUpdaterRun) : Prop where
  mapped : ∀ entry ∈ run.updater.peeridMap, ∃ node, run.updater.node entry.peerHistoryNode = some node
  snVector : ∀ i node, run.updater.node i = some node →
    ∀ sn ∈ node.snVector, ∃ snNode, run.updater.node sn = some snNode
  held : ∀ i ∈ run.held, ∃ node, run.updater.node i = some node
  inUse : ∀ i ∈ run.inUse, ∃ node, run.updater.node i = some node

end PeerUpdaterRun

/-- If the next call is the limit, it spares the nodes that the operation goes on to use. -/
def UpdaterEvent.SparesUsed (run : PeerUpdaterRun) : UpdaterEvent → Prop
  | call => run.pending.head? = some .limitPeerCount → ∀ i ∈ run.inUse, run.updater.LimitSpares i
  | _ => True

namespace PeerUpdaterRun

variable {run next : PeerUpdaterRun} {shape other : PeerShape} {call : UpdaterCall}
  {rest : List UpdaterCall} {i : NodeId}

theorem mem_inUse : i ∈ run.inUse ↔
    i ∈ run.varNodes ∧ ∃ call ∈ run.pending, call.readsNodes run.isUsed = true := by
  unfold inUse
  split
  case isTrue hreads => exact ⟨fun hi => ⟨hi, List.any_eq_true.mp hreads⟩, fun hi => hi.1⟩
  case isFalse hreads =>
    exact ⟨fun hi => (List.not_mem_nil hi).elim, fun hi => absurd (List.any_eq_true.mpr hi.2) hreads⟩

theorem inUse_nil (h : run.pending = []) : run.inUse = [] := by
  unfold inUse
  rw [h]
  rfl

/-- What is in use is among the peers. -/
structure InUse (run : PeerUpdaterRun) (shape : PeerShape) : Prop where
  holds : run.Holds shape
  inUse : ∀ i ∈ run.inUse, i ∈ shape.peers

theorem InUse.alive (h : run.InUse shape) : run.Alive where
  mapped := by
    intro entry hentry
    obtain ⟨node, hnode, -⟩ := h.holds.updater.peerids entry hentry
    exact ⟨node, hnode⟩
  snVector := by
    intro i node hnode sn hsn
    obtain ⟨snNode, hsnNode, -⟩ := h.holds.updater.snVector i node hnode sn hsn
    exact ⟨snNode, hsnNode⟩
  held := by
    intro i hi
    refine h.holds.updater.node_of_mem (h.holds.updater.mem_of_reference ?_)
    exact List.mem_append_left _ (List.mem_append_right _ hi)
  inUse := fun i hi => h.holds.updater.node_of_mem (h.inUse i hi)

theorem InUse.of_nil (h : run.Holds shape) (hpending : run.pending = []) : run.InUse shape :=
  ⟨h, fun i hi => by rw [inUse_nil hpending] at hi; cases hi⟩

theorem InUse.begin (h : run.Holds shape) {calls : List UpdaterCall}
    (hfits : UpdaterCall.Fits run.updater shape calls) (hnext : run.begin calls = some next) :
    next.InUse shape := by
  refine ⟨h.begin hfits hnext, fun i hi => ?_⟩
  unfold PeerUpdaterRun.begin at hnext
  split at hnext
  case isTrue =>
    cases hnext
    cases (mem_inUse.mp hi).1
  case isFalse => cases hnext

theorem InUse.perform (h : run.InUse shape) (hpending : run.pending = call :: rest)
    (hne : call ≠ .limitPeerCount)
    (hnext : PeerUpdaterRun.perform { run with pending := rest } call = some next) :
    ∃ other, next.InUse other := by
  obtain ⟨other, hholds, -, hadds⟩ := h.holds.perform hpending hnext
  refine ⟨other, hholds, fun i hi => ?_⟩
  rcases (hadds hne).varNodes i (mem_inUse.mp hi).1 with hold | hnew
  · refine (hadds hne).peers ?_
    rcases h.holds.named with hpeers | hrefs
    · exact hpeers i hold
    -- only references are left, and they are the same as before
    have hcall : call = .addRef := hrefs call (hpending ▸ List.mem_cons_self)
    subst hcall
    refine h.inUse i (mem_inUse.mpr ⟨hold, ?_⟩)
    obtain ⟨-, later, hlater, hreads⟩ := mem_inUse.mp hi
    have hsame : next.pending = rest ∧ next.isUsed = run.isUsed := by
      have hnext : PeerUpdaterRun.addRef { run with pending := rest } = some next := hnext
      unfold PeerUpdaterRun.addRef at hnext
      split at hnext
      case isTrue =>
        obtain ⟨updater, -, rfl⟩ := Option.map_eq_some_iff.mp hnext
        exact ⟨rfl, rfl⟩
      case isFalse => exact Option.some.inj hnext ▸ ⟨rfl, rfl⟩
    rw [hsame.1] at hlater
    rw [hsame.2] at hreads
    exact ⟨later, hpending ▸ List.mem_cons_of_mem _ hlater, hreads⟩
  · exact hnew

theorem mem_inUse_limit (hpending : run.pending = .limitPeerCount :: rest) (updater : PeerUpdater) :
    i ∈ inUse { run with pending := rest, updater } ↔ i ∈ run.inUse := by
  rw [mem_inUse, mem_inUse, hpending]
  refine and_congr_right fun _ => ⟨fun h => ?_, fun h => ?_⟩
  · obtain ⟨later, hlater, hreads⟩ := h
    exact ⟨later, List.mem_cons_of_mem _ hlater, hreads⟩
  obtain ⟨later, hlater, hreads⟩ := h
  rcases List.mem_cons.mp hlater with rfl | hlater
  · cases hreads
  · exact ⟨later, hlater, hreads⟩

theorem InUse.limit (h : run.InUse shape) (hpending : run.pending = .limitPeerCount :: rest)
    (hspares : ∀ i ∈ run.inUse, run.updater.LimitSpares i)
    (hnext : PeerUpdaterRun.perform { run with pending := rest } .limitPeerCount = some next) :
    ∃ other, next.InUse other := by
  obtain ⟨other, hholds, -⟩ := h.holds.perform hpending hnext
  obtain ⟨updater, peers, bound, gap, hlimit, -, hupdater, hpeers, -⟩ := h.holds.updater.limitPeerCount
  obtain ⟨limited, hlimited, rfl⟩ := Option.map_eq_some_iff.mp hnext
  obtain rfl := Option.some.inj (hlimit.symm.trans hlimited)
  refine ⟨other, hholds, fun i hi => ?_⟩
  have hold : i ∈ run.inUse := (mem_inUse_limit hpending updater).mp hi
  obtain ⟨node, hnode⟩ :=
    hupdater.node_of_mem ((hpeers i (h.inUse i hold)).mpr (hspares i hold))
  exact hholds.updater.peers_of_node i node hnode

theorem findByPeerid_pending {peerid : Peerid} (hnext : run.findByPeerid peerid = some next) :
    next.pending = run.pending := by
  unfold findByPeerid at hnext
  split at hnext
  case h_1 => exact Option.some.inj hnext ▸ rfl
  case h_2 =>
    obtain ⟨updater, -, rfl⟩ := Option.map_eq_some_iff.mp hnext
    rfl

theorem next_inUse (h : run.InUse shape) {event : UpdaterEvent} (hspares : event.SparesUsed run)
    (hnext : run.next event = some next) : ∃ other, next.InUse other := by
  obtain ⟨calls, hfits, hbegin⟩ | ⟨peerid, rfl, hpending, hfind⟩ | ⟨call, rest, rfl, hpending, hcall⟩ |
    ⟨updater, held, rfl, hholds⟩ := next_cases h.holds hnext
  · exact ⟨shape, .begin h.holds hfits hbegin⟩
  · obtain ⟨other, hholds, -⟩ := findByPeerid_holds h.holds hpending hfind
    exact ⟨other, .of_nil hholds ((findByPeerid_pending hfind).trans hpending)⟩
  · by_cases hlimit : call = .limitPeerCount
    · subst hlimit
      exact h.limit hpending (hspares (congrArg List.head? hpending)) hcall
    · exact h.perform hpending hlimit hcall
  · exact ⟨shape, hholds, h.inUse⟩

theorem limit_frees (h : run.Holds shape) (halive : run.Alive)
    (hpending : run.pending = .limitPeerCount :: rest) (hi : i ∈ run.inUse)
    (hspares : ¬ run.updater.LimitSpares i) : ∃ next, run.next .call = some next ∧ ¬ next.Alive := by
  obtain ⟨updater, peers, bound, gap, hlimit, hlimited, -, hpeers, -⟩ := h.updater.limitPeerCount
  refine ⟨{ run with pending := rest, updater }, ?_, fun hnext => ?_⟩
  · simp only [PeerUpdaterRun.next, hpending]
    show (run.updater.limitPeerCount.map _) = _
    rw [hlimit]
    rfl
  obtain ⟨old, hold⟩ := halive.inUse i hi
  obtain ⟨node, hnode⟩ := hnext.inUse i ((mem_inUse_limit hpending updater).mpr hi)
  have hpeer : i ∈ shape.peers := h.updater.peers_of_node i old hold
  have hgone : i ∉ peers := fun hmem => hspares ((hpeers i hpeer).mp hmem)
  have hnone : updater.node i = none := (hlimited.node i).trans (if_neg hgone)
  cases hnone.symm.trans hnode

/-- No node is freed that someone refers to or an operation goes on to use, if and only if each limit
spares the nodes that its operation goes on to use. -/
theorem peer_history_lifetime (localPeerInfo : PeerInfo) (isSuperNode : Bool)
    (peerCapacity : UInt32) (now : Int) (events : List UpdaterEvent) :
    Throughout PeerUpdaterRun.next Alive (start localPeerInfo isSuperNode peerCapacity now) events ↔
      StepsMeet PeerUpdaterRun.next (fun run event => event.SparesUsed run)
        (start localPeerInfo isSuperNode peerCapacity now) events := by
  have hstart := start_holds localPeerInfo isSuperNode peerCapacity now
  have hkept : ∀ (run : PeerUpdaterRun) event next, (∃ shape, run.InUse shape) →
      event.SparesUsed run → run.next event = some next → ∃ shape, next.InUse shape := by
    intro run event next h hspares hnext
    obtain ⟨shape, h⟩ := h
    exact next_inUse h hspares hnext
  refine throughout_iff ⟨{}, hstart, fun i hi => nomatch (mem_inUse.mp hi).1⟩ ?_ hkept ?_
  · exact fun run h => h.elim fun shape h => h.alive
  intro front run event hfront halive hnot
  obtain ⟨shape, h⟩ := exec_holds hstart hfront
  cases event with
  | call =>
    simp only [UpdaterEvent.SparesUsed, not_forall] at hnot
    obtain ⟨hhead, i, hi, hspares⟩ := hnot
    obtain ⟨rest, hpending⟩ := List.head?_eq_some_iff.mp hhead
    exact limit_frees h halive hpending hi hspares
  | _ => exact absurd trivial hnot

/-- With a capacity of one, the limit frees the peer that the super node found. -/
theorem found_peer_freed :
    ¬ ∀ (localPeerInfo : PeerInfo) (isSuperNode : Bool) (peerCapacity : UInt32) (now : Int)
        (events : List UpdaterEvent),
      Throughout PeerUpdaterRun.next Alive (start localPeerInfo isSuperNode peerCapacity now)
        events := by
  intro h
  obtain ⟨run, hrun, hused, hnone⟩ : ∃ run,
      exec PeerUpdaterRun.next (start (plainPeerInfo 1) false 1 1000)
        ([.call, .call, .foundPeerFromSuperNode (plainPeerInfo 3) (plainPeerInfo 2) 1001] ++
          .replicate 5 .call) = some run ∧
      1 ∈ run.inUse ∧ (run.updater.node 1).isNone = true :=
    exists_of_test _ (by decide +kernel) fun _ _ => id
  obtain ⟨node, hnode⟩ :=
    (h (plainPeerInfo 1) false 1 1000 _ _ [] run (List.append_nil _).symm hrun).inUse 1 hused
  rw [hnode] at hnone
  cases hnone

end PeerUpdaterRun

end Bdt

import Bdt.Base.Generations
import Bdt.Global.PeerFinder
import Bdt.SuperNode.PeerInfoBridge
import Bdt.SuperNode.ServerIsolation

/-!
# How long a super node remembers a peer

The peers of `peer_manager.ts` over runs of `peerHeartbeat` and `getPeer`. A run logs its heartbeats and
switches, and `peers_retained` reads off the log who is remembered. In a call the heartbeat comes
before the switch, so that a switch in the same call is one since the heartbeat.
-/

namespace Bdt

open Base Option

/-! ## The create time of a peer info -/

/-- `compareUint64`. -/
def compareUint64 (left right : Uint64Object) : Int :=
  let hSub := (left.h.toNat : Int) - right.h.toNat
  if hSub ≠ 0 then hSub else (left.l.toNat : Int) - right.l.toNat

theorem compareUint64_pos (left right : UInt64) :
    0 < compareUint64 (uint64C2js left) (uint64C2js right) ↔ right < left := by
  have hparts : ∀ u64 : UInt64,
      u64.toNat = (uint64C2js u64).h.toNat * 2 ^ 32 + (uint64C2js u64).l.toNat := by
    intro u64
    have h := u64.toNat_lt
    have hhigh : (uint64C2js u64).h.toNat = u64.toNat / 2 ^ 32 := by
      show (u64 >>> 32).toUInt32.toNat = _
      rw [UInt64.toNat_toUInt32, UInt64.toNat_shiftRight, Nat.shiftRight_eq_div_pow]
      show u64.toNat / 2 ^ 32 % 2 ^ 32 = _
      omega
    have hlow : (uint64C2js u64).l.toNat = u64.toNat % 2 ^ 32 := by
      show (u64 &&& 0xFFFFFFFF).toUInt32.toNat = _
      rw [UInt64.toNat_toUInt32, UInt64.toNat_and]
      show (u64.toNat &&& (2 ^ 32 - 1)) % 2 ^ 32 = _
      rw [Nat.and_two_pow_sub_one_eq_mod, Nat.mod_mod]
    rw [hhigh, hlow]
    omega
  have hleft := (uint64C2js left).l.toNat_lt
  have hright := (uint64C2js right).l.toNat_lt
  rw [UInt64.lt_iff_toNat_lt, hparts left, hparts right]
  unfold compareUint64
  dsimp only
  split <;> omega

theorem SnPeer.updatePeerInfo_eq (peer : SnPeer) (info : JsPeerInfo) :
    peer.updatePeerInfo info =
      if 0 < compareUint64 (uint64C2js info.createTime) (uint64C2js peer.peerInfo.createTime) then
        { peer with peerInfo := info }
      else peer := by
  exact if_congr (compareUint64_pos _ _).symm rfl rfl

/-! ## The runs -/

inductive PeerManagerCall where
  | peerHeartbeat (peerInfo : JsPeerInfo) (now : Nat)
  | getPeer (peerid : Peerid) (now : Nat)

/-- The manager, the time of the last call, and what was logged. -/
structure PeerManagerRun where
  manager : PeerManager
  clock : Nat
  log : List (GenerationEvent Peerid) := []

namespace PeerManager

/-- A heartbeat at this time switches the generations. -/
def switches (manager : PeerManager) (timeout now : Nat) : Bool :=
  now - manager.lastKnockTime > timeout

end PeerManager

namespace PeerManagerRun

/-- After the constructor. -/
def start (created : Nat) : PeerManagerRun where
  manager := { lastKnockTime := created }
  clock := created

/-- The calls come at times that do not decrease. -/
def next (timeout : Nat) (run : PeerManagerRun) : PeerManagerCall → Option PeerManagerRun
  | .peerHeartbeat peerInfo now =>
    if run.clock ≤ now then
      some {
        manager := (run.manager.peerHeartbeat timeout now peerInfo).1
        clock := now
        log := (if run.manager.switches timeout now then [.switch now] else []) ++
          .beat peerInfo.peerid now :: run.log }
    else none
  | .getPeer _ now => if run.clock ≤ now then some { run with clock := now } else none

/-- `getPeer` finds a peer. -/
def Remembers (peerid : Peerid) (run : PeerManagerRun) : Prop :=
  (run.manager.getPeer peerid).isSome

def createTime (run : PeerManagerRun) (peerid : Peerid) : Option UInt64 :=
  (run.manager.entry peerid).map (·.peerInfo.createTime)

structure Retained (timeout : Nat) (run : PeerManagerRun) : Prop where
  oneGeneration : ∀ peerid, mapGet run.manager.activePeers peerid = none ∨
    mapGet run.manager.knockPeers peerid = none
  found : ∀ peerid beat, lastBeat peerid run.log = some beat → run.clock ≤ beat + timeout →
    ∃ i, run.manager.getPeer peerid = some i ∧ run.manager.Owns peerid i
  remembered : ∀ peerid, run.Remembers peerid ↔
    ∃ switches < 2, switchesSince peerid run.log = some switches

/-! ## What holds between the calls -/

/-- The generations have the peers of age zero and one. -/
structure Inv (timeout created : Nat) (run : PeerManagerRun) : Prop where
  keyed : run.manager.Keyed
  active : ∀ peerid, (mapGet run.manager.activePeers peerid).isSome ↔
    switchesSince peerid run.log = some 0
  knock : ∀ peerid, (mapGet run.manager.knockPeers peerid).isSome ↔
    switchesSince peerid run.log = some 1
  spaced : Spaced timeout created run.log
  lastKnockTime : run.manager.lastKnockTime = lastSwitch created run.log
  beats : ∀ peerid beat, lastBeat peerid run.log = some beat → beat ≤ run.clock
  clock : lastSwitch created run.log ≤ run.clock

variable {run after last : PeerManagerRun} {timeout created now : Nat} {peerid : Peerid}
  {peerInfo : JsPeerInfo}

theorem Inv.retained (h : run.Inv timeout created) : run.Retained timeout := by
  have hremembered : ∀ peerid, run.Remembers peerid ↔
      ∃ switches < 2, switchesSince peerid run.log = some switches := by
    intro peerid
    have hsome : run.Remembers peerid ↔ (mapGet run.manager.activePeers peerid).isSome ∨
        (mapGet run.manager.knockPeers peerid).isSome := by
      unfold Remembers PeerManager.getPeer
      rw [isSome_or, Bool.or_eq_true]
    rw [hsome, h.active, h.knock]
    constructor
    · rintro (hzero | hone)
      · exact ⟨0, by omega, hzero⟩
      · exact ⟨1, by omega, hone⟩
    rintro ⟨age, hlt, hage⟩
    obtain rfl | rfl : age = 0 ∨ age = 1 := by omega
    · exact .inl hage
    · exact .inr hage
  refine ⟨fun peerid => ?_, fun peerid beat hbeat hclock => ?_, hremembered⟩
  · by_contra hboth
    rw [not_or, ← ne_eq, ← ne_eq, ← isSome_iff_ne_none, ← isSome_iff_ne_none,
      h.active, h.knock] at hboth
    exact absurd (hboth.1.symm.trans hboth.2) (by decide)
  obtain ⟨age, hage⟩ := exists_switchesSince hbeat
  obtain ⟨last, hlast, -, hforgotten⟩ := h.spaced.expires hage
  obtain rfl := some.inj (hbeat.symm.trans hlast)
  have hyoung : age < 2 := by
    by_contra hold
    have hswitch := h.clock
    omega
  obtain ⟨i, hi⟩ := isSome_iff_exists.mp ((hremembered peerid).mpr ⟨age, hyoung, hage⟩)
  exact ⟨i, hi, h.keyed.getPeer hi⟩

/-! ## One call -/

end PeerManagerRun

namespace PeerManager

variable {manager : PeerManager} {timeout now : Nat} {peerInfo : JsPeerInfo} {other : Peerid}

section

variable (manager : PeerManager) (peerInfo : JsPeerInfo) (now : Nat)

theorem makeSurePeer_active
    (other : Peerid) :
    (mapGet (manager.makeSurePeer peerInfo now).1.activePeers other).isSome ↔
      peerInfo.peerid = other ∨ (mapGet manager.activePeers other).isSome := by
  unfold makeSurePeer
  dsimp only
  split
  case h_1 i hactive =>
    refine ⟨.inr, ?_⟩
    rintro (rfl | hother)
    · exact isSome_of_eq_some hactive
    · exact hother
  case h_2 =>
  have hset : ∀ i, (mapGet (mapSet manager.activePeers peerInfo.peerid i) other).isSome ↔
      peerInfo.peerid = other ∨ (mapGet manager.activePeers other).isSome := by
    intro i
    rw [mapGet_set]
    split <;> simp [*]
  split
  case h_1 i hknock => exact hset i
  case h_2 => exact hset _

theorem makeSurePeer_knock
    (hone : mapGet manager.activePeers peerInfo.peerid = none ∨
      mapGet manager.knockPeers peerInfo.peerid = none) (other : Peerid) :
    (mapGet (manager.makeSurePeer peerInfo now).1.knockPeers other).isSome ↔
      peerInfo.peerid ≠ other ∧ (mapGet manager.knockPeers other).isSome := by
  have hleft : mapGet manager.knockPeers peerInfo.peerid = none →
      ((mapGet manager.knockPeers other).isSome ↔
        peerInfo.peerid ≠ other ∧ (mapGet manager.knockPeers other).isSome) := by
    intro hnone
    refine ⟨fun hsome => ⟨?_, hsome⟩, And.right⟩
    rintro rfl
    rw [hnone] at hsome
    cases hsome
  unfold makeSurePeer
  dsimp only
  split
  case h_1 i hactive =>
    refine hleft (hone.resolve_left ?_)
    rw [hactive]
    exact some_ne_none i
  case h_2 =>
  split
  case h_1 i hknock =>
    show (mapGet (mapDelete manager.knockPeers peerInfo.peerid) other).isSome ↔ _
    rw [mapGet_delete]
    split <;> simp [*]
  case h_2 hnone => exact hleft hnone

theorem makeSurePeer_lastKnockTime :
    (manager.makeSurePeer peerInfo now).1.lastKnockTime = manager.lastKnockTime := by
  unfold makeSurePeer
  dsimp only
  split
  · rfl
  · split <;> rfl

end

end PeerManager

namespace PeerManagerRun

variable {run after last : PeerManagerRun} {timeout created now : Nat} {peerid : Peerid}
  {peerInfo : JsPeerInfo} {manager : PeerManager} {log : List (GenerationEvent Peerid)}

theorem Inv.beat (h : run.Inv timeout created) (hclock : run.clock ≤ now) (peerInfo : JsPeerInfo) :
    Inv timeout created
      { manager :=
          { (run.manager.makeSurePeer peerInfo now).1 with
            peers := (run.manager.makeSurePeer peerInfo now).1.peers.modify
              (run.manager.makeSurePeer peerInfo now).2 (·.heartbeat now) }
        clock := now
        log := .beat peerInfo.peerid now :: run.log } := by
  have hactive := run.manager.makeSurePeer_active peerInfo now
  have hknock := run.manager.makeSurePeer_knock peerInfo now (h.retained.oneGeneration _)
  obtain ⟨hmade, howns⟩ := PeerManager.makeSurePeer_frame h.keyed peerInfo now
  have hlast : lastSwitch created run.log ≤ now := Nat.le_trans h.clock hclock
  constructor
  case keyed =>
    have hbeaten := PeerManager.frame_modify (f := (·.heartbeat now)) hmade.keyed howns
      fun _ hpeer => hpeer
    exact hbeaten.1.keyed
  case active =>
    intro peerid
    refine (hactive peerid).trans ?_
    rw [h.active, switchesSince_beat]
    by_cases heq : peerInfo.peerid = peerid <;> simp [heq]
  case knock =>
    intro peerid
    refine (hknock peerid).trans ?_
    rw [h.knock, switchesSince_beat]
    by_cases heq : peerInfo.peerid = peerid <;> simp [heq]
  case spaced => exact ⟨h.spaced, hlast⟩
  case lastKnockTime =>
    exact (run.manager.makeSurePeer_lastKnockTime peerInfo now).trans h.lastKnockTime
  case beats =>
    intro peerid beat hbeat
    rw [lastBeat_beat] at hbeat
    split at hbeat
    case isTrue =>
      cases hbeat
      exact Nat.le_refl _
    case isFalse => exact Nat.le_trans (h.beats peerid beat hbeat) hclock
  case clock => exact hlast

theorem Inv.rotate (h : Inv timeout created ⟨manager, now, log⟩) :
    Inv timeout created
      ⟨manager.rotate timeout now, now,
        (if manager.switches timeout now then [.switch now] else []) ++ log⟩ := by
  have hkeyed := (PeerManager.rotate_keyed h.keyed timeout now).1
  by_cases hlate : now - manager.lastKnockTime > timeout
  · have hswitches : manager.switches timeout now = true := decide_eq_true hlate
    have hlast := h.lastKnockTime
    dsimp only at hlast
    rw [if_pos hswitches, List.singleton_append]
    unfold PeerManager.rotate at hkeyed ⊢
    rw [if_pos hlate] at hkeyed ⊢
    exact {
      keyed := hkeyed
      active := fun peerid => iff_of_false Bool.false_ne_true (switchesSince_switch_ne_zero _ _ _)
      knock := fun peerid => (h.active peerid).trans (switchesSince_switch_eq_some peerid now 0 log).symm
      spaced := ⟨h.spaced, by omega, h.beats⟩
      lastKnockTime := rfl
      beats := h.beats
      clock := Nat.le_refl _ }
  have hswitches : manager.switches timeout now = false := decide_eq_false hlate
  have hrotate : manager.rotate timeout now = manager := if_neg hlate
  rw [hrotate, hswitches]
  exact h

theorem Inv.next {call : PeerManagerCall} (h : run.Inv timeout created)
    (hnext : next timeout run call = some after) : after.Inv timeout created := by
  cases call with
  | peerHeartbeat peerInfo now =>
    obtain ⟨hclock, hnext⟩ := ite_none_right_eq_some.mp hnext
    cases hnext
    have hrotate := (h.beat hclock peerInfo).rotate
    have hsame : PeerManager.switches { (run.manager.makeSurePeer peerInfo now).1 with
        peers := (run.manager.makeSurePeer peerInfo now).1.peers.modify
          (run.manager.makeSurePeer peerInfo now).2 (·.heartbeat now) } timeout now =
        run.manager.switches timeout now := by
      unfold PeerManager.switches
      rw [run.manager.makeSurePeer_lastKnockTime]
    rw [hsame] at hrotate
    rw [PeerManager.peerHeartbeat_eq]
    exact hrotate
  | getPeer peerid =>
    obtain ⟨hclock, hnext⟩ := ite_none_right_eq_some.mp hnext
    cases hnext
    exact { h with
      beats := fun peerid beat hbeat => Nat.le_trans (h.beats peerid beat hbeat) hclock
      clock := Nat.le_trans h.clock hclock }

theorem start_inv (timeout created : Nat) : (start created).Inv timeout created where
  keyed := ⟨nofun, nofun⟩
  active := by simp [start, switchesSince]
  knock := by simp [start, switchesSince]
  spaced := trivial
  lastKnockTime := rfl
  beats := nofun
  clock := Nat.le_refl _

end PeerManagerRun

/-! ## The create times -/

theorem SnPeer.updatePeerInfo_createTime (peer : SnPeer) (info : JsPeerInfo) :
    peer.peerInfo.createTime ≤ (peer.updatePeerInfo info).peerInfo.createTime := by
  unfold updatePeerInfo
  split
  case isTrue hnewer => exact UInt64.le_of_lt hnewer
  case isFalse => exact UInt64.le_refl _

namespace PeerManager

variable {manager : PeerManager} {timeout now : Nat} {peerInfo : JsPeerInfo} {peerid : Peerid}
  {before after : SnPeer}

theorem makeSurePeer_own (h : manager.entry peerInfo.peerid = some before) (now : Nat) :
    mapGet (manager.makeSurePeer peerInfo now).1.activePeers peerInfo.peerid =
        some (manager.makeSurePeer peerInfo now).2 ∧
      (manager.makeSurePeer peerInfo now).1.peers[(manager.makeSurePeer peerInfo now).2]? =
        some (before.updatePeerInfo peerInfo) := by
  obtain ⟨i, hget, hpeer⟩ := bind_eq_some_iff.mp h
  have hmodify : (manager.peers.modify i (·.updatePeerInfo peerInfo))[i]? =
      some (before.updatePeerInfo peerInfo) := by
    rw [List.getElem?_modify_eq, hpeer]
    rfl
  rcases or_eq_some_iff.mp hget with hactive | ⟨hnone, hknock⟩
  · unfold makeSurePeer
    dsimp only
    rw [hactive]
    exact ⟨hactive, hmodify⟩
  unfold makeSurePeer
  dsimp only
  rw [hnone, hknock]
  exact ⟨(mapGet_set _ _ _ _).trans (if_pos rfl), hmodify⟩

theorem rotate_entry (manager : PeerManager) {i : Nat}
    (hactive : mapGet manager.activePeers peerid = some i)
    (timeout now : Nat) :
    (manager.rotate timeout now).entry peerid = manager.peers[i]? := by
  unfold rotate
  split
  · show ((mapGet [] peerid).or (mapGet manager.activePeers peerid)).bind (manager.peers[·]?) = _
    rw [mapGet_nil, none_or, hactive]
    rfl
  · show ((mapGet manager.activePeers peerid).or _).bind (manager.peers[·]?) = _
    rw [hactive]
    rfl

theorem peerHeartbeat_createTime (h : manager.Keyed) (hbefore : manager.entry peerid = some before)
    (hafter : (manager.peerHeartbeat timeout now peerInfo).1.entry peerid = some after) :
    before.peerInfo.createTime ≤ after.peerInfo.createTime := by
  by_cases hown : peerid = peerInfo.peerid
  · subst hown
    obtain ⟨hactive, hpeer⟩ := makeSurePeer_own hbefore now
    have hentry : (manager.peerHeartbeat timeout now peerInfo).1.entry peerInfo.peerid =
        some ((before.updatePeerInfo peerInfo).heartbeat now) := by
      refine (rotate_entry { (manager.makeSurePeer peerInfo now).1 with
        peers := (manager.makeSurePeer peerInfo now).1.peers.modify
          (manager.makeSurePeer peerInfo now).2 (·.heartbeat now) } hactive timeout _).trans ?_
      rw [List.getElem?_modify_eq, hpeer]
      rfl
    obtain rfl := some.inj (hentry.symm.trans hafter)
    exact before.updatePeerInfo_createTime peerInfo
  rcases (peerHeartbeat_frame h timeout now peerInfo).2.2 peerid hown with hnone | hsame
  · exact absurd (hafter.symm.trans hnone) (some_ne_none after)
  · obtain rfl := some.inj (hafter.symm.trans (hsame.trans hbefore))
    exact UInt64.le_refl _

end PeerManager

namespace PeerManagerRun

variable {run mid after last : PeerManagerRun} {timeout created : Nat} {peerid : Peerid}

theorem Inv.createTime_le {call : PeerManagerCall} {before then' : UInt64}
    (h : run.Inv timeout created) (hnext : PeerManagerRun.next timeout run call = some after)
    (hbefore : run.createTime peerid = some before) (hthen : after.createTime peerid = some then') :
    before ≤ then' := by
  obtain ⟨peer, hpeer, rfl⟩ := map_eq_some_iff.mp hbefore
  obtain ⟨other, hother, rfl⟩ := map_eq_some_iff.mp hthen
  cases call with
  | peerHeartbeat =>
    obtain ⟨-, hnext⟩ := ite_none_right_eq_some.mp hnext
    cases hnext
    exact PeerManager.peerHeartbeat_createTime h.keyed hpeer hother
  | getPeer =>
    obtain ⟨-, hnext⟩ := ite_none_right_eq_some.mp hnext
    cases hnext
    obtain rfl := some.inj (hpeer.symm.trans hother)
    exact UInt64.le_refl _

theorem Inv.exists_createTime (h : run.Inv timeout created) (hremembers : run.Remembers peerid) :
    ∃ createTime, run.createTime peerid = some createTime := by
  obtain ⟨i, hi⟩ := isSome_iff_exists.mp hremembers
  obtain ⟨peer, hpeer, -⟩ := h.keyed.getPeer hi
  refine ⟨peer.peerInfo.createTime, ?_⟩
  unfold createTime PeerManager.entry
  rw [hi, bind_some, hpeer]
  rfl

theorem Inv.createTime_run {calls : List PeerManagerCall} {before then' : UInt64}
    (h : run.Inv timeout created)
    (hremembers : Throughout (PeerManagerRun.next timeout) (Remembers peerid) run calls)
    (hrun : exec (PeerManagerRun.next timeout) run calls = some last)
    (hbefore : run.createTime peerid = some before) (hthen : last.createTime peerid = some then') :
    before ≤ then' := by
  induction calls generalizing run before with
  | nil =>
    cases hrun
    obtain rfl := some.inj (hbefore.symm.trans hthen)
    exact UInt64.le_refl _
  | cons call calls ih =>
    obtain ⟨mid, hmid, hrest⟩ := exec_cons hrun
    have hinv := h.next hmid
    have hlater := hremembers.rest hmid
    obtain ⟨between, hbetween⟩ :=
      hinv.exists_createTime (hlater [] calls mid rfl rfl)
    exact UInt64.le_trans (h.createTime_le hmid hbefore hbetween) (ih hinv hlater hrest hbetween)

/-- A peer is in one generation at most, it is found for as long as the timeout after its last
heartbeat, and forgotten with the second switch after that; and while it is remembered its create time
does not decrease. -/
theorem peers_retained (timeout created : Nat) (calls : List PeerManagerCall) (last : PeerManagerRun)
    (hrun : exec (next timeout) (start created) calls = some last) :
    last.Retained timeout ∧
      ∀ peerid front back mid before then', calls = front ++ back →
        exec (next timeout) (start created) front = some mid →
        Throughout (next timeout) (Remembers peerid) mid back →
        mid.createTime peerid = some before → last.createTime peerid = some then' →
        before ≤ then' := by
  have hinv : ∀ calls run, exec (next timeout) (start created) calls = some run →
      run.Inv timeout created := fun calls run =>
    exec_preserves (fun _ _ _ h hnext => h.next hnext) (start_inv timeout created)
  refine ⟨(hinv calls last hrun).retained, ?_⟩
  rintro peerid front back mid before then' rfl hmid hremembers hbefore hthen
  have hback : exec (next timeout) mid back = some last := by
    rw [exec_append, hmid] at hrun
    exact hrun
  exact (hinv front mid hmid).createTime_run hremembers hback hbefore hthen

/-- The pings of a peer that has made a newer peer info. -/
def pings : List PeerManagerCall :=
  [1, 2].map fun createTime =>
    .peerHeartbeat ⟨.zero BDT_PEERID_LENGTH, PeerFinderRun.infoOf createTime⟩ 5

/-- The peer is kept, and its peer info has become newer. -/
theorem peers_retained_pings :
    ∃ last, exec (next 3) (start 0) pings = some last ∧ last.Retained 3 ∧ (1 : UInt64) ≤ 2 := by
  obtain ⟨hretained, hcreateTime⟩ := peers_retained 3 0 pings _ rfl
  refine ⟨_, rfl, hretained, ?_⟩
  refine hcreateTime (.zero BDT_PEERID_LENGTH) (pings.take 1) (pings.drop 1) _ 1 2 rfl rfl ?_ rfl rfl
  intro front back state heq hstate
  cases front with
  | nil =>
    cases hstate
    rfl
  | cons =>
    obtain ⟨rfl, hrest⟩ := List.cons.inj heq
    obtain rfl := (List.append_eq_nil_iff.mp hrest.symm).1
    cases hstate
    rfl

end PeerManagerRun

end Bdt

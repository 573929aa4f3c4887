import Mathlib.Algebra.Order.Ring.Int
import Mathlib.Data.List.Perm.Basic

/-!
# The request queue of the SQLite storage

A request of the storage is a node. The nodes of the add requests and those of the update requests
wait in two queues, and a load and a close wait in a slot each. `SqlitePopIONode` takes the close
first, then the load, then the adds, then the updates.

`push_pushed` and `pop_some` say what the two functions do to the nodes that wait, and `Placed` that
every node waits where its type belongs.
-/

namespace Bdt

open List Option

/-- No request has the types of the two statements that a load by peerid also runs. -/
inductive SqliteIOType where
  | close
  | load
  | addPeer
  | setConstInfo
  | addConnect
  | updateConnect
  | addSuperNode
  | updateSuperNode
  | addKey
  | updateKey
  | loadPeerHistoryByPeerid
  | loadHistoryConnectInfoByPeerid
  | loadSnClientMapByClient
  | loadTunnelHistoryTcpLog
  | addTunnelHistoryTcpLog
  | updateTunnelHistoryTcpLog
  deriving DecidableEq

namespace SqliteIOType

/-- The types of `addIOQueue`. -/
def isAdd : SqliteIOType → Bool
  | addConnect | addPeer | addSuperNode | addKey | addTunnelHistoryTcpLog => true
  | _ => false

/-- The types of `updateIOQueue`. -/
def isUpdate : SqliteIOType → Bool
  | updateConnect | updateKey | updateSuperNode | updateTunnelHistoryTcpLog
  | loadTunnelHistoryTcpLog | loadPeerHistoryByPeerid => true
  | _ => false

/-- The types that `SqlitePushIONode` knows. -/
def known (t : SqliteIOType) : Bool :=
  t.isAdd || t.isUpdate || t == load || t == close

end SqliteIOType

structure SqliteIOQueueNode (α : Type) where
  type : SqliteIOType
  content : α
  deriving DecidableEq

/-- The queues of a `SqliteStorage`. -/
structure SqliteIOQueues (α : Type) where
  closeIONode : Option (SqliteIOQueueNode α) := none
  loadIONode : Option (SqliteIOQueueNode α) := none
  addIOQueue : List (SqliteIOQueueNode α) := []
  updateIOQueue : List (SqliteIOQueueNode α) := []
  ioCount : UInt32 := 0

variable {α : Type}

/-- The two ways to fail: the slot is taken, or the type is unknown, which is an assertion. -/
inductive SqlitePushResult where
  | pushed
  | occupied
  | unknownType
  deriving DecidableEq

def sqlitePushIONode (q : SqliteIOQueues α) (ioNode : SqliteIOQueueNode α) :
    SqliteIOQueues α × SqlitePushResult :=
  if ioNode.type.isAdd then
    ({ q with addIOQueue := q.addIOQueue ++ [ioNode], ioCount := q.ioCount + 1 }, .pushed)
  else if ioNode.type.isUpdate then
    ({ q with updateIOQueue := q.updateIOQueue ++ [ioNode], ioCount := q.ioCount + 1 }, .pushed)
  else if ioNode.type = .load then
    match q.loadIONode with
    | none => ({ q with loadIONode := some ioNode, ioCount := q.ioCount + 1 }, .pushed)
    | some _ => (q, .occupied)
  else if ioNode.type = .close then
    match q.closeIONode with
    | none => ({ q with closeIONode := some ioNode, ioCount := q.ioCount + 1 }, .pushed)
    | some _ => (q, .occupied)
  else (q, .unknownType)

def sqlitePopIONode (q : SqliteIOQueues α) : Option (SqliteIOQueueNode α × SqliteIOQueues α) :=
  match q.closeIONode with
  | some n => some (n, { q with closeIONode := none, ioCount := q.ioCount - 1 })
  | none =>
    match q.loadIONode with
    | some n => some (n, { q with loadIONode := none, ioCount := q.ioCount - 1 })
    | none =>
      match q.addIOQueue with
      | n :: addIOQueue => some (n, { q with addIOQueue, ioCount := q.ioCount - 1 })
      | [] =>
        match q.updateIOQueue with
        | n :: updateIOQueue => some (n, { q with updateIOQueue, ioCount := q.ioCount - 1 })
        | [] => none

namespace SqliteIOQueues

/-- All nodes that wait, in the order in which they are popped. -/
def queued (q : SqliteIOQueues α) : List (SqliteIOQueueNode α) :=
  q.closeIONode.toList ++ q.loadIONode.toList ++ q.addIOQueue ++ q.updateIOQueue

/-- Every node waits where its type belongs. -/
structure Placed (q : SqliteIOQueues α) : Prop where
  close : ∀ n ∈ q.closeIONode, n.type = .close
  load : ∀ n ∈ q.loadIONode, n.type = .load
  add : ∀ n ∈ q.addIOQueue, n.type.isAdd = true
  update : ∀ n ∈ q.updateIOQueue, n.type.isUpdate = true

/-- `ioCount` is the number of the nodes that wait. -/
def Counted (q : SqliteIOQueues α) : Prop := q.ioCount.toNat = q.queued.length

end SqliteIOQueues

open SqliteIOQueues

variable {q q' : SqliteIOQueues α} {n : SqliteIOQueueNode α} {r : SqlitePushResult}

theorem placed_nil : ({} : SqliteIOQueues α).Placed := ⟨nofun, nofun, nofun, nofun⟩

theorem counted_nil : ({} : SqliteIOQueues α).Counted := rfl

theorem SqliteIOType.not_isAdd_of_isUpdate {t : SqliteIOType} (h : t.isUpdate = true) :
    t.isAdd = false := by
  cases t <;> first | rfl | cases h

theorem SqliteIOQueues.Placed.known (h : q.Placed) (hn : n ∈ q.queued) : n.type.known = true := by
  rcases mem_append.mp hn with hn | hn
  · rcases mem_append.mp hn with hn | hn
    · rcases mem_append.mp hn with hn | hn
      · rw [h.close n (mem_toList.mp hn)]
        rfl
      · rw [h.load n (mem_toList.mp hn)]
        rfl
    · unfold SqliteIOType.known
      rw [h.add n hn]
      rfl
  · unfold SqliteIOType.known
    rw [h.update n hn, Bool.or_true]
    rfl

/-! ## Push -/

theorem push_unknown_iff : (sqlitePushIONode q n).2 = .unknownType ↔ n.type.known = false := by
  unfold sqlitePushIONode SqliteIOType.known
  cases n.type <;> simp [SqliteIOType.isAdd, SqliteIOType.isUpdate] <;> split <;> simp

/-- What a successful push does. -/
structure Pushed (q : SqliteIOQueues α) (n : SqliteIOQueueNode α) (q' : SqliteIOQueues α) : Prop where
  queued : q'.queued.Perm (n :: q.queued)
  ioCount : q'.ioCount = q.ioCount + 1
  placed : q.Placed → q'.Placed

theorem push_cases (h : sqlitePushIONode q n = (q', r)) :
    r = .pushed ∧ Pushed q n q' ∨ r ≠ .pushed ∧ q' = q := by
  unfold sqlitePushIONode at h
  split at h
  case isTrue htype =>
    obtain ⟨rfl, rfl⟩ := Prod.mk.inj h
    refine .inl ⟨rfl, ?_, rfl, ?_⟩
    · show (q.closeIONode.toList ++ q.loadIONode.toList ++ (q.addIOQueue ++ [n]) ++ _).Perm _
      rw [← append_assoc, append_assoc _ [n]]
      exact perm_middle
    intro hplaced
    refine ⟨hplaced.close, hplaced.load, ?_, hplaced.update⟩
    intro m hm
    rcases mem_append.mp hm with hm | hm
    · exact hplaced.add m hm
    · exact mem_singleton.mp hm ▸ htype
  case isFalse =>
  split at h
  case isTrue htype =>
    obtain ⟨rfl, rfl⟩ := Prod.mk.inj h
    refine .inl ⟨rfl, ?_, rfl, ?_⟩
    · show (q.closeIONode.toList ++ q.loadIONode.toList ++ q.addIOQueue ++
        (q.updateIOQueue ++ [n])).Perm _
      rw [← append_assoc]
      exact perm_append_singleton n _
    intro hplaced
    refine ⟨hplaced.close, hplaced.load, hplaced.add, ?_⟩
    intro m hm
    rcases mem_append.mp hm with hm | hm
    · exact hplaced.update m hm
    · exact mem_singleton.mp hm ▸ htype
  case isFalse =>
  split at h
  case isTrue htype =>
    split at h
    case h_1 hfree =>
      obtain ⟨rfl, rfl⟩ := Prod.mk.inj h
      refine .inl ⟨rfl, ?_, rfl, ?_⟩
      · show (q.closeIONode.toList ++ [n] ++ q.addIOQueue ++ q.updateIOQueue).Perm
          (n :: (q.closeIONode.toList ++ q.loadIONode.toList ++ q.addIOQueue ++ q.updateIOQueue))
        rw [hfree, toList_none, append_nil, append_assoc, append_assoc, append_assoc]
        exact perm_middle
      · intro hplaced
        exact ⟨hplaced.close, fun m hm => some.inj hm ▸ htype, hplaced.add, hplaced.update⟩
    case h_2 =>
      obtain ⟨rfl, rfl⟩ := Prod.mk.inj h
      exact .inr ⟨nofun, rfl⟩
  case isFalse =>
  split at h
  case isTrue htype =>
    split at h
    case h_1 hfree =>
      obtain ⟨rfl, rfl⟩ := Prod.mk.inj h
      refine .inl ⟨rfl, ?_, rfl, ?_⟩
      · show ([n] ++ q.loadIONode.toList ++ q.addIOQueue ++ q.updateIOQueue).Perm
          (n :: (q.closeIONode.toList ++ q.loadIONode.toList ++ q.addIOQueue ++ q.updateIOQueue))
        rw [hfree, toList_none]
        exact Perm.refl _
      · intro hplaced
        exact ⟨fun m hm => some.inj hm ▸ htype, hplaced.load, hplaced.add, hplaced.update⟩
    case h_2 =>
      obtain ⟨rfl, rfl⟩ := Prod.mk.inj h
      exact .inr ⟨nofun, rfl⟩
  case isFalse =>
    obtain ⟨rfl, rfl⟩ := Prod.mk.inj h
    exact .inr ⟨nofun, rfl⟩

theorem push_refused (h : sqlitePushIONode q n = (q', r)) (hr : r ≠ .pushed) : q' = q :=
  ((push_cases h).resolve_left fun hpushed => hr hpushed.1).2

theorem push_pushed (h : sqlitePushIONode q n = (q', .pushed)) : Pushed q n q' :=
  ((push_cases h).resolve_right fun hrefused => hrefused.1 rfl).2

theorem Pushed.length (h : Pushed q n q') : q'.queued.length = q.queued.length + 1 :=
  h.queued.length_eq

/-- The count stays the number of the nodes as long as it does not wrap. -/
theorem Pushed.counted_iff (h : Pushed q n q') (hcounted : q.Counted) :
    q'.Counted ↔ q.queued.length + 1 < 2 ^ 32 := by
  unfold Counted at hcounted ⊢
  rw [h.length, h.ioCount, UInt32.toNat_add, hcounted]
  show (q.queued.length + 1) % 2 ^ 32 = _ ↔ _
  omega

/-! ## Pop -/

/-- What a successful pop does. An update is only popped when no add waits. -/
structure Popped (q : SqliteIOQueues α) (n : SqliteIOQueueNode α) (q' : SqliteIOQueues α) : Prop where
  queued : q.queued = n :: q'.queued
  ioCount : q'.ioCount = q.ioCount - 1
  placed : q.Placed → q'.Placed
  first : q.Placed → n.type.isUpdate = true → ∀ m ∈ q.queued, m.type.isAdd = false

theorem pop_some (h : sqlitePopIONode q = some (n, q')) : Popped q n q' := by
  unfold sqlitePopIONode at h
  split at h
  case h_1 close hclose =>
    obtain ⟨rfl, rfl⟩ := Prod.mk.inj (some.inj h)
    refine ⟨?_, rfl, ?_, ?_⟩
    · show q.closeIONode.toList ++ _ ++ _ ++ _ = _
      rw [hclose]
      rfl
    · intro hplaced
      exact ⟨nofun, hplaced.load, hplaced.add, hplaced.update⟩
    · intro hplaced hupdate
      rw [hplaced.close close hclose] at hupdate
      cases hupdate
  case h_2 hclose =>
  split at h
  case h_1 load hload =>
    obtain ⟨rfl, rfl⟩ := Prod.mk.inj (some.inj h)
    refine ⟨?_, rfl, ?_, ?_⟩
    · show q.closeIONode.toList ++ q.loadIONode.toList ++ _ ++ _ =
        load :: (q.closeIONode.toList ++ [] ++ _ ++ _)
      rw [hclose, hload]
      rfl
    · intro hplaced
      exact ⟨hplaced.close, nofun, hplaced.add, hplaced.update⟩
    · intro hplaced hupdate
      rw [hplaced.load load hload] at hupdate
      cases hupdate
  case h_2 hload =>
  split at h
  case h_1 add adds hadd =>
    obtain ⟨rfl, rfl⟩ := Prod.mk.inj (some.inj h)
    refine ⟨?_, rfl, ?_, ?_⟩
    · show q.closeIONode.toList ++ q.loadIONode.toList ++ q.addIOQueue ++ _ =
        add :: (q.closeIONode.toList ++ q.loadIONode.toList ++ adds ++ _)
      rw [hclose, hload, hadd]
      rfl
    · intro hplaced
      refine ⟨hplaced.close, hplaced.load, ?_, hplaced.update⟩
      intro m hm
      exact hplaced.add m (by rw [hadd]; exact mem_cons_of_mem _ hm)
    intro hplaced hupdate
    have hn := hplaced.add add (by rw [hadd]; exact mem_cons_self)
    rw [SqliteIOType.not_isAdd_of_isUpdate hupdate] at hn
    cases hn
  case h_2 hadd =>
  split at h
  case h_1 update updates hupdates =>
    obtain ⟨rfl, rfl⟩ := Prod.mk.inj (some.inj h)
    have hqueued : q.queued = q.updateIOQueue := by
      show q.closeIONode.toList ++ q.loadIONode.toList ++ q.addIOQueue ++ _ = _
      rw [hclose, hload, hadd]
      rfl
    refine ⟨?_, rfl, ?_, ?_⟩
    · show _ = update :: (q.closeIONode.toList ++ q.loadIONode.toList ++ q.addIOQueue ++ updates)
      rw [hqueued, hclose, hload, hadd, hupdates]
      rfl
    · intro hplaced
      refine ⟨hplaced.close, hplaced.load, hplaced.add, ?_⟩
      intro m hm
      exact hplaced.update m (by rw [hupdates]; exact mem_cons_of_mem _ hm)
    · intro hplaced _ m hm
      exact SqliteIOType.not_isAdd_of_isUpdate (hplaced.update m (hqueued ▸ hm))
  case h_2 => cases h

theorem pop_none (h : sqlitePopIONode q = none) : q.queued = [] := by
  unfold sqlitePopIONode at h
  split at h
  case h_1 => cases h
  case h_2 hclose =>
  split at h
  case h_1 => cases h
  case h_2 hload =>
  split at h
  case h_1 => cases h
  case h_2 hadd =>
  split at h
  case h_1 => cases h
  case h_2 hupdate =>
  show q.closeIONode.toList ++ q.loadIONode.toList ++ q.addIOQueue ++ q.updateIOQueue = []
  rw [hclose, hload, hadd, hupdate]
  rfl

theorem Popped.counted (h : Popped q n q') (hcounted : q.Counted) : q'.Counted := by
  unfold Counted at hcounted ⊢
  rw [h.queued, length_cons] at hcounted
  have hone : (1 : UInt32) ≤ q.ioCount := by
    rw [UInt32.le_iff_toNat_le, hcounted]
    exact Nat.le_add_left 1 _
  rw [h.ioCount, UInt32.toNat_sub_of_le _ _ hone, hcounted]
  exact Nat.add_sub_cancel _ 1

/-- Pop until the queue is empty, for at most this many nodes. -/
def sqlitePopAll : Nat → SqliteIOQueues α → List (SqliteIOQueueNode α) × SqliteIOQueues α
  | 0, q => ([], q)
  | limit + 1, q =>
    match sqlitePopIONode q with
    | some (n, q) => (n :: (sqlitePopAll limit q).1, (sqlitePopAll limit q).2)
    | none => ([], q)

/-- All nodes that wait are popped, and no one waits any more. -/
theorem popAll_spec (hcounted : q.Counted) (hplaced : q.Placed) :
    (sqlitePopAll q.queued.length q).1 = q.queued ∧
      (sqlitePopAll q.queued.length q).2.queued = [] ∧
      (sqlitePopAll q.queued.length q).2.Counted ∧ (sqlitePopAll q.queued.length q).2.Placed := by
  induction hlength : q.queued.length generalizing q with
  | zero =>
    have hnil := length_eq_zero_iff.mp hlength
    exact ⟨hnil.symm, hnil, hcounted, hplaced⟩
  | succ length ih =>
    unfold sqlitePopAll
    cases hpop : sqlitePopIONode q with
    | none =>
      rw [pop_none hpop] at hlength
      cases hlength
    | some popped =>
      have hpopped : Popped q popped.1 popped.2 := pop_some hpop
      have hrest : popped.2.queued.length = length := by
        rw [hpopped.queued, length_cons] at hlength
        exact Nat.succ.inj hlength
      obtain ⟨hnodes, hlast⟩ := ih (hpopped.counted hcounted) (hpopped.placed hplaced) hrest
      exact ⟨(congrArg (popped.1 :: ·) hnodes).trans hpopped.queued.symm, hlast⟩

end Bdt

import Bdt.Base.ThreadPool
import Bdt.Global.PeerFinder

/-!
# The remote info of a build action runtime

A model of `BuildActionRuntimeUpdateRemoteInfo` and `BuildActionRuntimeGetRemoteInfo` in
`TunnelBuildAction.imp.inl`, which run at the same time in any number of threads. What is done under
`remoteInfoLock` is one step, and so is each change of a count outside of it.

`remoteInfo_iff` says when the runtime holds the newest of the infos it was given, with a reference of
its own whenever another thread may come to the lock.
-/

namespace Bdt

open Base List Option

/-- The peer infos and the `remoteInfo` of the runtime. A run also has the references that callers
hold, and the infos that have come to the lock. -/
structure RemoteInfoShared where
  infos : PeerInfos
  remoteInfo : Option Nat
  callers : List Nat
  seen : List Nat

/-- Where a call is. An update keeps the reference of its caller until it returns. -/
inductive RemoteInfoHandler where
  /-- `BuildActionRuntimeUpdateRemoteInfo` comes to the lock. -/
  | update (remoteInfo : Nat)
  /-- It has stored an info, and takes the reference for it. -/
  | addRefInfo (remoteInfo : Nat) (oldInfo : Option Nat)
  | releaseOld (remoteInfo : Nat) (oldInfo : Option Nat)
  /-- `BuildActionRuntimeGetRemoteInfo` comes to the lock. -/
  | get
  | returned

/-- A call begins, or a caller does something with a reference of its own. -/
inductive RemoteInfoArrival where
  | create (info : PeerInfo)
  | addRef (info : Nat)
  | release (info : Nat)
  | update (remoteInfo : Nat)
  | get

namespace RemoteInfoHandler

/-- The handler comes to the lock, where it may read or replace the info. -/
def enters : RemoteInfoHandler → Bool
  | .update _ | .get => true
  | _ => false

/-- The references of a call: that of its caller, and that of the info it has replaced. When it
replaces an info by the same one, it releases no more than it adds. -/
def holds : RemoteInfoHandler → List Nat
  | .update remoteInfo => [remoteInfo]
  | .addRefInfo remoteInfo oldInfo =>
    remoteInfo :: if oldInfo = some remoteInfo then [] else oldInfo.toList
  | .releaseOld remoteInfo oldInfo => remoteInfo :: oldInfo.toList
  | .get | .returned => []

/-- The info that is in the runtime without a reference for it. -/
def owes : RemoteInfoHandler → List Nat
  | .addRefInfo remoteInfo oldInfo => if oldInfo = some remoteInfo then [] else [remoteInfo]
  | _ => []

theorem owes_cases (handler : RemoteInfoHandler) :
    handler.owes = [] ∨ ∃ info, handler.owes = [info] := by
  cases handler with
  | addRefInfo remoteInfo oldInfo =>
    by_cases hsame : oldInfo = some remoteInfo
    · exact .inl (if_pos hsame)
    · exact .inr ⟨remoteInfo, if_neg hsame⟩
  | _ => exact .inl rfl

end RemoteInfoHandler

namespace RemoteInfoShared

/-- `BuildActionRuntimeCreate`, for a caller that keeps its reference. -/
def create : Option PeerInfo → RemoteInfoShared
  | some info =>
    { infos := [{ Counted.new info with refCount := 2 }]
      remoteInfo := some 0
      callers := [0]
      seen := [0] }
  | none => { infos := [], remoteInfo := none, callers := [], seen := [] }

/-- The info is the newest of those that have come. -/
def Newest (shared : RemoteInfoShared) : Prop :=
  match shared.remoteInfo with
  | none => shared.seen = []
  | some held => held ∈ shared.seen ∧
      ∀ info ∈ shared.seen, shared.infos.createTime info ≤ shared.infos.createTime held

def enter (shared : RemoteInfoShared) :
    RemoteInfoArrival → Option (RemoteInfoShared × Option RemoteInfoHandler)
  | .create info =>
    some ({ shared with
      infos := shared.infos ++ [.new info]
      callers := shared.infos.length :: shared.callers }, none)
  | .addRef info =>
    if info ∈ shared.callers then
      (addRef shared.infos info).map fun infos =>
        ({ shared with infos, callers := info :: shared.callers }, none)
    else none
  | .release info =>
    if info ∈ shared.callers then
      (release shared.infos info).map fun infos =>
        ({ shared with infos, callers := shared.callers.erase info }, none)
    else none
  | .update remoteInfo =>
    if remoteInfo ∈ shared.callers then
      some ({ shared with callers := shared.callers.erase remoteInfo }, some (.update remoteInfo))
    else none
  | .get => some (shared, some .get)

/-- The section of `BuildActionRuntimeUpdateRemoteInfo`. -/
def compare (shared : RemoteInfoShared) (remoteInfo : Nat) : RemoteInfoShared × RemoteInfoHandler :=
  let shared := { shared with seen := shared.seen ++ [remoteInfo] }
  if shared.remoteInfo.any fun held =>
      shared.infos.createTime held < shared.infos.createTime remoteInfo then
    ({ shared with callers := remoteInfo :: shared.callers }, .returned)
  else
    ({ shared with remoteInfo := some remoteInfo }, .addRefInfo remoteInfo shared.remoteInfo)

def step (shared : RemoteInfoShared) :
    RemoteInfoHandler → Option (RemoteInfoShared × RemoteInfoHandler)
  | .update remoteInfo => some (shared.compare remoteInfo)
  | .addRefInfo remoteInfo oldInfo =>
    (addRef shared.infos remoteInfo).map fun infos =>
      ({ shared with infos }, .releaseOld remoteInfo oldInfo)
  | .releaseOld remoteInfo none =>
    some ({ shared with callers := remoteInfo :: shared.callers }, .returned)
  | .releaseOld remoteInfo (some oldInfo) =>
    (release shared.infos oldInfo).map fun infos =>
      ({ shared with infos, callers := remoteInfo :: shared.callers }, .returned)
  | .get =>
    match shared.remoteInfo with
    | none => some (shared, .returned)
    | some remoteInfo =>
      (addRef shared.infos remoteInfo).map fun infos =>
        ({ shared with infos, callers := remoteInfo :: shared.callers }, .returned)
  | .returned => none

end RemoteInfoShared

abbrev RemoteInfoPool : Type :=
  Pool RemoteInfoShared RemoteInfoHandler

namespace RemoteInfoPool

def next : RemoteInfoPool → PoolEvent RemoteInfoArrival → Option RemoteInfoPool :=
  Pool.next RemoteInfoShared.enter RemoteInfoShared.step

def start (remoteInfo : Option PeerInfo) : RemoteInfoPool where
  shared := .create remoteInfo
  handlers := []

/-- The references of all but the runtime. -/
def others (pool : RemoteInfoPool) : List Nat :=
  pool.shared.callers ++ pool.handlers.flatMap RemoteInfoHandler.holds

/-- The infos that the runtime holds without a reference. -/
def owed (pool : RemoteInfoPool) : List Nat :=
  pool.handlers.flatMap RemoteInfoHandler.owes

/-- The info of the runtime is the newest that has come to the lock, and when a call may come to the
lock, the count of the info has a reference more than the others hold. -/
structure Fresh (pool : RemoteInfoPool) : Prop where
  newest : pool.shared.Newest
  counted : (∃ handler ∈ pool.handlers, handler.enters = true) →
    ∀ held, pool.shared.remoteInfo = some held →
      ∃ cell, live pool.shared.infos held = some cell ∧
        (pool.others.count held : Int) < cell.refCount

/-- The infos that come have the time of the one that is held; and when another info is stored, no
call may come to the lock before the reference is taken. -/
def Keeps (pool : RemoteInfoPool) : PoolEvent RemoteInfoArrival → Prop
  | .arrive (.update remoteInfo) => remoteInfo ∈ pool.shared.callers → pool.owed = []
  | .arrive .get => pool.owed = []
  | .arrive _ => True
  | .run i =>
    match pool.handlers[i]? with
    | some (.update remoteInfo) =>
      (∀ held, pool.shared.remoteInfo = some held →
        pool.shared.infos.createTime held = pool.shared.infos.createTime remoteInfo) ∧
      (pool.shared.remoteInfo ≠ some remoteInfo →
        ∀ other ∈ pool.handlers.eraseIdx i, other.enters = false)
    | _ => True

/-! ## What holds between the steps -/

structure Inv (pool : RemoteInfoPool) : Prop where
  newest : pool.shared.Newest
  known : ∀ info ∈ pool.shared.seen, (valueAt pool.shared.infos info).isSome
  /-- At most one reference is owed, and then no call comes to the lock. -/
  owed : pool.owed = [] ∨ pool.owed.Perm pool.shared.remoteInfo.toList ∧
    ∀ handler ∈ pool.handlers, handler.enters = false
  counted : Balanced pool.shared.infos
    (pool.others ++ if pool.owed = [] then pool.shared.remoteInfo.toList else [])

variable {pool last : RemoteInfoPool} {i : Nat} {handler stepped : RemoteInfoHandler}
  {shared : RemoteInfoShared}

theorem Inv.owed_of_enters (h : pool.Inv) (hmem : handler ∈ pool.handlers)
    (henters : handler.enters = true) : pool.owed = [] := by
  rcases h.owed with howed | ⟨-, hnone⟩
  · exact howed
  · exact absurd henters (ne_true_of_eq_false (hnone handler hmem))

theorem Inv.fresh (h : pool.Inv) : pool.Fresh where
  newest := h.newest
  counted := by
    intro ⟨handler, hmem, henters⟩ held hheld
    have hcounted := h.counted
    rw [h.owed_of_enters hmem henters, if_pos rfl, hheld] at hcounted
    obtain ⟨cell, hcell⟩ := hcounted.alive held (mem_append_right _ mem_cons_self)
    refine ⟨cell, hcell, ?_⟩
    have hcount := hcounted.count held cell hcell
    rw [count_append, toList_some, count_singleton_self] at hcount
    omega

/-- The references, with those of one call in front of those of the others. -/
theorem Inv.counted_at (h : pool.Inv) (hget : pool.handlers[i]? = some handler) :
    Balanced pool.shared.infos
      (handler.holds ++ (pool.shared.callers ++
        (pool.handlers.eraseIdx i).flatMap RemoteInfoHandler.holds ++
          if pool.owed = [] then pool.shared.remoteInfo.toList else [])) := by
  refine h.counted.perm ?_
  have hholds := Pool.perm_flatMap RemoteInfoHandler.holds hget
  refine (((hholds.append_left pool.shared.callers).append_right _)).trans ?_
  rw [← append_assoc, ← append_assoc, ← append_assoc]
  exact (perm_append_comm.append_right _).append_right _

section

variable (hget : pool.handlers[i]? = some handler)
include hget

theorem owed_at :
    pool.owed.Perm
      (handler.owes ++ (pool.handlers.eraseIdx i).flatMap RemoteInfoHandler.owes) :=
  Pool.perm_flatMap RemoteInfoHandler.owes hget

theorem owed_set :
    (owed ⟨shared, pool.handlers.set i stepped⟩).Perm
      (stepped.owes ++ (pool.handlers.eraseIdx i).flatMap RemoteInfoHandler.owes) :=
  Pool.perm_flatMap_set RemoteInfoHandler.owes hget stepped

theorem owed_eq_nil :
    pool.owed = [] ↔
      handler.owes = [] ∧ (pool.handlers.eraseIdx i).flatMap RemoteInfoHandler.owes = [] := by
  rw [← append_eq_nil_iff]
  exact ⟨fun h => (h ▸ owed_at hget).symm.eq_nil, fun h => (h ▸ owed_at hget).eq_nil⟩

theorem owed_set_eq_nil :
    owed ⟨shared, pool.handlers.set i stepped⟩ = [] ↔
      stepped.owes = [] ∧ (pool.handlers.eraseIdx i).flatMap RemoteInfoHandler.owes = [] := by
  have hset : (owed ⟨shared, pool.handlers.set i stepped⟩).Perm
      (stepped.owes ++ (pool.handlers.eraseIdx i).flatMap RemoteInfoHandler.owes) := owed_set hget
  rw [← append_eq_nil_iff]
  exact ⟨fun h => (h ▸ hset).symm.eq_nil, fun h => (h ▸ hset).eq_nil⟩

end

theorem owed_append : owed ⟨shared, pool.handlers ++ [handler]⟩ = pool.owed ++ handler.owes := by
  simp [owed]

theorem others_append :
    others ⟨shared, pool.handlers ++ [handler]⟩ =
      shared.callers ++ (pool.handlers.flatMap RemoteInfoHandler.holds ++ handler.holds) := by
  simp [others]

end RemoteInfoPool

theorem RemoteInfoShared.Newest.congr {shared next : RemoteInfoShared} (h : shared.Newest)
    (hremoteInfo : next.remoteInfo = shared.remoteInfo) (hseen : next.seen = shared.seen)
    (hvalues : ∀ info ∈ shared.seen, valueAt next.infos info = valueAt shared.infos info) :
    next.Newest := by
  have htimes : ∀ info ∈ shared.seen,
      next.infos.createTime info = shared.infos.createTime info := fun info hinfo =>
    congrArg (fun value => (Option.map _ value).getD _) (hvalues info hinfo)
  unfold Newest at h ⊢
  rw [hremoteInfo, hseen]
  cases hheld : shared.remoteInfo with
  | none =>
    rw [hheld] at h
    exact h
  | some held =>
    rw [hheld] at h
    refine ⟨h.1, fun info hinfo => ?_⟩
    rw [htimes info hinfo, htimes held h.1]
    exact h.2 info hinfo

namespace RemoteInfoPool

/-! ## The calls -/

variable {pool last : RemoteInfoPool} {i : Nat} {handler stepped : RemoteInfoHandler}
  {shared : RemoteInfoShared}

section

variable (h : pool.Inv) (hget : pool.handlers[i]? = some handler)
include h hget

/-- What a call owes is the info of the runtime, and no other call owes one. -/
theorem Inv.owed_one {info : Nat}
    (howes : handler.owes = [info]) :
    pool.shared.remoteInfo = some info ∧
      (pool.handlers.eraseIdx i).flatMap RemoteInfoHandler.owes = [] := by
  have hparts := owed_at hget
  rw [howes] at hparts
  rcases h.owed with howed | ⟨howed, -⟩
  · rw [howed] at hparts
    exact absurd hparts.nil_eq.symm (cons_ne_nil _ _)
  have hinfo := hparts.symm.trans howed
  cases hremoteInfo : pool.shared.remoteInfo with
  | none =>
    rw [hremoteInfo] at hinfo
    exact absurd hinfo.eq_nil (cons_ne_nil _ _)
  | some =>
    rw [hremoteInfo, toList_some, perm_singleton] at hinfo
    obtain ⟨rfl, hrest⟩ := cons.inj hinfo
    exact ⟨rfl, hrest⟩

/-- A call makes a step that leaves the info, or one that stores the info when no other call is to
come to the lock. After it the call does not come to the lock. -/
theorem Inv.moves
    (hnewest : shared.Newest) (hknown : ∀ info ∈ shared.seen, (valueAt shared.infos info).isSome)
    (henters : stepped.enters = false)
    (howes : stepped.owes = [] ∧ shared.remoteInfo = pool.shared.remoteInfo ∨
      stepped.owes = shared.remoteInfo.toList ∧ pool.owed = [] ∧
        ∀ other ∈ pool.handlers.eraseIdx i, other.enters = false)
    (hcounted : Balanced shared.infos
      (stepped.holds ++ (shared.callers ++
        (pool.handlers.eraseIdx i).flatMap RemoteInfoHandler.holds ++
          if stepped.owes = [] ∧
              (pool.handlers.eraseIdx i).flatMap RemoteInfoHandler.owes = [] then
            shared.remoteInfo.toList
          else []))) :
    Inv ⟨shared, pool.handlers.set i stepped⟩ where
  newest := hnewest
  known := hknown
  owed := by
    have hset : (RemoteInfoPool.owed ⟨shared, pool.handlers.set i stepped⟩).Perm
        (stepped.owes ++ (pool.handlers.eraseIdx i).flatMap RemoteInfoHandler.owes) := owed_set hget
    rcases howes with ⟨howes, hremoteInfo⟩ | ⟨howes, howed, hothers⟩
    · rw [howes, nil_append] at hset
      rcases h.owed with howed | ⟨howed, hnone⟩
      · rw [((owed_eq_nil hget).mp howed).2] at hset
        exact .inl hset.eq_nil
      -- The reference that is owed is that of this call or of another.
      have hparts := (owed_at hget).symm.trans howed
      rcases handler.owes_cases with howes | ⟨info, howes⟩
      · rw [howes, nil_append] at hparts
        refine .inr ⟨hremoteInfo ▸ hset.trans hparts, fun other hother => ?_⟩
        rcases (Pool.mem_set_iff hget).mp hother with rfl | hother
        · exact henters
        · exact hnone other (mem_of_mem_eraseIdx hother)
      · rw [(h.owed_one hget howes).2] at hset
        exact .inl hset.eq_nil
    rw [((owed_eq_nil hget).mp howed).2, append_nil, howes] at hset
    refine .inr ⟨hset, fun other hother => ?_⟩
    rcases (Pool.mem_set_iff hget).mp hother with rfl | hother
    · exact henters
    · exact hothers other hother
  counted := by
    simp only [owed_set_eq_nil hget]
    refine hcounted.perm ?_
    have hholds := Pool.perm_flatMap_set RemoteInfoHandler.holds hget stepped
    rw [← append_assoc]
    refine List.Perm.append_right _ ?_
    refine Perm.trans ?_ (hholds.append_left shared.callers).symm
    rw [← append_assoc, ← append_assoc]
    exact perm_append_comm.append_right _

theorem Inv.leaves
    (hremoteInfo : shared.remoteInfo = pool.shared.remoteInfo)
    (hseen : shared.seen = pool.shared.seen)
    (hvalues : valueAt shared.infos = valueAt pool.shared.infos)
    (henters : stepped.enters = false) (howes : stepped.owes = [])
    (hcounted : Balanced shared.infos
      (stepped.holds ++ (shared.callers ++
        (pool.handlers.eraseIdx i).flatMap RemoteInfoHandler.holds ++
          if (pool.handlers.eraseIdx i).flatMap RemoteInfoHandler.owes = [] then
            shared.remoteInfo.toList
          else []))) :
    Inv ⟨shared, pool.handlers.set i stepped⟩ := by
  refine h.moves hget (h.newest.congr hremoteInfo hseen fun info _ => congrFun hvalues info) ?_
    henters (.inl ⟨howes, hremoteInfo⟩) ?_
  · rw [hseen, hvalues]
    exact h.known
  · simpa [howes] using hcounted

end

variable {remoteInfo : Nat} {callers : List Nat}

variable {result : RemoteInfoShared × RemoteInfoHandler} {event : PoolEvent RemoteInfoArrival}
  {arrival : RemoteInfoArrival} {oldInfo : Option Nat} {held : Nat}

section

variable (h : pool.Inv)
include h

theorem Inv.addRefInfo
    (hget : pool.handlers[i]? = some (.addRefInfo remoteInfo oldInfo)) {infos : PeerInfos}
    (hinfos : Base.addRef pool.shared.infos remoteInfo = some infos) :
    Inv ⟨{ pool.shared with infos }, pool.handlers.set i (.releaseOld remoteInfo oldInfo)⟩ := by
  have hcounted := (h.counted_at hget).addRef hinfos
  refine h.leaves hget rfl rfl (valueAt_addRef hinfos) rfl rfl (hcounted.perm ?_)
  by_cases hsame : oldInfo = some remoteInfo
  · subst hsame
    have howed : pool.owed = [] ↔
        (pool.handlers.eraseIdx i).flatMap RemoteInfoHandler.owes = [] := by
      simp [owed_eq_nil hget, RemoteInfoHandler.owes]
    simp [RemoteInfoHandler.holds, howed]
  have howes : RemoteInfoHandler.owes (.addRefInfo remoteInfo oldInfo) = [remoteInfo] :=
    if_neg hsame
  obtain ⟨hinfo, hrest⟩ := h.owed_one hget howes
  have howed : pool.owed ≠ [] := fun hnil => by simp [owed_eq_nil hget, howes] at hnil
  rw [if_neg howed, if_pos hrest]
  rw [hinfo]
  simp only [RemoteInfoHandler.holds, if_neg hsame]
  refine perm_iff_count.mpr fun info => ?_
  simp only [count_append, count_cons, toList_some, count_nil]
  omega

theorem Inv.releaseOld
    (hget : pool.handlers[i]? = some (.releaseOld remoteInfo oldInfo))
    (hstep : pool.shared.step (.releaseOld remoteInfo oldInfo) = some result) :
    Inv ⟨result.1, pool.handlers.set i result.2⟩ := by
  have hcounted := h.counted_at hget
  have howed : pool.owed = [] ↔ (pool.handlers.eraseIdx i).flatMap RemoteInfoHandler.owes = [] := by
    simp [owed_eq_nil hget, RemoteInfoHandler.owes]
  simp only [howed] at hcounted
  cases oldInfo with
  | none =>
    cases hstep
    exact h.leaves hget rfl rfl rfl rfl rfl hcounted
  | some oldInfo =>
    obtain ⟨infos, hinfos, rfl⟩ := map_eq_some_iff.mp hstep
    have hfront := hcounted.perm (List.Perm.swap oldInfo remoteInfo _)
    exact h.leaves hget rfl rfl (valueAt_release hinfos) rfl rfl (hfront.release hinfos)

theorem Inv.get (hget : pool.handlers[i]? = some .get)
    (hstep : pool.shared.step .get = some result) : Inv ⟨result.1, pool.handlers.set i result.2⟩ := by
  have hrest := ((owed_eq_nil hget).mp
    (h.owed_of_enters (mem_of_getElem? hget) rfl)).2
  have hcounted := h.counted_at hget
  rw [if_pos (h.owed_of_enters (mem_of_getElem? hget) rfl)] at hcounted
  unfold RemoteInfoShared.step at hstep
  cases hremoteInfo : pool.shared.remoteInfo with
  | none =>
    simp only [hremoteInfo] at hstep
    cases hstep
    exact h.leaves hget rfl rfl rfl rfl rfl (by rwa [if_pos hrest])
  | some =>
    simp only [hremoteInfo] at hstep
    obtain ⟨infos, hinfos, rfl⟩ := map_eq_some_iff.mp hstep
    refine h.leaves hget hremoteInfo.symm rfl (valueAt_addRef hinfos) rfl rfl ?_
    rw [hremoteInfo] at hcounted
    rw [if_pos hrest]
    exact hcounted.addRef hinfos

theorem Inv.compare_eq (htime : ∀ held, pool.shared.remoteInfo = some held →
      pool.shared.infos.createTime held = pool.shared.infos.createTime remoteInfo) :
    pool.shared.compare remoteInfo =
        ({ pool.shared with
            remoteInfo := some remoteInfo
            seen := pool.shared.seen ++ [remoteInfo] },
          .addRefInfo remoteInfo pool.shared.remoteInfo) ∧
      RemoteInfoShared.Newest { pool.shared with
        remoteInfo := some remoteInfo
        seen := pool.shared.seen ++ [remoteInfo] } := by
  have hnewest := h.newest
  unfold RemoteInfoShared.Newest at hnewest
  cases hremoteInfo : pool.shared.remoteInfo with
  | none =>
    rw [hremoteInfo] at hnewest
    have hseen : pool.shared.seen = [] := hnewest
    refine ⟨by simp [RemoteInfoShared.compare, hremoteInfo], ?_⟩
    simp [RemoteInfoShared.Newest, hseen]
  | some held =>
    rw [hremoteInfo] at hnewest
    have htime := htime held hremoteInfo
    refine ⟨by simp [RemoteInfoShared.compare, hremoteInfo, htime], ?_⟩
    refine ⟨mem_append_right _ mem_cons_self, fun info hinfo => ?_⟩
    rcases mem_concat.mp hinfo with hinfo | rfl
    · exact UInt64.le_trans (hnewest.2 info hinfo) (UInt64.le_of_eq htime)
    · exact UInt64.le_refl _

theorem Inv.update
    (hget : pool.handlers[i]? = some (.update remoteInfo)) (hkeeps : pool.Keeps (.run i)) :
    Inv ⟨(pool.shared.compare remoteInfo).1,
      pool.handlers.set i (pool.shared.compare remoteInfo).2⟩ := by
  simp only [Keeps, hget] at hkeeps
  obtain ⟨htime, hothers⟩ := hkeeps
  obtain ⟨hcompare, hnewest⟩ := h.compare_eq htime
  have howed := h.owed_of_enters (mem_of_getElem? hget) rfl
  have hrest := ((owed_eq_nil hget).mp howed).2
  have hcounted := h.counted_at hget
  rw [if_pos howed] at hcounted
  rw [hcompare]
  refine h.moves hget hnewest ?_ rfl ?_ ?_
  · obtain ⟨cell, hcell⟩ := hcounted.alive remoteInfo mem_cons_self
    have hinfo : (valueAt pool.shared.infos remoteInfo).isSome := by rw [valueAt_live hcell]; rfl
    exact forall_mem_append.mpr ⟨h.known, forall_mem_singleton.mpr hinfo⟩
  · by_cases hsame : pool.shared.remoteInfo = some remoteInfo
    · exact .inl ⟨if_pos hsame, hsame.symm⟩
    · exact .inr ⟨if_neg hsame, howed, hothers hsame⟩
  by_cases hsame : pool.shared.remoteInfo = some remoteInfo
  · rw [hsame] at hcounted
    simpa [RemoteInfoHandler.holds, RemoteInfoHandler.owes, hsame, hrest] using hcounted
  refine hcounted.perm ?_
  simp only [RemoteInfoHandler.holds, RemoteInfoHandler.owes, if_neg hsame]
  refine perm_iff_count.mpr fun info => ?_
  simp only [count_append, count_cons, count_nil, cons_ne_nil, false_and, if_false]
  omega

/-! ## What arrives -/

theorem Inv.calls {infos : PeerInfos} (hvalues : ∀ info ∈ pool.shared.seen,
      valueAt infos info = valueAt pool.shared.infos info)
    (hcounted : ∀ rest, Balanced pool.shared.infos (pool.shared.callers ++ rest) →
      Balanced infos (callers ++ rest)) :
    Inv ⟨{ pool.shared with infos, callers }, pool.handlers⟩ where
  newest := h.newest.congr rfl rfl hvalues
  known info hinfo := by
    rw [hvalues info hinfo]
    exact h.known info hinfo
  owed := h.owed
  counted := by
    have hcounted := hcounted _ ((append_assoc _ _ _) ▸ h.counted)
    rw [← append_assoc] at hcounted
    exact hcounted

end

theorem others_begins (hholds : pool.shared.callers.Perm (handler.holds ++ callers)) :
    pool.others.Perm (others ⟨{ pool.shared with callers }, pool.handlers ++ [handler]⟩) := by
  rw [others_append]
  refine (hholds.append_right _).trans ?_
  refine perm_iff_count.mpr fun info => ?_
  simp only [count_append]
  omega

theorem Inv.begins (h : pool.Inv) (howed : pool.owed = []) (howes : handler.owes = [])
    (hholds : pool.shared.callers.Perm (handler.holds ++ callers)) :
    Inv ⟨{ pool.shared with callers }, pool.handlers ++ [handler]⟩ where
  newest := h.newest
  known := h.known
  owed := .inl (by rw [owed_append, howed, howes]; rfl)
  counted := by
    have hcounted := h.counted
    rw [if_pos howed] at hcounted
    rw [if_pos (by rw [owed_append, howed, howes]; rfl)]
    exact hcounted.perm ((others_begins hholds).append_right _)

theorem Inv.arrive {entered : RemoteInfoShared × Option RemoteInfoHandler} (h : pool.Inv)
    (hkeeps : pool.Keeps (.arrive arrival)) (henter : pool.shared.enter arrival = some entered) :
    Inv ⟨entered.1, pool.handlers ++ entered.2.toList⟩ := by
  cases arrival with
  | create info =>
    cases henter
    rw [toList_none, append_nil]
    exact h.calls (fun info hinfo => valueAt_alloc _ (h.known info hinfo))
      fun rest hrest => hrest.alloc info
  | addRef =>
    obtain ⟨hmem, henter⟩ := ite_none_right_eq_some.mp henter
    obtain ⟨infos, hinfos, rfl⟩ := map_eq_some_iff.mp henter
    rw [toList_none, append_nil]
    exact h.calls (fun _ _ => congrFun (valueAt_addRef hinfos) _)
      fun rest hrest => hrest.addRef hinfos
  | release =>
    obtain ⟨hmem, henter⟩ := ite_none_right_eq_some.mp henter
    obtain ⟨infos, hinfos, rfl⟩ := map_eq_some_iff.mp henter
    rw [toList_none, append_nil]
    refine h.calls (fun _ _ => congrFun (valueAt_release hinfos) _) fun rest hrest => ?_
    have hfront := hrest.perm ((perm_cons_erase hmem).append_right rest)
    exact hfront.release hinfos
  | update =>
    obtain ⟨hmem, henter⟩ := ite_none_right_eq_some.mp henter
    cases henter
    exact h.begins (hkeeps hmem) rfl (perm_cons_erase hmem)
  | get =>
    cases henter
    exact h.begins hkeeps rfl (Perm.refl _)

theorem Inv.next (h : pool.Inv) (hkeeps : pool.Keeps event)
    (hnext : pool.next event = some last) : last.Inv := by
  obtain ⟨arrival, entered, rfl, henter, rfl⟩ | ⟨i, handler, stepped, rfl, hget, hstep, rfl⟩ :=
    Pool.next_eq_some hnext
  · exact h.arrive hkeeps henter
  cases handler with
  | update =>
    cases hstep
    exact h.update hget hkeeps
  | addRefInfo =>
    obtain ⟨infos, hinfos, rfl⟩ := map_eq_some_iff.mp hstep
    exact h.addRefInfo hget hinfos
  | releaseOld => exact h.releaseOld hget hstep
  | get => exact h.get hget hstep
  | returned => cases hstep

/-! ## Where it goes wrong -/

/-- The others hold all the references, and a call is to come to the lock. -/
theorem not_fresh (hcounted : Balanced pool.shared.infos pool.others)
    (hheld : pool.shared.remoteInfo = some held) (hmem : handler ∈ pool.handlers)
    (henters : handler.enters = true) : ¬ pool.Fresh := by
  intro hfresh
  obtain ⟨cell, hcell, hlt⟩ := hfresh.counted ⟨handler, hmem, henters⟩ held hheld
  have hcount := hcounted.count held cell hcell
  omega

theorem Inv.begins_fails (h : pool.Inv) (howed : pool.owed ≠ []) (henters : handler.enters = true)
    (hholds : pool.shared.callers.Perm (handler.holds ++ callers)) :
    ¬ Fresh ⟨{ pool.shared with callers }, pool.handlers ++ [handler]⟩ := by
  have hcounted := h.counted
  rw [if_neg howed, append_nil] at hcounted
  rcases h.owed with hnil | ⟨hperm, -⟩
  · exact absurd hnil howed
  cases hheld : pool.shared.remoteInfo with
  | none =>
    rw [hheld] at hperm
    exact absurd hperm.eq_nil howed
  | some =>
    refine not_fresh ?_ hheld (mem_append_right _ mem_cons_self) henters
    exact hcounted.perm (others_begins hholds)

theorem Inv.arrive_fails (h : pool.Inv) (hkeeps : ¬ pool.Keeps (.arrive arrival)) :
    ∃ last, pool.next (.arrive arrival) = some last ∧ ¬ last.Fresh := by
  cases arrival with
  | create => exact absurd trivial hkeeps
  | addRef => exact absurd trivial hkeeps
  | release => exact absurd trivial hkeeps
  | update =>
    obtain ⟨hmem, howed⟩ := Classical.not_imp.mp hkeeps
    refine ⟨_, congrArg (Option.map _) (if_pos hmem), ?_⟩
    exact h.begins_fails howed rfl (perm_cons_erase hmem)
  | get => exact ⟨_, rfl, h.begins_fails hkeeps rfl (Perm.refl _)⟩

/-- An info comes that is newer or older than the one that is held: the older one stays or comes to
be held. -/
theorem compare_fails (hnewest : shared.Newest) (hheld : shared.remoteInfo = some held)
    (htime : shared.infos.createTime held ≠ shared.infos.createTime remoteInfo) :
    ¬ (shared.compare remoteInfo).1.Newest := by
  unfold RemoteInfoShared.Newest at hnewest
  rw [hheld] at hnewest
  intro hstill
  by_cases hlt : shared.infos.createTime held < shared.infos.createTime remoteInfo
  · have hcompare : (shared.compare remoteInfo).1 =
        { shared with
          callers := remoteInfo :: shared.callers
          seen := shared.seen ++ [remoteInfo] } := by
      simp [RemoteInfoShared.compare, hheld, hlt]
    rw [hcompare] at hstill
    simp only [RemoteInfoShared.Newest, hheld] at hstill
    exact UInt64.not_le.mpr hlt
      (hstill.2 remoteInfo (mem_append_right _ mem_cons_self))
  have hcompare : (shared.compare remoteInfo).1 =
      { shared with
        remoteInfo := some remoteInfo
        seen := shared.seen ++ [remoteInfo] } := by
    simp [RemoteInfoShared.compare, hheld, hlt]
  rw [hcompare] at hstill
  have hle := hstill.2 held (mem_append_left _ hnewest.1)
  exact htime (UInt64.le_antisymm hle (UInt64.not_lt.mp hlt))

/-- An info is stored while another call is to come to the lock, which it may do before the reference
is taken. -/
theorem Inv.update_fails {other : RemoteInfoHandler} (h : pool.Inv)
    (hget : pool.handlers[i]? = some (.update remoteInfo))
    (htime : ∀ held, pool.shared.remoteInfo = some held →
      pool.shared.infos.createTime held = pool.shared.infos.createTime remoteInfo)
    (hne : pool.shared.remoteInfo ≠ some remoteInfo) (hother : other ∈ pool.handlers.eraseIdx i)
    (henters : other.enters = true) :
    ¬ Fresh ⟨(pool.shared.compare remoteInfo).1,
      pool.handlers.set i (pool.shared.compare remoteInfo).2⟩ := by
  have hcounted := h.counted_at hget
  rw [if_pos (h.owed_of_enters (mem_of_getElem? hget) rfl)] at hcounted
  rw [(h.compare_eq htime).1]
  refine not_fresh ?_ rfl ((Pool.mem_set_iff hget).mpr (.inr hother)) henters
  refine hcounted.perm ?_
  have hset := Pool.perm_flatMap_set RemoteInfoHandler.holds hget
    (.addRefInfo remoteInfo pool.shared.remoteInfo)
  refine Perm.trans ?_ (hset.append_left pool.shared.callers).symm
  simp only [RemoteInfoHandler.holds, if_neg hne]
  refine perm_iff_count.mpr fun info => ?_
  simp only [count_append, count_cons, count_nil]
  omega

theorem Inv.fails (h : pool.Inv) (hkeeps : ¬ pool.Keeps event) :
    ∃ last, pool.next event = some last ∧ ¬ last.Fresh := by
  cases event with
  | arrive => exact h.arrive_fails hkeeps
  | run i =>
    cases hget : pool.handlers[i]? with
    | none => simp [Keeps, hget] at hkeeps
    | some handler =>
      cases handler with
      | update remoteInfo =>
        have hnext : pool.next (.run i) =
            some ⟨(pool.shared.compare remoteInfo).1,
              pool.handlers.set i (pool.shared.compare remoteInfo).2⟩ := by
          simp [RemoteInfoPool.next, Pool.next, hget, RemoteInfoShared.step]
        refine ⟨_, hnext, ?_⟩
        by_cases htime : ∀ held, pool.shared.remoteInfo = some held →
            pool.shared.infos.createTime held = pool.shared.infos.createTime remoteInfo
        · simp only [Keeps, hget] at hkeeps
          push Not at hkeeps
          obtain ⟨hne, other, hother, henters⟩ := hkeeps htime
          exact h.update_fails hget htime hne hother (by simpa using henters)
        · push Not at htime
          obtain ⟨held, hheld, htime⟩ := htime
          exact fun hfresh => compare_fails h.newest hheld htime hfresh.newest
      | _ => simp [Keeps, hget] at hkeeps

theorem start_inv (remoteInfo : Option PeerInfo) : (start remoteInfo).Inv := by
  cases remoteInfo with
  | none =>
    exact { newest := rfl, known := nofun, owed := .inl rfl, counted := balanced_nil }
  | some info =>
    exact {
      newest := ⟨mem_cons_self, forall_mem_singleton.mpr (UInt64.le_refl _)⟩
      known := forall_mem_singleton.mpr rfl
      owed := .inl rfl
      counted := (balanced_nil.alloc info).addRef rfl }

/-- The runtime has the newest of the infos that have come to it, with a reference for it whenever a
call is to come to the lock, as long as they all have the same time, and no call begins or waits when
a reference is still to be taken. -/
theorem remoteInfo_iff (remoteInfo : Option PeerInfo) (events : List (PoolEvent RemoteInfoArrival)) :
    Throughout next Fresh (start remoteInfo) events ↔
      StepsMeet next Keeps (start remoteInfo) events :=
  throughout_iff_of_inv (start_inv remoteInfo) (fun _ h => h.fresh)
    (fun _ _ _ h hkeeps hnext => h.next hkeeps hnext) fun _ _ h hkeeps => h.fails hkeeps

/-- A runtime without an info is given one by two threads. -/
def races : List (PoolEvent RemoteInfoArrival) :=
  [.arrive (.create (PeerFinderRun.infoOf 1)), .arrive (.create (PeerFinderRun.infoOf 1)),
    .arrive (.update 0), .arrive (.update 1), .run 0, .run 1, .run 1, .run 1]

/-- An info is not replaced by a newer one. And when a thread replaces an info before the thread that
stored it has taken the reference, the info is freed, with its caller still to release it. -/
theorem older_info_stays :
    (∃ last, exec next (start (some (PeerFinderRun.infoOf 1)))
        [.arrive (.create (PeerFinderRun.infoOf 2)), .arrive (.update 1), .run 0] = some last ∧
        ¬ last.Fresh ∧ last.shared.remoteInfo = some 0 ∧ last.shared.seen = [0, 1]) ∧
      ¬ Throughout next Fresh (start none) races ∧
      ∃ last, exec next (start none) races = some last ∧ live last.shared.infos 0 = none ∧
        last.others = [1, 0] := by
  refine ⟨⟨_, rfl, fun hfresh => ?_, rfl, rfl⟩, fun hfresh => ?_, ?_⟩
  · exact absurd (hfresh.newest.2 1 (by decide)) (by decide)
  · obtain ⟨cell, hcell, hlt⟩ := (hfresh (races.take 5) (races.drop 5) _ rfl rfl).counted
      ⟨.update 1, mem_cons_of_mem _ mem_cons_self, rfl⟩ 0 rfl
    cases hcell
    exact absurd hlt (by decide)
  · exact ⟨_, rfl, rfl, rfl⟩

end RemoteInfoPool

end Bdt

import Bdt.SuperNode.KeyStore

/-!
# The references of the keys of a UDP interface

A model of the crypto sessions of `crypto_helper.ts` that are attached to a UDP interface, and of what
`server.ts` and `peer_manager.ts` do with them. `keyReferences_iff` says when a key has as many
references as it has holders.
-/

namespace Bdt

open Base List Option

/-- `m_state` of a `SingleKeyCryptoSession`, with `m_keyHash` where it is read. -/
inductive SessionKey where
  | none
  | keyCreated (keyHash : KeyHash)
  | keyUntrust (keyHash : KeyHash)
  | keyExchanged (keyHash : KeyHash)

/-- A `SingleKeyCryptoSession` that is attached to the interface. -/
structure AttachedSession where
  remote : Peerid
  key : SessionKey

/-- `__encrypt` of a package. -/
structure PackageEncrypt where
  peerid : Peerid
  keyHash : KeyHash
  key : List UInt8
  newKey : Bool

inductive KeyRefEvent where
  /-- `addKey` of the history, for a key that it does not have. -/
  | keyAdded (peerid : Peerid) (keyHash : KeyHash) (key : List UInt8)
  /-- The history gives up a key that it has. -/
  | keyExpired (keyHash : KeyHash)
  /-- A session, a clone or not, is attached with what it has for `m_key`. -/
  | setInterface (session : AttachedSession) (key : List UInt8)
  | setUntrustKey (i : Nat) (keyHash : KeyHash)
  | preSendPackage (i : Nat)
  | onRecvPackage (i : Nat) (encrypt : PackageEncrypt)
  /-- The transport of a session gets `undefined` for it, or is forgotten with its peer. -/
  | drop (i : Nat)

/-- The keys of the interface and of the history, the attached sessions, those that were dropped as
`none`, and whether `removeKey` has failed its assertion. -/
structure KeyReferences where
  udpKeys : UDPKeys := []
  history : List (List Char) := []
  sessions : List (Option AttachedSession) := []
  missing : Bool := false

namespace SessionKey

def keyHash? : SessionKey → Option KeyHash
  | none => Option.none
  | keyCreated keyHash | keyUntrust keyHash | keyExchanged keyHash => some keyHash

/-- `preSendPackage`. -/
def send : SessionKey → SessionKey
  | keyCreated keyHash => keyExchanged keyHash
  | key => key

/-- `onRecvPackage` of a session with `keyExchanged` leaves its key. -/
def isExchanged : SessionKey → Bool
  | keyExchanged _ => true
  | _ => false

/-- `m_keyHash` is set and `m_state` is left. -/
def withHash (keyHash : KeyHash) : SessionKey → SessionKey
  | none => none
  | keyCreated _ => keyCreated keyHash
  | keyUntrust _ => keyUntrust keyHash
  | keyExchanged _ => keyExchanged keyHash

end SessionKey

namespace KeyReferences

def isHeld (strHash : List Char) (session : Option AttachedSession) : Bool :=
  (session.bind (·.key.keyHash?)).any (·.toStr = strHash)

local instance lawfulBEq_hash : LawfulBEq (List Char) := inferInstance

/-- The holders of a key: the history, and the sessions that have it. -/
def holders (run : KeyReferences) (strHash : List Char) : Nat :=
  (if strHash ∈ run.history then 1 else 0) + run.sessions.countP (isHeld strHash)

/-- `addKey` of the history, and of the interface where that is told. -/
def historyAdd (run : KeyReferences) (peerid : Peerid) (keyHash : KeyHash) (key : List UInt8) :
    KeyReferences :=
  if keyHash.toStr ∈ run.history then run
  else { run with
    history := run.history ++ [keyHash.toStr]
    udpKeys := run.udpKeys.addKey peerid keyHash key }

/-- `onRecvPackage`. -/
def receive (run : KeyReferences) (i : Nat) (session : AttachedSession) (encrypt : PackageEncrypt) :
    KeyReferences :=
  if session.key.isExchanged then run
  else if !encrypt.newKey && session.remote ≠ encrypt.peerid then
    { run with
      sessions := run.sessions.set i
        (some { session with key := session.key.withHash encrypt.keyHash }) }
  else
    let stored :=
      if encrypt.newKey then run.historyAdd session.remote encrypt.keyHash encrypt.key else run
    { stored with
      udpKeys := stored.udpKeys.addKey encrypt.peerid encrypt.keyHash encrypt.key
      sessions := stored.sessions.set i (some { session with key := .keyExchanged encrypt.keyHash }) }

def next (run : KeyReferences) : KeyRefEvent → Option KeyReferences
  | .keyAdded peerid keyHash key =>
    if keyHash.toStr ∈ run.history then none else some (run.historyAdd peerid keyHash key)
  | .keyExpired keyHash =>
    if keyHash.toStr ∈ run.history then
      some { run with
        history := run.history.filter (· ≠ keyHash.toStr)
        udpKeys := run.udpKeys.removeKey keyHash
        missing := run.missing || (run.udpKeys.queryKey keyHash).isNone }
    else none
  | .setInterface session key =>
    some { run with
      sessions := run.sessions ++ [some session]
      udpKeys :=
        match session.key.keyHash? with
        | none => run.udpKeys
        | some keyHash => run.udpKeys.addKey session.remote keyHash key }
  | .setUntrustKey i keyHash =>
    run.sessions[i]?.join.map fun session =>
      match session.key with
      | .none =>
        { run with sessions := run.sessions.set i (some { session with key := .keyUntrust keyHash }) }
      | _ => run
  | .preSendPackage i =>
    run.sessions[i]?.join.map fun session =>
      { run with sessions := run.sessions.set i (some { session with key := session.key.send }) }
  | .onRecvPackage i encrypt =>
    run.sessions[i]?.join.map fun session => run.receive i session encrypt
  | .drop i =>
    run.sessions[i]?.join.map fun _ => { run with sessions := run.sessions.set i none }

structure Sound (run : KeyReferences) : Prop where
  refs : ∀ keyHash : KeyHash, run.udpKeys.ref keyHash.toStr = run.holders keyHash.toStr
  found : run.missing = false
  query : ∀ keyHash : KeyHash, 0 < run.holders keyHash.toStr → (run.udpKeys.queryKey keyHash).isSome

/-- No session that has a key is dropped, and none is given another one. -/
def Keeps (run : KeyReferences) : KeyRefEvent → Prop
  | .keyAdded _ _ _ | .keyExpired _ | .setInterface _ _ | .preSendPackage _ => True
  | .setUntrustKey i _ => ∀ session, run.sessions[i]? = some (some session) →
      session.key.keyHash? ≠ none
  | .onRecvPackage i encrypt => ∀ session keyHash, run.sessions[i]? = some (some session) →
      session.key.isExchanged = false → session.key.keyHash? = some keyHash →
      encrypt.newKey = false ∧ session.remote ≠ encrypt.peerid ∧
        encrypt.keyHash.toStr = keyHash.toStr
  | .drop i => ∀ session, run.sessions[i]? = some (some session) → session.key.keyHash? = none

/-! ## The holders -/

variable {run after : KeyReferences} {i : Nat} {session : AttachedSession} {keyHash : KeyHash}
  {strHash : List Char} {encrypt : PackageEncrypt} {event : KeyRefEvent}

/-- One when the session has the key. -/
def held (strHash : List Char) (session : Option AttachedSession) : Nat :=
  if isHeld strHash session then 1 else 0

@[simp] theorem held_none (strHash : List Char) : held strHash none = 0 := rfl

theorem held_of_none (h : session.key.keyHash? = none) (strHash : List Char) :
    held strHash (some session) = 0 := by
  simp [held, isHeld, h]

theorem held_of_some (h : session.key.keyHash? = some keyHash) (strHash : List Char) :
    held strHash (some session) = if keyHash.toStr = strHash then 1 else 0 := by
  simp [held, isHeld, h]

theorem held_congr {left right : AttachedSession} (h : left.key.keyHash? = right.key.keyHash?)
    (strHash : List Char) : held strHash (some left) = held strHash (some right) := by
  unfold held isHeld
  rw [Option.bind_some, Option.bind_some, h]

/-- A session becomes another one, and nothing else is changed. -/
theorem holders_set (h : run.sessions[i]? = some (some session)) (new : Option AttachedSession)
    (strHash : List Char) :
    ({ run with sessions := run.sessions.set i new } : KeyReferences).holders strHash +
      held strHash (some session) = run.holders strHash + held strHash new := by
  obtain ⟨hlt, hget⟩ := List.getElem?_eq_some_iff.mp h
  have hpos : isHeld strHash (some session) = true →
      0 < run.sessions.countP (isHeld strHash) := fun hheld =>
    countP_pos_iff.mpr ⟨some session, mem_of_getElem? h, hheld⟩
  unfold holders held
  dsimp only
  rw [countP_set hlt, hget]
  by_cases hheld : isHeld strHash (some session) = true
  · have := hpos hheld
    rw [if_pos hheld]
    omega
  · rw [if_neg hheld]
    omega

theorem session_of_join (h : run.sessions[i]?.join = some session) :
    run.sessions[i]? = some (some session) :=
  join_eq_some_iff.mp h

/-- The keys have as many references as holders. -/
structure Inv (run : KeyReferences) : Prop where
  counted : run.udpKeys.Counted
  refs : ∀ strHash, run.udpKeys.ref strHash = run.holders strHash
  found : run.missing = false

theorem inv_start : Inv {} :=
  ⟨nofun, fun _ => rfl, rfl⟩

theorem Inv.sound (h : Inv run) : Sound run where
  refs _ := h.refs _
  found := h.found
  query keyHash hheld := (h.counted.query keyHash).mpr (h.refs keyHash.toStr ▸ hheld)

/-! ## The steps -/

theorem Inv.set (h : Inv run) (hget : run.sessions[i]? = some (some session))
    {new : AttachedSession} (hheld : ∀ strHash, held strHash (some new) = held strHash (some session)) :
    Inv { run with sessions := run.sessions.set i (some new) } := by
  refine ⟨h.counted, fun strHash => ?_, h.found⟩
  have hset := holders_set hget (some new) strHash
  rw [hheld] at hset
  exact (h.refs strHash).trans (Nat.add_right_cancel hset).symm

theorem historyAdd_holders (run : KeyReferences) (peerid : Peerid) (keyHash : KeyHash)
    (key : List UInt8) (strHash : List Char) :
    ((run.historyAdd peerid keyHash key).udpKeys.ref strHash : Int) -
      (run.historyAdd peerid keyHash key).holders strHash =
        run.udpKeys.ref strHash - run.holders strHash := by
  unfold historyAdd
  split
  · rfl
  case isFalse hnew =>
  unfold holders
  rw [UDPKeys.ref_addKey]
  by_cases heq : keyHash.toStr = strHash
  · subst heq
    simp [hnew]
    omega
  · simp [heq, Ne.symm heq]

theorem Inv.historyAdd (h : Inv run) (peerid : Peerid) (keyHash : KeyHash) (key : List UInt8) :
    Inv (run.historyAdd peerid keyHash key) := by
  refine ⟨?_, fun strHash => ?_, ?_⟩
  · unfold KeyReferences.historyAdd
    split
    · exact h.counted
    · exact h.counted.addKey
  · have hholders := historyAdd_holders run peerid keyHash key strHash
    rw [h.refs] at hholders
    omega
  · unfold KeyReferences.historyAdd
    split <;> exact h.found

theorem historyAdd_sessions (run : KeyReferences) (peerid : Peerid) (keyHash : KeyHash)
    (key : List UInt8) : (run.historyAdd peerid keyHash key).sessions = run.sessions := by
  unfold historyAdd
  split <;> rfl

theorem Inv.takes (h : Inv run) (hget : run.sessions[i]? = some (some session)) (peerid : Peerid)
    (keyHash : KeyHash) (key : List UInt8) (strHash : List Char) :
    ((run.udpKeys.addKey peerid keyHash key).ref strHash : Int) -
      ({ run with
          udpKeys := run.udpKeys.addKey peerid keyHash key
          sessions := run.sessions.set i (some { session with key := .keyExchanged keyHash }) } :
        KeyReferences).holders strHash = held strHash (some session) := by
  have hset := holders_set hget (some { session with key := .keyExchanged keyHash }) strHash
  have hnew : held strHash (some { session with key := .keyExchanged keyHash }) =
      if keyHash.toStr = strHash then 1 else 0 := held_of_some rfl strHash
  rw [UDPKeys.ref_addKey, h.refs, ← hnew]
  unfold holders at hset ⊢
  dsimp only at hset ⊢
  omega

theorem Inv.stored (h : Inv run) (hget : run.sessions[i]? = some (some session))
    (encrypt : PackageEncrypt) :
    Inv (if encrypt.newKey then run.historyAdd session.remote encrypt.keyHash encrypt.key
      else run) ∧
    (if encrypt.newKey then run.historyAdd session.remote encrypt.keyHash encrypt.key
      else run).sessions[i]? = some (some session) := by
  split
  · exact ⟨h.historyAdd _ _ _, (historyAdd_sessions _ _ _ _).symm ▸ hget⟩
  · exact ⟨h, hget⟩

theorem Inv.step (h : Inv run) (hkeeps : Keeps run event) (hnext : next run event = some after) :
    Inv after := by
  cases event with
  | keyAdded peerid keyHash key =>
    simp only [next, ite_none_left_eq_some] at hnext
    obtain ⟨-, hnext⟩ := hnext
    cases hnext
    exact h.historyAdd peerid keyHash key
  | keyExpired keyHash =>
    simp only [next, ite_none_right_eq_some] at hnext
    obtain ⟨hmem, hnext⟩ := hnext
    cases hnext
    have hheld : 0 < run.holders keyHash.toStr := by
      unfold holders
      rw [if_pos hmem]
      omega
    refine ⟨h.counted.removeKey, fun strHash => ?_, ?_⟩
    · rw [h.counted.ref_removeKey, h.refs]
      unfold holders
      by_cases heq : keyHash.toStr = strHash
      · subst heq
        simp [hmem]
      · simp [heq, Ne.symm heq]
    · simp [h.found, h.sound.query keyHash hheld]
  | setInterface session key =>
    cases hnext
    cases hkey : session.key.keyHash? with
    | none =>
      refine ⟨h.counted, fun strHash => (h.refs strHash).trans ?_, h.found⟩
      have hnone := held_of_none hkey strHash
      unfold holders held at *
      dsimp only
      rw [countP_append, countP_singleton, hnone]
      omega
    | some =>
      refine ⟨h.counted.addKey, fun strHash => ?_, h.found⟩
      have hsome := held_of_some hkey strHash
      show (run.udpKeys.addKey _ _ _).ref _ = _
      rw [UDPKeys.ref_addKey, h.refs]
      unfold holders held at *
      dsimp only
      rw [countP_append, countP_singleton, hsome]
      omega
  | setUntrustKey =>
    obtain ⟨session, hget, rfl⟩ := map_eq_some_iff.mp hnext
    have hkey := hkeeps session (session_of_join hget)
    split
    case h_1 heq => exact absurd (by rw [heq]; rfl) hkey
    case h_2 => exact h
  | preSendPackage =>
    obtain ⟨session, hget, rfl⟩ := map_eq_some_iff.mp hnext
    refine h.set (session_of_join hget) (held_congr ?_)
    cases session.key <;> rfl
  | onRecvPackage _ encrypt =>
    obtain ⟨session, hjoin, rfl⟩ := map_eq_some_iff.mp hnext
    have hget := session_of_join hjoin
    have hkey := hkeeps session
    unfold receive
    split
    · exact h
    case isFalse hexchanged =>
    cases hhash : session.key.keyHash? with
    | none =>
      have hnone : session.key = .none := by
        cases heq : session.key <;> simp_all [SessionKey.keyHash?]
      split
      · refine h.set hget fun strHash => ?_
        simp [held, isHeld, hnone, SessionKey.withHash]
      obtain ⟨hstored, hstoredGet⟩ := h.stored hget encrypt
      refine ⟨hstored.counted.addKey, fun strHash => ?_, hstored.found⟩
      have htakes :=
        hstored.takes hstoredGet encrypt.peerid encrypt.keyHash encrypt.key strHash
      rw [held_of_none hhash] at htakes
      dsimp only at htakes ⊢
      omega
    | some keyHash =>
      obtain ⟨hnew, hremote, hsame⟩ :=
        hkey keyHash hget (Bool.eq_false_iff.mpr hexchanged) hhash
      rw [if_pos (by simp [hnew, hremote])]
      refine h.set hget fun strHash => ?_
      rw [held_of_some hhash, ← hsame]
      cases heq : session.key <;> simp_all [held, isHeld, SessionKey.withHash, SessionKey.keyHash?]
  | drop =>
    obtain ⟨session, hjoin, rfl⟩ := map_eq_some_iff.mp hnext
    have hget := session_of_join hjoin
    refine ⟨h.counted, fun strHash => (h.refs strHash).trans ?_, h.found⟩
    have hset := holders_set hget none strHash
    rw [held_of_none (hkeeps session hget), held_none] at hset
    exact hset.symm

/-- A session that holds a key in another way, without a reference for that. -/
theorem Inv.unsound_set (h : Inv run) (hget : run.sessions[i]? = some (some session))
    {new : Option AttachedSession} (keyHash : KeyHash)
    (hne : held keyHash.toStr new ≠ held keyHash.toStr (some session)) :
    ¬ Sound { run with sessions := run.sessions.set i new } := by
  intro hsound
  have hset := holders_set hget new keyHash.toStr
  have hrefs := (h.refs _).symm.trans (hsound.refs keyHash)
  omega

theorem Inv.breaks (h : Inv run) (hkeeps : ¬ Keeps run event) :
    ∃ after, next run event = some after ∧ ¬ Sound after := by
  cases event with
  | keyAdded | keyExpired | setInterface | preSendPackage => exact absurd trivial hkeeps
  | setUntrustKey i keyHash =>
    obtain ⟨session, hget, hnone⟩ : ∃ session, run.sessions[i]? = some (some session) ∧
        session.key.keyHash? = none := by
      simpa only [Keeps, not_forall, exists_prop, not_not] using hkeeps
    have hkey : session.key = .none := by
      cases heq : session.key <;> simp_all [SessionKey.keyHash?]
    refine ⟨_, map_eq_some_iff.mpr ⟨session, join_eq_some_iff.mpr hget, rfl⟩, ?_⟩
    rw [hkey]
    refine h.unsound_set hget keyHash ?_
    rw [held_of_none hnone, held_of_some rfl, if_pos rfl]
    exact Nat.one_ne_zero
  | onRecvPackage i encrypt =>
    obtain ⟨session, keyHash, hget, hexchanged, hkey, hnot⟩ :
        ∃ session keyHash, run.sessions[i]? = some (some session) ∧
          session.key.isExchanged = false ∧ session.key.keyHash? = some keyHash ∧
          ¬ (encrypt.newKey = false ∧ session.remote ≠ encrypt.peerid ∧
            encrypt.keyHash.toStr = keyHash.toStr) := by
      simpa only [Keeps, not_forall, exists_prop] using hkeeps
    refine ⟨_, map_eq_some_iff.mpr ⟨session, join_eq_some_iff.mpr hget, rfl⟩, ?_⟩
    unfold receive
    rw [if_neg (Bool.eq_false_iff.mp hexchanged)]
    by_cases hmismatch : (!encrypt.newKey && session.remote ≠ encrypt.peerid) = true
    · rw [if_pos hmismatch]
      have hother : keyHash.toStr ≠ encrypt.keyHash.toStr := fun heq => by
        simp_all
      have hnew : (session.key.withHash encrypt.keyHash).keyHash? = some encrypt.keyHash := by
        cases heq : session.key <;> simp_all [SessionKey.withHash, SessionKey.keyHash?]
      refine h.unsound_set hget encrypt.keyHash ?_
      rw [held_of_some hkey, if_neg hother, held_of_some hnew, if_pos rfl]
      exact Nat.one_ne_zero
    rw [if_neg hmismatch]
    intro hsound
    obtain ⟨hstored, hstoredGet⟩ := h.stored hget encrypt
    have htakes := hstored.takes hstoredGet encrypt.peerid encrypt.keyHash encrypt.key keyHash.toStr
    have hrefs := hsound.refs keyHash
    rw [held_of_some hkey, if_pos rfl] at htakes
    dsimp only at htakes hrefs
    omega
  | drop i =>
    obtain ⟨session, hget, hsome⟩ : ∃ session, run.sessions[i]? = some (some session) ∧
        session.key.keyHash? ≠ none := by
      simpa only [Keeps, not_forall, exists_prop] using hkeeps
    obtain ⟨keyHash, hkey⟩ := ne_none_iff_exists'.mp hsome
    refine ⟨_, map_eq_some_iff.mpr ⟨session, join_eq_some_iff.mpr hget, rfl⟩, ?_⟩
    refine h.unsound_set hget keyHash ?_
    rw [held_of_some hkey, if_pos rfl]
    exact Nat.zero_ne_one

/-- Every key counts the sessions that have it, in every state, if and only if no session that has a key
is dropped, and none is given another one. -/
theorem keyReferences_iff (events : List KeyRefEvent) :
    Throughout next Sound {} events ↔ StepsMeet next Keeps {} events :=
  throughout_iff_of_inv inv_start (fun _ h => h.sound) (fun _ _ _ h => h.step) fun _ _ h => h.breaks

/-- A session of a peer that went away leaves its reference, and the key is still found. -/
theorem dropped_session_counts :
    let keyHash : KeyHash := ⟨replicate 8 1, rfl⟩
    let peerid : Peerid := ⟨replicate 32 1, rfl⟩
    (exec next {} [.setInterface { remote := peerid, key := .none } [],
        .onRecvPackage 0 { peerid, keyHash, key := [1], newKey := true }, .drop 0,
        .keyExpired keyHash]).map (fun run =>
      (run.udpKeys.ref keyHash.toStr, run.holders keyHash.toStr, (run.udpKeys.queryKey keyHash).isSome)) =
      some (1, 0, true) := by
  decide

end KeyReferences

end Bdt

import Bdt.Global.PeerInfoCodec

/-!
# Signatures of built peer infos

`BdtPeerInfoBuilderFinish` signs a peer info that is not flagged as signed, or flagged as changed
since; but `BdtPeerInfoSign` returns at once where the first flag is set, and the time and the lists
can change without any flag. `built_verifies` says under which conditions on the operations the
signature of a peer info that is returned as signed covers what it holds in the end.
-/

namespace Bdt

open List Option

/-- The encoding of a peer info is decoded, and with it its signature verified. -/
def VerifiesAtPeer (env : PeerEnv) (peerInfo : PeerInfo) : Prop :=
  ∃ written result, bufferWritePeerInfo peerInfo = some written ∧
    bufferReadPeerInfo env written = .ok (some result, [])

/-- An RSA1024 secret, whose signatures fill the array, that belongs to a key: what it signs is verified
with the key. -/
def KeyPair (env : PeerEnv) (secret key : List UInt8) : Prop :=
  ∀ data signature, env.rsaSignMd5 data secret = some signature →
    signature.length = BDT_PEER_LENGTH_SIGNATRUE ∧ env.rsaVerifyMd5 signature key data = true

namespace PeerInfoBuilder

/-- The time that the builder has for its peer info; zero is none. -/
def finishTime (builder : PeerInfoBuilder) : UInt64 :=
  if builder.createTime ≠ 0 then builder.createTime else builder.result.createTime

/-- The peer info of the builder as it is. -/
def current (builder : PeerInfoBuilder) : PeerInfo where
  fields :=
    { builder.result with
      endpoints := builder.endpoints
      snList := builder.snList
      createTime := builder.finishTime }
  snInfoList := builder.snInfoList

/-- The signature of the builder covers what it holds. -/
def Covered (env : PeerEnv) (builder : PeerInfoBuilder) : Prop :=
  peerInfoVerify env builder.result.constInfo builder.result.signature
    (signedPart builder.current) = true

end PeerInfoBuilder

/-- The super nodes of a builder after a clone are those of the peer info: those that it has are
taken over, and the builder has none where the peer info has none. -/
structure TakesOver (builder : PeerInfoBuilder) (proto : PeerInfo) : Prop where
  snInfoList : proto.snInfoList ≠ [] → builder.flags.hasSnInfo = true
  noSnInfoList : proto.snInfoList = [] → builder.snInfoList = []
  snList : proto.snInfoList = [] → proto.fields.snList ≠ [] → builder.flags.hasSnList = true
  noSnList : proto.snInfoList = [] → proto.fields.snList = [] → builder.snList = []

/-- What an operation has to respect for the signature to stay right. -/
def CarefulStep (env : PeerEnv) (builder : PeerInfoBuilder) : BuilderOp → Prop
  -- a signed peer info verifies, and everything that its signature covers is taken over
  | .clone proto =>
    (publicKeyLength proto.fields.constInfo.publicKeyType).isSome ∧
      (∀ snInfo ∈ proto.snInfoList, VerifiesAtPeer env snInfo) ∧
      (proto.fields.signed = true →
        peerInfoVerify env proto.fields.constInfo proto.fields.signature (signedPart proto) = true ∧
          TakesOver builder proto ∧
          (builder.createTime = 0 ∨ builder.createTime = proto.fields.createTime))
  -- a signature is not moved to another key
  | .setConstInfo constInfo =>
    (publicKeyLength constInfo.publicKeyType).isSome ∧
      (builder.result.signed = true → builder.finishTime = 0 ∨
        constInfo.key = builder.result.constInfo.key)
  -- no time is set that would keep the flag
  | .addEndpoint endpoint =>
    builder.result.signed = true → builder.createTime = 0 ∨
      ∀ ep, endpoint = some ep → (PeerInfoBuilder.addToEndpoints ep builder.endpoints).2 = false
  | .addSnInfo peerInfo => ∀ snInfo, peerInfo = some snInfo → VerifiesAtPeer env snInfo
  -- the time that is signed stays
  | .setCreateTime createTime =>
    builder.result.signed = true →
      (builder.setCreateTime createTime).finishTime = builder.finishTime
  -- a signature for what the builder holds
  | .setSignature signature =>
    builder.finishTime = 0 ∨
      ∀ signed, builder.setSignature signature = some signed → signed.Covered env
  | .clearEndpoint | .addSn _ | .setSecret _ => True

/-- What the end has to respect: it signs with the secret of the key, and what is flagged as changed
is not flagged as signed, unless all of its endpoints are. -/
def CarefulFinish (env : PeerEnv) (builder : PeerInfoBuilder) (signSecret : Option (List UInt8)) :
    Prop :=
  ∀ secret, signSecret = some secret →
    if (builder.setSecret secret).result.signed = true ∧ (builder.setSecret secret).finishTime ≠ 0 then
      builder.result.signUpdate = true → ∀ ep ∈ builder.endpoints, ep.isSigned = true
    else KeyPair env secret builder.result.constInfo.key

/-- Every operation respects what it has to. -/
def CarefulRun (env : PeerEnv) : PeerInfoBuilder → List BuilderOp → Prop
  | _, [] => True
  | builder, op :: ops =>
    CarefulStep env builder op ∧ ∀ next, builder.step env op = some next → CarefulRun env next ops

/-- What the operations keep: the super nodes can be decoded, and a signature covers what the builder
holds, or the builder has no time, so that the flag is dropped in the end. -/
structure SignInvariant (env : PeerEnv) (builder : PeerInfoBuilder) : Prop where
  key : (publicKeyLength builder.result.constInfo.publicKeyType).isSome
  snInfoList : ∀ snInfo ∈ builder.snInfoList, VerifiesAtPeer env snInfo
  covered : builder.result.signed = true → builder.finishTime ≠ 0 → builder.Covered env

section

variable {env : PeerEnv} {peerInfo proto : PeerInfo} {fields : PeerFields}
  {snInfoList : List PeerInfo} {builder next : PeerInfoBuilder}

/-! ## What is decoded -/

theorem verifiesAtPeer_iff :
    VerifiesAtPeer env peerInfo ↔
      (bufferWritePeerInfo peerInfo).isSome ∧ readable env peerInfo = true := by
  constructor
  · rintro ⟨written, result, hwritten, hread⟩
    rw [bufferReadPeerInfo_eq hwritten] at hread
    refine ⟨by rw [hwritten]; rfl, ?_⟩
    by_contra hreadable
    rw [Bool.not_eq_true] at hreadable
    rw [hreadable] at hread
    cases hread
  rintro ⟨hsome, hreadable⟩
  obtain ⟨written, hwritten⟩ := isSome_iff_exists.mp hsome
  refine ⟨written, readBack env peerInfo, hwritten, ?_⟩
  rw [bufferReadPeerInfo_eq hwritten, hreadable]
  rfl

/-- Super nodes that can be decoded can be written together. -/
theorem writeSnInfos_of_verifies (h : ∀ snInfo ∈ snInfoList, VerifiesAtPeer env snInfo) :
    ∃ snInfos, writeSnInfos snInfoList = some snInfos := by
  induction snInfoList with
  | nil => exact ⟨[], rfl⟩
  | cons snInfo _ ih =>
    obtain ⟨written, -, hwritten, -⟩ := h snInfo mem_cons_self
    obtain ⟨snInfos, hrest⟩ := ih fun snInfo hmem => h snInfo (mem_cons_of_mem _ hmem)
    refine ⟨written :: snInfos, ?_⟩
    rw [writeSnInfos, hwritten, hrest]
    rfl

/-- A peer info is decoded when its own signature verifies and its super nodes are decoded. -/
theorem verifiesAtPeer_mk (hkey : (publicKeyLength fields.constInfo.publicKeyType).isSome)
    (hinfos : ∀ snInfo ∈ snInfoList, VerifiesAtPeer env snInfo)
    (hverify : peerInfoVerify env fields.constInfo fields.signature
      (signedPart ⟨fields, snInfoList⟩) = true) :
    VerifiesAtPeer env ⟨fields, snInfoList⟩ := by
  obtain ⟨snInfos, hsnInfos⟩ := writeSnInfos_of_verifies hinfos
  refine verifiesAtPeer_iff.mpr ⟨?_, ?_⟩
  · rw [bufferWritePeerInfo_eq_some.mpr ⟨hkey, snInfos, hsnInfos, rfl⟩]
    rfl
  · rw [readable_eq, hverify, Bool.or_true, Bool.and_true, List.all_eq_true]
    exact fun snInfo hmem =>
      (verifiesAtPeer_iff.mp (hinfos snInfo (mem_of_mem_take hmem))).2

/-- The signature covers the endpoints, the super nodes as they are written, and the time. -/
theorem signedPart_congr {other : PeerFields} (hendpoints : fields.endpoints = other.endpoints)
    (hcreateTime : fields.createTime = other.createTime)
    (hwrites : ∃ snInfos, writeSnInfos snInfoList = some snInfos)
    (hsnList : snInfoList = [] → fields.snList = other.snList) :
    signedPart ⟨fields, snInfoList⟩ = signedPart ⟨other, snInfoList⟩ := by
  obtain ⟨snInfos, hsnInfos⟩ := hwrites
  have hsn : writeSnField fields snInfos = writeSnField other snInfos := by
    unfold writeSnField
    by_cases hne : snInfoList = []
    · rw [hsnList hne]
    have hinfos : snInfos ≠ [] := by
      rw [writeSnInfos_eq_map hsnInfos]
      exact mt map_eq_nil_iff.mp hne
    rw [if_pos hinfos, if_pos hinfos]
  unfold signedPart writeSignField
  rw [hsnInfos, getD_some, hsn, hendpoints, hcreateTime]

/-! ## The operations -/

theorem SignInvariant.begin (env : PeerEnv) (flags : BuildFlags) :
    SignInvariant env (builderBegin flags) :=
  ⟨rfl, nofun, nofun⟩

section

variable (h : SignInvariant env builder)
include h

theorem SignInvariant.of_unsigned (hkey : next.result.constInfo = builder.result.constInfo)
    (hinfos : ∀ snInfo ∈ next.snInfoList, VerifiesAtPeer env snInfo)
    (hunsigned : next.result.signed = false) : SignInvariant env next :=
  ⟨by rw [hkey]; exact h.key, hinfos, fun hsigned => absurd (hunsigned.symm.trans hsigned) nofun⟩

theorem SignInvariant.clone (hcareful : CarefulStep env builder (.clone proto)) :
    SignInvariant env (builder.clone proto) := by
  obtain ⟨hkey, hinfos, hsigned⟩ := hcareful
  refine ⟨hkey, ?_, fun hproto _ => ?_⟩
  · intro snInfo hmem
    unfold PeerInfoBuilder.clone at hmem
    simp only at hmem
    split at hmem
    · exact hinfos snInfo hmem
    · exact h.snInfoList snInfo hmem
  obtain ⟨hverify, htakes, htime⟩ := hsigned hproto
  have hsnInfoList : (builder.clone proto).snInfoList = proto.snInfoList := by
    show (if builder.flags.hasSnInfo = true ∧ proto.snInfoList ≠ [] then _ else _) = _
    by_cases hne : proto.snInfoList = []
    · rw [if_neg fun h => h.2 hne, htakes.noSnInfoList hne, hne]
    · exact if_pos ⟨htakes.snInfoList hne, hne⟩
  have hsnList (hnone : proto.snInfoList = []) :
      (builder.clone proto).snList = proto.fields.snList := by
    show (if builder.flags.hasSnList = true ∧ proto.fields.snList ≠ [] then _ else _) = _
    by_cases hne : proto.fields.snList = []
    · rw [if_neg fun h => h.2 hne, htakes.noSnList hnone hne, hne]
    · exact if_pos ⟨htakes.snList hnone hne, hne⟩
  have hfinish : (builder.clone proto).finishTime = proto.fields.createTime := by
    show (if builder.createTime ≠ 0 then builder.createTime else proto.fields.createTime) = _
    rcases htime with hzero | hsame
    · exact if_neg (not_not.mpr hzero)
    · rw [hsame]
      exact ite_self _
  have hpart : signedPart (builder.clone proto).current = signedPart proto := by
    unfold PeerInfoBuilder.current
    rw [hsnInfoList]
    exact signedPart_congr rfl hfinish (writeSnInfos_of_verifies hinfos) hsnList
  unfold PeerInfoBuilder.Covered
  rw [hpart]
  exact hverify

theorem SignInvariant.setConstInfo {constInfo : PeerConstInfo}
    (hcareful : CarefulStep env builder (.setConstInfo constInfo)) :
    SignInvariant env (builder.setConstInfo env constInfo) := by
  obtain ⟨hkey, hsame⟩ := hcareful
  refine ⟨hkey, h.snInfoList, fun hsigned htime => ?_⟩
  have hsame := (hsame hsigned).resolve_left htime
  have hcovered := h.covered hsigned htime
  unfold PeerInfoBuilder.Covered peerInfoVerify at hcovered ⊢
  rw [← hsame] at hcovered
  exact hcovered

theorem SignInvariant.addEndpoint {endpoint : Option BdtEndpoint}
    (hcareful : CarefulStep env builder (.addEndpoint endpoint)) :
    SignInvariant env (builder.addEndpoint endpoint) := by
  cases endpoint with
  | none => exact h
  | some endpoint =>
    rw [PeerInfoBuilder.addEndpoint]
    split
    · next endpoints hadd =>
      refine ⟨h.key, h.snInfoList, fun hsigned htime => absurd ?_ htime⟩
      -- the time is dropped with the change
      have hzero : builder.createTime = 0 := by
        refine (hcareful hsigned).resolve_right fun hunchanged => ?_
        have hunchanged := hunchanged endpoint rfl
        rw [hadd] at hunchanged
        cases hunchanged
      exact if_neg (not_not.mpr hzero)
    · exact h

theorem SignInvariant.addSnInfo {snInfo : Option PeerInfo}
    (hcareful : CarefulStep env builder (.addSnInfo snInfo)) :
    SignInvariant env (builder.addSnInfo snInfo) := by
  cases snInfo with
  | none => exact h
  | some snInfo =>
    rw [PeerInfoBuilder.addSnInfo]
    split
    · exact h
    split
    · exact h
    refine h.of_unsigned rfl (fun info hmem => ?_) rfl
    rcases mem_append.mp hmem with hmem | hmem
    · exact h.snInfoList info hmem
    · rw [mem_singleton.mp hmem]
      exact hcareful snInfo rfl

theorem SignInvariant.setSecret (secret : List UInt8) :
    SignInvariant env (builder.setSecret secret) := by
  unfold PeerInfoBuilder.setSecret
  split
  · exact h.of_unsigned rfl h.snInfoList rfl
  · exact h

theorem SignInvariant.setCreateTime {createTime : UInt64}
    (hcareful : CarefulStep env builder (.setCreateTime createTime)) :
    SignInvariant env (builder.setCreateTime createTime) := by
  refine ⟨h.key, h.snInfoList, fun hsigned htime => ?_⟩
  have hsame := hcareful hsigned
  rw [hsame] at htime
  have hcovered := h.covered hsigned htime
  unfold PeerInfoBuilder.Covered PeerInfoBuilder.current at hcovered ⊢
  rw [hsame]
  exact hcovered

theorem SignInvariant.setSignature {signature : List UInt8}
    (hcareful : CarefulStep env builder (.setSignature signature))
    (hstep : builder.setSignature signature = some next) : SignInvariant env next := by
  have hcovered := hcareful
  unfold PeerInfoBuilder.setSignature at hstep
  split at hstep
  · next hlength =>
    cases hstep
    refine ⟨h.key, h.snInfoList, fun _ htime => ?_⟩
    exact (hcovered.resolve_left htime) _ (dif_pos hlength)
  · cases hstep

theorem SignInvariant.step {op : BuilderOp}
    (hcareful : CarefulStep env builder op) (hstep : builder.step env op = some next) :
    SignInvariant env next := by
  cases op with
  | clone =>
    cases hstep
    exact h.clone hcareful
  | setConstInfo =>
    cases hstep
    exact h.setConstInfo hcareful
  | addEndpoint =>
    cases hstep
    exact h.addEndpoint hcareful
  | clearEndpoint =>
    cases hstep
    unfold PeerInfoBuilder.clearEndpoint
    split
    · exact h.of_unsigned rfl h.snInfoList rfl
    · exact h
  | addSn peerid =>
    cases hstep
    cases peerid with
    | none => exact h
    | some =>
      rw [PeerInfoBuilder.addSn]
      split
      · exact h
      · split
        · exact h
        · exact h.of_unsigned rfl h.snInfoList rfl
  | addSnInfo =>
    cases hstep
    exact h.addSnInfo hcareful
  | setSecret secret =>
    cases hstep
    exact h.setSecret secret
  | setCreateTime =>
    cases hstep
    exact h.setCreateTime hcareful
  | setSignature => exact h.setSignature hcareful hstep

theorem SignInvariant.run {ops : List BuilderOp}
    (hcareful : CarefulRun env builder ops) (hrun : builder.run env ops = some next) :
    SignInvariant env next := by
  induction ops generalizing builder with
  | nil =>
    cases hrun
    exact h
  | cons _ _ ih =>
    obtain ⟨hop, hops⟩ := hcareful
    obtain ⟨middle, hstep, hrest⟩ := bind_eq_some_iff.mp hrun
    exact ih (h.step hop hstep) (hops middle hstep) hrest

end

/-! ## The end -/

theorem assemble_eq_current (now : UInt64) (htime : builder.finishTime ≠ 0) :
    builder.assemble now = builder.current := by
  unfold PeerInfoBuilder.assemble PeerInfoBuilder.current PeerInfoBuilder.finishTime at *
  by_cases hset : builder.createTime ≠ 0
  · simp only [if_pos hset]
  · rw [if_neg hset] at htime
    simp only [if_neg hset, if_neg htime]

theorem assemble_without_time (now : UInt64) (htime : builder.finishTime = 0) :
    builder.assemble now =
      { builder.current with
        fields := { builder.current.fields with createTime := now, signed := false } } := by
  unfold PeerInfoBuilder.finishTime at htime
  unfold PeerInfoBuilder.assemble PeerInfoBuilder.current
  by_cases hset : builder.createTime ≠ 0
  · rw [if_pos hset] at htime
    exact absurd htime hset
  · rw [if_neg hset] at htime
    simp only [if_neg hset, if_pos htime]

variable {now : UInt64}

theorem assemble_signed (h : (builder.assemble now).fields.signed = true) :
    builder.result.signed = true ∧ builder.finishTime ≠ 0 := by
  have htime : builder.finishTime ≠ 0 := by
    intro htime
    rw [assemble_without_time now htime] at h
    cases h
  rw [assemble_eq_current now htime] at h
  exact ⟨h, htime⟩

theorem SignInvariant.assemble (h : SignInvariant env builder)
    (hsigned : (builder.assemble now).fields.signed = true) :
    VerifiesAtPeer env (builder.assemble now) := by
  obtain ⟨hresult, htime⟩ := assemble_signed hsigned
  rw [assemble_eq_current now htime]
  exact verifiesAtPeer_mk h.key h.snInfoList (h.covered hresult htime)

theorem markSigned_flag (flag : UInt8) :
    ((flag ||| BDT_ENDPOINT_FLAG_SIGNED) &&& BDT_ENDPOINT_FLAG_SIGNED ≠ 0) ∧
      (flag ||| BDT_ENDPOINT_FLAG_SIGNED) ||| BDT_ENDPOINT_FLAG_SIGNED =
        flag ||| BDT_ENDPOINT_FLAG_SIGNED ∧
      (flag ||| BDT_ENDPOINT_FLAG_SIGNED) &&& BDT_ENDPOINT_IP_VERSION_4 =
        flag &&& BDT_ENDPOINT_IP_VERSION_4 ∧
      (flag ||| BDT_ENDPOINT_FLAG_SIGNED) &&& BDT_ENDPOINT_IP_VERSION_6 =
        flag &&& BDT_ENDPOINT_IP_VERSION_6 := by
  have hall : ∀ n : Fin 256,
      (UInt8.ofFin n ||| BDT_ENDPOINT_FLAG_SIGNED) &&& BDT_ENDPOINT_FLAG_SIGNED ≠ 0 ∧
        (UInt8.ofFin n ||| BDT_ENDPOINT_FLAG_SIGNED) ||| BDT_ENDPOINT_FLAG_SIGNED =
          UInt8.ofFin n ||| BDT_ENDPOINT_FLAG_SIGNED ∧
        (UInt8.ofFin n ||| BDT_ENDPOINT_FLAG_SIGNED) &&& BDT_ENDPOINT_IP_VERSION_4 =
          UInt8.ofFin n &&& BDT_ENDPOINT_IP_VERSION_4 ∧
        (UInt8.ofFin n ||| BDT_ENDPOINT_FLAG_SIGNED) &&& BDT_ENDPOINT_IP_VERSION_6 =
          UInt8.ofFin n &&& BDT_ENDPOINT_IP_VERSION_6 := by
    decide +kernel
  exact hall flag.toFin

theorem writeSignedEndpoints_markSigned (endpoints : List BdtEndpoint) (count : Nat) :
    writeSignedEndpoints (endpoints.map (·.markSigned)) count false =
      writeSignedEndpoints endpoints count true := by
  unfold writeSignedEndpoints
  have hall : (endpoints.take count).filter (fun ep => true || ep.isSigned) =
      endpoints.take count := filter_eq_self.mpr fun _ _ => rfl
  rw [hall, ← map_take, filter_eq_self.mpr, flatMap_map]
  · refine flatMap_congr fun ep _ => ?_
    obtain ⟨-, hagain, hv4, hv6⟩ := markSigned_flag ep.flag
    unfold writeEndpoint BdtEndpoint.markSigned
    simp only [hagain, hv4, hv6]
  · intro ep hmem
    obtain ⟨endpoint, -, rfl⟩ := List.mem_map.mp hmem
    exact decide_eq_true (markSigned_flag endpoint.flag).1

theorem map_markSigned {endpoints : List BdtEndpoint} (h : ∀ ep ∈ endpoints, ep.isSigned = true) :
    endpoints.map (·.markSigned) = endpoints := by
  refine (map_congr_left fun ep hmem => ?_).trans (List.map_id endpoints)
  unfold BdtEndpoint.markSigned
  rw [isSigned_flag (h ep hmem)]
  rfl

theorem signedPart_resigned {snInfos : List (List UInt8)} (signature : Bytes BDT_PEER_LENGTH_SIGNATRUE)
    (hsnInfos : writeSnInfos snInfoList = some snInfos) :
    signedPart
        { fields :=
            { fields with
              signature
              endpoints := fields.endpoints.map (·.markSigned)
              signed := true
              signUpdate := false }
          snInfoList } =
      writeSignField fields snInfos true := by
  unfold signedPart writeSignField
  rw [hsnInfos, getD_some, writeSignedEndpoints_markSigned, length_map]
  rfl

/-- A signature of the length of the array replaces it, and nothing else. -/
theorem writeSignature_whole (fields : PeerFields) {bytes : List UInt8}
    (h : bytes.length = BDT_PEER_LENGTH_SIGNATRUE) :
    fields.writeSignature bytes = { fields with signature := ⟨bytes, h⟩ } := by
  have htake : bytes.take BDT_PEER_LENGTH_SIGNATRUE = bytes := take_of_length_le (Nat.le_of_eq h)
  unfold PeerFields.writeSignature
  simp only [drop_eq_nil_of_le (Nat.le_of_eq h), if_true, Bytes.overwrite, htake]
  congr 2
  rw [drop_eq_nil_of_le (by rw [fields.signature.2, h]), append_nil]

variable {secret : List UInt8}

theorem verifies_of_sign (fields : PeerFields) (hunsigned : fields.signed = false)
    (hkey : (publicKeyLength fields.constInfo.publicKeyType).isSome)
    (hinfos : ∀ snInfo ∈ snInfoList, VerifiesAtPeer env snInfo)
    (hpair : KeyPair env secret fields.constInfo.key)
    (hresign : resign env secret ⟨fields, snInfoList⟩ = some peerInfo) :
    VerifiesAtPeer env peerInfo := by
  obtain ⟨snInfos, hsnInfos⟩ := writeSnInfos_of_verifies hinfos
  unfold resign peerInfoSign at hresign
  simp only [hsnInfos, hunsigned, Bool.false_eq_true, if_false] at hresign
  split at hresign
  · obtain ⟨signed, hsign, rfl⟩ := map_eq_some_iff.mp hresign
    obtain ⟨bytes, hbytes, rfl⟩ := map_eq_some_iff.mp hsign
    obtain ⟨hlength, hverify⟩ := hpair _ _ hbytes
    rw [writeSignature_whole fields hlength]
    refine verifiesAtPeer_mk hkey hinfos ?_
    rw [signedPart_resigned ⟨bytes, hlength⟩ hsnInfos]
    exact hverify
  · cases hresign

theorem verifies_of_kept (fields : PeerFields) (hsigned : fields.signed = true)
    (hkey : (publicKeyLength fields.constInfo.publicKeyType).isSome)
    (hinfos : ∀ snInfo ∈ snInfoList, VerifiesAtPeer env snInfo)
    (hendpoints : ∀ ep ∈ fields.endpoints, ep.isSigned = true)
    (hverify : peerInfoVerify env fields.constInfo fields.signature
      (signedPart ⟨fields, snInfoList⟩) = true)
    (hresign : resign env secret ⟨fields, snInfoList⟩ = some peerInfo) :
    VerifiesAtPeer env peerInfo := by
  obtain ⟨snInfos, hsnInfos⟩ := writeSnInfos_of_verifies hinfos
  unfold resign peerInfoSign at hresign
  simp only [hsnInfos, hsigned, if_true, map_some] at hresign
  split at hresign
  · cases hresign
    refine verifiesAtPeer_mk hkey hinfos ?_
    rw [map_markSigned hendpoints]
    exact hverify
  · cases hresign

theorem SignInvariant.resign (h : SignInvariant env builder)
    (hcareful : if builder.result.signed = true ∧ builder.finishTime ≠ 0 then
      builder.result.signUpdate = true → ∀ ep ∈ builder.endpoints, ep.isSigned = true
      else KeyPair env secret builder.result.constInfo.key)
    (hupdate : (builder.assemble now).fields.signed = false ∨
      (builder.assemble now).fields.signUpdate = true)
    (hresign : Bdt.resign env secret (builder.assemble now) = some peerInfo) :
    VerifiesAtPeer env peerInfo := by
  by_cases htime : builder.finishTime = 0
  · rw [if_neg fun h => h.2 htime] at hcareful
    rw [assemble_without_time now htime] at hresign
    exact verifies_of_sign { builder.current.fields with createTime := now, signed := false } rfl
      h.key h.snInfoList hcareful hresign
  rw [assemble_eq_current now htime] at hresign hupdate
  cases hsigned : builder.result.signed with
  | false =>
    rw [hsigned, if_neg fun h => absurd h.1 nofun] at hcareful
    exact verifies_of_sign builder.current.fields hsigned h.key h.snInfoList hcareful hresign
  | true =>
    rw [if_pos ⟨hsigned, htime⟩] at hcareful
    have hflag := hupdate.resolve_left fun hnot => absurd (hsigned.symm.trans hnot) nofun
    exact verifies_of_kept builder.current.fields hsigned h.key h.snInfoList (hcareful hflag)
      (h.covered hsigned htime) hresign

theorem SignInvariant.finish (h : SignInvariant env builder)
    {signSecret : Option (List UInt8)} (hcareful : CarefulFinish env builder signSecret)
    (hfinish : builder.finish env now signSecret = some peerInfo)
    (hsigned : peerInfo.fields.signed = true) : VerifiesAtPeer env peerInfo := by
  cases signSecret with
  | none =>
    cases hfinish
    exact h.assemble hsigned
  | some secret =>
    have hcareful := hcareful secret rfl
    have hsecret := h.setSecret secret
    -- a secret changes neither the key nor the endpoints
    have hsame : (builder.setSecret secret).result.constInfo = builder.result.constInfo ∧
        (builder.setSecret secret).result.signUpdate = builder.result.signUpdate ∧
        (builder.setSecret secret).endpoints = builder.endpoints := by
      unfold PeerInfoBuilder.setSecret
      split <;> exact ⟨rfl, rfl, rfl⟩
    obtain ⟨hconst, hupdate, hendpoints⟩ := hsame
    rw [← hconst, ← hupdate, ← hendpoints] at hcareful
    unfold PeerInfoBuilder.finish at hfinish
    simp only at hfinish
    split at hfinish
    · next hagain => exact hsecret.resign hcareful hagain hfinish
    · cases hfinish
      exact hsecret.assemble hsigned

end

/-- In every run of a builder whose operations respect what they have to, a peer info that is
returned as signed verifies at a peer that decodes it. -/
theorem built_verifies (env : PeerEnv) (now : UInt64) (flags : BuildFlags) (ops : List BuilderOp)
    (signSecret : Option (List UInt8)) (hcareful : CarefulRun env (builderBegin flags) ops)
    (hend : ∀ builder, (builderBegin flags).run env ops = some builder →
      CarefulFinish env builder signSecret) :
    ∀ peerInfo, buildPeerInfo env now flags ops signSecret = some peerInfo →
      peerInfo.fields.signed = true → VerifiesAtPeer env peerInfo := by
  intro peerInfo hbuilt hsigned
  obtain ⟨builder, hrun, hfinish⟩ := bind_eq_some_iff.mp hbuilt
  have hinvariant := (SignInvariant.begin env flags).run hcareful hrun
  exact hinvariant.finish (hend builder hrun) hfinish hsigned

/-- A builder without flags. -/
def noFlags : BuildFlags where
  hasSecret := false
  hasSnList := false
  hasSnInfo := false

/-- A peer info with one endpoint, which is signed at the time 1000. -/
def signedLan : Option PeerInfo :=
  buildPeerInfo copyEnv 1000 noFlags
    [.setConstInfo createPeerInfo.constInfo, .addEndpoint (some lanEndpoint)] (some [7])

theorem keyPair_copyEnv (secret key : List UInt8) : KeyPair copyEnv secret key := by
  rintro data signature ⟨⟩
  exact ⟨(Bytes.ofList BDT_PEER_LENGTH_SIGNATRUE data).2, decide_eq_true rfl⟩

theorem built_verifies_lan :
    ∃ peerInfo, signedLan = some peerInfo ∧ peerInfo.fields.signed = true ∧
      VerifiesAtPeer copyEnv peerInfo := by
  have hbuilt : signedLan.map (·.fields.signed) = some true := by decide +kernel
  obtain ⟨peerInfo, hbuilt, hsigned⟩ := map_eq_some_iff.mp hbuilt
  refine ⟨peerInfo, hbuilt, hsigned, ?_⟩
  refine built_verifies copyEnv 1000 noFlags _ _ ?_ ?_ peerInfo hbuilt hsigned
  · refine ⟨⟨rfl, nofun⟩, fun next hnext => ?_⟩
    cases hnext
    exact ⟨nofun, fun _ _ => trivial⟩
  intro builder hrun
  cases hrun
  intro secret _
  rw [if_neg fun h => absurd h.1 nofun]
  exact keyPair_copyEnv _ _

/-- A signed peer info is cloned, gets another time and another endpoint, and is to be signed again:
it is flagged as signed, with the signature that it had. -/
theorem stale_signature :
    ∃ proto peerInfo, signedLan = some proto ∧ VerifiesAtPeer copyEnv proto ∧
      buildPeerInfo copyEnv 3000 noFlags
          [.clone proto, .setCreateTime 2000, .addEndpoint (some { lanEndpoint with port := 8192 })]
          (some [7]) = some peerInfo ∧
      peerInfo.fields.signed = true ∧ ¬ VerifiesAtPeer copyEnv peerInfo := by
  have hrun : (signedLan.bind fun proto =>
      (buildPeerInfo copyEnv 3000 noFlags
        [.clone proto, .setCreateTime 2000, .addEndpoint (some { lanEndpoint with port := 8192 })]
        (some [7])).map fun peerInfo =>
          ((bufferWritePeerInfo proto).isSome, readable copyEnv proto,
            peerInfo.fields.signed, readable copyEnv peerInfo)) =
      some (true, true, true, false) := by
    decide +kernel
  obtain ⟨proto, hproto, hrun⟩ := bind_eq_some_iff.mp hrun
  obtain ⟨peerInfo, hbuilt, hresult⟩ := map_eq_some_iff.mp hrun
  simp only [Prod.mk.injEq] at hresult
  obtain ⟨hwrites, hproto', hsigned, hreadable⟩ := hresult
  refine ⟨proto, peerInfo, hproto, verifiesAtPeer_iff.mpr ⟨hwrites, hproto'⟩, hbuilt, hsigned,
    fun hverifies => ?_⟩
  exact absurd (hreadable.symm.trans (verifiesAtPeer_iff.mp hverifies).2) nofun

end Bdt

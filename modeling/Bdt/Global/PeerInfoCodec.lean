import Mathlib.Data.List.Forall2
import Bdt.Global.PeerInfoBuilder

/-!
# Peer infos on the wire

`readPeerInfo_on` says what `BufferReadPeerInfo` makes of the bytes that `BufferWritePeerInfo` has
written: nothing when a signature does not verify, and otherwise the peer info that `readBack` says.
`roundTrips_iff` says which peer infos come back as they were.
-/

namespace Bdt

open List Option

/-- Induction over a peer info and the peer infos of its super nodes. -/
theorem PeerInfo.induct {motive : PeerInfo → Prop}
    (h : ∀ fields snInfoList, (∀ snInfo ∈ snInfoList, motive snInfo) →
      motive { fields, snInfoList }) (peerInfo : PeerInfo) : motive peerInfo :=
  @PeerInfo.rec motive (fun snInfoList => ∀ snInfo ∈ snInfoList, motive snInfo)
    (fun fields snInfoList ih => h fields snInfoList ih) nofun
    (fun _ _ hhead htail => forall_mem_cons.mpr ⟨hhead, htail⟩) peerInfo

/-! ## What is read -/

/-- The bytes of the union that are written. -/
def BdtEndpoint.usedAddress (endpoint : BdtEndpoint) : List UInt8 :=
  if endpoint.flag &&& BDT_ENDPOINT_IP_VERSION_4 ≠ 0 then endpoint.address.1.take 4
  else if endpoint.flag &&& BDT_ENDPOINT_IP_VERSION_6 ≠ 0 then endpoint.address.1
  else []

/-- An endpoint as it is read back: the rest of the union is left as it was. -/
def BdtEndpoint.reread (env : PeerEnv) (endpoint : BdtEndpoint) : BdtEndpoint :=
  { endpoint with
    address :=
      if endpoint.flag &&& BDT_ENDPOINT_IP_VERSION_4 ≠ 0 then
        env.uninitialized.overwrite ⟨endpoint.address.1.take 4, endpoint.length_take_address⟩
          address_le
      else if endpoint.flag &&& BDT_ENDPOINT_IP_VERSION_6 ≠ 0 then endpoint.address
      else env.uninitialized }

/-- The endpoints in the order in which they are written. -/
def PeerFields.wireEndpoints (fields : PeerFields) : List BdtEndpoint :=
  let endpoints := fields.endpoints.take (writeCount fields.endpoints.length)
  endpoints.filter (!·.isSigned) ++ endpoints.filter (·.isSigned)

/-- The constant part as it is read back. -/
def PeerConstInfo.reread (constInfo : PeerConstInfo) : PeerConstInfo :=
  { constInfo with publicKey := .ofList _ constInfo.key }

/-- What `BufferReadPeerInfo` yields, but for the peer infos of the super nodes. -/
def PeerFields.readBack (env : PeerEnv) (fields : PeerFields) (hasSnInfo : Bool) : PeerFields where
  peerid := peeridFromConstInfo env.sha256Hash fields.constInfo.reread
  constInfo := fields.constInfo.reread
  endpoints := fields.wireEndpoints.map (·.reread env)
  snList := if hasSnInfo then [] else fields.snList.take (writeCount fields.snList.length)
  signature := if fields.writesSigned then fields.signature else .zero _
  createTime := fields.createTime

mutual

/-- What `BufferReadPeerInfo` yields. -/
def readBack (env : PeerEnv) : PeerInfo → PeerInfo
  | ⟨fields, snInfoList⟩ =>
    { fields := fields.readBack env !snInfoList.isEmpty
      snInfoList := (readBackAll env snInfoList).take (writeCount snInfoList.length) }

def readBackAll (env : PeerEnv) : List PeerInfo → List PeerInfo
  | [] => []
  | snInfo :: snInfoList => readBack env snInfo :: readBackAll env snInfoList

end

/-- The bytes that the signature of a peer info has to cover. -/
def signedPart (peerInfo : PeerInfo) : List UInt8 :=
  writeSignField peerInfo.fields ((writeSnInfos peerInfo.snInfoList).getD []) false

mutual

/-- Whether the signatures in a written peer info verify. -/
def readable (env : PeerEnv) : PeerInfo → Bool
  | ⟨fields, snInfoList⟩ =>
    ((readableAll env snInfoList).take (writeCount snInfoList.length)).all id &&
      (!fields.writesSigned ||
        peerInfoVerify env fields.constInfo fields.signature (signedPart ⟨fields, snInfoList⟩))

def readableAll (env : PeerEnv) : List PeerInfo → List Bool
  | [] => []
  | snInfo :: snInfoList => readable env snInfo :: readableAll env snInfoList

end

section

variable {env : PeerEnv} {fields : PeerFields} {peerInfo : PeerInfo} {snInfoList : List PeerInfo}
  {written : List UInt8} {snInfos : List (List UInt8)}

theorem readBackAll_eq (env : PeerEnv) (snInfoList : List PeerInfo) :
    readBackAll env snInfoList = snInfoList.map (readBack env) := by
  induction snInfoList with
  | nil => rfl
  | cons _ _ ih => rw [readBackAll, ih, map_cons]

theorem readableAll_eq (env : PeerEnv) (snInfoList : List PeerInfo) :
    readableAll env snInfoList = snInfoList.map (readable env) := by
  induction snInfoList with
  | nil => rfl
  | cons _ _ ih => rw [readableAll, ih, map_cons]

/-- The super nodes are written when each of them is. -/
theorem writeSnInfos_eq_some :
    writeSnInfos snInfoList = some snInfos ↔
      List.Forall₂ (fun snInfo written => bufferWritePeerInfo snInfo = some written)
        snInfoList snInfos := by
  induction snInfoList generalizing snInfos with
  | nil =>
    rw [writeSnInfos, some.injEq, forall₂_nil_left_iff]
    exact eq_comm
  | cons _ _ ih =>
    rw [writeSnInfos, bind_eq_some_iff, forall₂_cons_left_iff]
    constructor
    · rintro ⟨written, hwritten, hrest⟩
      obtain ⟨rest, htail, rfl⟩ := map_eq_some_iff.mp hrest
      exact ⟨written, rest, hwritten, ih.mp htail, rfl⟩
    · rintro ⟨written, rest, hwritten, hrest, rfl⟩
      exact ⟨written, hwritten, map_eq_some_iff.mpr ⟨rest, ih.mpr hrest, rfl⟩⟩

theorem bufferWritePeerInfo_eq_some :
    bufferWritePeerInfo ⟨fields, snInfoList⟩ = some written ↔
      (publicKeyLength fields.constInfo.publicKeyType).isSome ∧
        ∃ snInfos, writeSnInfos snInfoList = some snInfos ∧ writeFields fields snInfos = written := by
  rw [bufferWritePeerInfo, bind_eq_some_iff, ← exists_and_left]
  simp only [map_eq_some_iff, isSome_iff_exists]
  constructor
  · rintro ⟨length, hlength, snInfos, hwritten⟩
    exact ⟨snInfos, ⟨length, hlength⟩, hwritten⟩
  · rintro ⟨snInfos, ⟨length, hlength⟩, hwritten⟩
    exact ⟨length, hlength, snInfos, hwritten⟩

/-- The super nodes are written as the function on a single one says. -/
theorem writeSnInfos_eq_map (h : writeSnInfos snInfoList = some snInfos) :
    snInfos = snInfoList.map fun snInfo => (bufferWritePeerInfo snInfo).getD [] := by
  have hall := writeSnInfos_eq_some.mp h
  clear h
  induction hall with
  | nil => rfl
  | cons hwritten _ ih => rw [map_cons, hwritten, getD_some, ih]

theorem mem_writeSnInfos (h : writeSnInfos snInfoList = some snInfos) {snInfo : PeerInfo}
    (hmem : snInfo ∈ snInfoList) :
    ∃ written, bufferWritePeerInfo snInfo = some written ∧ written ∈ snInfos := by
  have hall := writeSnInfos_eq_some.mp h
  clear h
  induction hall with
  | nil => cases hmem
  | cons hwritten _ ih =>
    rcases mem_cons.mp hmem with rfl | hmem
    · exact ⟨_, hwritten, mem_cons_self⟩
    · obtain ⟨written, hwritten, hmem⟩ := ih hmem
      exact ⟨written, hwritten, mem_cons_of_mem _ hmem⟩

/-! ## Reading what was written -/

theorem isSigned_flag {endpoint : BdtEndpoint} (h : endpoint.isSigned = true) :
    endpoint.flag ||| BDT_ENDPOINT_FLAG_SIGNED = endpoint.flag := by
  have hflag : ∀ n : Fin 256, UInt8.ofFin n &&& BDT_ENDPOINT_FLAG_SIGNED ≠ 0 →
      UInt8.ofFin n ||| BDT_ENDPOINT_FLAG_SIGNED = UInt8.ofFin n := by
    decide +kernel
  exact hflag endpoint.flag.toFin (of_decide_eq_true h)

theorem writeEndpoint_eq (endpoint : BdtEndpoint) (flag : UInt8) :
    writeEndpoint endpoint flag = [flag] ++ (toLe 2 endpoint.port.toNat ++ endpoint.usedAddress) :=
  rfl

theorem UInt16.toNat_lt_pow (n : UInt16) : n.toNat < 256 ^ 2 :=
  n.toNat_lt

theorem UInt64.toNat_lt_pow (n : UInt64) : n.toNat < 256 ^ 8 :=
  n.toNat_lt

theorem readEndpoint_on (env : PeerEnv) (endpoint : BdtEndpoint) :
    Reader.On (readEndpoint env) (writeEndpoint endpoint endpoint.flag)
      (.ok (endpoint.reread env)) := by
  refine (Reader.On.byte endpoint.flag).bind
    ((Reader.On.number (UInt16.toNat_lt_pow endpoint.port)).bind ?_)
  rw [UInt16.ofNat_toNat]
  unfold BdtEndpoint.reread
  by_cases hv4 : endpoint.flag &&& BDT_ENDPOINT_IP_VERSION_4 ≠ 0
  · simp only [hv4, ne_eq, not_false_eq_true, if_true]
    exact (Reader.On.bytes (n := 4) ⟨endpoint.address.1.take 4,
      endpoint.length_take_address⟩).bind_pure (c := true) _
  by_cases hv6 : endpoint.flag &&& BDT_ENDPOINT_IP_VERSION_6 ≠ 0
  · simp only [hv4, hv6, ne_eq, not_false_eq_true, if_true, if_false]
    exact (Reader.On.bytes endpoint.address).bind_pure (c := true) _
  · simp only [hv4, hv6, if_false]
    exact .pure _

theorem publicKeyLength_le {publicKeyType : UInt8} {length : Nat}
    (h : publicKeyLength publicKeyType = some length) :
    length ≤ BDT_PEER_PUBLIC_KEY_LENTGH_RSA3072 := by
  obtain ⟨hi, rfl⟩ := List.getElem?_eq_some_iff.mp h
  have hall : ∀ n ∈ [162, 294, 422], n ≤ BDT_PEER_PUBLIC_KEY_LENTGH_RSA3072 := by decide
  exact hall _ (getElem_mem hi)

variable {constInfo : PeerConstInfo}

theorem length_key {length : Nat}
    (h : publicKeyLength constInfo.publicKeyType = some length) : constInfo.key.length = length := by
  rw [PeerConstInfo.key, h, getD_some,
    length_take_of_le (by rw [constInfo.publicKey.2]; exact publicKeyLength_le h)]

theorem key_reread (h : (publicKeyLength constInfo.publicKeyType).isSome) :
    constInfo.reread.key = constInfo.key := by
  obtain ⟨length, hlength⟩ := isSome_iff_exists.mp h
  have hkey := length_key hlength
  show (Bytes.ofList _ constInfo.key).1.take ((publicKeyLength constInfo.publicKeyType).getD 0) =
    constInfo.key
  rw [hlength, getD_some, ← hkey]
  exact Bytes.take_ofList (by rw [hkey]; exact publicKeyLength_le hlength)

theorem readConstInfo_on (h : (publicKeyLength constInfo.publicKeyType).isSome) :
    Reader.On readConstInfo (writeConstInfo constInfo) (.ok constInfo.reread) := by
  obtain ⟨length, hlength⟩ := isSome_iff_exists.mp h
  refine (Reader.On.byte _).bind ((Reader.On.byte _).bind ((Reader.On.byte _).bind ?_))
  refine (Reader.On.number (UInt16.toNat_lt_pow _)).bind ((Reader.On.byte _).bind ?_)
  refine (Reader.On.bytes constInfo.deviceId).bind ((Reader.On.byte _).bind ?_)
  simp only [hlength, UInt16.ofNat_toNat]
  exact (Reader.On.bytes ⟨constInfo.key, length_key hlength⟩).bind_pure (c := true) _

theorem length_take_writeCount {α : Type} (values : List α) :
    (values.take (writeCount values.length)).length = writeCount values.length :=
  length_take_of_le (Nat.mod_le _ _)

theorem length_wireEndpoints (fields : PeerFields) :
    fields.wireEndpoints.length = writeCount fields.endpoints.length := by
  have hsplit := length_eq_length_filter_add (fun ep : BdtEndpoint => ep.isSigned)
    (l := fields.endpoints.take (writeCount fields.endpoints.length))
  rw [length_take_writeCount] at hsplit
  simp only [PeerFields.wireEndpoints, length_append]
  omega

/-- Both parts of the endpoints together are what `wireEndpoints` says. -/
theorem writeEndpoints_eq (fields : PeerFields) :
    writeEndpointsWithoutFlag fields.endpoints (writeCount fields.endpoints.length) ++
        writeSignedEndpoints fields.endpoints (writeCount fields.endpoints.length) false =
      fields.wireEndpoints.flatMap fun ep => writeEndpoint ep ep.flag := by
  rw [PeerFields.wireEndpoints, flatMap_append, writeEndpointsWithoutFlag, writeSignedEndpoints]
  congr 1
  refine flatMap_congr fun ep hmem => ?_
  rw [isSigned_flag (by simpa using (mem_filter.mp hmem).2)]

theorem dropWhile_wireEndpoints (env : PeerEnv) (fields : PeerFields) :
    (((fields.wireEndpoints.map fun ep => (ep.reread env, writeEndpoint ep ep.flag)).dropWhile
        (!·.1.isSigned)).flatMap (·.2)) =
      writeSignedEndpoints fields.endpoints (writeCount fields.endpoints.length) false := by
  simp only [PeerFields.wireEndpoints, map_append, writeSignedEndpoints, Bool.false_or]
  generalize fields.endpoints.take (writeCount fields.endpoints.length) = endpoints
  rw [dropWhile_append_of_pos, dropWhile_map]
  · have hkeep : ((endpoints.filter (·.isSigned)).dropWhile
        ((fun e : BdtEndpoint × List UInt8 => !e.1.isSigned) ∘ fun ep =>
          (ep.reread env, writeEndpoint ep ep.flag))) = endpoints.filter (·.isSigned) := by
      cases hsigned : endpoints.filter (·.isSigned) with
      | nil => rfl
      | cons ep =>
        have hmem : ep ∈ endpoints.filter (·.isSigned) := by
          rw [hsigned]
          exact mem_cons_self
        have hep : (ep.reread env).isSigned = true := (mem_filter.mp hmem).2
        exact dropWhile_cons_of_neg (by simp [hep])
    rw [hkeep, flatMap_map]
    refine flatMap_congr fun ep hmem => ?_
    rw [isSigned_flag (mem_filter.mp hmem).2]
  · intro e hmem
    obtain ⟨ep, hep, rfl⟩ := List.mem_map.mp hmem
    exact (mem_filter.mp hep).2

/-! The flags that are written are those that are read. -/

theorem wireFlags_read (fields : PeerFields) (hasSnInfo : Bool) :
    wireFlags fields hasSnInfo ≠ BDT_PEER_INFO_BUILD_FLAG_NULL ∧
      (wireFlags fields hasSnInfo &&& BDT_PEER_INFO_BUILD_FLAG_HAS_SN_INFO ≠ 0 ↔ hasSnInfo = true) ∧
      (wireFlags fields hasSnInfo &&& BDT_PEER_INFO_FLAG_SIGNED ≠ 0 ↔ fields.writesSigned = true) ∧
      (wireFlags fields false &&& BDT_PEER_INFO_BUILD_FLAG_HAS_SN_LIST ≠ 0 ↔ fields.snList ≠ []) := by
  unfold wireFlags
  cases hasSnInfo <;> cases fields.writesSigned <;> by_cases hsn : fields.snList = [] <;>
    simp only [hsn, ne_eq, not_true, not_false_eq_true, if_true, if_false, Bool.false_eq_true] <;>
    decide

theorem length_take_lt {α : Type} (values : List α) :
    (values.take (writeCount values.length)).length < 256 := by
  rw [length_take_writeCount]
  exact Nat.mod_lt _ (by decide)

section

variable {reader : Reader (Option PeerInfo)}

theorem readSnField_none (hsn : fields.snList = []) :
    Reader.On (readSnField (wireFlags fields false) reader) (writeSnField fields []) (.ok {}) := by
  obtain ⟨-, hinfo, -, hlist⟩ := wireFlags_read fields false
  unfold readSnField writeSnField
  rw [if_neg (mt hinfo.mp nofun), if_neg (mt hlist.mp (not_not.mpr hsn)),
    if_neg (fun h : ([] : List (List UInt8)) ≠ [] => h rfl), if_neg (not_not.mpr hsn)]
  exact .pure _

theorem readSnField_list (hsn : fields.snList ≠ []) :
    Reader.On (readSnField (wireFlags fields false) reader) (writeSnField fields [])
      (.ok { snList := fields.snList.take (writeCount fields.snList.length) }) := by
  obtain ⟨-, hinfo, -, hlist⟩ := wireFlags_read fields false
  unfold readSnField writeSnField
  rw [if_neg (mt hinfo.mp nofun), if_pos (hlist.mpr hsn),
    if_neg (fun h : ([] : List (List UInt8)) ≠ [] => h rfl), if_pos hsn]
  have hread := Reader.On.counted (fun peerid : Peerid => peerid.1) id
    (fields.snList.take (writeCount fields.snList.length)) (length_take_lt _)
    fun peerid _ => Reader.On.bytes peerid
  rw [length_take_writeCount, List.map_id] at hread
  exact hread.bind_pure (c := true) _

theorem signField_eq (fields : PeerFields) (snInfos : List (List UInt8)) :
    writeUnsignedField fields false ++ writeSignField fields snInfos false =
      ([UInt8.ofNat fields.wireEndpoints.length] ++
          fields.wireEndpoints.flatMap fun ep => writeEndpoint ep ep.flag) ++
        (writeSnField fields snInfos ++ toLe 8 fields.createTime.toNat) := by
  rw [length_wireEndpoints, ← writeEndpoints_eq, writeUnsignedField, writeSignField]
  simp

variable (fields : PeerFields) (hwritten : writeSnInfos snInfoList = some snInfos)
  (hreader : ∀ snInfo ∈ snInfoList.take (writeCount snInfoList.length), ∀ written,
    bufferWritePeerInfo snInfo = some written → Reader.On reader written (Reader.checked
      (readable env snInfo) (some (readBack env snInfo))))

include hwritten hreader

theorem readSnField_infos (hne : snInfoList ≠ []) :
    Reader.On (readSnField (wireFlags fields true) reader) (writeSnField fields snInfos)
      (Reader.checked ((snInfoList.take (writeCount snInfoList.length)).all (readable env))
        { snInfoList := (snInfoList.take (writeCount snInfoList.length)).map (readBack env) }) := by
  have hsnInfos := writeSnInfos_eq_map hwritten
  have hinfos : snInfos ≠ [] := by
    rw [hsnInfos]
    exact mt map_eq_nil_iff.mp hne
  unfold readSnField writeSnField
  rw [if_pos ((wireFlags_read fields true).2.1.mpr rfl), if_pos hinfos]
  have hlength : snInfos.length = snInfoList.length := by rw [hsnInfos, length_map]
  have hwire : [UInt8.ofNat (writeCount snInfos.length)] ++
        (snInfos.take (writeCount snInfos.length)).flatten =
      [UInt8.ofNat (snInfoList.take (writeCount snInfoList.length)).length] ++
        (snInfoList.take (writeCount snInfoList.length)).flatMap
          fun snInfo => (bufferWritePeerInfo snInfo).getD [] := by
    rw [length_take_writeCount, flatMap_def, map_take, ← hsnInfos, hlength]
  rw [hwire]
  refine (Reader.On.counted_checked _ (readable env) (readBack env) _ (length_take_lt _) ?_).bind_pure _
  intro snInfo hmem
  obtain ⟨written, hone, -⟩ := mem_writeSnInfos hwritten (mem_of_mem_take hmem)
  rw [hone, getD_some]
  exact (hreader snInfo hmem written hone).bind_done (Reader.On.pure _)

theorem readSnField_on :
    Reader.On (readSnField (wireFlags fields (snInfos ≠ [])) reader) (writeSnField fields snInfos)
      (Reader.checked ((snInfoList.take (writeCount snInfoList.length)).all (readable env))
        { snInfoList := (snInfoList.take (writeCount snInfoList.length)).map (readBack env)
          snList := (fields.readBack env !snInfoList.isEmpty).snList }) := by
  have hsnInfos := writeSnInfos_eq_map hwritten
  unfold PeerFields.readBack
  by_cases hne : snInfoList = []
  · subst hne
    obtain rfl : snInfos = [] := hsnInfos
    by_cases hsn : fields.snList = []
    · have hread : Reader.On (readSnField _ reader) _ _ := readSnField_none hsn
      rw [hsn]
      exact hread
    · exact readSnField_list hsn
  have hinfos : snInfos ≠ [] := by
    rw [hsnInfos]
    exact mt map_eq_nil_iff.mp hne
  rw [decide_eq_true hinfos]
  have hread := readSnField_infos fields hwritten hreader hne
  rw [isEmpty_eq_false_iff.mpr hne]
  exact hread

theorem readSignField_on :
    Reader.On (readSignField env (wireFlags fields (snInfos ≠ [])) reader)
      (writeUnsignedField fields false ++ writeSignField fields snInfos false)
      (Reader.checked ((snInfoList.take (writeCount snInfoList.length)).all (readable env))
        { endpoints := fields.wireEndpoints.map (·.reread env)
          sn :=
            { snInfoList := (snInfoList.take (writeCount snInfoList.length)).map (readBack env)
              snList := (fields.readBack env !snInfoList.isEmpty).snList }
          createTime := fields.createTime
          signed := writeSignField fields snInfos false }) := by
  have hendpoints := Reader.On.counted (fun ep : BdtEndpoint => writeEndpoint ep ep.flag)
    (fun ep => (ep.reread env, writeEndpoint ep ep.flag)) fields.wireEndpoints
    (by rw [length_wireEndpoints]; exact Nat.mod_lt _ (by decide))
    fun ep _ => (readEndpoint_on env ep).consumed
  have hsn := readSnField_on fields hwritten hreader
  rw [signField_eq]
  refine hendpoints.bind ?_
  have htime := (Reader.On.number (UInt64.toNat_lt_pow fields.createTime))
  have hbehind : Reader.On (readSnField _ reader >>= fun sn =>
      Reader.number 8 >>= fun createTime => pure (sn, createTime)) _ _ :=
    hsn.bind_checked (htime.bind_pure (c := true) _)
  rw [Bool.and_true] at hbehind
  refine hbehind.consumed_checked.bind_done ?_
  have hsigned : writeSignField fields snInfos false =
      ((fields.wireEndpoints.map fun ep => (ep.reread env, writeEndpoint ep ep.flag)).dropWhile
        (!·.1.isSigned)).flatMap (·.2) ++
          (writeSnField fields snInfos ++ toLe 8 fields.createTime.toNat) := by
    rw [dropWhile_wireEndpoints]
    rfl
  have hmap : fields.wireEndpoints.map (·.reread env) =
      (fields.wireEndpoints.map fun ep => (ep.reread env, writeEndpoint ep ep.flag)).map (·.1) := by
    rw [List.map_map]
    rfl
  simp only [hsigned, hmap, UInt64.ofNat_toNat]
  exact Reader.On.pure _

end

theorem readable_eq (env : PeerEnv) (fields : PeerFields) (snInfoList : List PeerInfo) :
    readable env ⟨fields, snInfoList⟩ =
      ((snInfoList.take (writeCount snInfoList.length)).all (readable env) &&
        (!fields.writesSigned ||
          peerInfoVerify env fields.constInfo fields.signature
            (signedPart ⟨fields, snInfoList⟩))) := by
  rw [readable, readableAll_eq, ← map_take, List.all_map]
  rfl

theorem readBack_eq (env : PeerEnv) (fields : PeerFields) (snInfoList : List PeerInfo) :
    readBack env ⟨fields, snInfoList⟩ =
      { fields := fields.readBack env !snInfoList.isEmpty
        snInfoList := (snInfoList.take (writeCount snInfoList.length)).map (readBack env) } := by
  rw [readBack, readBackAll_eq, map_take]

/-- A super node takes fewer bytes than the peer info that it is in. -/
theorem length_snInfo_lt (fields : PeerFields)
    (hmem : written ∈ snInfos.take (writeCount snInfos.length)) :
    written.length < (writeFields fields snInfos).length := by
  have hne : snInfos ≠ [] := ne_nil_of_mem (mem_of_mem_take hmem)
  have hle := (sublist_flatten_of_mem hmem).length_le
  simp only [writeFields, writeSignField, writeSnField, if_pos hne, length_append, length_singleton]
  omega

theorem readSignature_on (fields : PeerFields) (hasSnInfo : Bool)
    (hkey : (publicKeyLength fields.constInfo.publicKeyType).isSome) (data : List UInt8) :
    Reader.On (readSignature env (wireFlags fields hasSnInfo) fields.constInfo.reread data)
      (if fields.writesSigned then fields.signature.1 else [])
      (Reader.checked
        (!fields.writesSigned || peerInfoVerify env fields.constInfo fields.signature data)
        (if fields.writesSigned then fields.signature else .zero _)) := by
  have hflag := (wireFlags_read fields hasSnInfo).2.2.1
  have hverify : peerInfoVerify env fields.constInfo.reread fields.signature data =
      peerInfoVerify env fields.constInfo fields.signature data := by
    unfold peerInfoVerify
    rw [key_reread hkey]
  unfold readSignature
  cases hsigned : fields.writesSigned with
  | false =>
    rw [if_neg (mt hflag.mp (by simp [hsigned]))]
    exact .pure _
  | true =>
    rw [if_pos (hflag.mpr hsigned), ← hverify, ← append_nil (if true = true then _ else _)]
    refine (Reader.On.bytes fields.signature).bind ?_
    cases peerInfoVerify env fields.constInfo.reread fields.signature data with
    | true => exact .pure _
    | false => exact .fail

theorem readPeerInfo_on (env : PeerEnv) (depth : Nat) (peerInfo : PeerInfo) {written : List UInt8}
    (hwritten : bufferWritePeerInfo peerInfo = some written) (hdepth : written.length ≤ depth) :
    Reader.On (readPeerInfo env depth) written
      (Reader.checked (readable env peerInfo) (some (readBack env peerInfo))) := by
  induction depth generalizing peerInfo written with
  | zero =>
    obtain ⟨fields, snInfoList⟩ := peerInfo
    obtain ⟨-, snInfos, -, rfl⟩ := bufferWritePeerInfo_eq_some.mp hwritten
    exact absurd hdepth (by simp [writeFields])
  | succ depth ih =>
    obtain ⟨fields, snInfoList⟩ := peerInfo
    obtain ⟨hkey, snInfos, hsnInfos, rfl⟩ := bufferWritePeerInfo_eq_some.mp hwritten
    have hreader : ∀ snInfo ∈ snInfoList.take (writeCount snInfoList.length), ∀ written,
        bufferWritePeerInfo snInfo = some written → Reader.On (readPeerInfo env depth) written
          (Reader.checked (readable env snInfo) (some (readBack env snInfo))) := by
      intro snInfo hmem written hone
      refine ih snInfo hone ?_
      have hlt : written.length < (writeFields fields snInfos).length := length_snInfo_lt fields (by
        rw [writeSnInfos_eq_map hsnInfos, length_map, ← map_take]
        exact List.mem_map.mpr ⟨snInfo, hmem, by rw [hone, getD_some]⟩)
      omega
    rw [readable_eq, readBack_eq]
    refine (Reader.On.byte _).bind ?_
    rw [if_neg (wireFlags_read _ _).1]
    refine (readConstInfo_on hkey).bind ?_
    refine (readSignField_on fields hsnInfos hreader).bind_checked ?_
    have hsigned : signedPart ⟨fields, snInfoList⟩ = writeSignField fields snInfos false := by
      rw [signedPart, hsnInfos, getD_some]
    rw [hsigned]
    exact (readSignature_on fields _ hkey _).bind_done (Reader.On.pure _)

theorem bufferReadPeerInfo_eq (hwritten : bufferWritePeerInfo peerInfo = some written) :
    bufferReadPeerInfo env written =
      (Reader.checked (readable env peerInfo) (some (readBack env peerInfo))).map (·, []) := by
  have hread := readPeerInfo_on env (written.length + 1) peerInfo hwritten (Nat.le_succ _) []
  rwa [append_nil] at hread

end

/-! ## Which peer infos come back -/

/-- What an endpoint stands for. -/
def BdtEndpoint.view (endpoint : BdtEndpoint) : UInt8 × UInt16 × List UInt8 :=
  (endpoint.flag, endpoint.port, endpoint.usedAddress)

/-- What two peer infos have in common when they are the same, but for their super nodes. -/
structure SameFields (fields other : PeerFields) : Prop where
  peerid : fields.peerid = other.peerid
  endpoints : fields.endpoints.map (·.view) = other.endpoints.map (·.view)
  snList : fields.snList = other.snList
  createTime : fields.createTime = other.createTime
  signed : fields.signed = other.signed
  signature : fields.signed = true → fields.signature = other.signature

/-- Two peer infos are the same, down to those of their super nodes. -/
inductive Same : PeerInfo → PeerInfo → Prop where
  | mk {fields other : PeerFields} {snInfoList others : List PeerInfo} :
      SameFields fields other → List.Forall₂ Same snInfoList others →
        Same ⟨fields, snInfoList⟩ ⟨other, others⟩

/-- A peer info is written, all of it is read back as the same peer info, and that is written with
the same bytes. -/
def RoundTrips (env : PeerEnv) (peerInfo : PeerInfo) : Prop :=
  ∃ written result, bufferWritePeerInfo peerInfo = some written ∧
    bufferReadPeerInfo env written = .ok (some result, []) ∧
    Same peerInfo result ∧ bufferWritePeerInfo result = some written

/-- The fields of a peer info that come back: those of one that is not signed and has no secret. -/
structure FieldsPreserved (env : PeerEnv) (fields : PeerFields) (snInfoList : List PeerInfo) :
    Prop where
  key : (publicKeyLength fields.constInfo.publicKeyType).isSome
  peerid : fields.peerid = peeridFromConstInfo env.sha256Hash fields.constInfo
  unsigned : fields.signed = false
  noSecret : fields.secret = none
  endpointCount : fields.endpoints.length < 256
  unsignedFirst : fields.endpoints.Pairwise fun a b => a.isSigned = true → b.isSigned = true
  snList : snInfoList ≠ [] → fields.snList = []
  snListCount : fields.snList.length < 256
  snInfoCount : snInfoList.length < 256

/-- A peer info that comes back, with those of its super nodes. -/
inductive Preserved (env : PeerEnv) : PeerInfo → Prop where
  | mk {fields : PeerFields} {snInfoList : List PeerInfo} :
      FieldsPreserved env fields snInfoList → (∀ snInfo ∈ snInfoList, Preserved env snInfo) →
        Preserved env ⟨fields, snInfoList⟩

section

variable {env : PeerEnv} {fields : PeerFields} {peerInfo : PeerInfo} {snInfoList : List PeerInfo}
  {written : List UInt8}

section

variable (env : PeerEnv) (endpoint : BdtEndpoint)

theorem usedAddress_reread :
    (endpoint.reread env).usedAddress = endpoint.usedAddress := by
  unfold BdtEndpoint.usedAddress BdtEndpoint.reread
  by_cases hv4 : endpoint.flag &&& BDT_ENDPOINT_IP_VERSION_4 ≠ 0
  · simp only [if_pos hv4]
    exact Bytes.take_overwrite _ (k := 4) _ _
  · by_cases hv6 : endpoint.flag &&& BDT_ENDPOINT_IP_VERSION_6 ≠ 0
    · simp only [if_neg hv4, if_pos hv6]
    · simp only [if_neg hv4, if_neg hv6]

theorem view_reread :
    (endpoint.reread env).view = endpoint.view := by
  unfold BdtEndpoint.view
  rw [usedAddress_reread]
  rfl

theorem writeEndpoint_reread (flag : UInt8) :
    writeEndpoint (endpoint.reread env) flag = writeEndpoint endpoint flag := by
  rw [writeEndpoint_eq, writeEndpoint_eq, usedAddress_reread]
  rfl

end

theorem peeridFromConstInfo_reread (hkey : (publicKeyLength fields.constInfo.publicKeyType).isSome) :
    peeridFromConstInfo env.sha256Hash fields.constInfo.reread =
      peeridFromConstInfo env.sha256Hash fields.constInfo := by
  unfold peeridFromConstInfo
  simp only [key_reread hkey]
  rfl

theorem writeCount_of_lt {length : Nat} (h : length < 256) : writeCount length = length :=
  Nat.mod_eq_of_lt h

theorem take_writeCount {α : Type} {values : List α} (h : values.length < 256) :
    values.take (writeCount values.length) = values := by
  rw [writeCount_of_lt h, take_length]

/-- The endpoints keep their order when those that are not signed come first. -/
theorem wireEndpoints_eq (hcount : fields.endpoints.length < 256)
    (hfirst : fields.endpoints.Pairwise fun a b => a.isSigned = true → b.isSigned = true) :
    fields.wireEndpoints = fields.endpoints := by
  simp only [PeerFields.wireEndpoints, take_writeCount hcount]
  generalize fields.endpoints = endpoints at hfirst ⊢
  induction hfirst with
  | nil => rfl
  | @cons ep endpoints hep _ ih =>
    cases hsigned : ep.isSigned with
    | false =>
      rw [filter_cons_of_pos (by simp [hsigned]), filter_cons_of_neg (by simp [hsigned]),
        cons_append, ih]
    | true =>
      have hall : ∀ e ∈ ep :: endpoints, e.isSigned = true :=
        forall_mem_cons.mpr ⟨hsigned, fun e hmem => hep e hmem hsigned⟩
      rw [filter_eq_nil_iff.mpr fun e hmem => by simp [hall e hmem], filter_eq_self.mpr hall]
      rfl

theorem pairwise_wireEndpoints (fields : PeerFields) :
    fields.wireEndpoints.Pairwise fun a b => a.isSigned = true → b.isSigned = true := by
  rw [PeerFields.wireEndpoints, pairwise_append]
  refine ⟨pairwise_of_forall_mem_list ?_, pairwise_of_forall_mem_list ?_, ?_⟩
  · intro a ha b _ hsigned
    have hunsigned : a.isSigned = false := by simpa using (mem_filter.mp ha).2
    cases hunsigned.symm.trans hsigned
  · exact fun a _ b hb _ => (mem_filter.mp hb).2
  · exact fun a _ b hb _ => (mem_filter.mp hb).2

section

variable (env : PeerEnv) (fields : PeerFields) (hasSnInfo : Bool)
include hasSnInfo

theorem wireEndpoints_readBack :
    (fields.readBack env hasSnInfo).wireEndpoints = fields.wireEndpoints.map (·.reread env) := by
  refine wireEndpoints_eq ?_ (pairwise_map.mpr (pairwise_wireEndpoints fields))
  show (fields.wireEndpoints.map _).length < 256
  rw [length_map, length_wireEndpoints]
  exact Nat.mod_lt _ (by decide)

theorem writesSigned_readBack :
    (fields.readBack env hasSnInfo).writesSigned = false :=
  rfl

theorem signField_readBack
    (snInfos : List (List UInt8)) :
    writeUnsignedField (fields.readBack env hasSnInfo) false ++
        writeSignField (fields.readBack env hasSnInfo) snInfos false =
      ([UInt8.ofNat fields.wireEndpoints.length] ++
          fields.wireEndpoints.flatMap fun ep => writeEndpoint ep ep.flag) ++
        (writeSnField (fields.readBack env hasSnInfo) snInfos ++ toLe 8 fields.createTime.toNat) := by
  rw [signField_eq, wireEndpoints_readBack, length_map, flatMap_map]
  simp only [writeEndpoint_reread]
  rfl

end

theorem writeConstInfo_readBack (hasSnInfo : Bool)
    (hkey : (publicKeyLength fields.constInfo.publicKeyType).isSome) :
    writeConstInfo (fields.readBack env hasSnInfo).constInfo = writeConstInfo fields.constInfo := by
  show writeConstInfo fields.constInfo.reread = _
  unfold writeConstInfo
  rw [key_reread hkey]
  rfl

section

variable (h : FieldsPreserved env fields snInfoList)
include h

theorem FieldsPreserved.writesSigned : fields.writesSigned = false := by
  rw [PeerFields.writesSigned, h.unsigned, h.noSecret]
  rfl

theorem FieldsPreserved.snList_readBack :
    (fields.readBack env !snInfoList.isEmpty).snList = fields.snList := by
  unfold PeerFields.readBack
  rw [take_writeCount h.snListCount]
  by_cases hne : snInfoList = []
  · subst hne
    rfl
  · rw [h.snList hne]
    exact if_pos (by simpa using hne)

/-- The fields of a peer info that comes back are written with the same bytes. -/
theorem FieldsPreserved.writeFields_readBack (snInfos : List (List UInt8)) :
    writeFields (fields.readBack env !snInfoList.isEmpty) snInfos = writeFields fields snInfos := by
  have hsn := h.snList_readBack
  unfold writeFields
  rw [writeConstInfo_readBack _ h.key, signField_readBack, signField_eq, writesSigned_readBack,
    h.writesSigned]
  unfold wireFlags writeSnField
  rw [hsn, writesSigned_readBack, h.writesSigned]
  simp

end

theorem Preserved.readable (h : Preserved env peerInfo) : readable env peerInfo = true := by
  induction h with
  | @mk fields snInfoList hfields _ ih =>
    rw [readable_eq, hfields.writesSigned, List.all_eq_true.mpr fun snInfo hmem =>
      ih snInfo (mem_of_mem_take hmem)]
    rfl

theorem Preserved.same (h : Preserved env peerInfo) : Same peerInfo (readBack env peerInfo) := by
  induction h with
  | @mk fields snInfoList hfields _ ih =>
    rw [readBack_eq, take_writeCount hfields.snInfoCount]
    refine .mk ⟨?_, ?_, ?_, rfl, hfields.unsigned, ?_⟩ ?_
    · exact hfields.peerid.trans (peeridFromConstInfo_reread hfields.key).symm
    · show _ = (fields.wireEndpoints.map _).map _
      rw [wireEndpoints_eq hfields.endpointCount hfields.unsignedFirst, List.map_map]
      exact map_congr_left fun ep _ => (view_reread env ep).symm
    · exact hfields.snList_readBack.symm
    · exact fun hsigned => absurd (hfields.unsigned.symm.trans hsigned) nofun
    · exact forall₂_map_right_iff.mpr (forall₂_same.mpr ih)

theorem Preserved.rewrites (h : Preserved env peerInfo) :
    ∃ written, bufferWritePeerInfo peerInfo = some written ∧
      bufferWritePeerInfo (readBack env peerInfo) = some written := by
  induction h with
  | @mk fields snInfoList hfields _ ih =>
    obtain ⟨snInfos, hsnInfos, hagain⟩ : ∃ snInfos, writeSnInfos snInfoList = some snInfos ∧
        writeSnInfos (snInfoList.map (readBack env)) = some snInfos := by
      have hlists (l : List PeerInfo) (hl : ∀ snInfo ∈ l, ∃ written,
          bufferWritePeerInfo snInfo = some written ∧
            bufferWritePeerInfo (readBack env snInfo) = some written) :
          ∃ snInfos, writeSnInfos l = some snInfos ∧
            writeSnInfos (l.map (readBack env)) = some snInfos := by
        induction l with
        | nil => exact ⟨[], rfl, rfl⟩
        | cons snInfo _ ihl =>
          obtain ⟨written, hone, hagain⟩ := hl snInfo mem_cons_self
          obtain ⟨snInfos, hrest, hrestAgain⟩ :=
            ihl fun snInfo hmem => hl snInfo (mem_cons_of_mem _ hmem)
          refine ⟨written :: snInfos, ?_, ?_⟩
          · rw [writeSnInfos, hone, hrest]
            rfl
          · rw [map_cons, writeSnInfos, hagain, hrestAgain]
            rfl
      exact hlists snInfoList ih
    refine ⟨writeFields fields snInfos,
      bufferWritePeerInfo_eq_some.mpr ⟨hfields.key, snInfos, hsnInfos, rfl⟩, ?_⟩
    rw [readBack_eq, take_writeCount hfields.snInfoCount]
    exact bufferWritePeerInfo_eq_some.mpr
      ⟨hfields.key, snInfos, hagain, hfields.writeFields_readBack snInfos⟩

/-! ### Peer infos that do not come back -/

theorem eq_of_sum_eq {α : Type} {f g : α → Nat} {l : List α} (hle : ∀ a ∈ l, f a ≤ g a) :
    (l.map f).sum ≤ (l.map g).sum ∧ ((l.map f).sum = (l.map g).sum → ∀ a ∈ l, f a = g a) := by
  induction l with
  | nil => exact ⟨Nat.le_refl 0, nofun⟩
  | cons _ _ ih =>
    obtain ⟨hhead, htail⟩ := forall_mem_cons.mp hle
    obtain ⟨hsum, heq⟩ := ih htail
    simp only [map_cons, sum_cons]
    refine ⟨by omega, fun h => forall_mem_cons.mpr ⟨by omega, heq (by omega)⟩⟩

/-- The bytes that a peer info is written with. -/
def writtenLength (peerInfo : PeerInfo) : Nat :=
  ((bufferWritePeerInfo peerInfo).getD []).length

theorem length_flatten_snInfos {snInfos : List (List UInt8)} (h : writeSnInfos snInfoList = some snInfos)
    (count : Nat) :
    (snInfos.take count).flatten.length = ((snInfoList.take count).map writtenLength).sum := by
  rw [writeSnInfos_eq_map h, ← map_take, length_flatten, List.map_map]
  rfl

/-- Super nodes that can be written can be written again. -/
theorem writeSnInfos_readBack (env : PeerEnv) (l : List PeerInfo)
    (h : ∀ snInfo ∈ l, ∃ written, bufferWritePeerInfo (readBack env snInfo) = some written) :
    ∃ snInfos, writeSnInfos (l.map (readBack env)) = some snInfos := by
  induction l with
  | nil => exact ⟨[], rfl⟩
  | cons snInfo _ ih =>
    obtain ⟨written, hwritten⟩ := h snInfo mem_cons_self
    obtain ⟨snInfos, hrest⟩ := ih fun snInfo hmem => h snInfo (mem_cons_of_mem _ hmem)
    refine ⟨written :: snInfos, ?_⟩
    rw [map_cons, writeSnInfos, hwritten, hrest]
    rfl

theorem length_writeFields (fields : PeerFields) (snInfos : List (List UInt8)) :
    (writeFields fields snInfos).length =
      1 + ((writeConstInfo fields.constInfo).length +
        (((1 + (fields.wireEndpoints.flatMap fun ep => writeEndpoint ep ep.flag).length) +
            ((writeSnField fields snInfos).length + 8)) +
          if fields.writesSigned then BDT_PEER_LENGTH_SIGNATRUE else 0)) := by
  have hsignature : (if fields.writesSigned then fields.signature.1 else []).length =
      if fields.writesSigned then BDT_PEER_LENGTH_SIGNATRUE else 0 := by
    cases fields.writesSigned with
    | false => rfl
    | true => exact fields.signature.2
  unfold writeFields
  rw [signField_eq]
  simp only [length_append, length_singleton, length_toLe, hsignature]

theorem length_writeFields_readBack (env : PeerEnv) (hasSnInfo : Bool)
    (hkey : (publicKeyLength fields.constInfo.publicKeyType).isSome) (snInfos : List (List UInt8)) :
    (writeFields (fields.readBack env hasSnInfo) snInfos).length =
      1 + ((writeConstInfo fields.constInfo).length +
        ((1 + (fields.wireEndpoints.flatMap fun ep => writeEndpoint ep ep.flag).length) +
          ((writeSnField (fields.readBack env hasSnInfo) snInfos).length + 8))) := by
  rw [length_writeFields, writeConstInfo_readBack hasSnInfo hkey, wireEndpoints_readBack,
    flatMap_map, writesSigned_readBack]
  simp only [writeEndpoint_reread]
  rfl

/-- Whether an endpoint is signed is part of its view. -/
theorem pairwise_signed {endpoints : List BdtEndpoint}
    (h : endpoints.map (·.view) = fields.wireEndpoints.map (·.view)) :
    endpoints.Pairwise fun a b => a.isSigned = true → b.isSigned = true := by
  have hpairs : (fields.wireEndpoints.map (·.view)).Pairwise fun a b =>
      (a.1 &&& BDT_ENDPOINT_FLAG_SIGNED ≠ 0 : Bool) = true →
        (b.1 &&& BDT_ENDPOINT_FLAG_SIGNED ≠ 0 : Bool) = true :=
    pairwise_map.mpr (pairwise_wireEndpoints fields)
  rw [← h] at hpairs
  exact pairwise_map.mp hpairs

theorem fieldsPreserved_of_same (hkey : (publicKeyLength fields.constInfo.publicKeyType).isSome)
    (hsigned : fields.writesSigned = false) (hcount : snInfoList.length < 256)
    (h : SameFields fields (fields.readBack env !snInfoList.isEmpty)) :
    FieldsPreserved env fields snInfoList := by
  obtain ⟨hunsigned, hsecret⟩ := Bool.or_eq_false_iff.mp hsigned
  have hendpoints : fields.endpoints.map (·.view) = fields.wireEndpoints.map (·.view) := by
    have hview := h.endpoints
    rw [PeerFields.readBack, List.map_map] at hview
    exact hview.trans (map_congr_left fun ep _ => view_reread env ep)
  have hlength := congrArg List.length hendpoints
  rw [length_map, length_map, length_wireEndpoints] at hlength
  have hsnList : snInfoList ≠ [] → fields.snList = [] := by
    intro hne
    have hflag : (!snInfoList.isEmpty) = true := by simpa using hne
    have hsn := h.snList
    rw [hflag] at hsn
    exact hsn
  refine ⟨hkey, h.peerid.trans (peeridFromConstInfo_reread hkey), hunsigned,
    isSome_eq_false_iff.mp hsecret |> isNone_iff_eq_none.mp, ?_, ?_, hsnList, ?_,
    hcount⟩
  · rw [hlength]
    exact Nat.mod_lt _ (by decide)
  · exact pairwise_signed hendpoints
  by_cases hne : snInfoList = []
  · subst hne
    have hsn : fields.snList = fields.snList.take (writeCount fields.snList.length) := h.snList
    rw [hsn]
    exact length_take_lt _
  · rw [hsnList hne]
    decide

/-- The super nodes that are read back take fewer bytes, unless each of them takes as many. -/
theorem length_snField_readBack (fields : PeerFields) {snInfos snAgain : List (List UInt8)}
    (hsnInfos : writeSnInfos snInfoList = some snInfos)
    (hsnAgain : writeSnInfos ((snInfoList.take (writeCount snInfoList.length)).map (readBack env)) =
      some snAgain)
    (hle : ∀ snInfo ∈ snInfoList, writtenLength (readBack env snInfo) ≤ writtenLength snInfo) :
    (writeSnField (fields.readBack env !snInfoList.isEmpty) snAgain).length ≤
        (writeSnField fields snInfos).length ∧
      ((writeSnField (fields.readBack env !snInfoList.isEmpty) snAgain).length =
          (writeSnField fields snInfos).length →
        ∀ snInfo ∈ snInfoList.take (writeCount snInfoList.length),
          writtenLength (readBack env snInfo) = writtenLength snInfo) := by
  have hmap := writeSnInfos_eq_map hsnInfos
  have hmapAgain := writeSnInfos_eq_map hsnAgain
  by_cases hne : snInfoList = []
  · subst hne
    obtain rfl : snInfos = [] := hmap
    obtain rfl : snAgain = [] := hmapAgain
    refine ⟨?_, fun _ => nofun⟩
    show (writeSnField { fields with snList := fields.snList.take _ } []).length ≤ _
    unfold writeSnField
    rw [if_neg (fun h : ([] : List (List UInt8)) ≠ [] => h rfl),
      if_neg (fun h : ([] : List (List UInt8)) ≠ [] => h rfl)]
    by_cases hsn : fields.snList.take (writeCount fields.snList.length) = []
    · rw [if_neg (not_not.mpr hsn)]
      exact Nat.zero_le _
    · rw [if_pos hsn, if_pos (fun h => hsn (by rw [h, take_nil])),
        take_writeCount (length_take_lt _)]
      simp
  have hinfos : snInfos ≠ [] := by
    rw [hmap]
    exact mt map_eq_nil_iff.mp hne
  have hlength : snInfos.length = snInfoList.length := by rw [hmap, length_map]
  have hwritten : (writeSnField fields snInfos).length =
      1 + ((snInfoList.take (writeCount snInfoList.length)).map writtenLength).sum := by
    rw [writeSnField, if_pos hinfos, length_append, length_singleton,
      length_flatten_snInfos hsnInfos, hlength]
  by_cases hagain : snAgain = []
  · subst hagain
    have hnone : snInfoList.take (writeCount snInfoList.length) = [] := by
      simpa using hmapAgain.symm
    have hzero : writeSnField (fields.readBack env !snInfoList.isEmpty) [] = [] := by
      have hflag : (!snInfoList.isEmpty) = true := by simpa using hne
      rw [hflag]
      rfl
    rw [hzero, hnone]
    exact ⟨Nat.zero_le _, fun _ => nofun⟩
  have hcount : snAgain.length < 256 := by
    rw [hmapAgain, length_map, length_map]
    exact length_take_lt _
  have hread : (writeSnField (fields.readBack env !snInfoList.isEmpty) snAgain).length =
      1 + ((snInfoList.take (writeCount snInfoList.length)).map
        (writtenLength ∘ readBack env)).sum := by
    rw [writeSnField, if_pos hagain, take_writeCount hcount, length_append,
      length_singleton, hmapAgain, length_flatten, List.map_map, List.map_map]
    rfl
  obtain ⟨hsum, heq⟩ := eq_of_sum_eq (f := writtenLength ∘ readBack env) (g := writtenLength)
    fun snInfo hmem => hle snInfo (mem_of_mem_take hmem)
  rw [hwritten, hread]
  exact ⟨Nat.add_le_add_left hsum 1, fun h => heq (Nat.add_left_cancel h)⟩

/-- What is read back is written with fewer bytes, unless the peer info comes back. -/
theorem preserved_of_same (env : PeerEnv) (hwritten : bufferWritePeerInfo peerInfo = some written) :
    ∃ again, bufferWritePeerInfo (readBack env peerInfo) = some again ∧
      again.length ≤ written.length ∧
      (Same peerInfo (readBack env peerInfo) → again.length = written.length →
        Preserved env peerInfo) := by
  induction peerInfo using PeerInfo.induct generalizing written with
  | h fields snInfoList ih =>
    obtain ⟨hkey, snInfos, hsnInfos, rfl⟩ := bufferWritePeerInfo_eq_some.mp hwritten
    have hone (snInfo : PeerInfo) (hmem : snInfo ∈ snInfoList) :
        (∃ again, bufferWritePeerInfo (readBack env snInfo) = some again) ∧
          writtenLength (readBack env snInfo) ≤ writtenLength snInfo ∧
          (Same snInfo (readBack env snInfo) →
            writtenLength (readBack env snInfo) = writtenLength snInfo → Preserved env snInfo) := by
      obtain ⟨written, hone, -⟩ := mem_writeSnInfos hsnInfos hmem
      obtain ⟨again, hagain, hle, hpreserved⟩ := ih snInfo hmem hone
      unfold writtenLength
      rw [hone, hagain]
      exact ⟨⟨again, rfl⟩, hle, hpreserved⟩
    obtain ⟨snAgain, hsnAgain⟩ := writeSnInfos_readBack env
      (snInfoList.take (writeCount snInfoList.length))
      fun snInfo hmem => (hone snInfo (mem_of_mem_take hmem)).1
    obtain ⟨hsn, hsnEq⟩ := length_snField_readBack fields hsnInfos hsnAgain
      fun snInfo hmem => (hone snInfo hmem).2.1
    refine ⟨writeFields (fields.readBack env !snInfoList.isEmpty) snAgain, ?_, ?_, ?_⟩
    · rw [readBack_eq]
      exact bufferWritePeerInfo_eq_some.mpr ⟨hkey, snAgain, hsnAgain, rfl⟩
    · rw [length_writeFields_readBack env _ hkey, length_writeFields]
      omega
    intro hsame hlength
    rw [length_writeFields_readBack env _ hkey, length_writeFields] at hlength
    have hunsigned : fields.writesSigned = false := by
      by_contra hsigned
      rw [if_pos (by simpa using hsigned)] at hlength
      have hpos : 0 < BDT_PEER_LENGTH_SIGNATRUE := by decide
      omega
    rw [hunsigned] at hlength
    have hequal := hsnEq (by simpa using hlength)
    rw [readBack_eq] at hsame
    cases hsame with
    | mk hfields hinfos =>
      have hcount : snInfoList.length < 256 := by
        rw [hinfos.length_eq, length_map]
        exact length_take_lt _
      rw [take_writeCount hcount] at hinfos hequal
      refine .mk (fieldsPreserved_of_same hkey hunsigned hcount hfields) fun snInfo hmem => ?_
      refine (hone snInfo hmem).2.2 ?_ (hequal snInfo hmem)
      exact forall₂_same.mp (forall₂_map_right_iff.mp hinfos) snInfo hmem

theorem RoundTrips.preserved (h : RoundTrips env peerInfo) : Preserved env peerInfo := by
  obtain ⟨written, result, hwritten, hread, hsame, hagain⟩ := h
  rw [bufferReadPeerInfo_eq hwritten] at hread
  cases hreadable : readable env peerInfo with
  | false =>
    rw [hreadable] at hread
    cases hread
  | true =>
    rw [hreadable] at hread
    cases hread
    obtain ⟨again, hwrites, -, hpreserved⟩ := preserved_of_same env hwritten
    cases hagain.symm.trans hwrites
    exact hpreserved hsame rfl

theorem Preserved.roundTrips (h : Preserved env peerInfo) : RoundTrips env peerInfo := by
  obtain ⟨written, hwritten, hagain⟩ := h.rewrites
  refine ⟨written, readBack env peerInfo, hwritten, ?_, h.same, hagain⟩
  rw [bufferReadPeerInfo_eq hwritten, h.readable]
  rfl

end

/-- A peer info comes back exactly when it is not signed, has no secret, has the peerid of its key,
has lists that a byte can count, has its endpoints in the order of the wire and no peerids beside the
peer infos of its super nodes, and when those come back. -/
theorem roundTrips_iff (env : PeerEnv) (peerInfo : PeerInfo) :
    RoundTrips env peerInfo ↔ Preserved env peerInfo :=
  ⟨RoundTrips.preserved, Preserved.roundTrips⟩

/-- Signatures that are the data itself. -/
def copyEnv : PeerEnv where
  rsaSignMd5 data _ := some (Bytes.ofList BDT_PEER_LENGTH_SIGNATRUE data).1
  rsaVerifyMd5 signature _ data := signature = (Bytes.ofList BDT_PEER_LENGTH_SIGNATRUE data).1
  sha256Hash _ := .zero 32
  uninitialized := .zero 16

/-- An endpoint 10.0.0.1:4096 of a udp interface. -/
def lanEndpoint : BdtEndpoint where
  flag := 12
  port := 4096
  address := .ofList 16 [10, 0, 0, 1]

/-- A peer info that the builder has signed does not come back: the flag is not read. -/
theorem signed_flag_lost :
    ∃ peerInfo, buildPeerInfo copyEnv 1000 { hasSecret := false, hasSnList := false, hasSnInfo := false }
        [.setConstInfo createPeerInfo.constInfo, .addEndpoint (some lanEndpoint)] (some [7]) =
          some peerInfo ∧
      ¬ RoundTrips copyEnv peerInfo := by
  have hbuilt : (buildPeerInfo copyEnv 1000
      { hasSecret := false, hasSnList := false, hasSnInfo := false }
      [.setConstInfo createPeerInfo.constInfo, .addEndpoint (some lanEndpoint)] (some [7])).map
        (·.fields.signed) = some true := by
    decide +kernel
  obtain ⟨peerInfo, hbuilt, hsigned⟩ := map_eq_some_iff.mp hbuilt
  refine ⟨peerInfo, hbuilt, fun h => ?_⟩
  cases h.preserved with
  | mk hfields => exact absurd (hfields.unsigned.symm.trans hsigned) nofun

end Bdt

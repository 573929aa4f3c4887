import Bdt.SuperNode.PeerInfoBridge

/-!
# The relay of peer infos

A super node reads a peer info, makes an object of it, makes a peer info of the object again and
writes it. `relays_iff` says which peer infos are read again as they were: a signature is never among
what is read again, endpoints go through strings, and the builder takes what looks the same together.
-/

namespace Bdt

open Base List

/-! ## Endpoints that come back -/

/-- The flags, but for those of the signature and of a static address, that are one IP version and at
most one protocol. -/
def normalFlags : List UInt8 :=
  [BDT_ENDPOINT_IP_VERSION_4, BDT_ENDPOINT_IP_VERSION_4 ||| BDT_ENDPOINT_PROTOCOL_TCP,
    BDT_ENDPOINT_IP_VERSION_4 ||| BDT_ENDPOINT_PROTOCOL_UDP, BDT_ENDPOINT_IP_VERSION_6,
    BDT_ENDPOINT_IP_VERSION_6 ||| BDT_ENDPOINT_PROTOCOL_TCP,
    BDT_ENDPOINT_IP_VERSION_6 ||| BDT_ENDPOINT_PROTOCOL_UDP]

/-- An endpoint that a string can be made of: one that has no IP version has nothing else. -/
def BdtEndpoint.Normal (endpoint : BdtEndpoint) : Prop :=
  PeerInfoBuilder.plainFlag endpoint.flag ∈ normalFlags ∨
    PeerInfoBuilder.plainFlag endpoint.flag = 0 ∧ endpoint.port = 0

/-- What `BdtPeerInfoAddEndpoint` compares. -/
def BdtEndpoint.target (endpoint : BdtEndpoint) : UInt8 × UInt16 × List UInt8 :=
  (PeerInfoBuilder.plainFlag endpoint.flag, endpoint.port, endpoint.usedAddress)

/-- Endpoints that are relayed as they are. -/
structure EndpointsSurvive (endpoints : List BdtEndpoint) : Prop where
  normal : ∀ endpoint ∈ endpoints, endpoint.Normal
  distinct : (endpoints.map (·.target)).Nodup
  unsignedFirst : endpoints.Pairwise fun a b => a.isSigned = true → b.isSigned = true

/-- The flag of an endpoint that is relayed. -/
def relayedFlag (flag : UInt8) : UInt8 :=
  (if flag &&& BDT_ENDPOINT_IP_VERSION_4 ≠ 0 then BDT_ENDPOINT_IP_VERSION_4 ||| protocolFlag flag
    else if flag &&& BDT_ENDPOINT_IP_VERSION_6 ≠ 0 then
      BDT_ENDPOINT_IP_VERSION_6 ||| protocolFlag flag
    else 0) ||| (flag &&& (BDT_ENDPOINT_FLAG_SIGNED ||| BDT_ENDPOINT_FLAG_STATIC_WAN))

variable (endpoint : BdtEndpoint)

theorem relayed_flag : endpoint.relayed.flag = relayedFlag endpoint.flag := by
  unfold BdtEndpoint.relayed BdtEndpoint.throughString relayedFlag
  by_cases hv4 : endpoint.flag &&& BDT_ENDPOINT_IP_VERSION_4 ≠ 0
  · simp only [if_pos hv4]
  · by_cases hv6 : endpoint.flag &&& BDT_ENDPOINT_IP_VERSION_6 ≠ 0
    · simp only [if_neg hv4, if_pos hv6]
    · simp only [if_neg hv4, if_neg hv6]

/-- What is relayed of a flag. -/
structure FlagRelayed (flag : UInt8) : Prop where
  kept : relayedFlag flag = flag ↔
    PeerInfoBuilder.plainFlag flag ∈ normalFlags ∨ PeerInfoBuilder.plainFlag flag = 0
  version4 : relayedFlag flag &&& BDT_ENDPOINT_IP_VERSION_4 = flag &&& BDT_ENDPOINT_IP_VERSION_4
  version6 : flag &&& BDT_ENDPOINT_IP_VERSION_4 = 0 →
    relayedFlag flag &&& BDT_ENDPOINT_IP_VERSION_6 = flag &&& BDT_ENDPOINT_IP_VERSION_6
  plain4 : PeerInfoBuilder.plainFlag flag &&& BDT_ENDPOINT_IP_VERSION_4 =
    flag &&& BDT_ENDPOINT_IP_VERSION_4
  plain6 : PeerInfoBuilder.plainFlag flag &&& BDT_ENDPOINT_IP_VERSION_6 =
    flag &&& BDT_ENDPOINT_IP_VERSION_6
  signed : relayedFlag flag &&& BDT_ENDPOINT_FLAG_SIGNED = flag &&& BDT_ENDPOINT_FLAG_SIGNED

theorem flagRelayed (flag : UInt8) : FlagRelayed flag := by
  have hall : ∀ n : Fin 256,
      (relayedFlag (.ofFin n) = .ofFin n ↔
        PeerInfoBuilder.plainFlag (.ofFin n) ∈ normalFlags ∨
          PeerInfoBuilder.plainFlag (.ofFin n) = 0) ∧
      relayedFlag (.ofFin n) &&& BDT_ENDPOINT_IP_VERSION_4 =
        .ofFin n &&& BDT_ENDPOINT_IP_VERSION_4 ∧
      (UInt8.ofFin n &&& BDT_ENDPOINT_IP_VERSION_4 = 0 →
        relayedFlag (.ofFin n) &&& BDT_ENDPOINT_IP_VERSION_6 =
          .ofFin n &&& BDT_ENDPOINT_IP_VERSION_6) ∧
      PeerInfoBuilder.plainFlag (.ofFin n) &&& BDT_ENDPOINT_IP_VERSION_4 =
        .ofFin n &&& BDT_ENDPOINT_IP_VERSION_4 ∧
      PeerInfoBuilder.plainFlag (.ofFin n) &&& BDT_ENDPOINT_IP_VERSION_6 =
        .ofFin n &&& BDT_ENDPOINT_IP_VERSION_6 ∧
      relayedFlag (.ofFin n) &&& BDT_ENDPOINT_FLAG_SIGNED =
        .ofFin n &&& BDT_ENDPOINT_FLAG_SIGNED := by
    decide +kernel
  obtain ⟨hkept, hv4, hv6, hplain4, hplain6, hsigned⟩ := hall flag.toFin
  exact ⟨hkept, hv4, hv6, hplain4, hplain6, hsigned⟩

theorem take_ofList_take (address : Bytes 16) :
    (Bytes.ofList 16 (address.1.take 4)).1.take 4 = address.1.take 4 := by
  have hlength : (address.1.take 4).length = 4 :=
    length_take_of_le (by rw [address.2]; decide)
  have htake := Bytes.take_ofList (Nat.le_trans (Nat.le_of_eq hlength) (by decide : 4 ≤ 16))
  rwa [hlength] at htake

/-- An endpoint has its address when it is relayed. -/
theorem usedAddress_relayed : endpoint.relayed.usedAddress = endpoint.usedAddress := by
  have hflag := flagRelayed endpoint.flag
  unfold BdtEndpoint.usedAddress
  rw [relayed_flag, hflag.version4]
  by_cases hv4 : endpoint.flag &&& BDT_ENDPOINT_IP_VERSION_4 ≠ 0
  · rw [if_pos hv4, if_pos hv4, BdtEndpoint.relayed, BdtEndpoint.throughString]
    simp only [if_pos hv4]
    exact take_ofList_take endpoint.address
  rw [if_neg hv4, if_neg hv4, hflag.version6 (Classical.not_not.mp hv4)]
  by_cases hv6 : endpoint.flag &&& BDT_ENDPOINT_IP_VERSION_6 ≠ 0
  · rw [if_pos hv6, if_pos hv6, BdtEndpoint.relayed, BdtEndpoint.throughString]
    simp only [if_neg hv4, if_pos hv6]
  · rw [if_neg hv6, if_neg hv6]

theorem port_relayed :
    endpoint.relayed.port =
      if endpoint.flag &&& BDT_ENDPOINT_IP_VERSION_4 ≠ 0 then endpoint.port
      else if endpoint.flag &&& BDT_ENDPOINT_IP_VERSION_6 ≠ 0 then endpoint.port
      else 0 := by
  show endpoint.throughString.port = _
  unfold BdtEndpoint.throughString
  split
  case isTrue => rfl
  case isFalse => split <;> rfl

theorem view_relayed_iff : endpoint.relayed.view = endpoint.view ↔ endpoint.Normal := by
  have hflag := flagRelayed endpoint.flag
  unfold BdtEndpoint.view BdtEndpoint.Normal
  rw [usedAddress_relayed, relayed_flag, port_relayed, Prod.mk.injEq, Prod.mk.injEq, hflag.kept]
  by_cases hversion : endpoint.flag &&& BDT_ENDPOINT_IP_VERSION_4 ≠ 0 ∨
      endpoint.flag &&& BDT_ENDPOINT_IP_VERSION_6 ≠ 0
  · have hport : (if endpoint.flag &&& BDT_ENDPOINT_IP_VERSION_4 ≠ 0 then endpoint.port
        else if endpoint.flag &&& BDT_ENDPOINT_IP_VERSION_6 ≠ 0 then endpoint.port
        else 0) = endpoint.port := by
      split
      case isTrue => rfl
      case isFalse hv4 => exact if_pos (hversion.resolve_left hv4)
    have hplain : PeerInfoBuilder.plainFlag endpoint.flag ≠ 0 := by
      intro hzero
      have hplain4 := hflag.plain4
      have hplain6 := hflag.plain6
      rw [hzero] at hplain4 hplain6
      rcases hversion with hv | hv
      · exact hv hplain4.symm
      · exact hv hplain6.symm
    rw [hport]
    constructor
    · rintro ⟨hnormal | hzero, -, -⟩
      · exact .inl hnormal
      · exact absurd hzero hplain
    · rintro (hnormal | ⟨hzero, -⟩)
      · exact ⟨.inl hnormal, rfl, rfl⟩
      · exact absurd hzero hplain
  push Not at hversion
  obtain ⟨hv4, hv6⟩ := hversion
  have hnone : PeerInfoBuilder.plainFlag endpoint.flag ∉ normalFlags := by
    intro hmem
    have hall : ∀ flag ∈ normalFlags, flag &&& BDT_ENDPOINT_IP_VERSION_4 ≠ 0 ∨
        flag &&& BDT_ENDPOINT_IP_VERSION_6 ≠ 0 := by
      decide +kernel
    rcases hall _ hmem with hv | hv
    · exact hv (hflag.plain4.trans hv4)
    · exact hv (hflag.plain6.trans hv6)
  rw [if_neg (not_not.mpr hv4), if_neg (not_not.mpr hv6)]
  constructor
  · rintro ⟨hnormal | hzero, hport, -⟩
    · exact absurd hnormal hnone
    · exact .inr ⟨hzero, hport.symm⟩
  · rintro (hnormal | ⟨hzero, hport⟩)
    · exact absurd hnormal hnone
    · exact ⟨.inr hzero, hport.symm, rfl⟩

theorem isSameEndpoint_relayed {a b : BdtEndpoint} (ha : a.Normal) (hb : b.Normal) :
    PeerInfoBuilder.isSameEndpoint a.relayed b.relayed = true ↔ a.target = b.target := by
  have hviewA := (view_relayed_iff a).mpr ha
  have hviewB := (view_relayed_iff b).mpr hb
  simp only [BdtEndpoint.view, Prod.mk.injEq] at hviewA hviewB
  obtain ⟨hflagA, hportA, haddressA⟩ := hviewA
  obtain ⟨hflagB, hportB, haddressB⟩ := hviewB
  unfold PeerInfoBuilder.isSameEndpoint BdtEndpoint.target
  rw [Bool.and_eq_true, Bool.and_eq_true, Bool.or_eq_true, Bool.and_eq_true, decide_eq_true_eq,
    decide_eq_true_eq, decide_eq_true_eq, decide_eq_true_eq, decide_eq_true_eq, Prod.mk.injEq,
    Prod.mk.injEq, hflagA, hflagB, hportA, hportB]
  refine and_congr_right fun hplain => and_congr_right fun _ => ?_
  have hrelA := flagRelayed a.flag
  have hrelB := flagRelayed b.flag
  have hv4 : a.flag &&& BDT_ENDPOINT_IP_VERSION_4 = b.flag &&& BDT_ENDPOINT_IP_VERSION_4 := by
    rw [← hrelA.plain4, ← hrelB.plain4, hplain]
  have hv6 : a.flag &&& BDT_ENDPOINT_IP_VERSION_6 = b.flag &&& BDT_ENDPOINT_IP_VERSION_6 := by
    rw [← hrelA.plain6, ← hrelB.plain6, hplain]
  rw [hrelA.plain4]
  unfold BdtEndpoint.usedAddress BdtEndpoint.relayed BdtEndpoint.throughString
  by_cases hversion4 : a.flag &&& BDT_ENDPOINT_IP_VERSION_4 ≠ 0
  · have hversionB : b.flag &&& BDT_ENDPOINT_IP_VERSION_4 ≠ 0 := by rwa [← hv4]
    simp only [if_pos hversion4, if_pos hversionB, take_ofList_take]
    constructor
    · rintro (⟨-, htake⟩ | hall)
      · exact htake
      · have htake := congrArg (fun address : Bytes 16 => address.1.take 4) hall
        simp only [take_ofList_take] at htake
        exact htake
    · exact fun htake => .inl ⟨hversion4, htake⟩
  have hversionB : ¬ b.flag &&& BDT_ENDPOINT_IP_VERSION_4 ≠ 0 := by rwa [← hv4]
  by_cases hversion6 : a.flag &&& BDT_ENDPOINT_IP_VERSION_6 ≠ 0
  · have hversionB6 : b.flag &&& BDT_ENDPOINT_IP_VERSION_6 ≠ 0 := by rwa [← hv6]
    simp only [if_neg hversion4, if_neg hversionB, if_pos hversion6, if_pos hversionB6]
    constructor
    · rintro (⟨hfalse, -⟩ | hall)
      · exact absurd hfalse hversion4
      · exact congrArg Subtype.val hall
    · exact fun hall => .inr (Subtype.ext hall)
  · have hversionB6 : ¬ b.flag &&& BDT_ENDPOINT_IP_VERSION_6 ≠ 0 := by rwa [← hv6]
    simp only [if_neg hversion4, if_neg hversionB, if_neg hversion6, if_neg hversionB6]
    exact ⟨fun _ => trivial, fun _ => .inr trivial⟩

theorem isSigned_relayed : endpoint.relayed.isSigned = endpoint.isSigned := by
  unfold BdtEndpoint.isSigned
  rw [relayed_flag, (flagRelayed endpoint.flag).signed]

theorem pairwise_relayed {endpoints : List BdtEndpoint}
    (hnormal : ∀ endpoint ∈ endpoints, endpoint.Normal) :
    (endpoints.map (·.relayed)).Pairwise
        (fun a b => ¬ PeerInfoBuilder.isSameEndpoint a b = true) ↔
      (endpoints.map (·.target)).Nodup := by
  rw [List.Nodup, pairwise_map, pairwise_map]
  refine List.Pairwise.iff_of_mem fun {a b} ha hb => ?_
  exact not_congr (isSameEndpoint_relayed (hnormal a ha) (hnormal b hb))

/-- The endpoints that are read again are those that were read exactly when they survive. -/
theorem endpoints_iff (env : PeerEnv) {endpoints : List BdtEndpoint}
    (hcount : endpoints.length < 256) {relayed : PeerFields}
    (hrelayed : relayed.endpoints = (endpoints.map (·.relayed)).foldl collectEndpoint []) :
    endpoints.map (·.view) = (relayed.wireEndpoints.map (·.reread env)).map (·.view) ↔
      EndpointsSurvive endpoints := by
  have hviews : (relayed.wireEndpoints.map (·.reread env)).map (·.view) =
      relayed.wireEndpoints.map (·.view) := by
    rw [map_map]
    exact map_congr_left fun ep _ => view_reread env ep
  rw [hviews]
  have hle := collects_endpoints.length_foldl_le (endpoints.map (·.relayed)) []
  rw [← hrelayed, length_map, length_nil, Nat.zero_add] at hle
  have hrelayedCount : relayed.endpoints.length < 256 := Nat.lt_of_le_of_lt hle hcount
  have hwire (hall : (endpoints.map (·.relayed)).Pairwise
        (fun a b => ¬ PeerInfoBuilder.isSameEndpoint a b = true))
      (hfirst : endpoints.Pairwise fun a b => a.isSigned = true → b.isSigned = true) :
      relayed.wireEndpoints = endpoints.map (·.relayed) := by
    have hlist : relayed.endpoints = endpoints.map (·.relayed) := by
      rw [hrelayed, collects_endpoints.foldl_eq _ [] (by rwa [nil_append]), nil_append]
    rw [wireEndpoints_eq hrelayedCount, hlist]
    rw [hlist, pairwise_map]
    simp only [isSigned_relayed]
    exact hfirst
  constructor
  · intro hsame
    have hlength := congrArg List.length hsame
    rw [length_map, length_map, length_wireEndpoints, writeCount_of_lt hrelayedCount]
      at hlength
    have hall := (collects_endpoints.length_foldl_eq_iff (endpoints.map (·.relayed))).mp (by
      rw [← hrelayed, length_map, hlength])
    have hfirst := pairwise_signed hsame
    rw [hwire hall hfirst, map_map] at hsame
    have hnormal : ∀ endpoint ∈ endpoints, endpoint.Normal := fun endpoint hmem =>
      (view_relayed_iff endpoint).mp (map_inj_left.mp hsame endpoint hmem).symm
    exact ⟨hnormal, (pairwise_relayed hnormal).mp hall, hfirst⟩
  intro h
  rw [hwire ((pairwise_relayed h.normal).mpr h.distinct) h.unsignedFirst, map_map]
  exact map_congr_left fun endpoint hmem =>
    ((view_relayed_iff endpoint).mpr (h.normal endpoint hmem)).symm

/-! ## Peer infos that come back -/

/-- What two peer infos have in common when one is relayed as the other, but for the peer infos of
their super nodes. -/
structure SameRelayed (fields other : PeerFields) : Prop where
  peerid : fields.peerid = other.peerid
  constInfo : fields.constInfo = other.constInfo
  endpoints : fields.endpoints.map (·.view) = other.endpoints.map (·.view)
  snList : fields.snList = other.snList
  createTime : fields.createTime = other.createTime
  signature : fields.signature = other.signature

inductive RelayedAs : PeerInfo → PeerInfo → Prop where
  | mk {fields other : PeerFields} {snInfoList others : List PeerInfo} :
      SameRelayed fields other → List.Forall₂ RelayedAs snInfoList others →
        RelayedAs ⟨fields, snInfoList⟩ ⟨other, others⟩

/-- The peer info that was read from `stream` is relayed, and what is written then is read as the
same peer info and is still marked as signed if it was. -/
def RelaysFaithfully (env : PeerEnv) (memory : BridgeMemory) (clock : Nat → UInt64)
    (stream : List UInt8) (peerInfo : PeerInfo) : Prop :=
  ∃ relayed written again, relayPeerInfo env memory clock peerInfo = some relayed ∧
    bufferWritePeerInfo relayed = some written ∧
    bufferReadPeerInfo env written = .ok (some again, []) ∧
    RelayedAs peerInfo again ∧ (MarkedSigned stream ↔ MarkedSigned written)

/-- Fields that are relayed as they are; the builder takes 0 for no time. -/
structure FieldsSurvive (now : UInt64) (fields : PeerFields) : Prop where
  endpoints : EndpointsSurvive fields.endpoints
  createTime : fields.createTime = 0 → now = 0

/-- The peer infos of super nodes that are relayed as they are: without a signature and without
super nodes of their own. -/
def NestedSurvive (clock : Nat → UInt64) : List PeerInfo → Prop
  | [] => True
  | snInfo :: snInfoList =>
    FieldsSurvive (clock (snInfoList.length + 1)) snInfo.fields ∧
      snInfo.fields.signature = .zero _ ∧ snInfo.fields.snList = [] ∧ snInfo.snInfoList = [] ∧
      NestedSurvive clock snInfoList

/-- The bytes of a peerid that the builder compares. -/
def comparedPart (peerid : Peerid) : List UInt8 :=
  peerid.1.take SIZEOF_ENDPOINT

/-- A peer info that is relayed as it is. -/
structure SurvivesRelay (clock : Nat → UInt64) (stream : List UInt8) (peerInfo : PeerInfo) :
    Prop where
  unmarked : ¬ MarkedSigned stream
  fields : FieldsSurvive (clock 0) peerInfo.fields
  snList : (peerInfo.fields.snList.map comparedPart).Nodup
  snInfoList : (peerInfo.snInfoList.map fun snInfo => comparedPart snInfo.fields.peerid).Nodup
  nested : NestedSurvive clock peerInfo.snInfoList

section

variable {env : PeerEnv} {memory : BridgeMemory} {clock : Nat → UInt64} {fields : PeerFields}

theorem createTime_iff {now createTime : UInt64} :
    (createTime = if createTime ≠ 0 then createTime else now) ↔ (createTime = 0 → now = 0) := by
  by_cases hzero : createTime ≠ 0
  · rw [if_pos hzero]
    exact iff_of_true rfl fun h => absurd h hzero
  · rw [if_neg hzero]
    have hzero : createTime = 0 := Classical.not_not.mp hzero
    exact ⟨fun h _ => h.symm.trans hzero, fun h => hzero.trans (h hzero).symm⟩

/-- The fields that are read again are those that were read exactly when they survive. -/
theorem sameRelayed_iff (hdecoded : DecodedFields env fields) {now : UInt64} {relayed : PeerFields}
    (h : RelayedFields env now fields relayed) (hasSnInfo : Bool) :
    SameRelayed fields (relayed.readBack env hasSnInfo) ↔
      FieldsSurvive now fields ∧ fields.signature = .zero _ ∧
        fields.snList = (relayed.readBack env hasSnInfo).snList := by
  have hsignature : (relayed.readBack env hasSnInfo).signature = .zero _ := by
    show (if relayed.writesSigned then relayed.signature else .zero _) = _
    rw [h.unsigned]
    rfl
  have hconst : fields.constInfo = (relayed.readBack env hasSnInfo).constInfo := h.constInfo.symm
  have hpeerid : fields.peerid = (relayed.readBack env hasSnInfo).peerid := by
    show _ = peeridFromConstInfo env.sha256Hash relayed.constInfo.reread
    rw [h.constInfo, hdecoded.peerid]
  have hendpoints := endpoints_iff env hdecoded.endpointCount h.endpoints
  have htime : fields.createTime = (relayed.readBack env hasSnInfo).createTime ↔
      (fields.createTime = 0 → now = 0) := by
    show fields.createTime = relayed.createTime ↔ _
    rw [h.createTime]
    exact createTime_iff
  constructor
  · intro hsame
    exact ⟨⟨hendpoints.mp hsame.endpoints, htime.mp hsame.createTime⟩,
      hsame.signature.trans hsignature, hsame.snList⟩
  · rintro ⟨hfields, hzero, hsnList⟩
    exact ⟨hpeerid, hconst, hendpoints.mpr hfields.endpoints, hsnList,
      htime.mpr hfields.createTime, hzero.trans hsignature.symm⟩

variable {snInfoList others : List PeerInfo}

theorem relayedAs_iff {other : PeerFields} :
    RelayedAs ⟨fields, snInfoList⟩ ⟨other, others⟩ ↔
      SameRelayed fields other ∧ List.Forall₂ RelayedAs snInfoList others := by
  constructor
  · intro h
    cases h with
    | mk hfields hinfos => exact ⟨hfields, hinfos⟩
  · exact fun h => .mk h.1 h.2

section

variable (h : NestedRelayed env clock snInfoList others)
include h

theorem NestedRelayed.length_eq
    : others.length = snInfoList.length := by
  induction h with
  | nil => rfl
  | cons _ _ _ _ _ ih => rw [length_cons, length_cons, ih]

theorem NestedRelayed.peerids :
    others.map (·.fields.peerid) = snInfoList.map (·.fields.peerid) := by
  induction h with
  | nil => rfl
  | cons _ hfields _ _ _ ih => rw [map_cons, map_cons, ih, hfields.peerid]

theorem NestedRelayed.written :
    ∀ other ∈ others, (∃ written, bufferWritePeerInfo other = some written) ∧
      readable env other = true := by
  induction h with
  | nil => nofun
  | @cons snInfo relayed _ _ _ hfields _ hinfos _ ih =>
    refine forall_mem_cons.mpr ⟨?_, ih⟩
    obtain ⟨relayedFields, relayedInfos⟩ := relayed
    cases hinfos
    refine ⟨⟨_, bufferWritePeerInfo_eq_some.mpr ⟨hfields.key, [], rfl, rfl⟩⟩, ?_⟩
    rw [readable_eq, hfields.unsigned]
    rfl

/-- The peer infos of super nodes that are read again are those that were read exactly when they
survive. -/
theorem NestedRelayed.same_iff :
    List.Forall₂ RelayedAs snInfoList (others.map (readBack env)) ↔
      NestedSurvive clock snInfoList := by
  induction h with
  | nil => exact iff_of_true .nil trivial
  | @cons snInfo relayed snInfoList others hdecoded hfields hsnList hinfos _ ih =>
    obtain ⟨relayedFields, relayedInfos⟩ := relayed
    obtain ⟨fields, nested⟩ := snInfo
    cases hinfos
    have hempty : (relayedFields.readBack env false).snList = [] := by
      show relayedFields.snList.take _ = []
      rw [show relayedFields.snList = [] from hsnList, take_nil]
    have hhead : RelayedAs ⟨fields, nested⟩ (readBack env ⟨relayedFields, []⟩) ↔
        FieldsSurvive (clock (snInfoList.length + 1)) fields ∧ fields.signature = .zero _ ∧
          fields.snList = [] ∧ nested = [] := by
      rw [readBack_eq, relayedAs_iff]
      show SameRelayed fields (relayedFields.readBack env false) ∧ List.Forall₂ _ nested [] ↔ _
      rw [sameRelayed_iff hdecoded hfields false, hempty, forall₂_nil_right_iff, and_assoc,
        and_assoc]
    rw [map_cons, forall₂_cons, hhead, ih, NestedSurvive, and_assoc, and_assoc, and_assoc]

end

variable {peerInfo relayed : PeerInfo} {stream : List UInt8}

theorem RelayedInfo.infos_written (h : RelayedInfo env clock peerInfo relayed) :
    ∀ other ∈ relayed.snInfoList, (∃ written, bufferWritePeerInfo other = some written) ∧
      readable env other = true := by
  obtain ⟨others, hothers, hinfos⟩ := h.snInfoList
  intro other hmem
  rw [hinfos] at hmem
  exact hothers.written other ((mem_foldl_addNew hmem).resolve_left nofun)

theorem RelayedInfo.written (h : RelayedInfo env clock peerInfo relayed) :
    ∃ written, bufferWritePeerInfo relayed = some written ∧
      bufferReadPeerInfo env written = .ok (some (readBack env relayed), []) ∧
      ¬ MarkedSigned written := by
  have hinfos := h.infos_written
  have hfields := h.fields
  obtain ⟨relayedFields, relayedInfos⟩ := relayed
  obtain ⟨snInfos, hsnInfos⟩ : ∃ snInfos, writeSnInfos relayedInfos = some snInfos := by
    clear h hfields
    induction relayedInfos with
    | nil => exact ⟨[], rfl⟩
    | cons _ _ ih =>
      obtain ⟨⟨⟨written, hwritten⟩, -⟩, hrest⟩ := forall_mem_cons.mp hinfos
      obtain ⟨snInfos, hsnInfos⟩ := ih hrest
      refine ⟨written :: snInfos, ?_⟩
      rw [writeSnInfos, hwritten, hsnInfos]
      rfl
  have hwritten : bufferWritePeerInfo ⟨relayedFields, relayedInfos⟩ =
      some (writeFields relayedFields snInfos) :=
    bufferWritePeerInfo_eq_some.mpr ⟨hfields.key, snInfos, hsnInfos, rfl⟩
  have hreadable : readable env ⟨relayedFields, relayedInfos⟩ = true := by
    have hall : (relayedInfos.take (writeCount relayedInfos.length)).all (readable env) = true :=
      all_eq_true.mpr fun other hmem => (hinfos other (mem_of_mem_take hmem)).2
    have hunsigned : relayedFields.writesSigned = false := hfields.unsigned
    rw [readable_eq, hall, hunsigned]
    rfl
  refine ⟨_, hwritten, ?_, ?_⟩
  · rw [bufferReadPeerInfo_eq hwritten, hreadable]
    rfl
  · have hflag := (wireFlags_read relayedFields (snInfos ≠ [])).2.2.1
    exact fun hmarked => absurd (hflag.mp hmarked)
      (by rw [show relayedFields.writesSigned = false from hfields.unsigned]; exact Bool.false_ne_true)

theorem sameSn_iff {a b : Peerid} : sameSn a b = true ↔ comparedPart a = comparedPart b :=
  decide_eq_true_iff

/-- The peerids of super nodes that are read again are those that were read exactly when no two of
them are taken for the same. -/
theorem snList_iff {snList : List Peerid} (hcount : snList.length < 256) :
    snList = (snList.foldl (addNew sameSn) []).take
        (writeCount (snList.foldl (addNew sameSn) []).length) ↔
      (snList.map comparedPart).Nodup := by
  have hle := (collects_addNew sameSn).length_foldl_le snList []
  rw [length_nil, Nat.zero_add] at hle
  rw [take_writeCount (Nat.lt_of_le_of_lt hle hcount), List.Nodup, pairwise_map]
  have hpairs : snList.Pairwise (fun a b => ¬ sameSn a b = true) ↔
      snList.Pairwise fun a b => comparedPart a ≠ comparedPart b :=
    List.Pairwise.iff fun a b => not_congr sameSn_iff
  rw [← hpairs, ← (collects_addNew sameSn).length_foldl_eq_iff]
  constructor
  · exact fun h => (congrArg List.length h).symm
  · intro hlength
    have hall := ((collects_addNew sameSn).length_foldl_eq_iff snList).mp hlength
    rw [(collects_addNew sameSn).foldl_eq snList [] (by rwa [nil_append]), nil_append]

theorem NestedRelayed.infos_iff
    (h : NestedRelayed env clock snInfoList others) (hcount : snInfoList.length < 256)
    {infos : List PeerInfo} (hinfos : infos = others.foldl (addNew sameSnInfo) []) :
    List.Forall₂ RelayedAs snInfoList
        ((infos.take (writeCount infos.length)).map (readBack env)) ↔
      (snInfoList.map fun snInfo => comparedPart snInfo.fields.peerid).Nodup ∧
        NestedSurvive clock snInfoList := by
  have hlength := h.length_eq
  have hle := (collects_addNew sameSnInfo).length_foldl_le others []
  rw [← hinfos, length_nil, Nat.zero_add, hlength] at hle
  rw [take_writeCount (Nat.lt_of_le_of_lt hle hcount)]
  have hpairs : others.Pairwise (fun a b => ¬ sameSnInfo a b = true) ↔
      (snInfoList.map fun snInfo => comparedPart snInfo.fields.peerid).Nodup := by
    have hmap : (snInfoList.map fun snInfo => comparedPart snInfo.fields.peerid) =
        others.map fun other => comparedPart other.fields.peerid := by
      have hpeerids := congrArg (List.map comparedPart) h.peerids
      rw [map_map, map_map] at hpeerids
      exact hpeerids.symm
    rw [hmap, List.Nodup, pairwise_map]
    exact List.Pairwise.iff fun a b => not_congr sameSn_iff
  have hkept (hall : others.Pairwise fun a b => ¬ sameSnInfo a b = true) : infos = others := by
    rw [hinfos, (collects_addNew sameSnInfo).foldl_eq others [] (by rwa [nil_append]), nil_append]
  constructor
  · intro hsame
    have hcounted := hsame.length_eq
    rw [length_map, ← hlength, hinfos] at hcounted
    have hall := ((collects_addNew sameSnInfo).length_foldl_eq_iff others).mp hcounted.symm
    rw [hkept hall] at hsame
    exact ⟨hpairs.mp hall, h.same_iff.mp hsame⟩
  · rintro ⟨hnodup, hnested⟩
    rw [hkept (hpairs.mpr hnodup)]
    exact h.same_iff.mpr hnested

theorem RelayedInfo.relayedAs_iff (hdecoded : DecodedInfo env peerInfo)
    (h : RelayedInfo env clock peerInfo relayed) :
    RelayedAs peerInfo (readBack env relayed) ↔
      FieldsSurvive (clock 0) peerInfo.fields ∧ peerInfo.fields.signature = .zero _ ∧
        (peerInfo.fields.snList.map comparedPart).Nodup ∧
        (peerInfo.snInfoList.map fun snInfo => comparedPart snInfo.fields.peerid).Nodup ∧
        NestedSurvive clock peerInfo.snInfoList := by
  cases hdecoded with
  | @mk fields snInfoList hfields heither hcount _ =>
    obtain ⟨relayedFields, relayedInfos⟩ := relayed
    obtain ⟨others, hothers, hinfos⟩ := h.snInfoList
    have hnested := hothers.infos_iff hcount hinfos
    rw [readBack_eq, Bdt.relayedAs_iff, hnested, sameRelayed_iff hfields h.fields, and_assoc,
      and_assoc]
    refine and_congr_right fun _ => and_congr_right fun _ => and_congr_left fun _ => ?_
    show fields.snList = (if !relayedInfos.isEmpty then [] else
      relayedFields.snList.take (writeCount relayedFields.snList.length)) ↔ _
    by_cases hne : snInfoList = []
    · subst hne
      cases hothers
      have hnone : relayedInfos = [] := hinfos
      rw [hnone, show relayedFields.snList = _ from h.snList rfl]
      exact snList_iff hfields.snListCount
    -- the peerids of the super nodes are not beside their peer infos
    rw [heither hne]
    have hsome : relayedInfos ≠ [] := by
      cases hothers with
      | nil => exact absurd rfl hne
      | @cons _ other _ others =>
        have hgrown := (collects_addNew sameSnInfo).le_length_foldl others [other]
        have hlength := congrArg List.length hinfos
        exact ne_nil_of_length_pos (Nat.lt_of_lt_of_eq hgrown hlength.symm)
    have hflag : (!relayedInfos.isEmpty) = true := by simpa using hsome
    rw [hflag]
    exact iff_of_true rfl nodup_nil

end

theorem not_relays_of_marked {env : PeerEnv} {memory : BridgeMemory} {clock : Nat → UInt64}
    {stream rest : List UInt8} {peerInfo : PeerInfo}
    (hread : bufferReadPeerInfo env stream = .ok (some peerInfo, rest))
    (hmarked : MarkedSigned stream) : ¬ RelaysFaithfully env memory clock stream peerInfo := by
  obtain ⟨hdecoded, -⟩ := readPeerInfo_decoded _ hread
  obtain ⟨relayed, hrelayed, hmade⟩ := relayPeerInfo_decoded memory clock hdecoded
  obtain ⟨written, hwritten, -, hunmarked⟩ := hmade.written
  rintro ⟨relayed', written', again, hrelayed', hwritten', -, -, hmarks⟩
  cases hrelayed.symm.trans hrelayed'
  cases hwritten.symm.trans hwritten'
  exact hunmarked (hmarks.mp hmarked)

/-- A peer info that was read from the network is relayed as it is exactly when it is not signed, has
normal endpoints for different targets, those that are signed behind the others, a time, super nodes
that differ in the bytes that are compared, and when the peer infos of those are like this, without
super nodes of their own. -/
theorem relays_iff (env : PeerEnv) (memory : BridgeMemory) (clock : Nat → UInt64)
    (stream rest : List UInt8) (peerInfo : PeerInfo)
    (hread : bufferReadPeerInfo env stream = .ok (some peerInfo, rest)) :
    RelaysFaithfully env memory clock stream peerInfo ↔ SurvivesRelay clock stream peerInfo := by
  obtain ⟨hdecoded, hzero⟩ := readPeerInfo_decoded _ hread
  obtain ⟨relayed, hrelayed, hmade⟩ := relayPeerInfo_decoded memory clock hdecoded
  obtain ⟨written, hwritten, hagain, hunmarked⟩ := hmade.written
  have hsame := hmade.relayedAs_iff hdecoded
  constructor
  · rintro ⟨relayed', written', again, hrelayed', hwritten', hagain', has, hmarks⟩
    cases hrelayed.symm.trans hrelayed'
    cases hwritten.symm.trans hwritten'
    cases hagain.symm.trans hagain'
    obtain ⟨hfields, -, hsnList, hinfos, hnested⟩ := hsame.mp has
    exact ⟨fun h => hunmarked (hmarks.mp h), hfields, hsnList, hinfos, hnested⟩
  intro h
  refine ⟨relayed, written, readBack env relayed, hrelayed, hwritten, hagain, ?_,
    iff_of_false h.unmarked hunmarked⟩
  exact hsame.mpr ⟨h.fields, hzero h.unmarked, h.snList, h.snInfoList, h.nested⟩

/-- A peer info of an empty key, with an endpoint, a super node and the time 1. -/
def timedInfo (signed : Bool) : PeerInfo where
  fields :=
    { createPeerInfo with
      signed, endpoints := [lanEndpoint], snList := [.zero _], createTime := 1
      signature := .ofList BDT_PEER_LENGTH_SIGNATRUE ([1] ++ replicate 32 0 ++ toLe 8 1) }
  snInfoList := []

theorem timedInfo_read (signed : Bool) :
    ∃ stream, bufferReadPeerInfo copyEnv stream =
        .ok (some (readBack copyEnv (timedInfo signed)), []) ∧
      (MarkedSigned stream ↔ signed = true) := by
  have hwritten : bufferWritePeerInfo (timedInfo signed) =
      some (writeFields (timedInfo signed).fields []) :=
    bufferWritePeerInfo_eq_some.mpr ⟨rfl, [], rfl, rfl⟩
  have hverify : peerInfoVerify copyEnv (timedInfo signed).fields.constInfo
      (timedInfo signed).fields.signature (signedPart (timedInfo signed)) = true :=
    decide_eq_true rfl
  have hreadable : readable copyEnv (timedInfo signed) = true := by
    have hall := readable_eq copyEnv (timedInfo signed).fields []
    rw [show readable copyEnv (timedInfo signed) = _ from hall,
      show peerInfoVerify copyEnv (timedInfo signed).fields.constInfo
        (timedInfo signed).fields.signature (signedPart ⟨(timedInfo signed).fields, []⟩) = true
        from hverify, Bool.or_true]
    rfl
  refine ⟨writeFields (timedInfo signed).fields [], ?_,
    (wireFlags_read (timedInfo signed).fields false).2.2.1.trans ?_⟩
  · rw [bufferReadPeerInfo_eq hwritten, hreadable]
    rfl
  · show (signed || false) = true ↔ _
    rw [Bool.or_false]

def emptyMemory : BridgeMemory where
  constInfo := createPeerInfo.constInfo
  peerid := .zero _

/-- Without a signature an endpoint and a super node arrive. -/
theorem unsigned_info_relayed :
    ∃ stream, bufferReadPeerInfo copyEnv stream =
        .ok (some (readBack copyEnv (timedInfo false)), []) ∧
      RelaysFaithfully copyEnv emptyMemory (fun _ => 7) stream
        (readBack copyEnv (timedInfo false)) := by
  obtain ⟨stream, hread, hmarked⟩ := timedInfo_read false
  refine ⟨stream, hread, (relays_iff copyEnv emptyMemory (fun _ => 7) stream [] _ hread).mpr ?_⟩
  have hendpoints : (readBack copyEnv (timedInfo false)).fields.endpoints = [lanEndpoint] := rfl
  have hsnList : (readBack copyEnv (timedInfo false)).fields.snList = [.zero _] := rfl
  exact
    { unmarked := fun h => absurd (hmarked.mp h) nofun
      fields := ⟨hendpoints ▸ ⟨forall_mem_singleton.mpr (.inl (by decide)), nodup_singleton _,
        pairwise_singleton _ _⟩, nofun⟩
      snList := hsnList ▸ nodup_singleton _
      snInfoList := nodup_nil
      nested := trivial }

/-- A peer info with a signature that verifies is relayed without it. -/
theorem signature_not_relayed :
    ∃ stream, bufferReadPeerInfo copyEnv stream =
        .ok (some (readBack copyEnv (timedInfo true)), []) ∧
      MarkedSigned stream ∧
      ¬ RelaysFaithfully copyEnv emptyMemory (fun _ => 7) stream
        (readBack copyEnv (timedInfo true)) := by
  obtain ⟨stream, hread, hmarked⟩ := timedInfo_read true
  exact ⟨stream, hread, hmarked.mpr rfl, not_relays_of_marked hread (hmarked.mpr rfl)⟩

end Bdt

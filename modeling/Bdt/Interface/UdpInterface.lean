import Mathlib.Data.List.Induction
import Bdt.Protocol.PackageDecoder

/-!
# Datagrams

A model of `Bdt_UnboxUdpPackage` in `UdpInterface.imp.inl`. A datagram is decoded as it is when it
starts with the magic number, then with the key that its mix hash is known for, then with the key
that it brings along; all of these decodes write to one array. `unboxUdpPackage_eq` says which
decodes are made and that the array is what they leave one behind the other.
-/

namespace Bdt

open List Option

def BDT_PROTOCOL_UDP_MAGIC_LENGTH : Nat := 2
def BDT_PROTOCOL_MIN_CRYPTO_PACKAGE_LENGTH : Nat := 16
def BDT_PROTOCOL_MAX_UDP_DATA_SIZE : Nat := 1600

/-- What a stack decodes datagrams with. -/
structure UdpEnv (P : Type) where
  codec : PackageCodec P
  aes : Aes
  keys : StackKeys

/-- What `Bdt_UnboxUdpPackage` leaves to its caller. -/
structure UnboxUdpOutput (P : Type) where
  success : Bool
  packages : List (Slot P)
  key : List UInt8 := []
  keyPeerid : List UInt8 := []
  isEncrypto : Bool := true
  hasExchange : Bool := false
  deriving DecidableEq, Repr

variable {P : Type}

/-- The key of an exchange, and the length of what stands in front of the encrypted packages. The
decryption reads as many bytes as the key has, whatever the length of the datagram. -/
def exchangeKey (keys : StackKeys) (data : List UInt8) : Option (List UInt8 × Nat) :=
  let inLen := keys.keyType.keyBytes
  match keys.rsaDecrypt (data.take inLen) with
  | none => none
  | some aesKey =>
    if keys.checkAesKeyHash aesKey ((data.drop inLen).take 8) then some (aesKey, inLen + 8)
    else none

/-- `UnboxUdpPackage`. -/
def unboxPlain (env : UdpEnv P) (data : List UInt8) (refPackage : Option P)
    (packages : List (Slot P)) : Option (Bool × List (Slot P)) :=
  if data.getD 0 0 = BDT_PROTOCOL_UDP_MAGIC_NUM_0 ∧ data.getD 1 0 = BDT_PROTOCOL_UDP_MAGIC_NUM_1 then
    (decodePackage env.codec (data.drop BDT_PROTOCOL_UDP_MAGIC_LENGTH) refPackage packages false).map
      fun output => (output.success, output.results)
  else some (false, packages)

/-- `UnboxEncryptedUdpPackage` behind the key. -/
def unboxEncrypted (env : UdpEnv P) (data : List UInt8) (aesKey : List UInt8) (headerPos : Nat)
    (isStartWithExchangeKey : Bool) (refPackage : Option P) (packages : List (Slot P)) :
    Option (Bool × List (Slot P)) :=
  match Bdt_AesDecryptDataWithPadding env.aes aesKey (data.drop headerPos)
    BDT_PROTOCOL_MAX_UDP_DATA_SIZE with
  | none => some (false, packages)
  | some plain =>
    (decodePackage env.codec plain refPackage packages isStartWithExchangeKey).map fun output =>
      (output.success, output.results)

/-- The last part of `Bdt_UnboxUdpPackage`. -/
def unboxExchange (env : UdpEnv P) (data : List UInt8) (refPackage : Option P)
    (packages : List (Slot P)) : Option (UnboxUdpOutput P) :=
  match exchangeKey env.keys data with
  | none => some { success := false, packages }
  | some (key, headerPos) =>
    match unboxEncrypted env data key headerPos true refPackage packages with
    | none => none
    | some (false, packages) => some { success := false, packages, key }
    | some (true, packages) =>
      match packages with
      | .package exchange :: _ =>
        if env.codec.cmdtype exchange = BDT_EXCHANGEKEY_PACKAGE then
          some
            { success := true, packages, key, hasExchange := true
              keyPeerid := env.codec.exchangePeerid exchange }
        else some { success := false, packages, key }
      | _ => none

/-- `Bdt_UnboxUdpPackage`. -/
def unboxUdpPackage (env : UdpEnv P) (data : List UInt8) (refPackage : Option P)
    (packages : List (Slot P)) : Option (UnboxUdpOutput P) :=
  if data.length < BDT_PROTOCOL_MIN_PACKAGE_LENGTH then some { success := false, packages }
  else
    match unboxPlain env data refPackage packages with
    | none => none
    | some (true, packages) => some { success := true, packages, isEncrypto := false }
    | some (false, packages) =>
      if data.length < BDT_PROTOCOL_MIN_CRYPTO_PACKAGE_LENGTH then
        some { success := false, packages }
      else
        match env.keys.findByMixHash (data.take BDT_MIX_HASH_LENGTH) with
        | none => unboxExchange env data refPackage packages
        | some (key, keyPeerid) =>
          match unboxEncrypted env data key BDT_MIX_HASH_LENGTH false refPackage packages with
          | none => none
          | some (true, packages) => some { success := true, packages, key, keyPeerid }
          | some (false, packages) => unboxExchange env data refPackage packages

/-! ## The decodes of a datagram -/

/-- The decode of a datagram as it is. -/
def plainDecodes (env : UdpEnv P) (data : List UInt8) (refPackage : Option P) :
    List (Option (Decoded P)) :=
  if data.getD 0 0 = BDT_PROTOCOL_UDP_MAGIC_NUM_0 ∧ data.getD 1 0 = BDT_PROTOCOL_UDP_MAGIC_NUM_1 then
    [decoded env.codec (data.drop BDT_PROTOCOL_UDP_MAGIC_LENGTH) refPackage false]
  else []

/-- The decode of what a key decrypts. -/
def encryptedDecodes (env : UdpEnv P) (data : List UInt8) (aesKey : List UInt8) (headerPos : Nat)
    (isStartWithExchangeKey : Bool) (refPackage : Option P) : List (Option (Decoded P)) :=
  match Bdt_AesDecryptDataWithPadding env.aes aesKey (data.drop headerPos)
    BDT_PROTOCOL_MAX_UDP_DATA_SIZE with
  | none => []
  | some plain => [decoded env.codec plain refPackage isStartWithExchangeKey]

def knownDecodes (env : UdpEnv P) (data : List UInt8) (refPackage : Option P) :
    List (Option (Decoded P)) :=
  match env.keys.findByMixHash (data.take BDT_MIX_HASH_LENGTH) with
  | none => []
  | some (key, _) => encryptedDecodes env data key BDT_MIX_HASH_LENGTH false refPackage

def exchangeDecodes (env : UdpEnv P) (data : List UInt8) (refPackage : Option P) :
    List (Option (Decoded P)) :=
  match exchangeKey env.keys data with
  | none => []
  | some (key, headerPos) => encryptedDecodes env data key headerPos true refPackage

/-- The decodes that are made for a datagram as long as none succeeds; `none` is one that does not
return. -/
def udpDecodes (env : UdpEnv P) (data : List UInt8) (refPackage : Option P) :
    List (Option (Decoded P)) :=
  if data.length < BDT_PROTOCOL_MIN_PACKAGE_LENGTH then []
  else
    plainDecodes env data refPackage ++
      if data.length < BDT_PROTOCOL_MIN_CRYPTO_PACKAGE_LENGTH then []
      else knownDecodes env data refPackage ++ exchangeDecodes env data refPackage

/-- Decodes up to the first one that succeeds. -/
def attempts : List (Option (Decoded P)) → Option (List (Decoded P))
  | [] => some []
  | none :: _ => none
  | some d :: rest => if d.success then some [d] else (attempts rest).map (d :: ·)

/-- The array that decodes leave. -/
def placed (ds : List (Decoded P)) (packages : List (Slot P)) : List (Slot P) :=
  ds.foldl (fun packages d => place d.packages packages) packages

/-- The packages of the decode that succeeded. -/
def produced (ds : List (Decoded P)) : List P :=
  match ds.getLast? with
  | some d => if d.success then d.packages else []
  | none => []

/-- Decodes into one array: whether one succeeds, and the array. -/
def runDecodes (ds : List (Option (Decoded P))) (packages : List (Slot P)) :
    Option (Bool × List (Slot P)) :=
  (attempts ds).map fun ds => (ds.any (·.success), placed ds packages)

section

variable {env : UdpEnv P} {data : List UInt8} {refPackage : Option P} {packages : List (Slot P)}
  {d : Option (Decoded P)} {ds rest : List (Option (Decoded P))}

theorem placed_cons (d : Decoded P) (ds : List (Decoded P)) (packages : List (Slot P)) :
    placed (d :: ds) packages = placed ds (place d.packages packages) :=
  rfl

theorem placed_concat (ds : List (Decoded P)) (d : Decoded P) (packages : List (Slot P)) :
    placed (ds ++ [d]) packages = place d.packages (placed ds packages) :=
  foldl_concat ..

theorem runDecodes_nil (packages : List (Slot P)) :
    runDecodes ([] : List (Option (Decoded P))) packages = some (false, packages) :=
  rfl

theorem runDecodes_cons (d : Option (Decoded P)) (ds : List (Option (Decoded P)))
    (packages : List (Slot P)) :
    runDecodes (d :: ds) packages =
      d.bind fun d =>
        if d.success then some (true, place d.packages packages)
        else runDecodes ds (place d.packages packages) := by
  cases d with
  | none => rfl
  | some d =>
    unfold runDecodes
    cases hsuccess : d.success with
    | true => simp [attempts, hsuccess, placed]
    | false =>
      cases hrest : attempts ds with
      | none => simp [attempts, hsuccess, hrest]
      | some => simp [attempts, hsuccess, hrest, placed_cons]

theorem runDecodes_append (ds rest : List (Option (Decoded P))) (packages : List (Slot P)) :
    runDecodes (ds ++ rest) packages =
      (runDecodes ds packages).bind fun run =>
        if run.1 then some run else runDecodes rest run.2 := by
  induction ds generalizing packages with
  | nil => rfl
  | cons d _ ih =>
    rw [cons_append, runDecodes_cons, runDecodes_cons]
    cases d with
    | none => rfl
    | some d =>
      cases hsuccess : d.success with
      | true => simp [hsuccess]
      | false => simpa [hsuccess] using ih (place d.packages packages)

section

variable (hpackages : packages.length = BDT_MAX_PACKAGE_MERGE_LENGTH)
include hpackages

theorem runDecodes_single
    (codec : PackageCodec P) (buffer : List UInt8) (refPackage : Option P) (start : Bool) :
    runDecodes [decoded codec buffer refPackage start] packages =
      (decodePackage codec buffer refPackage packages start).map fun output =>
        (output.success, output.results) := by
  rw [decodePackage_eq codec buffer refPackage start hpackages, runDecodes_cons]
  cases decoded codec buffer refPackage start with
  | none => rfl
  | some d =>
    cases hsuccess : d.success <;> simp [hsuccess, runDecodes_nil]

theorem unboxPlain_eq :
    unboxPlain env data refPackage packages =
      runDecodes (plainDecodes env data refPackage) packages := by
  unfold unboxPlain plainDecodes
  split
  · exact (runDecodes_single hpackages _ _ _ _).symm
  · rfl

theorem unboxEncrypted_eq (aesKey : List UInt8) (headerPos : Nat) (start : Bool) :
    unboxEncrypted env data aesKey headerPos start refPackage packages =
      runDecodes (encryptedDecodes env data aesKey headerPos start refPackage) packages := by
  unfold unboxEncrypted encryptedDecodes
  split
  · rfl
  · exact (runDecodes_single hpackages _ _ _ _).symm

end

/-- The decodes of a datagram fit into the array. -/
def Fitting (ds : List (Option (Decoded P))) : Prop :=
  ∀ d, some d ∈ ds → d.packages.length ≤ BDT_MAX_PACKAGE_MERGE_LENGTH

theorem fitting_nil : Fitting ([] : List (Option (Decoded P))) :=
  nofun

theorem fitting_decoded (codec : PackageCodec P) (buffer : List UInt8) (refPackage : Option P)
    (start : Bool) : Fitting [decoded codec buffer refPackage start] :=
  fun _ hmem => decoded_length (mem_singleton.mp hmem).symm

theorem fitting_plain : Fitting (plainDecodes env data refPackage) := by
  unfold plainDecodes
  split
  · exact fitting_decoded _ _ _ _
  · exact fitting_nil

theorem fitting_encrypted (aesKey : List UInt8) (headerPos : Nat) (start : Bool) :
    Fitting (encryptedDecodes env data aesKey headerPos start refPackage) := by
  unfold encryptedDecodes
  split
  · exact fitting_nil
  · exact fitting_decoded _ _ _ _

theorem Fitting.runDecodes_length (h : Fitting ds)
    (hpackages : packages.length = BDT_MAX_PACKAGE_MERGE_LENGTH) {run : Bool × List (Slot P)}
    (hrun : runDecodes ds packages = some run) : run.2.length = BDT_MAX_PACKAGE_MERGE_LENGTH := by
  induction ds generalizing packages with
  | nil =>
    cases hrun
    exact hpackages
  | cons d _ ih =>
    rw [runDecodes_cons, bind_eq_some_iff] at hrun
    obtain ⟨d, rfl, hrun⟩ := hrun
    have hplace : (place d.packages packages).length = BDT_MAX_PACKAGE_MERGE_LENGTH := by
      rw [length_place, hpackages]
      rw [hpackages]
      exact h d mem_cons_self
    split at hrun
    · cases hrun
      exact hplace
    · exact ih (fun d hmem => h d (mem_cons_of_mem _ hmem)) hplace hrun

theorem unboxExchange_eq (hpackages : packages.length = BDT_MAX_PACKAGE_MERGE_LENGTH) :
    (unboxExchange env data refPackage packages).map (fun o => (o.success, o.packages)) =
      runDecodes (exchangeDecodes env data refPackage) packages := by
  unfold unboxExchange exchangeDecodes
  cases exchangeKey env.keys data with
  | none => rfl
  | some exchange =>
    obtain ⟨key, headerPos⟩ := exchange
    simp only [unboxEncrypted_eq hpackages]
    unfold encryptedDecodes
    cases Bdt_AesDecryptDataWithPadding env.aes key (data.drop headerPos)
      BDT_PROTOCOL_MAX_UDP_DATA_SIZE with
    | none => rfl
    | some plain =>
      simp only [runDecodes_cons, runDecodes_nil]
      cases hdecoded : decoded env.codec plain refPackage true with
      | none => rfl
      | some d =>
        obtain ⟨package, rest, hd, hcmdtype⟩ := decoded_exchange hdecoded
        have hplace : ∃ slots, place d.packages packages = .package package :: slots := by
          rw [hd]
          exact ⟨_, rfl⟩
        obtain ⟨slots, hslots⟩ := hplace
        cases hsuccess : d.success <;> simp [hsuccess, hslots, hcmdtype]

theorem unboxUdpPackage_eq (env : UdpEnv P) (data : List UInt8) (refPackage : Option P)
    (hpackages : packages.length = BDT_MAX_PACKAGE_MERGE_LENGTH) :
    (unboxUdpPackage env data refPackage packages).map (fun o => (o.success, o.packages)) =
      runDecodes (udpDecodes env data refPackage) packages := by
  unfold unboxUdpPackage udpDecodes
  split
  · rfl
  rw [runDecodes_append, unboxPlain_eq hpackages]
  cases hplain : runDecodes (plainDecodes env data refPackage) packages with
  | none => rfl
  | some run =>
    obtain ⟨success, packages⟩ := run
    have hpackages := fitting_plain.runDecodes_length hpackages hplain
    cases success with
    | true => rfl
    | false =>
      simp only [bind_some, Bool.false_eq_true, if_false]
      split
      · rfl
      rw [runDecodes_append]
      unfold knownDecodes
      cases env.keys.findByMixHash (data.take BDT_MIX_HASH_LENGTH) with
      | none => exact unboxExchange_eq hpackages
      | some found =>
        obtain ⟨key, keyPeerid⟩ := found
        simp only [unboxEncrypted_eq hpackages]
        cases hknown : runDecodes
          (encryptedDecodes env data key BDT_MIX_HASH_LENGTH false refPackage) packages with
        | none => rfl
        | some run =>
          obtain ⟨success, packages⟩ := run
          have hpackages :=
            (fitting_encrypted key BDT_MIX_HASH_LENGTH false).runDecodes_length
              hpackages hknown
          cases success with
          | true => rfl
          | false => exact unboxExchange_eq hpackages

end

/-! ## What is in the array -/

/-- The entries of the array that hold packages are those of `packages`, from the first one on. -/
def HoldsExactly (slots : List (Slot P)) (packages : List P) : Prop :=
  ∀ (i : Nat) (package : P), slots[i]? = some (.package package) ↔ packages[i]? = some package

/-- Failed decodes have left nothing that the last one does not overwrite. The last one clears the
first entry only. -/
structure Overwritten (ds : List (Decoded P)) : Prop where
  earlier : ∀ d ∈ ds, d.packages.length ≤ max (produced ds).length 1
  last : ∀ d, ds.getLast? = some d → d.success = false → d.packages = []

/-- The array of the caller, before a decode. -/
def callerSlots (P : Type) : List (Slot P) :=
  List.replicate BDT_MAX_PACKAGE_MERGE_LENGTH .caller

section

variable {ds : List (Decoded P)} {packages : List P} {slots : List (Slot P)} {i : Nat}

theorem getElem?_place (packages : List P) (slots : List (Slot P)) (i : Nat) :
    (place packages slots)[i]? =
      if i < packages.length then packages[i]?.map .package
      else if i = 0 then slots[i]?.map fun _ => .null
      else slots[i]? := by
  unfold place
  by_cases hi : i < packages.length
  · rw [if_pos hi, getElem?_append_left (by simpa using hi), getElem?_map]
  rw [if_neg hi, getElem?_append_right (by simpa using hi), length_map,
    List.getElem?_drop, Nat.add_sub_cancel' (Nat.le_of_not_lt hi), getElem?_set]
  by_cases hzero : i = 0
  · subst hzero
    cases slots <;> simp
  · rw [if_neg (Ne.symm hzero), if_neg hzero]

/-- Where packages are behind the first entry: one of the decodes was long enough. -/
theorem package_placed (hi : i ≠ 0) :
    (∃ package, (placed ds slots)[i]? = some (.package package)) ↔
      (∃ d ∈ ds, i < d.packages.length) ∨ ∃ package, slots[i]? = some (.package package) := by
  induction ds generalizing slots with
  | nil => simp [placed]
  | cons d _ ih =>
    rw [placed_cons, ih, getElem?_place]
    by_cases hd : i < d.packages.length
    · rw [if_pos hd, List.getElem?_eq_getElem hd]
      exact iff_of_true (.inr ⟨_, rfl⟩) (.inl ⟨d, mem_cons_self, hd⟩)
    · rw [if_neg hd, if_neg hi]
      simp [hd]

theorem callerSlots_caller (P : Type) (i : Nat) :
    ¬ ∃ package : P, (callerSlots P)[i]? = some (.package package) := by
  rintro ⟨package, h⟩
  rw [callerSlots, List.getElem?_replicate] at h
  split at h <;> cases h

theorem produced_concat (ds : List (Decoded P)) (d : Decoded P) :
    produced (ds ++ [d]) = if d.success then d.packages else [] := by
  rw [produced, getLast?_concat]

theorem holdsExactly_place (d : Decoded P) :
    HoldsExactly (placed (ds ++ [d]) (callerSlots P)) d.packages ↔
      ∀ e ∈ ds, e.packages.length ≤ max d.packages.length 1 := by
  rw [placed_concat]
  constructor
  · intro hexact e hmem
    by_contra hlong
    have hi : max d.packages.length 1 ≠ 0 := by omega
    obtain ⟨package, hpackage⟩ :=
      (package_placed hi).mpr (.inl ⟨e, hmem, Nat.lt_of_not_le hlong⟩)
    have hentry := hexact (max d.packages.length 1) package
    rw [getElem?_place, if_neg (by omega), if_neg hi, hpackage,
      List.getElem?_eq_none (Nat.le_max_left _ _)] at hentry
    exact absurd (hentry.mp rfl) nofun
  intro hshort i package
  rw [getElem?_place]
  by_cases hi : i < d.packages.length
  · rw [if_pos hi, List.getElem?_eq_getElem hi]
    simp
  rw [if_neg hi, List.getElem?_eq_none (Nat.le_of_not_lt hi)]
  refine iff_of_false ?_ nofun
  by_cases hzero : i = 0
  · rw [if_pos hzero]
    intro hnull
    obtain ⟨_, _, hnull⟩ := map_eq_some_iff.mp hnull
    cases hnull
  rw [if_neg hzero]
  intro hpackage
  rcases (package_placed hzero).mp ⟨package, hpackage⟩ with ⟨e, hmem, hlong⟩ | hcaller
  · have hle := hshort e hmem
    omega
  · exact callerSlots_caller P i hcaller

/-- The array holds the packages of the decode that succeeded, and no others, when it has overwritten
what the decodes before have left. -/
theorem holdsExactly_iff (ds : List (Decoded P)) :
    HoldsExactly (placed ds (callerSlots P)) (produced ds) ↔ Overwritten ds := by
  induction ds using List.reverseRecOn with
  | nil =>
    refine iff_of_true (fun i package => ?_) ⟨nofun, nofun⟩
    exact iff_of_false (fun h => callerSlots_caller P i ⟨package, h⟩) nofun
  | append_singleton ds d =>
    have hlast : (ds ++ [d]).getLast? = some d := getLast?_concat
    have hproduced := produced_concat ds d
    by_cases hsame : produced (ds ++ [d]) = d.packages
    · rw [hsame, holdsExactly_place]
      constructor
      · intro hshort
        refine ⟨fun e hmem => ?_, fun e he hfail => ?_⟩
        · rw [hsame]
          rcases mem_append.mp hmem with hmem | hmem
          · exact hshort e hmem
          · rw [mem_singleton.mp hmem]
            exact Nat.le_max_left _ _
        · cases hlast.symm.trans he
          rw [← hsame, hproduced, hfail]
          rfl
      · intro hover e hmem
        have hle := hover.earlier e (mem_append_left _ hmem)
        rwa [hsame] at hle
    -- the last decode has failed with packages in the array
    have hfail : d.success = false := by
      by_contra hsuccess
      rw [hproduced, if_pos (by simpa using hsuccess)] at hsame
      exact hsame rfl
    have hnone : produced (ds ++ [d]) = [] := by
      rw [hproduced, hfail]
      rfl
    refine iff_of_false (fun hexact => ?_) fun hover => ?_
    · obtain ⟨package, rest, hd⟩ := exists_cons_of_ne_nil fun hempty =>
        hsame (hnone.trans (hempty : d.packages = []).symm)
      have hentry := hexact 0 package
      rw [placed_concat, hd, hnone] at hentry
      exact absurd (hentry.mp rfl) nofun
    · exact hsame (hnone.trans (hover.last d hlast hfail).symm)

end

theorem attempts_any {l : List (Option (Decoded P))} {ds : List (Decoded P)}
    (h : attempts l = some ds) :
    ds.any (·.success) = true ↔ ∃ d, ds.getLast? = some d ∧ d.success = true := by
  constructor
  · induction l generalizing ds with
    | nil =>
      cases h
      exact nofun
    | cons d _ ih =>
      cases d with
      | none => cases h
      | some d =>
        unfold attempts at h
        by_cases hsuccess : d.success = true
        · rw [if_pos hsuccess] at h
          cases h
          exact fun _ => ⟨d, rfl, hsuccess⟩
        rw [if_neg hsuccess, map_eq_some_iff] at h
        obtain ⟨rest, hrest, rfl⟩ := h
        intro hany
        rw [any_cons, Bool.or_eq_true] at hany
        obtain ⟨e, he, hsuccess⟩ := ih hrest (hany.resolve_left hsuccess)
        refine ⟨e, ?_, hsuccess⟩
        rw [getLast?_cons, he]
        rfl
  · rintro ⟨d, hd, hsuccess⟩
    exact any_eq_true.mpr ⟨d, mem_of_getLast? hd, hsuccess⟩

/-- `Bdt_UnboxUdpPackage` leaves the packages of the decode that succeeded in the array, and no
others; when no decode has succeeded, it leaves none. -/
def UnboxesExactly (env : UdpEnv P) (data : List UInt8) (refPackage : Option P) : Prop :=
  ∃ output ds, unboxUdpPackage env data refPackage (callerSlots P) = some output ∧
    attempts (udpDecodes env data refPackage) = some ds ∧
    (output.success = true → ∃ d, ds.getLast? = some d ∧ d.success = true ∧
      HoldsExactly output.packages d.packages) ∧
    (output.success = false → HoldsExactly output.packages [])

/-- The array is right exactly when every decode returns, the one that succeeds has as many packages
as those before have left behind the first entry, and those that are not followed by a success have
left no more than a first entry that the next one clears. -/
theorem unboxesExactly_iff (env : UdpEnv P) (data : List UInt8) (refPackage : Option P) :
    UnboxesExactly env data refPackage ↔
      ∃ ds, attempts (udpDecodes env data refPackage) = some ds ∧ Overwritten ds := by
  have hrun := unboxUdpPackage_eq env data refPackage
    (show (callerSlots P).length = BDT_MAX_PACKAGE_MERGE_LENGTH from length_replicate)
  unfold runDecodes at hrun
  -- one datagram has one run, so it is enough to compare what the run leaves
  have hsame (output : UnboxUdpOutput P) (ds : List (Decoded P))
      (houtput : unboxUdpPackage env data refPackage (callerSlots P) = some output)
      (hds : attempts (udpDecodes env data refPackage) = some ds) :
      (output.success = true → ∃ d, ds.getLast? = some d ∧ d.success = true ∧
        HoldsExactly output.packages d.packages) ∧
        (output.success = false → HoldsExactly output.packages []) ↔ Overwritten ds := by
    rw [houtput, hds, map_some, map_some, some.injEq, Prod.mk.injEq] at hrun
    obtain ⟨hsuccess, hpackages⟩ := hrun
    have hany := attempts_any hds
    rw [← hsuccess] at hany
    rw [← holdsExactly_iff, ← hpackages]
    cases houtcome : output.success with
    | true =>
      obtain ⟨d, hd, hdecode⟩ := hany.mp houtcome
      have hproduced : produced ds = d.packages := by
        rw [produced, hd]
        exact if_pos hdecode
      rw [hproduced]
      constructor
      · rintro ⟨hall, -⟩
        obtain ⟨e, he, -, hexact⟩ := hall rfl
        cases he.symm.trans hd
        exact hexact
      · exact fun hexact => ⟨fun _ => ⟨d, hd, hdecode, hexact⟩, nofun⟩
    | false =>
      have hproduced : produced ds = [] := by
        unfold produced
        cases hlast : ds.getLast? with
        | none => rfl
        | some d =>
          refine if_neg fun hdecode => ?_
          cases houtcome.symm.trans (hany.mpr ⟨d, hlast, hdecode⟩)
      rw [hproduced]
      exact ⟨fun h => h.2 rfl, fun hexact => ⟨nofun, fun _ => hexact⟩⟩
  constructor
  · rintro ⟨output, ds, houtput, hds, hexact⟩
    exact ⟨ds, hds, (hsame output ds houtput hds).mp hexact⟩
  rintro ⟨ds, hds, hover⟩
  have hsome := hrun
  rw [hds, map_some, map_eq_some_iff] at hsome
  obtain ⟨output, houtput, -⟩ := hsome
  exact ⟨output, ds, houtput, hds, (hsame output ds houtput hds).mpr hover⟩

/-- A peer without keys, which gets pings without fields. -/
def pingEnv : UdpEnv UInt8 where
  codec := pingCodec
  aes := { encryptCbc := fun _ data => data, decryptCbc := fun _ data => data,
           length_encryptCbc := fun _ _ => rfl }
  keys := .empty

/-- A datagram without encryption: a ping, and a package of an unknown command. The datagram is
refused, and the ping stays in the array. -/
theorem unbox_leaves_ping :
    ¬ UnboxesExactly pingEnv [0, 128, 5, 0, 4, 0, 0, 5, 0, 255, 0, 0] none := by
  rintro ⟨output, ds, houtput, -, -, hfail⟩
  have hrefused : unboxUdpPackage pingEnv [0, 128, 5, 0, 4, 0, 0, 5, 0, 255, 0, 0] none
      (callerSlots UInt8) =
        some { success := false, packages := .package 4 :: List.replicate 31 .caller } := by
    decide +kernel
  cases hrefused.symm.trans houtput
  exact absurd ((hfail rfl 0 4).mp rfl) nofun

end Bdt

import Bdt.Interface.TcpInterface
import Bdt.Interface.UdpInterface

/-!
# What becomes of decoded packages

A model of what `BdtPushTcpSocketData` and `BdtPushUdpSocketData` do with the packages of a box or of
a datagram: they walk the array of the decoder until its first empty entry, or until
`BDT_PROTOCOL_MIN_PACKAGE_LENGTH` entries, first to pass the packages on and then to free them. On a
tcp interface one array serves the boxes of a call, at most `TCP_MAX_BOX_LEN`. `handledOnce_iff` says
when every decoded package is passed on once, or not at all where the code means to ignore it, and
freed once.
-/

namespace Bdt

open List Option

variable {P : Type}

/-- What was passed on and what was freed, in order. -/
structure Handled (P : Type) where
  passed : List P := []
  freed : List P := []
  deriving DecidableEq, Repr

/-- `Bdt_Package* resultPackages[BDT_MAX_PACKAGE_MERGE_LENGTH] = { 0 }`. -/
def nullSlots (P : Type) : List (Slot P) :=
  List.replicate BDT_MAX_PACKAGE_MERGE_LENGTH .null

/-- The packages of the first `count` entries, up to the first entry without one. -/
def walk : Nat → List (Slot P) → List P
  | count + 1, .package package :: slots => package :: walk count slots
  | _, _ => []

/-- `TcpInterfaceFreePackages`, and the loop at the end of `BdtPushUdpSocketData`. -/
def freePackages (slots : List (Slot P)) : List P :=
  walk BDT_PROTOCOL_MIN_PACKAGE_LENGTH slots

/-! ## Boxes of a tcp interface -/

/-- A tcp interface that reads packages: its key, if it has one. -/
structure TcpEnv (P : Type) where
  codec : PackageCodec P
  aes : Aes
  isCrypto : Bool
  aesKey : List UInt8

/-- The bytes of a box that are decoded. -/
def TcpEnv.open (env : TcpEnv P) (box : List UInt8) : Option (List UInt8) :=
  if env.isCrypto then Bdt_AesDecryptDataWithPadding env.aes env.aesKey box box.length else some box

/-- The loop over the boxes in `BDT_TCP_INTERFACE_STATE_PACKAGE`, and the calls that the function makes
of itself for the rest of the bytes; `count` is the number of boxes that the call has handled. With
every box comes whether the interface is still in this state when the box was decoded;
`TcpTunnelOnTcpPackage` walks the array then. The result of the decoder is never negative, so a box
that fails to decode goes the same way. A box that cannot be decrypted resets the interface. -/
def onPackageBoxes (env : TcpEnv P) :
    List (List UInt8 × Bool) → Nat → List (Slot P) → Option (List (Handled P))
  | [], _, _ => some []
  | (box, inPackageState) :: boxes, count, slots =>
    -- the parser gives `TCP_MAX_BOX_LEN` boxes at most, and the next call has a new array
    let (count, slots) := if count = TCP_MAX_BOX_LEN then (0, nullSlots P) else (count, slots)
    match env.open box with
    | none => some []
    | some plain =>
      match decodePackage env.codec plain none slots false with
      | none => none
      | some output =>
        (onPackageBoxes env boxes (count + 1) output.results).map fun handled =>
          { passed :=
              if inPackageState then walk BDT_PROTOCOL_MIN_PACKAGE_LENGTH output.results else []
            freed := freePackages output.results } :: handled

/-- `TcpInterfaceOnFirstPackages`: the package that is passed on. -/
def firstPackage (codec : PackageCodec P) : List (Slot P) → Option P
  | .package first :: slots =>
    if codec.cmdtype first = BDT_EXCHANGEKEY_PACKAGE then
      match slots with
      | .package _ :: .package _ :: _ => none
      | .package second :: _ => some second
      | _ => none
    else
      match slots with
      | .package _ :: _ => none
      | _ => some first
  | _ => none

/-- `TcpInterfaceOnFirstResp`: the package that is passed on. -/
def firstResp : List (Slot P) → Option P
  | .package _ :: .package _ :: _ => none
  | .package first :: _ => some first
  | _ => none

/-- The only box of a push in `BDT_TCP_INTERFACE_STATE_WAIT_FIRST_PACKAGE` or
`BDT_TCP_INTERFACE_STATE_WAIT_FIRST_RESP`; `accepted` says whether there is somebody to pass its
package on to. -/
def onFirstBox (env : TcpEnv P) (waitFirstPackage isStartWithExchangeKey accepted : Bool)
    (box : List UInt8) : Option (List (Handled P)) :=
  match env.open box with
  | none => some []
  | some plain =>
    match decodePackage env.codec plain none (nullSlots P) isStartWithExchangeKey with
    | none => none
    | some output =>
      let first :=
        if waitFirstPackage then firstPackage env.codec output.results
        else firstResp output.results
      first.map fun package =>
        [{ passed := if accepted then [package] else [], freed := freePackages output.results }]

/-! ## Datagrams -/

/-- What `BdtPushUdpSocketData` finds in its stack: whether there is a container for the peer, or one
is created for the first package, and whether the package at an entry ends the dispatch. -/
structure UdpOwner (P : Type) where
  hasContainer : P → Bool
  handled : Nat → Bool

/-- The packages that are pushed to a container: a package that is handled ends the loop. -/
def pushToContainer (handled : Nat → Bool) : Nat → List P → List P
  | _, [] => []
  | ix, package :: packages =>
    if handled ix then [package] else package :: pushToContainer handled (ix + 1) packages

/-- `BdtPushUdpSocketData`. -/
def pushUdpSocketData (env : UdpEnv P) (owner : UdpOwner P) (data : List UInt8) :
    Option (Handled P) :=
  match unboxUdpPackage env data none (nullSlots P) with
  | none => none
  | some output =>
    if output.success = false then some {}
    else
      let firstIndex := if output.hasExchange then 1 else 0
      let packages :=
        walk (BDT_PROTOCOL_MIN_PACKAGE_LENGTH - firstIndex) (output.packages.drop firstIndex)
      match packages with
      -- nothing is freed here
      | [] => some {}
      | first :: _ =>
        if env.codec.isSnPackage first then
          some { passed := packages, freed := freePackages output.packages }
        else if owner.hasContainer first then
          some
            { passed := pushToContainer owner.handled firstIndex packages
              freed := freePackages output.packages }
        else none

/-! ## What should become of the packages -/

/-- What `BDT_TCP_INTERFACE_STATE_PACKAGE` decodes: the packages of the boxes, up to the first box
that cannot be decrypted. -/
def boxDecodes (env : TcpEnv P) : List (List UInt8 × Bool) → Option (List (Decoded P × Bool))
  | [] => some []
  | (box, inPackageState) :: boxes =>
    match env.open box with
    | none => some []
    | some plain =>
      (decoded env.codec plain none false).bind fun d =>
        (boxDecodes env boxes).map ((d, inPackageState) :: ·)

/-- What is decoded of a first box. -/
def firstDecodes (env : TcpEnv P) (isStartWithExchangeKey : Bool) (box : List UInt8) :
    Option (List (Decoded P)) :=
  match env.open box with
  | none => some []
  | some plain => (decoded env.codec plain none isStartWithExchangeKey).map ([·])

/-- The packages behind an exchange key package, which is for the key manager. -/
def behindExchange (codec : PackageCodec P) (waitFirstPackage : Bool) : List P → List P
  | [] => []
  | first :: rest =>
    if waitFirstPackage = true ∧ codec.cmdtype first = BDT_EXCHANGEKEY_PACKAGE then rest
    else first :: rest

/-- Whether a datagram is decoded with the key that it brings along. -/
def bringsKey (env : UdpEnv P) (data : List UInt8) (ds : List (Decoded P)) : Bool :=
  decide ((plainDecodes env data none ++ knownDecodes env data none).length < ds.length)

/-- The packages of a datagram that are for a container or for the sn client. -/
def addressed (env : UdpEnv P) (data : List UInt8) (ds : List (Decoded P)) : List P :=
  (produced ds).drop (if bringsKey env data ds then 1 else 0)

/-- The packages of a datagram that are passed on: the rest is ignored once one is handled. -/
def dispatched (codec : PackageCodec P) (owner : UdpOwner P) (firstIndex : Nat) :
    List P → List P
  | [] => []
  | first :: rest =>
    if codec.isSnPackage first then first :: rest
    else pushToContainer owner.handled firstIndex (first :: rest)

/-- What an interface receives. -/
inductive Received (P : Type) where
  | packageBoxes (env : TcpEnv P) (boxes : List (List UInt8 × Bool))
  | firstBox (env : TcpEnv P) (waitFirstPackage isStartWithExchangeKey accepted : Bool)
      (box : List UInt8)
  | datagram (env : UdpEnv P) (owner : UdpOwner P) (data : List UInt8)

/-- Every decoded package is freed once, with the box that it came in, and passed on once, unless it
is for the key manager, nobody takes it, or it comes behind one that is handled. -/
def HandledOnce : Received P → Prop
  | .packageBoxes env boxes =>
    ∃ ds, boxDecodes env boxes = some ds ∧
      onPackageBoxes env boxes 0 (nullSlots P) = some (ds.map fun (d, inPackageState) =>
        { passed := if inPackageState then d.packages else [], freed := d.packages })
  | .firstBox env waitFirstPackage isStartWithExchangeKey accepted box =>
    ∃ ds, firstDecodes env isStartWithExchangeKey box = some ds ∧
      onFirstBox env waitFirstPackage isStartWithExchangeKey accepted box =
        some (ds.map fun d =>
          { passed :=
              if accepted then behindExchange env.codec waitFirstPackage d.packages else []
            freed := d.packages })
  | .datagram env owner data =>
    ∃ handled ds, attempts (udpDecodes env data none) = some ds ∧
      pushUdpSocketData env owner data = some handled ∧
      handled.freed.Perm (ds.flatMap (·.packages)) ∧
      handled.passed = dispatched env.codec owner (if bringsKey env data ds then 1 else 0)
        (addressed env data ds)

/-- The boxes of the call that the next box belongs to. -/
def sameCall {α : Type} (front : List α) : List α :=
  if front.length = TCP_MAX_BOX_LEN then [] else front

/-- The boxes behind those in `front` have at most as many packages as the loops look at, and a box that
has packages has as many as every box before it in the same call, so that nothing is left behind its
last one. -/
def Growing : List (Decoded P) → List (Decoded P) → Prop
  | _, [] => True
  | front, d :: ds =>
    d.packages.length ≤ BDT_PROTOCOL_MIN_PACKAGE_LENGTH ∧
      (∀ e ∈ sameCall front, d.packages = [] ∨ e.packages.length ≤ d.packages.length) ∧
      Growing (sameCall front ++ [d]) ds

/-- The packages of a datagram come from one decode, the loops look at all of them, and there is
somebody to pass them on to. -/
structure Dispatchable (env : UdpEnv P) (owner : UdpOwner P) (data : List UInt8)
    (ds : List (Decoded P)) : Prop where
  failed : ∀ d ∈ ds, d.success = false → d.packages = []
  bounded : (produced ds).length ≤ BDT_PROTOCOL_MIN_PACKAGE_LENGTH
  present : produced ds ≠ [] → addressed env data ds ≠ []
  owned : ∀ first, (addressed env data ds).head? = some first →
    env.codec.isSnPackage first = false → owner.hasContainer first = true

/-- When every package of what is received is handled once. -/
def Orderly : Received P → Prop
  | .packageBoxes env boxes =>
    ∃ ds, boxDecodes env boxes = some ds ∧ Growing [] (ds.map Prod.fst)
  | .firstBox env waitFirstPackage isStartWithExchangeKey _ box =>
    ∃ ds, firstDecodes env isStartWithExchangeKey box = some ds ∧
      ∀ d ∈ ds, (behindExchange env.codec waitFirstPackage d.packages).length = 1
  | .datagram env owner data =>
    ∃ ds, attempts (udpDecodes env data none) = some ds ∧ Dispatchable env owner data ds

/-! ## Walking the array -/

section

variable {packages : List P} {slots : List (Slot P)} {count i : Nat}

theorem length_nullSlots (P : Type) : (nullSlots P).length = BDT_MAX_PACKAGE_MERGE_LENGTH :=
  length_replicate

theorem nullSlots_null (P : Type) (i : Nat) :
    ¬ ∃ package : P, (nullSlots P)[i]? = some (.package package) := by
  rintro ⟨package, h⟩
  rw [nullSlots, List.getElem?_replicate] at h
  split at h <;> cases h

theorem walk_append (count : Nat) (packages : List P) (slots : List (Slot P)) :
    walk count (packages.map .package ++ slots) =
      packages.take count ++ walk (count - packages.length) slots := by
  induction packages generalizing count with
  | nil => simp
  | cons _ _ ih =>
    cases count with
    | zero => simp [walk]
    | succ => simp [walk, ih]

theorem walk_eq_nil (hslots : ¬ ∃ package, slots[0]? = some (.package package)) (count : Nat) :
    walk count slots = [] := by
  unfold walk
  split
  · exact absurd ⟨_, rfl⟩ hslots
  · rfl

/-- A walk does not go beyond an entry without a package. -/
theorem length_walk_le (hslots : ¬ ∃ package, slots[i]? = some (.package package)) (count : Nat) :
    (walk count slots).length ≤ i := by
  induction i generalizing slots count with
  | zero =>
    rw [walk_eq_nil hslots]
    exact Nat.le_refl 0
  | succ _ ih =>
    unfold walk
    split
    · rw [length_cons]
      exact Nat.succ_le_succ (ih hslots _)
    · exact Nat.zero_le _

theorem length_walk (count : Nat) (slots : List (Slot P)) : (walk count slots).length ≤ count := by
  induction count generalizing slots with
  | zero => exact Nat.le_of_eq rfl
  | succ _ ih =>
    match slots with
    | .package package :: slots => exact Nat.succ_le_succ (ih slots)
    | [] | .null :: _ | .caller :: _ => exact Nat.zero_le _

theorem behind_place (hpackages : packages ≠ []) :
    ((slots.set 0 .null).drop packages.length)[0]? = slots[packages.length]? := by
  rw [List.getElem?_drop, Nat.add_zero, getElem?_set_ne]
  exact fun h => hpackages (length_eq_zero_iff.mp h.symm)

theorem walk_place (count : Nat) (packages : List P) (slots : List (Slot P)) :
    walk count (place packages slots) =
      packages.take count ++
        walk (count - packages.length) ((slots.set 0 .null).drop packages.length) :=
  walk_append count packages _

theorem walk_place_nil (count : Nat) (slots : List (Slot P)) : walk count (place [] slots) = [] := by
  refine walk_eq_nil ?_ count
  rintro ⟨package, h⟩
  rw [place_nil, List.getElem?_set_self'] at h
  obtain ⟨_, _, hnull⟩ := map_eq_some_iff.mp h
  cases hnull

/-- A walk finds the packages of the decode when it reaches all of them, and there is none behind
them or it does not get there. -/
theorem walk_place_eq_iff (packages : List P) (slots : List (Slot P)) (count : Nat) :
    walk count (place packages slots) = packages ↔
      packages.length ≤ count ∧ (packages = [] ∨ packages.length = count ∨
        ¬ ∃ package, slots[packages.length]? = some (.package package)) := by
  by_cases hempty : packages = []
  · subst hempty
    exact iff_of_true (walk_place_nil count slots) ⟨Nat.zero_le _, .inl rfl⟩
  rw [walk_place]
  constructor
  · intro h
    have hlength := congrArg List.length h
    rw [length_append, length_take] at hlength
    by_cases hcount : packages.length ≤ count
    · refine ⟨hcount, .inr ?_⟩
      by_cases hfull : packages.length = count
      · exact .inl hfull
      refine .inr fun ⟨package, hbehind⟩ => ?_
      rw [← behind_place hempty] at hbehind
      obtain ⟨rest, hrest⟩ : ∃ rest, (slots.set 0 .null).drop packages.length =
          .package package :: rest := by
        cases hdrop : (slots.set 0 .null).drop packages.length with
        | nil =>
          rw [hdrop] at hbehind
          cases hbehind
        | cons _ rest =>
          rw [hdrop] at hbehind
          cases hbehind
          exact ⟨rest, rfl⟩
      obtain ⟨left, hleft⟩ : ∃ left, count - packages.length = left + 1 :=
        ⟨count - packages.length - 1, by omega⟩
      rw [hrest, hleft, walk, length_cons] at hlength
      omega
    · rw [Nat.sub_eq_zero_of_le (Nat.le_of_not_le hcount)] at hlength
      simp only [walk, length_nil] at hlength
      omega
  rintro ⟨hcount, hempty' | hfull | hbehind⟩
  · exact absurd hempty' hempty
  · rw [hfull, Nat.sub_self, ← hfull, take_length]
    simp [walk]
  · rw [← behind_place hempty] at hbehind
    rw [walk_eq_nil hbehind, append_nil, take_of_length_le hcount]

end

/-! ## Boxes -/

/-- What the calls make of the decodes behind those in `front`. -/
def handledBoxes : List (Decoded P) → List (Decoded P × Bool) → List (Handled P)
  | _, [] => []
  | front, (d, inPackageState) :: ds =>
    let slots := placed (sameCall front ++ [d]) (nullSlots P)
    { passed := if inPackageState then walk BDT_PROTOCOL_MIN_PACKAGE_LENGTH slots else []
      freed := freePackages slots } :: handledBoxes (sameCall front ++ [d]) ds

variable {slots : List (Slot P)} {front ds : List (Decoded P)}

theorem length_placed (hfront : ∀ e ∈ front, e.packages.length ≤ BDT_MAX_PACKAGE_MERGE_LENGTH) :
    (placed front (nullSlots P)).length = BDT_MAX_PACKAGE_MERGE_LENGTH := by
  induction front using List.reverseRecOn with
  | nil => exact length_nullSlots P
  | append_singleton _ d ih =>
    obtain ⟨hfront, hd⟩ := forall_mem_append.mp hfront
    rw [placed_concat, length_place, ih hfront]
    rw [ih hfront]
    exact hd d mem_cons_self

theorem onPackageBoxes_eq (env : TcpEnv P) (boxes : List (List UInt8 × Bool))
    (hfront : ∀ e ∈ front, e.packages.length ≤ BDT_MAX_PACKAGE_MERGE_LENGTH) :
    onPackageBoxes env boxes front.length (placed front (nullSlots P)) =
      (boxDecodes env boxes).map (handledBoxes front) := by
  induction boxes generalizing front with
  | nil => rfl
  | cons box _ ih =>
    obtain ⟨box, inPackageState⟩ := box
    have hcall : (if front.length = TCP_MAX_BOX_LEN then (0, nullSlots P)
          else (front.length, placed front (nullSlots P))) =
        ((sameCall front).length, placed (sameCall front) (nullSlots P)) := by
      unfold sameCall
      split <;> rfl
    have hsame : ∀ e ∈ sameCall front, e.packages.length ≤ BDT_MAX_PACKAGE_MERGE_LENGTH := by
      unfold sameCall
      split
      · exact forall_mem_nil _
      · exact hfront
    unfold onPackageBoxes boxDecodes
    rw [hcall]
    cases env.open box with
    | none => rfl
    | some plain =>
      simp only [decodePackage_eq env.codec plain none false (length_placed hsame)]
      cases hdecoded : decoded env.codec plain none false with
      | none => rfl
      | some d =>
        have hnext : ∀ e ∈ sameCall front ++ [d],
            e.packages.length ≤ BDT_MAX_PACKAGE_MERGE_LENGTH :=
          forall_mem_append.mpr ⟨hsame, forall_mem_singleton.mpr (decoded_length hdecoded)⟩
        have hrest := ih hnext
        rw [placed_concat, length_append, length_singleton] at hrest
        simp only [map_some, bind_some, hrest, Option.map_map]
        refine congrArg (Option.map · _) (funext fun ds => ?_)
        simp only [Function.comp_apply, handledBoxes, placed_concat]

/-- The boxes behind those in `front` are handled right exactly when they go on as `Growing` says. -/
theorem handledBoxes_iff (ds : List (Decoded P × Bool))
    (hfront : ∀ e ∈ front, e.packages.length ≤ BDT_PROTOCOL_MIN_PACKAGE_LENGTH) :
    handledBoxes front ds = (ds.map fun (d, inPackageState) =>
          { passed := if inPackageState then d.packages else [], freed := d.packages }) ↔
      Growing front (ds.map Prod.fst) := by
  induction ds generalizing front with
  | nil => exact iff_of_true rfl trivial
  | cons d _ ih =>
    obtain ⟨d, inPackageState⟩ := d
    have hsame : ∀ e ∈ sameCall front, e.packages.length ≤ BDT_PROTOCOL_MIN_PACKAGE_LENGTH := by
      unfold sameCall
      split
      · exact forall_mem_nil _
      · exact hfront
    -- what this box asks for
    have hwalk : freePackages (placed (sameCall front ++ [d]) (nullSlots P)) = d.packages ↔
        d.packages.length ≤ BDT_PROTOCOL_MIN_PACKAGE_LENGTH ∧
          ∀ e ∈ sameCall front, d.packages = [] ∨ e.packages.length ≤ d.packages.length := by
      unfold freePackages
      rw [placed_concat, walk_place_eq_iff]
      refine and_congr_right fun hbound => ?_
      by_cases hempty : d.packages = []
      · simp [hempty]
      have hbehind : (∃ package, (placed (sameCall front) (nullSlots P))[d.packages.length]? =
          some (.package package)) ↔ ∃ e ∈ sameCall front, d.packages.length < e.packages.length := by
        rw [package_placed (mt length_eq_zero_iff.mp hempty), or_iff_left (nullSlots_null P _)]
      simp only [hempty, false_or, hbehind, not_exists, not_and, Nat.not_lt]
      refine or_iff_right_of_imp fun hfull e hmem => ?_
      rw [hfull]
      exact hsame e hmem
    have hpassed : (if inPackageState then walk BDT_PROTOCOL_MIN_PACKAGE_LENGTH
          (placed (sameCall front ++ [d]) (nullSlots P)) else []) =
          (if inPackageState then d.packages else []) ∧
        freePackages (placed (sameCall front ++ [d]) (nullSlots P)) = d.packages ↔
        freePackages (placed (sameCall front ++ [d]) (nullSlots P)) = d.packages := by
      refine and_iff_right_of_imp fun hfreed => ?_
      cases inPackageState with
      | false => rfl
      | true => exact hfreed
    rw [handledBoxes, map_cons, List.cons.injEq, Handled.mk.injEq, hpassed, hwalk, and_assoc]
    refine and_congr_right fun hbound => and_congr_right fun _ => ih ?_
    exact forall_mem_append.mpr ⟨hsame, forall_mem_singleton.mpr hbound⟩

theorem packageBoxes_handledOnce (env : TcpEnv P) (boxes : List (List UInt8 × Bool)) :
    HandledOnce (.packageBoxes env boxes) ↔ Orderly (.packageBoxes env boxes) := by
  refine exists_congr fun ds => and_congr_right fun hds => ?_
  have heq := onPackageBoxes_eq env boxes (forall_mem_nil _)
  show onPackageBoxes env boxes 0 (nullSlots P) = _ ↔ _
  rw [show onPackageBoxes env boxes 0 (nullSlots P) = _ from heq, hds, map_some, some.injEq]
  exact handledBoxes_iff ds (forall_mem_nil _)

/-- The array of a first box: only the first two packages and whether there is a third one matter. -/
theorem first_eq (codec : PackageCodec P) (waitFirstPackage : Bool) (packages : List P) :
    (if waitFirstPackage then firstPackage codec (place packages (nullSlots P))
      else firstResp (place packages (nullSlots P))) =
      match behindExchange codec waitFirstPackage packages with
      | [package] => some package
      | _ => none := by
  cases waitFirstPackage with
  | false =>
    match packages with
    | [] | [_] | [_, _] | _ :: _ :: _ :: _ => rfl
  | true =>
    match packages with
    | [] => rfl
    | [first] | [first, _] | first :: _ :: _ :: _ =>
      by_cases hexchange : codec.cmdtype first = BDT_EXCHANGEKEY_PACKAGE <;>
        simp [behindExchange, firstPackage, place, nullSlots, BDT_MAX_PACKAGE_MERGE_LENGTH,
          hexchange, List.replicate]

theorem freePackages_place {packages : List P} (h : packages.length ≤ 2) :
    freePackages (place packages (nullSlots P)) = packages :=
  (walk_place_eq_iff packages (nullSlots P) _).mpr
    ⟨Nat.le_trans h (by decide), .inr (.inr (nullSlots_null P _))⟩

theorem length_le_behindExchange (codec : PackageCodec P) (waitFirstPackage : Bool)
    (packages : List P) :
    packages.length ≤ (behindExchange codec waitFirstPackage packages).length + 1 := by
  unfold behindExchange
  split
  · exact Nat.zero_le _
  · split
    · exact Nat.le_refl _
    · exact Nat.le_succ _

theorem firstBox_handledOnce (env : TcpEnv P)
    (waitFirstPackage isStartWithExchangeKey accepted : Bool) (box : List UInt8) :
    HandledOnce (.firstBox env waitFirstPackage isStartWithExchangeKey accepted box) ↔
      Orderly (.firstBox env waitFirstPackage isStartWithExchangeKey accepted box) := by
  refine exists_congr fun ds => and_congr_right fun hds => ?_
  unfold onFirstBox
  unfold firstDecodes at hds
  cases hopen : env.open box with
  | none =>
    rw [hopen] at hds
    cases hds
    exact iff_of_true rfl nofun
  | some plain =>
    simp only [hopen, map_eq_some_iff] at hds
    obtain ⟨d, hdecoded, rfl⟩ := hds
    simp only [decodePackage_eq env.codec plain none isStartWithExchangeKey (length_nullSlots P),
      hdecoded, map_some, first_eq, forall_mem_singleton]
    have hlength := length_le_behindExchange env.codec waitFirstPackage d.packages
    match hbehind : behindExchange env.codec waitFirstPackage d.packages with
    | [] => exact iff_of_false nofun nofun
    | [package] =>
      rw [hbehind] at hlength
      exact iff_of_true (by simp [hbehind, freePackages_place hlength]) rfl
    | first :: second :: rest => exact iff_of_false nofun (by simp)

/-! ## Datagrams -/

theorem attempts_cons (d : Decoded P) (rest : List (Option (Decoded P))) :
    attempts (some d :: rest) = if d.success then some [d] else (attempts rest).map (d :: ·) :=
  rfl

theorem attempts_append (l rest : List (Option (Decoded P))) :
    attempts (l ++ rest) =
      (attempts l).bind fun ds =>
        if ds.any (·.success) then some ds else (attempts rest).map (ds ++ ·) := by
  induction l with
  | nil => simp [attempts]
  | cons d l ih =>
    cases d with
    | none => rfl
    | some d =>
      rw [cons_append, attempts_cons, attempts_cons, ih]
      cases hsuccess : d.success with
      | true => simp [hsuccess]
      | false =>
        cases attempts l with
        | none => rfl
        | some ds =>
          cases hany : ds.any (·.success) with
          | true =>
            simp only [bind_some, map_some, any_cons, hany,
              Bool.or_true, Bool.false_eq_true, if_true, if_false]
          | false =>
            simp only [bind_some, map_some, any_cons, hany, hsuccess,
              Bool.or_false, Bool.false_eq_true, if_false, Option.map_map,
              Function.comp_def, cons_append]

variable {output : UnboxUdpOutput P} {l : List (Option (Decoded P))} {env : UdpEnv P}

theorem attempts_length (h : attempts l = some ds) :
    ds.length ≤ l.length ∧ (ds.any (·.success) = false → ds.length = l.length) := by
  induction l generalizing ds with
  | nil =>
    cases h
    exact ⟨Nat.le_refl 0, fun _ => rfl⟩
  | cons d _ ih =>
    cases d with
    | none => cases h
    | some d =>
      unfold attempts at h
      by_cases hsuccess : d.success = true
      · rw [if_pos hsuccess] at h
        cases h
        exact ⟨by simp, by simp [hsuccess]⟩
      rw [if_neg hsuccess, map_eq_some_iff] at h
      obtain ⟨rest, hrest, rfl⟩ := h
      obtain ⟨hle, heq⟩ := ih hrest
      refine ⟨Nat.succ_le_succ hle, fun hany => ?_⟩
      rw [any_cons, Bool.or_eq_false_iff] at hany
      exact congrArg Nat.succ (heq hany.2)

theorem attempts_front {front : List (Decoded P)} {d : Decoded P}
    (h : attempts l = some (front ++ [d])) : ∀ e ∈ front, e.success = false := by
  induction l generalizing front with
  | nil => simp [attempts] at h
  | cons e _ ih =>
    cases e with
    | none => cases h
    | some e =>
      unfold attempts at h
      by_cases hsuccess : e.success = true
      · rw [if_pos hsuccess, some.injEq, singleton_eq_append_iff] at h
        obtain ⟨rfl, -⟩ | ⟨-, hnil⟩ := h
        · exact forall_mem_nil _
        · cases hnil
      rw [if_neg hsuccess, map_eq_some_iff] at h
      obtain ⟨rest, hrest, hcons⟩ := h
      cases front with
      | nil => exact forall_mem_nil _
      | cons =>
        cases hcons
        exact forall_mem_cons.mpr ⟨by simpa using hsuccess, ih hrest⟩

variable {data : List UInt8}

theorem unboxExchange_hasExchange (h : unboxExchange env data none slots = some output)
    (hsuccess : output.success = true) : output.hasExchange = true := by
  unfold unboxExchange at h
  split at h
  · cases h
    cases hsuccess
  split at h
  · cases h
  · cases h
    cases hsuccess
  split at h
  · split at h
    · cases h
      rfl
    · cases h
      cases hsuccess
  · cases h

/-- A decode is made with the key that is brought along when one succeeds. -/
theorem unboxExchange_attempts (hslots : slots.length = BDT_MAX_PACKAGE_MERGE_LENGTH)
    (h : unboxExchange env data none slots = some output) (hsuccess : output.success = true)
    (hds : attempts (exchangeDecodes env data none) = some ds) : 0 < ds.length := by
  have hrun : (unboxExchange env data none slots).map (fun o => (o.success, o.packages)) = _ :=
    unboxExchange_eq hslots
  unfold runDecodes at hrun
  rw [h, hds, map_some, map_some, some.injEq, Prod.mk.injEq] at hrun
  rw [hrun.1] at hsuccess
  obtain ⟨d, hmem, -⟩ := any_eq_true.mp hsuccess
  exact length_pos_of_mem hmem

/-- The first entry is skipped when the datagram was decoded with the key that it brings along. -/
theorem hasExchange_eq (h : unboxUdpPackage env data none (nullSlots P) = some output)
    (hds : attempts (udpDecodes env data none) = some ds) (hsuccess : output.success = true) :
    output.hasExchange = bringsKey env data ds := by
  have hslots := length_nullSlots P
  unfold udpDecodes at hds
  unfold unboxUdpPackage at h
  split at h
  · cases h
    cases hsuccess
  next hlong =>
  rw [if_neg hlong, attempts_append] at hds
  rw [unboxPlain_eq hslots] at h
  unfold runDecodes at h
  unfold bringsKey
  cases hplain : attempts (plainDecodes env data none) with
  | none => rw [hplain] at h; cases h
  | some plain =>
    obtain ⟨hle, hall⟩ := attempts_length hplain
    rw [hplain, map_some] at h
    rw [hplain, bind_some] at hds
    cases hany : plain.any (·.success) with
    | true =>
      rw [hany] at h hds
      cases h
      cases hds
      rw [length_append, decide_eq_false (by omega)]
    | false =>
      simp only [hany, Bool.false_eq_true, if_false] at h hds
      split at h
      · cases h
        cases hsuccess
      next hcrypto =>
      rw [if_neg hcrypto, attempts_append] at hds
      have hall := hall hany
      rw [map_eq_some_iff] at hds
      obtain ⟨behind, hbehind, rfl⟩ := hds
      rw [bind_eq_some_iff] at hbehind
      obtain ⟨known, hknown, hbehind⟩ := hbehind
      obtain ⟨hknownLe, hknownAll⟩ := attempts_length hknown
      have hslots' : (placed plain (nullSlots P)).length = BDT_MAX_PACKAGE_MERGE_LENGTH := by
        have hrun : runDecodes (plainDecodes env data none) (nullSlots P) =
            some (false, placed plain (nullSlots P)) := by
          rw [runDecodes, hplain, map_some, hany]
        exact fitting_plain.runDecodes_length hslots hrun
      unfold knownDecodes at hknown hknownLe hknownAll ⊢
      cases hfind : env.keys.findByMixHash (data.take BDT_MIX_HASH_LENGTH) with
      | none =>
        simp only [hfind] at h hknown ⊢
        cases hknown
        have hmade := unboxExchange_attempts hslots' h hsuccess (by simpa using hbehind)
        rw [unboxExchange_hasExchange h hsuccess]
        symm
        simp only [decide_eq_true_eq, append_nil, length_append]
        omega
      | some found =>
        obtain ⟨key, keyPeerid⟩ := found
        simp only [hfind] at hknown hknownLe hknownAll ⊢
        simp only [hfind, unboxEncrypted_eq hslots', runDecodes, hknown] at h
        cases hanyKnown : known.any (·.success) with
        | true =>
          simp only [hanyKnown, map_some] at h
          simp only [hanyKnown, if_true, some.injEq] at hbehind
          cases h
          subst hbehind
          symm
          simp only [decide_eq_false_iff_not, length_append]
          omega
        | false =>
          have hknownAll := hknownAll hanyKnown
          simp only [hanyKnown, map_some] at h
          simp only [hanyKnown, Bool.false_eq_true, if_false, map_eq_some_iff] at hbehind
          obtain ⟨rest, hrest, rfl⟩ := hbehind
          have hslots'' : (placed known (placed plain (nullSlots P))).length =
              BDT_MAX_PACKAGE_MERGE_LENGTH := by
            have hrun : runDecodes
                (encryptedDecodes env data key BDT_MIX_HASH_LENGTH false none)
                (placed plain (nullSlots P)) =
                  some (false, placed known (placed plain (nullSlots P))) := by
              rw [runDecodes, hknown, map_some, hanyKnown]
            exact (fitting_encrypted _ _ _).runDecodes_length hslots' hrun
          have hmade := unboxExchange_attempts hslots'' h hsuccess hrest
          rw [unboxExchange_hasExchange h hsuccess]
          symm
          simp only [decide_eq_true_eq, length_append]
          omega

section

variable {front ds : List (Decoded P)} {d : Decoded P}

/-- Behind the packages of the last decode there are none, when those before have left none. -/
theorem behind_last (hfront : ∀ e ∈ front, e.packages = []) {i : Nat} (hi : d.packages.length ≤ i) :
    ¬ ∃ package, (placed (front ++ [d]) (nullSlots P))[i]? = some (.package package) := by
  by_cases hzero : i = 0
  · subst hzero
    rw [placed_concat, length_eq_zero_iff.mp (Nat.le_zero.mp hi), place_nil,
      List.getElem?_set_self']
    rintro ⟨package, h⟩
    obtain ⟨_, _, hnull⟩ := map_eq_some_iff.mp h
    cases hnull
  rw [package_placed hzero, or_iff_left (nullSlots_null P i)]
  rintro ⟨e, hmem, hlong⟩
  rcases mem_append.mp hmem with hmem | hmem
  · rw [hfront e hmem] at hlong
    exact Nat.not_lt_zero _ hlong
  · rw [mem_singleton.mp hmem] at hlong
    omega

/-- The packages of the last decode from `k` on, when the array has no others. -/
theorem walk_drop_last (hfront : ∀ e ∈ front, e.packages = []) {count : Nat}
    (hcount : d.packages.length ≤ count) (k : Nat) :
    walk (count - k) ((placed (front ++ [d]) (nullSlots P)).drop k) = d.packages.drop k := by
  by_cases hk : k ≤ d.packages.length
  · have hbehind := behind_last hfront (Nat.le_refl d.packages.length)
    rw [placed_concat] at hbehind ⊢
    unfold place at hbehind ⊢
    rw [drop_append_of_le_length (by simpa using hk), ← map_drop, walk_append,
      take_of_length_le (by rw [length_drop]; omega), walk_eq_nil, append_nil]
    rwa [getElem?_append_right (by simp), length_map, Nat.sub_self] at hbehind
  have hk := Nat.le_of_not_le hk
  rw [drop_eq_nil_of_le hk]
  refine walk_eq_nil ?_ _
  rw [List.getElem?_drop]
  exact behind_last hfront hk

/-- The loop frees what was decoded exactly when all packages are from the last decode and the loop
reaches all of them. -/
theorem freePackages_perm_iff :
    (freePackages (placed (front ++ [d]) (nullSlots P))).Perm
        ((front ++ [d]).flatMap (·.packages)) ↔
      (∀ e ∈ front, e.packages = []) ∧ d.packages.length ≤ BDT_PROTOCOL_MIN_PACKAGE_LENGTH := by
  have hall : (front ++ [d]).flatMap (·.packages) = front.flatMap (·.packages) ++ d.packages := by
    simp
  constructor
  · intro hperm
    have hlength := hperm.length_eq
    rw [hall, length_append] at hlength
    have hfront : ∀ e ∈ front, e.packages = [] := by
      intro e he
      by_contra hne
      have hpos := length_pos_iff.mpr hne
      have hone (f : Decoded P) (hf : f ∈ front) :
          f.packages.length ≤ (front.flatMap (·.packages)).length :=
        (sublist_flatten_of_mem (mem_map_of_mem hf)).length_le
      have hfirst := hone e he
      by_cases hlast : d.packages = []
      · -- the last decode has cleared the first entry
        rw [placed_concat, hlast, freePackages, walk_place_nil, length_nil] at hlength
        omega
      have hdpos := length_pos_iff.mpr hlast
      have hshort : (freePackages (placed (front ++ [d]) (nullSlots P))).length ≤
          (front.flatMap (·.packages)).length + d.packages.length - 1 := by
        refine length_walk_le ?_ _
        rw [package_placed (by omega), or_iff_left (nullSlots_null P _)]
        rintro ⟨f, hmem, hlong⟩
        rcases mem_append.mp hmem with hmem | hmem
        · have := hone f hmem
          omega
        · rw [mem_singleton.mp hmem] at hlong
          omega
      omega
    refine ⟨hfront, ?_⟩
    have hwalk : (freePackages (placed (front ++ [d]) (nullSlots P))).length ≤
        BDT_PROTOCOL_MIN_PACKAGE_LENGTH := length_walk _ _
    omega
  rintro ⟨hfront, hbound⟩
  have hwalk := walk_drop_last hfront hbound 0
  rw [hall, flatMap_eq_nil_iff.mpr hfront, nil_append]
  exact List.Perm.of_eq hwalk

end

theorem dispatchable_last {env : UdpEnv P} {owner : UdpOwner P} {data : List UInt8}
    {front : List (Decoded P)} {d : Decoded P} (hfailed : ∀ e ∈ front, e.success = false)
    (hdecode : d.success = true) :
    Dispatchable env owner data (front ++ [d]) ↔
      ((∀ e ∈ front, e.packages = []) ∧ d.packages.length ≤ BDT_PROTOCOL_MIN_PACKAGE_LENGTH) ∧
        (d.packages ≠ [] → addressed env data (front ++ [d]) ≠ []) ∧
        ∀ first, (addressed env data (front ++ [d])).head? = some first →
          env.codec.isSnPackage first = false → owner.hasContainer first = true := by
  have hproduced : produced (front ++ [d]) = d.packages := by
    rw [produced_concat, if_pos hdecode]
  rw [← hproduced]
  constructor
  · intro h
    exact ⟨⟨fun e he => h.failed e (mem_append_left _ he) (hfailed e he), h.bounded⟩,
      h.present, h.owned⟩
  rintro ⟨⟨hfront, hbounded⟩, hpresent, howned⟩
  refine ⟨fun e he hfail => ?_, hbounded, hpresent, howned⟩
  rcases mem_append.mp he with he | he
  · exact hfront e he
  · rw [mem_singleton.mp he, hdecode] at hfail
    cases hfail

theorem datagram_handledOnce (env : UdpEnv P) (owner : UdpOwner P) (data : List UInt8) :
    HandledOnce (.datagram env owner data) ↔ Orderly (.datagram env owner data) := by
  rw [HandledOnce, Orderly, exists_comm]
  refine exists_congr fun ds => ?_
  rw [exists_and_left]
  refine and_congr_right fun hds => ?_
  have hrun := unboxUdpPackage_eq env data none (length_nullSlots P)
  rw [runDecodes, hds, map_some, map_eq_some_iff] at hrun
  obtain ⟨output, houtput, hrun⟩ := hrun
  obtain ⟨hsuccess, hpackages⟩ := Prod.mk.inj hrun
  have hany := attempts_any hds
  rw [← hsuccess] at hany
  unfold pushUdpSocketData
  simp only [houtput]
  cases houtcome : output.success with
  | false =>
    have hfailed : ∀ d ∈ ds, d.success = false := by
      rw [houtcome] at hsuccess
      simpa using hsuccess.symm
    have hnone : produced ds = [] := by
      unfold produced
      cases hlast : ds.getLast? with
      | none => rfl
      | some d => exact if_neg (by simp [hfailed d (mem_of_getLast? hlast)])
    have haddressed : addressed env data ds = [] := by
      rw [addressed, hnone, drop_nil]
    simp only [if_true, some.injEq, exists_eq_left', haddressed]
    constructor
    · rintro ⟨hperm, -⟩
      have hempty := flatMap_eq_nil_iff.mp (nil_perm.mp hperm)
      refine ⟨fun d hd _ => hempty d hd, ?_, fun h => absurd hnone h, ?_⟩
      · rw [hnone]
        exact Nat.zero_le _
      · rw [haddressed]
        exact nofun
    · intro h
      rw [flatMap_eq_nil_iff.mpr fun d hd => h.failed d hd (hfailed d hd)]
      exact ⟨.nil, rfl⟩
  | true =>
    obtain ⟨d, hd, hdecode⟩ := hany.mp houtcome
    obtain ⟨front, rfl⟩ := List.getLast?_eq_some_iff.mp hd
    have hwalk (hcond : (∀ e ∈ front, e.packages = []) ∧
        d.packages.length ≤ BDT_PROTOCOL_MIN_PACKAGE_LENGTH) :
        walk (BDT_PROTOCOL_MIN_PACKAGE_LENGTH -
            if bringsKey env data (front ++ [d]) = true then 1 else 0)
          (output.packages.drop (if bringsKey env data (front ++ [d]) = true then 1 else 0)) =
            addressed env data (front ++ [d]) := by
      rw [hpackages, walk_drop_last hcond.1 hcond.2, addressed, produced_concat, if_pos hdecode]
    rw [dispatchable_last (attempts_front hds) hdecode, ← freePackages_perm_iff, ← hpackages]
    rw [← freePackages_perm_iff, ← hpackages] at hwalk
    simp only [Bool.true_eq_false, if_false, hasExchange_eq houtput hds houtcome]
    split
    · next hnil =>
      simp only [some.injEq, exists_eq_left']
      rw [hnil] at hwalk
      constructor
      · rintro ⟨hperm, -⟩
        have hall := nil_perm.mp hperm
        have hempty := flatMap_eq_nil_iff.mp hall
        have hd := hempty d (mem_append_right _ mem_cons_self)
        have hfreed : freePackages output.packages = [] := by
          rw [hpackages, placed_concat, hd]
          exact walk_place_nil _ _
        rw [hfreed, hall, ← hwalk (by rw [hfreed, hall])]
        exact ⟨.nil, fun hne => absurd hd hne, nofun⟩
      rintro ⟨hperm, hpresent, -⟩
      have haddressed := (hwalk hperm).symm
      have hd : d.packages = [] := by
        by_contra hne
        exact hpresent hne haddressed
      rw [hpackages, placed_concat, hd, freePackages, walk_place_nil] at hperm
      rw [haddressed]
      exact ⟨hperm, rfl⟩
    next first rest hcons =>
    rw [hcons] at hwalk
    have howned (hperm : (freePackages output.packages).Perm ((front ++ [d]).flatMap (·.packages))) :
        ((d.packages ≠ [] → addressed env data (front ++ [d]) ≠ []) ∧
        ∀ first, (addressed env data (front ++ [d])).head? = some first →
          env.codec.isSnPackage first = false → owner.hasContainer first = true) ↔
        (env.codec.isSnPackage first = false → owner.hasContainer first = true) := by
      rw [← hwalk hperm]
      simp
    rw [and_congr_right howned]
    by_cases hsn : env.codec.isSnPackage first = true
    · simp only [hsn, if_true, some.injEq, exists_eq_left', Bool.true_eq_false,
        false_implies, and_true]
      refine and_iff_left_of_imp fun hperm => ?_
      rw [← hwalk hperm, dispatched, if_pos hsn]
      exact hcons
    by_cases hcontainer : owner.hasContainer first = true
    · simp only [hsn, hcontainer, if_true, Bool.false_eq_true, if_false, some.injEq,
        exists_eq_left', implies_true, and_true]
      refine and_iff_left_of_imp fun hperm => ?_
      rw [← hwalk hperm, hcons, dispatched, if_neg hsn]
    · simp only [hsn, hcontainer, Bool.false_eq_true, if_false]
      refine iff_of_false nofun fun h => ?_
      exact absurd (h.2 (by simp)) nofun

/-- A tcp interface without a key that gets pings without fields. -/
def pingTcpEnv : TcpEnv UInt8 where
  codec := pingCodec
  aes := pingEnv.aes
  isCrypto := false
  aesKey := []

end Bdt

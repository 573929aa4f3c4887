import Bdt.Base.Numerals
import Bdt.Global.Endpoint

/-!
# Endpoints as strings

A model of `BdtEndpointToString` and `BdtEndpointFromString`. Addresses of version 6 are written in
groups of two bytes, without the first run of groups that are zero. `fromString_toString` says what
an endpoint is after both: it keeps one version, one protocol and the bytes of its address.
-/

namespace Bdt

open Base List Option

def BDT_ENDPOINT_STRING_MAX_LENGTH : Nat := 53

/-! ## The writer -/

/-- The name of the IP version, where there is one. -/
def versionName (flag : UInt8) : List Char :=
  if flag &&& BDT_ENDPOINT_IP_VERSION_4 ≠ 0 then ['v', '4']
  else if flag &&& BDT_ENDPOINT_IP_VERSION_6 ≠ 0 then ['v', '6']
  else ['v', '?']

def protocolName (flag : UInt8) : List Char :=
  if flag &&& BDT_ENDPOINT_PROTOCOL_TCP ≠ 0 then ['t', 'c', 'p']
  else if flag &&& BDT_ENDPOINT_PROTOCOL_UDP ≠ 0 then ['u', 'd', 'p']
  else ['u', 'n', 'k']

/-- Two bytes of an address of version 6. -/
def addressGroup (high low : UInt8) : UInt16 :=
  .ofNat (high.toNat * 256 + low.toNat)

/-- The groups of an address of version 6. -/
def addressGroups : List UInt8 → List UInt16
  | high :: low :: bytes => addressGroup high low :: addressGroups bytes
  | _ => []

/-- A group as it is printed. -/
def groupString (group : UInt16) : List Char :=
  hexadecimal group.toNat

/-- The groups between the brackets. The first run of zeros is left out. -/
def groupsString (groups : List UInt16) : List Char :=
  let before := groups.takeWhile (· ≠ 0)
  let behind := (groups.dropWhile (· ≠ 0)).dropWhile (· = 0)
  if before = groups then (groups.flatMap fun group => ':' :: groupString group).tail
  else
    (if before ≠ [] then before.flatMap fun group => groupString group ++ [':'] else [':']) ++
      if behind = [] then [':'] else behind.flatMap fun group => ':' :: groupString group

/-- The bytes of an address of version 4. -/
def dottedString (address : List UInt8) : List Char :=
  (address.flatMap fun byte => '.' :: decimal byte.toNat).tail

/-- `BdtEndpointToString`. -/
def BdtEndpointToString (endpoint : BdtEndpoint) : List Char :=
  if endpoint.flag &&& BDT_ENDPOINT_IP_VERSION_4 ≠ 0 then
    versionName endpoint.flag ++ (protocolName endpoint.flag ++
      (dottedString (endpoint.address.1.take 4) ++ ':' :: decimal endpoint.port.toNat))
  else if endpoint.flag &&& BDT_ENDPOINT_IP_VERSION_6 ≠ 0 then
    versionName endpoint.flag ++ (protocolName endpoint.flag ++
      ('[' :: (groupsString (addressGroups endpoint.address.1) ++
        ']' :: ':' :: decimal endpoint.port.toNat)))
  else []

/-! ## The reader -/

/-- The flag of the version and the protocol that a string starts with. -/
def flagFromString (str : List Char) : UInt8 :=
  (if str.take 2 = ['v', '4'] then BDT_ENDPOINT_IP_VERSION_4
    else if str.take 2 = ['v', '6'] then BDT_ENDPOINT_IP_VERSION_6 else 0) |||
  if (str.drop 2).take 3 = ['t', 'c', 'p'] then BDT_ENDPOINT_PROTOCOL_TCP
  else if (str.drop 2).take 3 = ['u', 'd', 'p'] then BDT_ENDPOINT_PROTOCOL_UDP else 0

/-- The characters up to `split`, of which there are at most `limit`, and what comes behind. -/
def readUpTo (split : Char) : Nat → List Char → Option (List Char × List Char)
  | _, [] => none
  | limit, c :: str =>
    if c = split then some ([], str)
    else
      match limit with
      | 0 => none
      | limit + 1 => (readUpTo split limit str).map fun (u8, rest) => (c :: u8, rest)

/-- The loop over the bytes of an address of version 4. -/
def readDotted : List Char → List Char → Option (List UInt8 × List Char)
  | [], str => some ([], str)
  | split :: splits, str =>
    (readUpTo split 3 str).bind fun (u8, rest) =>
      if u8 = [] then none
      else (readDotted splits rest).map fun (address, rest) =>
        (UInt8.ofInt (atoi u8) :: address, rest)

/-- The value of a digit of a group, for every letter. -/
def groupDigit (c : Char) : Option Nat :=
  if c.isAlpha then some (10 + (c.toNat - if c.isUpper then 'A'.toNat else 'a'.toNat))
  else if c.isDigit then some (decimalDigit c)
  else none

/-- At most `limit` digits of a group, and what comes behind. -/
def readGroup : Nat → List Char → List Nat × List Char
  | 0, str => ([], str)
  | _ + 1, [] => ([], [])
  | limit + 1, c :: str =>
    match groupDigit c with
    | none => ([], c :: str)
    | some digit => (digit :: (readGroup limit str).1, (readGroup limit str).2)

/-- What is known of an address of version 6 while its groups are read. -/
structure GroupsRead where
  zeroStart : Option Nat := none
  address : List UInt16 := []

/-- The loop over the groups, at most `fuel` times, and what comes behind the bracket. A group
without digits ends it: there is something else than a digit, a colon or a bracket. -/
def readGroups : Nat → GroupsRead → List Char → Option (GroupsRead × List Char)
  | 0, _, _ => none
  | _ + 1, _, [] => none
  | fuel + 1, read, c :: str =>
    if c = ':' then
      if read.zeroStart = none then
        readGroups fuel { read with zeroStart := some read.address.length } str
      else none
    else if c = ']' then some (read, str)
    else
      let address :=
        read.address ++ [UInt16.ofNat (digitsValue 16 (readGroup 4 (c :: str)).1)]
      match (readGroup 4 (c :: str)).2 with
      | ':' :: rest =>
        if address.length = 8 then none else readGroups fuel { read with address } rest
      | ']' :: rest => some ({ read with address }, rest)
      | _ => none

/-- The bytes of groups. -/
def groupBytes (groups : List UInt16) : List UInt8 :=
  groups.flatMap fun group => [UInt8.ofNat (group.toNat / 256), UInt8.ofNat group.toNat]

/-- The address with these groups, and zeros for those that are left out. -/
def GroupsRead.toAddress (read : GroupsRead) : Option (Bytes 16) :=
  match read.zeroStart with
  | none =>
    if read.address.length < 8 then none else some (.ofList 16 (groupBytes read.address))
  | some zeroStart =>
    if read.address.length = 8 then none
    else
      some (.ofList 16 (groupBytes (read.address.take zeroStart ++
        (List.replicate (8 - read.address.length) 0 ++ read.address.drop zeroStart))))

/-- A string that starts with a colon starts with two. -/
def skipColon : List Char → Option (List Char)
  | ':' :: str => if str.head? = some ':' then some str else none
  | str => some str

/-- An address of version 6 with its brackets. -/
def readBracketed : List Char → Option (Bytes 16 × List Char)
  | '[' :: str =>
    (skipColon str).bind fun str =>
      (readGroups (str.length + 1) {} str).bind fun (read, rest) =>
        read.toAddress.map fun address => (address, rest)
  | _ => none

/-- `BdtEndpointFromString`; `none` is `BFX_RESULT_INVALID_FORMAT`. -/
def BdtEndpointFromString (str : List Char) : Option BdtEndpoint :=
  let flag := flagFromString str
  if flag &&& BDT_ENDPOINT_IP_VERSION_4 ≠ 0 then
    (readDotted ['.', '.', '.', ':'] (str.drop 5)).map fun (address, rest) =>
      { flag, port := UInt16.ofInt (atoi rest), address := .ofList 16 address }
  else if flag &&& BDT_ENDPOINT_IP_VERSION_6 ≠ 0 then
    (readBracketed (str.drop 5)).bind fun (address, rest) =>
      match rest with
      | ':' :: port => some { flag, port := UInt16.ofInt (atoi port), address }
      | _ => none
  else some { flag, port := 0, address := .zero 16 }

/-! ## Strings that were written -/

/-- The flag of the protocol that an endpoint is written with. -/
def protocolFlag (flag : UInt8) : UInt8 :=
  if flag &&& BDT_ENDPOINT_PROTOCOL_TCP ≠ 0 then BDT_ENDPOINT_PROTOCOL_TCP
  else if flag &&& BDT_ENDPOINT_PROTOCOL_UDP ≠ 0 then BDT_ENDPOINT_PROTOCOL_UDP
  else 0

/-- An endpoint that is written as a string and read again. -/
def BdtEndpoint.throughString (endpoint : BdtEndpoint) : BdtEndpoint :=
  if endpoint.flag &&& BDT_ENDPOINT_IP_VERSION_4 ≠ 0 then
    { flag := BDT_ENDPOINT_IP_VERSION_4 ||| protocolFlag endpoint.flag, port := endpoint.port
      address := .ofList 16 (endpoint.address.1.take 4) }
  else if endpoint.flag &&& BDT_ENDPOINT_IP_VERSION_6 ≠ 0 then
    { flag := BDT_ENDPOINT_IP_VERSION_6 ||| protocolFlag endpoint.flag, port := endpoint.port
      address := endpoint.address }
  else { flag := 0, port := 0, address := .zero 16 }

variable (flag : UInt8) (group : UInt16) (rest : List Char)

theorem length_versionName : (versionName flag).length = 2 := by
  unfold versionName
  split
  case isTrue => rfl
  case isFalse => split <;> rfl

theorem length_protocolName : (protocolName flag).length = 3 := by
  unfold protocolName
  split
  case isTrue => rfl
  case isFalse => split <;> rfl

theorem drop_names : (versionName flag ++ (protocolName flag ++ rest)).drop 5 = rest := by
  rw [← append_assoc]
  exact drop_left' (by rw [length_append, length_versionName, length_protocolName])

theorem flagFromString_names :
    flagFromString (versionName flag ++ (protocolName flag ++ rest)) =
      (if flag &&& BDT_ENDPOINT_IP_VERSION_4 ≠ 0 then BDT_ENDPOINT_IP_VERSION_4
        else if flag &&& BDT_ENDPOINT_IP_VERSION_6 ≠ 0 then BDT_ENDPOINT_IP_VERSION_6 else 0) |||
        protocolFlag flag := by
  unfold flagFromString
  rw [take_left' (length_versionName flag), drop_left' (length_versionName flag),
    take_left' (length_protocolName flag)]
  congr 1
  · unfold versionName
    by_cases hv4 : flag &&& BDT_ENDPOINT_IP_VERSION_4 ≠ 0
    · rw [if_pos hv4, if_pos hv4]
      rfl
    by_cases hv6 : flag &&& BDT_ENDPOINT_IP_VERSION_6 ≠ 0
    · rw [if_neg hv4, if_neg hv4, if_pos hv6, if_pos hv6]
      rfl
    · rw [if_neg hv4, if_neg hv4, if_neg hv6, if_neg hv6]
      rfl
  unfold protocolName protocolFlag
  by_cases htcp : flag &&& BDT_ENDPOINT_PROTOCOL_TCP ≠ 0
  · rw [if_pos htcp, if_pos htcp]
    rfl
  by_cases hudp : flag &&& BDT_ENDPOINT_PROTOCOL_UDP ≠ 0
  · rw [if_neg htcp, if_neg htcp, if_pos hudp, if_pos hudp]
    rfl
  · rw [if_neg htcp, if_neg htcp, if_neg hudp, if_neg hudp]
    rfl

/-! ### Version 4 -/

theorem readUpTo_append {split : Char} {u8 : List Char} (hsplit : split ∉ u8) {limit : Nat}
    (hlimit : u8.length ≤ limit) (rest : List Char) :
    readUpTo split limit (u8 ++ split :: rest) = some (u8, rest) := by
  induction u8 generalizing limit with
  | nil => cases limit <;> exact if_pos rfl
  | cons _ u8 ih =>
    obtain ⟨hne, hrest⟩ := ne_and_not_mem_of_not_mem_cons hsplit
    cases limit with
    | zero => cases hlimit
    | succ limit =>
      rw [cons_append, readUpTo, if_neg (Ne.symm hne)]
      show (readUpTo split limit (u8 ++ split :: rest)).map _ = _
      rw [ih hrest (Nat.le_of_succ_le_succ hlimit)]
      rfl

theorem uInt8_ofInt_toNat (byte : UInt8) : UInt8.ofInt byte.toNat = byte := by
  have hmod : ((byte.toNat : Int) % 2 ^ 8).toNat = byte.toNat := by
    have hlt := byte.toNat_lt
    omega
  rw [UInt8.ofInt, hmod, UInt8.ofNat_toNat]

theorem uInt16_ofInt_toNat (n : UInt16) : UInt16.ofInt n.toNat = n := by
  have hmod : ((n.toNat : Int) % 2 ^ 16).toNat = n.toNat := by
    have hlt := n.toNat_lt
    omega
  rw [UInt16.ofInt, hmod, UInt16.ofNat_toNat]

theorem readDotted_cons {split : Char} (hsplit : split.isDigit = false) (splits : List Char)
    (byte : UInt8) (rest : List Char) :
    readDotted (split :: splits) (decimal byte.toNat ++ split :: rest) =
      (readDotted splits rest).map fun (address, rest) => (byte :: address, rest) := by
  have hmem : split ∉ decimal byte.toNat := fun h =>
    absurd (isDigit_of_mem_decimal h) (by rw [hsplit]; exact Bool.false_ne_true)
  have hlength : (decimal byte.toNat).length ≤ 3 :=
    length_decimal_le (by decide) (Nat.lt_trans byte.toNat_lt (by decide))
  rw [readDotted, readUpTo_append hmem hlength, bind_some]
  show (if decimal byte.toNat = [] then none else _) = _
  rw [if_neg (decimal_ne_nil _), atoi_decimal, uInt8_ofInt_toNat]

theorem readDotted_dottedString {address : List UInt8} (hlength : address.length = 4)
    (rest : List Char) :
    readDotted ['.', '.', '.', ':'] (dottedString address ++ ':' :: rest) =
      some (address, rest) := by
  obtain ⟨a, b, c, d, rfl⟩ := length_eq_four.mp hlength
  have hstring : dottedString [a, b, c, d] ++ ':' :: rest =
      decimal a.toNat ++ '.' :: (decimal b.toNat ++ '.' :: (decimal c.toNat ++ '.' ::
        (decimal d.toNat ++ ':' :: rest))) := by
    simp [dottedString]
  rw [hstring, readDotted_cons rfl, readDotted_cons rfl, readDotted_cons rfl, readDotted_cons rfl]
  rfl

/-! ### Version 6 -/

variable {c : Char}

theorem readGroup_append {digits : List Char} {value : Char → Nat}
    (hdigits : ∀ c ∈ digits, groupDigit c = some (value c)) {limit : Nat}
    (hlimit : digits.length ≤ limit) (hc : groupDigit c = none) (rest : List Char) :
    readGroup limit (digits ++ c :: rest) = (digits.map value, c :: rest) := by
  induction digits generalizing limit with
  | nil =>
    cases limit with
    | zero => rfl
    | succ =>
      rw [nil_append, readGroup, hc]
      rfl
  | cons _ digits ih =>
    obtain ⟨hdigit, hrest⟩ := forall_mem_cons.mp hdigits
    cases limit with
    | zero => cases hlimit
    | succ limit =>
      rw [cons_append, readGroup, hdigit]
      show (_ :: (readGroup limit (digits ++ c :: rest)).1,
        (readGroup limit (digits ++ c :: rest)).2) = _
      rw [ih hrest (Nat.le_of_succ_le_succ hlimit)]
      rfl

/-- The value of a digit of a group. -/
def groupDigitValue (c : Char) : Nat :=
  (groupDigit c).getD 0

theorem groupDigit_digitChar : ∀ digit < 16, groupDigit (Nat.digitChar digit) = some digit := by
  decide

theorem groupDigit_of_mem {group : UInt16} (h : c ∈ groupString group) :
    groupDigit c = some (groupDigitValue c) := by
  obtain ⟨digit, hlt, rfl⟩ := mem_toDigits (by decide) h
  rw [groupDigitValue, groupDigit_digitChar digit hlt]
  rfl

theorem readGroup_groupString (hc : groupDigit c = none) (rest : List Char) :
    readGroup 4 (groupString group ++ c :: rest) =
      ((groupString group).map groupDigitValue, c :: rest) :=
  readGroup_append (fun _ h => groupDigit_of_mem h)
    (length_hexadecimal_le (by decide) (Nat.lt_of_lt_of_le group.toNat_lt (by decide))) hc rest

theorem digitsValue_groupString :
    UInt16.ofNat (digitsValue 16 ((groupString group).map groupDigitValue)) = group := by
  have hvalue : ∀ digit < 16, groupDigitValue (Nat.digitChar digit) = digit := fun digit hlt => by
    rw [groupDigitValue, groupDigit_digitChar digit hlt]
    rfl
  rw [groupString, hexadecimal, digitsValue_toDigits (by decide) groupDigitValue hvalue,
    UInt16.ofNat_toNat]

theorem readGroups_group (fuel : Nat) (read : GroupsRead) (group : UInt16)
    (hc : groupDigit c = none) (rest : List Char) :
    readGroups (fuel + 1) read (groupString group ++ c :: rest) =
      match c :: rest with
      | ':' :: rest =>
        if (read.address ++ [group]).length = 8 then none
        else readGroups fuel { read with address := read.address ++ [group] } rest
      | ']' :: rest => some ({ read with address := read.address ++ [group] }, rest)
      | _ => none := by
  obtain ⟨digit, digits, hcons⟩ := exists_cons_of_ne_nil (hexadecimal_ne_nil group.toNat)
  have hmem : digit ∈ groupString group := by
    rw [groupString, hcons]
    exact mem_cons_self
  have hdigit := groupDigit_of_mem hmem
  have hcolon : digit ≠ ':' := fun h => by
    rw [h] at hdigit
    cases hdigit
  have hbracket : digit ≠ ']' := fun h => by
    rw [h] at hdigit
    cases hdigit
  have hread := readGroup_groupString group hc rest
  have hstring : groupString group ++ c :: rest = digit :: (digits ++ c :: rest) := by
    rw [groupString, hcons, cons_append]
  rw [hstring] at hread ⊢
  rw [readGroups, if_neg hcolon, if_neg hbracket, hread]
  simp only [digitsValue_groupString]

variable {fuel : Nat} {groups : List UInt16}

theorem readGroups_before (groups : List UInt16) {read : GroupsRead}
    (hlength : read.address.length + groups.length < 8) (rest : List Char) :
    readGroups (fuel + groups.length) read
        ((groups.flatMap fun group => groupString group ++ [':']) ++ rest) =
      readGroups fuel { read with address := read.address ++ groups } rest := by
  induction groups generalizing read with
  | nil =>
    rw [append_nil]
    rfl
  | cons group groups ih =>
    have hstring : ((group :: groups).flatMap fun group => groupString group ++ [':']) ++ rest =
        groupString group ++
          ':' :: ((groups.flatMap fun group => groupString group ++ [':']) ++ rest) := by
      rw [flatMap_cons, append_assoc, append_assoc]
      rfl
    rw [length_cons] at hlength
    rw [hstring, length_cons, ← Nat.add_assoc, readGroups_group _ _ _ rfl]
    have hmore : ¬ (read.address ++ [group]).length = 8 := by
      rw [length_append, length_singleton]
      omega
    show (if (read.address ++ [group]).length = 8 then none else _) = _
    rw [if_neg hmore, ih (by
      show (read.address ++ [group]).length + groups.length < 8
      rw [length_append, length_singleton]
      omega), append_assoc]
    rfl

theorem readGroups_behind (groups : List UInt16) (read : GroupsRead)
    (hlength : read.address.length + groups.length < 8) (rest : List Char) :
    readGroups (fuel + groups.length + 1) read
        (groupString group ++ ((groups.flatMap fun group => ':' :: groupString group) ++
          ']' :: rest)) =
      some ({ read with address := read.address ++ group :: groups }, rest) := by
  induction groups generalizing read group with
  | nil => exact readGroups_group _ _ _ rfl _
  | cons next groups ih =>
    rw [length_cons] at hlength
    rw [flatMap_cons, cons_append, cons_append, append_assoc, readGroups_group _ _ _ rfl]
    have hmore : ¬ (read.address ++ [group]).length = 8 := by
      rw [length_append, length_singleton]
      omega
    show (if (read.address ++ [group]).length = 8 then none else _) = _
    rw [if_neg hmore, length_cons, ← Nat.add_assoc,
      ih next { read with address := read.address ++ [group] } (by
      show (read.address ++ [group]).length + groups.length < 8
      rw [length_append, length_singleton]
      omega)]
    show some (GroupsRead.mk _ (read.address ++ [group] ++ next :: groups), rest) = _
    rw [append_assoc]
    rfl

theorem bytes_addressGroup (high low : UInt8) :
    groupBytes [addressGroup high low] = [high, low] := by
  have hhigh := high.toNat_lt
  have hlow := low.toNat_lt
  have hgroup : (addressGroup high low).toNat = high.toNat * 256 + low.toNat := by
    rw [addressGroup, UInt16.toNat_ofNat']
    omega
  have hdiv : (high.toNat * 256 + low.toNat) / 256 = high.toNat := by omega
  have hrest : UInt8.ofNat (high.toNat * 256 + low.toNat) = low := by
    apply UInt8.toNat_inj.mp
    rw [UInt8.toNat_ofNat']
    omega
  show [UInt8.ofNat ((addressGroup high low).toNat / 256),
    UInt8.ofNat (addressGroup high low).toNat] = _
  rw [hgroup, hdiv, hrest, UInt8.ofNat_toNat]

theorem groupBytes_addressGroups (count : Nat) (bytes : List UInt8)
    (hlength : bytes.length = 2 * count) :
    groupBytes (addressGroups bytes) = bytes ∧ (addressGroups bytes).length = count := by
  induction count generalizing bytes with
  | zero =>
    rw [eq_nil_of_length_eq_zero hlength]
    exact ⟨rfl, rfl⟩
  | succ _ ih =>
    match bytes, hlength with
    | high :: low :: bytes, hlength =>
      obtain ⟨hbytes, hcount⟩ := ih bytes (by
        rw [length_cons, length_cons] at hlength
        omega)
      refine ⟨?_, by rw [addressGroups, length_cons, hcount]⟩
      show groupBytes [addressGroup high low] ++ groupBytes (addressGroups bytes) = _
      rw [hbytes, bytes_addressGroup]
      rfl

theorem ofList_self {n : Nat} (array : Bytes n) : Bytes.ofList n array.1 = array := by
  apply Subtype.ext
  show (array.1 ++ _).take n = array.1
  exact take_left' array.2

theorem ofList_groupBytes (address : Bytes 16) :
    Bytes.ofList 16 (groupBytes (addressGroups address.1)) = address := by
  rw [(groupBytes_addressGroups 8 address.1 address.2).1]
  exact ofList_self address

theorem length_le_flatMap {α β : Type} {f : α → List β} (hf : ∀ a, f a ≠ []) (l : List α) :
    l.length ≤ (l.flatMap f).length := by
  induction l with
  | nil => exact Nat.le_refl 0
  | cons a =>
    have hpos := length_pos_of_ne_nil (hf a)
    rw [flatMap_cons, length_append, length_cons]
    omega

theorem skipColon_group :
    skipColon (groupString group ++ rest) = some (groupString group ++ rest) := by
  obtain ⟨digit, digits, hcons⟩ := exists_cons_of_ne_nil (hexadecimal_ne_nil group.toNat)
  have hmem : digit ∈ groupString group := by
    rw [groupString, hcons]
    exact mem_cons_self
  have hdigit := groupDigit_of_mem hmem
  have hstring : groupString group ++ rest = digit :: (digits ++ rest) := by
    rw [groupString, hcons, cons_append]
  rw [hstring]
  unfold skipColon
  split
  case h_1 str heq =>
    rw [(cons.inj heq).1] at hdigit
    cases hdigit
  case h_2 => rfl

/-- What stands for the groups that are zero and for those behind them. -/
def behindString (behind : List UInt16) : List Char :=
  if behind = [] then [':'] else behind.flatMap fun group => ':' :: groupString group

theorem behindString_eq (behind : List UInt16) :
    ∃ rest, behindString behind = ':' :: rest ∧ behind.length ≤ rest.length + 1 := by
  cases behind with
  | nil => exact ⟨[], rfl, by decide⟩
  | cons group groups =>
    refine ⟨groupString group ++ groups.flatMap fun group => ':' :: groupString group, rfl, ?_⟩
    have hle : groups.length ≤ (groups.flatMap fun group => ':' :: groupString group).length :=
      length_le_flatMap (fun _ => cons_ne_nil _ _) groups
    rw [length_append, length_cons]
    omega

theorem readGroups_zeros {before behind : List UInt16} (hlength : before.length + behind.length < 8)
    (hfuel : behind.length + 2 ≤ fuel) (rest : List Char) :
    readGroups fuel { address := before } (behindString behind ++ ']' :: rest) =
      some ({ zeroStart := some before.length, address := before ++ behind }, rest) := by
  obtain ⟨fuel, rfl⟩ := Nat.exists_eq_add_of_le hfuel
  cases behind with
  | nil =>
    rw [append_nil, Nat.add_comm]
    rfl
  | cons group groups =>
    have hstring : behindString (group :: groups) ++ ']' :: rest =
        ':' :: (groupString group ++ ((groups.flatMap fun group => ':' :: groupString group) ++
          ']' :: rest)) := by
      rw [behindString, if_neg (cons_ne_nil _ _), flatMap_cons, cons_append,
        cons_append, append_assoc]
    have hsteps : (group :: groups).length + 2 + fuel = fuel + 1 + groups.length + 1 + 1 := by
      rw [length_cons]
      omega
    rw [hstring, hsteps, readGroups, if_pos rfl, if_pos rfl,
      readGroups_behind group groups { zeroStart := some before.length, address := before }]
    rw [length_cons] at hlength
    show before.length + groups.length < 8
    omega

theorem readGroups_all (hcount : groups.length = 8) (rest : List Char) :
    ((skipColon ((groups.flatMap fun group => ':' :: groupString group).tail ++ ']' :: rest)).bind
        fun str => readGroups (str.length + 1) {} str) =
      some ({ address := groups }, rest) := by
  obtain ⟨group, groups, rfl⟩ := exists_cons_of_length_eq_add_one hcount
  have hgroups := Nat.succ.inj hcount
  rw [flatMap_cons, cons_append, tail_cons, append_assoc, skipColon_group, bind_some]
  have hle : groups.length ≤ (groups.flatMap fun group => ':' :: groupString group).length :=
    length_le_flatMap (fun _ => cons_ne_nil _ _) groups
  obtain ⟨fuel, hfuel⟩ : ∃ fuel, (groupString group ++
      ((groups.flatMap fun group => ':' :: groupString group) ++ ']' :: rest)).length + 1 =
        fuel + groups.length + 1 := by
    refine ⟨_ - groups.length, congrArg (· + 1) (Nat.sub_add_cancel ?_).symm⟩
    rw [length_append, length_append]
    omega
  rw [hfuel, readGroups_behind group groups {}]
  · rfl
  · show 0 + groups.length < 8
    omega

theorem readGroups_run {before behind : List UInt16} (hlength : before.length + behind.length < 8)
    (rest : List Char) :
    ((skipColon ((if before ≠ [] then before.flatMap fun group => groupString group ++ [':']
          else [':']) ++ (behindString behind ++ ']' :: rest))).bind
        fun str => readGroups (str.length + 1) {} str) =
      some ({ zeroStart := some before.length, address := before ++ behind }, rest) := by
  obtain ⟨tail, htail, hbehind⟩ := behindString_eq behind
  by_cases hne : before = []
  · subst hne
    rw [if_neg (not_not.mpr rfl)]
    have hskip : skipColon ([':'] ++ (behindString behind ++ ']' :: rest)) =
        some (behindString behind ++ ']' :: rest) := by
      rw [htail]
      rfl
    rw [hskip, bind_some, readGroups_zeros hlength]
    rw [htail, length_append, length_cons, length_cons]
    omega
  rw [if_pos hne]
  have hskip : skipColon ((before.flatMap fun group => groupString group ++ [':']) ++
      (behindString behind ++ ']' :: rest)) = some ((before.flatMap fun group =>
        groupString group ++ [':']) ++ (behindString behind ++ ']' :: rest)) := by
    obtain ⟨group, groups, rfl⟩ := exists_cons_of_ne_nil hne
    rw [flatMap_cons, append_assoc, append_assoc]
    exact skipColon_group group _
  have hle : before.length ≤ (before.flatMap fun group => groupString group ++ [':']).length :=
    length_le_flatMap (fun _ => by simp) before
  obtain ⟨fuel, hfuel, hmore⟩ : ∃ fuel, ((before.flatMap fun group => groupString group ++ [':']) ++
      (behindString behind ++ ']' :: rest)).length + 1 = fuel + before.length ∧
        behind.length + 2 ≤ fuel := by
    refine ⟨_ - before.length, (Nat.sub_add_cancel ?_).symm, ?_⟩
    · rw [length_append]
      omega
    · rw [length_append, length_append, htail, length_cons, length_cons]
      omega
  rw [hskip, bind_some, hfuel, readGroups_before before]
  · exact readGroups_zeros hlength hmore rest
  · show 0 + before.length < 8
    omega

theorem groups_eq_run (groups : List UInt16) :
    groups = groups.takeWhile (· ≠ 0) ++
      (List.replicate ((groups.dropWhile (· ≠ 0)).takeWhile (· = 0)).length 0 ++
        (groups.dropWhile (· ≠ 0)).dropWhile (· = 0)) := by
  have hrun : (groups.dropWhile (· ≠ 0)).takeWhile (· = 0) =
      List.replicate ((groups.dropWhile (· ≠ 0)).takeWhile (· = 0)).length 0 :=
    eq_replicate_of_mem fun group hmem => by
      simpa using mem_takeWhile_imp hmem
  rw [← hrun, takeWhile_append_dropWhile, takeWhile_append_dropWhile]

theorem run_pos (h : groups.takeWhile (· ≠ 0) ≠ groups) :
    0 < ((groups.dropWhile (· ≠ 0)).takeWhile (· = 0)).length := by
  have hsplit := takeWhile_append_dropWhile (p := (· ≠ 0)) (l := groups)
  cases hdrop : groups.dropWhile (· ≠ 0) with
  | nil =>
    rw [hdrop, append_nil] at hsplit
    exact absurd hsplit h
  | cons =>
    have hzero := head_dropWhile_not (· ≠ 0) (l := groups)
      (by rw [hdrop]; exact cons_ne_nil _ _)
    simp only [hdrop, head_cons] at hzero
    rw [takeWhile_cons_of_pos (by simpa using hzero)]
    exact Nat.succ_pos _

theorem readBracketed_groups (address : Bytes 16) (rest : List Char) :
    readBracketed ('[' :: (groupsString (addressGroups address.1) ++ ']' :: rest)) =
      some (address, rest) := by
  have hcount : (addressGroups address.1).length = 8 := (groupBytes_addressGroups 8 address.1 address.2).2
  have haddress := ofList_groupBytes address
  generalize addressGroups address.1 = groups at hcount haddress ⊢
  have hread (read : GroupsRead)
      (h : ((skipColon (groupsString groups ++ ']' :: rest)).bind fun str =>
        readGroups (str.length + 1) {} str) = some (read, rest))
      (hbytes : read.toAddress = some address) :
      readBracketed ('[' :: (groupsString groups ++ ']' :: rest)) = some (address, rest) := by
    show ((skipColon (groupsString groups ++ ']' :: rest)).bind fun str =>
      (readGroups (str.length + 1) {} str).bind _) = _
    rw [← bind_assoc, h]
    show (read.toAddress.map fun address => (address, rest)) = _
    rw [hbytes]
    rfl
  by_cases hbefore : groups.takeWhile (· ≠ 0) = groups
  · refine hread { address := groups } ?_ ?_
    · unfold groupsString
      simp only [if_pos hbefore]
      exact readGroups_all hcount rest
    · show (if groups.length < 8 then none else some (Bytes.ofList 16 (groupBytes groups))) = _
      rw [if_neg (Nat.not_lt.mpr (Nat.le_of_eq hcount.symm)), haddress]
  -- there is a first group that is zero
  have hrun := run_pos hbefore
  have heq := groups_eq_run groups
  have hgroups : groupsString groups =
      (if groups.takeWhile (· ≠ 0) ≠ [] then
          (groups.takeWhile (· ≠ 0)).flatMap fun group => groupString group ++ [':']
        else [':']) ++ behindString ((groups.dropWhile (· ≠ 0)).dropWhile (· = 0)) := by
    rw [groupsString]
    simp only [if_neg hbefore]
    rfl
  generalize groups.takeWhile (· ≠ 0) = before at heq hgroups
  generalize (groups.dropWhile (· ≠ 0)).dropWhile (· = 0) = behind at heq hgroups
  generalize ((groups.dropWhile (· ≠ 0)).takeWhile (· = 0)).length = count at heq hrun
  have hlength := congrArg List.length heq
  rw [hcount, length_append, length_append, length_replicate] at hlength
  refine hread { zeroStart := some before.length, address := before ++ behind } ?_ ?_
  · rw [hgroups, append_assoc]
    exact readGroups_run (by omega) rest
  have hread : (before ++ behind).length = 8 - count := by
    rw [length_append]
    omega
  show (if (before ++ behind).length = 8 then none else
    some (Bytes.ofList 16 (groupBytes ((before ++ behind).take before.length ++
      (List.replicate (8 - (before ++ behind).length) 0 ++
        (before ++ behind).drop before.length))))) = _
  have hzeros : 8 - (before ++ behind).length = count := by omega
  rw [if_neg (by omega), take_left, drop_left, hzeros, ← heq, haddress]

theorem protocolFlag_cases :
    protocolFlag flag = BDT_ENDPOINT_PROTOCOL_TCP ∨ protocolFlag flag = BDT_ENDPOINT_PROTOCOL_UDP ∨
      protocolFlag flag = 0 := by
  unfold protocolFlag
  split
  case isTrue => exact .inl rfl
  case isFalse =>
  split
  case isTrue => exact .inr (.inl rfl)
  case isFalse => exact .inr (.inr rfl)

theorem version_of_written :
    (BDT_ENDPOINT_IP_VERSION_4 ||| protocolFlag flag) &&& BDT_ENDPOINT_IP_VERSION_4 ≠ 0 ∧
      (BDT_ENDPOINT_IP_VERSION_6 ||| protocolFlag flag) &&& BDT_ENDPOINT_IP_VERSION_4 = 0 ∧
      (BDT_ENDPOINT_IP_VERSION_6 ||| protocolFlag flag) &&& BDT_ENDPOINT_IP_VERSION_6 ≠ 0 := by
  rcases protocolFlag_cases flag with h | h | h <;> rw [h] <;> decide

/-! ### The length of a string -/

theorem length_flatMap_le {α β : Type} {f : α → List β} {bound : Nat}
    (hf : ∀ a, (f a).length ≤ bound) (l : List α) :
    (l.flatMap f).length ≤ bound * l.length := by
  induction l with
  | nil => exact Nat.zero_le _
  | cons a =>
    have hhead := hf a
    rw [flatMap_cons, length_append, length_cons, Nat.mul_succ]
    omega

theorem length_groupString_le : (groupString group).length ≤ 4 :=
  length_hexadecimal_le (by decide) (Nat.lt_of_lt_of_le group.toNat_lt (by decide))

theorem length_groupsString_le (hcount : groups.length = 8) :
    (groupsString groups).length ≤ 39 := by
  have hbehind (groups : List UInt16) :
      (groups.flatMap fun group => ':' :: groupString group).length ≤ 5 * groups.length :=
    length_flatMap_le (fun group => Nat.succ_le_succ (length_groupString_le group)) groups
  have hbefore (groups : List UInt16) :
      (groups.flatMap fun group => groupString group ++ [':']).length ≤ 5 * groups.length :=
    length_flatMap_le (fun group => by
      have hle := length_groupString_le group
      rw [length_append, length_singleton]
      omega) groups
  unfold groupsString
  by_cases hall : groups.takeWhile (· ≠ 0) = groups
  · have hle := hbehind groups
    simp only [if_pos hall, length_tail]
    omega
  have heq := congrArg List.length (groups_eq_run groups)
  rw [length_append, length_append, length_replicate] at heq
  have hrun := run_pos hall
  have hfront := hbefore (groups.takeWhile (· ≠ 0))
  have hback := hbehind ((groups.dropWhile (· ≠ 0)).dropWhile (· = 0))
  have hcolon : [':'].length = 1 := rfl
  simp only [if_neg hall, length_append]
  split <;> split <;> omega

theorem length_toString_le (endpoint : BdtEndpoint) :
    (BdtEndpointToString endpoint).length ≤ BDT_ENDPOINT_STRING_MAX_LENGTH := by
  have hport : (decimal endpoint.port.toNat).length ≤ 5 :=
    length_decimal_le (by decide) (Nat.lt_trans endpoint.port.toNat_lt (by decide))
  have hgroups := length_groupsString_le (groupBytes_addressGroups 8 endpoint.address.1 endpoint.address.2).2
  have hdotted : (dottedString (endpoint.address.1.take 4)).length ≤ 15 := by
    have hbyte (byte : UInt8) : ('.' :: decimal byte.toNat).length ≤ 4 :=
      Nat.succ_le_succ (length_decimal_le (by decide) (Nat.lt_trans byte.toNat_lt (by decide)))
    have hbytes := length_flatMap_le hbyte (endpoint.address.1.take 4)
    rw [endpoint.length_take_address] at hbytes
    rw [dottedString, length_tail]
    omega
  have hbound : BDT_ENDPOINT_STRING_MAX_LENGTH = 53 := rfl
  unfold BdtEndpointToString
  split
  case isTrue =>
    rw [length_append, length_append, length_append, length_cons,
      length_versionName, length_protocolName]
    omega
  case isFalse =>
  split
  case isTrue =>
    rw [length_append, length_append, length_cons, length_append,
      length_cons, length_cons, length_versionName, length_protocolName]
    omega
  case isFalse => exact Nat.zero_le _

/-- What an endpoint is after it was written as a string and read again. -/
theorem fromString_toString (endpoint : BdtEndpoint) :
    BdtEndpointFromString (BdtEndpointToString endpoint) = some endpoint.throughString := by
  obtain ⟨hv4of4, hv4of6, hv6of6⟩ := version_of_written endpoint.flag
  unfold BdtEndpointToString BdtEndpoint.throughString
  by_cases hv4 : endpoint.flag &&& BDT_ENDPOINT_IP_VERSION_4 ≠ 0
  · rw [if_pos hv4, if_pos hv4]
    unfold BdtEndpointFromString
    rw [flagFromString_names, if_pos hv4, drop_names]
    simp only [if_pos hv4of4, readDotted_dottedString endpoint.length_take_address, map_some,
      atoi_decimal, uInt16_ofInt_toNat]
  rw [if_neg hv4, if_neg hv4]
  by_cases hv6 : endpoint.flag &&& BDT_ENDPOINT_IP_VERSION_6 ≠ 0
  · rw [if_pos hv6, if_pos hv6]
    unfold BdtEndpointFromString
    rw [flagFromString_names, if_neg hv4, if_pos hv6, drop_names]
    simp only [if_neg (not_not.mpr hv4of6), if_pos hv6of6, readBracketed_groups,
      bind_some, atoi_decimal, uInt16_ofInt_toNat]
  · rw [if_neg hv6, if_neg hv6]
    rfl

/-- An endpoint of one version and one protocol is the same after both, and its string fits. -/
theorem compare_throughString (endpoint : BdtEndpoint) (version protocol : UInt8)
    (hversion : version = BDT_ENDPOINT_IP_VERSION_4 ∨ version = BDT_ENDPOINT_IP_VERSION_6)
    (hprotocol : protocol = BDT_ENDPOINT_PROTOCOL_TCP ∨ protocol = BDT_ENDPOINT_PROTOCOL_UDP)
    (hflag : endpoint.compareFlag = version ||| protocol) :
    (BdtEndpointToString endpoint).length ≤ BDT_ENDPOINT_STRING_MAX_LENGTH ∧
      ∃ read, BdtEndpointFromString (BdtEndpointToString endpoint) = some read ∧
        BdtEndpointCompare read endpoint false = 0 := by
  refine ⟨length_toString_le endpoint, _, fromString_toString endpoint,
    (endpoint_comparesBy _ _).mpr ?_⟩
  have hbit : ∀ bit, BDT_ENDPOINT_COMPARE_FLAG &&& bit = bit →
      endpoint.flag &&& bit = (version ||| protocol) &&& bit := by
    intro bit hbit
    rw [← hflag, BdtEndpoint.compareFlag, UInt8.and_assoc, hbit]
  have hv4 := hbit BDT_ENDPOINT_IP_VERSION_4 (by decide)
  have hv6 := hbit BDT_ENDPOINT_IP_VERSION_6 (by decide)
  have htcp := hbit BDT_ENDPOINT_PROTOCOL_TCP (by decide)
  have hudp := hbit BDT_ENDPOINT_PROTOCOL_UDP (by decide)
  unfold BdtEndpoint.throughString protocolFlag BdtEndpoint.key
  rw [hv4, hv6, htcp, hudp, hflag]
  have htake := @Bytes.take_ofList 16 (endpoint.address.1.take 4)
    ((length_take_le 4 _).trans (by decide))
  rw [endpoint.length_take_address] at htake
  rcases hversion with rfl | rfl <;> rcases hprotocol with rfl | rfl <;>
    simp +decide [BdtEndpoint.compareFlag, htake]

/-- The port 80 of 2001:db8::1. -/
def webEndpoint : BdtEndpoint where
  flag := 18
  port := 80
  address := .ofList 16 [0x20, 1, 0x0d, 0xb8, 0, 0, 0, 0, 0, 0, 0, 0, 0, 0, 0, 1]

theorem compare_throughString_v6 :
    (BdtEndpointToString webEndpoint).length ≤ BDT_ENDPOINT_STRING_MAX_LENGTH ∧
      ∃ read, BdtEndpointFromString (BdtEndpointToString webEndpoint) = some read ∧
        BdtEndpointCompare read webEndpoint false = 0 :=
  compare_throughString _ BDT_ENDPOINT_IP_VERSION_6 BDT_ENDPOINT_PROTOCOL_TCP (.inr rfl) (.inl rfl) rfl

end Bdt

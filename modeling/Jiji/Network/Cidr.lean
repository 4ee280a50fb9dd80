import Mathlib

/-!
# Addresses and IPv4 networks

Addresses are bit vectors, as the standard library of the source stores them.
A CIDR value carries its two canonical-form conditions, so `Ipv4Cidr.new` and
the text parser are the only ways in and both check them.
-/

namespace Jiji
namespace Network

/-- A 32-bit address, most significant octet first. -/
abbrev Ipv4Addr := BitVec 32

/-- An address of either family. -/
inductive IpAddr
  | v4 (address : Ipv4Addr)
  | v6 (address : BitVec 128)
  deriving DecidableEq, Repr

/-- A transport address. -/
structure SocketAddr where
  ip : IpAddr
  port : BitVec 16
  deriving DecidableEq, Repr

/-- Decimal text is made of digits. -/
theorem isDigit_of_mem_toString
    {number : ℕ}
    (member : character ∈ (toString number).toList) :
    character.isDigit :=
  Nat.isDigit_of_mem_toDigits (b := 10) (by decide) (by decide) (by simpa [Nat.repr] using member)

namespace Ipv4Addr

/-- The address with the given four octets. -/
def ofOctets (first second third fourth : Nat) : Ipv4Addr :=
  BitVec.ofNat 32 (((first * 256 + second) * 256 + third) * 256 + fourth)

/-- One octet, counted from the most significant end. -/
def octet (address : Ipv4Addr) (index : Nat) : Nat :=
  (address >>> (8 * (3 - index))).toNat % 256

/-- Dotted decimal text. -/
def display (address : Ipv4Addr) : String :=
  ".".intercalate ((List.range 4).map fun index => toString (address.octet index))

/-- An address is determined by its octets. -/
theorem eq_of_octets
    {left right : Ipv4Addr}
    (same : ∀ index < 4, left.octet index = right.octet index) :
    left = right := by
  simp only [octet, BitVec.toNat_ushiftRight, Nat.shiftRight_eq_div_pow] at same
  have first := same 0 (by decide)
  have second := same 1 (by decide)
  have third := same 2 (by decide)
  have fourth := same 3 (by decide)
  apply BitVec.eq_of_toNat_eq
  have leftBound := left.isLt
  have rightBound := right.isLt
  omega

theorem dot_not_mem_toString (number : ℕ) : '.' ∉ (toString number).toList :=
  fun dot => absurd (isDigit_of_mem_toString dot) (by decide)

/-- The text of an address is made of digits and dots. -/
theorem isDigit_or_dot_of_mem_display
    {address : Ipv4Addr}
    (member : character ∈ address.display.toList) :
    character.isDigit ∨ character = '.' := by
  have dots : ".".toList = ['.'] := rfl
  simp only [display, String.toList_intercalate, dots, List.range_succ, List.range_zero,
    List.nil_append, List.cons_append, List.map_cons, List.map_nil, List.intercalate,
    List.intersperse, List.flatten_cons, List.flatten_nil, List.mem_append, List.mem_cons,
    List.append_nil] at member
  obtain found | rfl | found | rfl | found | rfl | found := member
  all_goals first
    | exact Or.inl (isDigit_of_mem_toString found)
    | exact Or.inr rfl

/-- Different addresses have different texts. -/
theorem display_injective : Function.Injective display := by
  intro left right same
  have lists := congrArg String.toList same
  simp only [display, String.toList_intercalate, List.map_map] at lists
  have split := congrArg (List.splitOn '.') lists
  have dots : ".".toList = ['.'] := rfl
  have undotted : ∀ address : Ipv4Addr, ∀ text ∈ (List.range 4).map
      (String.toList ∘ fun index => toString (address.octet index)), '.' ∉ text := by
    intro address text member
    obtain ⟨index, _, rfl⟩ := List.mem_map.mp member
    exact dot_not_mem_toString _
  rw [dots, List.splitOn_intercalate _ (undotted left) (by simp),
    List.splitOn_intercalate _ (undotted right) (by simp)] at split
  refine eq_of_octets fun index small => ?_
  have member := List.map_inj_left.mp split index (List.mem_range.mpr small)
  exact Nat.repr_inj.mp (String.toList_inj.mp member)

end Ipv4Addr

/-- The reasons for which a decimal number is refused. -/
inductive ParseIntError
  | empty
  | invalidDigit
  | posOverflow
  deriving DecidableEq, Repr

namespace ParseIntError

/-- The text shown for a refused number. -/
def message : ParseIntError → String
  | empty => "cannot parse integer from empty string"
  | invalidDigit => "invalid digit found in string"
  | posOverflow => "number too large to fit in target type"

end ParseIntError

/-- Read decimal digits into an accumulator that must stay within a bound.  At
each character a bad digit is reported in preference to an overflow. -/
def parseDigits (bound : Nat) : Nat → List Char → Except ParseIntError Nat
  | value, [] => .ok value
  | value, digit :: digits =>
      if digit.isDigit then
        let next := value * 10 + (digit.toNat - '0'.toNat)
        if next ≤ bound then parseDigits bound next digits else .error .posOverflow
      else .error .invalidDigit

/-- Read an unsigned decimal number: one leading plus sign and any number of
leading zeros are allowed. -/
def parseUnsigned (bound : Nat) (text : List Char) : Except ParseIntError Nat :=
  match text with
  | [] => .error .empty
  | ['+'] => .error .invalidDigit
  | '+' :: digits => parseDigits bound 0 digits
  | digits => parseDigits bound 0 digits

/-- Read one octet of dotted decimal text: one to three digits, without a
leading zero, of value at most 255. -/
def parseOctet (text : List Char) : Option Nat :=
  if text.length ≤ 3 ∧ text ≠ [] ∧ text.all Char.isDigit ∧
      (text.head? = some '0' → text.length = 1) then
    (parseDigits 255 0 text).toOption
  else none

/-- Read dotted decimal text. -/
def Ipv4Addr.parse (text : List Char) : Option Ipv4Addr :=
  match text.splitOn '.' with
  | [first, second, third, fourth] => do
      let first ← parseOctet first
      let second ← parseOctet second
      let third ← parseOctet third
      let fourth ← parseOctet fourth
      return Ipv4Addr.ofOctets first second third fourth
  | _ => none

theorem parseOctet_toString :
    ∀ number < 256, parseOctet (toString number).toList = some number := by
  decide +kernel

/-- An address is read back from its text. -/
theorem Ipv4Addr.parse_display (address : Ipv4Addr) :
    Ipv4Addr.parse address.display.toList = some address := by
  have octets : address.display.toList.splitOn '.' =
      (List.range 4).map fun index => (toString (address.octet index)).toList := by
    simp only [display, String.toList_intercalate, List.map_map]
    refine List.splitOn_intercalate _ ?_ (by simp)
    intro text member
    obtain ⟨index, _, rfl⟩ := List.mem_map.mp member
    exact dot_not_mem_toString _
  have small : ∀ index, address.octet index < 256 := fun index => Nat.mod_lt _ (by decide)
  unfold Ipv4Addr.parse
  rw [octets]
  simp only [List.range_succ, List.range_zero, List.nil_append, List.map_cons, List.map_nil,
    List.cons_append, parseOctet_toString _ (small _), Option.bind_eq_bind,
    Option.bind_some]
  refine congrArg some (BitVec.eq_of_toNat_eq ?_)
  have bound := address.isLt
  simp only [octet, ofOctets, BitVec.toNat_ofNat, BitVec.toNat_ushiftRight,
    Nat.shiftRight_eq_div_pow]
  omega

/-- The mask of the leading bits that a prefix length fixes. -/
def prefixMask (prefixLength : Nat) : BitVec 32 :=
  if prefixLength = 0 then 0 else BitVec.allOnes 32 <<< (32 - prefixLength)

/-- A network address together with the length of its fixed part. -/
structure Ipv4Cidr where
  network : Ipv4Addr
  prefixLength : Nat
  /-- The length is that of a 32-bit address. -/
  prefixLength_le : prefixLength ≤ 32
  /-- The host bits of the network address are zero. -/
  canonical : network &&& prefixMask prefixLength = network
  deriving DecidableEq

/-- The reasons for which a network value or a whole network plan is refused. -/
inductive NetworkPlanError
  | invalidCidr (value reason : String)
  | overlappingAddressSpaces (management container : String)
  | containerRangeTooSmall (cidr : String) (prefixLength : Nat)
  | managementRangeTooSmall (cidr : String) (available required : Nat)
  | bucketExhausted (kind : String) (bucket capacity : Nat)
  | duplicateServiceServer (service server : String)
  | unknownServiceServer (service server : String)
  deriving DecidableEq, Repr

namespace Ipv4Cidr

/-- Build a network from its address and prefix length. -/
def new (network : Ipv4Addr) (prefixLength : Nat) :
    Except NetworkPlanError Ipv4Cidr :=
  if short : prefixLength ≤ 32 then
    if canonical : network &&& prefixMask prefixLength = network then
      .ok ⟨network, prefixLength, short, canonical⟩
    else
      .error (.invalidCidr s!"{network.display}/{prefixLength}"
        "host bits must be zero; specify the network address")
  else
    .error (.invalidCidr s!"{network.display}/{prefixLength}"
      "IPv4 prefixes must be between 0 and 32")

/-- Read a network in CIDR notation. -/
def fromStr (value : String) : Except NetworkPlanError Ipv4Cidr :=
  match value.toList.dropWhile (· ≠ '/') with
  | [] => .error (.invalidCidr value
      "expected IPv4 CIDR notation such as 10.0.0.0/16")
  | _ :: prefixText =>
      match Ipv4Addr.parse (value.toList.takeWhile (· ≠ '/')) with
      | none => .error (.invalidCidr value "invalid IPv4 address syntax")
      | some address =>
          match parseUnsigned 255 prefixText with
          | .error error => .error (.invalidCidr value error.message)
          | .ok prefixLength => new address prefixLength

/-- The text of a network in CIDR notation. -/
def display (cidr : Ipv4Cidr) : String :=
  s!"{cidr.network.display}/{cidr.prefixLength}"

/-- The number of addresses of a network. -/
def addressCount (cidr : Ipv4Cidr) : Nat := 2 ^ (32 - cidr.prefixLength)

/-- The address at an offset from the start of a network. -/
def address (cidr : Ipv4Cidr) (offset : Nat) : Option Ipv4Addr :=
  if cidr.addressCount ≤ offset then none
  else some (cidr.network + BitVec.ofNat 32 offset)

/-- Whether an address lies in a network. -/
def contains (cidr : Ipv4Cidr) (address : Ipv4Addr) : Bool :=
  address &&& prefixMask cidr.prefixLength == cidr.network

/-- Whether one of two networks contains the start of the other. -/
def overlaps (cidr other : Ipv4Cidr) : Bool :=
  cidr.contains other.network || other.contains cidr.network

/-- The number of subnets of a longer prefix. -/
def subnetCount (cidr : Ipv4Cidr) (newPrefix : Nat) : Option Nat :=
  if newPrefix < cidr.prefixLength ∨ 32 < newPrefix then none
  else some (2 ^ (newPrefix - cidr.prefixLength))

/-- The subnet of a longer prefix at an index. -/
def subnet (cidr : Ipv4Cidr) (newPrefix index : Nat) : Option Ipv4Cidr := do
  let count ← cidr.subnetCount newPrefix
  if count ≤ index then none
  else
    let start ← cidr.address (index * 2 ^ (32 - newPrefix))
    (new start newPrefix).toOption

theorem overlaps_comm (cidr other : Ipv4Cidr) : cidr.overlaps other = other.overlaps cidr :=
  Bool.or_comm _ _

theorem new_eq (cidr : Ipv4Cidr) : new cidr.network cidr.prefixLength = .ok cidr := by
  unfold new
  rw [dif_pos cidr.prefixLength_le, dif_pos cidr.canonical]

theorem parseUnsigned_toString :
    ∀ number ≤ 32, parseUnsigned 255 (toString number).toList = .ok number := by
  decide

theorem toList_display (cidr : Ipv4Cidr) :
    cidr.display.toList =
      cidr.network.display.toList ++ '/' :: (toString cidr.prefixLength).toList := by
  have slash : "/".toList = ['/'] := rfl
  change (cidr.network.display ++ "/" ++ toString cidr.prefixLength).toList = _
  rw [String.toList_append, String.toList_append, slash, List.append_assoc,
    List.singleton_append]

/-- The text of a network is made of digits, dots and a slash. -/
theorem mem_display
    {cidr : Ipv4Cidr}
    (member : character ∈ cidr.display.toList) :
    character.isDigit ∨ character = '.' ∨ character = '/' := by
  rw [toList_display, List.mem_append, List.mem_cons] at member
  obtain inAddress | rfl | inPrefix := member
  · exact (Ipv4Addr.isDigit_or_dot_of_mem_display inAddress).imp id Or.inl
  · exact Or.inr (Or.inr rfl)
  · exact Or.inl (isDigit_of_mem_toString inPrefix)

/-- A network is read back from its text. -/
theorem fromStr_display (cidr : Ipv4Cidr) : fromStr cidr.display = .ok cidr := by
  have plain : ∀ character ∈ cidr.network.display.toList, decide (character ≠ '/') = true := by
    intro character member
    refine decide_eq_true ?_
    rintro rfl
    exact absurd (Ipv4Addr.isDigit_or_dot_of_mem_display member) (by decide)
  unfold fromStr
  rw [toList_display, List.dropWhile_append_of_pos plain, List.takeWhile_append_of_pos plain]
  rw [List.dropWhile_cons_of_neg (by decide), List.takeWhile_cons_of_neg (by decide),
    List.append_nil, Ipv4Addr.parse_display]
  simp only [parseUnsigned_toString _ cidr.prefixLength_le, new_eq]

/-- Different networks have different texts. -/
theorem display_injective : Function.Injective display := by
  intro left right same
  have read := fromStr_display left
  rw [same, fromStr_display right] at read
  exact (Except.ok.inj read).symm

example : (fromStr "10.0.0.0/16").isOk = true := by decide

example : (fromStr "10.0.0.1/16").isOk = false := by decide

end Ipv4Cidr

end Network
end Jiji

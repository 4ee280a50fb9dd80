import Jiji.Digest.Sha2

/-!
# DNS messages

A message is a header, questions and resource records.  A name is a sequence of labels, each
written after its length, and ends with an empty label or with a pointer to a name that starts
earlier in the message.
-/

namespace Jiji
namespace Wire

open Digest (bytesOf)

section Numbers

/-- The number that bytes stand for, most significant first. -/
def numberOf (bytes : List UInt8) : ℕ :=
  bytes.foldl (fun value byte => value * 256 + byte.toNat) 0

theorem numberOf_append_singleton (bytes : List UInt8) (byte : UInt8) :
    numberOf (bytes ++ [byte]) = numberOf bytes * 256 + byte.toNat := by
  simp [numberOf]

theorem numberOf_lt (bytes : List UInt8) : numberOf bytes < 256 ^ bytes.length := by
  induction bytes using List.reverseRecOn with
  | nil => simp [numberOf]
  | append_singleton bytes byte inductionHypothesis =>
      rw [numberOf_append_singleton, List.length_append, List.length_singleton, pow_succ]
      have small := byte.toNat_lt
      omega

theorem bytesOf_succ (count value : ℕ) :
    bytesOf (count + 1) value = bytesOf count (value / 256) ++ [UInt8.ofNat value] := by
  rw [bytesOf, bytesOf, List.range_succ, List.map_append, List.map_singleton]
  congr 1
  · refine List.map_congr_left fun index member => ?_
    have position : count + 1 - 1 - index = count - 1 - index + 1 := by
      have := List.mem_range.mp member
      omega
    rw [position, pow_succ, mul_comm, Nat.div_div_eq_div_mul]
  · simp

/-- A number that fits is read back from its bytes. -/
theorem numberOf_bytesOf
    (fits : value < 256 ^ count) :
    numberOf (bytesOf count value) = value := by
  induction count generalizing value with
  | zero =>
      rw [pow_zero] at fits
      simp [bytesOf, numberOf]
      omega
  | succ count inductionHypothesis =>
      have quotient : value / 256 < 256 ^ count :=
        Nat.div_lt_of_lt_mul (by rwa [pow_succ, mul_comm] at fits)
      rw [bytesOf_succ, numberOf_append_singleton, inductionHypothesis quotient,
        UInt8.toNat_ofNat']
      omega

end Numbers

/-- Decoders take bytes from the front. -/
abbrev Decoder := StateT (List UInt8) Option

abbrev Label := List UInt8

structure Question where
  name : List Label
  recordType : ℕ
  recordClass : ℕ
  deriving DecidableEq

structure ResourceRecord where
  owner : List Label
  recordType : ℕ
  recordClass : ℕ
  ttl : ℕ
  data : List UInt8
  deriving DecidableEq

structure Message where
  id : ℕ
  flags : UInt8
  code : UInt8
  questions : List Question
  answers : List ResourceRecord
  authority : List ResourceRecord
  additional : List ResourceRecord
  deriving DecidableEq

namespace Message

def isResponse (message : Message) : Bool := message.flags &&& 0x80 ≠ 0

def isTruncated (message : Message) : Bool := message.flags &&& 0x02 ≠ 0

end Message

section Decoding

/-- The next bytes. -/
def taken (count : ℕ) : Decoder (List UInt8) := fun bytes =>
  if bytes.length < count then none else some (bytes.take count, bytes.drop count)

def number (count : ℕ) : Decoder ℕ := numberOf <$> taken count

/-- A name within a message.  At most `fuel` labels and pointers are followed. -/
def decodeName (message : List UInt8) : ℕ → Decoder (List Label)
  | 0 => fun _ => none
  | fuel + 1 => do
      let length ← number 1
      if length = 0 then return []
      else if length < 64 then do
        let label ← taken length
        let labels ← decodeName message fuel
        return label :: labels
      else if length < 192 then fun _ => none
      else do
        let offset ← number 1
        let start := message.drop ((length - 192) * 256 + offset)
        fun bytes => (decodeName message fuel start).map fun (labels, _) => (labels, bytes)

variable (message : List UInt8)

def decodeQuestion : Decoder Question := do
  let name ← decodeName message message.length
  let recordType ← number 2
  let recordClass ← number 2
  return ⟨name, recordType, recordClass⟩

def decodeRecord : Decoder ResourceRecord := do
  let owner ← decodeName message message.length
  let recordType ← number 2
  let recordClass ← number 2
  let ttl ← number 4
  let length ← number 2
  let data ← taken length
  return ⟨owner, recordType, recordClass, ttl, data⟩

/-- As many items as announced. -/
def decodeMany {α : Type} (decode : Decoder α) : ℕ → Decoder (List α)
  | 0 => return []
  | count + 1 => do
      let item ← decode
      let items ← decodeMany decode count
      return item :: items

/-- The header, the questions and the three sections of records. -/
def decodeSections : Decoder Message := do
  let id ← number 2
  let flags ← number 1
  let code ← number 1
  let questionCount ← number 2
  let answerCount ← number 2
  let authorityCount ← number 2
  let additionalCount ← number 2
  let questions ← decodeMany (decodeQuestion message) questionCount
  let answers ← decodeMany (decodeRecord message) answerCount
  let authority ← decodeMany (decodeRecord message) authorityCount
  let additional ← decodeMany (decodeRecord message) additionalCount
  return ⟨id, .ofNat flags, .ofNat code, questions, answers, authority, additional⟩

/-- Decode a whole message; bytes after the announced records are ignored. -/
def decodeMessage : Option Message := (decodeSections message message).map Prod.fst

end Decoding

section Reading

variable {α β : Type} {decode : Decoder α} {bytes more : List UInt8} {value : α}

/-- A decoder that takes just the given bytes from the front of whatever follows. -/
def Reads (decode : Decoder α) (bytes : List UInt8) (value : α) : Prop :=
  ∀ rest, decode (bytes ++ rest) = some (value, rest)

theorem Reads.pure (value : α) : Reads (Pure.pure value) [] value := fun _ => rfl

theorem Reads.bind
    (first : Reads decode bytes value)
    (second : Reads (next value) more result) :
    Reads (decode >>= next) (bytes ++ more) result := by
  intro rest
  have taken := first (more ++ rest)
  rw [List.append_assoc]
  change (decode _).bind _ = _
  rw [taken]
  exact second rest

theorem Reads.map
    (transform : α → β)
    (reads : Reads decode bytes value) :
    Reads (transform <$> decode) bytes (transform value) := by
  intro rest
  change (decode _).bind _ = _
  rw [reads rest]
  rfl

theorem reads_taken (bytes : List UInt8) : Reads (taken bytes.length) bytes bytes := by
  intro rest
  simp [taken]

theorem reads_number
    (length : bytes.length = count) :
    Reads (number count) bytes (numberOf bytes) := by
  subst length
  exact (reads_taken bytes).map numberOf

theorem reads_bytesOf
    {count value : ℕ}
    (fits : value < 256 ^ count) :
    Reads (number count) (bytesOf count value) value := by
  have reads := reads_number (Digest.length_bytesOf count value)
  rwa [numberOf_bytesOf fits] at reads

/-- Items that are written one after the other. -/
theorem Reads.many
    {items : List β}
    {valueOf : β → α}
    (each : ∀ item ∈ items, Reads decode (bytesFor item) (valueOf item)) :
    Reads (decodeMany decode items.length) (items.flatMap bytesFor) (items.map valueOf) := by
  induction items with
  | nil => exact Reads.pure []
  | cons item items inductionHypothesis =>
      have first := each item List.mem_cons_self
      have later := inductionHypothesis fun other member =>
        each other (List.mem_cons_of_mem _ member)
      exact first.bind (later.map (valueOf item :: ·))

/-- A label that can be written: neither empty nor longer than 63 bytes. -/
def ProperLabel (label : Label) : Prop := label ≠ [] ∧ label.length ≤ 63

instance (label : Label) : Decidable (ProperLabel label) :=
  inferInstanceAs (Decidable (_ ∧ _))

/-- A name without pointers. -/
def encodeName (labels : List Label) : List UInt8 :=
  (labels.flatMap fun label => UInt8.ofNat label.length :: label) ++ [0]

theorem encodeName_cons (label : Label) (labels : List Label) :
    encodeName (label :: labels) = UInt8.ofNat label.length :: label ++ encodeName labels := by
  simp [encodeName]

theorem length_lt_encodeName (labels : List Label) :
    labels.length < (encodeName labels).length := by
  induction labels with
  | nil => simp [encodeName]
  | cons label labels inductionHypothesis =>
      rw [encodeName_cons, List.cons_append, List.length_cons, List.length_cons,
        List.length_append]
      omega

theorem numberOf_singleton (byte : UInt8) : numberOf [byte] = byte.toNat := by
  simp [numberOf]

theorem numberOf_ofNat_length
    (proper : ProperLabel label) :
    numberOf [UInt8.ofNat label.length] = label.length := by
  rw [numberOf_singleton, UInt8.toNat_ofNat']
  have := proper.2
  omega

theorem reads_name
    (proper : ∀ label ∈ labels, ProperLabel label)
    (enough : labels.length < fuel) :
    Reads (decodeName message fuel) (encodeName labels) labels := by
  induction labels generalizing fuel with
  | nil =>
      obtain _ | fuel := fuel
      · cases enough
      · rw [decodeName]
        refine (reads_number rfl : Reads (number 1) [0] _).bind (?_ : Reads _ [] _)
        rw [if_pos (show numberOf [0] = 0 from rfl)]
        exact Reads.pure []
  | cons label labels inductionHypothesis =>
      obtain _ | fuel := fuel
      · cases enough
      · have first := proper label List.mem_cons_self
        have positive : 0 < label.length := List.length_pos_of_ne_nil first.1
        have small : label.length < 64 := Nat.lt_succ_of_le first.2
        have later : Reads (decodeName message fuel) (encodeName labels) labels :=
          inductionHypothesis (fun other member => proper other (List.mem_cons_of_mem _ member))
            (Nat.lt_of_succ_lt_succ enough)
        rw [decodeName, encodeName_cons]
        refine (reads_number rfl : Reads (number 1) [UInt8.ofNat label.length] _).bind ?_
        rw [numberOf_ofNat_length first, if_neg positive.ne', if_pos small]
        exact (reads_taken label).bind (later.map (label :: ·))

/-- A pointer stands for the name that it points to. -/
theorem reads_pointer
    (pointer : 192 ≤ high.toNat)
    (target : decodeName message fuel
      (message.drop ((high.toNat - 192) * 256 + low.toNat)) = some (labels, rest)) :
    Reads (decodeName message (fuel + 1)) [high, low] labels := by
  rw [decodeName]
  refine (reads_number rfl : Reads (number 1) [high] _).bind (?_ : Reads _ [low] _)
  rw [numberOf_singleton, if_neg (by omega), if_neg (by omega), if_neg (by omega)]
  refine (reads_number rfl : Reads (number 1) [low] _).bind (?_ : Reads _ [] _)
  intro rest
  simp only [numberOf_singleton]
  rw [target]
  rfl

end Reading

end Wire
end Jiji

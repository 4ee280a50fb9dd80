import Jiji.Network.Cidr
import Jiji.Wire.Dns

/-!
# Answering name queries

The agent answers queries for its own zone and forwards the others.  An answer that is too
long for a datagram is replaced by one without records and with the truncation bit.
-/

namespace Jiji
namespace Agent

open Std Network Wire
open Digest (bytesOf)

section Queries

/-- How the standard library replaces invalid bytes of a text. -/
abbrev LossyText := List UInt8 → String

def toAsciiLowercase (text : String) : String := String.ofList (text.toList.map Char.toLower)

structure ParsedQuery where
  id : ℕ
  opcode : UInt8
  recursionDesired : Bool
  name : String
  qtype : ℕ
  qclass : ℕ
  questionBytes : List UInt8
  deriving DecidableEq

/-- The labels of a question, with room for so many of them, and the bytes after the name. -/
def parseLabels : ℕ → List UInt8 → Option (List Label × List UInt8)
  | _, [] => none
  | room, length :: bytes =>
      if length = 0 then some ([], bytes)
      else match room with
        | 0 => none
        | room + 1 =>
            if 63 < length.toNat then none
            else if bytes.length < length.toNat then none
            else (parseLabels room (bytes.drop length.toNat)).map fun (labels, rest) =>
              (bytes.take length.toNat :: labels, rest)

def parseQuery (lossy : LossyText) (buffer : List UInt8) : Option ParsedQuery :=
  match buffer with
  | id1 :: id0 :: flags :: _ :: count1 :: count0 :: _ :: _ :: _ :: _ :: _ :: _ :: question =>
      if numberOf [count1, count0] ≠ 1 then none
      else match parseLabels 33 question with
        | some (labels, type1 :: type0 :: class1 :: class0 :: rest) => some {
            id := numberOf [id1, id0]
            opcode := (flags >>> 3) &&& 0x0F
            recursionDesired := flags &&& 0x01 ≠ 0
            name := ".".intercalate (labels.map fun label => toAsciiLowercase (lossy label))
            qtype := numberOf [type1, type0]
            qclass := numberOf [class1, class0]
            questionBytes := question.take (question.length - rest.length) }
        | _ => none
  | _ => none

end Queries

section Responses

abbrev qtypeA : ℕ := 1
abbrev qtypeAny : ℕ := 255
abbrev qclassIn : ℕ := 1

abbrev rcodeNoError : UInt8 := 0
abbrev rcodeServFail : UInt8 := 2
abbrev rcodeNxDomain : UInt8 := 3
abbrev rcodeNotImp : UInt8 := 4

abbrev defaultTtl : ℕ := 5
abbrev maxAnswers : ℕ := 64
abbrev maxUdpResponseBytes : ℕ := 512

/-- One answer: a pointer to the name of the question and an address. -/
def encodeAnswer (address : Ipv4Addr) : List UInt8 :=
  [0xC0, 0x0C] ++ (bytesOf 2 qtypeA ++ (bytesOf 2 qclassIn ++ (bytesOf 4 defaultTtl ++
    (bytesOf 2 4 ++ bytesOf 4 address.toNat))))

def encodeFlags (query : ParsedQuery) (truncated authoritative : Bool) : UInt8 :=
  (0x80 : UInt8) ||| query.opcode <<< 3 ||| (if authoritative then 0x04 else 0) |||
    (if truncated then 0x02 else 0) ||| (if query.recursionDesired then 0x01 else 0)

def encodeResponse
    (query : ParsedQuery)
    (rcode : UInt8)
    (answers : List Ipv4Addr)
    (truncated authoritative : Bool) : List UInt8 :=
  bytesOf 2 query.id ++ ([encodeFlags query truncated authoritative] ++ ([rcode &&& 0x0F] ++
    (bytesOf 2 1 ++ (bytesOf 2 answers.length ++ (bytesOf 2 0 ++ (bytesOf 2 0 ++
      (query.questionBytes ++ answers.flatMap encodeAnswer)))))))

abbrev Zone := ExtTreeMap String (List Ipv4Addr)

/-- The response code and the addresses of the queried name. -/
def lookUp (query : ParsedQuery) (zone : Zone) : UInt8 × List Ipv4Addr :=
  match zone[query.name]? with
  | none => (rcodeNxDomain, [])
  | some addresses =>
      if query.qtype = qtypeA ∨ query.qtype = qtypeAny then (rcodeNoError, addresses)
      else (rcodeNoError, [])

def respondTo (query : ParsedQuery) (zone : Zone) (isUdp : Bool) : List UInt8 :=
  if query.opcode ≠ 0 then encodeResponse query rcodeNotImp [] false true
  else if query.qclass ≠ qclassIn then encodeResponse query rcodeNotImp [] false true
  else
    let rcode := (lookUp query zone).1
    let answers := (lookUp query zone).2.take maxAnswers
    let full := encodeResponse query rcode answers false true
    if isUdp ∧ maxUdpResponseBytes < full.length then encodeResponse query rcode [] true true
    else full

/-- The response to a query that can be read. -/
def respond (lossy : LossyText) (buffer : List UInt8) (zone : Zone) (isUdp : Bool) :
    Option (List UInt8) :=
  (parseQuery lossy buffer).map fun query => respondTo query zone isUdp

def isAuthoritativeName (name : String) : Bool :=
  name = "jiji" || ".jiji".toList.isSuffixOf name.toList

/-- What comes back from a forwarder, if anything does in time. -/
abbrev Forwarder := List UInt8 → Option (List UInt8)

/-- The first answer is relayed, as far as the buffer holds it. -/
def forwardQuery (buffer : List UInt8) (forwarders : List Forwarder) : Option (List UInt8) :=
  forwarders.findSome? fun forwarder => (forwarder buffer).map (List.take 4096)

def handleQuery
    (lossy : LossyText)
    (buffer : List UInt8)
    (zone : Zone)
    (forwarders : List Forwarder)
    (isUdp : Bool) : Option (List UInt8) := do
  let query ← parseQuery lossy buffer
  if isAuthoritativeName query.name then respond lossy buffer zone isUdp
  else some ((forwardQuery buffer forwarders).getD
    (encodeResponse query rcodeServFail [] false false))

end Responses

section Lengths

variable {lossy : LossyText} {buffer : List UInt8} {zone : Zone}

theorem length_encodeAnswer (address : Ipv4Addr) : (encodeAnswer address).length = 16 := by
  simp [encodeAnswer, Digest.length_bytesOf]

theorem length_encodeResponse
    (query : ParsedQuery)
    (rcode : UInt8)
    (answers : List Ipv4Addr)
    (truncated authoritative : Bool) :
    (encodeResponse query rcode answers truncated authoritative).length =
      12 + query.questionBytes.length + 16 * answers.length := by
  simp [encodeResponse, Digest.length_bytesOf, List.length_flatMap, length_encodeAnswer]
  omega

/-- A reply with the truncation bit. -/
def truncationBit (reply : List UInt8) : Bool := (reply[2]?).any fun flags => flags &&& 0x02 ≠ 0

theorem encodeFlags_and_truncation (query : ParsedQuery) (truncated authoritative : Bool) :
    encodeFlags query truncated authoritative &&& 0x02 = if truncated then 0x02 else 0 := by
  unfold encodeFlags
  generalize query.recursionDesired = recursionDesired
  obtain ⟨bits⟩ := query.opcode
  revert bits truncated authoritative recursionDesired
  decide +kernel

theorem encodeFlags_and_response (query : ParsedQuery) (truncated authoritative : Bool) :
    encodeFlags query truncated authoritative &&& 0x80 ≠ 0 := by
  unfold encodeFlags
  generalize query.recursionDesired = recursionDesired
  obtain ⟨bits⟩ := query.opcode
  revert bits truncated authoritative recursionDesired
  decide +kernel

theorem truncationBit_encodeResponse
    (query : ParsedQuery)
    (rcode : UInt8)
    (answers : List Ipv4Addr)
    (truncated authoritative : Bool) :
    truncationBit (encodeResponse query rcode answers truncated authoritative) = truncated := by
  have position : (encodeResponse query rcode answers truncated authoritative)[2]? =
      some (encodeFlags query truncated authoritative) := by
    rw [encodeResponse, List.getElem?_append_right (by simp [Digest.length_bytesOf])]
    simp [Digest.length_bytesOf]
  rw [truncationBit, position, Option.any_some, encodeFlags_and_truncation]
  cases truncated <;> decide

end Lengths

section Parsing

variable {lossy : LossyText} {buffer : List UInt8} {query : ParsedQuery} {labels : List Label}

/-- What is read is a name that is written out, of labels that there is room for. -/
theorem eq_encodeName_of_parseLabels
    (parsed : parseLabels room bytes = some (labels, rest)) :
    bytes = encodeName labels ++ rest ∧ labels.length ≤ room ∧
      ∀ label ∈ labels, ProperLabel label := by
  induction room generalizing bytes labels with
  | zero =>
      obtain _ | ⟨length, bytes⟩ := bytes
      · cases parsed
      · simp only [parseLabels] at parsed
        split at parsed
        · rename_i zero
          cases parsed
          simp [encodeName, zero]
        · cases parsed
  | succ room inductionHypothesis =>
      obtain _ | ⟨length, bytes⟩ := bytes
      · cases parsed
      · simp only [parseLabels] at parsed
        split at parsed
        · rename_i zero
          cases parsed
          simp [encodeName, zero]
        · rename_i positive
          split at parsed
          · cases parsed
          · split at parsed
            · cases parsed
            · rename_i small whole
              obtain ⟨⟨later, remaining⟩, found, same⟩ := Option.map_eq_some_iff.mp parsed
              obtain ⟨rfl, rfl⟩ := Prod.mk.inj same
              obtain ⟨encoded, few, proper⟩ := inductionHypothesis found
              have size : (bytes.take length.toNat).length = length.toNat := by
                rw [List.length_take]
                omega
              refine ⟨?_, Nat.succ_le_succ few, ?_⟩
              · rw [encodeName_cons, size, UInt8.ofNat_toNat, List.cons_append, List.cons_append,
                  List.append_assoc, ← encoded, List.take_append_drop]
              · refine List.forall_mem_cons.mpr ⟨⟨?_, by omega⟩, proper⟩
                intro empty
                rw [empty, List.length_nil] at size
                exact positive (UInt8.toNat_inj.mp size.symm)

/-- A query that asks for the given labels. -/
structure Asks (lossy : LossyText) (query : ParsedQuery) (labels : List Label) : Prop where
  few : labels.length ≤ 33
  proper : ∀ label ∈ labels, ProperLabel label
  id : query.id < 256 ^ 2
  name : query.name =
    ".".intercalate (labels.map fun label => toAsciiLowercase (lossy label))
  question : ∃ typeBytes classBytes, typeBytes.length = 2 ∧ classBytes.length = 2 ∧
    query.qtype = numberOf typeBytes ∧ query.qclass = numberOf classBytes ∧
    query.questionBytes = encodeName labels ++ (typeBytes ++ classBytes)

/-- A buffer that can be read consists of a header, the question and more. -/
theorem asks_of_parseQuery (parsed : parseQuery lossy buffer = some query) :
    ∃ labels rest, Asks lossy query labels ∧ 12 ≤ buffer.length ∧
      buffer.drop 12 = query.questionBytes ++ rest := by
  unfold parseQuery at parsed
  split at parsed
  · split at parsed
    · cases parsed
    · split at parsed
      · rename_i labels type1 type0 class1 class0 rest found
        obtain rfl := Option.some.inj parsed
        obtain ⟨encoded, few, proper⟩ := eq_encodeName_of_parseLabels found
        have question : encodeName labels ++ ([type1, type0] ++ [class1, class0]) ++ rest =
            encodeName labels ++ type1 :: type0 :: class1 :: class0 :: rest := by simp
        rw [← question] at encoded
        subst encoded
        rw [List.length_append, Nat.add_sub_cancel, List.take_left]
        refine ⟨labels, rest, ⟨few, proper, numberOf_lt _, rfl, ?_⟩, by simp, rfl⟩
        exact ⟨[type1, type0], [class1, class0], rfl, rfl, rfl, rfl, rfl⟩
      · cases parsed
  · cases parsed

end Parsing

section Decoding

variable {lossy : LossyText} {buffer : List UInt8} {query : ParsedQuery} {labels : List Label}

theorem Asks.length_lt (asks : Asks lossy query labels) :
    labels.length < query.questionBytes.length := by
  obtain ⟨typeBytes, classBytes, _, _, _, _, bytes⟩ := asks.question
  have labelled := length_lt_encodeName labels
  rw [bytes, List.length_append]
  omega

/-- The question is read back in every message that is long enough. -/
theorem Asks.reads_question
    (asks : Asks lossy query labels)
    (enough : labels.length < message.length) :
    Reads (decodeQuestion message) query.questionBytes ⟨labels, query.qtype, query.qclass⟩ := by
  obtain ⟨typeBytes, classBytes, typeSize, classSize, typed, classed, bytes⟩ := asks.question
  rw [bytes, typed, classed]
  exact (reads_name asks.proper enough).bind
    ((reads_number typeSize).bind ((reads_number classSize).map _))

/-- The address record that an answer stands for. -/
def addressRecord (owner : List Label) (address : Ipv4Addr) : ResourceRecord :=
  ⟨owner, qtypeA, qclassIn, defaultTtl, bytesOf 4 address.toNat⟩

theorem reads_encodeAnswer
    (address : Ipv4Addr)
    (length : message.length = fuel + 1)
    (target : decodeName message fuel (message.drop 12) = some (labels, rest)) :
    Reads (decodeRecord message) (encodeAnswer address) (addressRecord labels address) := by
  have size : (bytesOf 4 address.toNat).length = 4 := Digest.length_bytesOf _ _
  unfold decodeRecord
  rw [length]
  refine (reads_pointer (by decide) target).bind ?_
  refine (reads_bytesOf (by decide)).bind ?_
  refine (reads_bytesOf (by decide)).bind ?_
  refine (reads_bytesOf (by decide)).bind ?_
  refine (reads_bytesOf (by decide)).bind ?_
  have data := reads_taken (bytesOf 4 address.toNat)
  rw [size] at data
  exact data.map _

theorem drop_encodeResponse
    (query : ParsedQuery)
    (rcode : UInt8)
    (answers : List Ipv4Addr)
    (truncated authoritative : Bool) :
    (encodeResponse query rcode answers truncated authoritative).drop 12 =
      query.questionBytes ++ answers.flatMap encodeAnswer :=
  rfl

/-- What a response says. -/
def responseMessage
    (query : ParsedQuery)
    (labels : List Label)
    (rcode : UInt8)
    (answers : List Ipv4Addr)
    (truncated authoritative : Bool) : Message where
  id := query.id
  flags := encodeFlags query truncated authoritative
  code := rcode &&& 0x0F
  questions := [⟨labels, query.qtype, query.qclass⟩]
  answers := answers.map (addressRecord labels)
  authority := []
  additional := []

/-- A response is read section by section. -/
theorem reads_encodeResponse
    (id : query.id < 256 ^ 2)
    (few : answers.length < 256 ^ 2)
    (question : Reads (decodeQuestion message) query.questionBytes
      ⟨labels, query.qtype, query.qclass⟩)
    (records : ∀ address, Reads (decodeRecord message) (encodeAnswer address)
      (addressRecord labels address)) :
    Reads (decodeSections message)
      (encodeResponse query rcode answers truncated authoritative)
      (responseMessage query labels rcode answers truncated authoritative) := by
  have questions : Reads (decodeMany (decodeQuestion message) 1) query.questionBytes
      [⟨labels, query.qtype, query.qclass⟩] := question.map fun first => [first]
  have answered : Reads (decodeMany (decodeRecord message) answers.length)
      (answers.flatMap encodeAnswer) (answers.map (addressRecord labels)) :=
    Reads.many fun address _ => records address
  unfold decodeSections
  refine (reads_bytesOf id).bind ?_
  refine (reads_number (List.length_singleton (a := encodeFlags query truncated _))).bind ?_
  refine (reads_number (List.length_singleton (a := rcode &&& 0x0F))).bind ?_
  refine (reads_bytesOf (by decide)).bind ?_
  refine (reads_bytesOf few).bind ?_
  refine (reads_bytesOf (by decide)).bind ?_
  refine (reads_bytesOf (by decide)).bind ?_
  refine questions.bind ?_
  rw [numberOf_singleton, numberOf_singleton, UInt8.ofNat_toNat, UInt8.ofNat_toNat,
    ← List.append_nil (answers.flatMap encodeAnswer)]
  exact answered.bind fun _ => rfl

/-- A response is decoded to the question of the query and the given addresses. -/
theorem Asks.decodeMessage_encodeResponse
    (asks : Asks lossy query labels)
    (few : answers.length < 256 ^ 2) :
    decodeMessage (encodeResponse query rcode answers truncated authoritative) =
      some (responseMessage query labels rcode answers truncated authoritative) := by
  obtain ⟨typeBytes, classBytes, _, _, _, _, bytes⟩ := asks.question
  have size := length_encodeResponse query rcode answers truncated authoritative
  have start := drop_encodeResponse query rcode answers truncated authoritative
  rw [bytes, List.append_assoc] at start
  generalize message : encodeResponse query rcode answers truncated authoritative = reply
    at size start
  have labelled := asks.length_lt
  obtain ⟨fuel, length⟩ : ∃ fuel, reply.length = fuel + 1 := ⟨reply.length - 1, by omega⟩
  have named : Reads (decodeName reply fuel) (encodeName labels) labels :=
    reads_name asks.proper (by omega)
  have whole : Reads (decodeSections reply)
      (encodeResponse query rcode answers truncated authoritative)
      (responseMessage query labels rcode answers truncated authoritative) :=
    reads_encodeResponse asks.id few (asks.reads_question (by omega)) fun address =>
      reads_encodeAnswer address length (start ▸ named _)
  have decoded := whole []
  rw [List.append_nil, message] at decoded
  rw [decodeMessage, decoded]
  rfl

end Decoding

section Replies

variable {lossy : LossyText} {buffer : List UInt8} {query : ParsedQuery} {zone : Zone}
variable {isUdp : Bool}

/-- A query for the addresses of a name in the zone. -/
structure AsksFor (query : ParsedQuery) (zone : Zone) (addresses : List Ipv4Addr) : Prop where
  opcode : query.opcode = 0
  qclass : query.qclass = qclassIn
  qtype : query.qtype = qtypeA ∨ query.qtype = qtypeAny
  listed : zone[query.name]? = some addresses

/-- The whole response with the addresses of a name. -/
def fullResponse (query : ParsedQuery) (addresses : List Ipv4Addr) : List UInt8 :=
  encodeResponse query rcodeNoError (addresses.take maxAnswers) false true

theorem AsksFor.respondTo_eq
    (asksFor : AsksFor query zone addresses) :
    respondTo query zone isUdp =
      if isUdp ∧ maxUdpResponseBytes < (fullResponse query addresses).length then
        encodeResponse query rcodeNoError [] true true
      else fullResponse query addresses := by
  have found : lookUp query zone = (rcodeNoError, addresses) := by
    simp only [lookUp, asksFor.listed, asksFor.qtype, if_true]
  simp only [respondTo, asksFor.opcode, asksFor.qclass, found, ne_eq, not_true_eq_false,
    if_false, fullResponse]
  rfl

/-- Other queries are answered without addresses. -/
theorem respondTo_of_not_asksFor
    (isUdp : Bool)
    (other : ¬∃ addresses, AsksFor query zone addresses) :
    ∃ rcode truncated, respondTo query zone isUdp = encodeResponse query rcode [] truncated true ∧
      (isUdp = false → truncated = false) := by
  have unlisted : query.opcode = 0 → query.qclass = qclassIn → (lookUp query zone).2 = [] := by
    intro opcode qclass
    unfold lookUp
    split
    · rfl
    · rename_i addresses listed
      split
      · rename_i qtype
        exact absurd ⟨addresses, opcode, qclass, qtype, listed⟩ other
      · rfl
  unfold respondTo
  split
  · exact ⟨_, _, rfl, fun _ => rfl⟩
  · split
    · exact ⟨_, _, rfl, fun _ => rfl⟩
    · rename_i opcode qclass
      simp only [unlisted (not_not.mp opcode) (not_not.mp qclass), List.take_nil]
      split
      · rename_i datagram
        refine ⟨_, _, rfl, fun stream => ?_⟩
        rw [stream] at datagram
        cases datagram.1
      · exact ⟨_, _, rfl, fun _ => rfl⟩

/-- A response is no longer than a datagram may be unless its question is too long, and it is
truncated only in a datagram. -/
theorem respondTo_cases (query : ParsedQuery) (zone : Zone) (isUdp : Bool) :
    ∃ rcode answers truncated,
      respondTo query zone isUdp = encodeResponse query rcode answers truncated true ∧
      (isUdp = false → truncated = false) ∧
      (isUdp = true → answers = [] ∨ (respondTo query zone isUdp).length ≤ 512) := by
  by_cases asked : ∃ addresses, AsksFor query zone addresses
  · obtain ⟨addresses, asksFor⟩ := asked
    rw [asksFor.respondTo_eq]
    split
    · rename_i datagram
      refine ⟨_, _, _, rfl, fun stream => ?_, fun _ => Or.inl rfl⟩
      rw [stream] at datagram
      cases datagram.1
    · rename_i fits
      refine ⟨_, _, _, rfl, fun _ => rfl, fun datagram => Or.inr ?_⟩
      exact Nat.not_lt.mp fun long => fits ⟨datagram, long⟩
  · obtain ⟨rcode, truncated, answered, clear⟩ := respondTo_of_not_asksFor isUdp asked
    exact ⟨rcode, [], truncated, answered, clear, fun _ => Or.inl rfl⟩

/-- A reply that is decoded to the question of the query and, if it asks for the addresses of a
name in the zone, to the first of them as records of that name. -/
def DecodesToZone
    (buffer : List UInt8)
    (query : ParsedQuery)
    (zone : Zone)
    (isUdp : Bool)
    (reply : List UInt8) : Prop :=
  ∃ message question rest, decodeMessage reply = some message ∧
    decodeQuestion buffer (buffer.drop 12) = some (question, rest) ∧
    message.id = query.id ∧ message.isResponse = true ∧ message.questions = [question] ∧
    (∀ addresses, AsksFor query zone addresses →
      if isUdp ∧ maxUdpResponseBytes < (fullResponse query addresses).length then
        message.isTruncated = true ∧ message.answers = []
      else message.isTruncated = false ∧
        message.answers = (addresses.take maxAnswers).map (addressRecord question.name)) ∧
    ((¬∃ addresses, AsksFor query zone addresses) → message.answers = [])

theorem respond_decodes_to_zone
    (zone : Zone)
    (isUdp : Bool)
    (parsed : parseQuery lossy buffer = some query) :
    ∃ reply, respond lossy buffer zone isUdp = some reply ∧
      DecodesToZone buffer query zone isUdp reply := by
  obtain ⟨labels, rest, asks, long, start⟩ := asks_of_parseQuery parsed
  have responded : respond lossy buffer zone isUdp = some (respondTo query zone isUdp) := by
    rw [respond, parsed, Option.map_some]
  have read : decodeQuestion buffer (buffer.drop 12) =
      some (⟨labels, query.qtype, query.qclass⟩, rest) := by
    rw [start]
    refine asks.reads_question ?_ rest
    have labelled := asks.length_lt
    have size := congrArg List.length start
    rw [List.length_drop, List.length_append] at size
    omega
  have response (rcode : UInt8) (answers : List Ipv4Addr) (truncated : Bool) :
      (responseMessage query labels rcode answers truncated true).isResponse = true :=
    decide_eq_true (encodeFlags_and_response query truncated true)
  have truncation (rcode : UInt8) (answers : List Ipv4Addr) (truncated : Bool) :
      (responseMessage query labels rcode answers truncated true).isTruncated = truncated := by
    simp only [Message.isTruncated, responseMessage, encodeFlags_and_truncation]
    cases truncated <;> decide
  by_cases asked : ∃ addresses, AsksFor query zone addresses
  · obtain ⟨addresses, asksFor⟩ := asked
    have few : (addresses.take maxAnswers).length < 256 ^ 2 :=
      (List.length_take_le _ _).trans_lt (by decide)
    have chosen (others : List Ipv4Addr) (asksOthers : AsksFor query zone others) :
        others = addresses := Option.some.inj (asksOthers.listed.symm.trans asksFor.listed)
    rw [responded, asksFor.respondTo_eq]
    split
    · refine ⟨_, rfl, _, _, _, asks.decodeMessage_encodeResponse (by decide), read, rfl,
        response _ _ _, rfl, fun others asksOthers => ?_, fun unasked => absurd ⟨_, asksFor⟩ unasked⟩
      rw [chosen others asksOthers, if_pos ‹_›]
      exact ⟨truncation _ _ _, rfl⟩
    · refine ⟨_, rfl, _, _, _, asks.decodeMessage_encodeResponse few, read, rfl,
        response _ _ _, rfl, fun others asksOthers => ?_, fun unasked => absurd ⟨_, asksFor⟩ unasked⟩
      rw [chosen others asksOthers, if_neg ‹_›]
      exact ⟨truncation _ _ _, rfl⟩
  · obtain ⟨rcode, truncated, answered, _⟩ := respondTo_of_not_asksFor isUdp asked
    rw [responded, answered]
    exact ⟨_, rfl, _, _, _, asks.decodeMessage_encodeResponse (by decide), read, rfl,
      response _ _ _, rfl, fun others asksOthers => absurd ⟨others, asksOthers⟩ asked,
      fun _ => rfl⟩

theorem handleQuery_eq
    (zone : Zone)
    (forwarders : List Forwarder)
    (isUdp : Bool)
    (parsed : parseQuery lossy buffer = some query) :
    handleQuery lossy buffer zone forwarders isUdp = some
      (if isAuthoritativeName query.name then respondTo query zone isUdp
        else (forwardQuery buffer forwarders).getD
          (encodeResponse query rcodeServFail [] false false)) := by
  rw [handleQuery, parsed, Option.bind_eq_bind, Option.bind_some]
  split
  · rw [respond, parsed, Option.map_some]
  · rfl

/-- What the first forwarder that answers has sent, up to the size of the buffer. -/
theorem forwardQuery_eq (buffer : List UInt8) (forwarders : List Forwarder) :
    forwardQuery buffer forwarders =
      (forwarders.findSome? fun forwarder => forwarder buffer).map (List.take 4096) := by
  rw [List.map_findSome?]
  rfl

theorem truncationBit_take (reply : List UInt8) :
    truncationBit (reply.take 4096) = truncationBit reply := by
  rw [truncationBit, List.getElem?_take_of_lt (by decide), truncationBit]

theorem respondTo_fits
    (zone : Zone)
    (short : isUdp = true → query.questionBytes.length ≤ 500) :
    (isUdp = true → (respondTo query zone isUdp).length ≤ maxUdpResponseBytes) ∧
      (isUdp = false → truncationBit (respondTo query zone isUdp) = false) := by
  obtain ⟨rcode, answers, truncated, answered, clear, fits⟩ := respondTo_cases query zone isUdp
  constructor
  · intro datagram
    rcases fits datagram with rfl | fits
    · have limit := short datagram
      rw [answered, length_encodeResponse, List.length_nil]
      change _ ≤ 512
      omega
    · exact fits
  · intro stream
    rw [answered, truncationBit_encodeResponse, clear stream]

/-- Replies fit their transport exactly if the questions of datagrams are at most 500 bytes long
and no truncated answer is forwarded over a stream. -/
theorem replies_fit_iff
    (lossy : LossyText)
    (buffer : List UInt8)
    (zone : Zone)
    (forwarders : List Forwarder)
    (isUdp : Bool) :
    (∀ query reply, parseQuery lossy buffer = some query →
        handleQuery lossy buffer zone forwarders isUdp = some reply →
        (isUdp = true → isAuthoritativeName query.name = true →
          reply.length ≤ maxUdpResponseBytes) ∧
        (isUdp = false → truncationBit reply = false)) ↔
      ∀ query, parseQuery lossy buffer = some query →
        (isUdp = true → isAuthoritativeName query.name = true →
          query.questionBytes.length ≤ 500) ∧
        (isUdp = false → isAuthoritativeName query.name = false →
          ∀ answer, (forwarders.findSome? fun forwarder => forwarder buffer) = some answer →
            truncationBit answer = false) := by
  constructor
  · intro fit query parsed
    have handled := handleQuery_eq zone forwarders isUdp parsed
    refine ⟨fun datagram own => ?_, fun stream foreign answer found => ?_⟩
    · rw [if_pos own] at handled
      have limit := (fit query _ parsed handled).1 datagram own
      obtain ⟨rcode, answers, truncated, answered, _⟩ := respondTo_cases query zone isUdp
      rw [answered, length_encodeResponse] at limit
      change _ ≤ 512 at limit
      omega
    · rw [if_neg (by rw [foreign]; exact Bool.false_ne_true), forwardQuery_eq, found,
        Option.map_some, Option.getD_some] at handled
      rw [← truncationBit_take]
      exact (fit query _ parsed handled).2 stream
  · intro bounded query reply parsed handled
    obtain ⟨short, complete⟩ := bounded query parsed
    rw [handleQuery_eq zone forwarders isUdp parsed] at handled
    obtain rfl := Option.some.inj handled
    cases own : isAuthoritativeName query.name with
    | true =>
        obtain ⟨fits, clear⟩ := respondTo_fits zone fun datagram => short datagram own
        exact ⟨fun datagram _ => fits datagram, clear⟩
    | false =>
        refine ⟨fun _ contra => (Bool.false_ne_true contra).elim, fun stream => ?_⟩
        rw [forwardQuery_eq]
        cases found : forwarders.findSome? fun forwarder => forwarder buffer with
        | none => exact truncationBit_encodeResponse _ _ _ _ _
        | some answer =>
            exact (truncationBit_take answer).trans (complete stream own answer found)

/-- Text of which every byte is a character. -/
def sampleLossy : LossyText := fun bytes =>
  String.ofList (bytes.map fun byte => Char.ofNat byte.toNat)

/-- A query for the addresses of the given labels. -/
def sampleQuery (labels : List String) : List UInt8 :=
  [0, 42, 1, 0, 0, 1, 0, 0, 0, 0, 0, 0] ++
    encodeName (labels.map fun label => label.toList.map fun character =>
      UInt8.ofNat character.toNat) ++ [0, 1, 0, 1]

theorem respond_decodes_sampleQuery :
    ∃ query reply, parseQuery sampleLossy (sampleQuery ["P-w", "jiji"]) = some query ∧
      query.name = "p-w.jiji" ∧
      respond sampleLossy (sampleQuery ["P-w", "jiji"]) (.ofList [("p-w.jiji", [7#32])]) true =
        some reply ∧
      DecodesToZone (sampleQuery ["P-w", "jiji"]) query (.ofList [("p-w.jiji", [7#32])]) true
        reply :=
  have parsed : parseQuery sampleLossy (sampleQuery ["P-w", "jiji"]) =
      some ⟨42, 0, true, "p-w.jiji", 1, 1, (sampleQuery ["P-w", "jiji"]).drop 12⟩ := by
    decide +kernel
  have ⟨reply, responded, decodes⟩ := respond_decodes_to_zone _ true parsed
  ⟨_, reply, parsed, rfl, responded, decodes⟩

/-- A stream gets the truncated answer of a forwarder. -/
theorem truncated_answer_is_forwarded :
    (handleQuery sampleLossy (sampleQuery ["w"]) ∅ [fun _ => some [0, 42, 0x83, 0]] false).map
      truncationBit = some true := by
  decide +kernel

end Replies

end Agent
end Jiji

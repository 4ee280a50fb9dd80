import Mathlib

/-!
# SHA-256

The digest of a sequence of bytes, computed on natural numbers: a message is padded to
whole blocks of sixteen words, and each block is mixed into a state of eight words by
sixty-four rounds.  Everything reduces in the kernel.
-/

namespace Digest

/-- The number of values of a word. -/
def wordSize : ℕ := 2 ^ 32

def rotateRight (count value : ℕ) : ℕ :=
  (value >>> count) ||| ((value <<< (32 - count)) % wordSize)

/-- The leading bits of the fractional parts of the cube roots of the first primes. -/
def roundConstants : List ℕ := [
  0x428a2f98, 0x71374491, 0xb5c0fbcf, 0xe9b5dba5, 0x3956c25b, 0x59f111f1, 0x923f82a4, 0xab1c5ed5,
  0xd807aa98, 0x12835b01, 0x243185be, 0x550c7dc3, 0x72be5d74, 0x80deb1fe, 0x9bdc06a7, 0xc19bf174,
  0xe49b69c1, 0xefbe4786, 0x0fc19dc6, 0x240ca1cc, 0x2de92c6f, 0x4a7484aa, 0x5cb0a9dc, 0x76f988da,
  0x983e5152, 0xa831c66d, 0xb00327c8, 0xbf597fc7, 0xc6e00bf3, 0xd5a79147, 0x06ca6351, 0x14292967,
  0x27b70a85, 0x2e1b2138, 0x4d2c6dfc, 0x53380d13, 0x650a7354, 0x766a0abb, 0x81c2c92e, 0x92722c85,
  0xa2bfe8a1, 0xa81a664b, 0xc24b8b70, 0xc76c51a3, 0xd192e819, 0xd6990624, 0xf40e3585, 0x106aa070,
  0x19a4c116, 0x1e376c08, 0x2748774c, 0x34b0bcb5, 0x391c0cb3, 0x4ed8aa4a, 0x5b9cca4f, 0x682e6ff3,
  0x748f82ee, 0x78a5636f, 0x84c87814, 0x8cc70208, 0x90befffa, 0xa4506ceb, 0xbef9a3f7, 0xc67178f2]

/-- The eight words that are carried from block to block. -/
structure Chain where
  a : ℕ
  b : ℕ
  c : ℕ
  d : ℕ
  e : ℕ
  f : ℕ
  g : ℕ
  h : ℕ

namespace Chain

/-- The leading bits of the fractional parts of the square roots of the first primes. -/
def initial : Chain where
  a := 0x6a09e667
  b := 0xbb67ae85
  c := 0x3c6ef372
  d := 0xa54ff53a
  e := 0x510e527f
  f := 0x9b05688c
  g := 0x1f83d9ab
  h := 0x5be0cd19

def words (chain : Chain) : List ℕ :=
  [chain.a, chain.b, chain.c, chain.d, chain.e, chain.f, chain.g, chain.h]

/-- One round with its constant and its word of the message schedule. -/
def mix (chain : Chain) (constant scheduled : ℕ) : Chain :=
  let upper := rotateRight 6 chain.e ^^^ rotateRight 11 chain.e ^^^ rotateRight 25 chain.e
  let choice := (chain.e &&& chain.f) ^^^ ((wordSize - 1 - chain.e) &&& chain.g)
  let first := chain.h + upper + choice + constant + scheduled
  let lower := rotateRight 2 chain.a ^^^ rotateRight 13 chain.a ^^^ rotateRight 22 chain.a
  let majority := (chain.a &&& chain.b) ^^^ (chain.a &&& chain.c) ^^^ (chain.b &&& chain.c)
  { a := (first + lower + majority) % wordSize
    b := chain.a
    c := chain.b
    d := chain.c
    e := (chain.d + first) % wordSize
    f := chain.e
    g := chain.f
    h := chain.g }

/-- The word by word sum of two chains. -/
def add (left right : Chain) : Chain where
  a := (left.a + right.a) % wordSize
  b := (left.b + right.b) % wordSize
  c := (left.c + right.c) % wordSize
  d := (left.d + right.d) % wordSize
  e := (left.e + right.e) % wordSize
  f := (left.f + right.f) % wordSize
  g := (left.g + right.g) % wordSize
  h := (left.h + right.h) % wordSize

end Chain

/-- Compute a number before it is used, so that it is computed once. -/
def evaluated {α : Type*} (value : ℕ) (use : ℕ → α) : α :=
  match value with
  | 0 => use 0
  | number + 1 => use (number + 1)

/-- The word of the schedule that follows sixteen others. -/
def nextScheduled (scheduled : ℕ) (window : List ℕ) : ℕ :=
  let early := window.getD 0 0
  let late := window.getD 13 0
  let first := rotateRight 7 early ^^^ rotateRight 18 early ^^^ (early >>> 3)
  let second := rotateRight 17 late ^^^ rotateRight 19 late ^^^ (late >>> 10)
  (second + window.getD 8 0 + first + scheduled) % wordSize

/-- One round for each constant; the window holds the next sixteen words of the schedule. -/
def rounds : List ℕ → List ℕ → Chain → Chain
  | constant :: constants, scheduled :: window, chain =>
      let mixed := chain.mix constant scheduled
      evaluated (nextScheduled scheduled window) fun next =>
        evaluated mixed.a fun a => evaluated mixed.e fun e =>
          rounds constants (window ++ [next]) { mixed with a := a, e := e }
  | _, _, chain => chain

def compress (chain : Chain) (block : List ℕ) : Chain :=
  chain.add (rounds roundConstants block chain)

/-- The bytes of a number, most significant first. -/
def bytesOf (count value : ℕ) : List UInt8 :=
  (List.range count).map fun index => UInt8.ofNat (value / 256 ^ (count - 1 - index))

theorem length_bytesOf (count value : ℕ) : (bytesOf count value).length = count := by
  simp [bytesOf]

/-- Numbers with the same low digits in some base. -/
theorem mod_pow_eq_of_digits
    {base count left right : ℕ}
    (same : ∀ index < count, left / base ^ index % base = right / base ^ index % base) :
    left % base ^ count = right % base ^ count := by
  induction count with
  | zero => simp [Nat.mod_one]
  | succ count inductionHypothesis =>
      rw [Nat.mod_pow_succ, Nat.mod_pow_succ, same count (Nat.lt_succ_self count),
        inductionHypothesis fun index small => same index (Nat.lt_succ_of_lt small)]

/-- A number that fits is determined by its bytes. -/
theorem eq_of_bytesOf_eq
    {count left right : ℕ}
    (leftFits : left < 256 ^ count)
    (rightFits : right < 256 ^ count)
    (same : bytesOf count left = bytesOf count right) :
    left = right := by
  rw [← Nat.mod_eq_of_lt leftFits, ← Nat.mod_eq_of_lt rightFits]
  refine mod_pow_eq_of_digits fun index small => ?_
  have atIndex := List.map_inj_left.mp same (count - 1 - index)
    (List.mem_range.mpr (by omega))
  have position : count - 1 - (count - 1 - index) = index := by omega
  rw [position] at atIndex
  exact congrArg UInt8.toNat atIndex

/-- A message with its padding and its length in bits. -/
def padded (message : List UInt8) : List UInt8 :=
  message ++ 0x80 :: List.replicate ((119 - message.length % 64) % 64) 0 ++
    bytesOf 8 (8 * message.length)

/-- The words of a sequence of bytes. -/
def wordsOf : List UInt8 → List ℕ
  | first :: second :: third :: fourth :: rest =>
      (((first.toNat * 256 + second.toNat) * 256 + third.toNat) * 256 + fourth.toNat) ::
        wordsOf rest
  | _ => []

/-- Mix a number of blocks of sixteen words into a chain. -/
def digestBlocks : ℕ → List ℕ → Chain → Chain
  | 0, _, chain => chain
  | count + 1, words, chain => digestBlocks count (words.drop 16) (compress chain (words.take 16))

/-- The SHA-256 digest of a message. -/
def sha256 (message : List UInt8) : BitVec 256 :=
  let words := wordsOf (padded message)
  let last := digestBlocks (words.length / 16) words Chain.initial
  BitVec.ofNat 256 (last.words.foldl (fun value word => value * wordSize + word) 0)

example : sha256 [] =
    0xe3b0c44298fc1c149afbf4c8996fb92427ae41e4649b934ca495991b7852b855 := by decide +kernel

example : sha256 [0x61, 0x62, 0x63] =
    0xba7816bf8f01cfea414140de5dae2223b00361a396177a9cb410ff61f20015ad := by decide +kernel

end Digest

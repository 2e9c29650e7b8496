/-!
The BLAKE3 digest: chunks of 1024 bytes are hashed block by block and joined pairwise into a tree,
whose root gives the digest.
-/
namespace Phrasebook.Digest.Blake3

abbrev Words (n : Nat) := Vector UInt32 n

def iv : Words 8 :=
  #v[0x6a09e667, 0xbb67ae85, 0x3c6ef372, 0xa54ff53a, 0x510e527f, 0x9b05688c, 0x1f83d9ab, 0x5be0cd19]

/-- The message words of the next round. -/
def permute (m : Words 16) : Words 16 :=
  #v[m[2], m[6], m[3], m[10], m[7], m[0], m[4], m[13], m[1], m[11], m[12], m[5], m[9], m[14],
    m[15], m[8]]

def rotateRight (x n : UInt32) : UInt32 := (x >>> n) ||| (x <<< (32 - n))

/-- Mixes two message words into a column or diagonal of the state. -/
def mix (v : Words 16) (a b c d : Fin 16) (x y : UInt32) : Words 16 :=
  let v := v.set a (v[a] + v[b] + x)
  let v := v.set d (rotateRight (v[d] ^^^ v[a]) 16)
  let v := v.set c (v[c] + v[d])
  let v := v.set b (rotateRight (v[b] ^^^ v[c]) 12)
  let v := v.set a (v[a] + v[b] + y)
  let v := v.set d (rotateRight (v[d] ^^^ v[a]) 8)
  let v := v.set c (v[c] + v[d])
  v.set b (rotateRight (v[b] ^^^ v[c]) 7)

def round (v m : Words 16) : Words 16 :=
  let v := mix v 0 4 8 12 m[0] m[1]
  let v := mix v 1 5 9 13 m[2] m[3]
  let v := mix v 2 6 10 14 m[4] m[5]
  let v := mix v 3 7 11 15 m[6] m[7]
  let v := mix v 0 5 10 15 m[8] m[9]
  let v := mix v 1 6 11 12 m[10] m[11]
  let v := mix v 2 7 8 13 m[12] m[13]
  mix v 3 4 9 14 m[14] m[15]

def rounds : Nat → Words 16 → Words 16 → Words 16
  | 0, v, _ => v
  | n + 1, v, m => rounds n (round v m) (permute m)

/-- One block before it is compressed. -/
structure Block where
  /-- The value chained from the block before. -/
  chain : Words 8
  words : Words 16
  counter : Nat
  length : Nat
  flags : UInt32

def chunkStart : UInt32 := 1
def chunkEnd : UInt32 := 2
def parentFlag : UInt32 := 4
def rootFlag : UInt32 := 8

def Block.compress (b : Block) : Words 8 :=
  let h := b.chain
  let v : Words 16 :=
    #v[h[0], h[1], h[2], h[3], h[4], h[5], h[6], h[7], iv[0], iv[1], iv[2], iv[3],
      UInt32.ofNat b.counter, UInt32.ofNat (b.counter / Nat.pow 2 32),
      UInt32.ofNat b.length, b.flags]
  let v := rounds 7 v b.words
  Vector.ofFn fun i => v[i.val] ^^^ v[i.val + 8]

/-- Four bytes, the lowest first; missing bytes are zero. -/
def wordAt (bytes : List UInt8) (i : Nat) : UInt32 :=
  (List.range 4).foldl
    (fun w j => w ||| ((bytes.getD (4 * i + j) 0).toUInt32 <<< UInt32.ofNat (8 * j))) 0

def blockWords (bytes : List UInt8) : Words 16 := Vector.ofFn fun i => wordAt bytes i.val

/-- Pieces of at most `size` bytes; no bytes make one empty piece. -/
def pieces (size : Nat) (bytes : List UInt8) : List (List UInt8) :=
  (List.range (max 1 ((bytes.length + size - 1) / size))).map fun i =>
    (bytes.drop (i * size)).take size

/-- Chains the blocks of a chunk; the last one is left to compress. -/
def chainBlocks (counter : Nat) : Words 8 → UInt32 → List (List UInt8) → Block
  | chain, flags, [] => ⟨chain, blockWords [], counter, 0, flags ||| chunkEnd⟩
  | chain, flags, [last] =>
    ⟨chain, blockWords last, counter, last.length, flags ||| chunkEnd⟩
  | chain, flags, block :: rest =>
    let b : Block := ⟨chain, blockWords block, counter, block.length, flags⟩
    chainBlocks counter b.compress 0 rest

def chunk (counter : Nat) (bytes : List UInt8) : Block :=
  chainBlocks counter iv chunkStart (pieces 64 bytes)

def parent (left right : Block) : Block :=
  ⟨iv, left.compress ++ right.compress, 0, 64, parentFlag⟩

/-- Joins neighbours; an odd last one moves up as it is. -/
def joinPairs : List Block → List Block
  | a :: b :: rest => parent a b :: joinPairs rest
  | rest => rest

theorem length_joinPairs_le (bs : List Block) : (joinPairs bs).length ≤ bs.length := by
  fun_induction joinPairs bs <;> simp_all
  omega

def root : List Block → Block
  | [] => chunk 0 []
  | [b] => b
  | a :: b :: rest => root (parent a b :: joinPairs rest)
termination_by bs => bs.length
decreasing_by
  have := length_joinPairs_le rest
  simp
  omega

def digest (bytes : List UInt8) : Words 8 :=
  let top := root ((pieces 1024 bytes).zipIdx.map fun (b, i) => chunk i b)
  { top with flags := top.flags ||| rootFlag }.compress

def hexDigit (n : Nat) : Char := Nat.digitChar (n % 16)

/-- Two digits for each byte, the lowest byte first. -/
def wordHex (w : UInt32) : List Char :=
  (List.range 4).flatMap fun i =>
    let byte := (w.toNat / Nat.pow 2 (8 * i)) % 256
    [hexDigit (byte / 16), hexDigit byte]

/-- The digest of a text in lower-case hexadecimal digits. -/
def hex (text : String) : List Char :=
  (digest text.toUTF8.toList).toList.flatMap wordHex

end Phrasebook.Digest.Blake3

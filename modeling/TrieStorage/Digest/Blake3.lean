import TrieStorage.Bytes.LittleEndian

/-!
# The BLAKE3 digest

The plain hashing mode with a 32-byte result.  The input is cut into chunks of
1024 bytes; each chunk is compressed block by block; chunks are joined in a
binary tree whose left side is the largest full tree that leaves something for
the right.  Only the last compression carries the root flag.
-/

namespace TrieStorage

namespace Blake3

/-- Eight words: a chaining value. -/
abbrev Words8 := Vector UInt32 8

/-- Sixteen words: a message block or a compression state. -/
abbrev Words16 := Vector UInt32 16

def initial : Words8 := #v[
  0x6A09E667, 0xBB67AE85, 0x3C6EF372, 0xA54FF53A,
  0x510E527F, 0x9B05688C, 0x1F83D9AB, 0x5BE0CD19]

def chunkStart : UInt32 := 1
def chunkEnd : UInt32 := 2
def parentFlag : UInt32 := 4
def rootFlag : UInt32 := 8

/-- A word turned right by some bits. -/
def rotateRight (word amount : UInt32) : UInt32 :=
  (word >>> amount) ||| (word <<< (32 - amount))

/-- One quarter round: four state words are mixed with two message words. -/
def quarter (v : Words16) (a b c d : Fin 16) (x y : UInt32) : Words16 :=
  let v := v.set a (v[a] + v[b] + x)
  let v := v.set d (rotateRight (v[d] ^^^ v[a]) 16)
  let v := v.set c (v[c] + v[d])
  let v := v.set b (rotateRight (v[b] ^^^ v[c]) 12)
  let v := v.set a (v[a] + v[b] + y)
  let v := v.set d (rotateRight (v[d] ^^^ v[a]) 8)
  let v := v.set c (v[c] + v[d])
  v.set b (rotateRight (v[b] ^^^ v[c]) 7)

/-- One round: the four columns, then the four diagonals. -/
def round (v m : Words16) : Words16 :=
  let v := quarter v 0 4 8 12 m[0] m[1]
  let v := quarter v 1 5 9 13 m[2] m[3]
  let v := quarter v 2 6 10 14 m[4] m[5]
  let v := quarter v 3 7 11 15 m[6] m[7]
  let v := quarter v 0 5 10 15 m[8] m[9]
  let v := quarter v 1 6 11 12 m[10] m[11]
  let v := quarter v 2 7 8 13 m[12] m[13]
  quarter v 3 4 9 14 m[14] m[15]

/-- The order in which the next round takes the message words. -/
def reorder (m : Words16) : Words16 := #v[
  m[2], m[6], m[3], m[10], m[7], m[0], m[4], m[13],
  m[1], m[11], m[12], m[5], m[9], m[14], m[15], m[8]]

/-- The given number of rounds, with the message reordered between them. -/
def rounds : Nat → Words16 → Words16 → Words16
  | 0, v, _ => v
  | 1, v, m => round v m
  | n + 2, v, m => rounds (n + 1) (round v m) (reorder m)

/-- A compression that has not been carried out yet.  Keeping it open lets
the caller decide whether it is the root of the tree. -/
structure Pending where
  chain : Words8
  block : Words16
  counter : UInt64
  blockLength : UInt32
  flags : UInt32

namespace Pending

/-- Carries out the compression with extra flags; the first eight words result. -/
def compress (p : Pending) (extra : UInt32) : Words8 :=
  let h := p.chain
  let v : Words16 := #v[
    h[0], h[1], h[2], h[3], h[4], h[5], h[6], h[7],
    initial[0], initial[1], initial[2], initial[3],
    p.counter.toUInt32, (p.counter >>> 32).toUInt32, p.blockLength, p.flags ||| extra]
  let v := rounds 7 v p.block
  #v[v[0] ^^^ v[8], v[1] ^^^ v[9], v[2] ^^^ v[10], v[3] ^^^ v[11],
     v[4] ^^^ v[12], v[5] ^^^ v[13], v[6] ^^^ v[14], v[7] ^^^ v[15]]

/-- The chaining value passed to the node above. -/
def chaining (p : Pending) : Words8 := p.compress 0

/-- The words of the digest, when this compression is the root. -/
def root (p : Pending) : Words8 := { p with counter := 0 }.compress rootFlag

end Pending

/-- The word that starts at a byte offset; missing bytes count as zero. -/
def wordAt (bytes : Bytes) (index : Nat) : UInt32 :=
  UInt32.ofNat (LittleEndian.decode ((bytes.drop (4 * index)).take 4))

/-- The sixteen words of a block of at most 64 bytes. -/
def blockWords (bytes : Bytes) : Words16 := Vector.ofFn fun i => wordAt bytes i

/-- Compresses the blocks of one chunk in turn and leaves the last one open.
`first` marks the block that opens the chunk. -/
def chunkFrom (counter : UInt64) (chain : Words8) (first : UInt32) (bytes : Bytes) : Pending :=
  if bytes.length ≤ 64 then
    { chain, block := blockWords bytes, counter,
      blockLength := UInt32.ofNat bytes.length, flags := first ||| chunkEnd }
  else
    let block : Pending :=
      { chain, block := blockWords (bytes.take 64), counter, blockLength := 64, flags := first }
    chunkFrom counter block.chaining 0 (bytes.drop 64)
termination_by bytes.length
decreasing_by simp only [List.length_drop]; omega

/-- One chunk of at most 1024 bytes. -/
def chunk (counter : UInt64) (bytes : Bytes) : Pending :=
  chunkFrom counter initial chunkStart bytes

def parent (left right : Words8) : Pending :=
  { chain := initial, block := (left ++ right).cast rfl, counter := 0, blockLength := 64,
    flags := parentFlag }

/-- How many bytes of more than 1024 go to the left: the largest power of two
of full chunks that leaves at least one byte. -/
def leftLength (length : Nat) : Nat := 1024 * Nat.pow 2 ((length - 1) / 1024).log2

theorem leftLength_pos (length : Nat) : 0 < leftLength length :=
  Nat.mul_pos (by decide) (Nat.pow_pos (by decide))

theorem leftLength_lt {length : Nat} (h : 1024 < length) : leftLength length < length := by
  have nonzero : (length - 1) / 1024 ≠ 0 := by omega
  have below : Nat.pow 2 ((length - 1) / 1024).log2 ≤ (length - 1) / 1024 :=
    Nat.log2_self_le nonzero
  unfold leftLength
  omega

/-- The tree over an input whose first chunk has the given number. -/
def tree (counter : UInt64) (bytes : Bytes) : Pending :=
  if bytes.length ≤ 1024 then chunk counter bytes
  else
    let cut := leftLength bytes.length
    let left := tree counter (bytes.take cut)
    let right := tree (counter + UInt64.ofNat (cut / 1024)) (bytes.drop cut)
    parent left.chaining right.chaining
termination_by bytes.length
decreasing_by
  · have := leftLength_lt (Nat.lt_of_not_le ‹¬ bytes.length ≤ 1024›)
    simp only [List.length_take]; omega
  · have := leftLength_pos bytes.length
    simp only [List.length_drop]; omega

def wordBytes (words : Words8) : Bytes :=
  words.toList.flatMap fun w => LittleEndian.encode 4 w.toNat

@[simp] theorem length_wordBytes (words : Words8) : (wordBytes words).length = 32 := by
  simp [wordBytes, List.length_flatMap, List.map_const']

/-- The 32-byte digest of an input. -/
def digest (bytes : Bytes) : Bytes := wordBytes (tree 0 bytes).root

@[simp] theorem length_digest (bytes : Bytes) : (digest bytes).length = 32 :=
  length_wordBytes _

end Blake3

end TrieStorage

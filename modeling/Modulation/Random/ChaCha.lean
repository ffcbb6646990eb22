import Modulation.Random.Source

set_option autoImplicit false

/-! # The seeded source

Numbers are drawn from a ChaCha stream of twelve rounds whose key is spread from a seed of
sixty-four bits. The stream is a sequence of blocks of sixteen words, numbered from zero; a draw
takes two words, of which the upper fifty-three bits are the digits of a binary fraction. -/

namespace Modulation

/-- The key of a stream. -/
structure StreamKey where
  words : Vector UInt32 8
  deriving DecidableEq, Repr

/-- A position in a stream: the words of the current block that are not drawn yet, and the number of
    the next block. -/
structure SeededSource where
  key : StreamKey
  pending : List UInt32
  nextBlock : UInt64
  deriving Repr

namespace SeededSource

/-! ## Seeds -/

/-- Rotates a word to the left. -/
def rotateLeft (word : UInt32) (bits : UInt32) : UInt32 :=
  let back : UInt32 := 32 - bits
  (word <<< bits) ||| (word >>> back)

/-- The seed after a seed, by a linear congruence. -/
def nextSeed (seed : UInt64) : UInt64 :=
  seed * 6364136223846793005 + 11634580027462260723

/-- The key word of a seed: its upper bits, mixed and then rotated by the topmost five. -/
def keyWord (seed : UInt64) : UInt32 :=
  let mixed := (((seed >>> 18) ^^^ seed) >>> 27).toUInt32
  let right : UInt32 := (seed >>> 59).toUInt32
  rotateLeft mixed ((32 - right) % 32)

/-- The key words of the seeds that follow a seed. -/
def keyWords : (count : Nat) → (seed : UInt64) → List UInt32
  | 0, _ => []
  | count + 1, seed => keyWord (nextSeed seed) :: keyWords count (nextSeed seed)

theorem length_keyWords (count : Nat) (seed : UInt64) : (keyWords count seed).length = count := by
  induction count generalizing seed with
  | zero => rfl
  | succ count ih => simp [keyWords, ih]

/-- The source of a seed, before its first draw. -/
def ofSeed (seed : UInt64) : SeededSource where
  key := ⟨⟨(keyWords 8 seed).toArray, by simp [length_keyWords]⟩⟩
  pending := []
  nextBlock := 0

/-! ## Blocks -/

/-- The sixteen words of a block. -/
abbrev Block := Vector UInt32 16

/-- Mixes four words of a block. -/
def quarterRound (block : Block) (a b c d : Fin 16) : Block :=
  let wa := block[a] + block[b]
  let wd := rotateLeft (block[d] ^^^ wa) 16
  let wc := block[c] + wd
  let wb := rotateLeft (block[b] ^^^ wc) 12
  let wa := wa + wb
  let wd := rotateLeft (wd ^^^ wa) 8
  let wc := wc + wd
  let wb := rotateLeft (wb ^^^ wc) 7
  (((block.set a wa).set b wb).set c wc).set d wd

/-- Mixes the columns of a block and then its diagonals. -/
def doubleRound (block : Block) : Block :=
  let block := quarterRound block 0 4 8 12
  let block := quarterRound block 1 5 9 13
  let block := quarterRound block 2 6 10 14
  let block := quarterRound block 3 7 11 15
  let block := quarterRound block 0 5 10 15
  let block := quarterRound block 1 6 11 12
  let block := quarterRound block 2 7 8 13
  quarterRound block 3 4 9 14

/-- Applies double rounds. -/
def rounds : (doubleRounds : Nat) → Block → Block
  | 0, block => block
  | doubleRounds + 1, block => rounds doubleRounds (doubleRound block)

/-- The block from which a block of the stream is mixed: four fixed words, the key, the number of
    the block and two zeros. -/
def initialBlock (key : StreamKey) (number : UInt64) : Block :=
  let k := key.words
  -- The fixed words spell "expand 32-byte k".
  let words : Block :=
    .mk #[0x61707865, 0x3320646e, 0x79622d32, 0x6b206574, k[0], k[1], k[2], k[3], k[4], k[5], k[6],
      k[7], number.toUInt32, (number >>> 32).toUInt32, 0, 0] rfl
  words

/-- A block of the stream. -/
def block (key : StreamKey) (number : UInt64) : Block :=
  let initial := initialBlock key number
  (rounds 6 initial).zipWith (· + ·) initial

/-! ## Draws -/

/-- The number in `[0, 1)` that two words of the stream make. -/
def unitNumber (low high : UInt32) : Float :=
  let digits := (low.toUInt64 ||| (high.toUInt64 <<< 32)) >>> 11
  digits.toFloat * 1.1102230246251565e-16

/-- Draws a number; when the current block is used up the next one is mixed. -/
def draw (source : SeededSource) : Float × SeededSource :=
  match source.pending with
  | low :: high :: rest => (unitNumber low high, ⟨source.key, rest, source.nextBlock⟩)
  | _ =>
    let words := block source.key source.nextBlock
    (unitNumber words[0] words[1],
      ⟨source.key, words.toList.drop 2, source.nextBlock + 1⟩)

instance : RandomSource SeededSource Float where
  next := draw

end SeededSource

end Modulation

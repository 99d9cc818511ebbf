/-!
# RIPEMD-160

The digest of a list of bytes, by the published standard: words have their least significant byte
first, and each block is folded into five words by two lines of eighty rounds.
-/

namespace TxReceipt.Account.Ripemd160

structure State where
  a : UInt32
  b : UInt32
  c : UInt32
  d : UInt32
  e : UInt32
  deriving DecidableEq

def initial : State :=
  ⟨0x67452301, 0xefcdab89, 0x98badcfe, 0x10325476, 0xc3d2e1f0⟩

/-- Which word of the block each round of the left line takes. -/
def leftWords : List Nat := [
  0, 1, 2, 3, 4, 5, 6, 7, 8, 9, 10, 11, 12, 13, 14, 15,
  7, 4, 13, 1, 10, 6, 15, 3, 12, 0, 9, 5, 2, 14, 11, 8,
  3, 10, 14, 4, 9, 15, 8, 1, 2, 7, 0, 6, 13, 11, 5, 12,
  1, 9, 11, 10, 0, 8, 12, 4, 13, 3, 7, 15, 14, 5, 6, 2,
  4, 0, 5, 9, 7, 12, 2, 10, 14, 1, 3, 8, 11, 6, 15, 13]

/-- Which word of the block each round of the right line takes. -/
def rightWords : List Nat := [
  5, 14, 7, 0, 9, 2, 11, 4, 13, 6, 15, 8, 1, 10, 3, 12,
  6, 11, 3, 7, 0, 13, 5, 10, 14, 15, 8, 12, 4, 9, 1, 2,
  15, 5, 1, 3, 7, 14, 6, 9, 11, 8, 12, 2, 10, 0, 4, 13,
  8, 6, 4, 1, 3, 11, 15, 0, 5, 12, 2, 13, 9, 7, 10, 14,
  12, 15, 10, 4, 1, 5, 8, 7, 6, 2, 13, 14, 0, 3, 9, 11]

/-- How far each round of the left line rotates. -/
def leftShifts : List UInt32 := [
  11, 14, 15, 12, 5, 8, 7, 9, 11, 13, 14, 15, 6, 7, 9, 8,
  7, 6, 8, 13, 11, 9, 7, 15, 7, 12, 15, 9, 11, 7, 13, 12,
  11, 13, 6, 7, 14, 9, 13, 15, 14, 8, 13, 6, 5, 12, 7, 5,
  11, 12, 14, 15, 14, 15, 9, 8, 9, 14, 5, 6, 8, 6, 5, 12,
  9, 15, 5, 11, 6, 8, 13, 12, 5, 12, 13, 14, 11, 8, 5, 6]

def rightShifts : List UInt32 := [
  8, 9, 9, 11, 13, 15, 15, 5, 7, 7, 8, 11, 14, 14, 12, 6,
  9, 13, 15, 7, 12, 8, 9, 11, 7, 7, 12, 7, 6, 15, 13, 11,
  9, 7, 15, 11, 8, 6, 6, 14, 12, 13, 5, 14, 13, 13, 7, 5,
  15, 5, 8, 11, 14, 14, 6, 14, 6, 9, 12, 9, 12, 5, 15, 8,
  8, 5, 12, 9, 12, 5, 14, 6, 8, 13, 6, 5, 15, 13, 11, 11]

/-- The constants of the five groups of rounds of the left line. -/
def leftConstants : List UInt32 :=
  [0x00000000, 0x5a827999, 0x6ed9eba1, 0x8f1bbcdc, 0xa953fd4e]

def rightConstants : List UInt32 :=
  [0x50a28be6, 0x5c4dd124, 0x6d703ef3, 0x7a6d76e9, 0x00000000]

def mix (group : Nat) (x y z : UInt32) : UInt32 :=
  match group with
  | 0 => x ^^^ y ^^^ z
  | 1 => (x &&& y) ||| ((~~~ x) &&& z)
  | 2 => (x ||| ~~~ y) ^^^ z
  | 3 => (x &&& z) ||| (y &&& ~~~ z)
  | _ => x ^^^ (y ||| ~~~ z)

def rotl (x n : UInt32) : UInt32 :=
  (x <<< n) ||| (x >>> (32 - n))

def step (s : State) (group : Nat) (k word shift : UInt32) : State :=
  let t := rotl (s.a + mix group s.b s.c s.d + word + k) shift + s.e
  ⟨s.e, t, s.b, rotl s.c 10, s.d⟩

/-- One line of eighty rounds; its groups use the functions in their order or in reverse. -/
def line (block : List UInt32) (choice : List Nat) (shifts constants : List UInt32)
    (group : Nat → Nat) (s : State) : State :=
  ((List.range 80).zip (choice.zip shifts)).foldl
    (fun s (i, word, shift) =>
      step s (group (i / 16)) (constants.getD (i / 16) 0) (block.getD word 0) shift) s

def compress (s : State) (block : List UInt32) : State :=
  let l := line block leftWords leftShifts leftConstants id s
  let r := line block rightWords rightShifts rightConstants (4 - ·) s
  ⟨s.b + l.c + r.d, s.c + l.d + r.e, s.d + l.e + r.a, s.e + l.a + r.b, s.a + l.b + r.c⟩

def compressAll (blocks : Nat) (s : State) (ws : List UInt32) : State :=
  match blocks with
  | 0 => s
  | blocks + 1 => compressAll blocks (compress s (ws.take 16)) (ws.drop 16)

/-- Four bytes as a word, the least significant first. -/
def wordOfBytes (a b c d : UInt8) : UInt32 :=
  a.toUInt32 ||| (b.toUInt32 <<< 8) ||| (c.toUInt32 <<< 16) ||| (d.toUInt32 <<< 24)

def wordBytes (x : UInt32) : List UInt8 :=
  [x.toUInt8, (x >>> 8).toUInt8, (x >>> 16).toUInt8, (x >>> 24).toUInt8]

/-- The words of a list of bytes; an incomplete last word is left out. -/
def words : List UInt8 → List UInt32
  | a :: b :: c :: d :: bytes => wordOfBytes a b c d :: words bytes
  | _ => []

/-- The eight bytes of a length in bits, the least significant first. -/
def lengthBytes (bits : Nat) : List UInt8 :=
  wordBytes (UInt32.ofNat bits) ++ wordBytes (UInt32.ofNat (bits / 0x100000000))

/-- The message with its end marked, filled with zeros, and its length in bits. -/
def padded (bytes : List UInt8) : List UInt8 :=
  let zeros := (119 - bytes.length % 64) % 64
  bytes ++ 0x80 :: List.replicate zeros 0 ++ lengthBytes (8 * bytes.length)

def State.bytes (s : State) : List UInt8 :=
  wordBytes s.a ++ wordBytes s.b ++ wordBytes s.c ++ wordBytes s.d ++ wordBytes s.e

def digest (bytes : List UInt8) : List UInt8 :=
  let ws := words (padded bytes)
  (compressAll (ws.length / 16) initial ws).bytes

theorem length_digest (bytes : List UInt8) : (digest bytes).length = 20 :=
  rfl

end TxReceipt.Account.Ripemd160

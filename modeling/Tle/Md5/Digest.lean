import Tle.Accounts.Password

/-!
# The digests of `md5.c`

`UINT4` is an `unsigned long int` of `w` bits: 32, or 64 where the compiler takes it so.
-/

namespace Tle.Md5
open Tle.Lib Tle.Accounts

abbrev Byte := BitVec 8

/-- `buf` of `MD5_CTX` -/
structure Words (w : Nat) where
  a : BitVec w
  b : BitVec w
  c : BitVec w
  d : BitVec w
  deriving DecidableEq

structure Context (w : Nat) where
  i0 : BitVec w
  i1 : BitVec w
  buf : Words w
  input : Vector Byte 64
  digest : List Byte

variable {w : Nat}

/-! ## `Transform` -/

/-- The macros that name the four rounds. -/
inductive Round where
  | ff
  | gg
  | hh
  | ii
  deriving DecidableEq

/-- `F`, `G`, `H` and `I` -/
def Round.mix (x y z : BitVec w) : Round → BitVec w
  | ff => (x &&& y) ||| (~~~x &&& z)
  | gg => (x &&& z) ||| (y &&& ~~~z)
  | hh => x ^^^ y ^^^ z
  | ii => y ^^^ (x ||| ~~~z)

/-- A rotation where words have 32 bits. -/
def rotateLeft (x : BitVec w) (n : Nat) : BitVec w := (x <<< n) ||| (x >>> (32 - n))

/-- One of the numbered lines: its macro, the word of the block, the shift and the constant. -/
structure Line where
  round : Round
  x : Fin 16
  s : Nat
  ac : Nat

/-- The line changes the first word, and the next line takes them one further. -/
def step (block : Fin 16 → BitVec w) (v : Words w) (line : Line) : Words w where
  a := v.d
  b := rotateLeft (v.a + (line.round.mix v.b v.c v.d + block line.x + BitVec.ofNat w line.ac)) line.s + v.b
  c := v.b
  d := v.c

def lines : List Line :=
  [⟨.ff, 0, 7, 3614090360⟩, ⟨.ff, 1, 12, 3905402710⟩, ⟨.ff, 2, 17, 606105819⟩, ⟨.ff, 3, 22, 3250441966⟩,
    ⟨.ff, 4, 7, 4118548399⟩, ⟨.ff, 5, 12, 1200080426⟩, ⟨.ff, 6, 17, 2821735955⟩, ⟨.ff, 7, 22, 4249261313⟩,
    ⟨.ff, 8, 7, 1770035416⟩, ⟨.ff, 9, 12, 2336552879⟩, ⟨.ff, 10, 17, 4294925233⟩, ⟨.ff, 11, 22, 2304563134⟩,
    ⟨.ff, 12, 7, 1804603682⟩, ⟨.ff, 13, 12, 4254626195⟩, ⟨.ff, 14, 17, 2792965006⟩, ⟨.ff, 15, 22, 1236535329⟩,
    ⟨.gg, 1, 5, 4129170786⟩, ⟨.gg, 6, 9, 3225465664⟩, ⟨.gg, 11, 14, 643717713⟩, ⟨.gg, 0, 20, 3921069994⟩,
    ⟨.gg, 5, 5, 3593408605⟩, ⟨.gg, 10, 9, 38016083⟩, ⟨.gg, 15, 14, 3634488961⟩, ⟨.gg, 4, 20, 3889429448⟩,
    ⟨.gg, 9, 5, 568446438⟩, ⟨.gg, 14, 9, 3275163606⟩, ⟨.gg, 3, 14, 4107603335⟩, ⟨.gg, 8, 20, 1163531501⟩,
    ⟨.gg, 13, 5, 2850285829⟩, ⟨.gg, 2, 9, 4243563512⟩, ⟨.gg, 7, 14, 1735328473⟩, ⟨.gg, 12, 20, 2368359562⟩,
    ⟨.hh, 5, 4, 4294588738⟩, ⟨.hh, 8, 11, 2272392833⟩, ⟨.hh, 11, 16, 1839030562⟩, ⟨.hh, 14, 23, 4259657740⟩,
    ⟨.hh, 1, 4, 2763975236⟩, ⟨.hh, 4, 11, 1272893353⟩, ⟨.hh, 7, 16, 4139469664⟩, ⟨.hh, 10, 23, 3200236656⟩,
    ⟨.hh, 13, 4, 681279174⟩, ⟨.hh, 0, 11, 3936430074⟩, ⟨.hh, 3, 16, 3572445317⟩, ⟨.hh, 6, 23, 76029189⟩,
    ⟨.hh, 9, 4, 3654602809⟩, ⟨.hh, 12, 11, 3873151461⟩, ⟨.hh, 15, 16, 530742520⟩, ⟨.hh, 2, 23, 3299628645⟩,
    ⟨.ii, 0, 6, 4096336452⟩, ⟨.ii, 7, 10, 1126891415⟩, ⟨.ii, 14, 15, 2878612391⟩, ⟨.ii, 5, 21, 4237533241⟩,
    ⟨.ii, 12, 6, 1700485571⟩, ⟨.ii, 3, 10, 2399980690⟩, ⟨.ii, 10, 15, 4293915773⟩, ⟨.ii, 1, 21, 2240044497⟩,
    ⟨.ii, 8, 6, 1873313359⟩, ⟨.ii, 15, 10, 4264355552⟩, ⟨.ii, 6, 15, 2734768916⟩, ⟨.ii, 13, 21, 1309151649⟩,
    ⟨.ii, 4, 6, 4149444226⟩, ⟨.ii, 11, 10, 3174756917⟩, ⟨.ii, 2, 15, 718787259⟩, ⟨.ii, 9, 21, 3951481745⟩]

def transform (buf : Words w) (block : Fin 16 → BitVec w) : Words w :=
  let v := lines.foldl (step block) buf
  { a := buf.a + v.a, b := buf.b + v.b, c := buf.c + v.c, d := buf.d + v.d }

/-! ## `MD5Update` -/

/-- `in[i]`, of the four bytes from `ii = 4 * i` on -/
def word (input : Vector Byte 64) (i : Fin 16) : BitVec w :=
  (input[4 * i.val + 3].setWidth w <<< 24) ||| (input[4 * i.val + 2].setWidth w <<< 16) |||
    (input[4 * i.val + 1].setWidth w <<< 8) ||| input[4 * i.val].setWidth w

def md5Init (ctx : Context w) : Context w :=
  { ctx with
    i0 := 0
    i1 := 0
    buf := { a := 0x67452301, b := 0xefcdab89, c := 0x98badcfe, d := 0x10325476 } }

/-- The number of bytes that wait for the rest of their block. -/
def mdi (ctx : Context w) : Fin 64 where
  val := ((ctx.i0 >>> 3) &&& 0x3F).toNat
  isLt := by
    have hmask : (0x3F : BitVec w).toNat ≤ 63 := Nat.mod_le _ _
    have hand : ((ctx.i0 >>> 3) &&& 0x3F).toNat ≤ (0x3F : BitVec w).toNat := by
      rw [BitVec.toNat_and]
      exact Nat.and_le_right
    omega

/-- The body of the loop: the context, and `mdi` behind the byte. -/
def put (p : Context w × Fin 64) (byte : Byte) : Context w × Fin 64 :=
  let ctx := { p.1 with input := p.1.input.set p.2 byte }
  if hmdi : p.2.val + 1 < 64 then (ctx, ⟨p.2.val + 1, hmdi⟩)
  else ({ ctx with buf := transform ctx.buf (word ctx.input) }, 0)

/-- `inLen` is an `unsigned int`. -/
def md5Update (ctx : Context w) (inBuf : List Byte) (inLen : BitVec 32) : Context w :=
  let bits : BitVec w := inLen.setWidth w <<< 3
  let i1 := if ctx.i0 + bits < ctx.i0 then ctx.i1 + 1 else ctx.i1
  ((inBuf.take inLen.toNat).foldl put
    ({ ctx with i0 := ctx.i0 + bits, i1 := i1 + (inLen.setWidth w >>> 29) }, mdi ctx)).1

/-! ## `MD5Final` -/

def padding : List Byte := 0x80 :: List.replicate 63 0

/-- The block behind the padding, with the two words that are saved before it. -/
def lastBlock (input : Vector Byte 64) (in14 in15 : BitVec w) (i : Fin 16) : BitVec w :=
  if i.val < 14 then word input i else if i.val = 14 then in14 else in15

/-- The bytes of a word that are stored, the lowest first. -/
def storeWord (x : BitVec w) : List Byte :=
  [(x &&& 0xFF).setWidth 8, ((x >>> 8) &&& 0xFF).setWidth 8, ((x >>> 16) &&& 0xFF).setWidth 8,
    ((x >>> 24) &&& 0xFF).setWidth 8]

def store (buf : Words w) : List Byte := storeWord buf.a ++ storeWord buf.b ++ storeWord buf.c ++ storeWord buf.d

def md5Final (ctx : Context w) : Context w :=
  let in14 := ctx.i0
  let in15 := ctx.i1
  let padLen := if (mdi ctx).val < 56 then 56 - (mdi ctx).val else 120 - (mdi ctx).val
  let ctx := md5Update ctx padding (BitVec.ofNat 32 padLen)
  let buf := transform ctx.buf (lastBlock ctx.input in14 in15)
  { ctx with buf, digest := store buf }

/-! ## `legacy_md5` -/

/-- `%02x` -/
def hexByte (byte : Byte) : Text :=
  let digits := "0123456789abcdef".toList
  [(digits[byte.toNat / 16]?).getD '0', (digits[byte.toNat % 16]?).getD '0']

def md5String (ctx : Context w) : Text := ctx.digest.flatMap hexByte

/-- `(unsigned char)` of each character -/
def bytesOf (s : CString) : List Byte := s.text.map fun c => BitVec.ofNat 8 c.toNat

/-- The context is a local variable that nobody has initialised. -/
def legacyMd5 (ctx : Context w) (password : CString) : Text :=
  let inLen := BitVec.ofNat 32 password.text.length
  md5String (md5Final (md5Update (md5Init ctx) (bytesOf password) inLen))

end Tle.Md5

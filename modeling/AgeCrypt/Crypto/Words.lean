import AgeCrypt.Bytes

/-!
# Words

Sixteen 32-bit words: the state on which both stream ciphers of the suite work.  The words are read
from and written to bytes in little-endian order.
-/

namespace AgeCrypt
namespace Crypto

/-- `x` rotated left by `r` places, for `0 < r < 32`. -/
@[inline] def rotateLeft (x r : UInt32) : UInt32 :=
  (x <<< r) ||| (x >>> (32 - r))

/-- `x` rotated right by `r` places, for `0 < r < 32`. -/
@[inline] def rotateRight (x r : UInt32) : UInt32 :=
  (x >>> r) ||| (x <<< (32 - r))

@[inline] def wordLE (a b c d : UInt8) : UInt32 :=
  a.toUInt32 ||| (b.toUInt32 <<< 8) ||| (c.toUInt32 <<< 16) ||| (d.toUInt32 <<< 24)

/-- The words spelled by `b`, four bytes each; leftover bytes are dropped. -/
def wordsLE : Bytes → List UInt32
  | a :: b :: c :: d :: rest => wordLE a b c d :: wordsLE rest
  | _ => []

def bytesLE (w : UInt32) : Bytes :=
  [w.toUInt8, (w >>> 8).toUInt8, (w >>> 16).toUInt8, (w >>> 24).toUInt8]

def bytesBE (w : UInt32) : Bytes :=
  [(w >>> 24).toUInt8, (w >>> 16).toUInt8, (w >>> 8).toUInt8, w.toUInt8]

@[inline] def wordBE (a b c d : UInt8) : UInt32 :=
  wordLE d c b a

/-- The words spelled by `b` in big-endian order; leftover bytes are dropped. -/
def wordsBE : Bytes → List UInt32
  | a :: b :: c :: d :: rest => wordBE a b c d :: wordsBE rest
  | _ => []

structure Words where
  w0 : UInt32
  w1 : UInt32
  w2 : UInt32
  w3 : UInt32
  w4 : UInt32
  w5 : UInt32
  w6 : UInt32
  w7 : UInt32
  w8 : UInt32
  w9 : UInt32
  w10 : UInt32
  w11 : UInt32
  w12 : UInt32
  w13 : UInt32
  w14 : UInt32
  w15 : UInt32
deriving Inhabited

namespace Words

@[inline] def zipWith (f : UInt32 → UInt32 → UInt32) (x y : Words) : Words :=
  ⟨f x.w0 y.w0, f x.w1 y.w1, f x.w2 y.w2, f x.w3 y.w3,
   f x.w4 y.w4, f x.w5 y.w5, f x.w6 y.w6, f x.w7 y.w7,
   f x.w8 y.w8, f x.w9 y.w9, f x.w10 y.w10, f x.w11 y.w11,
   f x.w12 y.w12, f x.w13 y.w13, f x.w14 y.w14, f x.w15 y.w15⟩

def add (x y : Words) : Words :=
  zipWith (· + ·) x y

def xor (x y : Words) : Words :=
  zipWith (· ^^^ ·) x y

def toList (x : Words) : List UInt32 :=
  [x.w0, x.w1, x.w2, x.w3, x.w4, x.w5, x.w6, x.w7,
   x.w8, x.w9, x.w10, x.w11, x.w12, x.w13, x.w14, x.w15]

/-- The first sixteen words of a list, zeros standing for those it lacks. -/
def ofList (l : List UInt32) : Words :=
  match l with
  | [a, b, c, d, e, f, g, h, i, j, k, m, n, o, p, q] =>
      ⟨a, b, c, d, e, f, g, h, i, j, k, m, n, o, p, q⟩
  | _ =>
      let at' := fun i => l.getD i 0
      ⟨at' 0, at' 1, at' 2, at' 3, at' 4, at' 5, at' 6, at' 7,
       at' 8, at' 9, at' 10, at' 11, at' 12, at' 13, at' 14, at' 15⟩

def toBytes (x : Words) : Bytes :=
  x.toList.flatMap bytesLE

theorem length_toBytes (x : Words) : x.toBytes.length = 64 := rfl

end Words

end Crypto
end AgeCrypt

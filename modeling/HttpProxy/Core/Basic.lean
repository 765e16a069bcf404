/-
  HttpProxy.Core.Basic

  Bytes, C strings and the library functions the proxy applies to them, with
  the constants of core/constants.h.

  A `char*` into a buffer is an offset into a list of bytes; the string there
  ends at the first NUL.  `int` results wrap as the gcc/x86-64 target does.
-/

import Mathlib.Algebra.Group.Int.Defs
import Mathlib.Algebra.Group.Nat.Defs
import Mathlib.Data.Int.Notation
import Mathlib.Data.List.Basic

namespace HttpProxy

abbrev Bytes := List UInt8

/-- The bytes of an ASCII literal. -/
def bytesOf (s : String) : Bytes := s.toList.map fun c => UInt8.ofNat c.toNat

/-! ## core/constants.h -/

def HTTP_DEFAULT_PORT : Int := 80
def HTTP_HEADER_MAXLEN : Nat := 32 * 1024
def HTTP_HEADER_KEY_MAXLEN : Nat := 32
def HTTP_CHUNK_HEADER_MAXLEN : Nat := 256
def DOMAIN_MAXLEN : Nat := 256
def STRBUF_INIT_LEN : Nat := 128

/-- `CONN_IOBUF_SIZE` of core/conn.c. -/
def CONN_IOBUF_SIZE : Nat := 16 * 1024

/-! ## C strings -/

/-- The string a pointer to offset `off` of `p` denotes. -/
def cstrAt (p : Bytes) (off : Nat) : Bytes := (p.drop off).takeWhile (· ≠ 0)

/-- A `char` read as `int`: `char` is signed on the target. -/
def charToInt (b : UInt8) : Int := if b.toNat < 128 then b.toNat else (b.toNat : Int) - 256

/-- The value of an integer stored in a 32-bit `int`. -/
def toInt32 (x : Int) : Int := Int.bmod x (2 ^ 32)

def isSpace (b : UInt8) : Bool := b = 32 || (9 ≤ b && b ≤ 13)

def isDigit (b : UInt8) : Bool := 48 ≤ b && b ≤ 57

def isUpper (b : UInt8) : Bool := 65 ≤ b && b ≤ 90

def isLower (b : UInt8) : Bool := 97 ≤ b && b ≤ 122

def isAlpha (b : UInt8) : Bool := isUpper b || isLower b

/-- The value of a hexadecimal digit. -/
def hexVal (b : UInt8) : Option Nat :=
  if isDigit b then some (b.toNat - 48)
  else if 97 ≤ b && b ≤ 102 then some (b.toNat - 87)
  else if 65 ≤ b && b ≤ 70 then some (b.toNat - 55)
  else none

/-- A sign in front of a number, and what follows it. -/
def splitSign : Bytes → Bool × Bytes
  | b :: s => if b = 45 then (true, s) else if b = 43 then (false, s) else (false, b :: s)
  | [] => (false, [])

/-- The number a string of digits denotes in base `base`. -/
def digitsVal (base : Nat) (s : Bytes) : Nat :=
  s.foldl (fun n b => n * base + (hexVal b).getD 0) 0

/-- `atoi`: `(int) strtol(s, NULL, 10)`, with `strtol` saturating at 64 bits. -/
def atoi (s : Bytes) : Int :=
  let (neg, t) := splitSign (s.dropWhile isSpace)
  let n : Nat := digitsVal 10 (t.takeWhile isDigit)
  if neg then toInt32 (-(min n (2 ^ 63) : Nat)) else toInt32 (min n (2 ^ 63 - 1) : Nat)

/-- The hexadecimal digits after an optional `0x`; `none` when there is no
    number at all. -/
def hexDigits : Bytes → Option Bytes
  | 48 :: x :: s =>
      if x = 120 || x = 88 then some (s.takeWhile fun b => (hexVal b).isSome)
      else some (48 :: (x :: s).takeWhile fun b => (hexVal b).isSome)
  | s =>
      let ds := s.takeWhile fun b => (hexVal b).isSome
      if ds.isEmpty then none else some ds

/-- `sscanf(s, "%x", &len)`: the value stored in `len`, if one is. -/
def sscanfX (s : Bytes) : Option Int :=
  let (neg, t) := splitSign (s.dropWhile isSpace)
  (hexDigits t).map fun ds =>
    let n := digitsVal 16 ds
    if n ≥ 2 ^ 64 then -1 else if neg then toInt32 (-(n : Int)) else toInt32 n

/-- `sprintf(res, "%d", x)` -/
def sprintfD (x : Int) : Bytes :=
  let ds := (Nat.toDigits 10 x.natAbs).map fun c => UInt8.ofNat c.toNat
  if x < 0 then 45 :: ds else ds

end HttpProxy

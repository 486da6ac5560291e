import RtThread.Lib.Bytes

/-!
# Memory primitives (`kservice.c`)

`rt_memset`, `rt_memcpy` and `rt_memmove` on a byte memory. A pointer is a number below `2 ^ (8 * sizeof (long))` and
wraps there; an access of a `long` at an address that is not a multiple of its size faults. The result is `none` on
a fault.
-/

namespace RtThread.Kservice

open Bytes

/-- What the primitives depend on: `sizeof (long)`, the byte order and `RT_USING_TINY_SIZE`. -/
structure Target where
  long : ℕ
  long_eq : long = 4 ∨ long = 8
  order : Order
  tiny : Bool

namespace Target

variable (t : Target)

/-- The number of addresses. -/
def top : ℕ := 2 ^ (8 * t.long)

/-- A pointer after arithmetic. -/
def ptr (p : ℕ) : ℕ := p % t.top

theorem long_pos : 0 < t.long := by
  rcases t.long_eq with h | h <;> omega

/-- `*aligned_addr++ = buffer`. -/
def store (buffer : ℕ) (s : Mem × ℕ) : Option (Mem × ℕ) := do
  let (m, alignedAddr) := s
  guard (alignedAddr % t.long = 0)
  return (t.order.write m alignedAddr t.long buffer, t.ptr (alignedAddr + t.long))

/-- `*aligned_dst++ = *aligned_src++`. -/
def move (s : Mem × ℕ × ℕ) : Option (Mem × ℕ × ℕ) := do
  let (m, alignedDst, alignedSrc) := s
  guard (alignedDst % t.long = 0 ∧ alignedSrc % t.long = 0)
  return (t.order.write m alignedDst t.long (t.order.read m alignedSrc t.long), t.ptr (alignedDst + t.long),
    t.ptr (alignedSrc + t.long))

/-! ## `rt_memset` -/

/-- `while (count--) *m++ = d;` -/
def setBytes (d : UInt8) (m : Mem) (p : ℕ) : ℕ → Mem
  | 0 => m
  | count + 1 => setBytes d (put m p d) (t.ptr (p + 1)) count

/-- `while (count >= LBLOCKSIZE * 4)`. -/
def setFour (buffer : ℕ) (s : Mem × ℕ) (count : ℕ) : Option ((Mem × ℕ) × ℕ) :=
  if t.long * 4 ≤ count then do
    let s ← t.store buffer s
    let s ← t.store buffer s
    let s ← t.store buffer s
    let s ← t.store buffer s
    setFour buffer s (count - 4 * t.long)
  else some (s, count)
termination_by count
decreasing_by
  have := t.long_pos
  omega

/-- `while (count >= LBLOCKSIZE)`. -/
def setOne (buffer : ℕ) (s : Mem × ℕ) (count : ℕ) : Option ((Mem × ℕ) × ℕ) :=
  if t.long ≤ count then do
    let s ← t.store buffer s
    setOne buffer s (count - t.long)
  else some (s, count)
termination_by count
decreasing_by
  have := t.long_pos
  omega

/-- `for (i = 0; i < LBLOCKSIZE; i ++) buffer = (buffer << 8) | d;` -/
def repeatByte (d : ℕ) : ℕ → ℕ
  | 0 => 0
  | i + 1 => (repeatByte d i <<< 8 ||| d) % t.top

/-- The word that has the byte in every place. -/
def buffer (d : ℕ) : ℕ :=
  if t.long = 4 then
    let buffer := d <<< 8 ||| d
    buffer ||| buffer <<< 16
  else t.repeatByte d t.long

/-- `UNALIGNED(s)`. -/
def unaligned (s : ℕ) : Bool := s &&& (t.long - 1) ≠ 0

def rtMemset (m : Mem) (s : ℕ) (c : BitVec 32) (count : ℕ) : Option Mem :=
  if t.tiny then some (t.setBytes (UInt8.ofNat c.toNat) m s count)
  else do
    let d := (c &&& 0xff).toNat
    if ¬count < t.long ∧ ¬t.unaligned s then
      let (s, count) ← t.setFour (t.buffer d) (m, s) count
      let ((m, p), count) ← t.setOne (t.buffer d) s count
      return t.setBytes (UInt8.ofNat d) m p count
    else return t.setBytes (UInt8.ofNat d) m s count

/-! ## `rt_memcpy` and `rt_memmove` -/

/-- `while (n--) *tmp++ = *s++;` -/
def moveUp (m : Mem) (tmp s : ℕ) : ℕ → Mem
  | 0 => m
  | n + 1 => moveUp (put m tmp (m s)) (t.ptr (tmp + 1)) (t.ptr (s + 1)) n

/-- `for (len = count; len > 0; len --) tmp[len - 1] = s[len - 1];` -/
def moveIndexed (m : Mem) (tmp s : ℕ) : ℕ → Mem
  | 0 => m
  | len + 1 => moveIndexed (put m (t.ptr (tmp + len)) (m (t.ptr (s + len)))) tmp s len

/-- `while (n--) *(--tmp) = *(--s);` -/
def moveDown (m : Mem) (tmp s : ℕ) : ℕ → Mem
  | 0 => m
  | n + 1 =>
    let tmp := t.ptr (tmp + (t.top - 1))
    let s := t.ptr (s + (t.top - 1))
    moveDown (put m tmp (m s)) tmp s n

/-- `while (len >= BIGBLOCKSIZE)`. -/
def moveFour (s : Mem × ℕ × ℕ) (len : ℕ) : Option ((Mem × ℕ × ℕ) × ℕ) :=
  if t.long <<< 2 ≤ len then do
    let s ← t.move s
    let s ← t.move s
    let s ← t.move s
    let s ← t.move s
    moveFour s (len - t.long <<< 2)
  else some (s, len)
termination_by len
decreasing_by
  have := t.long_pos
  rw [Nat.shiftLeft_eq] at *
  omega

/-- `while (len >= LITTLEBLOCKSIZE)`. -/
def moveOne (s : Mem × ℕ × ℕ) (len : ℕ) : Option ((Mem × ℕ × ℕ) × ℕ) :=
  if t.long ≤ len then do
    let s ← t.move s
    moveOne s (len - t.long)
  else some (s, len)
termination_by len
decreasing_by
  have := t.long_pos
  omega

/-- `UNALIGNED(dst_ptr, src_ptr)`. -/
def unalignedPair (x y : ℕ) : Bool := (x &&& (t.long - 1)) ||| (y &&& (t.long - 1)) ≠ 0

/-- `rt_memcpy`; `len` is the bit pattern of the `int`, which the comparisons with a `size_t` and the countdown see. -/
def rtMemcpy (m : Mem) (dst src count : ℕ) : Option Mem :=
  if t.tiny then
    if dst ≤ src ∨ t.ptr (src + count) < dst then some (t.moveUp m dst src count)
    else some (t.moveIndexed m dst src count)
  else do
    let len := count % 2 ^ 32
    if ¬len < t.long <<< 2 ∧ ¬t.unalignedPair src dst then
      let (s, len) ← t.moveFour (m, dst, src) len
      let ((m, dstPtr, srcPtr), len) ← t.moveOne s len
      return t.moveUp m dstPtr srcPtr len
    else return t.moveUp m dst src len

def rtMemmove (m : Mem) (dest src n : ℕ) : Mem :=
  if src < dest ∧ dest < t.ptr (src + n) then t.moveDown m (t.ptr (dest + n)) (t.ptr (src + n)) n
  else t.moveUp m dest src n

end Target

/-- Two areas of `n` bytes without a common byte. -/
def Disjoint (a b n : ℕ) : Prop := a + n ≤ b ∨ b + n ≤ a

end RtThread.Kservice

import Mathlib.Algebra.Order.Ring.Nat
import Mathlib.Tactic.Ring
import BezOS.Lib.Bytes

/-!
# Canvases

The pixels of `canvas.cpp`: where one stands in the framebuffer, and how its colours are scaled to
the channels of the pixel format and back. Where the C++ has no defined result (a shift by the
width of the type or more, a division by zero, a copy behind the 64-bit pixel value) the result
here is `none`.
-/

namespace BezOS

open Lib Nat Option

structure Channel where
  size : Nat
  shift : Nat
  deriving DecidableEq

namespace Channel

def maxValue (ch : Channel) : Option Nat :=
  if ch.size < 31 then some ((1 <<< ch.size - 1) % 2 ^ 16) else none

def asValue (ch : Channel) (value : UInt8) : Option Nat := do
  let max ← ch.maxValue
  let c := value.toNat * max / 255 % 2 ^ 16
  if ch.shift < 64 then some ((c &&& max) <<< ch.shift % 2 ^ 64) else none

def asChannel (ch : Channel) (value : Nat) : Option UInt8 := do
  let max ← ch.maxValue
  if ch.shift < 64 ∧ max ≠ 0 then
    let c := (value >>> ch.shift) &&& max
    some (UInt8.ofNat (c * 255 / max))
  else none

end Channel

@[ext] structure Pixel where
  r : UInt8
  g : UInt8
  b : UInt8
  deriving DecidableEq

structure PixelFormat where
  mBpp : Nat
  mRedChannel : Channel
  mGreenChannel : Channel
  mBlueChannel : Channel
  deriving DecidableEq

namespace PixelFormat

def pixelValue (f : PixelFormat) (p : Pixel) : Option Nat := do
  let r ← f.mRedChannel.asValue p.r
  let g ← f.mGreenChannel.asValue p.g
  let b ← f.mBlueChannel.asValue p.b
  some (r ||| g ||| b)

def pixelRead (f : PixelFormat) (value : Nat) : Option Pixel := do
  let r ← f.mRedChannel.asChannel value
  let g ← f.mGreenChannel.asChannel value
  let b ← f.mBlueChannel.asChannel value
  some ⟨r, g, b⟩

end PixelFormat

structure Canvas where
  mAddress : Nat
  mWidth : Nat
  mHeight : Nat
  mPitch : Nat
  mFormat : PixelFormat
  deriving DecidableEq

namespace Canvas

def bytesPerPixel (c : Canvas) : Nat := c.mFormat.mBpp / 8

def pixelOffset (c : Canvas) (x y : Nat) : Nat := (y * c.mWidth + x) * c.bytesPerPixel % 2 ^ 64

def write (c : Canvas) (x y : Nat) (pixel : Pixel) (mem : Nat → UInt8) : Option (Nat → UInt8) :=
  if x ≥ c.mWidth ∨ y ≥ c.mHeight then some mem
  else do
    let offset := c.pixelOffset x y
    let pix ← c.mFormat.pixelValue pixel
    -- memcpy(mAddress + offset, &pix, bytesPerPixel())
    if c.bytesPerPixel ≤ 8 then
      some (store mem (c.mAddress + offset) (leBytes c.bytesPerPixel pix))
    else none

def read (c : Canvas) (x y : Nat) (mem : Nat → UInt8) : Option Pixel :=
  let offset := c.pixelOffset x y
  -- memcpy(&pix, mAddress + offset, bytesPerPixel())
  if c.bytesPerPixel ≤ 8 then
    c.mFormat.pixelRead (leValue (load mem (c.mAddress + offset) c.bytesPerPixel))
  else none

end Canvas

/-! ## Channels -/

namespace Channel

variable {ch other : Channel} {v : UInt8} {value : Nat}

/-- The bits of a channel that `maxValue` covers. -/
def width (ch : Channel) : Nat := min ch.size 16

def Represents (ch : Channel) (v : UInt8) : Prop :=
  ch.size < 31 ∧ 255 ∣ v.toNat * (2 ^ ch.width - 1)
  deriving Decidable

/-- The colour as it is scaled to the channel. -/
def level (ch : Channel) (v : UInt8) : Nat := v.toNat * (2 ^ ch.width - 1) / 255

structure Within (ch : Channel) (bits : Nat) : Prop where
  size_ge : 8 ≤ ch.size
  fits : ch.shift + ch.size ≤ bits

def Apart (ch other : Channel) : Prop :=
  ch.shift + ch.size ≤ other.shift ∨ other.shift + other.size ≤ ch.shift
  deriving Decidable

instance (ch : Channel) (bits : Nat) : Decidable (ch.Within bits) :=
  decidable_of_iff (8 ≤ ch.size ∧ ch.shift + ch.size ≤ bits)
    ⟨fun h => ⟨h.1, h.2⟩, fun h => ⟨h.size_ge, h.fits⟩⟩

lemma maxValue_eq (hsize : ch.size < 31) : ch.maxValue = some (2 ^ ch.width - 1) := by
  rw [maxValue, if_pos hsize, one_shiftLeft, width]
  congr 1
  rcases Nat.le_total ch.size 16 with hle | hle
  · have hpow : 2 ^ ch.size ≤ 2 ^ 16 := Nat.pow_le_pow_right (by decide) hle
    rw [Nat.min_eq_left hle]
    exact mod_eq_of_lt (by omega)
  · obtain ⟨more, hmore⟩ := Nat.exists_eq_add_of_le hle
    have hpow : 2 ^ ch.size = 2 ^ 16 * 2 ^ more := by rw [hmore, Nat.pow_add]
    have hpos : 0 < 2 ^ more := Nat.two_pow_pos more
    rw [Nat.min_eq_right hle, hpow]
    omega

lemma level_lt (ch : Channel) (v : UInt8) : ch.level v < 2 ^ ch.width := by
  have hv : v.toNat ≤ 255 := le_of_lt_succ v.toNat_lt
  have hpos : 0 < 2 ^ ch.width := Nat.two_pow_pos _
  have hle : v.toNat * (2 ^ ch.width - 1) ≤ 255 * (2 ^ ch.width - 1) := Nat.mul_le_mul_right _ hv
  rw [level]
  omega

lemma width_le (ch : Channel) : ch.width ≤ ch.size := Nat.min_le_left _ _

lemma two_pow_width_le (ch : Channel) : 2 ^ ch.width ≤ 2 ^ 16 :=
  Nat.pow_le_pow_right (by decide) (Nat.min_le_right _ _)

lemma shifted_level_lt {bits : Nat} (hw : ch.Within bits) (v : UInt8) :
    ch.level v <<< ch.shift < 2 ^ bits := by
  have hle : ch.shift + ch.width ≤ bits := by
    have := hw.fits
    have := ch.width_le
    omega
  calc ch.level v <<< ch.shift = ch.level v * 2 ^ ch.shift := shiftLeft_eq _ _
    _ < 2 ^ ch.width * 2 ^ ch.shift := Nat.mul_lt_mul_of_pos_right (ch.level_lt v) (Nat.two_pow_pos _)
    _ = 2 ^ (ch.shift + ch.width) := by rw [← Nat.pow_add, Nat.add_comm]
    _ ≤ 2 ^ bits := Nat.pow_le_pow_right (by decide) hle

lemma asValue_eq (hw : ch.Within 64) (hsize : ch.size < 31) (v : UInt8) :
    ch.asValue v = some (ch.level v <<< ch.shift) := by
  have hlevel : v.toNat * (2 ^ ch.width - 1) / 255 % 2 ^ 16 = ch.level v :=
    mod_eq_of_lt (Nat.lt_of_lt_of_le (ch.level_lt v) ch.two_pow_width_le)
  have hshift : ch.shift < 64 := by
    have := hw.fits
    have := hw.size_ge
    omega
  have hmask : ch.level v &&& (2 ^ ch.width - 1) = ch.level v := by
    rw [and_two_pow_sub_one_eq_mod, mod_eq_of_lt (ch.level_lt v)]
  rw [asValue, maxValue_eq hsize, bind_eq_bind, bind_some]
  simp only [hlevel, hmask, if_pos hshift]
  rw [mod_eq_of_lt (shifted_level_lt hw v)]

lemma size_lt_of_asValue (h : (ch.asValue v).isSome) : ch.size < 31 := by
  by_contra hsize
  rw [asValue, maxValue, if_neg hsize] at h
  exact absurd h nofun

lemma asChannel_eq (hw : ch.Within 64) (hsize : ch.size < 31)
    (hvalue : (value >>> ch.shift) &&& (2 ^ ch.width - 1) = ch.level v) :
    ch.asChannel value = some (UInt8.ofNat (ch.level v * 255 / (2 ^ ch.width - 1))) := by
  have hshift : ch.shift < 64 := by
    have := hw.fits
    have := hw.size_ge
    omega
  have hmax : 2 ^ ch.width - 1 ≠ 0 := by
    have hpow : 2 ^ 8 ≤ 2 ^ ch.width :=
      Nat.pow_le_pow_right (by decide) (Nat.le_min.2 ⟨hw.size_ge, by decide⟩)
    omega
  rw [asChannel, maxValue_eq hsize, bind_eq_bind, bind_some, if_pos ⟨hshift, hmax⟩]
  simp only [hvalue]

lemma scaled_back_iff (hw : ch.Within 64) (v : UInt8) :
    UInt8.ofNat (ch.level v * 255 / (2 ^ ch.width - 1)) = v ↔
      255 ∣ v.toNat * (2 ^ ch.width - 1) := by
  have hmax : 0 < 2 ^ ch.width - 1 := by
    have hpow : 2 ^ 8 ≤ 2 ^ ch.width :=
      Nat.pow_le_pow_right (by decide) (Nat.le_min.2 ⟨hw.size_ge, by decide⟩)
    omega
  have hv : v.toNat ≤ 255 := le_of_lt_succ v.toNat_lt
  rw [level]
  generalize 2 ^ ch.width - 1 = max at hmax ⊢
  have hback : v.toNat * max / 255 * 255 / max ≤ v.toNat :=
    Nat.div_le_of_le_mul (by rw [Nat.mul_comm max]; exact Nat.div_mul_le_self _ _)
  rw [← UInt8.toNat_inj, UInt8.toNat_ofNat', mod_eq_of_lt (by omega)]
  constructor
  · intro heq
    have hge : v.toNat * max ≤ v.toNat * max / 255 * 255 := by
      conv_lhs => rw [← heq]
      exact Nat.div_mul_le_self _ _
    exact dvd_of_mod_eq_zero (by omega)
  · rintro ⟨n, hn⟩
    rw [hn, Nat.mul_div_cancel_left _ (by decide), Nat.mul_comm n, ← hn, Nat.mul_div_cancel _ hmax]

lemma other_bits (hapart : ch.Apart other) (w : UInt8) {i : Nat} (hi : i < ch.width) :
    (other.level w <<< other.shift).testBit (ch.shift + i) = false := by
  have hwidth := ch.width_le
  have hwidth' := other.width_le
  rw [testBit_shiftLeft]
  rcases hapart with h | h
  · rw [decide_eq_false (by omega)]
    rfl
  · have hhigh : (other.level w).testBit (ch.shift + i - other.shift) = false :=
      testBit_lt_two_pow (Nat.lt_of_lt_of_le (other.level_lt w)
        (Nat.pow_le_pow_right (by decide) (by omega)))
    rw [hhigh, Bool.and_false]

lemma own_bits (ch : Channel) (v : UInt8) (i : Nat) :
    (ch.level v <<< ch.shift).testBit (ch.shift + i) = (ch.level v).testBit i := by
  rw [testBit_shiftLeft, decide_eq_true (Nat.le_add_right _ _), Nat.add_sub_cancel_left]
  rfl

lemma level_of_bits
    (hbits : ∀ i < ch.width, value.testBit (ch.shift + i) = (ch.level v).testBit i) :
    (value >>> ch.shift) &&& (2 ^ ch.width - 1) = ch.level v := by
  refine eq_of_testBit_eq fun i => ?_
  rw [testBit_and, testBit_shiftRight, testBit_two_pow_sub_one]
  by_cases hi : i < ch.width
  · rw [hbits i hi, decide_eq_true hi, Bool.and_true]
  · have hhigh : (ch.level v).testBit i = false :=
      testBit_lt_two_pow (Nat.lt_of_lt_of_le (ch.level_lt v)
        (Nat.pow_le_pow_right (by decide) (Nat.le_of_not_lt hi)))
    rw [decide_eq_false hi, Bool.and_false, hhigh]

end Channel

/-! ## Pixels -/

namespace PixelFormat

variable {f : PixelFormat} {p : Pixel}

/-- The channels have their own bits in a pixel of at most 64 of them. -/
structure Valid (f : PixelFormat) : Prop where
  bpp_le : f.mBpp ≤ 64
  red : f.mRedChannel.Within (8 * (f.mBpp / 8))
  green : f.mGreenChannel.Within (8 * (f.mBpp / 8))
  blue : f.mBlueChannel.Within (8 * (f.mBpp / 8))
  red_green : f.mRedChannel.Apart f.mGreenChannel
  red_blue : f.mRedChannel.Apart f.mBlueChannel
  green_blue : f.mGreenChannel.Apart f.mBlueChannel

/-- A pixel that the format holds without loss. -/
structure Represents (f : PixelFormat) (p : Pixel) : Prop where
  red : f.mRedChannel.Represents p.r
  green : f.mGreenChannel.Represents p.g
  blue : f.mBlueChannel.Represents p.b

/-- The channels at which `maxValue` is defined. -/
structure Narrow (f : PixelFormat) : Prop where
  red : f.mRedChannel.size < 31
  green : f.mGreenChannel.size < 31
  blue : f.mBlueChannel.size < 31

def packed (f : PixelFormat) (p : Pixel) : Nat :=
  f.mRedChannel.level p.r <<< f.mRedChannel.shift |||
    f.mGreenChannel.level p.g <<< f.mGreenChannel.shift |||
    f.mBlueChannel.level p.b <<< f.mBlueChannel.shift

lemma Represents.narrow (h : f.Represents p) : f.Narrow := ⟨h.red.1, h.green.1, h.blue.1⟩

lemma within_mono {ch : Channel} {bits bits' : Nat} (h : ch.Within bits) (hle : bits ≤ bits') :
    ch.Within bits' := ⟨h.size_ge, h.fits.trans hle⟩

lemma bits_le (hf : f.Valid) : 8 * (f.mBpp / 8) ≤ 64 := by
  have := hf.bpp_le
  omega

lemma packed_lt (hf : f.Valid) (p : Pixel) : f.packed p < 256 ^ (f.mBpp / 8) := by
  have hpow : 256 ^ (f.mBpp / 8) = 2 ^ (8 * (f.mBpp / 8)) := by rw [Nat.pow_mul]
  rw [hpow, packed]
  exact or_lt_two_pow (or_lt_two_pow (Channel.shifted_level_lt hf.red _)
    (Channel.shifted_level_lt hf.green _)) (Channel.shifted_level_lt hf.blue _)

lemma pixelValue_eq (hf : f.Valid) (hn : f.Narrow) (p : Pixel) :
    f.pixelValue p = some (f.packed p) := by
  have hle := bits_le hf
  rw [pixelValue, Channel.asValue_eq (within_mono hf.red hle) hn.red,
    Channel.asValue_eq (within_mono hf.green hle) hn.green,
    Channel.asValue_eq (within_mono hf.blue hle) hn.blue]
  rfl

lemma narrow_of_pixelValue {value : Nat} (h : f.pixelValue p = some value) : f.Narrow := by
  rw [pixelValue] at h
  simp only [bind_eq_bind, bind_eq_some_iff] at h
  obtain ⟨r, hr, g, hg, b, hb, -⟩ := h
  exact ⟨Channel.size_lt_of_asValue (isSome_iff_exists.2 ⟨r, hr⟩),
    Channel.size_lt_of_asValue (isSome_iff_exists.2 ⟨g, hg⟩),
    Channel.size_lt_of_asValue (isSome_iff_exists.2 ⟨b, hb⟩)⟩

lemma apart_symm {ch other : Channel} (h : ch.Apart other) : other.Apart ch := h.symm

lemma pixelRead_packed_iff (hf : f.Valid) (hn : f.Narrow) (p : Pixel) :
    f.pixelRead (f.packed p) = some p ↔ f.Represents p := by
  have hle := bits_le hf
  have hred : (f.packed p >>> f.mRedChannel.shift) &&& (2 ^ f.mRedChannel.width - 1) =
      f.mRedChannel.level p.r := by
    refine Channel.level_of_bits fun i hi => ?_
    rw [packed, testBit_or, testBit_or, Channel.own_bits,
      Channel.other_bits hf.red_green _ hi, Channel.other_bits hf.red_blue _ hi,
      Bool.or_false, Bool.or_false]
  have hgreen : (f.packed p >>> f.mGreenChannel.shift) &&& (2 ^ f.mGreenChannel.width - 1) =
      f.mGreenChannel.level p.g := by
    refine Channel.level_of_bits fun i hi => ?_
    rw [packed, testBit_or, testBit_or, Channel.own_bits,
      Channel.other_bits (apart_symm hf.red_green) _ hi, Channel.other_bits hf.green_blue _ hi,
      Bool.or_false, Bool.false_or]
  have hblue : (f.packed p >>> f.mBlueChannel.shift) &&& (2 ^ f.mBlueChannel.width - 1) =
      f.mBlueChannel.level p.b := by
    refine Channel.level_of_bits fun i hi => ?_
    rw [packed, testBit_or, testBit_or, Channel.own_bits,
      Channel.other_bits (apart_symm hf.red_blue) _ hi,
      Channel.other_bits (apart_symm hf.green_blue) _ hi, Bool.or_false, Bool.false_or]
  rw [pixelRead, Channel.asChannel_eq (within_mono hf.red hle) hn.red hred,
    Channel.asChannel_eq (within_mono hf.green hle) hn.green hgreen,
    Channel.asChannel_eq (within_mono hf.blue hle) hn.blue hblue]
  simp only [bind_eq_bind, bind_some, Option.some.injEq, Pixel.ext_iff,
    Channel.scaled_back_iff (within_mono hf.red hle),
    Channel.scaled_back_iff (within_mono hf.green hle),
    Channel.scaled_back_iff (within_mono hf.blue hle)]
  exact ⟨fun ⟨hr, hg, hb⟩ => ⟨⟨hn.red, hr⟩, ⟨hn.green, hg⟩, ⟨hn.blue, hb⟩⟩,
    fun h => ⟨h.red.2, h.green.2, h.blue.2⟩⟩

end PixelFormat

/-! ## Pixels in the framebuffer -/

namespace Canvas

variable {c : Canvas} {x y x' y' : Nat} {p : Pixel} {mem mem' : Nat → UInt8}

/-- A framebuffer whose rows stand apart by the pitch, with its bytes in the address space. -/
structure Valid (c : Canvas) : Prop where
  format : c.mFormat.Valid
  pitch_ge : c.mWidth * c.bytesPerPixel ≤ c.mPitch
  fits : c.mAddress + c.mPitch * c.mHeight ≤ 2 ^ 64

def InBounds (c : Canvas) (x y : Nat) : Prop := x < c.mWidth ∧ y < c.mHeight
  deriving Decidable

def pixelAddress (c : Canvas) (x y : Nat) : Nat :=
  c.mAddress + (y * c.mPitch + x * c.bytesPerPixel)

/-- The pixel is written at its address, and nothing else is changed. -/
structure Written (c : Canvas) (x y : Nat) (p : Pixel) (mem mem' : Nat → UInt8) : Prop where
  bytes : ∃ pix, c.mFormat.pixelValue p = some pix ∧
    load mem' (c.pixelAddress x y) c.bytesPerPixel = leBytes c.bytesPerPixel pix
  frame : ∀ a, (a < c.pixelAddress x y ∨ c.pixelAddress x y + c.bytesPerPixel ≤ a) →
    mem' a = mem a
  read_back : c.read x y mem' = some p
  others : ∀ x' y', c.InBounds x' y' → (x', y') ≠ (x, y) → c.read x' y' mem' = c.read x' y' mem
  apart : ∀ x' y', c.InBounds x' y' → (x', y') ≠ (x, y) →
    c.pixelAddress x' y' + c.bytesPerPixel ≤ c.pixelAddress x y ∨
      c.pixelAddress x y + c.bytesPerPixel ≤ c.pixelAddress x' y'

lemma bytesPerPixel_le (hc : c.Valid) : c.bytesPerPixel ≤ 8 := by
  have := hc.format.bpp_le
  rw [bytesPerPixel]
  omega

lemma bytesPerPixel_pos (hc : c.Valid) : 0 < c.bytesPerPixel := by
  have := hc.format.red.size_ge
  have := hc.format.red.fits
  rw [bytesPerPixel]
  omega

lemma apart_of_pitch {w b pitch : Nat} (hpitch : w * b ≤ pitch) (hx : x < w) (hx' : x' < w)
    (hne : (x', y') ≠ (x, y)) :
    y' * pitch + x' * b + b ≤ y * pitch + x * b ∨ y * pitch + x * b + b ≤ y' * pitch + x' * b := by
  have hrow : ∀ {u v i j : Nat}, u < v → i < w → u * pitch + i * b + b ≤ v * pitch + j * b := by
    intro u v i j huv hi
    calc u * pitch + i * b + b = u * pitch + (i + 1) * b := by ring
      _ ≤ u * pitch + w * b := Nat.add_le_add_left (Nat.mul_le_mul_right _ hi) _
      _ ≤ u * pitch + pitch := Nat.add_le_add_left hpitch _
      _ = (u + 1) * pitch := by ring
      _ ≤ v * pitch := Nat.mul_le_mul_right _ huv
      _ ≤ v * pitch + j * b := Nat.le_add_right _ _
  have hcolumn : ∀ {i j : Nat}, i < j → y * pitch + i * b + b ≤ y * pitch + j * b := by
    intro i j hij
    calc y * pitch + i * b + b = y * pitch + (i + 1) * b := by ring
      _ ≤ y * pitch + j * b := Nat.add_le_add_left (Nat.mul_le_mul_right _ hij) _
  rcases Nat.lt_trichotomy y' y with hy | rfl | hy
  · exact .inl (hrow hy hx')
  · rcases Nat.lt_trichotomy x' x with hlt | rfl | hlt
    · exact .inl (hcolumn hlt)
    · exact absurd rfl hne
    · exact .inr (hcolumn hlt)
  · exact .inr (hrow hy hx)

section

variable (hc : c.Valid) (hin : c.InBounds x y)

include hc hin

lemma pixelOffset_eq :
    c.pixelOffset x y = y * (c.mWidth * c.bytesPerPixel) + x * c.bytesPerPixel := by
  have hlt : y * (c.mWidth * c.bytesPerPixel) + x * c.bytesPerPixel + c.bytesPerPixel ≤
      c.mPitch * c.mHeight := by
    calc _ = y * (c.mWidth * c.bytesPerPixel) + (x + 1) * c.bytesPerPixel := by ring
      _ ≤ y * (c.mWidth * c.bytesPerPixel) + c.mWidth * c.bytesPerPixel :=
        Nat.add_le_add_left (Nat.mul_le_mul_right _ hin.1) _
      _ = (y + 1) * (c.mWidth * c.bytesPerPixel) := by ring
      _ ≤ c.mHeight * c.mPitch := Nat.mul_le_mul hin.2 hc.pitch_ge
      _ = c.mPitch * c.mHeight := Nat.mul_comm _ _
  have hfits := hc.fits
  have hpos := bytesPerPixel_pos hc
  have hsplit : (y * c.mWidth + x) * c.bytesPerPixel =
      y * (c.mWidth * c.bytesPerPixel) + x * c.bytesPerPixel := by ring
  rw [pixelOffset, hsplit]
  exact mod_eq_of_lt (by omega)

lemma pixelOffset_le :
    c.mAddress + c.pixelOffset x y ≤ c.pixelAddress x y := by
  rw [pixelOffset_eq hc hin, pixelAddress]
  exact Nat.add_le_add_left (Nat.add_le_add_right (Nat.mul_le_mul_left _ hc.pitch_ge) _) _

lemma pixelOffset_eq_iff :
    c.mAddress + c.pixelOffset x y = c.pixelAddress x y ↔
      y = 0 ∨ c.mPitch = c.mWidth * c.bytesPerPixel := by
  rw [pixelOffset_eq hc hin, pixelAddress, Nat.add_left_cancel_iff, Nat.add_right_cancel_iff,
    mul_eq_mul_left_iff]
  exact or_comm.trans (or_congr_right eq_comm)

end

lemma write_out_of_bounds (h : ¬ c.InBounds x y) (p : Pixel) (mem : Nat → UInt8) :
    c.write x y p mem = some mem :=
  if_pos (by rw [InBounds] at h; omega)

section

variable (hc : c.Valid)

include hc

lemma write_eq (hin : c.InBounds x y) (p : Pixel) (mem : Nat → UInt8) :
    c.write x y p mem = (c.mFormat.pixelValue p).map fun pix =>
      store mem (c.mAddress + c.pixelOffset x y) (leBytes c.bytesPerPixel pix) := by
  have hbounds : ¬ (x ≥ c.mWidth ∨ y ≥ c.mHeight) := by
    rw [InBounds] at hin
    omega
  rw [write, if_neg hbounds]
  simp only [if_pos (bytesPerPixel_le hc)]
  cases c.mFormat.pixelValue p <;> rfl

lemma read_eq (x y : Nat) (mem : Nat → UInt8) :
    c.read x y mem = c.mFormat.pixelRead
      (leValue (load mem (c.mAddress + c.pixelOffset x y) c.bytesPerPixel)) :=
  if_pos (bytesPerPixel_le hc)

lemma read_store (hn : c.mFormat.Narrow) (x y : Nat) (p : Pixel) (mem : Nat → UInt8) :
    c.read x y (store mem (c.mAddress + c.pixelOffset x y)
      (leBytes c.bytesPerPixel (c.mFormat.packed p))) = some p ↔ c.mFormat.Represents p := by
  have hload := load_store_self mem (c.mAddress + c.pixelOffset x y)
    (leBytes c.bytesPerPixel (c.mFormat.packed p))
  have hfits : c.mFormat.packed p < 256 ^ c.bytesPerPixel := PixelFormat.packed_lt hc.format p
  rw [length_leBytes] at hload
  rw [read_eq hc, hload, leValue_leBytes hfits]
  exact PixelFormat.pixelRead_packed_iff hc.format hn p

lemma written_store (hin : c.InBounds x y) (hrow : y = 0 ∨ c.mPitch = c.mWidth * c.bytesPerPixel)
    (hp : c.mFormat.Represents p) (mem : Nat → UInt8) :
    Written c x y p mem (store mem (c.mAddress + c.pixelOffset x y)
      (leBytes c.bytesPerPixel (c.mFormat.packed p))) := by
  have hlength := length_leBytes c.bytesPerPixel (c.mFormat.packed p)
  have haddress := (pixelOffset_eq_iff hc hin).2 hrow
  refine ⟨⟨_, PixelFormat.pixelValue_eq hc.format hp.narrow p, ?_⟩, fun a ha => ?_,
    (read_store hc hp.narrow x y p mem).2 hp, fun x' y' hin' hne => ?_, fun x' y' hin' hne => ?_⟩
  · have hload := load_store_self mem (c.mAddress + c.pixelOffset x y)
      (leBytes c.bytesPerPixel (c.mFormat.packed p))
    rw [hlength] at hload
    rwa [← haddress]
  · rw [← haddress] at ha
    exact store_outside (by rwa [hlength])
  · rw [read_eq hc, read_eq hc, load_store_apart]
    have hapart := apart_of_pitch (Nat.le_refl (c.mWidth * c.bytesPerPixel)) hin.1 hin'.1 hne
    rw [hlength, pixelOffset_eq hc hin, pixelOffset_eq hc hin']
    omega
  · have hapart := apart_of_pitch hc.pitch_ge hin.1 hin'.1 hne
    rw [pixelAddress, pixelAddress]
    omega

lemma row_of_frame (hin : c.InBounds x y) (pix : Nat)
    (hframe : ∀ mem : Nat → UInt8, ∀ a, a < c.pixelAddress x y →
      store mem (c.mAddress + c.pixelOffset x y) (leBytes c.bytesPerPixel pix) a = mem a) :
    y = 0 ∨ c.mPitch = c.mWidth * c.bytesPerPixel := by
  refine (pixelOffset_eq_iff hc hin).1 (Nat.le_antisymm (pixelOffset_le hc hin) ?_)
  by_contra hlt
  have hlength : 0 < (leBytes c.bytesPerPixel pix).length := by
    rw [length_leBytes]
    exact bytesPerPixel_pos hc
  have hbyte := hframe (fun _ => (leBytes c.bytesPerPixel pix)[0] + 1) _ (Nat.lt_of_not_le hlt)
  have hstored := store_inside (fun _ => (leBytes c.bytesPerPixel pix)[0] + 1)
    (c.mAddress + c.pixelOffset x y) hlength
  rw [Nat.add_zero] at hstored
  rw [hstored] at hbyte
  exact absurd (UInt8.toNat_inj.2 hbyte) (by rw [UInt8.toNat_add]; simp; omega)

end

/-- A write does what it should exactly if the pixel is out of bounds, or in a row that is where
the width alone would put it and of colours that the format holds without loss. -/
theorem write_exact_iff (hc : c.Valid) (x y : Nat) (p : Pixel) :
    (∀ mem, ∃ mem', c.write x y p mem = some mem' ∧
      (c.InBounds x y → Written c x y p mem mem') ∧ (¬ c.InBounds x y → mem' = mem)) ↔
    (c.InBounds x y → (y = 0 ∨ c.mPitch = c.mWidth * c.bytesPerPixel) ∧
      c.mFormat.Represents p) := by
  by_cases hin : c.InBounds x y
  · constructor
    · intro hall _
      obtain ⟨pix, hpix⟩ : ∃ pix, c.mFormat.pixelValue p = some pix := by
        obtain ⟨mem', -, hwritten, -⟩ := hall fun _ => 0
        obtain ⟨pix, hpix, -⟩ := (hwritten hin).bytes
        exact ⟨pix, hpix⟩
      have hn := PixelFormat.narrow_of_pixelValue hpix
      have hwrite : ∀ mem, Written c x y p mem (store mem (c.mAddress + c.pixelOffset x y)
          (leBytes c.bytesPerPixel (c.mFormat.packed p))) := by
        intro mem
        obtain ⟨mem', heq, hwritten, -⟩ := hall mem
        rw [write_eq hc hin, PixelFormat.pixelValue_eq hc.format hn, map_some] at heq
        rw [← Option.some.inj heq] at hwritten
        exact hwritten hin
      exact ⟨row_of_frame hc hin _ fun mem a ha => (hwrite mem).frame a (.inl ha),
        (read_store hc hn x y p _).1 (hwrite fun _ => 0).read_back⟩
    · intro hcond mem
      obtain ⟨hrow, hp⟩ := hcond hin
      refine ⟨_, ?_, fun _ => written_store hc hin hrow hp mem, fun h => absurd hin h⟩
      rw [write_eq hc hin, PixelFormat.pixelValue_eq hc.format hp.narrow, map_some]
  · refine iff_of_true (fun mem => ⟨mem, write_out_of_bounds hin p mem, fun h => absurd h hin,
      fun _ => rfl⟩) fun h => absurd h hin

def padded : Canvas where
  mAddress := 0x1000
  mWidth := 1
  mHeight := 2
  mPitch := 8
  mFormat := ⟨32, ⟨8, 16⟩, ⟨8, 8⟩, ⟨8, 0⟩⟩

lemma padded_valid : padded.Valid where
  format := ⟨by decide, by decide, by decide, by decide, by decide, by decide, by decide⟩
  pitch_ge := by decide
  fits := by decide

theorem write_exact_iff_padded : padded.Valid ∧
    ((∀ mem, ∃ mem', padded.write 0 0 ⟨1, 2, 3⟩ mem = some mem' ∧
      (padded.InBounds 0 0 → Written padded 0 0 ⟨1, 2, 3⟩ mem mem') ∧
      (¬ padded.InBounds 0 0 → mem' = mem)) ↔
    (padded.InBounds 0 0 → (0 = 0 ∨ padded.mPitch = padded.mWidth * padded.bytesPerPixel) ∧
      padded.mFormat.Represents ⟨1, 2, 3⟩)) :=
  ⟨padded_valid, write_exact_iff padded_valid 0 0 ⟨1, 2, 3⟩⟩

/-- The pixel of the second row is written behind that of the first, into the padding. -/
theorem padded_second_row_misplaced : padded.Valid ∧ padded.InBounds 0 1 ∧
    ((padded.write 0 1 ⟨1, 2, 3⟩ fun _ => 0).map fun mem => (mem 0x1004, mem 0x1008)) =
      some (3, 0) ∧
    ¬ ∃ mem', padded.write 0 1 ⟨1, 2, 3⟩ (fun _ => 0) = some mem' ∧
      Written padded 0 1 ⟨1, 2, 3⟩ (fun _ => 0) mem' := by
  refine ⟨padded_valid, by decide, by decide, ?_⟩
  rintro ⟨mem', hwrite, hwritten⟩
  have hbyte := hwritten.frame 0x1004 (.inl (by decide))
  rw [← Option.some.inj hwrite] at hbyte
  exact absurd hbyte (by decide)

end Canvas

end BezOS

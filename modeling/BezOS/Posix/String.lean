import BezOS.Lib.Bytes
import BezOS.Posix.Stdlib

/-!
# String routines

The loops of `string.cpp`, over a memory with a byte at every address. A loop that runs up to a
terminator has a bound on its rounds and is `none` if they do not do; a loop over a count runs as
often as the count says.
-/

namespace BezOS
namespace Posix

open Function

def strlen (s : Nat) (m : Nat → UInt8) : Nat → Option Nat
  | 0 => none
  | fuel + 1 => if m s ≠ 0 then (strlen (s + 1) m fuel).map (· + 1) else some 0

/-! ## Moving -/

/-- `for (size_t i = 0; i < size; i++) d[i] = s[i];` -/
def moveForward (d s : Nat) : Nat → Nat → (Nat → UInt8) → Nat → UInt8
  | 0, _, m => m
  | left + 1, i, m => moveForward d s left (i + 1) (update m (d + i) (m (s + i)))

/-- `for (size_t i = size; i > 0; i--) d[i - 1] = s[i - 1];` -/
def moveBackward (d s : Nat) : Nat → (Nat → UInt8) → Nat → UInt8
  | 0, m => m
  | i + 1, m => moveBackward d s i (update m (d + i) (m (s + i)))

def memmove (dst src size : Nat) (m : Nat → UInt8) : Nat × (Nat → UInt8) :=
  if dst < src then (dst, moveForward dst src size 0 m) else (dst, moveBackward dst src size m)

/-! ## Comparing -/

def memcmpFrom (l r : Nat) (m : Nat → UInt8) : Nat → Nat → Int
  | 0, _ => 0
  | left + 1, i =>
      if m (l + i) ≠ m (r + i) then (m (l + i)).toNat - (m (r + i)).toNat
      else memcmpFrom l r m left (i + 1)

def memcmp (lhs rhs n : Nat) (m : Nat → UInt8) : Int := memcmpFrom lhs rhs m n 0

def strcmp (lhs rhs : Nat) (m : Nat → UInt8) : Nat → Option Int
  | 0 => none
  | fuel + 1 =>
      if m lhs ≠ 0 ∧ m rhs ≠ 0 ∧ m lhs = m rhs then strcmp (lhs + 1) (rhs + 1) m fuel
      else some (char (m lhs) - char (m rhs))

def strncmpFrom (lhs rhs : Nat) (m : Nat → UInt8) : Nat → Nat → Int
  | 0, _ => 0
  | left + 1, i =>
      let l := m (lhs + i)
      let r := m (rhs + i)
      if l ≠ r then char l - char r
      else if l = 0 ∨ r = 0 then 0
      else strncmpFrom lhs rhs m left (i + 1)

def strncmp (lhs rhs n : Nat) (m : Nat → UInt8) : Int := strncmpFrom lhs rhs m n 0

/-! ## Copying -/

/-- `while (*src) *dst++ = *src++;` -/
def copyWhile (dst src : Nat) (m : Nat → UInt8) : Nat → Option (Nat × (Nat → UInt8))
  | 0 => none
  | fuel + 1 =>
      if m src ≠ 0 then copyWhile (dst + 1) (src + 1) (update m dst (m src)) fuel
      else some (dst, m)

def strcpy (fuel dst src : Nat) (m : Nat → UInt8) : Option (Nat × (Nat → UInt8)) :=
  copyWhile dst src m fuel

def strncpyFrom (dst src : Nat) : Nat → Nat → (Nat → UInt8) → Nat × (Nat → UInt8)
  | 0, i, m => (dst + i, m)
  | left + 1, i, m =>
      let m := update m (dst + i) (m (src + i))
      if m (src + i) = 0 then (dst + i, m) else strncpyFrom dst src left (i + 1) m

def strncpy (dst src n : Nat) (m : Nat → UInt8) : Nat × (Nat → UInt8) := strncpyFrom dst src n 0 m

/-- `while (*dst) dst++;` -/
def skipWhile (dst : Nat) (m : Nat → UInt8) : Nat → Option Nat
  | 0 => none
  | fuel + 1 => if m dst ≠ 0 then skipWhile (dst + 1) m fuel else some dst

def strcat (fuel dst src : Nat) (m : Nat → UInt8) : Option (Nat × (Nat → UInt8)) := do
  let result := dst
  let dst ← skipWhile dst m fuel
  let (dst, m) ← copyWhile dst src m fuel
  some (result, update m dst 0)

def strncatFrom (src : Nat) : Nat → Nat → Nat → (Nat → UInt8) → Nat → UInt8
  | 0, _, dst, m => update m dst 0
  | left + 1, i, dst, m =>
      let m := update m dst (m (src + i))
      if m (src + i) = 0 then m else strncatFrom src left (i + 1) (dst + 1) m

def strncat (fuel dst src n : Nat) (m : Nat → UInt8) : Option (Nat × (Nat → UInt8)) := do
  let result := dst
  let dst ← skipWhile dst m fuel
  some (result, strncatFrom src n 0 dst m)

/-! ## Searching -/

def strchrFrom (str : Nat) (c : Int) (m : Nat → UInt8) : Nat → Nat → Option (Option Nat)
  | 0, _ => none
  | fuel + 1, i =>
      if m (str + i) = 0 then some none
      else if char (m (str + i)) = c then some (some (str + i))
      else strchrFrom str c m fuel (i + 1)

def strchr (fuel str : Nat) (c : Int) (m : Nat → UInt8) : Option (Option Nat) :=
  strchrFrom str c m fuel 0

def strrchrFrom (str : Nat) (c : Int) (m : Nat → UInt8) :
    Nat → Nat → Option Nat → Option (Option Nat)
  | 0, _, _ => none
  | fuel + 1, i, last =>
      if m (str + i) = 0 then some last
      else strrchrFrom str c m fuel (i + 1)
        (if char (m (str + i)) = c then some (str + i) else last)

def strrchr (fuel str : Nat) (c : Int) (m : Nat → UInt8) : Option (Option Nat) :=
  strrchrFrom str c m fuel 0 none

def strstrFrom (haystack needle sublen : Nat) (m : Nat → UInt8) :
    Nat → Nat → Option (Option Nat)
  | 0, _ => none
  | fuel + 1, i =>
      if m (haystack + i) = 0 then some none
      else if strncmp (haystack + i) needle sublen m = 0 then some (some (haystack + i))
      else strstrFrom haystack needle sublen m fuel (i + 1)

def strstr (fuel haystack needle : Nat) (m : Nat → UInt8) : Option (Option Nat) := do
  let sublen ← strlen needle m fuel
  strstrFrom haystack needle sublen m fuel 0

end Posix
end BezOS

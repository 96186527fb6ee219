import BezOS.Lib.Bytes
import BezOS.Lib.Placed

/-!
# SMBIOS tables

`smbios.cpp` over the bytes of a table. Addresses are distances from its start; what reads behind it
has no result.
-/

namespace BezOS
namespace Smbios

/-! ## The reader -/

/-- `while (*address != '\0') address += 1`, with the bytes that are left of the table. -/
def scan (memory : List UInt8) : Nat → Nat → Option Nat
  | 0, _ => none
  | left + 1, address => do
      if (← memory[address]?) ≠ 0 then scan memory left (address + 1) else some address

def terminator (memory : List UInt8) (address : Nat) : Option Nat :=
  scan memory (memory.length - address) address

/-- The outer loop of `SmBiosIterator::next`. A round takes a byte at least. -/
def skipStrings (memory : List UInt8) : Nat → Nat → Option Nat
  | 0, _ => none
  | left + 1, address => do
      let address ← terminator memory address
      if (← memory[address + 1]?) = 0 then some address
      else skipStrings memory left (address + 1)

structure SmBiosIterator where
  mSize : Nat
  mAddress : Nat
  deriving DecidableEq

/-- `info->length` -/
def headerLength (memory : List UInt8) (header : Nat) : Option Nat := do
  pure (← memory[header + 1]?).toNat

namespace SmBiosIterator

def next (memory : List UInt8) (address : Nat) : Option Nat := do
  let length ← headerLength memory address
  let address ← skipStrings memory memory.length (address + length)
  pure (address + 2)

/-- `operator*` -/
def header (it : SmBiosIterator) : Nat :=
  it.mAddress - it.mSize

/-- `operator++` -/
def advance (memory : List UInt8) (it : SmBiosIterator) : Option SmBiosIterator := do
  let address ← next memory it.mAddress
  pure { mSize := address - it.mAddress, mAddress := address }

end SmBiosIterator

variable {β : Type}

/-- The loop from `begin()` to `end()`, `operator!=` being a comparison by order. -/
def forHeaders (memory : List UInt8) (body : Nat → β → Option (ForInStep β)) :
    Nat → SmBiosIterator → β → Option β
  | 0, _, _ => none
  | left + 1, it, result =>
      if it.mAddress < memory.length then do
        match ← body it.header result with
        | .done result => some result
        | .yield result => forHeaders memory body left (← it.advance memory) result
      else some result

def headers (memory : List UInt8) : Option (List Nat) :=
  forHeaders memory (fun header seen => some (.yield (seen ++ [header]))) (memory.length + 1)
    ⟨0, 0⟩ []

def findHeader (type : UInt8) (memory : List UInt8) : Option (Option Nat) :=
  forHeaders memory (fun header _ => do
    if (← memory[header]?) = type then some (.done (some header)) else some (.yield none))
    (memory.length + 1) ⟨0, 0⟩ none

def firmwareInfo : List UInt8 → Option (Option Nat) := findHeader 0

def systemInfo : List UInt8 → Option (Option Nat) := findHeader 1

def literal (text : String) : List UInt8 :=
  text.toList.map fun c => UInt8.ofNat c.toNat

def kNotSpecified : List UInt8 := literal "Not specified"

def kInvalidIndex : List UInt8 := literal "Invalid index"

/-- The loop of `getStringEntry`. -/
def stringFrom (memory : List UInt8) : Nat → Nat → Nat → Option (List UInt8)
  | 0, _, _ => none
  | left + 1, string, front => do
      let back ← terminator memory front
      if (← memory[back + 1]?) = 0 then some kInvalidIndex
      else
        let entry := (memory.drop front).take (back - front)
        if string - 1 = 0 then some entry
        else stringFrom memory left (string - 1) (back + 1)

def getStringEntry (memory : List UInt8) (header : Nat) (string : UInt8) :
    Option (List UInt8) := do
  if string = 0 then some kNotSpecified
  else stringFrom memory memory.length string.toNat (header + (← headerLength memory header))

/-! ## Tables -/

/-- A structure of a table: a formatted area behind the header and strings. -/
structure Structure where
  type : UInt8
  handle : UInt16
  formatted : List UInt8
  strings : List (List UInt8)
  formatted_fits : 4 + formatted.length < 256
  strings_ne_nil : ∀ string ∈ strings, string ≠ []
  strings_no_zero : ∀ string ∈ strings, 0 ∉ string

def terminated (strings : List (List UInt8)) : List UInt8 :=
  strings.flatMap fun string => string ++ [0]

/-- The string set: without strings it is two zeros too. -/
def stringSet (strings : List (List UInt8)) : List UInt8 :=
  if strings = [] then [0, 0] else terminated strings ++ [0]

namespace Structure

def length (s : Structure) : UInt8 :=
  UInt8.ofNat (4 + s.formatted.length)

def area (s : Structure) : List UInt8 :=
  s.type :: s.length :: (Lib.leBytes 2 s.handle.toNat ++ s.formatted)

def bytes (s : Structure) : List UInt8 :=
  s.area ++ stringSet s.strings

end Structure

def tableBytes (structures : List Structure) : List UInt8 :=
  structures.flatMap Structure.bytes

def starts : Nat → List Structure → List Nat
  | _, [] => []
  | address, s :: rest => address :: starts (address + s.bytes.length) rest

/-- A table decodes: the loop yields its headers in their order, and every string is found. -/
structure Decodes (structures : List Structure) : Prop where
  headers_eq : headers (tableBytes structures) = some (starts 0 structures)
  string_eq : ∀ entry ∈ (starts 0 structures).zip structures, ∀ string : UInt8, 1 ≤ string →
    ∀ h : string.toNat - 1 < entry.2.strings.length,
      getStringEntry (tableBytes structures) entry.1 string =
        some (entry.2.strings[string.toNat - 1])

end Smbios
end BezOS

/-!
## Decoding SMBIOS tables

What the loop over a table yields, and which of its strings are found: the header behind the one the
loop stands at is reported, and the last string of a structure is not.
-/

namespace BezOS
namespace Smbios

open Lib List Nat Option Placed UInt8

variable {memory string : List UInt8} {β : Type} {address left : Nat} {structures : List Structure}
  {strings rest : List (List UInt8)} {s : Structure}

/-! ## Strings in a table -/

lemma scan_eq (hzero : 0 ∉ string) (hleft : string.length < left)
    (h : Placed memory address (string ++ [0])) :
    scan memory left address = some (address + string.length) := by
  induction string generalizing left address with
  | nil =>
    obtain ⟨left, rfl⟩ := exists_eq_succ_of_ne_zero (Nat.ne_zero_of_lt hleft)
    rw [scan, h.head]
    rfl
  | cons byte string ih =>
    obtain ⟨left, rfl⟩ := exists_eq_succ_of_ne_zero (Nat.ne_zero_of_lt hleft)
    rw [mem_cons, not_or] at hzero
    have hrest := ih hzero.2 (lt_of_succ_lt_succ hleft) h.tail
    rw [scan, h.head, bind_eq_bind, bind_some, if_pos (Ne.symm hzero.1), hrest,
      length_cons, Nat.add_assoc, Nat.add_comm 1]

lemma terminator_eq (hzero : 0 ∉ string) (h : Placed memory address (string ++ [0])) :
    terminator memory address = some (address + string.length) := by
  refine scan_eq hzero ?_ h
  have hle := h.length_le
  rw [length_append, length_singleton] at hle
  exact hle

lemma terminated_cons (string : List UInt8) (rest : List (List UInt8)) :
    terminated (string :: rest) = string ++ [0] ++ terminated rest :=
  flatMap_cons

structure Strings (strings : List (List UInt8)) : Prop where
  ne_nil : ∀ string ∈ strings, string ≠ []
  no_zero : ∀ string ∈ strings, 0 ∉ string

lemma Strings.tail (h : Strings (string :: rest)) : Strings rest :=
  ⟨fun s hs => h.ne_nil s (mem_cons_of_mem string hs),
    fun s hs => h.no_zero s (mem_cons_of_mem string hs)⟩

lemma Structure.strings_ok (s : Structure) : Strings s.strings :=
  ⟨s.strings_ne_nil, s.strings_no_zero⟩

lemma exists_following (hrest : Strings rest) (h : Placed memory address (terminated rest ++ [0])) :
    ∃ byte, memory[address]? = some byte ∧ (byte = 0 ↔ rest = []) := by
  cases rest with
  | nil => exact ⟨0, h.head, iff_of_true rfl rfl⟩
  | cons string rest =>
    obtain ⟨byte, string, rfl⟩ := exists_cons_of_ne_nil
      (hrest.ne_nil string mem_cons_self)
    refine ⟨byte, h.head, iff_of_false (fun hbyte => ?_) (cons_ne_nil _ _)⟩
    exact hrest.no_zero _ mem_cons_self (hbyte ▸ mem_cons_self)

lemma first_string (hstrings : Strings (string :: rest))
    (h : Placed memory address (terminated (string :: rest) ++ [0])) :
    terminator memory address = some (address + string.length) ∧
      (memory.drop address).take string.length = string ∧
      Placed memory (address + string.length + 1) (terminated rest ++ [0]) := by
  rw [terminated_cons, append_assoc] at h
  refine ⟨terminator_eq (hstrings.no_zero _ mem_cons_self) h.left, h.left.left.slice, ?_⟩
  have hrest := h.right
  rw [length_append, length_singleton, ← Nat.add_assoc] at hrest
  exact hrest

/-! ## From a structure to the next -/

lemma skipStrings_terminated (hstrings : Strings strings) (hne : strings ≠ [])
    (hleft : strings.length ≤ left) (h : Placed memory address (terminated strings ++ [0])) :
    skipStrings memory left address = some (address + (terminated strings).length - 1) := by
  induction strings generalizing left address with
  | nil => exact absurd rfl hne
  | cons string rest ih =>
    obtain ⟨left, rfl⟩ := exists_eq_succ_of_ne_zero (Nat.ne_zero_of_lt hleft)
    obtain ⟨hback, -, hrest⟩ := first_string hstrings h
    obtain ⟨byte, hbyte, hlast⟩ := exists_following hstrings.tail hrest
    rw [skipStrings, hback, bind_eq_bind, bind_some, hbyte, bind_eq_bind,
      bind_some, terminated_cons]
    by_cases hnil : rest = []
    · rw [if_pos (hlast.2 hnil), hnil]
      simp only [terminated, flatMap_nil, append_nil, length_append,
        length_singleton]
      exact congrArg some (by omega)
    · rw [if_neg (fun hzero => hnil (hlast.1 hzero)),
        ih hstrings.tail hnil (le_of_succ_le_succ hleft) hrest]
      simp only [length_append, length_singleton]
      exact congrArg some (by omega)

lemma length_le_terminated (strings : List (List UInt8)) :
    strings.length ≤ (terminated strings).length := by
  induction strings with
  | nil => exact Nat.zero_le _
  | cons string rest ih =>
    rw [terminated_cons]
    simp only [length_append, length_cons, length_nil]
    omega

lemma skipStrings_stringSet (hstrings : Strings strings)
    (h : Placed memory address (stringSet strings)) :
    ∃ back, skipStrings memory memory.length address = some back ∧
      back + 2 = address + (stringSet strings).length := by
  have hle := h.length_le
  rw [stringSet] at h hle ⊢
  split at h
  · rename_i hnil
    rw [if_pos hnil] at hle ⊢
    refine ⟨address, ?_, rfl⟩
    have hpos : memory.length ≠ 0 := by
      intro hzero
      rw [hzero] at hle
      simp at hle
    obtain ⟨left, hleft⟩ := exists_eq_succ_of_ne_zero hpos
    have hback : terminator memory address = some address :=
      terminator_eq (@not_mem_nil _ 0) (@Placed.left _ memory [0] [0] address h)
    rw [hleft, skipStrings, hback, bind_eq_bind, bind_some, h.tail.head]
    rfl
  · rename_i hne
    rw [if_neg hne] at hle ⊢
    have hcount := length_le_terminated strings
    have hpos := length_pos_of_ne_nil hne
    rw [length_append, length_singleton] at hle
    refine ⟨_, skipStrings_terminated hstrings hne (by omega) h, ?_⟩
    rw [length_append, length_singleton]
    omega

lemma Structure.headerLength_eq (s : Structure) (h : Placed memory address s.bytes) :
    headerLength memory address = some s.area.length ∧
      Placed memory (address + s.area.length) (stringSet s.strings) := by
  have harea : s.area.length = 4 + s.formatted.length := by
    simp only [area, length_cons, length_append, length_leBytes]
    omega
  have hbyte : memory[address + 1]? = some s.length := h.left.tail.head
  refine ⟨?_, h.right⟩
  rw [headerLength, hbyte, harea]
  exact congrArg some (toNat_ofNat_of_lt' s.formatted_fits)

lemma SmBiosIterator.next_eq (s : Structure) (h : Placed memory address s.bytes) :
    next memory address = some (address + s.bytes.length) := by
  obtain ⟨hlength, hset⟩ := s.headerLength_eq h
  obtain ⟨back, hback, hend⟩ := skipStrings_stringSet s.strings_ok hset
  rw [next, hlength, bind_eq_bind, bind_some, hback, Structure.bytes,
    length_append, ← Nat.add_assoc, ← hend]
  rfl

lemma SmBiosIterator.advance_eq (s : Structure) (it : SmBiosIterator)
    (h : Placed memory it.mAddress s.bytes) :
    it.advance memory = some ⟨s.bytes.length, it.mAddress + s.bytes.length⟩ := by
  rw [advance, next_eq s h, bind_eq_bind, bind_some, Nat.add_sub_cancel_left]
  rfl

/-! ## What the loop yields -/

lemma Structure.length_pos (s : Structure) : 0 < s.bytes.length := by
  simp only [bytes, area, length_append, length_cons]
  omega

lemma length_le_tableBytes (structures : List Structure) :
    structures.length ≤ (tableBytes structures).length := by
  induction structures with
  | nil => exact Nat.zero_le _
  | cons s rest ih =>
    have hpos := s.length_pos
    have hcons : (tableBytes (s :: rest)).length = s.bytes.length + (tableBytes rest).length := by
      rw [tableBytes, flatMap_cons, length_append, tableBytes]
    rw [hcons, length_cons]
    omega

/-- At every structure, the loop yields the header of the structure before. -/
def yields (it : SmBiosIterator) (structures : List Structure) : List Nat :=
  (it.header :: starts it.mAddress structures).dropLast

lemma forHeaders_eq {it : SmBiosIterator} (hleft : structures.length < left)
    (h : Placed memory it.mAddress (tableBytes structures))
    (hend : it.mAddress + (tableBytes structures).length = memory.length)
    (body : Nat → β → Option (ForInStep β)) (result : β) :
    forHeaders memory body left it result = forIn (yields it structures) result body := by
  induction structures generalizing left it result with
  | nil =>
    obtain ⟨left, rfl⟩ := exists_eq_succ_of_ne_zero (Nat.ne_zero_of_lt hleft)
    have hstop : ¬ it.mAddress < memory.length := Nat.not_lt.2 (Nat.le_of_eq hend.symm)
    rw [forHeaders, if_neg hstop]
    rfl
  | cons s rest ih =>
    obtain ⟨left, rfl⟩ := exists_eq_succ_of_ne_zero (Nat.ne_zero_of_lt hleft)
    rw [tableBytes, flatMap_cons] at h hend
    rw [length_append] at hend
    have hpos := s.length_pos
    have hgo : it.mAddress < memory.length := by omega
    have hyields : yields it (s :: rest) =
        it.header :: yields ⟨s.bytes.length, it.mAddress + s.bytes.length⟩ rest := by
      rw [yields, starts, dropLast_cons_cons, yields, SmBiosIterator.header,
        SmBiosIterator.header, Nat.add_sub_cancel]
    rw [forHeaders, if_pos hgo, hyields, forIn_cons]
    refine congrArg _ (funext fun step => ?_)
    cases step with
    | done result => rfl
    | yield result =>
      rw [SmBiosIterator.advance_eq s it h.left]
      exact ih (lt_of_succ_lt_succ hleft) h.right (by rw [← hend]; exact Nat.add_assoc ..) result

lemma forIn_seen (found seen : List Nat) :
    forIn (m := Option) found seen (fun header seen => some (.yield (seen ++ [header]))) =
      some (seen ++ found) := by
  induction found generalizing seen with
  | nil => exact congrArg some (append_nil seen).symm
  | cons header found ih =>
    rw [forIn_cons]
    exact (ih _).trans (congrArg some (append_assoc ..))

lemma headers_tableBytes (structures : List Structure) :
    headers (tableBytes structures) = some (0 :: starts 0 structures).dropLast := by
  have hfuel := lt_succ_of_le (length_le_tableBytes structures)
  rw [headers, forHeaders_eq hfuel (self _) (Nat.zero_add _)]
  exact forIn_seen _ []

lemma headers_exact_iff (structures : List Structure) :
    headers (tableBytes structures) = some (starts 0 structures) ↔ structures.length ≤ 1 := by
  rw [headers_tableBytes, some_inj]
  match structures with
  | [] => exact iff_of_true rfl (Nat.zero_le 1)
  | [s] => exact iff_of_true rfl (Nat.le_refl 1)
  | s :: t :: rest =>
    refine iff_of_false (fun heq => ?_) (by simp)
    have hpos := s.length_pos
    simp only [starts, dropLast_cons_cons, List.cons.injEq] at heq
    omega

lemma placed_of_mem_zip {start : Nat} (h : Placed memory start (tableBytes structures))
    (hmem : (address, s) ∈ (starts start structures).zip structures) :
    Placed memory address s.bytes := by
  induction structures generalizing start with
  | nil => cases hmem
  | cons first rest ih =>
    rw [starts, zip_cons_cons, mem_cons] at hmem
    rcases hmem with heq | hmem
    · cases heq
      exact h.left
    · exact ih h.right hmem

lemma exists_mem_zip_of_mem_starts {start : Nat} (h : address ∈ starts start structures) :
    ∃ s, (address, s) ∈ (starts start structures).zip structures := by
  induction structures generalizing start with
  | nil => cases h
  | cons first rest ih =>
    rw [starts, zip_cons_cons]
    rcases mem_cons.1 h with rfl | hmem
    · exact ⟨first, mem_cons_self⟩
    · obtain ⟨s, hs⟩ := ih hmem
      exact ⟨s, mem_cons_of_mem _ hs⟩

lemma exists_structure_of_mem_yields {header : Nat} (h : header ∈ yields ⟨0, 0⟩ structures) :
    ∃ s : Structure, Placed (tableBytes structures) header s.bytes := by
  cases structures with
  | nil => cases h
  | cons first rest =>
    rcases mem_cons.1 (mem_of_mem_dropLast h) with rfl | hmem
    · exact ⟨first, (self (tableBytes (first :: rest))).left⟩
    · obtain ⟨s, hs⟩ := exists_mem_zip_of_mem_starts hmem
      exact ⟨s, placed_of_mem_zip (self _) hs⟩

lemma forIn_find (type : UInt8) {found : List Nat}
    (h : ∀ header ∈ found, (memory[header]?).isSome) (last : Option Nat) :
    forIn (m := Option) found last (fun header _ => do
      if (← memory[header]?) = type then some (.done (some header)) else some (.yield none)) =
      some (if found = [] then last else found.find? fun header => memory[header]? = some type) := by
  induction found generalizing last with
  | nil => rfl
  | cons header found ih =>
    obtain ⟨byte, hbyte⟩ := isSome_iff_exists.1 (h header mem_cons_self)
    rw [forIn_cons, hbyte, if_neg (cons_ne_nil _ _), find?_cons, hbyte]
    by_cases htype : byte = type
    · subst htype
      simp
    · have hrest := ih (fun a ha => h a (mem_cons_of_mem header ha)) none
      simp only [bind_eq_bind, bind_some, some_inj, htype, if_false,
        decide_false]
      refine Eq.trans hrest ?_
      split
      · rename_i hnil
        rw [hnil]
        rfl
      · rfl

/-- The first structure of the type is found, where the last one is never looked at. -/
theorem findHeader_tableBytes (type : UInt8) (structures : List Structure) :
    findHeader type (tableBytes structures) = some ((0 :: starts 0 structures).dropLast.find?
      fun header => (tableBytes structures)[header]? = some type) := by
  have hfuel := lt_succ_of_le (length_le_tableBytes structures)
  rw [findHeader, forHeaders_eq hfuel (self _) (Nat.zero_add _), forIn_find]
  · split
    · rename_i hnil
      rw [show (0 :: starts 0 structures).dropLast = [] from hnil]
      rfl
    · rfl
  · intro header hheader
    obtain ⟨s, hs⟩ := exists_structure_of_mem_yields hheader
    exact isSome_of_eq_some hs.left.head

/-! ## What strings are found -/

lemma stringFrom_eq (hstrings : Strings strings) {string front : Nat}
    (hleft : strings.length ≤ left) (hfirst : 1 ≤ string)
    (h : Placed memory front (terminated strings ++ [0])) (hin : string - 1 < strings.length) :
    stringFrom memory left string front =
      if string < strings.length then some strings[string - 1] else some kInvalidIndex := by
  induction strings generalizing left string front with
  | nil => cases hin
  | cons entry rest ih =>
    obtain ⟨left, rfl⟩ := exists_eq_succ_of_ne_zero (Nat.ne_zero_of_lt hleft)
    obtain ⟨hback, hentry, hrest⟩ := first_string hstrings h
    obtain ⟨byte, hbyte, hlast⟩ := exists_following hstrings.tail hrest
    rw [stringFrom, hback, bind_eq_bind, bind_some, hbyte, bind_eq_bind,
      bind_some, Nat.add_sub_cancel_left, hentry]
    rw [length_cons] at hin hleft
    by_cases hnil : rest = []
    · -- the zero behind the last string ends the search before the string is counted
      subst hnil
      rw [if_pos (hlast.2 rfl), length_singleton, if_neg (Nat.not_lt.2 hfirst)]
    · have hlength := length_pos_of_ne_nil hnil
      rw [if_neg (fun hzero => hnil (hlast.1 hzero))]
      by_cases hone : string = 1
      · subst hone
        rw [length_cons, if_pos (show 1 < rest.length + 1 by omega)]
        rfl
      · have hmore := ih hstrings.tail (le_of_succ_le_succ hleft)
          (show 1 ≤ string - 1 by omega) hrest (by omega)
        obtain ⟨k, rfl⟩ : ∃ k, string = k + 2 := ⟨string - 2, by omega⟩
        rw [if_neg (by omega), hmore]
        simp only [show k + 2 - 1 = k + 1 from rfl, Nat.add_sub_cancel, getElem_cons_succ,
          length_cons, Nat.succ_lt_succ_iff]

lemma getStringEntry_eq (h : Placed memory address s.bytes) {string : UInt8} (hfirst : 1 ≤ string)
    (hin : string.toNat - 1 < s.strings.length) :
    getStringEntry memory address string =
      if string.toNat < s.strings.length then some s.strings[string.toNat - 1]
      else some kInvalidIndex := by
  obtain ⟨hlength, hset⟩ := s.headerLength_eq h
  have hne : s.strings ≠ [] := ne_nil_of_length_pos (Nat.lt_of_le_of_lt (Nat.zero_le _) hin)
  have hone : 1 ≤ string.toNat := le_iff_toNat_le.1 hfirst
  have hzero : string ≠ 0 := by
    rintro rfl
    cases hone
  rw [stringSet, if_neg hne] at hset
  have hle := hset.length_le
  have hcount := length_le_terminated s.strings
  rw [length_append, length_singleton] at hle
  rw [getStringEntry, if_neg hzero, hlength, bind_eq_bind, bind_some]
  exact stringFrom_eq s.strings_ok (by omega) hone hset hin

/-- All strings of a structure are found: there are none, its last one has no number, or it spells
what is returned for an invalid number. -/
def LastFound (s : Structure) : Prop :=
  s.strings = [] ∨ 255 < s.strings.length ∨ s.strings.getLast? = some kInvalidIndex

lemma strings_exact_iff (h : Placed memory address s.bytes) :
    (∀ string : UInt8, 1 ≤ string → ∀ hin : string.toNat - 1 < s.strings.length,
      getStringEntry memory address string = some s.strings[string.toNat - 1]) ↔ LastFound s := by
  constructor
  · intro hall
    by_cases hne : s.strings = []
    · exact .inl hne
    by_cases hmany : 255 < s.strings.length
    · exact .inr (.inl hmany)
    · -- the last string has a number
      have hpos := length_pos_of_ne_nil hne
      have hnumber : (ofNat s.strings.length).toNat = s.strings.length :=
        toNat_ofNat_of_lt' (by simp only [UInt8.size]; omega)
      have hfirst : 1 ≤ ofNat s.strings.length := by
        rw [le_iff_toNat_le, hnumber]
        exact hpos
      have hin : (ofNat s.strings.length).toNat - 1 < s.strings.length := by omega
      have hlast := hall _ hfirst hin
      rw [getStringEntry_eq h hfirst hin, if_neg (by omega), some_inj] at hlast
      refine .inr (.inr ?_)
      rw [getLast?_eq_getElem?, hlast, getElem?_eq_getElem (by omega)]
      simp only [hnumber]
  · intro hlast string hfirst hin
    rw [getStringEntry_eq h hfirst hin]
    have hbyte : string.toNat < 256 := string.toNat_lt
    by_cases hbefore : string.toNat < s.strings.length
    · rw [if_pos hbefore]
    · rw [if_neg hbefore, some_inj]
      rcases hlast with hnil | hmany | hinvalid
      · rw [hnil] at hin
        cases hin
      · omega
      · rw [getLast?_eq_getElem?, getElem?_eq_getElem (by omega), some_inj]
          at hinvalid
        rw [← hinvalid]
        congr 1
        omega

/-- A table decodes exactly if it has one structure at most, and the last string of it is found. -/
theorem decodes_iff_single (structures : List Structure) :
    Decodes structures ↔ structures.length ≤ 1 ∧ ∀ s ∈ structures, LastFound s := by
  have hlengths : (starts 0 structures).length = structures.length := by
    suffices h : ∀ start, (starts start structures).length = structures.length from h 0
    induction structures with
    | nil => exact fun start => rfl
    | cons s rest ih => exact fun start => congrArg succ (ih _)
  constructor
  · rintro ⟨hheaders, hstrings⟩
    refine ⟨(headers_exact_iff structures).1 hheaders, fun s hs => ?_⟩
    obtain ⟨i, hi, rfl⟩ := mem_iff_getElem.1 hs
    have hmem : ((starts 0 structures)[i], structures[i]) ∈
        (starts 0 structures).zip structures := by
      refine mem_iff_getElem.2 ⟨i, by rw [length_zip]; omega, getElem_zip⟩
    exact (strings_exact_iff (placed_of_mem_zip (self _) hmem)).1 (hstrings _ hmem)
  · rintro ⟨hsingle, hlast⟩
    refine ⟨(headers_exact_iff structures).2 hsingle, fun entry hentry => ?_⟩
    have hplaced := placed_of_mem_zip (self _) hentry
    exact (strings_exact_iff hplaced).2 (hlast _ (of_mem_zip hentry).2)

def twoStructures : List Structure :=
  [⟨0, 0, [], [], by decide, by simp, by simp⟩, ⟨1, 1, [], [[65]], by decide, by simp, by simp⟩]

/-- The first header is reported in place of the second one. -/
theorem twoStructures_lost : ¬ Decodes twoStructures := by
  rintro ⟨hheaders, -⟩
  exact absurd hheaders (by decide)

end Smbios
end BezOS

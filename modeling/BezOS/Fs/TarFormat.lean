import Mathlib.Algebra.BigOperators.Group.List.Basic
import Mathlib.Tactic.Ring
import BezOS.Fs.Tar

/-!
# The tar format

What a tar archive is: members of a header, a name, and contents padded to blocks. The checksum of
the format is over unsigned bytes, the numbers are octal digits that fill their field or end in it.
-/

namespace BezOS
namespace Vfs

open List

/-! ## Members -/

/-- A name a member of a path can have. -/
structure LegalName (name : VfsString) : Prop where
  nonempty : name ≠ []
  not_dot : name ≠ [0x2e]
  chars : ∀ c ∈ name, c ≠ 0 ∧ c ≠ 0x2f ∧ c ≠ 0x5c

/-- The text of a path in the archive: some "./" at the front, and a "/" behind a folder. -/
def tarName (dots : Nat) (path : List VfsString) (slash : Bool) : List UInt8 :=
  (replicate dots [0x2e, 0x2f]).flatten ++ [0x2f].intercalate path ++
    if slash then [0x2f] else []

def pathText (path : List VfsString) : VfsString := [kPathSeparator].intercalate path

def octalValue (digits : List UInt8) : Nat :=
  digits.foldl (fun value c => value * 8 + (c.toNat - 0x30)) 0

def isOctal (c : UInt8) : Prop := 0x30 ≤ c ∧ c ≤ 0x37
  deriving Decidable

def typeflags : NodeKind → List UInt8
  | .file => [0, 0x30]
  | .folder => [0x35]

/-- A number in a field: digits, up to the end of the field or to a zero or a space. -/
def OctalField (width : Nat) (text : List UInt8) (value : Nat) : Prop :=
  text.length = width ∧ ∃ digits rest, text = digits ++ rest ∧ (∀ c ∈ digits, isOctal c) ∧
    octalValue digits = value ∧ ∀ c ∈ rest.head?, c = 0 ∨ c = 0x20

namespace TarPosixHeader

structure Widths (h : TarPosixHeader) : Prop where
  name : h.name.length = 100
  mode : h.mode.length = 8
  uid : h.uid.length = 8
  gid : h.gid.length = 8
  size : h.size.length = 12
  mtime : h.mtime.length = 12
  checksum : h.checksum.length = 8
  linkname : h.linkname.length = 100
  magic : h.magic.length = 6
  version : h.version.length = 2
  uname : h.uname.length = 32
  gname : h.gname.length = 32
  devmajor : h.devmajor.length = 8
  devminor : h.devminor.length = 8
  prefixText : h.prefixText.length = 155

variable (h : TarPosixHeader)

def bytesWith (checksum : List UInt8) : List UInt8 :=
  h.name ++ (h.mode ++ (h.uid ++ (h.gid ++ (h.size ++ (h.mtime ++ (checksum ++ (h.typeflag ::
    (h.linkname ++ (h.magic ++ (h.version ++ (h.uname ++ (h.gname ++ (h.devmajor ++ (h.devminor ++
      h.prefixText))))))))))))))

def bytes : List UInt8 := h.bytesWith h.checksum

/-- The bytes the checksum is over: those of the checksum itself are taken as spaces. -/
def summed : List UInt8 := h.bytesWith (replicate 8 0x20)

def tarChecksum : Nat := (h.summed.map UInt8.toNat).sum

end TarPosixHeader

structure TarMember where
  header : TarPosixHeader
  kind : NodeKind
  path : List VfsString
  content : List UInt8

namespace TarMember

variable (m : TarMember)

structure Legal : Prop where
  widths : m.header.Widths
  path_ne : m.path ≠ []
  names : ∀ name ∈ m.path, LegalName name
  name : ∃ dots slash, (slash = true → m.kind = .folder) ∧
    (tarName dots m.path slash).length ≤ 100 ∧
    m.header.name = tarName dots m.path slash ++
      replicate (100 - (tarName dots m.path slash).length) 0
  magic : m.header.magic = TarPosixHeader.kMagic
  type : m.header.typeflag ∈ typeflags m.kind
  size : OctalField 12 m.header.size m.content.length
  checksum : OctalField 8 m.header.checksum m.header.tarChecksum

def bytes : List UInt8 :=
  m.header.bytes ++ (replicate 12 0 ++ (m.content ++
    replicate (roundup m.content.length kTarBlockSize - m.content.length) 0))

/-- What the checks of the code ask for beyond the format: no byte above 127 in what the checksum
is over, and an end of the checksum inside its field. -/
def Plain : Prop :=
  (∀ c ∈ m.header.summed, c < 128) ∧ ∃ c ∈ m.header.checksum, ¬ isOctal c

end TarMember

/-! ## Archives -/

def placedFrom (offset : Nat) : List TarMember → List (TarMember × Nat)
  | [] => []
  | m :: members =>
      (m, offset + kTarBlockSize) :: placedFrom (offset + m.bytes.length) members

structure TarArchive where
  members : List TarMember
  /-- The zero blocks at the end. -/
  trailer : Nat
  legal : ∀ m ∈ members, m.Legal
  distinct : (members.map TarMember.path).Nodup
  parents : ∀ before m after, members = before ++ m :: after →
    ∀ front name rest, m.path = front ++ name :: rest → front ≠ [] →
      ∃ d ∈ before, d.path = front ∧ d.kind = .folder
  fits : ((members.flatMap TarMember.bytes).length + trailer * 512) < 2 ^ 64

namespace TarArchive

variable (a : TarArchive)

def bytes : List UInt8 := a.members.flatMap TarMember.bytes ++ replicate (a.trailer * 512) 0

def media : MemoryBlk := ⟨a.bytes⟩

def placed : List (TarMember × Nat) := placedFrom 0 a.members

def entryOf (item : TarMember × Nat) : VfsString × TarEntry :=
  (pathText item.1.path, ⟨item.1.header, item.2⟩)

end TarArchive

/-! ## Numbers -/

lemma tarNumberFrom_digits {digits : List UInt8} (hdigits : ∀ c ∈ digits, isOctal c)
    (count : Nat) (rest : List UInt8) (value : Nat) :
    tarNumberFrom (digits.length + count) (digits ++ rest) value =
      tarNumberFrom count rest
        (digits.foldl (fun value c => value * 8 + (c.toNat - 0x30)) value) := by
  induction digits generalizing value with
  | nil => rw [length_nil, Nat.zero_add, nil_append, foldl_nil]
  | cons c digits ih =>
    obtain ⟨hlow, hhigh⟩ := hdigits c (mem_cons_self ..)
    have hoctal : ¬ (c < 0x30 ∨ 0x37 < c) := by
      rintro (h | h)
      · exact absurd hlow (UInt8.not_le.2 h)
      · exact absurd hhigh (UInt8.not_le.2 h)
    rw [length_cons, Nat.add_right_comm, cons_append, tarNumberFrom, if_neg hoctal,
      ih fun c hc => hdigits c (mem_cons_of_mem _ hc), foldl_cons]

lemma not_isOctal_of_end {c : UInt8} (h : c = 0 ∨ c = 0x20) : c < 0x30 ∨ 0x37 < c := by
  rcases h with rfl | rfl <;> decide

variable {text : List UInt8}

lemma tarNumber_of_field {width value : Nat} (h : OctalField width text value) (hwidth : width ≤ 12)
    (hend : width = 12 ∨ ∃ c ∈ text, ¬ isOctal c) : tarNumber text = .ok value := by
  obtain ⟨hlength, digits, rest, rfl, hdigits, hvalue, hrest⟩ := h
  rw [length_append] at hlength
  have hcount : 12 = digits.length + (12 - digits.length) := by omega
  rw [tarNumber, hcount, tarNumberFrom_digits hdigits, ← octalValue, hvalue]
  cases rest with
  | nil =>
    rcases hend with hfull | ⟨c, hc, hoctal⟩
    · have hzero : 12 - digits.length = 0 := by
        simp only [length_nil] at hlength
        omega
      rw [hzero, tarNumberFrom]
    · exact absurd (hdigits c (by simpa using hc)) hoctal
  | cons c rest =>
    have hsucc : 12 - digits.length = (12 - digits.length - 1) + 1 := by
      simp only [length_cons] at hlength
      omega
    rw [hsucc, tarNumberFrom, if_pos (not_isOctal_of_end (hrest c rfl))]

lemma tarNumber_of_full (hlength : text.length < 12) (hdigits : ∀ c ∈ text, isOctal c) :
    tarNumber text = .error .badAccess := by
  have hcount : 12 = text.length + ((12 - text.length - 1) + 1) := by omega
  have heq := tarNumberFrom_digits hdigits ((12 - text.length - 1) + 1) [] 0
  rw [append_nil] at heq
  rw [tarNumber, hcount, heq, tarNumberFrom]

/-! ## Headers -/

lemma take_field {field rest : List UInt8} {n : Nat} (h : field.length = n) :
    (field ++ rest).take n = field :=
  take_left' h

lemma drop_field {field rest : List UInt8} {n : Nat} (h : field.length ≤ n) :
    (field ++ rest).drop n = rest.drop (n - field.length) := by
  rw [drop_append, drop_eq_nil_of_le h, nil_append]

namespace TarPosixHeader

variable {h : TarPosixHeader}

lemma Widths.length_bytesWith (hw : h.Widths) {checksum : List UInt8}
    (hlength : checksum.length = 8) : (h.bytesWith checksum).length = 500 := by
  simp [bytesWith, hw.name, hw.mode, hw.uid, hw.gid, hw.size, hw.mtime, hlength, hw.linkname,
    hw.magic, hw.version, hw.uname, hw.gname, hw.devmajor, hw.devminor, hw.prefixText]

lemma Widths.length_bytes (hw : h.Widths) : h.bytes.length = 500 :=
  hw.length_bytesWith hw.checksum

lemma ofBytes_bytes (hw : h.Widths) : ofBytes h.bytes = h := by
  obtain ⟨name, mode, uid, gid, size, mtime, checksum, typeflag, linkname, magic, version, uname,
    gname, devmajor, devminor, prefixText⟩ := h
  obtain ⟨h1, h2, h3, h4, h5, h6, h7, h8, h9, h10, h11, h12, h13, h14, h15⟩ := hw
  simp only at h1 h2 h3 h4 h5 h6 h7 h8 h9 h10 h11 h12 h13 h14 h15
  simp only [ofBytes, bytes, bytesWith, mk.injEq]
  simp (disch := omega) only [take_field, drop_field, h1, h2, h3, h4, h5, h6, h7, h8, h9, h10,
    h11, h12, h13, h14, Nat.reduceSub, drop_zero, drop_succ_cons, headD_cons,
    take_of_length_le, and_self]

lemma sumRange_append (a b : List UInt8) : sumRange (a ++ b) = sumRange a + sumRange b := by
  simp [sumRange]

lemma sumRange_cons (c : UInt8) (a : List UInt8) : sumRange (c :: a) = charValue c + sumRange a := by
  simp [sumRange]

lemma actualChecksum_eq : h.actualChecksum = (sumRange h.summed % 2 ^ 64).toNat := by
  rw [actualChecksum, summed, bytesWith]
  simp only [sumRange_append, sumRange_cons]
  congr 2
  ring

lemma sumRange_eq (bytes : List UInt8) :
    sumRange bytes + 256 * (bytes.countP (128 ≤ ·) : Int) = ((bytes.map UInt8.toNat).sum : Int) := by
  induction bytes with
  | nil => rfl
  | cons c bytes ih =>
    rw [sumRange_cons, map_cons, sum_cons, countP_cons, charValue]
    by_cases hc : c < 128
    · have hnot : ¬ 128 ≤ c := UInt8.not_le.2 hc
      simp only [hc, hnot, if_true, decide_false, Bool.false_eq_true, if_false, Nat.add_zero]
      rw [Nat.cast_add, ← ih]
      ring
    · have hle : 128 ≤ c := UInt8.not_lt.1 hc
      simp only [hc, hle, if_false, decide_true, if_true]
      rw [Nat.cast_add, Nat.cast_add, ← ih, Nat.cast_one]
      ring

lemma sum_toNat_le (bytes : List UInt8) : (bytes.map UInt8.toNat).sum ≤ 255 * bytes.length := by
  induction bytes with
  | nil => exact Nat.le_refl _
  | cons c bytes ih =>
    have hc := c.toNat_lt
    rw [map_cons, sum_cons, length_cons]
    omega

lemma actualChecksum_eq_iff (hw : h.Widths) :
    h.actualChecksum = h.tarChecksum ↔ ∀ c ∈ h.summed, c < 128 := by
  have hlength : h.summed.length = 500 := hw.length_bytesWith (by simp)
  have hsum := sumRange_eq h.summed
  have hbound := sum_toNat_le h.summed
  have hcount : h.summed.countP (128 ≤ ·) ≤ h.summed.length := countP_le_length
  have hzero : h.summed.countP (128 ≤ ·) = 0 ↔ ∀ c ∈ h.summed, c < 128 := by
    simp [countP_eq_zero]
  rw [← hzero, actualChecksum_eq, tarChecksum]
  generalize h.summed.countP (128 ≤ ·) = count at hsum hcount ⊢
  generalize (h.summed.map UInt8.toNat).sum = total at hsum hbound ⊢
  generalize sumRange h.summed = signed at hsum ⊢
  constructor
  · intro heq
    omega
  · rintro rfl
    omega

end TarPosixHeader

lemma checksumPasses_iff {m : TarMember} (hm : m.Legal) :
    checksumPasses {} m.header = .ok true ↔ m.Plain := by
  have hreported : m.header.reportedChecksum = tarNumber m.header.checksum := rfl
  rw [checksumPasses, if_neg (by decide), hreported, TarMember.Plain]
  by_cases hend : ∃ c ∈ m.header.checksum, ¬ isOctal c
  · rw [tarNumber_of_field hm.checksum (by decide) (.inr hend)]
    rw [← TarPosixHeader.actualChecksum_eq_iff hm.widths]
    simp only [bind, Except.bind, pure, Except.pure, Except.ok.injEq, decide_eq_true_eq, hend,
      and_true]
    exact eq_comm
  · have hfull : ∀ c ∈ m.header.checksum, isOctal c := by
      intro c hc
      by_contra hnot
      exact hend ⟨c, hc, hnot⟩
    rw [tarNumber_of_full (by rw [hm.widths.checksum]; decide) hfull]
    simp [bind, Except.bind, hend]

end Vfs
end BezOS

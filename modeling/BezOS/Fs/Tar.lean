import Mathlib.Algebra.BigOperators.Group.List.Defs
import Mathlib.Algebra.Ring.Int.Defs
import BezOS.Fs.BlockDevice
import BezOS.Fs.Vfs

/-!
# Tar archives

`vfs::ParseTar` and the mount of `fs/tarfs.cpp`. Characters are signed bytes: the checksum adds them
as such, and paths are ordered by them.
-/

namespace BezOS
namespace Vfs

/-! ## Headers -/

/-- `TarNumber` over the rest of a field, with the digits that may still be read; the loop does not
look at the length of the field. -/
def tarNumberFrom : Nat → List UInt8 → Nat → Except Fault Nat
  | 0, _, result => .ok result
  | _ + 1, [], _ => .error .badAccess
  | count + 1, c :: text, result =>
      if c < 0x30 ∨ 0x37 < c then .ok result
      else tarNumberFrom count text (result * 8 + (c.toNat - 0x30))

def tarNumber (text : List UInt8) : Except Fault Nat := tarNumberFrom 12 text 0

structure TarPosixHeader where
  name : List UInt8
  mode : List UInt8
  uid : List UInt8
  gid : List UInt8
  size : List UInt8
  mtime : List UInt8
  checksum : List UInt8
  typeflag : UInt8
  linkname : List UInt8
  magic : List UInt8
  version : List UInt8
  uname : List UInt8
  gname : List UInt8
  devmajor : List UInt8
  devminor : List UInt8
  prefixText : List UInt8
  deriving DecidableEq, Inhabited

inductive VfsNodeType
  | none
  | file
  | folder
  | symbolicLink
  deriving DecidableEq

namespace TarPosixHeader

/-- `'u', 's', 't', 'a', 'r', ' '`. -/
def kMagic : List UInt8 := [0x75, 0x73, 0x74, 0x61, 0x72, 0x20]

def kSize : Nat := 500

def ofBytes (bytes : List UInt8) : TarPosixHeader where
  name := bytes.take 100
  mode := (bytes.drop 100).take 8
  uid := (bytes.drop 108).take 8
  gid := (bytes.drop 116).take 8
  size := (bytes.drop 124).take 12
  mtime := (bytes.drop 136).take 12
  checksum := (bytes.drop 148).take 8
  typeflag := (bytes.drop 156).headD 0
  linkname := (bytes.drop 157).take 100
  magic := (bytes.drop 257).take 6
  version := (bytes.drop 263).take 2
  uname := (bytes.drop 265).take 32
  gname := (bytes.drop 297).take 32
  devmajor := (bytes.drop 329).take 8
  devminor := (bytes.drop 337).take 8
  prefixText := (bytes.drop 345).take 155

variable (h : TarPosixHeader)

def getSize : Except Fault Nat := tarNumber h.size

def reportedChecksum : Except Fault Nat := tarNumber h.checksum

def sumRange (range : List UInt8) : Int := (range.map charValue).sum

/-- The sum of all characters, those of the checksum taken as spaces, in 64 bits. -/
def actualChecksum : Nat :=
  ((sumRange h.name + sumRange h.mode + sumRange h.uid + sumRange h.gid + sumRange h.size +
    sumRange h.mtime + sumRange (List.replicate 8 0x20) + charValue h.typeflag +
    sumRange h.linkname + sumRange h.magic + sumRange h.version + sumRange h.uname +
    sumRange h.gname + sumRange h.devmajor + sumRange h.devminor + sumRange h.prefixText) %
      2 ^ 64).toNat

def getType : VfsNodeType :=
  if h.typeflag = 0 ∨ h.typeflag = 0x30 then .file
  else if h.typeflag = 0x31 then .symbolicLink
  else if h.typeflag = 0x35 then .folder
  else .none

end TarPosixHeader

/-! ## Paths -/

def stripDots : VfsString → VfsString
  | a :: b :: rest => if a = 0x2e ∧ b = kPathSeparator then stripDots rest else a :: b :: rest
  | view => view

def kTarNameSize : Nat := 100

def convertTarPath (path : List UInt8) : Except OsStatus VfsString :=
  let text := (path.take kTarNameSize).takeWhile (· ≠ 0)
  let buffer := text.map fun c => if c = 0x2f then kPathSeparator else c
  -- the names of folders end with a separator
  let buffer := if buffer.getLast? = some kPathSeparator then buffer.dropLast else buffer
  let view := stripDots buffer
  if verifyPathText view then .ok view else .error .invalidPath

/-! ## Entries -/

structure TarEntry where
  header : TarPosixHeader
  offset : Nat
  deriving DecidableEq, Inhabited

/-- The entries in the order of their paths. -/
abbrev TarMap := List (VfsString × TarEntry)

/-- `insert`, which leaves an entry that is there. -/
def insertEntry (path : VfsString) (entry : TarEntry) : TarMap → TarMap
  | [] => [(path, entry)]
  | (other, e) :: rest =>
      if textLess path other then (path, entry) :: (other, e) :: rest
      else if path = other then (other, e) :: rest
      else (other, e) :: insertEntry path entry rest

structure TarParseOptions where
  ignoreChecksum : Bool := false

def kTarBlockSize : Nat := 512

def roundup (size block : Nat) : Nat := (size + block - 1) / block * block

def checksumPasses (options : TarParseOptions) (header : TarPosixHeader) : Except Fault Bool :=
  if options.ignoreChecksum then .ok true
  else do
    let reported ← header.reportedChecksum
    pure (reported = header.actualChecksum)

/-- The loop of `ParseTar`, which takes at least a block each time. -/
def parseTarFrom (media : MemoryBlk) (options : TarParseOptions) :
    Nat → Nat → TarMap → Except Fault (OsStatus × TarMap)
  | 0, _, _ => .error .outOfFuel
  | fuel + 1, offset, result =>
      if offset < media.size then do
        let bytes ← BlockDevice.read media offset TarPosixHeader.kSize
        let header := TarPosixHeader.ofBytes bytes
        if bytes.length ≠ TarPosixHeader.kSize then pure (.invalidInput, result)
        else if header.name.head? = some 0 then pure (.success, result)
        else if header.magic ≠ TarPosixHeader.kMagic then pure (.success, result)
        else do
          let passes ← checksumPasses options header
          if ¬ passes then pure (.invalidInput, result)
          else do
            let size ← header.getSize
            let dataOffset := offset + kTarBlockSize
            let next := dataOffset + roundup size kTarBlockSize
            if size + dataOffset > media.size then pure (.invalidInput, result)
            else if header.getType ≠ .file ∧ header.getType ≠ .folder then
              parseTarFrom media options fuel next result
            -- `strncmp(header.name, "./", 3)`
            else if header.name.take 3 = [0x2e, 0x2f, 0] then
              parseTarFrom media options fuel next result
            else match convertTarPath header.name with
              | .error status => pure (status, result)
              | .ok path =>
                  parseTarFrom media options fuel next
                    (insertEntry path ⟨header, dataOffset⟩ result)
      else .ok (.success, result)

def parseTar (media : MemoryBlk) (options : TarParseOptions) : Except Fault (OsStatus × TarMap) :=
  parseTarFrom media options (media.size + 1) 0 []

/-! ## The mount -/

structure TarFsMount where
  mMedia : MemoryBlk
  store : NodeStore TarEntry
  mRootNode : NodeId

namespace TarFsMount

/-- The loop of `walk` over the segments of a parent. -/
def walkFrom (store : NodeStore TarEntry) : NodeId → List VfsString → Except OsStatus NodeId
  | current, [] => .ok current
  | current, segment :: rest => do
      store.openFolder current
      let child ← store.lookup current segment
      walkFrom store child rest

def walk (store : NodeStore TarEntry) (root : NodeId) (path : VfsString) :
    Except OsStatus NodeId :=
  if segmentCount path = 1 then .ok root else walkFrom store root (segments (parent path))

/-- A node for an entry; an entry that has no place is left out. -/
def addEntry (root : NodeId) (store : NodeStore TarEntry) (item : VfsString × TarEntry) :
    NodeStore TarEntry :=
  let (path, entry) := item
  match walk store root path with
  | .error _ => store
  | .ok parent =>
      let kind? : Option NodeKind := match entry.header.getType with
        | .file => some .file
        | .folder => some .folder
        | _ => none
      match kind? with
      | none => store
      | some kind =>
          match store.openFolder parent with
          | .error _ => store
          | .ok () =>
              match store.mknode parent (Vfs.name path) ⟨kind, entry, some parent, [], []⟩ with
              | .error _ => store
              | .ok (_, store) => store

def emptyStore : NodeStore TarEntry := ⟨fun _ => ⟨.folder, default, none, [], []⟩, 1⟩

/-- The constructor: if the archive does not parse, the mount is empty. -/
def create (media : MemoryBlk) : Except Fault TarFsMount := do
  let (status, headers) ← parseTar media {}
  if status ≠ .success then pure ⟨media, emptyStore, 0⟩
  else pure ⟨media, headers.foldl (addEntry 0) emptyStore, 0⟩

/-- `VfsRoot::lookup` from the root of the mount on. -/
def lookup (m : TarFsMount) (path : VfsString) : Except OsStatus NodeId :=
  m.store.lookupFrom m.mRootNode (segments path)

/-- `TarFsFile::read` of a file, into a buffer of the given length. -/
def read (m : TarFsMount) (file : NodeId) (offset length : Nat) :
    Except Fault (OsStatus × List UInt8) := do
  let entry := (m.store.nodes file).data
  let size ← entry.header.getSize
  if offset ≥ size then pure (.endOfFile, [])
  else do
    let toRead := min (size - offset) length
    let bytes ← BlockDevice.read m.mMedia (entry.offset + offset) toRead
    pure (.success, bytes)

end TarFsMount

end Vfs
end BezOS

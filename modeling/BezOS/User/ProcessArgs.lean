import BezOS.Lib.Bytes
import BezOS.Lib.Word
import BezOS.Status

/-!
# Process arguments

The arguments that a process is created with are a buffer of records, each a guid, the size of its
data and the data. `VerifyProcessCreateArgs` of `user/context.cpp` checks the buffer before it is
handed over; `OsProcessFindArg` of `bezos/ext/args.h` walks it in the new process, with no check of
its own.
-/

namespace BezOS

open Lib List

@[ext]
structure OsGuid where
  Octets : List UInt8
  length_octets : Octets.length = 16
  deriving DecidableEq

/-- `sizeof(OsProcessParam)`: the guid and the size, in front of the data. -/
def kProcessParamSize : Nat := 20

def loadBytes (buffer : List UInt8) (offset count : Nat) : Except Fault (List UInt8) :=
  if offset + count ≤ buffer.length then .ok ((buffer.drop offset).take count)
  else .error .badAccess

/-- `param->DataSize`. -/
def paramDataSize (buffer : List UInt8) (param : Nat) : Except Fault Nat := do
  let bytes ← loadBytes buffer (param + 16) 4
  pure (leValue bytes)

/-! ## The check -/

/-- `span::subspan`, up to the end. -/
def subspan (args : List UInt8) (offset : Nat) : Except Fault (List UInt8) :=
  if offset ≤ args.length then .ok (args.drop offset) else .error .badAccess

/-- `VerifySingleArg`: the arguments behind the first. -/
def verifySingleArg (args : List UInt8) : Except Fault (Except OsStatus (List UInt8)) :=
  if args.length < kProcessParamSize then .ok (.error .invalidSpan)
  else do
    let dataSize ← paramDataSize args 0
    if dataSize > args.length - kProcessParamSize then pure (.error .invalidSpan)
    else do
      let args ← subspan args (wrapAdd (2 ^ 64) kProcessParamSize dataSize)
      pure (.ok args)

/-- The loop of `VerifyProcessCreateArgs`. -/
def verifyArgsFrom : Nat → List UInt8 → Except Fault OsStatus
  | 0, _ => .error .outOfFuel
  | fuel + 1, args =>
      if args = [] then .ok .success
      else do
        match ← verifySingleArg args with
        | .error status => pure status
        | .ok args => verifyArgsFrom fuel args

def verifyProcessCreateArgs (args : List UInt8) : Except Fault OsStatus :=
  verifyArgsFrom (args.length + 1) args

/-! ## The reader -/

/-- The arguments in the memory of a process: where they begin, and the buffer. -/
structure OsProcessInfo where
  ArgsBegin : Nat
  args : List UInt8
  fits : ArgsBegin + args.length < 2 ^ 64

namespace OsProcessInfo

variable (info : OsProcessInfo)

def ArgsEnd : Nat := info.ArgsBegin + info.args.length

/-- Memory is read at addresses; only the buffer may be. -/
def load (address count : Nat) : Except Fault (List UInt8) :=
  if address < info.ArgsBegin then .error .badAccess
  else loadBytes info.args (address - info.ArgsBegin) count

/-- The loop of `OsProcessFindArg`. -/
def findArgFrom (guid : OsGuid) : Nat → Nat → Except Fault (OsStatus × Option Nat)
  | 0, _ => .error .outOfFuel
  | fuel + 1, param =>
      if param < info.ArgsEnd then do
        let octets ← info.load param 16
        if octets = guid.Octets then pure (.success, some param)
        else do
          let dataSize ← info.load (param + 16) 4
          findArgFrom guid fuel
            (wrapAdd (2 ^ 64) (wrapAdd (2 ^ 64) param (leValue dataSize)) kProcessParamSize)
      else .ok (.notFound, none)

def findArg (guid : OsGuid) : Except Fault (OsStatus × Option Nat) :=
  if info.ArgsBegin = info.ArgsEnd then .ok (.notFound, none)
  else info.findArgFrom guid (info.args.length + 1) info.ArgsBegin

end OsProcessInfo

/-! ## Records -/

structure ProcessArg where
  guid : OsGuid
  data : List UInt8
  length_lt : data.length < 2 ^ 32

def ProcessArg.bytes (p : ProcessArg) : List UInt8 :=
  p.guid.Octets ++ leBytes 4 p.data.length ++ p.data

def encodeArgs (params : List ProcessArg) : List UInt8 := params.flatMap ProcessArg.bytes

/-- The check ends, reads inside the buffer, and accepts the concatenations of records. -/
def VerifiesExactly (args : List UInt8) : Prop :=
  ∃ status, verifyProcessCreateArgs args = .ok status ∧
    (status = .success ↔ ∃ params, args = encodeArgs params)

/-- Of the records that the buffer is made of, the reader finds the first with the guid; it ends and
reads inside the buffer, as does the data of the record. -/
def OsProcessInfo.FindsFirst (info : OsProcessInfo) (guid : OsGuid) : Prop :=
  ∀ params, info.args = encodeArgs params →
    (info.findArg guid = .ok (.notFound, none) ∧ ∀ p ∈ params, p.guid ≠ guid) ∨
    ∃ before p after, params = before ++ p :: after ∧ (∀ q ∈ before, q.guid ≠ guid) ∧
      p.guid = guid ∧
      info.findArg guid = .ok (.success, some (info.ArgsBegin + (encodeArgs before).length)) ∧
      info.ArgsBegin + (encodeArgs before).length + kProcessParamSize + p.data.length ≤
        info.ArgsEnd

/-! ## One record -/

section Record

variable {p : ProcessArg} {rest args front : List UInt8} {guid : OsGuid} {fuel : Nat}

lemma ProcessArg.length_bytes (p : ProcessArg) :
    p.bytes.length = kProcessParamSize + p.data.length := by
  rw [bytes, length_append, length_append, p.guid.length_octets, length_leBytes]
  rfl

lemma encodeArgs_cons (p : ProcessArg) (params : List ProcessArg) :
    encodeArgs (p :: params) = p.bytes ++ encodeArgs params := flatMap_cons

lemma length_encodeArgs_concat (before : List ProcessArg) (p : ProcessArg) :
    (encodeArgs (before ++ [p])).length = (encodeArgs before).length + p.bytes.length := by
  simp [encodeArgs]

lemma loadBytes_append {middle : List UInt8} {offset count : Nat} (hoffset : offset = front.length)
    (hcount : count = middle.length) :
    loadBytes (front ++ (middle ++ rest)) offset count = .ok middle := by
  subst hoffset hcount
  rw [loadBytes, if_pos (by simp only [length_append]; omega), drop_left, take_left]

lemma load_dataSize (front : List UInt8) (p : ProcessArg) (rest : List UInt8) :
    loadBytes (front ++ (p.bytes ++ rest)) (front.length + 16) 4 =
      .ok (leBytes 4 p.data.length) := by
  rw [ProcessArg.bytes, append_assoc, append_assoc, ← append_assoc]
  refine loadBytes_append ?_ (length_leBytes ..).symm
  rw [length_append, p.guid.length_octets]

lemma dataSize_value (p : ProcessArg) : leValue (leBytes 4 p.data.length) = p.data.length :=
  leValue_leBytes (lt_of_lt_of_eq p.length_lt (by decide))

lemma verifySingleArg_record (p : ProcessArg) (rest : List UInt8) :
    verifySingleArg (p.bytes ++ rest) = .ok (.ok rest) := by
  have hlength := p.length_bytes
  have hlt := p.length_lt
  have htotal : (p.bytes ++ rest).length = kProcessParamSize + p.data.length + rest.length := by
    rw [length_append, hlength]
  have hsize : paramDataSize (p.bytes ++ rest) 0 = .ok p.data.length := by
    have hload := load_dataSize [] p rest
    rw [nil_append, length_nil] at hload
    rw [paramDataSize, hload]
    exact congrArg Except.ok (dataSize_value p)
  have hwrap : wrapAdd (2 ^ 64) kProcessParamSize p.data.length = p.bytes.length := by
    rw [hlength]
    exact wrapAdd_of_lt (by rw [kProcessParamSize]; omega)
  rw [verifySingleArg, if_neg (by omega), hsize]
  simp only [bind, Except.bind, hwrap]
  rw [if_neg (by omega), subspan, if_pos (by omega), drop_left]
  rfl

lemma exists_record (h : verifySingleArg args = .ok (.ok rest)) :
    ∃ p : ProcessArg, args = p.bytes ++ rest := by
  rw [verifySingleArg] at h
  split at h
  · cases h
  rename_i hheader
  rw [kProcessParamSize, Nat.not_lt] at hheader
  have hload : paramDataSize args 0 = .ok (leValue ((args.drop 16).take 4)) := by
    rw [paramDataSize, loadBytes, if_pos (by omega)]
    rfl
  have hfield : ((args.drop 16).take 4).length = 4 := by
    rw [length_take, length_drop]
    omega
  have hvalue : leValue ((args.drop 16).take 4) < 2 ^ 32 := by
    have hlt := leValue_lt ((args.drop 16).take 4)
    rw [hfield] at hlt
    exact lt_of_lt_of_eq hlt (by decide)
  have hbytes := leBytes_leValue ((args.drop 16).take 4)
  rw [hfield] at hbytes
  rw [hload] at h
  simp only [bind, Except.bind] at h
  generalize leValue ((args.drop 16).take 4) = dataSize at h hvalue hbytes
  rw [wrapAdd_of_lt (by rw [kProcessParamSize]; omega)] at h
  split at h
  · cases h
  rename_i hdata
  rw [kProcessParamSize, Nat.not_lt] at hdata
  rw [subspan, kProcessParamSize, if_pos (by omega)] at h
  cases h
  have hlength : ((args.drop 20).take dataSize).length = dataSize := by
    rw [length_take, length_drop]
    omega
  refine ⟨⟨⟨args.take 16, by rw [length_take]; omega⟩, (args.drop 20).take dataSize,
    hlength.symm ▸ hvalue⟩, ?_⟩
  have hcut : ∀ front count : Nat, args.drop front =
      (args.drop front).take count ++ args.drop (front + count) := by
    intro front count
    rw [← drop_drop, take_append_drop]
  rw [ProcessArg.bytes]
  simp only [hlength, hbytes, append_assoc]
  rw [← hcut, ← hcut 16 4, take_append_drop]

lemma verifySingleArg_cases (args : List UInt8) :
    verifySingleArg args = .ok (.error .invalidSpan) ∨
      ∃ rest, verifySingleArg args = .ok (.ok rest) := by
  rw [verifySingleArg]
  split
  · exact .inl rfl
  rename_i hheader
  rw [kProcessParamSize, Nat.not_lt] at hheader
  have hload : ∃ size, paramDataSize args 0 = .ok size ∧ size < 2 ^ 32 := by
    have hlt := leValue_lt ((args.drop 16).take 4)
    rw [length_take, length_drop, Nat.min_eq_left (by omega)] at hlt
    refine ⟨leValue ((args.drop 16).take 4), ?_, lt_of_lt_of_eq hlt (by decide)⟩
    rw [paramDataSize, loadBytes, if_pos (by omega)]
    rfl
  obtain ⟨size, hsize, hlt⟩ := hload
  have hwrap : wrapAdd (2 ^ 64) kProcessParamSize size = kProcessParamSize + size :=
    wrapAdd_of_lt (by rw [kProcessParamSize]; omega)
  simp only [hsize, bind, Except.bind, hwrap]
  split
  · exact .inl rfl
  rename_i hdata
  rw [kProcessParamSize, Nat.not_lt] at hdata
  rw [subspan, kProcessParamSize, if_pos (by omega)]
  exact .inr ⟨_, rfl⟩

end Record

/-! ## All records -/

lemma verifyArgsFrom_spec {fuel : Nat} {args : List UInt8} (hfuel : args.length < fuel) :
    ∃ status, verifyArgsFrom fuel args = .ok status ∧
      (status = .success ↔ ∃ params, args = encodeArgs params) := by
  induction fuel generalizing args with
  | zero => exact absurd hfuel (Nat.not_lt_zero _)
  | succ fuel ih =>
    rw [verifyArgsFrom]
    by_cases hempty : args = []
    · exact ⟨.success, if_pos hempty, fun _ => ⟨[], hempty⟩, fun _ => rfl⟩
    rw [if_neg hempty]
    rcases verifySingleArg_cases args with hrefused | ⟨rest, haccepted⟩
    · refine ⟨.invalidSpan, by rw [hrefused]; rfl, fun h => OsStatus.noConfusion h, ?_⟩
      rintro ⟨params, rfl⟩
      cases params with
      | nil => exact absurd rfl hempty
      | cons p params =>
        rw [encodeArgs_cons, verifySingleArg_record] at hrefused
        cases hrefused
    · obtain ⟨p, rfl⟩ := exists_record haccepted
      have hlength := p.length_bytes
      rw [kProcessParamSize] at hlength
      rw [length_append] at hfuel
      obtain ⟨status, hloop, hiff⟩ := @ih rest (by omega)
      refine ⟨status, by rw [haccepted]; exact hloop, hiff.trans ⟨?_, ?_⟩⟩
      · rintro ⟨params, rfl⟩
        exact ⟨p :: params, (encodeArgs_cons p params).symm⟩
      · rintro ⟨params, hparams⟩
        cases params with
        | nil => exact absurd hparams hempty
        | cons q params =>
          rw [encodeArgs_cons] at hparams
          rw [hparams, verifySingleArg_record] at haccepted
          cases haccepted
          exact ⟨params, rfl⟩

namespace OsProcessInfo

variable {info : OsProcessInfo} {guid : OsGuid}

lemma load_inside {front middle rest : List UInt8} {address count : Nat}
    (hargs : info.args = front ++ (middle ++ rest)) (haddress : address = info.ArgsBegin + front.length)
    (hcount : count = middle.length) : info.load address count = .ok middle := by
  rw [load, if_neg (by omega), hargs, haddress]
  exact loadBytes_append (Nat.add_sub_cancel_left ..) hcount

lemma findArgFrom_spec {before after : List ProcessArg} {fuel : Nat}
    (hargs : info.args = encodeArgs (before ++ after)) (hbefore : ∀ q ∈ before, q.guid ≠ guid)
    (hfuel : (encodeArgs after).length < fuel) :
    (info.findArgFrom guid fuel (info.ArgsBegin + (encodeArgs before).length) =
        .ok (.notFound, none) ∧ ∀ p ∈ before ++ after, p.guid ≠ guid) ∨
    ∃ front p back, before ++ after = front ++ p :: back ∧ (∀ q ∈ front, q.guid ≠ guid) ∧
      p.guid = guid ∧
      info.findArgFrom guid fuel (info.ArgsBegin + (encodeArgs before).length) =
        .ok (.success, some (info.ArgsBegin + (encodeArgs front).length)) := by
  induction after generalizing before fuel with
  | nil =>
    cases fuel with
    | zero => exact absurd hfuel (Nat.not_lt_zero _)
    | succ fuel =>
      rw [append_nil] at hargs
      refine .inl ⟨?_, by rwa [append_nil]⟩
      rw [findArgFrom, if_neg (by rw [ArgsEnd, hargs]; exact Nat.lt_irrefl _)]
  | cons p after ih =>
    have hend := info.fits
    have hlength := p.length_bytes
    rw [kProcessParamSize] at hlength
    have hsplit : info.args = encodeArgs before ++ (p.bytes ++ encodeArgs after) := by
      rw [hargs, encodeArgs, flatMap_append, flatMap_cons]
      rfl
    have htotal : info.args.length =
        (encodeArgs before).length + (p.bytes.length + (encodeArgs after).length) := by
      rw [hsplit, length_append, length_append]
    cases fuel with
    | zero => exact absurd hfuel (Nat.not_lt_zero _)
    | succ fuel =>
      have hinside : info.ArgsBegin + (encodeArgs before).length < info.ArgsEnd := by
        rw [ArgsEnd]
        omega
      have hguid : info.load (info.ArgsBegin + (encodeArgs before).length) 16 =
          .ok p.guid.Octets := by
        refine @load_inside info (encodeArgs before) p.guid.Octets
          (leBytes 4 p.data.length ++ p.data ++ encodeArgs after) _ _ ?_ rfl
          p.guid.length_octets.symm
        rw [hsplit, ProcessArg.bytes]
        simp
      have hsize : info.load (info.ArgsBegin + (encodeArgs before).length + 16) 4 =
          .ok (leBytes 4 p.data.length) := by
        refine @load_inside info (encodeArgs before ++ p.guid.Octets) (leBytes 4 p.data.length)
          (p.data ++ encodeArgs after) _ _ ?_ ?_ (length_leBytes ..).symm
        · rw [hsplit, ProcessArg.bytes]
          simp
        · rw [length_append, p.guid.length_octets, Nat.add_assoc]
      rw [findArgFrom, if_pos hinside, hguid]
      simp only [bind, Except.bind]
      by_cases heq : p.guid = guid
      · refine .inr ⟨before, p, after, rfl, hbefore, heq, ?_⟩
        rw [if_pos (congrArg OsGuid.Octets heq)]
        rfl
      · have hne : p.guid.Octets ≠ guid.Octets := fun hoctets => heq (OsGuid.ext hoctets)
        have hnext : wrapAdd (2 ^ 64) (wrapAdd (2 ^ 64)
            (info.ArgsBegin + (encodeArgs before).length) p.data.length) kProcessParamSize =
            info.ArgsBegin + (encodeArgs (before ++ [p])).length := by
          have hdata : wrapAdd (2 ^ 64) (info.ArgsBegin + (encodeArgs before).length)
              p.data.length = info.ArgsBegin + (encodeArgs before).length + p.data.length :=
            wrapAdd_of_lt (by omega)
          rw [kProcessParamSize, hdata, wrapAdd_of_lt (by omega), length_encodeArgs_concat]
          omega
        rw [if_neg hne, hsize]
        simp only [dataSize_value, hnext]
        have hmore : ∀ q ∈ before ++ [p], q.guid ≠ guid := by
          intro q hq
          rcases mem_append.1 hq with hq | hq
          · exact hbefore q hq
          · rwa [mem_singleton.1 hq]
        have happend : before ++ p :: after = (before ++ [p]) ++ after := by
          rw [append_assoc, singleton_append]
        rw [encodeArgs_cons, length_append] at hfuel
        rw [happend] at hargs ⊢
        exact ih hargs hmore (by omega)

lemma findsFirst (info : OsProcessInfo) (guid : OsGuid) : info.FindsFirst guid := by
  intro params hparams
  rw [findArg]
  by_cases hempty : info.ArgsBegin = info.ArgsEnd
  · rw [if_pos hempty]
    cases params with
    | nil => exact .inl ⟨rfl, fun p hp => by cases hp⟩
    | cons p params =>
      have hlength := p.length_bytes
      rw [ArgsEnd, hparams, encodeArgs_cons, length_append, hlength, kProcessParamSize]
        at hempty
      omega
  rw [if_neg hempty]
  have hrun := @findArgFrom_spec info guid [] params (info.args.length + 1) hparams
    (fun q hq => by cases hq) (by rw [hparams]; exact Nat.lt_succ_self _)
  rcases hrun with ⟨hnone, hall⟩ | ⟨before, p, after, hsplit, hbefore, hguid, hfound⟩
  · exact .inl ⟨hnone, hall⟩
  · refine .inr ⟨before, p, after, hsplit, hbefore, hguid, hfound, ?_⟩
    have hlength := p.length_bytes
    have htotal : (encodeArgs params).length =
        (encodeArgs before).length + (p.bytes.length + (encodeArgs after).length) := by
      rw [show params = before ++ p :: after from hsplit]
      simp [encodeArgs]
    rw [ArgsEnd, hparams]
    omega

end OsProcessInfo

/-- The check accepts the concatenations of records, and in any buffer it accepts the reader finds
the first record with the guid it is asked for. -/
theorem verify_find_agree :
    (∀ args, VerifiesExactly args) ∧
      ∀ (info : OsProcessInfo) (guid : OsGuid), verifyProcessCreateArgs info.args = .ok .success →
        (∃ params, info.args = encodeArgs params) ∧ info.FindsFirst guid := by
  have hverify : ∀ args, VerifiesExactly args := fun args => verifyArgsFrom_spec (Nat.lt_succ_self _)
  refine ⟨hverify, fun info guid haccepted => ⟨?_, info.findsFirst guid⟩⟩
  obtain ⟨status, hstatus, hiff⟩ := hverify info.args
  rw [haccepted] at hstatus
  cases hstatus
  exact hiff.1 rfl

end BezOS

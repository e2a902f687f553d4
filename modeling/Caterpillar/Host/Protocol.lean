/-
  The host's side of the wire format (scripts/protocol.py), against the firmware's.

  1. The codecs, each with the format strings of the source; values are Python's integers, and a codec
     raises what Python raises.
  2. What the fields of a packet are to say of the device (`statusOf` and its like).
  3. One lemma for each packet: its stores tile it, its format has the fields stored, so it decodes to
     their values.  Lists of sessions and runs of records go by induction.
  4. `Request` — what a host asks for by a write; `serve` is the handler once it has the values.
  5. `codecs_agree`.
-/
import Caterpillar.Ble.Packets

namespace Caterpillar.Host

open Caterpillar.Word Caterpillar.Bytes Caterpillar.Drivers Caterpillar.Imu Caterpillar.ImuLog
open Caterpillar.App Caterpillar.Ble.Writes Caterpillar.Ble.Packets
open Caterpillar.App.Advertising (appVersion)
open Caterpillar.Ble.Sfifo (Packet)
open Caterpillar.Ble.Dump (DumpChunk)

/-! ## The codecs -/

/-- What a codec raises. -/
inductive PyError where
  /-- `struct.error`. -/
  | struct
  /-- `ValueError`, from `bytes` or from unpacking a tuple. -/
  | value
  | index
  /-- The `ValueError` of `decode_status`, with the version and the length its text names. -/
  | unsupported (version : UInt8) (len : Nat)
  deriving DecidableEq

/-- `struct.pack`. -/
def structPack (f : List (Nat × Code)) (vs : List Int) : Except PyError (List UInt8) :=
  match pack (codes f) vs with
  | some bs => .ok bs
  | none => .error .struct

/-- `struct.unpack_from`. -/
def structUnpackFrom (f : List (Nat × Code)) (data : List UInt8) (k : Nat) :
    Except PyError (List Int) :=
  match unpackFrom (codes f) data k with
  | some vs => .ok vs
  | none => .error .struct

/-- `bytes`, of a list of integers. -/
def pyBytes (vs : List Int) : Except PyError (List UInt8) :=
  match pack (List.replicate vs.length .B) vs with
  | some bs => .ok bs
  | none => .error .value

/-- `bool`. -/
def pyBool (v : Int) : Bool := v != 0

/-- `encode_freq`. -/
def encodeFreq (hz : Int) : Except PyError (List UInt8) := structPack [(1, .H)] [hz]

/-- `encode_volt_mv`. -/
def encodeVoltMv (mv : Int) : Except PyError (List UInt8) := structPack [(1, .H)] [mv]

/-- `encode_imu_cfg`. -/
def encodeImuCfg (odrCode content accelFs gyroFs previewHz : Int) : Except PyError (List UInt8) := do
  let head ← pyBytes [odrCode, content, accelFs, gyroFs]
  let tail ← structPack [(1, .H)] [previewHz]
  return head ++ tail

/-- `encode_log_cmd`. -/
def encodeLogCmd (cmd policy : Int) : Except PyError (List UInt8) := pyBytes [cmd, policy]

/-- `encode_dump_req`. -/
def encodeDumpReq (session offset length : Int) : Except PyError (List UInt8) :=
  structPack [(3, .I)] [session, offset, length]

/-- `encode_time`. -/
def encodeTime (epoch : Int) : Except PyError (List UInt8) := structPack [(1, .I)] [epoch]

/-- `Status`. -/
structure Status where
  fw : Int × Int × Int
  flprFw : Option (Int × Int × Int)
  freqHz : Int
  duty1 : Int
  duty2 : Int
  vdcTargetMv : Int
  vdcMeasMv : Int
  railOn : Bool
  drvAwake : Bool
  imuOk : Bool
  ledOn : Bool
  uptimeS : Int
  resetCause : Int
  odrCode : Int
  content : Int
  logActive : Bool
  logPolicy : Int
  logBytes : Int
  logCapacity : Int
  overruns : Int
  deriving DecidableEq

/-- `decode_status`. -/
def decodeStatus (data : List UInt8) : Except PyError Status :=
  if data.length < 44 ∨ data.getD 0 0 ≠ 3 then
    -- the text of the error names `data[0]`
    match data with
    | [] => .error .index
    | v :: _ => .error (.unsupported v data.length)
  else do
    let first ← structUnpackFrom [(4, .B), (1, .H), (2, .B), (2, .H), (4, .B), (3, .I)] data 0
    let second ← structUnpackFrom [(4, .B), (3, .I)] data 28
    match first, second with
    | [_, maj, mi, pa, freq, d1, d2, tgt, meas, rail, drv, imu, led, uptime, cause, flpr],
      [odr, content, logOn, logPol, logBytes, logCap, overruns] =>
        let v := flpr.toNat
        let flprFw : Option (Int × Int × Int) :=
          if flpr ≠ 0 then
            some ((v >>> 16 &&& 0xFF : Nat), (v >>> 8 &&& 0xFF : Nat), (v &&& 0xFF : Nat))
          else none
        return {
          fw := (maj, mi, pa), flprFw, freqHz := freq, duty1 := d1, duty2 := d2
          vdcTargetMv := tgt, vdcMeasMv := meas, railOn := pyBool rail, drvAwake := pyBool drv
          imuOk := pyBool imu, ledOn := pyBool led, uptimeS := uptime, resetCause := cause
          odrCode := odr, content, logActive := pyBool logOn, logPolicy := logPol, logBytes
          logCapacity := logCap, overruns }
    | _, _ => .error .value

/-- `ImuCfg`. -/
structure ImuCfg where
  odrCode : Int
  content : Int
  accelFs : Int
  gyroFs : Int
  applied : Bool
  status : Int
  decim : Int
  overruns : Int
  deriving DecidableEq

/-- `struct.unpack("<b", bytes([v]))[0]`. -/
def signedByte (v : Int) : Except PyError Int := do
  let bs ← pyBytes [v]
  let vs ← structUnpackFrom [(1, .b)] bs 0
  match vs with
  | v :: _ => return v
  | [] => .error .index

/-- `decode_imu_cfg`. -/
def decodeImuCfg (data : List UInt8) : Except PyError ImuCfg := do
  let first ← structUnpackFrom [(8, .B)] data 0
  let second ← structUnpackFrom [(1, .I)] data 8
  match first, second with
  | [odr, content, afs, gfs, applied, st, decim, _], [ovr] => do
      let status ← signedByte st
      return {
        odrCode := odr, content, accelFs := afs, gyroFs := gfs, applied := pyBool applied
        status, decim, overruns := ovr }
  | _, _ => .error .value

/-- `LogState`. -/
structure LogState where
  active : Bool
  policy : Int
  bytesStored : Int
  capacity : Int
  recordsTotal : Int
  overruns : Int
  deriving DecidableEq

/-- `decode_log_state`. -/
def decodeLogState (data : List UInt8) : Except PyError LogState := do
  let first ← structUnpackFrom [(4, .B)] data 0
  let second ← structUnpackFrom [(4, .I)] data 4
  match first, second with
  | [active, policy, _, _], [bytesStored, capacity, recordsTotal, overruns] =>
      return { active := pyBool active, policy, bytesStored, capacity, recordsTotal, overruns }
  | _, _ => .error .value

/-- `StreamPacket`. -/
structure StreamPacket where
  decim : Int
  dropped : Int
  samples : List UInt8
  deriving DecidableEq

/-- `RECORD_SIZE`. -/
def recordSize : Nat := 16

/-- `decode_stream_packet`. -/
def decodeStreamPacket (data : List UInt8) : Except PyError StreamPacket := do
  let first ← structUnpackFrom [(4, .B)] data 0
  let second ← structUnpackFrom [(1, .I)] data 4
  match first, second with
  | [n, decim, _, _], [dropped] =>
      return { decim, dropped, samples := (data.drop 8).take (n.toNat * recordSize) }
  | _, _ => .error .value

/-- `decode_dump_chunk`. -/
def decodeDumpChunk (data : List UInt8) : Except PyError DumpChunk := do
  match ← structUnpackFrom [(1, .I), (1, .H), (2, .B)] data 0 with
  | [offset, n, last, _] =>
      return { offset := offset.toNat, data := (data.drop 8).take n.toNat, last := pyBool last }
  | _ => .error .value

/-- `Session`. -/
structure Session where
  seq : Int
  wallStart : Int
  recCount : Int
  odrCode : Int
  content : Int
  accelFs : Int
  gyroFs : Int
  deriving DecidableEq

/-- One iteration of the loop of `decode_sessions`. -/
def decodeSession (data : List UInt8) (i : Nat) : Except PyError Session := do
  let first ← structUnpackFrom [(3, .I)] data (4 + i * 16)
  let second ← structUnpackFrom [(4, .B)] data (16 + i * 16)
  match first, second with
  | [seq, wallStart, recCount], [odrCode, content, accelFs, gyroFs] =>
      return { seq, wallStart, recCount, odrCode, content, accelFs, gyroFs }
  | _, _ => .error .value

/-- `decode_sessions`. -/
def decodeSessions (data : List UInt8) : Except PyError (List Session) :=
  match data with
  | [] => .error .index
  | n :: _ => (List.range n.toNat).mapM (decodeSession data)

/-- `unpack_records`: a tuple `(ax, ay, az, gx, gy, gz, temp_raw, seq16)` for each whole record. -/
def unpackRecords (raw : List UInt8) : Except PyError (List (List Int)) :=
  -- `range(0, len(raw) - RECORD_SIZE + 1, RECORD_SIZE)`
  (List.range ((raw.length + 1 - recordSize + (recordSize - 1)) / recordSize)).mapM fun i =>
    structUnpackFrom [(7, .h), (1, .H)] raw (i * recordSize)

/-! ## Formats and fields -/

theorem structPack_fields {f : List (Nat × Code)} (fs : List Field)
    (hf : codes f = fs.map Field.code) :
    structPack f (fs.map Field.value) = .ok (fs.flatMap Field.bytes) := by
  rw [structPack, hf, pack_fields]

theorem structUnpackFrom_fields {f : List (Nat × Code)} {data : List UInt8} {k : Nat}
    (fs : List Field) (pre post : List UInt8) (hf : codes f = fs.map Field.code)
    (hdata : data = pre ++ (fs.flatMap Field.bytes ++ post)) (hk : pre.length = k) :
    structUnpackFrom f data k = .ok (fs.map Field.value) := by
  rw [structUnpackFrom, hf, hdata, unpack_fields fs post hk]

/-- Any run of the fields stored can be unpacked where it stands. -/
theorem unpack_slice {f : List (Nat × Code)} {ws : List (Nat × Field)} {k n : Nat} (s : Buffer)
    (ht : Tiles 0 ws) (hn : calcsize (formatOf ws) = n) (fs gs hs : List Field)
    (hws : ws.map Prod.snd = fs ++ (gs ++ hs)) (hk : calcsize (fs.map Field.code) = k)
    (hf : codes f = gs.map Field.code) :
    structUnpackFrom f ((s.stores ws).slice 0 n) k = .ok (gs.map Field.value) := by
  have himage : (s.stores ws).slice 0 n = fs.flatMap Field.bytes ++
      (gs.flatMap Field.bytes ++ hs.flatMap Field.bytes) := by
    rw [slice_stores s ht hn, imageOf_eq, hws, List.flatMap_append, List.flatMap_append]
  exact structUnpackFrom_fields gs _ _ hf himage ((fields_length fs).trans hk)

theorem pyBytes_fields (xs : List UInt8) : pyBytes (xs.map fun x => (x.toNat : Int)) = .ok xs := by
  have hpack := pack_fields (xs.map Field.u8)
  have hcodes : (xs.map Field.u8).map Field.code = List.replicate xs.length Code.B := by
    rw [List.map_map]
    exact List.map_const'
  have hvalues : (xs.map Field.u8).map Field.value = xs.map fun x => (x.toNat : Int) := by
    rw [List.map_map]
    rfl
  have hbytes : (xs.map Field.u8).flatMap Field.bytes = xs := by
    rw [List.flatMap_map]
    exact List.flatMap_singleton' xs
  rw [hcodes, hvalues, hbytes] at hpack
  rw [pyBytes, List.length_map, hpack]

theorem signedByte_toInt (x : Int8) : signedByte (x.toUInt8.toNat : Int) = .ok x.toInt := by
  have hbytes : pyBytes [(x.toUInt8.toNat : Int)] = .ok [x.toUInt8] := pyBytes_fields [x.toUInt8]
  have hread : structUnpackFrom [(1, .b)] [x.toUInt8] 0 = .ok [x.toInt] :=
    structUnpackFrom_fields [.i8 x] [] [] rfl rfl rfl
  simp only [signedByte, hbytes, bind, Except.bind, hread]
  rfl

@[simp] theorem pyBool_flag (c : Bool) : pyBool ((flag c).toNat : Int) = c := by
  cases c <;> rfl

/-! ## What the packets say -/

/-- The version of the coprocessor's image; none before it has booted, and 0.0.0 counts as none. -/
def flprFwOf (r : Robot) : Option (Int × Int × Int) :=
  if r.flprBooted ∧ ¬ (r.flpr.major = 0 ∧ r.flpr.minor = 0 ∧ r.flpr.patch = 0) then
    some (r.flpr.major.toNat, r.flpr.minor.toNat, r.flpr.patch.toNat)
  else none

/-- The status of a device. -/
def statusOf (r : Robot) : Status :=
  let p := r.peripheral
  let b := p.board
  { fw := (1, 5, 1)
    flprFw := flprFwOf r
    freqHz := (drvPwmGetFrequency p.motor.pwm).toNat
    duty1 := (drvPwmGetDuty p.motor.pwm 0).toNat
    duty2 := (drvPwmGetDuty p.motor.pwm 1).toNat
    vdcTargetMv := r.targetMv.toNat
    vdcMeasMv := max 0 (min (r.vdcMv.getD 0) 65535)
    railOn := p.motor.railOn
    drvAwake := p.motor.drvAwake
    imuOk := r.flprBooted && r.flpr.imuOk != 0
    ledOn := p.motor.led.ledEnabled
    uptimeS := u32 (b.uptime / 1000)
    resetCause := r.appResetCause.toNat
    odrCode := b.sh.cfgOdr.toNat
    content := b.sh.cfgContent.toNat
    logActive := imuLogActive b.log
    logPolicy := if imuLogDetached b.log then 3 else 1
    logBytes := imuLogBytesStored b.log
    logCapacity := imuLogCapacityBytes
    overruns := (imuPumpOverrun r).toNat }

/-- The sampling configuration of a device. -/
def imuCfgOf (r : Robot) : ImuCfg :=
  let sh := r.peripheral.board.sh
  { odrCode := sh.cfgOdr.toNat
    content := sh.cfgContent.toNat
    accelFs := sh.cfgAccelFs.toNat
    gyroFs := sh.cfgGyroFs.toNat
    applied := r.flpr.cfgApplied == sh.cfgSeq
    status := max (-128) (min r.flpr.cfgStatus 0)
    decim := r.peripheral.board.stream.streamDecim.toNat
    overruns := r.flpr.overrun.toNat }

/-- The state of a device's log. -/
def logStateOf (r : Robot) : LogState :=
  let log := r.peripheral.board.log
  { active := imuLogActive log
    policy := 1
    bytesStored := imuLogBytesStored log
    capacity := imuLogCapacityBytes
    recordsTotal := u32 (imuLogRecordsTotal log)
    overruns := (imuPumpOverrun r).toNat }

/-- A session of the directory. -/
def sessionOf (x : ImuLogSession) : Session where
  seq := u32 x.seq
  wallStart := u32 x.wallStart
  recCount := u32 x.recCount
  odrCode := x.odrCode.toNat
  content := x.content.toNat
  accelFs := x.accelFs.toNat
  gyroFs := x.gyroFs.toNat

/-- The tuple of a record. -/
def tupleOf (x : ImuSample) : List Int :=
  [x.ax.toInt, x.ay.toInt, x.az.toInt, x.gx.toInt, x.gy.toInt, x.gz.toInt, x.tempRaw.toInt,
    x.seq16.toNat]

/-! ## The read handlers -/

theorem clamp_eq (v : Int) {low high : Int} (h : low ≤ high) :
    clamp v low high = max low (min v high) := by
  unfold clamp
  split <;> omega

theorem imuLogBytesStored_lt (s : Log) : imuLogBytesStored s < 4294967296 := by
  have hcap := recCapacity_eq
  have hle := Nat.min_le_right s.curCount recCapacity
  unfold imuLogBytesStored recSize
  omega

/-- **0xFFEA.** -/
theorem logctl_agrees (r : Robot) (s : Buffer) :
    decodeLogState (onLogctlRead r s) = .ok (logStateOf r) := by
  let log := r.peripheral.board.log
  let head : List Field := [.u8 (flag (imuLogActive log)), .u8 imuLogPolicy, .u8 0, .u8 0]
  let words : List Field := [.u32 (UInt32.ofNat (imuLogBytesStored log)),
    .u32 (UInt32.ofNat imuLogCapacityBytes), .u32 (UInt32.ofNat (imuLogRecordsTotal log)),
    .u32 (imuPumpOverrun r)]
  have htile : Tiles 0 (logctlStores r) := by simp [logctlStores, Tiles, Field.code, Code.size]
  have hfirst : structUnpackFrom [(4, .B)] (onLogctlRead r s) 0 = .ok (head.map Field.value) :=
    unpack_slice s htile rfl [] head words rfl rfl rfl
  have hsecond : structUnpackFrom [(4, .I)] (onLogctlRead r s) 4 = .ok (words.map Field.value) :=
    unpack_slice s htile rfl head words [] rfl rfl rfl
  have hstored : (UInt32.ofNat (imuLogBytesStored log)).toNat = imuLogBytesStored log :=
    Nat.mod_eq_of_lt (imuLogBytesStored_lt log)
  have hactive : pyBool ((flag (imuLogActive log)).toNat : Int) = imuLogActive log := pyBool_flag _
  have hok : decodeLogState (onLogctlRead r s) = .ok
      { active := pyBool ((flag (imuLogActive log)).toNat : Int)
        policy := imuLogPolicy.toNat
        bytesStored := (UInt32.ofNat (imuLogBytesStored log)).toNat
        capacity := (UInt32.ofNat imuLogCapacityBytes).toNat
        recordsTotal := (UInt32.ofNat (imuLogRecordsTotal log)).toNat
        overruns := (imuPumpOverrun r).toNat } := by
    rw [decodeLogState, hfirst, hsecond]
    rfl
  rw [hok, hstored, hactive]
  rfl

/-- `flpr_version` is `0x00MMmmpp`. -/
theorem flprVersion_bytes (f : Flpr) :
    (f.flprVersion >>> 16).toUInt8 = f.major ∧ (f.flprVersion >>> 8).toUInt8 = f.minor ∧
      f.flprVersion.toUInt8 = f.patch := by
  refine ⟨?_, ?_, ?_⟩
  · apply UInt8.toBitVec_inj.mp
    ext i hi
    simp [Flpr.flprVersion]
    grind
  · apply UInt8.toBitVec_inj.mp
    ext i hi
    simp [Flpr.flprVersion]
    grind
  · apply UInt8.toBitVec_inj.mp
    ext i hi
    simp [Flpr.flprVersion]

theorem flprVersion_zero (f : Flpr) :
    f.flprVersion = 0 ↔ f.major = 0 ∧ f.minor = 0 ∧ f.patch = 0 := by
  obtain ⟨hmajor, hminor, hpatch⟩ := flprVersion_bytes f
  constructor
  · intro hzero
    rw [hzero] at hmajor hminor hpatch
    exact ⟨hmajor.symm, hminor.symm, hpatch.symm⟩
  · rintro ⟨h1, h2, h3⟩
    rw [Flpr.flprVersion, h1, h2, h3]
    rfl

/-- A byte of a word, the way Python takes it out. -/
theorem shift_mask (v : UInt32) {k : Nat} (hk : k < 32) :
    v.toNat >>> k &&& 0xFF = (v >>> UInt32.ofNat k).toUInt8.toNat := by
  have hk' : (UInt32.ofNat k).toNat % 32 = k := by
    rw [UInt32.toNat_ofNat', Nat.mod_eq_of_lt (by omega : k < 2 ^ 32), Nat.mod_eq_of_lt hk]
  rw [UInt32.toNat_toUInt8, UInt32.toNat_shiftRight, hk']
  exact Nat.and_two_pow_sub_one_eq_mod _ 8

/-- What `decode_status` makes of the word of the coprocessor's version. -/
theorem flprFw_agrees (r : Robot) {v : UInt32}
    (hv : v = if r.flprBooted then r.flpr.flprVersion else 0) :
    (if (v.toNat : Int) ≠ 0 then
      some (((v.toNat : Int).toNat >>> 16 &&& 0xFF : Nat), ((v.toNat : Int).toNat >>> 8 &&& 0xFF : Nat),
        ((v.toNat : Int).toNat &&& 0xFF : Nat))
    else none : Option (Int × Int × Int)) = flprFwOf r := by
  have hmask := shift_mask v (k := 0) (by decide)
  rw [Nat.shiftRight_zero] at hmask
  rw [Int.toNat_natCast, shift_mask v (by decide), shift_mask v (by decide), hmask, flprFwOf]
  cases hboot : r.flprBooted with
  | false =>
    rw [hboot] at hv
    obtain rfl : v = 0 := hv
    rfl
  | true =>
    rw [hboot] at hv
    obtain rfl : v = r.flpr.flprVersion := hv
    have hzero := flprVersion_zero r.flpr
    obtain ⟨hmajor, hminor, hpatch⟩ := flprVersion_bytes r.flpr
    have hshift : r.flpr.flprVersion >>> UInt32.ofNat 0 = r.flpr.flprVersion :=
      UInt32.shiftRight_zero
    by_cases hnone : r.flpr.flprVersion = 0
    · have hno : ¬ (true = true ∧ ¬ (r.flpr.major = 0 ∧ r.flpr.minor = 0 ∧ r.flpr.patch = 0)) :=
        fun h => h.2 (hzero.mp hnone)
      rw [hnone, if_neg hno]
      rfl
    · have hne : (r.flpr.flprVersion.toNat : Int) ≠ 0 := fun h => by
        have hnat : r.flpr.flprVersion.toNat = 0 := by omega
        exact hnone (UInt32.toNat_inj.mp hnat)
      have hyes : true = true ∧ ¬ (r.flpr.major = 0 ∧ r.flpr.minor = 0 ∧ r.flpr.patch = 0) :=
        ⟨rfl, fun h => hnone (hzero.mpr h)⟩
      rw [if_pos hne, if_pos hyes, hshift, hpatch, ← hmajor, ← hminor]
      rfl

/-- **0xFFE6.** -/
theorem status_agrees (r : Robot) (s : Buffer) :
    decodeStatus (onStatusRead r s) = .ok (statusOf r) := by
  let p := r.peripheral
  let b := p.board
  let vdc := UInt16.ofNat (clamp (r.vdcMv.getD 0) 0 65535).toNat
  let version := if r.flprBooted then r.flpr.flprVersion else 0
  let policy := imuLogPolicy ||| if imuLogDetached b.log then 2 else 0
  let first : List Field := [.u8 statusPktVersion, .u8 (appVersion.getD 0 0),
    .u8 (appVersion.getD 1 0), .u8 (appVersion.getD 2 0), .u16 (drvPwmGetFrequency p.motor.pwm),
    .u8 (drvPwmGetDuty p.motor.pwm 0), .u8 (drvPwmGetDuty p.motor.pwm 1), .u16 r.targetMv, .u16 vdc,
    .u8 (flag p.motor.railOn), .u8 (flag p.motor.drvAwake),
    .u8 (flag (r.flprBooted && r.flpr.imuOk != 0)), .u8 (flag p.motor.led.ledEnabled),
    .u32 (UInt32.ofNat (b.uptime / 1000)), .u32 r.appResetCause, .u32 version]
  let second : List Field := [.u8 b.sh.cfgOdr, .u8 b.sh.cfgContent,
    .u8 (flag (imuLogActive b.log)), .u8 policy, .u32 (UInt32.ofNat (imuLogBytesStored b.log)),
    .u32 (UInt32.ofNat imuLogCapacityBytes), .u32 (imuPumpOverrun r)]
  have htile : Tiles 0 (statusStores r) := by simp [statusStores, Tiles, Field.code, Code.size]
  have hsize : calcsize (formatOf (statusStores r)) = 44 := by
    simp [statusStores, formatOf, calcsize, Field.code, Code.size]
  have hfirst : structUnpackFrom [(4, .B), (1, .H), (2, .B), (2, .H), (4, .B), (3, .I)]
      (onStatusRead r s) 0 = .ok (first.map Field.value) :=
    unpack_slice s htile hsize [] first second rfl rfl rfl
  have hsecond : structUnpackFrom [(4, .B), (3, .I)] (onStatusRead r s) 28 =
      .ok (second.map Field.value) :=
    unpack_slice s htile hsize first second [] rfl
      (by simp [first, calcsize, Field.code, Code.size]) rfl
  have hknown : ¬ ((onStatusRead r s).length < 44 ∨ (onStatusRead r s).getD 0 0 ≠ 3) := by
    rintro (hlen | hversion)
    · exact absurd ((slice_length _ 0 44).symm.trans_lt hlen) (Nat.lt_irrefl 44)
    · refine hversion ?_
      rw [onStatusRead, slice_stores s htile hsize]
      rfl
  have hok : decodeStatus (onStatusRead r s) = .ok
      { fw := (1, 5, 1)
        flprFw :=
          if (version.toNat : Int) ≠ 0 then
            some (((version.toNat : Int).toNat >>> 16 &&& 0xFF : Nat),
              ((version.toNat : Int).toNat >>> 8 &&& 0xFF : Nat),
              ((version.toNat : Int).toNat &&& 0xFF : Nat))
          else none
        freqHz := (drvPwmGetFrequency p.motor.pwm).toNat
        duty1 := (drvPwmGetDuty p.motor.pwm 0).toNat
        duty2 := (drvPwmGetDuty p.motor.pwm 1).toNat
        vdcTargetMv := r.targetMv.toNat
        vdcMeasMv := vdc.toNat
        railOn := pyBool ((flag p.motor.railOn).toNat : Int)
        drvAwake := pyBool ((flag p.motor.drvAwake).toNat : Int)
        imuOk := pyBool ((flag (r.flprBooted && r.flpr.imuOk != 0)).toNat : Int)
        ledOn := pyBool ((flag p.motor.led.ledEnabled).toNat : Int)
        uptimeS := (UInt32.ofNat (b.uptime / 1000)).toNat
        resetCause := r.appResetCause.toNat
        odrCode := b.sh.cfgOdr.toNat
        content := b.sh.cfgContent.toNat
        logActive := pyBool ((flag (imuLogActive b.log)).toNat : Int)
        logPolicy := policy.toNat
        logBytes := (UInt32.ofNat (imuLogBytesStored b.log)).toNat
        logCapacity := (UInt32.ofNat imuLogCapacityBytes).toNat
        overruns := (imuPumpOverrun r).toNat } := by
    rw [decodeStatus.eq_def, if_neg hknown, hfirst, hsecond]
    rfl
  have hvdc : (vdc.toNat : Int) = max 0 (min (r.vdcMv.getD 0) 65535) := by
    have hclamp := clamp_eq (r.vdcMv.getD 0) (show (0 : Int) ≤ 65535 by decide)
    have hnat : vdc.toNat = (clamp (r.vdcMv.getD 0) 0 65535).toNat := by
      refine (UInt16.toNat_ofNat').trans (Nat.mod_eq_of_lt ?_)
      omega
    omega
  have hpolicy : (policy.toNat : Int) = if imuLogDetached b.log then 3 else 1 := by
    show ((imuLogPolicy ||| if imuLogDetached b.log then 2 else 0).toNat : Int) = _
    cases imuLogDetached b.log <;> rfl
  have hstored : (UInt32.ofNat (imuLogBytesStored b.log)).toNat = imuLogBytesStored b.log :=
    Nat.mod_eq_of_lt (imuLogBytesStored_lt b.log)
  rw [hok, flprFw_agrees r rfl, hvdc, hpolicy, hstored]
  simp only [pyBool_flag]
  rfl

/-- **0xFFE8.** -/
theorem imucfg_agrees (r : Robot) (s : Buffer) :
    decodeImuCfg (onImucfgRead r s) = .ok (imuCfgOf r) := by
  let sh := r.peripheral.board.sh
  let status := Int8.ofInt (clamp r.flpr.cfgStatus (-128) 0)
  let first : List Field := [.u8 sh.cfgOdr, .u8 sh.cfgContent, .u8 sh.cfgAccelFs, .u8 sh.cfgGyroFs,
    .u8 (flag (r.flpr.cfgApplied == sh.cfgSeq)), .u8 status.toUInt8,
    .u8 r.peripheral.board.stream.streamDecim, .u8 0]
  let second : List Field := [.u32 r.flpr.overrun]
  have htile : Tiles 0 (imucfgStores r) := by simp [imucfgStores, Tiles, Field.code, Code.size]
  have hfirst : structUnpackFrom [(8, .B)] (onImucfgRead r s) 0 = .ok (first.map Field.value) :=
    unpack_slice s htile rfl [] first second rfl rfl rfl
  have hsecond : structUnpackFrom [(1, .I)] (onImucfgRead r s) 8 = .ok (second.map Field.value) :=
    unpack_slice s htile rfl first second [] rfl rfl rfl
  let cfg (v : Int) : ImuCfg :=
    { odrCode := sh.cfgOdr.toNat
      content := sh.cfgContent.toNat
      accelFs := sh.cfgAccelFs.toNat
      gyroFs := sh.cfgGyroFs.toNat
      applied := pyBool ((flag (r.flpr.cfgApplied == sh.cfgSeq)).toNat : Int)
      status := v
      decim := r.peripheral.board.stream.streamDecim.toNat
      overruns := r.flpr.overrun.toNat }
  have hok : decodeImuCfg (onImucfgRead r s) =
      signedByte (status.toUInt8.toNat : Int) >>= fun v => .ok (cfg v) := by
    rw [decodeImuCfg, hfirst, hsecond]
    rfl
  have hstatus : status.toInt = max (-128) (min r.flpr.cfgStatus 0) := by
    have hclamp := clamp_eq r.flpr.cfgStatus (show (-128 : Int) ≤ 0 by decide)
    have hexact : status.toInt = clamp r.flpr.cfgStatus (-128) 0 :=
      Int8.toInt_ofInt_of_le (by omega) (by omega)
    exact hexact.trans hclamp
  have happlied : pyBool ((flag (r.flpr.cfgApplied == sh.cfgSeq)).toNat : Int) =
      (r.flpr.cfgApplied == sh.cfgSeq) := pyBool_flag _
  rw [hok, signedByte_toInt, hstatus]
  show Except.ok (cfg _) = _
  simp only [cfg, happlied]
  rfl

/-! ## The directory -/

/-- A loop over a list by index, where no iteration raises. -/
theorem mapM_range {α β : Type} {f : Nat → Except PyError β} {g : α → β} (list : List α)
    (h : ∀ l x l', list = l ++ x :: l' → f l.length = .ok (g x)) :
    (List.range list.length).mapM f = .ok (list.map g) := by
  induction list using List.reverseRecOn with
  | nil => rfl
  | append_singleton list x ih =>
    have hinit : (List.range list.length).mapM f = .ok (list.map g) := by
      refine ih fun l y l' hl => h l y (l' ++ [x]) ?_
      rw [hl, List.append_assoc]
      rfl
    have hlast : f list.length = .ok (g x) := h list x [] rfl
    have hrange : List.range (list ++ [x]).length = List.range list.length ++ [list.length] := by
      rw [List.length_append, List.length_singleton, List.range_succ]
    rw [hrange, List.mapM_append, hinit, List.mapM_cons, hlast, List.map_append]
    rfl

/-- The words of a directory entry. -/
def wordsOf (x : ImuLogSession) : List Field :=
  [.u32 (UInt32.ofNat x.seq), .u32 (UInt32.ofNat x.wallStart), .u32 (UInt32.ofNat x.recCount)]

/-- Its bytes. -/
def bytesOf (x : ImuLogSession) : List Field :=
  [.u8 x.odrCode, .u8 x.content, .u8 x.accelFs, .u8 x.gyroFs]

/-- The fields of all entries. -/
def entriesOf (list : List ImuLogSession) : List Field :=
  list.flatMap fun x => wordsOf x ++ bytesOf x

/-- The fields in front of them. -/
def dirHead (n : Nat) : List Field := [.u8 (UInt8.ofNat n), .u8 0, .u8 0, .u8 0]

theorem dirEntries_tiles (list : List ImuLogSession) (i : Nat) :
    Tiles (4 + i * 16) (dirEntries i list) := by
  induction list generalizing i with
  | nil => trivial
  | cons x list ih =>
    refine ⟨rfl, rfl, rfl, rfl, rfl, rfl, rfl, ?_⟩
    have hnext : 4 + (i + 1) * 16 = 4 + i * 16 + 4 + 4 + 4 + 1 + 1 + 1 + 1 := by omega
    have htail := ih (i + 1)
    rw [hnext] at htail
    exact htail

theorem dirStores_tiles (list : List ImuLogSession) : Tiles 0 (dirStores list) :=
  ⟨rfl, rfl, rfl, rfl, dirEntries_tiles list 0⟩

theorem dirEntries_fields (list : List ImuLogSession) (i : Nat) :
    (dirEntries i list).map Prod.snd = entriesOf list := by
  induction list generalizing i with
  | nil => rfl
  | cons x list ih =>
    rw [entriesOf, List.flatMap_cons, ← entriesOf, ← ih (i + 1)]
    rfl

theorem dirStores_fields (list : List ImuLogSession) :
    (dirStores list).map Prod.snd = dirHead list.length ++ entriesOf list := by
  rw [dirStores, List.map_append, dirEntries_fields]
  rfl

theorem entriesOf_size (list : List ImuLogSession) :
    calcsize ((entriesOf list).map Field.code) = list.length * 16 := by
  induction list with
  | nil => rfl
  | cons x list ih =>
    have hone : calcsize ((wordsOf x ++ bytesOf x).map Field.code) = 16 := rfl
    rw [entriesOf, List.flatMap_cons, ← entriesOf, List.map_append, calcsize_append, ih, hone,
      List.length_cons]
    omega

theorem dirStores_size (list : List ImuLogSession) :
    calcsize (formatOf (dirStores list)) = 4 + list.length * 16 := by
  rw [formatOf_eq, dirStores_fields, List.map_append, calcsize_append, entriesOf_size]
  rfl

/-- One entry. -/
theorem decodeSession_at {list l l' : List ImuLogSession} {x : ImuLogSession}
    (h : list = l ++ x :: l') (s : Buffer) :
    decodeSession (dirPacket list s) l.length = .ok (sessionOf x) := by
  have htile := dirStores_tiles list
  have hsize := dirStores_size list
  have hsplit : entriesOf list = entriesOf l ++ (wordsOf x ++ (bytesOf x ++ entriesOf l')) := by
    rw [h, entriesOf, List.flatMap_append, List.flatMap_cons, List.append_assoc]
    rfl
  have hfront : calcsize ((dirHead list.length ++ entriesOf l).map Field.code) =
      4 + l.length * 16 := by
    rw [List.map_append, calcsize_append, entriesOf_size]
    rfl
  have hfirst : structUnpackFrom [(3, .I)] (dirPacket list s) (4 + l.length * 16) =
      .ok ((wordsOf x).map Field.value) := by
    refine unpack_slice s htile hsize (dirHead list.length ++ entriesOf l) (wordsOf x)
      (bytesOf x ++ entriesOf l') ?_ hfront rfl
    rw [dirStores_fields, hsplit, List.append_assoc]
  have hsecond : structUnpackFrom [(4, .B)] (dirPacket list s) (16 + l.length * 16) =
      .ok ((bytesOf x).map Field.value) := by
    refine unpack_slice s htile hsize (dirHead list.length ++ entriesOf l ++ wordsOf x) (bytesOf x)
      (entriesOf l') ?_ ?_ rfl
    · rw [dirStores_fields, hsplit, List.append_assoc, List.append_assoc]
    · have hwords : calcsize ((wordsOf x).map Field.code) = 12 := rfl
      rw [List.map_append, calcsize_append, hfront, hwords]
      omega
  rw [decodeSession, hfirst, hsecond]
  rfl

/-- **0xFFEF.** -/
theorem dir_agrees {list : List ImuLogSession} (hlen : list.length ≤ 16) (s : Buffer) :
    decodeSessions (dirPacket list s) = .ok (list.map sessionOf) := by
  have hdata : dirPacket list s = UInt8.ofNat list.length ::
      (Field.u8 0 :: .u8 0 :: .u8 0 :: entriesOf list).flatMap Field.bytes := by
    rw [dirPacket, slice_stores s (dirStores_tiles list) (dirStores_size list), imageOf_eq,
      dirStores_fields]
    rfl
  have hcount : (UInt8.ofNat list.length).toNat = list.length :=
    UInt8.toNat_ofNat'.trans (Nat.mod_eq_of_lt (by omega))
  have hloop : decodeSessions (dirPacket list s) =
      (List.range (UInt8.ofNat list.length).toNat).mapM (decodeSession (dirPacket list s)) := by
    rw [hdata]
    rfl
  rw [hloop, hcount]
  exact mapM_range list fun l x l' h => decodeSession_at h s

/-! ## The notifications -/

theorem copyRecords_apart {xs : List ImuSample} {k i : Nat} (s : Buffer) (h : i < 8 + k * 16) :
    copyRecords s k xs i = s i := by
  induction xs generalizing s k with
  | nil => rfl
  | cons x xs ih =>
    calc copyRecords s k (x :: xs) i = s.store (8 + k * 16) x.bytes i := ih _ (by omega)
      _ = s i := store_apart s (Or.inl h)

/-- The records copied stand one behind the other. -/
theorem copyRecords_slice (xs : List ImuSample) (k : Nat) (s : Buffer) :
    (copyRecords s k xs).slice (8 + k * 16) (xs.length * 16) = recordBytes xs := by
  induction xs generalizing s k with
  | nil => rfl
  | cons x xs ih =>
    have hnext : 8 + (k + 1) * 16 = 8 + k * 16 + 16 := by omega
    have hlen : (x :: xs).length * 16 = 16 + xs.length * 16 := by
      rw [List.length_cons]
      omega
    have hfront : (copyRecords s k (x :: xs)).slice (8 + k * 16) 16 = x.bytes := by
      refine (slice_congr fun i _ hi => ?_).trans (store_here s (8 + k * 16) x.bytes)
      exact copyRecords_apart _ (show i < 8 + (k + 1) * 16 by omega)
    have hback : (copyRecords s k (x :: xs)).slice (8 + k * 16 + 16) (xs.length * 16) =
        recordBytes xs := by
      rw [← hnext]
      exact ih (k + 1) _
    rw [hlen, slice_append, hfront, hback, recordBytes_cons]

/-- A header stored in front of data. -/
theorem slice_header {ws : List (Nat × Field)} {k n : Nat} (s : Buffer) (ht : Tiles 0 ws)
    (hk : calcsize (formatOf ws) = k) :
    (s.stores ws).slice 0 (k + n) = (ws.map Prod.snd).flatMap Field.bytes ++ s.slice k n := by
  have hback : (s.stores ws).slice k n = s.slice k n :=
    slice_congr fun i hi _ => stores_apart s ht (Or.inr (by omega))
  rw [slice_append, slice_stores s ht hk, Nat.zero_add, hback, imageOf_eq]

/-- The fields of a record. -/
def fieldsOf (x : ImuSample) : List Field :=
  [.i16 x.ax, .i16 x.ay, .i16 x.az, .i16 x.gx, .i16 x.gy, .i16 x.gz, .i16 x.tempRaw, .u16 x.seq16]

/-- Whole records unpack to their tuples. -/
theorem unpackRecords_bytes (xs : List ImuSample) :
    unpackRecords (recordBytes xs) = .ok (xs.map tupleOf) := by
  have hcount : ((recordBytes xs).length + 1 - recordSize + (recordSize - 1)) / recordSize =
      xs.length := by
    rw [recordBytes_length]
    unfold recordSize
    omega
  rw [unpackRecords, hcount]
  refine mapM_range xs fun l x l' h => ?_
  have hdata : recordBytes xs = recordBytes l ++ ((fieldsOf x).flatMap Field.bytes ++
      recordBytes l') := by
    rw [h, recordBytes_append, recordBytes_cons]
    rfl
  refine structUnpackFrom_fields (fieldsOf x) _ _ rfl hdata ?_
  rw [recordBytes_length, Nat.mul_comm]
  rfl

/-- The header of a stream packet. -/
def streamHead (p : Packet) : List Field :=
  [.u8 (UInt8.ofNat p.records.length), .u8 p.decim, .u8 0, .u8 0, .u32 (UInt32.ofNat p.dropped)]

/-- A stream packet is its header and its records. -/
theorem streamPkt_bytes (p : Packet) (s : Buffer) :
    streamPkt p s = (streamHead p).flatMap Field.bytes ++ recordBytes p.records := by
  have htile : Tiles 0 (streamStores p) := ⟨rfl, rfl, rfl, rfl, rfl, trivial⟩
  have hsize : calcsize (formatOf (streamStores p)) = 8 := rfl
  rw [streamPkt, slice_header _ htile hsize]
  exact congrArg _ (copyRecords_slice p.records 0 s)

/-- **0xFFE9.** -/
theorem stream_agrees {p : Packet} (hlen : p.records.length ≤ 14) (s : Buffer) :
    decodeStreamPacket (streamPkt p s) =
      .ok ⟨p.decim.toNat, u32 p.dropped, recordBytes p.records⟩ := by
  let head : List Field := [.u8 (UInt8.ofNat p.records.length), .u8 p.decim, .u8 0, .u8 0]
  let word : List Field := [.u32 (UInt32.ofNat p.dropped)]
  have hdata : streamPkt p s =
      (head ++ word).flatMap Field.bytes ++ recordBytes p.records := streamPkt_bytes p s
  have hfirst : structUnpackFrom [(4, .B)] (streamPkt p s) 0 = .ok (head.map Field.value) := by
    refine structUnpackFrom_fields head [] (word.flatMap Field.bytes ++ recordBytes p.records) rfl
      ?_ rfl
    rw [hdata, List.flatMap_append, List.append_assoc]
    rfl
  have hsecond : structUnpackFrom [(1, .I)] (streamPkt p s) 4 = .ok (word.map Field.value) := by
    refine structUnpackFrom_fields word (head.flatMap Field.bytes) (recordBytes p.records) rfl ?_ rfl
    rw [hdata, List.flatMap_append, List.append_assoc]
  have hcount : (UInt8.ofNat p.records.length).toNat = p.records.length :=
    UInt8.toNat_ofNat'.trans (Nat.mod_eq_of_lt (by omega))
  have hsamples : ((streamPkt p s).drop 8).take ((UInt8.ofNat p.records.length).toNat * recordSize) =
      recordBytes p.records := by
    have hdrop : (streamPkt p s).drop 8 = recordBytes p.records := by
      rw [hdata]
      exact List.drop_left' rfl
    rw [hdrop, hcount]
    refine List.take_of_length_le ?_
    rw [recordBytes_length, recordSize, Nat.mul_comm]
  have hok : decodeStreamPacket (streamPkt p s) = .ok
      ⟨p.decim.toNat, (UInt32.ofNat p.dropped).toNat,
        ((streamPkt p s).drop 8).take ((UInt8.ofNat p.records.length).toNat * recordSize)⟩ := by
    rw [decodeStreamPacket, hfirst, hsecond]
    rfl
  rw [hok, hsamples]
  rfl

/-- **0xFFEB.** -/
theorem chunk_agrees {c : DumpChunk} (hlen : c.data.length ≤ 232) (s : Buffer) :
    decodeDumpChunk (chunkPkt c s) = .ok { c with offset := u32 c.offset } := by
  let head : List Field := [.u32 (UInt32.ofNat c.offset), .u16 (UInt16.ofNat c.data.length),
    .u8 (flag c.last), .u8 0]
  have htile : Tiles 0 (chunkStores c) := ⟨rfl, rfl, rfl, rfl, trivial⟩
  have hsize : calcsize (formatOf (chunkStores c)) = 8 := rfl
  have hdata : chunkPkt c s = head.flatMap Field.bytes ++ c.data := by
    rw [chunkPkt, slice_header _ htile hsize]
    exact congrArg _ (store_here s 8 c.data)
  have hfields : structUnpackFrom [(1, .I), (1, .H), (2, .B)] (chunkPkt c s) 0 =
      .ok (head.map Field.value) :=
    structUnpackFrom_fields head [] c.data rfl hdata rfl
  have hcount : (UInt16.ofNat c.data.length).toNat = c.data.length :=
    UInt16.toNat_ofNat'.trans (Nat.mod_eq_of_lt (by omega))
  have hbody : ((chunkPkt c s).drop 8).take (UInt16.ofNat c.data.length).toNat = c.data := by
    have hdrop : (chunkPkt c s).drop 8 = c.data := by
      rw [hdata]
      exact List.drop_left' rfl
    rw [hdrop, hcount, List.take_length]
  have hok : decodeDumpChunk (chunkPkt c s) = .ok
      { offset := (UInt32.ofNat c.offset).toNat
        data := ((chunkPkt c s).drop 8).take (UInt16.ofNat c.data.length).toNat
        last := pyBool ((flag c.last).toNat : Int) } := by
    rw [decodeDumpChunk, hfields]
    rfl
  rw [hok, hbody, pyBool_flag]
  rfl

/-! ## The write handlers -/

/-- What a host asks for by a write, every argument in its range. -/
inductive Request where
  | freq (hz : UInt16)
  | volt (mv : UInt16)
  | time (epoch : UInt32)
  | imucfg (odr content afs gfs : UInt8) (previewHz : UInt16)
  | log (cmd policy : UInt8)
  | dump (session offset length : UInt32)

/-- The bytes the host writes. -/
def Request.encode : Request → Except PyError (List UInt8)
  | .freq hz => encodeFreq hz.toNat
  | .volt mv => encodeVoltMv mv.toNat
  | .time epoch => encodeTime epoch.toNat
  | .imucfg odr content afs gfs previewHz =>
      encodeImuCfg odr.toNat content.toNat afs.toNat gfs.toNat previewHz.toNat
  | .log cmd policy => encodeLogCmd cmd.toNat policy.toNat
  | .dump session offset length => encodeDumpReq session.toNat offset.toNat length.toNat

/-- Where it writes them. -/
def Request.characteristic : Request → Characteristic
  | .freq _ => .freq
  | .volt _ => .volt
  | .time _ => .time
  | .imucfg .. => .imucfg
  | .log .. => .logctl
  | .dump .. => .dump

/-- A handler of one word, once it has the word. -/
def serveWord (p : Peripheral) (v min max : UInt16) (apply : UInt16 → Peripheral × Bool) :
    Peripheral × AttResult :=
  if v < min ∨ v > max then (p, .valueNotAllowed)
  else
    let (p, failed) := apply v
    if failed then (p, .unlikely) else (p, .ok 2)

/-- The handlers, once they have the values; the policy of a log command is not looked at. -/
def Request.serve (p : Peripheral) (ret : PwmRet) : Request → Peripheral × AttResult
  | .freq hz => serveWord p hz drvPwmFreqMinHz drvPwmFreqMaxHz (applyFreq p ret)
  | .volt mv => serveWord p mv max5419VoutMinMv max5419VoutMaxMv (applyVolt p)
  | .time epoch =>
      if epoch = 0 then (p, .valueNotAllowed)
      else ({ p with board := sessionTimeSync p.board epoch.toNat }, .ok 4)
  | .imucfg odr content afs gfs previewHz =>
      if !imucfgAllowed odr content afs gfs then (p, .valueNotAllowed)
      else if p.board.sh.magic ≠ imuSharedMagic then (p, .unlikely)
      else ({ p with board := applyImucfg p.board odr content afs gfs previewHz }, .ok 6)
  | .log cmd _ =>
      if cmd > opStartDetached then (p, .valueNotAllowed)
      else if (cmd = opStart ∨ cmd = opStartDetached) ∧ imuLogActive p.board.log = true then
        (p, .valueNotAllowed)
      else
        let (board, ret) := deviceCmdSubmit p.board (.log cmd)
        ({ p with board }, if ret < 0 then .unlikely else .ok 2)
  | .dump session offset length =>
      ({ p with
        board := { p.board with dumpAbort := true }
        dumpReq := ⟨session.toNat, offset.toNat, length.toNat⟩
        dumpSem := p.dumpSem.give }, .ok 12)

theorem writeWord_le16 (p : Peripheral) (v min max : UInt16)
    (apply : UInt16 → Peripheral × Bool) :
    writeWord p (le16 v) 0 min max apply = serveWord p v min max apply := by
  have hpair : writeWord p (le16 v) 0 min max apply =
      serveWord p (sysGetLe16 v.toUInt8 (v >>> 8).toUInt8) min max apply := rfl
  rw [hpair, sysGetLe16_le16]

theorem onImucfgWrite_bytes (b : Board) (odr content afs gfs : UInt8) (previewHz : UInt16) :
    onImucfgWrite b ([odr, content, afs, gfs] ++ le16 previewHz) 0 =
      if !imucfgAllowed odr content afs gfs then (b, .valueNotAllowed)
      else if b.sh.magic ≠ imuSharedMagic then (b, .unlikely)
      else (applyImucfg b odr content afs gfs previewHz, .ok 6) := by
  have hread : onImucfgWrite b ([odr, content, afs, gfs] ++ le16 previewHz) 0 =
      if !imucfgAllowed odr content afs gfs then (b, .valueNotAllowed)
      else if b.sh.magic ≠ imuSharedMagic then (b, .unlikely)
      else (applyImucfg b odr content afs gfs
        (sysGetLe16 previewHz.toUInt8 (previewHz >>> 8).toUInt8), .ok 6) := rfl
  rw [hread, sysGetLe16_le16]

theorem onDumpWrite_bytes (p : Peripheral) (session offset length : UInt32) :
    onDumpWrite p (le32 session ++ le32 offset ++ le32 length) 0 =
      ({ p with
        board := { p.board with dumpAbort := true }
        dumpReq := ⟨session.toNat, offset.toNat, length.toNat⟩
        dumpSem := p.dumpSem.give }, .ok 12) := by
  let word (x : UInt32) : UInt32 :=
    sysGetLe32 x.toUInt8 (x >>> 8).toUInt8 (x >>> 16).toUInt8 (x >>> 24).toUInt8
  have hread : onDumpWrite p (le32 session ++ le32 offset ++ le32 length) 0 =
      ({ p with
        board := { p.board with dumpAbort := true }
        dumpReq := ⟨(word session).toNat, (word offset).toNat, (word length).toNat⟩
        dumpSem := p.dumpSem.give }, .ok 12) := rfl
  have hword (x : UInt32) : word x = x := sysGetLe32_le32 x
  rw [hread, hword, hword, hword]

theorem encodeImuCfg_bytes (odr content afs gfs : UInt8) (previewHz : UInt16) :
    encodeImuCfg odr.toNat content.toNat afs.toNat gfs.toNat previewHz.toNat =
      .ok ([odr, content, afs, gfs] ++ le16 previewHz) := by
  have hhead : pyBytes [(odr.toNat : Int), content.toNat, afs.toNat, gfs.toNat] =
      .ok [odr, content, afs, gfs] := pyBytes_fields [odr, content, afs, gfs]
  have htail : structPack [(1, .H)] [(previewHz.toNat : Int)] = .ok (le16 previewHz) :=
    structPack_fields [.u16 previewHz] rfl
  rw [encodeImuCfg, hhead, htail]
  rfl

/-- **A write says what was encoded.** -/
theorem write_agrees (q : Request) (p : Peripheral) (ret : PwmRet) :
    ∃ bs, q.encode = .ok bs ∧ write p q.characteristic bs 0 ret = q.serve p ret := by
  cases q with
  | freq hz =>
    exact ⟨le16 hz, structPack_fields [.u16 hz] rfl,
      writeWord_le16 p hz drvPwmFreqMinHz drvPwmFreqMaxHz (applyFreq p ret)⟩
  | volt mv =>
    exact ⟨le16 mv, structPack_fields [.u16 mv] rfl,
      writeWord_le16 p mv max5419VoutMinMv max5419VoutMaxMv (applyVolt p)⟩
  | time epoch =>
    refine ⟨le32 epoch, structPack_fields [.u32 epoch] rfl, ?_⟩
    have hread : onTimeWrite p (le32 epoch) 0 =
        if sysGetLe32 epoch.toUInt8 (epoch >>> 8).toUInt8 (epoch >>> 16).toUInt8
          (epoch >>> 24).toUInt8 = 0 then (p, .valueNotAllowed)
        else ({ p with board := sessionTimeSync p.board (sysGetLe32 epoch.toUInt8
          (epoch >>> 8).toUInt8 (epoch >>> 16).toUInt8 (epoch >>> 24).toUInt8).toNat }, .ok 4) := rfl
    rw [sysGetLe32_le32] at hread
    exact hread
  | imucfg odr content afs gfs previewHz =>
    refine ⟨[odr, content, afs, gfs] ++ le16 previewHz, encodeImuCfg_bytes _ _ _ _ _, ?_⟩
    rw [Request.characteristic, write, onImucfgWrite_bytes, Request.serve]
    split
    · rfl
    · split <;> rfl
  | log cmd policy =>
    refine ⟨[cmd, policy], pyBytes_fields [cmd, policy], ?_⟩
    rw [Request.characteristic, write, onLogctlWrite, Request.serve]
    split
    · rfl
    · split
      · rfl
      · dsimp only
        split <;> rfl
  | dump session offset length =>
    refine ⟨le32 session ++ le32 offset ++ le32 length, ?_, ?_⟩
    · exact structPack_fields [.u32 session, .u32 offset, .u32 length] rfl
    · exact onDumpWrite_bytes p session offset length

/-! ## The whole protocol -/

/-- **Firmware and host agree on the wire format.**  Whatever the state of the device and whatever its
    buffers held before, each packet it builds decodes to the values it was built from; and the
    handlers read out of what the host encodes just what was encoded. -/
theorem codecs_agree (r : Robot) (s : Buffer) :
    decodeStatus (onStatusRead r s) = .ok (statusOf r) ∧
      decodeImuCfg (onImucfgRead r s) = .ok (imuCfgOf r) ∧
      decodeLogState (onLogctlRead r s) = .ok (logStateOf r) ∧
      decodeSessions (onDirRead r s) =
        .ok ((imuLogSessionList r.peripheral.board.log maxSessions).map sessionOf) ∧
      (∀ list : List ImuLogSession, list.length ≤ 16 →
        decodeSessions (dirPacket list s) = .ok (list.map sessionOf)) ∧
      (∀ p : Packet, p.records.length ≤ 14 →
        ∃ samples, decodeStreamPacket (streamPkt p s) = .ok ⟨p.decim.toNat, u32 p.dropped, samples⟩ ∧
          unpackRecords samples = .ok (p.records.map tupleOf)) ∧
      (∀ c : DumpChunk, c.data.length ≤ 232 →
        decodeDumpChunk (chunkPkt c s) = .ok { c with offset := u32 c.offset }) ∧
      ∀ (q : Request) (ret : PwmRet), ∃ bs, q.encode = .ok bs ∧
        write r.peripheral q.characteristic bs 0 ret = q.serve r.peripheral ret := by
  refine ⟨status_agrees r s, imucfg_agrees r s, logctl_agrees r s, dir_agrees ?_ s,
    fun list hlen => dir_agrees hlen s, fun p hlen => ?_, fun c hlen => chunk_agrees hlen s,
    fun q ret => write_agrees q r.peripheral ret⟩
  · refine (List.length_take_le _ _).trans ?_
    have hmax : maxSessions = 16 := rfl
    omega
  · exact ⟨recordBytes p.records, stream_agrees hlen s, unpackRecords_bytes p.records⟩

/-- Two sessions, one record and three bytes of a dump, in buffers full of 0xAA. -/
theorem codecs_agree_fresh :
    decodeSessions (dirPacket [⟨2, 0, 5, 7, 3, 0, 0⟩, ⟨1, 1700000000, 43478, 4, 1, 2, 3⟩]
        fun _ => 0xAA) = .ok [⟨2, 0, 5, 7, 3, 0, 0⟩, ⟨1, 1700000000, 43478, 4, 1, 2, 3⟩] ∧
      (∃ samples, decodeStreamPacket (streamPkt ⟨4, 7, [⟨-1, 2, 0, 0, 0, -300, 25, 65535⟩]⟩
          fun _ => 0xAA) = .ok ⟨4, 7, samples⟩ ∧
        unpackRecords samples = .ok [[-1, 2, 0, 0, 0, -300, 25, 65535]]) ∧
      decodeDumpChunk (chunkPkt ⟨232, [1, 2, 3], true⟩ fun _ => 0xAA) =
        .ok ⟨232, [1, 2, 3], true⟩ := by
  obtain ⟨-, -, -, -, hdir, hstream, hchunk, -⟩ := codecs_agree Robot.fresh fun _ => 0xAA
  exact ⟨hdir _ (by decide), hstream ⟨4, 7, [⟨-1, 2, 0, 0, 0, -300, 25, 65535⟩]⟩ (by decide),
    hchunk ⟨232, [1, 2, 3], true⟩ (by decide)⟩

end Caterpillar.Host

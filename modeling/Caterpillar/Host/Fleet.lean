/-
  Finding the robots (scripts/fleet.py, `parse_adv` of scripts/protocol.py) by what they advertise
  (`build_ad` of src/ble/ble_interface.c).

  "Manufacturer data (test company id 0xFFFF) lets a fleet host enumerate robots, fw versions and
  session state WITHOUT connecting."

  1. **Program** — `parseAdv`; `scanFleet`, which keeps the last advertisement of every address and
     sorts; `selectTargets`.
  2. **One advertisement** — `advertisement_read`: the host reads out of it what the board composed
     it of, and it fits its buffer and a legacy advertising packet.  `names_tell`: two boards go by
     one name only if the host cannot tell them apart by their ids either.
  3. **A scan** — `scan_lists`: each address once, with what it last advertised as a robot, in order.
  4. **A selection** — `fleet_selects`: `--robots` picks the addresses whose last advertisement was
     composed under a wanted id, or gives up because a wanted id is not on the air.
-/
import Caterpillar.App.Advertising
import Caterpillar.Lib.Dict
import Caterpillar.Settings.Range
import Mathlib.Data.Prod.Lex
import Mathlib.Data.String.Basic

namespace Caterpillar.Host.Fleet

open Caterpillar.Bytes Caterpillar.Settings Caterpillar.ImuLog Caterpillar.App Caterpillar.Dict
open Caterpillar.App.Advertising (Ad buildAd appVersion hex2)

/-! ## protocol.py -/

/-- `DEVICE_NAME`. -/
def deviceName : String := "Caterpillar"

/-- `DEVICE_PREFIX`. -/
def devicePrefix : String := "Cat-"

/-- `MFG_COMPANY_ID`. -/
def mfgCompanyId : Nat := 0xFFFF

/-- `is_caterpillar`. -/
def isCaterpillar : Option String → Bool
  | none => false
  | some name => devicePrefix.toList.isPrefixOf name.toList || name == deviceName

/-- What `parse_adv` returns. -/
structure Identity where
  name : String
  robotId : Option Nat
  fw : Option (Nat × Nat × Nat)
  sessionActive : Option Bool
  deriving DecidableEq

/-- `parse_adv`. -/
def parseAdv (name : Option String) (manufacturerData : List (Nat × List UInt8)) : Option Identity :=
  match name with
  | none => none
  | some n =>
      if isCaterpillar name then
        match lookup manufacturerData mfgCompanyId with
        | some (p0 :: p1 :: p2 :: p3 :: p4 :: _) =>
            some ⟨n, some p0.toNat, some (p1.toNat, p2.toNat, p3.toNat), some (p4 &&& 1 != 0)⟩
        | _ => some ⟨n, none, none, none⟩
      else none

/-- A manufacturer data element as a scanner delivers it: by company id. -/
def delivered : List UInt8 → List (Nat × List UInt8)
  | lo :: hi :: payload => [((sysGetLe16 lo hi).toNat, payload)]
  | _ => []

/-! ## fleet.py -/

variable {α : Type} [DecidableEq α]

/-- An advertisement heard. -/
structure Heard (α : Type) where
  address : α
  deviceName : Option String
  localName : Option String
  manufacturerData : List (Nat × List UInt8)
  rssi : Int

/-- `device.name or adv.local_name`. -/
def Heard.name (h : Heard α) : Option String :=
  match h.deviceName with
  | some n => if n = "" then h.localName else some n
  | none => h.localName

/-- A robot found. -/
structure Found (α : Type) where
  info : Identity
  address : α
  rssi : Int

/-- `parse_adv` of an advertisement. -/
def Heard.identity (h : Heard α) : Option Identity := parseAdv h.name h.manufacturerData

/-- `on_adv`. -/
def onAdv (found : List (α × Found α)) (h : Heard α) : List (α × Found α) :=
  match h.identity with
  | none => found
  | some info => setItem found h.address ⟨info, h.address, h.rssi⟩

/-- `(e["robot_id"] is None, e["robot_id"] or 0, e["name"])`. -/
def sortKey (e : Found α) : Bool ×ₗ Nat ×ₗ String :=
  toLex (e.info.robotId.isNone, toLex (e.info.robotId.getD 0, e.info.name))

/-- `scan_fleet`, over what it hears before it stops. -/
def scanFleet (heard : List (Heard α)) : List (Found α) :=
  ((heard.foldl onAdv []).map Prod.snd).mergeSort fun e f => decide (sortKey e ≤ sortKey f)

/-- `e["robot_id"] in want`. -/
def wanted (want : List Int) (e : Found α) : Bool :=
  match e.info.robotId with
  | none => false
  | some id => decide ((id : Int) ∈ want)

/-- `select_targets`, with the ids of `--robots` if it is given; `none` when it exits. -/
def selectTargets (robots : List (Found α)) (all : Bool) (want : Option (List Int)) :
    Option (List (Found α)) :=
  if all then some robots
  else
    match want with
    | none => if robots.length = 1 then some robots else none
    | some want =>
        let sel := robots.filter (wanted want)
        if want.all fun w => sel.any fun e => e.info.robotId.map Int.ofNat == some w then some sel
        else none

/-! ## One advertisement -/

/-- What follows the prefix in the name. -/
def suffix (id : UInt16) (uid : List UInt8) : String :=
  if id > 0 then (if id < 10 then "0" else "") ++ toString id.toNat
  else match uid.reverse with
    | lo :: hi :: _ => hex2 hi ++ hex2 lo
    | _ => "????"

theorem buildAd_name (b : Board) (uid : List UInt8) :
    (buildAd b uid).advName = devicePrefix ++ suffix (b.setting settingRobotId) uid := by
  rw [buildAd, suffix]
  dsimp only
  by_cases hid : b.setting settingRobotId > 0
  · rw [if_pos hid, if_pos hid]
    exact String.append_assoc
  · rw [if_neg hid, if_neg hid]
    rcases uid.reverse with _ | ⟨lo, _ | ⟨hi, rest⟩⟩
    · rfl
    · rfl
    · exact String.append_assoc

/-- An id of the registry is written in two digits. -/
theorem suffix_assigned {id : UInt16} (hpos : id > 0) (hmax : id ≤ 20) (uid : List UInt8) :
    (suffix id uid).toList = [Nat.digitChar (id.toNat / 10), Nat.digitChar (id.toNat % 10)] := by
  rw [suffix, if_pos hpos]
  have hall : ∀ n : Fin 21, 0 < n.val → ((if UInt16.ofNat n.val < 10 then "0" else "") ++
      toString n.val).toList = [Nat.digitChar (n.val / 10), Nat.digitChar (n.val % 10)] := by
    decide +kernel
  have hlt : id.toNat < 21 := Nat.lt_succ_of_le (UInt16.le_iff_toNat_le.mp hmax)
  have h := hall ⟨id.toNat, hlt⟩ (UInt16.lt_iff_toNat_lt.mp hpos)
  rw [UInt16.ofNat_toNat] at h
  exact h

/-- The last two bytes of a device id. -/
def lastTwo (uid : List UInt8) : Option (UInt8 × UInt8) :=
  match uid.reverse with
  | lo :: hi :: _ => some (hi, lo)
  | _ => none

/-- Without an id the name ends in them, if there are two. -/
theorem suffix_unassigned (uid : List UInt8) : (suffix 0 uid).toList =
    (lastTwo uid).elim ['?', '?', '?', '?'] fun p => (hex2 p.1).toList ++ (hex2 p.2).toList := by
  have question : "????".toList = ['?', '?', '?', '?'] := by decide
  rw [suffix, if_neg (by decide), lastTwo]
  rcases uid.reverse with _ | ⟨lo, _ | ⟨hi, rest⟩⟩
  · exact question
  · exact question
  · exact String.toList_append

/-- The registry bounds the id. -/
theorem robotId_le {b : Board} (h : b.settings.Safe settingsGen) : b.setting settingRobotId ≤ 20 :=
  (h.get settingsGen (m := ⟨settingRobotId, 0, 0, 20, by decide⟩) (by simp [settingsGen])).2

/-- The two hex digits of a byte tell it. -/
theorem hex2_toList (x : UInt8) : (hex2 x).toList =
    [(Nat.digitChar (x.toNat / 16)).toUpper, (Nat.digitChar (x.toNat % 16)).toUpper] :=
  String.toList_ofList

theorem hex2_inj {x y : UInt8} (h : (hex2 x).toList = (hex2 y).toList) : x = y := by
  have hall : ∀ i j : Fin 16, (Nat.digitChar i.val).toUpper = (Nat.digitChar j.val).toUpper → i = j := by
    decide +kernel
  have hdigit {i j : Nat} (hi : i < 16) (hj : j < 16)
      (he : (Nat.digitChar i).toUpper = (Nat.digitChar j).toUpper) : i = j :=
    congrArg Fin.val (hall ⟨i, hi⟩ ⟨j, hj⟩ he)
  have hx := x.toNat_lt
  have hy := y.toNat_lt
  rw [hex2_toList, hex2_toList] at h
  obtain ⟨hhi, hlo, -⟩ : _ ∧ _ ∧ True := by simpa using h
  have h1 := hdigit (by omega) (by omega) hhi
  have h2 := hdigit (by omega) (by omega) hlo
  exact UInt8.toNat_inj.mp (by omega)

/-- The host takes it for one of its own, and unpacks what the board packed. -/
theorem parseAdv_buildAd {b : Board} (h : b.settings.Safe settingsGen) (uid : List UInt8) :
    parseAdv (some (buildAd b uid).advName) (delivered (buildAd b uid).advMfg) =
      some ⟨(buildAd b uid).advName, some (b.setting settingRobotId).toNat, some (1, 5, 1),
        some (imuLogActive b.log)⟩ := by
  have hbyte : (b.setting settingRobotId).toUInt8.toNat = (b.setting settingRobotId).toNat := by
    have hle := UInt16.le_iff_toNat_le.mp (robotId_le h)
    rw [UInt16.toNat_toUInt8]
    exact Nat.mod_eq_of_lt (Nat.lt_of_le_of_lt hle (by decide))
  have hcat : isCaterpillar (some (buildAd b uid).advName) = true := by
    rw [buildAd_name b uid, isCaterpillar, String.toList_append]
    rw [Bool.or_eq_true]
    exact Or.inl (List.isPrefixOf_iff_prefix.mpr (List.prefix_append _ _))
  rw [parseAdv, if_pos hcat]
  have hmfg : lookup (delivered (buildAd b uid).advMfg) mfgCompanyId =
      some [(b.setting settingRobotId).toUInt8, 1, 5, 1, if imuLogActive b.log then 1 else 0] := rfl
  rw [hmfg]
  dsimp only
  rw [hbyte]
  cases imuLogActive b.log with
  | true => rfl
  | false => rfl

/-- The prefix and four characters at most. -/
theorem advName_length {b : Board} (h : b.settings.Safe settingsGen) (uid : List UInt8) :
    (buildAd b uid).advName.length ≤ 8 := by
  have hlen : (suffix (b.setting settingRobotId) uid).length ≤ 4 := by
    rw [← String.length_toList]
    by_cases hpos : b.setting settingRobotId > 0
    · rw [suffix_assigned hpos (robotId_le h)]
      exact Nat.le_of_ble_eq_true rfl
    · obtain hzero : b.setting settingRobotId = 0 := by
        rw [UInt16.not_lt, UInt16.le_iff_toNat_le] at hpos
        exact UInt16.toNat_inj.mp (Nat.le_zero.mp hpos)
      rw [hzero]
      rw [suffix_unassigned]
      cases lastTwo uid with
      | none => exact Nat.le_refl 4
      | some p =>
        rw [Option.elim_some, hex2_toList, hex2_toList]
        exact Nat.le_refl 4
  have hp : devicePrefix.length = 4 := by decide
  rw [buildAd_name b uid, String.length_append]
  omega

/-- **What the host reads out of an advertisement is what the board composed it of**; it fits
    `adv_name` with its terminator, and with the flags a legacy advertising packet. -/
theorem advertisement_read {b : Board} (h : b.settings.Safe settingsGen) (uid : List UInt8) :
    parseAdv (some (buildAd b uid).advName) (delivered (buildAd b uid).advMfg) =
        some ⟨(buildAd b uid).advName, some (b.setting settingRobotId).toNat, some (1, 5, 1),
          some (imuLogActive b.log)⟩ ∧
      (buildAd b uid).advName.length + 1 ≤ 12 ∧
      3 + (2 + (buildAd b uid).advName.length) + (2 + (buildAd b uid).advMfg.length) ≤ 31 := by
  have hname := advName_length h uid
  have hmfg : (buildAd b uid).advMfg.length = 7 := rfl
  refine ⟨parseAdv_buildAd h uid, ?_, ?_⟩
  · omega
  · omega

/-- A robot without an id, that does not log. -/
theorem advertisement_read_fresh :
    parseAdv (some "Cat-A03F") (delivered (buildAd (Board.fresh []) [0x12, 0xA0, 0x3F]).advMfg) =
      some ⟨"Cat-A03F", some 0, some (1, 5, 1), some false⟩ := by
  have hsafe : (Board.fresh []).settings.Safe settingsGen :=
    run_safe settingsGen crc32Ieee [.init none]
  have h := (advertisement_read hsafe [0x12, 0xA0, 0x3F]).1
  have hname : (buildAd (Board.fresh []) [0x12, 0xA0, 0x3F]).advName = "Cat-A03F" := by decide +kernel
  rw [hname] at h
  exact h

/-! ## Names -/

/-- No hex digit is a question mark. -/
theorem hex2_question {x : UInt8} {rest : List Char} (h : (hex2 x).toList ++ rest = ['?', '?', '?', '?']) :
    False := by
  have hall : ∀ i : Fin 16, (Nat.digitChar i.val).toUpper ≠ '?' := by decide +kernel
  have hx := x.toNat_lt
  rw [hex2_toList] at h
  exact hall ⟨x.toNat / 16, by omega⟩ (List.cons_eq_cons.mp h).1

/-- Without an id the suffixes tell the two bytes. -/
theorem suffix_unassigned_inj {uid uid' : List UInt8}
    (h : (suffix 0 uid).toList = (suffix 0 uid').toList) : lastTwo uid = lastTwo uid' := by
  rw [suffix_unassigned, suffix_unassigned] at h
  cases hu : lastTwo uid with
  | none =>
    cases hu' : lastTwo uid' with
    | none => rfl
    | some q =>
      rw [hu, hu'] at h
      exact (hex2_question h.symm).elim
  | some p =>
    cases hu' : lastTwo uid' with
    | none =>
      rw [hu, hu'] at h
      exact (hex2_question h).elim
    | some q =>
      rw [hu, hu', Option.elim_some, Option.elim_some] at h
      have hlen : (hex2 p.1).toList.length = (hex2 q.1).toList.length := by
        rw [hex2_toList, hex2_toList]
        rfl
      obtain ⟨hhi, hlo⟩ := List.append_inj h hlen
      exact congrArg some (Prod.ext (hex2_inj hhi) (hex2_inj hlo))

/-- Assigned ids are told by their two digits. -/
theorem suffix_assigned_inj {id id' : UInt16} (hpos : id > 0) (hpos' : id' > 0) (hmax : id ≤ 20)
    (hmax' : id' ≤ 20) {uid uid' : List UInt8}
    (h : (suffix id uid).toList = (suffix id' uid').toList) : id = id' := by
  have hall : ∀ i j : Fin 10, Nat.digitChar i.val = Nat.digitChar j.val → i = j := by decide +kernel
  have hdigit {i j : Nat} (hi : i < 10) (hj : j < 10) (he : Nat.digitChar i = Nat.digitChar j) :
      i = j := congrArg Fin.val (hall ⟨i, hi⟩ ⟨j, hj⟩ he)
  have hle : id.toNat ≤ 20 := UInt16.le_iff_toNat_le.mp hmax
  have hle' : id'.toNat ≤ 20 := UInt16.le_iff_toNat_le.mp hmax'
  rw [suffix_assigned hpos hmax, suffix_assigned hpos' hmax'] at h
  obtain ⟨htens, hunits, -⟩ : _ ∧ _ ∧ True := by simpa using h
  have h1 := hdigit (by omega) (by omega) htens
  have h2 := hdigit (by omega) (by omega) hunits
  exact UInt16.toNat_inj.mp (by omega)

/-- **Two boards go by one name exactly if they have the same id**, and without one the same last two
    bytes of the device id. -/
theorem names_tell {b b' : Board} (h : b.settings.Safe settingsGen) (h' : b'.settings.Safe settingsGen)
    (uid uid' : List UInt8) : (buildAd b uid).advName = (buildAd b' uid').advName ↔
      b.setting settingRobotId = b'.setting settingRobotId ∧
        (b.setting settingRobotId = 0 → lastTwo uid = lastTwo uid') := by
  have hle := robotId_le h
  have hle' := robotId_le h'
  have hpos {id : UInt16} (hne : id ≠ 0) : id > 0 := UInt16.pos_iff_ne_zero.mpr hne
  have hnames : (buildAd b uid).advName = (buildAd b' uid').advName ↔
      (suffix (b.setting settingRobotId) uid).toList =
        (suffix (b'.setting settingRobotId) uid').toList := by
    rw [buildAd_name, buildAd_name, ← String.toList_inj, String.toList_append, String.toList_append,
      List.append_right_inj]
  have hlen {id : UInt16} (hid : id > 0) (hmax : id ≤ 20) (u v : List UInt8) :
      (suffix id u).toList ≠ (suffix 0 v).toList := by
    intro heq
    have hl := congrArg List.length heq
    rw [suffix_assigned hid hmax, suffix_unassigned] at hl
    cases hv : lastTwo v with
    | none =>
      rw [hv] at hl
      cases hl
    | some p =>
      rw [hv, Option.elim_some, hex2_toList, hex2_toList] at hl
      cases hl
  rw [hnames]
  generalize b.setting settingRobotId = id at hle ⊢
  generalize b'.setting settingRobotId = id' at hle' ⊢
  by_cases hz : id = 0
  · by_cases hz' : id' = 0
    · subst hz hz'
      constructor
      · intro heq
        exact ⟨rfl, fun _ => suffix_unassigned_inj heq⟩
      · rintro ⟨-, htwo⟩
        rw [suffix_unassigned, suffix_unassigned, htwo rfl]
    · subst hz
      refine iff_of_false (fun heq => hlen (hpos hz') hle' uid' uid heq.symm) ?_
      rintro ⟨heq, -⟩
      exact hz' heq.symm
  · by_cases hz' : id' = 0
    · subst hz'
      refine iff_of_false (hlen (hpos hz) hle uid uid') ?_
      rintro ⟨heq, -⟩
      exact hz heq
    · constructor
      · intro heq
        exact ⟨suffix_assigned_inj (hpos hz) (hpos hz') hle hle' heq, fun h0 => absurd h0 hz⟩
      · rintro ⟨rfl, -⟩
        rw [suffix_assigned (hpos hz) hle, suffix_assigned (hpos hz) hle]

/-- Robots 1 and 20 go by different names, be their device ids the same. -/
theorem names_tell_two : (buildAd ((Board.fresh []).set settingRobotId 1) [0xA0, 0x3F]).advName ≠
    (buildAd ((Board.fresh []).set settingRobotId 20) [0xA0, 0x3F]).advName := by
  intro heq
  have hsafe (v : UInt16) : ((Board.fresh []).set settingRobotId v).settings.Safe settingsGen :=
    run_safe settingsGen crc32Ieee [.init none, .set settingRobotId v]
  have hids := ((names_tell (hsafe 1) (hsafe 20) [0xA0, 0x3F] [0xA0, 0x3F]).mp heq).1
  exact absurd hids (by decide +kernel)

/-! ## A scan -/

/-- What the host makes of an advertisement. -/
def Heard.found (h : Heard α) : Option (Found α) := h.identity.map fun info => ⟨info, h.address, h.rssi⟩

/-- The last advertisement of a robot heard from an address. -/
def lastAdvert (heard : List (Heard α)) (a : α) : Option (Heard α) :=
  (heard.filter fun h => decide (h.address = a) && h.identity.isSome).getLast?

theorem lastAdvert_snoc (heard : List (Heard α)) (h : Heard α) (a : α) :
    lastAdvert (heard ++ [h]) a =
      if h.address = a ∧ h.identity.isSome = true then some h else lastAdvert heard a := by
  rw [lastAdvert, List.filter_append]
  by_cases hh : h.address = a ∧ h.identity.isSome = true
  · rw [if_pos hh, List.filter_cons_of_pos (by simpa using hh), List.filter_nil, List.getLast?_concat]
  · rw [if_neg hh, List.filter_cons_of_neg (by simpa using hh), List.filter_nil, List.append_nil]
    rfl

/-- What an address has in `found` is what it advertised last. -/
theorem found_lookup (heard : List (Heard α)) (a : α) :
    lookup (heard.foldl onAdv []) a = (lastAdvert heard a).bind Heard.found := by
  induction heard using List.reverseRecOn with
  | nil => rfl
  | append_singleton heard h ih =>
    rw [List.foldl_append, lastAdvert_snoc]
    show lookup (onAdv _ h) a = _
    rw [onAdv]
    cases hid : h.identity with
    | none =>
      rw [if_neg (by rintro ⟨-, hs⟩; exact absurd hs (by decide))]
      exact ih
    | some info =>
      dsimp only
      rw [lookup_setItem]
      by_cases ha : h.address = a
      · rw [if_pos ha.symm, if_pos ⟨ha, rfl⟩, Option.bind_some, Heard.found, hid]
        rfl
      · rw [if_neg fun he => ha he.symm, if_neg fun he => ha he.1]
        exact ih

/-- No address is there twice. -/
theorem found_nodup (heard : List (Heard α)) : ((heard.foldl onAdv []).map Prod.fst).Nodup := by
  induction heard using List.reverseRecOn with
  | nil => exact List.nodup_nil
  | append_singleton heard h ih =>
    rw [List.foldl_append]
    show ((onAdv _ h).map Prod.fst).Nodup
    rw [onAdv]
    split
    · exact ih
    · exact nodup_setItem ih _ _

/-- An advertisement is found under its own address. -/
theorem lastAdvert_address {heard : List (Heard α)} {a : α} {e : Found α}
    (h : (lastAdvert heard a).bind Heard.found = some e) : e.address = a := by
  obtain ⟨x, hx, hfound⟩ := Option.bind_eq_some_iff.mp h
  obtain ⟨info, -, rfl⟩ := Option.map_eq_some_iff.mp hfound
  have hin := List.mem_of_getLast? hx
  have hcond := (List.mem_filter.mp hin).2
  exact of_decide_eq_true ((Bool.and_eq_true _ _).mp hcond).1

/-- Every value is found under its own address. -/
theorem found_address (heard : List (Heard α)) :
    (heard.foldl onAdv []).map (fun p => p.2.address) = (heard.foldl onAdv []).map Prod.fst := by
  refine List.map_congr_left fun p hp => ?_
  have hlook := (mem_iff_lookup (found_nodup heard) p.1 p.2).mp hp
  rw [found_lookup] at hlook
  exact lastAdvert_address hlook

/-- The sort keeps what was found. -/
theorem scanFleet_perm (heard : List (Heard α)) :
    (scanFleet heard).Perm ((heard.foldl onAdv []).map Prod.snd) := List.mergeSort_perm _ _

theorem scanFleet_nodup (heard : List (Heard α)) : ((scanFleet heard).map Found.address).Nodup := by
  rw [((scanFleet_perm heard).map Found.address).nodup_iff, List.map_map]
  show ((heard.foldl onAdv []).map fun p => p.2.address).Nodup
  rw [found_address]
  exact found_nodup heard

/-- Listed is what an address advertised last. -/
theorem mem_scanFleet (heard : List (Heard α)) (e : Found α) :
    e ∈ scanFleet heard ↔ (lastAdvert heard e.address).bind Heard.found = some e := by
  rw [(scanFleet_perm heard).mem_iff, List.mem_map, ← found_lookup]
  constructor
  · rintro ⟨p, hp, rfl⟩
    have hlook := (mem_iff_lookup (found_nodup heard) p.1 p.2).mp hp
    have haddr : p.2.address = p.1 := by
      rw [found_lookup] at hlook
      exact lastAdvert_address hlook
    rw [haddr]
    exact hlook
  · intro hlook
    exact ⟨(e.address, e), (mem_iff_lookup (found_nodup heard) _ _).mpr hlook, rfl⟩

/-- **What a scan lists**: in the order of the key, each address once, with the last of its
    advertisements that could be read as a robot's. -/
theorem scan_lists (heard : List (Heard α)) :
    (scanFleet heard).Pairwise (fun e f => sortKey e ≤ sortKey f) ∧
      ((scanFleet heard).map Found.address).Nodup ∧
      ∀ e, e ∈ scanFleet heard ↔ (lastAdvert heard e.address).bind Heard.found = some e := by
  refine ⟨?_, scanFleet_nodup heard, mem_scanFleet heard⟩
  have hsorted := @List.pairwise_mergeSort _ (fun e f : Found α => decide (sortKey e ≤ sortKey f))
    (fun a b c hab hbc => decide_eq_true (le_trans (of_decide_eq_true hab) (of_decide_eq_true hbc)))
    (fun a b => by
      rw [Bool.or_eq_true, decide_eq_true_eq, decide_eq_true_eq]
      exact le_total _ _)
    ((heard.foldl onAdv []).map Prod.snd)
  exact hsorted.imp fun hle => of_decide_eq_true hle

/-! ## A selection -/

/-- The advertisement is the one a board composed. -/
def Heard.Of (h : Heard α) (b : Board) (uid : List UInt8) : Prop :=
  h.name = some (buildAd b uid).advName ∧
    h.manufacturerData = delivered (buildAd b uid).advMfg

omit [DecidableEq α] in
/-- The id a host reads in it. -/
theorem Heard.Of.found {h : Heard α} {b : Board} {uid : List UInt8} (hof : h.Of b uid)
    (hsafe : b.settings.Safe settingsGen) :
    ∃ e, h.found = some e ∧ e.address = h.address ∧
      e.info.robotId = some (b.setting settingRobotId).toNat := by
  have hread := parseAdv_buildAd hsafe uid
  have hid : h.identity = some ⟨(buildAd b uid).advName, some (b.setting settingRobotId).toNat,
      some (1, 5, 1), some (imuLogActive b.log)⟩ := by
    rw [Heard.identity, hof.1, hof.2]
    exact hread
  exact ⟨_, by rw [Heard.found, hid]; rfl, rfl, rfl⟩

/-- Every advertisement of a robot was composed by the firmware, over settings of the registry. -/
def FirmwareOnly (board : Heard α → Board × List UInt8) (heard : List (Heard α)) : Prop :=
  ∀ h ∈ heard, h.identity.isSome = true →
    (board h).1.settings.Safe settingsGen ∧ h.Of (board h).1 (board h).2

/-- The id a board has when it composes the advertisement. -/
def idOf (board : Heard α → Board × List UInt8) (h : Heard α) : Int :=
  ((board h).1.setting settingRobotId).toNat

section Selection

variable {board : Heard α → Board × List UInt8} {heard : List (Heard α)}

/-- What is listed for an address has the id of the board that advertised last. -/
theorem listed_id (hfw : FirmwareOnly board heard) {a : α} {h : Heard α}
    (hlast : lastAdvert heard a = some h) :
    ∃ e, e ∈ scanFleet heard ∧ e.address = a ∧ e.info.robotId.map Int.ofNat = some (idOf board h) := by
  have hin := List.mem_filter.mp (List.mem_of_getLast? hlast)
  obtain ⟨haddr, hsome⟩ := (Bool.and_eq_true _ _).mp hin.2
  obtain ⟨hsafe, hof⟩ := hfw h hin.1 hsome
  obtain ⟨e, he, headdr, hid⟩ := hof.found hsafe
  have ha : e.address = a := headdr.trans (of_decide_eq_true haddr)
  refine ⟨e, (mem_scanFleet heard e).mpr ?_, ha, ?_⟩
  · rw [ha, hlast, Option.bind_some, he]
  · rw [hid]
    rfl

/-- And nothing else is listed. -/
theorem listed_of (hfw : FirmwareOnly board heard) {e : Found α} (he : e ∈ scanFleet heard) :
    ∃ h, lastAdvert heard e.address = some h ∧
      e.info.robotId.map Int.ofNat = some (idOf board h) := by
  have hlook := (mem_scanFleet heard e).mp he
  obtain ⟨h, hlast, hfound⟩ := Option.bind_eq_some_iff.mp hlook
  obtain ⟨e', he', haddr', hid⟩ := listed_id hfw hlast
  have hlook' := (mem_scanFleet heard e').mp he'
  rw [haddr', hlast, Option.bind_some, hfound] at hlook'
  obtain rfl := Option.some.inj hlook'
  exact ⟨h, hlast, hid⟩

omit [DecidableEq α] in
/-- A listed robot is wanted if its id is. -/
theorem wanted_iff {want : List Int} {e : Found α} {i : Int}
    (h : e.info.robotId.map Int.ofNat = some i) : wanted want e = true ↔ i ∈ want := by
  rw [wanted]
  cases hid : e.info.robotId with
  | none =>
    rw [hid] at h
    cases h
  | some n =>
    rw [hid] at h
    obtain rfl := Option.some.inj h
    exact decide_eq_true_iff

/-- **`--robots` picks the robots that advertised a wanted id last**, each once, or it exits: then a
    wanted id is advertised by none. -/
theorem fleet_selects (hfw : FirmwareOnly board heard) (want : List Int) :
    (∀ sel, selectTargets (scanFleet heard) false (some want) = some sel →
      (sel.map Found.address).Nodup ∧
        (∀ a, a ∈ sel.map Found.address ↔ ∃ h, lastAdvert heard a = some h ∧ idOf board h ∈ want) ∧
        ∀ w ∈ want, ∃ a h, lastAdvert heard a = some h ∧ idOf board h = w) ∧
      (selectTargets (scanFleet heard) false (some want) = none →
        ∃ w ∈ want, ∀ a h, lastAdvert heard a = some h → idOf board h ≠ w) := by
  have hsel : selectTargets (scanFleet heard) false (some want) =
      if want.all fun w => ((scanFleet heard).filter (wanted want)).any fun e =>
          e.info.robotId.map Int.ofNat == some w
      then some ((scanFleet heard).filter (wanted want)) else none := rfl
  -- a wanted id that some selected robot has is one that some address advertised last
  have hvisible (w : Int) (hw : w ∈ want) :
      (((scanFleet heard).filter (wanted want)).any fun e =>
        e.info.robotId.map Int.ofNat == some w) = true ↔
      ∃ a h, lastAdvert heard a = some h ∧ idOf board h = w := by
    rw [List.any_eq_true]
    constructor
    · rintro ⟨e, he, hid⟩
      obtain ⟨h, hlast, hid'⟩ := listed_of hfw (List.mem_filter.mp he).1
      rw [hid'] at hid
      exact ⟨e.address, h, hlast, Option.some.inj (beq_iff_eq.mp hid)⟩
    · rintro ⟨a, h, hlast, rfl⟩
      obtain ⟨e, he, -, hid⟩ := listed_id hfw hlast
      exact ⟨e, List.mem_filter.mpr ⟨he, (wanted_iff hid).mpr hw⟩, beq_iff_eq.mpr hid⟩
  rw [hsel]
  constructor
  · intro sel hsome
    split at hsome
    · rename_i hall
      obtain rfl := Option.some.inj hsome
      refine ⟨?_, fun a => ?_, fun w hw => (hvisible w hw).mp (List.all_eq_true.mp hall w hw)⟩
      · exact (scanFleet_nodup heard).sublist (List.filter_sublist.map _)
      · rw [List.mem_map]
        constructor
        · rintro ⟨e, he, rfl⟩
          obtain ⟨hin, hw⟩ := List.mem_filter.mp he
          obtain ⟨h, hlast, hid⟩ := listed_of hfw hin
          exact ⟨h, hlast, (wanted_iff hid).mp hw⟩
        · rintro ⟨h, hlast, hw⟩
          obtain ⟨e, he, haddr, hid⟩ := listed_id hfw hlast
          exact ⟨e, List.mem_filter.mpr ⟨he, (wanted_iff hid).mpr hw⟩, haddr⟩
    · cases hsome
  · intro hnone
    split at hnone
    · cases hnone
    · rename_i hall
      rw [List.all_eq_true] at hall
      obtain ⟨w, hall⟩ := not_forall.mp hall
      obtain ⟨hw, hno⟩ := Classical.not_imp.mp hall
      refine ⟨w, hw, fun a h hlast heq => hno ((hvisible w hw).mpr ⟨a, h, hlast, heq⟩)⟩

end Selection

/-- An advertisement as a scanner hears it. -/
def sent (a : Nat) (b : Board) (uid : List UInt8) : Heard Nat where
  address := a
  deviceName := none
  localName := some (buildAd b uid).advName
  manufacturerData := delivered (buildAd b uid).advMfg
  rssi := -60

/-- The board of a robot with an id. -/
def numbered (id : UInt16) : Board := (Board.fresh []).set settingRobotId id

/-- Two robots, the second of them heard as robot 2 and then, assigned anew, as robot 3. -/
def twoRobots : List (Heard Nat) :=
  [sent 10 (numbered 1) [], sent 20 (numbered 2) [], sent 20 (numbered 3) []]

/-- Which board composed which of them. -/
def composer (h : Heard Nat) : Board × List UInt8 :=
  (numbered (if h.localName = some "Cat-01" then 1 else if h.localName = some "Cat-02" then 2 else 3), [])

theorem twoRobots_firmware : FirmwareOnly composer twoRobots := by
  have hsafe (v : UInt16) : (numbered v).settings.Safe settingsGen :=
    run_safe settingsGen crc32Ieee [.init none, .set settingRobotId v]
  have hname : (buildAd (numbered 1) []).advName = "Cat-01" ∧
      (buildAd (numbered 2) []).advName = "Cat-02" ∧ (buildAd (numbered 3) []).advName = "Cat-03" := by
    decide +kernel
  obtain ⟨h1, h2, h3⟩ := hname
  have hcomposer (a : Nat) (v : UInt16)
      (hv : composer (sent a (numbered v) []) = (numbered v, [])) :
      (composer (sent a (numbered v) [])).1.settings.Safe settingsGen ∧
        (sent a (numbered v) []).Of (composer (sent a (numbered v) [])).1
          (composer (sent a (numbered v) [])).2 := by
    rw [hv]
    exact ⟨hsafe v, rfl, rfl⟩
  rintro h hin -
  rcases List.mem_cons.mp hin with rfl | hin
  · refine hcomposer 10 1 ?_
    rw [composer, sent, h1]
    rfl
  · rcases List.mem_cons.mp hin with rfl | hin
    · refine hcomposer 20 2 ?_
      rw [composer, sent, h2]
      rfl
    · obtain rfl := List.mem_singleton.mp hin
      refine hcomposer 20 3 ?_
      rw [composer, sent, h3]
      rfl

/-- Robot 3 is to be deployed: it is the one at address 20. -/
theorem fleet_selects_third : ∃ sel,
    selectTargets (scanFleet twoRobots) false (some [3]) = some sel ∧ 20 ∈ sel.map Found.address := by
  obtain ⟨hsome, hnone⟩ := fleet_selects twoRobots_firmware [3]
  have hlast : lastAdvert twoRobots 20 = some (sent 20 (numbered 3) []) := by
    have hsplit : twoRobots =
        [sent 10 (numbered 1) [], sent 20 (numbered 2) []] ++ [sent 20 (numbered 3) []] := rfl
    rw [hsplit, lastAdvert_snoc, if_pos]
    exact ⟨rfl, by decide +kernel⟩
  have hid : idOf composer (sent 20 (numbered 3) []) = 3 := by decide +kernel
  cases hsel : selectTargets (scanFleet twoRobots) false (some [3]) with
  | none =>
    obtain ⟨w, hw, hno⟩ := hnone hsel
    obtain rfl := List.mem_singleton.mp hw
    exact absurd hid (hno 20 _ hlast)
  | some sel =>
    refine ⟨sel, rfl, ((hsome sel hsel).2.1 20).mpr ⟨_, hlast, ?_⟩⟩
    rw [hid]
    exact List.mem_singleton_self 3

end Caterpillar.Host.Fleet

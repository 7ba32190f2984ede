import KlteCommon.Analysis.Session

/-!
# The calibration

A calibration is a length and that many bytes out of a reply. `vcs_update_cal_data` always takes
the one it is sent, `vcs_resume` only if it has none, and `vcs_resume` sends back what is kept. The
length is a word of the reply plus a constant, which nothing tests.

The ladder: what is kept of it is a fold of the replies of its own (`calibration_of_stage`); so the
lengths fit the arrays in the runs in which those of the replies do (`calibrationInBounds_of_fits`),
and there the requests send back the calibration last stored (`replayed`).
-/

set_option autoImplicit false

namespace KlteCommon.Analysis

open KlteCommon.Computation KlteCommon.Fingerprint

/-! ## What is observed -/

/-- `BUFFER_LENGTH` -/
def bufferLength : ℕ := 0x19000

/-- A length with which all copies stay within their arrays: `calibrate_data`, the `data` of a
reply from its second word on, and the `data` of a request from byte 4 on. -/
structure LengthFits (len : CInt) : Prop where
  nonneg : 0 ≤ len.toInt
  kept : len.toUInt32.toNat ≤ calibrateDataMaxLength
  reply : 4 * 2 + len.toUInt32.toNat ≤ 4 * (bufferLength / 4 - 2)
  request : 4 + len.toUInt32.toNat ≤ bufferLength - 12

/-- The length word of a reply and what is added to it. -/
def calibrationLength (r : Reply) : ℤ := (r.data 3).toInt + 0xf

/-- The length of a reply fits. -/
def ReplyFits (r : Reply) : Prop :=
  0 ≤ calibrationLength r ∧ calibrationLength r ≤ calibrateDataMaxLength

/-- A reply whose calibration is stored, given what the thread did before. -/
def isStored (es : List HalEvent) (req : Request) (r : Reply) : Prop :=
  r.failed = false ∧
    (isCalUpdate req = true ∨ isCalDevice req = true ∧ (goodSession es).calibrateLen = 0)

/-- A reply whose calibration is stored has a length that fits. -/
def StoredFits (es : List HalEvent) : HalEvent → Prop
  | .op (.qseecomSendCmd req) r => isStored es req r → ReplyFits r
  | _ => True

/-! ## What is kept -/

/-- The calibration a session keeps. -/
def AppSession.calibration (x : AppSession) : CInt × Bytes calibrateDataMaxLength :=
  (x.calibrateLen, x.calibrateData)

/-- The calibration after a reply. -/
def calibrationAfter (old : CInt × Bytes calibrateDataMaxLength) (req : Request) (r : Reply) :
    CInt × Bytes calibrateDataMaxLength :=
  if r.failed = false ∧ (isCalUpdate req = true ∨ isCalDevice req = true ∧ old.1 = 0) then
    Fingerprint.calibration r old.2
  else old

/-- Other commands leave the calibration as it is. -/
theorem calibrationAfter_of_other {req : Request} (hupdate : isCalUpdate req = false)
    (hdevice : isCalDevice req = false) (old : CInt × Bytes calibrateDataMaxLength) (r : Reply) :
    calibrationAfter old req r = old := by
  simp [calibrationAfter, hupdate, hdevice]

/-- What a reply does to the calibration, if it is good. -/
theorem calibration_good (x : AppSession) (req : Request) (r : Reply) :
    (x.good req r).calibration = calibrationAfter x.calibration req r := by
  unfold AppSession.good
  by_cases htoken : req.vendorCmd = .vendorGetAuthToken
  · rw [if_pos htoken, calibrationAfter_of_other (by simp [isCalUpdate, htoken])
      (by simp [isCalDevice, htoken])]
    cases r.failed <;> simp [AppSession.calibration]
  rw [if_neg htoken]
  by_cases hend : req.cmd = .vfmAuthSessionEnd
  · rw [if_pos hend, calibrationAfter_of_other (by simp [isCalUpdate, hend])
      (by simp [isCalDevice, hend])]
    rfl
  rw [if_neg hend]
  cases hfailed : r.failed with
  | true => simp [calibrationAfter, hfailed]
  | false =>
    by_cases hbegin : req.cmd = .vfmAuthSessionBegin
    · rw [calibrationAfter_of_other (by simp [isCalUpdate, hbegin]) (by simp [isCalDevice, hbegin])]
      simp [hbegin, AppSession.calibration]
    · simp only [hbegin, calibrationAfter, hfailed, AppSession.calibration, AppSession.calibrated]
      simp only [Bool.false_eq_true, if_false, true_and]
      split <;> rfl

/-- What the code does to it. -/
theorem calibration_answered (x : AppSession) (req : Request) (r : Reply) :
    (x.answered req r).calibration = calibrationAfter x.calibration req r := by
  unfold AppSession.answered
  cases hfirst : isFirstToken req with
  | true =>
    have hvendor := vendorCmd_of_first hfirst
    exact (calibrationAfter_of_other (by simp [isCalUpdate, hvendor])
      (by simp [isCalDevice, hvendor]) _ r).symm
  | false =>
    cases hsecond : isSecondToken req with
    | true =>
      have hvendor := vendorCmd_of_second hsecond
      rw [calibrationAfter_of_other (by simp [isCalUpdate, hvendor])
        (by simp [isCalDevice, hvendor])]
      by_cases hresult : r.result = 0 <;> simp [hresult, AppSession.calibration]
    | false => exact calibration_good x req r

/-- What the code keeps of the calibration is what the good replies say. -/
theorem calibration_of_stage {es : List HalEvent} {y : SessionStage}
    (h : sessionProtocol.stage ⟨.zero, .zero, none⟩ es = some y) :
    y.due.calibration = (goodSession es).calibration := by
  induction es generalizing y with
  | nil =>
    cases h
    rfl
  | cons e es ih =>
    obtain ⟨x, hx, hy⟩ := Option.bind_eq_some_iff.mp h
    obtain ⟨req, r, rfl, -, -, hdue, -⟩ | ⟨hne, -, hdue, -⟩ := due_of_after hy
    · rw [hdue, calibration_answered, ih hx]
      exact (calibration_good _ req r).symm
    · rw [hdue, goodSession_of_ne hne]
      exact ih hx

/-! ## The lengths -/

/-- The length that is computed from a fitting reply does not wrap. -/
theorem calibrationLength_fits {r : Reply} (h : ReplyFits r) :
    (r.data 3 + 0xf).toInt = calibrationLength r := by
  obtain ⟨hlow, hhigh⟩ := h
  unfold calibrationLength at hlow hhigh ⊢
  simp only [calibrateDataMaxLength] at hhigh
  rw [Int32.toInt_add, show (0xf : CInt).toInt = 0xf from rfl]
  exact Int.bmod_eq_of_le (by omega) (by omega)

/-- The length 0 fits. -/
theorem lengthFits_zero : LengthFits 0 := ⟨by decide, by decide, by decide, by decide⟩

/-- A length up to that of the array fits. -/
theorem lengthFits_of_le {len : CInt} (hlow : 0 ≤ len.toInt)
    (hhigh : len.toInt ≤ calibrateDataMaxLength) : LengthFits len := by
  have hnat : (len.toUInt32.toNat : ℤ) = len.toInt := by
    have hle : (0 : CInt) ≤ len := by simpa [Int32.le_iff_toInt_le] using hlow
    rw [Int32.toNat_toUInt32_of_le hle]
    exact Int.toNat_of_nonneg hlow
  simp only [calibrateDataMaxLength] at hhigh
  refine ⟨hlow, ?_, ?_, ?_⟩ <;> simp only [calibrateDataMaxLength, bufferLength] <;> omega

/-- The length after a reply that fits, if it is stored. -/
theorem lengthFits_after {old : CInt × Bytes calibrateDataMaxLength} {req : Request} {r : Reply}
    (hold : LengthFits old.1)
    (hr : r.failed = false → isCalUpdate req = true ∨ isCalDevice req = true ∧ old.1 = 0 →
      ReplyFits r) : LengthFits (calibrationAfter old req r).1 := by
  unfold calibrationAfter
  split
  · rename_i hstored
    have hfits := hr hstored.1 hstored.2
    have hlen := calibrationLength_fits hfits
    exact lengthFits_of_le (hlen ▸ hfits.1) (hlen ▸ hfits.2)
  · exact hold

/-- The lengths that are to be kept fit. -/
theorem lengthFits_good {es : List HalEvent}
    (hok : ∀ e earlier, e :: earlier <:+ es → StoredFits earlier e) :
    LengthFits (goodSession es).calibrateLen := by
  induction es with
  | nil => exact lengthFits_zero
  | cons e es ih =>
    have hes := ih fun e' earlier he => hok e' earlier (he.trans (List.suffix_cons _ _))
    by_cases hsend : ∃ req r, e = .op (.qseecomSendCmd req) r
    · obtain ⟨req, r, rfl⟩ := hsend
      have hlen : LengthFits (calibrationAfter (goodSession es).calibration req r).1 :=
        lengthFits_after hes fun hgood hstored => hok _ _ List.suffix_rfl ⟨hgood, hstored⟩
      rw [← calibration_good] at hlen
      exact hlen
    · rwa [goodSession_of_ne fun req r he => hsend ⟨req, r, he⟩]

/-- The length that is kept changes to the one that is due. -/
theorem held_of_after {x y : SessionStage} {e : HalEvent} (h : x.after e = some y) :
    y.held.calibrateLen = x.held.calibrateLen ∨ y.held.calibrateLen = x.due.calibrateLen := by
  unfold SessionStage.after at h
  split at h
  · split at h
    · cases h
      exact .inl rfl
    · cases h
  · rename_i o r hne
    split at h
    · rename_i ho
      cases h
      cases o with
      | store v a =>
        cases v with
        | calibrateLen => exact .inr ho.2
        | _ => exact .inl rfl
      | clearTz => exact ho.2.elim
      | _ => exact .inl rfl
    · cases h
  · split at h
    · cases h
      exact .inl rfl
    · cases h
  · cases h

/-- The length that is kept fits. -/
theorem lengthFits_held {es : List HalEvent} {y : SessionStage}
    (hok : ∀ e earlier, e :: earlier <:+ es → StoredFits earlier e)
    (h : sessionProtocol.stage ⟨.zero, .zero, none⟩ es = some y) :
    LengthFits y.held.calibrateLen := by
  induction es generalizing y with
  | nil =>
    cases h
    exact lengthFits_zero
  | cons e es ih =>
    obtain ⟨x, hx, hy⟩ := Option.bind_eq_some_iff.mp h
    have hok' : ∀ e' earlier, e' :: earlier <:+ es → StoredFits earlier e' := fun e' earlier he =>
      hok e' earlier (he.trans (List.suffix_cons _ _))
    obtain heq | heq := held_of_after hy
    · rw [heq]
      exact ih hok' hx
    · have hdue := congrArg Prod.fst (calibration_of_stage hx)
      rw [heq, show x.due.calibrateLen = (goodSession es).calibrateLen from hdue]
      exact lengthFits_good hok'

/-- An event of a run, and the stage it was met in. -/
theorem stage_of_mem {es : List HalEvent} {y : SessionStage} {e : HalEvent}
    (h : sessionProtocol.stage ⟨.zero, .zero, none⟩ es = some y) (he : e ∈ es) :
    ∃ x z earlier, e :: earlier <:+ es ∧ x.after e = some z ∧
      sessionProtocol.stage ⟨.zero, .zero, none⟩ earlier = some x := by
  obtain ⟨later, earlier, rfl⟩ := List.append_of_mem he
  obtain ⟨x, z, hx, hz⟩ := Protocol.stage_split h
  exact ⟨x, z, earlier, List.suffix_append _ _, hz, hx⟩

/-- A length is only stored when it is due. -/
theorem due_of_store {x z : SessionStage} {len : CInt} {u : Unit}
    (h : x.after (.op (.store .calibrateLen len) u) = some z) : len = x.due.calibrateLen := by
  simp only [SessionStage.after] at h
  split at h
  · rename_i ho
    exact ho.2
  · cases h

/-- All copies of a calibration stay in bounds, and no length overflows: the length that is kept,
the one of each reply that is stored, the lengths that are written and the ones that are sent. -/
structure CalibrationInBounds (es : List HalEvent) (m : Mem) : Prop where
  kept : LengthFits m.tz.calibrateLen
  sum : ∀ req r earlier old, .op (.qseecomSendCmd req) r :: earlier <:+ es →
    isStored earlier req r → (calibration r old).1.toInt = calibrationLength r
  stored : ∀ len u, .op (.store .calibrateLen len) u ∈ es → LengthFits len
  sent : ∀ req r, .op (.qseecomSendCmd req) r ∈ es → req.cmd = .vfmDeviceCalibrate →
    LengthFits req.len

/-- **The lengths are in bounds** in every run in which those of the replies that are stored
are. -/
theorem calibrationInBounds_of_fits {α : Type} {t : Tid} {p₀ p : Code α} {m₀ m : Mem}
    {es : List HalEvent} (hp₀ : Outside p₀) (h₀ : sessionOf m₀ = .zero)
    (h : Amid hal fine SameSession StoredFits t p₀ m₀ es p m) : CalibrationInBounds es m := by
  obtain ⟨y, hy, hm, -⟩ := session_amid hp₀ h₀ h
  have hok : ∀ e earlier, e :: earlier <:+ es → StoredFits earlier e := fun _ _ => h.meets
  have hdue : ∀ {e earlier x}, e :: earlier <:+ es →
      sessionProtocol.stage ⟨.zero, .zero, none⟩ earlier = some x →
      LengthFits x.due.calibrateLen := by
    intro e earlier x hsuffix hx
    rw [show x.due.calibrateLen = _ from congrArg Prod.fst (calibration_of_stage hx)]
    exact lengthFits_good fun e' earlier' he =>
      hok e' earlier' (he.trans ((List.suffix_cons _ _).trans hsuffix))
  refine ⟨?_, fun req r earlier old he hstored => ?_, fun len u he => ?_, fun req r he hreq => ?_⟩
  · rw [show m.tz.calibrateLen = _ from congrArg AppSession.calibrateLen hm]
    exact lengthFits_held hok hy
  · exact calibrationLength_fits (hok _ _ he hstored)
  · obtain ⟨x, z, earlier, hsuffix, hz, hx⟩ := stage_of_mem hy he
    rw [due_of_store hz]
    exact hdue hsuffix hx
  · obtain ⟨x, z, earlier, hsuffix, hz, hx⟩ := stage_of_mem hy he
    obtain ⟨req', r', heq, -, hcarries, -⟩ | ⟨hne, -⟩ := due_of_after hz
    · cases heq
      rw [(hcarries.2 hreq).1]
      split
      · exact hdue hsuffix hx
      · exact lengthFits_of_le (by decide) (by decide)
    · exact absurd rfl (hne req r)

/-- The replies with length word 0. -/
def zeroLength : HalEvent → Bool
  | .op (.qseecomSendCmd _) r => r.data 3 == 0
  | _ => true

/-- A reply with length 0 fits. -/
theorem replyFits_of_zero {req : Request} {r : Reply}
    (h : zeroLength (.op (.qseecomSendCmd req) r) = true) : r.data 3 = 0 ∧ ReplyFits r := by
  have hzero : r.data 3 = 0 := by simpa [zeroLength] using h
  exact ⟨hzero, by simp [ReplyFits, calibrationLength, hzero, calibrateDataMaxLength]⟩

/-- `StoredFits` from its executable form. -/
theorem storedFits_of_zero {e : HalEvent} (es : List HalEvent) (h : zeroLength e = true) :
    StoredFits es e := by
  unfold StoredFits
  split
  · exact fun _ => (replyFits_of_zero h).2
  · trivial

/-- A calibration is updated by a reply with length word 0. -/
theorem calibrationInBounds_of_fits_update : ∃ es m,
    Amid hal fine SameSession StoredFits 1 (call .vcsUpdateCalData) Mem.started es (.ret 0) m ∧
      m.tz.calibrateLen = 0xf ∧ CalibrationInBounds es m := by
  obtain ⟨es, m, h, hlen, hes⟩ : ∃ es m, hal.solo (fun _ => false) 1
      [.tick, .tick, .reply (.good 0), .tick, .tick, .tick] (call .vcsUpdateCalData) Mem.started =
        some (es, .ret 0, m) ∧ m.tz.calibrateLen = 0xf ∧ es.all zeroLength = true :=
    ⟨_, _, rfl, rfl, rfl⟩
  have hrun : Amid hal fine SameSession StoredFits 1 (call .vcsUpdateCalData) Mem.started
      es.reverse (.ret 0) m :=
    List.append_nil es.reverse ▸ Amid.start.solo (fun _ => rfl)
      (fun earlier e he => storedFits_of_zero earlier (List.all_eq_true.mp hes e he)) h
  have houtside : Outside (call .vcsUpdateCalData) := ⟨trivial, fun _ => trivial⟩
  exact ⟨es.reverse, m, hrun, hlen, calibrationInBounds_of_fits houtside rfl hrun⟩

/-- A reply with the largest length word, whose sum overflows. -/
theorem calibrateLen_overflows : ∃ es m,
    Amid hal fine SameSession (fun _ _ => True) 1 (call .vcsUpdateCalData) Mem.started es
      (.ret 0) m ∧
      m.tz.calibrateLen.toInt = -2147483634 ∧ ¬ CalibrationInBounds es m := by
  obtain ⟨es, m, h, hlen⟩ : ∃ es m, hal.solo (fun _ => false) 1
      [.tick, .tick, .reply (.good 0x7fffffff), .tick, .tick, .tick] (call .vcsUpdateCalData)
        Mem.started = some (es, .ret 0, m) ∧ m.tz.calibrateLen.toInt = -2147483634 := ⟨_, _, rfl, rfl⟩
  refine ⟨es.reverse, m, List.append_nil es.reverse ▸
    Amid.start.solo (fun _ => rfl) (fun _ _ _ => trivial) h, hlen, fun hbounds => ?_⟩
  have hnonneg := hbounds.kept.nonneg
  omega

/-! ## The replay -/

/-- The most recent good reply to `vendorUpdateCalData`. -/
def lastUpdate : List HalEvent → Option Reply
  | [] => none
  | .op (.qseecomSendCmd req) r :: es =>
    if isCalUpdate req && !r.failed then some r else lastUpdate es
  | _ :: es => lastUpdate es

/-- The first good reply to `vfmDeviceCalibrate`. -/
def firstCalibrate : List HalEvent → Option Reply
  | [] => none
  | .op (.qseecomSendCmd req) r :: es =>
    (firstCalibrate es).or (if isCalDevice req && !r.failed then some r else none)
  | _ :: es => firstCalibrate es

/-- The calibration last stored. -/
def lastCalibration (es : List HalEvent) : Option Reply := (lastUpdate es).or (firstCalibrate es)

/-- A good calibration reply has a length word that is not negative and a length that fits. -/
def GoodFits (_ : List HalEvent) : HalEvent → Prop
  | .op (.qseecomSendCmd req) r => r.failed = false →
    isCalUpdate req = true ∨ isCalDevice req = true →
      0 ≤ (r.data 3).toInt ∧ calibrationLength r ≤ calibrateDataMaxLength
  | _ => True

/-- The data of a `vfmDeviceCalibrate` request with `blob` behind its header. -/
def calibrateBlob (blob : List (ℕ × List UInt8)) : List (ℕ × List UInt8) :=
  (0, [0xc0]) :: (1, [0x12]) :: blob

/-- A `vfmDeviceCalibrate` request sends back a calibration: its length, and its bytes from byte 4
on; without one the length is `0x10`. -/
def Replays (req : Request) : Option Reply → Prop
  | none => req.len = 0x10 ∧ req.data = calibrateBlob []
  | some r => req.len.toInt = calibrationLength r ∧ req.data =
      calibrateBlob [(4, (r.bytes calibrateDataMaxLength).toList.take (calibrationLength r).toNat)]

/-- What is kept when this was last stored. -/
def Keeps (kept : CInt × Bytes calibrateDataMaxLength) : Option Reply → Prop
  | none => kept.1 = 0
  | some r => 0 < kept.1.toInt ∧ kept.1.toInt = calibrationLength r ∧
      kept.2.toList.take (calibrationLength r).toNat =
        (r.bytes calibrateDataMaxLength).toList.take (calibrationLength r).toNat

/-- The overlaid part of an array is that of the new one. -/
theorem take_overlaid {N : ℕ} (new old : Bytes N) (n : ℕ) :
    (Vector.ofFn fun i : Fin N => if i.val < n then new.get i else old.get i).toList.take n =
      new.toList.take n := by
  refine List.ext_getElem (by simp) fun i hi _ => ?_
  have hin : i < n := by
    simp only [List.length_take] at hi
    omega
  simp [hin]
  rfl

/-- A length that is not negative, as a `size_t`. -/
theorem toNat_of_length {len : CInt} (h : 0 ≤ len.toInt) :
    len.toUInt32.toNat = len.toInt.toNat := by
  have hle : (0 : CInt) ≤ len := by simpa [Int32.le_iff_toInt_le] using h
  rw [Int32.toNat_toUInt32_of_le hle]
  rfl

/-- A calibration that is stored. -/
theorem keeps_calibration {r : Reply} (hlow : 0 ≤ (r.data 3).toInt)
    (hhigh : calibrationLength r ≤ calibrateDataMaxLength) (old : Bytes calibrateDataMaxLength) :
    Keeps (calibration r old) (some r) := by
  have hlen : (r.data 3 + 0xf).toInt = calibrationLength r :=
    calibrationLength_fits ⟨by unfold calibrationLength; omega, hhigh⟩
  have hpos : 0 < calibrationLength r := by unfold calibrationLength; omega
  refine ⟨hlen ▸ hpos, hlen, ?_⟩
  have hnat : (r.data 3 + 0xf).toUInt32.toNat = _ := toNat_of_length (by omega)
  rw [hlen] at hnat
  rw [← hnat]
  exact take_overlaid _ _ _

/-- The last calibration behind a command. -/
theorem lastCalibration_send (req : Request) (r : Reply) (es : List HalEvent) :
    lastCalibration (.op (.qseecomSendCmd req) r :: es) =
      if isCalUpdate req && !r.failed then some r
      else (lastCalibration es).or (if isCalDevice req && !r.failed then some r else none) := by
  simp only [lastCalibration, lastUpdate, firstCalibrate]
  split
  · rfl
  · exact (Option.or_assoc ..).symm

/-- Other events leave it as it is. -/
theorem lastCalibration_of_ne {e : HalEvent} (h : ∀ req r, e ≠ .op (.qseecomSendCmd req) r)
    (es : List HalEvent) : lastCalibration (e :: es) = lastCalibration es := by
  cases e with
  | op o r => cases o <;> first | rfl | exact absurd rfl (h _ _)
  | enter c | done c r => rfl

/-- One reply. -/
theorem keeps_after {kept : CInt × Bytes calibrateDataMaxLength} {es : List HalEvent}
    {req : Request} {r : Reply} (hfits : GoodFits es (.op (.qseecomSendCmd req) r))
    (h : Keeps kept (lastCalibration es)) :
    Keeps (calibrationAfter kept req r) (lastCalibration (.op (.qseecomSendCmd req) r :: es)) := by
  rw [lastCalibration_send]
  unfold calibrationAfter
  cases hfailed : r.failed with
  | true => simpa using h
  | false =>
    cases hupdate : isCalUpdate req with
    | true =>
      obtain ⟨hlow, hhigh⟩ := hfits hfailed (.inl hupdate)
      simpa using keeps_calibration hlow hhigh _
    | false =>
      cases hdevice : isCalDevice req with
      | false => simpa using h
      | true =>
        obtain ⟨hlow, hhigh⟩ := hfits hfailed (.inr hdevice)
        cases hlast : lastCalibration es with
        | none =>
          rw [hlast] at h
          have hzero : kept.1 = 0 := h
          simpa [hzero] using keeps_calibration hlow hhigh _
        | some c =>
          rw [hlast] at h
          have hne : kept.1 ≠ 0 := fun hzero => by
            have hpos := h.1
            rw [hzero] at hpos
            exact absurd hpos (by decide)
          simpa [hne] using h

/-- What is kept is what was last stored. -/
theorem keeps_good {es : List HalEvent}
    (hok : ∀ e earlier, e :: earlier <:+ es → GoodFits earlier e) :
    Keeps (goodSession es).calibration (lastCalibration es) := by
  induction es with
  | nil => rfl
  | cons e es ih =>
    have hes := ih fun e' earlier he => hok e' earlier (he.trans (List.suffix_cons _ _))
    by_cases hsend : ∃ req r, e = .op (.qseecomSendCmd req) r
    · obtain ⟨req, r, rfl⟩ := hsend
      rw [goodSession, calibration_good]
      exact keeps_after (hok _ _ List.suffix_rfl) hes
    · have hne : ∀ req r, e ≠ .op (.qseecomSendCmd req) r := fun req r he => hsend ⟨req, r, he⟩
      rwa [goodSession_of_ne hne, lastCalibration_of_ne hne]

/-- **The calibration is replayed.** In every run in which the lengths of the good calibration
replies fit, every `vfmDeviceCalibrate` request sends back the calibration last stored. -/
theorem replayed {α : Type} {t : Tid} {p₀ p : Code α} {m₀ m : Mem} {es : List HalEvent}
    (hp₀ : Outside p₀) (h₀ : sessionOf m₀ = .zero)
    (h : Amid hal fine SameSession GoodFits t p₀ m₀ es p m) {req : Request} {r : Reply}
    {earlier : List HalEvent} (he : .op (.qseecomSendCmd req) r :: earlier <:+ es)
    (hreq : req.cmd = .vfmDeviceCalibrate) : Replays req (lastCalibration earlier) := by
  obtain ⟨y, hy, -, -⟩ := session_amid hp₀ h₀ h
  obtain ⟨later, rfl⟩ := he
  obtain ⟨x, z, hx, hz⟩ := Protocol.stage_split hy
  have hafter : x.after (.op (.qseecomSendCmd req) r) = some z := hz
  have hsuffix : earlier <:+ later ++ .op (.qseecomSendCmd req) r :: earlier :=
    (List.suffix_cons _ _).trans (List.suffix_append _ _)
  have hkeeps := keeps_good fun e earlier' he => h.meets (he.trans hsuffix)
  rw [← calibration_of_stage hx] at hkeeps
  obtain ⟨req', r', heq, -, hcarries, -⟩ | ⟨hne, -⟩ := due_of_after hafter
  · cases heq
    obtain ⟨hlen, hdata⟩ := hcarries.2 hreq
    cases hlast : lastCalibration earlier with
    | none =>
      rw [hlast] at hkeeps
      have hzero : x.due.calibrateLen = 0 := hkeeps
      refine ⟨by simpa [hzero] using hlen, ?_⟩
      simpa [calibrateRequest, calibrateBlob, hzero] using hdata
    | some c =>
      rw [hlast] at hkeeps
      obtain ⟨hpos, hlength, hbytes⟩ := hkeeps
      have hpos : 0 < x.due.calibrateLen.toInt := hpos
      have hlength : x.due.calibrateLen.toInt = calibrationLength c := hlength
      have hne : x.due.calibrateLen ≠ 0 := fun hzero => by
        rw [hzero] at hpos
        exact absurd hpos (by decide)
      have hnat : x.due.calibrateLen.toUInt32.toNat = (calibrationLength c).toNat := by
        rw [toNat_of_length (Int.le_of_lt hpos), hlength]
      rw [if_pos hne] at hlen
      rw [calibrateRequest, if_pos hne, hnat] at hdata
      exact ⟨hlen ▸ hlength, hdata.trans (congrArg (fun b => calibrateBlob [(4, b)]) hbytes)⟩
  · exact absurd rfl (hne req r)

/-- `GoodFits` from its executable form. -/
theorem goodFits_of_zero {e : HalEvent} (es : List HalEvent) (h : zeroLength e = true) :
    GoodFits es e := by
  unfold GoodFits
  split
  · obtain ⟨hzero, hfits⟩ := replyFits_of_zero h
    exact fun _ _ => ⟨by simp [hzero], hfits.2⟩
  · trivial

/-- A calibration is updated, and a session resumed. -/
def updateThenResume : Code CInt := do
  let _ ← call .vcsUpdateCalData
  call .vcsResume

/-- The 15 bytes that were received are sent back. -/
theorem replayed_after_update : ∃ req r es m,
    Amid hal fine SameSession GoodFits 1 updateThenResume Mem.started es (.ret 0) m ∧
      .op (.qseecomSendCmd req) r ∈ es ∧ req.cmd = .vfmDeviceCalibrate ∧ req.len = 0xf ∧
      ∃ c, Replays req (some c) := by
  obtain ⟨es, m, e, req, r, earlier, h, hes, hreq, hlen, hlast, hzero⟩ :
      ∃ es m e req r earlier, hal.solo (fun _ => false) 1
        [.tick, .tick, .reply (.good 0), .tick, .tick, .tick, .tick, .tick, .reply (.good 0), .tick,
          .reply (.good 0), .tick, .tick, .reply (.good 0), .tick] updateThenResume Mem.started =
            some (es, .ret 0, m) ∧
        es.reverse = e :: .op (.qseecomSendCmd req) r :: earlier ∧ req.cmd = .vfmDeviceCalibrate ∧
        req.len = 0xf ∧ lastCalibration earlier = some (.good 0) ∧ es.all zeroLength = true :=
    ⟨_, _, _, _, _, _, rfl, rfl, rfl, rfl, rfl, rfl⟩
  have hrun : Amid hal fine SameSession GoodFits 1 updateThenResume Mem.started
      es.reverse (.ret 0) m :=
    List.append_nil es.reverse ▸ Amid.start.solo (fun _ => rfl)
      (fun earlier e he => goodFits_of_zero earlier (List.all_eq_true.mp hzero e he)) h
  have houtside : Outside updateThenResume := ⟨trivial, fun _ => ⟨trivial, fun _ => trivial⟩⟩
  have hsuffix : .op (.qseecomSendCmd req) r :: earlier <:+ es.reverse :=
    hes ▸ List.suffix_cons _ _
  refine ⟨req, r, es.reverse, m, hrun, hsuffix.subset List.mem_cons_self, hreq, hlen, .good 0, ?_⟩
  exact hlast ▸ replayed houtside rfl hrun hsuffix hreq

end KlteCommon.Analysis

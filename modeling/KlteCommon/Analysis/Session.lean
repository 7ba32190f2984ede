import KlteCommon.Computation.Amid
import KlteCommon.Fingerprint.Effects

/-!
# The session with the app

What the HAL keeps of its session is copied out of replies by five functions: the auth token by
`vcs_update_auth_token`, the session's token by `vcs_start_auth_session`, the calibration by
`vcs_update_cal_data` and by `vcs_resume`; `vcs_stop_auth_session` clears the session. Each has its
own guard. Only `vcs_update_auth_token` asks twice, and then looks at one field of the second reply
alone.

The ladder: between the commands the HAL keeps what a fold of the replies says
(`AppSession.answered`, `sessionProtocol_valid`), whatever code calls them and whatever others do
that leave the session alone (`session_amid`). That fold is the one of the good replies, but for the
token (`due_of_stage`); so the token is the last good one in the runs in which the two replies agree
as they should (`tokenKept_of_settled`).
-/

set_option autoImplicit false

namespace KlteCommon.Analysis

open KlteCommon.Computation KlteCommon.Fingerprint

/-! ## What is kept -/

/-- What the HAL keeps of the session. -/
@[ext] structure AppSession where
  token : Bytes authTokenLength
  sessionToken : Bytes authSessionTokenLength
  opend : Bool
  calibrateLen : CInt
  calibrateData : Bytes calibrateDataMaxLength

/-- Nothing, as after `fingerprint_open` has cleared `tz`. -/
def AppSession.zero : AppSession :=
  ⟨Vector.replicate _ 0, Vector.replicate _ 0, false, 0, Vector.replicate _ 0⟩

/-- What a memory holds of it. -/
def sessionOf (m : Mem) : AppSession :=
  ⟨m.tz.authToken, m.tz.authSessionToken, m.tz.authSessionOpend, m.tz.calibrateLen,
    m.tz.calibrateData⟩

/-- A calibration is stored. -/
def AppSession.calibrated (x : AppSession) (r : Reply) : AppSession :=
  { x with
    calibrateLen := (calibration r x.calibrateData).1
    calibrateData := (calibration r x.calibrateData).2 }

/-- The request of `vcs_update_cal_data`. -/
def isCalUpdate (req : Request) : Bool :=
  req.cmd = .vfmVendorDefinedOperation && req.vendorCmd = .vendorUpdateCalData

/-- The request of `vcs_resume` that a calibration is taken from, too. -/
def isCalDevice (req : Request) : Bool :=
  req.cmd = .vfmDeviceCalibrate && req.vendorCmd = .vendorUnknown0

/-- What a reply changes if only good ones count; the end of the session always does. -/
def AppSession.good (x : AppSession) (req : Request) (r : Reply) : AppSession :=
  if req.vendorCmd = .vendorGetAuthToken then
    if r.failed then x else { x with token := r.bytes authTokenLength }
  else if req.cmd = .vfmAuthSessionEnd then
    { x with sessionToken := Vector.replicate _ 0, opend := false }
  else if r.failed then x
  else if req.cmd = .vfmAuthSessionBegin then
    { x with sessionToken := r.bytes authSessionTokenLength, opend := true }
  else if isCalUpdate req ∨ isCalDevice req ∧ x.calibrateLen = 0 then x.calibrated r
  else x

/-- What the good replies to a thread make of the session, newest first. -/
def goodSession : List HalEvent → AppSession
  | [] => .zero
  | .op (.qseecomSendCmd req) r :: es => (goodSession es).good req r
  | _ :: es => goodSession es

/-- The first request of `vcs_update_auth_token`. -/
def isFirstToken (req : Request) : Bool := req.vendorCmd = .vendorGetAuthToken && req.preset.isEmpty

/-- Its second request. -/
def isSecondToken (req : Request) : Bool :=
  req.vendorCmd = .vendorGetAuthToken && !req.preset.isEmpty

/-- The replies to the two requests for the token agree as they should, given what the thread did
before: a second reply with a result of 0 is a good one or repeats the token; before a second one
with another result the first failed or repeated the token. -/
def TokenSettled (es : List HalEvent) : HalEvent → Prop
  | .op (.qseecomSendCmd req) r => isSecondToken req = true →
    if r.result = 0 then r.ret = 0 ∨ r.bytes authTokenLength = (goodSession es).token
    else ∀ req' r' earlier, es = .op (.qseecomSendCmd req') r' :: earlier →
      r'.failed = true ∨ r'.bytes authTokenLength = (goodSession earlier).token
  | _ => True

/-- An event is no reply to the second request for the token, or a good one. -/
def tokenGood : HalEvent → Bool
  | .op (.qseecomSendCmd req) r => !(isSecondToken req && r.failed)
  | _ => true

/-- A good second reply is always as it should be. -/
theorem settled_of_tokenGood {e : HalEvent} (es : List HalEvent) (h : tokenGood e = true) :
    TokenSettled es e := by
  unfold TokenSettled
  split
  · rename_i req r
    intro hsecond
    have hgood : r.ret = 0 ∧ r.result = 0 := by simpa [tokenGood, hsecond, Reply.failed] using h
    rw [if_pos hgood.2]
    exact .inl hgood.1
  · trivial

/-- What others leave alone. -/
def SameSession (m m' : Mem) : Prop := sessionOf m' = sessionOf m

/-! ## The protocol -/

/-- What a reply changes in the code: of the two to `vcs_update_auth_token` only the result of the
second one counts. -/
def AppSession.answered (x : AppSession) (req : Request) (r : Reply) : AppSession :=
  if isFirstToken req then x
  else if isSecondToken req then
    if r.result = 0 then { x with token := r.bytes authTokenLength } else x
  else x.good req r

/-- What an operation makes of what is kept. -/
def AppSession.stored (x : AppSession) (o : Op) : AppSession where
  token := authTokenAfter x.token o
  sessionToken := authSessionTokenAfter x.sessionToken o
  opend := sessionAfter x.opend o
  calibrateLen := calibrateLenAfter x.calibrateLen o
  calibrateData := calibrateDataAfter x.calibrateData o

/-- What is kept, what is to be kept, and the reply to the first request for the token, if it was
the last event. -/
structure SessionStage where
  held : AppSession
  due : AppSession
  first : Option Reply

/-- The data of a `vfmDeviceCalibrate` request. -/
def calibrateRequest (x : AppSession) : List (ℕ × List UInt8) :=
  (0, [0xc0]) :: (1, [0x12]) ::
    if x.calibrateLen ≠ 0 then
      [(4, x.calibrateData.toList.take x.calibrateLen.toUInt32.toNat)]
    else []

/-- A request carries what is due. -/
def carries (x : AppSession) (req : Request) : Prop :=
  (req.vendorCmd = .vendorEnterAuthSession → req.data = [(0, x.token.toList)]) ∧
    (req.cmd = .vfmDeviceCalibrate →
      req.len = (if x.calibrateLen ≠ 0 then x.calibrateLen else 0x10) ∧
        req.data = calibrateRequest x)

/-- A store stores what is due, and a request carries it. -/
def isDue (x : AppSession) : Op → Prop
  | .store .authToken a => a = x.token
  | .store .authSessionToken a => a = x.sessionToken
  | .store .authSessionOpend a => a = x.opend
  | .store .calibrateLen a => a = x.calibrateLen
  | .store .calibrateData a => a = x.calibrateData
  | .qseecomSendCmd req => carries x req
  | .clearTz => False
  | _ => True

open Classical in
/-- One event; after the first request for the token comes the second. -/
noncomputable def SessionStage.after (x : SessionStage) : HalEvent → Option SessionStage
  | .op (.qseecomSendCmd req) r =>
    if x.first.isSome = isSecondToken req ∧ carries x.due req then
      some ⟨x.held, x.due.answered req r, if isFirstToken req then some r else none⟩
    else none
  | .op o _ =>
    if x.first = none ∧ isDue x.due o then some ⟨x.held.stored o, x.due, none⟩ else none
  | .enter _ => if x.first = none then some x else none
  | .done _ _ => none

/-- The reads return what is kept. -/
def sessionReads (x : AppSession) : HalEvent → Prop
  | .op (.load .authToken) r => r = x.token
  | .op (.load .authSessionToken) r => r = x.sessionToken
  | .op (.load .authSessionOpend) r => r = x.opend
  | .op (.load .calibrateLen) r => r = x.calibrateLen
  | .op (.load .calibrateData) r => r = x.calibrateData
  | _ => True

/-- The commands of the session, with what they call. -/
def sessionCall : Call → Prop
  | .vcsInit | .vcsResume | .vcsUninit | .vcsUpdateAuthToken => True
  | .vcsStartAuthSession | .vcsStopAuthSession | .vcsUpdateCalData => True
  | .vcsStartCapture _ | .vcsStartCaptureWait | .vcsStartCaptureRead | .vcsCheckState => True
  | .getTzState | .setTzState _ | .sensorCaptureStart | .sendAcquiredNotice _ => True
  | _ => False

/-- Everything that is due is kept. -/
def SessionStage.Settled (x : SessionStage) : Prop := x.held = x.due ∧ x.first = none

/-- The protocol of the commands. -/
@[simps] noncomputable def sessionProtocol : Protocol Resp Ret SessionStage where
  assume x e := sessionReads x.held e
  next x e := x.after e
  pre c x := sessionCall c ∧ x.Settled
  post _ _ _ y := y.Settled

section

variable (x y : SessionStage) (c : Call) (r : Ret c) (e : HalEvent)

end

/-- A call by its contract, outside of the session commands. -/
@[simp ↓] theorem callRule_session {c : Call} {x : AppSession} (Q : Ret c → SessionStage → Prop) :
    sessionProtocol.callRule fine c Q ⟨x, x, none⟩ ↔
      sessionCall c ∧ ∀ r y, Q r ⟨y, y, none⟩ := by
  rw [Protocol.callRule_entered rfl trivial rfl]
  constructor
  · rintro ⟨⟨hc, -⟩, h⟩
    exact ⟨hc, fun r y => h r _ ⟨rfl, rfl⟩⟩
  · rintro ⟨hc, h⟩
    refine ⟨⟨hc, rfl, rfl⟩, ?_⟩
    rintro r ⟨held, due, first⟩ ⟨hheld, hfirst⟩
    obtain rfl : held = due := hheld
    obtain rfl : first = none := hfirst
    exact h r held

section bodies

attribute [local simp ↓] load store op call send ionSbuffer sameIonSbuffer

attribute [local simp] sessionReads sessionCall SessionStage.after AppSession.stored
  AppSession.answered AppSession.good isDue carries isFirstToken isSecondToken authTokenAfter
  authSessionTokenAfter sessionAfter calibrateLenAfter calibrateDataAfter SessionStage.Settled
  calibrateRequest isCalUpdate isCalDevice

/-- The end of `vcs_resume`. -/
theorem session_deviceResume (x : AppSession) :
    sessionProtocol.Follows fine deviceResume (fun _ y => y.Settled) ⟨x, x, none⟩ := by
  simp [deviceResume, AppSession.calibrated]
  intro r
  cases r.failed <;> simp
  intro r'
  cases r'.failed <;> simp
  refine ⟨fun hlen => ?_, fun hlen habsurd => absurd habsurd hlen⟩
  simp [hlen]

/-- `vcs_resume`. -/
theorem session_vcsResume (x : AppSession) :
    sessionProtocol.Follows fine vcsResume (fun _ y => y.Settled) ⟨x, x, none⟩ := by
  have hdevice := session_deviceResume x
  obtain ⟨token, sessionToken, opend, len, data⟩ := x
  simp [vcsResume]
  intro r
  cases r.failed <;> simp
  cases opend <;> simp at hdevice <;> simp [hdevice]

/-- Every body keeps to the contracts. -/
theorem sessionProtocol_valid : sessionProtocol.Valid fine body := by
  rintro c _ ⟨held, due, first⟩ ⟨hc, hheld, hfirst⟩
  obtain rfl : held = due := hheld
  obtain rfl : first = none := hfirst
  cases c <;> first | cases hc; done | skip
  case vcsUpdateAuthToken => simp +contextual [body, vcsUpdateAuthToken, getAuthToken]
  case vcsStartAuthSession => simp +contextual [body, vcsStartAuthSession]
  case vcsStopAuthSession => simp +contextual [body, vcsStopAuthSession]
  case vcsUpdateCalData => simp +contextual [body, vcsUpdateCalData, AppSession.calibrated]
  case vcsResume => exact session_vcsResume held
  case vcsInit => simp [body, vcsInit]
  case vcsUninit => simp [body, vcsUninit]
  case getTzState => simp [body, getTzState]
  case setTzState => simp [body, setTzState]
  case vcsCheckState => simp [body, vcsCheckState]
  case vcsStartCapture => simp [body, vcsStartCapture]
  case vcsStartCaptureWait => simp [body, vcsStartCaptureWait]
  case vcsStartCaptureRead => simp [body, vcsStartCaptureRead]
  case sensorCaptureStart => simp [body, sensorCaptureStart]
  case sendAcquiredNotice => simp [body, sendAcquiredNotice]

end bodies

/-! ## Amid others -/

/-- Operations that are none of the session: no store of what is kept, none of the commands. -/
def apartOp : Op → Prop
  | .store .authToken _ | .store .authSessionToken _ | .store .authSessionOpend _ => False
  | .store .calibrateLen _ | .store .calibrateData _ | .clearTz => False
  | .qseecomSendCmd req =>
    req.vendorCmd ≠ .vendorGetAuthToken ∧ req.vendorCmd ≠ .vendorEnterAuthSession ∧
      req.vendorCmd ≠ .vendorUpdateCalData ∧ req.cmd ≠ .vfmAuthSessionBegin ∧
      req.cmd ≠ .vfmAuthSessionEnd ∧ req.cmd ≠ .vfmDeviceCalibrate
  | _ => True

/-- Code outside the commands of the session, which calls them as it likes. -/
def Outside {α : Type} (p : Code α) : Prop := p.Within apartOp sessionCall

section amid

variable {fin : Tid → Bool} {t : Tid} {m m' : Mem} {x : SessionStage}

/-- An operation does to the memory what it does to the session. -/
theorem sessionOf_act {o : Op} {ch : Choice} {r : Resp o} (h : act fin t o ch m = some (r, m')) :
    sessionOf m' = (sessionOf m).stored o := by
  have hsession := act_sessionEffect h
  have hcapture := act_captureEffect h
  simp [sessionOf, AppSession.stored, hsession.opend, hsession.token, hsession.sessionToken,
    hcapture.calibrateLen, hcapture.calibrateData]

/-- An operation that has nothing to do with the session stores nothing of it. -/
theorem stored_apart {o : Op} (ho : apartOp o) (x : AppSession) : x.stored o = x := by
  cases o with
  | store v a => cases v <;> first | rfl | cases ho
  | clearTz => cases ho
  | _ => rfl

/-- Nor does a command that has nothing to do with it. -/
theorem answered_apart {req : Request} (hreq : apartOp (.qseecomSendCmd req)) (x : AppSession)
    (r : Reply) : x.answered req r = x := by
  obtain ⟨htoken, -, hcal, hbegin, hend, hdevice⟩ := hreq
  simp only [AppSession.answered, isFirstToken, isSecondToken, AppSession.good]
  simp [isCalUpdate, isCalDevice, htoken, hend, hcal, hbegin, hdevice]

/-- One operation. -/
theorem stored_act {o : Op} {ch : Choice} {r : Resp o} (hx : sessionOf m = x.held)
    (h : act fin t o ch m = some (r, m')) : sessionReads x.held (.op o r) ∧
      ∀ y, x.after (.op o r) = some y → sessionOf m' = y.held := by
  rw [← hx]
  refine ⟨?_, fun y hy => ?_⟩
  · cases o with
    | load v =>
      obtain ⟨rfl, -⟩ := by simpa [act] using h
      cases v <;> first | rfl | trivial
    | _ => trivial
  · rw [sessionOf_act h, hx]
    unfold SessionStage.after at hy
    split at hy
    · rename_i heq
      cases heq
      split at hy
      · cases hy
        rfl
      · cases hy
    · rename_i heq
      cases heq
      split at hy
      · cases hy
        rfl
      · cases hy
    · rename_i heq
      cases heq
    · rename_i heq
      cases heq

/-- One step. -/
theorem stored_acts {e : HalEvent} (hx : sessionOf m = x.held) (h : hal.Acts fin t e m m') :
    sessionProtocol.assume x e ∧
      ∀ y, sessionProtocol.next x e = some y → sessionOf m' = y.held := by
  cases e with
  | op o r =>
    obtain ⟨ch, hact⟩ := h
    exact stored_act hx hact
  | enter c =>
    obtain rfl : m' = m := h
    refine ⟨trivial, fun y hy => ?_⟩
    simp only [sessionProtocol_next, SessionStage.after] at hy
    split at hy
    · cases hy
      exact hx
    · cases hy
  | done c r => exact ⟨trivial, nofun⟩

/-- An operation apart from the session neither needs nor changes anything of it. -/
theorem after_apart {o : Op} (ho : apartOp o) (r : Resp o) (hx : x.first = none) :
    x.after (.op o r) = some x := by
  obtain ⟨held, due, first⟩ := x
  obtain rfl : first = none := hx
  cases o with
  | qseecomSendCmd req =>
    have hnone := answered_apart ho due r
    obtain ⟨htoken, henter, -, -, -, hdevice⟩ := ho
    simp [SessionStage.after, isFirstToken, isSecondToken, htoken, carries, henter, hdevice, hnone]
  | store v a =>
    cases v <;> first | cases ho; done | simp [SessionStage.after, isDue, stored_apart ho]
  | clearTz => cases ho
  | _ => simp [SessionStage.after, isDue, stored_apart ho]

/-- Code outside the commands keeps to the protocol. -/
theorem session_outside {α : Type} {p : Code α} (hp : Outside p) (hx : x.Settled) :
    sessionProtocol.Follows fine p (fun _ y => y.Settled) x := by
  refine Protocol.Follows.keeps (T := SessionStage.Settled) (fun _ _ => rfl)
    (fun o r x ho hx => ⟨x, after_apart ho r hx.2, hx⟩) (fun c x hc hx => ?_) (fun _ _ h => h) hp hx
  exact ⟨x, if_pos hx.2, ⟨hc, hx⟩, fun r z hz => hz⟩

/-- Before the second request for the token nothing else is done. -/
theorem first_of_after {e : HalEvent} {y : SessionStage} (h : x.after e = some y) :
    x.first = none ∨ ∃ req r, e = .op (.qseecomSendCmd req) r ∧ isSecondToken req = true := by
  unfold SessionStage.after at h
  split at h
  · split at h
    · rename_i req r hsend
      cases hsecond : isSecondToken req with
      | true => exact .inr ⟨req, r, rfl, hsecond⟩
      | false => exact .inl (by simpa [hsecond] using hsend.1)
    · cases h
  · split at h
    · rename_i ho
      exact .inl ho.1
    · cases h
  · split at h
    · rename_i hfirst
      exact .inl hfirst
    · cases h
  · cases h

/-- An operation can be answered as the protocol relies on. -/
theorem exists_reads (o : Op) (x : AppSession) : ∃ r, sessionReads x (.op o r) := by
  cases o with
  | load v =>
    have r : Resp (.load v) := Mem.zero.get v
    cases v <;> first | exact ⟨_, rfl⟩ | exact ⟨r, trivial⟩
  | qseecomSendCmd req => exact ⟨.good 0, trivial⟩
  | _ => exact ⟨default, trivial⟩

/-- Code that is outside the commands is left with what is due. -/
theorem settled_of_outside {α : Type} {p : Code α} (hp : Outside p)
    (h : sessionProtocol.Follows fine p (fun _ y => y.Settled) x) : x.Settled := by
  refine h.settled (fun o x ho => ?_) (fun c Q x hc h => ?_) (fun _ _ h => h) hp
  · obtain ⟨r, hr⟩ := exists_reads o x.held
    refine ⟨r, hr, fun y hy hsettled => ?_⟩
    obtain hfirst | ⟨req, r', heq, hsecond⟩ := first_of_after hy
    · cases (after_apart ho r hfirst).symm.trans hy
      exact hsettled
    · cases heq
      simp [isSecondToken, ho.1] at hsecond
  · have htakes : sessionProtocol.Takes x (.enter c) fun y => sessionProtocol.pre c y ∧
      ∀ r z, sessionProtocol.post c y r z → Q r z := h
    obtain ⟨y, hy, ⟨-, hsettled⟩, -⟩ := htakes.next trivial
    have hafter : x.after (.enter c) = some y := hy
    obtain hfirst | ⟨req, r, heq, -⟩ := first_of_after hafter
    · cases (if_pos hfirst).symm.trans hafter
      exact hsettled
    · cases heq

/-- **What is kept is what is due**, in every run of code outside the commands, amid others that
leave the session alone: the replies lead along the automaton, and code outside the commands is left
with what is due. -/
theorem session_amid {α : Type} {ok : List HalEvent → HalEvent → Prop} {t : Tid} {p₀ p : Code α}
    {m₀ m : Mem} {es : List HalEvent} (hp₀ : Outside p₀) (h₀ : sessionOf m₀ = .zero)
    (h : Amid hal fine SameSession ok t p₀ m₀ es p m) :
    ∃ y, sessionProtocol.stage ⟨.zero, .zero, none⟩ es = some y ∧ sessionOf m = y.held ∧
      (Outside p → y.Settled) := by
  have hstart : sessionProtocol.Follows fine p₀ (fun _ y => y.Settled) ⟨.zero, .zero, none⟩ :=
    session_outside hp₀ ⟨rfl, rfl⟩
  obtain ⟨y, hy, hfollows, hm⟩ := h.follows (J := fun x m => sessionOf m = x.held)
    sessionProtocol_valid (fun x m m' hx hR => hR.trans hx)
    (fun x es m e m' fin hx _ hacts => stored_acts hx hacts) hstart h₀
  exact ⟨y, hy, hm, fun hp => settled_of_outside hp hfollows⟩

end amid

/-! ## The token -/

/-- What a step makes of what is due. -/
theorem due_of_after {x y : SessionStage} {e : HalEvent} (h : x.after e = some y) :
    (∃ req r, e = .op (.qseecomSendCmd req) r ∧ x.first.isSome = isSecondToken req ∧
      carries x.due req ∧ y.due = x.due.answered req r ∧
      y.first = if isFirstToken req then some r else none) ∨
    ((∀ req r, e ≠ .op (.qseecomSendCmd req) r) ∧ x.first = none ∧ y.due = x.due ∧
      y.first = none) := by
  unfold SessionStage.after at h
  split at h
  · split at h
    · rename_i hsend
      cases h
      exact .inl ⟨_, _, rfl, hsend.1, hsend.2, rfl, rfl⟩
    · cases h
  · rename_i o r hne
    split at h
    · rename_i ho
      cases h
      refine .inr ⟨?_, ho.1, rfl, rfl⟩
      rintro req r' ⟨⟩
      exact hne req r' rfl HEq.rfl
    · cases h
  · split at h
    · rename_i hfirst
      cases h
      exact .inr ⟨nofun, hfirst, rfl, hfirst⟩
    · cases h
  · cases h

/-- Only commands change what the good replies say. -/
theorem goodSession_of_ne {e : HalEvent} (h : ∀ req r, e ≠ .op (.qseecomSendCmd req) r)
    (es : List HalEvent) : goodSession (e :: es) = goodSession es := by
  cases e with
  | op o r => cases o <;> first | rfl | exact absurd rfl (h _ _)
  | enter c | done c r => rfl

/-- The first token command. -/
theorem vendorCmd_of_first {req : Request} (h : isFirstToken req = true) :
    req.vendorCmd = .vendorGetAuthToken := by
  simpa using (Bool.and_eq_true_iff.mp h).1

/-- The second one. -/
theorem vendorCmd_of_second {req : Request} (h : isSecondToken req = true) :
    req.vendorCmd = .vendorGetAuthToken := by
  simpa using (Bool.and_eq_true_iff.mp h).1

/-- The first one is not the second. -/
theorem second_of_first {req : Request} (h : isFirstToken req = true) :
    isSecondToken req = false := by
  simp only [isFirstToken, isSecondToken, Bool.and_eq_true] at h ⊢
  simp [h.2]

/-- The two replies to `vcs_update_auth_token`, when they agree as they should. -/
theorem answered_of_settled {x : AppSession} {req : Request} {r first : Reply}
    (hsecond : isSecondToken req = true)
    (hzero : r.result = 0 → r.ret = 0 ∨
      r.bytes authTokenLength = (if first.failed then x.token else first.bytes authTokenLength))
    (hne : r.result ≠ 0 → first.failed = true ∨ first.bytes authTokenLength = x.token) :
    x.answered req r = (if first.failed then x
      else { x with token := first.bytes authTokenLength }).good req r := by
  have hfirst : isFirstToken req = false := by
    cases h : isFirstToken req with
    | false => rfl
    | true => simp [second_of_first h] at hsecond
  simp only [AppSession.answered, hfirst, hsecond, AppSession.good, vendorCmd_of_second hsecond]
  by_cases hresult : r.result = 0
  · cases hret : r.failed with
    | false => cases first.failed <;> simp [hresult]
    | true =>
      have hlost : r.ret ≠ 0 := by simpa [Reply.failed, hresult] using hret
      obtain h | h := hzero hresult
      · exact absurd h hlost
      · cases hf : first.failed <;> simp [hresult, h, hf]
  · have hfailed : r.failed = true := by simp [Reply.failed, hresult]
    obtain h | h := hne hresult
    · simp [hresult, hfailed, h]
    · cases hf : first.failed <;> simp [hresult, hfailed, h]

/-- What the code keeps and what the good replies say. -/
theorem due_of_stage {es : List HalEvent} {y : SessionStage}
    (hok : ∀ e earlier, e :: earlier <:+ es → TokenSettled earlier e)
    (h : sessionProtocol.stage ⟨.zero, .zero, none⟩ es = some y) :
    (y.first = none → y.due = goodSession es) ∧
      ∀ r, y.first = some r → ∃ req earlier, es = .op (.qseecomSendCmd req) r :: earlier ∧
        isFirstToken req = true ∧ y.due = goodSession earlier := by
  induction es generalizing y with
  | nil =>
    cases h
    exact ⟨fun _ => rfl, nofun⟩
  | cons e es ih =>
    obtain ⟨x, hx, hy⟩ := Option.bind_eq_some_iff.mp h
    obtain ⟨hnone, hsome⟩ := ih (fun e' earlier he =>
      hok e' earlier (he.trans (List.suffix_cons _ _))) hx
    have hnow := hok e es List.suffix_rfl
    obtain ⟨req, r, rfl, hsecond, -, hdue, hfirst⟩ | ⟨hne, hx₀, hdue, hfirst⟩ := due_of_after hy
    · refine ⟨fun hno => ?_, fun r' hr' => ?_⟩
      · rw [hdue, goodSession]
        cases hreq : isSecondToken req with
        | true =>
          obtain ⟨first, hx₁⟩ := Option.isSome_iff_exists.mp (hsecond.trans hreq)
          obtain ⟨req', earlier, rfl, hreq', hx₂⟩ := hsome first hx₁
          have hes : goodSession (.op (.qseecomSendCmd req') first :: earlier) =
              if first.failed then goodSession earlier
              else { goodSession earlier with token := first.bytes authTokenLength } :=
            if_pos (vendorCmd_of_first hreq')
          have hsettled := hnow hreq
          rw [hes, hx₂]
          rw [hes] at hsettled
          refine answered_of_settled hreq (fun hzero => ?_) fun hne => ?_
          · rw [if_pos hzero] at hsettled
            exact hsettled.imp_right fun h => h.trans (apply_ite AppSession.token _ _ _)
          · rw [if_neg hne] at hsettled
            exact hsettled req' first earlier rfl
        | false =>
          have hfalse : isFirstToken req = false := by
            cases h : isFirstToken req with
            | false => rfl
            | true => simp [hfirst, h] at hno
          have hx₁ : x.first = none := by simpa [hreq] using hsecond
          rw [AppSession.answered, hfalse, hreq, hnone hx₁]
          rfl
      · rw [hfirst] at hr'
        split at hr'
        · rename_i hreq
          obtain rfl := Option.some.inj hr'
          refine ⟨req, es, rfl, hreq, ?_⟩
          rw [hdue, AppSession.answered, if_pos hreq]
          refine hnone ?_
          simpa [second_of_first hreq] using hsecond
        · cases hr'
    · rw [hdue, hfirst, goodSession_of_ne hne]
      exact ⟨fun _ => hnone hx₀, nofun⟩

/-- **The token is the last good one.** In every run in which the replies to the requests for it
agree as they should, code outside the commands is left with what the good replies say, and every
`vendorEnterAuthSession` request carries the token of the last good one. -/
theorem tokenKept_of_settled {α : Type} {t : Tid} {p₀ p : Code α} {m₀ m : Mem} {es : List HalEvent}
    (hp₀ : Outside p₀) (h₀ : sessionOf m₀ = .zero)
    (h : Amid hal fine SameSession TokenSettled t p₀ m₀ es p m) :
    (Outside p → sessionOf m = goodSession es) ∧
      ∀ later req r earlier, es = later ++ .op (.qseecomSendCmd req) r :: earlier →
        req.vendorCmd = .vendorEnterAuthSession →
          req.data = [(0, (goodSession earlier).token.toList)] := by
  obtain ⟨y, hy, hm, hsettled⟩ := session_amid hp₀ h₀ h
  refine ⟨fun hp => ?_, fun later req r earlier hes hreq => ?_⟩
  · obtain ⟨hheld, hfirst⟩ := hsettled hp
    rw [hm, hheld, (due_of_stage (fun _ _ => h.meets) hy).1 hfirst]
  · rw [hes] at hy
    obtain ⟨x, z, hx, hz⟩ := Protocol.stage_split hy
    have hsuffix : earlier <:+ es := ⟨later ++ [.op (.qseecomSendCmd req) r], by simp [hes]⟩
    have hdue := due_of_stage (fun e earlier' he => h.meets (he.trans hsuffix)) hx
    have hafter : x.after (.op (.qseecomSendCmd req) r) = some z := hz
    obtain ⟨req', r', heq, hsecond, hcarries, -⟩ | ⟨hne, -⟩ := due_of_after hafter
    · cases heq
      have hnone : x.first = none := by simpa [isSecondToken, hreq] using hsecond
      rw [hcarries.1 hreq, hdue.1 hnone]
    · exact absurd rfl (hne req r)

/-- A session is begun, the app is shut down and started again. -/
def resumeSession : Code CInt := do
  let _ ← call .vcsStartAuthSession
  let _ ← call .vcsUninit
  call .vcsInit

/-- Two tokens are received when the app is shut down; the second one is kept, and sent when the app
is started again. -/
theorem tokenKept_of_settled_begun : ∃ es m,
    Amid hal fine SameSession TokenSettled 1 resumeSession Mem.started es (.ret 0) m ∧
      sessionOf m = goodSession es ∧ (goodSession es).token[0] = 4 ∧
      ∃ later req r earlier, es = later ++ .op (.qseecomSendCmd req) r :: earlier ∧
        req.vendorCmd = .vendorEnterAuthSession ∧
        req.data = [(0, (goodSession earlier).token.toList)] ∧ (goodSession earlier).token[0] = 4 := by
  obtain ⟨es, m, h, hes, htoken, req, r, earlier, henter, hreq, hearlier⟩ :
      ∃ es m, hal.solo (fun _ => false) 1
      ([.tick, .tick, .reply (.good 7)] ++ List.replicate 7 .tick ++
        [.reply (.good 3), .reply (.good 4), .tick, .reply (.good 0)] ++ List.replicate 14 .tick ++
        [.reply (.good 0), .tick, .tick, .tick, .reply (.good 0), .reply (.good 0), .tick, .tick,
          .reply (.good 0)] ++ List.replicate 4 .tick)
      resumeSession Mem.started = some (es, .ret 0, m) ∧
        es.all tokenGood = true ∧ (goodSession es.reverse).token[0] = 4 ∧
        ∃ req r earlier,
          es.reverse = es.reverse.take 8 ++ .op (.qseecomSendCmd req) r :: earlier ∧
          req.vendorCmd = .vendorEnterAuthSession ∧ (goodSession earlier).token[0] = 4 :=
    ⟨_, _, rfl, rfl, rfl, _, _, _, rfl, rfl, rfl⟩
  have hrun : Amid hal fine SameSession TokenSettled 1 resumeSession Mem.started es.reverse
      (.ret 0) m := by
    refine (List.append_nil es.reverse) ▸ Amid.start.solo (fun _ => rfl) (fun earlier e he => ?_) h
    exact settled_of_tokenGood earlier (List.all_eq_true.mp hes e he)
  have houtside : Outside resumeSession := by
    simp [Outside, resumeSession, Prog.Within, call, sessionCall]
  obtain ⟨hkept, hsent⟩ := tokenKept_of_settled houtside rfl hrun
  exact ⟨es.reverse, m, hrun, hkept trivial, htoken, _, req, r, earlier, henter, hreq,
    hsent _ _ _ _ henter hreq, hearlier⟩

/-- A session is begun and the app shut down. -/
def beginSession : Code CInt := do
  let _ ← call .vcsStartAuthSession
  call .vcsUninit

/-- The second reply for the token is lost, and what is in the buffer is kept as the token. -/
theorem lostReply_kept : ∃ es m,
    Amid hal fine SameSession (fun _ _ => True) 1 beginSession Mem.started es (.ret 0) m ∧
      sessionOf m ≠ goodSession es := by
  obtain ⟨es, m, h, hheld, hdue⟩ : ∃ es m, hal.solo (fun _ => false) 1
      ([.tick, .tick, .reply (.good 7)] ++ List.replicate 7 .tick ++ [.reply (.good 1),
        .reply ⟨-1, 0, fun _ => 9⟩, .tick, .reply (.good 0)] ++ List.replicate 7 .tick)
      beginSession Mem.started = some (es, .ret 0, m) ∧
        (sessionOf m).token[0] = 9 ∧ (goodSession es.reverse).token[0] = 1 := ⟨_, _, rfl, rfl, rfl⟩
  refine ⟨es.reverse, m, List.append_nil es.reverse ▸
    Amid.start.solo (fun _ => rfl) (fun _ _ _ => trivial) h, fun heq => ?_⟩
  rw [heq, hdue] at hheld
  cases hheld

end KlteCommon.Analysis

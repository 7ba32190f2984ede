import KlteCommon.Analysis.MatchRequest

/-!
# The match request and its answer

TrustZone answers a match request with the place of one of the templates. The slots are shared:
`fingerprint_remove` and `fingerprint_set_active_group` may change them while the worker builds the
request or reads the answer. As long as they do not, what is asked and what is reported are the
same finger.

The ladder: the loops over the slots write and find what the slots of `m` say, as long as what they
read are the slots of `m` (`matchingProtocol_valid`); in a run these are the slots of the moment the
request was sent (`windowed`). So every request carries the slots (`matchRequest_carries`), and the
finger that is reported has the template at the place that was answered (`reported_template`).
-/

set_option autoImplicit false

namespace KlteCommon.Analysis

open KlteCommon.Computation KlteCommon.Fingerprint KlteCommon.Standard

/-! ## The protocol -/

/-- How far a worker is with a match: it is not at it, it builds the request, it has the answer, it
has decoded it. `stray` is where it gets when it has read a slot that is not that of `m`. -/
inductive Matching
  | away
  | building
  | answered (req : Request) (reply : Reply)
  | decoded (req : Request) (reply : Reply)
  | stray

namespace Matching

/-- No slot is looked at. -/
def rests : Matching → Bool
  | building | answered _ _ => false
  | _ => true

/-- A slot is read; `p` says whether it is that of `m`. -/
def reads (x : Matching) (p : Bool) : Matching := if x.rests || p then x else stray

/-- A command is answered. -/
def sends (m : Mem) (req : Request) (reply : Reply) : Matching → Option Matching
  | building =>
    if req.cmd = .vfmMatchImageToTemplates ∧ req.data = matchData m then
      some (if reply.failed then away else answered req reply)
    else none
  | answered req' reply' =>
    if req.cmd = .vfmPayloadRelease ∧
        req.data = [(0, (m.tz.finger (namedSlot m reply')).payload.toList)] then
      some (decoded req' reply')
    else none
  | stray => some stray
  | x =>
    if req.cmd = .vfmMatchImageToTemplates ∨ req.cmd = .vfmPayloadRelease then none else some x

/-- Finger `fid` is reported. -/
def reports (m : Mem) (fid : ℤ) : Matching → Option Matching
  | decoded req reply =>
    if fid ≠ 0 ∧ fid = namedSlot m reply then some (decoded req reply) else none
  | stray => some stray
  | _ => none

/-- One event of the worker. -/
def next (m : Mem) (x : Matching) : HalEvent → Option Matching
  | .enter .vcsGetEnrolledFingerNum => some building
  | .op (.load (.fingerExist idx)) r => some (x.reads (r == (m.tz.finger idx).exist))
  | .op (.load (.fingerData idx)) r => some (x.reads (r == (m.tz.finger idx).data))
  | .op (.load (.fingerPayload idx)) r => some (x.reads (r == (m.tz.finger idx).payload))
  | .op (.qseecomSendCmd req) reply => x.sends m req reply
  | .op .derefHandle _ => some x
  | .op (.notify (.authenticated fid _ _)) _ => x.reports m fid
  | .done _ _ => none
  | _ => if x.rests then some x else none

section

variable {m : Mem} {x : Matching} {req req' : Request} {reply reply' : Reply}

/-- Away from a match. -/
@[simp] theorem rests_away : away.rests = true := rfl

/-- Before the request. -/
@[simp] theorem rests_building : building.rests = false := rfl

/-- Before the answer is decoded. -/
@[simp] theorem rests_answered : (answered req reply).rests = false := rfl

/-- Behind the answer. -/
@[simp] theorem rests_decoded : (decoded req reply).rests = true := rfl

/-- Where the slots were changed. -/
@[simp] theorem rests_stray : stray.rests = true := rfl

/-- A command that has nothing to do with a match leaves a worker that rests where it is. -/
@[simp] theorem sends_of_rests (hx : x.rests = true) (hreq : req.cmd ≠ .vfmMatchImageToTemplates)
    (hrelease : req.cmd ≠ .vfmPayloadRelease) : x.sends m req reply = some x := by
  cases x <;> first | cases hx; done | simp [sends, hreq, hrelease]

/-- The match request, with the slots that were read. -/
@[simp] theorem sends_building : building.sends m req reply =
    if req.cmd = .vfmMatchImageToTemplates ∧ req.data = matchData m then
      some (if reply.failed then away else answered req reply)
    else none := rfl

/-- The release, with the payload of the finger that was named. -/
@[simp] theorem sends_answered : (answered req' reply').sends m req reply =
    if req.cmd = .vfmPayloadRelease ∧
        req.data = [(0, (m.tz.finger (namedSlot m reply')).payload.toList)] then
      some (decoded req' reply')
    else none := rfl

/-- No match request is sent before the slots are read. -/
@[simp] theorem sends_away : away.sends m req reply =
    if req.cmd = .vfmMatchImageToTemplates ∨ req.cmd = .vfmPayloadRelease then none
    else some away := rfl

/-- Where the slots were changed nothing is said. -/
@[simp] theorem sends_stray : stray.sends m req reply = some stray := rfl

end

end Matching

/-- Which procedures the worker calls in which stage. -/
def matchingCalls (m : Mem) (x : Matching) : Call → Prop
  | .vcsAuthenticate | .vcsAuthenticateLoop | .vcsStartCapture _ => x = .away ∨ x = .stray
  | .vcsGetEnrolledFingerNum => x = .building
  | .sendAuthenticatedNotice fid =>
    x = .stray ∨ fid ≠ 0 ∧ ∃ req reply, x = .decoded req reply ∧ fid = namedSlot m reply
  | .vcsEnroll | .vcsEnrollLoop _ _ | .sensorProcessSignal | .vcsTimeout => False
  | .fingerprintGetAuthId | .fingerprintSetActiveGroup _ | .fingerprintAuthenticate _ => False
  | .fingerprintEnroll _ _ | .fingerprintPreEnroll | .fingerprintPostEnroll => False
  | .fingerprintCancel | .fingerprintEnumerate | .fingerprintRemove _ => False
  | .setNotifyCallback _ | .fingerprintClose | .fingerprintOpen => False
  | .vcsStartAuthenticate | .vcsStartEnroll _ | .vcsStartAuthSession => False
  | .vcsStopAuthSession | .vcsResume | .vcsInit | .sensorInit | .sensorRegister => False
  | .dbCheckAndCreateTable | .dbConvertOldDb | .dbReadToTz | .dbWriteToDb _ _ => False
  | .dbInit | .dbUninit | .vcsTimeoutLoop | .fingerprintCancelLoop => False
  | _ => x.rests = true

/-- The stages a procedure may be left in. -/
def matchingLeaves (m : Mem) (x : Matching) : (c : Call) → Ret c → Matching → Prop
  | .vcsAuthenticate, _, _ => True
  | .vcsAuthenticateLoop, fid, y =>
    y = .stray ∨ fid = 0 ∧ y = .away ∨ ∃ req reply, y = .decoded req reply ∧ fid = namedSlot m reply
  | .vcsGetEnrolledFingerNum, num, y =>
    y = .stray ∨ y = .building ∧ num = Int32.ofNat (occupiedSlots m).length
  | _, _, y => y = x

/-- The protocol of a worker that matches against the slots of `m`. -/
@[simps] def matchingProtocol (m : Mem) : Protocol Resp Ret Matching where
  assume _ _ := True
  next x e := x.next m e
  pre c x := matchingCalls m x c
  post c x r y := matchingLeaves m x c r y

section

variable (m : Mem) (x y : Matching) (c : Call) (r : Ret c) (e : HalEvent)

/-- A call by its contract, behind its entry. -/
@[simp ↓] theorem callRule_matching (Q : Ret c → Matching → Prop) :
    (matchingProtocol m).callRule fine c Q x ↔
      ∃ y, x.next m (.enter c) = some y ∧ matchingCalls m y c ∧
        ∀ r z, matchingLeaves m y c r z → Q r z := by
  cases h : x.next m (.enter c) <;> simp [Protocol.callRule, fine, h]

end

/-! ## The bodies keep to it -/

section bodies

attribute [local simp ↓] load store op call send ionSbuffer sameIonSbuffer

attribute [local simp] matchingCalls matchingLeaves Matching.next Matching.reports Matching.reads

variable {m : Mem}

/-- The occupied ones among `n` slots from `idx` on. -/
def occupiedFrom (m : Mem) (n : ℕ) (idx : ℤ) : List ℤ :=
  ((List.range n).map fun i : ℕ => (i : ℤ) + idx).filter fun idx => (m.tz.finger idx).exist

/-- The first slot is occupied, or it is not. -/
theorem occupiedFrom_succ (n : ℕ) (idx : ℤ) : occupiedFrom m (n + 1) idx =
    if (m.tz.finger idx).exist then idx :: occupiedFrom m n (idx + 1)
    else occupiedFrom m n (idx + 1) := by
  have hslots : (List.range (n + 1)).map (fun i : ℕ => (i : ℤ) + idx) =
      idx :: (List.range n).map fun i : ℕ => (i : ℤ) + (idx + 1) := by
    rw [List.range_succ_eq_map, List.map_cons, List.map_map]
    refine congrArg₂ List.cons (by simp) (List.map_congr_left fun i _ => ?_)
    simp only [Function.comp_apply]
    omega
  rw [occupiedFrom, hslots, List.filter_cons]
  rfl

/-- All slots. -/
theorem occupiedFrom_all : occupiedFrom m maxNumFingers 1 = occupiedSlots m := rfl

/-- A worker that has read a slot that is not that of `m` may read any. -/
theorem matching_stray {α : Type} {p : Code α} {Q : α → Matching → Prop}
    (hp : p.Within Op.readsSlot fun _ => False) (hQ : ∀ a, Q a .stray) :
    (matchingProtocol m).Follows fine p Q .stray := by
  refine .frame hp (fun o ho r => ?_) hQ
  cases o with
  | load v => cases v <;> rfl
  | _ => cases ho

/-- Counting the occupied slots. -/
theorem matching_countFingers {Q : CInt → Matching → Prop} (n : ℕ) (idx : ℤ) (k : ℕ)
    (hQ : Q (Int32.ofNat (k + (occupiedFrom m n idx).length)) .building) (hover : ∀ a, Q a .stray) :
    (matchingProtocol m).Follows fine (countFingers n idx (Int32.ofNat k)) Q .building := by
  induction n generalizing idx k with
  | zero => exact hQ
  | succ n ih =>
    have hnext : Int32.ofNat k + 1 = Int32.ofNat (k + 1) := by
      rw [Int32.ofNat_add]
      rfl
    rw [occupiedFrom_succ] at hQ
    simp [countFingers]
    cases hexist : (m.tz.finger idx).exist with
    | true =>
      simp only [hexist, if_true, List.length_cons] at hQ
      simp
      refine ⟨matching_stray (countFingers_within ..) hover, ?_⟩
      rw [hnext]
      exact ih (idx + 1) (k + 1) (by rwa [Nat.add_assoc, Nat.add_comm 1])
    | false =>
      simp only [hexist, Bool.false_eq_true, if_false] at hQ
      simp
      exact ⟨ih (idx + 1) k hQ, matching_stray (countFingers_within ..) hover⟩

/-- Building the match request. -/
theorem matching_matchTemplates {Q : List (ℕ × List UInt8) → Matching → Prop} (n : ℕ) (idx : ℤ)
    (k : ℕ) (hQ : Q (templateChunks m (occupiedFrom m n idx) k) .building)
    (hover : ∀ a, Q a .stray) :
    (matchingProtocol m).Follows fine (matchTemplates n idx k) Q .building := by
  induction n generalizing idx k Q with
  | zero => exact hQ
  | succ n ih =>
    rw [occupiedFrom_succ] at hQ
    simp [matchTemplates]
    cases hexist : (m.tz.finger idx).exist with
    | true =>
      simp [hexist] at hQ ⊢
      refine ⟨matching_stray (matchTemplates_within ..) hover, fun data => ?_⟩
      split
      · rename_i hdata
        subst hdata
        exact ih (idx + 1) (k + 1) hQ fun a => hover _
      · exact matching_stray (matchTemplates_within ..) fun _ => hover _
    | false =>
      simp [hexist] at hQ ⊢
      refine ⟨ih (idx + 1) k hQ hover, fun _ => ?_⟩
      exact matching_stray (matchTemplates_within ..) fun _ => hover _

/-- The scan behind the answer finds the slot it names. -/
theorem matching_findMatched {Q : ℤ → Matching → Prop} {req : Request} {reply : Reply}
    {fakeFid : CInt} (n : ℕ) (idx : ℤ) (len : CInt)
    (hQ : Q (matchedSlot (fun idx => (m.tz.finger idx).exist) fakeFid n idx len)
      (.answered req reply)) (hover : ∀ a, Q a .stray) :
    (matchingProtocol m).Follows fine (findMatched fakeFid 0 n idx len) Q
      (.answered req reply) := by
  induction n generalizing idx len with
  | zero => exact hQ
  | succ n ih =>
    unfold matchedSlot at hQ
    simp only [findMatched]
    cases hexist : (m.tz.finger idx).exist with
    | true =>
      simp only [hexist, if_true] at hQ
      simp [hexist]
      refine ⟨matching_stray (findMatched_within ..) hover, fun hlen => ?_, fun hlen => ?_⟩
      · rwa [if_pos hlen] at hQ
      · rw [if_neg hlen] at hQ
        exact ih (idx + 1) (len + 1) hQ
    | false =>
      simp only [hexist, Bool.false_eq_true, if_false] at hQ
      simp [hexist]
      refine ⟨ih (idx + 1) len hQ, fun _ => hover _, fun _ => ?_⟩
      exact matching_stray (findMatched_within ..) hover

/-- Decoding the answer. -/
theorem matching_findNamed {Q : ℤ → Matching → Prop} {req : Request} (reply : Reply)
    (hQ : Q (namedSlot m reply) (.answered req reply)) (hover : ∀ a, Q a .stray) :
    (matchingProtocol m).Follows fine (findMatched (reply.data 22 + 1) 0 maxNumFingers 1 0) Q
      (.answered req reply) :=
  matching_findMatched maxNumFingers 1 0 hQ hover

/-- The worker's bodies keep to the protocol. -/
theorem matchingProtocol_valid : (matchingProtocol m).Valid fine body := by
  intro c _ x hx
  cases c
  all_goals simp at hx
  case getTzState => simp [body, getTzState, hx]
  case setTzState => simp [body, setTzState, hx]
  case vcsUpdateCalData => simp [body, vcsUpdateCalData, hx]
  case vcsCheckState => simp [body, vcsCheckState, hx]
  case vcsStartCapture => obtain rfl | rfl := hx <;> simp [body, vcsStartCapture]
  case vcsStartCaptureWait => simp [body, vcsStartCaptureWait, hx]
  case vcsStartCaptureRead => simp [body, vcsStartCaptureRead, hx]
  case vcsAuthenticate =>
    obtain rfl | rfl := hx <;> simp [body, vcsAuthenticate] <;>
      rintro _ fid y (⟨rfl, rfl⟩ | ⟨req, reply, rfl, rfl⟩) <;> simp
  case vcsAuthenticateLoop =>
    obtain rfl | rfl := hx
    all_goals
      simp [body, vcsAuthenticateLoop]
      intro _ _ now num
      refine ⟨?_, fun hnum => ?_⟩
      · -- the number was read off other slots
        refine matching_stray (matchTemplates_within ..) fun _ => ?_
        simp
        exact fun resp _ _ => matching_stray (findMatched_within ..) fun _ => by simp
      · refine matching_matchTemplates maxNumFingers 1 0 ?_ fun _ => ?_
        · simp [hnum, matchData, ← occupiedFrom_all]
          intro resp
          by_cases hret : resp.ret = 0
          · by_cases hresult : resp.result = 0
            · simp [Reply.failed, hret, hresult]
              refine matching_findNamed resp ?_ fun _ => by simp
              simp
              intro payload _
              by_cases hpayload : payload = (m.tz.finger (namedSlot m resp)).payload
              · simp [hpayload]
              · simp [hpayload]
            · simp [Reply.failed, hret, hresult]
          · simp [Reply.failed, hret]
        · simp
          exact fun resp _ _ => matching_stray (findMatched_within ..) fun _ => by simp
  case vcsGetEnrolledFingerNum =>
    subst hx
    exact matching_countFingers maxNumFingers 1 0 (by simp [occupiedFrom, occupiedSlots]) (by simp)
  case vcsUpdateAuthToken => simp [body, vcsUpdateAuthToken, getAuthToken, hx]
  case vcsUninit => simp [body, vcsUninit, hx]
  case sensorUninit => simp [body, sensorUninit, hx]
  case sensorCaptureStart => simp [body, sensorCaptureStart, hx]
  case sendErrorNotice => simp [body, sendErrorNotice, hx]
  case sendAcquiredNotice => simp [body, sendAcquiredNotice, hx]
  case sendEnrollNotice => simp [body, sendEnrollNotice, hx]
  case sendRemoveNotice => simp [body, sendRemoveNotice, hx]
  case sendAuthenticatedNotice =>
    obtain rfl | ⟨hfid, req, reply, rfl, rfl⟩ := hx
    · simp [body, sendAuthenticatedNotice]
    · simp [body, sendAuthenticatedNotice, hfid]

/-- The worker starts away from a match. -/
theorem matching_start : (matchingProtocol m).Follows fine (.call .vcsAuthenticate .ret)
    (fun _ _ => True) .away := by simp

end bodies

/-! ## Every run -/

/-- Whether a thread with these events, newest first, is between counting the slots for a match
request and having decoded the answer. -/
def matching : List HalEvent → Bool
  | [] => false
  | .enter .vcsGetEnrolledFingerNum :: _ => true
  | .op (.qseecomSendCmd req) reply :: es =>
    req.cmd == .vfmMatchImageToTemplates && !reply.failed && matching es
  | _ :: es => matching es

/-- The condition on a step: while worker `w` is matching, no other thread changes a slot. -/
def othersKeepSlots (w : Tid) (s : Hal) (t : Tid) (e : HalEvent) : Prop :=
  t ≠ w → matching (s.own w) = true → keepsSlots s e

/-- A match request and its answer. -/
def asksMatch : HalEvent → Option (Request × Reply)
  | .op (.qseecomSendCmd req) reply =>
    if req.cmd = .vfmMatchImageToTemplates then some (req, reply) else none
  | _ => none

/-- The payload of the finger that was found is released: the answer is decoded. -/
def releasesPayload : HalEvent → Bool
  | .op (.qseecomSendCmd req) _ => req.cmd == .vfmPayloadRelease
  | _ => false

/-- The last match request of thread `w` with its answer, and the log before it. -/
def lastAsked (w : Tid) : List (Tid × HalEvent) →
    Option ((Request × Reply) × List (Tid × HalEvent))
  | [] => none
  | (t, e) :: log =>
    match if t = w then asksMatch e else none with
    | some asked => some (asked, log)
    | none => lastAsked w log

/-- The log before thread `w` released a payload last. -/
def lastDecoded (w : Tid) : List (Tid × HalEvent) → Option (List (Tid × HalEvent))
  | [] => none
  | (t, e) :: log => if t = w ∧ releasesPayload e = true then some log else lastDecoded w log

/-- The slots after the steps of a log, from those of `m`. -/
def slotsAfter (m : Mem) : List (Tid × HalEvent) → ℤ → Finger
  | [] => m.tz.finger
  | (_, .op o _) :: log => fingerAfter (slotsAfter m log) o
  | _ :: log => slotsAfter m log

/-- Neither a match request nor a release. -/
def unmarked (e : HalEvent) : Prop := asksMatch e = none ∧ releasesPayload e = false

/-- On the way to state `s`, worker `w` sent its last match request `req`, with the slots of `m`,
and it was answered `reply`. -/
def WasSent (m₀ : Mem) (arrives : Call → Bool) (w : Tid) (m : Mem) (req : Request) (reply : Reply)
    (s : Hal) : Prop :=
  ∃ s₁ s₂, (Hal.idle m₀).Reaches fine arrives (othersKeepSlots w) s₁ ∧
    s₁.Runs fine w (.op (.qseecomSendCmd req) reply) s₂ ∧
    s₂.Reaches fine arrives (othersKeepSlots w) s ∧
    lastAsked w s.log = some ((req, reply), s₁.log) ∧ s₁.mem.tz.finger = m.tz.finger ∧
    req.cmd = .vfmMatchImageToTemplates ∧ reply.failed = false ∧ Carries s₁.mem req

/-- The answer of the last match request was decoded with the slots of `m`. -/
def WasDecoded (m₀ : Mem) (w : Tid) (m : Mem) (s : Hal) : Prop :=
  ∃ log, lastDecoded w s.log = some log ∧ lastAsked w log = lastAsked w s.log ∧
    slotsAfter m₀ log = m.tz.finger

/-- What a stage says of the run so far. -/
def Matching.Grounded (m₀ : Mem) (arrives : Call → Bool) (w : Tid) (m : Mem) (s : Hal) :
    Matching → Prop
  | away => True
  | building => s.mem.tz.finger = m.tz.finger
  | answered req reply => s.mem.tz.finger = m.tz.finger ∧ WasSent m₀ arrives w m req reply s
  | decoded req reply => WasSent m₀ arrives w m req reply s ∧ WasDecoded m₀ w m s
  | stray => False

/-- The worker has read the slots of one `m` since it began to match last, which are those of the
memory as long as it matches. -/
def Windowed (m₀ : Mem) (arrives : Call → Bool) (w : Tid) (s : Hal) : Prop :=
  ∃ m x, (matchingProtocol m).stage .away (s.own w) = some x ∧ matching (s.own w) = !x.rests ∧
    x.Grounded m₀ arrives w m s

section runs

variable {m₀ m : Mem} {arrives : Call → Bool} {w : Tid} {s s' : Hal}

/-- The log tells the slots. -/
theorem slotsAfter_log {ok : Hal → Tid → HalEvent → Prop}
    (hs : (Hal.idle m₀).Reaches fine arrives ok s) : slotsAfter m₀ s.log = s.mem.tz.finger := by
  induction hs with
  | refl => rfl
  | arrive _ _ _ ih => exact ih
  | @run s s' t e _ _ hr ih =>
    rw [hr.log]
    cases e with
    | op o r => rw [(effect_of_runs hr).finger, ← ih, slotsAfter]
    | enter c => rw [mem_of_enters hr, ← ih, slotsAfter]; simp
    | done c r => exact (not_done_of_fine hr).elim

/-- An event of another thread, or another event, is no match request. -/
theorem lastAsked_cons {t : Tid} {e : HalEvent} {log : List (Tid × HalEvent)}
    (he : t = w → asksMatch e = none) : lastAsked w ((t, e) :: log) = lastAsked w log := by
  rw [lastAsked]
  by_cases htw : t = w
  · rw [if_pos htw, he htw]
  · rw [if_neg htw]

/-- Nor a release. -/
theorem lastDecoded_cons {t : Tid} {e : HalEvent} {log : List (Tid × HalEvent)}
    (he : t = w → unmarked e) : lastDecoded w ((t, e) :: log) = lastDecoded w log := by
  rw [lastDecoded, if_neg]
  rintro ⟨htw, hrelease⟩
  rw [(he htw).2] at hrelease
  cases hrelease

/-- What was sent stays sent. -/
theorem WasSent.run {req : Request} {reply : Reply} {t : Tid} {e : HalEvent}
    (h : WasSent m₀ arrives w m req reply s) (ho : othersKeepSlots w s t e)
    (hr : s.Runs fine t e s') (he : t = w → asksMatch e = none) :
    WasSent m₀ arrives w m req reply s' := by
  obtain ⟨s₁, s₂, h₁, hsend, h₂, hasked, hrest⟩ := h
  exact ⟨s₁, s₂, h₁, hsend, .run h₂ ho hr, by rw [hr.log, lastAsked_cons he, hasked], hrest⟩

/-- Also when a thread arrives. -/
theorem WasSent.arrive {req : Request} {reply : Reply} {t : Tid} {c : Call}
    (h : WasSent m₀ arrives w m req reply s) (ha : arrives c = true) (hp : s.pool t = none) :
    WasSent m₀ arrives w m req reply (s.add t c) := by
  obtain ⟨s₁, s₂, h₁, hsend, h₂, hasked, hrest⟩ := h
  exact ⟨s₁, s₂, h₁, hsend, .arrive h₂ ha hp, hasked, hrest⟩

/-- What was decoded stays decoded. -/
theorem WasDecoded.run {t : Tid} {e : HalEvent} (h : WasDecoded m₀ w m s) (hr : s.Runs fine t e s')
    (he : t = w → unmarked e) : WasDecoded m₀ w m s' := by
  obtain ⟨log, hlog, hasked, hslots⟩ := h
  refine ⟨log, ?_, ?_, hslots⟩
  · rw [hr.log, lastDecoded_cons he, hlog]
  · rw [hr.log, lastAsked_cons fun htw => (he htw).1, hasked]

/-- An arrival. -/
theorem Matching.Grounded.arrive {x : Matching} {t : Tid} {c : Call}
    (h : x.Grounded m₀ arrives w m s) (ha : arrives c = true) (hp : s.pool t = none) :
    x.Grounded m₀ arrives w m (s.add t c) := by
  cases x with
  | away => trivial
  | building => exact h
  | answered req reply => exact ⟨h.1, h.2.arrive ha hp⟩
  | decoded req reply => exact ⟨h.1.arrive ha hp, h.2⟩
  | stray => exact h

/-- A step of another thread. -/
theorem Matching.Grounded.other {x : Matching} {t : Tid} {e : HalEvent}
    (h : x.Grounded m₀ arrives w m s) (hw : t ≠ w) (hmatching : matching (s.own w) = !x.rests)
    (ho : othersKeepSlots w s t e) (hr : s.Runs fine t e s') : x.Grounded m₀ arrives w m s' := by
  have hkept : x.rests = false → s'.mem.tz.finger = s.mem.tz.finger := by
    intro hx
    have hkeeps := ho hw (by rw [hmatching, hx]; rfl)
    cases e with
    | op o r => exact (effect_of_runs hr).finger.trans (hkeeps o r rfl)
    | enter c => rw [mem_of_enters hr]
    | done c r => exact (not_done_of_fine hr).elim
  cases x with
  | away => trivial
  | building => exact (hkept rfl).trans h
  | answered req reply => exact ⟨(hkept rfl).trans h.1, h.2.run ho hr fun htw => absurd htw hw⟩
  | decoded req reply =>
    exact ⟨h.1.run ho hr fun htw => absurd htw hw, h.2.run hr fun htw => absurd htw hw⟩
  | stray => exact h

/-- A step of the worker that keeps the slots and its stage. -/
theorem Matching.Grounded.kept {x : Matching} {e : HalEvent} (h : x.Grounded m₀ arrives w m s)
    (ho : othersKeepSlots w s w e) (hr : s.Runs fine w e s') (he : unmarked e)
    (hmem : s'.mem.tz.finger = s.mem.tz.finger) : x.Grounded m₀ arrives w m s' := by
  cases x with
  | away => trivial
  | building => exact hmem.trans h
  | answered req reply => exact ⟨hmem.trans h.1, h.2.run ho hr fun _ => he.1⟩
  | decoded req reply => exact ⟨h.1.run ho hr fun _ => he.1, h.2.run hr fun _ => he⟩
  | stray => exact h

/-- A read of a slot by the worker. -/
theorem Matching.Grounded.reads {x y : Matching} {v : Var} {r : v.Ty} {p : Bool}
    (h : x.Grounded m₀ arrives w m s) (ho : othersKeepSlots w s w (.op (.load v) r))
    (hr : s.Runs fine w (.op (.load v) r) s') (hy : some (x.reads p) = some y)
    (hp : s.mem.tz.finger = m.tz.finger → p = true) : y = x ∧ x.Grounded m₀ arrives w m s' := by
  obtain rfl := Option.some.inj hy
  refine ⟨?_, h.kept ho hr ⟨rfl, rfl⟩ (effect_of_runs hr).finger⟩
  cases x with
  | building =>
    have hsame : s.mem.tz.finger = m.tz.finger := h
    simp [Matching.reads, hp hsame]
  | answered req reply => simp [Matching.reads, hp h.1]
  | _ => rfl

/-- A command of the worker. -/
theorem Matching.Grounded.sends {x y : Matching} {req : Request} {reply : Reply}
    (h : x.Grounded m₀ arrives w m s)
    (hs : (Hal.idle m₀).Reaches fine arrives (othersKeepSlots w) s)
    (ho : othersKeepSlots w s w (.op (.qseecomSendCmd req) reply))
    (hr : s.Runs fine w (.op (.qseecomSendCmd req) reply) s')
    (hy : x.sends m req reply = some y) (hmatching : matching (s.own w) = !x.rests) :
    matching (.op (.qseecomSendCmd req) reply :: s.own w) = !y.rests ∧
      y.Grounded m₀ arrives w m s' := by
  have hmem : s'.mem.tz.finger = s.mem.tz.finger := (effect_of_runs hr).finger
  simp only [matching, hmatching]
  cases x with
  | away =>
    simp only [Matching.sends_away, Option.ite_none_left_eq_some, Option.some.injEq] at hy
    obtain ⟨-, rfl⟩ := hy
    exact ⟨by simp, trivial⟩
  | building =>
    simp only [Matching.sends_building, Option.ite_none_right_eq_some, Option.some.injEq] at hy
    obtain ⟨⟨hcmd, hdata⟩, rfl⟩ := hy
    have hsame : s.mem.tz.finger = m.tz.finger := h
    cases hfailed : reply.failed with
    | true => exact ⟨by simp, trivial⟩
    | false =>
      have hcarries := (carries_of_matchData hdata).congr hsame.symm
      have hasked : lastAsked w s'.log = some ((req, reply), s.log) := by
        simp [hr.log, lastAsked, asksMatch, hcmd]
      exact ⟨by simp [hcmd], hmem.trans hsame, s, s', hs, hr, .refl, hasked, hsame, hcmd, hfailed,
        hcarries⟩
  | answered req' reply' =>
    simp only [Matching.sends_answered, Option.ite_none_right_eq_some, Option.some.injEq] at hy
    obtain ⟨⟨hcmd, -⟩, rfl⟩ := hy
    have hmatch : asksMatch (.op (.qseecomSendCmd req) reply) = none := by simp [asksMatch, hcmd]
    have hdecoded : lastDecoded w s'.log = some s.log := by
      simp [hr.log, lastDecoded, releasesPayload, hcmd]
    have hasked : lastAsked w s.log = lastAsked w s'.log := by
      rw [hr.log, lastAsked_cons fun _ => hmatch]
    exact ⟨by simp [hcmd], h.2.run ho hr fun _ => hmatch, s.log, hdecoded, hasked,
      (slotsAfter_log hs).trans h.1⟩
  | decoded req' reply' =>
    simp only [Matching.sends, Option.ite_none_left_eq_some, Option.some.injEq] at hy
    obtain ⟨hcmd, rfl⟩ := hy
    obtain ⟨hmatch, hrelease⟩ := not_or.mp hcmd
    have he : unmarked (.op (.qseecomSendCmd req) reply) :=
      ⟨by simp [asksMatch, hmatch], by simp [releasesPayload, hrelease]⟩
    exact ⟨by simp, h.1.run ho hr fun _ => he.1, h.2.run hr fun _ => he⟩
  | stray => exact h.elim

/-- A step of the worker that is none of these. -/
theorem Matching.Grounded.rests {x : Matching} {e : HalEvent} (h : x.Grounded m₀ arrives w m s)
    (hx : x.rests = true) (ho : othersKeepSlots w s w e) (hr : s.Runs fine w e s')
    (he : unmarked e) : x.Grounded m₀ arrives w m s' := by
  cases x with
  | away => trivial
  | decoded req reply => exact ⟨h.1.run ho hr fun _ => he.1, h.2.run hr fun _ => he⟩
  | stray => exact h.elim
  | _ => cases hx

/-- **A step of the worker.** -/
theorem Matching.Grounded.own {x y : Matching} {e : HalEvent} (h : x.Grounded m₀ arrives w m s)
    (hs : (Hal.idle m₀).Reaches fine arrives (othersKeepSlots w) s) (ho : othersKeepSlots w s w e)
    (hr : s.Runs fine w e s') (hy : x.next m e = some y) (he : e ≠ .enter .vcsGetEnrolledFingerNum)
    (hmatching : matching (s.own w) = !x.rests) :
    matching (e :: s.own w) = !y.rests ∧ y.Grounded m₀ arrives w m s' := by
  have hrest : (if x.rests then some x else none) = some y → matching (e :: s.own w) =
      matching (s.own w) → unmarked e →
      matching (e :: s.own w) = !y.rests ∧ y.Grounded m₀ arrives w m s' := by
    intro hif hsame hmark
    simp only [Option.ite_none_right_eq_some, Option.some.injEq] at hif
    obtain ⟨hx, rfl⟩ := hif
    exact ⟨hsame.trans hmatching, h.rests hx ho hr hmark⟩
  cases e with
  | enter c => cases c <;> first | exact absurd rfl he | exact hrest hy rfl ⟨rfl, rfl⟩
  | done c r => cases hy
  | op o r =>
    cases o with
    | load v =>
      have hread := load_of_runs hr
      cases v with
      | fingerExist idx | fingerData idx | fingerPayload idx =>
        obtain ⟨rfl, hgrounded⟩ := h.reads ho hr hy fun hsame => by
          rw [hread, Mem.get, hsame]
          exact beq_self_eq_true _
        exact ⟨hmatching, hgrounded⟩
      | _ => exact hrest hy rfl ⟨rfl, rfl⟩
    | qseecomSendCmd req => exact h.sends hs ho hr hy hmatching
    | derefHandle =>
      obtain rfl : x = y := Option.some.inj hy
      exact ⟨hmatching, h.kept ho hr ⟨rfl, rfl⟩ (effect_of_runs hr).finger⟩
    | notify msg =>
      cases msg with
      | authenticated fid gid hat =>
        cases x with
        | decoded req reply =>
          simp only [Matching.next, Matching.reports, Option.ite_none_right_eq_some,
            Option.some.injEq] at hy
          obtain ⟨-, rfl⟩ := hy
          exact ⟨hmatching, h.rests rfl ho hr ⟨rfl, rfl⟩⟩
        | stray => exact h.elim
        | _ => cases hy
      | _ => exact hrest hy rfl ⟨rfl, rfl⟩
    | _ => exact hrest hy rfl ⟨rfl, rfl⟩

/-- **What a worker matches against.** -/
theorem windowed (hs : (Hal.idle m₀).Reaches fine arrives (othersKeepSlots w) s)
    (hw : s.entry w = some .vcsAuthenticate) : Windowed m₀ arrives w s := by
  have hnew : ∀ s : Hal, s.own w = [] → Windowed m₀ arrives w s := fun s hown =>
    ⟨m₀, .away, by rw [hown]; rfl, by rw [hown]; rfl, trivial⟩
  induction hs with
  | refl => simp [State.entry, Hal.idle] at hw
  | @arrive s t c hs ha hp ih =>
    by_cases htw : t = w
    · subst htw
      exact hnew _ (hs.own_eq_nil rfl hp)
    · have hentry : s.entry w = some .vcsAuthenticate := by
        simpa [State.entry, State.pool_add, Ne.symm htw] using hw
      obtain ⟨m, x, hx, hmatching, hgrounded⟩ := ih hentry
      exact ⟨m, x, hx, hmatching, hgrounded.arrive ha hp⟩
  | @run s s' t e hs ho hr ih =>
    obtain hentry | hborn := (hr.entry w .vcsAuthenticate).mp hw
    · obtain ⟨m, x, hx, hmatching, hgrounded⟩ := ih hentry
      by_cases htw : t = w
      · subst htw
        obtain ⟨⟨d, p⟩, hp, rfl⟩ := Option.map_eq_some_iff.mp hentry
        have hown : s'.own t = e :: s.own t := by rw [hr.own, if_pos rfl]
        obtain ⟨q, hn, -⟩ := hr.code hp
        by_cases he : e = .enter .vcsGetEnrolledFingerNum
        · -- the slots that count are those of now
          subst he
          obtain ⟨y, hy, -⟩ := hs.follows (matchingProtocol_valid (m := s.mem)) matching_start
            (A := fun _ => True) (fun _ _ _ => trivial) (fun _ _ _ _ _ => trivial) (fun _ => rfl)
            rfl hp
          refine ⟨s.mem, .building, ?_, by rw [hown]; rfl, ?_⟩
          · rw [hown]
            exact Protocol.stage_cons hy rfl
          · exact congrArg (·.tz.finger) (mem_of_enters hr)
        · obtain ⟨y, hy, hfollows⟩ := hs.follows (matchingProtocol_valid (m := m)) matching_start
            (A := fun _ => True) (fun _ _ _ => trivial) (fun _ _ _ _ _ => trivial) (fun _ => rfl)
            rfl hp
          obtain rfl : x = y := Option.some.inj (hx.symm.trans hy)
          obtain ⟨z, hz, -⟩ := hfollows.next matchingProtocol_valid hn trivial
          obtain ⟨hmatching', hgrounded'⟩ := hgrounded.own hs ho hr hz he hmatching
          rw [← hown] at hmatching'
          refine ⟨m, z, ?_, hmatching', hgrounded'⟩
          rw [hown]
          exact Protocol.stage_cons hx hz
      · refine ⟨m, x, ?_, ?_, hgrounded.other htw hmatching ho hr⟩
        · rwa [hr.own, if_neg (Ne.symm htw)]
        · rwa [hr.own, if_neg (Ne.symm htw)]
    · have hnone := hr.fresh w _ hborn
      have hwt : w ≠ t := by
        rintro rfl
        exact hr.mem_pool hnone
      exact hnew _ (by rw [hr.own, if_neg hwt]; exact hs.own_eq_nil rfl hnone)

/-- The stage a step of the worker is taken in. -/
theorem windowed_next (hs : (Hal.idle m₀).Reaches fine arrives (othersKeepSlots w) s)
    (hw : s.entry w = some .vcsAuthenticate) {e : HalEvent} (hr : s.Runs fine w e s') :
    ∃ m x y, (matchingProtocol m).stage .away (s.own w) = some x ∧ x.next m e = some y ∧
      x.Grounded m₀ arrives w m s := by
  obtain ⟨m, x, hx, -, hgrounded⟩ := windowed hs hw
  obtain ⟨z, y, hz, hy⟩ := hs.next_of_runs (matchingProtocol_valid (m := m)) matching_start
    (A := fun _ => True) (fun _ _ _ => trivial) (fun _ _ _ _ _ => trivial) (fun _ => rfl) rfl hw
    (fun hne => absurd rfl hne) hr
  obtain rfl : x = z := Option.some.inj (hx.symm.trans hz)
  exact ⟨m, x, y, hx, hy, hgrounded⟩

/-- The answer that is being decoded, or has been. -/
def Matching.answer : Matching → Option Reply
  | answered _ reply | decoded _ reply => some reply
  | _ => none

/-- A stage with an answer is reached by being answered, or it was there before. -/
theorem Matching.answer_of_next {x y : Matching} {e : HalEvent} {reply : Reply}
    (h : x.next m e = some y) (hy : y.answer = some reply) :
    x.answer = some reply ∧ (∀ req r, e = .op (.qseecomSendCmd req) r →
      req.cmd ≠ .vfmMatchImageToTemplates) ∨
    ∃ req, e = .op (.qseecomSendCmd req) reply ∧ req.cmd = .vfmMatchImageToTemplates := by
  have hrest : (if x.rests then some x else none) = some y → x.answer = some reply := by
    intro hif
    simp only [Option.ite_none_right_eq_some, Option.some.injEq] at hif
    rwa [hif.2]
  have hreads : ∀ p, some (x.reads p) = some y → x.answer = some reply := by
    rintro p ⟨⟩
    unfold Matching.reads at hy
    split at hy
    · exact hy
    · cases hy
  cases e with
  | enter c =>
    refine .inl ⟨?_, fun _ _ heq => by cases heq⟩
    cases c <;> first | exact hrest h | skip
    obtain rfl : Matching.building = y := Option.some.inj h
    cases hy
  | done c r => cases h
  | op o r =>
    cases o with
    | load v =>
      refine .inl ⟨?_, fun _ _ heq => by cases heq⟩
      cases v with
      | fingerExist idx | fingerData idx | fingerPayload idx => exact hreads _ h
      | _ => exact hrest h
    | qseecomSendCmd req =>
      have hsends : x.sends m req r = some y := h
      by_cases hreq : req.cmd = .vfmMatchImageToTemplates
      · cases x with
        | building =>
          simp only [Matching.sends_building, Option.ite_none_right_eq_some, Option.some.injEq]
            at hsends
          obtain ⟨-, rfl⟩ := hsends
          split at hy
          · cases hy
          · obtain rfl : r = reply := Option.some.inj hy
            exact .inr ⟨req, rfl, hreq⟩
        | stray =>
          obtain rfl : Matching.stray = y := Option.some.inj hsends
          cases hy
        | _ => simp [Matching.sends, hreq] at hsends
      · refine .inl ⟨?_, fun req' r' heq => ?_⟩
        · cases x with
          | building => simp [hreq] at hsends
          | answered req' reply' =>
            simp only [Matching.sends_answered, Option.ite_none_right_eq_some, Option.some.injEq]
              at hsends
            obtain ⟨-, rfl⟩ := hsends
            exact hy
          | stray =>
            obtain rfl : Matching.stray = y := Option.some.inj hsends
            exact hy
          | _ =>
            simp only [Matching.sends, Option.ite_none_left_eq_some, Option.some.injEq] at hsends
            obtain ⟨-, rfl⟩ := hsends
            exact hy
        · cases heq
          exact hreq
    | derefHandle =>
      obtain rfl : x = y := Option.some.inj h
      exact .inl ⟨hy, fun _ _ heq => by cases heq⟩
    | notify msg =>
      refine .inl ⟨?_, fun _ _ heq => by cases heq⟩
      cases msg with
      | authenticated fid gid hat =>
        cases x with
        | decoded req' reply' =>
          simp only [Matching.next, Matching.reports, Option.ite_none_right_eq_some,
            Option.some.injEq] at h
          rwa [h.2]
        | stray =>
          obtain rfl : Matching.stray = y := Option.some.inj h
          cases hy
        | _ => cases h
      | _ => exact hrest h
    | _ => exact .inl ⟨hrest h, fun _ _ heq => by cases heq⟩

/-- The answer is that of the last match request. -/
theorem lastMatch_of_stage {es : List HalEvent} {x : Matching} {reply : Reply}
    (h : (matchingProtocol m).stage .away es = some x) (hx : x.answer = some reply) :
    lastMatch es = some reply := by
  induction es generalizing x with
  | nil =>
    obtain rfl : Matching.away = x := Option.some.inj h
    cases hx
  | cons e es ih =>
    obtain ⟨y, hy, hnext⟩ := Option.bind_eq_some_iff.mp h
    obtain ⟨hanswer, hother⟩ | ⟨req, rfl, hreq⟩ := Matching.answer_of_next hnext hx
    · have hlast : lastMatch (e :: es) = lastMatch es := by
        cases e with
        | op o r =>
          cases o with
          | qseecomSendCmd req => simp [lastMatch, hother req r rfl]
          | _ => rfl
        | _ => rfl
      rw [hlast, ih hy hanswer]
    · simp [lastMatch, hreq]

/-- **Every request carries the slots.** In every interleaving in which no other thread changes a
slot while worker `w` is matching, a match request that it sends carries the slots as they are at
that moment. -/
theorem matchRequest_carries (hs : (Hal.idle m₀).Reaches fine arrives (othersKeepSlots w) s)
    (hw : s.entry w = some .vcsAuthenticate) {req : Request} {reply : Reply}
    (hr : s.Runs fine w (.op (.qseecomSendCmd req) reply) s')
    (hreq : req.cmd = .vfmMatchImageToTemplates) : Carries s.mem req := by
  obtain ⟨m, x, y, hx, hy, hgrounded⟩ := windowed_next hs hw hr
  have hsends : x.sends m req reply = some y := hy
  cases x with
  | building =>
    simp only [Matching.sends_building, Option.ite_none_right_eq_some] at hsends
    exact (carries_of_matchData hsends.1.2).congr (Eq.symm hgrounded)
  | stray => exact hgrounded.elim
  | _ => simp [Matching.sends, hreq] at hsends

/-- **The finger that is reported has the template that was matched.** In every interleaving in
which no other thread changes a slot while worker `w` is matching, when `w` reports a finger, the
last match request was answered with the place at which it carried that finger's template. -/
theorem reported_template (hs : (Hal.idle m₀).Reaches fine arrives (othersKeepSlots w) s)
    (hw : s.entry w = some .vcsAuthenticate) {fid : ℤ} {gid : UInt32} {hat : HwAuthToken} {r : Unit}
    (hr : s.Runs fine w (.op (.notify (.authenticated fid gid hat)) r) s') :
    ∃ s₁ s₂ req reply, (Hal.idle m₀).Reaches fine arrives (othersKeepSlots w) s₁ ∧
      s₁.Runs fine w (.op (.qseecomSendCmd req) reply) s₂ ∧
      s₂.Reaches fine arrives (othersKeepSlots w) s ∧ req.cmd = .vfmMatchImageToTemplates ∧
      lastMatch (s.own w) = some reply ∧ reply.failed = false ∧ 0 ≤ (reply.data 22).toInt ∧
      (reply.data 22).toInt.toNat < announced req ∧ (s₁.mem.tz.finger fid).exist = true ∧
      templateData req (reply.data 22).toInt.toNat = (s₁.mem.tz.finger fid).data.toList := by
  obtain ⟨m, x, y, hx, hy, hgrounded⟩ := windowed_next hs hw hr
  cases x with
  | decoded req reply =>
    have hreports : (Matching.decoded req reply).reports m fid = some y := hy
    simp only [Matching.reports, Option.ite_none_right_eq_some] at hreports
    obtain ⟨⟨hfid, rfl⟩, -⟩ := hreports
    obtain ⟨⟨s₁, s₂, h₁, hsend, h₂, -, hm, hcmd, hfailed, hcarries⟩, -⟩ := hgrounded
    obtain ⟨hnonneg, hslot⟩ := namedSlot_ne_zero hfid
    rw [← occupiedSlots_congr hm] at hslot
    refine ⟨s₁, s₂, req, reply, h₁, hsend, h₂, hcmd, lastMatch_of_stage hx rfl, hfailed, hnonneg,
      ?_, (mem_occupiedSlots (List.mem_of_getElem? hslot)).2.2, hcarries.template _ _ hslot⟩
    rw [hcarries.announced]
    exact (List.getElem?_eq_some_iff.mp hslot).1
  | stray => exact hgrounded.elim
  | _ => cases hy

end runs

/-- Slots 1 and 3 are occupied, and their templates differ. -/
def firstAndThird : Mem :=
  { knownFinger with
    tz := { knownFinger.tz with
      finger := Function.update knownFinger.tz.finger 3
        { Finger.zero with exist := true, data := Vector.replicate _ 3 } } }

/-- A worker captures an image and reads the slots. -/
def readSlots : List (Label hal) :=
  .arrive 1 .vcsAuthenticate :: ticks 1 2 ++ answer 1 (.good 0) ++ ticks 1 7 ++
    answer 1 (.good 0) ++ ticks 1 2 ++ answer 1 .lost ++ ticks 1 18 ++
    .arrive 2 .sensorProcessSignal :: ticks 2 13 ++ touch 2 1 ++ ticks 2 1 ++ ticks 1 40 ++
    answer 1 (.good 2) ++ ticks 1 2 ++ answer 1 (.good 0) ++ ticks 1 15

/-- `othersKeepSlots` from its executable form. -/
theorem othersKeepSlots_of_quiet (s : Hal) (t : Tid) (e : HalEvent) (h : quietEvent e = true) :
    othersKeepSlots 1 s t e := by
  rintro - - o r rfl
  exact fingerAfter_of_quiet h _

set_option maxRecDepth 2000 in
/-- The worker is about to ask. -/
theorem asking_second : ∃ (s s' : Hal) (req : Request),
    (Hal.idle firstAndThird).Reaches fine (fun _ => true) (othersKeepSlots 1) s ∧
      s.entry 1 = some .vcsAuthenticate ∧ req.cmd = .vfmMatchImageToTemplates ∧
      (occupiedSlots s.mem).length = 2 ∧
      s.Runs fine 1 (.op (.qseecomSendCmd req) (.good 1)) s' := by
  obtain ⟨s, hs, s', hs', req, log, hlog, hentry, hreq, hslots⟩ : ∃ s,
      (Hal.idle firstAndThird).exec fine (fun _ => true) (fun _ _ e => quietEvent e) readSlots =
        some s ∧
      ∃ s', s.step fine (fun _ => true) (.run 1 [.reply (.good 1)]) = some s' ∧
        ∃ req log, s'.log = (1, .op (.qseecomSendCmd req) (.good 1)) :: log ∧
          s.entry 1 = some .vcsAuthenticate ∧ req.cmd = .vfmMatchImageToTemplates ∧
          (occupiedSlots s.mem).length = 2 :=
    ⟨_, rfl, _, rfl, _, _, rfl, rfl, rfl, rfl⟩
  obtain ⟨e, hr⟩ := State.run_inv hs'
  obtain ⟨rfl, -⟩ : e = .op (.qseecomSendCmd req) (.good 1) ∧ s.log = log := by
    simpa using (hlog.symm.trans hr.log).symm
  exact ⟨s, s', req, State.Reaches.refl.exec othersKeepSlots_of_quiet hs, hentry, hreq, hslots, hr⟩

/-- Two templates are announced. -/
theorem matchRequest_carries_second : ∃ (s s' : Hal) (req : Request),
    s.Runs fine 1 (.op (.qseecomSendCmd req) (.good 1)) s' ∧ announced req = 2 := by
  obtain ⟨s, s', req, hs, hentry, hreq, hslots, hr⟩ := asking_second
  exact ⟨s, s', req, hr, (matchRequest_carries hs hentry hr hreq).announced.trans hslots⟩

set_option maxRecDepth 2000 in
/-- The worker is about to report finger 3, which TrustZone found at the second place. -/
theorem matching_second : ∃ (s s' : Hal) (hat : HwAuthToken),
    (Hal.idle firstAndThird).Reaches fine (fun _ => true) (othersKeepSlots 1) s ∧
      s.entry 1 = some .vcsAuthenticate ∧ lastMatch (s.own 1) = some (.good 1) ∧
      s.Runs fine 1 (.op (.notify (.authenticated 3 0 hat)) ()) s' := by
  obtain ⟨s, hs, s', hs', hat, log, hlog, hentry, hlast⟩ : ∃ s,
      (Hal.idle firstAndThird).exec fine (fun _ => true) (fun _ _ e => quietEvent e)
        (readSlots ++ answer 1 (.good 1) ++ ticks 1 5 ++ answer 1 (.good 0) ++ ticks 1 5 ++
          answer 1 (.good 0) ++ ticks 1 21) = some s ∧
      ∃ s', s.step fine (fun _ => true) (.run 1 [.tick]) = some s' ∧
        ∃ hat log, s'.log = (1, .op (.notify (.authenticated 3 0 hat)) ()) :: log ∧
          s.entry 1 = some .vcsAuthenticate ∧ lastMatch (s.own 1) = some (.good 1) :=
    ⟨_, rfl, _, rfl, _, _, rfl, rfl, rfl⟩
  obtain ⟨e, hr⟩ := State.run_inv hs'
  obtain ⟨rfl, -⟩ : e = .op (.notify (.authenticated 3 0 hat)) () ∧ s.log = log := by
    simpa using (hlog.symm.trans hr.log).symm
  exact ⟨s, s', hat, State.Reaches.refl.exec othersKeepSlots_of_quiet hs, hentry, hlast, hr⟩

/-- Its request carried the template of finger 3 at the second place. -/
theorem reported_template_second : ∃ (s₁ s₂ : Hal) (req : Request) (reply : Reply),
    s₁.Runs fine 1 (.op (.qseecomSendCmd req) reply) s₂ ∧
      templateData req 1 = (s₁.mem.tz.finger 3).data.toList := by
  obtain ⟨s, s', hat, hs, hentry, hlast, hr⟩ := matching_second
  obtain ⟨s₁, s₂, req, reply, -, hsend, -, -, hreply, -, -, -, -, htemplate⟩ :=
    reported_template hs hentry hr
  obtain rfl : Reply.good 1 = reply := Option.some.inj (hlast.symm.trans hreply)
  exact ⟨s₁, s₂, req, _, hsend, htemplate⟩

end KlteCommon.Analysis

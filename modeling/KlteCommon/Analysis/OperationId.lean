import KlteCommon.Analysis.Identity
import KlteCommon.Analysis.LockOrder

/-!
# The challenge of a report

A report carries a token, and the token's challenge is to be the operation id of the request that
started its worker. There is one `op_id`: `fingerprint_authenticate` stores it before it knows
whether the request is accepted, and the worker reads it when it has already stored `STATE_IDLE`.

A thread that runs `fingerprint_authenticate` holds `vdev->lock` from before it stores its id until
it has created the worker (`requestProtocol_valid`), and a worker reports what it read after it had
found a finger (`reportProtocol_valid`). So if no other id is stored while a worker may still
report, every report has the id of its request (`challengeBound`); a request that is refused is
enough to break it (`foreign_challenge`).
-/

set_option autoImplicit false

namespace KlteCommon.Analysis

open KlteCommon.Computation KlteCommon.Fingerprint

/-! ## What is observed -/

/-- The operation id of a request for authentication. -/
def operationOf : Call → Option UInt64
  | .fingerprintAuthenticate operationId => some operationId
  | _ => none

/-- The operation id of the request that worker `w` was started for. -/
def operationFor (s : Hal) (w : Tid) : Option UInt64 :=
  (createdBy w s.log).bind fun p => (s.entry p).bind operationOf

/-- Every report has the operation id of the request that its worker was started for. -/
def ChallengeBound (s : Hal) : Prop :=
  ∀ later earlier w fid gid hat r,
    s.log = later ++ (w, .op (.notify (.authenticated fid gid hat)) r) :: earlier →
      operationFor s w = some hat.challenge

/-- `op_id` is read. -/
def readsOpId : HalEvent → Bool
  | .op (.load .opId) _ => true
  | _ => false

/-- A worker has left its loop. -/
def leavesLoop : HalEvent → Bool
  | .enter .sensorUninit => true
  | _ => false

/-- The payload of a finger that was found is read. -/
def readsFound : HalEvent → Bool
  | .op (.load (.fingerPayload idx)) _ => idx != 0
  | _ => false

/-- An authentication worker with these events may still report a finger: it is in its loop, or has
found a finger, and has not read `op_id`. -/
def mayReport (es : List HalEvent) : Bool :=
  !es.any readsOpId && (!es.any leavesLoop || es.any readsFound)

/-- The condition on a step: no other `op_id` is stored while a worker may still report. -/
def opIdKept (s : Hal) (_ : Tid) (e : HalEvent) : Prop :=
  ∀ a r, e = .op (.store .opId a) r → a ≠ s.mem.vdev.opId →
    ∀ w, s.entry w = some .vcsAuthenticate → mayReport (s.own w) = false

/-! ## The request -/

/-- How far a `fingerprint_authenticate` is. -/
inductive Requesting
  | fresh
  | locked
  | stored
  | done
  deriving DecidableEq

namespace Requesting

/-- `vdev->lock` is held. -/
def holds : Requesting → Bool
  | locked | stored => true
  | _ => false

/-- One event of a request for operation id `request`. -/
def next (request : UInt64) (x : Requesting) : HalEvent → Option Requesting
  | .op (.lock .vdevLock) _ => if x = fresh then some locked else none
  | .op (.unlock .vdevLock) _ => some done
  | .op (.store .opId a) _ => if x = locked ∧ a = request then some stored else none
  | .op (.pthreadCreate .vcsAuthenticate) _ => if x = stored then some stored else none
  | .op (.condBlock _ _) _ | .op (.condWake _ _) _ | .op (.condTimedWake _ _) _ => none
  | .op (.load .opId) _ | .op .clearDevice _ | .op (.notify (.authenticated _ _ _)) _ => none
  | .op _ _ | .enter _ => some x
  | .done _ _ => none

end Requesting

/-- The protocol of a request for operation id `request`. -/
@[simps] def requestProtocol (request : UInt64) : Protocol Resp Ret Requesting where
  assume _ _ := True
  next x e := x.next request e
  pre c x :=
    match c with
    | .fingerprintAuthenticate operationId => operationId = request ∧ x = .fresh
    | .vcsStartAuthenticate => x = .stored
    | .getTzState | .setTzState _ | .sensorInit | .vcsInit | .vcsResume => True
    | _ => False
  post c x _ y :=
    match c with
    | .fingerprintAuthenticate _ => True
    | _ => y = x

section bodies

variable {request : UInt64}

attribute [local simp ↓] load store op call send ionSbuffer sameIonSbuffer

attribute [local simp] Requesting.next

/-- A call by its contract. -/
@[simp ↓] theorem callRule_request (x : Requesting) (c : Call) (Q : Ret c → Requesting → Prop) :
    (requestProtocol request).callRule fine c Q x ↔
      (requestProtocol request).pre c x ∧ ∀ r y, (requestProtocol request).post c x r y → Q r y :=
  Protocol.callRule_entered rfl trivial rfl

/-- Nobody waits for `STATE_IDLE` without the stage. -/
theorem request_awaitIdle {x : Requesting} (n : ℕ) {Q : Bool → Requesting → Prop}
    (hQ : ∀ b, Q b x) : (requestProtocol request).Follows fine (awaitIdle n) Q x := by
  induction n with
  | zero => exact hQ _
  | succ n ih =>
    simp [awaitIdle, hQ]
    exact fun _ => ⟨fun _ => ih, fun _ _ => ih⟩

/-- **The request.** It holds `vdev->lock` while it creates the worker. -/
theorem requestProtocol_valid : (requestProtocol request).Valid fine body := by
  intro c _ x hx
  cases c
  all_goals simp at hx
  case getTzState => simp [body, getTzState]
  case setTzState => simp [body, setTzState]
  case sensorInit => simp [body, sensorInit]
  case vcsResume => simp [body, vcsResume, deviceResume]
  case vcsInit => simp [body, vcsInit]
  case vcsStartAuthenticate =>
    subst hx
    refine .bind (request_awaitIdle 5 fun _ => ?_)
    simp
    rintro _ (_ | _) <;> simp
  case fingerprintAuthenticate =>
    obtain ⟨rfl, rfl⟩ := hx
    simp [body, fingerprintAuthenticate]

end bodies

/-! ## The report -/

/-- How far an authentication worker is: in its loop, with a finger, without one, or with the
challenge it has read. -/
inductive Reporting
  | scanning
  | found
  | lost
  | told (challenge : UInt64)
  deriving DecidableEq

namespace Reporting

/-- The worker may still report. -/
def mayReport : Reporting → Bool
  | scanning | found => true
  | _ => false

/-- One event of a worker. -/
def next (x : Reporting) : HalEvent → Option Reporting
  | .enter .sensorUninit => some (if x = scanning then lost else x)
  | .op (.load (.fingerPayload idx)) _ => some (if x = scanning ∧ idx ≠ 0 then found else x)
  | .op (.load .opId) r => if x = found then some (told r) else none
  | .op (.notify (.authenticated _ _ hat)) _ => if x = told hat.challenge then some x else none
  | .op (.store .opId _) _ | .op .clearDevice _ | .op (.pthreadCreate _) _ => none
  | .op _ _ | .enter _ => some x
  | .done _ _ => none

end Reporting

/-- Which procedures the worker calls in which stage. -/
def reportCalls (x : Reporting) : Call → Prop
  | .vcsAuthenticate | .vcsAuthenticateLoop => x = .scanning
  | .sendAuthenticatedNotice _ => x = .found
  | .getTzState | .setTzState _ | .vcsUpdateCalData | .vcsCheckState | .vcsStartCapture _ => True
  | .vcsStartCaptureWait | .vcsStartCaptureRead | .vcsGetEnrolledFingerNum => True
  | .vcsUpdateAuthToken | .vcsUninit | .sensorUninit | .sensorCaptureStart => True
  | .sendErrorNotice _ | .sendAcquiredNotice _ => True
  | _ => False

/-- The stages a procedure may be left in. -/
def reportLeaves (x : Reporting) : (c : Call) → Ret c → Reporting → Prop
  | .vcsAuthenticate, _, _ | .sendAuthenticatedNotice _, _, _ => True
  | .vcsAuthenticateLoop, fid, y => y = if fid = 0 then .scanning else .found
  | _, _, y => y = x

/-- The protocol of a worker. -/
@[simps] def reportProtocol : Protocol Resp Ret Reporting where
  assume _ _ := True
  next x e := x.next e
  pre c x := reportCalls x c
  post c x r y := reportLeaves x c r y

section bodies

variable {x : Reporting}

attribute [local simp ↓] load store op call send ionSbuffer sameIonSbuffer

/-- A call by its contract, behind its entry. -/
@[simp ↓] theorem callRule_reporting (c : Call) (Q : Ret c → Reporting → Prop) :
    reportProtocol.callRule fine c Q x ↔
      ∃ y, x.next (.enter c) = some y ∧ reportCalls y c ∧ ∀ r z, reportLeaves y c r z → Q r z := by
  cases h : x.next (.enter c) <;> simp [Protocol.callRule, fine, h]

attribute [local simp] Reporting.next reportCalls reportLeaves

/-- Code that only looks for fingers keeps the stage. -/
theorem report_readsSlot {α : Type} {p : Code α} {Q : α → Reporting → Prop}
    (hp : p.Within Op.readsSlot fun _ => False) (hQ : ∀ a, Q a x) :
    reportProtocol.Follows fine p Q x := by
  refine .frame hp (fun o ho r => ?_) hQ
  cases o with
  | load v => cases v <;> first | rfl | cases ho
  | _ => cases ho

/-- **The report.** It carries what the worker read when it had found a finger. -/
theorem reportProtocol_valid : reportProtocol.Valid fine body := by
  intro c _ x hx
  cases c
  all_goals simp at hx
  case getTzState => simp [body, getTzState]
  case setTzState => simp [body, setTzState]
  case vcsUpdateCalData => simp [body, vcsUpdateCalData]
  case vcsCheckState => simp [body, vcsCheckState]
  case vcsStartCapture => simp [body, vcsStartCapture]
  case vcsStartCaptureWait => simp [body, vcsStartCaptureWait]
  case vcsStartCaptureRead => simp [body, vcsStartCaptureRead]
  case vcsAuthenticate =>
    subst hx
    simp [body, vcsAuthenticate]
    intro _ fid hfid
    simp [hfid]
  case vcsAuthenticateLoop =>
    subst hx
    simp [body, vcsAuthenticateLoop]
    intro _ _ _ _
    refine report_readsSlot (matchTemplates_within ..) fun _ => ?_
    simp
    intro _ _ _
    refine report_readsSlot (findMatched_within ..) fun fid => ?_
    by_cases hfid : fid = 0 <;> simp [hfid]
  case vcsGetEnrolledFingerNum => exact report_readsSlot (countFingers_within ..) fun _ => by simp
  case vcsUpdateAuthToken => simp [body, vcsUpdateAuthToken, getAuthToken]
  case vcsUninit => simp [body, vcsUninit]
  case sensorUninit => simp [body, sensorUninit]
  case sensorCaptureStart => simp [body, sensorCaptureStart]
  case sendErrorNotice => simp [body, sendErrorNotice]
  case sendAcquiredNotice => simp [body, sendAcquiredNotice]
  case sendAuthenticatedNotice =>
    subst hx
    simp [body, sendAuthenticatedNotice]

end bodies

/-! ## The other threads -/

/-- The operations on `op_id`, the creation of the worker and the report. -/
@[reducible] def challengeOp : Op → Bool
  | .load .opId | .store .opId _ | .clearDevice => true
  | .pthreadCreate .vcsAuthenticate | .notify (.authenticated _ _ _) => true
  | _ => false

/-- The procedures that perform them. -/
@[reducible] def challengeCall : Call → Bool
  | .fingerprintAuthenticate _ | .vcsStartAuthenticate => true
  | .vcsAuthenticate | .sendAuthenticatedNotice _ | .fingerprintOpen => true
  | _ => false

/-- The other procedures have nothing to do with the challenge. -/
theorem challengeCall_within {c : Call} (hc : challengeCall c = false) :
    (body c).Within (fun o => (!challengeOp o) = true) fun d => (!challengeCall d) = true := by
  refine (body_within c).mono (fun o ho => ?_) (fun d hd => ?_)
  · cases hchallenge : challengeOp o with
    | false => rfl
    | true =>
      unfold challengeOp at hchallenge
      split at hchallenge
      all_goals first
        | cases hchallenge; done
        | (cases c <;> first | cases ho; done | cases hc)
  · cases d <;> first | rfl | (cases c <;> first | cases hd; done | cases hc)

/-- The protocol of the other threads. -/
@[reducible] def challengeOthers : Protocol Resp Ret Unit :=
  .only (fun o => !challengeOp o) fun c => !challengeCall c

/-- They keep to it. -/
theorem challengeOthers_valid : challengeOthers.Valid fine body :=
  Protocol.only_valid fun c hc => challengeCall_within (by simpa using hc)

/-! ## One step -/

section step

variable {m m' : Mem} {t w p : Tid} {o : Op} {r : Resp o} {e : HalEvent} {request : UInt64}

/-- Only two operations change `op_id`. -/
theorem opId_after (hstore : ∀ a, o ≠ .store .opId a) (hclear : o ≠ .clearDevice) (old : Device) :
    (vdevAfter old o).opId = old.opId := by
  cases o with
  | store v a => cases v <;> first | rfl | exact absurd rfl (hstore _)
  | clearDevice => exact absurd rfl hclear
  | _ => rfl

/-- A request has `vdev->lock` as long as it says so, and then `op_id` is its own once it has stored
it. -/
def Requesting.fits (request : UInt64) (p : Tid) (m : Mem) (x : Requesting) : Prop :=
  x.holds = true → m.locks .vdevLock = some p ∧ (x = .stored → m.vdev.opId = request)

/-- An operation of a request. -/
theorem Requesting.fits.step {x y : Requesting} (h : x.fits request p m) (heff : Effect p o r m m')
    (hy : x.next request (.op o r) = some y) : y.fits request p m' := by
  intro hholds
  rw [heff.locks, heff.vdev]
  cases o with
  | lock mu =>
    cases mu with
    | vdevLock =>
      simp only [Requesting.next, Option.ite_none_right_eq_some, Option.some.injEq] at hy
      obtain ⟨-, rfl⟩ := hy
      exact ⟨by simp [locksAfter], nofun⟩
    | _ =>
      obtain rfl : x = y := Option.some.inj hy
      exact h hholds
  | unlock mu =>
    cases mu with
    | vdevLock =>
      obtain rfl : Requesting.done = y := Option.some.inj hy
      cases hholds
    | _ =>
      obtain rfl : x = y := Option.some.inj hy
      exact h hholds
  | store v a =>
    cases v with
    | opId =>
      simp only [Requesting.next, Option.ite_none_right_eq_some, Option.some.injEq] at hy
      obtain ⟨⟨rfl, rfl⟩, rfl⟩ := hy
      exact ⟨(h rfl).1, fun _ => rfl⟩
    | _ =>
      obtain rfl : x = y := Option.some.inj hy
      exact h hholds
  | pthreadCreate u =>
    cases u with
    | vcsAuthenticate =>
      simp only [Requesting.next, Option.ite_none_right_eq_some, Option.some.injEq] at hy
      obtain ⟨rfl, rfl⟩ := hy
      exact h rfl
    | _ =>
      obtain rfl : x = y := Option.some.inj hy
      exact h hholds
  | load v =>
    cases v with
    | opId => cases hy
    | _ =>
      obtain rfl : x = y := Option.some.inj hy
      exact h hholds
  | notify msg =>
    cases msg with
    | authenticated fid gid hat => cases hy
    | _ =>
      obtain rfl : x = y := Option.some.inj hy
      exact h hholds
  | condBlock | condWake | condTimedWake | clearDevice => cases hy
  | _ =>
    obtain rfl : x = y := Option.some.inj hy
    exact h hholds

/-- What an event makes of a worker: it stays in its loop, finds a finger, or reads `op_id`. -/
theorem Reporting.next_cases {x y : Reporting} (h : x.next e = some y) :
    (y = .scanning → x = .scanning ∧ readsOpId e = false ∧ leavesLoop e = false) ∧
      (y = .found → readsOpId e = false ∧ (x = .found ∨ x = .scanning ∧ readsFound e = true)) ∧
      ∀ c, y = .told c → x = .told c ∨ x = .found ∧ e = .op (.load .opId) c := by
  have hkeep : x.next e = some x → readsOpId e = false → leavesLoop e = false →
      (y = .scanning → x = .scanning ∧ readsOpId e = false ∧ leavesLoop e = false) ∧
      (y = .found → readsOpId e = false ∧ (x = .found ∨ x = .scanning ∧ readsFound e = true)) ∧
      ∀ c, y = .told c → x = .told c ∨ x = .found ∧ e = .op (.load .opId) c := by
    intro hx hread hleave
    obtain rfl := Option.some.inj (hx.symm.trans h)
    exact ⟨fun hx => ⟨hx, hread, hleave⟩, fun hx => ⟨hread, .inl hx⟩, fun c hx => .inl hx⟩
  cases e with
  | enter c =>
    cases c with
    | sensorUninit =>
      obtain rfl := Option.some.inj h
      split <;> simp_all [readsOpId]
    | _ => exact hkeep rfl rfl rfl
  | done c r => cases h
  | op o r =>
    cases o with
    | load v =>
      cases v with
      | opId =>
        simp only [Reporting.next, Option.ite_none_right_eq_some, Option.some.injEq] at h
        obtain ⟨rfl, rfl⟩ := h
        simp
      | fingerPayload idx =>
        obtain rfl := Option.some.inj h
        split <;> simp_all [readsOpId, leavesLoop, readsFound]
      | _ => exact hkeep rfl rfl rfl
    | store v a => cases v <;> first | exact hkeep rfl rfl rfl | cases h
    | notify msg =>
      cases msg with
      | authenticated fid gid hat =>
        simp only [Reporting.next, Option.ite_none_right_eq_some, Option.some.injEq] at h
        obtain ⟨rfl, rfl⟩ := h
        simp
      | _ => exact hkeep rfl rfl rfl
    | clearDevice | pthreadCreate => cases h
    | _ => exact hkeep rfl rfl rfl

/-- A worker that has neither a finger missing nor read `op_id` may report. -/
theorem mayReport_of_stage {es : List HalEvent} {x : Reporting}
    (h : reportProtocol.stage .scanning es = some x) (hx : x.mayReport = true) :
    mayReport es = true := by
  suffices hes : (x = .scanning → es.any readsOpId = false ∧ es.any leavesLoop = false) ∧
      (x = .found → es.any readsOpId = false ∧ es.any readsFound = true) by
    cases x with
    | scanning => simp [mayReport, hes.1 rfl]
    | found => simp [mayReport, hes.2 rfl]
    | _ => cases hx
  clear hx
  induction es generalizing x with
  | nil =>
    obtain rfl : Reporting.scanning = x := Option.some.inj h
    exact ⟨fun _ => ⟨rfl, rfl⟩, nofun⟩
  | cons e es ih =>
    obtain ⟨y, hy, hnext⟩ := Option.bind_eq_some_iff.mp h
    obtain ⟨hscanning, hfound, -⟩ := Reporting.next_cases hnext
    obtain ⟨hscan, hfind⟩ := ih hy
    refine ⟨fun hx => ?_, fun hx => ?_⟩
    · obtain ⟨hy, hread, hleave⟩ := hscanning hx
      simp [hread, hleave, hscan hy]
    · obtain ⟨hread, hy | ⟨hy, hnew⟩⟩ := hfound hx
      · simp [hread, hfind hy]
      · simp [hread, hnew, hscan hy]

end step

section runs

variable {m₀ : Mem} {s s' : Hal} {t w p : Tid} {e : HalEvent} {ok : Hal → Tid → HalEvent → Prop}

/-- Nobody else gives up a mutex that is held. -/
theorem locks_of_other {mu : Mutex} (hlocks : ∀ mu, m₀.locks mu = none)
    (h : (Hal.idle m₀).Reaches fine entryPoints ok s) (hr : s.Runs fine t e s') (htp : t ≠ p)
    (hmu : s.mem.locks mu = some p) : s'.mem.locks mu = some p := by
  obtain ⟨φ, hs, hφ⟩ := stagesMatch (fun _ => rfl) hlocks (h.mono fun _ _ _ _ => trivial)
  cases e with
  | enter c => rwa [mem_of_enters hr]
  | done c r => exact (not_done_of_fine hr).elim
  | op o r =>
    have heff := effect_of_runs hr
    obtain ⟨th, -, m, hth, -, ⟨ch, hact⟩, -⟩ := hr.moves
    rw [heff.locks]
    obtain ⟨nu, htaken, hl, -⟩ | ⟨nu, hgiven, hl, -⟩ | ⟨hl, -⟩ :=
      locksAfter_cases t s.mem.locks (φ t) o
    · have hne : mu ≠ nu := by
        rintro rfl
        simp [free_of_taken hact htaken] at hmu
      rw [hl, Function.update_of_ne hne, hmu]
    · have hne : mu ≠ nu := by
        rintro rfl
        obtain ⟨q, hn, -⟩ := hr.code hth
        obtain ⟨y, hy, -⟩ :=
          (hs.follows t th hth).next (orderProtocol_valid _) hn (notOwn_of_runs hφ hr)
        simp only [orderRoles, orderProtocol_next_op, Option.ite_none_right_eq_some] at hy
        have hheld := (hφ t mu).mp (get_of_givenUp hy.1 hgiven)
        exact htp (Option.some.inj (hheld.symm.trans hmu))
      rw [hl, Function.update_of_ne hne, hmu]
    · rw [hl, hmu]

/-- A thread runs a request, is an authentication worker, or has nothing to do with the
challenge. -/
theorem entry_cases (h : (Hal.idle m₀).Reaches fine entryPoints ok s) {c : Call}
    (ht : s.entry t = some c) :
    (∃ request, c = .fingerprintAuthenticate request) ∨ c = .vcsAuthenticate ∨
      challengeCall c = false := by
  induction h generalizing t c with
  | refl => simp [State.entry, Hal.idle] at ht
  | @arrive s u d _ ha hp ih =>
    rw [State.entry_add] at ht
    split at ht
    · obtain rfl := Option.some.inj ht
      cases d <;> first | exact .inl ⟨_, rfl⟩ | exact .inr (.inr rfl) | cases ha
    · exact ih ht
  | @run s s' u e _ _ hr ih =>
    obtain hentry | hborn := (hr.entry t c).mp ht
    · exact ih hentry
    · obtain ⟨v, rfl⟩ := born_worker hborn
      cases v <;> first | exact .inr (.inl rfl) | exact .inr (.inr rfl)

/-- What a step may be. -/
theorem step_cases (h : (Hal.idle m₀).Reaches fine entryPoints ok s) (ho : ok s t e)
    (hr : s.Runs fine t e s') :
    (∃ request x y, s.entry t = some (.fingerprintAuthenticate request) ∧
        (requestProtocol request).stage .fresh (s.own t) = some x ∧ x.next request e = some y) ∨
      (∃ x y, s.entry t = some .vcsAuthenticate ∧
        reportProtocol.stage .scanning (s.own t) = some x ∧ x.next e = some y) ∨
      ∃ c, s.entry t = some c ∧ challengeCall c = false ∧
        ∀ o r, e = .op o r → challengeOp o = false := by
  obtain ⟨th, -, -, hth, -⟩ := hr.moves
  have ht : s.entry t = some th.entry := by rw [State.entry, hth]; rfl
  obtain ⟨request, hc⟩ | hc | hc := entry_cases h ht
  · rw [hc] at ht
    have hvalid : (requestProtocol request).Valid fine body := requestProtocol_valid
    obtain ⟨x, y, hx, hy⟩ := h.next_of_runs hvalid (Q := fun _ _ => True) (x := .fresh)
      (by simp) (A := fun _ => True) (fun _ _ _ => trivial)
      (fun _ _ _ _ _ => trivial) (fun _ => rfl) rfl ht ho hr
    exact .inl ⟨request, x, y, ht, hx, hy⟩
  · rw [hc] at ht
    obtain ⟨x, y, hx, hy⟩ := h.next_of_runs reportProtocol_valid
      (Q := fun _ _ => True) (x := .scanning) (by simp [Reporting.next, reportCalls])
      (A := fun _ => True) (fun _ _ _ => trivial) (fun _ _ _ _ _ => trivial) (fun _ => rfl) rfl ht
      ho hr
    exact .inr (.inl ⟨x, y, ht, hx, hy⟩)
  · obtain ⟨x, y, hx, hy⟩ := h.next_of_runs challengeOthers_valid (Q := fun _ _ => True) (x := ())
      (by simp [Protocol.callRule, fine, hc]) (A := fun _ => True) (fun _ _ _ => trivial)
      (fun _ _ _ _ _ => trivial) (fun _ => rfl) rfl ht ho hr
    refine .inr (.inr ⟨_, ht, hc, ?_⟩)
    rintro o r rfl
    simpa using hy

/-- What the stages say of the memory and of each other: a request that has stored its id holds
`vdev->lock` and `op_id`, so does a worker that may still report for its request, and what a worker
has read is the id of its request. -/
structure Bound (s : Hal) : Prop where
  request : ∀ p request x, s.entry p = some (.fingerprintAuthenticate request) →
    (requestProtocol request).stage .fresh (s.own p) = some x → x.fits request p s.mem
  worker : ∀ w x, s.entry w = some .vcsAuthenticate →
    reportProtocol.stage .scanning (s.own w) = some x →
    ∃ request, operationFor s w = some request ∧ (x.mayReport = true → s.mem.vdev.opId = request) ∧
      ∀ c, x = .told c → c = request
  report : ChallengeBound s

/-- An event that does not create thread `w`. -/
theorem createdBy_cons {log : HalLog} (hb : ∀ c, hal.born e ≠ some (w, c)) :
    createdBy w ((t, e) :: log) = createdBy w log := by
  cases e with
  | op o r =>
    cases o with
    | pthreadCreate v =>
      cases r with
      | ok u =>
        rw [createdBy, if_neg]
        rintro rfl
        exact hb _ rfl
      | error ret => rfl
    | _ => rfl
  | _ => rfl

/-- Who has created a thread stays so. -/
theorem operationFor_run {request : UInt64} (hr : s.Runs fine t e s') (hw : s.pool w ≠ none)
    (h : operationFor s w = some request) : operationFor s' w = some request := by
  obtain ⟨p, hp, hrest⟩ := Option.bind_eq_some_iff.mp h
  obtain ⟨c, hc, hoperation⟩ := Option.bind_eq_some_iff.mp hrest
  have hlog : createdBy w s'.log = some p := by
    rw [hr.log, createdBy_cons fun d hb => hw (hr.fresh w d hb), hp]
  rw [operationFor, hlog]
  simp [(hr.entry p c).mpr (.inl hc), hoperation]

/-- An arrival. -/
theorem Bound.arrive {c : Call} (hI : Bound s) (h : (Hal.idle m₀).Reaches fine entryPoints ok s)
    (hc : entryPoints c = true) (ht : s.pool t = none) : Bound (s.add t c) := by
  have hrequested : ∀ {w request}, operationFor s w = some request →
      operationFor (s.add t c) w = some request := by
    intro w request hw
    obtain ⟨p, hp, hrest⟩ := Option.bind_eq_some_iff.mp hw
    obtain ⟨d, hd, hoperation⟩ := Option.bind_eq_some_iff.mp hrest
    have hpt : p ≠ t := by
      rintro rfl
      simp [State.entry, ht] at hd
    have hlog : createdBy w (s.add t c).log = some p := hp
    rw [operationFor, hlog]
    simp [State.entry_add, hpt, hd, hoperation]
  refine ⟨fun p request x hp hx => ?_, fun w x hw hx => ?_,
    fun later earlier w fid gid hat r hlog => ?_⟩
  · rw [State.entry_add] at hp
    split at hp
    · rename_i hpt
      have hown : (s.add t c).own p = [] := by
        rw [hpt]
        exact h.own_eq_nil rfl ht
      rw [hown] at hx
      obtain rfl : Requesting.fresh = x := Option.some.inj hx
      intro hholds
      cases hholds
    · exact hI.request p request x hp hx
  · rw [State.entry_add] at hw
    split at hw
    · obtain rfl := Option.some.inj hw
      cases hc
    · obtain ⟨request, hrequest, hrest⟩ := hI.worker w x hw hx
      exact ⟨request, hrequested hrequest, hrest⟩
  · exact hrequested (hI.report later earlier w fid gid hat r hlog)

/-- `op_id` changes when a request stores its own. -/
theorem opId_run (h : (Hal.idle m₀).Reaches fine entryPoints ok s) (ho : ok s t e)
    (hr : s.Runs fine t e s') :
    (∃ request, s.entry t = some (.fingerprintAuthenticate request) ∧
        e = .op (.store .opId request) () ∧ s'.mem.vdev.opId = request ∧
        (requestProtocol request).stage .fresh (s.own t) = some .locked) ∨
      s'.mem.vdev.opId = s.mem.vdev.opId := by
  cases e with
  | enter c => exact .inr (by rw [mem_of_enters hr])
  | done c r => exact (not_done_of_fine hr).elim
  | op o r =>
    have heff := effect_of_runs hr
    by_cases hstore : ∃ a, o = .store .opId a
    · obtain ⟨a, rfl⟩ := hstore
      obtain ⟨request, x, y, ht, hx, hy⟩ | ⟨x, y, -, -, hy⟩ | ⟨-, -, -, hother⟩ :=
        step_cases h ho hr
      · simp only [Requesting.next, Option.ite_none_right_eq_some] at hy
        obtain ⟨⟨rfl, rfl⟩, -⟩ := hy
        exact .inl ⟨a, ht, rfl, by rw [heff.vdev]; rfl, hx⟩
      · cases hy
      · cases hother _ _ rfl
    · have hclear : o ≠ .clearDevice := by
        rintro rfl
        obtain ⟨request, x, y, -, -, hy⟩ | ⟨x, y, -, -, hy⟩ | ⟨-, -, -, hother⟩ :=
          step_cases h ho hr
        · cases hy
        · cases hy
        · cases hother _ _ rfl
      refine .inr ?_
      rw [heff.vdev, opId_after (fun a ha => hstore ⟨a, ha⟩) hclear]

/-- A request, behind a step. -/
theorem Bound.request_run (hI : Bound s) (hlocks : ∀ mu, m₀.locks mu = none)
    (h : (Hal.idle m₀).Reaches fine entryPoints ok s) (ho : ok s t e) (hr : s.Runs fine t e s')
    {request : UInt64} {x : Requesting} (hp : s'.entry p = some (.fingerprintAuthenticate request))
    (hx : (requestProtocol request).stage .fresh (s'.own p) = some x) :
    x.fits request p s'.mem := by
  obtain hp | hborn := (hr.entry p _).mp hp
  · by_cases htp : t = p
    · subst htp
      rw [hr.own, if_pos rfl] at hx
      obtain ⟨y, hy, hnext⟩ := Option.bind_eq_some_iff.mp hx
      have hfits := hI.request t request y hp hy
      cases e with
      | op o r => exact hfits.step (effect_of_runs hr) hnext
      | enter c =>
        obtain rfl : y = x := Option.some.inj hnext
        rwa [mem_of_enters hr]
      | done c r => cases hnext
    · rw [hr.own, if_neg (Ne.symm htp)] at hx
      have hfits := hI.request p request x hp hx
      intro hholds
      obtain ⟨hmu, hstored⟩ := hfits hholds
      refine ⟨locks_of_other hlocks h hr htp hmu, fun hx => ?_⟩
      obtain ⟨request', ht, -, -, hlocked⟩ | hkept := opId_run h ho hr
      · -- two requests would hold the lock
        have hmu' := (hI.request t request' .locked ht hlocked rfl).1
        exact absurd (Option.some.inj (hmu'.symm.trans hmu)) htp
      · rw [hkept, hstored hx]
  · obtain ⟨v, hv⟩ := born_worker hborn
    cases v <;> cases hv

/-- A worker is created by a request that has stored its id. -/
theorem Bound.born_run (hI : Bound s) (h : (Hal.idle m₀).Reaches fine entryPoints ok s)
    (ho : ok s t e) (hr : s.Runs fine t e s')
    (hborn : hal.born e = some (w, .vcsAuthenticate)) :
    operationFor s' w = some s'.mem.vdev.opId := by
  obtain rfl := creates_of_born (v := .vcsAuthenticate) hborn
  obtain ⟨request, x, y, ht, hx, hy⟩ | ⟨x, y, -, -, hy⟩ | ⟨-, -, -, hother⟩ := step_cases h ho hr
  · have hfits := (hI.request t request x ht hx).step (effect_of_runs hr) hy
    simp only [Requesting.next, Option.ite_none_right_eq_some, Option.some.injEq] at hy
    obtain ⟨rfl, rfl⟩ := hy
    have hcreator : createdBy w s'.log = some t := by
      rw [hr.log, createdBy, if_pos rfl]
    rw [operationFor, hcreator, (hfits rfl).2 rfl]
    simp [(hr.entry t _).mpr (.inl ht), operationOf]
  · cases hy
  · cases hother _ _ rfl

/-- A worker, behind a step. -/
theorem Bound.worker_run (hI : Bound s) (h : (Hal.idle m₀).Reaches fine entryPoints ok s)
    (ho : ok s t e) (hkept : opIdKept s t e) (hr : s.Runs fine t e s') {x : Reporting}
    (hw : s'.entry w = some .vcsAuthenticate)
    (hx : reportProtocol.stage .scanning (s'.own w) = some x) :
    ∃ request, operationFor s' w = some request ∧
      (x.mayReport = true → s'.mem.vdev.opId = request) ∧ ∀ c, x = .told c → c = request := by
  obtain hw | hborn := (hr.entry w _).mp hw
  · have hpool : s.pool w ≠ none := by
      intro hnone
      simp [State.entry, hnone] at hw
    have hopId : ∀ y, reportProtocol.stage .scanning (s.own w) = some y → y.mayReport = true →
        s'.mem.vdev.opId = s.mem.vdev.opId := by
      intro y hy hmay
      obtain ⟨request', -, rfl, hnew, -⟩ | hsame := opId_run h ho hr
      · rw [hnew]
        by_contra hne
        have hnot := hkept _ _ rfl hne w hw
        rw [mayReport_of_stage hy hmay] at hnot
        cases hnot
      · exact hsame
    by_cases htw : t = w
    · subst htw
      rw [hr.own, if_pos rfl] at hx
      obtain ⟨y, hy, hnext⟩ := Option.bind_eq_some_iff.mp hx
      obtain ⟨request, hrequest, hid, htold⟩ := hI.worker t y hw hy
      obtain ⟨hscanning, hfound, htells⟩ := Reporting.next_cases hnext
      refine ⟨request, operationFor_run hr hpool hrequest, fun hmay => ?_, fun c hc => ?_⟩
      · have hmay' : y.mayReport = true := by
          cases x with
          | scanning => rw [(hscanning rfl).1]; rfl
          | found => obtain ⟨-, rfl | ⟨rfl, -⟩⟩ := hfound rfl <;> rfl
          | _ => cases hmay
        rw [hopId y hy hmay', hid hmay']
      · obtain hy' | ⟨rfl, rfl⟩ := htells c hc
        · exact htold c hy'
        · rw [load_of_runs hr]
          exact hid rfl
    · rw [hr.own, if_neg (Ne.symm htw)] at hx
      obtain ⟨request, hrequest, hid, htold⟩ := hI.worker w x hw hx
      exact ⟨request, operationFor_run hr hpool hrequest,
        fun hmay => by rw [hopId x hx hmay, hid hmay], htold⟩
  · have hnone := hr.fresh w _ hborn
    have hwt : w ≠ t := by
      rintro rfl
      exact hr.mem_pool hnone
    rw [hr.own, if_neg hwt, h.own_eq_nil rfl hnone] at hx
    obtain rfl : Reporting.scanning = x := Option.some.inj hx
    refine ⟨_, hI.born_run h ho hr hborn, fun _ => rfl, fun c hc => ?_⟩
    cases hc

/-- A report, behind a step. -/
theorem Bound.report_run (hI : Bound s) (h : (Hal.idle m₀).Reaches fine entryPoints ok s)
    (ho : ok s t e) (hr : s.Runs fine t e s') : ChallengeBound s' := by
  intro later earlier w fid gid hat r hlog
  rw [hr.log] at hlog
  cases later with
  | nil =>
    obtain ⟨⟨rfl, rfl⟩, rfl⟩ := by simpa using hlog
    obtain ⟨request, x, y, -, -, hy⟩ | ⟨x, y, ht, hx, hy⟩ | ⟨-, -, -, hother⟩ :=
      step_cases h ho hr
    · cases hy
    · simp only [Reporting.next, Option.ite_none_right_eq_some] at hy
      obtain ⟨request, hrequest, -, htold⟩ := hI.worker t x ht hx
      rw [operationFor_run hr hr.mem_pool hrequest, htold _ hy.1]
    · cases hother _ _ rfl
  | cons te later =>
    obtain ⟨-, hlog⟩ := List.cons.inj hlog
    have hrequest := hI.report later earlier w fid gid hat r hlog
    refine operationFor_run hr (fun hnone => ?_) hrequest
    have hown := h.own_eq_nil rfl hnone
    simp [State.own, hlog] at hown

/-- The stages say so all along. -/
theorem bound_of_reaches (hlocks : ∀ mu, m₀.locks mu = none)
    (h : (Hal.idle m₀).Reaches fine entryPoints opIdKept s) : Bound s := by
  induction h with
  | refl =>
    refine ⟨fun p request x hp _ => ?_, fun w x hw _ => ?_,
      fun later earlier w fid gid hat r hlog => ?_⟩
    · simp [State.entry, Hal.idle] at hp
    · simp [State.entry, Hal.idle] at hw
    · simp [Hal.idle] at hlog
  | arrive h hc ht ih => exact ih.arrive h hc ht
  | run h ho hr ih =>
    exact ⟨fun _ _ _ hp hx => ih.request_run hlocks h ho hr hp hx,
      fun _ _ hw hx => ih.worker_run h ho ho hr hw hx, ih.report_run h ho hr⟩

/-- **The challenge.** As long as no other `op_id` is stored while an authentication worker may
still report, every report has the operation id of the request that its worker was started for. -/
theorem challengeBound (hlocks : ∀ mu, m₀.locks mu = none)
    (h : (Hal.idle m₀).Reaches fine entryPoints opIdKept s) : ChallengeBound s :=
  (bound_of_reaches hlocks h).report

end runs

/-! ## Two requests -/

/-- An idle device with a finger in slot 1. -/
def idleFinger : Mem :=
  { Mem.started with
    tz := { Mem.started.tz with
      finger := Function.update (fun _ => .zero) 1 { Finger.zero with exist := true } } }

/-- Thread 1 requests an authentication for operation 5, which worker 2 serves. -/
def beginRequest : List (Label hal) :=
  .arrive 1 (.fingerprintAuthenticate 5) :: ticks 1 38 ++ touch 1 2 ++ ticks 1 1

/-- The worker finds the finger, stores `STATE_IDLE` and reads `op_id`. -/
def findFinger : List (Label hal) :=
  ticks 2 2 ++ answer 2 (.good 0) ++ ticks 2 7 ++ answer 2 (.good 0) ++ ticks 2 2 ++
    answer 2 .lost ++ ticks 2 18 ++ .arrive 3 .sensorProcessSignal :: ticks 3 13 ++ touch 3 2 ++
    ticks 3 1 ++ ticks 2 40 ++ answer 2 (.good 2) ++ ticks 2 2 ++ answer 2 (.good 0) ++
    ticks 2 14 ++ answer 2 (.good 0) ++ ticks 2 3 ++ answer 2 (.good 0) ++ ticks 2 10 ++
    answer 2 (.good 0) ++ ticks 2 17

/-- Thread 4 requests one for operation 9, and is refused. -/
def refuseRequest : List (Label hal) := .arrive 4 (.fingerprintAuthenticate 9) :: ticks 4 29

/-- Thread 4 requests one for operation 9, which worker 5 serves. -/
def acceptRequest : List (Label hal) :=
  .arrive 4 (.fingerprintAuthenticate 9) :: ticks 4 43 ++ answer 4 (.good 0) ++ ticks 4 1 ++
    answer 4 (.good 0) ++ ticks 4 2 ++ answer 4 (.good 0) ++ ticks 4 4 ++ touch 4 5 ++ ticks 4 1

/-- The names of the threads. -/
def firstEight (t : Tid) : Bool := t < 8

/-- `opIdKept` for those threads, as it is executed. -/
def keepsOpId (s : Hal) (e : HalEvent) : Bool :=
  match e with
  | .op (.store .opId a) _ => a == s.mem.vdev.opId || (List.range 8).all fun w =>
      match s.entry w with
      | some .vcsAuthenticate => !mayReport (s.own w)
      | _ => true
  | _ => true

/-- `opIdKept` from its executable form. -/
theorem opIdKept_of_keepsOpId {s : Hal} {t : Tid} {e : HalEvent}
    (hpool : ∀ u, firstEight u = false → s.pool u = none) (h : keepsOpId s e = true) :
    opIdKept s t e := by
  rintro a r rfl hne w hw
  by_cases hname : firstEight w = true
  · obtain heq | hall := Bool.or_eq_true_iff.mp h
    · exact absurd (by simpa using heq) hne
    · have hrange := List.all_eq_true.mp hall w
        (List.mem_range.mpr (by simpa [firstEight] using hname))
      simpa [hw] using hrange
  · simp [State.entry, hpool w (by simpa using hname)] at hw

set_option maxRecDepth 4000 in
/-- A second request is accepted between the reading of `op_id` and the report, which carries what
was read. -/
theorem challengeBound_accepted : ∃ s : Hal,
    (∃ hat earlier, s.log = (2, .op (.notify (.authenticated 1 0 hat)) ()) :: earlier ∧
      hat.challenge = 5) ∧ s.mem.vdev.opId = 9 ∧ ChallengeBound s := by
  obtain ⟨s, hs, hopId, hat, earlier, hlog, hchallenge⟩ : ∃ s,
      (Hal.idle idleFinger).exec fine entryPoints
        (fun s _ e => keepsOpId s e && (hal.born e).all fun p => firstEight p.1)
        (beginRequest ++ findFinger ++ acceptRequest ++ ticks 2 5) = some s ∧
      s.mem.vdev.opId = 9 ∧
      ∃ hat earlier, s.log = (2, .op (.notify (.authenticated 1 0 hat)) ()) :: earlier ∧
        hat.challenge = 5 := ⟨_, rfl, rfl, _, _, rfl, rfl⟩
  have hr : (Hal.idle idleFinger).Reaches fine entryPoints opIdKept s := by
    refine State.Reaches.refl.exec_of firstEight (fun s t e hpool ha => ?_)
      (fun s t e u c ha hb => ?_) rfl (fun _ _ => rfl) hs
    · exact opIdKept_of_keepsOpId hpool (Bool.and_eq_true_iff.mp ha).1
    · have hborn := (Bool.and_eq_true_iff.mp ha).2
      simpa [hb] using hborn
  exact ⟨s, ⟨hat, earlier, hlog, hchallenge⟩, hopId, challengeBound (fun _ => rfl) hr⟩

set_option maxRecDepth 4000 in
/-- **A foreign challenge.** A second request is refused while the worker looks for the finger, and
the report carries its operation id. -/
theorem foreign_challenge : ∃ s,
    (Hal.idle idleFinger).Reaches fine entryPoints (fun _ _ _ => True) s ∧ s.fin 4 = true ∧
      operationFor s 2 = some 5 ∧ ¬ ChallengeBound s := by
  obtain ⟨s, hs, hfin, hrequested, hat, earlier, hlog, hchallenge⟩ : ∃ s,
      (Hal.idle idleFinger).exec fine entryPoints (fun _ _ _ => true)
        (beginRequest ++ refuseRequest ++ findFinger ++ ticks 2 5) = some s ∧
      s.fin 4 = true ∧ operationFor s 2 = some 5 ∧
      ∃ hat earlier, s.log = (2, .op (.notify (.authenticated 1 0 hat)) ()) :: earlier ∧
        hat.challenge = 9 := ⟨_, rfl, rfl, rfl, _, _, rfl, rfl⟩
  refine ⟨s, State.Reaches.refl.exec (fun _ _ _ _ => trivial) hs, hfin, hrequested, fun h => ?_⟩
  have hsame := (h [] earlier 2 1 0 hat () hlog).symm.trans hrequested
  rw [hchallenge] at hsame
  cases hsame

end KlteCommon.Analysis

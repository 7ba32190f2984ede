import KlteCommon.Fingerprint.Owners
import KlteCommon.Analysis.LockOrder

/-!
# No lost wake-up

Whoever cancels stores `STATE_CANCEL` and then waits for `STATE_IDLE`, which the worker stores when
it has seen the cancellation. The worker may be asleep on `sensor.cond`: it looks at `tz.state`
before it goes to sleep, with `sensor.lock` held throughout, but somebody has to wake it.

`fingerprint_cancel` signals `sensor.cond` behind its store, with `sensor.lock` held, so it wakes a
worker that sleeps, and one that does not sleep yet finds the cancellation (`Told`, and `told_run`
for one step). `vcs_timeout` does not signal. So no wake-up is lost as long as `vcs_timeout` cancels
only when nobody sleeps or is about to (`noLostWakeup`); a timer that runs out while the worker waits
for a finger leaves it asleep for good (`unheard_timeout`).
-/

set_option autoImplicit false

namespace KlteCommon.Analysis

open KlteCommon.Computation KlteCommon.Fingerprint

/-! ## What is observed -/

/-- A thread with these events is in a loop that waits for `STATE_IDLE`. -/
def spins : List HalEvent → Bool
  | [] => false
  | .enter .fingerprintCancelLoop :: _ | .enter .vcsTimeoutLoop :: _ => true
  | .op (.load .tzState) r :: es => r != .stateIdle && spins es
  | _ :: es => spins es

/-- A thread waits for `STATE_IDLE`, or for a thread to end that does. -/
def AwaitsIdle (s : Hal) (t : Tid) : Prop :=
  spins (s.own t) = true ∨
    ∃ th u k, s.pool t = some th ∧ th.code = .op (.pthreadJoin u) k ∧ spins (s.own u) = true

/-- Worker `w` sleeps on `sensor.cond`, cancelled, and everybody else has ended or waits for it. -/
def LostWakeup (s : Hal) (w : Tid) : Prop :=
  w ∈ s.mem.waiters .sensorCond ∧ s.mem.tz.state = .stateCancel ∧
    ∀ t, t ≠ w → s.fin t = true ∨ AwaitsIdle s t

/-- A thread with these events is in the loop that waits for the finger. -/
def inWait : List HalEvent → Bool
  | [] => false
  | .enter .vcsStartCaptureWait :: _ => true
  | .op (.unlock .sensorLock) _ :: _ => false
  | _ :: es => inWait es

/-- It is about to sleep there: it has looked at `tz.state`, and found no cancellation. -/
def aboutToSleep : List HalEvent → Bool
  | [] => false
  | .op (.load .tzState) r :: es => r != .stateCancel && inWait es
  | .enter .vcsStartCaptureWait :: _ | .op (.unlock .sensorLock) _ :: _ => false
  | .op (.condBlock .sensorCond _) _ :: _ => false
  | _ :: es => aboutToSleep es

/-- The condition on a step: when `vcs_timeout` cancels, nobody sleeps on `sensor.cond` and nobody
is about to. -/
def timeoutHeard (s : Hal) (t : Tid) (e : HalEvent) : Prop :=
  s.entry t = some .vcsTimeout → ∀ r, e = .op (.store .tzState .stateCancel) r →
    ∀ w, w ∉ s.mem.waiters .sensorCond ∧ aboutToSleep (s.own w) = false

/-! ## The stages of a thread -/

/-- Where a thread is: with `sensor.lock`, in the loop that waits for the finger (where `waiting`
has found no state but `STATE_CANCEL`, and `drowsy` another one), asleep or just woken, between its
cancellation and its signal, or in a loop that waits for `STATE_IDLE`. -/
inductive Vigil
  | away
  | locked
  | waiting
  | drowsy
  | asleep
  | pending
  | telling
  | spinning
  deriving DecidableEq

namespace Vigil

/-- `sensor.lock` is held. -/
def holds : Vigil → Bool
  | locked | waiting | drowsy | telling => true
  | _ => false

/-- `tz.state` is read. -/
def reads (x : Vigil) (state : WorkerState) : Vigil :=
  match x with
  | waiting | drowsy => if state = .stateCancel then waiting else drowsy
  | spinning => if state = .stateIdle then away else spinning
  | x => x

/-- `tz.state` is stored. -/
def stores (timer : Bool) (x : Vigil) (state : WorkerState) : Option Vigil :=
  match x with
  | away => some (if state = .stateCancel ∧ timer = false then pending else away)
  | waiting => if state = .stateIdle then some locked else none
  | _ => none

/-- One event of a thread. -/
def next (timer : Bool) (x : Vigil) : HalEvent → Option Vigil
  | .enter .vcsStartCaptureWait => if x = locked ∨ x = waiting then some waiting else none
  | .enter .fingerprintCancelLoop | .enter .vcsTimeoutLoop =>
    if x = away ∨ x = spinning then some spinning else none
  | .op (.lock .sensorLock) _ =>
    if x = away then some locked else if x = pending then some telling else none
  | .op (.unlock .sensorLock) _ => if x = locked ∨ x = drowsy then some away else none
  | .op (.condBlock .sensorCond mu) _ =>
    if x = drowsy ∧ mu = .sensorLock then some asleep else none
  | .op (.condWake .sensorCond mu) _ =>
    if x = asleep ∧ mu = .sensorLock then some waiting else none
  | .op (.condSignal .sensorCond) _ => if x = telling ∨ x = locked then some locked else none
  | .op (.condBlock .timeoutCond mu) _ | .op (.condTimedWake .timeoutCond mu) _ =>
    if x = away ∧ mu = .timeoutLock then some away else none
  | .op (.condWake .timeoutCond _) _ | .op (.condTimedWake .sensorCond _) _ => none
  | .op (.load .tzState) r => some (x.reads r)
  | .op (.store .tzState state) _ => x.stores timer state
  | .op (.pthreadJoin _) _ => if x = away then some away else none
  | .op .clearTz _ | .done _ _ => none
  | .op _ _ | .enter _ => some x

end Vigil

/-- In which stage a procedure may be called. -/
def vigilCalls (timer : Bool) (x : Vigil) : Call → Prop
  | .getTzState | .sensorCaptureStart => True
  | .setTzState state => x.stores timer state ≠ none
  | .vcsCheckState => x = .away ∨ x = .waiting
  | .vcsStartCaptureWait => x = .waiting
  | .fingerprintCancelLoop | .vcsTimeoutLoop => x = .spinning
  | .vcsTimeout => x = .away ∧ timer = true
  | .fingerprintOpen => False
  | _ => x = .away

/-- In which stage it leaves its caller. -/
def vigilLeaves (timer : Bool) (x : Vigil) : (c : Call) → Ret c → Vigil → Prop
  | .getTzState, state, y => y = x.reads state
  | .sensorCaptureStart, _, y => y = x
  | .setTzState state, _, y => x.stores timer state = some y
  | .vcsCheckState, r, y => if x = .away then y = .away else
      if r = 0 then y = .drowsy else y = .locked ∨ y = .drowsy
  | .vcsStartCaptureWait, _, y => y = .locked ∨ y = .drowsy
  | _, _, y => y = .away

/-- The protocol of a thread, which is a timer's or not. -/
@[simps] def vigilProtocol (timer : Bool) : Protocol Resp Ret Vigil where
  assume _ _ := True
  next x e := x.next timer e
  pre c x := vigilCalls timer x c
  post c x r y := vigilLeaves timer x c r y

section bodies

variable {timer : Bool} {x : Vigil}

attribute [local simp ↓] load store op call send ionSbuffer sameIonSbuffer

/-- A call by its contract, behind its entry. -/
@[simp ↓] theorem callRule_vigil (c : Call) (Q : Ret c → Vigil → Prop) :
    (vigilProtocol timer).callRule fine c Q x ↔ ∃ y, x.next timer (.enter c) = some y ∧
      vigilCalls timer y c ∧ ∀ r z, vigilLeaves timer y c r z → Q r z := by
  cases h : x.next timer (.enter c) <;> simp [Protocol.callRule, fine, h]

attribute [local simp] Vigil.next Vigil.reads Vigil.stores vigilCalls vigilLeaves

/-- The operations that move no thread that is away. -/
@[reducible] def unmovingOp : Op → Bool
  | .lock .sensorLock | .unlock .sensorLock | .condSignal .sensorCond | .condWake _ _ => false
  | .condBlock .sensorCond _ | .condBlock .timeoutCond _ | .condTimedWake _ _ => false
  | .store .tzState _ | .clearTz => false
  | _ => true

/-- The calls that do not. -/
@[reducible] def unmovingCall : Call → Bool
  | .vcsStartCaptureWait | .fingerprintCancelLoop | .vcsTimeoutLoop | .vcsTimeout => false
  | .setTzState .stateCancel | .fingerprintOpen => false
  | _ => true

/-- The procedures that are made of these. -/
def unmoving : Call → Bool
  | .getTzState | .setTzState _ | .vcsCheckState | .vcsStartCapture _ | .vcsStartCaptureWait => false
  | .sensorProcessSignal | .sensorCaptureStart | .fingerprintCancel | .fingerprintCancelLoop => false
  | .vcsTimeout | .vcsTimeoutLoop | .fingerprintOpen => false
  | _ => true

/-- They are. -/
theorem unmoving_within {c : Call} (hc : unmoving c = true) :
    (body c).Within (unmovingOp · = true) (unmovingCall · = true) := by
  refine (body_within c).mono (fun o ho => ?_) (fun d hd => ?_)
  · cases hop : unmovingOp o with
    | true => rfl
    | false =>
      unfold unmovingOp at hop
      split at hop
      all_goals first
        | cases hop; done
        | (cases c <;> first | cases ho; done | cases hc)
  · cases hcall : unmovingCall d with
    | true => rfl
    | false =>
      unfold unmovingCall at hcall
      split at hcall
      all_goals first
        | cases hcall; done
        | (cases c <;> first | cases hd; done | cases hc)

/-- An operation that moves nobody. -/
theorem Vigil.next_of_unmovingOp {o : Op} (ho : unmovingOp o = true) (r : Resp o) :
    Vigil.away.next timer (.op o r) = some .away := by
  cases o with
  | lock mu => cases mu <;> first | rfl | cases ho
  | unlock mu => cases mu <;> first | rfl | cases ho
  | condSignal c => cases c <;> first | rfl | cases ho
  | load v => cases v <;> rfl
  | store v a => cases v <;> first | rfl | cases ho
  | condBlock c mu => cases c <;> cases ho
  | condWake | condTimedWake | clearTz => cases ho
  | _ => rfl

/-- A call that moves nobody. -/
theorem vigil_of_unmovingCall (timer : Bool) {c : Call} (hc : unmovingCall c = true) :
    Vigil.away.next timer (.enter c) = some .away ∧ vigilCalls timer .away c ∧
      ∀ r z, vigilLeaves timer .away c r z → z = .away := by
  cases c with
  | setTzState state =>
    cases state <;> first | cases hc; done | simp
  | _ => first | cases hc; done | simp

/-- **The wait.** Every thread keeps to the stages. -/
theorem vigilProtocol_valid (timer : Bool) : (vigilProtocol timer).Valid fine body := by
  intro c _ x hx
  by_cases hc : unmoving c = true
  · obtain rfl : x = .away := by cases c <;> first | exact hx | cases hc
    refine .keeps (T := (· = .away)) (fun _ _ => rfl) ?_ ?_ ?_ (unmoving_within hc) rfl
    · rintro o r _ ho rfl
      exact ⟨_, Vigil.next_of_unmovingOp ho r, rfl⟩
    · rintro d _ hd rfl
      obtain ⟨hnext, hcalls, hleaves⟩ := vigil_of_unmovingCall timer hd
      exact ⟨_, hnext, hcalls, hleaves⟩
    · rintro r _ rfl
      cases c <;> first | rfl | cases hc
  cases c <;> first | exact absurd rfl hc | skip
  all_goals simp at hx
  case getTzState => simp [body, getTzState]
  case setTzState state =>
    obtain ⟨y, hy⟩ := Option.ne_none_iff_exists'.mp hx
    simp [body, setTzState, hy]
  case sensorCaptureStart => simp [body, sensorCaptureStart]
  case vcsCheckState =>
    obtain rfl | rfl := hx
    · simp [body, vcsCheckState]
    · simp [body, vcsCheckState]
      intro state
      cases state <;> simp
  case vcsStartCaptureWait =>
    subst hx
    simp [body, vcsStartCaptureWait]
    intro r z
    by_cases hr : r = 0
    · simp only [hr, if_true]
      rintro rfl
      simp
    · simp [hr]
  case vcsStartCapture =>
    subst hx
    simp [body, vcsStartCapture]
  case sensorProcessSignal =>
    subst hx
    simp [body, sensorProcessSignal]
  case fingerprintCancel =>
    subst hx
    simp [body, fingerprintCancel]
    cases timer
    all_goals
      simp
      rintro _ - (_ | _) <;> simp
  case fingerprintCancelLoop =>
    subst hx
    simp [body, fingerprintCancelLoop]
    exact fun _ => .inr
  case vcsTimeout =>
    obtain ⟨rfl, rfl⟩ := hx
    simp [body, vcsTimeout]
  case vcsTimeoutLoop =>
    subst hx
    simp [body, vcsTimeoutLoop]
    exact fun _ => .inr

end bodies

/-! ## One event -/

/-- An event that moves nobody. -/
def unmoved : HalEvent → Bool
  | .enter .vcsStartCaptureWait | .enter .fingerprintCancelLoop | .enter .vcsTimeoutLoop => false
  | .op (.lock .sensorLock) _ | .op (.unlock .sensorLock) _ => false
  | .op (.condSignal .sensorCond) _ | .op (.condBlock .sensorCond _) _ => false
  | .op (.condWake _ _) _ | .op (.condTimedWake .sensorCond _) _ => false
  | .op (.condBlock .timeoutCond mu) _ | .op (.condTimedWake .timeoutCond mu) _ =>
    mu == .timeoutLock
  | .op (.load .tzState) _ | .op (.store .tzState _) _ | .op .clearTz _ | .done _ _ => false
  | _ => true

/-- What an event may be, and where it leads. -/
inductive Vigil.Moves (timer : Bool) : HalEvent → Vigil → Vigil → Prop
  | starts {x : Vigil} (hx : x = locked ∨ x = waiting) :
      Moves timer (.enter .vcsStartCaptureWait) x waiting
  | spins {x : Vigil} {c : Call} (hc : c = .fingerprintCancelLoop ∨ c = .vcsTimeoutLoop)
      (hx : x = away ∨ x = spinning) : Moves timer (.enter c) x spinning
  | locks : Moves timer (.op (.lock .sensorLock) ()) away locked
  | tells : Moves timer (.op (.lock .sensorLock) ()) pending telling
  | unlocks {x : Vigil} (hx : x = locked ∨ x = drowsy) :
      Moves timer (.op (.unlock .sensorLock) ()) x away
  | sleeps : Moves timer (.op (.condBlock .sensorCond .sensorLock) ()) drowsy asleep
  | wakes : Moves timer (.op (.condWake .sensorCond .sensorLock) ()) asleep waiting
  | signals {x : Vigil} (hx : x = telling ∨ x = locked) :
      Moves timer (.op (.condSignal .sensorCond) ()) x locked
  | reads {x : Vigil} (state : WorkerState) :
      Moves timer (.op (.load .tzState) state) x (x.reads state)
  | stores {x y : Vigil} (state : WorkerState) (hy : x.stores timer state = some y) :
      Moves timer (.op (.store .tzState state) ()) x y
  | stays {x : Vigil} {e : HalEvent} (he : unmoved e = true) : Moves timer e x x

section event

variable {timer : Bool} {x y : Vigil} {e : HalEvent} {es : List HalEvent}

/-- It is one of these. -/
theorem Vigil.moves (h : x.next timer e = some y) : Moves timer e x y := by
  have hstays : x.next timer e = some x → unmoved e = true → Moves timer e x y := by
    intro hx he
    obtain rfl := Option.some.inj (hx.symm.trans h)
    exact .stays he
  cases e with
  | enter c =>
    cases c with
    | vcsStartCaptureWait =>
      simp only [Vigil.next, Option.ite_none_right_eq_some, Option.some.injEq] at h
      exact h.2 ▸ .starts h.1
    | fingerprintCancelLoop | vcsTimeoutLoop =>
      simp only [Vigil.next, Option.ite_none_right_eq_some, Option.some.injEq] at h
      exact h.2 ▸ .spins (by simp) h.1
    | _ => exact hstays rfl rfl
  | done c r => cases h
  | op o r =>
    cases o with
    | lock mu =>
      cases mu with
      | sensorLock =>
        simp only [Vigil.next] at h
        split at h
        · rename_i hx
          exact hx ▸ Option.some.inj h ▸ .locks
        · simp only [Option.ite_none_right_eq_some, Option.some.injEq] at h
          exact h.1 ▸ h.2 ▸ .tells
      | _ => exact hstays rfl rfl
    | unlock mu =>
      cases mu with
      | sensorLock =>
        simp only [Vigil.next, Option.ite_none_right_eq_some, Option.some.injEq] at h
        exact h.2 ▸ .unlocks h.1
      | _ => exact hstays rfl rfl
    | condBlock c mu =>
      cases c <;> simp only [Vigil.next, Option.ite_none_right_eq_some, Option.some.injEq] at h <;>
        obtain ⟨⟨rfl, rfl⟩, rfl⟩ := h
      · exact .sleeps
      · exact .stays rfl
    | condWake c mu =>
      cases c with
      | sensorCond =>
        simp only [Vigil.next, Option.ite_none_right_eq_some, Option.some.injEq] at h
        obtain ⟨⟨rfl, rfl⟩, rfl⟩ := h
        exact .wakes
      | timeoutCond => cases h
    | condTimedWake c mu =>
      cases c with
      | sensorCond => cases h
      | timeoutCond =>
        simp only [Vigil.next, Option.ite_none_right_eq_some, Option.some.injEq] at h
        obtain ⟨⟨rfl, rfl⟩, rfl⟩ := h
        exact .stays rfl
    | condSignal c =>
      cases c with
      | sensorCond =>
        simp only [Vigil.next, Option.ite_none_right_eq_some, Option.some.injEq] at h
        exact h.2 ▸ .signals h.1
      | timeoutCond => exact hstays rfl rfl
    | load v =>
      cases v with
      | tzState => exact Option.some.inj h ▸ .reads r
      | _ => exact hstays rfl rfl
    | store v a =>
      cases v with
      | tzState => exact .stores a h
      | _ => exact hstays rfl rfl
    | pthreadJoin t =>
      simp only [Vigil.next, Option.ite_none_right_eq_some, Option.some.injEq] at h
      exact h.1 ▸ h.2 ▸ .stays rfl
    | clearTz => cases h
    | _ => exact hstays rfl rfl

/-- What a thread has done fits its stage: a thread that finds nothing to do but to sleep is about
to, one in the wait is in the wait, and one that spins is spinning. -/
structure Vigil.Fits (x : Vigil) (es : List HalEvent) : Prop where
  drowsy : x = .drowsy → aboutToSleep es = true
  waiting : x = .waiting ∨ x = .drowsy ∨ x = .asleep → inWait es = true
  spinning : spins es = true → x = .spinning

/-- A thread that has done nothing. -/
theorem Vigil.fits_nil : Vigil.away.Fits [] := ⟨nofun, nofun, nofun⟩

/-- An event that moves nobody is not looked at. -/
theorem seen_of_unmoved (es : List HalEvent) (he : unmoved e = true) :
    aboutToSleep (e :: es) = aboutToSleep es ∧ inWait (e :: es) = inWait es ∧
      spins (e :: es) = spins es := by
  cases e with
  | enter c => cases c <;> first | exact ⟨rfl, rfl, rfl⟩ | cases he
  | done c r => cases he
  | op o r =>
    cases o with
    | unlock mu => cases mu <;> first | exact ⟨rfl, rfl, rfl⟩ | cases he
    | condBlock c mu => cases c <;> first | exact ⟨rfl, rfl, rfl⟩ | cases he
    | load v => cases v <;> first | exact ⟨rfl, rfl, rfl⟩ | cases he
    | _ => exact ⟨rfl, rfl, rfl⟩

/-- Who reads `tz.state` in the wait was in it. -/
theorem Vigil.wait_of_reads {state : WorkerState}
    (h : x.reads state = .waiting ∨ x.reads state = .drowsy ∨ x.reads state = .asleep) :
    x = .waiting ∨ x = .drowsy ∨ x = .asleep := by
  cases x <;> cases state <;> simp [reads] at h ⊢

/-- Who finds no cancellation there is drowsy. -/
theorem Vigil.drowsy_of_reads {state : WorkerState} (h : x.reads state = .drowsy) :
    (x = .waiting ∨ x = .drowsy ∨ x = .asleep) ∧ state ≠ .stateCancel := by
  cases x <;> cases state <;> simp [reads] at h ⊢

/-- Who stores `tz.state` does not sleep. -/
theorem Vigil.stores_cases {state : WorkerState} (h : x.stores timer state = some y) :
    y = .away ∨ y = .pending ∨ y = .locked := by
  cases x <;> cases state <;> cases timer <;> simp [stores] at h <;> simp [← h]

/-- One event. -/
theorem Vigil.Fits.next (h : x.Fits es) (hy : x.next timer e = some y) : y.Fits (e :: es) := by
  cases Vigil.moves hy with
  | starts hx =>
    refine ⟨nofun, fun _ => rfl, fun hs => ?_⟩
    have hspinning := h.spinning hs
    simp [hspinning] at hx
  | spins hc hx => exact ⟨nofun, nofun, fun _ => rfl⟩
  | locks => exact ⟨nofun, nofun, fun hs => absurd (h.spinning hs) nofun⟩
  | tells => exact ⟨nofun, nofun, fun hs => absurd (h.spinning hs) nofun⟩
  | unlocks hx =>
    refine ⟨nofun, nofun, fun hs => ?_⟩
    have hspinning := h.spinning hs
    simp [hspinning] at hx
  | sleeps => exact ⟨nofun, fun _ => h.waiting (by simp), fun hs => absurd (h.spinning hs) nofun⟩
  | wakes => exact ⟨nofun, fun _ => h.waiting (by simp), fun hs => absurd (h.spinning hs) nofun⟩
  | signals hx =>
    refine ⟨nofun, nofun, fun hs => ?_⟩
    have hspinning := h.spinning hs
    simp [hspinning] at hx
  | reads state =>
    refine ⟨fun hx => ?_, fun hx => h.waiting (Vigil.wait_of_reads hx), fun hs => ?_⟩
    · obtain ⟨hwait, hstate⟩ := Vigil.drowsy_of_reads hx
      simpa [aboutToSleep, hstate] using h.waiting hwait
    · obtain ⟨hstate, hs⟩ := by simpa [spins] using hs
      simp [Vigil.reads, h.spinning hs, hstate]
  | stores state hy =>
    have hx : x ≠ .spinning := by
      rintro rfl
      cases hy
    obtain hy | hy | hy := Vigil.stores_cases hy <;>
      exact ⟨by simp [hy], by simp [hy], fun hs => absurd (h.spinning hs) hx⟩
  | stays he =>
    obtain ⟨hsleep, hwait, hspins⟩ := seen_of_unmoved es he
    exact ⟨fun hx => by rw [hsleep, h.drowsy hx], fun hx => by rw [hwait, h.waiting hx],
      fun hs => h.spinning (hspins ▸ hs)⟩

/-- A sleeper goes on sleeping, or goes on. -/
theorem Vigil.moves_asleep (h : Moves timer e .asleep y) :
    y = .asleep ∨ e = .op (.condWake .sensorCond .sensorLock) () ∧ y = .waiting := by
  cases h with
  | starts hx => simp at hx
  | spins hc hx => simp at hx
  | unlocks hx => simp at hx
  | wakes => exact .inr ⟨rfl, rfl⟩
  | signals hx => simp at hx
  | reads state => exact .inl rfl
  | stores state hy => cases hy
  | stays he => exact .inl rfl

/-- An event that moves nobody does not take `sensor.lock`. -/
theorem taken_of_unmoved {o : Op} {r : Resp o} (he : unmoved (.op o r) = true) :
    taken o ≠ some .sensorLock := by
  intro ho
  cases o <;> cases ho
  case condTimedWake c => cases c <;> cases he
  all_goals cases he

/-- Nor does it give it up. -/
theorem givenUp_of_unmoved {o : Op} {r : Resp o} (he : unmoved (.op o r) = true) :
    givenUp o ≠ some .sensorLock := by
  intro ho
  cases o <;> cases ho
  case condBlock c => cases c <;> cases he
  all_goals cases he

/-- Who goes to sleep was drowsy. -/
theorem Vigil.moves_block {mu : Mutex} {r : Unit}
    (h : Moves timer (.op (.condBlock .sensorCond mu) r) x y) : x = .drowsy ∧ y = .asleep := by
  cases h with
  | sleeps => exact ⟨rfl, rfl⟩
  | stays he => cases he

/-- Who signals has `sensor.lock`. -/
theorem Vigil.moves_signal {r : Unit} (h : Moves timer (.op (.condSignal .sensorCond) r) x y) :
    (x = .telling ∨ x = .locked) ∧ y = .locked := by
  cases h with
  | signals hx => exact ⟨hx, rfl⟩
  | stays he => cases he

/-- Who stores `tz.state` gets where the store leads. -/
theorem Vigil.moves_store {state : WorkerState} {r : Unit}
    (h : Moves timer (.op (.store .tzState state) r) x y) : x.stores timer state = some y := by
  cases h with
  | stores state hy => exact hy
  | stays he => cases he

/-- Nothing is taken or given up by entering a procedure. -/
theorem Vigil.holds_of_enter {c : Call} (h : Moves timer (.enter c) x y) : y.holds = x.holds := by
  cases h with
  | starts hx => obtain rfl | rfl := hx <;> rfl
  | spins hc hx => obtain rfl | rfl := hx <;> rfl
  | stays he => rfl

/-- A mutex that is taken. -/
theorem locksAfter_of_taken {o : Op} {mu : Mutex} {t : Tid} {locks : Mutex → Option Tid}
    (ho : taken o = some mu) : locksAfter t locks o = Function.update locks mu (some t) := by
  cases o <;> cases ho <;> rfl

/-- A mutex that is neither taken nor given up. -/
theorem locksAfter_of_neither {o : Op} {mu : Mutex} {t : Tid} {locks : Mutex → Option Tid}
    (htaken : taken o ≠ some mu) (hgiven : givenUp o ≠ some mu) :
    locksAfter t locks o mu = locks mu := by
  cases o <;> first
    | rfl
    | exact Function.update_of_ne (fun h => htaken (congrArg some h.symm)) ..
    | exact Function.update_of_ne (fun h => hgiven (congrArg some h.symm)) ..

/-- As long as it is `STATE_CANCEL` that is read, who has to act goes on having to, and nobody gets
drowsy. -/
theorem Vigil.moves_cancelled (h : Moves timer e x y) (hsignal : e ≠ .op (.condSignal .sensorCond) ())
    (hstore : ∀ state, e ≠ .op (.store .tzState state) ())
    (hread : ∀ state, e = .op (.load .tzState) state → state = .stateCancel) :
    (x = .pending ∨ x = .telling → y = .pending ∨ y = .telling) ∧ (x = .waiting → y = .waiting) ∧
      (x = .asleep → y = .asleep ∨ y = .waiting) ∧ (y = .drowsy → x = .drowsy) := by
  cases h with
  | starts hx => obtain rfl | rfl := hx <;> simp
  | spins hc hx => obtain rfl | rfl := hx <;> simp
  | unlocks hx => obtain rfl | rfl := hx <;> simp
  | signals => exact absurd rfl hsignal
  | reads state =>
    obtain rfl := hread state rfl
    cases x <;> simp [reads]
  | stores state => exact absurd rfl (hstore state)
  | stays => exact ⟨id, id, .inl, id⟩
  | _ => simp

/-- Only a store changes `tz.state`. -/
theorem Vigil.state_of_moves {o : Op} {r : Resp o} (h : Moves timer (.op o r) x y)
    (hstore : ∀ state, o ≠ .store .tzState state) (old : WorkerState) : stateAfter old o = old := by
  cases h with
  | stores state => exact absurd rfl (hstore state)
  | stays he =>
    cases o with
    | store v a => cases v <;> first | rfl | cases he
    | clearTz => cases he
    | _ => rfl
  | _ => rfl

/-- `sensor.lock` is taken, given up, or left alone. -/
theorem Vigil.holds_of_moves {o : Op} {r : Resp o} (h : Moves timer (.op o r) x y) :
    (taken o = some .sensorLock ∧ y.holds = true) ∨
      (givenUp o = some .sensorLock ∧ x.holds = true ∧ y.holds = false) ∨
      taken o ≠ some .sensorLock ∧ givenUp o ≠ some .sensorLock ∧ y.holds = x.holds := by
  cases h with
  | locks => exact .inl ⟨rfl, rfl⟩
  | tells => exact .inl ⟨rfl, rfl⟩
  | unlocks hx => exact .inr (.inl ⟨rfl, by obtain rfl | rfl := hx <;> rfl, rfl⟩)
  | sleeps => exact .inr (.inl ⟨rfl, rfl, rfl⟩)
  | wakes => exact .inl ⟨rfl, rfl⟩
  | signals hx => exact .inr (.inr ⟨nofun, nofun, by obtain rfl | rfl := hx <;> rfl⟩)
  | reads state =>
    refine .inr (.inr ⟨nofun, nofun, ?_⟩)
    cases x <;> cases state <;> rfl
  | stores state hy =>
    refine .inr (.inr ⟨nofun, nofun, ?_⟩)
    cases x <;> cases state <;> cases timer <;> simp [stores] at hy <;> simp [← hy, holds]
  | stays he => exact .inr (.inr ⟨taken_of_unmoved he, givenUp_of_unmoved he, rfl⟩)

end event

/-! ## Every run -/

/-- Whether a thread is a timer. -/
def isTimer : Call → Bool
  | .vcsTimeout => true
  | _ => false

/-- How the threads take part. -/
def vigilRoles : Roles Resp Ret Vigil where
  protocol c := vigilProtocol (isTimer c)
  away := .away
  start _ := .away
  final _ _ x := x = .away

/-- Somebody will act: a thread has yet to signal its cancellation, or one is awake in the wait, or
nobody sleeps there or is about to. -/
def Told (m : Mem) (φ : Tid → Vigil) : Prop :=
  (∃ t, φ t = .pending ∨ φ t = .telling) ∨
    (∃ t, φ t = .waiting ∨ φ t = .asleep ∧ t ∉ m.waiters .sensorCond) ∨
    ∀ t, φ t ≠ .drowsy ∧ t ∉ m.waiters .sensorCond

/-- What the stages say: they fit what the threads have done and the memory, and whoever has to act
on a cancellation will. -/
structure Attended (s : Hal) (φ : Tid → Vigil) : Prop where
  fits : ∀ t, (φ t).Fits (s.own t)
  holds : ∀ t, (φ t).holds = true → s.mem.locks .sensorLock = some t
  queue : ∀ t ∈ s.mem.waiters .sensorCond, φ t = .asleep
  once : (s.mem.waiters .sensorCond).Nodup
  told : s.mem.tz.state = .stateCancel → Told s.mem φ

section runs

variable {m₀ : Mem} {s s' : Hal} {φ : Tid → Vigil} {t : Tid} {e : HalEvent} {timer : Bool}
  {x y : Vigil}

/-- Who is created is not in the way of anybody. -/
theorem stagesAfter_vigil (hs : Staged vigilRoles fine s.pool φ) (hr : s.Runs fine t e s') :
    stagesAfter vigilRoles hal φ t e y = Function.update φ t y := by
  funext u
  obtain ⟨c, hborn, heq⟩ | ⟨-, heq⟩ := stagesAfter_cases vigilRoles hal φ t e y u
  · have hnone := hr.fresh u c hborn
    have hut : u ≠ t := by
      rintro rfl
      exact hr.mem_pool hnone
    rw [heq, Function.update_of_ne hut, hs.away u hnone]
    rfl
  · exact heq

/-- Every thread starts away. -/
theorem vigilRoles_starts {c : Call} (hc : entryPoints c = true ∨ ∃ w : Worker, c = w.call) :
    vigilRoles.Starts fine c := by
  simp only [Roles.Starts, vigilRoles, Protocol.follows_call, callRule_vigil]
  refine ⟨.away, ?_⟩
  obtain hc | ⟨w, rfl⟩ := hc
  · cases c <;> first
      | cases hc; done
      | exact ⟨rfl, rfl, fun _ _ h => h⟩
  · cases w <;> first
      | exact ⟨rfl, rfl, fun _ _ h => h⟩
      | exact ⟨rfl, ⟨rfl, rfl⟩, fun _ _ h => h⟩

/-- What happens to who sleeps. -/
theorem waiters_of_runs {o : Op} {r : Resp o} (hr : s.Runs fine t (.op o r) s') :
    WaitersAfter .sensorCond t o (s.mem.waiters .sensorCond) (s'.mem.waiters .sensorCond) := by
  obtain ⟨-, -, m, -, -, ⟨ch, hact⟩, rfl⟩ := hr.moves
  exact act_waiters _ hact

/-- Who goes on behind its sleep does not sleep. -/
theorem woken_of_runs {c : Cond} {mu : Mutex} {r : Unit}
    (hr : s.Runs fine t (.op (.condWake c mu) r) s') : t ∉ s.mem.waiters c := by
  obtain ⟨-, -, m, -, -, ⟨ch, hact⟩, -⟩ := hr.moves
  have hwake : act s.fin t (.condWake c mu) ch s.mem = some (r, m) := hact
  exact act_condWake hwake

/-- Who takes a mutex finds it free. -/
theorem free_of_runs {o : Op} {r : Resp o} {mu : Mutex} (hr : s.Runs fine t (.op o r) s')
    (ho : taken o = some mu) : s.mem.locks mu = none := by
  obtain ⟨-, -, m, -, -, ⟨ch, hact⟩, -⟩ := hr.moves
  exact free_of_taken hact ho

/-- The stages go on fitting what the threads have done. -/
theorem Attended.fits_run (hI : Attended s φ) (hr : s.Runs fine t e s')
    (hy : (φ t).next timer e = some y) (u : Tid) : (Function.update φ t y u).Fits (s'.own u) := by
  rw [hr.own]
  by_cases hut : u = t
  · subst hut
    simpa using (hI.fits u).next hy
  · simpa [hut] using hI.fits u

/-- They go on fitting `sensor.lock`. -/
theorem Attended.holds_run (hI : Attended s φ) (hr : s.Runs fine t e s')
    (hy : (φ t).next timer e = some y) (u : Tid) (hu : (Function.update φ t y u).holds = true) :
    s'.mem.locks .sensorLock = some u := by
  cases e with
  | done c r => exact (not_done_of_fine hr).elim
  | enter c =>
    rw [mem_of_enters hr]
    by_cases hut : u = t
    · subst hut
      rw [Function.update_self] at hu
      exact hI.holds u (Vigil.holds_of_enter (Vigil.moves hy) ▸ hu)
    · rw [Function.update_of_ne hut] at hu
      exact hI.holds u hu
  | op o r =>
    rw [(effect_of_runs hr).locks]
    obtain ⟨ho, hholds⟩ | ⟨ho, hx, hholds⟩ | ⟨htaken, hgiven, hsame⟩ :=
      Vigil.holds_of_moves (Vigil.moves hy)
    · rw [locksAfter_of_taken ho]
      by_cases hut : u = t
      · simp [hut]
      · rw [Function.update_of_ne hut] at hu
        cases (free_of_runs hr ho).symm.trans (hI.holds u hu)
    · have hut : u ≠ t := by
        rintro rfl
        simp [hholds] at hu
      rw [Function.update_of_ne hut] at hu
      exact absurd (Option.some.inj ((hI.holds u hu).symm.trans (hI.holds t hx))) hut
    · rw [locksAfter_of_neither htaken hgiven]
      refine hI.holds u ?_
      by_cases hut : u = t
      · subst hut
        simpa [hsame] using hu
      · rwa [Function.update_of_ne hut] at hu

/-- Who sleeps is where it says. -/
theorem Attended.queue_run (hI : Attended s φ) (hr : s.Runs fine t e s')
    (hy : (φ t).next timer e = some y) :
    (∀ u ∈ s'.mem.waiters .sensorCond, Function.update φ t y u = .asleep) ∧
      (s'.mem.waiters .sensorCond).Nodup := by
  -- a thread that was asleep and is not, was not among those who sleep
  have hkept : ∀ u ∈ s.mem.waiters .sensorCond, u ∈ s'.mem.waiters .sensorCond →
      Function.update φ t y u = .asleep := by
    intro u hu _
    by_cases hut : u = t
    · subst hut
      rw [Function.update_self]
      obtain hstill | ⟨rfl, -⟩ := Vigil.moves_asleep (hI.queue u hu ▸ Vigil.moves hy)
      · exact hstill
      · exact absurd hu (woken_of_runs hr)
    · rw [Function.update_of_ne hut]
      exact hI.queue u hu
  cases e with
  | done c r => exact (not_done_of_fine hr).elim
  | enter c =>
    rw [mem_of_enters hr] at hkept ⊢
    exact ⟨fun u hu => hkept u hu hu, hI.once⟩
  | op o r =>
    obtain ⟨hw, -⟩ | ⟨mu, rfl, hw⟩ | ⟨u, hu, hw, ho⟩ := waiters_of_runs hr
    · rw [hw] at hkept ⊢
      exact ⟨fun u hu => hkept u hu hu, hI.once⟩
    · obtain ⟨hx, rfl⟩ := Vigil.moves_block (Vigil.moves hy)
      rw [hw] at hkept ⊢
      refine ⟨fun u hu => ?_, List.nodup_cons.mpr ⟨fun ht => ?_, hI.once⟩⟩
      · obtain rfl | hu' := List.mem_cons.mp hu
        · exact Function.update_self ..
        · exact hkept u hu' hu
      · cases hx.symm.trans (hI.queue t ht)
    · rw [hw] at hkept ⊢
      exact ⟨fun v hv => hkept v (List.mem_of_mem_erase hv) hv, hI.once.erase u⟩

/-- Who sleeps behind a step slept before it, or has just lain down. -/
theorem slept_of_runs {o : Op} {r : Resp o} {u : Tid} (hr : s.Runs fine t (.op o r) s')
    (hy : (φ t).next timer (.op o r) = some y) (hu : u ∈ s'.mem.waiters .sensorCond) :
    u ∈ s.mem.waiters .sensorCond ∨ u = t ∧ φ t = .drowsy := by
  obtain ⟨hw, -⟩ | ⟨mu, rfl, hw⟩ | ⟨v, -, hw, -⟩ := waiters_of_runs hr <;> rw [hw] at hu
  · exact .inl hu
  · obtain rfl | hu := List.mem_cons.mp hu
    · exact .inr ⟨rfl, (Vigil.moves_block (Vigil.moves hy)).1⟩
    · exact .inl hu
  · exact .inl (List.mem_of_mem_erase hu)

/-- Who has to act still has to. -/
theorem Told.keep {m m' : Mem} (h : Told m φ)
    (hpending : φ t = .pending ∨ φ t = .telling → y = .pending ∨ y = .telling)
    (hwaiting : φ t = .waiting → y = .waiting)
    (hasleep : φ t = .asleep → y = .asleep ∨ y = .waiting) (hdrowsy : y = .drowsy → φ t = .drowsy)
    (hwaiters : ∀ u ∈ m'.waiters .sensorCond, u ∈ m.waiters .sensorCond ∨ u = t ∧ φ t = .drowsy) :
    Told m' (Function.update φ t y) := by
  obtain ⟨u, hu⟩ | ⟨u, hu⟩ | hnone := h
  · refine .inl ⟨u, ?_⟩
    by_cases hut : u = t
    · subst hut
      simpa using hpending hu
    · simpa [hut] using hu
  · refine .inr (.inl ⟨u, ?_⟩)
    by_cases hut : u = t
    · subst hut
      rw [Function.update_self]
      obtain hu | ⟨hu, hw⟩ := hu
      · exact .inl (hwaiting hu)
      · obtain hy | hy := hasleep hu
        · refine .inr ⟨hy, fun hmem => ?_⟩
          obtain hold | ⟨-, hx⟩ := hwaiters u hmem
          · exact hw hold
          · cases hu.symm.trans hx
        · exact .inl hy
    · rw [Function.update_of_ne hut]
      refine hu.imp_right fun ⟨hu, hw⟩ => ⟨hu, fun hmem => ?_⟩
      obtain hold | ⟨rfl, -⟩ := hwaiters u hmem
      · exact hw hold
      · exact hut rfl
  · refine .inr (.inr fun u => ⟨?_, fun hmem => ?_⟩)
    · by_cases hut : u = t
      · subst hut
        rw [Function.update_self]
        exact fun hy => (hnone u).1 (hdrowsy hy)
      · rw [Function.update_of_ne hut]
        exact (hnone u).1
    · obtain hold | ⟨rfl, hx⟩ := hwaiters u hmem
      · exact (hnone u).2 hold
      · exact (hnone u).1 hx

/-- A signal wakes a sleeper, or nobody sleeps or is about to. -/
theorem Attended.told_signal {r : Unit} (hI : Attended s φ)
    (hr : s.Runs fine t (.op (.condSignal .sensorCond) r) s')
    (hy : (φ t).next timer (.op (.condSignal .sensorCond) r) = some y) :
    Told s'.mem (Function.update φ t y) := by
  obtain ⟨hx, rfl⟩ := Vigil.moves_signal (Vigil.moves hy)
  have hholds : (φ t).holds = true := by obtain hx | hx := hx <;> rw [hx] <;> rfl
  obtain ⟨hw, hnone⟩ | ⟨mu, ho, -⟩ | ⟨u, hu, hw, -⟩ := waiters_of_runs hr
  · refine .inr (.inr fun u => ⟨fun hdrowsy => ?_, by rw [hw, hnone rfl]; exact nofun⟩)
    have hut : u ≠ t := by
      rintro rfl
      simp at hdrowsy
    rw [Function.update_of_ne hut] at hdrowsy
    -- who is drowsy has `sensor.lock`, too
    have hu := hI.holds u (by rw [hdrowsy]; rfl)
    exact hut (Option.some.inj (hu.symm.trans (hI.holds t hholds)))
  · cases ho
  · have hasleep := hI.queue u hu
    have hut : u ≠ t := by
      rintro rfl
      simp [hasleep] at hx
    refine .inr (.inl ⟨u, .inr ⟨?_, hw ▸ hI.once.not_mem_erase⟩⟩)
    rw [Function.update_of_ne hut, hasleep]

/-- A cancellation is going to be signalled, or there is nobody to signal it to. -/
theorem Attended.told_store {state : WorkerState} {r : Unit} (hI : Attended s φ)
    (hr : s.Runs fine t (.op (.store .tzState state) r) s')
    (hy : (φ t).next timer (.op (.store .tzState state) r) = some y)
    (hheard : timer = true → state = .stateCancel →
      ∀ w, w ∉ s.mem.waiters .sensorCond ∧ aboutToSleep (s.own w) = false)
    (hstate : s'.mem.tz.state = .stateCancel) : Told s'.mem (Function.update φ t y) := by
  obtain rfl : state = .stateCancel := by
    rw [(effect_of_runs hr).state] at hstate
    exact hstate
  have hstores := Vigil.moves_store (Vigil.moves hy)
  obtain ⟨hw, -⟩ | ⟨mu, ho, -⟩ | ⟨-, -, -, ho | ⟨mu, ho⟩⟩ := waiters_of_runs hr
  · cases timer with
    | false =>
      have hpending : y = .pending := by
        generalize φ t = x at hstores
        cases x <;> simp [Vigil.stores] at hstores
        exact hstores.symm
      exact .inl ⟨t, .inl (by rw [Function.update_self, hpending])⟩
    | true =>
      refine .inr (.inr fun u => ⟨fun hdrowsy => ?_, hw ▸ (hheard rfl rfl u).1⟩)
      have hnot := (hheard rfl rfl u).2
      by_cases hut : u = t
      · subst hut
        rw [Function.update_self] at hdrowsy
        obtain hy | hy | hy := Vigil.stores_cases hstores <;> cases hy.symm.trans hdrowsy
      · rw [Function.update_of_ne hut] at hdrowsy
        rw [(hI.fits u).drowsy hdrowsy] at hnot
        cases hnot
  · cases ho
  · cases ho
  · cases ho

/-- **One step.** Whoever has to act on a cancellation will. -/
theorem Attended.told_run (hI : Attended s φ) (hr : s.Runs fine t e s')
    (hy : (φ t).next timer e = some y)
    (hheard : timer = true → ∀ r, e = .op (.store .tzState .stateCancel) r →
      ∀ w, w ∉ s.mem.waiters .sensorCond ∧ aboutToSleep (s.own w) = false)
    (hstate : s'.mem.tz.state = .stateCancel) : Told s'.mem (Function.update φ t y) := by
  cases e with
  | done c r => exact (not_done_of_fine hr).elim
  | enter c =>
    rw [mem_of_enters hr] at hstate ⊢
    obtain ⟨hpending, hwaiting, hasleep, hdrowsy⟩ :=
      Vigil.moves_cancelled (Vigil.moves hy) nofun nofun nofun
    exact (hI.told hstate).keep hpending hwaiting hasleep hdrowsy fun u hu => .inl hu
  | op o r =>
    by_cases hsignal : o = .condSignal .sensorCond
    · subst hsignal
      exact hI.told_signal hr hy
    by_cases hstore : ∃ state, o = .store .tzState state
    · obtain ⟨state, rfl⟩ := hstore
      exact hI.told_store hr hy (fun ht hs => hheard ht r (hs ▸ rfl)) hstate
    have hold : s.mem.tz.state = .stateCancel := by
      rw [← hstate, (effect_of_runs hr).state]
      exact (Vigil.state_of_moves (Vigil.moves hy) (fun state ho => hstore ⟨state, ho⟩) _).symm
    obtain ⟨hpending, hwaiting, hasleep, hdrowsy⟩ := Vigil.moves_cancelled (Vigil.moves hy)
      (fun he => hsignal (by cases he; rfl)) (fun state he => hstore ⟨state, by cases he; rfl⟩)
      (fun state he => by cases he; exact (load_of_runs hr).trans hold)
    exact (hI.told hold).keep hpending hwaiting hasleep hdrowsy fun u hu => slept_of_runs hr hy hu

/-- Only a timer is one. -/
theorem isTimer_iff {c : Call} : isTimer c = true ↔ c = .vcsTimeout := by
  cases c <;> simp [isTimer]

/-- In every run in which timers cancel only when that is heard, the stages say so. -/
theorem attended_of_reaches (hwaiters : m₀.waiters .sensorCond = [])
    (h : (Hal.idle m₀).Reaches fine entryPoints timeoutHeard s) :
    ∃ φ, Staged vigilRoles fine s.pool φ ∧ Attended s φ := by
  refine State.Reaches.staged (I := Attended) (fun _ => .away) (fun _ => vigilProtocol_valid _)
    (fun _ _ _ _ _ _ _ hb => vigilRoles_starts (.inr (born_worker hb)))
    (fun c hc => vigilRoles_starts (.inl hc)) ⟨fun t th ht => ?_, fun _ _ => rfl⟩ ?_ ?_ ?_ ?_ h
  · simp [Hal.idle] at ht
  · refine ⟨fun _ => Vigil.fits_nil, fun t ht => ?_, fun t ht => ?_, ?_,
      fun _ => .inr (.inr fun t => ?_)⟩
    · cases ht
    · simp [Hal.idle, hwaiters] at ht
    · simp [Hal.idle, hwaiters]
    · simp [Hal.idle, hwaiters]
  · intro s φ t c hs hI _ ht
    have hstart : Function.update φ t (vigilRoles.start c) = φ := by
      rw [Function.update_eq_self_iff]
      exact (hs.away t ht).symm
    rw [hstart]
    exact ⟨hI.fits, hI.holds, hI.queue, hI.once, hI.told⟩
  · exact fun _ _ _ _ _ _ _ _ _ _ _ => trivial
  · intro s φ t th e s' y hs hI ho hth hr hy _
    rw [stagesAfter_vigil hs hr]
    have hheard : isTimer th.entry = true → ∀ r, e = .op (.store .tzState .stateCancel) r →
        ∀ w, w ∉ s.mem.waiters .sensorCond ∧ aboutToSleep (s.own w) = false := by
      intro htimer
      refine ho ?_
      rw [State.entry, hth, Option.map_some, isTimer_iff.mp htimer]
    obtain ⟨hqueue, honce⟩ := hI.queue_run hr hy
    exact ⟨hI.fits_run hr hy, hI.holds_run hr hy, hqueue, honce, hI.told_run hr hy hheard⟩

/-- Who is somewhere has not ended, and waits for nobody. -/
theorem acts_of_stage (hs : Staged vigilRoles fine s.pool φ) (hI : Attended s φ)
    (haway : φ t ≠ .away) (hspinning : φ t ≠ .spinning) : ¬ (s.fin t = true ∨ AwaitsIdle s t) := by
  rintro (hfin | hspins | ⟨th, u, k, hth, hcode, -⟩)
  · cases hpool : s.pool t with
    | none => exact haway (hs.away t hpool)
    | some th =>
      obtain ⟨d, code⟩ := th
      have hfollows := hs.follows t ⟨d, code⟩ hpool
      cases code with
      | ret r => exact haway hfollows
      | _ => simp [State.fin, hpool, Prog.finished] at hfin
  · exact hspinning ((hI.fits t).spinning hspins)
  · have hfollows := hs.follows t th hth
    rw [hcode] at hfollows
    obtain ⟨y, hy, -⟩ := (hfollows ()).next trivial
    exact haway (Option.ite_none_right_eq_some.mp hy).1

/-- **No wake-up is lost**, as long as `vcs_timeout` cancels only when nobody sleeps on `sensor.cond`
and nobody is about to. -/
theorem noLostWakeup (hwaiters : m₀.waiters .sensorCond = [])
    (h : (Hal.idle m₀).Reaches fine entryPoints timeoutHeard s) (w : Tid) : ¬ LostWakeup s w := by
  obtain ⟨φ, hs, hI⟩ := attended_of_reaches hwaiters h
  rintro ⟨hw, hstate, hall⟩
  have hasleep := hI.queue w hw
  obtain ⟨t, ht⟩ | ⟨t, ht⟩ | hnone := hI.told hstate
  · have htw : t ≠ w := by
      rintro rfl
      simp [hasleep] at ht
    refine acts_of_stage hs hI ?_ ?_ (hall t htw)
    all_goals obtain ht | ht := ht <;> rw [ht] <;> decide
  · have htw : t ≠ w := by
      rintro rfl
      simp [hasleep, hw] at ht
    refine acts_of_stage hs hI ?_ ?_ (hall t htw)
    all_goals obtain ht | ⟨ht, -⟩ := ht <;> rw [ht] <;> decide
  · exact (hnone w).2 hw

end runs

/-! ## A timer that runs out -/

/-- Thread 1 requests an enrollment that is to take a second at most: worker 2 and timer 3. -/
def beginTimedEnroll : List (Label hal) :=
  .arrive 1 (.fingerprintEnroll (some ⟨hwAuthTokenVersion, 0, 0, 0, 0, 0⟩) 1) :: ticks 1 26 ++
    touch 1 2 ++ ticks 1 1 ++ touch 1 3 ++ ticks 1 2 ++ ticks 3 4

/-- The worker gets as far as to wait for the finger. -/
def awaitFinger : List (Label hal) :=
  ticks 2 3 ++ answer 2 (.good 0) ++ answer 2 (.good 0) ++ ticks 2 7 ++ answer 2 (.good 0) ++
    ticks 2 2 ++ answer 2 .lost ++ ticks 2 18

/-- The timer runs out, cancels, and waits for the worker. -/
def runOut : List (Label hal) := .run 3 [.expire] :: ticks 3 16

/-- `timeoutHeard` as it is executed. -/
def hearsTimeout (s : Hal) (e : HalEvent) : Bool :=
  match e with
  | .op (.store .tzState .stateCancel) _ =>
    s.mem.waiters .sensorCond == [] && s.log.all fun te => !aboutToSleep (s.own te.1)
  | _ => true

/-- `timeoutHeard` from its executable form. -/
theorem timeoutHeard_of_hearsTimeout (s : Hal) (t : Tid) (e : HalEvent)
    (h : hearsTimeout s e = true) : timeoutHeard s t e := by
  rintro - r rfl w
  obtain ⟨hwaiters, hall⟩ := Bool.and_eq_true_iff.mp h
  refine ⟨by simp [eq_of_beq hwaiters], ?_⟩
  by_cases hw : ∃ te ∈ s.log, te.1 = w
  · obtain ⟨te, hte, rfl⟩ := hw
    simpa using List.all_eq_true.mp hall te hte
  · have hown : s.own w = [] := by
      refine List.filterMap_eq_nil_iff.mpr fun te hte => ?_
      exact if_neg fun h => hw ⟨te, hte, h⟩
    rw [hown]
    rfl

/-- The timer runs out before the worker waits for the finger, and the worker will see that. -/
theorem noLostWakeup_early : ∃ s : Hal, spins (s.own 3) = true ∧ s.fin 1 = true ∧
    s.mem.tz.state = .stateCancel ∧ ¬ LostWakeup s 2 := by
  obtain ⟨s, hs, hspins, hfin, hstate⟩ : ∃ s, (Hal.idle .started).exec fine entryPoints
      (fun s _ e => hearsTimeout s e) (beginTimedEnroll ++ ticks 2 3 ++ runOut) = some s ∧
      spins (s.own 3) = true ∧ s.fin 1 = true ∧ s.mem.tz.state = .stateCancel :=
    ⟨_, rfl, rfl, rfl, rfl⟩
  exact ⟨s, hspins, hfin, hstate,
    noLostWakeup rfl (State.Reaches.refl.exec timeoutHeard_of_hearsTimeout hs) 2⟩

/-- **An unheard timeout.** The timer runs out while the worker waits for the finger: the worker
sleeps on, the timer waits for it, and nobody else is left. -/
theorem unheard_timeout : ∃ s,
    (Hal.idle .started).Reaches fine entryPoints (fun _ _ _ => True) s ∧
      s.entry 2 = some .vcsEnroll ∧ LostWakeup s 2 := by
  obtain ⟨s, hs, hentry, hasleep, hstate, hfin₀, hfin₁, hspins⟩ : ∃ s,
      (Hal.idle .started).exec fine entryPoints
        (fun _ _ e => (hal.born e).all fun p => decide (p.1 < 4))
        (beginTimedEnroll ++ awaitFinger ++ runOut) = some s ∧
      s.entry 2 = some .vcsEnroll ∧ 2 ∈ s.mem.waiters .sensorCond ∧
      s.mem.tz.state = .stateCancel ∧ s.fin 0 = true ∧ s.fin 1 = true ∧ spins (s.own 3) = true :=
    ⟨_, rfl, rfl, .head _, rfl, rfl, rfl, rfl⟩
  have hstart : (Hal.idle .started).Reaches fine entryPoints (fun _ _ _ => True)
      (Hal.idle .started) := .refl
  obtain ⟨hr, hpool⟩ := hstart.exec_names (fun t => decide (t < 4)) (fun _ _ _ _ _ => trivial)
    (fun s t e u c ha hb => by simpa [hb] using ha) rfl (fun _ _ => rfl) hs
  refine ⟨s, hr, hentry, hasleep, hstate, fun t ht => ?_⟩
  match t with
  | 0 => exact .inl hfin₀
  | 1 => exact .inl hfin₁
  | 2 => exact absurd rfl ht
  | 3 => exact .inr (.inl hspins)
  | n + 4 => exact .inl (by rw [State.fin, hpool (n + 4) (by simp)])

end KlteCommon.Analysis

import KlteCommon.Computation.Paths
import KlteCommon.Fingerprint.Effects
import KlteCommon.Fingerprint.Loops

/-!
# Who may enroll

`fingerprint_pre_enroll` issues a challenge, `fingerprint_post_enroll` revokes it, and
`fingerprint_enroll` is to accept tokens for a challenge that is issued. The device keeps one
challenge, 0 when there is none.

A run is a sequence of these calls and `fingerprint_open`, with any tokens; `live` are the
challenges that are issued and not revoked. `Grant` follows one call: what it accepts is what the
device's challenge and the token's fields say (`grantProtocol_valid`), and the device's challenge
is a live one or 0 (`Run.current`). So a call is authorized exactly when it is `Guarded`
(`authorized_iff`): a token for another challenge passes with the fingerprint bit of its type set,
a token with challenge 0 passes while none is issued, and the user id of a token with the right
challenge is stored before its version is looked at.
-/

set_option autoImplicit false

namespace KlteCommon.Analysis

open KlteCommon.Computation KlteCommon.Fingerprint

/-! ## What is observed -/

/-- All slots are occupied. -/
def full (exist : ℤ → Bool) : Prop :=
  ∀ idx, 1 ≤ idx → idx < 1 + (maxNumFingers : ℤ) → exist idx = true

/-- Whether a call is one of the four of the enrollment protocol. -/
def enrollCall : Call → Bool
  | .fingerprintOpen | .fingerprintPreEnroll | .fingerprintPostEnroll => true
  | .fingerprintEnroll _ _ => true
  | _ => false

/-- A call that has run alone: from which memory, with which challenges live, what it did, what
is left of it and which memory it left. -/
structure Ran where
  call : Call
  before : Mem
  live : List UInt64
  events : List HalEvent
  code : Code (Ret call)
  after : Mem

/-- The challenges that are live after a call that has got to its end. An open that finds no
memory has opened nothing. -/
def liveAfter (live : List UInt64) : (c : Call) → Code (Ret c) → List UInt64
  | .fingerprintPreEnroll, .ret challenge => challenge :: live
  | .fingerprintPostEnroll, .ret _ => []
  | .fingerprintOpen, .ret r => if r = -enomem then live else []
  | _, _ => live

/-- The call starts an enrollment. -/
def startsEnroll : HalEvent → Bool
  | .enter (.vcsStartEnroll _) => true
  | _ => false

/-- A call of the protocol that runs alone where memory `m` was left. What happens in between
leaves the device's challenge. -/
structure Ran.From (d : Ran) (m : Mem) (live : List UInt64) : Prop where
  call : enrollCall d.call = true
  before : d.before.vdev.challenge = m.vdev.challenge
  live : d.live = live
  runs : ∃ fin t chs,
    hal.solo fin t chs (body d.call) d.before = some (d.events, d.code, d.after)

/-- A run of calls one after the other, of which only the last may not have got to its end. -/
def Run (m : Mem) (live : List UInt64) : List Ran → Prop
  | [] => True
  | d :: ds => d.From m live ∧ (ds ≠ [] → d.code.finished = true) ∧
      Run d.after (liveAfter live d.call d.code) ds

/-- A call starts an enrollment, or changes the secure user id, only for a token of the right
version with a live challenge. -/
def Ran.Authorized (d : Ran) : Prop :=
  ∀ hat timeout, d.call = .fingerprintEnroll hat timeout →
    d.events.any startsEnroll = true ∨ d.after.vdev.secureUserId ≠ d.before.vdev.secureUserId →
    ∃ h, hat = some h ∧ h.version = hwAuthTokenVersion ∧ h.challenge ∈ d.live

/-- The condition on the token of a call, given the device and the live challenges. -/
structure Guarded (m : Mem) (live : List UInt64) (h : HwAuthToken) : Prop where
  /-- a token with the device's challenge has the right version, or names the stored user -/
  version : h.challenge = m.vdev.challenge → h.userId ≠ m.vdev.secureUserId →
    h.version = hwAuthTokenVersion
  /-- when no challenge is live, a token with the device's challenge names the stored user, and
  has another version or finds no slot -/
  issued : h.challenge = m.vdev.challenge → live = [] → h.userId = m.vdev.secureUserId ∧
    (h.version = hwAuthTokenVersion → full fun idx => (m.tz.finger idx).exist)
  /-- a token with another challenge that is not live has another version, or lacks the
  fingerprint bit, or finds no slot -/
  bypass : h.challenge ≠ m.vdev.challenge → h.challenge ∉ live → h.version = hwAuthTokenVersion →
    h.authenticatorType &&& hwAuthFingerprint ≠ 0 → full fun idx => (m.tz.finger idx).exist

/-! ## One call -/

/-- The device's challenge and secure user id; whether an enrollment was started, and whether the
slots may have changed. -/
structure Grant where
  challenge : UInt64
  secureUserId : UInt64
  started : Bool
  moved : Bool

/-- A call with this token may start an enrollment. -/
def startable (hat : Option HwAuthToken) (exist : ℤ → Bool) (x : Grant) : Prop :=
  ∃ h, hat = some h ∧ h.version = hwAuthTokenVersion ∧
    (h.challenge = x.challenge ∨ h.authenticatorType &&& hwAuthFingerprint ≠ 0) ∧ ¬ full exist

/-- What starts an enrollment, for a given token. -/
theorem startable_some {h : HwAuthToken} {exist : ℤ → Bool} {x : Grant} :
    startable (some h) exist x ↔ h.version = hwAuthTokenVersion ∧
      (h.challenge = x.challenge ∨ h.authenticatorType &&& hwAuthFingerprint ≠ 0) ∧
      ¬ full exist := by
  simp [startable]

open scoped Classical in
/-- The device after an event of a call with this token; only a call without one changes the
challenge. -/
noncomputable def Grant.after (hat : Option HwAuthToken) (exist : ℤ → Bool) (x : Grant) :
    HalEvent → Option Grant
  | .op (.store .challenge c) _ => if hat = none then some { x with challenge := c } else none
  | .op (.store .secureUserId u) _ =>
    if ∃ h, hat = some h ∧ h.challenge = x.challenge ∧ u = h.userId then
      some { x with secureUserId := u }
    else none
  | .op .clearDevice _ => if hat = none then some ⟨0, 0, x.started, true⟩ else none
  | .op o _ => some { x with moved := x.moved || !o.quiet }
  | .enter (.vcsStartEnroll _) =>
    if startable hat exist x then some { x with started := true } else none
  | .enter _ => some x
  | .done _ _ => none

/-- What is read is what is there; the slots, as long as they cannot have changed. -/
def Grant.reads (exist : ℤ → Bool) (x : Grant) : HalEvent → Prop
  | .op (.load .challenge) r => r = x.challenge
  | .op (.load (.fingerExist idx)) r => x.moved = false → r = exist idx
  | _ => True

/-- The two agree on the device. -/
structure Grant.Same (x y : Grant) : Prop where
  challenge : y.challenge = x.challenge
  secureUserId : y.secureUserId = x.secureUserId
  started : y.started = x.started

/-- The procedures the calls use that have nothing to do with tokens. -/
def grantCall : Call → Bool
  | .getTzState | .setTzState _ | .sendErrorNotice _ => true
  | .sensorInit | .sensorUninit | .sensorRegister => true
  | .vcsInit | .vcsUninit | .vcsResume | .vcsUpdateAuthToken | .vcsStartAuthSession => true
  | .dbInit | .dbReadToTz | .dbCheckAndCreateTable | .dbConvertOldDb | .dbWriteToDb _ _ => true
  | .vcsStartEnroll _ => true
  | _ => false

/-- The protocol of a call with this token. -/
@[simps] noncomputable def grantProtocol (hat : Option HwAuthToken) (exist : ℤ → Bool) :
    Protocol Resp Ret Grant where
  assume x e := x.reads exist e
  next x e := x.after hat exist e
  pre c _ := grantCall c = true
  post _ x _ y := x.Same y

section

variable (hat : Option HwAuthToken) (exist : ℤ → Bool) (x y : Grant) (c : Call) (r : Ret c)
  (e : HalEvent)

end

/-- A stage is the same as itself. -/
theorem Grant.Same.refl (x : Grant) : x.Same x := ⟨rfl, rfl, rfl⟩

/-- Sameness is transitive. -/
theorem Grant.Same.trans {x y z : Grant} (h : x.Same y) (h' : y.Same z) : x.Same z :=
  ⟨h'.challenge.trans h.challenge, h'.secureUserId.trans h.secureUserId,
    h'.started.trans h.started⟩

/-- The operations that have nothing to do with tokens. -/
def grantOp : Op → Bool
  | .store .challenge _ | .store .secureUserId _ | .clearDevice => false
  | _ => true

/-- The procedures without `vcs_start_enroll`, which a call enters only when it may. -/
def awayCall (c : Call) : Bool := grantCall c && !startsEnroll (.enter c)

section bodies

attribute [local simp] load store op call send ionSbuffer sameIonSbuffer

/-- The operations on the slots and the database grant nothing. -/
theorem grantOp_of_storage (o : Op) (ho : o.storage) : grantOp o = true := by
  cases o with
  | store v a => cases v <;> first | rfl | cases ho
  | _ => first | rfl | cases ho

/-- Nor do the procedures on them. -/
theorem awayCall_of_dbCall (c : Call) (hc : dbCall c) : awayCall c = true := by
  cases c <;> first | rfl | cases hc

/-- A procedure that grants nothing does so in none of its steps. -/
theorem awayCall_within {c : Call} (hc : grantCall c = true) :
    (body c).Within (grantOp · = true) (awayCall · = true) := by
  by_cases hdb : dbCall c
  · exact (dbCall_within hdb).mono grantOp_of_storage awayCall_of_dbCall
  cases c <;> first | cases hc; done | exact absurd trivial hdb | skip
  all_goals
    simp [Prog.Within, body, getTzState, setTzState, sendErrorNotice, sensorInit, sensorUninit,
      sensorRegister, vcsInit, vcsUninit, vcsResume, deviceResume, vcsUpdateAuthToken, getAuthToken,
      vcsStartAuthSession, vcsStartEnroll, grantOp, awayCall, grantCall, startsEnroll]
  case vcsStartEnroll =>
    rintro (_ | _)
    · simp
    · simp
      rintro _ (_ | _) <;> simp

end bodies

section follows

variable {hat : Option HwAuthToken} {exist : ℤ → Bool}

attribute [local simp ↓] load store op call send ionSbuffer sameIonSbuffer

/-- An operation that grants nothing keeps the challenge and the users. -/
theorem after_grantOp {o : Op} (ho : grantOp o = true) (r : Resp o) {x y : Grant} (h : x.Same y) :
    ∃ z, y.after hat exist (.op o r) = some z ∧ x.Same z := by
  cases o with
  | store v a => cases v <;> first | cases ho; done | exact ⟨_, rfl, h.challenge, h.2, h.3⟩
  | _ => first | cases ho; done | exact ⟨_, rfl, h.challenge, h.2, h.3⟩

/-- Entering a procedure that grants nothing keeps the stage. -/
theorem after_awayCall {c : Call} (hc : awayCall c = true) (x : Grant) :
    x.after hat exist (.enter c) = some x := by
  cases c <;> first | rfl | cases hc

/-- Code that has nothing to do with tokens. -/
theorem grant_keeps {α : Type} {p : Code α} {Q : α → Grant → Prop} {x : Grant}
    (hp : p.Within (grantOp · = true) (awayCall · = true)) (hQ : ∀ a y, x.Same y → Q a y) :
    (grantProtocol hat exist).Follows fine p Q x := by
  refine .keeps (T := x.Same) (fun _ _ => rfl) (fun o r y ho hy => after_grantOp ho r hy) ?_ hQ hp
    (.refl x)
  intro c y hc hy
  exact ⟨y, after_awayCall hc y, (Bool.and_eq_true_iff.mp hc).1, fun r z hz => hy.trans hz⟩

/-- Every body that grants nothing keeps to that. -/
theorem grantProtocol_valid : (grantProtocol hat exist).Valid fine body :=
  fun _ _ _ hc => grant_keeps (awayCall_within hc) fun _ _ hy => hy

/-- A call that grants nothing ends in the same stage. -/
@[simp ↓] theorem callRule_grant {c : Call} (hc : awayCall c = true) (x : Grant)
    (Q : Ret c → Grant → Prop) : (grantProtocol hat exist).callRule fine c Q x ↔
      ∀ r y, x.Same y → Q r y := by
  have hpre := (Bool.and_eq_true_iff.mp hc).1
  rw [Protocol.callRule_entered rfl trivial (after_awayCall hc x)]
  simp [hpre]

attribute [local simp] Grant.after Grant.reads Op.quiet

/-- `fingerprint_post_enroll` takes the challenge back. -/
theorem grant_postEnroll (x : Grant) : (grantProtocol none exist).Follows fine
    fingerprintPostEnroll (fun _ y => y.challenge = 0) x := by
  simp [fingerprintPostEnroll]

/-- `fingerprint_pre_enroll` issues the challenge it returns. -/
theorem grant_preEnroll (x : Grant) : (grantProtocol none exist).Follows fine
    fingerprintPreEnroll (fun r y => y.challenge = r) x := by
  simp [fingerprintPreEnroll]

/-- `fingerprint_open` behind the opening of the sensor, without its result. -/
def openRest : Code Unit := do
  let _ ← call .sensorInit
  let _ ← call .sensorRegister
  let _ ← call .sensorUninit
  op (.lock .vdevLock)
  let _ ← call .sensorInit
  let _ ← call .dbInit
  let _ ← call .vcsInit
  let _ ← call .vcsUninit
  let _ ← call .vcsInit
  let _ ← call .vcsStartAuthSession
  let _ ← call .vcsUninit
  let _ ← call .sensorUninit
  op (.unlock .vdevLock)

/-- `fingerprint_open` takes the challenge back, if it has memory for the device. -/
theorem grant_open (x : Grant) : (grantProtocol none exist).Follows fine fingerprintOpen
    (fun r y => y.challenge = if r = -enomem then x.challenge else 0) x := by
  simp [fingerprintOpen]
  refine fun fd => ⟨fun _ h => absurd h (by decide), fun _ => ?_⟩
  change (grantProtocol none exist).Follows fine (openRest >>= fun _ => pure 0) _ _
  refine Protocol.Follows.bind (grant_keeps ?_ fun _ y hy => ?_)
  · simp [openRest, Prog.Within, call, op, grantOp, awayCall, grantCall, startsEnroll]
  · simp [hy.challenge]
    exact fun h => absurd h (by decide)

/-- The scan for a free slot. -/
theorem grant_firstFreeSlot (n : ℕ) (idx : ℤ) {x : Grant} (hx : x.moved = false)
    {Q : ℤ → Grant → Prop} (hfree : ∀ r, r < idx + n → exist r = false → idx ≤ r → Q r x)
    (hfull : (∀ j, idx ≤ j → j < idx + n → exist j = true) → Q (idx + n) x) :
    (grantProtocol hat exist).Follows fine (firstFreeSlot n idx) Q x := by
  induction n generalizing idx with
  | zero => simpa [firstFreeSlot] using hfull (by omega)
  | succ n ih =>
    simp [firstFreeSlot]
    refine ⟨fun hidx => ?_, fun hidx => ?_⟩
    all_goals have hidx := hidx hx
    · exact hfree idx (by omega) hidx (by omega)
    · refine ih (idx + 1) (fun r hr hexist hle => ?_) fun h => ?_
      · exact hfree r (by omega) hexist (by omega)
      · have hQ := hfull fun j hle hlt => by
          by_cases hj : j = idx
          · rw [hj, hidx]
          · exact h j (by omega) (by omega)
        rwa [show idx + ((n + 1 : ℕ) : ℤ) = idx + 1 + n by omega] at hQ

/-- What follows the tests of the token. -/
theorem grant_start {h : HwAuthToken} (exist : ℤ → Bool) (timeout : UInt32) {x : Grant}
    (hmoved : x.moved = false) (hstarted : x.started = false) (hversion : h.version = hwAuthTokenVersion)
    (hpass : h.challenge = x.challenge ∨ h.authenticatorType &&& hwAuthFingerprint ≠ 0) :
    (grantProtocol (some h) exist).Follows fine
      (do
        store .userId h.userId
        op (.lock .vdevLock)
        let idx ← findFreeSlot
        if idx > maxNumFingers then
          call (.sendErrorNotice fingerprintErrorNoSpace)
          op (.unlock .vdevLock)
          return -1
        let ret ← call (.vcsStartEnroll timeout)
        op (.unlock .vdevLock)
        return ret)
      (fun _ y => (y.started = true ↔ startable (some h) exist x) ∧
        y.secureUserId = x.secureUserId) x := by
  simp
  refine grant_firstFreeSlot _ _ hmoved (fun r hr hfree hle => ?_) fun hfull => ?_
  · have hstart : startable (some h) exist x :=
      ⟨h, rfl, hversion, hpass, fun hfull => by simp [hfull r hle hr] at hfree⟩
    have hidx : ¬ (maxNumFingers : ℤ) < r := by omega
    simp [hidx, Protocol.callRule, fine, hstart]
    exact ⟨rfl, fun z hz => ⟨hz.started, hz.secureUserId⟩⟩
  · have hstart : ¬ startable (some h) exist x := by
      rintro ⟨_, _, _, _, hfree⟩
      exact hfree hfull
    have hidx : (maxNumFingers : ℤ) < 1 + maxNumFingers := by omega
    simp [hidx, hstart, awayCall, grantCall, startsEnroll]
    exact fun y hy => ⟨hy.started.trans hstarted, hy.secureUserId⟩

/-- `fingerprint_enroll` starts a worker exactly for a token that may start one, and stores the user
of a token with the device's challenge. -/
theorem grant_enroll {timeout : UInt32} {x : Grant} (hmoved : x.moved = false)
    (hstarted : x.started = false) : (grantProtocol hat exist).Follows fine
      (fingerprintEnroll hat timeout) (fun _ y => (y.started = true ↔ startable hat exist x) ∧
        ∀ h, hat = some h → h.challenge = x.challenge → y.secureUserId = h.userId) x := by
  cases hat with
  | none => simp [fingerprintEnroll, startable, hstarted]
  | some h =>
    by_cases hversion : h.version = hwAuthTokenVersion
    · by_cases hchallenge : h.challenge = x.challenge
      · have hmain := grant_start exist timeout
          (x := { x with secureUserId := h.userId }) hmoved hstarted hversion (.inl hchallenge)
        simp at hmain
        simp [fingerprintEnroll, hversion, hchallenge]
        exact hmain
      · by_cases hbit : h.authenticatorType &&& hwAuthFingerprint = 0
        · simp [fingerprintEnroll, hversion, hchallenge, hbit, hstarted, startable]
        · have hmain := grant_start exist timeout hmoved hstarted hversion
            (.inr hbit)
          simp at hmain
          simp [fingerprintEnroll, hversion, hchallenge, hbit]
          exact hmain.mono fun _ y hy => hy.mono fun _ z hz => hz.1
    · have hstart : ¬ startable (some h) exist x := fun hstart =>
        hversion (startable_some.mp hstart).1
      by_cases hchallenge : h.challenge = x.challenge <;>
        simp [fingerprintEnroll, hversion, hchallenge, hstarted, hstart]

end follows

/-! ## The memory refines it -/

/-- What is known of the device is so; the slots are `exist` as long as they cannot have changed. -/
structure Grants (exist : ℤ → Bool) (x : Grant) (m : Mem) : Prop where
  challenge : m.vdev.challenge = x.challenge
  secureUserId : m.vdev.secureUserId = x.secureUserId
  slots : x.moved = false → ∀ idx, (m.tz.finger idx).exist = exist idx

section refines

variable {fin : Tid → Bool} {t : Tid} {ch : Choice} {m m' : Mem} {x y : Grant}
  {hat : Option HwAuthToken} {exist : ℤ → Bool}

/-- A step that is taken alone reads and writes what the stage says. -/
theorem grants_act {o : Op} {r : Resp o} (h : Grants exist x m)
    (hact : act fin t o ch m = some (r, m')) :
    x.reads exist (.op o r) ∧ ∀ y, x.after hat exist (.op o r) = some y → Grants exist y m' := by
  have heff := act_effect hact
  refine ⟨?_, fun y hy => ?_⟩
  · unfold Grant.reads
    split
    · rename_i heq
      cases heq
      obtain ⟨rfl, -⟩ := by simpa [act] using hact
      exact h.challenge
    · rename_i heq
      cases heq
      obtain ⟨rfl, -⟩ := by simpa [act] using hact
      exact fun hmoved => h.slots hmoved _
    · trivial
  · have hslots : (x.moved || !o.quiet) = false →
        ∀ idx, (m'.tz.finger idx).exist = exist idx := fun hstill idx => by
      obtain ⟨hmoved, hquiet⟩ := by simpa using hstill
      rw [heff.finger, fingerAfter_of_quiet hquiet]
      exact h.slots hmoved idx
    have hvdev := heff.vdev
    cases o with
    | store v a =>
      cases v with
      | challenge =>
        obtain ⟨-, rfl⟩ := by simpa [Grant.after] using hy
        exact ⟨by rw [hvdev]; rfl, by rw [hvdev]; exact h.secureUserId,
          fun hmoved => hslots (by simp [Op.quiet, show x.moved = false from hmoved])⟩
      | secureUserId =>
        simp only [Grant.after] at hy
        split at hy <;> cases hy
        exact ⟨by rw [hvdev]; exact h.challenge, by rw [hvdev]; rfl,
          fun hmoved => hslots (by simp [Op.quiet, show x.moved = false from hmoved])⟩
      | _ =>
        cases hy
        exact ⟨by rw [hvdev]; exact h.challenge, by rw [hvdev]; exact h.secureUserId, hslots⟩
    | clearDevice =>
      obtain ⟨-, rfl⟩ := by simpa [Grant.after] using hy
      exact ⟨by rw [hvdev]; rfl, by rw [hvdev]; rfl, by rintro ⟨⟩⟩
    | _ =>
      cases hy
      exact ⟨by rw [hvdev]; exact h.challenge, by rw [hvdev]; exact h.secureUserId, hslots⟩

/-- Entering a procedure changes nothing. -/
theorem grants_enter {c : Call} (h : Grants exist x m)
    (hy : x.after hat exist (.enter c) = some y) : Grants exist y m := by
  cases c with
  | vcsStartEnroll timeout =>
    simp only [Grant.after] at hy
    split at hy <;> cases hy
    exact ⟨h.challenge, h.secureUserId, h.slots⟩
  | _ =>
    cases hy
    exact h

end refines

/-- The stages of a call with a token. -/
theorem grant_of_stage {h : HwAuthToken} {exist : ℤ → Bool} {x y : Grant}
    (hx : x.started = false) {es : List HalEvent}
    (hy : (grantProtocol (some h) exist).stage x es = some y) :
    y.challenge = x.challenge ∧ y.started = es.any startsEnroll ∧
      (y.started = true → startable (some h) exist x) ∧
      (y.secureUserId ≠ x.secureUserId →
        h.challenge = x.challenge ∧ y.secureUserId = h.userId) := by
  induction es generalizing y with
  | nil =>
    obtain rfl : x = y := by simpa [Protocol.stage] using hy
    simp [hx]
  | cons e es ih =>
    obtain ⟨z, hz, hy⟩ := Option.bind_eq_some_iff.mp hy
    obtain ⟨hchallenge, hstarted, hstart, hsecure⟩ := ih hz
    rw [List.any_cons, ← hstarted]
    cases e with
    | op o r =>
      cases o with
      | store v a =>
        cases v with
        | challenge => simp [Grant.after] at hy
        | secureUserId =>
          obtain ⟨⟨h₁, h₂⟩, rfl⟩ := by simpa [Grant.after] using hy
          exact ⟨hchallenge, by simp [startsEnroll], hstart, fun _ => ⟨h₁.trans hchallenge, h₂⟩⟩
        | _ =>
          cases hy
          exact ⟨hchallenge, by simp [startsEnroll], hstart, hsecure⟩
      | clearDevice => simp [Grant.after] at hy
      | _ =>
        cases hy
        exact ⟨hchallenge, by simp [startsEnroll], hstart, hsecure⟩
    | enter c =>
      cases c with
      | vcsStartEnroll timeout =>
        simp only [grantProtocol_next, Grant.after] at hy
        split at hy <;> cases hy
        rename_i hstartable
        refine ⟨hchallenge, rfl, fun _ => ?_, hsecure⟩
        rw [startable_some, hchallenge] at hstartable
        exact startable_some.mpr hstartable
      | _ =>
        cases hy
        exact ⟨hchallenge, by simp [startsEnroll], hstart, hsecure⟩
    | done c r => cases hy

/-! ## Every run -/

section run

variable {fin : Tid → Bool} {t : Tid} {chs : List Choice} {m m' : Mem} {es : List HalEvent}

/-- The device of a memory, before a call. -/
def grantOf (m : Mem) : Grant := ⟨m.vdev.challenge, m.vdev.secureUserId, false, false⟩

/-- A call that runs alone takes the device along the protocol. -/
theorem grant_alone {α : Type} {hat : Option HwAuthToken} {p q : Code α}
    {Q : α → Grant → Prop} (h : hal.solo fin t chs p m = some (es, q, m'))
    (hp : (grantProtocol hat fun idx => (m.tz.finger idx).exist).Follows fine p Q (grantOf m)) :
    ∃ y, (grantProtocol hat fun idx => (m.tz.finger idx).exist).stage (grantOf m) es.reverse =
        some y ∧ (grantProtocol hat fun idx => (m.tz.finger idx).exist).Follows fine q Q y ∧
      m'.vdev.challenge = y.challenge ∧ m'.vdev.secureUserId = y.secureUserId := by
  obtain ⟨y, hy, hQ, hm'⟩ := hp.alone (J := Grants _) (X := fun _ => True) (fun _ => rfl)
    grantProtocol_valid (fun x m o ch r m' hm hact _ => grants_act hm hact)
    (fun x m c hm => ⟨trivial, fun y hy => grants_enter hm hy⟩) ⟨rfl, rfl, fun _ _ => rfl⟩
    (fun _ _ => trivial) h
  exact ⟨y, hy, hQ, hm'.challenge, hm'.secureUserId⟩

/-- What is known of the challenge between the calls of a run. -/
def Current (m : Mem) (live : List UInt64) : Prop :=
  (live = [] → m.vdev.challenge = 0) ∧ (live ≠ [] → m.vdev.challenge ∈ live)

/-- The challenge that is live after a call is that of the device. -/
theorem current_after {c : Call} (hc : enrollCall c = true) {live : List UInt64} {r : Ret c}
    (hm : Current m live) (h : hal.solo fin t chs (body c) m = some (es, .ret r, m')) :
    Current m' (liveAfter live c (.ret r)) := by
  cases c with
  | fingerprintOpen =>
    obtain ⟨y, -, hQ, hchallenge, -⟩ := grant_alone h (grant_open _)
    have hchallenge := hchallenge.trans hQ
    by_cases hr : r = -enomem
    · rw [if_pos hr] at hchallenge
      simpa [Current, liveAfter, hr, hchallenge, grantOf] using hm
    · rw [if_neg hr] at hchallenge
      simp [Current, liveAfter, hr, hchallenge]
  | fingerprintPreEnroll =>
    obtain ⟨y, -, hQ, hchallenge, -⟩ := grant_alone h (grant_preEnroll _)
    simp [Current, liveAfter, hchallenge.trans hQ]
  | fingerprintPostEnroll =>
    obtain ⟨y, -, hQ, hchallenge, -⟩ := grant_alone h (grant_postEnroll _)
    simp [Current, liveAfter, hchallenge.trans hQ]
  | fingerprintEnroll hat timeout =>
    cases hat with
    | none =>
      obtain ⟨-, -, rfl⟩ := Machine.does_ret.mp (Machine.does_of_solo h)
      exact hm
    | some hat =>
      obtain ⟨y, hy, -, hchallenge, -⟩ := grant_alone (p := fingerprintEnroll (some hat) timeout) h
        (grant_enroll rfl rfl)
      have hchallenge := hchallenge.trans (grant_of_stage rfl hy).1
      simpa [Current, liveAfter, hchallenge, grantOf] using hm
  | _ => cases hc

/-- **One call** is authorized if it is guarded, and only then if it gets to its end. -/
theorem authorized_call {h : HwAuthToken} {timeout : UInt32} {live : List UInt64}
    {code : Code CInt} (hm : Current m live)
    (hrun : hal.solo fin t chs (fingerprintEnroll (some h) timeout) m = some (es, code, m')) :
    (Guarded m live h → es.any startsEnroll = true ∨
        m'.vdev.secureUserId ≠ m.vdev.secureUserId →
      h.version = hwAuthTokenVersion ∧ h.challenge ∈ live) ∧
    (code.finished = true → (es.any startsEnroll = true ∨
        m'.vdev.secureUserId ≠ m.vdev.secureUserId →
      h.version = hwAuthTokenVersion ∧ h.challenge ∈ live) → Guarded m live h) := by
  obtain ⟨y, hy, hQ, -, hsecure⟩ := grant_alone hrun (grant_enroll rfl rfl)
  obtain ⟨-, hstarted, hstart, hchanged⟩ := grant_of_stage rfl hy
  rw [List.any_reverse] at hstarted
  rw [← hstarted, hsecure]
  have hlive : live ≠ [] → m.vdev.challenge ∈ live := hm.2
  constructor
  · intro hguard hdone
    by_cases hmatch : h.challenge = m.vdev.challenge
    · by_cases hnone : live = []
      · -- no challenge is live, and the device has 0
        obtain ⟨huser, hfull⟩ := hguard.issued hmatch hnone
        obtain hdone | hdone := hdone
        · obtain ⟨hversion, -, hfree⟩ := startable_some.mp (hstart hdone)
          exact absurd (hfull hversion) hfree
        · exact absurd ((hchanged hdone).2.trans huser) hdone
      · refine ⟨?_, hmatch ▸ hlive hnone⟩
        obtain hdone | hdone := hdone
        · exact (startable_some.mp (hstart hdone)).1
        · exact hguard.version hmatch ((hchanged hdone).2 ▸ hdone)
    · obtain hdone | hdone := hdone
      · obtain ⟨hversion, hpass, hfree⟩ := startable_some.mp (hstart hdone)
        refine ⟨hversion, ?_⟩
        by_contra hdead
        exact hfree (hguard.bypass hmatch hdead hversion (hpass.resolve_left hmatch))
      · exact absurd (hchanged hdone).1 hmatch
  · intro hcode hauth
    obtain ⟨r, rfl⟩ : ∃ r, code = .ret r := by
      cases code with
      | ret r => exact ⟨r, rfl⟩
      | _ => cases hcode
    obtain ⟨hstart, huser⟩ := hQ
    have huser := huser h rfl
    refine ⟨fun hmatch hne => ?_, fun hmatch hnone => ?_, fun hmatch hdead hversion hbit => ?_⟩
    · exact (hauth (.inr (by rw [huser hmatch]; exact hne))).1
    · have hdead : ¬ (y.started = true ∨ y.secureUserId ≠ m.vdev.secureUserId) := by
        intro hdone
        have hin := (hauth hdone).2
        rw [hnone] at hin
        cases hin
      refine ⟨?_, fun hversion => ?_⟩
      · by_contra hne
        exact hdead (.inr (by rw [huser hmatch]; exact hne))
      · by_contra hfree
        exact hdead (.inl (hstart.mpr (startable_some.mpr ⟨hversion, .inl hmatch, hfree⟩)))
    · by_contra hfree
      exact hdead (hauth (.inl (hstart.mpr (startable_some.mpr ⟨hversion, .inr hbit, hfree⟩)))).2

/-- The condition on a call of a run. -/
def Ran.Guarded (d : Ran) : Prop :=
  ∀ h timeout, d.call = .fingerprintEnroll (some h) timeout → Analysis.Guarded d.before d.live h

/-- What a run knows before each of its calls. -/
theorem Run.current {live : List UInt64} {ds : List Ran} (hm : Current m live)
    (h : Run m live ds) : ∀ d ∈ ds, Current d.before d.live := by
  induction ds generalizing m live with
  | nil => simp
  | cons d ds ih =>
    obtain ⟨hfrom, hfinished, hrest⟩ := h
    have hbefore : Current d.before d.live := by
      rw [hfrom.live]
      simpa only [Current, hfrom.before] using hm
    refine List.forall_mem_cons.mpr ⟨hbefore, ?_⟩
    by_cases hds : ds = []
    · simp [hds]
    · obtain ⟨fin, t, chs, hrun⟩ := hfrom.runs
      have hfinished := hfinished hds
      rw [← hfrom.live] at hrest
      obtain ⟨c, before, live, events, code, after⟩ := d
      obtain ⟨r, rfl⟩ : ∃ r, code = .ret r := by
        cases code with
        | ret r => exact ⟨r, rfl⟩
        | _ => cases hfinished
      exact ih (current_after hfrom.call hbefore hrun) hrest

/-- Every call of a run is made from some memory. -/
theorem Run.from {live : List UInt64} {ds : List Ran} (h : Run m live ds) :
    ∀ d ∈ ds, ∃ m live, d.From m live := by
  induction ds generalizing m live with
  | nil => simp
  | cons d ds ih => exact List.forall_mem_cons.mpr ⟨⟨_, _, h.1⟩, ih h.2.2⟩

/-- **Every run.** From a device without a challenge, each call of a run is authorized if its
token is guarded, and, if it gets to its end, only then. -/
theorem authorized_iff {ds : List Ran} (hm : m.vdev.challenge = 0) (h : Run m [] ds) :
    ∀ d ∈ ds, (d.Guarded → d.Authorized) ∧
      (d.code.finished = true → d.Authorized → d.Guarded) := by
  intro d hd
  have hcurrent := h.current ⟨fun _ => hm, fun h => absurd rfl h⟩ d hd
  obtain ⟨_, _, hfrom⟩ := h.from d hd
  obtain ⟨fin, t, chs, hrun⟩ := hfrom.runs
  obtain ⟨c, before, live, events, code, after⟩ := d
  constructor
  · rintro hguard (_ | hat) timeout rfl hdone
    · -- without a token the call is over at once
      obtain ⟨rfl, rfl⟩ : events = [] ∧ after = before := by
        cases chs with
        | nil =>
          obtain ⟨rfl, -, rfl⟩ := by simpa [Machine.solo] using hrun
          exact ⟨rfl, rfl⟩
        | cons ch chs => cases hrun
      simp at hdone
    · exact ⟨hat, rfl, (authorized_call hcurrent hrun).1 (hguard hat timeout rfl) hdone⟩
  · rintro hfinished hauth hat timeout rfl
    refine (authorized_call hcurrent hrun).2 hfinished fun hdone => ?_
    obtain ⟨_, ⟨⟩, h⟩ := hauth (some hat) timeout rfl hdone
    exact h

end run

/-- A token that carries this challenge. -/
def tokenFor (challenge : UInt64) : HwAuthToken :=
  ⟨hwAuthTokenVersion, challenge, 10, 0, hwAuthFingerprint, 0⟩

/-- A token for the device's challenge starts an enrollment when a slot is free. -/
theorem tokenFor_starts {c : UInt64} {m : Mem} (hc : m.vdev.challenge = c)
    (hlock : m.locks .vdevLock = none) (hfree : (m.tz.finger 1).exist = false) :
    ∃ es p m', hal.solo (fun _ => false) 1 (List.replicate 7 .tick)
      (fingerprintEnroll (some (tokenFor c)) 0) m = some (es, p, m') ∧
      es.any startsEnroll = true := by
  simp [Machine.solo, Machine.stepFine, List.replicate, fingerprintEnroll, findFreeSlot,
    firstFreeSlot, load, store, op, call, Prog.perform, Prog.invoke, act, Mem.get, Mem.set, tokenFor, maxNumFingers, hc,
    hlock, hfree, Prog.pure_eq_ret, startsEnroll, Mem.setLock]

/-- A challenge is issued, and a token that carries it starts an enrollment. -/
theorem authorized_iff_issued : ∃ d₁ d₂, Run Mem.zero [] [d₁, d₂] ∧
    d₁.call = .fingerprintPreEnroll ∧ d₂.events.any startsEnroll = true ∧ d₂.Authorized := by
  obtain ⟨es₁, c, m₁, h₁, hc, hlock, hfree⟩ : ∃ es c m, hal.solo (fun _ => false) 1
      (List.replicate 5 .tick) fingerprintPreEnroll Mem.zero = some (es, .ret c, m) ∧
      m.vdev.challenge = c ∧ m.locks .vdevLock = none ∧ (m.tz.finger 1).exist = false :=
    ⟨_, _, _, rfl, rfl, rfl, rfl⟩
  obtain ⟨es₂, p, m₂, h₂, hstarts⟩ := tokenFor_starts hc hlock hfree
  let d₁ : Ran := ⟨.fingerprintPreEnroll, Mem.zero, [], es₁, .ret c, m₁⟩
  let d₂ : Ran := ⟨.fingerprintEnroll (some (tokenFor c)) 0, m₁, [c], es₂, p, m₂⟩
  have hrun : Run Mem.zero [] [d₁, d₂] :=
    ⟨⟨rfl, rfl, rfl, _, _, _, h₁⟩, fun _ => rfl, ⟨rfl, rfl, rfl, _, _, _, h₂⟩, nofun, trivial⟩
  refine ⟨d₁, d₂, hrun, rfl, hstarts, (authorized_iff rfl hrun d₂ (by simp)).1 ?_⟩
  rintro h timeout heq
  obtain ⟨rfl, -⟩ : tokenFor c = h ∧ _ := by simpa [d₂] using heq
  refine ⟨fun _ _ => rfl, fun _ h => ?_, fun hne => ?_⟩
  · cases h
  · exact absurd hc.symm hne

/-- **A token nobody asked for.** No challenge has been issued; a token for another challenge than
the device's, with the fingerprint bit set, starts an enrollment. -/
theorem unissued_token : ∃ d, Run Mem.zero [] [d] ∧
    d.call = .fingerprintEnroll (some (tokenFor 7)) 60 ∧ d.live = [] ∧
    d.events.any startsEnroll = true ∧ ¬ d.Authorized := by
  obtain ⟨es, p, m, h, hstarts⟩ : ∃ es p m, hal.solo (fun _ => false) 1 (List.replicate 6 .tick)
      (fingerprintEnroll (some (tokenFor 7)) 60) Mem.zero = some (es, p, m) ∧
      es.any startsEnroll = true := ⟨_, _, _, rfl, rfl⟩
  refine ⟨⟨.fingerprintEnroll (some (tokenFor 7)) 60, Mem.zero, [], es, p, m⟩,
    ⟨⟨rfl, rfl, rfl, _, _, _, h⟩, nofun, trivial⟩, rfl, rfl, hstarts, fun hauth => ?_⟩
  obtain ⟨_, -, -, hlive⟩ := hauth _ _ rfl (.inl hstarts)
  cases hlive

end KlteCommon.Analysis

import KlteCommon.Camera.Wrapper
import Mathlib.Data.List.Basic
import Mathlib.Data.List.Induction

/-!
# Whose callbacks are called

The wrapper gives every vendor device its own four callbacks and keeps the user's in process-wide
variables. An event of a camera is to reach the callback, with the pointer, that was registered last
through that camera's device.

The ladder: what is called for an event is what was registered last through any device
(`user_register`, `raise_eq`), whatever pointer the vendor device hands back; so an event of a camera
goes where it should exactly when that is the callback and pointer of that camera (`routed_iff`).
With two cameras it goes to the wrong one (`other_camera`).
-/

set_option autoImplicit false

namespace KlteCommon.Analysis

open KlteCommon.Camera

variable {Text : Type}

/-! ## Events -/

/-- An event of a vendor device, with its arguments. -/
inductive VendorEvent
  | notify (args : CInt × CInt × CInt)
  | data (args : CInt × ℕ × UInt32 × ℕ)
  | dataTimestamp (args : Int64 × CInt × ℕ × UInt32)
  | getMemory (args : CInt × ℕ × UInt32)
  deriving DecidableEq

/-- The arguments of an invocation are those of an event. -/
def forEvent {Args : Type} (event : Args → VendorEvent) (c : Invocation Args) :
    Invocation VendorEvent :=
  ⟨c.callback, event c.args, c.user⟩

namespace VendorEvent

/-- What the wrapper calls when a vendor device raises an event with pointer `user`. -/
def raise (s : Wrapper Text) (user : ℕ) : VendorEvent → Invocation VendorEvent
  | notify args => forEvent notify (cameraNotifyCb s args user)
  | data args => forEvent data (cameraDataCb s args user)
  | dataTimestamp args => forEvent dataTimestamp (cameraDataCbTimestamp s args user)
  | getMemory args => forEvent getMemory (cameraGetMemory s args user)

/-- The callback for an event. -/
def callback (callbacks : UserCallbacks) : VendorEvent → ℕ
  | notify _ => callbacks.notifyCb
  | data _ => callbacks.dataCb
  | dataTimestamp _ => callbacks.dataCbTimestamp
  | getMemory _ => callbacks.getMemory

/-- What an event is to call. -/
def routed (callbacks : UserCallbacks) (e : VendorEvent) : Invocation VendorEvent :=
  ⟨e.callback callbacks, e, callbacks.cameraDevice⟩

/-- An event calls what the process-wide variables hold. -/
theorem raise_eq (s : Wrapper Text) (user : ℕ) (e : VendorEvent) :
    e.raise s user = e.routed s.user := by
  cases e <;> rfl

/-- Two registrations lead to the same call exactly when they agree on the callback for the event
and on the pointer. -/
theorem routed_eq_iff (callbacks callbacks' : UserCallbacks) (e : VendorEvent) :
    e.routed callbacks = e.routed callbacks' ↔
      e.callback callbacks = e.callback callbacks' ∧
        callbacks.cameraDevice = callbacks'.cameraDevice := by
  simp [routed]

end VendorEvent

/-! ## Registrations -/

/-- Callbacks that are registered through the device of camera `id`. -/
structure Registration where
  id : ℤ
  callbacks : UserCallbacks

/-- A sequence of registrations. -/
def register (s : Wrapper Text) (rs : List Registration) : Wrapper Text :=
  rs.foldl (fun s r => cameraSetCallbacks (some ⟨r.id⟩) r.callbacks s) s

/-- What was registered last through a camera's device. -/
def lastThrough (i : ℤ) (rs : List Registration) : Option UserCallbacks :=
  (rs.reverse.find? fun r => r.id == i).map (·.callbacks)

/-- The pointer the wrapper gave last to a camera's vendor device. -/
def pointerGiven (i : ℤ) : List (VendorCall Text) → Option ℕ
  | [] => none
  | .setCallbacks j user :: calls => if j = i then some user else pointerGiven i calls
  | _ :: calls => pointerGiven i calls

/-- Without registrations nothing changes. -/
@[simp] theorem register_nil (s : Wrapper Text) : register s [] = s := rfl

/-- The last registration is made last. -/
@[simp] theorem register_concat (s : Wrapper Text) (rs : List Registration) (r : Registration) :
    register s (rs ++ [r]) = cameraSetCallbacks (some ⟨r.id⟩) r.callbacks (register s rs) := by
  simp [register]

/-- The last registration through a device. -/
@[simp] theorem lastThrough_concat (i : ℤ) (rs : List Registration) (r : Registration) :
    lastThrough i (rs ++ [r]) = if r.id = i then some r.callbacks else lastThrough i rs := by
  by_cases h : r.id = i <;> simp [lastThrough, h]

/-- The process-wide variables hold what was registered last of all. -/
theorem user_register (s : Wrapper Text) (rs : List Registration) (r : Registration) :
    (register s (rs ++ [r])).user = r.callbacks := by
  simp [cameraSetCallbacks, Wrapper.vendorCall]

/-- Every vendor device got the pointer that was registered last through its own camera. -/
theorem pointerGiven_register (s : Wrapper Text) (i : ℤ) (rs : List Registration)
    (callbacks : UserCallbacks) (h : lastThrough i rs = some callbacks) :
    pointerGiven i (register s rs).vendorCalls = some callbacks.cameraDevice := by
  induction rs using List.reverseRecOn with
  | nil => cases h
  | append_singleton rs r ih =>
    simp only [register_concat, cameraSetCallbacks, Wrapper.vendorCall, pointerGiven]
    rw [lastThrough_concat] at h
    split at h
    next hid =>
      cases h
      exact if_pos hid
    next hid =>
      rw [if_neg hid]
      exact ih h

/-- **An event of a camera reaches the callback and pointer registered last through that camera's
device exactly when the last registration of all has the same callback and pointer.** The vendor
device hands back the pointer it was given. -/
theorem routed_iff (s : Wrapper Text) (i : ℤ) (rs : List Registration) (callbacks : UserCallbacks)
    (h : lastThrough i rs = some callbacks) (e : VendorEvent) :
    (∃ user, pointerGiven i (register s rs).vendorCalls = some user ∧
      e.raise (register s rs) user = e.routed callbacks) ↔
      ∃ r ∈ rs.getLast?, e.callback r.callbacks = e.callback callbacks ∧
        r.callbacks.cameraDevice = callbacks.cameraDevice := by
  have hgiven := pointerGiven_register s i rs callbacks h
  obtain rfl | ⟨rs, r, rfl⟩ := rs.eq_nil_or_concat'
  · cases h
  · simp only [VendorEvent.raise_eq, user_register, VendorEvent.routed_eq_iff, hgiven,
      List.getLast?_append, List.getLast?_singleton, Option.some_or, Option.mem_some_iff,
      Option.some.injEq, exists_eq_left']

/-- Registrations through two cameras, the second last. -/
def twoRegistrations : List Registration := [⟨0, ⟨10, 11, 12, 13, 14⟩⟩, ⟨1, ⟨20, 21, 22, 23, 24⟩⟩]

/-- Its own event reaches it. -/
theorem routed_second :
    ∃ user, pointerGiven 1 (register (.zero : Wrapper Unit) twoRegistrations).vendorCalls = some user ∧
      (VendorEvent.notify (1, 2, 3)).raise (register (.zero : Wrapper Unit) twoRegistrations) user =
        (VendorEvent.notify (1, 2, 3)).routed ⟨20, 21, 22, 23, 24⟩ :=
  (routed_iff .zero 1 twoRegistrations ⟨20, 21, 22, 23, 24⟩ rfl (.notify (1, 2, 3))).mpr
    ⟨⟨1, ⟨20, 21, 22, 23, 24⟩⟩, rfl, rfl, rfl⟩

/-- **So does the event of the other camera, whose device was given another pointer.** -/
theorem other_camera :
    lastThrough 0 twoRegistrations = some ⟨10, 11, 12, 13, 14⟩ ∧
      pointerGiven 0 (register (.zero : Wrapper Unit) twoRegistrations).vendorCalls = some 14 ∧
      (VendorEvent.notify (1, 2, 3)).raise (register (.zero : Wrapper Unit) twoRegistrations) 14 =
        (VendorEvent.notify (1, 2, 3)).routed ⟨20, 21, 22, 23, 24⟩ ∧
      (VendorEvent.notify (1, 2, 3)).routed ⟨20, 21, 22, 23, 24⟩ ≠
        (VendorEvent.notify (1, 2, 3)).routed ⟨10, 11, 12, 13, 14⟩ := by
  decide

end KlteCommon.Analysis

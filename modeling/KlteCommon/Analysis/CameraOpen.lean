import KlteCommon.Analysis.CameraParameters
import Mathlib.Logic.Relation

/-!
# Opening a camera

`camera_device_open` takes the camera's number from a string, checks it against the number of cameras
and uses it as an index from then on. It acquires a table, a device, the vendor's device and a table of
functions, in this order, and has one label to give them back.

The ladder: what a call that succeeds was given (`open_ok`), and what it leaves when it fails, by the
place of the failure (`openFails_iff`); so the number is an index exactly if it is not negative and not
the number of cameras itself (`idSafe_iff`), and a failure is unwound exactly if it comes before the
table is replaced by another one or the vendor's device is opened (`unwound_iff`).
-/

set_option autoImplicit false

namespace KlteCommon.Analysis

open KlteCommon.Camera

variable {Text : Type}

/-! ## What is observed -/

/-- A call of the wrapper, with any device and any outcome. -/
inductive WrapperStep (T : ParameterText Text) (v : VendorModule) : Wrapper Text → Wrapper Text → Prop
  | open (o : OpenOutcome) (name : Option String) (old : Option WrapperCameraDevice)
      (s : Wrapper Text) : WrapperStep T v s (cameraDeviceOpen v o name old s).2.2
  | setParameters (ret r : CInt) (device : Option WrapperCameraDevice) (params : Text)
      (s s' : Wrapper Text) (h : cameraSetParameters T ret device params s = .ok (r, s')) :
      WrapperStep T v s s'
  | startRecording (getVideoSize : Parameters → CInt × CInt) (params : Text) (set ret r : CInt)
      (device : Option WrapperCameraDevice) (s s' : Wrapper Text)
      (h : cameraStartRecording T getVideoSize params set ret device s = .ok (r, s')) :
      WrapperStep T v s s'
  | setCallbacks (device : Option WrapperCameraDevice) (callbacks : UserCallbacks)
      (s : Wrapper Text) : WrapperStep T v s (cameraSetCallbacks device callbacks s)
  | close (r : CInt) (device : Option WrapperCameraDevice) (s s' : Wrapper Text)
      (h : cameraDeviceClose v device s = .ok (r, s')) : WrapperStep T v s s'

/-- A device that is returned for a name has the number of a camera, and at any later time its entry
lies in the table. -/
def IdSafe (T : ParameterText Text) (v : VendorModule) (o : OpenOutcome) (name : Option String)
    (old : Option WrapperCameraDevice) (s : Wrapper Text) : Prop :=
  ∀ d s', name ≠ none → cameraDeviceOpen v o name old s = (0, some d, s') →
    (0 ≤ d.id ∧ d.id < v.numCameras) ∧
      ∀ s'', Relation.ReflTransGen (WrapperStep T v) s' s'' → s''.entry d.id ≠ .error .outOfBounds

/-- The vendor's module is there. -/
def loads (v : VendorModule) (s : Wrapper Text) : Prop := s.vendorModule = true ∨ v.load = 0

instance (v : VendorModule) (s : Wrapper Text) : Decidable (loads v s) :=
  inferInstanceAs (Decidable (_ ∨ _))

/-- The condition: if nothing else fails, the number in the name is not negative and not the number of
cameras. -/
def numberFits (v : VendorModule) (o : OpenOutcome) (name : Option String) (s : Wrapper Text) : Prop :=
  ∀ n, name = some n → loads v s → o.table = true → o.device = true → o.vendorOpen = 0 →
    o.ops = true → atoi n ≤ v.numCameras → 0 ≤ atoi n ∧ atoi n ≠ v.numCameras

/-- A call that fails returns no device, leaves no device of the vendor open and the table as it was. -/
def Unwound (v : VendorModule) (o : OpenOutcome) (name : Option String)
    (old : Option WrapperCameraDevice) (s : Wrapper Text) : Prop :=
  (cameraDeviceOpen v o name old s).1 ≠ 0 →
    (cameraDeviceOpen v o name old s).2.1 = none ∧
    (∃ added, (cameraDeviceOpen v o name old s).2.2.vendorCalls = added ++ s.vendorCalls ∧
      ∀ i, isOpen i added = false) ∧
    (cameraDeviceOpen v o name old s).2.2.fixedSetParams = s.fixedSetParams

/-- The condition: without the vendor's module there was no device before, without memory for the table
there was none before, and a later failure finds a table that remembers nothing and is not the one
behind the vendor's open. -/
def failsEarly (v : VendorModule) (o : OpenOutcome) (name : Option String)
    (old : Option WrapperCameraDevice) (s : Wrapper Text) : Prop :=
  ∀ n, name = some n →
    if ¬ loads v s then old = none
    else if o.table = false then s.fixedSetParams = none
    else if atoi n ≤ v.numCameras ∧ o.device = true ∧ o.vendorOpen = 0 then o.ops = true
    else s.fixedSetParams = some (List.replicate v.numCameras.toNat none)

/-! ## Opening -/

section

variable {v : VendorModule} {o : OpenOutcome} {name : Option String} {n : String}
  {old : Option WrapperCameraDevice} {d : WrapperCameraDevice} {s s' : Wrapper Text}
  {T : ParameterText Text}

/-- The vendor's module is loaded. -/
theorem checkVendorModule_of_loads (h : loads v s) :
    checkVendorModule v s = (0, { s with vendorModule := true }) := by
  unfold checkVendorModule
  split
  · rename_i hmodule
    rw [← hmodule]
  · rename_i hmodule
    have hload : v.load = 0 := h.resolve_left hmodule
    simp [hload]

/-- The vendor's module cannot be loaded, and nothing changes. -/
theorem checkVendorModule_of_not_loads (h : ¬ loads v s) : (checkVendorModule v s).1 ≠ 0 ∧
    (checkVendorModule v s).2 = s := by
  obtain ⟨hmodule, hload⟩ := not_or.mp h
  obtain ⟨vendorModule, user, fixedSetParams, strings, vendorCalls⟩ := s
  obtain rfl : vendorModule = false := by simpa using hmodule
  simp [checkVendorModule, hload]

/-- What a call was given that returns 0 and a device. -/
theorem open_ok (h : cameraDeviceOpen v o (some n) old s = (0, some d, s')) :
    loads v s ∧ o.table = true ∧ o.device = true ∧ o.vendorOpen = 0 ∧ o.ops = true ∧
      atoi n ≤ v.numCameras ∧ d = ⟨atoi n⟩ ∧
      s'.fixedSetParams = some (List.replicate v.numCameras.toNat none) := by
  by_cases hloads : loads v s
  · simp only [cameraDeviceOpen, checkVendorModule_of_loads hloads] at h
    obtain ⟨table, device, vendorOpen, ops⟩ := o
    cases table <;> cases device <;> cases ops <;> by_cases hopen : vendorOpen = 0 <;>
      by_cases hnumber : v.numCameras < atoi n <;>
      simp [hopen, hnumber, enomem, einval, Wrapper.vendorCall] at h
    obtain ⟨rfl, rfl⟩ := h
    exact ⟨hloads, rfl, rfl, hopen, rfl, Int.not_lt.mp hnumber, rfl, rfl⟩
  · simp [cameraDeviceOpen, checkVendorModule_of_not_loads hloads, einval] at h

/-- Such a call returns the device. -/
theorem open_of (old : Option WrapperCameraDevice) (hloads : loads v s) (htable : o.table = true)
    (hdevice : o.device = true) (hopen : o.vendorOpen = 0) (hops : o.ops = true) (hnumber : atoi n ≤ v.numCameras) :
    ∃ s', cameraDeviceOpen v o (some n) old s = (0, some ⟨atoi n⟩, s') ∧
      s'.fixedSetParams = some (List.replicate v.numCameras.toNat none) := by
  have hnot : ¬ v.numCameras < atoi n := Int.not_lt.mpr hnumber
  simp [cameraDeviceOpen, checkVendorModule_of_loads hloads, htable, hdevice, hopen, hops, hnot,
    Wrapper.vendorCall]

/-! ## The table -/

/-- The table, if there is one, has an entry for every camera. -/
def Sized (v : VendorModule) (s : Wrapper Text) : Prop :=
  ∀ table, s.fixedSetParams = some table → table.length = v.numCameras.toNat

/-- Only the table matters. -/
theorem Sized.congr (h : Sized v s) (heq : s'.fixedSetParams = s.fixedSetParams) : Sized v s' := by
  rw [Sized, heq]
  exact h

/-- An entry of a camera lies in the table. -/
theorem Sized.inside (h : Sized v s) {i : ℤ} (hi : 0 ≤ i ∧ i < v.numCameras) :
    s.entry i ≠ .error .outOfBounds := by
  cases htable : s.fixedSetParams with
  | none => simp [Wrapper.entry, htable]
  | some table =>
    have hlength := h table htable
    rw [entry_of_table htable hi.1 (by omega)]
    rintro ⟨⟩

/-- An open leaves a table with one entry for each camera, or none. -/
theorem sized_open (h : Sized v s) : Sized v (cameraDeviceOpen v o name old s).2.2 := by
  cases name with
  | none => exact h
  | some n =>
    by_cases hloads : loads v s
    · simp only [cameraDeviceOpen, checkVendorModule_of_loads hloads, Sized]
      repeat' split
      all_goals
        intro table htable
        first | exact h table htable | cases htable; done | (cases htable; exact List.length_replicate)
    · simp only [cameraDeviceOpen, (checkVendorModule_of_not_loads hloads).1, ne_eq, not_false_eq_true,
        if_true, (checkVendorModule_of_not_loads hloads).2]
      exact h

/-- Closing frees strings. -/
theorem freeEntries_ok {k : ℕ} {i : ℤ} (h : freeEntries k i s = .ok s') :
    ∃ strings, s' = { s with strings } := by
  induction k generalizing i s with
  | zero =>
    cases h
    exact ⟨_, rfl⟩
  | succ k ih =>
    obtain ⟨s₁, hfree, h⟩ := ok_of_bind h
    obtain ⟨strings, rfl⟩ := freeEntry_ok hfree
    obtain ⟨strings', rfl⟩ := ih h
    exact ⟨strings', rfl⟩

/-- Asking for the number of cameras leaves the table. -/
theorem numberOfCameras_table :
    (cameraGetNumberOfCameras v s).2.fixedSetParams = s.fixedSetParams := by
  unfold cameraGetNumberOfCameras checkVendorModule
  cases s.vendorModule <;> simp only [if_true, Bool.false_eq_true, if_false]
  · split <;> rfl
  · rfl

/-- **One call.** -/
theorem Sized.step (h : Sized v s) (hstep : WrapperStep T v s s') : Sized v s' := by
  have hset : ∀ {ret r : CInt} {device : Option WrapperCameraDevice} {params : Text},
      cameraSetParameters T ret device params s = .ok (r, s') → Sized v s' := by
    intro ret r device params hset
    cases device with
    | none =>
      cases hset
      exact h
    | some device =>
      obtain ⟨_, p, strings, rfl⟩ := setParameters_ok hset
      intro table htable
      obtain ⟨old, hold, rfl⟩ := Option.map_eq_some_iff.mp htable
      rw [List.length_set, h old hold]
  cases hstep with
  | «open» => exact sized_open h
  | setParameters ret r device params _ _ hset' => exact hset hset'
  | startRecording size params set ret r device _ _ hstart =>
    cases device with
    | none =>
      cases hstart
      exact h
    | some device =>
      obtain ⟨settings, -, hstart⟩ := ok_of_bind hstart
      simp only at hstart
      split at hstart
      · obtain ⟨⟨r', s₁⟩, hset', hstart⟩ := ok_of_bind hstart
        cases hstart
        exact hset hset'
      · cases hstart
        exact h
  | setCallbacks device callbacks =>
    cases device <;> exact h
  | close r device _ _ hclose =>
    cases device with
    | none =>
      cases hclose
      exact h
    | some device =>
      obtain ⟨s₁, hfree, hclose⟩ := ok_of_bind hclose
      cases hclose
      obtain ⟨strings, rfl⟩ := freeEntries_ok hfree
      exact h.congr numberOfCameras_table

/-- **Every run.** -/
theorem Sized.run (h : Sized v s) (hrun : Relation.ReflTransGen (WrapperStep T v) s s') :
    Sized v s' := by
  induction hrun with
  | refl => exact h
  | tail _ hstep ih => exact ih.step hstep

/-- **The number of a camera.** A device that is returned has a number whose entry lies in the table,
now and later, exactly if the number is not negative and not the number of cameras, or something else
fails. -/
theorem idSafe_iff : IdSafe T v o name old s ↔ numberFits v o name s := by
  constructor
  · rintro h n rfl hloads htable hdevice hopen hops hnumber
    obtain ⟨s', hs', -⟩ := open_of old hloads htable hdevice hopen hops hnumber
    obtain ⟨⟨hpos, hlt⟩, -⟩ := h ⟨atoi n⟩ s' nofun hs'
    exact ⟨hpos, Int.ne_of_lt hlt⟩
  · intro h d s' hname hopen
    obtain ⟨n, rfl⟩ := Option.ne_none_iff_exists'.mp hname
    obtain ⟨hloads, htable, hdevice, hvendor, hops, hnumber, rfl, hs'⟩ := open_ok hopen
    obtain ⟨hpos, hne⟩ := h n rfl hloads htable hdevice hvendor hops hnumber
    have hsized : Sized v s' := by
      intro table heq
      obtain rfl := Option.some.inj (hs'.symm.trans heq)
      exact List.length_replicate
    have hin : 0 ≤ atoi n ∧ atoi n < v.numCameras := ⟨hpos, by omega⟩
    exact ⟨hin, fun s'' hrun => (hsized.run hrun).inside hin⟩

/-- **One too many.** With two cameras the name of a third is accepted, whose entry lies behind the
table, and so is a negative one. -/
theorem third_of_two :
    (∃ s, cameraDeviceOpen twoCameras ⟨true, true, 0, true⟩ (some "2") none (.zero : Wrapper Parameters) =
      (0, some ⟨2⟩, s) ∧ s.entry 2 = .error .outOfBounds) ∧
    (∃ s, cameraDeviceOpen twoCameras ⟨true, true, 0, true⟩ (some "-1") none (.zero : Wrapper Parameters) =
      (0, some ⟨-1⟩, s) ∧ s.entry (-1) = .error .outOfBounds) ∧
    ¬ IdSafe textIsMap twoCameras ⟨true, true, 0, true⟩ (some "2") none .zero := by
  refine ⟨⟨_, rfl, rfl⟩, ⟨_, rfl, rfl⟩, fun h => ?_⟩
  exact absurd (h ⟨2⟩ _ nofun rfl).1.2 (by decide)

/-! ## Failures -/

/-- What is to be shown of a call that returns a code. -/
theorem unwound_of_result (rv : CInt) (device : Option WrapperCameraDevice)
    (calls : List (VendorCall Text)) (table : Option (List (Option Ptr)))
    (h : cameraDeviceOpen v o name old s =
      (rv, device, { s with
        vendorModule := true
        fixedSetParams := table
        vendorCalls := calls ++ s.vendorCalls })) :
    Unwound v o name old s ↔
      (rv ≠ 0 → device = none ∧ (∀ i, isOpen i calls = false) ∧ table = s.fixedSetParams) := by
  have hadded : (∃ added, calls ++ s.vendorCalls = added ++ s.vendorCalls ∧
      ∀ i, isOpen i added = false) ↔ ∀ i, isOpen i calls = false := by
    constructor
    · rintro ⟨added, heq, hnone⟩
      rwa [List.append_cancel_right heq]
    · exact fun hnone => ⟨calls, rfl, hnone⟩
  simp only [Unwound, h, hadded]

/-- **Failures.** A failure of an open is unwound exactly if it comes early enough. -/
theorem unwound_iff : Unwound v o name old s ↔ failsEarly v o name old s := by
  cases name with
  | none => exact iff_of_true (fun h => absurd rfl h) nofun
  | some n =>
    have hcond : failsEarly v o (some n) old s ↔
        if ¬ loads v s then old = none
        else if o.table = false then s.fixedSetParams = none
        else if atoi n ≤ v.numCameras ∧ o.device = true ∧ o.vendorOpen = 0 then o.ops = true
        else s.fixedSetParams = some (List.replicate v.numCameras.toNat none) :=
      ⟨fun h => h n rfl, fun h n' hn => by cases hn; exact h⟩
    rw [hcond]
    by_cases hloads : loads v s
    case neg =>
      simp [Unwound, cameraDeviceOpen, checkVendorModule_of_not_loads hloads, einval, hloads, isOpen]
    rw [if_neg (not_not.mpr hloads)]
    have hcheck := checkVendorModule_of_loads hloads
    have hnomem : -enomem ≠ 0 := by decide
    have hinval : -einval ≠ 0 := by decide
    have hnothing : ∀ i, isOpen i ([] : List (VendorCall Text)) = false := fun _ => rfl
    by_cases htable : o.table = false
    · -- no memory for the table
      rw [if_pos htable, unwound_of_result (-enomem) none [] none
        (by simp [cameraDeviceOpen, hcheck, htable])]
      exact ⟨fun h => (h hnomem).2.2.symm, fun h _ => ⟨rfl, hnothing, h.symm⟩⟩
    rw [if_neg htable]
    obtain htable : o.table = true := by simpa using htable
    by_cases hnumber : v.numCameras < atoi n
    · -- the number is too large
      rw [if_neg fun h => absurd h.1 (Int.not_le.mpr hnumber), unwound_of_result (-einval) none []
        (some (List.replicate v.numCameras.toNat none))
        (by simp [cameraDeviceOpen, hcheck, htable, hnumber])]
      exact ⟨fun h => (h hinval).2.2.symm, fun h _ => ⟨rfl, hnothing, h.symm⟩⟩
    by_cases hdevice : o.device = false
    · -- no memory for the device
      rw [if_neg (by simp [hdevice]), unwound_of_result (-enomem) none []
        (some (List.replicate v.numCameras.toNat none))
        (by simp [cameraDeviceOpen, hcheck, htable, hnumber, hdevice])]
      exact ⟨fun h => (h hnomem).2.2.symm, fun h _ => ⟨rfl, hnothing, h.symm⟩⟩
    obtain hdevice : o.device = true := by simpa using hdevice
    by_cases hopen : o.vendorOpen = 0
    · -- the device of the vendor is open from here on
      rw [if_pos ⟨Int.not_lt.mp hnumber, hdevice, hopen⟩]
      cases hops : o.ops with
      | false =>
        rw [unwound_of_result (-enomem) none [.open (atoi n) 0]
          (some (List.replicate v.numCameras.toNat none))
          (by simp [cameraDeviceOpen, hcheck, htable, hnumber, hdevice, hopen, hops,
            Wrapper.vendorCall])]
        refine iff_of_false (fun h => ?_) (by decide)
        have hleft := (h hnomem).2.1 (atoi n)
        simp [isOpen] at hleft
      | true =>
        rw [unwound_of_result 0 (some ⟨atoi n⟩) [.open (atoi n) 0]
          (some (List.replicate v.numCameras.toNat none))
          (by simp [cameraDeviceOpen, hcheck, htable, hnumber, hdevice, hopen, hops,
            Wrapper.vendorCall])]
        exact iff_of_true (fun h => absurd rfl h) rfl
    · -- the vendor fails
      rw [if_neg fun h => hopen h.2.2, unwound_of_result o.vendorOpen none
        [.open (atoi n) o.vendorOpen] (some (List.replicate v.numCameras.toNat none))
        (by simp [cameraDeviceOpen, hcheck, htable, hnumber, hdevice, hopen, Wrapper.vendorCall])]
      exact ⟨fun h => (h hopen).2.2.symm,
        fun h _ => ⟨rfl, fun i => by simp [isOpen, hopen], h.symm⟩⟩

/-- **Two failures.** Parameters were sent for the first of two cameras; an open of the second that the
vendor refuses makes them forgotten. One for which the last allocation fails leaves the vendor's
device open. -/
theorem failed_open :
    (∃ s p, runCalls textIsMap twoCameras .zero [.open "0" 0, .setParameters 0 noParameters] = .ok s ∧
      s.entry 0 = .ok (some p) ∧
      (cameraDeviceOpen twoCameras ⟨true, true, -5, true⟩ (some "1") none s).1 = -5 ∧
      (cameraDeviceOpen twoCameras ⟨true, true, -5, true⟩ (some "1") none s).2.2.entry 0 = .ok none ∧
      ¬ Unwound twoCameras ⟨true, true, -5, true⟩ (some "1") none s) ∧
    (cameraDeviceOpen twoCameras ⟨true, true, 0, false⟩ (some "1") none
      (.zero : Wrapper Parameters)).1 = -enomem ∧
    isOpen 1 (cameraDeviceOpen twoCameras ⟨true, true, 0, false⟩ (some "1") none
      (.zero : Wrapper Parameters)).2.2.vendorCalls = true := by
  refine ⟨⟨_, _, rfl, rfl, rfl, rfl, fun h => ?_⟩, rfl, rfl⟩
  exact absurd (h (by decide)).2.2 (by decide)

end

end KlteCommon.Analysis

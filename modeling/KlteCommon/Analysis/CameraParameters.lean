import KlteCommon.Analysis.CameraTable

/-!
# The parameters of one camera

What `camera_set_parameters` sends depends on the parameters it was given before: it reads them back
from the table, already rewritten. What `camera_get_parameters` returns may be given to
`camera_set_parameters` again, by a client or by `camera_start_recording`.

The ladder: the rewriting of a request, key by key (`fixupSetparams_eq`), leaves the flash mode that is
read back (`isTorch_fixup`); so every call of a sequence sends what this request and the last one ask
for (`sent_run`). The rewriting of what is read, key by key (`fixupGetparams_apply`), repeats itself
only for the sizes of videos (`idempotent_iff`); without sizes to repeat, no number of reads and writes
changes either list (`Cycle.run`).
-/

set_option autoImplicit false

namespace KlteCommon.Analysis

open KlteCommon.Camera

variable {Text : Type}

/-! ## One key -/

section keys

variable {params : Parameters} {key key' value : String}

/-- A parameter that was set. -/
@[simp] theorem set_apply : params.set key value key' = if key' = key then some value else params key' :=
  Function.update_apply ..

/-- Reading a parameter depends on that parameter only. -/
theorem get_congr {params' : Parameters} (h : params' key = params key) :
    params'.get key = params.get key := by
  rw [Parameters.get, Parameters.get, h]

/-- So does the torch. -/
theorem isTorch_congr {params' : Parameters} (h : params' keyFlashMode = params keyFlashMode) :
    isTorch params' = isTorch params := by
  rw [isTorch, isTorch, get_congr h]

end keys

/-! ## What is sent -/

/-- What is to be sent for a request behind a previous one, key by key. -/
def sentParameters (id : ℤ) (previous : Option Parameters) (request : Parameters) : Parameters :=
  fun key =>
    let forced := !isTorch request && !previous.any isTorch
    if key = keyZsl ∧ forced = true then some (if isVideo request then off else on)
    else if key = keyDis ∧ forced = true ∧ isVideo request = true then some disDisable
    else if (key = keyPhaseAf ∨ key = keyDynamicRangeControl) ∧ id = backCameraId then some on
    else if key = keyQcRtHdr ∧ id = backCameraId ∧ isVideo request = true then
      some (if request.get keyQcVideoHdr = some "on" then on else off)
    else request key

/-- **The rewriting**, key by key. -/
theorem fixupSetparams_eq (id : ℤ) (previous : Option Parameters) (request : Parameters) :
    fixupSetparams id (previous.any isTorch) request = sentParameters id previous request := by
  funext key
  unfold fixupSetparams sentParameters
  generalize (!isTorch request && !previous.any isTorch) = forced
  generalize isVideo request = video
  cases forced <;> cases video <;> by_cases hid : id = backCameraId <;>
    simp [hid, Parameters.get, keyZsl, keyDis, keyPhaseAf, keyDynamicRangeControl, keyQcRtHdr,
      keyQcVideoHdr]
  all_goals grind

/-- The flash mode is sent as it is. -/
theorem isTorch_sent (id : ℤ) (previous : Option Parameters) (request : Parameters) :
    isTorch (sentParameters id previous request) = isTorch request :=
  isTorch_congr (by simp [sentParameters, keyFlashMode, keyZsl, keyDis, keyPhaseAf,
    keyDynamicRangeControl, keyQcRtHdr])

/-- The table has an entry for the camera, and says of the previous request whether it had the torch
on. -/
structure Remembers (T : ParameterText Text) (id : ℤ) (previous : Option Parameters)
    (s : Wrapper Text) : Prop where
  table : ∃ table, s.fixedSetParams = some table ∧ 0 ≤ id ∧ id.toNat < table.length
  first : previous = none → s.entry id = .ok none
  later : ∀ request, previous = some request → ∃ p text, s.entry id = .ok (some p) ∧
    s.read p = .ok text ∧ isTorch (T.unflatten text) = isTorch request

section set

variable {T : ParameterText Text} {id : ℤ} {previous : Option Parameters} {s s₀ : Wrapper Text}
  {params : Text}

/-- What the table says is what the rewriting asks it. -/
theorem Remembers.fixup (params : Text) (h : Remembers T id previous s) :
    ∃ strings, cameraFixupSetparams T id params s =
      .ok (strings.length, { s with
        fixedSetParams := s.fixedSetParams.map (·.set id.toNat (some strings.length))
        strings := strings ++
          [some (T.flatten (sentParameters id previous (T.unflatten params)))] }) := by
  cases hprevious : previous with
  | none =>
    have hentry := h.first hprevious
    refine ⟨s.strings, ?_⟩
    simp only [cameraFixupSetparams, Wrapper.freeEntry, hentry, bind, Except.bind, pure, Except.pure,
      Wrapper.strdup, Wrapper.setEntry, ← fixupSetparams_eq, Option.any_none]
  | some request =>
    obtain ⟨p, text, hentry, hread, htorch⟩ := h.later request hprevious
    refine ⟨s.strings.set p none, ?_⟩
    simp only [cameraFixupSetparams, Wrapper.freeEntry, hentry, hread, free_of_read hread, bind,
      Except.bind, pure, Except.pure, Wrapper.strdup, Wrapper.setEntry, ← fixupSetparams_eq,
      Option.any_some, htorch]

/-- **One call** sends what its request and the previous one ask for, and remembers it. -/
theorem remembers_set (hT : ∀ params, T.unflatten (T.flatten params) = params) (ret : CInt)
    (h : Remembers T id previous s) (params : Text) :
    ∃ s', cameraSetParameters T ret (some ⟨id⟩) params s = .ok (ret, s') ∧
      s'.vendorCalls = .setParameters id
        (T.flatten (sentParameters id previous (T.unflatten params))) :: s.vendorCalls ∧
      Remembers T id (some (T.unflatten params)) s' := by
  obtain ⟨strings, hfixup⟩ := h.fixup params
  obtain ⟨table, htable, hid, hlt⟩ := h.table
  refine ⟨{ s with
    fixedSetParams := some (table.set id.toNat (some strings.length))
    strings := strings ++ [some (T.flatten (sentParameters id previous (T.unflatten params)))]
    vendorCalls := .setParameters id
      (T.flatten (sentParameters id previous (T.unflatten params))) :: s.vendorCalls }, ?_, rfl,
    ⟨_, rfl, hid, by rwa [List.length_set]⟩, nofun, ?_⟩
  · simp only [cameraSetParameters, hfixup, htable, bind, Except.bind, Wrapper.read,
      List.getElem?_concat_length, Wrapper.vendorCall, pure, Except.pure, Option.map_some]
  rintro request hrequest
  cases hrequest
  refine ⟨strings.length, T.flatten (sentParameters id previous (T.unflatten params)), ?_,
    by simp [Wrapper.read], by rw [hT, isTorch_sent]⟩
  rw [entry_of_table rfl hid (by rwa [List.length_set])]
  simp

/-- A camera that was just opened. -/
theorem remembers_open {v : VendorModule} {o : OpenOutcome} {name : String}
    {old : Option WrapperCameraDevice}
    (hopen : cameraDeviceOpen v o (some name) old s = (0, some ⟨id⟩, s₀))
    (hid : 0 ≤ id ∧ id < v.numCameras) : Remembers T id none s₀ := by
  have htable : s₀.fixedSetParams = some (List.replicate v.numCameras.toNat none) := by
    simp only [cameraDeviceOpen] at hopen
    repeat' split at hopen
    all_goals simp [einval, enomem] at hopen
    obtain ⟨-, rfl⟩ := hopen
    rfl
  have hlt : id.toNat < (List.replicate v.numCameras.toNat (none : Option Ptr)).length := by
    rw [List.length_replicate]
    omega
  refine ⟨⟨_, htable, hid.1, hlt⟩, fun _ => ?_, nofun⟩
  rw [entry_of_table htable hid.1 hlt, List.getElem_replicate]

end set

/-- Every call of a sequence. -/
theorem remembers_run {T : ParameterText Text} (hT : ∀ params, T.unflatten (T.flatten params) = params)
    {v : VendorModule} {id : ℤ} {previous : Option Parameters} {s : Wrapper Text}
    (h : Remembers T id previous s) (requests : List Text) :
    ∃ s', ∃ sent : List Text, runCalls T v s (requests.map (.setParameters id)) = .ok s' ∧
      s'.vendorCalls = (sent.map (.setParameters id)).reverse ++ s.vendorCalls ∧
      sent.map T.unflatten = List.zipWith (sentParameters id)
        (previous :: requests.map (some ∘ T.unflatten)) (requests.map T.unflatten) := by
  induction requests generalizing previous s with
  | nil => exact ⟨s, [], rfl, rfl, rfl⟩
  | cons request requests ih =>
    obtain ⟨s₁, hset, hcalls, h₁⟩ := remembers_set hT 0 h request
    obtain ⟨s', sent, hrun, hcalls', hsent⟩ := ih h₁
    refine ⟨s', T.flatten (sentParameters id previous (T.unflatten request)) :: sent, ?_, ?_, ?_⟩
    · simp only [List.map_cons, runCalls, CameraCall.exec, hset, bind, Except.bind, pure, Except.pure]
      exact hrun
    · rw [hcalls', hcalls]
      simp
    · rw [List.map_cons, hsent, hT]
      rfl

/-- **Torch and ZSL.** Any sequence of requests to a camera that was just opened reaches the vendor in
full, each rewritten as it and the one before it ask for. -/
theorem sent_run {T : ParameterText Text} (hT : ∀ params, T.unflatten (T.flatten params) = params)
    {v : VendorModule} {o : OpenOutcome} {name : String} {old : Option WrapperCameraDevice} {id : ℤ}
    {s s₀ : Wrapper Text} (hopen : cameraDeviceOpen v o (some name) old s = (0, some ⟨id⟩, s₀))
    (hid : 0 ≤ id ∧ id < v.numCameras) (requests : List Text) :
    ∃ s', ∃ sent : List Text, runCalls T v s₀ (requests.map (.setParameters id)) = .ok s' ∧
      s'.vendorCalls = (sent.map (.setParameters id)).reverse ++ s₀.vendorCalls ∧
      sent.map T.unflatten = List.zipWith (sentParameters id)
        (none :: requests.map (some ∘ T.unflatten)) (requests.map T.unflatten) :=
  remembers_run hT (remembers_open hopen hid) requests

/-- The back camera of two, just opened. -/
def backOpened : Wrapper Parameters :=
  (cameraDeviceOpen twoCameras ⟨true, true, 0, true⟩ (some "0") none .zero).2.2

/-- The torch of the back camera is switched on and off again. -/
theorem sent_run_torch :
    cameraDeviceOpen twoCameras ⟨true, true, 0, true⟩ (some "0") none .zero =
      (0, some ⟨0⟩, backOpened) ∧ (0 ≤ (0 : ℤ) ∧ 0 < twoCameras.numCameras) ∧
    ∃ s', ∃ sent : List Parameters, runCalls textIsMap twoCameras backOpened
        ([noParameters.set keyFlashMode flashModeTorch, noParameters].map (.setParameters 0)) = .ok s' ∧
      s'.vendorCalls = (sent.map (.setParameters 0)).reverse ++ backOpened.vendorCalls ∧
      sent.map textIsMap.unflatten = List.zipWith (sentParameters 0)
        (none :: [noParameters.set keyFlashMode flashModeTorch, noParameters].map
          (some ∘ textIsMap.unflatten))
        ([noParameters.set keyFlashMode flashModeTorch, noParameters].map textIsMap.unflatten) := by
  have hopen : cameraDeviceOpen twoCameras ⟨true, true, 0, true⟩ (some "0") none .zero =
      (0, some ⟨0⟩, backOpened) := rfl
  exact ⟨hopen, by decide, sent_run (fun _ => rfl) hopen (by decide) _⟩

/-! ## What is read -/

/-- The list of video sizes, as it is returned. -/
def sizesFixed (value : Option String) : Option String :=
  match value.filter (· != "") with
  | some sizes => some ("3840x2160," ++ sizes)
  | none => value

/-- The list of high frame rates, as it is returned. -/
def ratesFixed (value : Option String) : Option String :=
  match value.filter (· != "") with
  | some rates => if strstr rates "off" then value else some (rates ++ ",off")
  | none => value

/-- **The rewriting**, key by key. -/
theorem fixupGetparams_apply (id : ℤ) (params : Parameters) (key : String) :
    fixupGetparams id params key =
      if key = keyPreviewFormat ∧ params.get keyPreviewFormat = some pixelFormatNv12Venus then
        some pixelFormatYuv420sp
      else if key = keySupportedVideoSizes then sizesFixed (params keySupportedVideoSizes)
      else if key = keyVideoHfrValues then ratesFixed (params keyVideoHfrValues)
      else if key = keyVideoSnapshotSupported ∧ isVideo params = true then some "true"
      else if key = keyQcVideoHdrValues ∧ id = backCameraId then some "on,off"
      else params key := by
  have hsizes : keySupportedVideoSizes ≠ keyPreviewFormat := by decide
  have hrates : keyVideoHfrValues ≠ keyPreviewFormat ∧ keyVideoHfrValues ≠ keySupportedVideoSizes := by
    decide
  unfold fixupGetparams sizesFixed ratesFixed
  generalize isVideo params = video
  generalize hformat : params.get keyPreviewFormat = format
  cases hs : (params keySupportedVideoSizes).filter (· != "") <;>
    cases hr : (params keyVideoHfrValues).filter (· != "") <;>
    by_cases hf : format = some pixelFormatNv12Venus <;> cases video <;>
    by_cases hid : id = backCameraId <;>
    simp [Parameters.get, hs, hr, hf, hid, hsizes, hrates, ite_apply]
  all_goals
    simp only [keyPreviewFormat, keySupportedVideoSizes, keyVideoHfrValues,
      keyVideoSnapshotSupported, keyQcVideoHdrValues] at *
    grind

/-- Fixing the sizes twice changes them, unless there are none. -/
theorem sizesFixed_eq_iff (value : Option String) :
    sizesFixed (sizesFixed value) = sizesFixed value ↔ value.filter (· != "") = none := by
  unfold sizesFixed
  cases h : value.filter (· != "") with
  | none => simp [h]
  | some sizes =>
    have hne : (some ("3840x2160," ++ sizes)).filter (· != "") = some ("3840x2160," ++ sizes) := by
      simp
    simp only [hne, reduceCtorEq, iff_false, Option.some.injEq]
    intro heq
    have hlength := congrArg String.length heq
    simp only [String.length_append] at hlength
    have hten : "3840x2160,".length = 10 := rfl
    omega

/-- A list of rates that was returned has an entry `off`. -/
theorem ratesFixed_idem (value : Option String) :
    ratesFixed (ratesFixed value) = ratesFixed value := by
  unfold ratesFixed
  cases h : value.filter (· != "") with
  | none => simp [h]
  | some rates =>
    have hne : (some (rates ++ ",off")).filter (· != "") = some (rates ++ ",off") := by simp
    have hoff : strstr (rates ++ ",off") "off" = true := by
      refine decide_eq_true ⟨rates.toList ++ [','], [], ?_⟩
      simp
    by_cases hrates : strstr rates "off" = true
    · simp [h, hrates]
    · simp [hrates, hne, hoff]

section read

variable (id : ℤ) (params : Parameters)

/-- The sizes that are shown. -/
theorem fixupGetparams_sizes :
    fixupGetparams id params keySupportedVideoSizes = sizesFixed (params keySupportedVideoSizes) := by
  simp [fixupGetparams_apply, keyPreviewFormat, keySupportedVideoSizes]

/-- The frame rates that are shown. -/
theorem fixupGetparams_rates :
    fixupGetparams id params keyVideoHfrValues = ratesFixed (params keyVideoHfrValues) := by
  simp [fixupGetparams_apply, keyPreviewFormat, keySupportedVideoSizes, keyVideoHfrValues]

/-- The preview format that is returned is one the framework knows, if there is one at all. -/
theorem fixupGetparams_format : (fixupGetparams id params).get keyPreviewFormat =
    if params.get keyPreviewFormat = some pixelFormatNv12Venus then some pixelFormatYuv420sp
    else params.get keyPreviewFormat := by
  rw [Parameters.get, fixupGetparams_apply]
  split
  · rename_i h
    rw [if_pos h.2]
    rfl
  · rename_i h
    rw [if_neg fun hformat => h ⟨rfl, hformat⟩]
    simp [Parameters.get, keyPreviewFormat, keySupportedVideoSizes, keyVideoHfrValues,
      keyVideoSnapshotSupported, keyQcVideoHdrValues]

/-- The recording hint is returned as it is. -/
theorem isVideo_fixupGetparams : isVideo (fixupGetparams id params) = isVideo params := by
  have hhint : fixupGetparams id params keyRecordingHint = params keyRecordingHint := by
    simp [fixupGetparams_apply, keyRecordingHint, keyPreviewFormat, keySupportedVideoSizes,
      keyVideoHfrValues, keyVideoSnapshotSupported, keyQcVideoHdrValues]
  rw [isVideo, isVideo, get_congr hhint]

/-- **Reading twice** changes nothing exactly if there are no video sizes to extend. -/
theorem idempotent_iff : fixupGetparams id (fixupGetparams id params) = fixupGetparams id params ↔
    params.get keySupportedVideoSizes = none := by
  rw [Parameters.get, ← sizesFixed_eq_iff]
  constructor
  · intro h
    rw [← fixupGetparams_sizes id params, ← fixupGetparams_sizes, h]
  · intro hsizes
    funext key
    have hformat : (fixupGetparams id params).get keyPreviewFormat ≠ some pixelFormatNv12Venus := by
      rw [fixupGetparams_format]
      split
      · decide
      · assumption
    rw [fixupGetparams_apply, isVideo_fixupGetparams, fixupGetparams_sizes, fixupGetparams_rates,
      hsizes, ratesFixed_idem, if_neg fun h => hformat h.2]
    split
    · rename_i h
      rw [h, fixupGetparams_sizes]
    split
    · rename_i h
      rw [h, fixupGetparams_rates]
    split
    · rename_i h
      rw [fixupGetparams_apply, if_neg, if_neg ‹_›, if_neg ‹_›, if_pos h]
      rw [h.1]
      exact fun h => absurd h.1 (by decide)
    split
    · rename_i h
      rw [fixupGetparams_apply, if_neg, if_neg ‹_›, if_neg ‹_›, if_neg ‹_›, if_pos h]
      rw [h.1]
      exact fun h => absurd h.1 (by decide)
    · rfl

end read

/-! ## Reading and writing in turn -/

/-- The parameters of a vendor that remembers what it is sent and starts with `initial` ones. -/
def vendorParameters (initial : Text) (id : ℤ) (s : Wrapper Text) : Text :=
  (lastSent id s.vendorCalls).getD initial

/-- A client writes back what it has just read, or starts a recording. -/
inductive ClientCall
  | writeBack
  | startRecording

/-- What a client makes of the wrapper. -/
def ClientCall.exec (T : ParameterText Text) (getVideoSize : Parameters → CInt × CInt) (initial : Text)
    (id : ℤ) (s : Wrapper Text) : ClientCall → Except Fault (Wrapper Text)
  | .writeBack => do
    match ← cameraGetParameters T (some ⟨id⟩) (vendorParameters initial id s) with
    | none => return s
    | some settings =>
      let (_, s) ← cameraSetParameters T 0 (some ⟨id⟩) settings s
      return s
  | .startRecording => do
    let (_, s) ← cameraStartRecording T getVideoSize (vendorParameters initial id s) 0 0 (some ⟨id⟩) s
    return s

/-- A sequence of them. -/
def runClient (T : ParameterText Text) (getVideoSize : Parameters → CInt × CInt) (initial : Text)
    (id : ℤ) (s : Wrapper Text) : List ClientCall → Except Fault (Wrapper Text)
  | [] => .ok s
  | c :: calls => do runClient T getVideoSize initial id (← c.exec T getVideoSize initial id s) calls

/-- What is read of a camera is stable: reading what was read changes nothing, and however often it is
written back, by a client or for a recording, the lists that are read later are those that were read
first. -/
structure StableReads (T : ParameterText Text) (getVideoSize : Parameters → CInt × CInt) (id : ℤ)
    (params : Parameters) : Prop where
  idempotent : ∃ once, cameraFixupGetparams T id (T.flatten params) = .ok once ∧
    cameraFixupGetparams T id once = .ok once
  cycles : ∀ (initial : Text) (s s' : Wrapper Text) (calls : List ClientCall) (first later : Text),
    T.unflatten (vendorParameters initial id s) = params →
    runClient T getVideoSize initial id s calls = .ok s' →
    cameraGetParameters T (some ⟨id⟩) (vendorParameters initial id s) = .ok (some first) →
    cameraGetParameters T (some ⟨id⟩) (vendorParameters initial id s') = .ok (some later) →
    ∀ key ∈ [keySupportedVideoSizes, keyVideoHfrValues],
      T.unflatten later key = T.unflatten first key

section cycles

variable {T : ParameterText Text} {getVideoSize : Parameters → CInt × CInt} {initial : Text} {id : ℤ}
  {params : Parameters} {text first : Text} {s s' : Wrapper Text} {ret r : CInt}

/-- A value that was computed on the way. -/
theorem ok_of_bind {α β : Type} {x : Except Fault α} {f : α → Except Fault β} {b : β}
    (h : (x >>= f) = .ok b) : ∃ a, x = .ok a ∧ f a = .ok b := by
  cases x with
  | error e => cases h
  | ok a => exact ⟨a, rfl, h⟩

/-- Freeing an entry changes the strings only. -/
theorem freeEntry_ok (h : s.freeEntry id = .ok s') : ∃ strings, s' = { s with strings } := by
  obtain ⟨entry, -, h⟩ := ok_of_bind h
  cases entry with
  | none =>
    cases h
    exact ⟨s.strings, rfl⟩
  | some p =>
    simp only [Wrapper.free] at h
    split at h <;> cases h
    exact ⟨_, rfl⟩

/-- What `camera_fixup_setparams` leaves. -/
theorem fixupSetparams_ok {p : Ptr} (h : cameraFixupSetparams T id text s = .ok (p, s')) :
    ∃ wasTorch strings, p = strings.length ∧ s' = { s with
      fixedSetParams := s.fixedSetParams.map (·.set id.toNat (some p))
      strings := strings ++
        [some (T.flatten (fixupSetparams id wasTorch (T.unflatten text)))] } := by
  obtain ⟨entry, -, h⟩ := ok_of_bind h
  obtain ⟨wasTorch, h⟩ : ∃ wasTorch, (do
      let s₁ ← s.freeEntry id
      let dup := s₁.strdup (T.flatten (fixupSetparams id wasTorch (T.unflatten text)))
      pure (dup.1, dup.2.setEntry id (some dup.1)) : Except Fault (Ptr × Wrapper Text)) =
        .ok (p, s') := by
    cases entry with
    | none => exact ⟨false, h⟩
    | some q =>
      obtain ⟨old, -, h⟩ := ok_of_bind h
      exact ⟨_, h⟩
  obtain ⟨s₁, hfree, h⟩ := ok_of_bind h
  cases h
  obtain ⟨strings, rfl⟩ := freeEntry_ok hfree
  exact ⟨wasTorch, strings, rfl, rfl⟩

/-- What `camera_set_parameters` leaves. -/
theorem setParameters_ok (h : cameraSetParameters T ret (some ⟨id⟩) text s = .ok (r, s')) :
    ∃ wasTorch p strings, s' = { s with
      fixedSetParams := s.fixedSetParams.map (·.set id.toNat (some p))
      strings
      vendorCalls := .setParameters id
        (T.flatten (fixupSetparams id wasTorch (T.unflatten text))) :: s.vendorCalls } := by
  obtain ⟨⟨p, s₁⟩, hfixup, h⟩ := ok_of_bind h
  obtain ⟨sent, hsent, h⟩ := ok_of_bind h
  cases h
  obtain ⟨wasTorch, strings, rfl, rfl⟩ := fixupSetparams_ok hfixup
  have hread : sent = T.flatten (fixupSetparams id wasTorch (T.unflatten text)) := by
    simpa [Wrapper.read] using hsent.symm
  exact ⟨wasTorch, strings.length, _, by rw [hread]; rfl⟩

/-- The lists are sent as they are. -/
theorem fixupSetparams_list (wasTorch : Bool) {key : String}
    (hkey : key ∈ [keySupportedVideoSizes, keyVideoHfrValues]) :
    fixupSetparams id wasTorch params key = params key := by
  have hsent := fixupSetparams_eq id (if wasTorch then some (params.set keyFlashMode flashModeTorch)
    else none) params
  have hwas : (if wasTorch then some (params.set keyFlashMode flashModeTorch) else none).any isTorch =
      wasTorch := by
    cases wasTorch <;> simp [isTorch, Parameters.get, flashModeTorch]
  rw [hwas] at hsent
  rw [hsent]
  obtain rfl | rfl : key = keySupportedVideoSizes ∨ key = keyVideoHfrValues := by simpa using hkey
  all_goals simp [sentParameters, keySupportedVideoSizes, keyVideoHfrValues, keyZsl, keyDis,
    keyPhaseAf, keyDynamicRangeControl, keyQcRtHdr]

/-- The vendor has no video sizes, and the rates it has are read as `params` are. -/
structure SameLists (id : ℤ) (params now : Parameters) : Prop where
  noSizes : now.get keySupportedVideoSizes = none
  lists : ∀ key ∈ [keySupportedVideoSizes, keyVideoHfrValues],
    fixupGetparams id now key = fixupGetparams id params key

/-- What is written back is read as before. -/
theorem SameLists.written {now next : Parameters} (h : SameLists id params now)
    (hnext : ∀ key ∈ [keySupportedVideoSizes, keyVideoHfrValues],
      next key = fixupGetparams id now key) : SameLists id params next := by
  have hsizes := hnext keySupportedVideoSizes (by simp)
  have hrates := hnext keyVideoHfrValues (by simp)
  have hfixed := h.noSizes
  rw [Parameters.get, ← sizesFixed_eq_iff] at hfixed
  rw [fixupGetparams_sizes] at hsizes
  rw [fixupGetparams_rates] at hrates
  refine ⟨?_, fun key hkey => ?_⟩
  · rw [Parameters.get, hsizes, ← sizesFixed_eq_iff, hfixed, hfixed]
  · rw [← h.lists key hkey]
    obtain rfl | rfl : key = keySupportedVideoSizes ∨ key = keyVideoHfrValues := by simpa using hkey
    · rw [fixupGetparams_sizes, fixupGetparams_sizes, hsizes, hfixed]
    · rw [fixupGetparams_rates, fixupGetparams_rates, hrates, ratesFixed_idem]

/-- Parameters are sent that have the lists that were read. -/
theorem SameLists.sent (hT : ∀ params, T.unflatten (T.flatten params) = params)
    (h : SameLists id params (T.unflatten (vendorParameters initial id s)))
    (htext : ∀ key ∈ [keySupportedVideoSizes, keyVideoHfrValues], T.unflatten text key =
      fixupGetparams id (T.unflatten (vendorParameters initial id s)) key)
    (hset : cameraSetParameters T ret (some ⟨id⟩) text s = .ok (r, s')) :
    SameLists id params (T.unflatten (vendorParameters initial id s')) := by
  obtain ⟨wasTorch, p, strings, rfl⟩ := setParameters_ok hset
  refine h.written fun key hkey => ?_
  simp only [vendorParameters, lastSent, if_true, Option.getD_some]
  rw [hT, fixupSetparams_list wasTorch hkey, htext key hkey]
  rfl

/-- What `camera_fixup_getparams` returns. -/
theorem fixup_ok (h : cameraFixupGetparams T id text = .ok first) :
    first = T.flatten (fixupGetparams id (T.unflatten text)) := by
  unfold cameraFixupGetparams at h
  simp only at h
  split at h <;> cases h
  rfl

/-- **One cycle.** -/
theorem SameLists.exec (hT : ∀ params, T.unflatten (T.flatten params) = params)
    (h : SameLists id params (T.unflatten (vendorParameters initial id s))) {c : ClientCall}
    (hc : c.exec T getVideoSize initial id s = .ok s') :
    SameLists id params (T.unflatten (vendorParameters initial id s')) := by
  cases c with
  | writeBack =>
    obtain ⟨settings, hget, hc⟩ := ok_of_bind hc
    obtain ⟨first, hfirst, hget⟩ := ok_of_bind hget
    cases hget
    obtain ⟨⟨r, s₁⟩, hset, hc⟩ := ok_of_bind hc
    cases hc
    refine h.sent hT (fun key _ => ?_) hset
    rw [fixup_ok hfirst, hT]
  | startRecording =>
    obtain ⟨⟨r, s₁⟩, hstart, hc⟩ := ok_of_bind hc
    cases hc
    obtain ⟨first, hfirst, hstart⟩ := ok_of_bind hstart
    simp only at hstart
    split at hstart
    · obtain ⟨⟨r', s₂⟩, hset, hstart⟩ := ok_of_bind hstart
      cases hstart
      refine h.sent hT (fun key hkey => ?_) hset
      rw [hT, fixup_ok hfirst, hT, set_apply, if_neg]
      rintro rfl
      revert hkey
      decide
    · cases hstart
      exact h

/-- **Every run of cycles.** -/
theorem SameLists.run (hT : ∀ params, T.unflatten (T.flatten params) = params)
    (h : SameLists id params (T.unflatten (vendorParameters initial id s))) {calls : List ClientCall}
    (hrun : runClient T getVideoSize initial id s calls = .ok s') :
    SameLists id params (T.unflatten (vendorParameters initial id s')) := by
  induction calls generalizing s with
  | nil =>
    cases hrun
    exact h
  | cons c calls ih =>
    obtain ⟨s₁, hc, hrun⟩ := ok_of_bind hrun
    exact ih (h.exec hT hc) hrun

/-- What is returned has a preview format if the vendor's parameters have one. -/
theorem fixup_of_format (id : ℤ) (hT : ∀ params, T.unflatten (T.flatten params) = params)
    (hformat : params.get keyPreviewFormat ≠ none) :
    cameraFixupGetparams T id (T.flatten params) = .ok (T.flatten (fixupGetparams id params)) ∧
      (fixupGetparams id params).get keyPreviewFormat ≠ none := by
  refine ⟨?_, ?_⟩
  · rw [cameraFixupGetparams, hT]
    exact if_neg hformat
  · rw [fixupGetparams_format]
    split
    · decide
    · exact hformat

/-- Stable reads are those that change nothing the second time. -/
theorem StableReads.twice (hT : ∀ params, T.unflatten (T.flatten params) = params)
    (hformat : params.get keyPreviewFormat ≠ none) (h : StableReads T getVideoSize id params) :
    fixupGetparams id (fixupGetparams id params) = fixupGetparams id params := by
  obtain ⟨honce, hformat'⟩ := fixup_of_format id hT hformat
  have htwice := (fixup_of_format id hT hformat').1
  obtain ⟨once, h₁, h₂⟩ := h.idempotent
  obtain rfl := Except.ok.inj (honce.symm.trans h₁)
  rw [← hT (fixupGetparams id (fixupGetparams id params)), Except.ok.inj (htwice.symm.trans h₂), hT]

/-- **Stable reads.** What is read of a camera with a preview format is stable exactly if the vendor
has no list of video sizes: that one grows with every reading. -/
theorem stableReads_iff (hT : ∀ params, T.unflatten (T.flatten params) = params)
    (hformat : params.get keyPreviewFormat ≠ none) : StableReads T getVideoSize id params ↔
      params.get keySupportedVideoSizes = none := by
  rw [← idempotent_iff id]
  refine ⟨StableReads.twice hT hformat, fun hidem => ?_⟩
  obtain ⟨honce, hformat'⟩ := fixup_of_format id hT hformat
  have htwice := (fixup_of_format id hT hformat').1
  refine ⟨⟨_, honce, by rw [htwice, hidem]⟩, ?_⟩
  intro initial s s' calls first later hparams hrun hfirst hlater key hkey
  have hsame : SameLists id params (T.unflatten (vendorParameters initial id s)) := by
    rw [hparams]
    exact ⟨(idempotent_iff id params).mp hidem, fun _ _ => rfl⟩
  obtain ⟨text, hfirst, h⟩ := ok_of_bind hfirst
  cases h
  obtain ⟨text', hlater, h⟩ := ok_of_bind hlater
  cases h
  rw [fixup_ok hfirst, fixup_ok hlater, hT, hT, hparams]
  exact (hsame.run hT hrun).lists key hkey

end cycles

/-- Parameters with a preview format and one video size. -/
def oneSize : Parameters :=
  (noParameters.set keyPreviewFormat pixelFormatYuv420sp).set keySupportedVideoSizes "1920x1080"

/-- Parameters with a preview format. -/
def noSizes : Parameters := noParameters.set keyPreviewFormat pixelFormatYuv420sp

/-- A camera without a list of video sizes. -/
theorem stableReads_noSizes : noSizes.get keyPreviewFormat ≠ none ∧
    noSizes.get keySupportedVideoSizes = none ∧
    StableReads textIsMap (fun _ => (1920, 1080)) 0 noSizes := by
  have hsizes : noSizes.get keySupportedVideoSizes = none := rfl
  exact ⟨by decide, hsizes, (stableReads_iff (fun _ => rfl) (by decide)).mpr hsizes⟩

/-- **A growing list.** A client writes back what it read of a camera with one video size: the next
reading has an entry twice. -/
theorem growing_sizes : oneSize.get keyPreviewFormat ≠ none ∧
    ¬ StableReads textIsMap (fun _ => (1920, 1080)) 0 oneSize ∧
    ∃ s first later, runClient textIsMap (fun _ => (1920, 1080)) oneSize 0 backOpened [.writeBack] =
        .ok s ∧
      cameraGetParameters textIsMap (some ⟨0⟩) (vendorParameters oneSize 0 backOpened) =
        .ok (some first) ∧
      cameraGetParameters textIsMap (some ⟨0⟩) (vendorParameters oneSize 0 s) = .ok (some later) ∧
      first keySupportedVideoSizes = some "3840x2160,1920x1080" ∧
      later keySupportedVideoSizes = some "3840x2160,3840x2160,1920x1080" := by
  refine ⟨by decide, fun h => ?_, _, _, _, rfl, rfl, rfl, by decide, by decide⟩
  have htwice := h.twice (fun _ => rfl) (by decide)
  exact absurd ((idempotent_iff 0 oneSize).mp htwice) (by decide)

end KlteCommon.Analysis

import KlteCommon.Analysis.CameraOpen
import KlteCommon.Camera.Device

/-!
# A session with one camera

Between its opening and its closing a camera is asked for anything, in any order. The wrapper is to
be a translator: what the vendor is called for, and what the client gets, follow from the requests
alone. Of all that went before only one string counts, the parameters last sent to the vendor, and
of that only whether the torch was on.

`translated` says which calls a history of requests comes to, `given` which strings the client has
and `kept` how many strings stay allocated. The ladder: what a request makes of the heap (`Serving`,
`Serving.set`), so the wrapper translates, serves every request and leaves the client's strings
alone (`session_translates`); and what is left when the camera is closed is what the client did not
give back and what the recordings lost (`session_strings`).
-/

set_option autoImplicit false

namespace KlteCommon.Analysis

open KlteCommon.Camera

variable {Text : Type}

/-! ## What follows from the requests -/

/-- The requests so far with their replies, newest first. -/
abbrev History (Text : Type) := List (Request Text × Reply)

section

variable (T : ParameterText Text) (getVideoSize : Parameters → CInt × CInt) (id : ℤ)

/-- What the client reads when the vendor has `params`. -/
def shownText (params : Text) : Text := T.flatten (fixupGetparams id (T.unflatten params))

/-- What the vendor is sent when the client sends `params` and `last` was sent before. -/
def sentText (last : Option Text) (params : Text) : Text :=
  T.flatten (fixupSetparams id (last.any fun text => isTorch (T.unflatten text))
    (T.unflatten params))

/-- What a recording sends when the vendor has `params`: nothing, but in 4k. -/
def recordedText (params : Text) : Option Text :=
  let parameters := T.unflatten (shownText T id params)
  if is4kVideo getVideoSize parameters then
    some (T.flatten (parameters.set keyPreviewFormat pixelFormatNv12Venus))
  else none

/-- The parameters last sent to the vendor. -/
def lastText : History Text → Option Text
  | [] => none
  | (.setParameters params _, _) :: h => some (sentText T id (lastText h) params)
  | (.startRecording params _ _, _) :: h =>
    ((recordedText T getVideoSize id params).map (sentText T id (lastText h))).or (lastText h)
  | _ :: h => lastText h

/-- The calls of the vendor, newest first. -/
def translated : History Text → List (DeviceCall Text)
  | [] => []
  | (.op o _, _) :: h => .perform id o :: translated h
  | (.setCallbacks callbacks, _) :: h =>
    .recorded (.setCallbacks id callbacks.cameraDevice) :: translated h
  | (.setParameters params _, _) :: h =>
    .recorded (.setParameters id (sentText T id (lastText T getVideoSize id h) params)) ::
      translated h
  | (.getParameters _, _) :: h => .putParameters id :: .getParameters id :: translated h
  | (.putParameters _, _) :: h => translated h
  | (.startRecording params _ _, _) :: h =>
    .startRecording id :: ((recordedText T getVideoSize id params).map fun text =>
      .recorded (.setParameters id (sentText T id (lastText T getVideoSize id h) text))).toList ++
        .putParameters id :: .getParameters id :: translated h

/-- The strings the client has. -/
def given : History Text → Ptr → Option Text
  | [], _ => none
  | (.getParameters params, .string (some q)) :: h, p =>
    if p = q then some (shownText T id params) else given h p
  | (.putParameters (some q), _) :: h, p => if p = q then none else given h p
  | _ :: h, p => given h p

/-- How many strings the requests leave allocated, but for the one in the table: one for each
`getParameters`, less one for each `putParameters`, and one for each recording or two in 4k. -/
def kept : History Text → ℤ
  | [] => 0
  | (.getParameters _, _) :: h => kept h + 1
  | (.putParameters (some _), _) :: h => kept h - 1
  | (.startRecording params _ _, _) :: h =>
    kept h + if (recordedText T getVideoSize id params).isSome then 2 else 1
  | _ :: h => kept h

/-- What the client and the vendor keep to: the vendor's parameters have a preview format, and the
client gives back only strings it has. -/
def Admissible (h : History Text) : Request Text → Prop
  | .getParameters params | .startRecording params _ _ =>
    (T.unflatten params).get keyPreviewFormat ≠ none
  | .putParameters (some p) => given T id h p ≠ none
  | _ => True

end

/-- Whether a function gives an `int` back. -/
def returnsInt : DeviceOp → Bool
  | .enableMsgType _ | .disableMsgType _ | .stopPreview | .stopRecording => false
  | .releaseRecordingFrame _ | .release => false
  | _ => true

/-- The reply to a request: what the vendor answered, or a string. -/
def Answered : Request Text → Reply → Prop
  | .op o ret, reply => reply = if returnsInt o then .int ret else .void
  | .setCallbacks _, reply | .putParameters _, reply => reply = .void
  | .setParameters _ ret, reply | .startRecording _ _ ret, reply => reply = .int ret
  | .getParameters _, reply => ∃ p, reply = .string (some p)

/-- A run of requests, from `s₀` on. -/
inductive CameraSession (T : ParameterText Text) (getVideoSize : Parameters → CInt × CInt)
    (device : WrapperCameraDevice) (s₀ : Process Text) : History Text → Process Text → Prop
  | opened : CameraSession T getVideoSize device s₀ [] s₀
  | request {h : History Text} {s s' : Process Text} {r : Request Text} {reply : Reply}
      (hs : CameraSession T getVideoSize device s₀ h s) (hr : Admissible T device.id h r)
      (hserve : serve T getVideoSize device s r = .ok (reply, s')) :
      CameraSession T getVideoSize device s₀ ((r, reply) :: h) s'

/-! ## The heap -/

/-- How many strings are allocated. -/
def allocated (w : Wrapper Text) : ℕ := w.strings.countP Option.isSome

/-- The strings of a wrapper that serves camera `id` of `n` alone: the table has `last`, the client
has `held`, and there are `k` besides the one in the table. -/
structure OwnsStrings (id n : ℤ) (last : Option Text) (held : Ptr → Option Text) (k : ℤ)
    (w : Wrapper Text) : Prop where
  loaded : w.vendorModule = true
  range : 0 ≤ id ∧ id < n
  entry : ∃ e, w.fixedSetParams = some ((List.replicate n.toNat none).set id.toNat e) ∧
    (e = none ∧ last = none ∨ ∃ q text, e = some q ∧ last = some text ∧
      w.strings[q]? = some (some text) ∧ held q = none)
  held : ∀ p text, held p = some text → w.strings[p]? = some (some text)
  count : (allocated w : ℤ) = k + if last.isSome then 1 else 0

section heap

variable {id n : ℤ} {last : Option Text} {held : Ptr → Option Text} {k : ℤ} {w : Wrapper Text}
  {strings : List (Option Text)} {text : Text} {p : Ptr}

/-- Freeing a string takes one off the count. -/
theorem countP_free (h : strings[p]? = some (some text)) :
    (((strings.set p none).countP Option.isSome : ℕ) : ℤ) =
      strings.countP Option.isSome - 1 := by
  obtain ⟨hlt, heq⟩ := List.getElem?_eq_some_iff.mp h
  have hpos : 0 < strings.countP Option.isSome :=
    List.countP_pos_iff.mpr ⟨some text, List.mem_of_getElem heq, rfl⟩
  rw [List.countP_set hlt]
  simp [heq]
  omega

/-- A string that is there has a pointer below the length of the heap. -/
theorem lt_of_getElem? (h : strings[p]? = some (some text)) : p < strings.length :=
  (List.getElem?_eq_some_iff.mp h).1

/-- Only what the client and the table hold matters. -/
theorem OwnsStrings.congr (h : OwnsStrings id n last held k w) {last' : Option Text}
    {held' : Ptr → Option Text} {k' : ℤ} (hlast : last = last') (hheld : ∀ p, held p = held' p)
    (hk : k = k') : OwnsStrings id n last' held' k' w := by
  obtain rfl : held = held' := funext hheld
  rwa [← hlast, ← hk]

/-- A string more, of which the client may or may not know. -/
theorem OwnsStrings.strdup (h : OwnsStrings id n last held k w) (text : Text)
    {held' : Ptr → Option Text} (hheld : ∀ p, p ≠ w.strings.length → held' p = held p)
    (hnew : ∀ t, held' w.strings.length = some t → t = text) :
    OwnsStrings id n last held' (k + 1) (w.strdup text).2 := by
  have hkeep : ∀ {p text'}, w.strings[p]? = some (some text') →
      (w.strings ++ [some text])[p]? = some (some text') := fun hp => by
    rw [List.getElem?_append_left (lt_of_getElem? hp), hp]
  obtain ⟨e, htable, hentry⟩ := h.entry
  refine ⟨h.loaded, h.range, ⟨e, htable, hentry.imp_right ?_⟩, fun p t hp => ?_, ?_⟩
  · rintro ⟨q, text', rfl, hlast, hq, hfree⟩
    have hne : q ≠ w.strings.length := Nat.ne_of_lt (lt_of_getElem? hq)
    exact ⟨q, text', rfl, hlast, hkeep hq, (hheld q hne).trans hfree⟩
  · by_cases hpl : p = w.strings.length
    · subst hpl
      obtain rfl := hnew t hp
      simp [Wrapper.strdup]
    · exact hkeep (h.held p t ((hheld p hpl).symm.trans hp))
  · have hcount := h.count
    simp only [allocated, Wrapper.strdup, List.countP_append] at hcount ⊢
    simp
    omega

/-- The client gives a string back. -/
theorem OwnsStrings.free (h : OwnsStrings id n last held k w) (hp : held p = some text) :
    ∃ w', w.free p = .ok w' ∧ w'.vendorCalls = w.vendorCalls ∧
      OwnsStrings id n last (fun q => if q = p then none else held q) (k - 1) w' := by
  have hlive := h.held p text hp
  obtain ⟨e, htable, hentry⟩ := h.entry
  refine ⟨{ w with strings := w.strings.set p none }, by simp [Wrapper.free, hlive], rfl,
    h.loaded, h.range, ⟨e, htable, hentry.imp_right ?_⟩, fun q t hq => ?_, ?_⟩
  · rintro ⟨q, text', rfl, hlast, hq, hfree⟩
    have hne : p ≠ q := by
      rintro rfl
      cases hfree.symm.trans hp
    refine ⟨q, text', rfl, hlast, ?_, ?_⟩
    · rw [List.getElem?_set_ne hne, hq]
    · rw [if_neg (Ne.symm hne), hfree]
  · by_cases hqp : q = p
    · simp [hqp] at hq
    · rw [if_neg hqp] at hq
      rw [List.getElem?_set_ne (Ne.symm hqp), h.held q t hq]
  · have hcount := h.count
    have hfree := countP_free hlive
    simp only [allocated] at hcount ⊢
    omega

/-- Sending parameters puts a new string into the table in place of the one that was there. -/
theorem OwnsStrings.set (T : ParameterText Text) (h : OwnsStrings id n last held k w)
    (params : Text) (ret : CInt) : ∃ w', Camera.cameraSetParameters T ret (some ⟨id⟩) params w = .ok (ret, w') ∧
      w'.vendorCalls = .setParameters id (sentText T id last params) :: w.vendorCalls ∧
      OwnsStrings id n (some (sentText T id last params)) held k w' := by
  obtain ⟨e, htable, hentry⟩ := h.entry
  obtain ⟨hpos, hlt⟩ := h.range
  have hread : w.entry id = .ok e := by
    rw [entry_of_table htable hpos (by rw [List.length_set, List.length_replicate]; omega)]
    simp
  have hfresh : ∀ p t, held p = some t → p ≠ w.strings.length := fun p t hp =>
    Nat.ne_of_lt (lt_of_getElem? (h.held p t hp))
  have hcount := h.count
  simp only [allocated] at hcount
  obtain ⟨rfl, rfl⟩ | ⟨q, old, rfl, rfl, hq, hfree⟩ := hentry
  · refine ⟨⟨w.vendorModule, w.user, some ((List.replicate n.toNat none).set id.toNat
        (some w.strings.length)), w.strings ++ [some (sentText T id none params)],
        .setParameters id (sentText T id none params) :: w.vendorCalls⟩, ?_, rfl, h.loaded, h.range,
        ⟨some w.strings.length, rfl, .inr ⟨_, _, rfl, rfl, by simp, ?_⟩⟩, fun p t hp => ?_, ?_⟩
    · simp [Camera.cameraSetParameters, cameraFixupSetparams, Wrapper.freeEntry, hread, bind,
        Except.bind, pure, Except.pure, Wrapper.strdup, Wrapper.setEntry, Wrapper.read,
        Wrapper.vendorCall, htable, sentText]
    · cases hh : held w.strings.length with
      | none => rfl
      | some t => exact (hfresh _ t hh rfl).elim
    · have hlive := h.held p t hp
      exact (List.getElem?_append_left (lt_of_getElem? hlive)).trans hlive
    · simp [allocated] at hcount ⊢
      omega
  · have hne : ∀ p t, held p = some t → q ≠ p := by
      rintro p t hp rfl
      cases hfree.symm.trans hp
    refine ⟨⟨w.vendorModule, w.user, some ((List.replicate n.toNat none).set id.toNat
        (some w.strings.length)), w.strings.set q none ++ [some (sentText T id (some old) params)],
        .setParameters id (sentText T id (some old) params) :: w.vendorCalls⟩, ?_, rfl, h.loaded,
        h.range, ⟨some w.strings.length, rfl, .inr ⟨_, _, rfl, rfl, by simp, ?_⟩⟩,
        fun p t hp => ?_, ?_⟩
    · have hold : w.read q = .ok old := by simp [Wrapper.read, hq]
      simp [Camera.cameraSetParameters, cameraFixupSetparams, Wrapper.freeEntry, hread, hq,
        free_of_read hold, bind, Except.bind, pure, Except.pure, Wrapper.strdup, Wrapper.setEntry,
        Wrapper.read, Wrapper.vendorCall, htable, sentText]
    · cases hh : held w.strings.length with
      | none => rfl
      | some t => exact (hfresh _ t hh rfl).elim
    · have hlive := h.held p t hp
      have hlt' : p < (w.strings.set q none).length := by
        rw [List.length_set]
        exact lt_of_getElem? hlive
      rw [List.getElem?_append_left hlt', List.getElem?_set_ne (hne p t hp), hlive]
    · have hfreed := countP_free hq
      simp [allocated] at hcount hfreed ⊢
      omega

/-- Closing the camera frees the string in the table. -/
theorem OwnsStrings.close {v : VendorModule} (h : OwnsStrings id v.numCameras last held k w) :
    ∃ w', cameraDeviceClose v (some ⟨id⟩) w = .ok (0, w') ∧ (allocated w' : ℤ) = k := by
  obtain ⟨e, htable, hentry⟩ := h.entry
  obtain ⟨hpos, hlt⟩ := h.range
  have hread : ∀ j, 0 ≤ j → j < v.numCameras →
      w.entry j = .ok (if j = id then e else none) := by
    intro j hj hjv
    rw [entry_of_table htable hj (by rw [List.length_set, List.length_replicate]; omega),
      List.getElem_set, List.getElem_replicate]
    by_cases hjd : j = id
    · simp [hjd]
    · have hne : id.toNat ≠ j.toNat := by omega
      simp [hjd, hne]
  have hcount := h.count
  obtain ⟨w', hfree, hw', hcount'⟩ : ∃ w', freeEntries v.numCameras.toNat 0 w = .ok w' ∧
      w'.vendorModule = true ∧ (allocated w' : ℤ) = k := by
    obtain ⟨rfl, rfl⟩ | ⟨q, text, rfl, rfl, hq, -⟩ := hentry
    · refine ⟨w, freeEntries_null _ _ fun j hj hjv => ?_, h.loaded, by simpa using hcount⟩
      rw [hread j hj (by omega), ite_self]
    · have hfreed := countP_free hq
      refine ⟨{ w with strings := w.strings.set q none }, ?_, h.loaded, ?_⟩
      · have hold : w.read q = .ok text := by simp [Wrapper.read, hq]
        have hentry : w.entry id = .ok (some q) := by rw [hread id hpos hlt, if_pos rfl]
        refine freeEntries_one _ _ ⟨hpos, by omega⟩ hentry hold fun j hjd hj hjv => ?_
        rw [hread j hj (by omega), if_neg hjd]
      · simp [allocated] at hcount hfreed ⊢
        omega
  refine ⟨w'.vendorCall (.close id), ?_, hcount'⟩
  simp [cameraDeviceClose, cameraGetNumberOfCameras, checkVendorModule, h.loaded, hfree, bind,
    Except.bind, pure, Except.pure]

end heap

/-! ## One request -/

section requests

variable {T : ParameterText Text} {getVideoSize : Parameters → CInt × CInt} {id n base : ℤ}
  {s₀ s : Process Text} {h : History Text}

/-- The wrapper has translated the requests and owns what they say. -/
structure Serving (T : ParameterText Text) (getVideoSize : Parameters → CInt × CInt) (id n base : ℤ)
    (s₀ : Process Text) (h : History Text) (s : Process Text) : Prop where
  calls : s.calls = translated T getVideoSize id h ++ s₀.calls
  owns : OwnsStrings id n (lastText T getVideoSize id h) (given T id h)
    (base + kept T getVideoSize id h) s.wrapper

/-- A function of the device passes the call on to the vendor. -/
theorem cameraOps_eq (ret : CInt) (device : WrapperCameraDevice) (s : Process Text) (o : DeviceOp) :
    cameraOps ret (some device) s o =
      (if returnsInt o then .int ret else .void, s.call (.perform device.id o)) := by
  cases o <;> rfl

/-- A call that reached the vendor is recorded. -/
theorem advance_recorded (s : Process Text) {w : Wrapper Text} {c : VendorCall Text}
    (hw : w.vendorCalls = c :: s.wrapper.vendorCalls) :
    s.advance w = ⟨w, .recorded c :: s.calls⟩ := by
  simp [Process.advance, hw]

/-- Sending parameters. -/
theorem set_of_owns {last : Option Text} {held : Ptr → Option Text} {k : ℤ}
    (h : OwnsStrings id n last held k s.wrapper) (params : Text) (ret : CInt) :
    ∃ s', s.cameraSetParameters T params ret (some ⟨id⟩) = .ok (ret, s') ∧
      s'.calls = .recorded (.setParameters id (sentText T id last params)) :: s.calls ∧
      s'.wrapper.vendorCalls =
        .setParameters id (sentText T id last params) :: s.wrapper.vendorCalls ∧
      OwnsStrings id n (some (sentText T id last params)) held k s'.wrapper := by
  obtain ⟨w', hset, hcalls, howns⟩ := h.set T params ret
  refine ⟨⟨w', .recorded (.setParameters id (sentText T id last params)) :: s.calls⟩, ?_, rfl,
    hcalls, howns⟩
  simp [Process.cameraSetParameters, hset, bind, Except.bind, pure, Except.pure,
    advance_recorded s hcalls]

/-- Reading parameters copies what the client is to read. -/
theorem getParameters_eq {params : Text} (hp : (T.unflatten params).get keyPreviewFormat ≠ none) :
    s.cameraGetParameters T params (some ⟨id⟩) = .ok (some s.wrapper.strings.length,
      ⟨(s.wrapper.strdup (shownText T id params)).2,
        .putParameters id :: .getParameters id :: s.calls⟩) := by
  have hfixed : cameraFixupGetparams T id params = .ok (shownText T id params) := if_neg hp
  simp only [Process.cameraGetParameters, hfixed]
  rfl

/-- Starting a recording: what is read stays allocated, and in 4k so does what is written. -/
theorem startRecording_of_owns (getVideoSize : Parameters → CInt × CInt) {last : Option Text}
    {held : Ptr → Option Text} {k : ℤ} (h : OwnsStrings id n last held k s.wrapper)
    {params : Text} (hp : (T.unflatten params).get keyPreviewFormat ≠ none) (set ret : CInt) :
    ∃ s', s.cameraStartRecording T getVideoSize params set ret (some ⟨id⟩) = .ok (ret, s') ∧
      s'.calls = .startRecording id :: ((recordedText T getVideoSize id params).map fun text =>
        .recorded (.setParameters id (sentText T id last text))).toList ++
          .putParameters id :: .getParameters id :: s.calls ∧
      s'.wrapper.vendorCalls = ((recordedText T getVideoSize id params).map fun text =>
        .setParameters id (sentText T id last text)).toList ++ s.wrapper.vendorCalls ∧
      OwnsStrings id n
        (((recordedText T getVideoSize id params).map (sentText T id last)).or last) held
        (k + if (recordedText T getVideoSize id params).isSome then 2 else 1) s'.wrapper := by
  have hleak := h.strdup (shownText T id params) (fun _ _ => rfl) fun t ht =>
    (Nat.lt_irrefl _ (lt_of_getElem? (h.held _ t ht))).elim
  have hread : (s.wrapper.strdup (shownText T id params)).2.read s.wrapper.strings.length =
      .ok (shownText T id params) := by simp [Wrapper.read, Wrapper.strdup]
  have hget : s.cameraGetParameters T params (some ⟨id⟩) = _ := getParameters_eq hp
  by_cases h4k : is4kVideo getVideoSize (T.unflatten (shownText T id params)) = true
  · have hrec : recordedText T getVideoSize id params = some (T.flatten ((T.unflatten
        (shownText T id params)).set keyPreviewFormat pixelFormatNv12Venus)) := if_pos h4k
    generalize htext : T.flatten ((T.unflatten (shownText T id params)).set keyPreviewFormat
      pixelFormatNv12Venus) = text at hrec
    generalize hw : (s.wrapper.strdup (shownText T id params)).2 = w at hleak hread hget
    have hcalls : (w.strdup text).2.vendorCalls = s.wrapper.vendorCalls := by rw [← hw]; rfl
    have hleak' := hleak.strdup text (fun _ _ => rfl) fun t ht =>
      (Nat.lt_irrefl _ (lt_of_getElem? (hleak.held _ t ht))).elim
    have hread' : (w.strdup text).2.read (w.strdup text).1 = .ok text := by
      simp [Wrapper.read, Wrapper.strdup]
    obtain ⟨s', hset, hnew, hvendor, howns⟩ := set_of_owns (T := T)
      (s := ⟨(w.strdup text).2, .putParameters id :: .getParameters id :: s.calls⟩) hleak' text set
    refine ⟨s'.call (.startRecording id), ?_, ?_, ?_, ?_⟩
    · simp only [Process.cameraStartRecording, hget, hread, bind, Except.bind, pure,
        Except.pure, h4k, if_true, htext, hread', hset]
    · rw [hrec, Process.call, hnew]
      rfl
    · rw [hrec]
      exact hvendor.trans (congrArg _ hcalls)
    · rw [hrec]
      exact howns.congr rfl (fun _ => rfl) (Int.add_assoc ..)
  · have hrec : recordedText T getVideoSize id params = none := if_neg h4k
    refine ⟨⟨(s.wrapper.strdup (shownText T id params)).2,
      .startRecording id :: .putParameters id :: .getParameters id :: s.calls⟩, ?_, ?_, ?_, ?_⟩
    · simp only [Process.cameraStartRecording, hget, hread, bind, Except.bind, pure,
        Except.pure, h4k]
      rfl
    · rw [hrec]
      rfl
    · rw [hrec]
      rfl
    · rw [hrec]
      exact hleak

/-- Without the copies it is the same: it returns the same and calls the vendor alike. -/
theorem startRecording_agrees {last : Option Text} {held : Ptr → Option Text} {k : ℤ}
    (h : OwnsStrings id n last held k s.wrapper) {params : Text}
    (hp : (T.unflatten params).get keyPreviewFormat ≠ none) (set ret : CInt) :
    ∃ s' w, s.cameraStartRecording T getVideoSize params set ret (some ⟨id⟩) = .ok (ret, s') ∧
      Camera.cameraStartRecording T getVideoSize params set ret (some ⟨id⟩) s.wrapper =
        .ok (ret, w) ∧ s'.wrapper.vendorCalls = w.vendorCalls := by
  obtain ⟨s', hstart, -, hvendor, -⟩ :=
    startRecording_of_owns getVideoSize h hp set ret
  have hfixed : cameraFixupGetparams T id params = .ok (shownText T id params) := if_neg hp
  by_cases h4k : is4kVideo getVideoSize (T.unflatten (shownText T id params)) = true
  · have hrec : recordedText T getVideoSize id params = some (T.flatten ((T.unflatten
        (shownText T id params)).set keyPreviewFormat pixelFormatNv12Venus)) := if_pos h4k
    obtain ⟨w, hset, hcalls, -⟩ := h.set T (T.flatten ((T.unflatten
      (shownText T id params)).set keyPreviewFormat pixelFormatNv12Venus)) set
    refine ⟨s', w, hstart, ?_, ?_⟩
    · simp only [Camera.cameraStartRecording, hfixed, bind, Except.bind, pure, Except.pure, h4k,
        if_true, hset]
    · rw [hvendor, hrec, hcalls]
      rfl
  · have hrec : recordedText T getVideoSize id params = none := if_neg h4k
    refine ⟨s', s.wrapper, hstart, ?_, by rw [hvendor, hrec]; rfl⟩
    simp only [Camera.cameraStartRecording, hfixed, bind, Except.bind, pure, Except.pure, h4k]
    rfl

/-- **One request** is served, and its calls and strings are what they are to be. -/
theorem Serving.request (hs : Serving T getVideoSize id n base s₀ h s) {r : Request Text}
    (hr : Admissible T id h r) : ∃ reply s', serve T getVideoSize ⟨id⟩ s r = .ok (reply, s') ∧
      Answered r reply ∧ Serving T getVideoSize id n base s₀ ((r, reply) :: h) s' := by
  obtain ⟨hcalls, howns⟩ := hs
  cases r with
  | op o ret =>
    refine ⟨_, _, congrArg Except.ok (cameraOps_eq ret ⟨id⟩ s o), rfl, ?_, howns⟩
    exact congrArg (DeviceCall.perform id o :: ·) hcalls
  | setCallbacks callbacks =>
    refine ⟨.void, _, rfl, rfl, ?_, ?_⟩
    · rw [Process.cameraSetCallbacks, advance_recorded s rfl, hcalls]
      rfl
    · exact ⟨howns.loaded, howns.range, howns.entry, howns.held, howns.count⟩
  | setParameters params ret =>
    obtain ⟨s', hset, hnew, -, howns'⟩ := set_of_owns (T := T) howns params ret
    refine ⟨.int ret, s', by simp [serve, hset, bind, Except.bind, pure, Except.pure, replyInt],
      rfl, ?_, howns'⟩
    rw [hnew, hcalls]
    rfl
  | getParameters params =>
    refine ⟨.string (some s.wrapper.strings.length),
      ⟨(s.wrapper.strdup (shownText T id params)).2,
        .putParameters id :: .getParameters id :: s.calls⟩, ?_, ⟨_, rfl⟩,
      congrArg (DeviceCall.putParameters id :: .getParameters id :: ·) hcalls, ?_⟩
    · simp only [serve, getParameters_eq hr, bind, Except.bind, pure, Except.pure]
    have hstrdup : OwnsStrings id n _ (given T id ((.getParameters params,
        .string (some s.wrapper.strings.length)) :: h)) _ _ :=
      howns.strdup (shownText T id params) (fun p hp => if_neg hp)
        fun t ht => by simpa [given] using ht.symm
    exact hstrdup.congr rfl (fun _ => rfl) (Int.add_assoc ..)
  | putParameters params =>
    cases params with
    | none => exact ⟨.void, s, rfl, rfl, hcalls, howns⟩
    | some p =>
      obtain ⟨text, hp⟩ := Option.ne_none_iff_exists'.mp hr
      obtain ⟨w', hfree, -, howns'⟩ := howns.free hp
      refine ⟨.void, { s with wrapper := w' }, by
        simp [serve, Process.cameraPutParameters, hfree, bind, Except.bind, pure, Except.pure], rfl,
        hcalls, howns'.congr rfl (fun _ => rfl) (Int.add_sub_assoc ..)⟩
  | startRecording params set ret =>
    obtain ⟨s', hstart, hnew, -, howns'⟩ :=
      startRecording_of_owns getVideoSize howns hr set ret
    refine ⟨.int ret, s', ?_, rfl, ?_, howns'.congr rfl (fun _ => rfl) (Int.add_assoc ..)⟩
    · simp [serve, hstart, bind, Except.bind, pure, Except.pure, replyInt]
    · simp only [hnew, hcalls, translated]
      cases recordedText T getVideoSize id params <;> rfl

end requests

/-! ## A whole session -/

section session

variable {T : ParameterText Text} {getVideoSize : Parameters → CInt × CInt} {v : VendorModule}
  {o : OpenOutcome} {name : String} {old : Option WrapperCameraDevice} {d : WrapperCameraDevice}
  {w w₁ : Wrapper Text} {s : Process Text} {h : History Text}

/-- A camera that was opened has nothing in the table. -/
theorem serving_opened (calls : List (DeviceCall Text))
    (hopen : cameraDeviceOpen v o (some name) old w = (0, some d, w₁))
    (hid : 0 ≤ d.id ∧ d.id < v.numCameras) :
    Serving T getVideoSize d.id v.numCameras (allocated w) ⟨w₁, calls⟩ [] ⟨w₁, calls⟩ := by
  obtain ⟨hloads, htable, hdevice, hvendor, hops, hnumber, rfl, hw₁⟩ := open_ok hopen
  have hstrings : w₁.strings = w.strings ∧ w₁.vendorModule = true := by
    simp [cameraDeviceOpen, checkVendorModule_of_loads hloads, htable, hdevice, hvendor, hops,
      Int.not_lt.mpr hnumber, Wrapper.vendorCall] at hopen
    obtain ⟨-, rfl⟩ := hopen
    exact ⟨rfl, rfl⟩
  refine ⟨rfl, hstrings.2, hid, ⟨none, ?_, .inl ⟨rfl, rfl⟩⟩, fun p text hp => ?_, ?_⟩
  · rw [hw₁, List.set_replicate_self]
  · cases hp
  · simp [allocated, hstrings.1, kept, lastText]

/-- A session serves its client in every state. -/
theorem CameraSession.serving {n base : ℤ} {s₀ : Process Text}
    (h₀ : Serving T getVideoSize d.id n base s₀ [] s₀)
    (hs : CameraSession T getVideoSize d s₀ h s) : Serving T getVideoSize d.id n base s₀ h s := by
  induction hs with
  | opened => exact h₀
  | request hs hr hserve ih =>
    obtain ⟨reply, s', hserve', -, hserving⟩ := ih.request hr
    obtain ⟨rfl, rfl⟩ := Prod.mk.inj (Except.ok.inj (hserve.symm.trans hserve'))
    exact hserving

/-- **The wrapper translates.** In every session with a camera, from its opening on, the calls of
the vendor are those that the requests translate to, the strings the client has are as it got them,
and whatever it asks next is served. -/
theorem session_translates {calls : List (DeviceCall Text)}
    (hopen : cameraDeviceOpen v o (some name) old w = (0, some d, w₁))
    (hid : 0 ≤ d.id ∧ d.id < v.numCameras)
    (hs : CameraSession T getVideoSize d ⟨w₁, calls⟩ h s) :
    s.calls = translated T getVideoSize d.id h ++ calls ∧
    (∀ p text, given T d.id h p = some text → s.wrapper.read p = .ok text) ∧
    ∀ r, Admissible T d.id h r →
      ∃ reply s', serve T getVideoSize d s r = .ok (reply, s') ∧ Answered r reply := by
  have hserving := hs.serving (serving_opened calls hopen hid)
  refine ⟨hserving.calls, fun p text hp => ?_, fun r hr => ?_⟩
  · simp [Wrapper.read, hserving.owns.held p text hp]
  · obtain ⟨reply, s', hserve, hanswered, -⟩ := hserving.request hr
    exact ⟨reply, s', hserve, hanswered⟩

/-- **What a session leaves behind.** A camera that is opened and asked for anything can be closed,
and then as many strings are allocated more than before it was opened as the client did not give
back and the recordings lost. -/
theorem session_strings {calls : List (DeviceCall Text)}
    (hopen : cameraDeviceOpen v o (some name) old w = (0, some d, w₁))
    (hid : 0 ≤ d.id ∧ d.id < v.numCameras)
    (hs : CameraSession T getVideoSize d ⟨w₁, calls⟩ h s) :
    ∃ w', cameraDeviceClose v (some d) s.wrapper = .ok (0, w') ∧
      (allocated w' : ℤ) = allocated w + kept T getVideoSize d.id h :=
  (hs.serving (serving_opened calls hopen hid)).owns.close

end session

/-- A vendor's parameters that have a preview format only. -/
def previewOnly : Parameters := fun key => if key = keyPreviewFormat then some "yuv420sp" else none

/-- What a client asks of the front camera, newest first: it gets the parameters, sends them back,
gives its string back, starts a recording in 4k and gets the parameters once more. -/
def recordingHistory : History Parameters :=
  [(.getParameters previewOnly, .string (some 5)), (.startRecording previewOnly 0 0, .int 0),
    (.putParameters (some 0), .void), (.setParameters previewOnly 0, .int 0),
    (.getParameters previewOnly, .string (some 0))]

/-- A session with these requests. -/
theorem session_record : ∃ (w : Wrapper Parameters) (s : Process Parameters),
    cameraDeviceOpen twoCameras ⟨true, true, 0, true⟩ (some "1") none .zero = (0, some ⟨1⟩, w) ∧
    CameraSession textIsMap (fun _ => (3840, 2160)) ⟨1⟩ ⟨w, []⟩ recordingHistory s := by
  have hpreview : (textIsMap.unflatten previewOnly).get keyPreviewFormat ≠ none := by
    simp [textIsMap, Parameters.get, previewOnly]
  refine ⟨_, _, rfl, .request (.request (.request (.request (.request .opened hpreview rfl) trivial rfl)
    ?_ rfl) hpreview rfl) hpreview rfl⟩
  exact Option.some_ne_none _

/-- In 4k the vendor is sent the parameters once more; the client's second string reads as what it
was given, and it can be given back. -/
theorem session_translates_record : ∃ s : Process Parameters,
    s.calls.length = 9 ∧ s.wrapper.read 5 = .ok (shownText textIsMap 1 previewOnly) ∧
    ∃ reply s', serve textIsMap (fun _ => (3840, 2160)) ⟨1⟩ s (.putParameters (some 5)) =
      .ok (reply, s') ∧ reply = .void := by
  obtain ⟨w, s, hopen, hs⟩ := session_record
  obtain ⟨hcalls, hread, hserve⟩ := session_translates hopen (by decide) hs
  exact ⟨s, by rw [hcalls]; rfl, hread 5 _ rfl, hserve (.putParameters (some 5)) nofun⟩

/-- The recording loses two strings, and the client keeps one. -/
theorem session_strings_record : ∃ s w : Wrapper Parameters,
    cameraDeviceClose twoCameras (some ⟨1⟩) s = .ok (0, w) ∧ (allocated w : ℤ) = 3 := by
  obtain ⟨w, s, hopen, hs⟩ := session_record
  obtain ⟨w', hclose, hcount⟩ := session_strings hopen (by decide) hs
  exact ⟨s.wrapper, w', hclose, hcount⟩

end KlteCommon.Analysis

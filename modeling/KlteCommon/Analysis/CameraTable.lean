import KlteCommon.Camera.Wrapper

/-!
# The table of camera parameters

Each open camera is to find in `fixed_set_params` the parameters last sent for it. The table is
one for all cameras: every open makes a new one, and every close frees all its strings and leaves
the pointers.

The ladder: what a call does to the vendor's record and to the table; `Isolated` says what the table
holds when cameras did not get in each other's way, and every call keeps it (`isolated_open`,
`isolated_set`, `isolated_close`); so in every run in which no camera is opened while the table
serves another, or closed while it holds anything of another, the table is right
(`tableRight_run`). A camera that is closed takes the parameters of its neighbour along
(`closed_neighbour`), one that is opened makes them forgotten (`opened_neighbour`).
-/

set_option autoImplicit false

namespace KlteCommon.Analysis

open KlteCommon.Camera

variable {Text : Type}

/-! ## What is observed -/

/-- A camera is open. -/
def isOpen (i : ℤ) : List (VendorCall Text) → Bool
  | [] => false
  | .open j rv :: calls => (j == i && rv == 0) || isOpen i calls
  | .close j :: calls => j != i && isOpen i calls
  | _ :: calls => isOpen i calls

/-- The parameters last sent for a camera since it was opened. -/
def lastSent (i : ℤ) : List (VendorCall Text) → Option Text
  | [] => none
  | .open j _ :: calls => if j = i then none else lastSent i calls
  | .setParameters j params :: calls => if j = i then some params else lastSent i calls
  | _ :: calls => lastSent i calls

/-- Parameters of a camera were sent since a camera was opened last. -/
def inTable (i : ℤ) : List (VendorCall Text) → Bool
  | [] => false
  | .open _ _ :: _ => false
  | .setParameters j _ :: calls => j == i || inTable i calls
  | _ :: calls => inTable i calls

/-- The table holds what was last sent for each open camera, in strings that are not freed. -/
def TableRight (s : Wrapper Text) : Prop :=
  ∀ i, isOpen i s.vendorCalls = true →
    (s.entry i = .ok none ∧ lastSent i s.vendorCalls = none) ∨
      ∃ p params, s.entry i = .ok (some p) ∧ s.read p = .ok params ∧
        lastSent i s.vendorCalls = some params

/-! ## Runs -/

/-- A call of the wrapper: an open of which the allocations succeed, with what the vendor's open
returns, or a call for an open camera. -/
inductive CameraCall (Text : Type)
  | open (name : String) (vendorOpen : CInt)
  | setParameters (id : ℤ) (params : Text)
  | close (id : ℤ)

/-- What a call makes of the wrapper. -/
def CameraCall.exec (T : ParameterText Text) (v : VendorModule) (s : Wrapper Text) :
    CameraCall Text → Except Fault (Wrapper Text)
  | .open name rv => .ok (cameraDeviceOpen v ⟨true, true, rv, true⟩ (some name) none s).2.2
  | .setParameters id params => do
    let (_, s) ← cameraSetParameters T 0 (some ⟨id⟩) params s
    return s
  | .close id => do
    let (_, s) ← cameraDeviceClose v (some ⟨id⟩) s
    return s

/-- A sequence of calls. -/
def runCalls (T : ParameterText Text) (v : VendorModule) (s : Wrapper Text) :
    List (CameraCall Text) → Except Fault (Wrapper Text)
  | [] => .ok s
  | c :: calls => do runCalls T v (← c.exec T v s) calls

/-- Every call of a sequence meets `ok` where it is made. -/
def Meets (T : ParameterText Text) (v : VendorModule)
    (ok : Wrapper Text → CameraCall Text → Prop) : Wrapper Text → List (CameraCall Text) → Prop
  | _, [] => True
  | s, c :: calls => ok s c ∧ ∀ s', c.exec T v s = .ok s' → Meets T v ok s' calls

/-- A camera is opened when it exists and is not open, and used while it is. -/
def legal (v : VendorModule) (s : Wrapper Text) : CameraCall Text → Prop
  | .open name _ => 0 ≤ atoi name ∧ atoi name < v.numCameras ∧ isOpen (atoi name) s.vendorCalls = false
  | .setParameters id _ | .close id => isOpen id s.vendorCalls = true

/-- The condition on a call: a camera is opened only while the table holds nothing of an open
camera, and closed only while it holds nothing of any other. -/
def keptApart (s : Wrapper Text) : CameraCall Text → Prop
  | .open _ _ => ∀ i, isOpen i s.vendorCalls = true → inTable i s.vendorCalls = false
  | .setParameters _ _ => True
  | .close id => ∀ i, i ≠ id → inTable i s.vendorCalls = false

variable {T : ParameterText Text} {v : VendorModule}

/-- What every permitted call keeps holds at the end of a run of permitted calls, which does not
fault. -/
theorem run_invariant {ok : Wrapper Text → CameraCall Text → Prop} {I : Wrapper Text → Prop}
    (hstep : ∀ s c, I s → ok s c → ∃ s', c.exec T v s = .ok s' ∧ I s') {s : Wrapper Text}
    {calls : List (CameraCall Text)} (hI : I s) (hok : Meets T v ok s calls) :
    ∃ s', runCalls T v s calls = .ok s' ∧ I s' := by
  induction calls generalizing s with
  | nil => exact ⟨s, rfl, hI⟩
  | cons c calls ih =>
    obtain ⟨s', hs', hI'⟩ := hstep s c hI hok.1
    obtain ⟨s'', hs'', hI''⟩ := ih hI' (hok.2 s' hs')
    exact ⟨s'', by simp only [runCalls, hs']; exact hs'', hI''⟩

/-! ## What the table holds -/

/-- The cameras did not get in each other's way: once a camera is open, the table has an entry for
every camera, which is `NULL` until parameters are sent and then points to them while the camera is
open, and no two open cameras share a string. -/
structure Isolated (v : VendorModule) (s : Wrapper Text) : Prop where
  range : ∀ i, isOpen i s.vendorCalls = true → 0 ≤ i ∧ i < v.numCameras
  loaded : ∀ i, isOpen i s.vendorCalls = true → s.vendorModule = true
  table : ∀ i, isOpen i s.vendorCalls = true → ∃ table, s.fixedSetParams = some table ∧
    table.length = v.numCameras.toNat
  unset : ∀ i, inTable i s.vendorCalls = false → ∀ p, s.entry i ≠ .ok (some p)
  sent : ∀ i, isOpen i s.vendorCalls = true → inTable i s.vendorCalls = true →
    ∃ p params, s.entry i = .ok (some p) ∧ s.read p = .ok params ∧
      lastSent i s.vendorCalls = some params
  fresh : ∀ i, isOpen i s.vendorCalls = true → inTable i s.vendorCalls = false →
    lastSent i s.vendorCalls = none
  apart : ∀ i j p, isOpen i s.vendorCalls = true → isOpen j s.vendorCalls = true →
    s.entry i = .ok (some p) → s.entry j = .ok (some p) → i = j

section

variable {s s' : Wrapper Text} {table : List (Option Ptr)} {i : ℤ} {p : Ptr} {params : Text}

/-- An entry of the table. -/
theorem entry_of_table (h : s.fixedSetParams = some table) (hi : 0 ≤ i)
    (hlt : i.toNat < table.length) : s.entry i = .ok table[i.toNat] := by
  simp [Wrapper.entry, h, hi, hlt]

/-- A string that can be read is one of the heap. -/
theorem lt_of_read (h : s.read p = .ok params) : s.strings[p]? = some (some params) := by
  unfold Wrapper.read at h
  split at h
  · rename_i heq
    cases h
    exact heq
  · cases h

/-- A string that can be read can be freed. -/
theorem free_of_read (h : s.read p = .ok params) :
    s.free p = .ok { s with strings := s.strings.set p none } := by
  simp [Wrapper.free, lt_of_read h]

end

namespace Isolated

variable {s : Wrapper Text} {i : ℤ}

/-- Every open camera has an entry. -/
theorem entry_ok (h : Isolated v s) (hi : isOpen i s.vendorCalls = true) :
    ∃ p, s.entry i = .ok p := by
  obtain ⟨hpos, hlt⟩ := h.range i hi
  obtain ⟨table, htable, hlength⟩ := h.table i hi
  exact ⟨_, entry_of_table htable hpos (by omega)⟩

/-- It is `NULL` as long as no parameters were sent. -/
theorem entry_null (h : Isolated v s) (hi : isOpen i s.vendorCalls = true)
    (hunset : inTable i s.vendorCalls = false) : s.entry i = .ok none := by
  obtain ⟨p, hp⟩ := h.entry_ok hi
  cases p with
  | none => exact hp
  | some p => exact absurd hp (h.unset i hunset p)

/-- An isolated table is right. -/
theorem tableRight (h : Isolated v s) : TableRight s := by
  intro i hi
  cases hset : inTable i s.vendorCalls with
  | false => exact .inl ⟨h.entry_null hi hset, h.fresh i hi hset⟩
  | true => exact .inr (h.sent i hi hset)

end Isolated

/-! ## One call -/

/-- So is the one before anything was opened. -/
theorem isolated_zero : Isolated v (.zero : Wrapper Text) :=
  ⟨nofun, nofun, nofun, fun _ _ _ h => by simp [Wrapper.entry, Wrapper.zero] at h, nofun, nofun,
    nofun⟩

/-- What opening an existing camera does: the vendor's module cannot be loaded, or there is a new
table. -/
theorem open_cases (s : Wrapper Text) {name : String} (rv : CInt)
    (hlt : atoi name < v.numCameras) :
    (s.vendorModule = false ∧
      (cameraDeviceOpen v ⟨true, true, rv, true⟩ (some name) none s).2.2 =
        { s with vendorModule := false }) ∨
    (cameraDeviceOpen v ⟨true, true, rv, true⟩ (some name) none s).2.2 =
      { s with
        vendorModule := true
        fixedSetParams := some (List.replicate v.numCameras.toNat none)
        vendorCalls := .open (atoi name) rv :: s.vendorCalls } := by
  have hbound : ¬ atoi name > v.numCameras := by omega
  have hbound' : ¬ v.numCameras < atoi name := by omega
  unfold cameraDeviceOpen checkVendorModule
  by_cases hload : s.vendorModule = true
  · by_cases hrv : rv = 0 <;> simp [hload, hbound, hrv, Wrapper.vendorCall]
  · by_cases hzero : v.load = 0
    · by_cases hrv : rv = 0 <;> simp [hload, hzero, hbound', hrv, Wrapper.vendorCall]
    · simp [hload, hzero]

/-- Opening a camera while the table holds nothing of an open one. -/
theorem isolated_open {s : Wrapper Text} {name : String} {rv : CInt} (hI : Isolated v s)
    (hlegal : legal v s (.open name rv)) (hok : keptApart s (.open name rv)) :
    Isolated v (cameraDeviceOpen v ⟨true, true, rv, true⟩ (some name) none s).2.2 := by
  obtain ⟨hpos, hlt, hnew⟩ := hlegal
  obtain ⟨hload, hs'⟩ | hs' := open_cases s rv hlt
  · rw [hs', ← hload]
    exact hI
  rw [hs']
  have hnull : ∀ i p, ({ s with
      vendorModule := true
      fixedSetParams := some (List.replicate v.numCameras.toNat none)
      vendorCalls := .open (atoi name) rv :: s.vendorCalls } : Wrapper Text).entry i ≠
        .ok (some p) := by
    intro i p h
    simp only [Wrapper.entry, List.getElem?_replicate] at h
    split at h
    · by_cases hlt : i.toNat < v.numCameras.toNat <;> simp [hlt] at h
    · cases h
  have hopen : ∀ i, isOpen i (.open (atoi name) rv :: s.vendorCalls) = true →
      atoi name = i ∨ isOpen i s.vendorCalls = true := by
    intro i hi
    simp only [isOpen, Bool.or_eq_true, Bool.and_eq_true, beq_iff_eq] at hi
    exact hi.imp_left And.left
  refine ⟨fun i hi => ?_, fun _ _ => rfl, fun _ _ => ⟨_, rfl, List.length_replicate⟩,
    fun i _ p => hnull i p, nofun, fun i hi _ => ?_, fun i _ p _ _ h _ => absurd h (hnull i p)⟩
  · obtain rfl | hi := hopen i hi
    · exact ⟨hpos, hlt⟩
    · exact hI.range i hi
  · obtain rfl | hi := hopen i hi
    · exact if_pos rfl
    · unfold lastSent
      split
      · rfl
      · exact hI.fresh i hi (hok i hi)

/-- The parameters of an open camera are replaced by others, in a new string. -/
theorem Isolated.replace {s : Wrapper Text} {id : ℤ} {text : Text} {strings : List (Option Text)}
    (hI : Isolated v s) (hopen : isOpen id s.vendorCalls = true)
    (hlength : strings.length = s.strings.length)
    (hkeep : ∀ i q params, i ≠ id → isOpen i s.vendorCalls = true → s.entry i = .ok (some q) →
      s.read q = .ok params → strings[q]? = some (some params)) :
    Isolated v { s with
      fixedSetParams := s.fixedSetParams.map (·.set id.toNat (some s.strings.length))
      strings := strings ++ [some text]
      vendorCalls := .setParameters id text :: s.vendorCalls } := by
  obtain ⟨hpos, hlt⟩ := hI.range id hopen
  obtain ⟨table, htable, hsize⟩ := hI.table id hopen
  generalize hs' : ({ s with
    fixedSetParams := s.fixedSetParams.map (·.set id.toNat (some s.strings.length))
    strings := strings ++ [some text]
    vendorCalls := .setParameters id text :: s.vendorCalls } : Wrapper Text) = s'
  have hcalls : s'.vendorCalls = .setParameters id text :: s.vendorCalls := by rw [← hs']
  have hself : s'.entry id = .ok (some s.strings.length) := by
    rw [← hs', htable, entry_of_table rfl hpos (by rw [List.length_set]; omega)]
    simp
  have hother : ∀ i, i ≠ id → s'.entry i = s.entry i := by
    intro i hi
    by_cases hi' : 0 ≤ i
    · have hne : id.toNat ≠ i.toNat := by omega
      simp [← hs', Wrapper.entry, htable, hi', hne]
    · simp [← hs', Wrapper.entry, htable, hi']
  have hlast : s'.read s.strings.length = .ok text := by
    simp [← hs', Wrapper.read, ← hlength]
  -- what an open camera had sent is still there
  have hread : ∀ i q params, i ≠ id → isOpen i s.vendorCalls = true → s.entry i = .ok (some q) →
      s.read q = .ok params → s'.read q = .ok params := by
    intro i q params hi hopen hq hparams
    have hstring := hkeep i q params hi hopen hq hparams
    obtain ⟨hlt, -⟩ := List.getElem?_eq_some_iff.mp hstring
    simp [← hs', Wrapper.read, List.getElem?_append_left hlt, hstring]
  have hbelow : ∀ i p, isOpen i s.vendorCalls = true → s.entry i = .ok (some p) →
      p ≠ s.strings.length := by
    intro i p hi hp heq
    cases hset : inTable i s.vendorCalls with
    | false => exact hI.unset i hset p hp
    | true =>
      obtain ⟨q, params, hq, hparams, -⟩ := hI.sent i hi hset
      obtain rfl : q = p := by simpa [hq] using hp
      obtain ⟨hlt, -⟩ := List.getElem?_eq_some_iff.mp (lt_of_read hparams)
      exact Nat.ne_of_lt hlt heq
  refine ⟨fun i hi => hI.range i (by rwa [hcalls] at hi), fun i hi => ?_, fun i hi => ?_,
    fun i hi p => ?_, fun i hi hset => ?_, fun i hi hset => ?_, fun i j p hi hj hp hq => ?_⟩
  · rw [← hs']
    exact hI.loaded i (by rwa [hcalls] at hi)
  · rw [← hs', htable]
    exact ⟨_, rfl, by rw [List.length_set, hsize]⟩
  · simp only [hcalls, inTable, Bool.or_eq_false_iff, beq_eq_false_iff_ne] at hi
    rw [hother i (Ne.symm hi.1)]
    exact hI.unset i hi.2 p
  · simp only [hcalls, lastSent]
    by_cases hid : id = i
    · exact ⟨_, text, hid ▸ hself, hlast, if_pos hid⟩
    · simp only [hcalls, isOpen, inTable, Bool.or_eq_true, beq_iff_eq, hid, false_or] at hi hset
      obtain ⟨q, params, hq, hparams, hsent⟩ := hI.sent i hi hset
      exact ⟨q, params, (hother i (Ne.symm hid)).trans hq,
        hread i q params (Ne.symm hid) hi hq hparams, by rw [if_neg hid, hsent]⟩
  · simp only [hcalls, isOpen, inTable, Bool.or_eq_false_iff, beq_eq_false_iff_ne] at hi hset
    rw [hcalls, lastSent, if_neg hset.1]
    exact hI.fresh i hi hset.2
  · simp only [hcalls, isOpen] at hi hj
    by_cases hid : i = id <;> by_cases hjd : j = id
    · rw [hid, hjd]
    · subst hid
      obtain rfl : s.strings.length = p := by simpa [hself] using hp
      exact absurd rfl (hbelow j _ hj ((hother j hjd).symm.trans hq))
    · subst hjd
      obtain rfl : s.strings.length = p := by simpa [hself] using hq
      exact absurd rfl (hbelow i _ hi ((hother i hid).symm.trans hp))
    · exact hI.apart i j p hi hj ((hother i hid).symm.trans hp) ((hother j hjd).symm.trans hq)

/-- Sending parameters to an open camera. -/
theorem isolated_set {s : Wrapper Text} {id : ℤ} (params : Text) (hI : Isolated v s)
    (hopen : isOpen id s.vendorCalls = true) :
    ∃ r s', cameraSetParameters T 0 (some ⟨id⟩) params s = .ok (r, s') ∧ Isolated v s' := by
  unfold cameraSetParameters cameraFixupSetparams Wrapper.freeEntry
  cases hset : inTable id s.vendorCalls with
  | false =>
    have hnull := hI.entry_null hopen hset
    simp only [hnull, bind, Except.bind, pure, Except.pure, Wrapper.strdup, Wrapper.setEntry,
      Wrapper.read, Wrapper.vendorCall]
    simp only [List.getElem?_concat_length]
    exact ⟨_, _, rfl, hI.replace hopen rfl fun i q params _ _ _ hq => lt_of_read hq⟩
  | true =>
    obtain ⟨p, old, hp, hold, -⟩ := hI.sent id hopen hset
    simp only [hp, hold, bind, Except.bind, pure, Except.pure, free_of_read hold, Wrapper.strdup,
      Wrapper.setEntry, Wrapper.vendorCall, List.length_set]
    have hlast : ∀ text : Option Text,
        (s.strings.set p none ++ [text])[s.strings.length]? = some text := fun text => by
      rw [← List.length_set, List.getElem?_concat_length]
    simp only [Wrapper.read, hlast]
    refine ⟨_, _, rfl, hI.replace hopen List.length_set fun i q params hi hopen' hq hparams => ?_⟩
    have hne : p ≠ q := by
      rintro rfl
      exact hi (hI.apart i id p hopen' hopen hq hp)
    rw [List.getElem?_set_ne hne]
    exact lt_of_read hparams

/-- The loop of a close over entries that are `NULL`. -/
theorem freeEntries_null {s : Wrapper Text} (n : ℕ) (i : ℤ)
    (h : ∀ j, i ≤ j → j < i + n → s.entry j = .ok none) : freeEntries n i s = .ok s := by
  induction n generalizing i with
  | zero => rfl
  | succ n ih =>
    simp only [freeEntries, Wrapper.freeEntry, h i (Int.le_refl i) (by omega), bind, Except.bind, pure,
      Except.pure]
    exact ih (i + 1) fun j hj hlt => h j (by omega) (by omega)

/-- The loop of a close over entries of which only one points to a string: it is freed. -/
theorem freeEntries_one {s : Wrapper Text} {id : ℤ} {p : Ptr} {params : Text} (n : ℕ) (i : ℤ)
    (hid : i ≤ id ∧ id < i + n) (hp : s.entry id = .ok (some p)) (hread : s.read p = .ok params)
    (h : ∀ j, j ≠ id → i ≤ j → j < i + n → s.entry j = .ok none) :
    freeEntries n i s = .ok { s with strings := s.strings.set p none } := by
  induction n generalizing i with
  | zero => omega
  | succ n ih =>
    by_cases hi : i = id
    · subst hi
      simp only [freeEntries, Wrapper.freeEntry, hp, free_of_read hread, bind, Except.bind]
      exact freeEntries_null n _ fun j hj hlt => h j (by omega) (by omega) (by omega)
    · simp only [freeEntries, Wrapper.freeEntry, h i hi (Int.le_refl i) (by omega), bind, Except.bind, pure,
        Except.pure]
      exact ih (i + 1) (by omega) fun j hne hj hlt => h j hne (by omega) (by omega)

/-- Closing a camera while the table holds nothing of another one. -/
theorem isolated_close {s : Wrapper Text} {id : ℤ} (hI : Isolated v s)
    (hlegal : isOpen id s.vendorCalls = true) (hok : keptApart s (.close id)) :
    ∃ r s', cameraDeviceClose v (some ⟨id⟩) s = .ok (r, s') ∧ Isolated v s' := by
  obtain ⟨hpos, hlt⟩ := hI.range id hlegal
  obtain ⟨table, htable, hsize⟩ := hI.table id hlegal
  have hnull : ∀ j, inTable j s.vendorCalls = false → 0 ≤ j → j < v.numCameras →
      s.entry j = .ok none := by
    intro j hj hpos hlt
    have hentry := entry_of_table htable hpos (by omega)
    cases htj : table[j.toNat] with
    | none => rw [hentry, htj]
    | some p => exact absurd (hentry.trans (by rw [htj])) (hI.unset j hj p)
  obtain ⟨strings, hfree⟩ : ∃ strings,
      freeEntries v.numCameras.toNat 0 s = .ok { s with strings } := by
    cases hset : inTable id s.vendorCalls with
    | false =>
      refine ⟨s.strings, freeEntries_null _ _ fun j hj hjv => hnull j ?_ hj (by omega)⟩
      by_cases hjd : j = id
      · rw [hjd, hset]
      · exact hok j hjd
    | true =>
      obtain ⟨p, params, hp, hread, -⟩ := hI.sent id hlegal hset
      exact ⟨_, freeEntries_one _ _ (by omega) hp hread fun j hjd hj hjv =>
        hnull j (hok j hjd) hj (by omega)⟩
  have hloaded := hI.loaded id hlegal
  refine ⟨0, { s with strings, vendorCalls := .close id :: s.vendorCalls }, ?_, ?_⟩
  · simp [cameraDeviceClose, cameraGetNumberOfCameras, checkVendorModule, hloaded, hfree, bind,
      Except.bind, pure, Except.pure, Wrapper.vendorCall]
  -- what is open now was open before, and the table holds nothing of it
  have hopen : ∀ i, isOpen i (.close id :: s.vendorCalls) = true →
      i ≠ id ∧ isOpen i s.vendorCalls = true := by
    intro i hi
    simp only [isOpen, Bool.and_eq_true, bne_iff_ne] at hi
    exact ⟨hi.1.symm, hi.2⟩
  have hunset : ∀ i p, isOpen i (.close id :: s.vendorCalls) = true →
      s.entry i ≠ .ok (some p) := fun i p hi => hI.unset i (hok i (hopen i hi).1) p
  refine ⟨fun i hi => hI.range i (hopen i hi).2, fun i hi => hI.loaded i (hopen i hi).2,
    fun i hi => hI.table i (hopen i hi).2, fun i hi => hI.unset i hi, fun i hi hset => ?_,
    fun i hi hset => hI.fresh i (hopen i hi).2 hset,
    fun i j p hi _ hp _ => absurd hp (hunset i p hi)⟩
  exact absurd hset (by simp [inTable, hok i (hopen i hi).1])

/-! ## Every run -/

/-- **Cameras that keep apart.** In every run in which no camera is opened while the table holds
something of an open one, or closed while it holds something of another, no string is used after it
is freed, and the table holds for every open camera what was last sent for it. -/
theorem tableRight_run {calls : List (CameraCall Text)}
    (h : Meets T v (fun s c => legal v s c ∧ keptApart s c) .zero calls) :
    ∃ s, runCalls T v .zero calls = .ok s ∧ TableRight s := by
  have hstep : ∀ s c, Isolated v s → legal v s c ∧ keptApart s c →
      ∃ s', c.exec T v s = .ok s' ∧ Isolated v s' := by
    rintro s c hI ⟨hlegal, hok⟩
    cases c with
    | «open» name rv => exact ⟨_, rfl, isolated_open hI hlegal hok⟩
    | setParameters id params =>
      obtain ⟨r, s', hs', hI'⟩ := isolated_set (T := T) params hI hlegal
      exact ⟨s', by simp only [CameraCall.exec, hs']; rfl, hI'⟩
    | close id =>
      obtain ⟨r, s', hs', hI'⟩ := isolated_close hI hlegal hok
      exact ⟨s', by simp only [CameraCall.exec, hs']; rfl, hI'⟩
  obtain ⟨s, hs, hI⟩ := run_invariant hstep isolated_zero h
  exact ⟨s, hs, hI.tableRight⟩

/-- Parameters that are passed around as they are. -/
def textIsMap : ParameterText Parameters := ⟨id, id⟩

/-- A map without parameters. -/
def noParameters : Parameters := fun _ => none

/-- A module with a back and a front camera. -/
def twoCameras : VendorModule := ⟨0, 2⟩

/-- Both cameras are open and one of them is used: it keeps its parameters. -/
theorem tableRight_run_back : ∃ s, runCalls textIsMap twoCameras .zero
    [.open "0" 0, .open "1" 0, .setParameters 0 noParameters, .setParameters 0 noParameters,
      .close 0] = .ok s ∧ TableRight s := by
  refine tableRight_run ⟨⟨⟨by decide, by decide, rfl⟩, nofun⟩, fun s h => ?_⟩
  obtain rfl := Except.ok.inj h
  refine ⟨⟨⟨by decide, by decide, rfl⟩, fun _ _ => rfl⟩, fun s h => ?_⟩
  obtain rfl := Except.ok.inj h
  refine ⟨⟨rfl, trivial⟩, fun s h => ?_⟩
  obtain rfl := Except.ok.inj h
  refine ⟨⟨rfl, trivial⟩, fun s h => ?_⟩
  obtain rfl := Except.ok.inj h
  refine ⟨⟨rfl, fun i hi => ?_⟩, fun _ _ => trivial⟩
  change ((0 : ℤ) == i || ((0 : ℤ) == i || false)) = false
  simp [hi.symm]

/-- **A neighbour is closed.** Both cameras are open, parameters are sent for the first and the
second is closed: that frees the first one's string, which is read when parameters are sent again. -/
theorem closed_neighbour :
    Meets textIsMap twoCameras (legal twoCameras) .zero [.open "0" 0, .open "1" 0,
      .setParameters 0 noParameters, .close 1, .setParameters 0 noParameters] ∧
    runCalls textIsMap twoCameras .zero [.open "0" 0, .open "1" 0, .setParameters 0 noParameters,
      .close 1, .setParameters 0 noParameters] = .error .useAfterFree := by
  refine ⟨⟨⟨by decide, by decide, rfl⟩, fun s h => ?_⟩, rfl⟩
  obtain rfl := Except.ok.inj h
  refine ⟨⟨by decide, by decide, rfl⟩, fun s h => ?_⟩
  obtain rfl := Except.ok.inj h
  refine ⟨rfl, fun s h => ?_⟩
  obtain rfl := Except.ok.inj h
  refine ⟨rfl, fun s h => ?_⟩
  obtain rfl := Except.ok.inj h
  exact ⟨rfl, fun _ _ => trivial⟩

/-- **A neighbour is opened.** Parameters are sent for the first camera, the second is opened: the
new table knows nothing of them. -/
theorem opened_neighbour :
    Meets textIsMap twoCameras (legal twoCameras) .zero [.open "0" 0, .setParameters 0 noParameters,
      .open "1" 0] ∧
    ∃ s, runCalls textIsMap twoCameras .zero [.open "0" 0, .setParameters 0 noParameters,
      .open "1" 0] = .ok s ∧ ¬ TableRight s := by
  refine ⟨⟨⟨by decide, by decide, rfl⟩, fun s h => ?_⟩, _, rfl, fun htable => ?_⟩
  · obtain rfl := Except.ok.inj h
    refine ⟨rfl, fun s h => ?_⟩
    obtain rfl := Except.ok.inj h
    exact ⟨⟨by decide, by decide, rfl⟩, fun _ _ => trivial⟩
  · obtain ⟨-, hnone⟩ | ⟨p, params, hp, -⟩ := htable 0 rfl
    · cases hnone
    · cases hp

end KlteCommon.Analysis

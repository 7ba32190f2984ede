import KlteCommon.Analysis.Soundness
import KlteCommon.Standard.Chunks

/-!
# The match request

`vfmMatchImageToTemplates` is sent the templates of the occupied slots, without their numbers. The
request is written into a zeroed buffer, `matchData` says where: a byte with the number of templates
and then the templates, one behind the other, each with a header of four bytes.

The ladder: the chunks do not overlap (`matchData_ascending`), so each is read back as it was
written (`window_matchData`); hence a request with the chunks for the slots of `m` carries these
slots, in order, and nothing else (`carries_of_matchData`).
-/

set_option autoImplicit false

namespace KlteCommon.Analysis

open KlteCommon.Computation KlteCommon.Fingerprint KlteCommon.Standard

/-! ## What the buffer carries -/

/-- The size of `data` in `trust_zone_5x_cmd_t`. -/
def matchDataLength : ℕ := 563304

/-- Where the template at place `k` starts, with its header. -/
def templateStart (k : ℕ) : ℕ := 102392 + k * 15364

/-- The bytes of a request's `data`. -/
def requestBytes (req : Request) : ℕ → UInt8 := written (fun _ => 0) req.data

/-- How many templates a match request announces. -/
def announced (req : Request) : ℕ := (requestBytes req 102388).toNat

/-- The header of the template at place `k`. -/
def templateHeader (req : Request) (k : ℕ) : List UInt8 :=
  window (requestBytes req) (templateStart k) 2

/-- The template at place `k`. -/
def templateData (req : Request) (k : ℕ) : List UInt8 :=
  window (requestBytes req) (templateStart k + 4) fingerDataMaxLength

/-- A match request carries the occupied slots of `m`, one behind the other, and nothing else. -/
structure Carries (m : Mem) (req : Request) : Prop where
  announced : announced req = (occupiedSlots m).length
  header : ∀ k < (occupiedSlots m).length, templateHeader req k = [0x45, 0x28]
  template : ∀ (k : ℕ) (idx : ℤ), (occupiedSlots m)[k]? = some idx →
    templateData req k = (m.tz.finger idx).data.toList
  empty : ∀ i, templateStart (occupiedSlots m).length ≤ i → requestBytes req i = 0
  fits : ∀ c ∈ req.data, c.1 + c.2.length ≤ matchDataLength

/-- The chunks of the templates of some slots, from place `k` on. -/
def templateChunks (m : Mem) : List ℤ → ℕ → List (Chunk UInt8)
  | [], _ => []
  | idx :: slots, k =>
    (templateStart k, [0x45]) :: (templateStart k + 1, [0x28]) ::
      (templateStart k + 4, (m.tz.finger idx).data.toList) :: templateChunks m slots (k + 1)

/-- The chunks of a match request for the slots of `m`. -/
def matchData (m : Mem) : List (Chunk UInt8) :=
  (0, [0x1]) :: (102388, [(Int32.ofNat (occupiedSlots m).length).toUInt32.toUInt8]) ::
    templateChunks m (occupiedSlots m) 0

section chunks

variable {m : Mem} {slots : List ℤ} {c : Chunk UInt8}

/-- The length of a template. -/
theorem length_data (f : Finger) : f.data.toList.length = 0x2900 := Vector.length_toList

/-- Where a template's chunks are. -/
theorem templateChunks_bounds {k : ℕ} (h : c ∈ templateChunks m slots k) :
    templateStart k ≤ c.1 ∧ c.1 + c.2.length ≤ templateStart (k + slots.length) := by
  induction slots generalizing k with
  | nil => cases h
  | cons idx slots ih =>
    have hlast : templateStart (k + (slots.length + 1)) =
        templateStart (k + slots.length) + 15364 := by
      unfold templateStart
      omega
    have hfirst : templateStart k ≤ templateStart (k + slots.length) := by
      unfold templateStart
      omega
    simp only [templateChunks, List.mem_cons] at h
    obtain rfl | rfl | rfl | h := h
    · simp
      omega
    · simp
      omega
    · simp only [length_data, List.length_cons]
      omega
    · obtain ⟨hge, hle⟩ := ih h
      have hnext : templateStart (k + 1) = templateStart k + 15364 := by
        unfold templateStart
        omega
      rw [Nat.add_right_comm, Nat.add_assoc] at hle
      exact ⟨by omega, hle⟩

/-- The templates stand one behind the other. -/
theorem templateChunks_ascending (k : ℕ) : Ascending (templateChunks m slots k) := by
  induction slots generalizing k with
  | nil => exact .nil
  | cons idx slots ih =>
    have hnext : templateStart (k + 1) = templateStart k + 15364 := by
      unfold templateStart
      omega
    have hlater : ∀ d ∈ templateChunks m slots (k + 1), templateStart k + 15364 ≤ d.1 :=
      fun d hd => hnext ▸ (templateChunks_bounds hd).1
    refine .cons ?_ (.cons ?_ (.cons ?_ (ih (k + 1))))
    · simp only [List.forall_mem_cons, List.length_singleton]
      exact ⟨Nat.le_refl _, by omega, fun d hd => by have := hlater d hd; omega⟩
    · simp only [List.forall_mem_cons, List.length_singleton]
      exact ⟨by omega, fun d hd => by have := hlater d hd; omega⟩
    · intro d hd
      have hd' := hlater d hd
      simp only [length_data]
      omega

/-- What is written for the template at one place. -/
theorem templateChunks_mem {k j : ℕ} {idx : ℤ} (h : slots[j]? = some idx) :
    (templateStart (k + j), [0x45]) ∈ templateChunks m slots k ∧
      (templateStart (k + j) + 1, [0x28]) ∈ templateChunks m slots k ∧
      (templateStart (k + j) + 4, (m.tz.finger idx).data.toList) ∈ templateChunks m slots k := by
  induction slots generalizing k j with
  | nil => cases h
  | cons idx' slots ih =>
    cases j with
    | zero =>
      obtain rfl : idx' = idx := by simpa using h
      simp [templateChunks]
    | succ j =>
      obtain ⟨hfirst, hsecond, hdata⟩ := ih (k := k + 1) (by simpa using h)
      rw [Nat.add_assoc, Nat.add_comm 1 j] at hfirst hsecond hdata
      simp only [templateChunks, List.mem_cons]
      exact ⟨.inr (.inr (.inr hfirst)), .inr (.inr (.inr hsecond)), .inr (.inr (.inr hdata))⟩

end chunks

/-- No more slots are occupied than there are. -/
theorem length_occupiedSlots (m : Mem) : (occupiedSlots m).length ≤ maxNumFingers :=
  Nat.le_trans (List.length_filter_le _ _) (by simp)

/-- A number of slots survives on its way through an `int` into a byte. -/
theorem count_byte : ∀ n ≤ maxNumFingers, (Int32.ofNat n).toUInt32.toUInt8.toNat = n := by decide

/-- The parts of the request stand one behind the other. -/
theorem matchData_ascending (m : Mem) : Ascending (matchData m) := by
  have hlater : ∀ d ∈ templateChunks m (occupiedSlots m) 0, 102392 ≤ d.1 :=
    fun d hd => (templateChunks_bounds hd).1
  refine .cons ?_ (.cons (fun d hd => ?_) (templateChunks_ascending 0))
  · simp only [List.forall_mem_cons, List.length_singleton]
    exact ⟨by omega, fun d hd => by have := hlater d hd; omega⟩
  · have hd' := hlater d hd
    simp only [List.length_singleton]
    omega

/-- A chunk of the match request is read back from its buffer. -/
theorem window_matchData {m : Mem} {req : Request} (h : req.data = matchData m) {start : ℕ}
    {xs : List UInt8} (hc : (start, xs) ∈ matchData m) :
    window (requestBytes req) start xs.length = xs := by
  rw [requestBytes, h]
  exact window_written (matchData_ascending m) hc

/-- **The request carries the slots.** -/
theorem carries_of_matchData {m : Mem} {req : Request} (h : req.data = matchData m) :
    Carries m req := by
  have hmem : ∀ k idx, (occupiedSlots m)[k]? = some idx →
      (templateStart k, [0x45]) ∈ matchData m ∧ (templateStart k + 1, [0x28]) ∈ matchData m ∧
        (templateStart k + 4, (m.tz.finger idx).data.toList) ∈ matchData m := by
    intro k idx hk
    obtain ⟨hfirst, hsecond, hdata⟩ := templateChunks_mem (m := m) (k := 0) hk
    rw [Nat.zero_add] at hfirst hsecond hdata
    unfold matchData
    exact ⟨.tail _ (.tail _ hfirst), .tail _ (.tail _ hsecond), .tail _ (.tail _ hdata)⟩
  have hle := length_occupiedSlots m
  have hends : ∀ c ∈ req.data, c.1 + c.2.length ≤ templateStart (occupiedSlots m).length := by
    rw [h]
    unfold matchData
    simp only [List.forall_mem_cons, List.length_singleton]
    refine ⟨by unfold templateStart; omega, by unfold templateStart; omega, fun c hc => ?_⟩
    simpa using (templateChunks_bounds hc).2
  refine ⟨?_, fun k hk => ?_, fun k idx hk => ?_, fun i hi => ?_, fun c hc => ?_⟩
  · have hwindow := window_matchData h (.tail _ (.head _))
    have hbyte : requestBytes req 102388 =
        (Int32.ofNat (occupiedSlots m).length).toUInt32.toUInt8 := by
      simpa [window] using hwindow
    rw [announced, hbyte, count_byte _ hle]
  · obtain ⟨hfirst, hsecond, -⟩ := hmem k _ (List.getElem?_eq_getElem hk)
    have hfirst' := window_matchData h hfirst
    have hsecond' := window_matchData h hsecond
    simp [window] at hfirst' hsecond'
    simp [templateHeader, window, List.range_succ, hfirst', hsecond']
  · have hdata := window_matchData h (hmem k idx hk).2.2
    rwa [length_data] at hdata
  · exact written_of_beyond hends hi
  · have hend := hends c hc
    unfold templateStart maxNumFingers at *
    unfold matchDataLength
    omega

/-- Only the slots matter. -/
theorem occupiedSlots_congr {m m' : Mem} (h : m.tz.finger = m'.tz.finger) :
    occupiedSlots m = occupiedSlots m' := by
  simp only [occupiedSlots, h]

/-- Also for what a request carries. -/
theorem Carries.congr {m m' : Mem} {req : Request} (h : m.tz.finger = m'.tz.finger)
    (hc : Carries m req) : Carries m' req := by
  obtain ⟨hannounced, hheader, htemplate, hempty, hfits⟩ := hc
  rw [occupiedSlots_congr h] at hannounced hheader htemplate hempty
  exact ⟨hannounced, hheader, h ▸ htemplate, hempty, hfits⟩

end KlteCommon.Analysis

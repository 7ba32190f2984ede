import KlteCommon.Analysis.Isolation

/-!
# The conversion of Samsung's database

`db_convert_old_db` reads Samsung's enrollments into the slots, stores every occupied slot as a
row, and then removes Samsung's database, whatever became of the reads and of the inserts.

The ladder: what each loop does to the slots and the table, and which results it gets
(`does_clearFingers`, `does_readEnrollments`, `does_writeEnrollments`); what the whole conversion
does (`Converted`); and so when nothing is lost (`migrated_iff`): the removal fails, or every
enrollment was read into an empty slot and its insert completed. An insert that fails loses the
finger (`lost_finger`).
-/

set_option autoImplicit false

namespace KlteCommon.Analysis

open KlteCommon.Computation KlteCommon.Fingerprint

/-! ## What is observed -/

/-- The payload of Samsung's database is that of its first property. -/
def legacyPayload (legacy : LegacyDb) : List UInt8 := legacy.properties.headD []

/-- A blob, filled up with zeros to `n` bytes. -/
def zeroPadded (n : ℕ) (blob : List UInt8) : List UInt8 :=
  blob ++ List.replicate (n - blob.length) 0

/-- The row that keeps an enrollment of Samsung's database. -/
def keptRow (legacy : LegacyDb) (e : ℤ × List UInt8) : Row where
  id := e.1
  data := zeroPadded fingerDataMaxLength e.2
  payload := zeroPadded payloadMaxLength (legacyPayload legacy)

/-- Samsung's database is still there, or each of its enrollments is a row of the active group. -/
def Migrated (legacy : LegacyDb) (m : Mem) : Prop :=
  m.legacy ≠ none ∨ ∀ e ∈ legacy.enrollments, keptRow legacy e ∈ m.rows m.vdev.activeGid

/-- The enrollments are for different slots, and the blobs fit in. -/
structure Convertible (legacy : LegacyDb) : Prop where
  distinct : legacy.enrollments.Pairwise fun a b => a.1 ≠ b.1
  slots : ∀ e ∈ legacy.enrollments, isSlot e.1
  data : ∀ e ∈ legacy.enrollments, e.2.length ≤ fingerDataMaxLength
  payload : (legacyPayload legacy).length ≤ payloadMaxLength

/-- What the calls outside the HAL came to: a step on Samsung's database, a row that was inserted
with these blobs bound, and the removal of Samsung's database. -/
inductive CallResult
  | stepped (r : CInt)
  | inserted (gid : UInt32) (fid : ℤ) (data payload : Bool)
  | removed
  deriving DecidableEq

/-- The result an event shows. -/
def callResult : HalEvent → Option CallResult
  | .op (.sqlStep _) r => some (.stepped r)
  | .op (.sqlInsert gid fid data payload) r =>
    if r = sqliteDone then some (.inserted gid fid data payload) else none
  | .op .legacyRemove r => if r = 0 then some .removed else none
  | _ => none

/-- The results of a run, in order. -/
def callResults (es : List HalEvent) : List CallResult := es.filterMap callResult

/-- An event without a result. -/
theorem callResults_cons_of_none {e : HalEvent} (h : callResult e = none) (es : List HalEvent) :
    callResults (e :: es) = callResults es := List.filterMap_cons_none h

/-- The results of two parts of a run. -/
theorem callResults_append (es₁ es₂ : List HalEvent) :
    callResults (es₁ ++ es₂) = callResults es₁ ++ callResults es₂ := List.filterMap_append

/-- The results of the steps on Samsung's database. -/
def stepResults (rs : List CallResult) : List CInt :=
  rs.filterMap fun | .stepped r => some r | _ => none

/-- How many enrollments were read: the first step that gives no row ends the loop. -/
def enrollmentsRead (rs : List CallResult) : ℕ :=
  ((stepResults rs).takeWhile (· == sqliteRow)).length

/-- The payload was read: it takes the last step. -/
def payloadRead (rs : List CallResult) : Prop := (stepResults rs).getLast? = some sqliteRow

instance (rs : List CallResult) : Decidable (payloadRead rs) := inferInstanceAs (Decidable (_ = _))

/-- Enrollment `e`, the one after `i` others, got to the table: its insert completed with both
blobs, and with what was read over what was left in the slot these are the right bytes. -/
structure Transferred (m : Mem) (legacy : LegacyDb) (rs : List CallResult) (i : ℕ)
    (e : ℤ × List UInt8) : Prop where
  inserted : .inserted m.vdev.activeGid e.1 true true ∈ rs
  data : (overlay (cleared maxNumFingers 0 m.tz.finger e.1).data
    (if i < enrollmentsRead rs then e.2 else [])).toList = zeroPadded fingerDataMaxLength e.2
  payload : (overlay (cleared maxNumFingers 0 m.tz.finger e.1).payload
    (if payloadRead rs then legacyPayload legacy else [])).toList =
      zeroPadded payloadMaxLength (legacyPayload legacy)

/-- Samsung's database is not removed, or each enrollment is stored already or gets to the table. -/
def LosesNothing (m : Mem) (legacy : LegacyDb) (rs : List CallResult) : Prop :=
  .removed ∈ rs → ∀ i (h : i < legacy.enrollments.length),
    keptRow legacy legacy.enrollments[i] ∈ m.rows m.vdev.activeGid ∨
      Transferred m legacy rs i legacy.enrollments[i]

/-! ## The loops -/

/-- The memory with other slots. -/
def withFinger (m : Mem) (finger : ℤ → Finger) : Mem := { m with tz := { m.tz with finger } }

section

variable (m : Mem) (finger finger' : ℤ → Finger) (gid : UInt32)

/-- The slots that were put in. -/
@[simp] theorem withFinger_finger : (withFinger m finger).tz.finger = finger := rfl

/-- Only the last ones count. -/
@[simp] theorem withFinger_again :
    withFinger (withFinger m finger) finger' = withFinger m finger' := rfl

/-- The device stays. -/
@[simp] theorem withFinger_vdev : (withFinger m finger).vdev = m.vdev := rfl

/-- So does Samsung's database. -/
@[simp] theorem withFinger_legacy : (withFinger m finger).legacy = m.legacy := rfl

/-- So do the tables. -/
@[simp] theorem withFinger_rows : (withFinger m finger).rows gid = m.rows gid := rfl

/-- A store into one slot. -/
theorem setFinger_eq (idx : ℤ) (f : Finger) :
    m.setFinger idx f = withFinger m (Function.update m.tz.finger idx f) := rfl

end

/-- An enrollment, read into its slot. -/
def loadEnrollment (finger : ℤ → Finger) (e : ℤ × List UInt8) : ℤ → Finger :=
  Function.update finger e.1
    { finger e.1 with exist := true, data := overlay (finger e.1).data e.2 }

/-- A slot for which nothing is loaded. -/
theorem foldl_loadEnrollment_of_ne {rows : List (ℤ × List UInt8)} {j : ℤ} {finger : ℤ → Finger}
    (h : ∀ e ∈ rows, e.1 ≠ j) : rows.foldl loadEnrollment finger j = finger j := by
  induction rows generalizing finger with
  | nil => rfl
  | cons e rows ih =>
    obtain ⟨he, hrows⟩ := List.forall_mem_cons.mp h
    rw [List.foldl_cons, ih hrows, loadEnrollment, Function.update_of_ne he.symm]

/-- A slot for which one enrollment is loaded. -/
theorem foldl_loadEnrollment {rows : List (ℤ × List UInt8)} (h : rows.Pairwise fun a b => a.1 ≠ b.1)
    {e : ℤ × List UInt8} (he : e ∈ rows) (finger : ℤ → Finger) :
    rows.foldl loadEnrollment finger e.1 =
      { finger e.1 with exist := true, data := overlay (finger e.1).data e.2 } := by
  induction rows generalizing finger with
  | nil => cases he
  | cons a rows ih =>
    obtain ⟨ha, hrows⟩ := List.pairwise_cons.mp h
    rw [List.foldl_cons]
    obtain rfl | he := List.mem_cons.mp he
    · rw [foldl_loadEnrollment_of_ne fun b hb => (ha b hb).symm, loadEnrollment, Function.update_self]
    · rw [ih hrows he, loadEnrollment, Function.update_of_ne (ha e he).symm]

/-- Nothing overlaid. -/
theorem overlay_nil {n : ℕ} (a : Bytes n) : overlay a [] = a := by
  ext i hi
  simp [overlay]

/-- A slot after `k` enrollments were read: that of an enrollment has the data if it was one of
these. -/
theorem slot_of_enrollment {rows : List (ℤ × List UInt8)} (h : rows.Pairwise fun a b => a.1 ≠ b.1)
    (finger : ℤ → Finger) (k : ℕ) {i : ℕ} (hi : i < rows.length) :
    ((rows.take k).foldl loadEnrollment finger rows[i].1).data =
        overlay (finger rows[i].1).data (if i < k then rows[i].2 else []) ∧
      ((rows.take k).foldl loadEnrollment finger rows[i].1).payload = (finger rows[i].1).payload := by
  by_cases hk : i < k
  · have hmem : rows[i] ∈ rows.take k :=
      List.mem_take_iff_getElem.mpr ⟨i, by omega, rfl⟩
    rw [foldl_loadEnrollment (h.sublist (List.take_sublist k rows)) hmem]
    simp [hk]
  · have hne : ∀ e ∈ rows.take k, e.1 ≠ rows[i].1 := by
      intro e he
      obtain ⟨j, hj, rfl⟩ := List.mem_take_iff_getElem.mp he
      exact List.pairwise_iff_getElem.mp h j i (by omega) hi (by omega)
    rw [foldl_loadEnrollment_of_ne hne]
    simp [hk, overlay_nil]

section bodies

variable {fin : Tid → Bool} {t : Tid} {m m' : Mem} {es : List HalEvent}

attribute [local simp] callResults callResult

/-- Clearing the slots. -/
theorem does_clearFingers {n : ℕ} {idx : ℤ} {u : Unit}
    (h : hal.Does fin t (clearFingers n idx) m es u m') :
    m' = withFinger m (cleared n idx m.tz.finger) ∧ callResults es = [] := by
  induction n generalizing idx m es with
  | zero =>
    obtain ⟨rfl, -, rfl⟩ := Machine.does_pure.mp h
    have hnone : cleared 0 idx m'.tz.finger = m'.tz.finger := funext fun j => if_neg (by omega)
    exact ⟨by rw [hnone]; rfl, rfl⟩
  | succ n ih =>
    obtain ⟨_, _, m₁, es₁, hact, h₁, rfl⟩ := does_act h
    obtain rfl := by simpa [act] using hact
    obtain ⟨rfl, hes⟩ := ih h₁
    refine ⟨?_, by simpa using hes⟩
    simp only [Mem.set, setFinger_eq, withFinger_again, withFinger_finger]
    congr 1
    funext j
    simp only [cleared, Function.update_apply]
    grind

/-- The loop that reads: `k` enrollments, until a step gives no row. -/
theorem does_readEnrollments {rows : List (ℤ × List UInt8)} {u : Unit}
    (h : hal.Does fin t (readEnrollments rows) m es u m') : ∃ k r, k ≤ rows.length ∧ r ≠ sqliteRow ∧
      callResults es = List.replicate k (.stepped sqliteRow) ++ [.stepped r] ∧
      m' = withFinger m ((rows.take k).foldl loadEnrollment m.tz.finger) := by
  induction rows generalizing m es with
  | nil =>
    obtain ⟨ch, r, m₁, es₁, hact, h₁, rfl⟩ := does_act h
    obtain ⟨rfl, -, rfl⟩ := Machine.does_pure.mp h₁
    obtain ⟨hrow, rfl, rfl⟩ := by simpa [act] using hact
    exact ⟨0, _, Nat.zero_le _, hrow, rfl, rfl⟩
  | cons e rows ih =>
    obtain ⟨ch, r, m₁, es₁, hact, h₁, rfl⟩ := does_act h
    obtain ⟨-, rfl, rfl⟩ := by simpa [act] using hact
    by_cases hr : ch.int = sqliteRow
    · rw [if_neg (by simpa using hr)] at h₁
      obtain ⟨_, _, m₁, es₁, hcopy, h₂, rfl⟩ := does_act h₁
      obtain ⟨_, _, m₂, es₂, hexist, h₃, rfl⟩ := does_act h₂
      obtain rfl := by simpa [act] using hcopy
      obtain rfl := by simpa [act] using hexist
      obtain ⟨k, r, hk, hr', hes, rfl⟩ := ih h₃
      refine ⟨k + 1, r, Nat.succ_le_succ hk, hr', ?_, ?_⟩
      · have hes : CallResult.stepped ch.int :: callResults es₂ = _ := congrArg (_ :: ·) hes
        rwa [hr] at hes ⊢
      · simp [Mem.set, setFinger_eq, loadEnrollment]
    · rw [if_pos hr] at h₁
      obtain ⟨rfl, -, rfl⟩ := Machine.does_pure.mp h₁
      exact ⟨0, _, Nat.zero_le _, hr, rfl, rfl⟩

/-- An insert, which may fail. -/
theorem does_dbWriteToDb {fid : ℤ} {r : CInt}
    (h : hal.Does fin t (dbWriteToDb false fid) m es r m') :
    m'.tz.finger = m.tz.finger ∧ m'.vdev = m.vdev ∧ m'.legacy = m.legacy ∧
      (callResults es = [] ∧ m'.rows m.vdev.activeGid = m.rows m.vdev.activeGid ∨ ∃ data payload,
        callResults es = [.inserted m.vdev.activeGid fid data payload] ∧
          m'.rows m.vdev.activeGid = m.rows m.vdev.activeGid ++ [m.newRow fid data payload]) := by
  obtain ⟨_, gid, m₁, es₁, hload, h₁, rfl⟩ := does_act h
  obtain ⟨rfl, rfl⟩ := by simpa [act] using hload
  obtain ⟨ch, ret, m₂, es₂, hprepare, h₂, rfl⟩ := does_act h₁
  obtain rfl : m = m₂ := by
    simp only [act] at hprepare
    split at hprepare
    · exact congrArg Prod.snd (Option.some.inj hprepare)
    · split at hprepare
      · exact congrArg Prod.snd (Option.some.inj hprepare)
      · cases hprepare
  split at h₂
  · obtain ⟨rfl, -, rfl⟩ := Machine.does_pure.mp h₂
    exact ⟨rfl, rfl, rfl, .inl ⟨rfl, rfl⟩⟩
  · obtain ⟨_, data, m₁, es₁, hdata, h₃, rfl⟩ := does_act h₂
    obtain ⟨_, payload, m₂, es₂, hpayload, h₄, rfl⟩ := does_act h₃
    obtain ⟨-, rfl⟩ := by simpa [act] using hdata
    obtain ⟨-, rfl⟩ := by simpa [act] using hpayload
    obtain ⟨ch, r, m₃, es₃, hinsert, h₅, rfl⟩ := does_act h₄
    obtain ⟨rfl, rfl, rfl⟩ := Machine.does_pure.mp h₅
    have heff := act_effect hinsert
    refine ⟨heff.finger, heff.vdev, heff.legacy, ?_⟩
    by_cases hr : r = sqliteDone
    · refine .inr ⟨data == sqliteOk, payload == sqliteOk, by subst hr; rfl, ?_⟩
      rw [rows_of_db (heff.db.trans (if_pos hr))]
      exact rows_setTable ..
    · refine .inl ⟨?_, rows_of_db (heff.db.trans (if_neg hr))⟩
      simp [hr]

/-- The row that an insert makes of a slot with the payload copied into it, by which of the blobs
are bound. -/
def writtenRow (finger : ℤ → Finger) (payload : List UInt8) (x : ℤ × Bool × Bool) : Row where
  id := x.1
  data := if x.2.1 then (finger x.1).data.toList else []
  payload := if x.2.2 then (overlay (finger x.1).payload payload).toList else []

/-- A row depends on its slot only. -/
theorem writtenRow_congr {finger finger' : ℤ → Finger} {payload : List UInt8}
    {x : ℤ × Bool × Bool} (h : finger x.1 = finger' x.1) :
    writtenRow finger payload x = writtenRow finger' payload x := by
  rw [writtenRow, writtenRow, h]

/-- The loop that writes: the occupied slots whose insert completes. -/
theorem does_writeEnrollments {payload : List UInt8} {n : ℕ} {idx : ℤ} {u : Unit}
    (h : hal.Does fin t (writeEnrollments payload n idx) m es u m') :
    m'.vdev = m.vdev ∧ m'.legacy = m.legacy ∧ ∃ stored : List (ℤ × Bool × Bool),
      (∀ x ∈ stored, idx ≤ x.1) ∧
      callResults es = stored.map (fun x => .inserted m.vdev.activeGid x.1 x.2.1 x.2.2) ∧
      m'.rows m.vdev.activeGid =
        m.rows m.vdev.activeGid ++ stored.map (writtenRow m.tz.finger payload) := by
  induction n generalizing idx m es with
  | zero =>
    obtain ⟨rfl, -, rfl⟩ := Machine.does_pure.mp h
    exact ⟨rfl, rfl, [], by simp⟩
  | succ n ih =>
    obtain ⟨_, b, m₁, es₁, hload, h₁, rfl⟩ := does_act h
    obtain ⟨rfl, rfl⟩ := by simpa [act] using hload
    split at h₁
    · obtain ⟨_, _, m₁, es₁, hcopy, h₂, rfl⟩ := does_act h₁
      obtain ⟨es₂, r, m₂, es₃, hwrite, h₃, rfl⟩ := Machine.does_invoke.mp h₂
      have heff := act_effect hcopy
      obtain ⟨hfinger, hvdev, hlegacy, hone⟩ := does_dbWriteToDb hwrite
      obtain ⟨hvdev', hlegacy', stored, hidx, hes, hrows⟩ := ih h₃
      have hvdev₁ : m₁.vdev = m.vdev := heff.vdev
      have hvdev₂ : m₂.vdev = m.vdev := hvdev.trans hvdev₁
      have hkeep : stored.map (writtenRow m₂.tz.finger payload) =
          stored.map (writtenRow m.tz.finger payload) := by
        refine List.map_congr_left fun x hx => writtenRow_congr ?_
        have hne : x.1 ≠ idx := by have := hidx x hx; omega
        rw [hfinger, heff.finger]
        exact Function.update_of_ne hne ..
      have hrow : ∀ data bound, m₁.newRow idx data bound =
          writtenRow m.tz.finger payload (idx, data, bound) := by
        simp [Mem.newRow, writtenRow, heff.finger, fingerAfter]
      rw [hvdev₁, rows_of_db heff.db] at hone
      rw [hvdev₂] at hes hrows
      refine ⟨hvdev'.trans hvdev₂, hlegacy'.trans (hlegacy.trans heff.legacy), ?_⟩
      rw [callResults_cons_of_none rfl, callResults_cons_of_none rfl, callResults_cons_of_none rfl,
        callResults_append, hes, hrows, hkeep]
      obtain ⟨hes₂, hrows₂⟩ | ⟨data, bound, hes₂, hrows₂⟩ := hone
      · refine ⟨stored, fun x hx => by have := hidx x hx; omega, by rw [hes₂]; rfl, ?_⟩
        rw [hrows₂]
      · refine ⟨(idx, data, bound) :: stored, ?_, by rw [hes₂]; rfl, ?_⟩
        · exact List.forall_mem_cons.mpr
            ⟨Int.le_refl idx, fun x hx => by have := hidx x hx; omega⟩
        · rw [hrows₂, hrow, List.map_cons, List.append_assoc]
          rfl
    · obtain ⟨hvdev, hlegacy, stored, hidx, hes, hrows⟩ := ih h₁
      exact ⟨hvdev, hlegacy, stored, fun x hx => by have := hidx x hx; omega, hes, hrows⟩

/-- What a conversion did that got to the removal of Samsung's database: `k` steps gave a row, then
one did not, then came the step for the payload. -/
structure Converted (legacy : LegacyDb) (m : Mem) (rs : List CallResult) (m' : Mem) (k : ℕ)
    (r last : CInt) (stored : List (ℤ × Bool × Bool)) : Prop where
  failed : r ≠ sqliteRow
  vdev : m'.vdev = m.vdev
  results : rs = List.replicate k (.stepped sqliteRow) ++ .stepped r :: .stepped last ::
    stored.map (fun x => .inserted m.vdev.activeGid x.1 x.2.1 x.2.2) ++ [.removed]
  rows : m'.rows m.vdev.activeGid = m.rows m.vdev.activeGid ++ stored.map
    (writtenRow ((legacy.enrollments.take k).foldl loadEnrollment
      (cleared maxNumFingers 0 m.tz.finger)) (if last = sqliteRow then legacyPayload legacy else []))

/-- The conversion: it leaves Samsung's database, or removes it after all the rest. -/
theorem does_dbConvertOldDb {legacy : LegacyDb} {ret : CInt} (hlegacy : m.legacy = some legacy)
    (h : hal.Does fin t dbConvertOldDb m es ret m') :
    m'.legacy = some legacy ∧ .removed ∉ callResults es ∨
      m'.legacy = none ∧ ∃ k r last stored, Converted legacy m (callResults es) m' k r last stored := by
  obtain ⟨es₁, _, m₁, es₂, hclear, h₁, rfl⟩ := Machine.does_bind.mp h
  obtain ⟨rfl, hes₁⟩ := does_clearFingers hclear
  obtain ⟨_, r, m₂, es₃, hopen, h₂, rfl⟩ := does_act h₁
  obtain ⟨-, rfl⟩ := by simpa [act] using hopen
  split at h₂
  · obtain ⟨rfl, -, rfl⟩ := Machine.does_pure.mp h₂
    exact .inl ⟨hlegacy, by rw [callResults_append, hes₁]; simp⟩
  obtain ⟨_, enrollments, m₃, es₄, hselect, h₃, rfl⟩ := does_act h₂
  obtain ⟨henrollments, rfl⟩ := by simpa [act] using hselect
  obtain ⟨es₅, _, m₄, es₆, hread, h₄, rfl⟩ := Machine.does_bind.mp h₃
  obtain ⟨k, r, hk, hr, hes₅, rfl⟩ := does_readEnrollments hread
  obtain ⟨_, properties, m₅, es₇, hselect', h₅, rfl⟩ := does_act h₄
  obtain ⟨hproperties, rfl⟩ := by simpa [act] using hselect'
  obtain ⟨_, last, m₆, es₈, hstep, h₆, rfl⟩ := does_act h₅
  obtain ⟨hlast, hint, rfl⟩ := by simpa [act] using hstep
  rw [hint] at hlast
  obtain ⟨es₉, _, m₇, es₁₀, hwrite, h₇, rfl⟩ := Machine.does_bind.mp h₆
  obtain ⟨hvdev, hlegacy', stored, -, hes₉, hrows⟩ := does_writeEnrollments hwrite
  obtain ⟨_, c, m₈, es₁₁, hclose, h₈, rfl⟩ := does_act h₇
  obtain ⟨-, rfl⟩ := by simpa [act] using hclose
  have htake : (enrollments.getD []).take k = legacy.enrollments.take k := by
    rw [hlegacy] at henrollments
    split at henrollments
    · rw [← henrollments]
      rfl
    · obtain rfl := henrollments
      obtain rfl : k = 0 := by simpa using hk
      rfl
  have hpayload : (if last = sqliteRow then (properties.getD []).headD [] else []) =
      if last = sqliteRow then legacyPayload legacy else [] := by
    refine if_ctx_congr Iff.rfl (fun hrow => ?_) fun _ => rfl
    rw [hlegacy] at hproperties
    split at hproperties
    · rw [← hproperties]
      rfl
    · obtain rfl := hproperties
      exact absurd rfl (hlast.1 hrow)
  rw [hpayload, htake] at hrows
  rw [callResults_append, hes₁, List.nil_append, callResults_cons_of_none rfl, callResults_cons_of_none rfl,
    callResults_append, hes₅, callResults_cons_of_none rfl]
  have hstep : callResults (.op (.sqlStep !(properties.getD []).isEmpty) last ::
      (es₉ ++ .op .legacyClose c :: es₁₁)) = .stepped last :: stored.map
        (fun x => .inserted m.vdev.activeGid x.1 x.2.1 x.2.2) ++ callResults es₁₁ := by
    refine congrArg (_ :: ·) ((callResults_append ..).trans ?_)
    rw [hes₉, callResults_cons_of_none rfl]
    rfl
  rw [hstep]
  split at h₈
  · obtain ⟨rfl, -, rfl⟩ := Machine.does_pure.mp h₈
    refine .inl ⟨hlegacy'.trans hlegacy, ?_⟩
    simp [callResults]
  · obtain ⟨_, _, m₉, es₁₂, hremove, h₉, rfl⟩ := does_act h₈
    obtain ⟨rfl, rfl, rfl⟩ := Machine.does_pure.mp h₉
    have heff := act_effect hremove
    have hvdev' : m'.vdev = m.vdev := heff.vdev.trans hvdev
    by_cases hret : ret = 0
    · refine .inr ⟨heff.legacy.trans (if_pos hret), k, r, last, stored, hr, hvdev', ?_, ?_⟩
      · simp [callResults, callResult, hret]
      · rw [rows_of_db heff.db]
        exact hrows
    · refine .inl ⟨(heff.legacy.trans (if_neg hret)).trans (hlegacy'.trans hlegacy), ?_⟩
      simp [callResults, callResult, hret]

end bodies

/-! ## What is lost -/

section converted

variable {legacy : LegacyDb} {m m' : Mem} {rs : List CallResult} {k : ℕ} {r last : CInt}
  {stored : List (ℤ × Bool × Bool)}

/-- What the steps of a conversion came to. -/
theorem Converted.stepResults_eq (h : Converted legacy m rs m' k r last stored) :
    stepResults rs = List.replicate k sqliteRow ++ [r, last] := by
  rw [h.results]
  simp [stepResults, List.filterMap_append]

/-- How many enrollments it read. -/
theorem Converted.enrollmentsRead_eq (h : Converted legacy m rs m' k r last stored) :
    enrollmentsRead rs = k := by
  rw [enrollmentsRead, h.stepResults_eq, List.takeWhile_append_of_pos (by simp)]
  simp [h.failed]

/-- Whether it read the payload. -/
theorem Converted.payloadRead_iff (h : Converted legacy m rs m' k r last stored) :
    payloadRead rs ↔ last = sqliteRow := by
  simp [payloadRead, h.stepResults_eq]

/-- What it inserted whole. -/
theorem Converted.inserted_iff (h : Converted legacy m rs m' k r last stored) (id : ℤ) :
    .inserted m.vdev.activeGid id true true ∈ rs ↔ (id, true, true) ∈ stored := by
  rw [h.results]
  simp

/-- It removed Samsung's database. -/
theorem Converted.removed (h : Converted legacy m rs m' k r last stored) : .removed ∈ rs := by
  rw [h.results]
  simp

/-- A padded blob is not empty. -/
theorem zeroPadded_ne_nil {n : ℕ} (hn : 0 < n) (blob : List UInt8) : zeroPadded n blob ≠ [] := by
  have hlength : n ≤ (zeroPadded n blob).length := by
    simp only [zeroPadded, List.length_append, List.length_replicate]
    omega
  exact List.ne_nil_of_length_pos (Nat.lt_of_lt_of_le hn hlength)

/-- The rows that were inserted are the enrollments that got to the table. -/
theorem Converted.keptRow_mem_iff (h : Converted legacy m rs m' k r last stored)
    (hdistinct : legacy.enrollments.Pairwise fun a b => a.1 ≠ b.1) {i : ℕ}
    (hi : i < legacy.enrollments.length) :
    keptRow legacy legacy.enrollments[i] ∈ stored.map
        (writtenRow ((legacy.enrollments.take k).foldl loadEnrollment
          (cleared maxNumFingers 0 m.tz.finger))
          (if last = sqliteRow then legacyPayload legacy else [])) ↔
      Transferred m legacy rs i legacy.enrollments[i] := by
  obtain ⟨hdata, hpayload⟩ :=
    slot_of_enrollment hdistinct (cleared maxNumFingers 0 m.tz.finger) k hi
  have hread := h.enrollmentsRead_eq
  have hlast := h.payloadRead_iff
  constructor
  · intro hmem
    obtain ⟨⟨id, data, payload⟩, hx, heq⟩ := List.mem_map.mp hmem
    simp only [writtenRow, keptRow, Row.mk.injEq] at heq
    obtain ⟨rfl, hd, hp⟩ := heq
    cases data with
    | false => exact absurd hd.symm (zeroPadded_ne_nil (by decide) _)
    | true =>
      cases payload with
      | false => exact absurd hp.symm (zeroPadded_ne_nil (by decide) _)
      | true =>
        rw [if_pos rfl, hdata] at hd
        rw [if_pos rfl, hpayload] at hp
        exact ⟨(h.inserted_iff _).mpr hx, by rw [hread]; exact hd, by simp only [hlast]; exact hp⟩
  · rintro ⟨hinserted, hd, hp⟩
    refine List.mem_map.mpr ⟨_, (h.inserted_iff _).mp hinserted, ?_⟩
    rw [hread] at hd
    simp only [hlast] at hp
    simp only [writtenRow, keptRow, hdata, hpayload, hd, hp, if_true]

end converted

/-- **The conversion loses nothing** exactly when the removal of Samsung's database fails, or every
enrollment is a row already or its insert completes after the reads did. -/
theorem migrated_iff {legacy : LegacyDb} {m m' : Mem} {fin : Tid → Bool} {t : Tid}
    {chs : List Choice} {es : List HalEvent} {ret : CInt} (hlegacy : m.legacy = some legacy)
    (hconvertible : Convertible legacy)
    (h : hal.solo fin t chs dbConvertOldDb m = some (es, .ret ret, m')) :
    Migrated legacy m' ↔ LosesNothing m legacy (callResults es) := by
  obtain ⟨hkept, hnone⟩ | ⟨hnone, k, r, last, stored, hconv⟩ :=
    does_dbConvertOldDb hlegacy (Machine.does_of_solo h)
  · exact ⟨fun _ hremoved => absurd hremoved hnone, fun _ => .inl (by simp [hkept])⟩
  · simp only [Migrated, hnone, ne_eq, not_true_eq_false, false_or, LosesNothing, hconv.removed,
      true_implies, hconv.vdev, hconv.rows, List.mem_append]
    rw [List.forall_mem_iff_forall_getElem]
    refine forall₂_congr fun i hi => or_congr_right ?_
    exact hconv.keptRow_mem_iff hconvertible.distinct hi

/-- A blob over zeros. -/
theorem overlay_zero {n : ℕ} {blob : List UInt8} (h : blob.length ≤ n) :
    (overlay (Vector.replicate n 0) blob).toList = zeroPadded n blob := by
  refine List.ext_getElem (by simp [zeroPadded]; omega) fun i hi _ => ?_
  rw [Vector.length_toList] at hi
  by_cases hblob : i < blob.length <;>
    simp [overlay, zeroPadded, List.getElem_append, List.getD, hblob]

/-- What is read into an empty slot gets to the table with the insert. -/
theorem Transferred.of_zero {m : Mem} {legacy : LegacyDb} {rs : List CallResult} {i : ℕ}
    {e : ℤ × List UInt8} (hslot : cleared maxNumFingers 0 m.tz.finger e.1 = .zero)
    (hdata : e.2.length ≤ fingerDataMaxLength)
    (hpayload : (legacyPayload legacy).length ≤ payloadMaxLength) (hread : i < enrollmentsRead rs)
    (hlast : payloadRead rs) (hinserted : .inserted m.vdev.activeGid e.1 true true ∈ rs) :
    Transferred m legacy rs i e where
  inserted := hinserted
  data := by rw [hslot, if_pos hread]; exact overlay_zero hdata
  payload := by rw [hslot, if_pos hlast]; exact overlay_zero hpayload

/-- Samsung's database with one finger. -/
def oneEnrollment : LegacyDb := ⟨[(1, [7])], [[3]]⟩

/-- Its finger fits. -/
theorem oneEnrollment_convertible : Convertible oneEnrollment where
  distinct := List.pairwise_singleton ..
  slots := List.forall_mem_singleton.mpr (by decide)
  data := List.forall_mem_singleton.mpr (by decide)
  payload := by decide

/-- A device with a table for group 0, on a system that has this database. -/
def beforeConversion (legacy : LegacyDb) : Mem :=
  { Mem.zero with
    db := ⟨fun gid => if gid = 0 then some [] else none⟩
    legacy := some legacy }

/-- The choices of a conversion of one finger whose insert comes to `insert`. -/
def conversion (insert : Choice) : List Choice :=
  List.replicate 7 .tick ++ [.num 100, .tick, .tick, .num 101, .tick, .num 100] ++
    List.replicate 7 .tick ++ insert :: List.replicate 6 .tick

/-- Samsung's database with two fingers, which share the payload. -/
def twoEnrollments : LegacyDb := ⟨[(1, [7]), (4, [8, 9])], [[3, 5]]⟩

/-- Its fingers fit, and they are for different slots. -/
theorem twoEnrollments_convertible : Convertible twoEnrollments where
  distinct := List.pairwise_pair.mpr (by decide)
  slots := List.forall_mem_cons.mpr ⟨by decide, List.forall_mem_singleton.mpr (by decide)⟩
  data := List.forall_mem_cons.mpr ⟨by decide, List.forall_mem_singleton.mpr (by decide)⟩
  payload := by decide

/-- A device with the first of them stored already. -/
def halfConverted : Mem :=
  { beforeConversion twoEnrollments with
    db := ⟨fun gid => if gid = 0 then some [keptRow twoEnrollments (1, [7])] else none⟩ }

/-- The choices of a conversion of both, in which the insert of the first one fails. -/
def conversionOfTwo : List Choice :=
  List.replicate 7 .tick ++ [.num 100, .tick, .tick, .num 100, .tick, .tick, .num 101, .tick, .num 100] ++
    List.replicate 7 .tick ++ .num 13 :: List.replicate 9 .tick ++ .num 101 :: List.replicate 3 .tick

/-- One finger is stored already, the other one is read and stored. -/
theorem migrated_iff_two : ∃ es m', hal.solo (fun _ => false) 1 conversionOfTwo dbConvertOldDb
      halfConverted = some (es, .ret 0, m') ∧ m'.legacy = none ∧ Migrated twoEnrollments m' := by
  obtain ⟨es, m', h, hremoved, hes⟩ : ∃ es m', hal.solo (fun _ => false) 1 conversionOfTwo
      dbConvertOldDb halfConverted = some (es, .ret 0, m') ∧ m'.legacy = none ∧ callResults es =
        [.stepped 100, .stepped 100, .stepped 101, .stepped 100, .inserted 0 4 true true, .removed] :=
    ⟨_, _, rfl, rfl, rfl⟩
  refine ⟨es, m', h, hremoved, (migrated_iff rfl twoEnrollments_convertible h).mpr ?_⟩
  intro _ i hi
  rw [hes]
  obtain rfl | rfl : i = 0 ∨ i = 1 := by
    have hboth : i < 2 := hi
    omega
  · exact .inl (.head _)
  · refine .inr (.of_zero rfl ?_ twoEnrollments_convertible.payload (by decide) (by decide) ?_)
    · exact twoEnrollments_convertible.data _ (List.getElem_mem hi)
    · change CallResult.inserted 0 4 true true ∈ _
      decide

/-- **A finger that is lost.** The only finger is read, its insert fails with `SQLITE_FULL`, and
Samsung's database is removed. -/
theorem lost_finger : ∃ es m', Convertible oneEnrollment ∧
    hal.solo (fun _ => false) 1 (conversion (.num 13)) dbConvertOldDb
      (beforeConversion oneEnrollment) = some (es, .ret 0, m') ∧
    m'.legacy = none ∧ m'.rows m'.vdev.activeGid = [] ∧ ¬ Migrated oneEnrollment m' := by
  obtain ⟨es, m', h, hremoved, hrows⟩ : ∃ es m', hal.solo (fun _ => false) 1
      (conversion (.num 13)) dbConvertOldDb (beforeConversion oneEnrollment) =
        some (es, .ret 0, m') ∧
      m'.legacy = none ∧ m'.rows m'.vdev.activeGid = [] := ⟨_, _, rfl, rfl, rfl⟩
  refine ⟨es, m', oneEnrollment_convertible, h, hremoved, hrows, ?_⟩
  rintro (hlegacy | hstored)
  · exact hlegacy hremoved
  · simpa [hrows] using hstored (1, [7]) (by simp [oneEnrollment])

end KlteCommon.Analysis

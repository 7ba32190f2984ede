import KlteCommon.Computation.Paths
import KlteCommon.Fingerprint.Effects
import KlteCommon.Fingerprint.Loops

/-!
# The slots and the database

Every finger is kept twice: as an occupied slot of `tz` and as a row of the active group's table.
The commit of an enrollment and `fingerprint_remove` update one after the other.

`Stores` is what the two stores hold, as sets of finger ids. Along it an update is a computation
(`storesProtocol`), which the memory refines (`Holds`). From agreement an update leads to
agreement exactly when every statement it executes succeeds (`Update.agrees_iff`), and so over all
sequences of updates (`agrees_iff_settled`): a delete that fails still clears the slot, an insert
that fails leaves it occupied (`failed_delete`).
-/

set_option autoImplicit false

namespace KlteCommon.Analysis

open KlteCommon.Computation KlteCommon.Fingerprint

/-! ## What is observed -/

/-- Whether `idx` is the number of a slot. -/
def isSlot (idx : ℤ) : Prop := 1 ≤ idx ∧ idx ≤ maxNumFingers

instance : DecidablePred isSlot := fun _ => inferInstanceAs (Decidable (_ ∧ _))

/-- Slot `idx` is occupied. -/
def occupied (m : Mem) (idx : ℤ) : Prop := (m.tz.finger idx).exist = true

/-- The table of the active group has a row for `idx`. -/
def recorded (m : Mem) (idx : ℤ) : Prop := ∃ row ∈ m.rows m.vdev.activeGid, row.id = idx

/-- The two stores agree. -/
def Agrees (m : Mem) : Prop := ∀ idx, isSlot idx → (occupied m idx ↔ recorded m idx)

/-- A statement that changes a table succeeds; every other event does. -/
def settles : HalEvent → Bool
  | .op (.sqlDelete _ _) r => r == sqliteOk
  | .op (.sqlPrepareInsert _) r => r == sqliteOk
  | .op (.sqlInsert _ _ _ _) r => r == sqliteDone
  | _ => true

/-- The operations that update both stores. -/
inductive Update
  | commit (idx : ℤ)
  | remove (fid : UInt32)

/-- The code of an update. -/
def Update.code : Update → Code Unit
  | .commit idx => vcsEnrollCommit idx
  | .remove fid => do
    let _ ← fingerprintRemove fid
    return

/-- A removal is of all fingers or of an occupied slot. -/
def Update.aimed (m : Mem) : Update → Prop
  | .commit _ => True
  | .remove fid => fid = 0 ∨ isSlot (gidNumber fid) ∧ occupied m (gidNumber fid)

/-- Whether an update is to change the stores: a commit into an occupied slot is not. -/
def Update.changes (m : Mem) : Update → Prop
  | .commit idx => isSlot idx ∧ ¬ occupied m idx
  | .remove _ => True

/-! ## The two stores -/

/-- The ids the slots and the rows of group `gid` hold; `kept` says that no statement failed. -/
structure Stores where
  gid : UInt32
  slots : ℤ → Prop
  rows : ℤ → Prop
  kept : Bool

/-- Setting or clearing the slot of a finger. -/
def Stores.setSlot (x : Stores) (idx : ℤ) (b : Bool) : Stores :=
  { x with slots := fun j => if j = idx then b = true else x.slots j }

/-- A delete, which may fail. -/
def Stores.delete (x : Stores) (fid : ℤ) (r : CInt) : Stores :=
  { x with
    rows := fun j => x.rows j ∧ ¬ (r = sqliteOk ∧ j = fid)
    kept := x.kept && r == sqliteOk }

/-- An insert, which may fail. -/
def Stores.insert (x : Stores) (fid : ℤ) (r : CInt) : Stores :=
  { x with
    rows := fun j => x.rows j ∨ r = sqliteDone ∧ j = fid
    kept := x.kept && r == sqliteDone }

/-- `y` is `x` without the fingers in `A`, but for the rows of those in `lost`, whose delete
failed. -/
structure Removed (x : Stores) (A lost : ℤ → Prop) (y : Stores) : Prop where
  slots : ∀ j, y.slots j ↔ x.slots j ∧ ¬ A j
  rows : ∀ j, y.rows j ↔ x.rows j ∧ (A j → lost j)
  among : ∀ j, lost j → A j
  kept : y.kept = true ↔ x.kept = true ∧ ∀ j, ¬ lost j

section removed

variable {x y : Stores} {A A' lost : ℤ → Prop}

/-- Where no slot is to be removed, nothing is. -/
theorem Removed.none (hA : ∀ j, ¬ A j) : Removed x A (fun _ => False) x where
  slots j := by simp [hA]
  rows j := by simp [hA]
  among _ := False.elim
  kept := by simp

/-- Only which slots are to be removed matters. -/
theorem Removed.congr (h : Removed x A lost y) (hA : ∀ j, A' j ↔ A j) : Removed x A' lost y := by
  obtain rfl : A' = A := funext fun j => propext (hA j)
  exact h

/-- One more finger, removed first. -/
theorem Removed.cons {idx : ℤ} {r : CInt}
    (h : Removed ((x.delete idx r).setSlot idx false) A lost y) (hidx : ¬ A idx)
    (hA : ∀ j, A' j ↔ j = idx ∨ A j) :
    Removed x A' (fun j => lost j ∨ j = idx ∧ r ≠ sqliteOk) y where
  slots j := by
    have hslots := h.slots j
    simp only [Stores.setSlot, Stores.delete] at hslots
    grind
  rows j := by
    have hrows := h.rows j
    have hamong := h.among j
    simp only [Stores.setSlot, Stores.delete] at hrows
    grind
  among j := by
    have hamong := h.among j
    grind
  kept := by
    have hkept := h.kept
    simp only [Stores.setSlot, Stores.delete, Bool.and_eq_true, beq_iff_eq] at hkept
    rw [hkept]
    constructor
    · rintro ⟨⟨hx, hr⟩, hlost⟩
      exact ⟨hx, fun j hj => hj.elim (hlost j) fun hj => hj.2 hr⟩
    · rintro ⟨hx, hlost⟩
      refine ⟨⟨hx, ?_⟩, fun j hj => hlost j (.inl hj)⟩
      by_contra hr
      exact hlost idx (.inr ⟨rfl, hr⟩)

/-- After a removal the stores agree exactly when no delete failed. -/
theorem Removed.agree (h : Removed x A lost y) (hx : ∀ j, isSlot j → (x.slots j ↔ x.rows j))
    (hA : ∀ j, A j → isSlot j ∧ x.slots j) (hkept : x.kept = true) :
    (∀ j, isSlot j → (y.slots j ↔ y.rows j)) ↔ y.kept = true := by
  rw [h.kept]
  refine ⟨fun hy => ⟨hkept, fun j hlost => ?_⟩, fun ⟨_, hlost⟩ j hj => ?_⟩
  · have hAj := h.among j hlost
    obtain ⟨hj, hslot⟩ := hA j hAj
    have hrow : y.rows j := (h.rows j).mpr ⟨(hx j hj).mp hslot, fun _ => hlost⟩
    exact ((h.slots j).mp ((hy j hj).mpr hrow)).2 hAj
  · rw [h.slots, h.rows, hx j hj]
    exact and_congr_right fun _ => ⟨fun hA hAj => absurd hAj hA, fun hA hAj => hlost j (hA hAj)⟩

end removed

/-- The procedures that take part. -/
def storesCalls : Call → Prop
  | .dbWriteToDb _ _ | .sendRemoveNotice _ | .sendErrorNotice _ => True
  | _ => False

/-- What they leave of the stores. -/
def storesLeaves (x : Stores) : (c : Call) → Ret c → Stores → Prop
  | .dbWriteToDb true fid, r, y => y = (x.delete fid r).setSlot fid false
  | .dbWriteToDb false fid, r, y => y = x.insert fid r
  | _, _, y => y = x

/-- The stores after an event. -/
def Stores.after (x : Stores) : HalEvent → Option Stores
  | .op (.store (.finger idx) f) _ => some (x.setSlot idx f.exist)
  | .op (.store (.fingerExist idx) b) _ => some (x.setSlot idx b)
  | .op (.store (.fingerData _) _) _ | .op (.store (.fingerPayload _) _) _ => some x
  | .op (.sqlDelete gid fid) r => if gid = x.gid then some (x.delete fid r) else none
  | .op (.sqlPrepareInsert _) r => some { x with kept := x.kept && r == sqliteOk }
  | .op (.sqlInsert gid fid _ _) r => if gid = x.gid then some (x.insert fid r) else none
  | .op o _ => if o.quiet then some x else none
  | .enter _ => some x
  | .done _ _ => none

/-- What is read of the stores is what they hold. -/
def Stores.reads (x : Stores) : HalEvent → Prop
  | .op (.load (.fingerExist idx)) r => r = true ↔ x.slots idx
  | .op (.load .activeGid) r => r = x.gid
  | _ => True

/-- The protocol of an update. -/
@[simps] def storesProtocol : Protocol Resp Ret Stores where
  assume x e := x.reads e
  next x e := x.after e
  pre c _ := storesCalls c
  post c x r y := storesLeaves x c r y

section

variable (x y : Stores) (c : Call) (r : Ret c) (o : Op) (a : Resp o) (e : HalEvent)

/-- A call by its contract. -/
@[simp ↓] theorem callRule_stores (Q : Ret c → Stores → Prop) :
    storesProtocol.callRule fine c Q x ↔
      storesCalls c ∧ ∀ r y, storesLeaves x c r y → Q r y :=
  Protocol.callRule_entered rfl trivial rfl

end

section bodies

attribute [local simp ↓] load store op call send ionSbuffer sameIonSbuffer

attribute [local simp] storesCalls storesLeaves Stores.after Stores.reads Op.quiet

/-- Every body takes the slots and the rows along. -/
theorem storesProtocol_valid : storesProtocol.Valid fine body := by
  intro c _ x hx
  cases c
  all_goals simp at hx
  case dbWriteToDb remove fid _ =>
    cases remove
    · simp [body, dbWriteToDb]
      intro r
      refine ⟨fun hr => by simp [hr], fun hr => ?_⟩
      simp [hr, Stores.insert, sqliteMisuse, sqliteDone]
    · simp [body, dbWriteToDb]
      exact fun _ => rfl
  case sendErrorNotice => simp [body, sendErrorNotice]
  case sendRemoveNotice => simp [body, sendRemoveNotice]

/-- A commit occupies its slot and inserts its row, or fails to. -/
theorem stores_vcsEnrollCommit (idx : ℤ) (x : Stores) : storesProtocol.Follows fine (vcsEnrollCommit idx)
    (fun _ y => ∃ r, y = (x.setSlot idx true).insert idx r) x := by
  simp [vcsEnrollCommit, payloadBind, enrollmentPasswordSet]

/-- The loop over the slots. -/
theorem stores_removeFingers (n : ℕ) (idx : ℤ) (ret : CInt) (x : Stores) :
    storesProtocol.Follows fine (removeFingers n idx ret) (fun _ y =>
      ∃ lost, Removed x (fun j => x.slots j ∧ idx ≤ j ∧ j < idx + n) lost y) x := by
  induction n generalizing idx ret x with
  | zero => exact ⟨_, .none fun j hj => by omega⟩
  | succ n ih =>
    simp [removeFingers]
    refine ⟨fun hfree => (ih (idx + 1) ret x).mono ?_, fun hslot r => (ih (idx + 1) r _).mono ?_⟩
    · rintro _ y ⟨lost, hy⟩
      exact ⟨lost, hy.congr fun j => by grind⟩
    · rintro _ y ⟨lost, hy⟩
      simp only [Stores.setSlot, Stores.delete] at hy
      refine ⟨_, hy.cons (by grind) fun j => by grind⟩

/-- A removal empties its slots; some rows may be lost to a failing delete. -/
theorem stores_remove (fid : UInt32) (x : Stores) (hfid : fid ≠ 0 → x.slots (gidNumber fid)) :
    storesProtocol.Follows fine (Update.code (.remove fid)) (fun _ y => ∃ lost,
      Removed x (fun j => x.slots j ∧ if fid = 0 then isSlot j else j = gidNumber fid) lost y)
      x := by
  by_cases h : fid = 0
  · simp [Update.code, fingerprintRemove, h]
    refine (stores_removeFingers _ _ _ x).mono ?_
    rintro r y ⟨lost, hy⟩
    have hy : ∃ lost, Removed x (fun j => x.slots j ∧ isSlot j) lost y :=
      ⟨lost, hy.congr fun j => by simp only [isSlot, maxNumFingers]; grind⟩
    simp [hy]
  · simp [Update.code, fingerprintRemove, h]
    have hslot := hfid h
    refine fun r => ⟨_, (Removed.none fun _ => not_false).cons not_false fun j => ?_⟩
    grind

end bodies

/-! ## The memory refines the stores -/

/-- The stores are what the memory holds. -/
structure Holds (x : Stores) (m : Mem) : Prop where
  gid : m.vdev.activeGid = x.gid
  slots : ∀ j, occupied m j ↔ x.slots j
  rows : ∀ j, recorded m j ↔ x.rows j

/-- The stores of a memory. -/
def storesOf (m : Mem) : Stores := ⟨m.vdev.activeGid, occupied m, recorded m, true⟩

/-- What a memory holds, it holds. -/
theorem holds_storesOf (m : Mem) : Holds (storesOf m) m := ⟨rfl, fun _ => Iff.rfl, fun _ => Iff.rfl⟩

section refines

variable {fin : Tid → Bool} {t : Tid} {ch : Choice} {m m' : Mem} {x y : Stores}

/-- Changing the slots only. -/
theorem Holds.setSlot (h : Holds x m) {idx : ℤ} {f : Finger}
    (hfinger : m'.tz.finger = Function.update m.tz.finger idx f) (hdb : m'.db = m.db)
    (hvdev : m'.vdev = m.vdev) : Holds (x.setSlot idx f.exist) m' where
  gid := by rw [hvdev]; exact h.gid
  slots j := by
    have := h.slots j
    simp only [occupied, hfinger, Function.update_apply, Stores.setSlot] at this ⊢
    split <;> simp_all
  rows j := by
    rw [recorded, hvdev, rows_of_db hdb]
    exact h.rows j

/-- Changing neither. -/
theorem Holds.same (h : Holds x m) (hexist : ∀ j, (m'.tz.finger j).exist = (m.tz.finger j).exist)
    (hdb : m'.db = m.db) (hgid : m'.vdev.activeGid = m.vdev.activeGid)
    (hy : y.gid = x.gid ∧ y.slots = x.slots ∧ ∀ j, y.rows j ↔ x.rows j) : Holds y m' where
  gid := by rw [hgid, h.gid, hy.1]
  slots j := by rw [occupied, hexist, hy.2.1]; exact h.slots j
  rows j := by
    rw [recorded, hgid, rows_of_db hdb, hy.2.2]
    exact h.rows j

/-- Changing the table of the active group only. -/
theorem Holds.setTable (h : Holds x m) {gid : UInt32} {rows : Table} (hgid : gid = x.gid)
    (hfinger : m'.tz.finger = m.tz.finger) (hvdev : m'.vdev = m.vdev)
    (hdb : m'.db = (m.setTable gid rows).db) (hy : y.slots = x.slots ∧ y.gid = x.gid)
    (hrows : ∀ j, (∃ row ∈ rows, row.id = j) ↔ y.rows j) : Holds y m' where
  gid := by rw [hvdev, h.gid, hy.2]
  slots j := by rw [occupied, hfinger, hy.1]; exact h.slots j
  rows j := by
    rw [recorded, hvdev, h.gid, ← hgid, rows_of_db hdb, rows_setTable]
    exact hrows j

/-- **One step** of the memory is a step of the stores. -/
theorem holds_act {o : Op} {r : Resp o} (h : Holds x m) (hact : act fin t o ch m = some (r, m')) :
    x.reads (.op o r) ∧ ∀ y, x.after (.op o r) = some y → Holds y m' := by
  have heff := act_effect hact
  refine ⟨?_, fun y hy => ?_⟩
  · unfold Stores.reads
    split
    · rename_i heq
      cases heq
      obtain ⟨rfl, -⟩ := by simpa [act] using hact
      exact h.slots _
    · rename_i heq
      cases heq
      obtain ⟨rfl, -⟩ := by simpa [act] using hact
      exact h.gid
    · trivial
  · unfold Stores.after at hy
    split at hy
    all_goals
      rename_i heq
      cases heq
    · cases hy
      exact h.setSlot heff.finger heff.db heff.vdev
    · cases hy
      exact h.setSlot heff.finger heff.db heff.vdev
    iterate 2
      cases hy
      refine h.same (fun j => ?_) heff.db (by rw [heff.vdev]; rfl) ⟨rfl, rfl, fun _ => Iff.rfl⟩
      simp only [heff.finger, fingerAfter, Function.update_apply]
      split <;> simp_all
    · rename_i gid fid r
      obtain ⟨hgid, rfl⟩ : gid = x.gid ∧ x.delete fid r = y := by simpa using hy
      have hdb := heff.db
      by_cases hr : r = sqliteOk
      · refine h.setTable hgid heff.finger heff.vdev (hdb.trans (if_pos hr)) ⟨rfl, rfl⟩ fun j => ?_
        have := h.rows j
        simp only [recorded, h.gid, ← hgid] at this
        simp only [Stores.delete, hr, ← this]
        grind
      · refine h.same (fun j => by rw [heff.finger]; rfl) (hdb.trans (if_neg hr))
          (by rw [heff.vdev]; rfl) ⟨rfl, rfl, fun j => ?_⟩
        simp [Stores.delete, hr]
    · cases hy
      exact h.same (fun j => by rw [heff.finger]; rfl) heff.db (by rw [heff.vdev]; rfl)
        ⟨rfl, rfl, fun _ => Iff.rfl⟩
    · rename_i gid fid boundData boundPayload r
      obtain ⟨hgid, rfl⟩ : gid = x.gid ∧ x.insert fid r = y := by simpa using hy
      have hdb := heff.db
      by_cases hr : r = sqliteDone
      · refine h.setTable hgid heff.finger heff.vdev (hdb.trans (if_pos hr)) ⟨rfl, rfl⟩ fun j => ?_
        have := h.rows j
        simp only [recorded, h.gid, ← hgid] at this
        simp only [Stores.insert, hr, ← this]
        simp [Mem.newRow]
        grind
      · refine h.same (fun j => by rw [heff.finger]; rfl) (hdb.trans (if_neg hr))
          (by rw [heff.vdev]; rfl) ⟨rfl, rfl, fun j => ?_⟩
        simp [Stores.insert, hr]
    · obtain ⟨hquiet, rfl⟩ : Op.quiet _ = true ∧ x = y := by simpa using hy
      refine h.same (fun j => ?_) ?_ ?_ ⟨rfl, rfl, fun _ => Iff.rfl⟩
      · rw [heff.finger, fingerAfter_of_quiet hquiet]
      · rw [heff.db, dbAfter_of_quiet hquiet]
      · rw [heff.vdev, activeGid_of_quiet hquiet]

/-- An event keeps the agreement if it settles. -/
theorem kept_after {e : HalEvent} (h : x.after e = some y) :
    y.kept = (x.kept && settles e) := by
  cases e with
  | op o r =>
    cases o with
    | sqlDelete gid fid | sqlInsert gid fid boundData boundPayload =>
      simp only [Stores.after] at h
      split at h <;> cases h
      rfl
    | sqlPrepareInsert gid =>
      cases h
      rfl
    | store v a =>
      refine Eq.trans ?_ (Bool.and_true _).symm
      cases v <;> cases h <;> rfl
    | _ =>
      refine Eq.trans ?_ (Bool.and_true _).symm
      first | (cases h; done) | (cases h; rfl)
  | enter c =>
    cases h
    exact (Bool.and_true _).symm
  | done c r => cases h

/-- Whether all statements succeeded can be read off the events. -/
theorem kept_of_stage {es : List HalEvent} (h : storesProtocol.stage x es = some y) :
    y.kept = (x.kept && es.all settles) := by
  induction es generalizing y with
  | nil =>
    obtain rfl : x = y := by simpa [Protocol.stage] using h
    simp
  | cons e es ih =>
    obtain ⟨z, hz, hy⟩ := Option.bind_eq_some_iff.mp h
    rw [List.all_cons, Bool.and_comm (settles e), ← Bool.and_assoc, ← ih hz]
    exact kept_after hy

end refines

/-! ## One update -/

section update

variable {fin : Tid → Bool} {t : Tid} {chs : List Choice} {m m' : Mem} {es : List HalEvent}

/-- An update that runs alone takes the stores along the protocol. -/
theorem stores_of_solo {p : Code Unit} {Q : Unit → Stores → Prop}
    (hp : storesProtocol.Follows fine p Q (storesOf m))
    (h : hal.solo fin t chs p m = some (es, .ret (), m')) :
    ∃ y, Q () y ∧ Holds y m' ∧ y.kept = es.all settles := by
  obtain ⟨y, hy, hQ, hm'⟩ := hp.alone (J := Holds) (X := fun _ => True) (fun _ => rfl) storesProtocol_valid
    (fun x m o ch r m' hm hact _ => holds_act hm hact)
    (fun x m c hm => ⟨trivial, fun y hy => by cases hy; exact hm⟩)
    (holds_storesOf m) (fun _ _ => trivial) h
  have hkept := kept_of_stage hy
  rw [List.all_reverse] at hkept
  exact ⟨y, hQ, hm', hkept⟩

/-- The memory agrees if what is known of it does. -/
theorem Holds.agrees {y : Stores} (h : Holds y m) :
    Agrees m ↔ ∀ j, isSlot j → (y.slots j ↔ y.rows j) := by
  simp only [Agrees, h.slots, h.rows]

/-- **One update.** From agreement it leads to agreement exactly when every statement it executes
succeeds. -/
theorem Update.agrees_iff {u : Update} (hm : Agrees m) (hu : u.aimed m)
    (h : hal.solo fin t chs u.code m = some (es, .ret (), m')) :
    Agrees m' ↔ (u.changes m → es.all settles = true) := by
  cases u with
  | commit idx =>
    obtain ⟨y, ⟨r, rfl⟩, hm', hkept⟩ := stores_of_solo (stores_vcsEnrollCommit idx (storesOf m)) h
    rw [hm'.agrees, ← hkept]
    simp only [Stores.setSlot, Stores.insert, storesOf, Update.changes, Bool.true_and, beq_iff_eq]
    refine ⟨fun h ⟨hidx, hfree⟩ => ?_, fun h j hj => ?_⟩
    · have hrow := (h idx hidx).mp (by simp)
      exact (hrow.resolve_left fun hrow => hfree ((hm idx hidx).mpr hrow)).1
    · have hagree := hm j hj
      by_cases hidx : j = idx
      · subst hidx
        by_cases hfree : occupied m j
        · simp [hagree.mp hfree]
        · simp [h ⟨hj, hfree⟩]
      · simp [hidx, hagree]
  | remove fid =>
    have hslot : fid ≠ 0 → isSlot (gidNumber fid) ∧ occupied m (gidNumber fid) := hu.resolve_left
    obtain ⟨y, ⟨lost, hy⟩, hm', hkept⟩ := stores_of_solo (stores_remove fid (storesOf m)
      fun hfid => (hslot hfid).2) h
    rw [hm'.agrees, ← hkept, hy.agree hm ?_ rfl]
    · simp [Update.changes]
    · rintro j ⟨hj, hin⟩
      refine ⟨?_, hj⟩
      split at hin
      · exact hin
      · rw [hin]
        exact (hslot ‹_›).1

end update

/-! ## Every sequence of updates -/

/-- An update that has run: from which memory, with which events, to which memory. -/
structure Completed where
  update : Update
  before : Mem
  events : List HalEvent
  after : Mem

/-- It ran alone to its end. -/
def Completed.Ran (d : Completed) : Prop :=
  ∃ fin t chs, hal.solo fin t chs d.update.code d.before = some (d.events, .ret (), d.after)

/-- Updates that run one after the other, from memory `m` on. -/
def Sequence : Mem → List Completed → Prop
  | _, [] => True
  | m, d :: ds => d.before = m ∧ d.update.aimed m ∧ d.Ran ∧ Sequence d.after ds

/-- Whether every statement of an update that was to change the stores succeeded. -/
def Completed.Settled (d : Completed) : Prop :=
  d.update.changes d.before → d.events.all settles = true

/-- **The slots and the database.** In every sequence of commits and removals from agreement, the
stores agree after each of them exactly when no statement fails that was to change them. -/
theorem agrees_iff_settled {m : Mem} {ds : List Completed} (hm : Agrees m) (h : Sequence m ds) :
    (∀ d ∈ ds, Agrees d.after) ↔ ∀ d ∈ ds, d.Settled := by
  induction ds generalizing m with
  | nil => simp
  | cons d ds ih =>
    obtain ⟨rfl, haimed, ⟨fin, t, chs, hrun⟩, hrest⟩ := h
    have hone := Update.agrees_iff hm haimed hrun
    rw [List.forall_mem_cons, List.forall_mem_cons, hone]
    exact and_congr_right fun hsettled => ih (hone.mpr hsettled) hrest

/-- Finger 1 of group 0, in its slot and in its row, with the app up. -/
def oneFinger : Mem :=
  { Mem.started with
    tz := { Mem.started.tz with finger := fun j => { Finger.zero with exist := j == 1 } }
    db := ⟨fun gid => if gid = 0 then some [⟨1, [], []⟩] else none⟩ }

/-- The device with one finger agrees. -/
theorem oneFinger_agrees : Agrees oneFinger := by
  intro j _
  have hrows : oneFinger.rows oneFinger.vdev.activeGid = [⟨1, [], []⟩] := rfl
  rw [occupied, recorded, hrows]
  simp [oneFinger, eq_comm (a := j)]

/-- The finger is removed, and another one enrolled in slot 2; every statement succeeds. -/
theorem agrees_iff_settled_two : ∃ d₁ d₂, Sequence oneFinger [d₁, d₂] ∧
    d₁.update = .remove 1 ∧ d₂.update = .commit 2 ∧ Agrees d₁.after ∧ Agrees d₂.after := by
  obtain ⟨es₁, m₁, h₁, hes₁⟩ : ∃ es m, hal.solo (fun _ => false) 1 (List.replicate 10 .tick)
      (Update.code (.remove 1)) oneFinger = some (es, .ret (), m) ∧ es.all settles = true :=
    ⟨_, _, rfl, rfl⟩
  obtain ⟨es₂, m₂, h₂, hes₂⟩ : ∃ es m, hal.solo (fun _ => false) 1
      [.tick, .tick, .reply (.good 0), .tick, .reply (.good 0), .reply (.good 0), .tick, .tick,
        .tick, .tick, .tick, .tick, .tick, .num 101, .tick, .tick, .reply (.good 0), .tick, .tick,
        .reply (.good 0)]
      (Update.code (.commit 2)) m₁ = some (es, .ret (), m) ∧ es.all settles = true := by
    obtain ⟨-, rfl⟩ := by simpa using h₁.symm
    exact ⟨_, _, rfl, rfl⟩
  have hseq : Sequence oneFinger
      [⟨.remove 1, oneFinger, es₁, m₁⟩, ⟨.commit 2, m₁, es₂, m₂⟩] :=
    ⟨rfl, .inr ⟨by decide, rfl⟩, ⟨_, _, _, h₁⟩, rfl, trivial, ⟨_, _, _, h₂⟩, trivial⟩
  have hagree := (agrees_iff_settled oneFinger_agrees hseq).mpr
    (List.forall_mem_cons.mpr ⟨fun _ => hes₁, List.forall_mem_singleton.mpr fun _ => hes₂⟩)
  exact ⟨_, _, hseq, rfl, rfl, hagree _ (by simp), hagree _ (by simp)⟩

/-- The report of a removal that failed. -/
def reportsFailure : HalEvent → Bool
  | .op (.notify msg) _ => msg == .error fingerprintErrorUnableToRemove
  | _ => false

/-- The delete of the finger's row fails with `SQLITE_BUSY`: the removal is reported to have
failed, and the slot is empty all the same. -/
theorem failed_delete : ∃ d, Sequence oneFinger [d] ∧ d.update = .remove 1 ∧
    d.events.any reportsFailure = true ∧
    ¬ occupied d.after 1 ∧ recorded d.after 1 ∧ ¬ Agrees d.after := by
  obtain ⟨es, m, h, hnotice, hslot, hrows⟩ : ∃ es m, hal.solo (fun _ => false) 1
      (List.replicate 3 .tick ++ [.num 5] ++ List.replicate 6 .tick)
      (Update.code (.remove 1)) oneFinger = some (es, .ret (), m) ∧
      es.any reportsFailure = true ∧
      (m.tz.finger 1).exist = false ∧ m.rows m.vdev.activeGid = [⟨1, [], []⟩] := by
    refine ⟨_, _, rfl, ?_, ?_, ?_⟩ <;> rfl
  have hfree : ¬ occupied m 1 := by simp [occupied, hslot]
  have hrow : recorded m 1 := by simp [recorded, hrows]
  exact ⟨⟨.remove 1, oneFinger, es, m⟩,
    ⟨rfl, .inr ⟨by decide, rfl⟩, ⟨_, _, _, h⟩, trivial⟩, rfl, hnotice, hfree, hrow,
    fun hagree => hfree ((hagree 1 (by decide)).mpr hrow)⟩

end KlteCommon.Analysis

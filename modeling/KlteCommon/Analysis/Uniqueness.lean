import KlteCommon.Analysis.Isolation

/-!
# One row for each finger

The tables have no key: that no finger gets two rows rests on every insert being made for a slot
that is free in the table as well. The slots show the whole table after it was read into them, not
after a conversion of Samsung's database into a table that had rows already.

`Fingers` is what the slots and the tables hold, as sets of ids; along it the operations are
computations (`fingersProtocol`) that never insert an id the table has. The ladder: the memory
refines it (`fits_act`), what each operation makes of it (`fingers_open` .. `fingers_remove`), one
operation keeps the invariant `Kept` (`Kept.step`), and so does every run whose operations are
permitted (`oneRow_of_run`). A Samsung database that cannot be removed is converted twice
(`converted_twice`).
-/

set_option autoImplicit false

namespace KlteCommon.Analysis

open KlteCommon.Computation KlteCommon.Fingerprint

/-! ## What is observed -/

/-- No table has two rows for one finger. -/
def OneRow (m : Mem) : Prop := ∀ gid, (m.rows gid).Pairwise fun a b => a.id ≠ b.id

/-- No finger that has a row gets another one. -/
def AddsNone (m m' : Mem) : Prop :=
  ∀ gid, ∀ row ∈ m.rows gid,
    (m'.rows gid).countP (·.id == row.id) ≤ (m.rows gid).countP (·.id == row.id)

/-- A call of sqlite succeeds, the creation of a table apart; every other event does. -/
def sqlSucceeds : HalEvent → Bool
  | .op .sqlOpen r | .op .legacyOpen r | .op .legacyClose r => r == sqliteOk
  | .op (.sqlDelete _ _) r | .op (.sqlPrepareInsert _) r | .op (.sqlBindBlob _) r => r == sqliteOk
  | .op (.sqlInsert _ _ _ _) r => r == sqliteDone
  | .op (.sqlStep left) r => r == if left then sqliteRow else sqliteDone
  | .op (.sqlSelect _) r => r.isSome
  | .op .legacySelectEnrollments r => r.isSome
  | .op .legacySelectProperties r => r.isSome
  | _ => true

/-- The operations of a run; an enrollment looks for its slot first and commits later. -/
inductive Operation
  | openDevice
  | setActiveGroup (gid : UInt32)
  | readToTz
  | search
  | commit (idx : ℤ)
  | remove (fid : UInt32)

/-- The code of an operation. -/
def Operation.code : Operation → Code ℤ
  | .openDevice => Int32.toInt <$> fingerprintOpen
  | .setActiveGroup gid => Int32.toInt <$> fingerprintSetActiveGroup gid
  | .readToTz => Int32.toInt <$> dbReadToTz
  | .search => enrollSlot
  | .commit idx => do
    vcsEnrollCommit idx
    return 0
  | .remove fid => Int32.toInt <$> fingerprintRemove fid

/-- What matters of the operations so far: whether the device is open, whether the slots show the
whole table, which slot the enrollment under way found, and whether the slots are still those it
saw. -/
structure Past where
  opened : Bool
  shown : Bool
  found : Option ℤ
  aimed : Bool

/-- Before the first operation. -/
def Past.start : Past := ⟨false, false, none, false⟩

/-- Whether `db_read_to_tz` leaves no row of the group unseen: it reads the table, or converts
Samsung's database into an empty one. -/
def showsAll (m : Mem) (gid : UInt32) : Bool := m.legacy.isNone || (m.rows gid).isEmpty

/-- After an operation that returned `ret`. -/
def Past.after (x : Past) (m : Mem) (ret : ℤ) : Operation → Past
  | .openDevice => ⟨ret == 0, showsAll m 0, x.found, false⟩
  | .setActiveGroup gid => { x with shown := showsAll m gid, aimed := false }
  | .readToTz => { x with shown := showsAll m m.vdev.activeGid, aimed := false }
  | .search => { x with found := some ret, aimed := true }
  | .commit _ => { x with found := none }
  | .remove _ => x

/-- The operations come in order: all but the opening need an open device, and a commit is of the slot
its enrollment found. -/
def Past.inOrder (x : Past) : Operation → Prop
  | .openDevice => True
  | .commit idx => x.opened = true ∧ x.found = some idx
  | _ => x.opened = true

/-- The table of the group has no row for a finger that a conversion would insert: one of Samsung's
database, or what is left in the last slot. -/
def Convertable (m : Mem) (gid : UInt32) (left : ℤ → Prop) : Prop :=
  ∀ legacy, m.legacy = some legacy → ∀ row ∈ m.rows gid, isSlot row.id →
    ¬ ((∃ e ∈ legacy.enrollments, e.1 = row.id) ∨ left row.id)

/-- What the memset of `db_read_to_tz` leaves occupied. -/
def leftOver (m : Mem) (j : ℤ) : Prop := occupied m j ∧ ¬ (0 ≤ j ∧ j < maxNumFingers)

/-- The condition on an operation. -/
def Past.permits (x : Past) (m : Mem) : Operation → Prop
  | .openDevice => Convertable m 0 fun _ => False
  | .setActiveGroup gid => Convertable m gid (leftOver m)
  | .readToTz => Convertable m m.vdev.activeGid (leftOver m)
  | .search => x.shown = true
  | .commit idx => x.aimed = true ∧ isSlot idx
  | .remove _ => True

/-- Operations that run one after the other, each of them `ok` and with every statement succeeding. -/
inductive Operated (ok : Past → Mem → Operation → Prop) (m₀ : Mem) : Past → Mem → Prop
  | start : Operated ok m₀ .start m₀
  | step {x : Past} {m m' : Mem} {a : Operation} {fin : Tid → Bool} {t : Tid} {chs : List Choice}
      {es : List HalEvent} {ret : ℤ} (h : Operated ok m₀ x m) (horder : x.inOrder a) (hok : ok x m a)
      (hrun : hal.solo fin t chs a.code m = some (es, .ret ret, m')) (hes : es.all sqlSucceeds = true) :
      Operated ok m₀ (x.after m ret a) m'

/-! ## The slots and the tables -/

/-- The ids that the slots and the tables hold, with the active group and Samsung's database. -/
structure Fingers where
  gid : UInt32
  slots : ℤ → Prop
  rows : UInt32 → ℤ → Prop
  legacy : Option LegacyDb

namespace Fingers

/-- Setting or clearing the slot of a finger. -/
def setSlot (x : Fingers) (idx : ℤ) (b : Bool) : Fingers :=
  { x with slots := fun j => if j = idx then b = true else x.slots j }

/-- A row more. -/
def insert (x : Fingers) (gid : UInt32) (fid : ℤ) : Fingers :=
  { x with rows := fun g j => x.rows g j ∨ g = gid ∧ j = fid }

/-- The rows of a finger less. -/
def delete (x : Fingers) (gid : UInt32) (fid : ℤ) : Fingers :=
  { x with rows := fun g j => x.rows g j ∧ ¬ (g = gid ∧ j = fid) }

/-- The fingers in `A` are gone from the slots and from the active group. -/
def without (x : Fingers) (A : ℤ → Prop) : Fingers :=
  { x with
    slots := fun j => x.slots j ∧ ¬ A j
    rows := fun g j => x.rows g j ∧ ¬ (g = x.gid ∧ A j) }

/-- One removal behind another. -/
theorem without_without (x : Fingers) (A B : ℤ → Prop) :
    (x.without A).without B = x.without fun j => A j ∨ B j := by
  simp only [without]
  congr 1 <;> grind

/-- What the memset of `db_read_to_tz` leaves occupied. -/
def left (x : Fingers) (j : ℤ) : Prop := x.slots j ∧ ¬ (0 ≤ j ∧ j < maxNumFingers)

/-- The slots after Samsung's enrollments were read. -/
def loaded (x : Fingers) (legacy : LegacyDb) (j : ℤ) : Prop :=
  (∃ e ∈ legacy.enrollments, e.1 = j) ∨ x.left j

/-- The table of the active group has no row that a conversion would insert. -/
def convertable (x : Fingers) : Prop :=
  ∀ legacy, x.legacy = some legacy → ∀ j, isSlot j → x.loaded legacy j → ¬ x.rows x.gid j

/-- After the table was read. -/
def read (x : Fingers) : Fingers := { x with slots := fun j => x.rows x.gid j ∨ x.left j }

/-- After a conversion, which may have failed to remove Samsung's database. -/
def convert (x : Fingers) (legacy : LegacyDb) (removed : Bool) : Fingers :=
  { x with
    slots := x.loaded legacy
    rows := fun g j => x.rows g j ∨ g = x.gid ∧ isSlot j ∧ x.loaded legacy j
    legacy := if removed then none else x.legacy }

/-- After `db_read_to_tz`. -/
def Reloaded (x y : Fingers) : Prop :=
  x.legacy = none ∧ y = x.read ∨
    ∃ legacy removed, x.legacy = some legacy ∧ y = x.convert legacy removed

open Classical in
/-- After an event; a second row for a finger is not allowed. -/
noncomputable def after (x : Fingers) : HalEvent → Option Fingers
  | .op (.store (.finger idx) f) _ => some (x.setSlot idx f.exist)
  | .op (.store (.fingerExist idx) b) _ => some (x.setSlot idx b)
  | .op (.store (.fingerData _) _) _ | .op (.store (.fingerPayload _) _) _ => some x
  | .op (.copyData _ _) _ | .op (.copyPayload _ _) _ | .op (.sqlCreate _) _ => some x
  | .op .clearTz _ => some { x with slots := fun _ => False }
  | .op (.store .activeGid gid) _ => some { x with gid }
  | .op .clearDevice _ => some { x with gid := 0 }
  | .op (.sqlDelete gid fid) _ => some (x.delete gid fid)
  | .op (.sqlInsert gid fid _ _) _ => if x.rows gid fid then none else some (x.insert gid fid)
  | .op .legacyRemove r => some (if r = 0 then { x with legacy := none } else x)
  | .op o _ => if o.quiet then some x else none
  | .enter _ => some x
  | .done _ _ => none

/-- What is read is what is there. -/
def reads (x : Fingers) : HalEvent → Prop
  | .op (.load (.fingerExist idx)) r => r = true ↔ x.slots idx
  | .op (.load .activeGid) r => r = x.gid
  | .op .legacyAccess r => r = x.legacy.isSome
  | .op (.sqlSelect gid) r => ∃ rows, r = some rows ∧ ∀ j, (∃ row ∈ rows, row.id = j) ↔ x.rows gid j
  | .op .legacySelectEnrollments r => ∀ legacy, x.legacy = some legacy → r = some legacy.enrollments
  | _ => True

end Fingers

/-- The operations that change no slot, no table and not Samsung's database. -/
@[reducible] def plainOp : Op → Bool
  | .legacyRemove => false
  | o => o.quiet

/-- The procedures of a session that change no slot and no table, and the notices. -/
@[reducible] def plainCall : Call → Bool
  | .getTzState | .setTzState _ | .vcsUpdateAuthToken | .vcsStartAuthSession => true
  | .vcsResume | .vcsUninit | .vcsInit => true
  | .sensorUninit | .sensorInit | .sensorRegister => true
  | .sendErrorNotice _ | .sendRemoveNotice _ => true
  | _ => false

/-- The procedures that take part. -/
def fingersCalls (x : Fingers) : Call → Prop
  | .dbInit | .dbReadToTz => x.convertable
  | .dbConvertOldDb => x.convertable ∧ x.legacy ≠ none
  | .dbWriteToDb false fid => ¬ x.rows x.gid fid
  | .dbWriteToDb true _ | .dbCheckAndCreateTable => True
  | c => plainCall c = true

/-- What they leave. -/
def fingersLeaves (x : Fingers) : (c : Call) → Ret c → Fingers → Prop
  | .dbInit, _, y | .dbReadToTz, _, y | .dbConvertOldDb, _, y => x.Reloaded y
  | .dbWriteToDb false fid, _, y => y = x.insert x.gid fid
  | .dbWriteToDb true fid, _, y => y = x.without (· = fid)
  | _, _, y => y = x

/-- The protocol of an operation. -/
@[simps] noncomputable def fingersProtocol : Protocol Resp Ret Fingers where
  assume x e := sqlSucceeds e = true ∧ x.reads e
  next x e := x.after e
  pre c x := fingersCalls x c
  post c x r y := fingersLeaves x c r y

section

variable (x y : Fingers) (c : Call) (r : Ret c) (e : HalEvent)

/-- A call by its contract. -/
@[simp ↓] theorem callRule_fingers (Q : Ret c → Fingers → Prop) :
    fingersProtocol.callRule fine c Q x ↔
      fingersCalls x c ∧ ∀ r y, fingersLeaves x c r y → Q r y :=
  Protocol.callRule_entered rfl ⟨rfl, trivial⟩ rfl

end

section bodies

attribute [local simp ↓] load store op call send ionSbuffer sameIonSbuffer

attribute [local simp] fingersCalls fingersLeaves Fingers.after Fingers.reads sqlSucceeds Op.quiet

/-- Clearing `n` slots from `idx` on. -/
theorem fingers_clearFingers (n : ℕ) (idx : ℤ) (x : Fingers) :
    fingersProtocol.Follows fine (clearFingers n idx)
      (fun _ y => y = { x with slots := fun j => x.slots j ∧ ¬ (idx ≤ j ∧ j < idx + n) }) x := by
  induction n generalizing idx x with
  | zero => simp [clearFingers]
  | succ n ih =>
    simp [clearFingers]
    refine (ih _ _).mono ?_
    rintro _ y rfl
    simp only [Fingers.setSlot, Finger.zero]
    congr 1
    funext j
    grind

/-- Reading the rows into the slots. -/
theorem fingers_readRows (rows : Table) (x : Fingers) : fingersProtocol.Follows fine (readRows rows)
    (fun _ y => y = { x with slots := fun j => (∃ row ∈ rows, row.id = j) ∨ x.slots j }) x := by
  induction rows generalizing x with
  | nil => simp [readRows]
  | cons row rows ih =>
    simp [readRows]
    refine (ih _).mono ?_
    rintro _ y rfl
    simp only [Fingers.setSlot]
    congr 1
    funext j
    grind

/-- Reading Samsung's enrollments into the slots. -/
theorem fingers_readEnrollments (rows : List (ℤ × List UInt8)) (x : Fingers) :
    fingersProtocol.Follows fine (readEnrollments rows)
      (fun _ y => y = { x with slots := fun j => (∃ e ∈ rows, e.1 = j) ∨ x.slots j }) x := by
  induction rows generalizing x with
  | nil => simp [readEnrollments]
  | cons e rows ih =>
    simp [readEnrollments]
    refine (ih _).mono ?_
    rintro _ y rfl
    simp only [Fingers.setSlot]
    congr 1
    funext j
    grind

/-- Storing the occupied slots, of which the table has none. -/
theorem fingers_writeEnrollments (payload : List UInt8) (n : ℕ) (idx : ℤ) (x : Fingers)
    (hfree : ∀ j, idx ≤ j → j < idx + n → x.slots j → ¬ x.rows x.gid j) :
    fingersProtocol.Follows fine (writeEnrollments payload n idx) (fun _ y => y = { x with
      rows := fun g j => x.rows g j ∨ g = x.gid ∧ (idx ≤ j ∧ j < idx + n) ∧ x.slots j }) x := by
  induction n generalizing idx x with
  | zero =>
    have hnone : ∀ j, ¬ (idx ≤ j ∧ j < idx + (0 : ℕ)) := by omega
    simp only [hnone]
    simp [writeEnrollments]
  | succ n ih =>
    simp [writeEnrollments]
    refine ⟨fun hslot => ?_, fun hslot => ⟨hfree idx (Int.le_refl idx) (by omega) hslot, ?_⟩⟩
    · refine (ih _ _ fun j hj hlt => hfree j (by omega) (by omega)).mono ?_
      rintro _ y rfl
      congr 1
      funext g j
      grind
    · refine (ih _ _ fun j hj hlt hj' => ?_).mono ?_
      · have := hfree j (by omega) (by omega) hj'
        simp only [Fingers.insert]
        grind
      · rintro _ y rfl
        simp only [Fingers.insert]
        congr 1
        funext g j
        grind

/-- The procedures of a session do nothing that matters here. -/
theorem plainCall_within {c : Call} (hc : plainCall c = true) :
    (body c).Within (plainOp · = true) (plainCall · = true) := by
  cases c <;> first | cases hc; done | skip
  all_goals
    simp [Prog.Within, body, plainOp, getTzState, setTzState, vcsUpdateAuthToken, getAuthToken,
      vcsStartAuthSession, vcsResume, deviceResume, vcsUninit, vcsInit, sensorUninit, sensorInit,
      sensorRegister, sendErrorNotice, sendRemoveNotice]

/-- A plain procedure may be called in every stage. -/
theorem fingersCalls_of_plain {c : Call} (hc : plainCall c = true) (x : Fingers) :
    fingersCalls x c := by
  cases c <;> first | rfl | cases hc

/-- And leaves the stage. -/
theorem fingersLeaves_of_plain {c : Call} (hc : plainCall c = true) (r : Ret c) (x y : Fingers) :
    fingersLeaves x c r y ↔ y = x := by
  cases c <;> first | exact Iff.rfl | cases hc

/-- So does a plain operation. -/
theorem after_of_plain {o : Op} (ho : plainOp o = true) (r : Resp o) (x : Fingers) :
    x.after (.op o r) = some x := by
  cases o with
  | store v a => cases v <;> first | rfl | cases ho
  | _ => first | rfl | cases ho

/-- The body of a plain procedure. -/
theorem fingers_plainCall {c : Call} (hc : plainCall c = true) (x : Fingers) :
    fingersProtocol.Follows fine (body c) (fun _ y => y = x) x := by
  refine .keeps (T := (· = x)) (fun _ _ => rfl) ?_ ?_ (fun _ _ hy => hy) (plainCall_within hc) rfl
  · rintro o r y ho rfl
    exact ⟨y, after_of_plain ho r y, rfl⟩
  · rintro c y hc rfl
    exact ⟨y, rfl, fingersCalls_of_plain hc y, fun r z hz => (fingersLeaves_of_plain hc r y z).mp hz⟩

/-- Every body keeps to the contracts. -/
theorem fingersProtocol_valid : fingersProtocol.Valid fine body := by
  intro c _ x hx
  by_cases hplain : plainCall c = true
  · exact (fingers_plainCall hplain x).mono fun r y hy => (fingersLeaves_of_plain hplain r x y).mpr hy
  cases c
  case dbCheckAndCreateTable => simp [body, dbCheckAndCreateTable]
  case dbInit =>
    simp at hx
    simp [body, dbInit, hx]
  case dbReadToTz =>
    simp at hx
    simp [body, dbReadToTz, hx]
    refine ⟨fun hsome hnone => by simp [hnone] at hsome, fun hnone => ?_⟩
    refine (fingers_clearFingers _ _ x).mono ?_
    rintro _ y rfl
    simp
    rintro _ _ rows rfl hrows
    refine (fingers_readRows rows _).mono ?_
    rintro _ y rfl
    refine .inl ⟨hnone, ?_⟩
    simp [Fingers.read, Fingers.left, hrows]
  case dbConvertOldDb =>
    simp at hx
    obtain ⟨legacy, hlegacy⟩ := Option.ne_none_iff_exists'.mp hx.2
    simp [body, dbConvertOldDb]
    refine (fingers_clearFingers _ _ x).mono ?_
    rintro _ y rfl
    simp [hlegacy]
    rintro _ _ rfl
    refine (fingers_readEnrollments _ _).mono ?_
    rintro _ y rfl
    simp
    rintro properties -
    have hfree : ∀ j, (1 : ℤ) ≤ j → j < 1 + maxNumFingers → (∃ e ∈ legacy.enrollments, e.1 = j) ∨
        x.slots j ∧ (0 ≤ j → (maxNumFingers : ℤ) ≤ j) → ¬ x.rows x.gid j := by
      intro j hj hlt hslot
      refine hx.1 legacy hlegacy j ⟨hj, by omega⟩ (hslot.imp_right fun h => ⟨h.1, ?_⟩)
      have := h.2
      omega
    refine (fingers_writeEnrollments _ _ _ _ (by simpa using hfree)).mono ?_
    rintro _ y rfl
    simp
    intro r
    have hslot : ∀ j, isSlot j ↔ 1 ≤ j ∧ j < 1 + (maxNumFingers : ℤ) := by
      intro j
      simp only [isSlot]
      omega
    have hloaded : x.loaded legacy = fun j => (∃ d, (j, d) ∈ legacy.enrollments) ∨
        x.slots j ∧ (0 ≤ j → (maxNumFingers : ℤ) ≤ j) := by
      funext j
      simp [Fingers.loaded, Fingers.left]
    refine .inr ⟨legacy, r == 0, hlegacy, ?_⟩
    by_cases hr : r = 0 <;> simp [hr, Fingers.convert, hloaded, hslot, hlegacy]
  case dbWriteToDb remove fid _ =>
    cases remove with
    | false =>
      simp at hx
      simp [body, dbWriteToDb, hx]
    | true =>
      simp [body, dbWriteToDb]
      simp only [Fingers.setSlot, Fingers.delete, Fingers.without, Finger.zero]
      congr 1
      funext j
      grind
  all_goals exact absurd hx hplain

/-- The search for a slot. -/
theorem fingers_search (n : ℕ) (idx : ℤ) (x : Fingers) :
    fingersProtocol.Follows fine (firstFreeSlot n idx)
      (fun r y => y = x ∧ idx ≤ r ∧ r ≤ idx + n ∧ (r < idx + n → ¬ x.slots r)) x := by
  induction n generalizing idx with
  | zero => simp [firstFreeSlot]
  | succ n ih =>
    simp [firstFreeSlot]
    refine ⟨fun hslot => ⟨by omega, by simp [hslot]⟩, fun hslot => (ih (idx + 1)).mono ?_⟩
    rintro r _ ⟨rfl, hle, hlt, hfree⟩
    exact ⟨rfl, by omega, by omega, fun h => hfree (by omega)⟩

/-- The commit, of a slot whose finger has no row. -/
theorem fingers_commit {idx : ℤ} {x : Fingers} (hfree : ¬ x.rows x.gid idx) :
    fingersProtocol.Follows fine (Operation.commit idx).code
      (fun _ y => y = (x.setSlot idx true).insert x.gid idx) x := by
  simp [Operation.code, vcsEnrollCommit, payloadBind, enrollmentPasswordSet]
  exact fun _ _ _ _ => ⟨hfree, fun _ _ _ _ => rfl⟩

/-- Setting the group. -/
theorem fingers_setActiveGroup {gid : UInt32} {x : Fingers}
    (hx : { x with gid }.convertable) :
    fingersProtocol.Follows fine (Operation.setActiveGroup gid).code
      (fun _ y => { x with gid }.Reloaded y) x := by
  simp [Operation.code, fingerprintSetActiveGroup, hx]

/-- `db_read_to_tz`, where a conversion adds no id twice. -/
theorem fingers_readToTz {x : Fingers} (hx : x.convertable) :
    fingersProtocol.Follows fine Operation.readToTz.code (fun _ y => x.Reloaded y) x := by
  have hbody : fingersProtocol.Follows fine dbReadToTz (fun _ y => x.Reloaded y) x :=
    fingersProtocol_valid .dbReadToTz rfl x hx
  simpa [Operation.code] using hbody

/-- Opening the device. -/
theorem fingers_open {x : Fingers} (hx : { x with gid := 0, slots := fun _ => False }.convertable) :
    fingersProtocol.Follows fine Operation.openDevice.code
      (fun ret y => ret = 0 → { x with gid := 0, slots := fun _ => False }.Reloaded y) x := by
  simp [Operation.code, fingerprintOpen, hx]
  exact fun hret => absurd hret (by decide)

/-- Removing the fingers of all slots. -/
theorem fingers_removeFingers (n : ℕ) (idx : ℤ) (ret : CInt) (x : Fingers) :
    fingersProtocol.Follows fine (removeFingers n idx ret) (fun _ y => ∃ A, y = x.without A) x := by
  induction n generalizing idx ret x with
  | zero =>
    simp [removeFingers]
    exact ⟨fun _ => False, by simp [Fingers.without]⟩
  | succ n ih =>
    simp [removeFingers]
    refine ⟨fun _ => ih _ _ _, fun _ r => (ih _ _ _).mono ?_⟩
    rintro _ y ⟨A, rfl⟩
    exact ⟨_, x.without_without ..⟩

/-- A removal takes rows away. -/
theorem fingers_remove (fid : UInt32) (x : Fingers) :
    fingersProtocol.Follows fine (Operation.remove fid).code (fun _ y => ∃ A, y = x.without A) x := by
  by_cases hfid : fid = 0
  · simp [Operation.code, fingerprintRemove, hfid]
    refine (fingers_removeFingers _ _ _ x).mono fun r y hy => ?_
    simpa using hy
  · simp [Operation.code, fingerprintRemove, hfid]

end bodies

/-! ## The memory refines it -/

/-- What the slots and the tables of a memory hold. -/
def fingersOf (m : Mem) : Fingers where
  gid := m.vdev.activeGid
  slots := occupied m
  rows gid j := ∃ row ∈ m.rows gid, row.id = j
  legacy := m.legacy

/-- The memory holds this, with one row for each finger. -/
structure Fits (x : Fingers) (m : Mem) : Prop where
  fingers : fingersOf m = x
  oneRow : OneRow m

section refines

variable {fin : Tid → Bool} {t : Tid} {ch : Choice} {m m' : Mem} {x y : Fingers}

/-- What the fingers of a memory are. -/
theorem fingersOf_eq (hgid : m.vdev.activeGid = x.gid) (hslots : ∀ j, occupied m j ↔ x.slots j)
    (hrows : ∀ gid j, (∃ row ∈ m.rows gid, row.id = j) ↔ x.rows gid j) (hlegacy : m.legacy = x.legacy) :
    fingersOf m = x := by
  obtain ⟨gid, slots, rows, legacy⟩ := x
  simp only [fingersOf, Fingers.mk.injEq]
  exact ⟨hgid, funext fun j => propext (hslots j), funext fun g => funext fun j => propext (hrows g j),
    hlegacy⟩

/-- Nothing happened to the tables. -/
theorem Fits.same_rows (h : Fits x m) (hrows : ∀ gid, m'.rows gid = m.rows gid)
    (hgid : m'.vdev.activeGid = y.gid) (hslots : ∀ j, occupied m' j ↔ y.slots j)
    (hlegacy : m'.legacy = y.legacy) (hy : y.rows = x.rows) : Fits y m' where
  fingers := by
    obtain rfl := h.fingers
    refine fingersOf_eq hgid hslots (fun gid j => ?_) hlegacy
    rw [hrows, hy]
    rfl
  oneRow gid := by
    rw [hrows]
    exact h.oneRow gid

/-- One table changed. -/
theorem Fits.one_table (h : Fits x m) {gid : UInt32} {rows : Table}
    (hdb : m'.db = (m.setTable gid rows).db) (hvdev : m'.vdev = m.vdev)
    (hfinger : m'.tz.finger = m.tz.finger) (hlegacy : m'.legacy = m.legacy)
    (hone : rows.Pairwise fun a b => a.id ≠ b.id) (hy : y.gid = x.gid ∧ y.slots = x.slots ∧ y.legacy = x.legacy)
    (hrows : ∀ g j, y.rows g j ↔ if g = gid then ∃ row ∈ rows, row.id = j else x.rows g j) :
    Fits y m' where
  fingers := by
    obtain rfl := h.fingers
    obtain ⟨hgid, hslots, hleg⟩ := hy
    refine fingersOf_eq (by rw [hvdev, hgid]; rfl) (fun j => ?_) (fun g j => ?_) (by rw [hlegacy, hleg]; rfl)
    · rw [hslots, occupied, hfinger]
      exact Iff.rfl
    · rw [hrows, rows_of_db hdb]
      split
      · rename_i hg
        rw [hg, rows_setTable]
      · rename_i hg
        rw [rows_setTable_of_ne hg]
        exact Iff.rfl
  oneRow g := by
    rw [rows_of_db hdb]
    by_cases hg : g = gid
    · rw [hg, rows_setTable]
      exact hone
    · rw [rows_setTable_of_ne hg]
      exact h.oneRow g

/-- What a step reads. -/
theorem reads_act {o : Op} {r : Resp o} (hs : sqlSucceeds (.op o r) = true)
    (hact : act fin t o ch m = some (r, m')) : (fingersOf m).reads (.op o r) := by
  cases o with
  | load v =>
    obtain ⟨rfl, -⟩ := by simpa [act] using hact
    cases v <;> trivial
  | legacyAccess =>
    obtain ⟨rfl, -⟩ := by simpa [act] using hact
    rfl
  | sqlSelect gid =>
    simp only [act] at hact
    split at hact
    · obtain ⟨rfl, -⟩ := by simpa using hact
      cases hs
    · split at hact
      · obtain ⟨rfl, -⟩ := by simpa using hact
        exact ⟨_, rfl, fun _ => Iff.rfl⟩
      · cases hact
  | legacySelectEnrollments =>
    intro legacy hlegacy
    have hlegacy : m.legacy = some legacy := hlegacy
    obtain ⟨hr, -⟩ := by simpa [act, hlegacy] using hact
    split at hr
    · exact hr.symm
    · rw [← hr] at hs
      cases hs
  | _ => trivial

/-- The occupied slots when one was changed. -/
theorem occupied_of_update {idx : ℤ} {f : Finger}
    (h : m'.tz.finger = Function.update m.tz.finger idx f) (j : ℤ) :
    occupied m' j ↔ if j = idx then f.exist = true else occupied m j := by
  rw [occupied, h, Function.update_apply]
  split <;> exact Iff.rfl

/-- **One step** of the memory is a step of the slots and the tables. -/
theorem fits_act {o : Op} {r : Resp o} (h : Fits x m) (hs : sqlSucceeds (.op o r) = true)
    (hact : act fin t o ch m = some (r, m')) (hy : x.after (.op o r) = some y) : Fits y m' := by
  have heff := act_effect hact
  have hfinger := heff.finger
  have hvdev := heff.vdev
  have hlegacy := heff.legacy
  have hplain : m'.db = m.db → m'.vdev.activeGid = y.gid → (∀ j, occupied m' j ↔ y.slots j) →
      m'.legacy = y.legacy → y.rows = x.rows → Fits y m' :=
    fun hdb => h.same_rows fun gid => rows_of_db hdb
  obtain rfl := h.fingers
  unfold Fingers.after at hy
  split at hy
  all_goals
    rename_i heq
    cases heq
  iterate 2
    cases hy
    exact hplain heff.db (by rw [hvdev]; rfl) (occupied_of_update hfinger) hlegacy rfl
  iterate 4
    cases hy
    refine hplain heff.db (by rw [hvdev]; rfl) (fun j => (occupied_of_update hfinger j).trans ?_)
      hlegacy rfl
    split
    · rename_i hj
      exact hj ▸ Iff.rfl
    · exact Iff.rfl
  · cases hy
    refine h.same_rows (fun gid => rows_of_sqlCreate hact) (by rw [hvdev]; rfl) (fun j => ?_)
      hlegacy rfl
    rw [occupied, hfinger]
    exact Iff.rfl
  · cases hy
    refine hplain heff.db (by rw [hvdev]; rfl) (fun j => ?_) hlegacy rfl
    simp [occupied, hfinger, fingerAfter, Finger.zero]
  · cases hy
    refine hplain heff.db (by rw [hvdev]; rfl) (fun j => ?_) hlegacy rfl
    rw [occupied, hfinger]
    exact Iff.rfl
  · cases hy
    refine hplain heff.db (by rw [hvdev]; rfl) (fun j => ?_) hlegacy rfl
    rw [occupied, hfinger]
    exact Iff.rfl
  · rename_i gid fid r
    cases hy
    have hdb := heff.db.trans (if_pos (beq_iff_eq.mp hs))
    refine h.one_table hdb hvdev hfinger hlegacy ((h.oneRow gid).filter _) ⟨rfl, rfl, rfl⟩ ?_
    intro g j
    simp only [Fingers.delete, fingersOf, List.mem_filter, bne_iff_ne]
    grind
  · rename_i gid fid boundData boundPayload r
    split at hy
    · cases hy
    rename_i hfree
    cases hy
    have hdb := heff.db.trans (if_pos (beq_iff_eq.mp hs))
    refine h.one_table hdb hvdev hfinger hlegacy ?_ ⟨rfl, rfl, rfl⟩ ?_
    · refine List.pairwise_append.mpr ⟨h.oneRow gid, List.pairwise_singleton .., ?_⟩
      intro row hrow new hnew hid
      obtain rfl := List.mem_singleton.mp hnew
      exact hfree ⟨row, hrow, hid⟩
    · intro g j
      simp only [Fingers.insert, fingersOf, List.mem_append, List.mem_singleton]
      have hnew : ∀ data payload, (m.newRow fid data payload).id = fid := fun _ _ => rfl
      grind
  · rename_i r
    cases hy
    have hslots : ∀ j, occupied m' j ↔ occupied m j := fun j => by rw [occupied, hfinger]; exact Iff.rfl
    by_cases hr : r = 0
    · rw [if_pos hr] at hplain ⊢
      exact hplain heff.db (by rw [hvdev]; rfl) hslots (hlegacy.trans (if_pos hr)) rfl
    · rw [if_neg hr] at hplain ⊢
      exact hplain heff.db (by rw [hvdev]; rfl) hslots (hlegacy.trans (if_neg hr)) rfl
  · rename_i hremove
    obtain ⟨hquiet, rfl⟩ : Op.quiet _ = true ∧ fingersOf m = y := by simpa using hy
    refine hplain (heff.db.trans (dbAfter_of_quiet hquiet ..)) ?_ (fun j => ?_) ?_ rfl
    · rw [hvdev, activeGid_of_quiet hquiet]
      rfl
    · rw [occupied, hfinger, fingerAfter_of_quiet hquiet]
      exact Iff.rfl
    · rw [hlegacy]
      unfold legacyAfter
      split
      · exact (hremove _ rfl HEq.rfl).elim
      · rfl

/-- Code that runs alone takes the slots and the tables along the protocol, as far as it got. -/
theorem fits_alone {α : Type} {chs : List Choice} {p q : Code α} {Q : α → Fingers → Prop}
    {es : List HalEvent} (hp : fingersProtocol.Follows fine p Q x) (hx : Fits x m)
    (hrun : hal.solo fin t chs p m = some (es, q, m')) (hes : es.all sqlSucceeds = true) :
    ∃ y, fingersProtocol.Follows fine q Q y ∧ Fits y m' := by
  have hop : ∀ (x : Fingers) (m : Mem) (o : Op) (ch : Choice) (r : Resp o) (m' : Mem), Fits x m →
      act fin t o ch m = some (r, m') → sqlSucceeds (.op o r) = true →
      fingersProtocol.assume x (.op o r) ∧
        ∀ y, fingersProtocol.next x (.op o r) = some y → Fits y m' :=
    fun x m o ch r m' hx hact hs =>
      ⟨⟨hs, hx.fingers ▸ reads_act hs hact⟩, fun y hy => fits_act hx hs hact hy⟩
  have henter : ∀ (x : Fingers) (m : Mem) (c : Call), Fits x m →
      fingersProtocol.assume x (.enter c) ∧
        ∀ y, fingersProtocol.next x (.enter c) = some y → Fits y m :=
    fun x m c hx => ⟨⟨rfl, trivial⟩, fun y hy => by cases hy; exact hx⟩
  obtain ⟨y, -, hq, hy⟩ := hp.alone (J := Fits) (X := fun e => sqlSucceeds e = true) (fun _ => rfl)
    fingersProtocol_valid hop henter hx (List.all_eq_true.mp hes) hrun
  exact ⟨y, hq, hy⟩

end refines

/-! ## One operation -/

/-- What an operation leaves that returns `ret`. -/
def Operation.leaves (x : Fingers) (ret : ℤ) (y : Fingers) : Operation → Prop
  | .openDevice => ret = 0 → { x with gid := 0, slots := fun _ => False }.Reloaded y
  | .setActiveGroup gid => { x with gid }.Reloaded y
  | .readToTz => x.Reloaded y
  | .search => y = x ∧ (isSlot ret → ¬ x.slots ret)
  | .commit idx => y = (x.setSlot idx true).insert x.gid idx
  | .remove _ => ∃ A, y = x.without A

/-- Between two operations no table has two rows for a finger, a slot that is shown to be free has no
row, and the slot an enrollment found is free. -/
structure Kept (x : Past) (m : Mem) : Prop where
  oneRow : OneRow m
  shown : x.opened = true → x.shown = true → ∀ j, isSlot j → recorded m j → occupied m j
  aimed : x.opened = true → x.aimed = true → ∀ idx, x.found = some idx → isSlot idx →
    ¬ occupied m idx ∧ ¬ recorded m idx

section operation

variable {fin : Tid → Bool} {t : Tid} {chs : List Choice} {m m' : Mem} {es : List HalEvent}
  {x : Past} {a : Operation} {ret : ℤ}

/-- A conversion adds no id twice, whatever is left of the slots it may find. -/
theorem convertable_of {gid : UInt32} {left : ℤ → Prop} {y : Fingers} (h : Convertable m gid left)
    (hgid : y.gid = gid) (hrows : y.rows = (fingersOf m).rows) (hlegacy : y.legacy = m.legacy)
    (hleft : ∀ j, y.left j → left j) : y.convertable := by
  intro legacy hsome j hj hloaded hrow
  rw [hgid, hrows] at hrow
  obtain ⟨row, hmem, rfl⟩ := hrow
  exact h legacy (hlegacy ▸ hsome) row hmem hj (hloaded.imp_right (hleft _))

/-- A permitted operation keeps to the protocol. -/
theorem follows_code (hm : Kept x m) (horder : x.inOrder a) (hok : x.permits m a) :
    fingersProtocol.Follows fine a.code (fun ret y => a.leaves (fingersOf m) ret y) (fingersOf m) := by
  cases a with
  | openDevice =>
    have hok : Convertable m 0 fun _ => False := hok
    exact fingers_open (convertable_of hok rfl rfl rfl fun _ h => h.1)
  | setActiveGroup gid =>
    have hok : Convertable m gid (leftOver m) := hok
    exact fingers_setActiveGroup (convertable_of hok rfl rfl rfl fun _ => id)
  | readToTz =>
    have hok : Convertable m m.vdev.activeGid (leftOver m) := hok
    exact fingers_readToTz (convertable_of hok rfl rfl rfl fun _ => id)
  | search =>
    refine (fingers_search maxNumFingers 1 (fingersOf m)).mono ?_
    rintro r _ ⟨rfl, -, -, hfree⟩
    exact ⟨rfl, fun hr => hfree (by have := hr.2; omega)⟩
  | commit idx => exact fingers_commit (hm.aimed horder.1 hok.1 idx horder.2 hok.2).2
  | remove fid => exact fingers_remove fid _

/-- After a reload that leaves no row unseen. -/
theorem Fingers.Reloaded.shown {x y : Fingers} (h : x.Reloaded y)
    (hall : x.legacy = none ∨ ∀ j, ¬ x.rows x.gid j) (j : ℤ) (hrow : y.rows y.gid j) : y.slots j := by
  obtain ⟨hnone, rfl⟩ | ⟨legacy, removed, hsome, rfl⟩ := h
  · exact .inl hrow
  · have hempty := hall.resolve_left (by simp [hsome])
    obtain hrow | ⟨-, -, hslot⟩ := hrow
    · exact absurd hrow (hempty j)
    · exact hslot

/-- Whether the slots will show all rows. -/
theorem showsAll_iff {gid : UInt32} : showsAll m gid = true ↔
    m.legacy = none ∨ ∀ j, ¬ (fingersOf m).rows gid j := by
  simp only [showsAll, Bool.or_eq_true, Option.isNone_iff_eq_none, List.isEmpty_iff, fingersOf]
  refine or_congr_right ⟨fun h j => by simp [h], fun h => List.eq_nil_iff_forall_not_mem.mpr ?_⟩
  exact fun row hrow => h row.id ⟨row, hrow, rfl⟩

/-- **One operation.** -/
theorem Kept.step (hm : Kept x m) (horder : x.inOrder a) (hok : x.permits m a)
    (hfits : OneRow m') (hleaves : a.leaves (fingersOf m) ret (fingersOf m')) :
    Kept (x.after m ret a) m' := by
  -- a reload: what the slots show depends on the tables before, and nothing is found since
  have hreload : ∀ {y : Fingers} {z : Past} {gid : UInt32}, y.Reloaded (fingersOf m') →
      y.gid = gid → y.rows = (fingersOf m).rows → y.legacy = m.legacy →
      (z.opened = true → z.shown = true → showsAll m gid = true) → z.aimed = false → Kept z m' := by
    intro y z gid hy hgid hrows hlegacy hshown haimed
    refine ⟨hfits, fun hopened hz j _ hrow => ?_, fun _ h => by simp [haimed] at h⟩
    have hall := showsAll_iff.mp (hshown hopened hz)
    rw [← hlegacy, ← hrows, ← hgid] at hall
    exact hy.shown hall j hrow
  have hgid : (fingersOf m').gid = m'.vdev.activeGid := rfl
  cases a with
  | openDevice =>
    by_cases hret : ret = 0
    · exact hreload (hleaves hret) rfl rfl rfl (fun _ => id) rfl
    · exact ⟨hfits, fun h => by simp [Past.after, hret] at h, fun _ h => by cases h⟩
  | setActiveGroup gid => exact hreload hleaves rfl rfl rfl (fun _ => id) rfl
  | readToTz => exact hreload hleaves rfl rfl rfl (fun _ => id) rfl
  | search =>
    obtain ⟨hsame, hfree⟩ := hleaves
    have hshown : ∀ j, isSlot j → (fingersOf m').rows (fingersOf m').gid j →
        (fingersOf m').slots j := by
      rw [hsame]
      exact hm.shown horder hok
    refine ⟨hfits, fun _ _ => hshown, fun _ _ idx hidx hslot => ?_⟩
    obtain rfl : ret = idx := Option.some.inj hidx
    have hnone : ¬ (fingersOf m').slots ret := by
      rw [hsame]
      exact hfree hslot
    exact ⟨hnone, fun hrow => hnone (hshown ret hslot hrow)⟩
  | commit idx =>
    refine ⟨hfits, fun hopened hshown => ?_, fun _ _ _ h => by cases h⟩
    have hbefore := hm.shown hopened hshown
    have hafter : ∀ j, isSlot j → (fingersOf m').rows (fingersOf m').gid j →
        (fingersOf m').slots j := by
      rw [show fingersOf m' = _ from hleaves]
      rintro j hj (hrow | ⟨-, rfl⟩)
      · have hslot := hbefore j hj hrow
        simp only [Fingers.insert, Fingers.setSlot]
        split
        · trivial
        · exact hslot
      · exact (if_pos rfl).mpr rfl
    exact hafter
  | remove fid =>
    obtain ⟨A, hy⟩ := hleaves
    have hslots : ∀ j, (fingersOf m').slots j ↔ occupied m j ∧ ¬ A j := by
      rw [hy]
      exact fun _ => Iff.rfl
    have hrows : ∀ j, (fingersOf m').rows (fingersOf m').gid j ↔ recorded m j ∧ ¬ A j := by
      rw [hy]
      simp [Fingers.without, fingersOf, recorded]
    refine ⟨hfits, fun hopened hshown j hj hrow => ?_, fun hopened haimed idx hidx hslot => ?_⟩
    · obtain ⟨hrow, hA⟩ := (hrows j).mp hrow
      exact (hslots j).mpr ⟨hm.shown hopened hshown j hj hrow, hA⟩
    · obtain ⟨hfree, hnone⟩ := hm.aimed hopened haimed idx hidx hslot
      exact ⟨fun h => hfree ((hslots idx).mp h).1, fun h => hnone ((hrows idx).mp h).1⟩

/-- At every moment of a permitted operation the tables have one row for each finger. -/
theorem moment (hm : Kept x m) (horder : x.inOrder a) (hok : x.permits m a) {p : Code ℤ}
    (hrun : hal.solo fin t chs a.code m = some (es, p, m')) (hes : es.all sqlSucceeds = true) :
    OneRow m' ∧ ∀ ret, p = .ret ret → Kept (x.after m ret a) m' := by
  obtain ⟨y, hp, hfits⟩ := fits_alone (follows_code hm horder hok) ⟨rfl, hm.oneRow⟩ hrun hes
  refine ⟨hfits.oneRow, fun ret hret => ?_⟩
  subst hret
  obtain rfl := hfits.fingers
  exact hm.step horder hok hfits.oneRow hp

end operation

/-! ## Every run -/

/-- What is kept over every run. -/
theorem kept_of_run {m₀ m : Mem} {x : Past} (h₀ : OneRow m₀) (h : Operated Past.permits m₀ x m) :
    Kept x m := by
  induction h with
  | start => exact ⟨h₀, nofun, nofun⟩
  | step _ horder hok hrun hes ih => exact (moment ih horder hok hrun hes).2 _ rfl

/-- With one row for each finger, no finger that had a row has more rows than before. -/
theorem addsNone_of_oneRow {m m' : Mem} (h : OneRow m') : AddsNone m m' := by
  intro gid row hrow
  have hnodup : ((m'.rows gid).map (·.id)).Nodup := List.pairwise_map.mpr (h gid)
  have hle : (m'.rows gid).countP (·.id == row.id) ≤ 1 := by
    have hcount := List.nodup_iff_count.mp hnodup row.id
    rwa [List.count, List.countP_map] at hcount
  exact Nat.le_trans hle (List.countP_pos_iff.mpr ⟨row, hrow, by simp⟩)

/-- **One row for each finger.** In every run of permitted operations, between them and at every
moment of the next one, no table has two rows for a finger; so an operation, a repeated
`db_read_to_tz` among them, adds no row for a finger that has one. -/
theorem oneRow_of_run {m₀ m m' : Mem} {x : Past} {a : Operation} {fin : Tid → Bool} {t : Tid}
    {chs : List Choice} {es : List HalEvent} {p : Code ℤ} (h₀ : OneRow m₀)
    (h : Operated Past.permits m₀ x m) (horder : x.inOrder a) (hok : x.permits m a)
    (hrun : hal.solo fin t chs a.code m = some (es, p, m')) (hes : es.all sqlSucceeds = true) :
    OneRow m ∧ OneRow m' ∧ AddsNone m m' := by
  have hm := kept_of_run h₀ h
  have hm' := (moment hm horder hok hrun hes).1
  exact ⟨hm.oneRow, hm', addsNone_of_oneRow hm'⟩

/-- A system with Samsung's database of one finger and an empty table for group 0. -/
def unconverted : Mem :=
  { Mem.zero with
    db := ⟨fun gid => if gid = 0 then some [] else none⟩
    legacy := some ⟨[(1, [7])], [[3]]⟩ }

/-- The choices of a conversion of one finger whose removal of Samsung's database comes to
`removal`. -/
def conversionOfOne (removal : Choice) : List Choice :=
  List.replicate 2 .tick ++ .num 1 :: List.replicate 9 .tick ++
    [.num 100, .tick, .tick, .num 101, .tick, .num 100] ++ List.replicate 7 .tick ++ .num 101 ::
    List.replicate 5 .tick ++ [removal]

/-- The choices of an opening behind the database: the app starts both times, and every command is
answered well. -/
def appTrials : List Choice :=
  let good : Choice := .reply (.good 0)
  let resume : List Choice := [good, .tick, good, .tick, .tick, good]
  List.replicate 7 .tick ++ resume ++ List.replicate 7 .tick ++ good :: List.replicate 14 .tick ++
    resume ++ List.replicate 3 .tick ++ good :: List.replicate 7 .tick ++ [good, good, .tick, good] ++
    List.replicate 15 .tick

/-- The choices of an opening that converts. -/
def openingWith (removal : Choice) : List Choice :=
  List.replicate 37 .tick ++ conversionOfOne removal ++ appTrials

/-- No table has a row. -/
theorem unconverted_rows (gid : UInt32) : unconverted.rows gid = [] := by
  simp only [Mem.rows, unconverted]
  split <;> rfl

/-- There is nothing to repeat. -/
theorem unconverted_oneRow : OneRow unconverted := fun gid => by
  rw [unconverted_rows]
  exact .nil

/-- The memory after that finger is converted: slot 1 holds it, slots 2 and 5 are free. -/
def converted (tz : TrustZone) (a : Bytes fingerDataMaxLength) (b : Bytes payloadMaxLength)
    (row : Row) (legacy : Option LegacyDb) : Mem :=
  { Mem.zero with
    tz := { tz with
      finger := Function.update (Function.update (Function.update tz.finger 5 .zero) 2 .zero) 1
        ⟨true, a, b⟩ }
    db := ⟨Function.update (fun gid => if gid = 0 then some [] else none) 0 (some [row])⟩
    legacy }

/-- The device is opened, and Samsung's database is converted and removed, or it cannot be removed. -/
theorem openDevice_converts (removed : Bool) : ∃ es tz a b data payload,
    hal.solo (fun _ => false) 1 (openingWith (if removed then .tick else .num 1))
      Operation.openDevice.code unconverted = some (es, .ret 0,
        converted tz a b ⟨1, data, payload⟩ (if removed then none else unconverted.legacy)) ∧
    es.all sqlSucceeds = true := by
  obtain ⟨es, m, hrun, hes, tz, l, data, payload, hm, hl, h5, h2, a, b, h1⟩ : ∃ es m,
      hal.solo (fun _ => false) 1 (openingWith (if removed then .tick else .num 1))
        Operation.openDevice.code unconverted = some (es, .ret 0, m) ∧ es.all sqlSucceeds = true ∧
      ∃ tz l data payload, m = { Mem.zero with
        tz
        db := ⟨Function.update (fun gid => if gid = 0 then some [] else none) 0
          (some [⟨1, data, payload⟩])⟩
        legacy := if removed then none else unconverted.legacy
        locks := l } ∧ (l = fun _ => none) ∧ tz.finger 5 = .zero ∧ tz.finger 2 = .zero ∧
        ∃ a b, tz.finger 1 = ⟨true, a, b⟩ := by
    cases removed
    all_goals
      refine ⟨_, _, rfl, rfl, _, _, _, _, rfl, ?_, rfl, rfl, _, _, rfl⟩
      funext mu
      cases mu <;> rfl
  refine ⟨es, tz, a, b, data, payload, ?_, hes⟩
  have e5 : Function.update tz.finger 5 .zero = tz.finger := h5 ▸ Function.update_eq_self 5 tz.finger
  have e2 : Function.update tz.finger 2 .zero = tz.finger := h2 ▸ Function.update_eq_self 2 tz.finger
  have e1 : Function.update tz.finger 1 ⟨true, a, b⟩ = tz.finger :=
    h1 ▸ Function.update_eq_self 1 tz.finger
  rw [hrun, hm, hl, converted, e5, e2, e1]
  rfl

/-- The choices of a commit that succeeds, with data that is not zero. -/
def goodCommit : List Choice :=
  let good : Choice := .reply (.good 7)
  [.tick, .tick, good, .tick, good, good] ++ List.replicate 7 .tick ++
    [.num 101, .tick, .tick, good, .tick, .tick, good]

/-- The device is opened and the conversion succeeds, then a second finger is enrolled. -/
theorem oneRow_of_run_two : ∃ x m m' es, Operated Past.permits unconverted x m ∧
    hal.solo (fun _ => false) 1 goodCommit (Operation.commit 2).code m = some (es, .ret 0, m') ∧
    (m'.rows 0).map (·.id) = [1, 2] ∧ OneRow m' := by
  obtain ⟨es₁, tz, a, b, data, payload, h₁, hes₁⟩ := openDevice_converts true
  obtain ⟨es₂, h₂, hes₂⟩ : ∃ es, hal.solo (fun _ => false) 1 [.tick, .tick] Operation.search.code
      (converted tz a b ⟨1, data, payload⟩ none) =
        some (es, .ret 2, converted tz a b ⟨1, data, payload⟩ none) ∧ es.all sqlSucceeds = true := by
    exact ⟨_, rfl, rfl⟩
  obtain ⟨es₃, m', h₃, hes₃, hrows⟩ : ∃ es m', hal.solo (fun _ => false) 1 goodCommit
      (Operation.commit 2).code (converted tz a b ⟨1, data, payload⟩ none) = some (es, .ret 0, m') ∧
        es.all sqlSucceeds = true ∧ (m'.rows 0).map (·.id) = [1, 2] := by
    refine ⟨_, _, rfl, rfl, ?_⟩
    rfl
  have hempty : Convertable unconverted 0 fun _ => False :=
    fun _ _ row hrow => by simp [unconverted_rows] at hrow
  have hopen : Operated Past.permits unconverted _ _ :=
    Operated.step (a := .openDevice) .start trivial hempty h₁ hes₁
  have hsearch := hopen.step (a := .search) rfl rfl h₂ hes₂
  refine ⟨_, _, m', es₃, hsearch, h₃, hrows, ?_⟩
  exact (oneRow_of_run unconverted_oneRow hsearch (a := .commit 2) ⟨rfl, rfl⟩ ⟨rfl, by decide⟩ h₃
    hes₃).2.1

/-- **Converted twice.** The device is opened, and Samsung's database is converted but cannot be
removed; the group is set, and it is converted again. -/
theorem converted_twice : OneRow unconverted ∧ ∃ x m₁ y m₂,
    Operated (fun _ _ _ => True) unconverted x m₁ ∧ Operated (fun _ _ _ => True) unconverted y m₂ ∧
    OneRow m₁ ∧ ¬ OneRow m₂ ∧ ¬ AddsNone m₁ m₂ := by
  obtain ⟨es₁, tz, a, b, data, payload, h₁, hes₁⟩ := openDevice_converts false
  obtain ⟨es₂, m₂, h₂, hes₂, hrows₂⟩ : ∃ es m₂, hal.solo (fun _ => false) 1
      (List.replicate 3 .tick ++ conversionOfOne (.num 1) ++ [.tick]) (Operation.setActiveGroup 0).code
      (converted tz a b ⟨1, data, payload⟩ unconverted.legacy) = some (es, .ret 0, m₂) ∧
        es.all sqlSucceeds = true ∧ (m₂.rows 0).map (·.id) = [1, 1] := by
    refine ⟨_, _, rfl, rfl, ?_⟩
    rfl
  have hopen : Operated (fun _ _ _ => True) unconverted _ _ :=
    Operated.step (a := .openDevice) .start trivial trivial h₁ hes₁
  have hset := hopen.step (a := .setActiveGroup 0) rfl trivial h₂ hes₂
  have htwo : ∀ (p : ℤ → Bool), (m₂.rows 0).countP (fun row => p row.id) = [1, 1].countP p := by
    intro p
    rw [← hrows₂, List.countP_map]
    rfl
  refine ⟨unconverted_oneRow, _, _, _, _, hopen, hset, ?_, fun h => ?_, fun h => ?_⟩
  · intro gid
    by_cases hgid : gidNumber gid = 0
    · simp [converted, Mem.rows, hgid]
    · simp [converted, Mem.rows, hgid]
  · have hnodup : ((m₂.rows 0).map (·.id)).Pairwise (· ≠ ·) := List.pairwise_map.mpr (h 0)
    rw [hrows₂] at hnodup
    simp at hnodup
  · have hle := h 0 ⟨1, data, payload⟩ (.head _)
    rw [htwo (· == 1)] at hle
    exact absurd hle (by change ¬ 2 ≤ 1; decide)

end KlteCommon.Analysis

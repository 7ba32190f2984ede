import KlteCommon.Analysis.Agreement

/-!
# Reloading the slots for a group

`fingerprint_set_active_group` reads the group's table into the slots. What is left of the group
before is to be cleared first, but the `memset` covers `MAX_NUM_FINGERS` records of an array whose
first record is not used, so the last slot is not cleared.

The ladder: what clearing and each row make of the slots (`reload_clearFingers`,
`reload_readRows`), what the whole reload makes of them (`Reloaded`), and so when the slots
mirror the table (`mirrors_iff`): the last slot was empty or is filled again, and the blobs have
the size of the fields they are copied to. A finger in the last slot outlives the group it belongs
to (`stale_slot`).
-/

set_option autoImplicit false

namespace KlteCommon.Analysis

open KlteCommon.Computation KlteCommon.Fingerprint

/-! ## What is observed -/

/-- The slots hold what the rows hold. -/
def Mirrors (rows : Table) (finger : ℤ → Finger) : Prop :=
  ∀ idx, isSlot idx → ((finger idx).exist = true ↔ ∃ row ∈ rows, row.id = idx) ∧
    ∀ row ∈ rows, row.id = idx →
      (finger idx).data.toList = row.data ∧ (finger idx).payload.toList = row.payload

/-- Every row is for a slot, and no two are for the same. -/
def WellNumbered (rows : Table) : Prop :=
  (∀ row ∈ rows, isSlot row.id) ∧ rows.Pairwise fun a b => a.id ≠ b.id

/-- The blobs of a row have the size of the fields of a slot. -/
def fits (row : Row) : Prop :=
  row.data.length = fingerDataMaxLength ∧ row.payload.length = payloadMaxLength

/-- A read of the database succeeds; every other event does, the creation of a table that
exists already included. -/
def reads : HalEvent → Bool
  | .op (.sqlSelect _) r => r.isSome
  | .op (.sqlStep left) r => r == if left then sqliteRow else sqliteDone
  | _ => true

/-! ## The protocol -/

/-- The active group and the slots. -/
structure Slots where
  gid : UInt32
  finger : ℤ → Finger

/-- The procedures that take part. -/
def reloadCalls : Call → Prop
  | .dbReadToTz | .dbCheckAndCreateTable => True
  | _ => False

/-- A slot that a row was read into. -/
structure Loaded (row : Row) (f : Finger) : Prop where
  exist : f.exist = true
  data : row.data.length = fingerDataMaxLength → f.data.toList = row.data
  payload : row.payload.length = payloadMaxLength → f.payload.toList = row.payload

/-- The slots after reading the rows. -/
structure ReadIn (rows : Table) (x y : ℤ → Finger) : Prop where
  others : ∀ j, (∀ row ∈ rows, row.id ≠ j) → y j = x j
  loaded : ∀ row ∈ rows, Loaded row (y row.id)

/-- The slots after clearing `n` of them from `idx` on. -/
def cleared (n : ℕ) (idx : ℤ) (x : ℤ → Finger) (j : ℤ) : Finger :=
  if idx ≤ j ∧ j < idx + n then .zero else x j

/-- What they leave. -/
def reloadLeaves (rows : Table) (x : Slots) : (c : Call) → Ret c → Slots → Prop
  | .dbReadToTz, _, y => ReadIn rows (cleared maxNumFingers 0 x.finger) y.finger
  | _, _, y => y = x

/-- Replacing a slot. -/
def Slots.setFinger (x : Slots) (idx : ℤ) (f : Finger) : Slots :=
  { x with finger := Function.update x.finger idx f }

section

variable (x : Slots) (idx j : ℤ) (f g : Finger)

/-- The slot that was set. -/
@[simp] theorem setFinger_self : (x.setFinger idx f).finger idx = f := by simp [Slots.setFinger]

/-- Only the last of two stores into a slot counts. -/
@[simp] theorem setFinger_again : (x.setFinger idx f).setFinger idx g = x.setFinger idx g := by
  simp [Slots.setFinger]

/-- The other slots. -/
theorem setFinger_of_ne (h : j ≠ idx) : (x.setFinger idx f).finger j = x.finger j := by
  simp [Slots.setFinger, h]

end

/-- The slots after an event. -/
def Slots.after (x : Slots) : HalEvent → Option Slots
  | .op (.store (.finger idx) f) _ => some (x.setFinger idx f)
  | .op (.store (.fingerExist idx) b) _ =>
    some (x.setFinger idx { x.finger idx with exist := b })
  | .op (.store (.fingerData idx) d) _ => some (x.setFinger idx { x.finger idx with data := d })
  | .op (.store (.fingerPayload idx) d) _ =>
    some (x.setFinger idx { x.finger idx with payload := d })
  | .op (.store .activeGid gid) _ => some { x with gid }
  | .op (.sqlCreate _) _ => some x
  | .op .legacyRemove _ => none
  | .op o _ => if o.quiet then some x else none
  | .enter _ => some x
  | .done _ _ => none

/-- The environment of a reload of group `gid`, whose table has these rows. -/
def reloadReads (gid : UInt32) (rows : Table) (x : Slots) : HalEvent → Prop
  | .op (.load .activeGid) r => r = x.gid
  | .op .legacyAccess r => r = false
  | .op (.sqlSelect g) r => g = gid → r = some rows
  | .op (.sqlStep left) r => r = if left then sqliteRow else sqliteDone
  | .op (.readBlob blob n) r => blob.length = n → r.toList = blob
  | _ => True

/-- The protocol of a reload. -/
@[simps] def reloadProtocol (gid : UInt32) (rows : Table) : Protocol Resp Ret Slots where
  assume x e := reloadReads gid rows x e
  next x e := x.after e
  pre c x := reloadCalls c ∧ x.gid = gid
  post c x r y := reloadLeaves rows x c r y

section

variable (gid : UInt32) (rows : Table) (x y : Slots) (c : Call) (r : Ret c) (o : Op) (a : Resp o)
  (e : HalEvent)

/-- A call by its contract. -/
@[simp ↓] theorem callRule_reload (Q : Ret c → Slots → Prop) :
    (reloadProtocol gid rows).callRule fine c Q x ↔
      (reloadCalls c ∧ x.gid = gid) ∧ ∀ r y, reloadLeaves rows x c r y → Q r y :=
  Protocol.callRule_entered rfl trivial rfl

end

section bodies

variable {gid : UInt32} {rows : Table}

attribute [local simp ↓] load store op call send ionSbuffer sameIonSbuffer

attribute [local simp] reloadCalls reloadLeaves Slots.after reloadReads Op.quiet

/-- Clearing `n` slots from `idx` on. -/
theorem reload_clearFingers (n : ℕ) (idx : ℤ) (x : Slots) :
    (reloadProtocol gid rows).Follows fine (clearFingers n idx)
      (fun _ y => y = { x with finger := cleared n idx x.finger }) x := by
  induction n generalizing idx x with
  | zero =>
    have hnone : cleared 0 idx x.finger = x.finger := funext fun j => if_neg (by omega)
    simp [clearFingers, hnone]
  | succ n ih =>
    simp [clearFingers]
    refine (ih _ _).mono ?_
    rintro _ y rfl
    simp only [Slots.setFinger]
    congr 1
    funext j
    simp only [cleared, Function.update_apply]
    grind

/-- Reading the rows into the slots. -/
theorem reload_readRows (left : Table) (hleft : left.Pairwise fun a b => a.id ≠ b.id) (x : Slots) :
    (reloadProtocol gid rows).Follows fine (readRows left)
      (fun _ y => ReadIn left x.finger y.finger) x := by
  induction left generalizing x with
  | nil =>
    simp [readRows]
    exact ⟨fun _ _ => rfl, nofun⟩
  | cons row left ih =>
    obtain ⟨hne, hleft⟩ := List.pairwise_cons.mp hleft
    simp [readRows]
    intro data hdata payload hpayload
    refine (ih hleft _).mono fun _ y hy => ⟨fun j hj => ?_, List.forall_mem_cons.mpr ⟨?_, hy.loaded⟩⟩
    · obtain ⟨hrow, hj⟩ := List.forall_mem_cons.mp hj
      rw [hy.others j hj, setFinger_of_ne _ _ _ _ hrow.symm]
    · rw [hy.others row.id fun row' hrow' => (hne row' hrow').symm, setFinger_self]
      exact ⟨rfl, hdata, hpayload⟩

/-- Every body keeps to the contracts, when no id has two rows. -/
theorem reloadProtocol_valid (hrows : rows.Pairwise fun a b => a.id ≠ b.id) :
    (reloadProtocol gid rows).Valid fine body := by
  intro c _ x hx
  cases c
  all_goals simp at hx
  case dbCheckAndCreateTable => simp [body, dbCheckAndCreateTable]
  case dbReadToTz =>
    simp [body, dbReadToTz, hx]
    refine (reload_clearFingers _ _ x).mono ?_
    rintro _ y rfl
    simp [hx]
    exact (reload_readRows rows hrows _).mono fun _ z hz => by simpa using hz

/-- `fingerprint_set_active_group` clears the slots and reads the rows in. -/
theorem reload_setActiveGroup (x : Slots) :
    (reloadProtocol gid rows).Follows fine (fingerprintSetActiveGroup gid)
      (fun _ y => ReadIn rows (cleared maxNumFingers 0 x.finger) y.finger) x := by
  simp [fingerprintSetActiveGroup]

end bodies

/-! ## The memory refines the slots -/

/-- The slots are those of the memory, which has no other database and these rows for `gid`. -/
structure Reloads (gid : UInt32) (rows : Table) (x : Slots) (m : Mem) : Prop where
  active : m.vdev.activeGid = x.gid
  finger : m.tz.finger = x.finger
  table : m.rows gid = rows
  legacy : m.legacy = none

section refines

variable {fin : Tid → Bool} {t : Tid} {ch : Choice} {m m' : Mem} {gid : UInt32} {rows : Table}
  {x : Slots}

/-- Creating a table changes no rows. -/
theorem rows_of_sqlCreate {g : UInt32} {r : CInt} (h : act fin t (.sqlCreate g) ch m = some (r, m')) :
    m'.rows gid = m.rows gid := by
  simp only [act] at h
  split at h
  · obtain ⟨-, rfl⟩ := by simpa using h
    rfl
  · split at h
    · rename_i hnone
      obtain ⟨-, rfl⟩ := by simpa using h
      simp only [Mem.rows, Mem.setTable, Function.update_apply]
      split
      · rename_i hgid
        rw [hgid, hnone.2]
        rfl
      · rfl
    · cases h

/-- A step that is taken alone finds what the stage says, and does what it says. -/
theorem reloads_act {o : Op} {r : Resp o} (h : Reloads gid rows x m) (hreads : reads (.op o r) = true)
    (hact : act fin t o ch m = some (r, m')) :
    reloadReads gid rows x (.op o r) ∧ ∀ y, x.after (.op o r) = some y → Reloads gid rows y m' := by
  have heff := act_effect hact
  refine ⟨?_, fun y hy => ?_⟩
  · cases o with
    | load v =>
      cases v with
      | activeGid =>
        obtain ⟨rfl, -⟩ := by simpa [act] using hact
        exact h.active
      | _ => trivial
    | legacyAccess =>
      obtain ⟨rfl, -⟩ := by simpa [act] using hact
      simp [reloadReads, h.legacy]
    | sqlSelect g =>
      rintro rfl
      simp only [act] at hact
      simp only [reads] at hreads
      split at hact
      · obtain ⟨rfl, -⟩ := by simpa using hact
        cases hreads
      · split at hact
        · obtain ⟨rfl, -⟩ := by simpa using hact
          rw [h.table]
        · cases hact
    | sqlStep left => exact beq_iff_eq.mp hreads
    | readBlob blob n =>
      rintro rfl
      cases ch with
      | bytes beyond =>
        obtain ⟨rfl, -⟩ := by simpa [act] using hact
        exact List.ext_getElem (by simp) fun i _ hi => by simp
      | _ =>
        obtain ⟨rfl, -⟩ := by simpa [act] using hact
        exact List.ext_getElem (by simp) fun i _ hi => by simp
    | _ => trivial
  · have hkeep : ∀ {y : Slots}, m'.vdev.activeGid = y.gid → m'.tz.finger = y.finger →
        m'.db = m.db → m'.legacy = m.legacy → Reloads gid rows y m' :=
      fun hgid hfinger hdb hlegacy =>
        ⟨hgid, hfinger, (rows_of_db hdb).trans h.table, hlegacy.trans h.legacy⟩
    unfold Slots.after at hy
    split at hy
    all_goals
      rename_i heq
      cases heq
    iterate 4
      cases hy
      exact hkeep (by rw [heff.vdev]; exact h.active) (by rw [heff.finger, h.finger]; rfl)
        heff.db heff.legacy
    · cases hy
      exact hkeep (by rw [heff.vdev]; rfl) (by rw [heff.finger, h.finger]; rfl) heff.db heff.legacy
    · cases hy
      exact ⟨by rw [heff.vdev]; exact h.active, by rw [heff.finger, h.finger]; rfl,
        (rows_of_sqlCreate hact).trans h.table, heff.legacy.trans h.legacy⟩
    · cases hy
    · obtain ⟨hquiet, rfl⟩ : Op.quiet _ = true ∧ x = y := by simpa using hy
      refine hkeep ?_ ?_ ?_ ?_
      · rw [heff.vdev, activeGid_of_quiet hquiet, h.active]
      · rw [heff.finger, fingerAfter_of_quiet hquiet, h.finger]
      · rw [heff.db, dbAfter_of_quiet hquiet]
      · rw [heff.legacy]
        unfold legacyAfter
        split
        · rename_i hne
          exact (hne _ rfl HEq.rfl).elim
        · rfl

end refines

/-! ## The reload -/

/-- Rows that were read in are mirrored exactly when they fit and nothing is left in the last
slot. -/
theorem ReadIn.mirrors {rows : Table} {x y : ℤ → Finger}
    (h : ReadIn rows (cleared maxNumFingers 0 x) y) (hslots : ∀ row ∈ rows, isSlot row.id) :
    Mirrors rows y ↔ ((x maxNumFingers).exist = true → ∃ row ∈ rows, row.id = maxNumFingers) ∧
      ∀ row ∈ rows, fits row := by
  have hothers : ∀ j, ¬ (∃ row ∈ rows, row.id = j) → y j = cleared maxNumFingers 0 x j :=
    fun j hj => h.others j fun row hrow hid => hj ⟨row, hrow, hid⟩
  constructor
  · intro hy
    refine ⟨fun hlast => ?_, fun row hrow => ?_⟩
    · by_contra hnone
      have hkept : y maxNumFingers = x maxNumFingers := (hothers _ hnone).trans (if_neg (by simp))
      exact hnone ((hy _ (by decide)).1.mp (by rw [hkept, hlast]))
    · obtain ⟨hdata, hpayload⟩ := (hy row.id (hslots row hrow)).2 row hrow rfl
      exact ⟨by rw [← hdata, Vector.length_toList], by rw [← hpayload, Vector.length_toList]⟩
  · rintro ⟨hlast, hfits⟩ j ⟨hpos, hle⟩
    refine ⟨⟨fun hexist => ?_, ?_⟩, ?_⟩
    · by_contra hnone
      rw [hothers j hnone, cleared] at hexist
      split at hexist
      · cases hexist
      · obtain rfl : j = maxNumFingers := by omega
        exact hnone (hlast hexist)
    · rintro ⟨row, hrow, rfl⟩
      exact (h.loaded row hrow).exist
    · rintro row hrow rfl
      have hloaded := h.loaded row hrow
      exact ⟨hloaded.data (hfits row hrow).1, hloaded.payload (hfits row hrow).2⟩

/-- **The slots after a change of group.** Whatever they held before, they hold what the table of
the group holds exactly when the last slot was empty or is filled from the table, and the blobs
have the size of the fields. -/
theorem mirrors_iff {m m' : Mem} {gid : UInt32} {fin : Tid → Bool} {t : Tid} {chs : List Choice}
    {es : List HalEvent} {r : CInt} (hlegacy : m.legacy = none)
    (hrows : WellNumbered (m.rows gid)) (hreads : es.all reads = true)
    (h : hal.solo fin t chs (fingerprintSetActiveGroup gid) m = some (es, .ret r, m')) :
    Mirrors (m.rows gid) m'.tz.finger ↔
      ((m.tz.finger maxNumFingers).exist = true →
        ∃ row ∈ m.rows gid, row.id = maxNumFingers) ∧ ∀ row ∈ m.rows gid, fits row := by
  obtain ⟨y, -, hy, hm'⟩ := (reload_setActiveGroup ⟨m.vdev.activeGid, m.tz.finger⟩).alone
    (J := Reloads gid (m.rows gid)) (fun _ => rfl) (reloadProtocol_valid hrows.2)
    (fun x m o ch r m' hm hact hX => reloads_act hm hX hact)
    (fun x m c hm => ⟨trivial, fun y hy => by cases hy; exact hm⟩) ⟨rfl, rfl, rfl, hlegacy⟩
    (List.all_eq_true.mp hreads) h
  rw [hm'.finger]
  exact hy.mirrors hrows.1

/-- A device whose last slot is taken, with a table for group 1. -/
def lastSlotTaken (rows : Table) : Mem :=
  { Mem.zero with
    tz := { TrustZone.zero with finger := fun j => { Finger.zero with exist := j == 5 } }
    db := ⟨fun gid => if gid = 1 then some rows else none⟩ }

/-- The choices of a change to a group whose table exists and has `n` rows. -/
def reload (n : ℕ) : List Choice :=
  List.replicate 5 .tick ++ .num 1 :: List.replicate 8 .tick ++
    (List.replicate n ([.num 100] ++ List.replicate 5 .tick)).flatten ++ [.num 101, .tick]

/-- Group 1 has a finger for the last slot. -/
theorem mirrors_iff_last : ∃ es m', ∃ row : Row, row.id = 5 ∧ hal.solo (fun _ => false) 1
    (reload 1) (fingerprintSetActiveGroup 1) (lastSlotTaken [row]) = some (es, .ret 0, m') ∧
    Mirrors ((lastSlotTaken [row]).rows 1) m'.tz.finger := by
  let row : Row :=
    ⟨5, List.replicate fingerDataMaxLength 1, List.replicate payloadMaxLength 2⟩
  obtain ⟨es, m', h, hreads⟩ : ∃ es m', hal.solo (fun _ => false) 1 (reload 1)
      (fingerprintSetActiveGroup 1) (lastSlotTaken [row]) = some (es, .ret 0, m') ∧
      es.all reads = true := ⟨_, _, rfl, rfl⟩
  have hrows : (lastSlotTaken [row]).rows 1 = [row] := rfl
  have hnumbered : WellNumbered ((lastSlotTaken [row]).rows 1) := by
    rw [hrows]
    exact ⟨by simp [row]; decide, by simp⟩
  refine ⟨es, m', row, rfl, h, (mirrors_iff rfl hnumbered hreads h).mpr ?_⟩
  rw [hrows]
  simp [row, fits, maxNumFingers]

/-- **A finger of another group.** The last slot is taken, the group that becomes active has no
finger, every read succeeds, and the slot stays taken. -/
theorem stale_slot : ∃ es m', WellNumbered ((lastSlotTaken []).rows 1) ∧
    (lastSlotTaken []).legacy = none ∧ es.all reads = true ∧
    hal.solo (fun _ => false) 1 (reload 0) (fingerprintSetActiveGroup 1) (lastSlotTaken []) =
      some (es, .ret 0, m') ∧
    (m'.tz.finger 5).exist = true ∧ ¬ Mirrors ((lastSlotTaken []).rows 1) m'.tz.finger := by
  have hrows : (lastSlotTaken []).rows 1 = [] := rfl
  obtain ⟨es, m', h, hreads, hexist⟩ : ∃ es m', hal.solo (fun _ => false) 1 (reload 0)
      (fingerprintSetActiveGroup 1) (lastSlotTaken []) = some (es, .ret 0, m') ∧
      es.all reads = true ∧ (m'.tz.finger 5).exist = true := ⟨_, _, rfl, rfl, rfl⟩
  refine ⟨es, m', ?_, rfl, hreads, h, hexist, fun hmirrors => ?_⟩
  · rw [hrows]
    exact ⟨nofun, .nil⟩
  · obtain ⟨row, hrow, -⟩ := (hmirrors 5 (by decide)).1.mp hexist
    cases hrow

end KlteCommon.Analysis

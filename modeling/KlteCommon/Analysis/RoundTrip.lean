import KlteCommon.Analysis.Uniqueness

/-!
# What is saved is read back

An enrollment and a removal change the slots and the table of the active group together; a later
`fingerprint_set_active_group` for the same group clears the slots, all but the last, and fills
them from the table again.

`Saved` says that the table has the occupied slots in full and that the others are zero. The
ladder: what an insert, a delete and the two updates make of slots and table (`saves_commit`,
`saves_remove`), and that both keep them saved (`Saved.insert`, `Saved.without`); reading saved
rows gives the slots back, the last one included (`Saved.readBack`); so a reload after any sequence
of updates changes no slot (`reload_unchanged`).
-/

set_option autoImplicit false

namespace KlteCommon.Analysis

open KlteCommon.Computation KlteCommon.Fingerprint

/-! ## What is observed -/

/-- The row of a slot. -/
def rowOf (idx : ℤ) (f : Finger) : Row := ⟨idx, f.data.toList, f.payload.toList⟩

/-- The table has one row for each occupied slot, with all its bytes, and no others; the slots that
are not occupied are zero. -/
structure Saved (rows : Table) (finger : ℤ → Finger) : Prop where
  once : rows.Pairwise fun a b => a.id ≠ b.id
  rows : ∀ row, row ∈ rows ↔
    isSlot row.id ∧ (finger row.id).exist = true ∧ row = rowOf row.id (finger row.id)
  free : ∀ j, isSlot j → (finger j).exist = false → finger j = .zero

/-- Enrollments into free slots and removals, one after the other and each with every statement
succeeding. -/
inductive Updated (m₀ : Mem) : Mem → Prop
  | start : Updated m₀ m₀
  | step {m m' : Mem} {u : Update} {fin : Tid → Bool} {t : Tid} {chs : List Choice}
      {es : List HalEvent} (h : Updated m₀ m) (haimed : u.aimed m) (hchanges : u.changes m)
      (hrun : hal.solo fin t chs u.code m = some (es, .ret (), m'))
      (hes : es.all sqlSucceeds = true) : Updated m₀ m'

/-! ## The slots and the table of the active group -/

/-- The slots, with the rows of the active group. -/
structure Copies extends Slots where
  rows : Table

namespace Copies

/-- Replacing a slot. -/
def setFinger (x : Copies) (idx : ℤ) (f : Finger) : Copies :=
  { x with finger := Function.update x.finger idx f }

/-- A row more. -/
def insert (x : Copies) (row : Row) : Copies := { x with rows := x.rows ++ [row] }

/-- The rows of a finger less. -/
def delete (x : Copies) (fid : ℤ) : Copies :=
  { x with rows := x.rows.filter fun row => row.id != fid }

/-- The fingers in `A` are gone from the slots and from the table. -/
def without (x : Copies) (A : ℤ → Bool) : Copies :=
  { x with
    finger := fun j => if A j then .zero else x.finger j
    rows := x.rows.filter fun row => !A row.id }

/-- Without nothing. -/
theorem without_none (x : Copies) : x.without (fun _ => false) = x := by
  obtain ⟨slots, rows⟩ := x
  have hrows : rows.filter (fun _ => true) = rows := List.filter_eq_self.mpr fun _ _ => rfl
  simp [without, hrows]

/-- One removal behind another. -/
theorem without_without (x : Copies) (A B : ℤ → Bool) :
    (x.without A).without B = x.without fun j => A j || B j := by
  simp only [without, List.filter_filter]
  congr 1
  · congr 1
    funext j
    grind
  · congr 1
    funext row
    grind

/-- A delete, and the clearing of the slot. -/
theorem delete_setFinger (x : Copies) (fid : ℤ) :
    (x.delete fid).setFinger fid .zero = x.without (· == fid) := by
  simp only [delete, setFinger, without]
  congr 2
  funext j
  grind

/-- After an event. -/
def after (x : Copies) : HalEvent → Option Copies
  | .op (.store (.finger idx) f) _ => some (x.setFinger idx f)
  | .op (.store (.fingerExist idx) b) _ => some (x.setFinger idx { x.finger idx with exist := b })
  | .op (.store (.fingerData idx) d) _ => some (x.setFinger idx { x.finger idx with data := d })
  | .op (.store (.fingerPayload idx) d) _ =>
    some (x.setFinger idx { x.finger idx with payload := d })
  | .op (.sqlDelete gid fid) _ => if gid = x.gid then some (x.delete fid) else none
  | .op (.sqlInsert gid fid boundData boundPayload) _ =>
    if gid = x.gid ∧ boundData = true ∧ boundPayload = true then
      some (x.insert (rowOf fid (x.finger fid)))
    else none
  | .op .legacyRemove _ => none
  | .op o _ => if o.quiet then some x else none
  | .enter _ => some x
  | .done _ _ => none

/-- What is read is what is there. -/
def reads (x : Copies) : HalEvent → Prop
  | .op (.load .activeGid) r => r = x.gid
  | _ => True

end Copies

/-- The procedures that take part. -/
def savesCalls : Call → Prop
  | .dbWriteToDb _ _ | .sendRemoveNotice _ | .sendErrorNotice _ => True
  | _ => False

/-- What they leave. -/
def savesLeaves (x : Copies) : (c : Call) → Ret c → Copies → Prop
  | .dbWriteToDb false fid, _, y => y = x.insert (rowOf fid (x.finger fid))
  | .dbWriteToDb true fid, _, y => y = x.without (· == fid)
  | _, _, y => y = x

/-- The protocol of an update. -/
@[simps] def savesProtocol : Protocol Resp Ret Copies where
  assume x e := sqlSucceeds e = true ∧ x.reads e
  next x e := x.after e
  pre c _ := savesCalls c
  post c x r y := savesLeaves x c r y

section

variable (x y : Copies) (c : Call) (r : Ret c) (e : HalEvent)

/-- A call by its contract. -/
@[simp ↓] theorem callRule_saves (Q : Ret c → Copies → Prop) :
    savesProtocol.callRule fine c Q x ↔ savesCalls c ∧ ∀ r y, savesLeaves x c r y → Q r y :=
  Protocol.callRule_entered rfl ⟨rfl, trivial⟩ rfl

end

section bodies

attribute [local simp ↓] load store op call send ionSbuffer sameIonSbuffer

attribute [local simp] savesCalls savesLeaves Copies.after Copies.reads sqlSucceeds Op.quiet

/-- Every body keeps to the contracts. -/
theorem savesProtocol_valid : savesProtocol.Valid fine body := by
  intro c _ x hx
  cases c
  all_goals simp at hx
  case dbWriteToDb remove fid _ =>
    cases remove with
    | false => simp [body, dbWriteToDb]
    | true => simp [body, dbWriteToDb, Copies.delete_setFinger]
  case sendErrorNotice => simp [body, sendErrorNotice]
  case sendRemoveNotice => simp [body, sendRemoveNotice]

/-- The commit fills a slot and adds its row. -/
theorem saves_commit (idx : ℤ) (x : Copies) :
    savesProtocol.Follows fine (vcsEnrollCommit idx)
      (fun _ y => ∃ data payload, y = (x.setFinger idx ⟨true, data, payload⟩).insert
        (rowOf idx ⟨true, data, payload⟩)) x := by
  simp [vcsEnrollCommit, payloadBind, enrollmentPasswordSet, Copies.setFinger]
  exact fun _ data _ payload _ _ _ _ => ⟨_, _, rfl⟩

/-- Removing the fingers of all slots. -/
theorem saves_removeFingers (n : ℕ) (idx : ℤ) (ret : CInt) (x : Copies) :
    savesProtocol.Follows fine (removeFingers n idx ret) (fun _ y => ∃ A, y = x.without A) x := by
  induction n generalizing idx ret x with
  | zero =>
    simp [removeFingers]
    exact ⟨_, x.without_none.symm⟩
  | succ n ih =>
    simp [removeFingers]
    refine ⟨ih _ _ _, fun r => (ih _ _ _).mono ?_⟩
    rintro _ y ⟨A, rfl⟩
    exact ⟨_, x.without_without ..⟩

/-- The removal takes fingers out of the slots and out of the table. -/
theorem saves_remove (fid : UInt32) (x : Copies) :
    savesProtocol.Follows fine (fingerprintRemove fid) (fun _ y => ∃ A, y = x.without A) x := by
  by_cases hfid : fid = 0
  · simp [fingerprintRemove, hfid]
    refine (saves_removeFingers _ _ _ x).mono fun r y hy => ?_
    simpa using hy
  · simp [fingerprintRemove, hfid]

end bodies

/-! ## Updates keep them saved -/

section saved

variable {x : Copies}

/-- An occupied slot and its row, both new. -/
theorem Saved.insert {idx : ℤ} {f : Finger} (h : Saved x.rows x.finger) (hidx : isSlot idx)
    (hfree : (x.finger idx).exist = false) (hf : f.exist = true) :
    Saved ((x.setFinger idx f).insert (rowOf idx f)).rows
      ((x.setFinger idx f).insert (rowOf idx f)).finger := by
  have hnone : ∀ row ∈ x.rows, row.id ≠ idx := by
    rintro row hrow rfl
    obtain ⟨-, hexist, -⟩ := (h.rows row).mp hrow
    rw [hfree] at hexist
    cases hexist
  have hother : ∀ j, j ≠ idx → Function.update x.finger idx f j = x.finger j :=
    fun j hj => Function.update_of_ne hj ..
  simp only [Copies.insert, Copies.setFinger]
  refine ⟨?_, fun row => ?_, fun j hj hexist => ?_⟩
  · refine List.pairwise_append.mpr ⟨h.once, List.pairwise_singleton .., ?_⟩
    intro row hrow new hnew
    obtain rfl := List.mem_singleton.mp hnew
    exact hnone row hrow
  · rw [List.mem_append, List.mem_singleton]
    by_cases hid : row.id = idx
    · have hold : row ∉ x.rows := fun hrow => hnone row hrow hid
      simp [hold, hid, hidx, hf]
    · have hnew : row ≠ rowOf idx f := fun hrow => hid (congrArg Row.id hrow)
      simp [hnew, hother _ hid, h.rows]
  · by_cases hjx : j = idx
    · simp [hjx, hf] at hexist
    · rw [hother j hjx] at hexist ⊢
      exact h.free j hj hexist

/-- Fewer fingers. -/
theorem Saved.without (h : Saved x.rows x.finger) (A : ℤ → Bool) :
    Saved (x.without A).rows (x.without A).finger := by
  simp only [Copies.without]
  refine ⟨h.once.filter _, fun row => ?_, fun j hj hexist => ?_⟩
  · rw [List.mem_filter, h.rows]
    cases A row.id <;> simp [Finger.zero]
  · by_cases hA : A j = true
    · exact if_pos hA
    · rw [if_neg hA] at hexist ⊢
      exact h.free j hj hexist

end saved

/-! ## The memory refines them -/

/-- The memory holds these slots and these rows of the active group, and no other database. -/
structure Copied (x : Copies) (m : Mem) : Prop where
  active : m.vdev.activeGid = x.gid
  finger : m.tz.finger = x.finger
  table : m.rows x.gid = x.rows
  legacy : m.legacy = none

section refines

variable {fin : Tid → Bool} {t : Tid} {ch : Choice} {m m' : Mem} {x y : Copies}

/-- **One step** of the memory is a step of the slots and the table. -/
theorem copied_act {o : Op} {r : Resp o} (h : Copied x m) (hs : sqlSucceeds (.op o r) = true)
    (hact : act fin t o ch m = some (r, m')) (hy : x.after (.op o r) = some y) : Copied y m' := by
  have heff := act_effect hact
  have hkeep : ∀ {y : Copies}, m'.db = m.db → m'.vdev.activeGid = y.gid → m'.tz.finger = y.finger →
      m'.legacy = m.legacy → y.gid = x.gid → y.rows = x.rows → Copied y m' :=
    fun hdb hgid hfinger hlegacy hy hrows =>
      ⟨hgid, hfinger, by rw [rows_of_db hdb, hy, h.table, hrows], hlegacy.trans h.legacy⟩
  unfold Copies.after at hy
  split at hy
  all_goals
    rename_i heq
    cases heq
  iterate 4
    cases hy
    exact hkeep heff.db (by rw [heff.vdev]; exact h.active)
      (by rw [heff.finger, h.finger]; rfl) heff.legacy rfl rfl
  · obtain ⟨rfl, rfl⟩ : _ = x.gid ∧ x.delete _ = y := by simpa using hy
    refine ⟨by rw [heff.vdev]; exact h.active, by rw [heff.finger]; exact h.finger, ?_,
      heff.legacy.trans h.legacy⟩
    rw [rows_of_db (heff.db.trans (if_pos (beq_iff_eq.mp hs)))]
    simp only [Copies.delete, rows_setTable, h.table]
  · obtain ⟨⟨rfl, rfl, rfl⟩, rfl⟩ : (_ = x.gid ∧ _ = true ∧ _ = true) ∧ x.insert _ = y := by
      simpa using hy
    refine ⟨by rw [heff.vdev]; exact h.active, by rw [heff.finger]; exact h.finger, ?_,
      heff.legacy.trans h.legacy⟩
    rw [rows_of_db (heff.db.trans (if_pos (beq_iff_eq.mp hs)))]
    simp only [Copies.insert, rows_setTable, h.table, Mem.newRow, h.finger, rowOf, if_true]
  · cases hy
  · rename_i hremove
    obtain ⟨hquiet, rfl⟩ : Op.quiet _ = true ∧ x = y := by simpa using hy
    refine hkeep (heff.db.trans (dbAfter_of_quiet hquiet ..)) ?_ ?_ ?_ rfl rfl
    · rw [heff.vdev, activeGid_of_quiet hquiet, h.active]
    · rw [heff.finger, fingerAfter_of_quiet hquiet, h.finger]
    · rw [heff.legacy]
      unfold legacyAfter
      split
      · exact (hremove _ rfl HEq.rfl).elim
      · rfl

/-- Code that runs alone takes the slots and the table along the protocol. -/
theorem copied_alone {α : Type} {chs : List Choice} {p : Code α} {a : α} {Q : α → Copies → Prop}
    {es : List HalEvent} (hp : savesProtocol.Follows fine p Q x) (hx : Copied x m)
    (hrun : hal.solo fin t chs p m = some (es, .ret a, m')) (hes : es.all sqlSucceeds = true) :
    ∃ y, Q a y ∧ Copied y m' := by
  have hreads : ∀ {x : Copies} {m m' : Mem} {o : Op} {ch : Choice} {r : Resp o}, Copied x m →
      act fin t o ch m = some (r, m') → x.reads (.op o r) := by
    intro x m m' o ch r hx hact
    cases o with
    | load v =>
      obtain ⟨rfl, -⟩ := by simpa [act] using hact
      cases v <;> first | trivial | exact hx.active
    | _ => trivial
  have hop : ∀ (x : Copies) (m : Mem) (o : Op) (ch : Choice) (r : Resp o) (m' : Mem), Copied x m →
      act fin t o ch m = some (r, m') → sqlSucceeds (.op o r) = true →
      savesProtocol.assume x (.op o r) ∧
        ∀ y, savesProtocol.next x (.op o r) = some y → Copied y m' :=
    fun x m o ch r m' hx hact hs => ⟨⟨hs, hreads hx hact⟩, fun y hy => copied_act hx hs hact hy⟩
  have henter : ∀ (x : Copies) (m : Mem) (c : Call), Copied x m →
      savesProtocol.assume x (.enter c) ∧
        ∀ y, savesProtocol.next x (.enter c) = some y → Copied y m :=
    fun x m c hx => ⟨⟨rfl, trivial⟩, fun y hy => by cases hy; exact hx⟩
  obtain ⟨y, -, hq, hy⟩ := hp.alone (J := Copied) (X := fun e => sqlSucceeds e = true) (fun _ => rfl)
    savesProtocol_valid hop henter hx (List.all_eq_true.mp hes) hrun
  exact ⟨y, hq, hy⟩

end refines

/-! ## Every sequence of updates -/

/-- The slots and the table of the active group. -/
def copiesOf (m : Mem) : Copies :=
  { gid := m.vdev.activeGid, finger := m.tz.finger, rows := m.rows m.vdev.activeGid }

section updates

variable {fin : Tid → Bool} {t : Tid} {chs : List Choice} {m₀ m m' : Mem} {es : List HalEvent}

/-- What is kept between two updates. -/
structure SavedMem (gid : UInt32) (m : Mem) : Prop where
  active : m.vdev.activeGid = gid
  legacy : m.legacy = none
  saved : Saved (m.rows gid) m.tz.finger

/-- A memory without Samsung's database is what its copies say. -/
theorem copied_copiesOf (h : m.legacy = none) : Copied (copiesOf m) m := ⟨rfl, rfl, rfl, h⟩

/-- **One update.** -/
theorem SavedMem.step {gid : UInt32} {u : Update} (h : SavedMem gid m) (haimed : u.aimed m)
    (hchanges : u.changes m) (hrun : hal.solo fin t chs u.code m = some (es, .ret (), m'))
    (hes : es.all sqlSucceeds = true) : SavedMem gid m' := by
  obtain ⟨rfl, hlegacy, hsaved⟩ := h
  have hx := copied_copiesOf hlegacy
  have hkept : ∀ {y : Copies}, y.gid = m.vdev.activeGid → Saved y.rows y.finger → Copied y m' →
      SavedMem m.vdev.activeGid m' := fun hgid hy hm' =>
    ⟨hm'.active.trans hgid, hm'.legacy, by rw [← hgid, hm'.table, hm'.finger]; exact hy⟩
  cases u with
  | commit idx =>
    obtain ⟨hidx, hfree⟩ := hchanges
    obtain ⟨_, ⟨data, payload, rfl⟩, hm'⟩ := copied_alone (saves_commit idx _) hx hrun hes
    exact hkept rfl (Saved.insert (x := copiesOf m) hsaved hidx (Bool.eq_false_iff.mpr hfree) rfl) hm'
  | remove fid =>
    have hp : savesProtocol.Follows fine (Update.remove fid).code
        (fun _ y => ∃ A, y = (copiesOf m).without A) (copiesOf m) := by
      simp only [Update.code, Protocol.follows_bind]
      exact saves_remove fid _
    obtain ⟨_, ⟨A, rfl⟩, hm'⟩ := copied_alone hp hx hrun hes
    exact hkept rfl (Saved.without (x := copiesOf m) hsaved A) hm'

/-- Updates keep the table and the slots together. -/
theorem SavedMem.updated {gid : UInt32} (h₀ : SavedMem gid m₀) (h : Updated m₀ m) :
    SavedMem gid m := by
  induction h with
  | start => exact h₀
  | step _ haimed hchanges hrun hes ih => exact ih.step haimed hchanges hrun hes

end updates

/-! ## Reading them back -/

/-- Where every statement succeeds every read does. -/
theorem reads_of_sqlSucceeds {e : HalEvent} (h : sqlSucceeds e = true) : reads e = true := by
  unfold reads
  split <;> first | exact h | rfl

/-- Rows that have a slot in full give it back. -/
theorem Loaded.eq {idx : ℤ} {f g : Finger} (hf : f.exist = true) (h : Loaded (rowOf idx f) g) :
    g = f := by
  have hdata := Vector.toList_inj.mp (h.data (Vector.length_toList ..))
  have hpayload := Vector.toList_inj.mp (h.payload (Vector.length_toList ..))
  have hexist := h.exist.trans hf.symm
  obtain ⟨exist, data, payload⟩ := g
  cases f
  simp_all

/-- **Reading saved rows** leaves every slot as it is: those with a row are filled with what they
had, and the others are zero, cleared or not. -/
theorem Saved.readBack {rows : Table} {x y : ℤ → Finger} (h : Saved rows x)
    (hy : ReadIn rows (cleared maxNumFingers 0 x) y) (j : ℤ) (hj : isSlot j) : y j = x j := by
  by_cases hexist : (x j).exist = true
  · have hrow : rowOf j (x j) ∈ rows := (h.rows _).mpr ⟨hj, hexist, rfl⟩
    exact (hy.loaded _ hrow).eq hexist
  · have hzero := h.free j hj (Bool.eq_false_iff.mpr hexist)
    have hnone : ∀ row ∈ rows, row.id ≠ j := by
      rintro row hrow rfl
      exact hexist ((h.rows row).mp hrow).2.1
    rw [hy.others j hnone, cleared, hzero, ite_self]

/-- **Saving and reloading changes no slot.** The table of the active group has the occupied slots
in full; fingers are enrolled into free slots and removed, in any number and order, with whatever
bytes the app replies; then the group is set again. -/
theorem reload_unchanged {gid : UInt32} {m₀ m m' : Mem} {fin : Tid → Bool} {t : Tid}
    {chs : List Choice} {es : List HalEvent} {r : CInt} (hgid : m₀.vdev.activeGid = gid)
    (hlegacy : m₀.legacy = none) (h₀ : Saved (m₀.rows gid) m₀.tz.finger) (h : Updated m₀ m)
    (hrun : hal.solo fin t chs (fingerprintSetActiveGroup gid) m = some (es, .ret r, m'))
    (hes : es.all sqlSucceeds = true) (j : ℤ) (hj : isSlot j) : m'.tz.finger j = m.tz.finger j := by
  obtain ⟨-, hnone, hsaved⟩ := SavedMem.updated ⟨hgid, hlegacy, h₀⟩ h
  obtain ⟨y, -, hy, hm'⟩ := (reload_setActiveGroup ⟨m.vdev.activeGid, m.tz.finger⟩).alone
    (J := Reloads gid (m.rows gid)) (fun _ => rfl) (reloadProtocol_valid hsaved.once)
    (fun x m o ch r m' hm hact hX => reloads_act hm hX hact)
    (fun x m c hm => ⟨trivial, fun y hy => by cases hy; exact hm⟩) ⟨rfl, rfl, rfl, hnone⟩
    (fun e he => reads_of_sqlSucceeds (List.all_eq_true.mp hes e he)) hrun
  rw [hm'.finger]
  exact hsaved.readBack hy j hj

/-- Group 1 is active and has a table without rows. -/
def emptyGroup : Mem :=
  { Mem.zero with
    vdev := { Device.zero with activeGid := 1 }
    db := ⟨fun gid => if gid = 1 then some [] else none⟩ }

/-- The memory when it has one finger, in the last slot. -/
def lastEnrolled (f : ℤ → Finger) (row : Row) : Mem :=
  { emptyGroup with
    tz := { TrustZone.zero with finger := f }
    db := ⟨Function.update emptyGroup.db.tables (gidNumber 1) (some [row])⟩ }

/-- A commit into the last slot. -/
theorem commit_last : ∃ es f row, hal.solo (fun _ => false) 1 goodCommit (Update.commit 5).code
    emptyGroup = some (es, .ret (), lastEnrolled f row) ∧ es.all sqlSucceeds = true ∧
      (f 5).exist = true ∧ (f 5).data = (Reply.good 7).bytes _ :=
  ⟨_, _, _, rfl, rfl, rfl, rfl⟩

/-- A finger is enrolled into the last slot, and the group is set again. -/
theorem reload_unchanged_last : ∃ m m' es, Updated emptyGroup m ∧
    (m.tz.finger 5).exist = true ∧ (m.tz.finger 5).data = (Reply.good 7).bytes _ ∧
    hal.solo (fun _ => false) 1 (reload 1) (fingerprintSetActiveGroup 1) m =
      some (es, .ret 0, m') ∧ m'.tz.finger 5 = m.tz.finger 5 := by
  obtain ⟨es₁, f, row, h₁, hes₁, hexist, hdata⟩ := commit_last
  obtain ⟨es, m', h, hes⟩ : ∃ es m', hal.solo (fun _ => false) 1 (reload 1)
      (fingerprintSetActiveGroup 1) (lastEnrolled f row) = some (es, .ret 0, m') ∧
        es.all sqlSucceeds = true := ⟨_, _, rfl, rfl⟩
  have hcommit : Updated emptyGroup (lastEnrolled f row) :=
    Updated.step (u := .commit 5) .start trivial ⟨by decide, by simp [occupied]; rfl⟩ h₁ hes₁
  have hsaved : Saved (emptyGroup.rows 1) emptyGroup.tz.finger := by
    refine ⟨.nil, fun row => ⟨by rintro ⟨⟩, ?_⟩, fun j _ _ => rfl⟩
    rintro ⟨-, hexist, -⟩
    cases hexist
  exact ⟨_, m', es, hcommit, hexist, hdata, h,
    reload_unchanged rfl rfl hsaved hcommit h hes 5 (by decide)⟩

end KlteCommon.Analysis

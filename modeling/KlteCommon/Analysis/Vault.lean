import KlteCommon.Analysis.Removal
import KlteCommon.Analysis.RoundTrip
import KlteCommon.Computation.Refinement
import KlteCommon.Standard.Vault

/-!
# The slots and the database are a vault

What the framework may rely on is a vault: every group has templates under slot numbers, those of
the active group are shown, and what is done for one group leaves the others alone. The HAL makes
it of one array of slots, of a table for each group, and of copying between them.

The ladder: the vault's answers (`Answers`) and what the HAL does for them (`Serves`); what it
means that the memory keeps a vault (`Embodies`); one lemma for each call (`keeps_open`,
`keeps_setActiveGroup`, `keeps_commit`, `keeps_remove`, `keeps_enumerate`, `keeps_other`); so each
call is one of the vault (`serves_refines`), and so is every sequence of calls from the opening on
(`vault_refined`). A group comes back as it was left (`slots_come_back`).
-/

set_option autoImplicit false

namespace KlteCommon.Analysis

open KlteCommon.Computation KlteCommon.Fingerprint KlteCommon.Standard

/-! ## The vault -/

/-- The numbers of the slots. -/
abbrev Slot := {idx : ℤ // isSlot idx}

/-- The slots of the finite set are the slots. -/
theorem mem_slots (idx : ℤ) : idx ∈ (slotsFrom maxNumFingers 1).toFinset ↔ isSlot idx := by
  rw [List.mem_toFinset, mem_slotsFrom, isSlot]
  omega

instance : Fintype Slot := Fintype.subtype (slotsFrom maxNumFingers 1).toFinset mem_slots

/-- What is kept of a finger. -/
structure Template where
  data : Bytes fingerDataMaxLength
  payload : Bytes payloadMaxLength

/-- The templates of all groups. -/
abbrev Templates := Vault UInt32 Slot Template

/-- The calls; an enrollment is seen when it is committed, and the other entry points that start
no worker have nothing to do with the templates. -/
inductive VaultCall
  | openDevice
  | setActiveGroup (gid : UInt32)
  | enroll (idx : Slot)
  | remove (fid : UInt32)
  | enumerate
  | other (c : Call)

instance (fid : UInt32) : DecidablePred fun idx : Slot => requested fid idx :=
  fun _ => inferInstanceAs (Decidable (_ ∨ _))

/-- The answers of the vault. An opening shows group 0. -/
inductive Answers : Templates → VaultCall × CInt → Templates → Prop
  | openDevice (v : Templates) : Answers v (.openDevice, 0) (v.select 0)
  | setActiveGroup (v : Templates) (gid : UInt32) :
      Answers v (.setActiveGroup gid, 0) (v.select gid)
  | enroll (v : Templates) (idx : Slot) (x : Template) (hfree : v.shown idx = none) :
      Answers v (.enroll idx, 0) (v.put idx x)
  | remove (v : Templates) (fid : UInt32) :
      Answers v (.remove fid, 0) (v.drop fun idx => requested fid idx)
  | enumerate (v : Templates) : Answers v (.enumerate, Int32.ofNat v.size) v
  | other (v : Templates) (c : Call) : Answers v (.other c, 0) v

/-- Whether a call is for the templates of the active group. -/
def VaultCall.updates : VaultCall → Prop
  | .enroll _ | .remove _ => True
  | _ => False

/-- Who is not active keeps what it has. -/
theorem Answers.kept {v v' : Templates} {l : VaultCall × CInt} (h : Answers v l v') {gid : UInt32}
    (hgid : l.1.updates → v.active ≠ gid) : v'.kept gid = v.kept gid := by
  cases h with
  | enroll idx x hfree => exact v.kept_put idx x (hgid trivial).symm
  | remove fid => exact v.kept_drop _ (hgid trivial).symm
  | _ => rfl

/-! ## The HAL -/

/-- The procedures that have nothing to do with the templates, and the calls they make. -/
@[reducible] def otherCall : Call → Bool
  | .getTzState | .setTzState _ | .vcsUpdateAuthToken | .vcsStartAuthSession => true
  | .vcsStopAuthSession | .vcsResume | .vcsUninit | .vcsInit | .vcsGetEnrolledFingerNum => true
  | .sensorUninit | .sensorInit | .sensorRegister | .dbUninit | .sendErrorNotice _ => true
  | .fingerprintGetAuthId | .fingerprintPreEnroll | .fingerprintPostEnroll => true
  | .fingerprintCancel | .fingerprintCancelLoop | .fingerprintEnumerate => true
  | .setNotifyCallback _ | .fingerprintClose => true
  | _ => false

/-- The code of a call. -/
def VaultCall.code : VaultCall → Code CInt
  | .openDevice => fingerprintOpen
  | .setActiveGroup gid => fingerprintSetActiveGroup gid
  | .enroll idx => do
    vcsEnrollCommit idx
    return 0
  | .remove fid => fingerprintRemove fid
  | .enumerate => fingerprintEnumerate
  | .other c => do
    let _ ← body c
    return 0

/-- The condition on a call. What is in the last slot is not cleared for another group, unless that
group has a finger for it. -/
def VaultCall.admitted (m : Mem) (r : CInt) : VaultCall → Prop
  | .openDevice => r = 0
  | .setActiveGroup gid => occupied m maxNumFingers → ∃ row ∈ m.rows gid, row.id = maxNumFingers
  | .enroll idx => ¬ occupied m idx
  | .remove fid => fid = 0 ∨ isSlot (gidNumber fid)
  | .enumerate => True
  | .other c => otherCall c = true

/-- A call that runs alone, is admitted and `ok`, and whose statements all succeed. -/
def Serves (ok : Mem → VaultCall → Prop) (m : Mem) (l : VaultCall × CInt) (m' : Mem) : Prop :=
  l.1.admitted m l.2 ∧ ok m l.1 ∧ ∃ fin t chs es,
    hal.solo fin t chs l.1.code m = some (es, .ret l.2, m') ∧ es.all sqlSucceeds = true

/-- The slot of a finger, or an empty one. -/
def fingerOf : Option Template → Finger
  | none => .zero
  | some x => ⟨true, x.data, x.payload⟩

/-- All slots. -/
def slotsOf (f : Slot → Option Template) (j : ℤ) : Finger :=
  if h : isSlot j then fingerOf (f ⟨j, h⟩) else .zero

/-- The tables have the templates of all groups, and there is no other database. -/
structure Stocked (v : Templates) (m : Mem) : Prop where
  rows : ∀ gid, Saved (m.rows gid) (slotsOf (v.kept gid))
  legacy : m.legacy = none

/-- The slots have those of the active group, too. -/
structure Embodies (v : Templates) (m : Mem) : Prop extends Stocked v m where
  active : m.vdev.activeGid = v.active
  finger : ∀ idx : Slot, m.tz.finger idx = fingerOf (v.shown idx)

section slots

variable {f g : ℤ → Finger} {rows : Table} {kept : Slot → Option Template}

/-- The slot of a number. -/
@[simp] theorem slotsOf_slot (idx : Slot) : slotsOf kept idx = fingerOf (kept idx) :=
  dif_pos idx.property

/-- A slot is occupied if it has a template. -/
@[simp] theorem fingerOf_exist (x : Option Template) : (fingerOf x).exist = x.isSome := by
  cases x <;> rfl

/-- Only the slots matter. -/
theorem Saved.congr (h : Saved rows f) (hfg : ∀ idx : Slot, f idx = g idx) : Saved rows g where
  once := h.once
  rows row := by
    rw [h.rows]
    refine and_congr_right fun hrow => ?_
    rw [hfg ⟨row.id, hrow⟩]
  free j hj := by
    rw [← hfg ⟨j, hj⟩]
    exact h.free j hj

/-- The active group's table and the slots belong together. -/
theorem Embodies.saved {v : Templates} {m : Mem} (h : Embodies v m) :
    Saved (m.rows m.vdev.activeGid) m.tz.finger := by
  have hrows := h.rows v.active
  rw [← h.active] at hrows
  refine hrows.congr fun idx => ?_
  rw [slotsOf_slot, h.finger, h.active]
  rfl

/-- A slot is occupied if the vault shows a template. -/
theorem Embodies.occupied_iff {v : Templates} {m : Mem} (h : Embodies v m) (idx : Slot) :
    occupied m idx ↔ (v.shown idx).isSome = true := by
  rw [occupied, h.finger, fingerOf_exist]

/-- Changing what the active group has, in its slots and its table. -/
theorem Embodies.change {v : Templates} {m m' : Mem} (h : Embodies v m)
    (kept : Slot → Option Template) (hgid : m'.vdev.activeGid = m.vdev.activeGid)
    (hfinger : ∀ idx : Slot, m'.tz.finger idx = fingerOf (kept idx))
    (hsaved : Saved (m'.rows m.vdev.activeGid) m'.tz.finger)
    (hothers : ∀ gid, gid ≠ m.vdev.activeGid → m'.rows gid = m.rows gid)
    (hlegacy : m'.legacy = none) :
    Embodies (v.change kept) m' where
  rows gid := by
    by_cases hg : gid = m.vdev.activeGid
    · have hkept : (v.change kept).kept gid = kept := by
        rw [hg, h.active]
        exact v.change_shown kept
      rw [hkept, hg]
      refine hsaved.congr fun idx => ?_
      rw [hfinger, slotsOf_slot]
    · rw [hothers gid hg, v.change_kept kept (by rwa [← h.active])]
      exact h.rows gid
  legacy := hlegacy
  active := hgid.trans h.active
  finger idx := by rw [v.change_shown]; exact hfinger idx

end slots

/-! ## Code that runs alone -/

instance : Nonempty hal.Choice := ⟨Choice.tick⟩

section alone

variable {fin : Tid → Bool} {t : Tid} {m m' : Mem} {es : List HalEvent} {α : Type}

/-- The other entry points do nothing with the templates. -/
theorem otherCall_within {c : Call} (hc : otherCall c = true) :
    (body c).Within (plainOp · = true) (otherCall · = true) := by
  cases c <;> first | cases hc; done | skip
  case vcsGetEnrolledFingerNum =>
    refine (countFingers_within ..).mono (fun o ho => ?_) fun _ => False.elim
    cases o <;> first | rfl | cases ho
  case fingerprintCancel =>
    simp [Prog.Within, body, fingerprintCancel, plainOp, Op.quiet, load, op, call, store]
    rintro _ _ (_ | _) <;> simp
  all_goals
    simp [Prog.Within, body, plainOp, Op.quiet, load, op, call, store, send, ionSbuffer,
      sameIonSbuffer, getTzState, setTzState,
      vcsUpdateAuthToken, getAuthToken, vcsStartAuthSession, vcsStopAuthSession, vcsResume,
      deviceResume, vcsUninit, vcsInit, sensorUninit, sensorInit, sensorRegister, dbUninit,
      sendErrorNotice,
      fingerprintGetAuthId, fingerprintPreEnroll, fingerprintPostEnroll, fingerprintCancelLoop,
      fingerprintEnumerate, setNotifyCallback, fingerprintClose]

/-- The slots, the databases and the active group are those of another memory. -/
structure SameTemplates (m m' : Mem) : Prop where
  active : m'.vdev.activeGid = m.vdev.activeGid
  finger : m'.tz.finger = m.tz.finger
  db : m'.db = m.db
  legacy : m'.legacy = m.legacy

/-- One step behind another. -/
theorem SameTemplates.trans {m₁ : Mem} (h : SameTemplates m m₁) (h' : SameTemplates m₁ m') :
    SameTemplates m m' :=
  ⟨h'.active.trans h.active, h'.finger.trans h.finger, h'.db.trans h.db, h'.legacy.trans h.legacy⟩

/-- An operation that has nothing to do with the templates. -/
theorem SameTemplates.act {m₁ : Mem} (h : SameTemplates m m₁) {o : Op} (ho : plainOp o = true)
    {ch : Choice} {r : Resp o} (hact : act fin t o ch m₁ = some (r, m')) : SameTemplates m m' := by
  have heff := act_effect hact
  have hquiet : o.quiet = true := by
    cases o with
    | legacyRemove => cases ho
    | _ => exact ho
  refine ⟨?_, ?_, ?_, ?_⟩
  · rw [heff.vdev, activeGid_of_quiet hquiet, h.active]
  · rw [heff.finger, fingerAfter_of_quiet hquiet, h.finger]
  · rw [heff.db, dbAfter_of_quiet hquiet, h.db]
  · rw [heff.legacy, ← h.legacy]
    cases o with
    | legacyRemove => cases ho
    | _ => rfl

/-- Code that has nothing to do with the templates. -/
theorem does_plain {p : Code α} {a : α} (hp : p.Within (plainOp · = true) (otherCall · = true))
    (h : hal.Does fin t p m es a m') : SameTemplates m m' :=
  h.within (fun _ hc => otherCall_within hc) (fun _ _ _ _ _ ho hm hact => hm.act ho hact) hp
    ⟨rfl, rfl, rfl, rfl⟩

/-- The vault of a memory with the same templates. -/
theorem Embodies.same {v : Templates} (h : Embodies v m) (hm : SameTemplates m m') :
    Embodies v m' where
  rows gid := by rw [rows_of_db hm.db]; exact h.rows gid
  legacy := hm.legacy.trans h.legacy
  active := hm.active.trans h.active
  finger idx := by rw [hm.finger]; exact h.finger idx

/-- What is read during an update is what is there. -/
theorem reads_of_copied {x : Copies} (hx : Copied x m) {o : Op} {ch : Choice} {r : Resp o}
    (hact : act fin t o ch m = some (r, m')) : x.reads (.op o r) := by
  cases o with
  | load var =>
    obtain ⟨rfl, -⟩ := by simpa [act] using hact
    cases var with
    | activeGid => exact hx.active
    | _ => trivial
  | _ => trivial

/-- An update is of the active group, and of no other. -/
theorem others_of_after {x y : Copies} {o : Op} {ch : Choice} {r : Resp o}
    (hact : act fin t o ch m = some (r, m')) (hy : x.after (.op o r) = some y) :
    y.gid = x.gid ∧ ∀ gid, gid ≠ x.gid → m'.rows gid = m.rows gid := by
  have hdb := (act_effect hact).db
  unfold Copies.after at hy
  split at hy
  all_goals
    rename_i heq
    cases heq
  iterate 4
    cases hy
    exact ⟨rfl, fun gid _ => rows_of_db hdb⟩
  · obtain ⟨rfl, rfl⟩ : _ = x.gid ∧ x.delete _ = y := by simpa using hy
    simp only [dbAfter] at hdb
    split at hdb
    · exact ⟨rfl, fun gid hgid => (rows_of_db hdb).trans (rows_setTable_of_ne hgid _)⟩
    · exact ⟨rfl, fun gid _ => rows_of_db hdb⟩
  · obtain ⟨⟨rfl, -, -⟩, rfl⟩ : (_ = x.gid ∧ _ = true ∧ _ = true) ∧ x.insert _ = y := by
      simpa using hy
    simp only [dbAfter] at hdb
    split at hdb
    · exact ⟨rfl, fun gid hgid => (rows_of_db hdb).trans (rows_setTable_of_ne hgid _)⟩
    · exact ⟨rfl, fun gid _ => rows_of_db hdb⟩
  · cases hy
  · obtain ⟨hquiet, rfl⟩ : Op.quiet _ = true ∧ x = y := by simpa using hy
    exact ⟨rfl, fun gid _ => rows_of_db (hdb.trans (dbAfter_of_quiet hquiet ..))⟩

/-- An update that runs alone takes the slots and the table of the active group along its protocol
and leaves the other tables. -/
theorem updated_alone {chs : List Choice} {p : Code α} {a : α} {Q : α → Copies → Prop}
    (hp : savesProtocol.Follows fine p Q (copiesOf m)) (hlegacy : m.legacy = none)
    (hrun : hal.solo fin t chs p m = some (es, .ret a, m')) (hes : es.all sqlSucceeds = true) :
    ∃ y, Q a y ∧ Copied y m' ∧ y.gid = m.vdev.activeGid ∧
      ∀ gid, gid ≠ m.vdev.activeGid → m'.rows gid = m.rows gid := by
  let J (y : Copies) (m' : Mem) : Prop := Copied y m' ∧ y.gid = m.vdev.activeGid ∧
    ∀ gid, gid ≠ m.vdev.activeGid → m'.rows gid = m.rows gid
  have hop : ∀ x m₁ o ch r m₂, J x m₁ → act fin t o ch m₁ = some (r, m₂) →
      sqlSucceeds (.op o r) = true → savesProtocol.assume x (.op o r) ∧
        ∀ y, savesProtocol.next x (.op o r) = some y → J y m₂ := by
    rintro x m₁ o ch r m₂ ⟨hx, hgid, hothers⟩ hact hs
    refine ⟨⟨hs, reads_of_copied hx hact⟩, fun y hy => ⟨copied_act hx hs hact hy, ?_⟩⟩
    obtain ⟨hygid, hrows⟩ := others_of_after hact hy
    refine ⟨hygid.trans hgid, fun gid hg => ?_⟩
    rw [hrows gid (by rwa [hgid]), hothers gid hg]
  have henter : ∀ x m₁ c, J x m₁ → savesProtocol.assume x (.enter c) ∧
      ∀ y, savesProtocol.next x (.enter c) = some y → J y m₁ :=
    fun x m₁ c hx => ⟨⟨rfl, trivial⟩, fun y hy => by cases hy; exact hx⟩
  obtain ⟨y, -, hq, hy⟩ := hp.alone (J := J) (X := fun e => sqlSucceeds e = true) (fun _ => rfl)
    savesProtocol_valid hop henter ⟨copied_copiesOf hlegacy, rfl, fun _ _ => rfl⟩
    (List.all_eq_true.mp hes) hrun
  exact ⟨y, hq, hy⟩

/-- A reload changes no table. -/
theorem rows_of_after {x y : Slots} {o : Op} {ch : Choice} {r : Resp o}
    (hact : act fin t o ch m = some (r, m')) (hy : x.after (.op o r) = some y) (gid : UInt32) :
    m'.rows gid = m.rows gid := by
  have hdb := (act_effect hact).db
  unfold Slots.after at hy
  split at hy
  all_goals
    rename_i heq
    cases heq
  iterate 5 exact rows_of_db hdb
  · exact rows_of_sqlCreate hact
  · cases hy
  · obtain ⟨hquiet, -⟩ : Op.quiet _ = true ∧ x = y := by simpa using hy
    exact rows_of_db (hdb.trans (dbAfter_of_quiet hquiet ..))

/-- A reload that runs alone takes the slots along its protocol and leaves the tables. -/
theorem reloaded_alone {chs : List Choice} {p : Code α} {a : α} {Q : α → Slots → Prop}
    {gid : UInt32} {x : Slots} (hp : (reloadProtocol gid (m.rows gid)).Follows fine p Q x)
    (hx : Reloads gid (m.rows gid) x m) (honce : (m.rows gid).Pairwise fun a b => a.id ≠ b.id)
    (hrun : hal.solo fin t chs p m = some (es, .ret a, m')) (hes : es.all sqlSucceeds = true) :
    ∃ y, Q a y ∧ Reloads gid (m.rows gid) y m' ∧ ∀ g, m'.rows g = m.rows g := by
  let J (y : Slots) (m' : Mem) : Prop := Reloads gid (m.rows gid) y m' ∧ ∀ g, m'.rows g = m.rows g
  have hop : ∀ x m₁ o ch r m₂, J x m₁ → act fin t o ch m₁ = some (r, m₂) → reads (.op o r) = true →
      (reloadProtocol gid (m.rows gid)).assume x (.op o r) ∧
        ∀ y, (reloadProtocol gid (m.rows gid)).next x (.op o r) = some y → J y m₂ := by
    rintro x m₁ o ch r m₂ ⟨hx, hrows⟩ hact hreads
    obtain ⟨hassume, hnext⟩ := reloads_act hx hreads hact
    exact ⟨hassume, fun y hy => ⟨hnext y hy, fun g => (rows_of_after hact hy g).trans (hrows g)⟩⟩
  have henter : ∀ x m₁ c, J x m₁ → (reloadProtocol gid (m.rows gid)).assume x (.enter c) ∧
      ∀ y, (reloadProtocol gid (m.rows gid)).next x (.enter c) = some y → J y m₁ :=
    fun x m₁ c hx => ⟨trivial, fun y hy => by cases hy; exact hx⟩
  obtain ⟨y, -, hq, hy⟩ := hp.alone (J := J) (X := fun e => reads e = true) (fun _ => rfl)
    (reloadProtocol_valid honce) hop henter ⟨hx, fun _ => rfl⟩
    (fun e he => reads_of_sqlSucceeds (List.all_eq_true.mp hes e he)) hrun
  exact ⟨y, hq, hy⟩

end alone

/-! ## Each call -/

section bodies

attribute [local simp ↓] load store op call send ionSbuffer sameIonSbuffer

attribute [local simp] savesCalls savesLeaves Copies.after Copies.reads sqlSucceeds Op.quiet

/-- The removal of one finger. -/
theorem saves_removeOne {fid : UInt32} (hfid : fid ≠ 0) (x : Copies) :
    savesProtocol.Follows fine (fingerprintRemove fid)
      (fun _ y => y = x.without (· == gidNumber fid)) x := by
  simp [fingerprintRemove, hfid]

end bodies

section calls

variable {fin : Tid → Bool} {t : Tid} {chs : List Choice} {m m' : Mem} {es : List HalEvent}
  {v : Templates} {r : CInt}

/-- Reading saved rows gives the slots they were saved from, if the last one has nothing else. -/
theorem Saved.readIn {rows : Table} {x y z : ℤ → Finger} (h : Saved rows z)
    (hlast : (z maxNumFingers).exist = false → x maxNumFingers = .zero)
    (hy : ReadIn rows (cleared maxNumFingers 0 x) y) (idx : Slot) : y idx = z idx := by
  obtain ⟨j, hj⟩ := idx
  by_cases hexist : (z j).exist = true
  · have hrow : rowOf j (z j) ∈ rows := (h.rows _).mpr ⟨hj, hexist, rfl⟩
    exact (hy.loaded _ hrow).eq hexist
  · have hfree : (z j).exist = false := Bool.eq_false_iff.mpr hexist
    have hnone : ∀ row ∈ rows, row.id ≠ j := by
      rintro row hrow rfl
      exact hexist ((h.rows row).mp hrow).2.1
    show y j = z j
    rw [hy.others j hnone, h.free j hj hfree, cleared]
    split
    · rfl
    · rename_i hout
      obtain rfl : j = maxNumFingers := by
        have := hj.1
        have := hj.2
        omega
      exact hlast hfree

/-- After the tables are read the slots show the group. -/
theorem Stocked.reloaded {gid : UInt32} {x : ℤ → Finger} (h : Stocked v m)
    (hlast : (∀ row ∈ m.rows gid, row.id ≠ maxNumFingers) → x maxNumFingers = .zero)
    (hy : ReadIn (m.rows gid) (cleared maxNumFingers 0 x) m'.tz.finger)
    (hgid : m'.vdev.activeGid = gid) (hrows : ∀ g, m'.rows g = m.rows g)
    (hlegacy : m'.legacy = none) :
    Embodies (v.select gid) m' where
  rows g := by rw [hrows]; exact h.rows g
  legacy := hlegacy
  active := hgid
  finger idx := by
    have hsaved := h.rows gid
    have hback := hsaved.readIn (fun hfree => hlast ?_) hy idx
    · rw [hback, slotsOf_slot]
      rfl
    · intro row hrow hid
      have hexist := ((hsaved.rows row).mp hrow).2.1
      rw [hid, hfree] at hexist
      cases hexist

/-- The procedures of the database leave the active group. -/
theorem activeGid_of_storage {c : Call} (hc : dbCall c) {a : Ret c}
    (h : hal.Does fin t (body c) m es a m') : m'.vdev.activeGid = m.vdev.activeGid := by
  refine h.within (A := Op.storage) (I := fun m₁ : Mem => m₁.vdev.activeGid = m.vdev.activeGid)
    (fun _ hc => dbCall_within hc) ?_ (dbCall_within hc) rfl
  intro o ch r m₁ m₂ ho hm hact
  rw [(act_effect hact).vdev, ← hm]
  cases o with
  | store var a => cases var <;> first | rfl | cases ho
  | _ => first | rfl | cases ho

/-- Reading the table of the active group into the slots. -/
theorem does_dbReadToTz (h : Stocked v m)
    (hlast : (∀ row ∈ m.rows m.vdev.activeGid, row.id ≠ maxNumFingers) →
      m.tz.finger maxNumFingers = .zero)
    (hdoes : hal.Does fin t (body .dbReadToTz) m es r m') (hes : es.all sqlSucceeds = true) :
    Embodies (v.select m.vdev.activeGid) m' := by
  have hgid := activeGid_of_storage (c := .dbReadToTz) trivial hdoes
  obtain ⟨chs, hrun⟩ := Machine.solo_of_does hdoes
  have honce := (h.rows m.vdev.activeGid).once
  obtain ⟨y, hy, hm', hrows⟩ := reloaded_alone (x := ⟨m.vdev.activeGid, m.tz.finger⟩)
    (reloadProtocol_valid honce .dbReadToTz rfl _ ⟨trivial, rfl⟩) ⟨rfl, rfl, rfl, h.legacy⟩ honce
    hrun hes
  refine h.reloaded hlast ?_ hgid hrows hm'.legacy
  rw [hm'.finger]
  exact hy

/-- **A change of group.** -/
theorem keeps_setActiveGroup {gid : UInt32} (h : Embodies v m)
    (hlast : occupied m maxNumFingers → ∃ row ∈ m.rows gid, row.id = maxNumFingers)
    (hdoes : hal.Does fin t (fingerprintSetActiveGroup gid) m es r m')
    (hes : es.all sqlSucceeds = true) : r = 0 ∧ Embodies (v.select gid) m' := by
  obtain ⟨_, _, m₁, es₁, hlock, hdoes₁, rfl⟩ := does_act hdoes
  obtain ⟨_, _, m₂, es₂, hstore, hdoes₂, rfl⟩ := does_act hdoes₁
  obtain ⟨es₃, r₃, m₃, es₄, hread, hdoes₃, rfl⟩ := Machine.does_invoke.mp hdoes₂
  obtain ⟨_, _, m₄, es₅, hunlock, hdoes₄, rfl⟩ := does_act hdoes₃
  obtain ⟨rfl, rfl, rfl⟩ := Machine.does_pure.mp hdoes₄
  have hsame : SameTemplates m m₁ := SameTemplates.act ⟨rfl, rfl, rfl, rfl⟩ rfl hlock
  have h₁ := h.same hsame
  obtain rfl : m₁.set .activeGid gid = m₂ := by simpa [act] using hstore
  have h₂ : Stocked v (m₁.set .activeGid gid) := ⟨h₁.rows, h₁.legacy⟩
  have hlast₂ : (∀ row ∈ m₁.rows gid, row.id ≠ maxNumFingers) →
      m₁.tz.finger maxNumFingers = .zero := by
    intro hnone
    have hfree : ¬ occupied m maxNumFingers := fun hin => by
      obtain ⟨row, hrow, hid⟩ := hlast hin
      exact hnone row (by rwa [rows_of_db hsame.db]) hid
    have hfinger := h.finger ⟨maxNumFingers, by decide⟩
    rw [hsame.finger, hfinger]
    rw [h.occupied_iff ⟨maxNumFingers, by decide⟩] at hfree
    rw [Option.not_isSome_iff_eq_none.mp hfree]
    rfl
  have hes₃ : es₃.all sqlSucceeds = true := by
    simp only [List.all_cons, List.all_append, Bool.and_eq_true] at hes
    exact hes.2.2.2.1
  have h₃ := does_dbReadToTz h₂ hlast₂ hread hes₃
  exact ⟨rfl, h₃.same (SameTemplates.act ⟨rfl, rfl, rfl, rfl⟩ rfl hunlock)⟩

/-- Opening the database. -/
theorem does_dbInit (h : Stocked v m)
    (hlast : (∀ row ∈ m.rows m.vdev.activeGid, row.id ≠ maxNumFingers) →
      m.tz.finger maxNumFingers = .zero)
    (hdoes : hal.Does fin t (body .dbInit) m es r m') (hes : es.all sqlSucceeds = true) :
    Embodies (v.select m.vdev.activeGid) m' := by
  obtain ⟨_, ret, m₁, es₁, hopen, hdoes₁, rfl⟩ := does_act hdoes
  obtain ⟨hret, hes₁⟩ : (ret == sqliteOk) = true ∧ es₁.all sqlSucceeds = true := by
    simpa [sqlSucceeds] using hes
  have hsame : SameTemplates m m₁ := SameTemplates.act ⟨rfl, rfl, rfl, rfl⟩ rfl hopen
  rw [if_neg (not_not.mpr (beq_iff_eq.mp hret))] at hdoes₁
  obtain ⟨es₂, r₂, m₂, es₃, hread, hdoes₂, rfl⟩ := Machine.does_invoke.mp hdoes₁
  obtain ⟨rfl, rfl, rfl⟩ := Machine.does_pure.mp hdoes₂
  have h₁ : Stocked v m₁ :=
    ⟨fun gid => by rw [rows_of_db hsame.db]; exact h.rows gid, hsame.legacy.trans h.legacy⟩
  rw [← hsame.active, ← hsame.finger] at hlast
  have hes₂ : es₂.all sqlSucceeds = true := by
    simp only [List.all_cons, List.all_append, Bool.and_eq_true] at hes₁
    exact hes₁.2.1
  rw [← hsame.active]
  refine does_dbReadToTz h₁ (fun hnone => hlast fun row hrow => ?_) hread hes₂
  exact hnone row (by rwa [rows_of_db hsame.db])

/-- What `fingerprint_open` does between `open` and `db_init`. -/
def openPrologue : Code Unit := do
  let _ ← call .sensorInit
  let _ ← call .sensorRegister
  let _ ← call .sensorUninit
  op (.lock .vdevLock)
  let _ ← call .sensorInit
  return

/-- What `fingerprint_open` does behind `db_init`. -/
def openEpilogue : Code CInt := do
  let _ ← call .vcsInit
  let _ ← call .vcsUninit
  let _ ← call .vcsInit
  let _ ← call .vcsStartAuthSession
  let _ ← call .vcsUninit
  let _ ← call .sensorUninit
  op (.unlock .vdevLock)
  return 0

/-- What an opening does before the database. -/
theorem openPrologue_within : openPrologue.Within (plainOp · = true) (otherCall · = true) := by
  simp [openPrologue, Prog.Within, Op.quiet, op, call]

/-- And behind it. -/
theorem openEpilogue_within : openEpilogue.Within (plainOp · = true) (otherCall · = true) := by
  simp [openEpilogue, Prog.Within, Op.quiet, op, call]

/-- A fresh device: group 0, no slot taken, the tables as they were. -/
structure Cleared (m m' : Mem) : Prop where
  active : m'.vdev.activeGid = 0
  finger : m'.tz.finger = fun _ => .zero
  db : m'.db = m.db
  legacy : m'.legacy = m.legacy

/-- An opening that succeeds clears the device before anything else. -/
theorem does_open (hdoes : hal.Does fin t fingerprintOpen m es 0 m')
    (hes : es.all sqlSucceeds = true) : ∃ m₁ es₁, Cleared m m₁ ∧ es₁.all sqlSucceeds = true ∧
      hal.Does fin t (openPrologue >>= fun _ => call .dbInit >>= fun _ => openEpilogue) m₁ es₁ 0
        m' := by
  obtain ⟨_, found, m₁, es₁, hcalloc, hdoes₁, rfl⟩ := does_act hdoes
  split at hdoes₁
  · obtain ⟨-, hret, -⟩ := Machine.does_pure.mp hdoes₁
    exact absurd hret (by decide)
  obtain ⟨_, _, m₂, es₂, hdevice, hdoes₂, rfl⟩ := does_act hdoes₁
  obtain ⟨_, _, m₃, es₃, hgid, hdoes₃, rfl⟩ := does_act hdoes₂
  obtain ⟨_, _, m₄, es₄, htz, hdoes₄, rfl⟩ := does_act hdoes₃
  obtain ⟨_, _, m₅, es₅, hsignal, hdoes₅, rfl⟩ := does_act hdoes₄
  obtain ⟨_, _, m₆, es₆, htimer, hdoes₆, rfl⟩ := does_act hdoes₅
  obtain ⟨_, _, m₇, es₇, hsensor, hdoes₇, rfl⟩ := does_act hdoes₆
  obtain ⟨_, fd, m₈, es₈, hfd, hdoes₈, rfl⟩ := does_act hdoes₇
  split at hdoes₈
  · obtain ⟨-, hret, -⟩ := Machine.does_pure.mp hdoes₈
    exact absurd hret (by decide)
  refine ⟨m₈, es₈, ?_, by simpa [sqlSucceeds] using hes, hdoes₈⟩
  have hstart : SameTemplates m m₁ := SameTemplates.act ⟨rfl, rfl, rfl, rfl⟩ rfl hcalloc
  have h₅ : SameTemplates m₄ m₅ := SameTemplates.act ⟨rfl, rfl, rfl, rfl⟩ rfl hsignal
  have h₈ := ((h₅.act rfl htimer).act rfl hsensor).act rfl hfd
  obtain rfl : { m₁ with vdev := .zero } = m₂ := by simpa [act] using hdevice
  obtain rfl := by simpa [act] using hgid
  obtain rfl := by simpa [act] using htz
  exact ⟨h₈.active, h₈.finger, h₈.db.trans hstart.db, h₈.legacy.trans hstart.legacy⟩

/-- **The opening**, from what the tables have. -/
theorem keeps_open (h : Stocked v m) (hdoes : hal.Does fin t fingerprintOpen m es 0 m')
    (hes : es.all sqlSucceeds = true) : Embodies (v.select 0) m' := by
  obtain ⟨m₁, es₁, hclear, hes₁, hdoes₁⟩ := does_open hdoes hes
  obtain ⟨es₂, _, m₂, es₃, hup, hrest, rfl⟩ := Machine.does_bind.mp hdoes₁
  obtain ⟨es₄, ret, m₃, es₅, hinit, hdown, rfl⟩ := Machine.does_invoke.mp hrest
  have hsame := does_plain openPrologue_within hup
  have hactive : m₂.vdev.activeGid = 0 := hsame.active.trans hclear.active
  have hfinger : m₂.tz.finger = fun _ => .zero := hsame.finger.trans hclear.finger
  have h₂ : Stocked v m₂ := by
    refine ⟨fun gid => ?_, hsame.legacy.trans (hclear.legacy.trans h.legacy)⟩
    rw [rows_of_db (hsame.db.trans hclear.db)]
    exact h.rows gid
  have hes₄ : es₄.all sqlSucceeds = true := by
    simp only [List.all_cons, List.all_append, Bool.and_eq_true] at hes₁
    exact hes₁.2.2.1
  have h₃ := does_dbInit h₂ (fun _ => by rw [hfinger]) hinit hes₄
  rw [hactive] at h₃
  exact h₃.same (does_plain openEpilogue_within hdown)

/-- **A commit** into a free slot, of whatever template the app replies. -/
theorem keeps_commit {idx : Slot} (h : Embodies v m) (hfree : ¬ occupied m idx)
    (hrun : hal.solo fin t chs (VaultCall.enroll idx).code m = some (es, .ret r, m'))
    (hes : es.all sqlSucceeds = true) :
    r = 0 ∧ v.shown idx = none ∧ ∃ x, Embodies (v.put idx x) m' := by
  have hp : savesProtocol.Follows fine (VaultCall.enroll idx).code (fun r y => r = 0 ∧
      ∃ data payload, y = ((copiesOf m).setFinger idx ⟨true, data, payload⟩).insert
        (rowOf idx ⟨true, data, payload⟩)) (copiesOf m) := by
    simp only [VaultCall.code, Protocol.follows_bind]
    exact (saves_commit idx _).mono fun _ y hy => ⟨rfl, hy⟩
  obtain ⟨y, ⟨hr, data, payload, rfl⟩, hm', -, hothers⟩ := updated_alone hp h.legacy hrun hes
  have hsaved := Saved.insert (x := copiesOf m) (f := ⟨true, data, payload⟩) h.saved idx.property
    (Bool.eq_false_iff.mpr hfree) rfl
  have hnone : v.shown idx = none := by
    rw [h.occupied_iff] at hfree
    exact Option.not_isSome_iff_eq_none.mp hfree
  refine ⟨hr, hnone, ⟨data, payload⟩, h.change _ hm'.active (fun j => ?_) ?_ hothers hm'.legacy⟩
  · rw [hm'.finger]
    by_cases hj : j = idx
    · subst hj
      simp [Copies.insert, Copies.setFinger, fingerOf]
    · have hne : (j : ℤ) ≠ idx := fun he => hj (Subtype.ext he)
      simp [Copies.insert, Copies.setFinger, hj, hne, copiesOf, h.finger]
  · have htable : m'.rows m.vdev.activeGid = _ := hm'.table
    rw [htable, hm'.finger]
    exact hsaved

/-- A removal whose deletes succeed returns 0. -/
theorem ret_of_remove {fid : UInt32} (hdoes : hal.Does fin t (fingerprintRemove fid) m es r m')
    (hes : es.all sqlSucceeds = true) : r = 0 := by
  have hdone := does_fingerprintRemove hdoes
  rw [hdone.last]
  cases hlast : (deletions es).getLast? with
  | none => rfl
  | some d =>
    obtain ⟨e, he, hd⟩ := List.mem_filterMap.mp (List.mem_of_getLast? hlast)
    have hs := List.all_eq_true.mp hes e he
    unfold deletion at hd
    split at hd
    · obtain rfl := Option.some.inj hd
      exact beq_iff_eq.mp hs
    · cases hd

/-- Removing all leaves no slot occupied. -/
theorem free_of_removeAll
    (hrun : hal.solo fin t chs (fingerprintRemove 0) m = some (es, .ret r, m')) (idx : Slot) :
    ¬ occupied m' idx := by
  have hdoes : hal.Does fin t (Update.code (.remove 0)) m (es ++ []) () m' :=
    (Machine.does_of_solo hrun).bind (Machine.does_pure.mpr ⟨rfl, rfl, rfl⟩)
  obtain ⟨chs', hrun'⟩ := Machine.solo_of_does hdoes
  obtain ⟨y, ⟨lost, hy⟩, hm', -⟩ := stores_of_solo (stores_remove 0 (storesOf m)
    fun hne => absurd rfl hne) hrun'
  rw [hm'.slots, hy.slots]
  rintro ⟨hin, hout⟩
  exact hout ⟨hin, idx.property⟩

/-- The fingers a removal takes out, of the slots and of the table, are the requested ones. -/
theorem without_of_remove {fid : UInt32} (h : Embodies v m)
    (hrun : hal.solo fin t chs (fingerprintRemove fid) m = some (es, .ret r, m'))
    (hes : es.all sqlSucceeds = true) : ∃ A, Copied ((copiesOf m).without A) m' ∧
      (∀ gid, gid ≠ m.vdev.activeGid → m'.rows gid = m.rows gid) ∧
      ∀ idx : Slot, m'.tz.finger idx = if requested fid idx then .zero else m.tz.finger idx := by
  by_cases hfid : fid = 0
  · subst hfid
    obtain ⟨y, ⟨A, rfl⟩, hm', -, hothers⟩ := updated_alone (saves_remove 0 _) h.legacy hrun hes
    refine ⟨A, hm', hothers, fun idx => ?_⟩
    have hfree := free_of_removeAll hrun idx
    rw [if_pos (.inl rfl)]
    rw [occupied, Bool.not_eq_true] at hfree
    have hsaved := Saved.without (x := copiesOf m) h.saved A
    rw [hm'.finger] at hfree ⊢
    exact hsaved.free idx idx.property hfree
  · obtain ⟨y, rfl, hm', -, hothers⟩ := updated_alone (saves_removeOne hfid _) h.legacy hrun hes
    refine ⟨_, hm', hothers, fun idx => ?_⟩
    rw [hm'.finger]
    simp [Copies.without, copiesOf, requested, hfid]

/-- **A removal**, of one finger or of all. -/
theorem keeps_remove {fid : UInt32} (h : Embodies v m)
    (hrun : hal.solo fin t chs (fingerprintRemove fid) m = some (es, .ret r, m'))
    (hes : es.all sqlSucceeds = true) :
    r = 0 ∧ Embodies (v.drop fun idx => requested fid idx) m' := by
  obtain ⟨A, hm', hothers, hfinger⟩ := without_of_remove h hrun hes
  refine ⟨ret_of_remove (Machine.does_of_solo hrun) hes, ?_⟩
  refine h.change _ hm'.active (fun idx => ?_) ?_ hothers hm'.legacy
  · rw [hfinger, h.finger]
    split <;> rfl
  · have htable : m'.rows m.vdev.activeGid = _ := hm'.table
    rw [htable, hm'.finger]
    exact Saved.without (x := copiesOf m) h.saved A

/-- Counting the occupied slots. -/
theorem does_countFingers {n : ℕ} {idx : ℤ} {num : CInt}
    (hdoes : hal.Does fin t (countFingers n idx num) m es r m') :
    r = num + Int32.ofNat ((slotsFrom n idx).countP fun j => (m.tz.finger j).exist) ∧ m' = m := by
  induction n generalizing idx num es with
  | zero =>
    obtain ⟨rfl, rfl, rfl⟩ := Machine.does_pure.mp hdoes
    exact ⟨(Int32.add_zero _).symm, rfl⟩
  | succ n ih =>
    obtain ⟨_, b, m₁, es₁, hload, hdoes₁, rfl⟩ := does_act hdoes
    obtain ⟨rfl, rfl⟩ := by simpa [act] using hload
    have hexist : m.get (.fingerExist idx) = (m.tz.finger idx).exist := rfl
    rw [hexist] at hdoes₁
    rw [slotsFrom, List.countP_cons]
    split at hdoes₁
    · rename_i hin
      obtain ⟨hr, hm⟩ := ih hdoes₁
      refine ⟨?_, hm⟩
      rw [hr, if_pos hin, Int32.ofNat_add, Int32.add_assoc, Int32.add_comm 1]
      rfl
    · rename_i hout
      obtain ⟨hr, hm⟩ := ih hdoes₁
      refine ⟨?_, hm⟩
      rw [hr, if_neg hout, Nat.add_zero]

/-- The templates of the active group are counted slot by slot. -/
theorem Embodies.size (h : Embodies v m) :
    (slotsFrom maxNumFingers 1).countP (fun j => (m.tz.finger j).exist) = v.size := by
  have hslots : ∀ j, j ∈ slotsFrom maxNumFingers 1 ↔ isSlot j := by
    intro j
    rw [mem_slotsFrom, isSlot]
    omega
  rw [List.countP_eq_length_filter,
    ← List.toFinset_card_of_nodup ((nodup_slotsFrom _ _).filter _), Vault.size,
    ← Finset.card_map (Function.Embedding.subtype isSlot)]
  congr 1
  ext j
  simp only [List.mem_toFinset, List.mem_filter, hslots, Finset.mem_map, Finset.mem_filter,
    Finset.mem_univ, true_and, Function.Embedding.subtype_apply]
  constructor
  · rintro ⟨hj, hin⟩
    exact ⟨⟨j, hj⟩, (h.occupied_iff ⟨j, hj⟩).mp hin, rfl⟩
  · rintro ⟨idx, hin, rfl⟩
    exact ⟨idx.property, (h.occupied_iff idx).mpr hin⟩

/-- **The size of the vault** is how many slots are occupied. -/
theorem keeps_enumerate (h : Embodies v m)
    (hdoes : hal.Does fin t fingerprintEnumerate m es r m') :
    r = Int32.ofNat v.size ∧ Embodies v m' := by
  refine ⟨?_, h.same (does_plain (otherCall_within (c := .fingerprintEnumerate) rfl) hdoes)⟩
  obtain ⟨_, _, m₁, es₁, hlock, hdoes₁, rfl⟩ := does_act hdoes
  obtain ⟨es₂, num, m₂, es₃, hcount, hdoes₂, rfl⟩ := Machine.does_invoke.mp hdoes₁
  obtain ⟨_, _, m₃, es₄, hunlock, hdoes₃, rfl⟩ := does_act hdoes₂
  obtain ⟨rfl, rfl, rfl⟩ := Machine.does_pure.mp hdoes₃
  obtain ⟨hr, -⟩ := does_countFingers hcount
  have hsame : SameTemplates m m₁ := SameTemplates.act ⟨rfl, rfl, rfl, rfl⟩ rfl hlock
  rw [hr, Int32.zero_add, hsame.finger, h.size]

/-- **Any other entry point** that starts no worker. -/
theorem keeps_other {c : Call} (h : Embodies v m) (hc : otherCall c = true)
    (hdoes : hal.Does fin t (VaultCall.other c).code m es r m') : r = 0 ∧ Embodies v m' := by
  obtain ⟨es₁, a, m₁, es₂, hbody, hret, rfl⟩ := Machine.does_bind.mp hdoes
  obtain ⟨-, rfl, rfl⟩ := Machine.does_pure.mp hret
  exact ⟨rfl, h.same (does_plain (otherCall_within hc) hbody)⟩

end calls

/-! ## Every sequence of calls -/

section sequences

variable {ok : Mem → VaultCall → Prop} {v : Templates} {m m₁ m' : Mem}
  {ls ls' : List (VaultCall × CInt)}

/-- **Each call is one of the vault.** -/
theorem serves_refines : Refines Embodies (Serves ok) Answers := by
  rintro v m ⟨c, r⟩ m' h ⟨hallowed, -, fin, t, chs, es, hrun, hes⟩
  have hdoes := Machine.does_of_solo hrun
  cases c with
  | openDevice =>
    obtain rfl : r = 0 := hallowed
    exact ⟨_, .openDevice v, keeps_open h.toStocked hdoes hes⟩
  | setActiveGroup gid =>
    obtain ⟨rfl, hm'⟩ := keeps_setActiveGroup h hallowed hdoes hes
    exact ⟨_, .setActiveGroup v gid, hm'⟩
  | enroll idx =>
    obtain ⟨rfl, hfree, x, hm'⟩ := keeps_commit h hallowed hrun hes
    exact ⟨_, .enroll v idx x hfree, hm'⟩
  | remove fid =>
    obtain ⟨rfl, hm'⟩ := keeps_remove h hrun hes
    exact ⟨_, .remove v fid, hm'⟩
  | enumerate =>
    obtain ⟨rfl, hm'⟩ := keeps_enumerate h hdoes
    exact ⟨_, .enumerate v, hm'⟩
  | other c =>
    obtain ⟨rfl, hm'⟩ := keeps_other h hallowed hdoes
    exact ⟨_, .other v c, hm'⟩

/-- The tables are enough to open with. -/
theorem keeps_of_opening (h : Stocked v m) (hopen : Serves ok m (.openDevice, 0) m₁) :
    Embodies (v.select 0) m₁ := by
  obtain ⟨-, -, fin, t, chs, es, hrun, hes⟩ := hopen
  exact keeps_open h (Machine.does_of_solo hrun) hes

/-- **The HAL is a vault.** The device is opened on tables that hold the templates of a vault, and
then calls are made in any number and order, with the device opened again among them, each run to
its end with its statements succeeding: they are answered as that vault answers them, and at the end
the slots and the tables hold what the vault holds. -/
theorem vault_refined (h : Stocked v m)
    (hrun : Trace (Serves fun _ _ => True) m ((.openDevice, 0) :: ls) m') :
    ∃ v', Trace Answers v ((.openDevice, 0) :: ls) v' ∧ Embodies v' m' := by
  cases hrun with
  | cons hopen hrest =>
    obtain ⟨v', htrace, hm'⟩ := serves_refines.trace hrest (keeps_of_opening h hopen)
    exact ⟨v', .cons (.openDevice v) htrace, hm'⟩

/-- What groups 0 and 1 have: one template each. -/
def held (gid : ℤ) : Option (Slot × Template) :=
  if gid = 0 then some (⟨1, by decide⟩, ⟨Vector.replicate _ 1, Vector.replicate _ 2⟩)
  else if gid = 1 then some (⟨2, by decide⟩, ⟨Vector.replicate _ 3, Vector.replicate _ 4⟩)
  else none

/-- The vault that has these. -/
def twoTemplates : Templates where
  active := 0
  kept gid idx := (held (gidNumber gid)).bind fun x => if idx = x.1 then some x.2 else none

/-- The tables of that vault. -/
def twoStored : Mem :=
  { Mem.zero with
    db := ⟨fun gid => some ((held gid).map fun x => rowOf x.1 (fingerOf (some x.2))).toList⟩ }

/-- A table of one row has one template. -/
theorem saved_singleton (idx : Slot) (x : Template) : Saved [rowOf idx (fingerOf (some x))]
    (slotsOf fun j => if j = idx then some x else none) where
  once := List.pairwise_singleton ..
  rows row := by
    rw [List.mem_singleton]
    constructor
    · rintro rfl
      have hslot : slotsOf (fun j => if j = idx then some x else none) idx = fingerOf (some x) := by
        rw [slotsOf_slot, if_pos rfl]
      exact ⟨idx.property, by simp only [rowOf, hslot, fingerOf], by simp only [rowOf, hslot]⟩
    · rintro ⟨hid, hexist, hrow⟩
      rw [slotsOf_slot ⟨row.id, hid⟩] at hexist hrow
      by_cases hidx : (⟨row.id, hid⟩ : Slot) = idx
      · rw [if_pos hidx] at hrow
        rw [hrow, ← hidx]
      · rw [if_neg hidx] at hexist
        cases hexist
  free j hj hexist := by
    rw [slotsOf_slot ⟨j, hj⟩] at hexist ⊢
    split
    · rename_i hidx
      rw [if_pos hidx] at hexist
      cases hexist
    · rfl

/-- A table without rows has no template. -/
theorem saved_nil : Saved [] (slotsOf fun _ => none) where
  once := .nil
  rows row := by
    refine ⟨nofun, fun ⟨hid, hexist, _⟩ => ?_⟩
    rw [slotsOf_slot ⟨row.id, hid⟩] at hexist
    cases hexist
  free j hj _ := by rw [slotsOf_slot ⟨j, hj⟩]; rfl

/-- These tables are those of that vault. -/
theorem twoStored_stocked : Stocked twoTemplates twoStored := by
  refine ⟨fun gid => ?_, rfl⟩
  simp only [Mem.rows, twoStored, twoTemplates, Option.getD_some]
  cases held (gidNumber gid) with
  | none => exact saved_nil
  | some x => exact saved_singleton x.1 x.2

/-- The choices of an opening that reads one row; the app starts. -/
def openingOne : List Choice :=
  List.replicate 39 .tick ++ .num 1 :: List.replicate 8 .tick ++ .num 100 ::
    List.replicate 5 .tick ++ .num 101 :: appTrials

/-- Thread 1 makes a call with these choices. -/
def Makes (chs : List Choice) (c : VaultCall) (m m' : Mem) : Prop :=
  ∃ es, hal.solo (fun _ => false) 1 chs c.code m = some (es, .ret 0, m') ∧
    es.all sqlSucceeds = true

/-- Such a call serves. -/
theorem Makes.serves {chs : List Choice} {c : VaultCall} (h : Makes chs c m m')
    (hallowed : c.admitted m 0) (hok : ok m c) : Serves ok m (c, 0) m' := by
  obtain ⟨es, hrun, hes⟩ := h
  exact ⟨hallowed, hok, _, _, chs, es, hrun, hes⟩

/-- A group may be set while the last slot is free. -/
theorem admitted_of_free {gid : UInt32} {r : CInt} (h : (m.tz.finger 5).exist = false) :
    (VaultCall.setActiveGroup gid).admitted m r := by
  intro hin
  have hexist : (m.tz.finger 5).exist = true := hin
  rw [h] at hexist
  cases hexist

/-- The device is opened; group 1 becomes active, its finger is removed, and group 0 becomes active
again. -/
theorem leave_and_return : ∃ m₁ m₂ m₃ m₄, Makes openingOne .openDevice twoStored m₁ ∧
    Makes (reload 1) (.setActiveGroup 1) m₁ m₂ ∧
    Makes (List.replicate 15 .tick) (.remove 0) m₂ m₃ ∧
    Makes (reload 1) (.setActiveGroup 0) m₃ m₄ ∧ (m₁.tz.finger 1).exist = true ∧
    (m₁.tz.finger 5).exist = false ∧ (m₃.tz.finger 5).exist = false ∧ m₁.vdev.activeGid = 0 ∧
    m₂.vdev.activeGid = 1 ∧ m₄.vdev.activeGid = 0 :=
  ⟨_, _, _, _, ⟨_, rfl, rfl⟩, ⟨_, rfl, rfl⟩, ⟨_, rfl, rfl⟩, ⟨_, rfl, rfl⟩, rfl, rfl, rfl, rfl, rfl,
    rfl⟩

/-- The vault follows through that. -/
theorem vault_refined_return : ∃ m' v', Trace Answers twoTemplates
    [(.openDevice, 0), (.setActiveGroup 1, 0), (.remove 0, 0), (.setActiveGroup 0, 0)] v' ∧
    Embodies v' m' := by
  obtain ⟨m₁, m₂, m₃, m₄, h₁, h₂, h₃, h₄, -, hlast₁, hlast₃, -⟩ := leave_and_return
  have hrun : Trace (Serves fun _ _ => True) twoStored
      [(.openDevice, 0), (.setActiveGroup 1, 0), (.remove 0, 0), (.setActiveGroup 0, 0)] m₄ :=
    .cons (h₁.serves rfl trivial) (.cons (h₂.serves (admitted_of_free hlast₁) trivial)
      (.cons (h₃.serves (.inl rfl) trivial)
        (.cons (h₄.serves (admitted_of_free hlast₃) trivial) (.nil m₄))))
  obtain ⟨v', hv⟩ := vault_refined twoStored_stocked hrun
  exact ⟨m₄, v', hv⟩

/-- What is done while others are active changes nothing of a group. -/
theorem kept_of_trace {gid : UInt32} (h : Embodies v m)
    (hrun : Trace (Serves fun m c => c.updates → m.vdev.activeGid ≠ gid) m ls m') :
    ∃ v', v'.kept gid = v.kept gid ∧ Embodies v' m' := by
  have hR : Refines Embodies (Serves fun m c => c.updates → m.vdev.activeGid ≠ gid)
      fun v l v' => Answers v l v' ∧ v'.kept gid = v.kept gid := by
    intro v m l m' h hserves
    obtain ⟨v', hv, hm'⟩ := serves_refines v m l m' h hserves
    refine ⟨v', ⟨hv, hv.kept fun hupdates => ?_⟩, hm'⟩
    rw [← h.active]
    exact hserves.2.1 hupdates
  obtain ⟨v', htrace, hm'⟩ := hR.trace hrun h
  have hkept := htrace.invariant (I := fun w => w.kept gid = v.kept gid)
    (fun _ _ _ hs hl => hl.2.trans hs) rfl
  exact ⟨v', hkept, hm'⟩

/-- **A group comes back as it was left.** After any calls from the opening on, other groups become
active, fingers are enrolled and removed for them, the device is opened again; when the group is
active again its slots are what they were. -/
theorem slots_come_back (h : Stocked v m)
    (hrun : Trace (Serves fun _ _ => True) m ((.openDevice, 0) :: ls) m₁)
    (hothers : Trace (Serves fun m c => c.updates → m.vdev.activeGid ≠ m₁.vdev.activeGid) m₁ ls' m')
    (hback : m'.vdev.activeGid = m₁.vdev.activeGid) (idx : Slot) :
    m'.tz.finger idx = m₁.tz.finger idx := by
  obtain ⟨v₁, -, hm₁⟩ := vault_refined h hrun
  obtain ⟨v', hkept, hm'⟩ := kept_of_trace hm₁ hothers
  have hshown : v'.shown = v₁.shown := by
    rw [Vault.shown, Vault.shown, ← hm₁.active, ← hkept, ← hback, hm'.active]
  rw [hm'.finger, hm₁.finger, hshown]

/-- Group 0 comes back after the removal of all fingers of group 1. -/
theorem slots_come_back_return : ∃ m₁ m', (m₁.tz.finger 1).exist = true ∧
    m₁.vdev.activeGid = 0 ∧ Trace (Serves fun m c => c.updates → m.vdev.activeGid ≠ 0) m₁
      [(.setActiveGroup 1, 0), (.remove 0, 0), (.setActiveGroup 0, 0)] m' ∧
    m'.tz.finger 1 = m₁.tz.finger 1 := by
  obtain ⟨m₁, m₂, m₃, m₄, h₁, h₂, h₃, h₄, hexist, hlast₁, hlast₃, hgid₁, hgid₂, hgid₄⟩ :=
    leave_and_return
  have hopen : Trace (Serves fun _ _ => True) twoStored [(.openDevice, 0)] m₁ :=
    .cons (h₁.serves rfl trivial) (.nil m₁)
  have hothers : Trace (Serves fun m c => c.updates → m.vdev.activeGid ≠ 0) m₁
      [(.setActiveGroup 1, 0), (.remove 0, 0), (.setActiveGroup 0, 0)] m₄ :=
    .cons (h₂.serves (admitted_of_free hlast₁) False.elim)
      (.cons (h₃.serves (.inl rfl) fun _ => by rw [hgid₂]; decide)
        (.cons (h₄.serves (admitted_of_free hlast₃) False.elim) (.nil m₄)))
  have hback := slots_come_back twoStored_stocked hopen (hgid₁ ▸ hothers) (hgid₄.trans hgid₁.symm)
  exact ⟨m₁, m₄, hexist, hgid₁, hothers, hback ⟨1, by decide⟩⟩

end sequences

end KlteCommon.Analysis

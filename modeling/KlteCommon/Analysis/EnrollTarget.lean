import KlteCommon.Analysis.Identity
import KlteCommon.Analysis.LockDiscipline

/-!
# Where an enrollment writes

`fingerprint_enroll` looks for a free slot to see that there is one, and leaves it; its worker looks
again, keeps the slot it finds through all images, and reads the active group when it commits. In
between `fingerprint_set_active_group` may load another group, and other threads may fill the slot.

`Aim` says how far the search of a request or of its worker has got, and what has become of the
slot it found (`aimProtocol_valid`). As long as the other threads leave a free slot to those who
look for one, leave alone the slot that a worker has found, the row of its number and the group,
and a slot that is found free has no row (`AimKept`), a worker writes a free slot of the device and
a new row of the group that was active when its request was accepted (`writesWhereAimed`). A group
that is set in between is enough to break it (`foreign_row`).
-/

set_option autoImplicit false

namespace KlteCommon.Analysis

open KlteCommon.Computation KlteCommon.Fingerprint

/-! ## What is observed -/

/-- The active group after the steps of a log, from that of `m`. -/
def groupAfter (m : Mem) : HalLog → UInt32
  | [] => m.vdev.activeGid
  | (_, .op (.store .activeGid gid) _) :: _ => gid
  | (_, .op .clearDevice _) :: _ => Device.zero.activeGid
  | _ :: log => groupAfter m log

/-- The group that was active when thread `w` was created, which `fingerprint_enroll` does when it
accepts a request. -/
def groupFor (m : Mem) (w : Tid) : HalLog → Option UInt32
  | [] => none
  | (_, .op (.pthreadCreate _) (.ok u)) :: log =>
    if u = w then some (groupAfter m log) else groupFor m w log
  | _ :: log => groupFor m w log

/-- A step of worker `w` changes no slot but a free one of the device, and no table but that of the
group it was started for, where it adds a row for a finger that has none. -/
structure WritesWhereAimed (m₀ : Mem) (s s' : Hal) (w : Tid) : Prop where
  slot : ∀ idx, s'.mem.tz.finger idx ≠ s.mem.tz.finger idx →
    1 ≤ idx ∧ idx ≤ maxNumFingers ∧ (s.mem.tz.finger idx).exist = false
  row : ∀ gid, s'.mem.rows gid ≠ s.mem.rows gid →
    groupFor m₀ w s.log = some gid ∧ ∃ row : Row, 1 ≤ row.id ∧ row.id ≤ maxNumFingers ∧
      s'.mem.rows gid = s.mem.rows gid ++ [row] ∧ ∀ old ∈ s.mem.rows gid, old.id ≠ row.id

/-- How far the search for a slot has got, and what has become of the slot it found. -/
inductive Aim
  | looking (idx : ℤ)
  | aimed (idx : ℤ)
  | filled (idx : ℤ)
  | told (idx : ℤ) (gid : UInt32)
  | settled
  deriving DecidableEq

namespace Aim

/-- The search comes to slot `idx`, or ends behind the last one. -/
def comesTo (idx : ℤ) : Aim := if idx ≤ maxNumFingers then looking idx else aimed idx

/-- The active group is read. -/
def learns (gid : UInt32) : Aim → Aim
  | filled idx => told idx gid
  | x => x

/-- One event of a request, or of a worker. A request is done with its slot when it has created the
worker or gives up `vdev->lock`; a worker, when it has inserted the row or will not. -/
def after (request : Bool) (x : Aim) : HalEvent → Aim
  | .op (.load (.fingerExist idx)) exist => if exist then comesTo (idx + 1) else aimed idx
  | .op (.store (.fingerExist idx) _) _ => filled idx
  | .op (.load .activeGid) gid => x.learns gid
  | .op (.sqlInsert _ _ _ _) _ | .op (.pthreadCreate _) _ => settled
  | .op (.unlock .vdevLock) _ => if request then settled else x
  | .enter .sensorUninit | .enter (.sendErrorNotice _) => settled
  | _ => x

/-- The slot that was found. -/
def slot : Aim → Option ℤ
  | aimed idx | filled idx | told idx _ => some idx
  | _ => none

/-- A slot was found that is one. -/
def inRange : Aim → Bool
  | aimed idx => decide (1 ≤ idx ∧ idx ≤ maxNumFingers)
  | _ => false

/-- The group has yet to be read. -/
def beforeGroup : Aim → Bool
  | looking _ | aimed _ | filled _ => true
  | _ => false

/-- From which slot on a free one is needed: a request that has found one leaves it to its worker,
which looks for one from slot 1 on. -/
def needsFrom (request : Bool) (x : Aim) : Option ℤ :=
  match x with
  | looking idx => if request then none else some idx
  | x => if request ∧ x.inRange then some 1 else none

end Aim

/-- How far a request or a worker with these events is. -/
def aimOf (request : Bool) (es : List HalEvent) : Aim :=
  es.foldr (fun e x => x.after request e) (.looking 1)

/-- Whether a thread runs a request, or a worker, for an enrollment. -/
def aimRole : Call → Option Bool
  | .fingerprintEnroll _ _ => some true
  | .vcsEnroll => some false
  | _ => none

/-- How far worker `w` is. -/
def workerAim (s : Hal) (w : Tid) : Option Aim :=
  match s.entry w with
  | some .vcsEnroll => some (aimOf false (s.own w))
  | _ => none

/-- From which slot on thread `u` needs a free one. -/
def needsFrom (s : Hal) (u : Tid) : Option ℤ :=
  ((s.entry u).bind aimRole).bind fun request => (aimOf request (s.own u)).needsFrom request

/-- The slots behind a step. -/
def slotsBehind (s : Hal) : HalEvent → ℤ → Finger
  | .op o _ => fingerAfter s.mem.tz.finger o
  | _ => s.mem.tz.finger

/-- The active group behind a step. -/
def groupBehind (s : Hal) : HalEvent → UInt32
  | .op o _ => (vdevAfter s.mem.vdev o).activeGid
  | _ => s.mem.vdev.activeGid

/-- A slot from `idx` on is free. -/
def freeFrom (finger : ℤ → Finger) (idx : ℤ) : Prop :=
  ∃ j, idx ≤ j ∧ j ≤ maxNumFingers ∧ (finger j).exist = false

/-- The condition on a step: a slot that a worker finds free has no row in the active group's table,
and the other threads fill no slot that a worker has found, nor the last one that is left for those
who need one, change no group that a worker has yet to read, and insert no row that a worker is
going to. -/
structure AimKept (m₀ : Mem) (s : Hal) (t : Tid) (e : HalEvent) : Prop where
  mirrored : s.entry t = some .vcsEnroll → ∀ idx, e = .op (.load (.fingerExist idx)) false →
    ∀ row ∈ s.mem.rows s.mem.vdev.activeGid, row.id ≠ idx
  free : ∀ u ≠ t, ∀ idx, needsFrom s u = some idx → freeFrom s.mem.tz.finger idx →
    freeFrom (slotsBehind s e) idx
  slot : ∀ w ≠ t, ∀ idx, workerAim s w = some (.aimed idx) →
    (s.mem.tz.finger idx).exist = false → (slotsBehind s e idx).exist = false
  group : ∀ w ≠ t, ∀ x, workerAim s w = some x → x.beforeGroup = true →
    groupBehind s e = s.mem.vdev.activeGid
  row : ∀ w ≠ t, ∀ x idx, workerAim s w = some x → x.slot = some idx →
    ∀ gid, groupFor m₀ w s.log = some gid →
    ∀ boundData boundPayload, e ≠ .op (.sqlInsert gid idx boundData boundPayload) sqliteDone

/-! ## The protocol -/

namespace Aim

/-- Which events there may be in which stage. -/
def legal (request : Bool) (x : Aim) : HalEvent → Bool
  | .op (.load (.fingerExist idx)) _ => x == looking idx
  | .op (.store (.fingerData idx) _) _ | .op (.store (.fingerPayload idx) _) _ =>
    !request && x == aimed idx
  | .op (.store (.fingerExist idx) exist) _ => !request && x == aimed idx && exist
  | .op (.load .activeGid) _ => !request && x.slot.any fun idx => x == filled idx
  | .op (.sqlInsert gid idx _ _) _ => !request && x == told idx gid
  | .op (.pthreadCreate v) _ => request && (v != .vcsEnroll || x.inRange)
  | .op o _ => o.quiet
  | .enter _ => true
  | .done _ _ => false

/-- One event. -/
def next (request : Bool) (x : Aim) (e : HalEvent) : Option Aim :=
  if x.legal request e then some (x.after request e) else none

end Aim

/-- Which procedures are called in which stage. -/
def aimCalls (request : Bool) (x : Aim) : Call → Prop
  | .fingerprintEnroll _ _ => request = true ∧ x = .looking 1
  | .vcsStartEnroll _ => request = true ∧ x.inRange = true
  | .vcsInit | .vcsResume | .sensorInit => request = true
  | .vcsEnroll => request = false ∧ x = .looking 1
  | .vcsEnrollLoop _ _ => request = false ∧ ∃ idx, x = .aimed idx
  | .dbWriteToDb remove idx => request = false ∧ remove = false ∧ x = .filled idx
  | .sendErrorNotice _ | .sensorUninit => x = .settled
  | .getTzState | .setTzState _ => True
  | .vcsUpdateCalData | .vcsCheckState | .vcsStartCapture _ | .vcsUninit => request = false
  | .vcsStartCaptureWait | .vcsStartCaptureRead | .sensorCaptureStart => request = false
  | .vcsUpdateAuthToken | .sendAcquiredNotice _ | .sendEnrollNotice _ _ => request = false
  | _ => False

/-- The stages a procedure may be left in. -/
def aimLeaves (x : Aim) : (c : Call) → Ret c → Aim → Prop
  | .fingerprintEnroll _ _, _, _ | .vcsStartEnroll _, _, _ | .vcsEnroll, _, _ => True
  | .vcsEnrollLoop _ _, r, y => r ≠ .returned → y = x
  | .dbWriteToDb _ _, _, _ => True
  | _, _, y => y = x

/-- The protocol of a request, or of a worker. -/
@[simps] def aimProtocol (request : Bool) : Protocol Resp Ret Aim where
  assume _ _ := True
  next x e := x.next request e
  pre c x := aimCalls request x c
  post c x r y := aimLeaves x c r y

section bodies

variable {request : Bool} {x : Aim}

attribute [local simp ↓] load store op call send ionSbuffer sameIonSbuffer

/-- A call by its contract, behind its entry. -/
@[simp ↓] theorem callRule_aim (c : Call) (Q : Ret c → Aim → Prop) :
    (aimProtocol request).callRule fine c Q x ↔ aimCalls request (x.after request (.enter c)) c ∧
      ∀ r z, aimLeaves (x.after request (.enter c)) c r z → Q r z := by
  simp [Protocol.callRule, fine, Aim.next, Aim.legal]

attribute [local simp] Aim.next Aim.legal Aim.after Aim.learns Aim.slot Op.quiet aimCalls aimLeaves

/-- The search ends with a slot, which is one if there was a free one. -/
theorem follows_aim {Q : ℤ → Aim → Prop} (n : ℕ) (idx : ℤ) (hn : idx + n = maxNumFingers + 1)
    (hidx : 1 ≤ idx) (hQ : ∀ j, 1 ≤ j → Q j (.aimed j)) :
    (aimProtocol request).Follows fine (firstFreeSlot n idx) Q (.comesTo idx) := by
  induction n generalizing idx with
  | zero =>
    have hend : Aim.comesTo idx = .aimed idx := if_neg (by push_cast at hn; omega)
    rw [hend]
    exact hQ idx hidx
  | succ n ih =>
    have hlooks : Aim.comesTo idx = .looking idx := if_pos (by push_cast at hn; omega)
    have hrest := ih (idx + 1) (by push_cast at hn; omega) (by omega)
    rw [hlooks]
    simp [firstFreeSlot, Bool.forall_bool, hQ idx hidx, hrest]

/-- **The search.** A request and its worker each look for a slot, and the worker writes to the one
it has found. -/
theorem aimProtocol_valid : (aimProtocol request).Valid fine body := by
  intro c _ x hx
  cases c
  all_goals simp at hx
  case getTzState => simp [body, getTzState]
  case setTzState => simp [body, setTzState]
  case sensorInit => simp [body, sensorInit]
  case vcsResume => simp [body, vcsResume, deviceResume]
  case vcsInit => simp [body, vcsInit, hx]
  case vcsStartEnroll =>
    obtain ⟨rfl, hx⟩ := hx
    simp [body, vcsStartEnroll, hx]
    rintro (_ | _)
    · simp
    · simp
      rintro - (_ | _) <;> simp
  case fingerprintEnroll hat timeout _ =>
    obtain ⟨rfl, rfl⟩ := hx
    cases hat with
    | none => simp [body, fingerprintEnroll]
    | some hat =>
      have hsearch : ∀ {Q : ℤ → Aim → Prop}, (∀ j, 1 ≤ j → Q j (.aimed j)) →
          (aimProtocol true).Follows fine findFreeSlot Q (.looking 1) :=
        fun hQ => follows_aim maxNumFingers 1 rfl (by decide) hQ
      simp [body, fingerprintEnroll]
      intro _ _ _
      refine hsearch fun j hj => ?_
      by_cases hfull : (maxNumFingers : ℤ) < j
      · simp [hfull]
      · simp [hfull, Aim.inRange, hj, Int.not_lt.mp hfull]
  case vcsEnroll =>
    obtain ⟨rfl, rfl⟩ := hx
    refine .bind (follows_ionSbuffer (fun _ => rfl) (fun _ => rfl) ?_)
    refine .bind (follows_aim maxNumFingers 1 rfl (by decide) fun idx _ => ?_)
    simp
    intro _ _ _ _ exit z hz hexit _
    obtain rfl := hz hexit
    simp [vcsEnrollCommit, payloadBind, enrollmentPasswordSet]
  case vcsEnrollLoop =>
    obtain ⟨rfl, idx, rfl⟩ := hx
    simp [body, vcsEnrollLoop]
  case dbWriteToDb =>
    obtain ⟨rfl, rfl, rfl⟩ := hx
    simp [body, dbWriteToDb]
  case sensorUninit =>
    subst hx
    simp [body, sensorUninit]
  case sendErrorNotice =>
    subst hx
    simp [body, sendErrorNotice]
  all_goals subst hx
  case vcsUpdateCalData => simp [body, vcsUpdateCalData]
  case vcsCheckState => simp [body, vcsCheckState]
  case vcsStartCapture => simp [body, vcsStartCapture]
  case vcsStartCaptureWait => simp [body, vcsStartCaptureWait]
  case vcsStartCaptureRead => simp [body, vcsStartCaptureRead]
  case vcsUpdateAuthToken => simp [body, vcsUpdateAuthToken, getAuthToken]
  case vcsUninit => simp [body, vcsUninit]
  case sensorCaptureStart => simp [body, sensorCaptureStart]
  case sendAcquiredNotice => simp [body, sendAcquiredNotice]
  case sendEnrollNotice => simp [body, sendEnrollNotice]

end bodies

/-! ## The other threads -/

/-- The procedures that create a worker for an enrollment. -/
@[reducible] def createsEnroll : Call → Bool
  | .fingerprintEnroll _ _ | .vcsStartEnroll _ => true
  | _ => false

/-- What the other procedures do. -/
@[reducible] def createsNone : Op → Bool
  | .pthreadCreate .vcsEnroll => false
  | _ => true

/-- They create none. -/
theorem createsEnroll_within {c : Call} (hc : createsEnroll c = false) :
    (body c).Within (createsNone · = true) fun d => (!createsEnroll d) = true := by
  refine (body_within c).mono (fun o ho => ?_) (fun d hd => ?_)
  · cases hcreates : createsNone o with
    | true => rfl
    | false =>
      unfold createsNone at hcreates
      split at hcreates
      · cases c <;> first | cases ho; done | cases hc
      · cases hcreates
  · cases d <;> first | rfl | (cases c <;> first | cases hd; done | cases hc)

/-- The protocol of the other threads. -/
@[reducible] def enrollOthers : Protocol Resp Ret Unit :=
  .only createsNone fun c => !createsEnroll c

/-- They keep to it. -/
theorem enrollOthers_valid : enrollOthers.Valid fine body :=
  Protocol.only_valid fun c hc => createsEnroll_within (by simpa using hc)

/-! ## One event -/

/-- What an event may be, and where it leads. -/
inductive Aim.Moves : HalEvent → Aim → Aim → Prop
  | reads (idx : ℤ) (exist : Bool) :
      Moves (.op (.load (.fingerExist idx)) exist) (looking idx)
        (if exist then comesTo (idx + 1) else aimed idx)
  | data (idx : ℤ) (d : Bytes fingerDataMaxLength) :
      Moves (.op (.store (.fingerData idx) d) ()) (aimed idx) (aimed idx)
  | payload (idx : ℤ) (d : Bytes payloadMaxLength) :
      Moves (.op (.store (.fingerPayload idx) d) ()) (aimed idx) (aimed idx)
  | fills (idx : ℤ) : Moves (.op (.store (.fingerExist idx) true) ()) (aimed idx) (filled idx)
  | learns (idx : ℤ) (gid : UInt32) :
      Moves (.op (.load .activeGid) gid) (filled idx) (told idx gid)
  | inserts (idx : ℤ) (gid : UInt32) (boundData boundPayload : Bool) (r : CInt) :
      Moves (.op (.sqlInsert gid idx boundData boundPayload) r) (told idx gid) settled
  | creates (x : Aim) (v : Worker) (r : Except CInt Tid) : Moves (.op (.pthreadCreate v) r) x settled
  | quiet {x y : Aim} {e : HalEvent} (hq : quietEvent e = true) (hy : y = x ∨ y = settled) :
      Moves e x y

section event

variable {request : Bool} {x y : Aim} {e : HalEvent} {es : List HalEvent}

/-- It is one of these. -/
theorem Aim.moves (h : x.legal request e = true) : Moves e x (x.after request e) := by
  cases e with
  | enter c => cases c <;> exact .quiet rfl (by simp [after])
  | done c r => cases h
  | op o r =>
    cases o with
    | load v =>
      cases v with
      | fingerExist idx =>
        obtain rfl := by simpa [legal] using h
        exact .reads idx r
      | activeGid =>
        obtain ⟨-, hx⟩ := by simpa [legal] using h
        cases x <;> simp [slot] at hx
        exact .learns _ _
      | _ => exact .quiet rfl (.inl rfl)
    | store v a =>
      cases v with
      | fingerExist idx =>
        obtain ⟨⟨-, rfl⟩, rfl⟩ := by simpa [legal] using h
        exact .fills idx
      | fingerData idx =>
        obtain ⟨-, rfl⟩ := by simpa [legal] using h
        exact .data idx a
      | fingerPayload idx =>
        obtain ⟨-, rfl⟩ := by simpa [legal] using h
        exact .payload idx a
      | finger | activeGid => cases h
      | _ => exact .quiet rfl (.inl rfl)
    | unlock mu =>
      cases mu <;> exact .quiet rfl (by cases request <;> simp [after])
    | sqlInsert gid idx boundData boundPayload =>
      obtain ⟨-, rfl⟩ := by simpa [legal] using h
      exact .inserts ..
    | pthreadCreate v => exact .creates x v r
    | copyData | copyPayload | clearTz | sqlCreate | sqlDelete | clearDevice => cases h
    | _ => exact .quiet rfl (.inl rfl)

/-- The stages are what they are observed to be. -/
theorem aimOf_of_stage (h : (aimProtocol request).stage (.looking 1) es = some x) :
    aimOf request es = x := by
  induction es generalizing x with
  | nil => exact Option.some.inj h
  | cons e es ih =>
    obtain ⟨y, hy, hnext⟩ := Option.bind_eq_some_iff.mp h
    obtain ⟨-, rfl⟩ : y.legal request e = true ∧ y.after request e = x := by
      simpa [Aim.next] using hnext
    rw [← ih hy]
    rfl

end event

/-! ## What a stage says of the memory -/

/-- Finger `idx` can be recorded, and is not yet. -/
def IsNew (m : Mem) (gid : UInt32) (idx : ℤ) : Prop :=
  1 ≤ idx ∧ idx ≤ maxNumFingers ∧ ∀ row ∈ m.rows gid, row.id ≠ idx

/-- What a worker's stage says: the slot it has found is free until it fills it, and new in its
group, which is the active one until it reads it. -/
def Aim.Fits (group : Option UInt32) (m : Mem) : Aim → Prop
  | looking idx => 1 ≤ idx ∧ group = some m.vdev.activeGid
  | aimed idx => IsNew m m.vdev.activeGid idx ∧ (m.tz.finger idx).exist = false ∧
      group = some m.vdev.activeGid
  | filled idx => IsNew m m.vdev.activeGid idx ∧ group = some m.vdev.activeGid
  | told idx gid => IsNew m gid idx ∧ group = some gid
  | settled => True

/-- Who needs a free slot has one, and the stages of the workers say what they say. -/
structure Aiming (m₀ : Mem) (s : Hal) : Prop where
  free : ∀ u idx, needsFrom s u = some idx → freeFrom s.mem.tz.finger idx
  worker : ∀ w x, workerAim s w = some x → x.Fits (groupFor m₀ w s.log) s.mem

section runs

variable {m₀ : Mem} {s s' : Hal} {t u w : Tid} {e : HalEvent} {request : Bool} {x y : Aim}
  {group : Option UInt32} {ok : Hal → Tid → HalEvent → Prop}

/-- The log tells the active group. -/
theorem groupAfter_log (h : (Hal.idle m₀).Reaches fine entryPoints ok s) :
    groupAfter m₀ s.log = s.mem.vdev.activeGid := by
  induction h with
  | refl => rfl
  | arrive _ _ _ ih => exact ih
  | @run s s' t e _ _ hr ih =>
    rw [hr.log]
    cases e with
    | op o r =>
      rw [(effect_of_runs hr).vdev]
      cases o with
      | store v a => cases v <;> first | exact ih | rfl
      | clearDevice => rfl
      | _ => exact ih
    | enter c => rw [mem_of_enters hr, ← ih]; rfl
    | done c r => exact (not_done_of_fine hr).elim

/-- The slots and the active group behind a step are those of the memory. -/
theorem behind_of_runs (hr : s.Runs fine t e s') :
    slotsBehind s e = s'.mem.tz.finger ∧ groupBehind s e = s'.mem.vdev.activeGid := by
  cases e with
  | op o r => exact ⟨(effect_of_runs hr).finger.symm, by rw [(effect_of_runs hr).vdev]; rfl⟩
  | enter c => exact ⟨by rw [mem_of_enters hr]; rfl, by rw [mem_of_enters hr]; rfl⟩
  | done c r => exact (not_done_of_fine hr).elim

/-- A row is there already, or has been inserted. -/
theorem row_of_runs (hr : s.Runs fine t e s') {gid : UInt32} {row : Row}
    (hrow : row ∈ s'.mem.rows gid) : row ∈ s.mem.rows gid ∨ ∃ boundData boundPayload,
      e = .op (.sqlInsert gid row.id boundData boundPayload) sqliteDone := by
  cases e with
  | enter c => exact .inl (mem_of_enters hr ▸ hrow)
  | done c r => exact (not_done_of_fine hr).elim
  | op o r =>
    have hdb := (effect_of_runs hr).db
    cases o with
    | sqlCreate g =>
      simp only [dbAfter] at hdb
      split at hdb
      · rw [rows_of_db hdb] at hrow
        by_cases hg : gid = g
        · simp [hg] at hrow
        · exact .inl (rows_setTable_of_ne hg _ ▸ hrow)
      · exact .inl (rows_of_db hdb ▸ hrow)
    | sqlDelete g fid =>
      simp only [dbAfter] at hdb
      split at hdb
      · rw [rows_of_db hdb] at hrow
        by_cases hg : gid = g
        · subst hg
          rw [rows_setTable] at hrow
          exact .inl (List.mem_filter.mp hrow).1
        · exact .inl (rows_setTable_of_ne hg _ ▸ hrow)
      · exact .inl (rows_of_db hdb ▸ hrow)
    | sqlInsert g fid boundData boundPayload =>
      simp only [dbAfter] at hdb
      split at hdb
      · rename_i hdone
        rw [rows_of_db hdb] at hrow
        by_cases hg : gid = g
        · subst hg
          rw [rows_setTable] at hrow
          obtain hrow | hrow := List.mem_append.mp hrow
          · exact .inl hrow
          · obtain rfl := List.mem_singleton.mp hrow
            exact .inr ⟨boundData, boundPayload, by rw [hdone]; rfl⟩
        · exact .inl (rows_setTable_of_ne hg _ ▸ hrow)
      · exact .inl (rows_of_db hdb ▸ hrow)
    | _ => exact .inl (rows_of_db hdb ▸ hrow)

/-- A finger stays new as long as it is not recorded. -/
theorem IsNew.run {gid : UInt32} {idx : ℤ} (h : IsNew s.mem gid idx) (hr : s.Runs fine t e s')
    (hrow : ∀ boundData boundPayload,
      e ≠ .op (.sqlInsert gid idx boundData boundPayload) sqliteDone) : IsNew s'.mem gid idx := by
  refine ⟨h.1, h.2.1, fun row hmem hid => ?_⟩
  obtain hold | ⟨boundData, boundPayload, he⟩ := row_of_runs hr hmem
  · exact h.2.2 row hold hid
  · exact hrow boundData boundPayload (hid ▸ he)

/-- Who runs a request or a worker keeps to the protocol. -/
theorem legal_of_runs (h : (Hal.idle m₀).Reaches fine entryPoints ok s) (ho : ok s t e)
    (hr : s.Runs fine t e s') (ht : (s.entry t).bind aimRole = some request) :
    (aimOf request (s.own t)).legal request e = true := by
  obtain ⟨c, hc, hrole⟩ := Option.bind_eq_some_iff.mp ht
  have hstart : (aimProtocol request).Follows fine (.call c .ret) (fun _ _ => True)
      (.looking 1) := by
    cases c <;> cases hrole <;> simp [aimCalls, Aim.after]
  obtain ⟨x, y, hx, hy⟩ := h.next_of_runs aimProtocol_valid hstart (A := fun _ => True)
    (fun _ _ _ => trivial) (fun _ _ _ _ _ => trivial) (fun _ => rfl) rfl hc ho hr
  rw [aimOf_of_stage hx]
  exact (Option.ite_none_right_eq_some.mp hy).1

/-- One event of a thread. -/
theorem aimOf_run (hr : s.Runs fine t e s') :
    aimOf request (s'.own t) = (aimOf request (s.own t)).after request e := by
  rw [hr.own, if_pos rfl]
  rfl

/-- The stage of a worker is that of its events. -/
theorem workerAim_eq_some : workerAim s w = some x ↔
    s.entry w = some .vcsEnroll ∧ aimOf false (s.own w) = x := by
  unfold workerAim
  split <;> simp_all

/-- Who needs a free slot, by its role and its events. -/
theorem needsFrom_eq_some {idx : ℤ} : needsFrom s u = some idx ↔
    ∃ request, (s.entry u).bind aimRole = some request ∧
      (aimOf request (s.own u)).needsFrom request = some idx := by
  rw [needsFrom, Option.bind_eq_some_iff]

/-- A thread that moves on finds a free slot if it needs one. -/
theorem Aim.needs_run (hm : Moves e x y) (hr : s.Runs fine t e s')
    (hfree : ∀ idx, x.needsFrom request = some idx → freeFrom s.mem.tz.finger idx) {idx : ℤ}
    (hy : y.needsFrom request = some idx) : freeFrom s'.mem.tz.finger idx := by
  cases hm with
  | reads j exist =>
    obtain rfl : exist = (s.mem.tz.finger j).exist := load_of_runs hr
    rw [(mem_of_quiet hr rfl).1]
    cases hexist : (s.mem.tz.finger j).exist with
    | false =>
      obtain ⟨⟨-, hle, hlt⟩, rfl⟩ := by simpa [hexist, Aim.needsFrom, inRange] using hy
      exact ⟨j, hle, hlt, hexist⟩
    | true =>
      simp only [hexist, if_true, comesTo] at hy
      split at hy
      · obtain ⟨hrequest, rfl⟩ := by simpa [Aim.needsFrom] using hy
        obtain ⟨k, hle, hlt, hk⟩ := hfree j (by simp [Aim.needsFrom, hrequest])
        have hkj : k ≠ j := by
          rintro rfl
          rw [hexist] at hk
          cases hk
        exact ⟨k, by omega, hlt, hk⟩
      · rename_i hlast
        simp [Aim.needsFrom, inRange, hlast] at hy
  | data j d =>
    obtain ⟨k, hle, hlt, hk⟩ := hfree idx hy
    refine ⟨k, hle, hlt, ?_⟩
    rw [(effect_of_runs hr).finger, ← hk]
    by_cases hkj : k = j <;> simp [fingerAfter, hkj]
  | payload j d =>
    obtain ⟨k, hle, hlt, hk⟩ := hfree idx hy
    refine ⟨k, hle, hlt, ?_⟩
    rw [(effect_of_runs hr).finger, ← hk]
    by_cases hkj : k = j <;> simp [fingerAfter, hkj]
  | quiet hq hstays =>
    obtain rfl | rfl := hstays
    · rw [(mem_of_quiet hr hq).1]
      exact hfree idx hy
    · simp [Aim.needsFrom, inRange] at hy
  | _ => simp [Aim.needsFrom, inRange] at hy

/-- What a stage says is about the slots, the database and the active group. -/
theorem Aim.Fits.congr {m m' : Mem} (h : x.Fits group m)
    (hslots : ∀ idx, (m'.tz.finger idx).exist = (m.tz.finger idx).exist) (hdb : m'.db = m.db)
    (hgid : m'.vdev.activeGid = m.vdev.activeGid) : x.Fits group m' := by
  have hnew : ∀ {gid idx}, IsNew m gid idx → IsNew m' gid idx :=
    fun hn => ⟨hn.1, hn.2.1, rows_of_db hdb ▸ hn.2.2⟩
  cases x with
  | looking idx => exact ⟨h.1, hgid ▸ h.2⟩
  | aimed idx => exact ⟨hgid ▸ hnew h.1, (hslots idx).trans h.2.1, hgid ▸ h.2.2⟩
  | filled idx => exact ⟨hgid ▸ hnew h.1, hgid ▸ h.2⟩
  | told idx gid => exact ⟨hnew h.1, h.2⟩
  | settled => trivial

/-- A worker's own step. -/
theorem Aim.Fits.own (h : x.Fits group s.mem) (hm : Moves e x y) (hr : s.Runs fine t e s')
    (hfree : ∀ idx, x = looking idx → freeFrom s.mem.tz.finger idx)
    (hmirrored : ∀ idx, e = .op (.load (.fingerExist idx)) false →
      ∀ row ∈ s.mem.rows s.mem.vdev.activeGid, row.id ≠ idx) : y.Fits group s'.mem := by
  have hquiet : quietEvent e = true → x.Fits group s'.mem := by
    intro hq
    obtain ⟨hfinger, hdb, hgid⟩ := mem_of_quiet hr hq
    exact h.congr (fun idx => by rw [hfinger]) hdb hgid
  cases hm with
  | reads j exist =>
    obtain ⟨hle, hgroup⟩ := hquiet rfl
    obtain ⟨hfinger, hdb, hgid⟩ := mem_of_quiet hr rfl
    obtain ⟨k, hjk, hlast, hk⟩ := hfree j rfl
    have hread : exist = (s.mem.tz.finger j).exist := load_of_runs hr
    cases exist with
    | false =>
      have hnew : IsNew s.mem s.mem.vdev.activeGid j := ⟨hle, by omega, hmirrored j rfl⟩
      refine ⟨?_, by rw [hfinger, ← hread], hgroup⟩
      rw [hgid]
      exact ⟨hnew.1, hnew.2.1, rows_of_db hdb ▸ hnew.2.2⟩
    | true =>
      have hkj : k ≠ j := by
        rintro rfl
        rw [← hread] at hk
        cases hk
      have hnext : comesTo (j + 1) = looking (j + 1) := if_pos (by omega)
      simp only [if_true, hnext]
      exact ⟨by omega, hgroup⟩
  | data j d =>
    have heff := effect_of_runs hr
    refine h.congr (fun idx => ?_) heff.db (by rw [heff.vdev]; rfl)
    rw [heff.finger]
    by_cases hidx : idx = j <;> simp [fingerAfter, hidx]
  | payload j d =>
    have heff := effect_of_runs hr
    refine h.congr (fun idx => ?_) heff.db (by rw [heff.vdev]; rfl)
    rw [heff.finger]
    by_cases hidx : idx = j <;> simp [fingerAfter, hidx]
  | fills j =>
    have heff := effect_of_runs hr
    have hgid : s'.mem.vdev.activeGid = s.mem.vdev.activeGid := by rw [heff.vdev]; rfl
    obtain ⟨hnew, -, hgroup⟩ := h
    refine ⟨?_, hgid ▸ hgroup⟩
    rw [hgid]
    exact ⟨hnew.1, hnew.2.1, rows_of_db heff.db ▸ hnew.2.2⟩
  | learns j gid =>
    obtain ⟨hnew, hgroup⟩ := hquiet rfl
    have hread : gid = s.mem.vdev.activeGid := load_of_runs hr
    rw [(mem_of_quiet hr rfl).2.2, ← hread] at hnew hgroup
    exact ⟨hnew, hgroup⟩
  | quiet hq hstays =>
    obtain rfl | rfl := hstays
    · exact hquiet hq
    · trivial
  | _ => trivial

/-- A step of another thread. -/
theorem Aim.Fits.other (h : x.Fits group s.mem) (hr : s.Runs fine t e s')
    (hslot : ∀ idx, x = aimed idx → (s.mem.tz.finger idx).exist = false →
      (s'.mem.tz.finger idx).exist = false)
    (hgroup : x.beforeGroup = true → s'.mem.vdev.activeGid = s.mem.vdev.activeGid)
    (hrow : ∀ idx gid, x.slot = some idx → group = some gid → ∀ boundData boundPayload,
      e ≠ .op (.sqlInsert gid idx boundData boundPayload) sqliteDone) : x.Fits group s'.mem := by
  cases x with
  | looking idx => exact ⟨h.1, hgroup rfl ▸ h.2⟩
  | aimed idx =>
    obtain ⟨hnew, hfree, hg⟩ := h
    have hgid := hgroup rfl
    exact ⟨hgid ▸ hnew.run hr (hrow idx _ rfl hg), hslot idx rfl hfree, hgid ▸ hg⟩
  | filled idx =>
    obtain ⟨hnew, hg⟩ := h
    have hgid := hgroup rfl
    exact ⟨hgid ▸ hnew.run hr (hrow idx _ rfl hg), hgid ▸ hg⟩
  | told idx gid => exact ⟨h.1.run hr (hrow idx gid rfl h.2), h.2⟩
  | settled => trivial

/-- An event that does not create thread `w`. -/
theorem groupFor_cons {log : HalLog} (hb : ∀ c, hal.born e ≠ some (w, c)) :
    groupFor m₀ w ((t, e) :: log) = groupFor m₀ w log := by
  cases e with
  | op o r =>
    cases o with
    | pthreadCreate v =>
      cases r with
      | ok u =>
        rw [groupFor, if_neg]
        rintro rfl
        exact hb _ rfl
      | error ret => rfl
    | _ => rfl
  | _ => rfl

/-- A thread runs a request, or creates no worker for an enrollment. -/
theorem request_or_others (h : (Hal.idle m₀).Reaches fine entryPoints ok s) {c : Call}
    (ht : s.entry t = some c) :
    (∃ hat timeout, c = .fingerprintEnroll hat timeout) ∨ createsEnroll c = false := by
  induction h generalizing t with
  | refl => simp [State.entry, Hal.idle] at ht
  | @arrive s u d _ ha hp ih =>
    rw [State.entry_add] at ht
    split at ht
    · obtain rfl := Option.some.inj ht
      cases d <;> first | cases ha; done | exact .inr rfl | exact .inl ⟨_, _, rfl⟩
    · exact ih ht
  | @run s s' u e _ _ hr ih =>
    obtain hentry | hborn := (hr.entry t c).mp ht
    · exact ih hentry
    · obtain ⟨v, rfl⟩ := born_worker hborn
      cases v <;> exact .inr rfl

/-- A worker is created by a request that has found a free slot. -/
theorem needs_of_born (h : (Hal.idle m₀).Reaches fine entryPoints ok s) (ho : ok s t e)
    (hr : s.Runs fine t e s') (hborn : hal.born e = some (w, .vcsEnroll)) :
    e = .op (.pthreadCreate .vcsEnroll) (.ok w) ∧ needsFrom s t = some 1 := by
  obtain rfl := creates_of_born (v := .vcsEnroll) hborn
  refine ⟨rfl, ?_⟩
  obtain ⟨th, -, -, hth, -⟩ := hr.moves
  have ht : s.entry t = some th.entry := by rw [State.entry, hth]; rfl
  obtain ⟨hat, timeout, hc⟩ | hothers := request_or_others h ht
  · have hbind : (s.entry t).bind aimRole = some true := by rw [ht, hc]; rfl
    have hrange := by simpa [Aim.legal] using legal_of_runs h ho hr hbind
    refine needsFrom_eq_some.mpr ⟨true, hbind, ?_⟩
    generalize aimOf true (s.own t) = x at hrange
    cases x with
    | aimed idx => simp [Aim.needsFrom, hrange]
    | _ => cases hrange
  · obtain ⟨x, y, -, hy⟩ := h.next_of_runs enrollOthers_valid (Q := fun _ _ => True) (x := ())
      (by simp [Protocol.callRule, fine, hothers]) (A := fun _ => True) (fun _ _ _ => trivial)
      (fun _ _ _ _ _ => trivial) (fun _ => rfl) rfl ht ho hr
    cases hy

/-- Who needs a free slot behind a step finds one. -/
theorem Aiming.free_run (hI : Aiming m₀ s) (h : (Hal.idle m₀).Reaches fine entryPoints ok s)
    (ho : ok s t e) (hkept : AimKept m₀ s t e) (hr : s.Runs fine t e s') {idx : ℤ}
    (hu : needsFrom s' u = some idx) : freeFrom s'.mem.tz.finger idx := by
  obtain ⟨request, hrole, hneeds⟩ := needsFrom_eq_some.mp hu
  obtain ⟨c, hc, hrequest⟩ := Option.bind_eq_some_iff.mp hrole
  obtain hentry | hborn := (hr.entry u c).mp hc
  · have hbind : (s.entry u).bind aimRole = some request := by rw [hentry]; exact hrequest
    by_cases hut : u = t
    · subst hut
      rw [aimOf_run hr] at hneeds
      exact Aim.needs_run (Aim.moves (legal_of_runs h ho hr hbind)) hr
        (fun idx hidx => hI.free u idx (needsFrom_eq_some.mpr ⟨request, hbind, hidx⟩)) hneeds
    · rw [hr.own, if_neg hut] at hneeds
      have hold := needsFrom_eq_some.mpr ⟨request, hbind, hneeds⟩
      exact (behind_of_runs hr).1 ▸ hkept.free u hut idx hold (hI.free u idx hold)
  · obtain ⟨v, rfl⟩ := born_worker hborn
    obtain rfl : v = .vcsEnroll := by cases v <;> first | rfl | cases hrequest
    obtain rfl : false = request := Option.some.inj hrequest
    obtain ⟨rfl, hcreator⟩ := needs_of_born h ho hr hborn
    have hnone := hr.fresh u _ hborn
    have hut : u ≠ t := by
      rintro rfl
      exact hr.mem_pool hnone
    rw [hr.own, if_neg hut, h.own_eq_nil rfl hnone] at hneeds
    obtain rfl : (1 : ℤ) = idx := Option.some.inj hneeds
    rw [(effect_of_runs hr).finger]
    exact hI.free t 1 hcreator

/-- A worker's stage says what it says behind a step. -/
theorem Aiming.worker_run (hI : Aiming m₀ s) (h : (Hal.idle m₀).Reaches fine entryPoints ok s)
    (ho : ok s t e) (hkept : AimKept m₀ s t e) (hr : s.Runs fine t e s')
    (hw : workerAim s' w = some x) : x.Fits (groupFor m₀ w s'.log) s'.mem := by
  obtain ⟨hentry, rfl⟩ := workerAim_eq_some.mp hw
  obtain hold | hborn := (hr.entry w _).mp hentry
  · have hpool : s.pool w ≠ none := by
      intro hnone
      simp [State.entry, hnone] at hold
    rw [hr.log, groupFor_cons fun c hb => hpool (hr.fresh w c hb)]
    have haim : workerAim s w = some (aimOf false (s.own w)) := workerAim_eq_some.mpr ⟨hold, rfl⟩
    have hfits := hI.worker w _ haim
    by_cases hwt : w = t
    · subst hwt
      have hbind : (s.entry w).bind aimRole = some false := by rw [hold]; rfl
      rw [aimOf_run hr]
      refine hfits.own (Aim.moves (legal_of_runs h ho hr hbind)) hr (fun idx hidx => ?_)
        (hkept.mirrored hold)
      exact hI.free w idx (needsFrom_eq_some.mpr ⟨false, hbind, by rw [hidx]; rfl⟩)
    · rw [hr.own, if_neg hwt]
      obtain ⟨hslots, hgroup⟩ := behind_of_runs hr
      refine hfits.other hr (fun idx hidx hfree => ?_) (fun hbefore => ?_)
        fun idx gid hidx hgid => ?_
      · exact hslots ▸ hkept.slot w hwt idx (hidx ▸ haim) hfree
      · exact hgroup ▸ hkept.group w hwt _ haim hbefore
      · exact hkept.row w hwt _ idx haim hidx gid hgid
  · obtain ⟨rfl, -⟩ := needs_of_born h ho hr hborn
    have hnone := hr.fresh w _ hborn
    have hwt : w ≠ t := by
      rintro rfl
      exact hr.mem_pool hnone
    rw [hr.own, if_neg hwt, h.own_eq_nil rfl hnone, hr.log, groupFor, if_pos rfl, groupAfter_log h]
    exact ⟨by decide, by rw [(effect_of_runs hr).vdev]; rfl⟩

/-- The stages say so all along. -/
theorem aiming_of_reaches (h : (Hal.idle m₀).Reaches fine entryPoints (AimKept m₀) s) :
    Aiming m₀ s := by
  induction h with
  | refl =>
    refine ⟨fun u idx hu => ?_, fun w x hw => ?_⟩
    · simp [needsFrom, State.entry, Hal.idle] at hu
    · simp [workerAim, State.entry, Hal.idle] at hw
  | @arrive s t c h hc ht ih =>
    have hown : (s.add t c).own t = [] := h.own_eq_nil rfl ht
    refine ⟨fun u idx hu => ?_, fun w x hw => ?_⟩
    · obtain ⟨request, hrole, hneeds⟩ := needsFrom_eq_some.mp hu
      rw [State.entry_add] at hrole
      split at hrole
      · rename_i hut
        rw [hut, hown] at hneeds
        have hrequest : request = true := by
          cases c <;> cases hrole <;> first | rfl | cases hc
        rw [hrequest] at hneeds
        cases hneeds
      · exact ih.free u idx (needsFrom_eq_some.mpr ⟨request, hrole, hneeds⟩)
    · obtain ⟨hentry, hx⟩ := workerAim_eq_some.mp hw
      rw [State.entry_add] at hentry
      split at hentry
      · cases Option.some.inj hentry
        cases hc
      · exact ih.worker w x (workerAim_eq_some.mpr ⟨hentry, hx⟩)
  | run h ho hr ih =>
    exact ⟨fun _ _ hu => ih.free_run h ho ho hr hu, fun _ _ hw => ih.worker_run h ho ho hr hw⟩

/-- A step of a worker writes what its stage says. -/
theorem Aim.Fits.writes (h : x.Fits (groupFor m₀ w s.log) s.mem) (hm : Moves e x y)
    (hr : s.Runs fine w e s') : WritesWhereAimed m₀ s s' w := by
  have hunchanged : s'.mem.tz.finger = s.mem.tz.finger → s'.mem.db = s.mem.db →
      WritesWhereAimed m₀ s s' w :=
    fun hfinger hdb => ⟨fun idx hne => absurd (congrFun hfinger idx) hne,
      fun gid hne => absurd (rows_of_db hdb) hne⟩
  have hfills : ∀ idx, x = aimed idx → s'.mem.db = s.mem.db →
      (∀ k, k ≠ idx → s'.mem.tz.finger k = s.mem.tz.finger k) → WritesWhereAimed m₀ s s' w := by
    rintro idx rfl hdb hothers
    refine ⟨fun k hne => ?_, fun gid hne => absurd (rows_of_db hdb) hne⟩
    obtain rfl : k = idx := by
      by_contra hk
      exact hne (hothers k hk)
    exact ⟨h.1.1, h.1.2.1, h.2.1⟩
  cases hm with
  | reads j exist =>
    obtain ⟨hfinger, hdb, -⟩ := mem_of_quiet hr rfl
    exact hunchanged hfinger hdb
  | data j d =>
    have heff := effect_of_runs hr
    exact hfills j rfl heff.db fun k hk => by rw [heff.finger]; exact Function.update_of_ne hk ..
  | payload j d =>
    have heff := effect_of_runs hr
    exact hfills j rfl heff.db fun k hk => by rw [heff.finger]; exact Function.update_of_ne hk ..
  | fills j =>
    have heff := effect_of_runs hr
    exact hfills j rfl heff.db fun k hk => by rw [heff.finger]; exact Function.update_of_ne hk ..
  | learns j gid =>
    obtain ⟨hfinger, hdb, -⟩ := mem_of_quiet hr rfl
    exact hunchanged hfinger hdb
  | inserts j gid boundData boundPayload r =>
    have heff := effect_of_runs hr
    obtain ⟨hnew, hgroup⟩ := h
    refine ⟨fun idx hne => absurd (congrFun heff.finger idx) hne, fun g hne => ?_⟩
    have hdb := heff.db
    simp only [dbAfter] at hdb
    split at hdb
    · obtain rfl : g = gid := by
        by_contra hg
        exact hne ((rows_of_db hdb).trans (rows_setTable_of_ne hg _))
      exact ⟨hgroup, _, hnew.1, hnew.2.1, (rows_of_db hdb).trans (rows_setTable ..), hnew.2.2⟩
    · exact absurd (rows_of_db hdb) hne
  | creates x v r =>
    have heff := effect_of_runs hr
    exact hunchanged heff.finger heff.db
  | quiet hq =>
    obtain ⟨hfinger, hdb, -⟩ := mem_of_quiet hr hq
    exact hunchanged hfinger hdb

/-- **The target.** As long as the other threads leave a free slot to those who need one, and leave
alone what a worker has found, its row and its group, and a slot that is found free has no row, an
enrollment worker writes nothing but a free slot of the device and a new row of the group that was
active when its request was accepted. -/
theorem writesWhereAimed (h : (Hal.idle m₀).Reaches fine entryPoints (AimKept m₀) s)
    (hw : s.entry w = some .vcsEnroll) (hr : s.Runs fine w e s') : WritesWhereAimed m₀ s s' w := by
  have hfits := (aiming_of_reaches h).worker w _ (workerAim_eq_some.mpr ⟨hw, rfl⟩)
  have hbind : (s.entry w).bind aimRole = some false := by rw [hw]; rfl
  have hlegal := legal_of_runs (h.mono fun _ _ _ _ => trivial) trivial hr hbind
  exact hfits.writes (Aim.moves hlegal) hr

end runs

/-! ## Two runs -/

/-- A row of a whole template. -/
def wholeRow (fid : ℤ) : Row where
  id := fid
  data := List.replicate fingerDataMaxLength 1
  payload := List.replicate payloadMaxLength 1

/-- A device that has issued challenge 7, with finger 2 in the active group 0 and finger 1 in
group 1. -/
def twoGroups : Mem :=
  { issuedDevice with
    tz := { issuedDevice.tz with
      finger := Function.update (fun _ => .zero) 2 { Finger.zero with exist := true } }
    db := ⟨fun gid =>
      if gid = 0 then some [wholeRow 2] else if gid = 1 then some [wholeRow 1] else none⟩ }

/-- Thread 1 requests an enrollment, and worker 2 finds slot 1. -/
def requestSlot : List (Label hal) :=
  .arrive 1 (.fingerprintEnroll (some (tokenOfUser 1)) 0) :: ticks 1 26 ++ touch 1 2 ++
    ticks 1 1 ++ ticks 2 3

/-- The worker takes the one image it needs. -/
def takeImage : List (Label hal) :=
  answer 2 (.good 0) ++ answer 2 (.good 0) ++ ticks 2 7 ++ answer 2 (.good 0) ++ ticks 2 2 ++
    answer 2 .lost ++ ticks 2 18 ++ .arrive 3 .sensorProcessSignal :: ticks 3 13 ++ touch 3 2 ++
    ticks 3 1 ++ ticks 2 40 ++ answer 2 (.good 2) ++ ticks 2 2 ++ answer 2 (.good 0) ++
    ticks 2 1 ++ answer 2 (.good 1) ++ ticks 2 7

/-- It finishes the template, fills the slot and gets as far as to insert the row. -/
def bindRow : List (Label hal) :=
  answer 2 (.good 0) ++ ticks 2 1 ++ answer 2 (.good 0) ++ answer 2 (.good 0) ++ ticks 2 7

/-- Thread 4 sets the group, of which there is one finger. -/
def setGroup (gid : UInt32) : List (Label hal) :=
  .arrive 4 (.fingerprintSetActiveGroup gid) :: ticks 4 6 ++ .run 4 [.num 1] :: ticks 4 8 ++
    .run 4 [.num 100] :: ticks 4 5 ++ .run 4 [.num 101] :: ticks 4 1

/-- `freeFrom` as it is executed. -/
def hasFree (finger : ℤ → Finger) (idx : ℤ) : Bool :=
  (List.range maxNumFingers).any fun j => decide (idx ≤ j + 1) && !(finger (j + 1)).exist

/-- `AimKept` for the first six threads, as it is executed. -/
def keepsAim (s : Hal) (t : Tid) (e : HalEvent) : Bool :=
  match e with
  | .op (.load (.fingerExist idx)) exist =>
    exist || (s.mem.rows s.mem.vdev.activeGid).all fun row => row.id != idx
  | .op (.store (.fingerExist idx) _) _ =>
    (List.range 6).all fun w => w == t || (needsFrom s w).all (hasFree (slotsBehind s e)) &&
      (workerAim s w).all fun x => x != .aimed idx
  | .op (.store (.finger _) x) _ => !x.exist
  | .op (.store .activeGid gid) _ => gid == s.mem.vdev.activeGid
  | .op .clearDevice _ | .op (.sqlInsert _ _ _ _) _ => false
  | _ => true

/-- `freeFrom` from its executable form. -/
theorem freeFrom_of_hasFree {finger : ℤ → Finger} {idx : ℤ} (h : hasFree finger idx = true) :
    freeFrom finger idx := by
  obtain ⟨j, hj, hfree⟩ := List.any_eq_true.mp h
  obtain ⟨hle, hexist⟩ := by simpa using hfree
  exact ⟨j + 1, hle, by have := List.mem_range.mp hj; omega, hexist⟩

section executable

variable {m₀ : Mem} {s : Hal} {t : Tid} {e : HalEvent}

/-- A step that fills no slot, sets no other group and inserts no row. -/
theorem aimKept_of_harmless
    (hmirrored : ∀ idx, e = .op (.load (.fingerExist idx)) false →
      ∀ row ∈ s.mem.rows s.mem.vdev.activeGid, row.id ≠ idx)
    (hslots : ∀ idx, (s.mem.tz.finger idx).exist = false → (slotsBehind s e idx).exist = false)
    (hgroup : groupBehind s e = s.mem.vdev.activeGid)
    (hrow : ∀ gid idx boundData boundPayload,
      e ≠ .op (.sqlInsert gid idx boundData boundPayload) sqliteDone) : AimKept m₀ s t e where
  mirrored _ := hmirrored
  free _ _ _ _ h := by
    obtain ⟨j, hle, hlt, hj⟩ := h
    exact ⟨j, hle, hlt, hslots j hj⟩
  slot _ _ idx _ h := hslots idx h
  group _ _ _ _ _ := hgroup
  row _ _ _ idx _ _ gid _ := hrow gid idx

/-- A step that fills a slot which nobody has found, and leaves one to those who need one. -/
theorem aimKept_of_fills {idx : ℤ} {x : Bool} {r : Unit}
    (hpool : ∀ u, decide (u < 6) = false → s.pool u = none)
    (h : keepsAim s t (.op (.store (.fingerExist idx) x) r) = true) :
    AimKept m₀ s t (.op (.store (.fingerExist idx) x) r) := by
  have hkept : ∀ u ≠ t, ∀ c, s.entry u = some c →
      (needsFrom s u).all (hasFree (slotsBehind s (.op (.store (.fingerExist idx) x) r))) = true ∧
        (workerAim s u).all (fun x => x != .aimed idx) = true := by
    intro u hut c hc
    have hu : u < 6 := by
      by_contra hge
      simp [State.entry, hpool u (by simpa using hge)] at hc
    have hall := List.all_eq_true.mp h u (List.mem_range.mpr hu)
    simpa [hut] using hall
  refine ⟨by simp, fun u hut n hu _ => ?_, fun w hwt n hx hfree => ?_, fun _ _ _ _ _ => rfl,
    by simp⟩
  · obtain ⟨request, hrole, -⟩ := needsFrom_eq_some.mp hu
    obtain ⟨c, hc, -⟩ := Option.bind_eq_some_iff.mp hrole
    have hall := (hkept u hut c hc).1
    rw [hu] at hall
    exact freeFrom_of_hasFree hall
  · have hall := (hkept w hwt _ (workerAim_eq_some.mp hx).1).2
    rw [hx] at hall
    have hne : n ≠ idx := by
      rintro rfl
      simp at hall
    rwa [slotsBehind, fingerAfter, Function.update_of_ne hne]

/-- `AimKept` from its executable form. -/
theorem aimKept_of_keepsAim (hpool : ∀ u, decide (u < 6) = false → s.pool u = none)
    (h : keepsAim s t e = true) : AimKept m₀ s t e := by
  have hslot : ∀ {j : ℤ} {f : Finger}, ((s.mem.tz.finger j).exist = false → f.exist = false) →
      ∀ idx, (s.mem.tz.finger idx).exist = false →
        (Function.update s.mem.tz.finger j f idx).exist = false := by
    intro j f hf idx hidx
    by_cases hij : idx = j
    · subst hij
      simpa using hf hidx
    · rwa [Function.update_of_ne hij]
  cases e with
  | enter c | done c r =>
    exact aimKept_of_harmless (by simp) (fun _ hfree => hfree) rfl (by simp)
  | op o r =>
    cases o with
    | load v =>
      refine aimKept_of_harmless ?_ (fun _ hfree => hfree) rfl (by simp)
      rintro idx he
      cases he
      simpa [keepsAim] using h
    | store v x =>
      cases v with
      | fingerExist idx => exact aimKept_of_fills hpool h
      | finger idx =>
        refine aimKept_of_harmless (by simp) (hslot fun _ => ?_) rfl (by simp)
        simpa [keepsAim] using h
      | fingerData idx => exact aimKept_of_harmless (by simp) (hslot id) rfl (by simp)
      | fingerPayload idx => exact aimKept_of_harmless (by simp) (hslot id) rfl (by simp)
      | activeGid =>
        exact aimKept_of_harmless (by simp) (fun _ hfree => hfree) (eq_of_beq h) (by simp)
      | _ => exact aimKept_of_harmless (by simp) (fun _ hfree => hfree) rfl (by simp)
    | copyData idx blob => exact aimKept_of_harmless (by simp) (hslot id) rfl (by simp)
    | copyPayload idx blob => exact aimKept_of_harmless (by simp) (hslot id) rfl (by simp)
    | clearTz => exact aimKept_of_harmless (by simp) (fun _ _ => rfl) rfl (by simp)
    | clearDevice | sqlInsert => cases h
    | _ => exact aimKept_of_harmless (by simp) (fun _ hfree => hfree) rfl (by simp)

end executable

set_option maxRecDepth 4000 in
/-- The active group is loaded anew while the worker takes its image; then it inserts the row of
finger 1, behind that of finger 2. -/
theorem writesWhereAimed_reload : ∃ s s' : Hal, s.fin 4 = true ∧
    (s.mem.rows 0).map Row.id = [2] ∧ (s'.mem.rows 0).map Row.id = [2, 1] ∧
      WritesWhereAimed twoGroups s s' 2 := by
  obtain ⟨s, hs, s', hs', hentry, hset, hbefore, hrows⟩ : ∃ s,
      (Hal.idle twoGroups).exec fine entryPoints
        (fun s t e => keepsAim s t e && (hal.born e).all fun p => decide (p.1 < 6))
        (requestSlot ++ setGroup 0 ++ takeImage ++ bindRow) = some s ∧
      ∃ s', s.step fine entryPoints (.run 2 [.num 101]) = some s' ∧
        s.entry 2 = some .vcsEnroll ∧ s.fin 4 = true ∧ (s.mem.rows 0).map Row.id = [2] ∧
        (s'.mem.rows 0).map Row.id = [2, 1] := ⟨_, rfl, _, rfl, rfl, rfl, rfl, rfl⟩
  have hreach : (Hal.idle twoGroups).Reaches fine entryPoints (AimKept twoGroups) s := by
    refine State.Reaches.refl.exec_of (fun t => decide (t < 6)) (fun s t e hpool ha => ?_)
      (fun s t e u c ha hb => ?_) rfl (fun _ _ => rfl) hs
    · exact aimKept_of_keepsAim hpool (Bool.and_eq_true_iff.mp ha).1
    · have hborn := (Bool.and_eq_true_iff.mp ha).2
      simpa [hb] using hborn
  obtain ⟨e, hr⟩ := State.run_inv hs'
  exact ⟨s, s', hset, hbefore, hrows, writesWhereAimed hreach hentry hr⟩

set_option maxRecDepth 4000 in
/-- **A foreign row.** Group 1 is set while the worker of an enrollment for group 0 takes its image:
it inserts a second row for finger 1 into the table of group 1. -/
theorem foreign_row : ∃ s s' : Hal, ∃ e,
    (Hal.idle twoGroups).Reaches fine entryPoints (fun _ _ _ => True) s ∧
      s.entry 2 = some .vcsEnroll ∧ groupFor twoGroups 2 s.log = some 0 ∧ s.Runs fine 2 e s' ∧
      ((s'.mem.rows 1).map Row.id) = [1, 1] ∧ ¬ WritesWhereAimed twoGroups s s' 2 := by
  obtain ⟨s, hs, s', hs', hentry, hgroup, hbefore, hrows⟩ : ∃ s,
      (Hal.idle twoGroups).exec fine entryPoints (fun _ _ _ => true)
        (requestSlot ++ takeImage ++ setGroup 1 ++ bindRow) = some s ∧
      ∃ s', s.step fine entryPoints (.run 2 [.num 101]) = some s' ∧
        s.entry 2 = some .vcsEnroll ∧ groupFor twoGroups 2 s.log = some 0 ∧
        (s.mem.rows 1).map Row.id = [1] ∧ (s'.mem.rows 1).map Row.id = [1, 1] :=
    ⟨_, rfl, _, rfl, rfl, rfl, rfl, rfl⟩
  obtain ⟨e, hr⟩ := State.run_inv hs'
  refine ⟨s, s', e, State.Reaches.refl.exec (fun _ _ _ _ => trivial) hs, hentry, hgroup, hr, hrows,
    fun h => ?_⟩
  have hne : s'.mem.rows 1 ≠ s.mem.rows 1 := by
    intro heq
    rw [heq, hbefore] at hrows
    cases hrows
  cases hgroup.symm.trans (h.row 1 hne).1

end KlteCommon.Analysis

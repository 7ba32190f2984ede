import KlteCommon.Analysis.Identity
import KlteCommon.Analysis.Soundness
import KlteCommon.Fingerprint.Owners

/-!
# The authenticator id of a token

A token that reports a finger is to carry the hash of the database file as it is then. What it
carries is `vdev->authenticator_id`, which only `fingerprint_get_auth_id` computes.

`Hashed` is what one thread has read of the file and of the id; a thread stores the hash of what it
has read, and reports the id it has read (`hashedProtocol_valid`). So the id in memory is the
hash of the contents that `fingerprint_get_auth_id` read last (`cached_of_reaches`), a
report carries the hash of the contents behind the id its thread found (`loaded_of_reaches`), and it
is current when the file still has these contents (`idCurrent`). A finger that is
removed meanwhile changes the file and not the id (`stale_id`).
-/

set_option autoImplicit false

namespace KlteCommon.Analysis

open KlteCommon.Computation KlteCommon.Fingerprint

/-! ## What is observed -/

/-- The contents of the database file when a thread with these events read it last; `some none` when
it could not be opened. -/
def fileRead : List HalEvent → Option (Option (List UInt8))
  | [] => none
  | .op .readDbFile r :: _ => some r
  | _ :: es => fileRead es

/-- The authenticator id that a thread with these events read last. -/
def idRead : List HalEvent → Option UInt64
  | [] => none
  | .op (.load .authenticatorId) r :: _ => some r
  | _ :: es => idRead es

/-- The contents that the device's authenticator id was computed from, `none` if it was not computed
since the device was opened. -/
def cachedFile : HalLog → Option (Option (List UInt8))
  | [] => none
  | (t, .op (.store .authenticatorId _) _) :: log => fileRead (eventsOf t log)
  | (_, .op .clearDevice _) :: _ => none
  | _ :: log => cachedFile log

/-- The contents that the id was computed from that thread `t` read last. -/
def tokenFile (t : Tid) : HalLog → Option (Option (List UInt8))
  | [] => none
  | (u, .op (.load .authenticatorId) _) :: log => if u = t then cachedFile log else tokenFile t log
  | _ :: log => tokenFile t log

/-- What `fingerprint_get_auth_id` would return for the present database file. -/
def presentId (m : Mem) : UInt64 := hashFile (some (m.dbFile m.db))

/-- A finger is reported with the present authenticator id only. -/
def IdCurrent (s : Hal) (e : HalEvent) : Prop :=
  ∀ fid gid hat r, e = .op (.notify (.authenticated fid gid hat)) r →
    hat.authenticatorId = presentId s.mem

/-- The condition on a step: when a finger is reported, the file has the contents from which the id
was computed that the thread has read. -/
def fileUnchanged (s : Hal) (t : Tid) (e : HalEvent) : Prop :=
  ∀ fid gid hat r, e = .op (.notify (.authenticated fid gid hat)) r →
    tokenFile t s.log = some (some (s.mem.dbFile s.mem.db))

/-! ## One thread -/

/-- What a thread has read last of the file and of the id. -/
structure Hashed where
  file : Option (Option (List UInt8))
  id : Option UInt64

/-- What a thread has read after these events. -/
def Hashed.of (es : List HalEvent) : Hashed := ⟨fileRead es, idRead es⟩

/-- One event: what is stored is the hash of what was read, what is reported the id that was
read. -/
def Hashed.next (x : Hashed) : HalEvent → Option Hashed
  | .op .readDbFile r => some { x with file := some r }
  | .op (.load .authenticatorId) r => some { x with id := some r }
  | .op (.store .authenticatorId v) _ => if x.file.map hashFile = some v then some x else none
  | .op (.notify (.authenticated _ _ hat)) _ =>
    if x.id = some hat.authenticatorId then some x else none
  | .op _ _ | .enter _ => some x
  | .done _ _ => none

/-- What is stored. -/
theorem Hashed.next_store {x y : Hashed} {v : UInt64} {r : Unit}
    (h : x.next (.op (.store .authenticatorId v) r) = some y) : x.file.map hashFile = some v := by
  by_contra hne
  simp [Hashed.next, hne] at h

/-- What is reported. -/
theorem Hashed.next_report {x y : Hashed} {fid : ℤ} {gid : UInt32} {hat : HwAuthToken} {r : Unit}
    (h : x.next (.op (.notify (.authenticated fid gid hat)) r) = some y) :
    x.id = some hat.authenticatorId := by
  by_contra hne
  simp [Hashed.next, hne] at h

/-- The protocol of every thread. -/
@[simps] def hashedProtocol : Protocol Resp Ret Hashed where
  assume _ _ := True
  next x e := x.next e
  pre _ _ := True
  post _ _ _ _ := True

section

variable (x y : Hashed) (c : Call) (r : Ret c) (e : HalEvent)

/-- A call may end in any stage. -/
@[simp ↓] theorem callRule_hashed (Q : Ret c → Hashed → Prop) :
    hashedProtocol.callRule fine c Q x ↔ ∀ r y, Q r y := by
  rw [Protocol.callRule_entered rfl trivial rfl]
  simp

end

section bodies

attribute [local simp ↓] load store op call send ionSbuffer sameIonSbuffer

/-- **One thread.** -/
theorem hashedProtocol_valid : hashedProtocol.Valid fine body := by
  intro c _ x _
  by_cases hspecial : c = .fingerprintGetAuthId ∨ ∃ fid, c = .sendAuthenticatedNotice fid
  · obtain rfl | ⟨fid, rfl⟩ := hspecial
    · simp [body, fingerprintGetAuthId, Hashed.next]
    · simp [body, sendAuthenticatedNotice, Hashed.next]
  obtain ⟨hget, hsend⟩ := not_or.mp hspecial
  refine .keeps (T := fun _ => True) (fun _ _ => rfl) (fun o r x ho _ => ?_)
    (fun _ x _ _ => ⟨x, rfl, trivial, fun _ _ _ => trivial⟩) (fun _ _ _ => trivial)
    (body_within c) trivial
  have hnone : ∀ v, performs c (.store .authenticatorId v) = false := by
    intro v
    cases c <;> first | rfl | exact absurd rfl hget
  have hquiet : ∀ fid gid hat, performs c (.notify (.authenticated fid gid hat)) = false := by
    intro fid gid hat
    cases c <;> first | rfl | exact absurd ⟨_, rfl⟩ hsend
  suffices hnext : ∃ y, x.next (.op o r) = some y by
    obtain ⟨y, hy⟩ := hnext
    exact ⟨y, hy, trivial⟩
  cases o with
  | load v => cases v <;> exact ⟨_, rfl⟩
  | store v a =>
    cases v with
    | authenticatorId => cases (hnone a).symm.trans ho
    | _ => exact ⟨_, rfl⟩
  | notify msg =>
    cases msg with
    | authenticated fid gid hat => cases (hquiet fid gid hat).symm.trans ho
    | _ => exact ⟨_, rfl⟩
  | _ => exact ⟨_, rfl⟩

end bodies

/-- The stage is what the events say. -/
theorem hashed_of_stage {es : List HalEvent} {y : Hashed}
    (h : hashedProtocol.stage ⟨none, none⟩ es = some y) : y = .of es := by
  induction es generalizing y with
  | nil =>
    cases h
    rfl
  | cons e es ih =>
    obtain ⟨x, hx, hy⟩ := Option.bind_eq_some_iff.mp h
    obtain rfl := ih hx
    simp only [hashedProtocol_next] at hy
    unfold Hashed.next at hy
    split at hy
    · cases hy; rfl
    · cases hy; rfl
    · split at hy <;> cases hy; rfl
    · split at hy <;> cases hy; rfl
    · rename_i o r hfile hload hstore hnotify
      cases hy
      cases o with
      | readDbFile => exact absurd HEq.rfl (hfile r rfl)
      | load v => cases v <;> first | rfl | exact absurd HEq.rfl (hload r rfl)
      | _ => rfl
    · cases hy; rfl
    · cases hy

/-! ## Every run -/

section runs

variable {m : Mem} {arrives : Call → Bool} {ok : Hal → Tid → HalEvent → Prop} {s s' : Hal} {t : Tid}
  {e : HalEvent}

/-- A step is one that what its thread has read allows. -/
theorem hashed_next (h : (Hal.idle m).Reaches fine arrives ok s) (ho : ok s t e)
    (hr : s.Runs fine t e s') : ∃ y, (Hashed.of (eventsOf t s.log)).next e = some y := by
  obtain ⟨⟨c, p⟩, -, -, hth, -⟩ := hr.moves
  have hentry : s.entry t = some c := by rw [State.entry, hth]; rfl
  obtain ⟨x, y, hx, hy⟩ := h.next_of_runs hashedProtocol_valid (Q := fun _ _ => True)
    (x := ⟨none, none⟩) (A := fun _ => True) (by simp) (fun _ _ _ => trivial)
    (fun _ _ _ _ _ => trivial) (fun _ => rfl) rfl hentry ho hr
  obtain rfl := hashed_of_stage hx
  exact ⟨y, hy⟩

/-- **The device's id** is the hash of what was read of the file for it. -/
theorem cached_of_reaches (h : (Hal.idle m).Reaches fine arrives ok s) :
    ∀ contents, cachedFile s.log = some contents →
      s.mem.vdev.authenticatorId = hashFile contents := by
  induction h with
  | refl => exact nofun
  | arrive _ _ _ ih => exact ih
  | @run s s' t e h ho hr ih =>
    intro contents hc
    rw [hr.log] at hc
    obtain ⟨y, hy⟩ := hashed_next h ho hr
    cases e with
    | op o r =>
      rw [(effect_of_runs hr).vdev]
      cases o with
      | store v a =>
        cases v with
        | authenticatorId =>
          have hread : fileRead (eventsOf t s.log) = some contents := hc
          have hstored := Hashed.next_store hy
          rw [Hashed.of, hread] at hstored
          exact (Option.some.inj hstored).symm
        | _ => exact ih contents hc
      | clearDevice => cases hc
      | _ => exact ih contents hc
    | enter c =>
      rw [mem_of_enters hr]
      exact ih contents hc
    | done c r => exact (not_done_of_fine hr).elim

/-- A thread that has read the id has read the hash of the contents behind it. -/
theorem loaded_of_reaches (h : (Hal.idle m).Reaches fine arrives ok s) (t : Tid) :
    ∀ contents, tokenFile t s.log = some contents →
      idRead (eventsOf t s.log) = some (hashFile contents) := by
  induction h with
  | refl => exact nofun
  | arrive _ _ _ ih => exact ih
  | @run s s' u e h ho hr ih =>
    intro contents hc
    rw [hr.log] at hc ⊢
    rw [eventsOf_cons]
    have hother : tokenFile t ((u, e) :: s.log) = tokenFile t s.log →
        (u = t → idRead (e :: eventsOf t s.log) = idRead (eventsOf t s.log)) →
        idRead (if u = t then e :: eventsOf t s.log else eventsOf t s.log) =
          some (hashFile contents) := by
      intro hfile hid
      rw [hfile] at hc
      split
      · rename_i hut
        exact (hid hut).trans (ih contents hc)
      · exact ih contents hc
    cases e with
    | op o r =>
      cases o with
      | load v =>
        cases v with
        | authenticatorId =>
          by_cases hut : u = t
          · have hcached : cachedFile s.log = some contents := (if_pos hut).symm.trans hc
            rw [if_pos hut, idRead, load_of_runs hr]
            exact congrArg some (cached_of_reaches h contents hcached)
          · exact hother (if_neg hut) fun h => absurd h hut
        | _ => exact hother rfl fun _ => rfl
      | _ => exact hother rfl fun _ => rfl
    | enter c => exact hother rfl fun _ => rfl
    | done c r => exact (not_done_of_fine hr).elim

/-- **A report whose file is unchanged is current.** In every run, whatever threads it has, in which
a finger is reported only while the file has the contents that the reported id was computed
from, every report carries the present id. -/
theorem idCurrent (h : (Hal.idle m).Reaches fine arrives fileUnchanged s)
    (ho : fileUnchanged s t e) (hr : s.Runs fine t e s') : IdCurrent s e := by
  rintro fid gid hat r rfl
  obtain ⟨y, hy⟩ := hashed_next h ho hr
  have hloaded := loaded_of_reaches h t _ (ho fid gid hat r rfl)
  exact Option.some.inj ((Hashed.next_report hy).symm.trans hloaded)

end runs

/-- A device that scans, with fingers 1 and 2 in a database file that lists the ids of its rows. -/
def listedFingers : Mem :=
  { knownFinger with
    db := ⟨fun gid => if gid = 0 then some [⟨1, [], []⟩, ⟨2, [], []⟩] else none⟩
    dbFile := fun db => ((db.tables 0).getD []).map fun row => UInt8.ofNat row.id.toNat }

/-- `fingerprint_get_auth_id` computes the id. -/
def computeId : List (Label hal) := .arrive 1 .fingerprintGetAuthId :: ticks 1 6

/-- The worker matches finger 1, up to its report. -/
def matchFinger : List (Label hal) :=
  .arrive 2 .vcsAuthenticate :: ticks 2 2 ++ answer 2 (.good 0) ++ ticks 2 7 ++
    answer 2 (.good 0) ++ ticks 2 2 ++ answer 2 .lost ++ ticks 2 18 ++
    .arrive 3 .sensorProcessSignal :: ticks 3 13 ++ touch 3 2 ++ ticks 3 1 ++ ticks 2 40 ++
    answer 2 (.good 2) ++ ticks 2 2 ++ answer 2 (.good 0) ++ ticks 2 14 ++ answer 2 (.good 0) ++
    ticks 2 3 ++ answer 2 (.good 0) ++ ticks 2 5 ++ answer 2 (.good 0) ++ ticks 2 21

/-- Nobody reports a finger. -/
def noReport (_ : Hal) (_ : Tid) (e : HalEvent) : Bool := !reportsFinger e

/-- Where nobody reports a finger the condition asks for nothing. -/
theorem fileUnchanged_of_noReport {s : Hal} {t : Tid} {e : HalEvent} (h : noReport s t e = true) :
    fileUnchanged s t e := by
  rintro fid gid hat r rfl
  cases h

/-- A report behind a schedule without one. -/
theorem report_after {ls : List (Label hal)} {s : Hal}
    (hs : (Hal.idle listedFingers).exec fine (fun _ => true) noReport ls = some s) {s' : Hal}
    (hs' : s.step fine (fun _ => true) (.run 2 [.tick]) = some s') {e : HalEvent}
    {log : HalLog} (hlog : s'.log = (2, e) :: log) :
    (Hal.idle listedFingers).Reaches fine (fun _ => true) fileUnchanged s ∧ s.Runs fine 2 e s' := by
  refine ⟨State.Reaches.refl.exec (fun _ _ _ => fileUnchanged_of_noReport) hs, ?_⟩
  obtain ⟨e', hr⟩ := State.run_inv hs'
  obtain ⟨rfl, -⟩ : e = e' ∧ log = s.log := by simpa using hlog.symm.trans hr.log
  exact hr

set_option maxRecDepth 2000 in
/-- The id was computed and the file has not changed. -/
theorem idCurrent_unchanged : ∃ s s' hat,
    s.Runs fine 2 (.op (.notify (.authenticated 1 0 hat)) ()) s' ∧
      IdCurrent s (.op (.notify (.authenticated 1 0 hat)) ()) := by
  obtain ⟨s, hs, s', hs', hat, log, hlog, hfile⟩ : ∃ s,
      (Hal.idle listedFingers).exec fine (fun _ => true) noReport (computeId ++ matchFinger) =
        some s ∧
      ∃ s', s.step fine (fun _ => true) (.run 2 [.tick]) = some s' ∧
        ∃ hat log, s'.log = (2, .op (.notify (.authenticated 1 0 hat)) ()) :: log ∧
          tokenFile 2 s.log = some (some (s.mem.dbFile s.mem.db)) :=
    ⟨_, rfl, _, rfl, _, _, rfl, rfl⟩
  obtain ⟨hreach, hr⟩ := report_after hs hs' hlog
  exact ⟨s, s', hat, hr, idCurrent hreach (fun _ _ _ _ _ => hfile) hr⟩

/-- Finger 2 is removed. -/
def removeSecond : List (Label hal) := .arrive 4 (.fingerprintRemove 2) :: ticks 4 11

/-- The ids of the two files differ. -/
theorem ids_differ : hashFile (some [1, 2]) ≠ hashFile (some [1]) := by decide +kernel

set_option maxRecDepth 2000 in
/-- **A stale id.** Finger 2 is removed after the id was computed; finger 1 is reported with the id of
the file that has both. -/
theorem stale_id : ∃ s s' hat,
    (Hal.idle listedFingers).Reaches fine (fun _ => true) (fun _ _ _ => True) s ∧
      s.Runs fine 2 (.op (.notify (.authenticated 1 0 hat)) ()) s' ∧
      ¬ IdCurrent s (.op (.notify (.authenticated 1 0 hat)) ()) := by
  obtain ⟨s, hs, s', hs', hat, log, hlog, hid, hpresent⟩ : ∃ s,
      (Hal.idle listedFingers).exec fine (fun _ => true) noReport
        (computeId ++ removeSecond ++ matchFinger) = some s ∧
      ∃ s', s.step fine (fun _ => true) (.run 2 [.tick]) = some s' ∧
        ∃ hat log, s'.log = (2, .op (.notify (.authenticated 1 0 hat)) ()) :: log ∧
          hat.authenticatorId = hashFile (some [1, 2]) ∧
          s.mem.dbFile s.mem.db = [1] :=
    ⟨_, rfl, _, rfl, _, _, rfl, rfl, rfl⟩
  obtain ⟨hreach, hr⟩ := report_after hs hs' hlog
  refine ⟨s, s', hat, hreach.mono (fun _ _ _ _ => trivial), hr, fun hcurrent => ids_differ ?_⟩
  have hnow := hcurrent 1 0 hat () rfl
  rwa [hid, presentId, hpresent] at hnow

end KlteCommon.Analysis

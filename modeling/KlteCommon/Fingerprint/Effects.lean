import KlteCommon.Fingerprint.Program

/-!
# What one operation does

Each part of the shared memory is written by a few operations only. `Effect` says for every part
a proof looks at what an operation makes of it, and `act_effect` that `act` does just that; `act`
is not unfolded elsewhere.
-/

set_option autoImplicit false

namespace KlteCommon.Fingerprint

open KlteCommon.Computation

/-- Who holds the mutexes after thread `t` did `o`. -/
def locksAfter (t : Tid) (locks : Mutex → Option Tid) : Op → Mutex → Option Tid
  | .lock mu | .condWake _ mu | .condTimedWake _ mu => Function.update locks mu (some t)
  | .unlock mu | .condBlock _ mu => Function.update locks mu none
  | _ => locks

/-- `tz.state` after `o`. -/
def stateAfter (old : WorkerState) : Op → WorkerState
  | .store .tzState x => x
  | .clearTz => .stateIdle
  | _ => old

/-- `tz.init` after `o`. -/
def initAfter (old : Bool) : Op → Bool
  | .store .tzInit x => x
  | .clearTz => false
  | _ => old

/-- `sensor.init` after `o`. -/
def sensorInitAfter (old : Bool) : Op → Bool
  | .store .sensorInit x => x
  | .clearSensor => false
  | _ => old

/-- The slots after `o`. -/
def fingerAfter (old : ℤ → Finger) : Op → ℤ → Finger
  | .store (.finger idx) x => Function.update old idx x
  | .store (.fingerExist idx) x => Function.update old idx { old idx with exist := x }
  | .store (.fingerData idx) x => Function.update old idx { old idx with data := x }
  | .store (.fingerPayload idx) x => Function.update old idx { old idx with payload := x }
  | .copyData idx blob =>
    Function.update old idx { old idx with data := overlay (old idx).data blob }
  | .copyPayload idx blob =>
    Function.update old idx { old idx with payload := overlay (old idx).payload blob }
  | .clearTz => fun _ => .zero
  | _ => old

/-- The row an insertion into slot `fid`'s row makes, by which of the blobs are bound. -/
def Mem.newRow (m : Mem) (fid : ℤ) (boundData boundPayload : Bool) : Row where
  id := fid
  data := if boundData then (m.tz.finger fid).data.toList else []
  payload := if boundPayload then (m.tz.finger fid).payload.toList else []

/-- Whether an auth session is open after `o`. -/
def sessionAfter (old : Bool) : Op → Bool
  | .store .authSessionOpend x => x
  | .clearTz => false
  | _ => old

/-- The auth token after `o`. -/
def authTokenAfter (old : Bytes authTokenLength) : Op → Bytes authTokenLength
  | .store .authToken x => x
  | .clearTz => Vector.replicate _ 0
  | _ => old

/-- The token of the auth session after `o`. -/
def authSessionTokenAfter (old : Bytes authSessionTokenLength) : Op → Bytes authSessionTokenLength
  | .store .authSessionToken x => x
  | .clearTz => Vector.replicate _ 0
  | _ => old

/-- `sensor.signal` after `o`. -/
def signalAfter (old : Bool) : Op → Bool
  | .store .sensorSignal x => x
  | .clearSensor => false
  | _ => old

/-- The length of the calibration after `o`. -/
def calibrateLenAfter (old : CInt) : Op → CInt
  | .store .calibrateLen x => x
  | .clearTz => 0
  | _ => old

/-- The calibration after `o`. -/
def calibrateDataAfter (old : Bytes calibrateDataMaxLength) : Op → Bytes calibrateDataMaxLength
  | .store .calibrateData x => x
  | .clearTz => Vector.replicate _ 0
  | _ => old

/-- The database after `o`, which may have failed. -/
def dbAfter (m : Mem) : (o : Op) → Resp o → Database
  | .sqlCreate gid, r => if r = sqliteOk then (m.setTable gid []).db else m.db
  | .sqlDelete gid fid, r =>
    if r = sqliteOk then (m.setTable gid ((m.rows gid).filter fun row => row.id != fid)).db
    else m.db
  | .sqlInsert gid fid boundData boundPayload, r =>
    if r = sqliteDone then
      (m.setTable gid (m.rows gid ++ [m.newRow fid boundData boundPayload])).db
    else m.db
  | _, _ => m.db

/-- Samsung's database after `o`, which may have failed. -/
def legacyAfter (old : Option LegacyDb) : (o : Op) → Resp o → Option LegacyDb
  | .legacyRemove, r => if r = 0 then none else old
  | _, _ => old

/-- The device after `o`. -/
def vdevAfter (old : Device) : Op → Device
  | .store .opId x => { old with opId := x }
  | .store .challenge x => { old with challenge := x }
  | .store .userId x => { old with userId := x }
  | .store .secureUserId x => { old with secureUserId := x }
  | .store .authenticatorId x => { old with authenticatorId := x }
  | .store .activeGid x => { old with activeGid := x }
  | .store .notify x => { old with notify := x }
  | .clearDevice => .zero
  | _ => old

/-- Whether an operation leaves the slots, the database and the active group alone and creates no
thread. -/
def Op.quiet : Op → Bool
  | .store (.finger _) _ | .store (.fingerExist _) _ | .store (.fingerData _) _ => false
  | .store (.fingerPayload _) _ | .copyData _ _ | .copyPayload _ _ | .clearTz => false
  | .sqlCreate _ | .sqlDelete _ _ | .sqlInsert _ _ _ _ => false
  | .store .activeGid _ | .clearDevice | .pthreadCreate _ => false
  | _ => true

/-- Whether a step does no more than that. -/
def quietEvent : HalEvent → Bool
  | .op o _ => o.quiet
  | _ => true

/-- What operation `o` of thread `t`, with response `r`, makes of each part of the memory. -/
structure Effect (t : Tid) (o : Op) (r : Resp o) (m m' : Mem) : Prop where
  locks : m'.locks = locksAfter t m.locks o
  state : m'.tz.state = stateAfter m.tz.state o
  init : m'.tz.init = initAfter m.tz.init o
  sensorInit : m'.sensor.init = sensorInitAfter m.sensor.init o
  finger : m'.tz.finger = fingerAfter m.tz.finger o
  db : m'.db = dbAfter m o r
  vdev : m'.vdev = vdevAfter m.vdev o
  legacy : m'.legacy = legacyAfter m.legacy o r

variable {fin : Tid → Bool} {t : Tid} {ch : Choice} {m m' : Mem}

/-- A write of a variable has the effects of a write. -/
theorem effect_store (v : Var) (x : v.Ty) : Effect t (.store v x) () m (m.set v x) := by
  cases v <;> exact ⟨rfl, rfl, rfl, rfl, rfl, rfl, rfl, rfl⟩

/-- `act` has the effects `Effect` lists. -/
theorem act_effect {o : Op} {r : Resp o} (h : act fin t o ch m = some (r, m')) :
    Effect t o r m m' := by
  unfold act at h
  split at h
  case h_2 =>
    obtain ⟨rfl, rfl⟩ := by simpa using h
    exact effect_store _ _
  all_goals
    try split at h
    all_goals try split at h
    all_goals first
      | cases h; done
      | obtain ⟨rfl, rfl⟩ := by simpa using h
        first
          | exact ⟨rfl, rfl, rfl, rfl, rfl, rfl, rfl, rfl⟩
          | exact ⟨rfl, rfl, rfl, rfl, rfl, by simp_all [dbAfter], rfl, rfl⟩
          | exact ⟨rfl, rfl, rfl, rfl, rfl, rfl, rfl, by simp_all [legacyAfter]⟩

/-- What an operation makes of the session with the app; what the bytes of a database file are
never changes. -/
structure SessionEffect (o : Op) (m m' : Mem) : Prop where
  opend : m'.tz.authSessionOpend = sessionAfter m.tz.authSessionOpend o
  token : m'.tz.authToken = authTokenAfter m.tz.authToken o
  sessionToken : m'.tz.authSessionToken = authSessionTokenAfter m.tz.authSessionToken o
  file : m'.dbFile = m.dbFile

/-- `act` has these effects, too. -/
theorem act_sessionEffect {o : Op} {r : Resp o} (h : act fin t o ch m = some (r, m')) :
    SessionEffect o m m' := by
  unfold act at h
  split at h
  case h_2 v x =>
    obtain ⟨rfl, rfl⟩ := by simpa using h
    cases v <;> exact ⟨rfl, rfl, rfl, rfl⟩
  all_goals
    try split at h
    all_goals try split at h
    all_goals first
      | cases h; done
      | obtain ⟨rfl, rfl⟩ := by simpa using h
        exact ⟨rfl, rfl, rfl, rfl⟩

/-- What an operation makes of what a capture uses. -/
structure CaptureEffect (o : Op) (m m' : Mem) : Prop where
  signal : m'.sensor.signal = signalAfter m.sensor.signal o
  calibrateLen : m'.tz.calibrateLen = calibrateLenAfter m.tz.calibrateLen o
  calibrateData : m'.tz.calibrateData = calibrateDataAfter m.tz.calibrateData o

/-- `act` has these effects, too. -/
theorem act_captureEffect {o : Op} {r : Resp o} (h : act fin t o ch m = some (r, m')) :
    CaptureEffect o m m' := by
  unfold act at h
  split at h
  case h_2 v x =>
    obtain ⟨rfl, rfl⟩ := by simpa using h
    cases v <;> exact ⟨rfl, rfl, rfl⟩
  all_goals
    try split at h
    all_goals try split at h
    all_goals first
      | cases h; done
      | obtain ⟨rfl, rfl⟩ := by simpa using h
        exact ⟨rfl, rfl, rfl⟩

/-- What operation `o` of thread `t` does to those who sleep on `c`: it leaves them alone, which a
signal does only if there are none, it puts `t` to sleep, or it wakes one. -/
def WaitersAfter (c : Cond) (t : Tid) (o : Op) (old new : List Tid) : Prop :=
  (new = old ∧ (o = .condSignal c → old = [])) ∨
    (∃ mu, o = .condBlock c mu ∧ new = t :: old) ∨
    ∃ u ∈ old, new = old.erase u ∧ (o = .condSignal c ∨ ∃ mu, o = .condTimedWake c mu)

/-- Other operations than these put nobody to sleep and wake nobody. -/
theorem act_waiters_same {o : Op} {r : Resp o} (hblock : ∀ c mu, o ≠ .condBlock c mu)
    (hsignal : ∀ c, o ≠ .condSignal c) (htimed : ∀ c mu, o ≠ .condTimedWake c mu)
    (h : act fin t o ch m = some (r, m')) : m'.waiters = m.waiters := by
  unfold act at h
  split at h
  case h_2 v x =>
    obtain ⟨rfl, rfl⟩ := by simpa using h
    cases v <;> rfl
  all_goals
    try split at h
    all_goals try split at h
    all_goals first
      | cases h; done
      | exact absurd rfl (hblock _ _)
      | exact absurd rfl (hsignal _)
      | exact absurd rfl (htimed _ _)
      | obtain ⟨rfl, rfl⟩ := by simpa using h
        rfl

/-- `act` does that. -/
theorem act_waiters {o : Op} {r : Resp o} (c : Cond) (h : act fin t o ch m = some (r, m')) :
    WaitersAfter c t o (m.waiters c) (m'.waiters c) := by
  cases o with
  | condBlock d mu =>
    obtain ⟨-, rfl⟩ := by simpa [act] using h
    by_cases hd : d = c
    · subst hd
      exact .inr (.inl ⟨mu, rfl, by simp [Mem.setWaiters]⟩)
    · exact .inl ⟨by simp [Mem.setWaiters, Mem.setLock, Ne.symm hd], by simp⟩
  | condSignal d =>
    have hcases : (m.waiters d = [] ∧ m' = m) ∨
        ∃ u ∈ m.waiters d, m' = m.setWaiters d ((m.waiters d).erase u) := by
      cases ch with
      | thread u =>
        obtain ⟨hu, hm⟩ := by simpa [act] using h
        exact .inr ⟨u, hu, hm.symm⟩
      | _ =>
        obtain ⟨hnone, hm⟩ := by simpa [act] using h
        exact .inl ⟨hnone, hm.symm⟩
    by_cases hd : d = c
    · subst hd
      obtain ⟨hnone, rfl⟩ | ⟨u, hu, rfl⟩ := hcases
      · exact .inl ⟨rfl, fun _ => hnone⟩
      · exact .inr (.inr ⟨u, hu, by simp [Mem.setWaiters], .inl rfl⟩)
    · refine .inl ⟨?_, by simp [hd]⟩
      obtain ⟨-, rfl⟩ | ⟨u, -, rfl⟩ := hcases
      · rfl
      · simp [Mem.setWaiters, Ne.symm hd]
  | condTimedWake d mu =>
    have hcases : m'.waiters = m.waiters ∨
        ∃ u ∈ m.waiters d, m'.waiters = Function.update m.waiters d ((m.waiters d).erase u) := by
      cases ch with
      | expire =>
        obtain ⟨⟨ht, -⟩, -, hm⟩ := by simpa [act] using h
        exact .inr ⟨t, ht, hm ▸ rfl⟩
      | _ =>
        obtain ⟨-, -, hm⟩ := by simpa [act] using h
        exact .inl (hm ▸ rfl)
    obtain hm | ⟨u, hu, hm⟩ := hcases
    · exact .inl ⟨congrFun hm c, by simp⟩
    · by_cases hd : d = c
      · subst hd
        exact .inr (.inr ⟨u, hu, by simp [hm], .inr ⟨mu, rfl⟩⟩)
      · exact .inl ⟨by simp [hm, Ne.symm hd], by simp⟩
  | _ => exact .inl ⟨congrFun (act_waiters_same (by simp) (by simp) (by simp) h) c, by simp⟩

/-- A thread that goes on behind a wait is not asleep any more. -/
theorem act_condWake {c : Cond} {mu : Mutex} {r : Unit}
    (h : act fin t (.condWake c mu) ch m = some (r, m')) : t ∉ m.waiters c :=
  (by simpa [act] using h : (_ ∧ _) ∧ _).1.1

/-- One operation of code that runs alone, and then `f`. -/
theorem does_act {o : Op} {α : Type} {f : Resp o → Code α} {a : α} {es : List HalEvent}
    (h : hal.Does fin t (op o >>= f) m es a m') : ∃ ch r m₁ es₁, act fin t o ch m = some (r, m₁) ∧
      hal.Does fin t (f r) m₁ es₁ a m' ∧ es = .op o r :: es₁ :=
  Machine.does_perform.mp h

/-- A quiet operation changes no slot. -/
theorem fingerAfter_of_quiet {o : Op} (ho : o.quiet = true) (old : ℤ → Finger) :
    fingerAfter old o = old := by
  unfold fingerAfter
  split <;> first | rfl | cases ho

/-- A quiet operation changes no row. -/
theorem dbAfter_of_quiet {o : Op} (ho : o.quiet = true) (r : Resp o) (m : Mem) :
    dbAfter m o r = m.db := by
  unfold dbAfter
  split <;> first | rfl | cases ho

/-- A quiet operation leaves the active group. -/
theorem activeGid_of_quiet {o : Op} (ho : o.quiet = true) (old : Device) :
    (vdevAfter old o).activeGid = old.activeGid := by
  unfold vdevAfter
  split <;> first | rfl | cases ho

/-! ## The tables -/

/-- The database alone says what is recorded for a group. -/
theorem rows_of_db {gid : UInt32} {m₁ : Mem} (h : m'.db = m₁.db) : m'.rows gid = m₁.rows gid := by
  unfold Mem.rows
  rw [h]

/-- A table that was set is the one that is read. -/
@[simp] theorem rows_setTable (m : Mem) (gid : UInt32) (rows : Table) :
    (m.setTable gid rows).rows gid = rows := by
  simp [Mem.rows, Mem.setTable]

/-- Different groups have different tables. -/
theorem gidNumber_inj {g gid : UInt32} (h : gidNumber g = gidNumber gid) : g = gid :=
  UInt32.toBitVec_inj.mp (BitVec.eq_of_toInt_eq h)

/-- The table of another group. -/
theorem rows_setTable_of_ne {g gid : UInt32} (h : g ≠ gid) (rows : Table) :
    (m.setTable gid rows).rows g = m.rows g := by
  have hne : gidNumber g ≠ gidNumber gid := fun hg => h (gidNumber_inj hg)
  simp [Mem.rows, Mem.setTable, hne]

/-! ## Steps of the system -/

section runs

variable {atomic : Call → Bool} {s s' : Hal}

/-- The effect of an operation that a thread performs. -/
theorem effect_of_runs {o : Op} {r : Resp o} (h : s.Runs atomic t (.op o r) s') :
    Effect t o r s.mem s'.mem := by
  obtain ⟨th, p, m, -, -, ⟨ch, hact⟩, rfl⟩ := h.moves
  exact act_effect hact

/-- A read returns what is in the memory. -/
theorem load_of_runs {v : Var} {r : v.Ty} (h : s.Runs atomic t (.op (.load v) r) s') :
    r = s.mem.get v := by
  obtain ⟨th, p, m, -, -, ⟨ch, hact⟩, rfl⟩ := h.moves
  obtain ⟨rfl, -⟩ := by simpa [act] using hact
  rfl

/-- Entering a procedure changes nothing. -/
theorem mem_of_enters {c : Call} (h : s.Runs atomic t (.enter c) s') : s'.mem = s.mem := by
  obtain ⟨th, p, m, -, -, hm, rfl⟩ := h.moves
  exact hm

/-- At the finest grain no call is one step. -/
theorem not_done_of_fine {c : Call} {r : Ret c} (h : s.Runs fine t (.done c r) s') : False := by
  obtain ⟨th, p, m, -, hnext, -⟩ := h.moves
  generalize hc : th.code = code at hnext
  cases hnext with
  | done _ _ _ hatomic => exact absurd hatomic (by simp [fine])

/-- Every read of `v` found what `now` says of the log before it. -/
def ReadsNow (v : Var) (now : List (Tid × HalEvent) → v.Ty) (log : List (Tid × HalEvent)) : Prop :=
  ∀ (t : Tid) (r : v.Ty) (earlier : List (Tid × HalEvent)),
    (t, .op (.load v) r) :: earlier <:+ log → r = now earlier

/-- A variable along the log: when `now` follows what the steps make of it, the memory holds what
`now` says of the log, and every read found what `now` says of the log before it. -/
theorem along_of_reaches {arrives : Call → Bool} {ok : Hal → Tid → HalEvent → Prop} {v : Var}
    (now : List (Tid × HalEvent) → v.Ty) (h₀ : m.get v = now [])
    (hop : ∀ fin t ch o r m m' log, act fin t o ch m = some (r, m') → m.get v = now log →
      m'.get v = now ((t, .op o r) :: log))
    (henter : ∀ t c log, now ((t, .enter c) :: log) = now log)
    (h : (Hal.idle m).Reaches fine arrives ok s) :
    s.mem.get v = now s.log ∧ ReadsNow v now s.log := by
  refine h.invariant (I := fun s : Hal => s.mem.get v = now s.log ∧ ReadsNow v now s.log) ⟨h₀, ?_⟩
    (fun _ _ _ hs _ _ => hs) ?_
  · intro t r earlier he
    simp [Hal.idle] at he
  · rintro s t e s' ⟨hmem, hreads⟩ - hr
    rw [hr.log]
    refine ⟨?_, fun u r earlier he => ?_⟩
    · obtain ⟨th, p, m', -, hnext, hacts, rfl⟩ := hr.moves
      cases e with
      | op o r =>
        obtain ⟨ch, hact⟩ := hacts
        exact hop _ _ _ _ _ _ _ _ hact hmem
      | enter c =>
        obtain rfl : m' = s.mem := hacts
        rw [henter, hmem]
      | done c r => exact (not_done_of_fine hr).elim
    · obtain he | he := List.suffix_cons_iff.mp he
      · cases he
        rw [load_of_runs hr]
        exact hmem
      · exact hreads u r earlier he

/-- A created thread is a worker. -/
theorem born_worker {e : HalEvent} {u : Tid} {c : Call} (h : hal.born e = some (u, c)) :
    ∃ w : Worker, c = w.call := by
  cases e with
  | op o r =>
    simp only [Machine.born] at h
    unfold spawns at h
    split at h
    · exact ⟨_, by simpa using (congrArg (·.map Prod.snd) h).symm⟩
    · cases h
  | _ => cases h

/-- It is born by its creation. -/
theorem creates_of_born {e : HalEvent} {u : Tid} {v : Worker}
    (h : hal.born e = some (u, v.call)) : e = .op (.pthreadCreate v) (.ok u) := by
  cases e with
  | op o r =>
    simp only [Machine.born] at h
    unfold spawns at h
    split at h
    · rename_i v' u'
      simp only [Option.some.injEq, Prod.mk.injEq] at h
      obtain ⟨rfl, hv⟩ := h
      cases v <;> cases v' <;> first | rfl | cases hv
    · cases h
  | _ => cases h

/-- `get_tz_state` in one step reads `tz.state`. -/
theorem acts_getTzState {r : WorkerState} (h : hal.Acts fin t (.done .getTzState r) m m') :
    r = m.tz.state ∧ m' = m := by
  obtain ⟨chs, es, hsolo⟩ := h
  obtain ⟨_, _, m₁, _, hlock, hrest, -⟩ := Machine.does_op.mp (Machine.does_of_solo hsolo)
  obtain ⟨_, state, m₂, _, hload, hrest, -⟩ := Machine.does_op.mp hrest
  obtain ⟨_, _, m₃, _, hunlock, hrest, -⟩ := Machine.does_op.mp hrest
  obtain ⟨-, rfl, rfl⟩ := Machine.does_ret.mp hrest
  obtain ⟨hfree, rfl⟩ := by simpa [act] using hlock
  obtain ⟨rfl, rfl⟩ := by simpa [act] using hload
  obtain rfl := by simpa [act] using hunlock
  refine ⟨rfl, ?_⟩
  simp [Mem.setLock, ← hfree]

/-- `set_tz_state` in one step writes `tz.state`. -/
theorem acts_setTzState {state : WorkerState} {r : Unit}
    (h : hal.Acts fin t (.done (.setTzState state) r) m m') : m' = m.set .tzState state := by
  obtain ⟨chs, es, hsolo⟩ := h
  obtain ⟨_, _, m₁, _, hlock, hrest, -⟩ := Machine.does_op.mp (Machine.does_of_solo hsolo)
  obtain ⟨_, _, m₂, _, hstore, hrest, -⟩ := Machine.does_op.mp hrest
  obtain ⟨_, _, m₃, _, hunlock, hrest, -⟩ := Machine.does_op.mp hrest
  obtain ⟨-, -, rfl⟩ := Machine.does_ret.mp hrest
  obtain ⟨hfree, rfl⟩ := by simpa [act] using hlock
  obtain rfl := by simpa [act] using hstore
  obtain rfl := by simpa [act] using hunlock
  simp [Mem.setLock, Mem.set, ← hfree]

/-- A quiet step changes no slot, no row and not the active group. -/
theorem mem_of_quiet {e : HalEvent} (h : s.Runs fine t e s') (hq : quietEvent e = true) :
    s'.mem.tz.finger = s.mem.tz.finger ∧ s'.mem.db = s.mem.db ∧
      s'.mem.vdev.activeGid = s.mem.vdev.activeGid := by
  cases e with
  | op o r =>
    have heff := effect_of_runs h
    refine ⟨heff.finger.trans (fingerAfter_of_quiet hq _), heff.db.trans (dbAfter_of_quiet hq r _),
      ?_⟩
    rw [heff.vdev, activeGid_of_quiet hq]
  | enter c => simp [mem_of_enters h]
  | done c r => exact (not_done_of_fine h).elim

end runs

end KlteCommon.Fingerprint

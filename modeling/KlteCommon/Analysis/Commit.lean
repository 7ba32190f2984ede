import KlteCommon.Analysis.Enrollment

/-!
# What an enrollment commits

At the end of `vcs_enroll` the replies to `vfmEnrollFinish` and to the second `vfmPayloadBind`
become the `data` and the `payload` of the slot and of a new row. Whether the commands failed is
only logged.

The ladder: each stage of `enrollProtocol` says what the slots and the tables are
(`Enrolling.slots`, `Enrolling.tables`) and what the last replies were, and every step keeps that
(`Tied.worker`); so a finished enrollment that was not cancelled has committed on success, and
otherwise nothing, just when the replies it committed were good ones
(`commitsSuccess_iff`).
-/

set_option autoImplicit false

namespace KlteCommon.Analysis

open KlteCommon.Computation KlteCommon.Fingerprint

/-! ## What is observed -/

/-- The reply to a command, if the step is one. -/
def replyTo (cmd : CmdId) : HalEvent → Option Reply
  | .op (.qseecomSendCmd req) r => if req.cmd = cmd then some r else none
  | _ => none

/-- The reply to the last of these commands; the newest event comes first. -/
def lastReply (cmd : CmdId) (es : List HalEvent) : Option Reply :=
  es.findSome? (replyTo cmd)

/-- A row is inserted with both of its blobs. -/
def insertsBlobs : HalEvent → Bool
  | .op (.sqlInsert _ _ boundData boundPayload) r => r != sqliteDone || (boundData && boundPayload)
  | _ => true

/-- A slot and its row hold just the bytes of two replies; the row may be missing, since
`vcs_enroll` does not look at what sqlite says. -/
def Stored (m : Mem) (finish bind : Reply) (s : Hal) : Prop :=
  ∃ idx gid, s.mem.tz.finger =
      Function.update m.tz.finger idx ⟨true, finish.bytes _, bind.bytes _⟩ ∧
    (s.mem.db = m.db ∨ s.mem.db = (m.setTable gid (m.rows gid ++
      [⟨idx, (finish.bytes fingerDataMaxLength).toList,
        (bind.bytes payloadMaxLength).toList⟩])).db)

/-- Thread `w` has committed the bytes of two successful replies, or nothing: slots and rows are
what they were in `m`. -/
def CommitsSuccess (m : Mem) (w : Tid) (s : Hal) : Prop :=
  (∃ finish bind, lastReply .vfmEnrollFinish (s.own w) = some finish ∧ finish.failed = false ∧
      lastReply .vfmPayloadBind (s.own w) = some bind ∧ bind.failed = false ∧
      Stored m finish bind s) ∨
    (s.own w).any commits = false ∧ s.mem.tz.finger = m.tz.finger ∧ s.mem.db = m.db

/-- The condition on the replies: if `vfmEnrollFinish` is sent, it succeeds, the last
`vfmPayloadBind` succeeds, and sqlite takes the blobs of a row it inserts. -/
def RepliesGood (es : List HalEvent) : Prop :=
  ∀ finish, lastReply .vfmEnrollFinish es = some finish → finish.failed = false ∧
    (∀ bind, lastReply .vfmPayloadBind es = some bind → bind.failed = false) ∧
    es.all insertsBlobs = true

/-! ## What the stages say -/

namespace Enrolling

/-- The reply to `vfmEnrollFinish`. -/
def finishReply : Enrolling → Option Reply
  | .finishing _ finish | .storing _ finish => some finish
  | .binding _ finish _ | .filling _ finish _ | .marking _ finish _ => some finish
  | .writing _ finish _ _ | .written _ finish _ _ _ _ => some finish
  | _ => none

/-- The reply to the last `vfmPayloadBind`. -/
def bindReply : Enrolling → Option Reply
  | .binding _ _ bind | .filling _ _ bind | .marking _ _ bind => some bind
  | .writing _ _ bind _ | .written _ _ bind _ _ _ => some bind
  | _ => none

/-- Whether something is committed. -/
def committed : Enrolling → Bool
  | .marking _ _ _ | .writing _ _ _ _ | .written _ _ _ _ _ _ => true
  | _ => false

/-- Whether the row, if there is one, has its blobs. -/
def bound : Enrolling → Bool
  | .written _ _ _ _ boundData boundPayload => boundData && boundPayload
  | _ => true

/-- The slots, when they were those of `m` at the start. -/
def slots (m : Mem) : Enrolling → ℤ → Finger
  | .storing idx finish | .binding idx finish _ =>
    Function.update m.tz.finger idx { m.tz.finger idx with data := finish.bytes _ }
  | .filling idx finish bind =>
    Function.update m.tz.finger idx ⟨(m.tz.finger idx).exist, finish.bytes _, bind.bytes _⟩
  | .marking idx finish bind | .writing idx finish bind _ | .written idx finish bind _ _ _ =>
    Function.update m.tz.finger idx ⟨true, finish.bytes _, bind.bytes _⟩
  | _ => m.tz.finger

/-- The row of a commit. -/
def row (idx : ℤ) (finish bind : Reply) (boundData boundPayload : Bool) : Row where
  id := idx
  data := if boundData then (finish.bytes fingerDataMaxLength).toList else []
  payload := if boundPayload then (bind.bytes payloadMaxLength).toList else []

/-- The database, when it was that of `m` at the start. -/
def tables (m : Mem) : Enrolling → Database
  | .written idx finish bind gid boundData boundPayload =>
    (m.setTable gid (m.rows gid ++ [row idx finish bind boundData boundPayload])).db
  | _ => m.db

end Enrolling

/-- What a stage says of the state and of the worker's events. -/
structure Tied (m : Mem) (w : Tid) (s : Hal) (x : Enrolling) : Prop where
  finish : lastReply .vfmEnrollFinish (s.own w) = x.finishReply
  bind : lastReply .vfmPayloadBind (s.own w) = x.bindReply
  committed : (s.own w).any commits = x.committed
  bound : (s.own w).all insertsBlobs = x.bound
  slots : s.mem.tz.finger = x.slots m
  tables : s.mem.db = x.tables m

/-- The last reply to a command, with one more event. -/
theorem lastReply_cons (cmd : CmdId) (e : HalEvent) (es : List HalEvent) :
    lastReply cmd (e :: es) = (replyTo cmd e).or (lastReply cmd es) := by
  unfold lastReply
  rw [List.findSome?_cons]
  cases replyTo cmd e <;> rfl

/-- A quiet step inserts no row. -/
theorem insertsBlobs_of_quiet {e : HalEvent} (hq : quietEvent e = true) :
    insertsBlobs e = true := by
  unfold insertsBlobs
  split
  · cases hq
  · rfl

section worker

variable {m : Mem} {w : Tid} {s s' : Hal} {x y : Enrolling} {e : HalEvent}

/-- A quiet step of the worker changes at most what the last replies were. -/
theorem Tied.quiet (h : Tied m w s x) (hr : s.Runs fine w e s') (hq : quietEvent e = true)
    (hfinish : y.finishReply = (replyTo .vfmEnrollFinish e).or x.finishReply)
    (hbind : y.bindReply = (replyTo .vfmPayloadBind e).or x.bindReply)
    (hcommitted : y.committed = x.committed) (hbound : y.bound = x.bound)
    (hslots : y.slots m = x.slots m) (htables : y.tables m = x.tables m) : Tied m w s' y := by
  obtain ⟨hf, hd, -⟩ := mem_of_quiet hr hq
  have hown : s'.own w = e :: s.own w := by rw [hr.own, if_pos rfl]
  refine ⟨?_, ?_, ?_, ?_, ?_, ?_⟩
  · rw [hown, lastReply_cons, h.finish, hfinish]
  · rw [hown, lastReply_cons, h.bind, hbind]
  · rw [hown, List.any_cons, not_commits_of_quiet hq, h.committed, hcommitted, Bool.false_or]
  · rw [hown, List.all_cons, insertsBlobs_of_quiet hq, h.bound, hbound, Bool.true_and]
  · rw [hf, h.slots, hslots]
  · rw [hd, h.tables, htables]

/-- A step of the worker that sends nothing and leaves the stage. -/
theorem Tied.silent (h : Tied m w s x) (hr : s.Runs fine w e s') (hq : quietEvent e = true)
    (hsend : ∀ cmd, replyTo cmd e = none) : Tied m w s' x :=
  h.quiet hr hq (by rw [hsend]; rfl) (by rw [hsend]; rfl) rfl rfl rfl rfl

/-- A command of the worker. -/
theorem Tied.send {req : Request} {r : Reply} (h : Tied m w s x)
    (hr : s.Runs fine w (.op (.qseecomSendCmd req) r) s') (hy : x.afterSend req.cmd r = some y) :
    Tied m w s' y := by
  have hreply : ∀ cmd, replyTo cmd (.op (.qseecomSendCmd req) r) =
      if req.cmd = cmd then some r else none := fun _ => rfl
  unfold Enrolling.afterSend at hy
  split at hy
  all_goals try split at hy
  all_goals first
    | cases hy; done
    | obtain rfl := by simpa using hy
      refine h.quiet hr rfl ?_ ?_ ?_ ?_ ?_ ?_ <;>
        simp_all [Enrolling.finishReply, Enrolling.bindReply, Enrolling.committed,
          Enrolling.bound, Enrolling.slots, Enrolling.tables]

/-- An operation of the worker, by what it does to the slots and the tables. -/
theorem Tied.op {o : Op} {r : Resp o} (h : Tied m w s x) (hr : s.Runs fine w (.op o r) s')
    (hfinish : y.finishReply = (replyTo .vfmEnrollFinish (.op o r)).or x.finishReply)
    (hbind : y.bindReply = (replyTo .vfmPayloadBind (.op o r)).or x.bindReply)
    (hcommitted : y.committed = (commits (.op o r) || x.committed))
    (hbound : y.bound = (insertsBlobs (.op o r) && x.bound))
    (hslots : y.slots m = fingerAfter (x.slots m) o) (htables : y.tables m = dbAfter s.mem o r) :
    Tied m w s' y := by
  have heff := effect_of_runs hr
  have hown : s'.own w = .op o r :: s.own w := by rw [hr.own, if_pos rfl]
  refine ⟨?_, ?_, ?_, ?_, ?_, ?_⟩
  · rw [hown, lastReply_cons, h.finish, hfinish]
  · rw [hown, lastReply_cons, h.bind, hbind]
  · rw [hown, List.any_cons, h.committed, hcommitted]
  · rw [hown, List.all_cons, h.bound, hbound]
  · rw [heff.finger, h.slots, hslots]
  · rw [heff.db, htables]

/-- A write into a slot, or the end of an insertion. -/
theorem Tied.writes {o : Op} {r : Resp o} (h : Tied m w s x) (hr : s.Runs fine w (.op o r) s')
    (ho : o.quiet = false) (hy : x.afterOp o r = some y) : Tied m w s' y := by
  cases o with
  | store v a =>
    cases v with
    | fingerData j =>
      replace hy : x.afterData j a = some y := hy
      unfold Enrolling.afterData at hy
      split at hy <;> try cases hy
      split at hy <;> cases hy
      rename_i hja
      obtain ⟨rfl, rfl⟩ := hja
      exact h.op hr rfl rfl rfl rfl rfl h.tables.symm
    | fingerPayload j =>
      replace hy : x.afterPayload j a = some y := hy
      unfold Enrolling.afterPayload at hy
      split at hy <;> try cases hy
      split at hy <;> cases hy
      rename_i hja
      obtain ⟨rfl, rfl⟩ := hja
      exact h.op hr rfl rfl rfl rfl (by simp [Enrolling.slots, fingerAfter]) h.tables.symm
    | fingerExist j =>
      replace hy : x.afterMark j a = some y := hy
      unfold Enrolling.afterMark at hy
      split at hy <;> try cases hy
      split at hy <;> cases hy
      rename_i hja
      obtain ⟨rfl, ha⟩ := hja
      obtain rfl : a = true := ha
      exact h.op hr rfl rfl rfl rfl (by simp [Enrolling.slots, fingerAfter]) h.tables.symm
    | _ => first | cases hy; done | cases ho
  | sqlInsert gid j bd bp =>
    replace hy : x.afterInsert gid j bd bp r = some y := hy
    unfold Enrolling.afterInsert at hy
    split at hy <;> try cases hy
    split at hy <;> cases hy
    rename_i idx finish bind g hgj
    obtain ⟨rfl, rfl⟩ := hgj
    by_cases hdone : r = sqliteDone
    · rw [if_pos hdone]
      refine h.op hr rfl rfl rfl ?_ rfl ?_
      · simp [Enrolling.bound, insertsBlobs, hdone]
      · have hslot := congrFun h.slots j
        have htables : s.mem.db.tables = m.db.tables := by rw [h.tables]; rfl
        simp [Enrolling.slots] at hslot
        simp [Enrolling.tables, dbAfter, hdone, Mem.setTable, Mem.rows, Mem.newRow, htables, hslot,
          Enrolling.row]
    · rw [if_neg hdone]
      refine h.op hr rfl rfl rfl ?_ rfl ?_
      · simp [Enrolling.bound, insertsBlobs, hdone]
      · simp [dbAfter, hdone, h.tables]
  | _ => first | cases hy; done | cases ho

/-- An operation that writes nothing. -/
theorem Tied.quietOp {o : Op} {r : Resp o} (h : Tied m w s x) (hr : s.Runs fine w (.op o r) s')
    (ho : o.quiet = true) (hy : x.afterOp o r = some y) : Tied m w s' y := by
  cases o with
  | qseecomSendCmd req => exact h.send hr hy
  | load v =>
    cases v with
    | fingerExist j =>
      replace hy : x.afterProbe j r = some y := hy
      unfold Enrolling.afterProbe at hy
      split at hy <;> try cases hy
      split at hy <;> cases hy
      cases r <;> exact h.quiet hr rfl rfl rfl rfl rfl rfl rfl
    | activeGid =>
      replace hy : x.afterGid r = some y := hy
      unfold Enrolling.afterGid at hy
      split at hy <;> cases hy
      exact h.quiet hr rfl rfl rfl rfl rfl rfl rfl
    | _ =>
      cases hy
      exact h.silent hr rfl fun _ => rfl
  | store v a =>
    cases v <;> first | cases ho; done | (cases hy; exact h.silent hr rfl fun _ => rfl)
  | _ => first | cases ho; done | (cases hy; exact h.silent hr rfl fun _ => rfl)

/-- **One step** of the worker. -/
theorem Tied.worker (h : Tied m w s x) (hr : s.Runs fine w e s') (hy : x.next e = some y) :
    Tied m w s' y := by
  cases hhead : x.atHead with
  | true =>
    cases x with
    | looping idx =>
      obtain ⟨rfl, rfl⟩ := Enrolling.next_looping hy
      exact h.quiet hr rfl rfl rfl rfl rfl rfl rfl
    | testing idx =>
      obtain ⟨rfl, rfl⟩ := Enrolling.next_testing hy
      exact h.quiet hr rfl rfl rfl rfl rfl rfl rfl
    | reading idx =>
      obtain ⟨state, rfl, rfl⟩ := Enrolling.next_reading hy
      exact h.quiet hr rfl rfl rfl rfl rfl rfl rfl
    | _ => cases hhead
  | false =>
    cases e with
    | op o r =>
      rw [Enrolling.next_op hhead] at hy
      cases ho : o.quiet with
      | false => exact h.writes hr ho hy
      | true => exact h.quietOp hr ho hy
    | enter c =>
      rw [Enrolling.next_enter hhead] at hy
      obtain rfl | ⟨idx, i, count, rfl, rfl, rfl⟩ := Enrolling.afterEnter_some hy
      · exact h.silent hr rfl fun _ => rfl
      · exact h.quiet hr rfl rfl rfl rfl rfl rfl rfl
    | done c r => simp [Enrolling.next_done] at hy

end worker

/-! ## Every finished enrollment -/

/-- A table with a new row is not the old one. -/
theorem setTable_append_ne (m : Mem) (gid : UInt32) (row : Row) :
    (m.setTable gid (m.rows gid ++ [row])).db ≠ m.db := by
  intro h
  have htable := congrArg (fun d => (d.tables (gidNumber gid)).getD []) h
  simp only [Mem.setTable, Mem.rows, Function.update_self, Option.getD_some] at htable
  simpa using congrArg List.length htable

/-- Two databases that differ from the same one by a new row differ by the same row. -/
theorem setTable_append_inj {m : Mem} {gid gid' : UInt32} {row row' : Row}
    (h : (m.setTable gid (m.rows gid ++ [row])).db =
      (m.setTable gid' (m.rows gid' ++ [row'])).db) : row = row' := by
  have htable := congrArg (fun d => (d.tables (gidNumber gid)).getD []) h
  simp only [Mem.setTable, Mem.rows, Function.update_self, Option.getD_some] at htable
  by_cases hgid : gidNumber gid = gidNumber gid'
  · rw [← hgid, Function.update_self, Option.getD_some] at htable
    simpa using htable
  · rw [Function.update_of_ne hgid] at htable
    simpa using congrArg List.length htable

/-- The row of a commit has both blobs if it is the row of the replies' bytes. -/
theorem bound_of_row_eq {idx idx' : ℤ} {finish bind : Reply} {boundData boundPayload : Bool}
    (h : Enrolling.row idx finish bind boundData boundPayload =
      ⟨idx', (finish.bytes fingerDataMaxLength).toList, (bind.bytes payloadMaxLength).toList⟩) :
    (boundData && boundPayload) = true := by
  have hdata := congrArg (·.data.length) h
  have hpayload := congrArg (·.payload.length) h
  cases boundData <;> cases boundPayload <;>
    simp [Enrolling.row, fingerDataMaxLength, payloadMaxLength] at hdata hpayload ⊢

/-- The thread beside the worker: the signal handler. -/
def signals : Call → Bool
  | .sensorProcessSignal => true
  | _ => false

/-- **Every run.** The stage of the worker says what slots, tables and replies are. -/
theorem tied {m : Mem} {w : Tid} {s : Hal}
    (h : ((Hal.idle m).add w .vcsEnroll).Reaches fine signals (fun _ _ _ => True) s) :
    ∃ x p, s.pool w = some ⟨.vcsEnroll, p⟩ ∧
      enrollProtocol.Follows fine p (fun _ y => y.ended = true) x ∧ Tied m w s x := by
  have hsignals : ∀ c, signals c = true → bystander c = true := by
    intro c hc
    cases c <;> first | rfl | cases hc
  refine enroll_invariant (I := Tied m w) hsignals ⟨rfl, rfl, rfl, rfl, rfl, rfl⟩
    (fun s t c x hI _ => ⟨hI.finish, hI.bind, hI.committed, hI.bound, hI.slots, hI.tables⟩)
    (fun s e s' x y hI _ hr hy => hI.worker hr hy) ?_ h
  intro s t e s' x hI htw hr hq
  obtain ⟨hf, hd, -⟩ := mem_of_quiet hr hq
  have hown : s'.own w = s.own w := by rw [hr.own, if_neg htw.symm]
  exact ⟨hown ▸ hI.finish, hown ▸ hI.bind, hown ▸ hI.committed, hown ▸ hI.bound,
    hf.trans hI.slots, hd.trans hI.tables⟩

/-- **An enrollment is committed on success.** A finished enrollment that was not cancelled has
committed the bytes of two successful replies, or nothing, just when the replies are good. -/
theorem commitsSuccess_iff {m : Mem} {w : Tid} {s : Hal}
    (h : ((Hal.idle m).add w .vcsEnroll).Reaches fine signals (fun _ _ _ => True) s)
    (hfin : s.fin w = true) : CommitsSuccess m w s ↔ RepliesGood (s.own w) := by
  obtain ⟨x, p, hp, hx, hI⟩ := tied h
  have hended : x.ended = true := by
    cases p with
    | ret a => exact hx
    | _ => simp [State.fin, hp, Prog.finished] at hfin
  unfold CommitsSuccess RepliesGood
  rw [hI.finish, hI.bind, hI.committed, hI.bound]
  cases x with
  | imaging idx taken =>
    have hslots := hI.slots
    have htables := hI.tables
    simp_all [Enrolling.finishReply, Enrolling.committed, Enrolling.slots, Enrolling.tables]
  | writing idx finish bind gid =>
    have hstored : Stored m finish bind s := ⟨idx, gid, hI.slots, .inl hI.tables⟩
    simp [Enrolling.finishReply, Enrolling.bindReply, Enrolling.committed, Enrolling.bound, hstored]
  | written idx finish bind gid boundData boundPayload =>
    have hstored : Stored m finish bind s ↔ (boundData && boundPayload) = true := by
      constructor
      · rintro ⟨idx', gid', -, hdb | hdb⟩
        · exact absurd (hI.tables.symm.trans hdb) (setTable_append_ne m gid _)
        · exact bound_of_row_eq (setTable_append_inj (hI.tables.symm.trans hdb))
      · intro hbound
        obtain ⟨rfl, rfl⟩ := Bool.and_eq_true_iff.mp hbound
        exact ⟨idx, gid, hI.slots, .inr hI.tables⟩
    simp [Enrolling.finishReply, Enrolling.bindReply, Enrolling.committed, Enrolling.bound, hstored]
  | _ => cases hended

/-- Worker 1 up to its first image, which the signal handler lets it take; `x` says whether the
template is complete. -/
def firstImage (x : CInt) : List (Label hal) :=
  ticks 1 3 ++ answer 1 (.good 0) ++ answer 1 (.good 0) ++ ticks 1 7 ++ answer 1 (.good 0) ++
    ticks 1 2 ++ answer 1 .lost ++ ticks 1 4 ++ .arrive 2 .sensorProcessSignal :: ticks 2 15 ++
    ticks 1 40 ++ answer 1 (.good 2) ++ ticks 1 2 ++ answer 1 (.good 0) ++ ticks 1 1 ++
    answer 1 (.good x)

/-- Worker 1 over an image that completes the template. -/
def oneImage : List (Label hal) := firstImage 1 ++ ticks 1 2

/-- The rest of the worker, by its replies to `vfmEnrollFinish` and the second `vfmPayloadBind`. -/
def finishing (finish bind : Reply) : List (Label hal) :=
  ticks 1 2 ++ answer 1 finish ++ ticks 1 1 ++ answer 1 (.good 0) ++ answer 1 bind ++ ticks 1 7 ++
    [.run 1 [.num 101]] ++ ticks 1 2 ++ answer 1 (.good 0) ++ ticks 1 2 ++ answer 1 (.good 0) ++
    ticks 1 9 ++ answer 1 (.good 0) ++ ticks 1 7

/-- An enrollment with good replies: it commits, and it commits on success. -/
theorem commitsSuccess_good :
    ∃ s, ((Hal.idle enrollingDevice).add 1 .vcsEnroll).Reaches fine signals (fun _ _ _ => True) s ∧
      (s.own 1).any commits = true ∧ CommitsSuccess enrollingDevice 1 s := by
  obtain ⟨s, hs, hfin, hcommits, hfinish, hbind, hbound⟩ : ∃ s,
      ((Hal.idle enrollingDevice).add 1 .vcsEnroll).exec fine signals (fun _ _ _ => true)
        (oneImage ++ finishing (.good 7) (.good 9)) = some s ∧ s.fin 1 = true ∧
      (s.own 1).any commits = true ∧ lastReply .vfmEnrollFinish (s.own 1) = some (.good 7) ∧
      lastReply .vfmPayloadBind (s.own 1) = some (.good 9) ∧
      (s.own 1).all insertsBlobs = true := ⟨_, rfl, rfl, rfl, rfl, rfl, rfl⟩
  have hr := State.Reaches.refl.exec (fun _ _ _ _ => trivial) hs
  refine ⟨s, hr, hcommits, (commitsSuccess_iff hr hfin).mpr ?_⟩
  intro finish hf
  obtain rfl : Reply.good 7 = finish := by simpa [hfinish] using hf
  refine ⟨rfl, fun bind hb => ?_, hbound⟩
  obtain rfl : Reply.good 9 = bind := by simpa [hbind] using hb
  rfl

/-- The transport fails for `vfmEnrollFinish`: what the buffer holds is committed all the same. -/
theorem failed_commit :
    ∃ s, ((Hal.idle enrollingDevice).add 1 .vcsEnroll).Reaches fine signals (fun _ _ _ => True) s ∧
      s.fin 1 = true ∧ ¬ CommitsSuccess enrollingDevice 1 s := by
  obtain ⟨s, hs, hfin, hcommits, hfinish⟩ : ∃ s,
      ((Hal.idle enrollingDevice).add 1 .vcsEnroll).exec fine signals (fun _ _ _ => true)
        (oneImage ++ finishing .lost (.good 9)) = some s ∧ s.fin 1 = true ∧
      (s.own 1).any commits = true ∧ lastReply .vfmEnrollFinish (s.own 1) = some .lost :=
    ⟨_, rfl, rfl, rfl, rfl⟩
  refine ⟨s, State.Reaches.refl.exec (fun _ _ _ _ => trivial) hs, hfin, ?_⟩
  rintro (⟨finish, bind, hf, hgood, -⟩ | ⟨hnone, -⟩)
  · obtain rfl : Reply.lost = finish := by simpa [hfinish] using hf
    cases hgood
  · simp [hcommits] at hnone

end KlteCommon.Analysis

import KlteCommon.Analysis.Isolation

/-!
# What a removal reports

`fingerprint_remove` deletes the row of one finger, or, for `fid` 0, of every occupied slot, and
sends a notice for each delete that succeeds. What it returns, and whether it sends an error, is
the result of the last delete.

The ladder: one delete and one notice (`does_delete`, `does_removeNotice`); the loop over the
occupied slots (`does_removeFingers`); and so when the reports are right (`reportsRemoval_iff`).
For all fingers they are unless a delete fails before a last one that succeeds (`lost_failure`),
for one finger unless the delete of a finger that is not stored succeeds.
-/

set_option autoImplicit false

namespace KlteCommon.Analysis

open KlteCommon.Computation KlteCommon.Fingerprint

/-! ## What is observed -/

/-- A finger that is reported as removed. -/
def removalNotice : HalEvent → Option ℤ
  | .op (.notify (.removed fid)) _ => some fid
  | _ => none

/-- The delete of a finger's row, with its result. -/
def deletion : HalEvent → Option (ℤ × CInt)
  | .op (.sqlDelete _ fid) r => some (fid, r)
  | _ => none

/-- An error is reported. -/
def errorNotice : HalEvent → Bool
  | .op (.notify (.error _)) _ => true
  | _ => false

/-- The fingers that are reported as removed, in order. -/
def removals (es : List HalEvent) : List ℤ := es.filterMap removalNotice

/-- The deletes, in order. -/
def deletions (es : List HalEvent) : List (ℤ × CInt) := es.filterMap deletion

/-- A finger is stored. -/
def stored (m : Mem) (j : ℤ) : Prop := isSlot j ∧ occupied m j

/-- A finger is to be removed. -/
def requested (fid : UInt32) (j : ℤ) : Prop := fid = 0 ∨ j = gidNumber fid

/-- The notices are those of the requested fingers that were stored and whose delete succeeded,
once each; the result is 0 without an error notice exactly when no delete failed. -/
structure ReportsRemoval (m : Mem) (fid : UInt32) (es : List HalEvent) (ret : CInt) : Prop where
  once : (removals es).Nodup
  removed : ∀ j, j ∈ removals es ↔ requested fid j ∧ stored m j ∧ (j, 0) ∈ deletions es
  result : ret = 0 ∧ es.any errorNotice = false ↔ ∀ d ∈ deletions es, d.2 = 0

/-- The condition on the stored fingers and the results of the deletes. -/
def RemovalTold (m : Mem) (fid : UInt32) (es : List HalEvent) : Prop :=
  if fid = 0 then
    ∀ last, (deletions es).getLast? = some last → last.2 = 0 → ∀ d ∈ deletions es, d.2 = 0
  else stored m (gidNumber fid) ∨ (gidNumber fid, 0) ∉ deletions es

/-! ## The parts -/

section parts

variable {fin : Tid → Bool} {t : Tid} {m m' : Mem} {es : List HalEvent}

/-- Code that is one operation. -/
theorem does_one {o : Op} {r : Resp o} (h : hal.Does fin t (op o) m es r m') :
    ∃ ch, act fin t o ch m = some (r, m') ∧ es = [.op o r] := by
  obtain ⟨ch, r', m₁, es₁, hact, hret, rfl⟩ := Machine.does_op.mp h
  obtain ⟨rfl, rfl, rfl⟩ := Machine.does_ret.mp hret
  exact ⟨ch, hact, rfl⟩

/-- The delete of one finger. -/
theorem does_delete {fid : ℤ} {r : CInt} (h : hal.Does fin t (dbWriteToDb true fid) m es r m') :
    deletions es = [(fid, r)] ∧ removals es = [] ∧ es.any errorNotice = false ∧
      m'.tz.finger = Function.update m.tz.finger fid .zero := by
  obtain ⟨_, gid, m₁, es₁, hload, h₁, rfl⟩ := does_act h
  obtain ⟨rfl, rfl⟩ := by simpa [act] using hload
  obtain ⟨_, ret, m₂, es₂, hdelete, h₂, rfl⟩ := does_act h₁
  obtain ⟨_, _, m₃, es₃, hstore, h₃, rfl⟩ := does_act h₂
  obtain ⟨rfl, rfl, rfl⟩ := Machine.does_pure.mp h₃
  refine ⟨rfl, rfl, rfl, ?_⟩
  rw [(act_effect hstore).finger, fingerAfter, (act_effect hdelete).finger]
  rfl

/-- A notice about one finger. -/
theorem does_removeNotice {fid : ℤ} {u : Unit} (h : hal.Does fin t (sendRemoveNotice fid) m es u m') :
    deletions es = [] ∧ removals es = [fid] ∧ es.any errorNotice = false ∧
      m'.tz.finger = m.tz.finger := by
  obtain ⟨_, _, m₁, es₁, hlock, h₁, rfl⟩ := does_act h
  obtain ⟨_, _, m₂, es₂, hnotify, h₂, rfl⟩ := does_act h₁
  obtain ⟨_, hunlock, rfl⟩ := does_one h₂
  refine ⟨rfl, rfl, rfl, ?_⟩
  calc m'.tz.finger = m₂.tz.finger := (act_effect hunlock).finger
    _ = m₁.tz.finger := (act_effect hnotify).finger
    _ = m.tz.finger := (act_effect hlock).finger

/-- A notice about an error. -/
theorem does_errorNotice {error : CInt} {u : Unit}
    (h : hal.Does fin t (sendErrorNotice error) m es u m') :
    deletions es = [] ∧ removals es = [] ∧ es.any errorNotice = true := by
  obtain ⟨_, _, m₁, es₁, hlock, h₁, rfl⟩ := does_act h
  obtain ⟨_, _, m₂, es₂, hnotify, h₂, rfl⟩ := does_act h₁
  obtain ⟨_, hunlock, rfl⟩ := does_one h₂
  exact ⟨rfl, rfl, rfl⟩

/-- The slots from `idx` on, `n` of them. -/
def slotsFrom : ℕ → ℤ → List ℤ
  | 0, _ => []
  | n + 1, idx => idx :: slotsFrom n (idx + 1)

/-- Which slots these are. -/
theorem mem_slotsFrom {n : ℕ} {idx j : ℤ} : j ∈ slotsFrom n idx ↔ idx ≤ j ∧ j < idx + n := by
  induction n generalizing idx with
  | zero => simp [slotsFrom]
  | succ n ih => simp only [slotsFrom, List.mem_cons, ih]; omega

/-- They are different. -/
theorem nodup_slotsFrom (n : ℕ) (idx : ℤ) : (slotsFrom n idx).Nodup := by
  induction n generalizing idx with
  | zero => exact .nil
  | succ n ih =>
    refine List.nodup_cons.mpr ⟨fun h => ?_, ih (idx + 1)⟩
    have := (mem_slotsFrom.mp h).1
    omega

/-- The deletes of some code, what it reports and the result it goes on with. -/
structure Deleted (slots : List ℤ) (es : List HalEvent) (old r : CInt) (error : Bool) : Prop where
  tried : (deletions es).map Prod.fst = slots
  removed : removals es = ((deletions es).filter (·.2 == 0)).map Prod.fst
  last : r = ((deletions es).getLast?.map Prod.snd).getD old
  error : es.any errorNotice = error

namespace Deleted

variable {slots : List ℤ} {es₁ es₂ es₃ : List HalEvent} {old r r₁ : CInt} {error : Bool}

/-- An event that is not observed. -/
theorem skip {e : HalEvent} (h : Deleted slots es old r error) (hremoved : removalNotice e = none)
    (htried : deletion e = none) (herror : errorNotice e = false) :
    Deleted slots (e :: es) old r error := by
  have hdeletions : deletions (e :: es) = deletions es := List.filterMap_cons_none htried
  have hremovals : removals (e :: es) = removals es := List.filterMap_cons_none hremoved
  refine ⟨?_, ?_, ?_, by rw [List.any_cons, herror, h.error, Bool.false_or]⟩
  · rw [hdeletions, h.tried]
  · rw [hremovals, hdeletions, h.removed]
  · rw [hdeletions, h.last]

/-- One delete, what is reported of it, and then the rest. -/
theorem cons {idx : ℤ} (h : Deleted slots es₃ r₁ r error)
    (h₁ : deletions es₁ = [(idx, r₁)] ∧ removals es₁ = [] ∧ es₁.any errorNotice = false)
    (h₂ : deletions es₂ = [] ∧ removals es₂ = (if r₁ = 0 then [idx] else []) ∧
      es₂.any errorNotice = false) : Deleted (idx :: slots) (es₁ ++ (es₂ ++ es₃)) old r error := by
  obtain ⟨htried₁, hremoved₁, herror₁⟩ := h₁
  obtain ⟨htried₂, hremoved₂, herror₂⟩ := h₂
  have hdeletions : deletions (es₁ ++ (es₂ ++ es₃)) = (idx, r₁) :: deletions es₃ := by
    simp only [deletions, List.filterMap_append] at htried₁ htried₂ ⊢
    rw [htried₁, htried₂]
    rfl
  have hremovals : removals (es₁ ++ (es₂ ++ es₃)) =
      (if r₁ = 0 then [idx] else []) ++ removals es₃ := by
    simp only [removals, List.filterMap_append] at hremoved₁ hremoved₂ ⊢
    rw [hremoved₁, hremoved₂]
    rfl
  refine ⟨by rw [hdeletions, List.map_cons, h.tried], ?_, ?_, ?_⟩
  · rw [hremovals, hdeletions, h.removed]
    by_cases hr : r₁ = 0 <;> simp [hr]
  · rw [hdeletions, List.getLast?_cons, h.last]
    cases (deletions es₃).getLast? <;> rfl
  · rw [List.any_append, List.any_append, herror₁, herror₂, h.error, Bool.false_or, Bool.false_or]

/-- The deletes, and then what deletes nothing. -/
theorem append (h₁ : Deleted slots es₁ old r false) (h₂ : Deleted [] es₂ r r₁ error) :
    Deleted slots (es₁ ++ es₂) old r error := by
  have hnone : deletions es₂ = [] := List.map_eq_nil_iff.mp h₂.tried
  have hremoved : removals es₂ = [] := by rw [h₂.removed, hnone]; rfl
  have hdeletions : deletions (es₁ ++ es₂) = deletions es₁ := by
    rw [deletions, List.filterMap_append, ← deletions, ← deletions, hnone, List.append_nil]
  have hremovals : removals (es₁ ++ es₂) = removals es₁ := by
    rw [removals, List.filterMap_append, ← removals, ← removals, hremoved, List.append_nil]
  refine ⟨by rw [hdeletions, h₁.tried], by rw [hremovals, hdeletions, h₁.removed],
    by rw [hdeletions, h₁.last], ?_⟩
  rw [List.any_append, h₁.error, h₂.error, Bool.false_or]

end Deleted

/-- The delete of one finger with the lock around it and the notice about it, and then `f`. -/
theorem does_deleteOne {idx : ℤ} {old ret : CInt} {α : Type} {r : α} {f : CInt → Code α}
    {slots : List ℤ} {error : Bool}
    (hrest : ∀ {r₁ : CInt} {m₂ : Mem} {es : List HalEvent},
      m₂.tz.finger = Function.update m.tz.finger idx .zero → hal.Does fin t (f r₁) m₂ es r m' →
      Deleted slots es r₁ ret error)
    (h : hal.Does fin t
      (do
        op (.lock .vdevLock)
        let r₁ ← call (.dbWriteToDb true idx)
        op (.unlock .vdevLock)
        if r₁ = 0 then do
          call (.sendRemoveNotice idx)
          f r₁
        else f r₁) m es r m') : Deleted (idx :: slots) es old ret error := by
  obtain ⟨_, _, m₁, es₁, hlock, h₁, rfl⟩ := does_act h
  obtain ⟨es₂, r₁, m₂, es₃, hdelete, h₂, rfl⟩ := Machine.does_invoke.mp h₁
  obtain ⟨_, _, m₃, es₄, hunlock, h₃, rfl⟩ := does_act h₂
  obtain ⟨htried, hremoved, herror, hfinger⟩ := does_delete hdelete
  have hlock : m₁.tz.finger = m.tz.finger := (act_effect hlock).finger
  have hunlock : m₃.tz.finger = m₂.tz.finger := (act_effect hunlock).finger
  rw [hlock] at hfinger
  split at h₃
  · rename_i hr
    obtain ⟨es₅, _, m₄, es₆, hnotice, h₄, rfl⟩ := Machine.does_invoke.mp h₃
    obtain ⟨htried₅, hremoved₅, herror₅, hfinger₅⟩ := does_removeNotice hnotice
    have hmid : deletions (.op (.unlock .vdevLock) () :: .enter (.sendRemoveNotice idx) :: es₅) =
        [] ∧ removals (.op (.unlock .vdevLock) () :: .enter (.sendRemoveNotice idx) :: es₅) =
        (if r₁ = 0 then [idx] else []) ∧ List.any
          (.op (.unlock .vdevLock) () :: .enter (.sendRemoveNotice idx) :: es₅) errorNotice =
        false := ⟨htried₅, by rw [if_pos hr]; exact hremoved₅, herror₅⟩
    have hdone : Deleted (idx :: slots) _ old ret error :=
      (hrest (hfinger₅.trans (hunlock.trans hfinger)) h₄).cons ⟨htried, hremoved, herror⟩ hmid
    exact (hdone.skip rfl rfl rfl).skip rfl rfl rfl
  · rename_i hr
    have hmid : deletions [.op (.unlock .vdevLock) ()] = [] ∧
        removals [.op (.unlock .vdevLock) ()] = (if r₁ = 0 then [idx] else []) ∧
        List.any [.op (.unlock .vdevLock) ()] errorNotice = false :=
      ⟨rfl, by rw [if_neg hr]; rfl, rfl⟩
    have hdone : Deleted (idx :: slots) _ old ret error :=
      (hrest (hunlock.trans hfinger) h₃).cons ⟨htried, hremoved, herror⟩ hmid
    exact (hdone.skip rfl rfl rfl).skip rfl rfl rfl

/-- The loop over the slots. -/
theorem does_removeFingers {n : ℕ} {idx : ℤ} {ret r : CInt}
    (h : hal.Does fin t (removeFingers n idx ret) m es r m') :
    Deleted ((slotsFrom n idx).filter fun j => (m.tz.finger j).exist) es ret r false := by
  induction n generalizing idx ret m es with
  | zero =>
    obtain ⟨rfl, rfl, rfl⟩ := Machine.does_pure.mp h
    exact ⟨rfl, rfl, rfl, rfl⟩
  | succ n ih =>
    obtain ⟨_, b, m₁, es₁, hload, h₁, rfl⟩ := does_act h
    obtain ⟨rfl, rfl⟩ := by simpa [act] using hload
    have hexist : m.get (.fingerExist idx) = (m.tz.finger idx).exist := rfl
    rw [hexist] at h₁
    split at h₁
    · rename_i hexist
      rw [slotsFrom, List.filter_cons_of_pos (by simpa using hexist)]
      refine (does_deleteOne (fun hfinger hdoes => ?_) h₁).skip rfl rfl rfl
      rename_i r₁ m₂ es₂
      -- the slots behind are what they were
      have hkeep : ∀ j ∈ slotsFrom n (idx + 1), (m₂.tz.finger j).exist = (m.tz.finger j).exist := by
        intro j hj
        have hne : j ≠ idx := by have := (mem_slotsFrom.mp hj).1; omega
        rw [hfinger, Function.update_of_ne hne]
      rw [← List.filter_congr hkeep]
      exact ih hdoes
    · rename_i hexist
      rw [slotsFrom, List.filter_cons_of_neg (by simpa using hexist)]
      exact (ih h₁).skip rfl rfl rfl

/-- The result decides about the error notice, which is all that follows the deletes. -/
theorem does_result {r ret : CInt}
    (h : hal.Does fin t
      (if r ≠ 0 then do
        call (.sendErrorNotice fingerprintErrorUnableToRemove)
        return r
      else return r) m es ret m') : ret = r ∧ Deleted [] es r r (r != 0) := by
  split at h
  · rename_i hr
    obtain ⟨es₁, _, m₁, es₂, hnotice, hret, rfl⟩ := Machine.does_invoke.mp h
    obtain ⟨rfl, rfl, rfl⟩ := Machine.does_pure.mp hret
    obtain ⟨htried, hremoved, herror⟩ := does_errorNotice hnotice
    have hdone : Deleted [] es₁ ret ret (ret != 0) :=
      ⟨by rw [htried]; rfl, by rw [htried, hremoved]; rfl, by rw [htried]; rfl, by simp [herror, hr]⟩
    rw [List.append_nil]
    exact ⟨rfl, hdone.skip rfl rfl rfl⟩
  · rename_i hr
    obtain ⟨rfl, rfl, rfl⟩ := Machine.does_pure.mp h
    exact ⟨rfl, rfl, rfl, rfl, by simpa using hr⟩

/-- The fingers a call deletes: the occupied slots, or the requested one. -/
def targets (m : Mem) (fid : UInt32) : List ℤ :=
  if fid = 0 then (slotsFrom maxNumFingers 1).filter fun j => (m.tz.finger j).exist
  else [gidNumber fid]

/-- The whole call. -/
theorem does_fingerprintRemove {fid : UInt32} {ret : CInt}
    (h : hal.Does fin t (fingerprintRemove fid) m es ret m') :
    Deleted (targets m fid) es 0 ret (ret != 0) := by
  unfold fingerprintRemove at h
  unfold targets
  split at h
  · rename_i hfid
    rw [if_pos hfid]
    obtain ⟨es₁, r, m₁, es₂, hloop, hresult, rfl⟩ := Machine.does_bind.mp h
    obtain ⟨rfl, hdone⟩ := does_result hresult
    exact (does_removeFingers hloop).append hdone
  · rename_i hfid
    rw [if_neg hfid]
    refine does_deleteOne (fun _ hresult => ?_) h
    obtain ⟨rfl, hdone⟩ := does_result hresult
    exact hdone

end parts

/-! ## Every call -/

/-- No finger is deleted twice. -/
theorem nodup_targets (m : Mem) (fid : UInt32) : (targets m fid).Nodup := by
  unfold targets
  split
  · exact (nodup_slotsFrom _ _).filter _
  · exact List.nodup_cons.mpr ⟨nofun, .nil⟩

/-- A finger is reported as removed when its delete succeeded. -/
theorem Deleted.mem_removals {slots : List ℤ} {es : List HalEvent} {old r : CInt} {error : Bool}
    (h : Deleted slots es old r error) (j : ℤ) : j ∈ removals es ↔ (j, 0) ∈ deletions es := by
  rw [h.removed]
  simp

/-- **A removal reports what happened** exactly when, for all fingers, no delete fails before a
last one that succeeds, and, for one finger, it is stored or its delete fails. -/
theorem reportsRemoval_iff {fin : Tid → Bool} {t : Tid} {chs : List Choice} {m m' : Mem}
    {es : List HalEvent} {fid : UInt32} {ret : CInt}
    (h : hal.solo fin t chs (fingerprintRemove fid) m = some (es, .ret ret, m')) :
    ReportsRemoval m fid es ret ↔ RemovalTold m fid es := by
  have hdone := does_fingerprintRemove (Machine.does_of_solo h)
  have honce : (removals es).Nodup := by
    have hsub : (removals es).Sublist (targets m fid) := by
      rw [hdone.removed, ← hdone.tried]
      exact List.filter_sublist.map _
    exact hsub.nodup (nodup_targets m fid)
  have htarget : ∀ j, (j, 0) ∈ deletions es → j ∈ targets m fid := by
    intro j hj
    rw [← hdone.tried]
    exact List.mem_map_of_mem hj
  have herror : es.any errorNotice = false ↔ ret = 0 := by simp [hdone.error]
  have hresult : (ret = 0 ∧ es.any errorNotice = false) ↔ ret = 0 := by
    rw [herror, and_self]
  by_cases hfid : fid = 0
  · -- every finger whose delete is tried is stored
    have hstored : ∀ j, (j, 0) ∈ deletions es → stored m j := by
      intro j hj
      have hmem := htarget j hj
      rw [targets, if_pos hfid, List.mem_filter, mem_slotsFrom] at hmem
      exact ⟨⟨hmem.1.1, by omega⟩, hmem.2⟩
    rw [RemovalTold, if_pos hfid]
    constructor
    · intro h last hlast hzero
      refine h.result.mp (hresult.mpr ?_)
      rw [hdone.last, hlast]
      exact hzero
    · intro htold
      refine ⟨honce, fun j => ?_, hresult.trans ⟨fun hret => ?_, fun hall => ?_⟩⟩
      · rw [hdone.mem_removals]
        exact ⟨fun hj => ⟨.inl hfid, hstored j hj, hj⟩, fun hj => hj.2.2⟩
      · cases hlast : (deletions es).getLast? with
        | none =>
          rw [List.getLast?_eq_none_iff.mp hlast]
          exact nofun
        | some last =>
          refine htold last hlast ?_
          rw [hdone.last, hlast] at hret
          exact hret
      · rw [hdone.last]
        cases hlast : (deletions es).getLast? with
        | none => rfl
        | some last => exact hall last (List.mem_of_getLast? hlast)
  · have hone : deletions es = [(gidNumber fid, ret)] := by
      have htried := hdone.tried
      rw [targets, if_neg hfid] at htried
      obtain ⟨⟨j, r⟩, hdeletions, hj⟩ := List.map_eq_singleton_iff.mp htried
      obtain rfl : j = gidNumber fid := hj
      have hlast := hdone.last
      rw [hdeletions] at hlast ⊢
      rw [hlast]
      rfl
    rw [RemovalTold, if_neg hfid]
    constructor
    · intro h
      by_cases hzero : (gidNumber fid, 0) ∈ deletions es
      · exact .inl ((h.removed _).mp ((hdone.mem_removals _).mpr hzero)).2.1
      · exact .inr hzero
    · intro htold
      refine ⟨honce, fun j => ?_, hresult.trans ?_⟩
      · rw [hdone.mem_removals]
        refine ⟨fun hj => ?_, fun hj => hj.2.2⟩
        obtain rfl : j = gidNumber fid := by
          rw [hone] at hj
          exact congrArg Prod.fst (List.mem_singleton.mp hj)
        exact ⟨.inr rfl, htold.resolve_right (absurd hj), hj⟩
      · rw [hone]
        exact ⟨fun hret d hd => by rw [List.mem_singleton.mp hd, hret], fun hall => hall _ (.head _)⟩

/-- Fingers 1 and 2 are stored. -/
def twoFingers : Mem :=
  { Mem.zero with
    tz := { TrustZone.zero with finger := fun j => { Finger.zero with exist := j == 1 || j == 2 } }
    db := ⟨fun _ => some [⟨1, [], []⟩, ⟨2, [], []⟩]⟩ }

/-- Both fingers are removed; or one is to be, and its delete fails. -/
theorem reportsRemoval_iff_two :
    (∃ es m', hal.solo (fun _ => false) 1 (List.replicate 25 .tick) (fingerprintRemove 0) twoFingers =
        some (es, .ret 0, m') ∧ deletions es = [(1, 0), (2, 0)] ∧ ReportsRemoval twoFingers 0 es 0) ∧
      ∃ es m', hal.solo (fun _ => false) 1 (List.replicate 3 .tick ++ .num 1 :: List.replicate 6 .tick)
        (fingerprintRemove 2) twoFingers = some (es, .ret 1, m') ∧ deletions es = [(2, 1)] ∧
          ReportsRemoval twoFingers 2 es 1 := by
  obtain ⟨es, m', h, hdeletions⟩ : ∃ es m', hal.solo (fun _ => false) 1 (List.replicate 25 .tick)
      (fingerprintRemove 0) twoFingers = some (es, .ret 0, m') ∧
        deletions es = [(1, 0), (2, 0)] := ⟨_, _, rfl, rfl⟩
  obtain ⟨es', m'', h', hdeletions'⟩ : ∃ es m', hal.solo (fun _ => false) 1
      (List.replicate 3 .tick ++ .num 1 :: List.replicate 6 .tick) (fingerprintRemove 2) twoFingers =
        some (es, .ret 1, m') ∧ deletions es = [(2, 1)] := ⟨_, _, rfl, rfl⟩
  refine ⟨⟨es, m', h, hdeletions, (reportsRemoval_iff h).mpr ?_⟩,
    es', m'', h', hdeletions', (reportsRemoval_iff h').mpr (.inr ?_)⟩
  · rintro last - -
    simp [hdeletions]
  · simp [hdeletions']

/-- **A lost failure.** All fingers are to be removed; the delete of finger 1 fails, that of finger 2
succeeds, and the call reports success. -/
theorem lost_failure : ∃ es m', hal.solo (fun _ => false) 1
    (List.replicate 4 .tick ++ .num 1 :: List.replicate 16 .tick)
    (fingerprintRemove 0) twoFingers = some (es, .ret 0, m') ∧
    deletions es = [(1, 1), (2, 0)] ∧ es.any errorNotice = false ∧
    ¬ ReportsRemoval twoFingers 0 es 0 := by
  obtain ⟨es, m', h, hdeletions, herror⟩ : ∃ es m', hal.solo (fun _ => false) 1
      (List.replicate 4 .tick ++ .num 1 :: List.replicate 16 .tick)
      (fingerprintRemove 0) twoFingers = some (es, .ret 0, m') ∧
      deletions es = [(1, 1), (2, 0)] ∧ es.any errorNotice = false := ⟨_, _, rfl, rfl, rfl⟩
  refine ⟨es, m', h, hdeletions, herror, fun hreports => ?_⟩
  have hall := hreports.result.mp ⟨rfl, herror⟩
  rw [hdeletions] at hall
  exact absurd (hall (1, 1) (.head _)) (by decide)

end KlteCommon.Analysis

import KlteCommon.Computation.Protocol
import KlteCommon.Fingerprint.Program

/-!
# The code without procedures

What the loops over the slots and the rows that are run within one function are made of: which
operations they perform, and, where a caller relies on it, the range of what they return; and the
rule for a function's first look behind the handle.
-/

set_option autoImplicit false

namespace KlteCommon.Fingerprint

open KlteCommon.Computation

attribute [local simp] load store op call

/-- The loads of the slots' `exist` and `data`. -/
def Op.readsSlot : Op → Prop
  | .load (.fingerExist _) | .load (.fingerData _) => True
  | _ => False

/-- The stores into the slots, with the operations that fetch what is stored. -/
def Op.fillsSlot : Op → Prop
  | .store (.finger _) _ | .store (.fingerData _) _ => True
  | .store (.fingerPayload _) _ | .store (.fingerExist _) _ => True
  | .copyData _ _ | .readBlob _ _ | .sqlStep _ => True
  | _ => False

attribute [local simp] Op.readsSlot Op.fillsSlot

/-- Clearing the slots only fills slots. -/
theorem clearFingers_within (n : ℕ) (idx : ℤ) :
    (clearFingers n idx).Within Op.fillsSlot fun _ => False := by
  induction n generalizing idx with
  | zero => simp [clearFingers]
  | succ n ih => exact .bind (by simp) fun _ => ih _

/-- So does reading the rows of a table. -/
theorem readRows_within (rows : List Row) :
    (readRows rows).Within Op.fillsSlot fun _ => False := by
  induction rows with
  | nil => exact .bind (by simp) fun _ => by simp
  | cons row rows ih =>
    refine .bind (by simp) fun _ => .ite (by simp) ?_
    exact .bind (by simp) fun _ => .bind (by simp) fun _ => .bind (by simp) fun _ =>
      .bind (by simp) fun _ => .bind (by simp) fun _ => ih

/-- So does reading Samsung's enrollments. -/
theorem readEnrollments_within (rows : List (ℤ × List UInt8)) :
    (readEnrollments rows).Within Op.fillsSlot fun _ => False := by
  induction rows with
  | nil => exact .bind (by simp) fun _ => by simp
  | cons row rows ih =>
    refine .bind (by simp) fun _ => .ite (by simp) ?_
    exact .bind (by simp) fun _ => .bind (by simp) fun _ => ih

/-- Counting reads each slot once. -/
theorem countFingers_atMost (n : ℕ) (idx : ℤ) (num : CInt) :
    (countFingers n idx num).AtMost Op.readsSlot n := by
  induction n generalizing idx num with
  | zero => simp [countFingers]
  | succ n ih =>
    have hbind : (countFingers (n + 1) idx num).AtMost Op.readsSlot (1 + n) :=
      .bind (by simp) fun _ => .ite (ih _ _) (ih _ _)
    exact hbind.mono (by omega)

/-- Counting only reads the slots. -/
theorem countFingers_within (n : ℕ) (idx : ℤ) (num : CInt) :
    (countFingers n idx num).Within Op.readsSlot fun _ => False :=
  (countFingers_atMost n idx num).within

/-- Building the match request reads each slot twice at most. -/
theorem matchTemplates_atMost (n : ℕ) (idx : ℤ) (len : ℕ) :
    (matchTemplates n idx len).AtMost Op.readsSlot (2 * n) := by
  induction n generalizing idx len with
  | zero => simp [matchTemplates]
  | succ n ih =>
    rw [show 2 * (n + 1) = 1 + (1 + (2 * n + 0)) by omega]
    refine .bind (by simp) fun _ => .ite ?_ ((ih _ _).mono (by omega))
    exact .bind (by simp) fun _ => .bind (ih _ _) fun _ => by simp

/-- It only reads the slots. -/
theorem matchTemplates_within (n : ℕ) (idx : ℤ) (len : ℕ) :
    (matchTemplates n idx len).Within Op.readsSlot fun _ => False :=
  (matchTemplates_atMost n idx len).within

/-- The search for the matched finger reads each slot once. -/
theorem findMatched_atMost (fakeFid : CInt) (fingerindex : ℤ) (n : ℕ) (idx : ℤ) (len : CInt) :
    (findMatched fakeFid fingerindex n idx len).AtMost Op.readsSlot n := by
  induction n generalizing idx len with
  | zero => simp [findMatched]
  | succ n ih =>
    have hbind : (findMatched fakeFid fingerindex (n + 1) idx len).AtMost Op.readsSlot (1 + n) :=
      .bind (by simp) fun _ => .ite (.ite (by simp) (ih _ _)) (ih _ _)
    exact hbind.mono (by omega)

/-- It only reads the slots. -/
theorem findMatched_within (fakeFid : CInt) (fingerindex : ℤ) (n : ℕ) (idx : ℤ) (len : CInt) :
    (findMatched fakeFid fingerindex n idx len).Within Op.readsSlot fun _ => False :=
  (findMatched_atMost fakeFid fingerindex n idx len).within

/-- The search for a free slot reads each slot once. -/
theorem firstFreeSlot_atMost (n : ℕ) (idx : ℤ) : (firstFreeSlot n idx).AtMost Op.readsSlot n := by
  induction n generalizing idx with
  | zero => simp [firstFreeSlot]
  | succ n ih =>
    have hbind : (firstFreeSlot (n + 1) idx).AtMost Op.readsSlot (1 + n) :=
      .bind (by simp) fun _ => .ite (by simp) (ih _)
    exact hbind.mono (by omega)

/-- It only reads the slots. -/
theorem firstFreeSlot_within (n : ℕ) (idx : ℤ) :
    (firstFreeSlot n idx).Within Op.readsSlot fun _ => False :=
  (firstFreeSlot_atMost n idx).within

/-- The first `handle->ion_sbuffer` of a function, in a stage that it does not change. -/
theorem follows_ionSbuffer {S : Type} {P : Protocol Resp Ret S} {atomic : Call → Bool} {x : S}
    {Q : Unit → S → Prop} (hderef : ∀ r, P.next x (.op .derefHandle r) = some x)
    (hfault : ∀ r, P.next x (.op .fault r) = some x) (hQ : Q () x) :
    P.Follows atomic ionSbuffer Q x := by
  simp [ionSbuffer, hderef, hfault, hQ]

/-- The slot that `findMatched` finds when the slots stay as they are, 0 if there is none. -/
def matchedSlot (exist : ℤ → Bool) (fakeFid : CInt) : ℕ → ℤ → CInt → ℤ
  | 0, _, _ => 0
  | n + 1, idx, len =>
    if exist idx then
      if len + 1 = fakeFid then idx else matchedSlot exist fakeFid n (idx + 1) (len + 1)
    else matchedSlot exist fakeFid n (idx + 1) len

/-- The scan, in a stage in which the slots it looks at are relied on to stay as they are. -/
theorem follows_matchedSlot {S : Type} {P : Protocol Resp Ret S} {atomic : Call → Bool}
    {exist : ℤ → Bool} {x : S} {Q : ℤ → S → Prop} {fakeFid : CInt} (n : ℕ) (idx : ℤ) (len : CInt)
    (hread : ∀ j r, idx ≤ j → j < idx + n → P.assume x (.op (.load (.fingerExist j)) r) →
      r = exist j ∧ P.next x (.op (.load (.fingerExist j)) r) = some x)
    (hQ : Q (matchedSlot exist fakeFid n idx len) x) :
    P.Follows atomic (findMatched fakeFid 0 n idx len) Q x := by
  induction n generalizing idx len with
  | zero => exact hQ
  | succ n ih =>
    have hrest := fun j r (hj : idx + 1 ≤ j) (hlt : j < idx + 1 + n) =>
      hread j r (by omega) (by omega)
    simp only [findMatched, load, Protocol.follows_bind, Protocol.follows_perform, Protocol.opRule]
    intro r hr
    obtain ⟨rfl, hnext⟩ := hread idx r (by omega) (by omega) hr
    refine Protocol.Takes.intro hnext ?_ hr
    unfold matchedSlot at hQ
    by_cases he : exist idx = true
    · rw [if_pos he] at hQ ⊢
      by_cases hlen : len + 1 = fakeFid
      · rw [if_pos hlen] at hQ ⊢
        exact hQ
      · rw [if_neg hlen] at hQ ⊢
        exact ih _ _ hrest hQ
    · rw [if_neg he] at hQ ⊢
      exact ih _ _ hrest hQ

/-- The search for a free slot, in a stage in which the slots it looks at are relied on to stay as
they are. -/
theorem follows_firstFreeSlot {S : Type} {P : Protocol Resp Ret S} {atomic : Call → Bool}
    {exist : ℤ → Bool} {x : S} {Q : ℤ → S → Prop} (n : ℕ) (idx : ℤ)
    (hread : ∀ j r, P.assume x (.op (.load (.fingerExist j)) r) →
      r = exist j ∧ P.next x (.op (.load (.fingerExist j)) r) = some x)
    (hfree : ∀ j, idx ≤ j → j < idx + n → exist j = false → Q j x)
    (hfull : (∀ j, idx ≤ j → j < idx + n → exist j = true) → Q (idx + n) x) :
    P.Follows atomic (firstFreeSlot n idx) Q x := by
  induction n generalizing idx with
  | zero => simpa [firstFreeSlot] using hfull (by omega)
  | succ n ih =>
    simp only [firstFreeSlot, load, Protocol.follows_bind, Protocol.follows_perform, Protocol.opRule]
    intro r hr
    obtain ⟨rfl, hnext⟩ := hread idx r hr
    refine Protocol.Takes.intro hnext ?_ hr
    cases hidx : exist idx with
    | false => simpa using hfree idx (by omega) (by omega) hidx
    | true =>
      simp only [Bool.not_true, Bool.false_eq_true, if_false]
      refine ih (idx + 1) (fun j hle hlt => hfree j (by omega) (by omega)) fun h => ?_
      have hQ := hfull fun j hle hlt => by
        by_cases hj : j = idx
        · rw [hj, hidx]
        · exact h j (by omega) (by omega)
      rwa [show idx + ((n + 1 : ℕ) : ℤ) = idx + 1 + n by omega] at hQ

/-! ## The database -/

/-- The operations on the databases, with those that fetch and fill the slots. -/
def Op.storage : Op → Prop
  | .load .activeGid | .load (.fingerExist _) | .copyPayload _ _ => True
  | .sqlOpen | .sqlCreate _ | .sqlDelete _ _ | .sqlPrepareInsert _ => True
  | .sqlBindBlob _ | .sqlInsert _ _ _ _ | .sqlSelect _ => True
  | .legacyAccess | .legacyOpen | .legacySelectEnrollments | .legacySelectProperties => True
  | .legacyClose | .legacyRemove => True
  | o => o.fillsSlot

/-- The procedures that read and write the databases. -/
def dbCall : Call → Prop
  | .dbInit | .dbCheckAndCreateTable | .dbConvertOldDb | .dbReadToTz | .dbWriteToDb _ _ => True
  | _ => False

attribute [local simp] Op.storage dbCall

/-- Filling a slot is storing. -/
theorem storage_of_fillsSlot (o : Op) (ho : o.fillsSlot) : o.storage := by
  cases o with
  | store v a => cases v <;> trivial
  | _ => trivial

/-- Writing what was read only stores. -/
theorem writeEnrollments_within (payload : List UInt8) (n : ℕ) (idx : ℤ) :
    (writeEnrollments payload n idx).Within Op.storage dbCall := by
  induction n generalizing idx with
  | zero => simp [writeEnrollments]
  | succ n ih =>
    refine .bind (by simp) fun _ => .ite ?_ (ih _)
    exact .bind (by simp) fun _ => .bind (by simp) fun _ => ih _

/-- They do nothing else. -/
theorem dbCall_within {c : Call} (hc : dbCall c) : (body c).Within Op.storage dbCall := by
  have hfills : ∀ {p : Code Unit}, p.Within Op.fillsSlot (fun _ => False) →
      p.Within Op.storage dbCall :=
    fun hp => hp.mono storage_of_fillsSlot fun _ => False.elim
  cases c <;> first | cases hc; done | skip
  case dbConvertOldDb =>
    refine .bind (hfills (clearFingers_within ..)) fun _ => .bind (by simp) fun _ => ?_
    refine .ite (by simp) (.bind (by simp) fun _ => .bind (hfills (readEnrollments_within _)) ?_)
    refine fun _ => .bind (by simp) fun _ => .bind (by simp) fun _ => ?_
    refine .bind (writeEnrollments_within ..) fun _ => .bind (by simp) fun _ => ?_
    exact .ite (by simp) (by simp)
  case dbReadToTz =>
    refine .bind (by simp) fun _ => .bind (by simp) fun _ => .ite (by simp) ?_
    refine .bind (hfills (clearFingers_within ..)) fun _ => .bind (by simp) fun _ => ?_
    exact .bind (by simp) fun _ => .bind (hfills (readRows_within _)) fun _ => by simp
  all_goals simp [Prog.Within, body, dbCheckAndCreateTable, dbWriteToDb, dbInit]

/-- The loop of `fingerprint_remove`, for any operations and calls that include its own. -/
theorem removeFingers_within {A : Op → Prop} {B : Call → Prop}
    (hread : ∀ idx, A (.load (.fingerExist idx))) (hlock : A (.lock .vdevLock))
    (hunlock : A (.unlock .vdevLock)) (hwrite : ∀ idx, B (.dbWriteToDb true idx))
    (hnotice : ∀ idx, B (.sendRemoveNotice idx)) (n : ℕ) (idx : ℤ) (ret : CInt) :
    (removeFingers n idx ret).Within A B := by
  induction n generalizing idx ret with
  | zero => simp [removeFingers]
  | succ n ih =>
    refine .bind (by simp [hread]) fun _ => .ite ?_ (ih _ _)
    refine .bind (by simp [hlock]) fun _ => .bind (by simp [hwrite]) fun _ => ?_
    refine .bind (by simp [hunlock]) fun _ => ?_
    exact .ite (.bind (by simp [hnotice]) fun _ => ih _ _) (ih _ _)

end KlteCommon.Fingerprint

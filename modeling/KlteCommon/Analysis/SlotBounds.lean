import KlteCommon.Computation.Paths
import KlteCommon.Fingerprint.Effects
import KlteCommon.Fingerprint.Loops

/-!
# The bounds of the slots

`tz.finger` has the indices `0..MAX_NUM_FINGERS`. The ids that index it come from the framework
(`fingerprint_remove`) and from Samsung's database (`db_convert_old_db`), and so do the lengths of
the blobs that are copied into a slot; nothing tests them.

The ladder: the bodies stay in bounds as long as the fid, the ids and the blobs do
(`bounds_remove`, `bounds_convert`); otherwise some run gets to an access that does not
(`strays_remove`, `strays_enrollments`, `strays_payload`); so the accesses are in bounds exactly for
a fid of at most `MAX_NUM_FINGERS` and for a database that fits (`slotAccesses_iff`).
-/

set_option autoImplicit false

namespace KlteCommon.Analysis

open KlteCommon.Computation KlteCommon.Fingerprint

/-! ## What is observed -/

/-- The slot an operation uses. -/
def slotOf : Op → Option ℤ
  | .load (.finger j) | .load (.fingerExist j) | .load (.fingerData j) => some j
  | .load (.fingerPayload j) | .store (.finger j) _ | .store (.fingerExist j) _ => some j
  | .store (.fingerData j) _ | .store (.fingerPayload j) _ => some j
  | .copyData j _ | .copyPayload j _ | .sqlInsert _ j _ _ => some j
  | _ => none

/-- A blob that is copied into a slot is not longer than its array. -/
def copyFits : Op → Bool
  | .copyData _ blob => blob.length ≤ fingerDataMaxLength
  | .copyPayload _ blob => blob.length ≤ payloadMaxLength
  | _ => true

/-- An index of `tz.finger`. -/
def isIndex (j : ℤ) : Bool := 0 ≤ j && j ≤ maxNumFingers

/-- An event uses `tz.finger` within its bounds. -/
def inBounds : HalEvent → Bool
  | .op o _ => (slotOf o).all isIndex && copyFits o
  | _ => true

/-- Code that runs alone in memory `m` never leaves the bounds, however far it gets. -/
def StaysInBounds {α : Type} (m : Mem) (p : Code α) : Prop :=
  ∀ fin t chs es q m', hal.solo fin t chs p m = some (es, q, m') → es.all inBounds = true

/-- The ids and the blobs of Samsung's database fit. The payload need not if no slot can be
occupied when it is copied; `last` says that `MAX_NUM_FINGERS` is, which the `memset` misses. -/
structure FitsSlots (legacy : Option LegacyDb) (last : Prop) : Prop where
  enrollments : ∀ l, legacy = some l → ∀ e ∈ l.enrollments,
    isIndex e.1 = true ∧ e.2.length ≤ fingerDataMaxLength
  payload : ∀ l, legacy = some l → ((∃ e ∈ l.enrollments, e.1 ≠ 0) ∨ last) →
    (l.properties.headD []).length ≤ payloadMaxLength

/-! ## Nothing else leaves the bounds -/

/-- The slots that may be occupied after an event. -/
def mayAfter (x : ℤ → Prop) : HalEvent → (ℤ → Prop)
  | .op (.store (.finger j) f) _ => fun i => if i = j then f.exist = true else x i
  | .op (.store (.fingerExist j) _) _ => fun i => i = j ∨ x i
  | .op .clearTz _ => fun _ => False
  | _ => x

/-- What the reads return, when Samsung's database is `legacy`. -/
def boundsReads (legacy : Option LegacyDb) (x : ℤ → Prop) : HalEvent → Prop
  | .op (.load (.fingerExist j)) r => r = true → x j
  | .op .legacySelectEnrollments r => ∀ rows, r = some rows →
    ∃ l, legacy = some l ∧ rows = l.enrollments
  | .op .legacySelectProperties r => ∀ properties, r = some properties →
    ∃ l, legacy = some l ∧ properties = l.properties
  | _ => True

/-- The procedures that are called. -/
def boundsCalls : Call → Prop
  | .dbWriteToDb _ j => isIndex j = true
  | .sendRemoveNotice _ | .sendErrorNotice _ => True
  | _ => False

/-- The protocol of code that stays in bounds. -/
@[simps] def boundsProtocol (legacy : Option LegacyDb) : Protocol Resp Ret (ℤ → Prop) where
  assume x e := boundsReads legacy x e
  next x e := if inBounds e then some (mayAfter x e) else none
  pre c _ := boundsCalls c
  post _ x _ y := ∀ j, y j → x j

section

variable (legacy : Option LegacyDb) (x y : ℤ → Prop) (c : Call) (r : Ret c) (e : HalEvent)

/-- A call by its contract. -/
@[simp ↓] theorem callRule_bounds (Q : Ret c → (ℤ → Prop) → Prop) :
    (boundsProtocol legacy).callRule fine c Q x ↔
      boundsCalls c ∧ ∀ r y, (∀ j, y j → x j) → Q r y :=
  Protocol.callRule_entered rfl trivial rfl

end

/-- The indices of the array. -/
theorem isIndex_iff {j : ℤ} : isIndex j = true ↔ 0 ≤ j ∧ j ≤ maxNumFingers := by simp [isIndex]

section bodies

attribute [local simp ↓] load store op call send ionSbuffer sameIonSbuffer

attribute [local simp] boundsCalls boundsReads mayAfter inBounds slotOf copyFits

variable {legacy : Option LegacyDb}

/-- The bodies of the inner procedures keep to the bounds. -/
theorem boundsProtocol_valid : (boundsProtocol legacy).Valid fine body := by
  intro c _ x hx
  cases c
  all_goals simp at hx
  case sendRemoveNotice => simp [body, sendRemoveNotice]
  case sendErrorNotice => simp [body, sendErrorNotice]
  case dbWriteToDb remove fid _ =>
    cases remove with
    | false => simp [body, dbWriteToDb, hx]
    | true =>
      simp [body, dbWriteToDb, hx, Finger.zero]

/-- Clearing `n` slots from `idx` on. -/
theorem bounds_clearFingers (n : ℕ) (idx : ℤ) (x : ℤ → Prop) (hlow : 0 ≤ idx)
    (hhigh : idx + n ≤ maxNumFingers + 1) :
    (boundsProtocol legacy).Follows fine (clearFingers n idx)
      (fun _ y => ∀ j, y j → x j ∧ ¬ (idx ≤ j ∧ j < idx + n)) x := by
  induction n generalizing idx x with
  | zero => simp [clearFingers]
  | succ n ih =>
    have hidx : isIndex idx = true := isIndex_iff.mpr (by omega)
    simp [clearFingers, hidx]
    refine (ih _ _ (by omega) (by omega)).mono ?_
    intro _ y hy j hj
    obtain ⟨hx, hout⟩ := hy j hj
    by_cases hji : j = idx
    · rw [if_pos hji] at hx
      cases hx
    · rw [if_neg hji] at hx
      exact ⟨hx, by omega⟩

/-- Reading enrollments that fit. -/
theorem bounds_readEnrollments (rows : List (ℤ × List UInt8)) (x : ℤ → Prop)
    (hfit : ∀ e ∈ rows, isIndex e.1 = true ∧ e.2.length ≤ fingerDataMaxLength) :
    (boundsProtocol legacy).Follows fine (readEnrollments rows)
      (fun _ y => ∀ j, y j → x j ∨ ∃ e ∈ rows, e.1 = j) x := by
  induction rows generalizing x with
  | nil => simp [readEnrollments]
  | cons e rows ih =>
    obtain ⟨⟨hidx, hlen⟩, hrows⟩ := List.forall_mem_cons.mp hfit
    have hrest : (boundsProtocol legacy).Follows fine (readEnrollments rows)
        (fun _ y => ∀ j, y j → x j ∨ ∃ e' ∈ e :: rows, e'.1 = j) (fun i => i = e.1 ∨ x i) := by
      refine (ih _ hrows).mono fun _ y hy j hj => ?_
      obtain (rfl | hx) | ⟨e', he', rfl⟩ := hy j hj
      · exact .inr ⟨e, List.mem_cons_self, rfl⟩
      · exact .inl hx
      · exact .inr ⟨e', List.mem_cons_of_mem _ he', rfl⟩
    simp [readEnrollments, hidx, hlen] at hrest ⊢
    exact fun r => ⟨fun _ => hrest, fun _ j hj => .inl hj⟩

/-- Storing the occupied slots, with a payload that fits if there are any. -/
theorem bounds_writeEnrollments (payload : List UInt8) (n : ℕ) (idx : ℤ) (x : ℤ → Prop)
    (hlow : 0 ≤ idx) (hhigh : idx + n ≤ maxNumFingers + 1)
    (hfit : ∀ j, idx ≤ j → j < idx + n → x j → payload.length ≤ payloadMaxLength) :
    (boundsProtocol legacy).Follows fine (writeEnrollments payload n idx) (fun _ _ => True) x := by
  induction n generalizing idx x with
  | zero => simp [writeEnrollments]
  | succ n ih =>
    have hidx : isIndex idx = true := isIndex_iff.mpr (by omega)
    have hrest : ∀ y : ℤ → Prop, (∀ j, y j → x j) → (boundsProtocol legacy).Follows fine
        (writeEnrollments payload n (idx + 1)) (fun _ _ => True) y := fun y hy =>
      ih (idx + 1) y (by omega) (by omega) fun j hle hlt hj =>
        hfit j (by omega) (by omega) (hy j hj)
    simp [writeEnrollments, hidx]
    refine ⟨hrest x fun _ h => h, fun hx => ?_⟩
    rw [if_pos (hfit idx (Int.le_refl idx) (by omega) hx)]
    exact hrest

/-- So does the conversion, of a database that fits. -/
theorem bounds_convert {x : ℤ → Prop} (h : FitsSlots legacy (x maxNumFingers)) :
    (boundsProtocol legacy).Follows fine dbConvertOldDb (fun _ _ => True) x := by
  refine .bind ((bounds_clearFingers _ _ _ (Int.le_refl 0) (by omega)).mono ?_)
  intro _ y hy
  simp
  intro rows hrows
  have hfrom : ∀ e ∈ rows.getD [], ∃ l, legacy = some l ∧ e ∈ l.enrollments := by
    cases rows with
    | none => exact nofun
    | some rows =>
      obtain ⟨l, hl, rfl⟩ := hrows rows rfl
      exact fun e he => ⟨l, hl, he⟩
  refine (bounds_readEnrollments _ _ fun e he => ?_).mono ?_
  · obtain ⟨l, hl, hel⟩ := hfrom e he
    exact h.enrollments l hl e hel
  intro _ z hz
  simp
  intro properties hproperties r
  refine (bounds_writeEnrollments _ _ _ _ (by omega) (by omega) fun j hle hlt hj => ?_).mono ?_
  · split
    · cases properties with
      | none => simp
      | some properties =>
        obtain ⟨l, hl, rfl⟩ := hproperties properties rfl
        have hpayload := h.payload l hl ?_
        · simpa using hpayload
        obtain hy' | ⟨e, he, rfl⟩ := hz j hj
        · obtain ⟨hx, hout⟩ := hy j hy'
          obtain rfl : j = maxNumFingers := by omega
          exact .inr hx
        · obtain ⟨l', hl', hel⟩ := hfrom e he
          obtain rfl : l = l' := Option.some.inj (hl.symm.trans hl')
          exact .inl ⟨e, hel, by omega⟩
    · simp
  · simp

/-- Removing all fingers. -/
theorem bounds_removeFingers (n : ℕ) (idx : ℤ) (ret : CInt) (x : ℤ → Prop) (hlow : 0 ≤ idx)
    (hhigh : idx + n ≤ maxNumFingers + 1) :
    (boundsProtocol legacy).Follows fine (removeFingers n idx ret) (fun _ _ => True) x := by
  induction n generalizing idx ret x with
  | zero => simp [removeFingers]
  | succ n ih =>
    have hidx : isIndex idx = true := isIndex_iff.mpr (by omega)
    have hrest : ∀ ret y, (boundsProtocol legacy).Follows fine
      (removeFingers n (idx + 1) ret) (fun _ _ => True) y := fun ret y =>
        ih (idx + 1) ret y (by omega) (by omega)
    simp [removeFingers, hidx, hrest]

/-- So does the removal, of a slot that is one. -/
theorem bounds_remove {fid : UInt32} {x : ℤ → Prop} (hfid : isIndex (gidNumber fid) = true) :
    (boundsProtocol legacy).Follows fine (fingerprintRemove fid) (fun _ _ => True) x := by
  simp [fingerprintRemove, hfid]
  intro _
  refine (bounds_removeFingers _ _ _ _ (by omega) (by omega)).mono ?_
  simp

end bodies

/-! ## Code that runs alone -/

section alone

variable {fin : Tid → Bool} {t : Tid} {m m' : Mem}

/-- A stage knows what may be occupied, and Samsung's database is what it was or is gone. -/
structure Bounded (legacy : Option LegacyDb) (x : ℤ → Prop) (m : Mem) : Prop where
  exist : ∀ j, (m.tz.finger j).exist = true → x j
  legacy : ∀ l, m.legacy = some l → legacy = some l

/-- What is known of the occupied slots stays true. -/
theorem mayAfter_exist {x : ℤ → Prop} {old : ℤ → Finger} {o : Op} (r : Resp o)
    (h : ∀ j, (old j).exist = true → x j) (j : ℤ) (hj : (fingerAfter old o j).exist = true) :
    mayAfter x (.op o r) j := by
  cases o with
  | store v a =>
    cases v with
    | finger i =>
      by_cases hji : j = i
      · subst hji
        simpa [fingerAfter, mayAfter] using hj
      · simpa [fingerAfter, mayAfter, hji] using h j (by simpa [fingerAfter, hji] using hj)
    | fingerExist i =>
      by_cases hji : j = i
      · exact .inl hji
      · exact .inr (h j (by simpa [fingerAfter, hji] using hj))
    | fingerData i | fingerPayload i =>
      refine h j ?_
      by_cases hji : j = i
      · subst hji
        simpa [fingerAfter] using hj
      · simpa [fingerAfter, hji] using hj
    | _ => exact h j hj
  | copyData i blob | copyPayload i blob =>
    refine h j ?_
    by_cases hji : j = i
    · subst hji
      simpa [fingerAfter] using hj
    · simpa [fingerAfter, hji] using hj
  | clearTz => cases hj
  | _ => exact h j hj

/-- A step that is taken alone does what is known of it. -/
theorem bounded_act {legacy : Option LegacyDb} {x : ℤ → Prop} {o : Op} {ch : Choice} {r : Resp o}
    (hx : Bounded legacy x m) (h : act fin t o ch m = some (r, m')) :
    boundsReads legacy x (.op o r) ∧ ∀ y, (boundsProtocol legacy).next x (.op o r) = some y →
      Bounded legacy y m' := by
  have heff := act_effect h
  refine ⟨?_, fun y hy => ⟨fun j hj => ?_, fun l hl => hx.legacy l ?_⟩⟩
  · cases o with
    | load v =>
      obtain ⟨rfl, -⟩ := by simpa [act] using h
      cases v with
      | fingerExist j => exact hx.exist j
      | _ => trivial
    | legacySelectEnrollments | legacySelectProperties =>
      obtain ⟨rfl, -⟩ := by simpa [act] using h
      intro rows hrows
      split at hrows
      · obtain ⟨l, hl, rfl⟩ := Option.map_eq_some_iff.mp hrows
        exact ⟨l, hx.legacy l hl, rfl⟩
      · cases hrows
    | _ => trivial
  · simp only [boundsProtocol_next] at hy
    split at hy
    · cases hy
      exact mayAfter_exist r hx.exist j (heff.finger ▸ hj)
    · cases hy
  · rw [heff.legacy] at hl
    unfold legacyAfter at hl
    split at hl
    · split at hl
      · cases hl
      · exact hl
    · exact hl

/-- Code that keeps to the protocol stays in bounds. -/
theorem staysInBounds_of_follows {α : Type} {p : Code α} {Q : α → (ℤ → Prop) → Prop}
    (hp : (boundsProtocol m.legacy).Follows fine p Q fun j => (m.tz.finger j).exist = true) :
    StaysInBounds m p := by
  intro fin t chs es q m' h
  obtain ⟨y, hy, -⟩ := hp.alone (J := Bounded m.legacy) (X := fun _ => True) (fun _ => rfl)
    boundsProtocol_valid (fun x m o ch r m' hx hact _ => bounded_act hx hact)
    (fun x m c hx => ⟨trivial, fun y hy => by cases hy; exact hx⟩) ⟨fun _ h => h, fun _ h => h⟩
    (fun _ _ => trivial) h
  refine List.all_eq_true.mpr fun e he => ?_
  obtain ⟨later, earlier, hes⟩ := List.append_of_mem (List.mem_reverse.mpr he)
  rw [hes] at hy
  obtain ⟨z, z', -, hz⟩ := Protocol.stage_split hy
  by_contra hout
  simp [hout] at hz

/-! ## How the bounds are left -/

/-- Code can get to an event out of bounds. -/
def Strays {α : Type} (fin : Tid → Bool) (t : Tid) (p : Code α) (m : Mem) : Prop :=
  ∃ chs es q m', hal.solo fin t chs p m = some (es, q, m') ∧ es.all inBounds = false

/-- One access out of bounds is enough. -/
theorem not_staysInBounds {α : Type} {p : Code α} (h : Strays (fun _ => false) 0 p m) :
    ¬ StaysInBounds m p := by
  obtain ⟨chs, es, q, m', hsolo, hes⟩ := h
  intro hstays
  rw [hstays _ _ chs es q m' hsolo] at hes
  cases hes

section

variable {α : Type}

/-- The access is out of bounds. -/
theorem Strays.now {o : Op} {k : Resp o → Code α} {r : Resp o} (ch : Choice)
    (hact : act fin t o ch m = some (r, m')) (hout : inBounds (.op o r) = false) :
    Strays fin t (.op o k) m :=
  ⟨[ch], [.op o r], k r, m', by simp [Machine.solo, Machine.stepFine, hact], by simp [hout]⟩

/-- An access behind an operation is. -/
theorem Strays.op {o : Op} {k : Resp o → Code α} {r : Resp o} (ch : Choice)
    (hact : act fin t o ch m = some (r, m')) (h : Strays fin t (k r) m') :
    Strays fin t (.op o k) m := by
  obtain ⟨chs, es, q, m'', hsolo, hes⟩ := h
  refine ⟨ch :: chs, .op o r :: es, q, m'', ?_, by simp [hes]⟩
  simp [Machine.solo, Machine.stepFine, hact, hsolo]

/-- An access in a procedure, or behind it, is. -/
theorem Strays.call {c : Call} {k : Ret c → Code α} (h : Strays fin t (body c >>= k) m) :
    Strays fin t (.call c k) m := by
  obtain ⟨chs, es, q, m', hsolo, hes⟩ := h
  refine ⟨.tick :: chs, .enter c :: es, q, m', ?_, by simp [hes]⟩
  simp [Machine.solo, Machine.stepFine, hsolo]

/-- Clearing slots leaves the others. -/
theorem strays_clearFingers {f : Unit → Code α} (n : ℕ) (idx : ℤ) (m : Mem)
    (h : ∀ m', m'.legacy = m.legacy →
      (∀ j, idx + n ≤ j → m'.tz.finger j = m.tz.finger j) → Strays fin t (f ()) m') :
    Strays fin t (clearFingers n idx >>= f) m := by
  induction n generalizing idx m with
  | zero => exact h m rfl fun _ _ => rfl
  | succ n ih =>
    refine .op .tick rfl (ih (idx + 1) _ fun m' hlegacy hfinger => h m' hlegacy fun j hj => ?_)
    rw [hfinger j (by omega)]
    exact Function.update_of_ne (by omega) _ _

/-- Reading an enrollment that does not fit. -/
theorem strays_readEnrollments {f : Unit → Code α} (rows : List (ℤ × List UInt8)) (m : Mem)
    (h : ∃ e ∈ rows, ¬ (isIndex e.1 = true ∧ e.2.length ≤ fingerDataMaxLength)) :
    Strays fin t (readEnrollments rows >>= f) m := by
  induction rows generalizing m with
  | nil => simp at h
  | cons e rows ih =>
    refine .op (.num 100) rfl ?_
    by_cases hfit : isIndex e.1 = true ∧ e.2.length ≤ fingerDataMaxLength
    · refine .op .tick rfl (.op .tick rfl (ih _ ?_))
      obtain ⟨e', he', hnot⟩ := h
      obtain rfl | he' := List.mem_cons.mp he'
      · exact absurd hfit hnot
      · exact ⟨e', he', hnot⟩
    · refine .now .tick rfl ?_
      simpa [inBounds, slotOf, copyFits] using hfit

/-- Reading enrollments to the end occupies their slots. -/
theorem strays_allEnrollments {f : Unit → Code α} (rows : List (ℤ × List UInt8)) (m : Mem)
    (h : ∀ m', m'.legacy = m.legacy →
      (∀ j, (m.tz.finger j).exist = true ∨ (∃ e ∈ rows, e.1 = j) →
        (m'.tz.finger j).exist = true) → Strays fin t (f ()) m') :
    Strays fin t (readEnrollments rows >>= f) m := by
  induction rows generalizing m with
  | nil => exact .op (.num 101) rfl (h m rfl (by simp))
  | cons e rows ih =>
    refine .op (.num 100) rfl (.op .tick rfl (.op .tick rfl (ih _ fun m' hlegacy hexist => ?_)))
    refine h m' hlegacy fun j hj => hexist j ?_
    by_cases hej : j = e.1
    · subst hej
      exact .inl (by simp [Mem.set, Mem.setFinger])
    · obtain hm | ⟨e', he', rfl⟩ := hj
      · exact .inl (by simpa [Mem.set, Mem.setFinger, hej] using hm)
      · obtain rfl | he' := List.mem_cons.mp he'
        · exact absurd rfl hej
        · exact .inr ⟨e', he', rfl⟩

/-- Storing an occupied slot with a payload that does not fit. -/
theorem strays_writeEnrollments {f : Unit → Code α} {payload : List UInt8}
    (hlong : payloadMaxLength < payload.length) (n : ℕ) (idx : ℤ) (m : Mem)
    (h : ∃ j, idx ≤ j ∧ j < idx + n ∧ (m.tz.finger j).exist = true) :
    Strays fin t (writeEnrollments payload n idx >>= f) m := by
  induction n generalizing idx m with
  | zero =>
    obtain ⟨j, hle, hlt, -⟩ := h
    omega
  | succ n ih =>
    have hload : act fin t (.load (.fingerExist idx)) .tick m =
        some ((m.tz.finger idx).exist, m) := rfl
    cases hidx : (m.tz.finger idx).exist with
    | true =>
      rw [hidx] at hload
      refine .op .tick hload (.now .tick rfl ?_)
      simp [inBounds, copyFits, Nat.not_le.mpr hlong]
    | false =>
      rw [hidx] at hload
      obtain ⟨j, hle, hlt, hj⟩ := h
      have hne : j ≠ idx := by
        rintro rfl
        simp [hidx] at hj
      exact .op .tick hload (ih (idx + 1) m ⟨j, by omega, by omega, hj⟩)

end

/-- An enrollment that does not fit is copied in any case. -/
theorem strays_enrollments {l : LegacyDb} (hl : m.legacy = some l)
    (h : ∃ e ∈ l.enrollments, ¬ (isIndex e.1 = true ∧ e.2.length ≤ fingerDataMaxLength)) :
    Strays fin t dbConvertOldDb m := by
  refine strays_clearFingers _ _ m fun m₁ hlegacy _ => .op .tick rfl ?_
  have hselect : act fin t .legacySelectEnrollments .tick m₁ = some (some l.enrollments, m₁) := by
    simp [act, Choice.int, sqliteOk, hlegacy, hl]
  exact .op .tick hselect (strays_readEnrollments _ _ h)

/-- A payload that does not fit is copied if a slot can be occupied. -/
theorem strays_payload {l : LegacyDb} (hl : m.legacy = some l)
    (hid : ∀ e ∈ l.enrollments, isIndex e.1 = true)
    (hslot : (∃ e ∈ l.enrollments, e.1 ≠ 0) ∨ (m.tz.finger maxNumFingers).exist = true)
    (hlong : payloadMaxLength < (l.properties.headD []).length) :
    Strays fin t dbConvertOldDb m := by
  refine strays_clearFingers _ _ m fun m₁ hlegacy₁ hkeep => .op .tick rfl ?_
  have hselect : act fin t .legacySelectEnrollments .tick m₁ = some (some l.enrollments, m₁) := by
    simp [act, Choice.int, sqliteOk, hlegacy₁, hl]
  refine .op .tick hselect (strays_allEnrollments _ _ fun m₂ hlegacy₂ hexist => ?_)
  have hproperties : act fin t .legacySelectProperties .tick m₂ =
      some (some l.properties, m₂) := by
    simp [act, Choice.int, sqliteOk, hlegacy₂, hlegacy₁, hl]
  refine .op .tick hproperties ?_
  have hstep : act fin t (.sqlStep !l.properties.isEmpty) (.num 100) m₂ = some (sqliteRow, m₂) := by
    cases hl : l.properties with
    | nil => simp [hl] at hlong
    | cons payload rest => rfl
  refine .op (.num 100) hstep (strays_writeEnrollments hlong _ _ _ ?_)
  obtain ⟨e, he, hne⟩ | hleft := hslot
  · obtain ⟨hlow, hhigh⟩ := isIndex_iff.mp (hid e he)
    exact ⟨e.1, by omega, by omega, hexist e.1 (.inr ⟨e, he, rfl⟩)⟩
  · refine ⟨maxNumFingers, by decide, by decide, hexist _ (.inl ?_)⟩
    rw [hkeep _ (by decide)]
    exact hleft

/-- The removal of a finger whose id is no index. -/
theorem strays_remove {fid : UInt32} (hfree : m.locks .vdevLock = none)
    (hfid : isIndex (gidNumber fid) = false) : Strays fin t (fingerprintRemove fid) m := by
  have hne : fid ≠ 0 := by
    rintro rfl
    exact absurd hfid (by decide)
  unfold fingerprintRemove
  rw [if_neg hne]
  have hlock : act fin t (.lock .vdevLock) .tick m = some ((), m.setLock .vdevLock (some t)) :=
    if_pos hfree
  refine .op .tick hlock (.call (.op .tick rfl (.op (.num 1) rfl ?_)))
  refine .now .tick rfl ?_
  simp [inBounds, slotOf, hfid]

/-- Without the lock of the device a removal of one finger does not begin. -/
theorem solo_remove_locked {fid : UInt32} {chs : List Choice} {es : List HalEvent} {q : Code CInt}
    (hlock : m.locks .vdevLock ≠ none) (hne : fid ≠ 0)
    (h : hal.solo fin t chs (fingerprintRemove fid) m = some (es, q, m')) : es = [] := by
  unfold fingerprintRemove at h
  rw [if_neg hne] at h
  cases chs with
  | nil =>
    cases h
    rfl
  | cons ch chs =>
    have hact : act fin t (.lock .vdevLock) ch m = none := if_neg hlock
    simp [Machine.solo, Machine.stepFine, op, Prog.perform, hact] at h

end alone

/-- **The slots are accessed in bounds** exactly if the fid that is removed, whose removal begins
with the lock of the device, is an index of `tz.finger`, and if Samsung's database fits. -/
theorem slotAccesses_iff (m : Mem) (fid : UInt32) :
    (StaysInBounds m (fingerprintRemove fid) ↔
      (m.locks .vdevLock = none → isIndex (gidNumber fid) = true)) ∧
    (StaysInBounds m dbConvertOldDb ↔
      FitsSlots m.legacy ((m.tz.finger maxNumFingers).exist = true)) := by
  refine ⟨⟨fun h hfree => ?_, fun h => ?_⟩, fun h => ⟨?_, ?_⟩, fun h => ?_⟩
  · by_contra hfid
    exact not_staysInBounds (strays_remove hfree (by simpa using hfid)) h
  · by_cases hne : fid ≠ 0 ∧ m.locks .vdevLock ≠ none
    · intro fin t chs es q m' hsolo
      rw [solo_remove_locked hne.2 hne.1 hsolo]
      rfl
    · refine staysInBounds_of_follows (bounds_remove ?_)
      by_cases hzero : fid = 0
      · subst hzero
        decide
      · exact h (by_contra fun hlock => hne ⟨hzero, hlock⟩)
  · intro l hl e he
    by_contra hnot
    exact not_staysInBounds (strays_enrollments hl ⟨e, he, hnot⟩) h
  · intro l hl hslot
    by_contra hlong
    by_cases hid : ∀ e ∈ l.enrollments, isIndex e.1 = true
    · exact not_staysInBounds (strays_payload hl hid hslot (by omega)) h
    · obtain ⟨e, he⟩ := not_forall.mp hid
      have hmem : e ∈ l.enrollments := by_contra fun hnot => he fun h => absurd h hnot
      exact not_staysInBounds (strays_enrollments hl ⟨e, hmem, fun h => he fun _ => h.1⟩) h
  · exact staysInBounds_of_follows (bounds_convert h)

/-- Samsung's database with one enrollment, of finger 9. -/
def ninthEnrolled : Mem := { Mem.zero with legacy := some ⟨[(9, [])], []⟩ }

/-- Finger 6 is removed, which clears the slot behind the last one; finger 9 is converted, which
fills another one. -/
theorem out_of_bounds : ¬ StaysInBounds Mem.zero (fingerprintRemove 6) ∧
    ¬ StaysInBounds ninthEnrolled dbConvertOldDb := by
  constructor
  · obtain ⟨es, q, m', h, hes⟩ : ∃ es q m', hal.solo (fun _ => false) 0
        [.tick, .tick, .tick, .num 1, .tick] (fingerprintRemove 6) Mem.zero = some (es, q, m') ∧
          es.all inBounds = false := ⟨_, _, _, rfl, rfl⟩
    exact not_staysInBounds ⟨_, es, q, m', h, hes⟩
  · obtain ⟨es, q, m', h, hes⟩ : ∃ es q m', hal.solo (fun _ => false) 0
        (List.replicate 7 .tick ++ [.num 100, .tick]) dbConvertOldDb ninthEnrolled =
          some (es, q, m') ∧ es.all inBounds = false := ⟨_, _, _, rfl, rfl⟩
    exact not_staysInBounds ⟨_, es, q, m', h, hes⟩

end KlteCommon.Analysis

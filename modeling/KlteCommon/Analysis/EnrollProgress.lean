import KlteCommon.Analysis.Commit
import KlteCommon.Computation.Paths

/-!
# The progress of an enrollment

`vcs_enroll` counts down from 8 with every image TrustZone takes and reports what is left. The
count is set to 0 by a reply that says that the template is complete, and put back to 1 when it gets
to 0 by itself.

The ladder: the count after `k` images that did not complete the template is `8 - k`, but at least 1
(`toInt_samplesRemaining`); so the body keeps to the protocol in which every image that is taken is
followed by the one notice that belongs to it (`courseProtocol_valid`); and what the notices of any
run are is read off the stages (`progress_of_sound`, `progress_of_reaches`).
-/

set_option autoImplicit false

namespace KlteCommon.Analysis

open KlteCommon.Computation KlteCommon.Fingerprint

/-! ## What is observed -/

/-- The reply to an image that was taken. -/
def imageOf : HalEvent → Option Reply
  | .op (.qseecomSendCmd req) r => if req.cmd = .vfmEnrollAddImage && !r.failed then some r else none
  | _ => none

/-- What is passed to `send_enroll_notice`. -/
def noticeOf : HalEvent → Option (ℤ × CInt)
  | .enter (.sendEnrollNotice fid remaining) => some (fid, remaining)
  | _ => none

/-- The reply says that the template is complete. -/
def complete (r : Reply) : Prop := r.data 2 = 0x1

instance (r : Reply) : Decidable (complete r) := inferInstanceAs (Decidable (_ = _))

/-- The notices to the images that were taken, both oldest first: they count down to 1 and stay
there, and get to 0 exactly with the image that completes the template, which is the last one. -/
structure Progress (images : List Reply) (notices : List (ℤ × CInt)) : Prop where
  fid : ∃ fid, ∀ n ∈ notices, n.1 = fid
  range : ∀ n ∈ notices, 0 ≤ n.2.toInt ∧ n.2.toInt ≤ 7
  antitone : notices.Pairwise fun a b => b.2.toInt ≤ a.2.toInt
  zero : ∀ p ∈ images.zip notices, p.2.2 = 0 ↔ complete p.1
  last : ∀ r ∈ images.dropLast, ¬ complete r
  stays : ∀ p ∈ (images.zip notices).drop 6, ¬ complete p.1 → p.2.2 = 1

/-! ## The protocol -/

/-- The images that were taken with their notices, newest first, and the image that has none yet. -/
structure Course where
  taken : List (Reply × ℤ × CInt)
  pending : Option Reply

/-- What is left after `k` images and one more. -/
def left (k : ℕ) (r : Reply) : ℤ := if complete r then 0 else max (7 - k) 1

/-- An image is taken. -/
def Course.image (x : Course) (r : Reply) : Option Course :=
  if ∀ p ∈ x.taken, ¬ complete p.1 then some { x with pending := some r } else none

/-- An image is reported. -/
def Course.report (x : Course) (fid : ℤ) (remaining : CInt) : Option Course :=
  match x.pending with
  | some r =>
    if remaining.toInt = left x.taken.length r ∧ ∀ p ∈ x.taken, p.2.1 = fid then
      some ⟨(r, fid, remaining) :: x.taken, none⟩
    else none
  | none => none

/-- One event; an image is reported before anything else is done. -/
def Course.after (x : Course) : HalEvent → Option Course
  | .enter (.sendEnrollNotice fid remaining) => x.report fid remaining
  | .done _ _ => none
  | e =>
    if x.pending.isSome then none
    else
      match imageOf e with
      | some r => x.image r
      | none => some x

/-- The procedures that take part, once an image that was taken has been reported. -/
def courseCalls (x : Course) : Call → Prop
  | .vcsEnroll => x = ⟨[], none⟩
  | .vcsEnrollLoop idx count => x.pending = none ∧
    (∀ p ∈ x.taken, ¬ complete p.1 ∧ p.2.1 = idx) ∧ count.toInt = max (8 - x.taken.length) 1
  | .getTzState | .setTzState _ | .sensorUninit | .vcsUninit => x.pending = none
  | .vcsUpdateAuthToken | .vcsUpdateCalData | .vcsCheckState => x.pending = none
  | .vcsStartCapture _ | .vcsStartCaptureWait | .vcsStartCaptureRead => x.pending = none
  | .sensorCaptureStart | .dbWriteToDb _ _ => x.pending = none
  | .sendErrorNotice _ | .sendAcquiredNotice _ | .sendEnrollNotice _ _ => x.pending = none
  | _ => False

/-- The stages a procedure may be left in. -/
def courseLeaves (x : Course) : (c : Call) → Ret c → Course → Prop
  | .vcsEnroll, _, y | .vcsEnrollLoop _ _, _, y => y.pending = none
  | _, _, y => y = x

/-- The protocol of the worker. -/
@[simps] def courseProtocol : Protocol Resp Ret Course where
  assume _ _ := True
  next x e := x.after e
  pre c x := courseCalls x c
  post c x r y := courseLeaves x c r y

/-- Whether a call is not a report. -/
@[reducible] def unreported : Call → Bool
  | .sendEnrollNotice _ _ => false
  | _ => true

section

variable {x y : Course} {c : Call} {r : Ret c} {e : HalEvent}
  {taken : List (Reply × ℤ × CInt)}

/-- Entering a procedure that reports no image keeps the course. -/
theorem after_enter (hc : unreported c = true) :
    Course.after ⟨taken, none⟩ (.enter c) = some ⟨taken, none⟩ := by
  cases c <;> first | rfl | cases hc

/-- A call by its contract, while no image waits for its report. -/
@[simp ↓] theorem callRule_course (Q : Ret c → Course → Prop) (hc : unreported c = true) :
    courseProtocol.callRule fine c Q ⟨taken, none⟩ ↔
      courseCalls ⟨taken, none⟩ c ∧ ∀ r y, courseLeaves ⟨taken, none⟩ c r y → Q r y :=
  Protocol.callRule_entered rfl trivial (after_enter hc)

/-- The image loop may take further images. -/
@[simp ↓ high] theorem callRule_images {idx : ℤ} {count : CInt} (Q : EnrollExit → Course → Prop) :
    courseProtocol.callRule fine (.vcsEnrollLoop idx count) Q ⟨taken, none⟩ ↔
      courseCalls ⟨taken, none⟩ (.vcsEnrollLoop idx count) ∧ ∀ r all, Q r ⟨all, none⟩ := by
  refine (callRule_course (c := .vcsEnrollLoop idx count) Q rfl).trans
    (and_congr_right fun _ => ⟨fun h r all => h r ⟨all, none⟩ rfl, ?_⟩)
  rintro h r ⟨all, pending⟩ hy
  obtain rfl : pending = none := hy
  exact h r all

/-- A report is that of the image that waits for it. -/
@[simp ↓] theorem callRule_report {fid : ℤ} {remaining : CInt} {image : Reply}
    (Q : Unit → Course → Prop) :
    courseProtocol.callRule fine (.sendEnrollNotice fid remaining) Q ⟨taken, some image⟩ ↔
      (remaining.toInt = left taken.length image ∧ ∀ p ∈ taken, p.2.1 = fid) ∧
        Q () ⟨(image, fid, remaining) :: taken, none⟩ := by
  have hfine : fine (.sendEnrollNotice fid remaining) = false := rfl
  simp only [Protocol.callRule, hfine, Bool.false_eq_true, if_false, Protocol.Takes,
    courseProtocol_assume, courseProtocol_next, Course.after, Course.report, true_implies]
  by_cases h : remaining.toInt = left taken.length image ∧ ∀ p ∈ taken, p.2.1 = fid
  · rw [if_pos h]
    exact ⟨fun hQ => ⟨h, hQ.2 () _ rfl⟩, fun hQ => ⟨rfl, fun _ _ hz => hz ▸ hQ.2⟩⟩
  · rw [if_neg h]
    exact ⟨False.elim, fun hall => absurd hall.1 h⟩

end

/-- The count after an image. -/
theorem toInt_samplesRemaining {count : CInt} {k : ℕ} (r : Reply)
    (hcount : count.toInt = (max (8 - k) 1 : ℕ)) :
    (samplesRemaining count (r.data 2)).toInt = left k r := by
  have hsub : (count - 1).toInt = count.toInt - 1 := by
    rw [Int32.toInt_sub, show (1 : CInt).toInt = 1 from rfl]
    exact Int.bmod_eq_of_le (by omega) (by omega)
  unfold samplesRemaining left
  by_cases hdata : complete r
  · rw [if_pos hdata, if_pos (show r.data 2 = 0x1 from hdata)]
    rfl
  · rw [if_neg hdata, if_neg (show r.data 2 ≠ 0x1 from hdata)]
    by_cases hzero : count - 1 = 0
    · rw [if_pos hzero]
      rw [hzero, show (0 : CInt).toInt = 0 from rfl] at hsub
      rw [show (1 : CInt).toInt = 1 from rfl]
      omega
    · rw [if_neg hzero, hsub]
      have hne : (count - 1).toInt ≠ 0 := fun h => hzero (Int32.toInt_inj.mp h)
      omega

section bodies

attribute [local simp ↓] load store op call send ionSbuffer sameIonSbuffer

attribute [local simp] courseCalls courseLeaves Course.after Course.image imageOf noticeOf

/-- Every body keeps to the course. -/
theorem courseProtocol_valid : courseProtocol.Valid fine body := by
  rintro c _ ⟨taken, pending⟩ hc
  cases c
  all_goals simp at hc
  case vcsEnrollLoop idx count _ =>
    obtain ⟨rfl, htaken, hcount⟩ := hc
    simp [body, vcsEnrollLoop]
    intro _ _ r
    have hnone : ∀ p ∈ taken, ¬ complete p.1 := fun p hp => (htaken p.1 p.2.1 p.2.2 hp).1
    have hfid : ∀ p ∈ taken, p.2.1 = idx := fun p hp => (htaken p.1 p.2.1 p.2.2 hp).2
    cases hfailed : r.failed with
    | true =>
      simp
      refine fun hret => ⟨fun hresult => ?_, fun _ => ⟨htaken, hcount⟩⟩
      simp [Reply.failed, hret, hresult] at hfailed
    | false =>
      obtain ⟨hret, hresult⟩ : r.ret = 0 ∧ r.result = 0 := by simpa [Reply.failed] using hfailed
      have hcount : count.toInt = (max (8 - taken.length) 1 : ℕ) := by omega
      have hleft := toInt_samplesRemaining r hcount
      simp only [if_true, if_pos hnone, hret, hresult, not_true, false_implies, and_true,
        true_implies]
      simp [hleft]
      refine ⟨fun a b c hp => hfid (a, b, c) hp, fun hmore => ?_⟩
      have hnot : ¬ complete r := fun h => hmore ((samplesRemaining_eq_zero count _).mpr h)
      refine ⟨⟨hnot, htaken⟩, ?_⟩
      rw [left, if_neg hnot]
      omega
  case vcsEnroll =>
    obtain ⟨rfl, rfl⟩ := hc
    refine .bind (follows_ionSbuffer (fun _ => rfl) (fun _ => rfl) ?_)
    refine .bind (.frame (firstFreeSlot_within _ _) (fun o ho r => ?_) fun idx => ?_)
    · unfold Op.readsSlot at ho
      split at ho
      · rfl
      · rfl
      · cases ho
    · simp [vcsEnrollCommit, payloadBind, enrollmentPasswordSet]
  all_goals subst hc
  case getTzState => simp [body, getTzState]
  case setTzState => simp [body, setTzState]
  case sensorUninit => simp [body, sensorUninit]
  case vcsUninit => simp [body, vcsUninit]
  case vcsUpdateAuthToken => simp [body, vcsUpdateAuthToken, getAuthToken]
  case vcsUpdateCalData => simp [body, vcsUpdateCalData]
  case vcsCheckState => simp [body, vcsCheckState]
  case vcsStartCapture => simp [body, vcsStartCapture]
  case vcsStartCaptureWait => simp [body, vcsStartCaptureWait]
  case vcsStartCaptureRead => simp [body, vcsStartCaptureRead]
  case sensorCaptureStart => simp [body, sensorCaptureStart]
  case dbWriteToDb remove fid => cases remove <;> simp [body, dbWriteToDb]
  case sendErrorNotice => simp [body, sendErrorNotice]
  case sendAcquiredNotice => simp [body, sendAcquiredNotice]
  case sendEnrollNotice => simp [body, sendEnrollNotice]

end bodies

/-! ## What the stages say -/

/-- Every image has the notice that belongs to it, and only the newest completes the template. -/
def Sound : List (Reply × ℤ × CInt) → Prop
  | [] => True
  | (r, fid, n) :: rest => n.toInt = left rest.length r ∧
    (∀ p ∈ rest, ¬ complete p.1 ∧ p.2.1 = fid) ∧ Sound rest

/-- The reported numbers lie between 0 and 7, and 0 is for a complete template. -/
theorem sound_range {taken : List (Reply × ℤ × CInt)} (h : Sound taken) :
    ∀ p ∈ taken, 0 ≤ p.2.2.toInt ∧ p.2.2.toInt ≤ 7 ∧ (p.2.2 = 0 ↔ complete p.1) := by
  induction taken with
  | nil => simp
  | cons p rest ih =>
    obtain ⟨r, fid, n⟩ := p
    obtain ⟨hn, -, hrest⟩ := h
    refine List.forall_mem_cons.mpr ⟨?_, ih hrest⟩
    have hzero : n = 0 ↔ n.toInt = 0 := Int32.toInt_inj.symm
    by_cases hr : complete r
    · rw [left, if_pos hr] at hn
      simp [hzero, hn, hr]
    · rw [left, if_neg hr] at hn
      simp only [hzero, hr, iff_false]
      omega

/-- Before the template is complete the notices get no lower than their number says. -/
theorem sound_low {taken : List (Reply × ℤ × CInt)} (h : Sound taken)
    (hnot : ∀ p ∈ taken, ¬ complete p.1) :
    ∀ p ∈ taken, max (8 - (taken.length : ℤ)) 1 ≤ p.2.2.toInt := by
  induction taken with
  | nil => simp
  | cons p rest ih =>
    obtain ⟨r, fid, n⟩ := p
    obtain ⟨hn, -, hrest⟩ := h
    obtain ⟨hr, hnot⟩ := List.forall_mem_cons.mp hnot
    rw [left, if_neg hr] at hn
    refine List.forall_mem_cons.mpr ⟨?_, fun p hp => ?_⟩
    · simp only [List.length_cons]
      omega
    · have hlow := ih hrest hnot p hp
      simp only [List.length_cons]
      omega

/-- They do not grow. -/
theorem sound_antitone {taken : List (Reply × ℤ × CInt)} (h : Sound taken) :
    (taken.map (·.2)).Pairwise fun a b => a.2.toInt ≤ b.2.toInt := by
  induction taken with
  | nil => simp
  | cons p rest ih =>
    obtain ⟨r, fid, n⟩ := p
    obtain ⟨hn, hsame, hrest⟩ := h
    refine List.pairwise_cons.mpr ⟨fun b hb => ?_, ih hrest⟩
    obtain ⟨p, hp, rfl⟩ := List.mem_map.mp hb
    have hlow := sound_low hrest (fun p hp => (hsame p hp).1) p hp
    show n.toInt ≤ p.2.2.toInt
    by_cases hr : complete r
    · rw [left, if_pos hr] at hn
      omega
    · rw [left, if_neg hr] at hn
      omega

/-- From the seventh on the notices are 1, until the template is complete. -/
theorem sound_stays {taken : List (Reply × ℤ × CInt)} (h : Sound taken) :
    ∀ p ∈ taken.take (taken.length - 6), ¬ complete p.1 → p.2.2 = 1 := by
  induction taken with
  | nil => simp
  | cons p rest ih =>
    obtain ⟨r, fid, n⟩ := p
    obtain ⟨hn, -, hrest⟩ := h
    by_cases hlen : 6 ≤ rest.length
    · rw [List.length_cons, show rest.length + 1 - 6 = rest.length - 6 + 1 by omega,
        List.take_succ_cons]
      refine List.forall_mem_cons.mpr ⟨fun hr => ?_, ih hrest⟩
      rw [left, if_neg hr] at hn
      refine Int32.toInt_inj.mp (show n.toInt = 1 from ?_)
      omega
    · rw [List.length_cons, show rest.length + 1 - 6 = 0 by omega]
      simp

/-- What the notices are. -/
theorem progress_of_sound {x : Course} (h : Sound x.taken)
    (hpending : ∀ r, x.pending = some r → ∀ p ∈ x.taken, ¬ complete p.1) :
    Progress (x.pending.toList ++ x.taken.map (·.1)).reverse (x.taken.map (·.2)).reverse := by
  obtain ⟨taken, pending⟩ := x
  have hzip : (pending.toList ++ taken.map (·.1)).reverse.zip (taken.map (·.2)).reverse =
      taken.reverse := by
    rw [List.reverse_append, ← List.append_nil (taken.map (·.2)).reverse,
      List.zip_append (by simp), List.zip_nil_right, List.append_nil, ← List.map_reverse,
      ← List.map_reverse, List.zip_map']
    simp
  refine ⟨?_, ?_, ?_, ?_, ?_, ?_⟩
  · cases taken with
    | nil => exact ⟨0, by simp⟩
    | cons p rest =>
      obtain ⟨r, fid, n⟩ := p
      refine ⟨fid, fun b hb => ?_⟩
      obtain ⟨p, hp, rfl⟩ := List.mem_map.mp (List.mem_reverse.mp hb)
      obtain rfl | hp := List.mem_cons.mp hp
      · rfl
      · exact (h.2.1 p hp).2
  · intro b hb
    obtain ⟨p, hp, rfl⟩ := List.mem_map.mp (List.mem_reverse.mp hb)
    obtain ⟨hlow, hhigh, -⟩ := sound_range h p hp
    exact ⟨hlow, hhigh⟩
  · exact List.pairwise_reverse.mpr (sound_antitone h)
  · rw [hzip]
    exact fun p hp => (sound_range h p (List.mem_reverse.mp hp)).2.2
  · rw [List.dropLast_reverse]
    intro r hr
    cases pending with
    | some image =>
      obtain ⟨p, hp, rfl⟩ := List.mem_map.mp (List.mem_reverse.mp hr)
      exact hpending image rfl p hp
    | none =>
      cases taken with
      | nil => simp at hr
      | cons p rest =>
        obtain ⟨q, hq, rfl⟩ := List.mem_map.mp (List.mem_reverse.mp hr)
        exact (h.2.1 q hq).1
  · rw [hzip, List.drop_reverse]
    exact fun p hp => sound_stays h p (List.mem_reverse.mp hp)

/-- The images that were taken and the notices, oldest first. -/
def images (es : List HalEvent) : List Reply := (es.filterMap imageOf).reverse

def notices (es : List HalEvent) : List (ℤ × CInt) := (es.filterMap noticeOf).reverse

/-- What one event does: it reports the image that is pending, takes one, or neither. -/
theorem after_cases {x y : Course} {e : HalEvent} (h : x.after e = some y) :
    (∃ fid n r, imageOf e = none ∧ noticeOf e = some (fid, n) ∧ x.pending = some r ∧
      n.toInt = left x.taken.length r ∧ (∀ p ∈ x.taken, p.2.1 = fid) ∧
      y = ⟨(r, fid, n) :: x.taken, none⟩) ∨
    (∃ r, imageOf e = some r ∧ noticeOf e = none ∧ x.pending = none ∧
      (∀ p ∈ x.taken, ¬ complete p.1) ∧ y = ⟨x.taken, some r⟩) ∨
    (imageOf e = none ∧ noticeOf e = none ∧ x.pending = none ∧ y = x) := by
  obtain ⟨taken, pending⟩ := x
  by_cases hnotice : ∃ fid n, e = .enter (.sendEnrollNotice fid n)
  · obtain ⟨fid, n, rfl⟩ := hnotice
    simp only [Course.after, Course.report] at h
    split at h
    · split at h
      · rename_i hreport
        cases h
        exact .inl ⟨fid, n, _, rfl, rfl, rfl, hreport.1, hreport.2, rfl⟩
      · cases h
    · cases h
  · have hnone : noticeOf e = none := by
      unfold noticeOf
      split
      · exact absurd ⟨_, _, rfl⟩ hnotice
      · rfl
    unfold Course.after at h
    split at h
    · exact absurd ⟨_, _, rfl⟩ hnotice
    · cases h
    · cases pending with
      | some r => cases h
      | none =>
        simp only [Option.isSome_none, Bool.false_eq_true, if_false] at h
        split at h
        · rename_i r himage
          unfold Course.image at h
          split at h
          · rename_i hnot
            cases h
            exact .inr (.inl ⟨r, himage, hnone, rfl, hnot, rfl⟩)
          · cases h
        · rename_i himage
          cases h
          exact .inr (.inr ⟨himage, hnone, rfl, rfl⟩)

/-- What the stages have counted. -/
theorem course_of_stage {es : List HalEvent} {y : Course}
    (h : courseProtocol.stage ⟨[], none⟩ es = some y) :
    Sound y.taken ∧ (∀ r, y.pending = some r → ∀ p ∈ y.taken, ¬ complete p.1) ∧
      es.filterMap imageOf = y.pending.toList ++ y.taken.map (·.1) ∧
      es.filterMap noticeOf = y.taken.map (·.2) := by
  induction es generalizing y with
  | nil =>
    cases h
    exact ⟨trivial, nofun, rfl, rfl⟩
  | cons e es ih =>
    obtain ⟨x, hx, hy⟩ := Option.bind_eq_some_iff.mp h
    obtain ⟨hsound, hpending, himages, hnotices⟩ := ih hx
    rw [List.filterMap_cons, List.filterMap_cons, himages, hnotices]
    obtain ⟨fid, n, r, he, hn, hr, hleft, hfid, rfl⟩ | ⟨r, he, hn, hr, hnot, rfl⟩ |
      ⟨he, hn, hr, rfl⟩ := after_cases hy
    · refine ⟨⟨hleft, fun p hp => ⟨hpending r hr p hp, hfid p hp⟩, hsound⟩, nofun, ?_, ?_⟩
      · simp [he, hr]
      · simp [hn]
    · exact ⟨hsound, fun _ _ => hnot, by simp [he, hr], by simp [hn]⟩
    · exact ⟨hsound, hpending, by simp [he], by simp [hn]⟩

/-- An image that is not the newest event has been reported. -/
theorem pending_of_stage {e : HalEvent} {es : List HalEvent} {y : Course}
    (h : courseProtocol.stage ⟨[], none⟩ (e :: es) = some y) (he : imageOf e = none) :
    y.pending = none := by
  obtain ⟨x, -, hy⟩ := Option.bind_eq_some_iff.mp h
  obtain ⟨_, _, _, -, -, -, -, -, rfl⟩ | ⟨r, hr, -⟩ | ⟨-, -, hr, rfl⟩ := after_cases hy
  · rfl
  · rw [he] at hr
    cases hr
  · exact hr

/-- **The progress of an enrollment.** In every run of the HAL, whatever TrustZone answers and the
other threads do, the notices of an enrolling worker make progress with the images that were taken,
and there is one for each, unless the image is the last thing that happened. -/
theorem progress_of_reaches {arrives : Call → Bool} {ok : Hal → Tid → HalEvent → Prop} {m : Mem}
    {s : Hal} (h : (Hal.idle m).Reaches fine arrives ok s) {t : Tid} {p : Code Unit}
    (ht : s.pool t = some ⟨.vcsEnroll, p⟩) :
    Progress (images (s.own t)) (notices (s.own t)) ∧
      ((∀ e ∈ (s.own t).head?, imageOf e = none) →
        (images (s.own t)).length = (notices (s.own t)).length) := by
  have hstart : courseProtocol.Follows fine (.call .vcsEnroll .ret) (fun _ y => y.pending = none)
      ⟨[], none⟩ := fun _ => ⟨rfl, fun _ _ hy => hy⟩
  obtain ⟨y, hy, -⟩ := h.follows courseProtocol_valid hstart (A := fun _ => True)
    (fun _ _ _ => trivial) (fun _ _ _ _ _ => trivial) (fun _ => rfl) rfl ht
  obtain ⟨hsound, hpending, himages, hnotices⟩ := course_of_stage hy
  unfold images notices
  rw [himages, hnotices]
  refine ⟨progress_of_sound hsound hpending, fun hhead => ?_⟩
  have hnone : y.pending = none := by
    cases hes : s.own t with
    | nil =>
      rw [hes] at hy
      cases hy
      rfl
    | cons e es =>
      rw [hes] at hy hhead
      exact pending_of_stage hy (hhead e rfl)
  simp [hnone]

/-- Worker 1 over two images; the finger is lifted and put on again, and the second image completes
the template. -/
def twoImages : List (Label hal) :=
  firstImage 0 ++ ticks 1 9 ++ answer 1 (.good 0) ++ ticks 1 2 ++ answer 1 .lost ++ ticks 1 18 ++
    .arrive 3 .sensorProcessSignal :: ticks 3 13 ++ touch 3 1 ++ ticks 3 1 ++ ticks 1 40 ++
    answer 1 (.good 2) ++ ticks 1 2 ++ answer 1 (.good 0) ++ ticks 1 1 ++ answer 1 (.good 1) ++
    ticks 1 2

set_option maxRecDepth 2000 in
/-- An enrollment of two images: seven are left, and then none. -/
theorem progress_of_twoImages :
    ∃ s, (Hal.idle enrollingDevice).Reaches fine (fun _ => true) (fun _ _ _ => True) s ∧
      notices (s.own 1) = [(1, 7), (1, 0)] ∧ Progress (images (s.own 1)) [(1, 7), (1, 0)] := by
  obtain ⟨s, hs, hentry, hnotices⟩ : ∃ s,
      (Hal.idle enrollingDevice).exec fine (fun _ => true) (fun _ _ _ => true)
        (.arrive 1 .vcsEnroll :: twoImages) = some s ∧ s.entry 1 = some .vcsEnroll ∧
      notices (s.own 1) = [(1, 7), (1, 0)] := ⟨_, rfl, rfl, rfl⟩
  have hr := State.Reaches.refl.exec (fun _ _ _ _ => trivial) hs
  obtain ⟨⟨d, p⟩, hp, rfl⟩ := Option.map_eq_some_iff.mp hentry
  exact ⟨s, hr, hnotices, hnotices ▸ (progress_of_reaches hr hp).1⟩

end KlteCommon.Analysis

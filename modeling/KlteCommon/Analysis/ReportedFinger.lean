import KlteCommon.Analysis.MatchAnswer

/-!
# The finger that is reported

A report names a finger. It is to be the one that matched: the last match request announced as many
templates as it carried, TrustZone named the place of one of them, that was the template of this
finger, and the finger was still there when the answer was decoded.

Nothing locks the slots between the three scans of a match. If no other thread changes them there,
every report is right (`reportsMatched`); a removal behind the request shifts the numbers
(`shifted_report`).
-/

set_option autoImplicit false

namespace KlteCommon.Analysis

open KlteCommon.Computation KlteCommon.Fingerprint KlteCommon.Standard

/-! ## What a report is to say -/

/-- How many templates, with their headers, find room in a match request. -/
def templatePlaces : ℕ := (matchDataLength - templateStart 0) / (templateStart 1 - templateStart 0)

/-- How many templates a match request carries. -/
def carried (req : Request) : ℕ :=
  (List.range templatePlaces).countP fun k => templateHeader req k == [0x45, 0x28]

/-- What is to hold of a report of finger `fid` by worker `w`, before which `log` was done: the
request whose answer was decoded is the last one, it announced as many templates as it carried, its
answer names the place of one of them, which was the template of `fid` when the request was sent,
and slot `fid` was as it had been when the answer was decoded. -/
def ReportMatches (m₀ : Mem) (w : Tid) (fid : ℤ) (log : List (Tid × HalEvent)) : Prop :=
  ∃ req reply asked decoded, lastDecoded w log = some decoded ∧
    lastAsked w decoded = some ((req, reply), asked) ∧ lastAsked w log = lastAsked w decoded ∧
    announced req = carried req ∧ 0 ≤ (reply.data 22).toInt ∧
    (reply.data 22).toInt.toNat < announced req ∧ (slotsAfter m₀ asked fid).exist = true ∧
    templateData req (reply.data 22).toInt.toNat = (slotsAfter m₀ asked fid).data.toList ∧
    slotsAfter m₀ decoded fid = slotsAfter m₀ asked fid

/-- Every report of worker `w` is about the finger that matched. -/
def ReportsMatched (m₀ : Mem) (w : Tid) (s : Hal) : Prop :=
  ∀ later fid gid hat r log,
    s.log = later ++ (w, .op (.notify (.authenticated fid gid hat)) r) :: log →
      ReportMatches m₀ w fid log

/-- The templates a request carries can be counted by their headers. -/
theorem Carries.carried {m : Mem} {req : Request} (h : Carries m req) :
    carried req = (occupiedSlots m).length := by
  have hle : (occupiedSlots m).length ≤ templatePlaces :=
    Nat.le_trans (length_occupiedSlots m) (by decide)
  obtain ⟨n, hn⟩ := Nat.exists_eq_add_of_le hle
  rw [Analysis.carried, hn, List.range_add, List.countP_append, List.countP_eq_length.mpr,
    List.countP_eq_zero.mpr, List.length_range, Nat.add_zero]
  · intro k hk
    obtain ⟨i, -, rfl⟩ := List.mem_map.mp hk
    have hzero : requestBytes req (templateStart ((occupiedSlots m).length + i)) = 0 := by
      refine h.empty _ ?_
      unfold templateStart
      omega
    simp [templateHeader, window, List.range_succ, hzero]
  · intro k hk
    simp [h.header k (List.mem_range.mp hk)]

section runs

variable {m₀ : Mem} {arrives : Call → Bool} {w : Tid} {s s' : Hal}

/-- A report. -/
theorem reportMatches (hs : (Hal.idle m₀).Reaches fine arrives (othersKeepSlots w) s)
    (hw : s.entry w = some .vcsAuthenticate) {fid : ℤ} {gid : UInt32} {hat : HwAuthToken} {r : Unit}
    (hr : s.Runs fine w (.op (.notify (.authenticated fid gid hat)) r) s') :
    ReportMatches m₀ w fid s.log := by
  obtain ⟨m, x, y, -, hy, hgrounded⟩ := windowed_next hs hw hr
  cases x with
  | decoded req reply =>
    have hreports : (Matching.decoded req reply).reports m fid = some y := hy
    simp only [Matching.reports, Option.ite_none_right_eq_some] at hreports
    obtain ⟨⟨hfid, rfl⟩, -⟩ := hreports
    obtain ⟨⟨s₁, s₂, h₁, -, -, hasked, hm, -, -, hcarries⟩, decoded, hdecoded, hsame, hslots⟩ :=
      hgrounded
    obtain ⟨hnonneg, hslot⟩ := namedSlot_ne_zero hfid
    rw [← occupiedSlots_congr hm] at hslot
    have hask : slotsAfter m₀ s₁.log = s₁.mem.tz.finger := slotsAfter_log h₁
    refine ⟨req, reply, s₁.log, decoded, hdecoded, hsame.trans hasked, hsame.symm,
      hcarries.announced.trans hcarries.carried.symm, hnonneg, ?_, ?_, ?_, ?_⟩
    · rw [hcarries.announced]
      exact (List.getElem?_eq_some_iff.mp hslot).1
    · rw [hask]
      exact (mem_occupiedSlots (List.mem_of_getElem? hslot)).2.2
    · rw [hask]
      exact hcarries.template _ _ hslot
    · rw [hask, hslots, hm]
  | stray => exact hgrounded.elim
  | _ => cases hy

/-- **The finger that is reported is the one that matched.** In every interleaving in which no
other thread changes a slot while worker `w` is matching, every report of `w` is right. -/
theorem reportsMatched (hs : (Hal.idle m₀).Reaches fine arrives (othersKeepSlots w) s)
    (hw : s.entry w = some .vcsAuthenticate) : ReportsMatched m₀ w s := by
  have hnew : ∀ s : Hal, s.own w = [] → ReportsMatched m₀ w s := by
    intro s hown later fid gid hat r log hlog
    simp [State.own, hlog] at hown
  induction hs with
  | refl => simp [State.entry, Hal.idle] at hw
  | @arrive s t c hs ha hp ih =>
    by_cases htw : t = w
    · subst htw
      exact hnew _ (hs.own_eq_nil rfl hp)
    · have hentry : s.entry w = some .vcsAuthenticate := by
        simpa [State.entry, State.pool_add, Ne.symm htw] using hw
      exact ih hentry
  | @run s s' t e hs ho hr ih =>
    obtain hentry | hborn := (hr.entry w .vcsAuthenticate).mp hw
    · intro later fid gid hat r log hlog
      rw [hr.log] at hlog
      cases later with
      | nil =>
        obtain ⟨⟨rfl, rfl⟩, rfl⟩ := by simpa using hlog
        exact reportMatches hs hentry hr
      | cons te later =>
        obtain ⟨-, hlog⟩ := List.cons.inj hlog
        exact ih hentry later fid gid hat r log hlog
    · have hnone := hr.fresh w _ hborn
      have hwt : w ≠ t := by
        rintro rfl
        exact hr.mem_pool hnone
      exact hnew _ (by rw [hr.own, if_neg hwt]; exact hs.own_eq_nil rfl hnone)

end runs

/-- The rest of a worker's run, from the answer to its match request to the report. -/
def finishMatch : List (Label hal) :=
  ticks 1 5 ++ answer 1 (.good 0) ++ ticks 1 5 ++ answer 1 (.good 0) ++ ticks 1 22

set_option maxRecDepth 2000 in
/-- The worker reports finger 3, which TrustZone found at the second place. -/
theorem reportsMatched_second : ∃ s : Hal,
    (∃ hat log, s.log = (1, .op (.notify (.authenticated 3 0 hat)) ()) :: log) ∧
      ReportsMatched firstAndThird 1 s := by
  obtain ⟨s, hs, hentry, hlog⟩ : ∃ s,
      (Hal.idle firstAndThird).exec fine (fun _ => true) (fun _ _ e => quietEvent e)
        (readSlots ++ answer 1 (.good 1) ++ finishMatch) = some s ∧
      s.entry 1 = some .vcsAuthenticate ∧
      ∃ hat log, s.log = (1, .op (.notify (.authenticated 3 0 hat)) ()) :: log :=
    ⟨_, rfl, rfl, _, _, rfl⟩
  exact ⟨s, hlog, reportsMatched (State.Reaches.refl.exec othersKeepSlots_of_quiet hs) hentry⟩

/-- Slots 1 and 3 are occupied, and group 0 has their rows. -/
def storedFingers : Mem :=
  let row idx : Row :=
    ⟨idx, (firstAndThird.tz.finger idx).data.toList, (firstAndThird.tz.finger idx).payload.toList⟩
  { firstAndThird with db := ⟨fun gid => if gid = 0 then some [row 1, row 3] else none⟩ }

set_option maxRecDepth 2000 in
/-- **A removal behind the request.** TrustZone finds the template at the first place, which is that
of finger 1; finger 1 is removed before the answer is decoded, and finger 3 is reported. -/
theorem shifted_report : ∃ s,
    (Hal.idle storedFingers).Reaches fine (fun _ => true) (fun _ _ _ => True) s ∧
      s.entry 1 = some .vcsAuthenticate ∧ ¬ ReportsMatched storedFingers 1 s := by
  obtain ⟨s, hs, hentry, hat, log, hlog, req, asked, decoded, hdecoded, hasked, hdata, hslots⟩ :
    ∃ s,
      (Hal.idle storedFingers).exec fine (fun _ => true) (fun _ _ _ => true)
        (readSlots ++ answer 1 (.good 0) ++ .arrive 3 (.fingerprintRemove 1) :: ticks 3 11 ++
          finishMatch) = some s ∧
      s.entry 1 = some .vcsAuthenticate ∧
      ∃ hat log, s.log = (1, .op (.notify (.authenticated 3 0 hat)) ()) :: log ∧
        ∃ req asked decoded, lastDecoded 1 log = some decoded ∧
          lastAsked 1 decoded = some ((req, .good 0), asked) ∧ req.data = matchData storedFingers ∧
          slotsAfter storedFingers asked 3 = storedFingers.tz.finger 3 :=
    ⟨_, rfl, rfl, _, _, rfl, _, _, _, rfl, rfl, rfl, rfl⟩
  refine ⟨s, State.Reaches.refl.exec (fun _ _ _ _ => trivial) hs, hentry, fun h => ?_⟩
  obtain ⟨req', reply, asked', decoded', hd, ha, -, -, -, -, -, htemplate, -⟩ :=
    h [] 3 0 hat () log hlog
  obtain rfl := Option.some.inj (hdecoded.symm.trans hd)
  obtain ⟨⟨rfl, rfl⟩, rfl⟩ := by simpa using hasked.symm.trans ha
  have hfirst := (carries_of_matchData hdata).template 0 1 rfl
  rw [hslots] at htemplate
  have hdiffer := hfirst.symm.trans htemplate
  cases hdiffer

end KlteCommon.Analysis

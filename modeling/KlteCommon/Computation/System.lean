import KlteCommon.Computation.Program

/-!
# Interleaved threads

A `Machine` says what one operation does to the shared memory and what each procedure's body
is. A state is the memory, a pool of threads and the log of everything the threads did. One step
of the system is one event of one thread, or the arrival of a new thread from outside.

The grain of interleaving is a parameter: `atomic c` says that a call of `c` runs to its end in
one step (`solo`), every other call only enters the procedure's body.

`Code.Next` and `Machine.Acts` split a step into what it does to the thread's code and what it
does to the memory; every proof about runs starts from that split (`State.run_inv`).
-/

set_option autoImplicit false

namespace KlteCommon.Computation

variable {Op Call : Type} {Resp : Op → Type} {Ret : Call → Type} {α : Type}

/-- A thread's name. -/
abbrev Tid := ℕ

/-- What the operations do and what the procedures are. `act` performs an operation for a
thread: it is told which threads have finished and an outside choice, and is undefined where
the operation blocks or the choice does not fit. `spawns` reads a thread creation off a response. -/
structure Machine {Op Call : Type} (Resp : Op → Type) (Ret : Call → Type) where
  Mem : Type
  Choice : Type
  body : (c : Call) → Prog Resp Ret (Ret c)
  act : (Tid → Bool) → Tid → (o : Op) → Choice → Mem → Option (Resp o × Mem)
  spawns : (o : Op) → Resp o → Option (Tid × Call)

namespace Machine

variable (M : Machine Resp Ret)

/-- One step of a thread's code at the finest grain. -/
def stepFine (fin : Tid → Bool) (t : Tid) (ch : M.Choice) :
    Prog Resp Ret α → M.Mem → Option (Event Resp Ret × Prog Resp Ret α × M.Mem)
  | .ret _, _ => none
  | .op o k, m => (M.act fin t o ch m).map fun x => (.op o x.1, k x.1, x.2)
  | .call c k, m => some (.enter c, M.body c >>= k, m)

/-- A thread running alone for as many steps as there are choices; the events are in order. -/
def solo (fin : Tid → Bool) (t : Tid) :
    List M.Choice → Prog Resp Ret α → M.Mem →
      Option (List (Event Resp Ret) × Prog Resp Ret α × M.Mem)
  | [], p, m => some ([], p, m)
  | ch :: chs, p, m =>
    match M.stepFine fin t ch p m with
    | none => none
    | some (e, p', m') =>
      match solo fin t chs p' m' with
      | none => none
      | some (es, q, m'') => some (e :: es, q, m'')

/-- One step of a thread's code when the calls in `atomic` run to their end in one step. -/
def stepCode (atomic : Call → Bool) (fin : Tid → Bool) (t : Tid) (chs : List M.Choice) :
    Prog Resp Ret α → M.Mem → Option (Event Resp Ret × Prog Resp Ret α × M.Mem)
  | .ret _, _ => none
  | .op o k, m =>
    match chs with
    | [ch] => (M.act fin t o ch m).map fun x => (.op o x.1, k x.1, x.2)
    | _ => none
  | .call c k, m =>
    if atomic c then
      match M.solo fin t chs (M.body c) m with
      | some (_, .ret r, m') => some (.done c r, k r, m')
      | _ => none
    else some (.enter c, M.body c >>= k, m)

/-- What an event does to the memory. -/
def Acts (fin : Tid → Bool) (t : Tid) : Event Resp Ret → M.Mem → M.Mem → Prop
  | .op o r, m, m' => ∃ ch, M.act fin t o ch m = some (r, m')
  | .enter _, m, m' => m' = m
  | .done c r, m, m' => ∃ chs es, M.solo fin t chs (M.body c) m = some (es, .ret r, m')

/-- What an event does to the code of the thread. -/
inductive Next (atomic : Call → Bool) :
    Prog Resp Ret α → Event Resp Ret → Prog Resp Ret α → Prop
  | op (o : Op) (k : Resp o → Prog Resp Ret α) (r : Resp o) :
      Next atomic (.op o k) (.op o r) (k r)
  | enter (c : Call) (k : Ret c → Prog Resp Ret α) (h : atomic c = false) :
      Next atomic (.call c k) (.enter c) (M.body c >>= k)
  | done (c : Call) (k : Ret c → Prog Resp Ret α) (r : Ret c) (h : atomic c = true) :
      Next atomic (.call c k) (.done c r) (k r)

/-- The thread an event creates, if it creates one. -/
def born : Event Resp Ret → Option (Tid × Call)
  | .op o r => M.spawns o r
  | _ => none

/-- A step of the code is a step of the code's shape with the event's effect on the memory. -/
theorem stepCode_inv {atomic : Call → Bool} {fin : Tid → Bool} {t : Tid} {chs : List M.Choice}
    {p p' : Prog Resp Ret α} {m m' : M.Mem} {e : Event Resp Ret}
    (h : M.stepCode atomic fin t chs p m = some (e, p', m')) :
    M.Next atomic p e p' ∧ M.Acts fin t e m m' := by
  cases p with
  | ret a => simp [stepCode] at h
  | op o k =>
    match chs, h with
    | [ch], h =>
      simp only [stepCode, Option.map_eq_some_iff] at h
      obtain ⟨⟨r, m₁⟩, hact, heq⟩ := h
      obtain ⟨rfl, rfl, rfl⟩ := by simpa using heq
      exact ⟨.op o k r, ch, hact⟩
  | call c k =>
    by_cases hc : atomic c = true
    · simp only [stepCode, hc, if_true] at h
      split at h
      · rename_i es r m₁ hsolo
        obtain ⟨rfl, rfl, rfl⟩ := by simpa using h
        exact ⟨.done c k r hc, chs, es, hsolo⟩
      · cases h
    · simp only [stepCode, hc] at h
      obtain ⟨rfl, rfl, rfl⟩ := by simpa using h
      exact ⟨.enter c k (by simpa using hc), rfl⟩

end Machine

/-- A thread: the call it was started with and the code it has still to run. -/
structure Thread {Op Call : Type} (Resp : Op → Type) (Ret : Call → Type) where
  entry : Call
  code : Prog Resp Ret (Ret entry)

/-- A thread about to make its first call. -/
def Thread.start (c : Call) : Thread Resp Ret := ⟨c, .call c .ret⟩

/-- The state of the system; the log is newest first. -/
structure State {Op Call : Type} {Resp : Op → Type} {Ret : Call → Type}
    (M : Machine Resp Ret) where
  mem : M.Mem
  pool : Tid → Option (Thread Resp Ret)
  log : List (Tid × Event Resp Ret)

/-- What happens next: a thread runs one step, or a new thread arrives. -/
inductive Label {Op Call : Type} {Resp : Op → Type} {Ret : Call → Type}
    (M : Machine Resp Ret) : Type
  | run (t : Tid) (chs : List M.Choice)
  | arrive (t : Tid) (c : Call)

namespace State

variable {M : Machine Resp Ret} (atomic arrives : Call → Bool)

/-- Which threads have finished. -/
def fin (s : State M) (t : Tid) : Bool :=
  match s.pool t with
  | none => true
  | some th => th.code.finished

/-- The pool after thread `t` did `e` and has `p` left to run. -/
def poolAfter (s : State M) (t : Tid) (th : Thread Resp Ret) (e : Event Resp Ret)
    (p : Prog Resp Ret (Ret th.entry)) : Tid → Option (Thread Resp Ret) :=
  match M.born e with
  | none => Function.update s.pool t (some ⟨th.entry, p⟩)
  | some (u, c) =>
    Function.update (Function.update s.pool t (some ⟨th.entry, p⟩)) u (some (.start c))

/-- A created thread must get a name that is not in use. -/
def fresh (s : State M) (e : Event Resp Ret) : Bool :=
  match M.born e with
  | none => true
  | some (u, _) => (s.pool u).isNone

/-- The state with a new thread `t` that is about to call `c`. -/
def add (s : State M) (t : Tid) (c : Call) : State M :=
  { s with pool := Function.update s.pool t (some (.start c)) }

/-- One step of the system. -/
def step (s : State M) : Label M → Option (State M)
  | .arrive t c =>
    if arrives c && (s.pool t).isNone then some (s.add t c) else none
  | .run t chs =>
    match s.pool t with
    | none => none
    | some th =>
      match M.stepCode atomic s.fin t chs th.code s.mem with
      | none => none
      | some (e, p, m) =>
        if s.fresh e then some ⟨m, s.poolAfter t th e p, (t, e) :: s.log⟩ else none

/-- A schedule, executed as long as every step of a thread is `allowed`. -/
def exec (allowed : State M → Tid → Event Resp Ret → Bool) (s : State M) :
    List (Label M) → Option (State M)
  | [] => some s
  | l :: ls =>
    match s.step atomic arrives l, l with
    | none, _ => none
    | some s', .arrive _ _ => exec allowed s' ls
    | some s', .run t _ =>
      match s'.log with
      | [] => none
      | (_, e) :: _ => if allowed s t e then exec allowed s' ls else none

/-- Thread `t` does `e`: from `s` to `s'`. -/
structure Runs (s : State M) (t : Tid) (e : Event Resp Ret) (s' : State M) : Prop where
  /-- the step is the thread's, its code follows `e` and the memory changes as `e` says -/
  moves : ∃ th p m, s.pool t = some th ∧ M.Next atomic th.code e p ∧ M.Acts s.fin t e s.mem m ∧
    s' = ⟨m, s.poolAfter t th e p, (t, e) :: s.log⟩
  /-- a created thread's name was not in use -/
  fresh : ∀ u c, M.born e = some (u, c) → s.pool u = none

/-- The states reached from `s₀` when every step of a thread meets `ok`. -/
inductive Reaches (ok : State M → Tid → Event Resp Ret → Prop) (s₀ : State M) : State M → Prop
  | refl : Reaches ok s₀ s₀
  | arrive {s : State M} {t : Tid} {c : Call} (h : Reaches ok s₀ s) (ha : arrives c = true)
      (hp : s.pool t = none) : Reaches ok s₀ (s.add t c)
  | run {s s' : State M} {t : Tid} {e : Event Resp Ret} (h : Reaches ok s₀ s) (ho : ok s t e)
      (hr : s.Runs atomic t e s') : Reaches ok s₀ s'

variable {atomic arrives}

/-- What a step of a thread is made of. -/
theorem run_inv {s s' : State M} {t : Tid} {chs : List M.Choice}
    (h : s.step atomic arrives (.run t chs) = some s') : ∃ e, s.Runs atomic t e s' := by
  simp only [step] at h
  split at h
  · cases h
  · rename_i th hth
    split at h
    · cases h
    · rename_i e p m hstep
      split at h
      · rename_i hfresh
        obtain rfl := by simpa using h
        obtain ⟨hnext, hacts⟩ := M.stepCode_inv hstep
        refine ⟨e, ⟨th, p, m, hth, hnext, hacts, rfl⟩, fun u c hb => ?_⟩
        simpa [State.fresh, hb] using hfresh
      · cases h

/-- Only a thread of the pool takes a step. -/
theorem Runs.mem_pool {s s' : State M} {t : Tid} {e : Event Resp Ret}
    (h : s.Runs atomic t e s') : s.pool t ≠ none := by
  obtain ⟨th, -, -, hth, -⟩ := h.moves
  simp [hth]

/-- A step is logged. -/
theorem Runs.log {s s' : State M} {t : Tid} {e : Event Resp Ret}
    (h : s.Runs atomic t e s') : s'.log = (t, e) :: s.log := by
  obtain ⟨th, p, m, -, -, -, rfl⟩ := h.moves
  rfl

/-- What a step does to the code of its thread. -/
theorem Runs.code {s s' : State M} {t : Tid} {e : Event Resp Ret} (h : s.Runs atomic t e s')
    {th : Thread Resp Ret} (hth : s.pool t = some th) :
    ∃ p, M.Next atomic th.code e p ∧ s'.pool t = some ⟨th.entry, p⟩ := by
  obtain ⟨th', p, m, hth', hn, -, rfl⟩ := h.moves
  obtain rfl : th = th' := by simpa [hth] using hth'
  refine ⟨p, hn, ?_⟩
  cases hb : M.born e with
  | none => simp [State.poolAfter, hb]
  | some uc =>
    have hut : t ≠ uc.1 := by
      rintro rfl
      simp [h.fresh _ _ hb] at hth
    simp [State.poolAfter, hb, hut]

/-- A step leaves the other threads alone. -/
theorem Runs.pool_of_ne {s s' : State M} {t u : Tid} {e : Event Resp Ret}
    (h : s.Runs atomic t e s') (hut : u ≠ t) {th : Thread Resp Ret} (hth : s.pool u = some th) :
    s'.pool u = some th := by
  obtain ⟨th', p, m, -, -, -, rfl⟩ := h.moves
  cases hb : M.born e with
  | none => simpa [State.poolAfter, hb, hut] using hth
  | some vc =>
    have huv : u ≠ vc.1 := by
      rintro rfl
      simp [h.fresh _ _ hb] at hth
    simpa [State.poolAfter, hb, huv, hut] using hth

/-- A step that creates no thread adds none to the pool. -/
theorem Runs.pool_of_not_born {s s' : State M} {t u : Tid} {e : Event Resp Ret}
    (h : s.Runs atomic t e s') (hb : M.born e = none) (hut : u ≠ t) : s'.pool u = s.pool u := by
  obtain ⟨th, p, m, -, -, -, rfl⟩ := h.moves
  simp [State.poolAfter, hb, hut]

/-- A created thread is in the pool. -/
theorem Runs.pool_born {s s' : State M} {t u : Tid} {e : Event Resp Ret} {c : Call}
    (h : s.Runs atomic t e s') (hb : M.born e = some (u, c)) : s'.pool u = some (.start c) := by
  obtain ⟨th, p, m, -, -, -, rfl⟩ := h.moves
  simp [State.poolAfter, hb]

/-- The call a thread was started with. -/
def entry (s : State M) (t : Tid) : Option Call := (s.pool t).map (·.entry)

/-- What a thread has done, newest first. -/
def own (s : State M) (t : Tid) : List (Event Resp Ret) :=
  s.log.filterMap fun te => if te.1 = t then some te.2 else none

/-- An arrival leaves the memory. -/
@[simp] theorem mem_add (s : State M) (t : Tid) (c : Call) : (s.add t c).mem = s.mem := rfl

/-- It is not logged. -/
@[simp] theorem log_add (s : State M) (t : Tid) (c : Call) : (s.add t c).log = s.log := rfl

/-- Nor is it an event of a thread. -/
@[simp] theorem own_add (s : State M) (t u : Tid) (c : Call) : (s.add t c).own u = s.own u := rfl

/-- It adds one thread to the pool. -/
theorem pool_add (s : State M) (t u : Tid) (c : Call) :
    (s.add t c).pool u = if u = t then some (.start c) else s.pool u := by
  simp [add, Function.update_apply]

/-- That thread enters by its call. -/
theorem entry_add (s : State M) (t u : Tid) (c : Call) :
    (s.add t c).entry u = if u = t then some c else s.entry u := by
  unfold entry
  rw [pool_add]
  split <;> rfl

/-- A step leaves what every thread was started with, and may create a thread. -/
theorem Runs.entry {s s' : State M} {t : Tid} {e : Event Resp Ret} (h : s.Runs atomic t e s')
    (u : Tid) (c : Call) :
    s'.entry u = some c ↔ s.entry u = some c ∨ M.born e = some (u, c) := by
  obtain ⟨th, p, m, hth, -, -, rfl⟩ := h.moves
  have hkeep : (Function.update s.pool t (some ⟨th.entry, p⟩) u).map (·.entry) = s.entry u := by
    by_cases hut : u = t
    · subst hut; simp [State.entry, hth]
    · simp [State.entry, hut]
  rw [← hkeep]
  cases hb : M.born e with
  | none => simp [State.entry, State.poolAfter, hb]
  | some vd =>
    obtain ⟨v, d⟩ := vd
    by_cases huv : u = v
    · subst huv
      have hu : u ≠ t := by
        rintro rfl
        simp [h.fresh u d hb] at hth
      simp [State.entry, State.poolAfter, hb, hu, h.fresh u d hb, Thread.start]
    · simp [State.entry, State.poolAfter, hb, huv, Ne.symm huv]

/-- A step is the newest thing its thread has done, and the others have done what they had. -/
theorem Runs.own {s s' : State M} {t : Tid} {e : Event Resp Ret} (h : s.Runs atomic t e s')
    (u : Tid) : s'.own u = if u = t then e :: s.own u else s.own u := by
  obtain ⟨th, p, m, -, -, -, rfl⟩ := h.moves
  by_cases hut : u = t
  · simp [State.own, hut]
  · simp [State.own, hut, Ne.symm hut]

/-- An executed schedule reaches its last state. -/
theorem Reaches.exec {allowed : State M → Tid → Event Resp Ret → Bool}
    {ok : State M → Tid → Event Resp Ret → Prop} (hok : ∀ s t e, allowed s t e = true → ok s t e)
    {s₀ s s' : State M} {ls : List (Label M)} (h₀ : Reaches atomic arrives ok s₀ s)
    (h : s.exec atomic arrives allowed ls = some s') : Reaches atomic arrives ok s₀ s' := by
  induction ls generalizing s with
  | nil =>
    obtain rfl := by simpa [State.exec] using h
    exact h₀
  | cons l ls ih =>
    simp only [State.exec] at h
    split at h
    · cases h
    · rename_i s₁ t c hs₁
      simp only [step, Bool.and_eq_true, Option.isNone_iff_eq_none] at hs₁
      split at hs₁
      · rename_i hc
        obtain rfl := by simpa using hs₁
        exact ih (.arrive h₀ hc.1 hc.2) h
      · cases hs₁
    · rename_i s₁ t chs hs₁
      obtain ⟨e, he⟩ := run_inv hs₁
      obtain ⟨th, p, m, -, -, -, rfl⟩ := he.moves
      simp only at h
      split at h
      · rename_i ha
        exact ih (.run h₀ (hok _ _ _ ha) he) h
      · cases h

/-- Whether a label lets threads arrive under these names only. -/
def arrivesAs (names : Tid → Bool) : Label M → Bool
  | .arrive t _ => names t
  | .run _ _ => true

/-- An executed schedule in which only a few names are in use: the condition on a step may count
on that, and no other name is in use at the end. -/
theorem Reaches.exec_names {allowed : State M → Tid → Event Resp Ret → Bool}
    {ok : State M → Tid → Event Resp Ret → Prop} (names : Tid → Bool)
    (hok : ∀ s t e, (∀ u, names u = false → s.pool u = none) → allowed s t e = true → ok s t e)
    (hborn : ∀ s t e u c, allowed s t e = true → M.born e = some (u, c) → names u = true)
    {s₀ s s' : State M} {ls : List (Label M)} (hls : ls.all (arrivesAs names) = true)
    (hs : ∀ u, names u = false → s.pool u = none) (h₀ : Reaches atomic arrives ok s₀ s)
    (h : s.exec atomic arrives allowed ls = some s') :
    Reaches atomic arrives ok s₀ s' ∧ ∀ u, names u = false → s'.pool u = none := by
  induction ls generalizing s with
  | nil =>
    obtain rfl := by simpa [State.exec] using h
    exact ⟨h₀, hs⟩
  | cons l ls ih =>
    obtain ⟨hl, hrest⟩ := Bool.and_eq_true_iff.mp (List.all_cons.symm.trans hls)
    simp only [State.exec] at h
    split at h
    · cases h
    · rename_i s₁ t c hs₁
      simp only [step, Bool.and_eq_true, Option.isNone_iff_eq_none] at hs₁
      split at hs₁
      · rename_i hc
        obtain rfl := by simpa using hs₁
        refine ih hrest (fun u hu => ?_) (.arrive h₀ hc.1 hc.2) h
        rw [pool_add, if_neg, hs u hu]
        rintro rfl
        exact absurd hl (by simp [arrivesAs, hu])
      · cases hs₁
    · rename_i s₁ t chs hs₁
      obtain ⟨e, he⟩ := run_inv hs₁
      rw [he.log] at h
      simp only at h
      split at h
      · rename_i ha
        refine ih hrest (fun u hu => ?_) (.run h₀ (hok _ _ _ hs ha) he) h
        have hut : u ≠ t := fun hut => he.mem_pool (hut ▸ hs u hu)
        cases hb : M.born e with
        | none => rw [he.pool_of_not_born hb hut, hs u hu]
        | some vc =>
          have huv : u ≠ vc.1 := by
            rintro rfl
            simp [hborn _ _ _ _ _ ha hb] at hu
          obtain ⟨th, p, m, -, -, -, rfl⟩ := he.moves
          simp [State.poolAfter, hb, huv, hut, hs u hu]
      · cases h

/-- An executed schedule in which only a few names are in use: the condition on a step may count
on that. -/
theorem Reaches.exec_of {allowed : State M → Tid → Event Resp Ret → Bool}
    {ok : State M → Tid → Event Resp Ret → Prop} (names : Tid → Bool)
    (hok : ∀ s t e, (∀ u, names u = false → s.pool u = none) → allowed s t e = true → ok s t e)
    (hborn : ∀ s t e u c, allowed s t e = true → M.born e = some (u, c) → names u = true)
    {s₀ s s' : State M} {ls : List (Label M)} (hls : ls.all (arrivesAs names) = true)
    (hs : ∀ u, names u = false → s.pool u = none) (h₀ : Reaches atomic arrives ok s₀ s)
    (h : s.exec atomic arrives allowed ls = some s') : Reaches atomic arrives ok s₀ s' :=
  (exec_names names hok hborn hls hs h₀ h).1

/-- Fewer conditions on the steps reach more. -/
theorem Reaches.mono {ok ok' : State M → Tid → Event Resp Ret → Prop} {s₀ s : State M}
    (hok : ∀ s t e, ok s t e → ok' s t e) (h : Reaches atomic arrives ok s₀ s) :
    Reaches atomic arrives ok' s₀ s := by
  induction h with
  | refl => exact .refl
  | arrive _ ha hp ih => exact .arrive ih ha hp
  | run _ ho hr ih => exact .run ih (hok _ _ _ ho) hr

/-- In a run that keeps an invariant, every step may be said to meet what follows from it. -/
theorem Reaches.strengthen {ok ok' : State M → Tid → Event Resp Ret → Prop} {I : State M → Prop}
    {s₀ s : State M} (h₀ : I s₀)
    (harrive : ∀ s t c, I s → arrives c = true → s.pool t = none → I (s.add t c))
    (hrun : ∀ s t e s', I s → ok s t e → s.Runs atomic t e s' → ok' s t e ∧ I s')
    (h : Reaches atomic arrives ok s₀ s) : Reaches atomic arrives ok' s₀ s ∧ I s := by
  induction h with
  | refl => exact ⟨.refl, h₀⟩
  | arrive _ ha hp ih => exact ⟨.arrive ih.1 ha hp, harrive _ _ _ ih.2 ha hp⟩
  | run _ ho hr ih =>
    obtain ⟨ho', hI⟩ := hrun _ _ _ _ ih.2 ho hr
    exact ⟨.run ih.1 ho' hr, hI⟩

/-- The induction rule for runs: what holds at the start and is kept by arrivals and by every
permitted step holds in every state reached. -/
theorem Reaches.invariant {ok : State M → Tid → Event Resp Ret → Prop} {I : State M → Prop}
    {s₀ s : State M} (h₀ : I s₀)
    (harrive : ∀ s t c, I s → arrives c = true → s.pool t = none → I (s.add t c))
    (hrun : ∀ s t e s', I s → ok s t e → s.Runs atomic t e s' → I s')
    (h : Reaches atomic arrives ok s₀ s) : I s := by
  induction h with
  | refl => exact h₀
  | arrive _ ha hp ih => exact harrive _ _ _ ih ha hp
  | run _ ho hr ih => exact hrun _ _ _ _ ih ho hr

end State

end KlteCommon.Computation

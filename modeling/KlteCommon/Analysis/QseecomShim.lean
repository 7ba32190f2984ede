import KlteCommon.Fingerprint.QseecomApi

/-!
# The shim and its library

A call may go through the table only if the table is there and every function in it was found in a
library that is still open. `init` is the code's record of that, and nobody looks at it when it says
no.

The ladder: an attempt that finds all functions leaves a table that is ready (`initQsee_ready`), one
that does not leaves no table or a freed one (`initQsee_failed`), and the call behind it goes through
that (`passOn_failed`); once ready, the table stays so (`guarded_of_ready`). So a sequence of calls is
guarded exactly if its first attempt succeeds (`guardedRun_iff`).
-/

set_option autoImplicit false

namespace KlteCommon.Analysis

open KlteCommon.Fingerprint

/-! ## What is observed -/

/-- A call of one of the five functions, with what the platform does for its attempt and what the
library's function returns. -/
structure ShimCall where
  fn : QseecomFn
  outcome : InitOutcome
  ret : CInt

/-- What a call does. -/
def ShimCall.exec (s : Shim) (c : ShimCall) : Except ShimFault (CInt × Shim) :=
  match c.fn with
  | .startApp => qseecomStartApp c.outcome c.ret s
  | .shutdownApp => qseecomShutdownApp c.outcome c.ret s
  | .sendCmd => qseecomSendCmd c.outcome c.ret s
  | .sendModifiedCmd => qseecomSendModifiedCmd c.outcome c.ret s
  | .setBandwidth => qseecomSetBandwidth c.outcome c.ret s

/-- The table is allocated, and every function in it is that of a library that is open. -/
def Ready (s : Shim) : Prop :=
  ∃ a h lib, s.kmHandle = some a ∧ s.handles a = some h ∧ h.libhandle = some lib ∧
    s.libs lib = true ∧ ∀ f, h.fn f = .symbol lib f

/-- A call is guarded: it goes through the table if `init` says so, which is then ready, and else it
returns a code without a call of the library, so that a later one may try again. -/
structure GuardedCall (s : Shim) (c : ShimCall) : Prop where
  through : (initQsee c.outcome s).2.init = true → Ready (initQsee c.outcome s).2 ∧
    ∃ s' lib, c.exec s = .ok (c.ret, s') ∧ s'.libCalls = (lib, c.fn) :: s.libCalls
  refused : (initQsee c.outcome s).2.init = false → ∃ ret s', c.exec s = .ok (ret, s') ∧ ret ≠ 0 ∧
    s'.libCalls = s.libCalls ∧ s'.init = false

/-- Every call of a sequence is. -/
def GuardedRun : List ShimCall → Shim → Prop
  | [], _ => True
  | c :: calls, s => GuardedCall s c ∧ ∀ ret s', c.exec s = .ok (ret, s') → GuardedRun calls s'

/-- Everything an attempt asks for succeeds. -/
def attemptSucceeds (o : InitOutcome) : Prop :=
  o.malloc = true ∧ o.dlopen = true ∧ ∀ f, o.dlsym f = true

/-! ## One attempt -/

section

variable {o : InitOutcome} {s : Shim} {a lib : ℕ} {fs : List QseecomFn}

/-- Every function passes its call on. -/
theorem exec_eq (s : Shim) (c : ShimCall) : c.exec s = passOn c.fn c.outcome c.ret s := by
  unfold ShimCall.exec
  cases c.fn <;> rfl

/-- All functions are found. -/
theorem resolve_found (h : ∀ f ∈ fs, o.dlsym f = true) :
    resolve o a lib fs s = (0, s.modifyHandle a fun h =>
      { h with fn := fun f => if f ∈ fs then .symbol lib f else h.fn f }) := by
  induction fs generalizing s with
  | nil => simp [resolve, Shim.modifyHandle]
  | cons f fs ih =>
    have hf := h f (by simp)
    simp only [resolve, hf, if_true]
    rw [ih fun g hg => h g (by simp [hg])]
    simp only [Shim.modifyHandle, Function.update_self, Function.update_idem, Option.map_map,
      Prod.mk.injEq, true_and]
    congr 3
    funext h
    simp only [Function.comp_apply, KmHandle.mk.injEq, true_and]
    funext g
    by_cases hg : g = f <;> simp [hg]

/-- A function is not found. -/
theorem resolve_missing (h : ∃ f ∈ fs, o.dlsym f = false) :
    (resolve o a lib fs s).1 = -1 ∧ (resolve o a lib fs s).2.init = s.init ∧
      (resolve o a lib fs s).2.kmHandle = s.kmHandle := by
  induction fs generalizing s with
  | nil => simp at h
  | cons f fs ih =>
    rw [resolve]
    cases hf : o.dlsym f with
    | false => exact ⟨rfl, rfl, rfl⟩
    | true =>
      obtain ⟨g, hg, hmissing⟩ := h
      have hne : g ≠ f := by
        rintro rfl
        rw [hf] at hmissing
        cases hmissing
      exact ih ⟨g, List.mem_of_ne_of_mem hne hg, hmissing⟩

/-- An attempt that finds everything. -/
theorem initQsee_ready (hinit : s.init = false) (ho : attemptSucceeds o) :
    Ready (initQsee o s).2 ∧ (initQsee o s).2.init = true ∧
      (initQsee o s).2.libCalls = s.libCalls := by
  obtain ⟨hmalloc, hdlopen, hdlsym⟩ := ho
  simp only [initQsee, hinit, hmalloc, qcomKmGetLibSym, hdlopen, Bool.false_eq_true, if_false,
    Bool.not_true, if_true, resolve_found fun f _ => hdlsym f, ne_eq, not_true]
  simp only [Shim.malloc, Shim.modifyHandle, Function.update_self, Option.map_some, and_true]
  refine ⟨s.handleCount, _, s.libCount, rfl, Function.update_self .., rfl,
    Function.update_self .., fun f => ?_⟩
  cases f <;> rfl

/-- The library or one of its functions is not found. -/
theorem getLibSym_failed (h : o.dlopen = true → ∃ f, o.dlsym f = false) :
    (qcomKmGetLibSym o a s).1 = -1 ∧ (qcomKmGetLibSym o a s).2.init = s.init ∧
      (qcomKmGetLibSym o a s).2.kmHandle = s.kmHandle := by
  unfold qcomKmGetLibSym
  cases hdlopen : o.dlopen with
  | false => exact ⟨rfl, rfl, rfl⟩
  | true =>
    obtain ⟨f, hf⟩ := h hdlopen
    rw [if_pos rfl]
    exact resolve_missing ⟨f, by cases f <;> simp, hf⟩

/-- An attempt that does not leaves no table, or a freed one. -/
theorem initQsee_failed (hinit : s.init = false) (ho : ¬ attemptSucceeds o) :
    (initQsee o s).2.init = false ∧ ((initQsee o s).2.kmHandle = none ∨
      ∃ a, (initQsee o s).2.kmHandle = some a ∧ (initQsee o s).2.handles a = none) := by
  cases hmalloc : o.malloc with
  | false => simp [initQsee, hinit, hmalloc]
  | true =>
    have hmissing : o.dlopen = true → ∃ f, o.dlsym f = false := by
      intro hdlopen
      by_contra hall
      exact ho ⟨hmalloc, hdlopen, fun f => by_contra fun hf => hall ⟨f, by simpa using hf⟩⟩
    obtain ⟨hret, hinit', hhandle⟩ := getLibSym_failed (a := s.handleCount) (s := s.malloc) hmissing
    have hne : (qcomKmGetLibSym o s.handleCount s.malloc).1 ≠ 0 := by
      rw [hret]
      decide
    have hattempt : initQsee o s = (-1, (qcomKmGetLibSym o s.handleCount s.malloc).2.free
        s.handleCount) := by
      rw [initQsee, if_neg (by simp [hinit]), if_neg (by simp [hmalloc])]
      exact if_pos hne
    rw [hattempt]
    exact ⟨hinit'.trans hinit, .inr ⟨s.handleCount, hhandle, Function.update_self ..⟩⟩

/-- The call behind it goes through that. -/
theorem passOn_failed (fn : QseecomFn) (ret : CInt) (hinit : s.init = false) (ho : ¬ attemptSucceeds o) :
    passOn fn o ret s = .error .nullHandle ∨ passOn fn o ret s = .error .useAfterFree := by
  obtain ⟨-, hnone | ⟨a, ha, hfreed⟩⟩ := initQsee_failed hinit ho
  · exact .inl (by simp [passOn, callThrough, hnone])
  · exact .inr (by simp [passOn, callThrough, ha, hfreed])

/-- A call through a table that is ready. -/
theorem callThrough_ready (fn : QseecomFn) (ret : CInt) (h : Ready s) :
    ∃ lib, callThrough fn ret s = .ok (ret, { s with libCalls := (lib, fn) :: s.libCalls }) := by
  obtain ⟨a, table, lib, ha, htable, -, hlib, hfn⟩ := h
  exact ⟨lib, by simp [callThrough, ha, htable, hfn, hlib]⟩

/-- **One call** behind which the table is ready. -/
theorem guarded_of_init {c : ShimCall} (hready : Ready (initQsee c.outcome s).2)
    (hinit : (initQsee c.outcome s).2.init = true)
    (hcalls : (initQsee c.outcome s).2.libCalls = s.libCalls) :
    GuardedCall s c ∧ ∀ ret s', c.exec s = .ok (ret, s') → s'.init = true ∧ Ready s' := by
  obtain ⟨lib, hcall⟩ := callThrough_ready c.fn c.ret hready
  have hexec : c.exec s = .ok (c.ret, { (initQsee c.outcome s).2 with
      libCalls := (lib, c.fn) :: (initQsee c.outcome s).2.libCalls }) := (exec_eq s c).trans hcall
  refine ⟨⟨fun _ => ⟨hready, _, lib, hexec, by rw [hcalls]⟩, fun hno => ?_⟩, fun ret s' h => ?_⟩
  · rw [hinit] at hno
    cases hno
  · cases hexec.symm.trans h
    exact ⟨hinit, hready⟩

/-- **Every call** once the table is ready. -/
theorem guarded_of_ready (hinit : s.init = true) (h : Ready s) (calls : List ShimCall) :
    GuardedRun calls s := by
  induction calls generalizing s with
  | nil => trivial
  | cons c calls ih =>
    have hsame : initQsee c.outcome s = (0, s) := if_pos hinit
    obtain ⟨hguarded, hnext⟩ := guarded_of_init (c := c) (by rwa [hsame]) (by rwa [hsame])
      (by rw [hsame])
    exact ⟨hguarded, fun ret s' hexec => ih (hnext ret s' hexec).1 (hnext ret s' hexec).2⟩

end

/-- **The shim.** A sequence of calls goes through the table only when it is ready, and is refused else,
exactly if the attempt of its first call succeeds. -/
theorem guardedRun_iff (calls : List ShimCall) : GuardedRun calls .zero ↔
    ∀ c ∈ calls.head?, attemptSucceeds c.outcome := by
  cases calls with
  | nil => exact iff_of_true trivial nofun
  | cons c calls =>
    simp only [List.head?_cons, Option.mem_some_iff, forall_eq']
    constructor
    · rintro ⟨hguarded, -⟩
      by_contra ho
      obtain ⟨ret, s', hexec, -⟩ := hguarded.refused (initQsee_failed rfl ho).1
      rw [exec_eq] at hexec
      obtain h | h := passOn_failed (s := .zero) c.fn c.ret rfl ho <;>
        cases h.symm.trans hexec
    · intro ho
      obtain ⟨hready, hinit, hcalls⟩ := initQsee_ready (s := .zero) rfl ho
      obtain ⟨hguarded, hnext⟩ := guarded_of_init hready hinit hcalls
      exact ⟨hguarded, fun ret s' hexec =>
        guarded_of_ready (hnext ret s' hexec).1 (hnext ret s' hexec).2 calls⟩

/-- **No library.** The library cannot be opened: the call goes through the table that was just
freed. Without memory for the table it goes through `NULL`. -/
theorem unresolved_call :
    ShimCall.exec .zero ⟨.startApp, ⟨true, false, fun _ => true⟩, 0⟩ = .error .useAfterFree ∧
    ShimCall.exec .zero ⟨.sendCmd, ⟨false, true, fun _ => true⟩, 0⟩ = .error .nullHandle ∧
    ¬ GuardedRun [⟨.startApp, ⟨true, false, fun _ => true⟩, 0⟩] .zero := by
  refine ⟨rfl, rfl, fun h => ?_⟩
  obtain ⟨ret, s', hexec, -⟩ := h.1.refused rfl
  cases hexec

end KlteCommon.Analysis

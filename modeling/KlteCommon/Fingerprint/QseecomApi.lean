import KlteCommon.Fingerprint.Types

/-!
# The QSEECom shim

`QSEEComAPI.c`: five functions that pass their call on to a library of the platform, which is opened
when the first of them is called. An attempt to open it allocates a table and looks up the functions
one by one.

An allocated table never has the address of an earlier one, and an opened library never its handle, so
that a pointer to a freed table or into a closed library can be told from every other one. What C
leaves undefined is a `ShimFault`.
-/

set_option autoImplicit false

namespace KlteCommon.Fingerprint

/-- The functions of the library, in the order in which they are looked up. -/
inductive QseecomFn
  | startApp
  | shutdownApp
  | sendCmd
  | sendModifiedCmd
  | setBandwidth
  deriving DecidableEq

/-- A function pointer: whatever `malloc` found there, `NULL`, or a function of a library. -/
inductive FnPtr
  | garbage
  | null
  | symbol (lib : ℕ) (fn : QseecomFn)

/-- `qcom_keymaster_handle_t` -/
structure KmHandle where
  libhandle : Option ℕ
  fn : QseecomFn → FnPtr

/-- The variables `init` and `km_handle`, the tables by their addresses (`none` where there is none or it
was freed), the libraries by their handles (`false` where there is none or it was closed), and the
calls of the libraries, newest first. -/
structure Shim where
  init : Bool
  kmHandle : Option ℕ
  handles : ℕ → Option KmHandle
  handleCount : ℕ
  libs : ℕ → Bool
  libCount : ℕ
  libCalls : List (ℕ × QseecomFn)

/-- Before the first call. -/
def Shim.zero : Shim := ⟨false, none, fun _ => none, 0, fun _ => false, 0, []⟩

/-- What C leaves undefined. -/
inductive ShimFault
  | nullHandle
  | useAfterFree
  | wildPointer
  | closedLibrary
  deriving DecidableEq

/-- What the platform does for one attempt: whether `malloc` and `dlopen` succeed, and for which
functions `dlsym` does. -/
structure InitOutcome where
  malloc : Bool
  dlopen : Bool
  dlsym : QseecomFn → Bool

namespace Shim

variable (s : Shim)

/-- `km_handle = malloc(sizeof(qcom_keymaster_handle_t))`, followed by `km_handle->libhandle = NULL`. -/
def malloc : Shim :=
  { s with
    kmHandle := some s.handleCount
    handles := Function.update s.handles s.handleCount (some ⟨none, fun _ => .garbage⟩)
    handleCount := s.handleCount + 1 }

/-- An assignment to a field of the table at `a`. -/
def modifyHandle (a : ℕ) (f : KmHandle → KmHandle) : Shim :=
  { s with handles := Function.update s.handles a ((s.handles a).map f) }

/-- `dlclose` -/
def dlclose (lib : ℕ) : Shim := { s with libs := Function.update s.libs lib false }

/-- `free` -/
def free (a : ℕ) : Shim := { s with handles := Function.update s.handles a none }

end Shim

/-- The blocks of `qcom_km_get_lib_sym` for the functions that are left. -/
def resolve (o : InitOutcome) (a lib : ℕ) : List QseecomFn → Shim → CInt × Shim
  | [], s => (0, s)
  | f :: fs, s =>
    let ptr := if o.dlsym f then .symbol lib f else .null
    let s := s.modifyHandle a fun h => { h with fn := Function.update h.fn f ptr }
    if o.dlsym f then resolve o a lib fs s
    else (-1, (s.dlclose lib).modifyHandle a fun h => { h with libhandle := none })

/-- `qcom_km_get_lib_sym` -/
def qcomKmGetLibSym (o : InitOutcome) (a : ℕ) (s : Shim) : CInt × Shim :=
  if o.dlopen then
    let lib := s.libCount
    let s := { s with libs := Function.update s.libs lib true, libCount := lib + 1 }
    let s := s.modifyHandle a fun h => { h with libhandle := some lib }
    resolve o a lib [.startApp, .shutdownApp, .sendCmd, .sendModifiedCmd, .setBandwidth] s
  else (-1, s.modifyHandle a fun h => { h with libhandle := none })

/-- `init_qsee` -/
def initQsee (o : InitOutcome) (s : Shim) : CInt × Shim :=
  if s.init then (0, s)
  else if !o.malloc then (-1, { s with kmHandle := none })
  else
    let a := s.handleCount
    let (ret, s) := qcomKmGetLibSym o a s.malloc
    if ret ≠ 0 then (-1, s.free a)
    else (0, { s with init := true })

/-- `(*km_handle->fn)(...)`; the library's function returns `ret`. -/
def callThrough (fn : QseecomFn) (ret : CInt) (s : Shim) : Except ShimFault (CInt × Shim) :=
  match s.kmHandle with
  | none => .error .nullHandle
  | some a =>
    match s.handles a with
    | none => .error .useAfterFree
    | some h =>
      match h.fn fn with
      | .symbol lib g =>
        if s.libs lib then .ok (ret, { s with libCalls := (lib, g) :: s.libCalls })
        else .error .closedLibrary
      | _ => .error .wildPointer

/-- The body the five functions share; none of them looks at what `init_qsee` returns. -/
def passOn (fn : QseecomFn) (o : InitOutcome) (ret : CInt) (s : Shim) :
    Except ShimFault (CInt × Shim) :=
  callThrough fn ret (initQsee o s).2

/-- `QSEECom_start_app` -/
def qseecomStartApp := passOn .startApp

/-- `QSEECom_shutdown_app` -/
def qseecomShutdownApp := passOn .shutdownApp

/-- `QSEECom_send_cmd` -/
def qseecomSendCmd := passOn .sendCmd

/-- `QSEECom_send_modified_cmd` -/
def qseecomSendModifiedCmd := passOn .sendModifiedCmd

/-- `QSEECom_set_bandwidth` -/
def qseecomSetBandwidth := passOn .setBandwidth

end KlteCommon.Fingerprint

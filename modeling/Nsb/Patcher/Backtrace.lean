import Nsb.Patcher.Types

/-!
# The stack check

`patcher/backtrace.c` with its callers `task_check_stack` and
`process_check_stack`.  Before nsb changes a function it unwinds the stack of
every thread and looks for a frame inside the code to be changed.

libunwind is outside the repository.  `UnwStack` is what a cursor shows of one
thread: a frame, and the outcome of `unw_step` on it, which is a caller frame,
the end of the stack, or an error.  The return codes of the other libunwind
calls and the outcome of the allocation are fields of the frame.
-/

namespace Nsb

/-- A frame under the cursor: the registers with the return codes of the two
`unw_get_reg` calls, the return code of `unw_is_signal_frame`, and whether
`create_frame` finds memory for it. -/
structure UnwFrame where
  ip : Addr
  sp : Addr := 0
  getIp : Int := 0
  getSp : Int := 0
  isSignalFrame : Int := 0
  alloc : Bool := true

/-- The stack of a thread, innermost frame first.  `unw_step` returns `0` on the
last frame of `outermost`, a positive number on a frame of `caller` and a
negative one on the last frame of `failed`. -/
inductive UnwStack where
  | outermost (f : UnwFrame)
  | caller (f : UnwFrame) (rest : UnwStack)
  | failed (f : UnwFrame)

/-- `struct backtrace_frame_s`. -/
structure BacktraceFrame where
  ip : Addr
  sp : Addr
  sigframe : Bool

/-- `struct backtrace_s`. -/
structure Backtrace where
  depth : Nat := 0
  calls : List BacktraceFrame := []

def MAX_DEPTH : Nat := 64

/-- The part of the loop of `do_backtrace` in front of `unw_step`. -/
def readFrame (f : UnwFrame) : Except Int BacktraceFrame :=
  if f.getIp < 0 then .error f.getIp
  else if f.getSp < 0 then .error f.getSp
  else if f.isSignalFrame < 0 then .error f.isSignalFrame
  else .ok ⟨f.ip, f.sp, f.isSignalFrame != 0⟩

/-- `do_backtrace`.  A frame is recorded after the step to its caller, so the
last frame of the stack is read but not recorded. -/
def doBacktrace (bt : Backtrace) : UnwStack → Except Int Backtrace
  | .failed f => do
      let _ ← readFrame f
      .error (-EAGAIN)
  | .outermost f => do
      let _ ← readFrame f
      .ok bt
  | .caller f rest => do
      let bf ← readFrame f
      if bt.depth > MAX_DEPTH then .error (-EAGAIN)
      else if f.alloc then doBacktrace ⟨bt.depth + 1, bt.calls ++ [bf]⟩ rest
      else .error (-ENOMEM)

/-- A seized thread.  `setup` is negative when one of the allocations and
libunwind calls in front of the unwinding fails. -/
structure Task where
  pid : Nat := 0
  setup : Int := 0
  stack : UnwStack

/-- `pid_backtrace`. -/
def pidBacktrace (t : Task) : Except Int Backtrace :=
  if t.setup < 0 then .error t.setup else doBacktrace {} t.stack

/-- `bt_check_range`. -/
def btCheckRange (bt : Backtrace) (start end_ : Addr) (strict : Bool) :
    Option BacktraceFrame :=
  bt.calls.find? fun bf =>
    bf.sigframe ||
      (if strict then decide (start ≤ bf.ip ∧ bf.ip ≤ end_)
       else decide (start < bf.ip ∧ bf.ip < end_))

/-- `backtrace_check_func`. -/
def backtraceCheckFunc (fj : FuncJump) (bt : Backtrace) (targetBase : Addr) : Int :=
  let funcStart := targetBase + fj.funcValue
  let funcEnd := funcStart + fj.funcSize.setWidth 64
  match btCheckRange bt funcStart funcEnd false with
  | none => 0
  | some _ => -EAGAIN

/-- `backtrace_check_range`. -/
def backtraceCheckRange (bt : Backtrace) (start end_ : Addr) : Int :=
  match btCheckRange bt start end_ true with
  | none => 0
  | some _ => -EAGAIN

/-- `jumps_check_backtrace`, the check of the patch command. -/
def jumpsCheckBacktrace (pi : PatchInfo) (bt : Backtrace) (start _end : Addr) : Int :=
  (iteratePatchFunctionJumps pi
    (fun fj (_ : Unit) => ((), backtraceCheckFunc fj bt start)) ()).2

/-- `patch_check_backtrace`, the check of the revert command. -/
def patchCheckBacktrace (bt : Backtrace) (start end_ : Addr) : Int :=
  backtraceCheckRange bt start end_

/-- `task_check_stack`. -/
def taskCheckStack (checkBacktrace : Backtrace → Addr → Addr → Int) (t : Task)
    (start end_ : Addr) : Int :=
  match pidBacktrace t with
  | .error err => err
  | .ok bt => checkBacktrace bt start end_

/-- `process_check_stack`. -/
def processCheckStack (checkBacktrace : Backtrace → Addr → Addr → Int) (threads : List Task)
    (start end_ : Addr) : Int :=
  (Loop.each (fun t (_ : Unit) => ((), taskCheckStack checkBacktrace t start end_)) threads ()).2

end Nsb

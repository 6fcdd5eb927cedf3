import Nsb.Patcher.Backtrace

/-!
# What the stack check covers

The check of the patch command should find every frame of every thread that is
a signal frame or returns into a function to be patched.  `do_backtrace` leaves
its loop at the outermost frame before the frame is recorded, so that frame is
never compared with anything.  A second gap is a patch without jumps: signal
frames are looked for once per jump, so then they are not looked for at all.

`doBacktrace_eq_ok` says what is recorded: all frames but the last, for a stack
that can be read to its end and is not too deep.  The main theorem is an
equivalence: the check covers a set of threads exactly when the frames it does
not look at give no reason to fail.
-/

namespace Nsb

/-! ## Frames of a stack -/

/-- Every frame the cursor visits, innermost first. -/
def UnwStack.frames : UnwStack → List UnwFrame
  | .outermost f => [f]
  | .caller f rest => f :: rest.frames
  | .failed f => [f]

/-- The frames that have a caller. -/
def UnwStack.inner : UnwStack → List UnwFrame
  | .outermost _ => []
  | .caller f rest => f :: rest.inner
  | .failed _ => []

/-- The frame the cursor visits last. -/
def UnwStack.last : UnwStack → UnwFrame
  | .outermost f => f
  | .caller _ rest => rest.last
  | .failed f => f

theorem UnwStack.mem_frames {f : UnwFrame} :
    ∀ {st : UnwStack}, f ∈ st.frames ↔ f ∈ st.inner ∨ f = st.last
  | .outermost g => by simp [frames, inner, last]
  | .caller g rest => by
      have ih : f ∈ rest.frames ↔ f ∈ rest.inner ∨ f = rest.last := UnwStack.mem_frames
      simp only [frames, inner, last, List.mem_cons, ih, or_assoc]
  | .failed g => by simp [frames, inner, last]

/-- The libunwind calls in front of the step succeed. -/
def UnwFrame.Readable (f : UnwFrame) : Prop :=
  ¬ f.getIp < 0 ∧ ¬ f.getSp < 0 ∧ ¬ f.isSignalFrame < 0

/-- The cursor gets to the outermost frame and every other frame is stored. -/
def UnwStack.Readable : UnwStack → Prop
  | .outermost f => f.Readable
  | .caller f rest => f.Readable ∧ f.alloc = true ∧ rest.Readable
  | .failed _ => False

/-- The stack of the thread can be unwound, and the depth guard lets it pass. -/
def Task.Unwinds (t : Task) : Prop :=
  ¬ t.setup < 0 ∧ t.stack.Readable ∧ t.stack.inner.length ≤ MAX_DEPTH + 1

/-- The instruction pointer is inside the code of the function. -/
def UnwFrame.Inside (f : UnwFrame) (base : Addr) (fj : FuncJump) : Prop :=
  base + fj.funcValue < f.ip ∧ f.ip < base + fj.funcValue + fj.funcSize.setWidth 64

/-- The frame is neither a signal frame nor inside a function to be patched. -/
def UnwFrame.Clear (f : UnwFrame) (base : Addr) (jumps : List FuncJump) : Prop :=
  ¬ 0 < f.isSignalFrame ∧ ∀ fj ∈ jumps, ¬ f.Inside base fj

/-! ## What is recorded -/

/-- The record `create_frame` makes of a frame. -/
def UnwFrame.record (f : UnwFrame) : BacktraceFrame := ⟨f.ip, f.sp, f.isSignalFrame != 0⟩

theorem readFrame_eq_ok {f : UnwFrame} {bf : BacktraceFrame} :
    readFrame f = .ok bf ↔ f.Readable ∧ bf = f.record := by
  rw [readFrame, UnwFrame.Readable, UnwFrame.record]
  by_cases h1 : f.getIp < 0
  · simp [h1]
  by_cases h2 : f.getSp < 0
  · simp [h1, h2]
  by_cases h3 : f.isSignalFrame < 0
  · simp [h1, h2, h3]
  · simp [h1, h2, h3, eq_comm]

theorem readFrame_of_readable {f : UnwFrame} (h : f.Readable) : readFrame f = .ok f.record :=
  readFrame_eq_ok.mpr ⟨h, rfl⟩

theorem readFrame_of_not_readable {f : UnwFrame} (h : ¬ f.Readable) :
    ∃ err, readFrame f = .error err := by
  cases hr : readFrame f with
  | error err => exact ⟨err, rfl⟩
  | ok bf => exact absurd (readFrame_eq_ok.mp hr).1 h

/-- The innermost frame, which is read first. -/
def UnwStack.frame : UnwStack → UnwFrame
  | .outermost f => f
  | .caller f _ => f
  | .failed f => f

theorem UnwStack.Readable.frame {st : UnwStack} (h : st.Readable) : st.frame.Readable := by
  cases st with
  | outermost f => exact h
  | caller f rest => exact h.1
  | failed f => exact h.elim

theorem doBacktrace_read_error {st : UnwStack} {err : Int} (h : readFrame st.frame = .error err)
    (bt : Backtrace) : doBacktrace bt st = .error err := by
  cases st with
  | outermost f => exact congrArg (· >>= _) h
  | caller f rest => exact congrArg (· >>= _) h
  | failed f => exact congrArg (· >>= _) h

/-- A stack whose innermost frame cannot be read has no backtrace. -/
theorem doBacktrace_unreadable {st : UnwStack} {bt bt' : Backtrace} {P : Prop}
    (hf : ¬ st.frame.Readable) : doBacktrace bt st = .ok bt' ↔ st.Readable ∧ P := by
  obtain ⟨err, he⟩ := readFrame_of_not_readable hf
  rw [doBacktrace_read_error he]
  constructor
  · intro h
    cases h
  · intro h
    exact absurd h.1.frame hf

theorem doBacktrace_caller {f : UnwFrame} (hf : f.Readable) (rest : UnwStack) (bt : Backtrace) :
    doBacktrace bt (.caller f rest) =
      if bt.depth > MAX_DEPTH then .error (-EAGAIN)
      else if f.alloc then doBacktrace ⟨bt.depth + 1, bt.calls ++ [f.record]⟩ rest
      else .error (-ENOMEM) := by
  rw [doBacktrace, readFrame_of_readable hf]
  rfl

/-- The limit at a frame and at its caller. -/
theorem UnwStack.depth_iff (st : UnwStack) {depth : Nat} (h : ¬ depth > MAX_DEPTH) :
    (st.inner = [] ∨ depth + (st.inner.length + 1) ≤ MAX_DEPTH + 1) ↔
      depth + (st.inner.length + 1) ≤ MAX_DEPTH + 1 := by
  constructor
  · rintro (hnil | hle)
    · rw [hnil, List.length_nil]
      omega
    · exact hle
  · exact Or.inr

/-- The backtrace of a stack is the list of its frames without the last one. -/
theorem doBacktrace_eq_ok {st : UnwStack} {bt bt' : Backtrace} :
    doBacktrace bt st = .ok bt' ↔
      st.Readable ∧ (st.inner = [] ∨ bt.depth + st.inner.length ≤ MAX_DEPTH + 1) ∧
        bt' = ⟨bt.depth + st.inner.length, bt.calls ++ st.inner.map UnwFrame.record⟩ := by
  induction st generalizing bt with
  | failed f =>
      by_cases hf : f.Readable
      · rw [doBacktrace, readFrame_of_readable hf]
        constructor
        · intro h
          cases h
        · intro h
          exact h.1.elim
      · exact doBacktrace_unreadable hf
  | outermost f =>
      by_cases hf : f.Readable
      · rw [doBacktrace, readFrame_of_readable hf]
        simp only [UnwStack.Readable, UnwStack.inner, hf, bind, Except.bind, Except.ok.injEq,
          true_or, true_and, List.length_nil, List.map_nil, List.append_nil, Nat.add_zero]
        exact eq_comm
      · exact doBacktrace_unreadable hf
  | caller f rest induction =>
      by_cases hf : f.Readable
      · rw [doBacktrace_caller hf]
        by_cases hd : bt.depth > MAX_DEPTH
        · rw [if_pos hd]
          simp only [UnwStack.inner, List.length_cons, reduceCtorEq, false_or, false_iff]
          rintro ⟨_, hle, _⟩
          omega
        · rw [if_neg hd]
          by_cases ha : f.alloc = true
          · rw [if_pos ha, induction]
            simp only [UnwStack.Readable, UnwStack.inner, List.length_cons, List.map_cons,
              List.append_assoc, List.singleton_append, reduceCtorEq, false_or, hf, ha, true_and]
            have hlen : bt.depth + 1 + rest.inner.length = bt.depth + (rest.inner.length + 1) := by
              omega
            rw [hlen]
            exact and_congr_right fun _ => and_congr_left fun _ => rest.depth_iff hd
          · rw [if_neg ha]
            simp [UnwStack.Readable, ha]
      · exact doBacktrace_unreadable hf

theorem pidBacktrace_eq_ok {t : Task} {bt : Backtrace} :
    pidBacktrace t = .ok bt ↔
      t.Unwinds ∧ bt = ⟨t.stack.inner.length, t.stack.inner.map UnwFrame.record⟩ := by
  rw [pidBacktrace, Task.Unwinds]
  by_cases hs : t.setup < 0
  · simp [hs]
  · rw [if_neg hs, doBacktrace_eq_ok]
    simp only [Nat.zero_add, List.nil_append, hs, not_false_eq_true, true_and, and_assoc]
    refine and_congr_right fun _ => and_congr_left fun _ => ?_
    constructor
    · rintro (hnil | hle)
      · rw [hnil]; simp
      · exact hle
    · exact Or.inr

theorem readFrame_error_lt {f : UnwFrame} {err : Int} (h : readFrame f = .error err) :
    err < 0 := by
  rw [readFrame] at h
  split at h
  · cases h
    assumption
  · split at h
    · cases h
      assumption
    · split at h
      · cases h
        assumption
      · cases h

/-- A frame that cannot be read gives its own error. -/
theorem unreadable_error_ne_zero {st : UnwStack} {bt : Backtrace} {err : Int}
    (hf : ¬ st.frame.Readable) (h : doBacktrace bt st = .error err) : err ≠ 0 := by
  obtain ⟨e, he⟩ := readFrame_of_not_readable hf
  have hneg := readFrame_error_lt he
  rw [doBacktrace_read_error he] at h
  cases h
  omega

/-- A failing unwinding never returns zero. -/
theorem doBacktrace_error_ne_zero {st : UnwStack} {bt : Backtrace} {err : Int}
    (h : doBacktrace bt st = .error err) : err ≠ 0 := by
  by_cases hf : st.frame.Readable
  · induction st generalizing bt with
    | outermost f =>
        have hread : f.Readable := hf
        rw [doBacktrace, readFrame_of_readable hread] at h
        cases h
    | failed f =>
        have hread : f.Readable := hf
        rw [doBacktrace, readFrame_of_readable hread] at h
        cases h
        decide
    | caller f rest induction =>
        have hread : f.Readable := hf
        rw [doBacktrace_caller hread] at h
        split at h
        · cases h
          decide
        · split at h
          · by_cases hrest : rest.frame.Readable
            · exact induction h hrest
            · exact unreadable_error_ne_zero hrest h
          · cases h
            decide
  · exact unreadable_error_ne_zero hf h

theorem pidBacktrace_error_ne_zero {t : Task} {err : Int} (h : pidBacktrace t = .error err) :
    err ≠ 0 := by
  rw [pidBacktrace] at h
  split at h
  · cases h
    omega
  · exact doBacktrace_error_ne_zero h

/-! ## The check of one thread -/

/-- `bt_check_range` on the record of a stack. -/
theorem btCheckRange_eq_none {l : List UnwFrame} (hr : ∀ f ∈ l, f.Readable) {n : Nat}
    {start end_ : Addr} {strict : Bool} :
    btCheckRange ⟨n, l.map UnwFrame.record⟩ start end_ strict = none ↔
      ∀ f ∈ l, ¬ 0 < f.isSignalFrame ∧
        ¬ if strict then start ≤ f.ip ∧ f.ip ≤ end_ else start < f.ip ∧ f.ip < end_ := by
  rw [btCheckRange, List.find?_eq_none]
  simp only [List.forall_mem_map]
  refine forall₂_congr fun f hf => ?_
  have hsig : (f.isSignalFrame != 0) = false ↔ ¬ 0 < f.isSignalFrame := by
    have := (hr f hf).2.2
    simp only [bne_eq_false_iff_eq]
    omega
  rw [Bool.not_eq_true, Bool.or_eq_false_iff]
  refine and_congr hsig ?_
  cases strict <;> exact decide_eq_false_iff_not

/-- `backtrace_check_func` on the record of a stack. -/
theorem backtraceCheckFunc_eq_zero {l : List UnwFrame} (hr : ∀ f ∈ l, f.Readable) {n : Nat}
    {fj : FuncJump} {base : Addr} :
    backtraceCheckFunc fj ⟨n, l.map UnwFrame.record⟩ base = 0 ↔
      ∀ f ∈ l, ¬ 0 < f.isSignalFrame ∧ ¬ f.Inside base fj := by
  unfold backtraceCheckFunc
  dsimp only
  split
  · next h => exact iff_of_true rfl ((btCheckRange_eq_none hr).mp h)
  · next h =>
      refine iff_of_false (by decide) fun hall => ?_
      cases h.symm.trans ((btCheckRange_eq_none hr).mpr hall)

/-- `backtrace_check_range` on the record of a stack. -/
theorem backtraceCheckRange_eq_zero {l : List UnwFrame} (hr : ∀ f ∈ l, f.Readable) {n : Nat}
    {start end_ : Addr} :
    backtraceCheckRange ⟨n, l.map UnwFrame.record⟩ start end_ = 0 ↔
      ∀ f ∈ l, ¬ 0 < f.isSignalFrame ∧ ¬ (start ≤ f.ip ∧ f.ip ≤ end_) := by
  unfold backtraceCheckRange
  split
  · next h => exact iff_of_true rfl ((btCheckRange_eq_none hr).mp h)
  · next h =>
      refine iff_of_false (by decide) fun hall => ?_
      cases h.symm.trans ((btCheckRange_eq_none hr).mpr hall)

theorem UnwStack.Readable.inner {st : UnwStack} (h : st.Readable) : ∀ f ∈ st.inner, f.Readable := by
  induction st with
  | outermost f => intro g hg; cases hg
  | failed f => intro g hg; cases hg
  | caller f rest ih =>
      intro g hg
      cases List.mem_cons.mp hg with
      | inl he => subst he; exact h.1
      | inr hg' => exact ih h.2.2 g hg'

/-- A check passes on a thread that can be unwound and whose inner frames pass. -/
theorem taskCheckStack_eq_zero_iff {check : Backtrace → Addr → Addr → Int} {t : Task}
    {start end_ : Addr} :
    taskCheckStack check t start end_ = 0 ↔
      t.Unwinds ∧
        check ⟨t.stack.inner.length, t.stack.inner.map UnwFrame.record⟩ start end_ = 0 := by
  rw [taskCheckStack]
  cases hb : pidBacktrace t with
  | error err =>
      have hne := pidBacktrace_error_ne_zero hb
      simp only [hne, false_iff]
      rintro ⟨hu, _⟩
      rw [pidBacktrace_eq_ok.mpr ⟨hu, rfl⟩] at hb
      cases hb
  | ok bt =>
      obtain ⟨hu, hbt⟩ := pidBacktrace_eq_ok.mp hb
      subst hbt
      exact (and_iff_right hu).symm

/-- The check of the patch command passes on a thread that can be unwound and
whose inner frames are clear, as far as the patch has jumps to look for. -/
theorem taskCheckStack_eq_zero {pi : PatchInfo} {t : Task} {start end_ : Addr} :
    taskCheckStack (jumpsCheckBacktrace pi) t start end_ = 0 ↔
      t.Unwinds ∧ ∀ fj ∈ pi.funcJumps, ∀ f ∈ t.stack.inner,
        ¬ 0 < f.isSignalFrame ∧ ¬ f.Inside start fj := by
  rw [taskCheckStack_eq_zero_iff]
  refine and_congr_right fun hu => ?_
  simp only [jumpsCheckBacktrace, iteratePatchFunctionJumps, Loop.each_check_eq_zero]
  exact forall₂_congr fun fj _ => backtraceCheckFunc_eq_zero hu.2.1.inner

/-- The check of the revert command passes when every thread can be unwound and no
inner frame is a signal frame or inside of the patch, both ends included. -/
theorem processCheckStack_patch_eq_zero {threads : List Task} {start end_ : Addr} :
    processCheckStack patchCheckBacktrace threads start end_ = 0 ↔
      ∀ t ∈ threads, t.Unwinds ∧ ∀ f ∈ t.stack.inner,
        ¬ 0 < f.isSignalFrame ∧ ¬ (start ≤ f.ip ∧ f.ip ≤ end_) := by
  rw [processCheckStack, Loop.each_check_eq_zero]
  refine forall₂_congr fun t _ => ?_
  rw [taskCheckStack_eq_zero_iff]
  exact and_congr_right fun hu => backtraceCheckRange_eq_zero hu.2.1.inner

theorem processCheckStack_eq_zero {pi : PatchInfo} {threads : List Task} {start end_ : Addr} :
    processCheckStack (jumpsCheckBacktrace pi) threads start end_ = 0 ↔
      ∀ t ∈ threads, t.Unwinds ∧ ∀ fj ∈ pi.funcJumps, ∀ f ∈ t.stack.inner,
        ¬ 0 < f.isSignalFrame ∧ ¬ f.Inside start fj := by
  rw [processCheckStack]
  rw [Loop.each_check_eq_zero]
  exact forall₂_congr fun t _ => taskCheckStack_eq_zero

/-! ## What the check misses -/

/-- A zero return of the check means what it should for these threads. -/
def StackCheckCovers (pi : PatchInfo) (threads : List Task) (start end_ : Addr) : Prop :=
  processCheckStack (jumpsCheckBacktrace pi) threads start end_ = 0 →
    ∀ t ∈ threads, ∀ f ∈ t.stack.frames, f.Clear start pi.funcJumps

/-- Something the check looks at makes it fail: a thread that cannot be unwound,
or a frame with a caller that is in the way of one of the jumps. -/
def StackCheckAlarm (pi : PatchInfo) (threads : List Task) (start : Addr) : Prop :=
  (∃ t ∈ threads, ¬ t.Unwinds) ∨
    ∃ t ∈ threads, ∃ f ∈ t.stack.inner, ∃ fj ∈ pi.funcJumps, 0 < f.isSignalFrame ∨ f.Inside start fj

/-- The frames the check does not look at are clear: the outermost frame of each
thread, and all frames when the patch has no jump. -/
def UncheckedClear (pi : PatchInfo) (threads : List Task) (start : Addr) : Prop :=
  (∀ t ∈ threads, t.stack.last.Clear start pi.funcJumps) ∧
    (pi.funcJumps = [] → ∀ t ∈ threads, ∀ f ∈ t.stack.inner, ¬ 0 < f.isSignalFrame)

theorem processCheckStack_eq_zero_iff_not_alarm {pi : PatchInfo} {threads : List Task}
    {start end_ : Addr} :
    processCheckStack (jumpsCheckBacktrace pi) threads start end_ = 0 ↔
      ¬ StackCheckAlarm pi threads start := by
  rw [processCheckStack_eq_zero]
  rw [StackCheckAlarm]
  constructor
  · rintro h (⟨t, ht, hu⟩ | ⟨t, ht, f, hf, fj, hfj, hbad⟩)
    · exact hu (h t ht).1
    · obtain ⟨hs, hi⟩ := (h t ht).2 fj hfj f hf
      exact hbad.elim hs hi
  · intro h t ht
    refine ⟨?_, fun fj hfj f hf => ⟨fun hs => ?_, fun hi => ?_⟩⟩
    · by_contra hu
      exact h (Or.inl ⟨t, ht, hu⟩)
    · exact h (Or.inr ⟨t, ht, f, hf, fj, hfj, Or.inl hs⟩)
    · exact h (Or.inr ⟨t, ht, f, hf, fj, hfj, Or.inr hi⟩)

/-- The check covers the threads exactly when it fails anyway or the frames it
leaves out are clear. -/
theorem stackCheck_covers_iff (pi : PatchInfo) (threads : List Task) (start end_ : Addr) :
    StackCheckCovers pi threads start end_ ↔
      StackCheckAlarm pi threads start ∨ UncheckedClear pi threads start := by
  rw [StackCheckCovers]
  constructor
  · intro h
    by_cases ha : StackCheckAlarm pi threads start
    · exact Or.inl ha
    · have hz : processCheckStack (jumpsCheckBacktrace pi) threads start end_ = 0 :=
        processCheckStack_eq_zero_iff_not_alarm.mpr ha
      refine Or.inr ⟨fun t ht => ?_, fun _ t ht f hf => ?_⟩
      · exact h hz t ht _ (UnwStack.mem_frames.mpr (Or.inr rfl))
      · exact (h hz t ht f (UnwStack.mem_frames.mpr (Or.inl hf))).1
  · rintro hor hz t ht f hf
    have hna := processCheckStack_eq_zero_iff_not_alarm.mp hz
    obtain ⟨hlast, hnone⟩ := hor.resolve_left hna
    cases UnwStack.mem_frames.mp hf with
    | inr he => exact he ▸ hlast t ht
    | inl hin =>
        have hin' := (processCheckStack_eq_zero.mp hz t ht).2
        refine ⟨?_, fun fj hfj => (hin' fj hfj f hin).2⟩
        cases hj : pi.funcJumps with
        | nil => exact hnone hj t ht f hin
        | cons fj js => exact (hin' fj (by rw [hj]; exact List.mem_cons_self ..) f hin).1

/-- One thread, one frame: the thread runs in the middle of the function to be
patched, at `0x1010` inside `[0x1000, 0x1020)`, and the check lets it pass. -/
theorem stackCheck_misses_outermost :
    ¬ StackCheckCovers
      { targetBid := "t", patchBid := "p",
        funcJumps := [{ funcValue := 0x1000, funcSize := 0x20, patchValue := 0 }] }
      [{ stack := .outermost { ip := 0x1010 } }] 0 0 := by
  intro h
  have hclear := h (by decide) _ (List.mem_singleton_self _) _ (List.mem_singleton_self _)
  exact hclear.2 _ (List.mem_singleton_self _) (by unfold UnwFrame.Inside; decide)

end Nsb

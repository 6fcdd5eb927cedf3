import Mathlib.Data.List.TakeWhile
import Nsb.Lib.CText
import Nsb.Patcher.Types

/-!
# Directory entries

`__iter_dentry` and `find_dentry` of `patcher/util.c`, and the part of
`service_collect_vmas` of `patcher/service.c` that looks for a mapping of the service
in `/proc/PID/map_files`.

One variable has the result of `readdir_r` and that of the actor.  The actor
returns zero to go on, a positive number when it has found something and a
negative one when it fails.  `readdir_r` returns zero at the end of the
directory and a positive number when it fails.  `find_dentry` takes only a
negative number for a failure, and its `-ENOENT` stands behind a test that a
negative number is zero.

A directory is given by what `opendir` and the calls of `readdir_r` return.  At
the end of the directory and when it fails, `readdir_r` leaves the buffer as it
is.
-/

namespace Nsb

/-! ## Reading a directory -/

/-- A value of `errno` that a failed call has set. -/
structure Errno where
  code : Nat
  pos : 0 < code

theorem Errno.neg (errno : Errno) : -(errno.code : Int) < 0 := by
  have hpos := errno.pos
  omega

/-- A directory. -/
inductive Dir where
  /-- `opendir` fails. -/
  | closed (errno : Errno)
  /-- `readdir_r` returns the entries in this order and then comes to the end, or
      fails. -/
  | opened (entries : List String) (failure : Option Errno)

/-- What `readdir_r` returns behind the last entry. -/
def readdirEnd (failure : Option Errno) : Int := failure.elim 0 fun errno => errno.code

section Iteration

variable {σ : Type}

/-- The loop of `__iter_dentry`, with the buffer and the data of the actor. -/
def iterDentryLoop (actor : String → σ → σ × Int) (failure : Option Errno) :
    List String → String → σ → (String × σ) × Int
  | [], dirent, data => ((dirent, data), readdirEnd failure)
  | dentry :: entries, _, data =>
      if dentry = "." ∨ dentry = ".." then iterDentryLoop actor failure entries dentry data
      else
        match actor dentry data with
        | (data, err) =>
            if err ≠ 0 then ((dentry, data), err)
            else iterDentryLoop actor failure entries dentry data

/-- `__iter_dentry`. -/
def iterDentry (dir : Dir) (actor : String → σ → σ × Int) (data : σ) (dirent : String) :
    (String × σ) × Int :=
  match dir with
  | .closed errno => ((dirent, data), -errno.code)
  | .opened entries failure => iterDentryLoop actor failure entries dirent data

/-- `find_dentry`, with the text at `dentry` and the data of the actor.  `dt` is what the
buffer has before the first call. -/
def findDentry (dir : Dir) (actor : String → σ → σ × Int) (data : σ) (dt dentry : String) :
    (String × σ) × Int :=
  match iterDentry dir actor data dt with
  | ((dt, data), ret) =>
      if ret < 0 then
        if ret = 0 then ((dentry, data), -ENOENT) else ((dentry, data), ret)
      else ((dt, data), 0)

/-- The entries other than `.` and `..`. -/
def visible (entries : List String) : List String :=
  entries.filter fun e => e ≠ "." ∧ e ≠ ".."

/-- An actor that looks at an entry and does not change its data. -/
def matching (m : String → σ → Int) : String → σ → σ × Int := fun dentry data =>
  (data, m dentry data)

/-- `check_map_file`: the entry begins with the text at `data`. -/
def checkMapFile (dentry base : String) : Int :=
  if base.toList.isPrefixOf dentry.toList then 1 else 0

theorem visible_cons_dot {dentry : String} {entries : List String}
    (h : dentry = "." ∨ dentry = "..") : visible (dentry :: entries) = visible entries :=
  List.filter_cons_of_neg (by rcases h with rfl | rfl <;> simp)

theorem visible_cons {dentry : String} {entries : List String}
    (h : ¬ (dentry = "." ∨ dentry = "..")) :
    visible (dentry :: entries) = dentry :: visible entries :=
  List.filter_cons_of_pos (by simpa using h)

/-- The loop ends at the first entry that the matching function does not return
zero for.  Without one, the buffer has the last entry that was read. -/
theorem iterDentryLoop_matching (m : String → σ → Int) (failure : Option Errno)
    (entries : List String) (dirent : String) (data : σ) :
    iterDentryLoop (matching m) failure entries dirent data =
      match (visible entries).find? fun e => m e data ≠ 0 with
      | some e => ((e, data), m e data)
      | none => ((entries.getLastD dirent, data), readdirEnd failure) := by
  induction entries generalizing dirent with
  | nil => rfl
  | cons dentry entries induction =>
      rw [iterDentryLoop, List.getLastD_cons]
      split
      · next hdot => rw [visible_cons_dot hdot, induction]
      · next hdot =>
          rw [visible_cons hdot]
          dsimp only [matching]
          split
          · next hne => rw [List.find?_cons_of_pos (by simpa using hne)]
          · next hzero => rw [List.find?_cons_of_neg (by simpa using hzero), induction]

end Iteration

/-! ## The search -/

/-- The entries that a search sees: those other than `.` and `..`, up to the
first that the matching function itself fails for. -/
def Dir.seen (m : String → Int) : Dir → List String
  | .closed _ => []
  | .opened entries _ => (visible entries).takeWhile fun e => 0 ≤ m e

/-- The directory cannot be opened, or it cannot be read any further when nothing
has matched. -/
def Dir.Unreadable (m : String → Int) (dir : Dir) : Prop :=
  match dir with
  | .closed _ => True
  | .opened _ failure => failure.isSome = true ∧ ∀ e ∈ dir.seen m, ¬ 0 < m e

/-- What a search returns, with the text it leaves at `dentry`: zero when some
entry matches, and the text is then the first that does.  It is a negative number
when none does and when the directory cannot be read. -/
structure FindsFirst (m : String → Int) (dir : Dir) (dentry : String) (ret : Int) : Prop where
  zero_iff : ret = 0 ↔ ∃ e ∈ dir.seen m, 0 < m e
  first : ret = 0 → (dir.seen m).find? (fun e => 0 < m e) = some dentry
  negative : (∀ e ∈ dir.seen m, ¬ 0 < m e) ∨ dir.Unreadable m → ret < 0

/-- The directory cannot be opened, or the matching function does not return zero
for some entry. -/
def Dir.Stops (m : String → Int) : Dir → Prop
  | .closed _ => True
  | .opened entries _ => ∃ e ∈ visible entries, m e ≠ 0

/-- A search that returns a negative number is right when nothing has matched. -/
theorem FindsFirst.of_negative {m : String → Int} {dir : Dir} {dentry : String} {ret : Int}
    (hret : ret < 0) (hnone : ∀ e ∈ dir.seen m, ¬ 0 < m e) : FindsFirst m dir dentry ret := by
  refine ⟨⟨fun hzero => ?_, ?_⟩, fun hzero => ?_, fun _ => hret⟩
  · omega
  · rintro ⟨e, he, hpos⟩
    exact absurd hpos (hnone e he)
  · omega

theorem Dir.Unreadable.not_pos {m : String → Int} {dir : Dir} (h : dir.Unreadable m) :
    ∀ e ∈ dir.seen m, ¬ 0 < m e := by
  cases dir with
  | closed errno => exact fun e he => absurd he List.not_mem_nil
  | opened entries failure => exact h.2

/-- A search that returns zero is right when it has found the first match. -/
theorem FindsFirst.of_find {m : String → Int} {dir : Dir} {dentry : String}
    (hfind : (dir.seen m).find? (fun e => 0 < m e) = some dentry) :
    FindsFirst m dir dentry 0 := by
  have hmatch : ∃ e ∈ dir.seen m, 0 < m e := by
    have hpos := List.find?_some hfind
    exact ⟨dentry, List.mem_of_find?_eq_some hfind, of_decide_eq_true hpos⟩
  refine ⟨⟨fun _ => hmatch, fun _ => rfl⟩, fun _ => hfind, ?_⟩
  intro h
  have hnone : ∀ e ∈ dir.seen m, ¬ 0 < m e := h.elim id Dir.Unreadable.not_pos
  obtain ⟨e, he, hpos⟩ := hmatch
  exact absurd hpos (hnone e he)

section Split

variable {m : String → Int} {entries : List String} {failure : Option Errno} {e : String}

/-- In front of the first entry that the matching function does not return zero
for, all entries are seen and none matches. -/
theorem Dir.seen_split (hfind : (visible entries).find? (fun e => m e ≠ 0) = some e) :
    ∃ front back, (∀ d ∈ front, m d = 0) ∧ (Dir.opened entries failure).seen m =
      front ++ (e :: back).takeWhile fun d => 0 ≤ m d := by
  obtain ⟨_, front, back, hsplit, hzero⟩ := List.find?_eq_some_iff_append.mp hfind
  have hfront : ∀ d ∈ front, m d = 0 := by simpa using hzero
  refine ⟨front, back, hfront, ?_⟩
  rw [Dir.seen, hsplit, List.takeWhile_append_of_pos (by simp +contextual [hfront])]

/-- The first entry that the matching function does not return zero for is the
first match when the function does not fail for it. -/
theorem Dir.find?_seen_of_pos
    (hfind : (visible entries).find? (fun e => m e ≠ 0) = some e) (hpos : 0 < m e) :
    ((Dir.opened entries failure).seen m).find? (fun e => 0 < m e) = some e := by
  obtain ⟨front, back, hfront, hseen⟩ := Dir.seen_split hfind
  rw [hseen, List.takeWhile_cons_of_pos (by simpa using hpos.le), List.find?_append,
    List.find?_eq_none.mpr (by simp +contextual [hfront]),
    List.find?_cons_of_pos (by simpa using hpos)]
  rfl

/-- Nothing matches in front of an entry that the function fails for. -/
theorem Dir.not_pos_of_neg
    (hfind : (visible entries).find? (fun e => m e ≠ 0) = some e) (hneg : m e < 0) :
    ∀ d ∈ (Dir.opened entries failure).seen m, ¬ 0 < m d := by
  obtain ⟨front, back, hfront, hseen⟩ := Dir.seen_split hfind
  rw [hseen, List.takeWhile_cons_of_neg (by simpa using hneg), List.append_nil]
  intro d hd
  rw [hfront d hd]
  exact lt_irrefl 0

/-- Nothing matches when the function returns zero for all entries. -/
theorem Dir.not_pos_of_find?_eq_none
    (hfind : (visible entries).find? (fun e => m e ≠ 0) = none) :
    ∀ d ∈ (Dir.opened entries failure).seen m, ¬ 0 < m d := by
  intro d hd
  have hzero := List.find?_eq_none.mp hfind d ((List.takeWhile_sublist _).subset hd)
  have hd0 : m d = 0 := by simpa using hzero
  rw [hd0]
  exact lt_irrefl 0

end Split

theorem readdirEnd_nonneg (failure : Option Errno) : 0 ≤ readdirEnd failure := by
  cases failure with
  | none => exact le_rfl
  | some errno => exact Int.natCast_nonneg errno.code

/-- A directory that cannot be opened. -/
theorem findDentry_closed {σ : Type} (errno : Errno) (actor : String → σ → σ × Int) (data : σ)
    (dt dentry : String) :
    findDentry (.closed errno) actor data dt dentry = ((dentry, data), -(errno.code : Int)) := by
  rw [findDentry, iterDentry]
  dsimp only
  rw [if_pos errno.neg, if_neg errno.neg.ne]

/-- `find_dentry` returns what the matching function fails with, and zero in all
other cases. -/
theorem findDentry_opened {σ : Type} (m : String → σ → Int) (entries : List String)
    (failure : Option Errno) (data : σ) (dt dentry : String) :
    findDentry (.opened entries failure) (matching m) data dt dentry =
      match (visible entries).find? fun e => m e data ≠ 0 with
      | some e => if m e data < 0 then ((dentry, data), m e data) else ((e, data), 0)
      | none => ((entries.getLastD dt, data), 0) := by
  rw [findDentry, iterDentry, iterDentryLoop_matching]
  cases hfind : (visible entries).find? fun e => m e data ≠ 0 with
  | none =>
      dsimp only
      rw [if_neg (Int.not_lt.mpr (readdirEnd_nonneg failure))]
  | some e =>
      have hne : m e data ≠ 0 := by simpa using List.find?_some hfind
      dsimp only
      rw [if_neg hne]

/-- `find_dentry` with a matching function does what a search is to do exactly
when the directory cannot be opened or the function does not return zero for some
entry.  In a directory that has been opened, it does not tell the search that
finds nothing from one that does. -/
theorem findDentry_findsFirst_iff {σ : Type} (m : String → σ → Int) (dir : Dir) (data : σ)
    (dt dentry : String) :
    FindsFirst (fun e => m e data) dir (findDentry dir (matching m) data dt dentry).1.1
        (findDentry dir (matching m) data dt dentry).2 ↔
      dir.Stops fun e => m e data := by
  cases dir with
  | closed errno =>
      rw [findDentry_closed]
      exact iff_of_true (.of_negative errno.neg fun e he => absurd he List.not_mem_nil) trivial
  | opened entries failure =>
      rw [findDentry_opened]
      cases hfind : (visible entries).find? fun e => m e data ≠ 0 with
      | none =>
          -- zero is returned though nothing has matched
          refine iff_of_false (fun h => ?_) ?_
          · obtain ⟨e, he, hpos⟩ := h.zero_iff.mp rfl
            exact Dir.not_pos_of_find?_eq_none hfind e he hpos
          · rintro ⟨e, he, hne⟩
            exact List.find?_eq_none.mp hfind e he (decide_eq_true hne)
      | some e =>
          have hne : m e data ≠ 0 := by simpa using List.find?_some hfind
          have hstops : (Dir.opened entries failure).Stops fun e => m e data :=
            ⟨e, List.mem_of_find?_eq_some hfind, hne⟩
          refine iff_of_true ?_ hstops
          dsimp only
          split
          · next hneg => exact .of_negative hneg (Dir.not_pos_of_neg hfind hneg)
          · next hneg =>
              have hpos : 0 < m e data := by omega
              exact .of_find (Dir.find?_seen_of_pos hfind hpos)

/-- A search that finds nothing returns zero and leaves the last entry, and so
does one that `readdir_r` fails in. -/
theorem findDentry_not_findsFirst :
    findDentry (.opened [".", "..", "400000-401000"] none) (matching checkMapFile)
        "7f0000000000-" "" "7f0000000000-" = (("400000-401000", "7f0000000000-"), 0) ∧
      ¬ FindsFirst (fun e => checkMapFile e "7f0000000000-")
        (.opened [".", "..", "400000-401000"] none) "400000-401000" 0 ∧
      findDentry (.opened [".", ".."] (some ⟨5, Nat.succ_pos 4⟩)) (matching checkMapFile)
        "7f0000000000-" "" "7f0000000000-" = (("..", "7f0000000000-"), 0) ∧
      ¬ FindsFirst (fun e => checkMapFile e "7f0000000000-")
        (.opened [".", ".."] (some ⟨5, Nat.succ_pos 4⟩)) ".." 0 := by
  refine ⟨by decide, fun h => ?_, by decide, fun h => ?_⟩
  · have hmatch := h.zero_iff.mp rfl
    revert hmatch
    decide
  · have hmatch := h.zero_iff.mp rfl
    revert hmatch
    decide

/-! ## The mapping of the service -/

/-- An entry of `/proc/PID/map_files`, with the two ends of a mapping as `%lx`
writes them. -/
def mapFileName (start stop : Addr) : String :=
  String.ofList (Nat.toDigits 16 start.toNat ++ '-' :: Nat.toDigits 16 stop.toNat)

/-- The text that `service_collect_vmas` looks for, `%lx-` of the base. -/
def mapFileStart (base : Addr) : String :=
  String.ofList (Nat.toDigits 16 base.toNat ++ ['-'])

/-- `service_collect_vmas` up to the link that it reads.  One buffer has the text
to look for and then the entry. -/
def serviceMapFile (pid : Nat) (base : Addr) (dir : Dir) (dt : String) : Except Int String :=
  match findDentry dir (matching checkMapFile) (mapFileStart base) dt (mapFileStart base) with
  | ((dentry, _), err) =>
      if err ≠ 0 then .error err
      else .ok ("/proc/" ++ toString pid ++ "/map_files/" ++ dentry)

theorem takeWhile_toDigits (n : Nat) (rest : List Char) :
    (Nat.toDigits 16 n ++ '-' :: rest).takeWhile (CText.isDigitOf 16) = Nat.toDigits 16 n := by
  have hdigits : ∀ c ∈ Nat.toDigits 16 n, CText.isDigitOf 16 c = true := fun c hc =>
    CText.isDigitOf_of_mem_toDigits (by omega) le_rfl hc
  rw [List.takeWhile_append_of_pos hdigits, List.takeWhile_cons_of_neg (by decide),
    List.append_nil]

/-- An entry begins with the text for an address when its mapping starts there. -/
theorem checkMapFile_ne_zero_iff {base start stop : Addr} :
    checkMapFile (mapFileName start stop) (mapFileStart base) ≠ 0 ↔ start = base := by
  have hbegin : checkMapFile (mapFileName start stop) (mapFileStart base) ≠ 0 ↔
      Nat.toDigits 16 base.toNat ++ ['-'] <+:
        Nat.toDigits 16 start.toNat ++ '-' :: Nat.toDigits 16 stop.toNat := by
    rw [checkMapFile, mapFileName, mapFileStart, String.toList_ofList, String.toList_ofList,
      ← List.isPrefixOf_iff_prefix]
    simp
  rw [hbegin]
  constructor
  · rintro ⟨rest, hrest⟩
    rw [List.append_assoc, List.singleton_append] at hrest
    have hdigits : Nat.toDigits 16 base.toNat = Nat.toDigits 16 start.toNat := by
      rw [← takeWhile_toDigits base.toNat rest, hrest, takeWhile_toDigits]
    have hval := congrArg (CText.digitsVal 16) hdigits
    rw [CText.digitsVal_toDigits (by omega) le_rfl, CText.digitsVal_toDigits (by omega) le_rfl]
      at hval
    exact BitVec.eq_of_toNat_eq hval.symm
  · rintro rfl
    exact ⟨Nat.toDigits 16 stop.toNat, by rw [List.append_assoc, List.singleton_append]⟩

theorem checkMapFile_nonneg (dentry base : String) : 0 ≤ checkMapFile dentry base := by
  rw [checkMapFile]
  split <;> decide

/-- The service goes on with the first mapping that starts at its base.  When
there is none, it goes on with the last entry that was read. -/
theorem serviceMapFile_eq {entries : List String} {ranges : List (Addr × Addr)}
    (hentries : visible entries = ranges.map fun r => mapFileName r.1 r.2) (pid : Nat)
    (base : Addr) (failure : Option Errno) (dt : String) :
    serviceMapFile pid base (.opened entries failure) dt =
      .ok ("/proc/" ++ toString pid ++ "/map_files/" ++
        match ranges.find? fun r => r.1 = base with
        | some r => mapFileName r.1 r.2
        | none => entries.getLastD dt) := by
  have htest : (fun e => decide (checkMapFile e (mapFileStart base) ≠ 0)) ∘
      (fun r : Addr × Addr => mapFileName r.1 r.2) = fun r => decide (r.1 = base) :=
    funext fun r => decide_eq_decide.mpr checkMapFile_ne_zero_iff
  rw [serviceMapFile, findDentry_opened, hentries, List.find?_map, htest]
  cases ranges.find? fun r => r.1 = base with
  | none => rfl
  | some r =>
      dsimp only [Option.map]
      rw [if_neg (Int.not_lt.mpr (checkMapFile_nonneg _ _))]
      rfl

/-- The first of two mappings is found by its start, and for a base that no mapping
starts at the service goes on with the second one. -/
theorem serviceMapFile_twoMappings :
    serviceMapFile 7 0x400000 (.opened [".", "400000-401000", "..", "7f00-8f00"] none) "" =
        .ok "/proc/7/map_files/400000-401000" ∧
      serviceMapFile 7 0x500000 (.opened [".", "400000-401000", "..", "7f00-8f00"] none) "" =
        .ok "/proc/7/map_files/7f00-8f00" := by
  have hentries : visible [".", "400000-401000", "..", "7f00-8f00"] =
      [((0x400000 : Addr), (0x401000 : Addr)), (0x7f00, 0x8f00)].map
        fun r => mapFileName r.1 r.2 := by decide
  exact ⟨serviceMapFile_eq hentries 7 0x400000 none "",
    serviceMapFile_eq hentries 7 0x500000 none ""⟩

end Nsb

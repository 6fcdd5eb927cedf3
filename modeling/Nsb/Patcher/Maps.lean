import Nsb.Lib.CText
import Nsb.Patcher.Session

/-!
# Reading the mappings of a process

`iter_map_files` and `collect_vmas` of `patcher/vma.c` on the text of
`/proc/PID/maps`.  `MapsLine` is a line as the kernel writes it.

A line is read into a buffer of `PATH_MAX` bytes, so a long one comes in pieces.
The last byte of every piece is dropped.  The path is what stands behind the
white space after the inode.

Memory is always allocated.  Whether there is an entry in `/proc/PID/map_files`
for a range, and which file it is, is given by `mapFiles`.
-/

namespace Nsb

open CText (Directive Value sscanf scan putDigits isSpace strtoul fgetsAll pieces Ends)

/-! ## Parsing -/

def PATH_MAX : Nat := 4096

def MAP_SHARED : BitVec 32 := 1

/-- The format of `parse_vma`. -/
def mapsFormat : List Directive :=
  [.unsigned 16, .literal '-', .unsigned 16, .space, .char, .char, .char, .char, .space,
    .unsigned 16, .space, .unsigned 16, .literal ':', .unsigned 16, .space, .unsigned 10, .space,
    .count]

/-- `vma->prot` of three characters. -/
def parseProt (r w x : Char) : BitVec 32 :=
  (if r = 'r' then PROT_READ else 0) ||| (if w = 'w' then PROT_WRITE else 0) |||
    (if x = 'x' then PROT_EXEC else 0)

/-- `parse_vma`.  All ten conversions match when there are eleven values. -/
def parseVma (line : List Char) : Except Int Vma :=
  match sscanf line mapsFormat with
  | [.unsigned addr, .unsigned stop, .char r, .char w, .char x, .char s, .unsigned offset,
      .unsigned _, .unsigned _, .unsigned _, .count pathOff] =>
      let vma : Vma :=
        { addr := addr, length := stop - addr, flags := 0, prot := parseProt r w x
          offset := offset
          path := if pathOff ≠ line.length then some (String.ofList (line.drop pathOff))
            else none }
      if s = 's' then .ok { vma with flags := MAP_SHARED }
      else if s = 'p' then .ok { vma with flags := MAP_PRIVATE }
      else .error (-EINVAL)
  | _ => .error (-EINVAL)

/-- `create_vma` of a template. -/
def createVmaOf (mapFiles : Addr → Addr → Option MapFile) (template : Vma) : Vma :=
  createVma { template with mapFile := mapFiles (vmaStart template) (vmaEnd template) }

/-- The loop of `iter_map_files` with `collect_one_vma`, over what `fgets` reads. -/
def iterMapLines (mapFiles : Addr → Addr → Option MapFile) :
    List (List Char) → List Vma → Int → List Vma × Int
  | [], head, ret => (head, ret)
  | buf :: bufs, head, _ =>
      match parseVma buf.dropLast with
      | .error err => (head, err)
      | .ok template =>
          match addVmaSorted head (createVmaOf mapFiles template) with
          | .error err => (head, err)
          | .ok head => iterMapLines mapFiles bufs head 0

/-- `collect_vmas`: the list and the return code. -/
def collectMaps (mapFiles : Addr → Addr → Option MapFile) (text : List Char) : List Vma × Int :=
  iterMapLines mapFiles (fgetsAll (PATH_MAX - 2) text) [] (-1)

/-! ## The file -/

/-- A path of up to 4095 bytes. -/
structure MapsPath where
  text : List Char
  nonempty : text ≠ []
  noNewline : '\n' ∉ text
  noNul : '\x00' ∉ text
  short : text.length ≤ 4095

/-- A line of `/proc/PID/maps`.  `spaces` stand behind the inode, at least one in
front of a path. -/
structure MapsLine where
  start : Addr
  stop : Addr
  readable : Bool
  writable : Bool
  executable : Bool
  shared : Bool
  offset : BitVec 64
  devMaj : Nat
  devMin : Nat
  ino : Nat
  spaces : Nat
  path : Option MapsPath
  spaced : path.isSome = true → 0 < spaces

/-- The text of the path. -/
def MapsLine.pathText (line : MapsLine) : List Char := line.path.elim [] MapsPath.text

/-- The part of a line from the permissions on. -/
def MapsLine.renderTail (line : MapsLine) : List Char :=
  ' ' :: (if line.readable then 'r' else '-') :: (if line.writable then 'w' else '-') ::
    (if line.executable then 'x' else '-') :: (if line.shared then 's' else 'p') :: ' ' ::
    (putDigits 16 8 line.offset.toNat ++ ' ' :: (putDigits 16 2 line.devMaj ++ ':' ::
      (putDigits 16 2 line.devMin ++ ' ' :: (putDigits 10 1 line.ino ++
        (List.replicate line.spaces ' ' ++ line.pathText)))))

/-- A line without its newline. -/
def MapsLine.render (line : MapsLine) : List Char :=
  putDigits 16 8 line.start.toNat ++ '-' :: (putDigits 16 8 line.stop.toNat ++ line.renderTail)

/-- The file. -/
def renderMaps (lines : List MapsLine) : List Char :=
  (lines.map MapsLine.render).flatMap fun line => line ++ ['\n']

/-- The protection of a line. -/
def MapsLine.prot (line : MapsLine) : BitVec 32 :=
  (if line.readable then PROT_READ else 0) ||| (if line.writable then PROT_WRITE else 0) |||
    (if line.executable then PROT_EXEC else 0)

/-- The mapping of a line with a path. -/
def MapsLine.vmaWith (mapFiles : Addr → Addr → Option MapFile) (line : MapsLine)
    (path : Option String) : Vma where
  addr := line.start
  length := line.stop - line.start
  flags := if line.shared then MAP_SHARED else MAP_PRIVATE
  prot := line.prot
  offset := line.offset
  path := path
  mapFile := mapFiles line.start line.stop

/-- The mapping of a line. -/
def MapsLine.vma (mapFiles : Addr → Addr → Option MapFile) (line : MapsLine) : Vma :=
  line.vmaWith mapFiles (line.path.map fun path => String.ofList path.text)

/-! ## One line -/

/-- The path that `parse_vma` finds. -/
def MapsLine.scannedPath (line : MapsLine) : Option String :=
  if line.pathText.dropWhile isSpace = [] then none
  else some (String.ofList (line.pathText.dropWhile isSpace))

theorem ends_cons {c : Char} {text : List Char} (h : CText.isDigitOf 16 c = false) (hx : c ≠ 'x')
    (hX : c ≠ 'X') : Ends (c :: text) := by
  rintro _ ⟨⟩
  exact ⟨h, hx, hX⟩

theorem strtoul_toNat (v : BitVec 64) : strtoul false v.toNat = v := by
  have hle : v.toNat ≤ (BitVec.allOnes 64).toNat := by
    rw [BitVec.toNat_allOnes]
    exact Nat.le_pred_of_lt v.isLt
  rw [strtoul, if_neg (Nat.not_lt.mpr hle)]
  exact BitVec.ofNat_toNat 64 v

/-- What stands behind the inode does not go on with its digits. -/
theorem MapsLine.ends_path (line : MapsLine) :
    Ends (List.replicate line.spaces ' ' ++ line.pathText) := by
  rcases line with ⟨_, _, _, _, _, _, _, _, _, _, spaces, path, spaced⟩
  cases spaces with
  | succ spaces => exact ends_cons rfl (by simp) (by simp)
  | zero =>
      cases path with
      | some path => exact absurd (spaced rfl) (Nat.lt_irrefl 0)
      | none =>
          rintro _ ⟨⟩

/-- The characters of the permissions are read as they are. -/
theorem MapsLine.scan_permissions (line : MapsLine) (length : Nat) (format : List Directive)
    (rest : List Char) :
    scan length (.space :: .char :: .char :: .char :: .char :: format)
        (' ' :: (if line.readable then 'r' else '-') :: (if line.writable then 'w' else '-') ::
          (if line.executable then 'x' else '-') :: (if line.shared then 's' else 'p') :: rest) =
      .char (if line.readable then 'r' else '-') :: .char (if line.writable then 'w' else '-') ::
        .char (if line.executable then 'x' else '-') :: .char (if line.shared then 's' else 'p') ::
        scan length format rest := by
  have hr : isSpace (if line.readable then 'r' else '-') = false := by
    split <;> rfl
  rw [CText.scan_space_cons _ _ hr]
  rfl

/-- What `sscanf` reads of a line. -/
theorem MapsLine.sscanf_render (line : MapsLine) :
    sscanf line.render mapsFormat =
      [.unsigned line.start, .unsigned line.stop, .char (if line.readable then 'r' else '-'),
        .char (if line.writable then 'w' else '-'), .char (if line.executable then 'x' else '-'),
        .char (if line.shared then 's' else 'p'), .unsigned line.offset,
        .unsigned (strtoul false line.devMaj), .unsigned (strtoul false line.devMin),
        .unsigned (strtoul false line.ino),
        .count (line.render.length - (line.pathText.dropWhile isSpace).length)] := by
  have hdash : ∀ text, Ends ('-' :: text) := fun _ => ends_cons rfl (by simp) (by simp)
  have hspace : ∀ text, Ends (' ' :: text) := fun _ => ends_cons rfl (by simp) (by simp)
  have hcolon : ∀ text, Ends (':' :: text) := fun _ => ends_cons rfl (by simp) (by simp)
  have hblanks : (List.replicate line.spaces ' ' ++ line.pathText).dropWhile isSpace =
      line.pathText.dropWhile isSpace := by
    refine List.dropWhile_append_of_pos ?_
    intro c hc
    rw [List.eq_of_mem_replicate hc]
    rfl
  rw [sscanf]
  generalize line.render.length = length
  rw [MapsLine.render, mapsFormat, CText.scan_putDigits (by simp) (by simp) _ _ _ _ (hdash _),
    CText.scan_literal, MapsLine.renderTail,
    CText.scan_putDigits (by simp) (by simp) _ _ _ _ (hspace _), MapsLine.scan_permissions,
    CText.scan_space_putDigits (by simp) (by simp) _ _ _ _ (hspace _),
    CText.scan_space_putDigits (by simp) (by simp) _ _ _ _ (hcolon _), CText.scan_literal,
    CText.scan_putDigits (by simp) (by simp) _ _ _ _ (hspace _),
    CText.scan_space_putDigits (by simp) (by simp) _ _ _ _ line.ends_path, scan, hblanks,
    strtoul_toNat, strtoul_toNat, strtoul_toNat]
  rfl

theorem MapsLine.path_suffix (line : MapsLine) :
    line.pathText.dropWhile isSpace <:+ line.render := by
  refine (List.dropWhile_suffix _).trans ?_
  refine ⟨putDigits 16 8 line.start.toNat ++ '-' :: (putDigits 16 8 line.stop.toNat ++
    ' ' :: (if line.readable then 'r' else '-') :: (if line.writable then 'w' else '-') ::
    (if line.executable then 'x' else '-') :: (if line.shared then 's' else 'p') :: ' ' ::
    (putDigits 16 8 line.offset.toNat ++ ' ' :: (putDigits 16 2 line.devMaj ++ ':' ::
      (putDigits 16 2 line.devMin ++ ' ' :: (putDigits 10 1 line.ino ++
        List.replicate line.spaces ' '))))), ?_⟩
  simp only [MapsLine.render, MapsLine.renderTail, List.append_assoc, List.cons_append]

/-- `parse_vma` of a line. -/
theorem MapsLine.parseVma_render (line : MapsLine) :
    ∃ template, parseVma line.render = .ok template ∧
      ∀ mapFiles, createVmaOf mapFiles template = line.vmaWith mapFiles line.scannedPath := by
  have hdrop := List.suffix_iff_eq_drop.mp line.path_suffix
  have hle := line.path_suffix.length_le
  have hpath : (if line.render.length - (line.pathText.dropWhile isSpace).length ≠
        line.render.length then
      some (String.ofList (line.render.drop
        (line.render.length - (line.pathText.dropWhile isSpace).length)))
      else none) = line.scannedPath := by
    rw [← hdrop, MapsLine.scannedPath]
    by_cases hnil : line.pathText.dropWhile isSpace = []
    · rw [if_pos hnil, hnil]
      exact if_neg (fun h => h rfl)
    · have hpos := List.length_pos_iff.mpr hnil
      rw [if_neg hnil, if_pos (by omega)]
  have hprot : parseProt (if line.readable then 'r' else '-') (if line.writable then 'w' else '-')
      (if line.executable then 'x' else '-') = line.prot := by
    rcases line with ⟨_, _, r, w, x, _, _, _, _, _, _, _, _⟩
    cases r <;> cases w <;> cases x <;> rfl
  rw [parseVma, line.sscanf_render]
  dsimp only
  rw [hpath, hprot]
  have hend : line.start + (line.stop - line.start) = line.stop := by
    rw [BitVec.add_comm, BitVec.sub_add_cancel]
  cases hs : line.shared with
  | true =>
      refine ⟨_, rfl, ?_⟩
      intro mapFiles
      simp only [createVmaOf, createVma, MapsLine.vmaWith, vmaStart, vmaEnd, hend, hs, if_true]
  | false =>
      refine ⟨_, rfl, ?_⟩
      intro mapFiles
      simp [createVmaOf, createVma, MapsLine.vmaWith, vmaStart, vmaEnd, hend, hs]

/-! ## The whole file -/

theorem MapsLine.newline_not_mem (line : MapsLine) : '\n' ∉ line.render := by
  have hdigits : ∀ width n, '\n' ∉ putDigits 16 width n := by
    intro width n h
    cases CText.isDigitOf_of_mem_putDigits (by simp) (by simp) h
  have hino : '\n' ∉ putDigits 10 1 line.ino := by
    intro h
    cases CText.isDigitOf_of_mem_putDigits (by simp) (by simp) h
  have hpath : '\n' ∉ line.pathText := by
    rw [MapsLine.pathText]
    cases line.path with
    | none => exact List.not_mem_nil
    | some path => exact path.noNewline
  have hblanks : '\n' ∉ List.replicate line.spaces ' ' := by
    intro h
    cases List.eq_of_mem_replicate h
  have hperm : ∀ (b : Bool) (c d : Char), c ≠ '\n' → d ≠ '\n' → '\n' ≠ if b then c else d := by
    intro b c d hc hd
    cases b
    · exact Ne.symm hd
    · exact Ne.symm hc
  simp only [MapsLine.render, MapsLine.renderTail, List.mem_append, List.mem_cons, hdigits, hino,
    hpath, hblanks, or_false, false_or, not_or]
  refine ⟨by simp, by simp, hperm _ _ _ ?_ ?_, hperm _ _ _ ?_ ?_, hperm _ _ _ ?_ ?_,
    hperm _ _ _ ?_ ?_, by simp, by simp, by simp, by simp⟩ <;> simp

section Lines

variable (mapFiles : Addr → Addr → Option MapFile)

/-- The loop over lines that fit the buffer. -/
theorem iterMapLines_lines (lines : List MapsLine) {head : List Vma} (hs : VmaSorted head)
    (ret : Int) :
    ∃ l, iterMapLines mapFiles (lines.map fun line => line.render ++ ['\n']) head ret =
        (l, if lines = [] then ret else 0) ∧
      spliceVmaListsSorted (lines.map fun line => line.vmaWith mapFiles line.scannedPath) head =
        .ok l ∧
      l.Perm (lines.map (fun line => line.vmaWith mapFiles line.scannedPath) ++ head) ∧
      VmaSorted l := by
  induction lines generalizing head ret with
  | nil => exact ⟨head, rfl, rfl, .refl _, hs⟩
  | cons line lines induction =>
      obtain ⟨template, hparse, hcreate⟩ := line.parseVma_render
      obtain ⟨l, hadd, hperm, hl⟩ :=
        addVmaSorted_sorted hs (line.vmaWith mapFiles line.scannedPath)
      obtain ⟨l', hiter, hsplice, hperm', hl'⟩ := induction hl 0
      refine ⟨l', ?_, ?_, ?_, hl'⟩
      · rw [List.map_cons, iterMapLines, List.dropLast_concat, hparse]
        dsimp only
        rw [hcreate, hadd]
        dsimp only
        rw [hiter, ite_self]
        rfl
      · rw [List.map_cons, spliceVmaListsSorted_cons, hadd]
        exact hsplice
      · rw [List.map_cons]
        exact hperm'.trans ((hperm.append_left _).trans List.perm_middle)

theorem parseVma_error {line : List Char} {err : Int} (h : parseVma line = .error err) :
    err ≠ 0 := by
  have hinval : (-EINVAL : Int) ≠ 0 := by simp [EINVAL]
  rw [parseVma] at h
  split at h
  · dsimp only at h
    split at h
    · cases h
    · split at h
      · cases h
      · cases h
        exact hinval
  · cases h
    exact hinval

/-- A run that succeeds has added a mapping for every piece. -/
theorem length_of_iterMapLines {bufs : List (List Char)} {head l : List Vma} {ret : Int}
    (hs : VmaSorted head) (h : iterMapLines mapFiles bufs head ret = (l, 0)) :
    l.length = head.length + bufs.length := by
  induction bufs generalizing head ret with
  | nil =>
      cases h
      rfl
  | cons buf bufs induction =>
      rw [iterMapLines] at h
      cases hparse : parseVma buf.dropLast with
      | error err =>
          rw [hparse] at h
          cases h
          exact absurd rfl (parseVma_error hparse)
      | ok template =>
          obtain ⟨l', hadd, hperm, hl'⟩ := addVmaSorted_sorted hs (createVmaOf mapFiles template)
          rw [hparse] at h
          dsimp only at h
          rw [hadd] at h
          have hlen := induction hl' h
          rw [hperm.length_eq, List.length_cons] at hlen
          rw [hlen, List.length_cons]
          omega

/-- What `fgets` reads of the file. -/
theorem fgetsAll_renderMaps (lines : List MapsLine) :
    fgetsAll (PATH_MAX - 2) (renderMaps lines) =
      (lines.map MapsLine.render).flatMap (pieces (PATH_MAX - 2)) := by
  refine CText.fgetsAll_lines _ ?_
  intro text htext
  obtain ⟨line, _, rfl⟩ := List.mem_map.mp htext
  exact line.newline_not_mem

/-- Every line fits the buffer, with its newline and the null byte. -/
def LinesFit (lines : List MapsLine) : Prop :=
  ∀ line ∈ lines, line.render.length ≤ PATH_MAX - 2

/-- The file is read back as far as white space in front of a path goes. -/
theorem collectMaps_of_fit {lines : List MapsLine} (hne : lines ≠ []) (hfit : LinesFit lines) :
    ∃ l, collectMaps mapFiles (renderMaps lines) = (l, 0) ∧
      collectVmas (lines.map fun line => line.vmaWith mapFiles line.scannedPath) = .ok l ∧
      l.Perm (lines.map fun line => line.vmaWith mapFiles line.scannedPath) ∧ VmaSorted l := by
  have hpieces : (lines.map MapsLine.render).flatMap (pieces (PATH_MAX - 2)) =
      lines.map fun line => line.render ++ ['\n'] := by
    rw [List.flatMap_map, ← List.flatMap_singleton' (lines.map _), List.flatMap_map]
    refine List.flatMap_congr ?_
    intro line hline
    exact CText.pieces_of_le (hfit line hline)
  obtain ⟨l, hiter, hsplice, hperm, hs⟩ := iterMapLines_lines mapFiles lines List.Pairwise.nil (-1)
  refine ⟨l, ?_, ?_, ?_, hs⟩
  · rw [collectMaps, fgetsAll_renderMaps, hpieces, hiter, if_neg hne]
  · have hdlm : (lines.map fun line => line.vmaWith mapFiles line.scannedPath).map createVma =
        lines.map fun line => line.vmaWith mapFiles line.scannedPath := by
      rw [List.map_map]
      rfl
    rw [collectVmas, if_neg (by simp [hne]), collectVmaLines, hdlm, hsplice]
  · rw [List.append_nil] at hperm
    exact hperm

/-- A list with as many mappings as lines comes from lines that fit the buffer. -/
theorem fit_of_collectMaps {lines : List MapsLine} {l : List Vma}
    (h : collectMaps mapFiles (renderMaps lines) = (l, 0)) (hlen : l.length = lines.length) :
    LinesFit lines := by
  rw [collectMaps, fgetsAll_renderMaps] at h
  have hpieces := length_of_iterMapLines mapFiles List.Pairwise.nil h
  rw [List.length_nil, Nat.zero_add] at hpieces
  have hfit : ∀ text ∈ lines.map MapsLine.render, text.length ≤ PATH_MAX - 2 :=
    CText.length_le_of_pieces (by rw [← hpieces, hlen, List.length_map])
  intro line hline
  exact hfit _ (List.mem_map_of_mem hline)

/-- A path that does not begin with white space. -/
def MapsLine.PlainPath (line : MapsLine) : Prop :=
  ∀ c ∈ line.pathText.head?, isSpace c = false

theorem MapsLine.scannedPath_of_plain {line : MapsLine} (h : line.PlainPath) :
    line.scannedPath = line.path.map fun path => String.ofList path.text := by
  have hdrop : line.pathText.dropWhile isSpace = line.pathText := by
    rw [MapsLine.PlainPath] at h
    cases htext : line.pathText with
    | nil => rfl
    | cons c text =>
        rw [htext] at h
        exact List.dropWhile_cons_of_neg (by rw [h c rfl]; simp)
  rw [MapsLine.scannedPath, hdrop, MapsLine.pathText]
  cases line.path with
  | none => rfl
  | some path => exact if_neg path.nonempty

/-- A path that has been read does not begin with white space. -/
theorem MapsLine.plain_of_scannedPath {line line' : MapsLine}
    (h : line'.scannedPath = line.path.map fun path => String.ofList path.text) :
    line.PlainPath := by
  have hhead : ∀ c ∈ (line'.pathText.dropWhile isSpace).head?, isSpace c = false := by
    intro c hc
    have hnot := List.head?_dropWhile_not isSpace line'.pathText
    rw [hc] at hnot
    simpa using hnot
  rw [MapsLine.scannedPath] at h
  rw [MapsLine.PlainPath, MapsLine.pathText]
  cases hpath : line.path with
  | none =>
      intro c hc
      cases hc
  | some path =>
      rw [hpath] at h
      split at h
      · cases h
      · have htext : line'.pathText.dropWhile isSpace = path.text :=
          String.ofList_injective (Option.some.inj h)
        rw [htext] at hhead
        exact hhead

/-- `collect_vmas` reads back the address space exactly when there is a mapping, every line fits
the buffer and no path begins with white space. -/
theorem collectMaps_exact_iff (lines : List MapsLine) :
    (∃ l, collectMaps mapFiles (renderMaps lines) = (l, 0) ∧ VmaSorted l ∧
        l.Perm (lines.map (MapsLine.vma mapFiles))) ↔
      lines ≠ [] ∧ ∀ line ∈ lines, line.render.length ≤ PATH_MAX - 2 ∧ line.PlainPath := by
  constructor
  · rintro ⟨l, hcollect, hs, hperm⟩
    have hne : lines ≠ [] := by
      rintro rfl
      rw [collectMaps, fgetsAll_renderMaps] at hcollect
      cases hcollect
    have hfit := fit_of_collectMaps mapFiles hcollect (by rw [hperm.length_eq, List.length_map])
    obtain ⟨l', hcollect', _, hperm', _⟩ := collectMaps_of_fit mapFiles hne hfit
    obtain rfl : l' = l := by
      rw [hcollect] at hcollect'
      exact (Prod.mk.inj hcollect').1.symm
    refine ⟨hne, ?_⟩
    intro line hline
    refine ⟨hfit line hline, ?_⟩
    have hmem : line.vma mapFiles ∈ l' := hperm.mem_iff.mpr (List.mem_map_of_mem hline)
    obtain ⟨line', _, heq⟩ := List.mem_map.mp (hperm'.mem_iff.mp hmem)
    exact MapsLine.plain_of_scannedPath (congrArg Vma.path heq)
  · rintro ⟨hne, hlines⟩
    have hvma : (lines.map fun line => line.vmaWith mapFiles line.scannedPath) =
        lines.map (MapsLine.vma mapFiles) := by
      refine List.map_congr_left ?_
      intro line hline
      rw [MapsLine.vma, MapsLine.scannedPath_of_plain (hlines line hline).2]
    obtain ⟨l, hcollect, _, hperm, hs⟩ :=
      collectMaps_of_fit mapFiles hne (fun line hline => (hlines line hline).1)
    rw [hvma] at hperm
    exact ⟨l, hcollect, hs, hperm⟩

end Lines

/-! ## A path of full length -/

/-- The text of a path of 4095 bytes. -/
def longText : List Char := '/' :: List.replicate 4094 'a'

theorem eq_of_mem_longText {c : Char} (h : c ∈ longText) : c = '/' ∨ c = 'a' :=
  (List.mem_cons.mp h).imp id List.eq_of_mem_replicate

theorem longText_ne_nil : longText ≠ [] := List.cons_ne_nil _ _

theorem newline_not_mem_longText : '\n' ∉ longText := by
  intro h
  rcases eq_of_mem_longText h with h | h <;> cases h

theorem nul_not_mem_longText : '\x00' ∉ longText := by
  intro h
  rcases eq_of_mem_longText h with h | h <;> cases h

theorem length_longText : longText.length ≤ 4095 := by
  rw [longText, List.length_cons, List.length_replicate]

/-- A path of 4095 bytes. -/
def longPath : MapsPath where
  text := longText
  nonempty := longText_ne_nil
  noNewline := newline_not_mem_longText
  noNul := nul_not_mem_longText
  short := length_longText

theorem longPath_spaced : (some longPath).isSome = true → 0 < 1 := fun _ => Nat.one_pos

/-- A page of a file with that path. -/
def longLine : MapsLine where
  start := 0x400000
  stop := 0x401000
  readable := true
  writable := false
  executable := true
  shared := false
  offset := 0
  devMaj := 8
  devMin := 1
  ino := 42
  spaces := 1
  path := some longPath
  spaced := longPath_spaced

/-- At least ten bytes stand in front of a path. -/
theorem MapsLine.length_pathText_lt (line : MapsLine) :
    line.pathText.length + 10 ≤ line.render.length := by
  simp only [MapsLine.render, MapsLine.renderTail, List.length_append, List.length_cons]
  omega

/-- The line is read in two pieces. -/
theorem longLine_not_exact :
    ¬ ∃ l, collectMaps (fun _ _ => none) (renderMaps [longLine]) = (l, 0) ∧ VmaSorted l ∧
      l.Perm ([longLine].map (MapsLine.vma fun _ _ => none)) := by
  rintro ⟨l, hcollect, _, hperm⟩
  have hfit := fit_of_collectMaps _ hcollect (by rw [hperm.length_eq, List.length_map])
  have hlen := longLine.length_pathText_lt
  have hlong : longLine.pathText.length = 4095 := by
    change longText.length = 4095
    rw [longText, List.length_cons, List.length_replicate]
  have hle := hfit longLine (List.mem_singleton_self _)
  rw [PATH_MAX] at hle
  omega

end Nsb

import Mathlib.Data.List.Basic
import Mathlib.Data.Nat.Notation

/-!
# Text input of C

`fgets` and `sscanf` on a text, and numbers as `printf` writes them.  A
character stands for a byte of the text, and there is no null byte in it.

A scan stops at the first directive that does not match and gives the values of
those in front of it.  `%n` gives the number of bytes that have been read.
-/

namespace CText

/-! ## Digits -/

/-- `isspace`. -/
def isSpace (c : Char) : Bool :=
  c = ' ' || c = '\t' || c = '\n' || c = '\x0b' || c = '\x0c' || c = '\r'

/-- The value of a digit, in bases up to sixteen. -/
def digitVal (c : Char) : Nat :=
  if '0' ≤ c ∧ c ≤ '9' then c.toNat - '0'.toNat
  else if 'a' ≤ c ∧ c ≤ 'f' then c.toNat - 'a'.toNat + 10
  else if 'A' ≤ c ∧ c ≤ 'F' then c.toNat - 'A'.toNat + 10
  else 16

/-- A digit of a base. -/
def isDigitOf (base : Nat) (c : Char) : Bool := digitVal c < base

/-- The number that digits stand for. -/
def digitsVal (base : Nat) (digits : List Char) : Nat :=
  digits.foldl (fun n c => n * base + digitVal c) 0

/-- A number with at least so many digits, as `%0*x` and `%lu` write it. -/
def putDigits (base width n : Nat) : List Char :=
  let digits := Nat.toDigits base n
  List.replicate (width - digits.length) '0' ++ digits

theorem digitVal_digitChar {n : Nat} (h : n < 16) : digitVal n.digitChar = n := by
  match n, h with
  | 0, _ | 1, _ | 2, _ | 3, _ | 4, _ | 5, _ | 6, _ | 7, _ => rfl
  | 8, _ | 9, _ | 10, _ | 11, _ | 12, _ | 13, _ | 14, _ | 15, _ => rfl
  | _ + 16, h => omega

theorem digitsVal_append_singleton (base : Nat) (digits : List Char) (c : Char) :
    digitsVal base (digits ++ [c]) = digitsVal base digits * base + digitVal c := by
  rw [digitsVal, List.foldl_append]
  rfl

section Base

variable {base : Nat} (hbase : 1 < base) (hsmall : base ≤ 16)
include hbase hsmall

/-- The digits of a number stand for it. -/
theorem digitsVal_toDigits (n : Nat) : digitsVal base (Nat.toDigits base n) = n := by
  induction n using Nat.strongRecOn with
  | ind n induction =>
      rw [Nat.toDigits_eq_if hbase]
      split
      · next hlt =>
          rw [digitsVal, List.foldl_cons, List.foldl_nil, Nat.zero_mul, Nat.zero_add,
            digitVal_digitChar (by omega)]
      · next hge =>
          have hlt : n / base < n := Nat.div_lt_self (by omega) hbase
          have hmod := Nat.mod_lt n (show 0 < base by omega)
          rw [digitsVal_append_singleton, induction _ hlt, digitVal_digitChar (by omega),
            Nat.div_add_mod']

theorem isDigitOf_of_mem_toDigits {n : Nat} {c : Char} (h : c ∈ Nat.toDigits base n) :
    isDigitOf base c = true := by
  induction n using Nat.strongRecOn with
  | ind n induction =>
      rw [Nat.toDigits_eq_if hbase] at h
      split at h
      · next hlt =>
          rw [List.mem_singleton] at h
          rw [h, isDigitOf, digitVal_digitChar (by omega), decide_eq_true hlt]
      · next hge =>
          have hlt : n / base < n := Nat.div_lt_self (by omega) hbase
          have hmod := Nat.mod_lt n (show 0 < base by omega)
          rcases List.mem_append.mp h with h | h
          · exact induction _ hlt h
          · rw [List.mem_singleton] at h
            rw [h, isDigitOf, digitVal_digitChar (by omega), decide_eq_true hmod]

theorem isDigitOf_of_mem_putDigits {width n : Nat} {c : Char} (h : c ∈ putDigits base width n) :
    isDigitOf base c = true := by
  rcases List.mem_append.mp h with h | h
  · rw [List.eq_of_mem_replicate h]
    exact decide_eq_true (show 0 < base by omega)
  · exact isDigitOf_of_mem_toDigits hbase hsmall h

/-- Leading zeros do not count. -/
theorem digitsVal_putDigits (width n : Nat) : digitsVal base (putDigits base width n) = n := by
  have hzeros : ∀ k, (List.replicate k '0').foldl (fun n c => n * base + digitVal c) 0 = 0 := by
    intro k
    induction k with
    | zero => rfl
    | succ k induction =>
        rw [List.replicate_succ, List.foldl_cons, Nat.zero_mul, Nat.zero_add]
        exact induction
  have hdigits := digitsVal_toDigits hbase hsmall n
  rw [digitsVal] at hdigits
  rw [putDigits, digitsVal, List.foldl_append, hzeros, hdigits]

end Base

theorem putDigits_ne_nil (base width n : Nat) : putDigits base width n ≠ [] :=
  List.append_ne_nil_of_right_ne_nil _ Nat.toDigits_ne_nil

/-! ## Scanning -/

/-- What `strtoul` makes of a sign and a number. -/
def strtoul (negative : Bool) (n : Nat) : BitVec 64 :=
  if (BitVec.allOnes 64).toNat < n then BitVec.allOnes 64
  else if negative then -(BitVec.ofNat 64 n) else BitVec.ofNat 64 n

/-- The digits of a number at the front of a text.  In base sixteen they may have
`0x` in front of them, and then there need not be any. -/
def scanDigits (base : Nat) (text : List Char) : Option (Nat × List Char) :=
  let plain (text : List Char) : Nat × List Char :=
    (digitsVal base (text.takeWhile (isDigitOf base)), text.dropWhile (isDigitOf base))
  match text with
  | [] => none
  | c :: rest =>
      if base = 16 ∧ c = '0' ∧ (rest.head? = some 'x' ∨ rest.head? = some 'X') then
        some (plain rest.tail)
      else if isDigitOf base c then some (plain text)
      else none

/-- An unsigned number at the front of a text, after white space. -/
def scanUnsigned (base : Nat) (text : List Char) : Option (BitVec 64 × List Char) :=
  let text := text.dropWhile isSpace
  let negative := text.head? = some '-'
  let text := if text.head? = some '-' ∨ text.head? = some '+' then text.tail else text
  (scanDigits base text).map fun (n, rest) => (strtoul negative n, rest)

/-- The directives of a format: a number in a base, `%c`, a character that is
not white space, white space and `%n`. -/
inductive Directive where
  | unsigned (base : Nat)
  | char
  | literal (c : Char)
  | space
  | count
deriving DecidableEq, Repr

/-- What a directive stores. -/
inductive Value where
  | unsigned (v : BitVec 64)
  | char (c : Char)
  | count (n : Nat)
deriving DecidableEq, Repr

/-- The directives on what is left of a text of so many bytes. -/
def scan (length : Nat) : List Directive → List Char → List Value
  | [], _ => []
  | .space :: format, text => scan length format (text.dropWhile isSpace)
  | .count :: format, text => .count (length - text.length) :: scan length format text
  | .literal c :: format, text =>
      if text.head? = some c then scan length format text.tail else []
  | .char :: format, text =>
      match text with
      | [] => []
      | c :: rest => .char c :: scan length format rest
  | .unsigned base :: format, text =>
      match scanUnsigned base text with
      | none => []
      | some (v, rest) => .unsigned v :: scan length format rest

/-- `sscanf`. -/
def sscanf (text : List Char) (format : List Directive) : List Value :=
  scan text.length format text

/-- A character that is no digit of any base and does not go on with one. -/
def Ends (text : List Char) : Prop :=
  ∀ c ∈ text.head?, isDigitOf 16 c = false ∧ c ≠ 'x' ∧ c ≠ 'X'

theorem isDigitOf_mono {base : Nat} (hsmall : base ≤ 16) {c : Char} (h : isDigitOf base c = true) :
    isDigitOf 16 c = true :=
  decide_eq_true (Nat.lt_of_lt_of_le (of_decide_eq_true h) hsmall)

theorem not_isSpace_of_isDigitOf {c : Char} (h : isDigitOf 16 c = true) : isSpace c = false := by
  cases hspace : isSpace c with
  | false => rfl
  | true =>
      simp only [isSpace, Bool.or_eq_true, decide_eq_true_eq] at hspace
      rcases hspace with ((((rfl | rfl) | rfl) | rfl) | rfl) | rfl <;> cases h

/-- A written number is read, and what ends it is left. -/
theorem scanDigits_append {base : Nat} (hsmall : base ≤ 16) {digits rest : List Char}
    (hne : digits ≠ []) (hdigits : ∀ c ∈ digits, isDigitOf base c = true) (hrest : Ends rest) :
    scanDigits base (digits ++ rest) = some (digitsVal base digits, rest) := by
  have hstop : rest.takeWhile (isDigitOf base) = [] ∧ rest.dropWhile (isDigitOf base) = rest := by
    cases rest with
    | nil => exact ⟨rfl, rfl⟩
    | cons c rest =>
        have hc : ¬ isDigitOf base c = true := by
          intro h
          have hend := (hrest c rfl).1
          rw [isDigitOf_mono hsmall h] at hend
          cases hend
        exact ⟨List.takeWhile_cons_of_neg hc, List.dropWhile_cons_of_neg hc⟩
  have htake : (digits ++ rest).takeWhile (isDigitOf base) = digits := by
    rw [List.takeWhile_append_of_pos hdigits, hstop.1, List.append_nil]
  have hdrop : (digits ++ rest).dropWhile (isDigitOf base) = rest := by
    rw [List.dropWhile_append_of_pos hdigits, hstop.2]
  cases digits with
  | nil => exact absurd rfl hne
  | cons d digits =>
      have hprefix : ¬ ((digits ++ rest).head? = some 'x' ∨ (digits ++ rest).head? = some 'X') := by
        intro h
        cases digits with
        | nil =>
            rcases h with h | h
            · exact (hrest _ h).2.1 rfl
            · exact (hrest _ h).2.2 rfl
        | cons c digits =>
            have hc := isDigitOf_mono hsmall (hdigits c (.tail _ (.head _)))
            rcases h with h | h
            · cases h
              cases hc
            · cases h
              cases hc
      rw [List.cons_append] at htake hdrop ⊢
      rw [scanDigits, if_neg (fun h => hprefix h.2.2), if_pos (hdigits d (.head _))]
      dsimp only
      rw [htake, hdrop]

theorem scanUnsigned_append {base : Nat} (hsmall : base ≤ 16) {digits rest : List Char}
    (hne : digits ≠ []) (hdigits : ∀ c ∈ digits, isDigitOf base c = true) (hrest : Ends rest) :
    scanUnsigned base (digits ++ rest) = some (strtoul false (digitsVal base digits), rest) := by
  have hscan := scanDigits_append hsmall hne hdigits hrest
  obtain ⟨d, ds, rfl⟩ := List.exists_cons_of_ne_nil hne
  have hd := isDigitOf_mono hsmall (hdigits d (.head _))
  have hspace : ((d :: ds) ++ rest).dropWhile isSpace = (d :: ds) ++ rest := by
    rw [List.cons_append, List.dropWhile_cons_of_neg (by rw [not_isSpace_of_isDigitOf hd]; simp)]
  have hminus : d ≠ '-' := by
    rintro rfl
    cases hd
  have hplus : d ≠ '+' := by
    rintro rfl
    cases hd
  rw [scanUnsigned, hspace]
  simp only [List.cons_append, List.head?_cons, Option.some.injEq, hminus, hplus, or_self,
    if_false, decide_false]
  rw [← List.cons_append, hscan]
  rfl

/-- A number that `printf` has written is read by `%lx` and the like. -/
theorem scan_putDigits {base : Nat} (hbase : 1 < base) (hsmall : base ≤ 16) (length width n : Nat)
    (format : List Directive) {rest : List Char} (hrest : Ends rest) :
    scan length (.unsigned base :: format) (putDigits base width n ++ rest) =
      .unsigned (strtoul false n) :: scan length format rest := by
  rw [scan, scanUnsigned_append hsmall (putDigits_ne_nil base width n)
    (fun c => isDigitOf_of_mem_putDigits hbase hsmall) hrest, digitsVal_putDigits hbase hsmall]

theorem dropWhile_putDigits {base : Nat} (hbase : 1 < base) (hsmall : base ≤ 16) (width n : Nat)
    (rest : List Char) :
    (putDigits base width n ++ rest).dropWhile isSpace = putDigits base width n ++ rest := by
  obtain ⟨d, ds, hds⟩ := List.exists_cons_of_ne_nil (putDigits_ne_nil base width n)
  have hmem : d ∈ putDigits base width n := by
    rw [hds]
    exact .head _
  have hd := isDigitOf_mono hsmall (isDigitOf_of_mem_putDigits hbase hsmall hmem)
  rw [hds, List.cons_append, List.dropWhile_cons_of_neg (by rw [not_isSpace_of_isDigitOf hd]; simp)]

theorem scan_literal (length : Nat) (c : Char) (format : List Directive) (rest : List Char) :
    scan length (.literal c :: format) (c :: rest) = scan length format rest :=
  if_pos rfl

theorem scan_space_cons (length : Nat) (format : List Directive) {c : Char}
    (hc : isSpace c = false) (rest : List Char) :
    scan length (.space :: format) (' ' :: c :: rest) = scan length format (c :: rest) := by
  rw [scan, List.dropWhile_cons_of_pos rfl, List.dropWhile_cons_of_neg (by rw [hc]; simp)]

/-- A number behind a space. -/
theorem scan_space_putDigits {base : Nat} (hbase : 1 < base) (hsmall : base ≤ 16)
    (length width n : Nat) (format : List Directive) {rest : List Char} (hrest : Ends rest) :
    scan length (.space :: .unsigned base :: format) (' ' :: (putDigits base width n ++ rest)) =
      .unsigned (strtoul false n) :: scan length format rest := by
  rw [scan, List.dropWhile_cons_of_pos rfl, dropWhile_putDigits hbase hsmall,
    scan_putDigits hbase hsmall _ _ _ _ hrest]

/-! ## Lines -/

/-- Up to so many bytes of a text, to the end of a line at most. -/
def takeLine : Nat → List Char → List Char × List Char
  | 0, text => ([], text)
  | _ + 1, [] => ([], [])
  | k + 1, c :: text =>
      if c = '\n' then ([c], text)
      else
        let (line, rest) := takeLine k text
        (c :: line, rest)

/-- `fgets` with a buffer of so many bytes. -/
def fgets (size : Nat) (text : List Char) : Option (List Char × List Char) :=
  if text.isEmpty then none else some (takeLine (size - 1) text)

theorem takeLine_append (k : Nat) (text : List Char) :
    (takeLine k text).1 ++ (takeLine k text).2 = text := by
  induction k generalizing text with
  | zero => rfl
  | succ k induction =>
      cases text with
      | nil => rfl
      | cons c text =>
          rw [takeLine]
          split
          · rfl
          · exact congrArg (c :: ·) (induction text)

theorem takeLine_ne_nil {k : Nat} {text : List Char} (h : text ≠ []) :
    (takeLine (k + 1) text).1 ≠ [] := by
  cases text with
  | nil => exact absurd rfl h
  | cons c text =>
      rw [takeLine]
      split <;> simp

theorem fgets_lt {k : Nat} {text buf rest : List Char} (h : fgets (k + 2) text = some (buf, rest)) :
    rest.length < text.length := by
  rw [fgets] at h
  split at h
  · cases h
  next hne =>
    have hpair := Option.some.inj h
    have happend := congrArg List.length (takeLine_append (k + 1) text)
    have hpos := List.length_pos_iff.mpr
      (takeLine_ne_nil (k := k) fun hnil => hne (List.isEmpty_iff.mpr hnil))
    rw [List.length_append] at happend
    rw [Nat.add_sub_cancel (m := 1)] at hpair
    rw [hpair] at happend hpos
    dsimp only at happend hpos
    omega

/-- What successive calls of `fgets` read, with a buffer of `k + 2` bytes. -/
def fgetsAll (k : Nat) (text : List Char) : List (List Char) :=
  match _h : fgets (k + 2) text with
  | none => []
  | some (buf, rest) => buf :: fgetsAll k rest
termination_by text.length
decreasing_by exact fgets_lt ‹_›

theorem fgetsAll_of_ne_nil (k : Nat) {text : List Char} (h : text ≠ []) :
    fgetsAll k text = (takeLine (k + 1) text).1 :: fgetsAll k (takeLine (k + 1) text).2 := by
  have hread : fgets (k + 2) text = some (takeLine (k + 1) text) :=
    if_neg fun hempty => h (List.isEmpty_iff.mp hempty)
  rw [fgetsAll]
  split
  next hnone => cases hread.symm.trans hnone
  next buf rest hsome =>
    rw [hread] at hsome
    rw [Option.some.inj hsome]

/-- The pieces in which a line is read. -/
def pieces (k : Nat) (line : List Char) : List (List Char) :=
  if line.length ≤ k then [line ++ ['\n']]
  else line.take (k + 1) :: pieces k (line.drop (k + 1))
termination_by line.length
decreasing_by
  rw [List.length_drop]
  omega

theorem takeLine_of_le {k : Nat} {line rest : List Char} (hline : '\n' ∉ line)
    (h : line.length ≤ k) : takeLine (k + 1) (line ++ '\n' :: rest) = (line ++ ['\n'], rest) := by
  induction line generalizing k with
  | nil => rfl
  | cons c line induction =>
      rw [List.mem_cons, not_or] at hline
      cases k with
      | zero => simp at h
      | succ k =>
          rw [List.cons_append, takeLine, if_neg (Ne.symm hline.1),
            induction hline.2 (Nat.le_of_succ_le_succ h)]
          rfl

theorem takeLine_of_lt {k : Nat} {line rest : List Char} (hline : '\n' ∉ line)
    (h : k ≤ line.length) : takeLine k (line ++ rest) = (line.take k, line.drop k ++ rest) := by
  induction k generalizing line with
  | zero => rfl
  | succ k induction =>
      cases line with
      | nil => simp at h
      | cons c line =>
          rw [List.mem_cons, not_or] at hline
          rw [List.cons_append, takeLine, if_neg (Ne.symm hline.1),
            induction hline.2 (Nat.le_of_succ_le_succ h)]
          rfl

/-- A text is read in the pieces of its lines. -/
theorem fgetsAll_line (k : Nat) {line : List Char} (hline : '\n' ∉ line) (rest : List Char) :
    fgetsAll k (line ++ '\n' :: rest) = pieces k line ++ fgetsAll k rest := by
  induction hn : line.length using Nat.strongRecOn generalizing line with
  | ind n induction =>
      have hne : line ++ '\n' :: rest ≠ [] := by simp
      rw [fgetsAll_of_ne_nil k hne, pieces]
      by_cases hle : line.length ≤ k
      · rw [if_pos hle, takeLine_of_le hline hle]
        rfl
      · rw [if_neg hle, takeLine_of_lt hline (by omega)]
        have hdrop : '\n' ∉ line.drop (k + 1) := fun hmem => hline (List.mem_of_mem_drop hmem)
        dsimp only
        rw [induction _ (by rw [← hn, List.length_drop]; omega) hdrop rfl]
        rfl

theorem fgetsAll_nil (k : Nat) : fgetsAll k [] = [] := by
  rw [fgetsAll]
  rfl

theorem fgetsAll_lines (k : Nat) {lines : List (List Char)} (h : ∀ line ∈ lines, '\n' ∉ line) :
    fgetsAll k (lines.flatMap fun line => line ++ ['\n']) = lines.flatMap (pieces k) := by
  induction lines with
  | nil => exact fgetsAll_nil k
  | cons line lines induction =>
      rw [List.forall_mem_cons] at h
      rw [List.flatMap_cons, List.flatMap_cons, List.append_assoc, List.singleton_append,
        fgetsAll_line k h.1, induction h.2]

/-- A line that fits the buffer is read in one piece, and only such a line. -/
theorem pieces_of_le {k : Nat} {line : List Char} (h : line.length ≤ k) :
    pieces k line = [line ++ ['\n']] := by
  rw [pieces, if_pos h]

theorem length_pieces_pos (k : Nat) (line : List Char) : 0 < (pieces k line).length := by
  rw [pieces]
  split <;> simp

theorem one_lt_length_pieces {k : Nat} {line : List Char} (h : k < line.length) :
    1 < (pieces k line).length := by
  have hpos := length_pieces_pos k (line.drop (k + 1))
  rw [pieces, if_neg (Nat.not_le.mpr h), List.length_cons]
  omega

/-- As many pieces as lines means that every line is read in one piece. -/
theorem length_le_of_pieces {k : Nat} {lines : List (List Char)}
    (h : (lines.flatMap (pieces k)).length ≤ lines.length) :
    ∀ line ∈ lines, line.length ≤ k := by
  have hmany : ∀ lines : List (List Char), lines.length ≤ (lines.flatMap (pieces k)).length := by
    intro lines
    induction lines with
    | nil => simp
    | cons line lines induction =>
        have hpos := length_pieces_pos k line
        rw [List.flatMap_cons, List.length_append, List.length_cons]
        omega
  induction lines with
  | nil => simp
  | cons line lines induction =>
      have hpos := length_pieces_pos k line
      have hrest := hmany lines
      rw [List.flatMap_cons, List.length_append, List.length_cons] at h
      rw [List.forall_mem_cons]
      refine ⟨?_, induction (by omega)⟩
      by_contra hlong
      have := one_lt_length_pieces (Nat.not_le.mp hlong)
      omega

end CText

import Nsb.Service.Plugin

/-!
# What a request decides

The handlers read a count and an array of records out of a buffer of fixed size,
whatever the length of the message was.  So a message may decide less than what
the service does: the rest comes from what the buffer held before.

`Complete` says which messages decide everything.  `acts_on_received_iff` says
that these are exactly the messages on which the service acts on what it received
alone.  In one direction both runs read the same bytes (`doHandleCmd_congr`).  In
the other one two old contents of the buffer are given for each way in which a
message can be too short, with a response or a call in which the runs differ.
-/

namespace Nsb

/-! ## The bytes that were received -/

section

variable {msg : List Byte} {rq rq' : Buffer} {i n off : Nat}

/-- The number that the received bytes of a count make up, when the missing ones
are taken as zero. -/
def knownCount (msg : List Byte) (off : Nat) : Nat := Bytes.leNat ((msg.drop (4 + off)).take 8)

theorem num_inside (h : 4 + off + n ≤ msg.length) :
    (requestData msg rq).num off n = Bytes.leNat ((msg.drop (4 + off)).take n) := by
  rw [requestData, messageData, Buffer.num_drop, Buffer.num, Buffer.slice_put_front h]

theorem num_outside (h : msg.length ≤ 4 + off) :
    (requestData msg rq).num off n = rq.num (4 + off) n := by
  rw [requestData, messageData, Buffer.num_drop, Buffer.num_put_apart (.inr (by omega))]

/-- The count is at least what is known of it. -/
theorem knownCount_le (msg : List Byte) (rq : Buffer) (off : Nat) :
    knownCount msg off ≤ ((requestData msg rq).get 64 off).toNat := by
  rw [Buffer.toNat_get _ _ (by decide), knownCount]
  by_cases h : 4 + off + 8 ≤ msg.length
  · rw [num_inside h]
  · obtain ⟨k, hk⟩ : ∃ k, msg.length - (4 + off) + k = 8 := ⟨8 - (msg.length - (4 + off)), by omega⟩
    show _ ≤ (requestData msg rq).num off 8
    rw [← hk, Buffer.num_add]
    by_cases hoff : 4 + off ≤ msg.length
    · rw [num_inside (by omega), List.take_of_length_le (by rw [List.length_drop]; omega),
        List.take_of_length_le (by rw [List.length_drop])]
      exact Nat.le_add_right ..
    · rw [List.drop_eq_nil_of_le (by omega), List.take_nil]
      exact Nat.zero_le _

/-- A count that was received is known. -/
theorem count_eq_known (h : 4 + off + 8 ≤ msg.length) :
    ((requestData msg rq).get 64 off).toNat = knownCount msg off := by
  rw [Buffer.toNat_get _ _ (by decide)]
  exact num_inside h

end

/-! ## Messages that decide everything -/

/-- The message has every byte that its handler looks at. -/
def Complete (past : Addr) (msg : List Byte) : Prop :=
  match ServiceCmd.ofCode (messageCmd msg) with
  | none => messageCmd msg = NSB_SERVICE_CMD_MAX → past = 0
  | some .mmap =>
      (12 ≤ msg.length - 4 ∧ maxMmaps < knownCount msg 8) ∨
      (16 ≤ msg.length - 4 ∧ knownCount msg 8 ≠ 2) ∨ 80 ≤ msg.length - 4
  | some .munmap =>
      (4 ≤ msg.length - 4 ∧ maxMunmaps < knownCount msg 0) ∨
      (8 ≤ msg.length - 4 ∧ 8 + 16 * knownCount msg 0 ≤ msg.length - 4)
  | some _ => True

section

variable {σ : Type} (h : Host σ) {data data' : Buffer} {s : Serving σ}

/-- A handler refuses a count over `max`.  The text of its answer has the low half
of the count. -/
def RefusesOver (handler : Buffer → Serving σ → Serving σ × Int) (off max : Nat) : Prop :=
  ∃ pre post, ∀ data s, max < (data.get 64 off).toNat →
    handler data s =
      (nsbServiceResponsePrint (pre ++ (fmtD (data.get 64 off) ++ post)) s, -E2BIG)

theorem mmap_refusesOver : RefusesOver (Plugin.nsbServiceCmdMmap h) 8 maxMmaps := by
  refine ⟨"too many map requests: ", " (max: " ++ (fmtLd (BitVec.ofNat 64 maxMmaps) ++ ")"),
    fun data s hlarge => ?_⟩
  rw [Plugin.nsbServiceCmdMmap, nrMmaps, if_pos hlarge, String.append_assoc, String.append_assoc,
    String.append_assoc]

theorem munmap_refusesOver : RefusesOver (Plugin.nsbServiceCmdMunmap h) 0 maxMunmaps := by
  refine ⟨"too many numap requests: ", " (max: " ++ (fmtLd (BitVec.ofNat 64 maxMunmaps) ++ ")"),
    fun data s hlarge => ?_⟩
  rw [Plugin.nsbServiceCmdMunmap, nrMunmaps, if_pos hlarge, String.append_assoc,
    String.append_assoc, String.append_assoc]

/-- Two counts that are too large and have the same low half get the same
answer. -/
theorem RefusesOver.congr {handler : Buffer → Serving σ → Serving σ × Int} {off max : Nat}
    (hover : RefusesOver handler off max) (hlarge : max < (data.get 64 off).toNat)
    (hlarge' : max < (data'.get 64 off).toNat) (hlow : data.get 32 off = data'.get 32 off) :
    handler data s = handler data' s := by
  obtain ⟨pre, post, hrefuse⟩ := hover
  have hfmt : fmtD (data.get 64 off) = fmtD (data'.get 64 off) := by
    rw [fmtD, fmtD, Buffer.setWidth_get _ _ (by decide) (by decide),
      Buffer.setWidth_get _ _ (by decide) (by decide), hlow]
  rw [hrefuse data s hlarge, hrefuse data' s hlarge', hfmt]

/-- Any other count than two is refused. -/
theorem cmdMmap_not_two_congr (hnr : nrMmaps data = nrMmaps data')
    (htwo : (nrMmaps data).toNat ≠ 2) :
    Plugin.nsbServiceCmdMmap h data s = Plugin.nsbServiceCmdMmap h data' s := by
  rw [Plugin.nsbServiceCmdMmap, Plugin.nsbServiceCmdMmap, ← hnr]
  split
  · rfl
  · rfl

theorem cmdMmap_congr (hfd : mmapRequestFd data = mmapRequestFd data')
    (hnr : nrMmaps data = nrMmaps data')
    (hinfos : mmapRequestInfos data = mmapRequestInfos data') :
    Plugin.nsbServiceCmdMmap h data s = Plugin.nsbServiceCmdMmap h data' s := by
  rw [Plugin.nsbServiceCmdMmap, Plugin.nsbServiceCmdMmap, hfd, hnr, hinfos]

theorem cmdMunmap_congr (hnr : nrMunmaps data = nrMunmaps data')
    (hinfos : munmapRequestInfos data = munmapRequestInfos data') :
    Plugin.nsbServiceCmdMunmap h data s = Plugin.nsbServiceCmdMunmap h data' s := by
  rw [Plugin.nsbServiceCmdMunmap, Plugin.nsbServiceCmdMunmap, hnr, hinfos]

end

section

variable {σ : Type} (h : Host σ) {msg : List Byte} {rq rq' : Buffer} {s : Serving σ}

theorem mmap_complete
    (hc : (12 ≤ msg.length - 4 ∧ maxMmaps < knownCount msg 8) ∨
      (16 ≤ msg.length - 4 ∧ knownCount msg 8 ≠ 2) ∨ 80 ≤ msg.length - 4) :
    Plugin.nsbServiceCmdMmap h (requestData msg rq) s =
      Plugin.nsbServiceCmdMmap h (requestData msg rq') s := by
  have hnr (hlen : 16 ≤ msg.length - 4) :
      nrMmaps (requestData msg rq) = nrMmaps (requestData msg rq') :=
    Buffer.get_congr fun i _ hi => requestData_inside (by omega)
  rcases hc with ⟨hlen, hlarge⟩ | ⟨hlen, htwo⟩ | hlen
  · exact (mmap_refusesOver h).congr (Nat.lt_of_lt_of_le hlarge (knownCount_le msg rq 8))
      (Nat.lt_of_lt_of_le hlarge (knownCount_le msg rq' 8))
      (Buffer.get_congr fun i _ hi => requestData_inside (by omega))
  · refine cmdMmap_not_two_congr h (hnr hlen) ?_
    rwa [nrMmaps, count_eq_known (by omega)]
  · by_cases htwo : (nrMmaps (requestData msg rq)).toNat = 2
    · refine cmdMmap_congr h (Buffer.get_congr fun i _ hi => requestData_inside (by omega))
        (hnr (by omega)) ?_
      refine RecordLayout.elems_congr _ (fun i _ hi => requestData_inside (by omega))
        fun i _ hi => ?_
      have hi' : i < 16 + 32 * (nrMmaps (requestData msg rq)).toNat := hi
      exact requestData_inside (by omega)
    · exact cmdMmap_not_two_congr h (hnr (by omega)) htwo

theorem munmap_complete
    (hc : (4 ≤ msg.length - 4 ∧ maxMunmaps < knownCount msg 0) ∨
      (8 ≤ msg.length - 4 ∧ 8 + 16 * knownCount msg 0 ≤ msg.length - 4)) :
    Plugin.nsbServiceCmdMunmap h (requestData msg rq) s =
      Plugin.nsbServiceCmdMunmap h (requestData msg rq') s := by
  rcases hc with ⟨hlen, hlarge⟩ | ⟨hlen, hrec⟩
  · exact (munmap_refusesOver h).congr (Nat.lt_of_lt_of_le hlarge (knownCount_le msg rq 0))
      (Nat.lt_of_lt_of_le hlarge (knownCount_le msg rq' 0))
      (Buffer.get_congr fun i _ hi => requestData_inside (by omega))
  · refine cmdMunmap_congr h (Buffer.get_congr fun i _ hi => requestData_inside (by omega)) ?_
    refine RecordLayout.elems_congr _ (fun i _ hi => requestData_inside (by omega)) fun i _ hi => ?_
    have hi' : i < 8 + 16 * ((requestData msg rq).get 64 0).toNat := hi
    rw [count_eq_known (by omega)] at hi'
    exact requestData_inside (by omega)

/-- Over any old contents, a message that decides everything has the same effect. -/
theorem doHandleCmd_congr {fuel : Nat} (hlen : 4 ≤ msg.length) (hc : Complete h.past msg) :
    nsbDoHandleCmd h fuel (rq.put 0 msg) (msg.length - 4) s =
      nsbDoHandleCmd h fuel (rq'.put 0 msg) (msg.length - 4) s := by
  rw [nsbDoHandleCmd, nsbDoHandleCmd, rqCmd_received hlen, rqCmd_received hlen]
  rw [Complete] at hc
  split
  · rfl
  · cases hcmd : ServiceCmd.ofCode (messageCmd msg) with
    | none => rfl
    | some cmd =>
        rw [hcmd] at hc
        cases cmd with
        | stop => rfl
        | neededList => rfl
        | mmap => exact congrArg some (mmap_complete h hc)
        | munmap => exact congrArg some (munmap_complete h hc)
        | emergSigframe =>
            have hslice : (messageData (rq.put 0 msg)).slice 0 (msg.length - 4) =
                (messageData (rq'.put 0 msg)).slice 0 (msg.length - 4) :=
              Buffer.slice_congr fun i _ hi => requestData_inside (by omega)
            simp only [nsbServiceCmdEmergSigframe, hslice]

end

/-! ## Old contents that show -/

section

variable {msg : List Byte} {off : Nat}

/-- Over zeros, a count is what is known of it. -/
theorem count_over_zeros (hoff : 4 + off ≤ msg.length) :
    ((requestData msg Buffer.zeros).get 64 off).toNat = knownCount msg off := by
  by_cases h : 4 + off + 8 ≤ msg.length
  · exact count_eq_known h
  · obtain ⟨k, hk⟩ : ∃ k, msg.length - (4 + off) + k = 8 := ⟨8 - (msg.length - (4 + off)), by omega⟩
    rw [Buffer.toNat_get _ _ (by decide), knownCount]
    show (requestData msg Buffer.zeros).num off 8 = _
    rw [← hk, Buffer.num_add, num_inside (by omega), num_outside (by omega), Buffer.num_zeros,
      List.take_of_length_le (by rw [List.length_drop]),
      List.take_of_length_le (by rw [List.length_drop]; omega)]
    rfl

/-- A field whose last byte was not received, over zeros and over a one there. -/
theorem last_byte_shows (h : msg.length ≤ 4 + (off + 7)) :
    ((requestData msg (Buffer.zeros.put (4 + (off + 7)) [1])).get 64 off).toNat =
      ((requestData msg Buffer.zeros).get 64 off).toNat + 256 ^ 7 := by
  have hlow : (requestData msg (Buffer.zeros.put (4 + (off + 7)) [1])).num off 7 =
      (requestData msg Buffer.zeros).num off 7 :=
    Buffer.num_congr fun i _ hi => requestData_congr (Buffer.put_outside (.inl (by omega)))
  have hhigh : (Buffer.zeros.put (4 + (off + 7)) [1]).num (4 + (off + 7)) 1 = 1 :=
    congrArg Bytes.leNat (Buffer.slice_put_self Buffer.zeros (4 + (off + 7)) [1])
  rw [Buffer.toNat_get _ _ (by decide), Buffer.toNat_get _ _ (by decide)]
  show (requestData msg (Buffer.zeros.put (4 + (off + 7)) [1])).num off (7 + 1) =
    (requestData msg Buffer.zeros).num off (7 + 1) + 256 ^ 7
  rw [Buffer.num_add, Buffer.num_add, hlow, num_outside h, num_outside h, hhigh,
    Buffer.num_zeros]
  omega

/-- A count of which at most three bytes were received, over two contents that make
it too large.  Their low halves have different numbers of digits. -/
theorem low_counts (h : msg.length ≤ 4 + (off + 3)) :
    ∃ rq rq' n, n < 256 ^ 3 ∧ ((requestData msg rq).get 64 off).toNat = n + 2 ^ 32 ∧
      ((requestData msg rq').get 64 off).toNat = n + 127 * 256 ^ 3 + 2 ^ 32 := by
  have hlow : (requestData msg (Buffer.zeros.put (4 + (off + 3)) [127, 1, 0, 0, 0])).num off 3 =
      (requestData msg (Buffer.zeros.put (4 + (off + 3)) [0, 1, 0, 0, 0])).num off 3 := by
    refine Buffer.num_congr fun i _ hi => requestData_congr ?_
    rw [Buffer.put_outside (.inl (by omega)), Buffer.put_outside (.inl (by omega))]
  have hhigh (x : Byte) : (Buffer.zeros.put (4 + (off + 3)) [x, 1, 0, 0, 0]).num (4 + (off + 3)) 5 =
      x.toNat + 256 :=
    congrArg Bytes.leNat (Buffer.slice_put_self Buffer.zeros (4 + (off + 3)) [x, 1, 0, 0, 0])
  refine ⟨Buffer.zeros.put (4 + (off + 3)) [0, 1, 0, 0, 0],
    Buffer.zeros.put (4 + (off + 3)) [127, 1, 0, 0, 0],
    _, Buffer.num_lt (requestData msg (Buffer.zeros.put (4 + (off + 3)) [0, 1, 0, 0, 0])) off 3,
    ?_, ?_⟩
  · rw [Buffer.toNat_get _ _ (by decide)]
    show (requestData msg _).num off (3 + 5) = _
    rw [Buffer.num_add, num_outside h, hhigh, show (0 : Byte).toNat = 0 from rfl]
    omega
  · rw [Buffer.toNat_get _ _ (by decide)]
    show (requestData msg _).num off (3 + 5) = _
    rw [Buffer.num_add, num_outside h, hhigh, hlow, show (127 : Byte).toNat = 127 from rfl]
    omega

end

/-! ## Numbers in a text -/

theorem textBytes_append (a b : String) : textBytes (a ++ b) = textBytes a ++ textBytes b := by
  simp [textBytes]

/-- The decimal digits of a number whose low half is small. -/
theorem textBytes_fmtD {x : BitVec 64} {n : Nat} (hx : x.toNat = n + 2 ^ 32) (hn : n < 2 ^ 31) :
    (textBytes (fmtD x)).length = (Nat.toDigits 10 n).length := by
  have hlow : (x.setWidth 32).toNat = n := by
    rw [BitVec.toNat_setWidth, hx]
    omega
  have hint : (x.setWidth 32).toInt = (n : Int) := by
    rw [BitVec.toInt_eq_toNat_of_lt (by omega), hlow]
  rw [fmtD, hint, textBytes, List.length_map]
  show (Nat.repr n).toList.length = _
  rw [Nat.toList_repr]

theorem digits_differ {n : Nat} (hn : n < 256 ^ 3) :
    (Nat.toDigits 10 n).length ≠ (Nat.toDigits 10 (n + 127 * 256 ^ 3)).length := by
  have hsmall : (Nat.toDigits 10 n).length ≤ 8 :=
    (Nat.length_toDigits_le_iff (by decide) (by decide)).mpr (by omega)
  have hlarge : ¬ (Nat.toDigits 10 (n + 127 * 256 ^ 3)).length ≤ 8 := fun h =>
    absurd ((Nat.length_toDigits_le_iff (by decide) (by decide)).mp h) (by omega)
  omega

/-- So a text with the number in it has different lengths. -/
theorem texts_differ {x y : BitVec 64} {n : Nat} {pre post : String} (hn : n < 256 ^ 3)
    (hx : x.toNat = n + 2 ^ 32) (hy : y.toNat = n + 127 * 256 ^ 3 + 2 ^ 32) :
    (textBytes (pre ++ (fmtD x ++ post))).length ≠
      (textBytes (pre ++ (fmtD y ++ post))).length := by
  have hne := digits_differ hn
  rw [← textBytes_fmtD hx (by omega), ← textBytes_fmtD hy (by omega)] at hne
  simp only [textBytes_append, List.length_append]
  omega

/-! ## Handlers that see the old contents -/

section

variable {msg : List Byte} {past : Addr}

/-- A handler does different things over two contents of the buffer. -/
def Shows (handler : Buffer → Serving (List Call) → Serving (List Call) × Int) (msg : List Byte) :
    Prop :=
  ∃ rq rq', (handler (requestData msg rq) { os := [] }).1 ≠
    (handler (requestData msg rq') { os := [] }).1 ∨
    BitVec.ofInt 32 (handler (requestData msg rq) { os := [] }).2 ≠
      BitVec.ofInt 32 (handler (requestData msg rq') { os := [] }).2

theorem responsePrint_used (text : String) (calls : List Call) :
    (nsbServiceResponsePrint text { os := calls }).rd.used = (textBytes text).length + 1 := by
  simp [nsbServiceResponsePrint, NSB_SERVICE_MESSAGE_DATA_SIZE]

section

variable {handler : Buffer → Serving (List Call) → Serving (List Call) × Int} {off max : Nat}

/-- Two counts that are too large. -/
theorem shows_count (hover : RefusesOver handler off max) (hmax : max < 2 ^ 32)
    (h : msg.length ≤ 4 + (off + 3)) : Shows handler msg := by
  obtain ⟨pre, post, hrefuse⟩ := hover
  obtain ⟨rq, rq', n, hn, hx, hy⟩ := low_counts h
  refine ⟨rq, rq', .inl fun heq => ?_⟩
  rw [hrefuse _ _ (by omega), hrefuse _ _ (by omega)] at heq
  have hused := congrArg (fun s => s.rd.used) heq
  simp only [responsePrint_used, Nat.add_right_cancel_iff] at hused
  exact texts_differ hn hx hy hused

/-- A count that is too large, or not. -/
theorem shows_high (hover : RefusesOver handler off max) (hmax : max < 256 ^ 7)
    (hlen : 4 + off ≤ msg.length) (h : msg.length ≤ 4 + (off + 7))
    (hknown : knownCount msg off ≤ max)
    (hret : ∀ data : Buffer, (data.get 64 off).toNat ≤ max →
      BitVec.ofInt 32 (handler data { os := [] }).2 ≠ BitVec.ofInt 32 (-E2BIG)) :
    Shows handler msg := by
  obtain ⟨pre, post, hrefuse⟩ := hover
  have hzero := count_over_zeros hlen
  have hone := last_byte_shows h
  refine ⟨Buffer.zeros, Buffer.zeros.put (4 + (off + 7)) [1], .inr ?_⟩
  rw [hrefuse (requestData msg (Buffer.zeros.put (4 + (off + 7)) [1])) _ (by omega)]
  exact hret _ (by omega)

/-- A field of a record whose last byte was not received. -/
theorem shows_field (h : msg.length ≤ 4 + (off + 7))
    (hfield : ∀ rq rq', (handler (requestData msg rq) { os := [] }).1 =
        (handler (requestData msg rq') { os := [] }).1 →
      (requestData msg rq).get 64 off = (requestData msg rq').get 64 off) :
    Shows handler msg := by
  refine ⟨Buffer.zeros, Buffer.zeros.put (4 + (off + 7)) [1], .inl fun heq => ?_⟩
  have hshow := last_byte_shows h
  rw [← hfield _ _ heq] at hshow
  omega

end

/-- A count of mappings that is not too large has another answer. -/
theorem mmap_not_e2big {data : Buffer} (hle : (data.get 64 8).toNat ≤ maxMmaps) :
    BitVec.ofInt 32 (Plugin.nsbServiceCmdMmap (recordingHost past) data { os := [] }).2 ≠
      BitVec.ofInt 32 (-E2BIG) := by
  rw [Plugin.nsbServiceCmdMmap, nrMmaps, if_neg (Nat.not_lt.mpr hle)]
  split
  · show BitVec.ofInt 32 (-EINVAL) ≠ BitVec.ofInt 32 (-E2BIG)
    decide
  · rw [cmdMmapLoop_ok rfl fun _ _ _ => Int.le_refl 0]
    show BitVec.ofInt 32 0 ≠ BitVec.ofInt 32 (-E2BIG)
    decide

/-- Two records that differ. -/
theorem mmap_shows_records (hlen : 4 + 16 ≤ msg.length) (h : msg.length ≤ 4 + (72 + 7))
    (hknown : knownCount msg 8 = 2) :
    Shows (Plugin.nsbServiceCmdMmap (recordingHost past)) msg := by
  have hnr (rq : Buffer) : (nrMmaps (requestData msg rq)).toNat = 2 :=
    (count_eq_known (by omega)).trans hknown
  have hcall (rq : Buffer) :
      (Plugin.nsbServiceCmdMmap (recordingHost past) (requestData msg rq) { os := [] }).1.os[1]? =
        some ((MmapInfo.layout.read (requestData msg rq) 48).call
          (mmapRequestFd (requestData msg rq))) := by
    have hlen : 1 < ((mmapRequestInfos (requestData msg rq)).map
        (MmapInfo.call (mmapRequestFd (requestData msg rq)))).length := by
      rw [List.length_map, mmapRequestInfos, RecordLayout.elems, RecordLayout.length_array]
      exact (hnr rq).symm ▸ Nat.one_lt_two
    rw [cmdMmap_two rfl (hnr rq) fun _ _ _ => Int.le_refl 0]
    dsimp only
    rw [List.nil_append, List.getElem?_append_left hlen, List.getElem?_map, mmapRequestInfos,
      RecordLayout.elems, RecordLayout.getElem?_array _ ((hnr rq).symm ▸ Nat.one_lt_two),
      show 16 + MmapInfo.layout.size * 1 = 48 from rfl, Option.map_some]
  refine shows_field h fun rq rq' heq => ?_
  have hos := congrArg (fun s => s.os[1]?) heq
  simp only [hcall] at hos
  exact (Call.mmap.inj (Option.some.inj hos)).2.2.2.2.2

/-- A request to unmap a number of mappings, all of which succeed. -/
theorem cmdMunmap_recorded {data : Buffer} (hnr : ¬ (nrMunmaps data).toNat > maxMunmaps) :
    Plugin.nsbServiceCmdMunmap (recordingHost past) data { os := [] } =
      ({ os := (munmapRequestInfos data).map MapAddrInfo.call }, 0) := by
  rw [Plugin.nsbServiceCmdMunmap, if_neg hnr, cmdMunmapLoop_ok rfl fun _ _ _ => Int.le_refl 0,
    List.nil_append]

theorem munmap_not_e2big {data : Buffer} (hle : (data.get 64 0).toNat ≤ maxMunmaps) :
    BitVec.ofInt 32 (Plugin.nsbServiceCmdMunmap (recordingHost past) data { os := [] }).2 ≠
      BitVec.ofInt 32 (-E2BIG) := by
  rw [cmdMunmap_recorded (Nat.not_lt.mpr hle)]
  show BitVec.ofInt 32 0 ≠ BitVec.ofInt 32 (-E2BIG)
  decide

theorem munmap_shows_records {n : Nat} (hlen : 4 + 8 ≤ msg.length)
    (h : msg.length ≤ 4 + (8 + 16 * n + 8 + 7)) (hknown : knownCount msg 0 = n + 1)
    (hmax : n + 1 ≤ maxMunmaps) : Shows (Plugin.nsbServiceCmdMunmap (recordingHost past)) msg := by
  have hnr (rq : Buffer) : (nrMunmaps (requestData msg rq)).toNat = n + 1 :=
    (count_eq_known (by omega)).trans hknown
  have hcall (rq : Buffer) :
      (Plugin.nsbServiceCmdMunmap (recordingHost past) (requestData msg rq) { os := [] }).1.os[n]? =
        some (MapAddrInfo.layout.read (requestData msg rq) (8 + 16 * n)).call := by
    rw [cmdMunmap_recorded (by rw [hnr]; omega)]
    dsimp only
    rw [List.getElem?_map, munmapRequestInfos, RecordLayout.elems,
      RecordLayout.getElem?_array _ ((hnr rq).symm ▸ Nat.lt_succ_self n),
      show MapAddrInfo.layout.size = 16 from rfl, Option.map_some]
  refine shows_field h fun rq rq' heq => ?_
  have hos := congrArg (fun s => s.os[n]?) heq
  simp only [hcall] at hos
  exact (Call.munmap.inj (Option.some.inj hos)).2

/-- A request to map that does not decide everything. -/
theorem mmap_incomplete (hcmd : ServiceCmd.ofCode (messageCmd msg) = some .mmap)
    (hc : ¬ Complete past msg) : Shows (Plugin.nsbServiceCmdMmap (recordingHost past)) msg := by
  rw [Complete, hcmd] at hc
  by_cases hcount : msg.length ≤ 4 + (8 + 3)
  · exact shows_count (mmap_refusesOver _) (by decide) hcount
  · by_cases hhigh : msg.length ≤ 4 + (8 + 7)
    · exact shows_high (mmap_refusesOver _) (by decide) (by omega) hhigh (by omega)
        fun _ => mmap_not_e2big
    · exact mmap_shows_records (by omega) (by omega) (by omega)

/-- A request to unmap that does not decide everything. -/
theorem munmap_incomplete (hlen : 4 ≤ msg.length)
    (hcmd : ServiceCmd.ofCode (messageCmd msg) = some .munmap) (hc : ¬ Complete past msg) :
    Shows (Plugin.nsbServiceCmdMunmap (recordingHost past)) msg := by
  rw [Complete, hcmd] at hc
  by_cases hcount : msg.length ≤ 4 + (0 + 3)
  · exact shows_count (munmap_refusesOver _) (by decide) hcount
  · by_cases hhigh : msg.length ≤ 4 + (0 + 7)
    · exact shows_high (munmap_refusesOver _) (by decide) (by omega) hhigh (by omega)
        fun _ => munmap_not_e2big
    · obtain ⟨n, hn⟩ : ∃ n, knownCount msg 0 = n + 1 :=
        Nat.exists_eq_succ_of_ne_zero fun h0 => by omega
      exact munmap_shows_records (n := n) (by omega) (by omega) hn (by omega)

end

/-! ## Two runs -/

/-- The service acts on a message alone.  If it knows no handler for the command,
it answers `-EINVAL` and changes nothing.  Otherwise what it does and what it
answers is the same whatever the buffer held before. -/
def ActsOnReceived (past : Addr) (bytes : List Byte) : Prop :=
  ∀ (σ : Type) (h : Host σ), h.past = past →
    ∀ (fuel : Nat) (sent : Int) (rq rq' : Buffer) (s : Serving σ),
    (ServiceCmd.ofCode (messageCmd (received bytes)) = none →
      ∃ run text, nsbServiceRun h fuel (.message bytes) sent rq s = some run ∧
        run.serving = { s with rd := run.serving.rd } ∧
        run.response = some (Bytes.leBytes 4 (BitVec.ofInt 32 (-EINVAL)).toNat ++ text)) ∧
    (ServiceCmd.ofCode (messageCmd (received bytes)) ≠ none →
      nsbServiceRun h fuel (.message bytes) sent rq s =
        nsbServiceRun h fuel (.message bytes) sent rq' s)

section

variable {σ : Type} {h : Host σ} {bytes : List Byte} {past : Addr}

/-- Without a handler and without a word to call in its place, the command is
refused. -/
theorem doHandleCmd_refused {fuel n : Nat} {rq : Buffer} {s : Serving σ}
    (hcmd : ServiceCmd.ofCode (rqCmd rq) = none)
    (hpast : rqCmd rq = NSB_SERVICE_CMD_MAX → h.past = 0) :
    ∃ text, nsbDoHandleCmd h fuel rq n s = some (nsbServiceResponsePrint text s, -EINVAL) := by
  rw [nsbDoHandleCmd, hcmd]
  split
  next => exact ⟨_, rfl⟩
  next hle =>
    have hmax : rqCmd rq = NSB_SERVICE_CMD_MAX :=
      Nat.le_antisymm (Nat.not_lt.mp hle) (ServiceCmd.ofCode_eq_none.mp hcmd)
    dsimp only
    rw [if_pos (hpast hmax)]
    exact ⟨_, rfl⟩

theorem responsePrint_keeps (text : String) (s : Serving σ) :
    nsbServiceResponsePrint text s = { s with rd := (nsbServiceResponsePrint text s).rd } := by
  simp only [nsbServiceResponsePrint]
  split <;> rfl

/-- With such a word, it is called. -/
theorem doHandleCmd_past {fuel n : Nat} {rq : Buffer} {s : Serving σ}
    (hcmd : rqCmd rq = NSB_SERVICE_CMD_MAX) (hpast : h.past ≠ 0) :
    nsbDoHandleCmd h fuel rq n s =
      some ({ s with os := (h.kernel (.jump h.past) s.os).1 },
        (h.kernel (.jump h.past) s.os).2) := by
  rw [nsbDoHandleCmd, hcmd, if_neg (Nat.lt_irrefl _)]
  exact if_neg hpast

/-- The handler of a command is what a run of the service comes down to. -/
theorem run_ne_of_shows (past : Addr) {bytes : List Byte}
    {handler : Buffer → Serving (List Call) → Serving (List Call) × Int}
    (hlen : 4 ≤ (received bytes).length)
    (hcmd : ∀ rq s, nsbDoHandleCmd (recordingHost past) 0 (rq.put 0 (received bytes))
      ((received bytes).length - 4) s = some (handler (requestData (received bytes) rq) s))
    (hshows : Shows handler (received bytes)) :
    ∃ rq rq', nsbServiceRun (recordingHost past) 0 (.message bytes) 1 rq { os := [] } ≠
      nsbServiceRun (recordingHost past) 0 (.message bytes) 1 rq' { os := [] } := by
  obtain ⟨rq, rq', hne⟩ := hshows
  refine ⟨rq, rq', fun heq => ?_⟩
  rw [nsbServiceRun_message _ hlen, nsbServiceRun_message _ hlen, nsbHandleCommand,
    nsbHandleCommand,
    hcmd, hcmd] at heq
  obtain ⟨hserving, hresponse, -⟩ := Run.mk.inj (Option.some.inj heq)
  rcases hne with hne | hne
  · exact hne hserving
  · exact hne (responseBytes_ret (Option.some.inj hresponse))

end

/-- A service that refuses the command one past the last has no word to call
there. -/
theorem past_zero_of_acts {past : Addr} {bytes : List Byte} (hlen : 4 ≤ (received bytes).length)
    (hacts : ActsOnReceived past bytes)
    (hcmd : ServiceCmd.ofCode (messageCmd (received bytes)) = none)
    (hmax : messageCmd (received bytes) = NSB_SERVICE_CMD_MAX) : past = 0 := by
  by_contra hpast
  obtain ⟨run, text, hrun, hserving, -⟩ :=
    (hacts _ (recordingHost past) rfl 0 1 Buffer.zeros Buffer.zeros { os := [] }).1 hcmd
  rw [nsbServiceRun_message _ hlen, nsbHandleCommand,
    doHandleCmd_past (by rw [rqCmd_received hlen, hmax]) hpast] at hrun
  have hjump : [Call.jump past] = run.serving.os :=
    congrArg (fun r => r.serving.os) (Option.some.inj hrun)
  rw [hserving] at hjump
  cases hjump

/-- A message on which the service acts alone decides everything. -/
theorem complete_of_acts {past : Addr} {bytes : List Byte} (hlen : 4 ≤ (received bytes).length)
    (hacts : ActsOnReceived past bytes) : Complete past (received bytes) := by
  by_contra hc
  cases hcmd : ServiceCmd.ofCode (messageCmd (received bytes)) with
  | none =>
      rw [Complete, hcmd] at hc
      exact hc (past_zero_of_acts hlen hacts hcmd)
  | some cmd =>
      have hall := fun rq rq' =>
        (hacts _ (recordingHost past) rfl 0 1 rq rq' { os := [] }).2 (by rw [hcmd]; simp)
      have hrq (rq : Buffer) :
          ServiceCmd.ofCode (rqCmd (rq.put 0 (received bytes))) = some cmd := by
        rw [rqCmd_received hlen, hcmd]
      cases cmd with
      | mmap =>
          obtain ⟨rq, rq', hne⟩ := run_ne_of_shows past hlen
            (fun rq s => doHandleCmd_mmap (hrq rq)) (mmap_incomplete hcmd hc)
          exact hne (hall rq rq')
      | munmap =>
          obtain ⟨rq, rq', hne⟩ := run_ne_of_shows past hlen
            (fun rq s => doHandleCmd_munmap (hrq rq)) (munmap_incomplete hlen hcmd hc)
          exact hne (hall rq rq')
      | emergSigframe => exact hc (by rw [Complete, hcmd]; trivial)
      | stop => exact hc (by rw [Complete, hcmd]; trivial)
      | neededList => exact hc (by rw [Complete, hcmd]; trivial)

/-- On a message that decides everything, the service acts alone. -/
theorem acts_of_complete {past : Addr} {bytes : List Byte} (hlen : 4 ≤ (received bytes).length)
    (hc : Complete past (received bytes)) : ActsOnReceived past bytes := by
  intro σ h hpast fuel sent rq rq' s
  constructor
  · intro hcmd
    have hmax : messageCmd (received bytes) = NSB_SERVICE_CMD_MAX → h.past = 0 := by
      rw [Complete, hcmd] at hc
      rwa [hpast]
    have hrq : rqCmd (rq.put 0 (received bytes)) = messageCmd (received bytes) :=
      rqCmd_received hlen
    rw [← hrq] at hcmd hmax
    obtain ⟨text, hdo⟩ := @doHandleCmd_refused σ h fuel ((received bytes).length - 4) _
      { s with rd := {} } hcmd hmax
    rw [nsbServiceRun_message _ hlen, nsbHandleCommand, hdo]
    refine ⟨_, _, rfl, ?_, rfl⟩
    exact responsePrint_keeps text { s with rd := {} }
  · intro _
    rw [nsbServiceRun_message _ hlen, nsbServiceRun_message _ hlen, nsbHandleCommand,
      nsbHandleCommand, doHandleCmd_congr h hlen (hpast ▸ hc)]

/-- The service acts on a message alone exactly when the message decides
everything. -/
theorem acts_on_received_iff (past : Addr) (bytes : List Byte)
    (hlen : 4 ≤ (received bytes).length) :
    ActsOnReceived past bytes ↔ Complete past (received bytes) := by
  constructor
  · exact complete_of_acts hlen
  · exact acts_of_complete hlen

/-- A request to unmap one page, with its record. -/
def unmapOne : List Byte :=
  Bytes.leBytes 4 4 ++ Bytes.leBytes 8 1 ++ Bytes.leBytes 8 0x7f0000 ++ Bytes.leBytes 8 0x1000

theorem unmapOne_alone : 4 ≤ (received unmapOne).length ∧ ActsOnReceived 0 unmapOne :=
  ⟨by decide, (acts_on_received_iff 0 unmapOne (by decide)).mpr (.inr ⟨by decide, by decide⟩)⟩

/-- A request to map two segments of the file 5 that ends where the records
should start. -/
def mapHeader : List Byte := Bytes.leBytes 4 3 ++ Bytes.leBytes 8 5 ++ Bytes.leBytes 8 2

/-- The service maps what the buffer held before. -/
theorem mapHeader_not_alone : 4 ≤ (received mapHeader).length ∧ ¬ ActsOnReceived 0 mapHeader := by
  refine ⟨by decide, fun hacts => ?_⟩
  have hcmd (rq : Buffer) : rqCmd (rq.put 0 (received mapHeader)) = 3 :=
    rqCmd_received (by decide)
  obtain ⟨rq, rq', hne⟩ := run_ne_of_shows 0 (show 4 ≤ (received mapHeader).length by decide)
    (fun rq s => doHandleCmd_mmap (by rw [hcmd]; rfl))
    (mmap_shows_records (by decide) (by decide) (by decide))
  exact hne ((hacts _ (recordingHost 0) rfl 0 1 rq rq' { os := [] }).2 (by decide))

end Nsb

import Nsb.Lib.Buffer
import Nsb.Patcher.Process

/-!
# The messages of the service

The structures of `plugins/service.h`, byte for byte.  A request is a command of
four bytes and 8192 bytes of data, a response a return code of four bytes and as
many bytes of data.  The data of a request to map or unmap is a count and an
array of records; the data of the answer with the loaded objects is a count and
an array of addresses; the data of an answer with an error is a series of texts,
each ended by a zero byte.
-/

namespace Nsb

/-- `nsb_service_cmd_t`, without `NSB_SERVICE_CMD_MAX`. -/
inductive ServiceCmd where
  | emergSigframe
  | stop
  | neededList
  | mmap
  | munmap
deriving DecidableEq, Repr

/-- The number of a command. -/
def ServiceCmd.code : ServiceCmd → Nat
  | .emergSigframe => 0
  | .stop => 1
  | .neededList => 2
  | .mmap => 3
  | .munmap => 4

/-- `NSB_SERVICE_CMD_MAX`. -/
def NSB_SERVICE_CMD_MAX : Nat := 5

/-- The entry of `nsb_service_cmd_handlers` under a number. -/
def ServiceCmd.ofCode : Nat → Option ServiceCmd
  | 0 => some .emergSigframe
  | 1 => some .stop
  | 2 => some .neededList
  | 3 => some .mmap
  | 4 => some .munmap
  | _ => none

theorem ServiceCmd.ofCode_eq_none {n : Nat} :
    ServiceCmd.ofCode n = none ↔ NSB_SERVICE_CMD_MAX ≤ n := by
  rw [NSB_SERVICE_CMD_MAX]
  match n with
  | 0 | 1 | 2 | 3 | 4 => simp [ofCode]
  | n + 5 => simp [ofCode]

/-- `NSB_SERVICE_MESSAGE_DATA_SIZE`. -/
def NSB_SERVICE_MESSAGE_DATA_SIZE : Nat := 8192

/-- `sizeof(struct nsb_service_request)` and `sizeof(struct nsb_service_response)`. -/
def messageSize : Nat := 4 + NSB_SERVICE_MESSAGE_DATA_SIZE

/-- `NSB_SERVICE_NEEDED_LIST_SIZE_MAX / sizeof(nl->address)`. -/
def maxBaseAddrs : Nat := (NSB_SERVICE_MESSAGE_DATA_SIZE - 16) / 8

/-! ## Requests -/

/-- `struct nsb_service_map_addr_info`. -/
structure MapAddrInfo where
  addr : Addr
  length : BitVec 64
deriving DecidableEq

/-- `struct nsb_service_mmap_info`. -/
structure MmapInfo where
  info : MapAddrInfo
  prot : BitVec 32
  flags : BitVec 32
  offset : BitVec 64
deriving DecidableEq

section

variable {b b' : Buffer} {off : Nat}

/-- Two fields of eight bytes in a row. -/
theorem get_set_words (x y : BitVec 64) :
    ((b.set off x).set (off + 8) y).get 64 off = x ∧
      ((b.set off x).set (off + 8) y).get 64 (off + 8) = y := by
  rw [Buffer.get_set_apart (by omega), Buffer.get_set _ _ _ (by decide),
    Buffer.get_set _ _ _ (by decide)]
  exact ⟨rfl, rfl⟩

theorem set_words_outside {x y : BitVec 64} {i : Nat} (h : i < off ∨ off + 16 ≤ i) :
    ((b.set off x).set (off + 8) y) i = b i := by
  simp only [Buffer.set]
  rw [Buffer.put_outside (by rw [Bytes.length_leBytes]; omega),
    Buffer.put_outside (by rw [Bytes.length_leBytes]; omega)]

theorem get_words_congr (h : ∀ i, off ≤ i → i < off + 16 → b i = b' i) :
    b.get 64 off = b'.get 64 off ∧ b.get 64 (off + 8) = b'.get 64 (off + 8) :=
  ⟨Buffer.get_congr fun i h₁ h₂ => h i h₁ (by omega),
    Buffer.get_congr fun i h₁ h₂ => h i (by omega) (by omega)⟩

end

/-- The bytes of `struct nsb_service_map_addr_info`. -/
def MapAddrInfo.layout : RecordLayout MapAddrInfo where
  size := 16
  read b off := ⟨b.get 64 off, b.get 64 (off + 8)⟩
  write b off mai := (b.set off mai.addr).set (off + 8) mai.length
  read_write _ _ _ := congrArg₂ MapAddrInfo.mk (get_set_words _ _).1 (get_set_words _ _).2
  write_outside _ _ _ _ h := set_words_outside h
  read_congr _ _ _ h := congrArg₂ MapAddrInfo.mk (get_words_congr h).1 (get_words_congr h).2

/-- The fields of `struct nsb_service_mmap_info`. -/
def MmapInfo.readAt (b : Buffer) (off : Nat) : MmapInfo where
  info := MapAddrInfo.layout.read b off
  prot := b.get 32 (off + 16)
  flags := b.get 32 (off + 20)
  offset := b.get 64 (off + 24)

/-- Store the fields of `struct nsb_service_mmap_info`. -/
def MmapInfo.writeAt (b : Buffer) (off : Nat) (mi : MmapInfo) : Buffer :=
  (((MapAddrInfo.layout.write b off mi.info).set (off + 16) mi.prot).set (off + 20)
    mi.flags).set (off + 24) mi.offset

theorem MmapInfo.readAt_writeAt (b : Buffer) (off : Nat) (mi : MmapInfo) :
    readAt (writeAt b off mi) off = mi := by
  have hinfo : MapAddrInfo.layout.read (writeAt b off mi) off = mi.info := by
    refine (MapAddrInfo.layout.read_congr _ _ off fun i h₁ h₂ => ?_).trans
      (MapAddrInfo.layout.read_write b off mi.info)
    have hi : i < off + 16 := h₂
    simp only [writeAt, Buffer.set]
    rw [Buffer.put_outside (by omega), Buffer.put_outside (by omega),
      Buffer.put_outside (by omega)]
  rw [readAt, hinfo, writeAt, Buffer.get_set _ _ _ (by decide), Buffer.get_set_apart (by omega),
    Buffer.get_set_apart (by omega), Buffer.get_set _ _ _ (by decide),
    Buffer.get_set_apart (by omega), Buffer.get_set _ _ _ (by decide)]

theorem MmapInfo.writeAt_outside (b : Buffer) (off : Nat) (mi : MmapInfo) {i : Nat}
    (h : i < off ∨ off + 32 ≤ i) : writeAt b off mi i = b i := by
  simp only [writeAt, Buffer.set]
  rw [Buffer.put_outside (by rw [Bytes.length_leBytes]; omega),
    Buffer.put_outside (by rw [Bytes.length_leBytes]; omega),
    Buffer.put_outside (by rw [Bytes.length_leBytes]; omega)]
  refine MapAddrInfo.layout.write_outside _ _ _ _ ?_
  show i < off ∨ off + 16 ≤ i
  omega

theorem MmapInfo.readAt_congr {b b' : Buffer} {off : Nat}
    (h : ∀ i, off ≤ i → i < off + 32 → b i = b' i) : readAt b off = readAt b' off := by
  have hinfo : MapAddrInfo.layout.read b off = MapAddrInfo.layout.read b' off :=
    MapAddrInfo.layout.read_congr b b' off fun i h₁ h₂ => h i h₁ (Nat.lt_of_lt_of_le h₂
      (Nat.add_le_add_left (by decide) off))
  rw [readAt, readAt, hinfo,
    Buffer.get_congr fun i h₁ h₂ => h i (by omega) (by omega),
    Buffer.get_congr fun i h₁ h₂ => h i (by omega) (by omega),
    Buffer.get_congr fun i h₁ h₂ => h i (by omega) (by omega)]

/-- The bytes of `struct nsb_service_mmap_info`. -/
def MmapInfo.layout : RecordLayout MmapInfo where
  size := 32
  read := MmapInfo.readAt
  write := MmapInfo.writeAt
  read_write := MmapInfo.readAt_writeAt
  write_outside b off mi _ h := MmapInfo.writeAt_outside b off mi h
  read_congr _ _ _ h := MmapInfo.readAt_congr h

/-- A `uint64_t`. -/
def addressLayout : RecordLayout (BitVec 64) := RecordLayout.int 64 (by decide)

/-- `rq->cmd`. -/
def rqCmd (rq : Buffer) : Nat := (rq.get 32 0).toNat

/-- `rq->data` and `rs->data`. -/
def messageData (rq : Buffer) : Buffer := rq.drop 4

/-- `fd` of a `struct nsb_service_mmap_request`. -/
def mmapRequestFd (data : Buffer) : BitVec 32 := data.get 32 0

/-- `nr_mmaps` of a `struct nsb_service_mmap_request`. -/
def nrMmaps (data : Buffer) : BitVec 64 := data.get 64 8

/-- `mmap` of a `struct nsb_service_mmap_request`. -/
def mmapRequestInfos (data : Buffer) : List MmapInfo := MmapInfo.layout.elems data 8 16

/-- `nr_munmaps` of a `struct nsb_service_munmap_request`. -/
def nrMunmaps (data : Buffer) : BitVec 64 := data.get 64 0

/-- `munmap` of a `struct nsb_service_munmap_request`. -/
def munmapRequestInfos (data : Buffer) : List MapAddrInfo := MapAddrInfo.layout.elems data 0 8

/-! ## Responses -/

/-- `rs->ret`. -/
def rsRet (rs : Buffer) : Int := (rs.get 32 0).toInt

/-- `nr_addrs` of a `struct nsb_service_needed_list`. -/
def nrAddrs (data : Buffer) : BitVec 64 := data.get 64 0

/-- `address` of a `struct nsb_service_needed_list`. -/
def neededListAddresses (data : Buffer) : List (BitVec 64) := addressLayout.elems data 0 8

/-- The `%d` conversion of an argument that is wider than an `int`. -/
def fmtD (x : BitVec 64) : String := toString (x.setWidth 32).toInt

/-- `%ld`. -/
def fmtLd (x : BitVec 64) : String := toString x.toInt

/-- `%lx`. -/
def fmtLx (x : BitVec 64) : String := String.ofList (Nat.toDigits 16 x.toNat)

/-- `%#lx`, and `%#x` of an `int`. -/
def fmtAltX {w : Nat} (x : BitVec w) : String :=
  if x = 0 then "0" else "0x" ++ String.ofList (Nat.toDigits 16 x.toNat)

/-- The bytes of a text, without the zero at its end. -/
def textBytes (s : String) : List Byte := s.toList.map fun c => BitVec.ofNat 8 c.toNat

/-! ## System calls -/

/-- The calls of the service, by their arguments.  `jump` is the call of an
address that is no handler. -/
inductive Call where
  | mmap (addr : Addr) (length : BitVec 64) (prot flags fd : BitVec 32) (offset : BitVec 64)
  | munmap (addr : Addr) (length : BitVec 64)
  | close (fd : BitVec 32)
  | jump (target : Addr)
deriving DecidableEq

/-- What a call does and returns: `-errno` when it fails. -/
abbrev Kernel (σ : Type) := Call → σ → σ × Int

/-- The kernel that records the calls. -/
def recorder (outcome : List Call → Call → Int) : Kernel (List Call) :=
  fun c calls => (calls ++ [c], outcome calls c)

/-- The call that makes a mapping. -/
def MmapInfo.call (fd : BitVec 32) (mi : MmapInfo) : Call :=
  .mmap mi.info.addr mi.info.length mi.prot mi.flags fd mi.offset

/-- The call that removes a mapping. -/
def MapAddrInfo.call (mai : MapAddrInfo) : Call := .munmap mai.addr mai.length

end Nsb

import Memcr.DumpFormat

namespace Memcr.RegionRequests

open Memcr.ByteWords
open Memcr.DumpFormat

/-- `memcr_cmd`, the byte a connection begins with. -/
inductive MemcrCmd where
  | cmdMprotect
  | cmdGetPages
  | cmdSetPages
  | cmdEnd
  deriving DecidableEq, Repr

/-- The value of `memcr_cmd` on the socket. -/
def MemcrCmd.byte : MemcrCmd → Byte
  | cmdMprotect => 1
  | cmdGetPages => 2
  | cmdSetPages => 3
  | cmdEnd => 4

/-- The command of a byte, if it is one. -/
def MemcrCmd.ofByte? (b : Byte) : Option MemcrCmd :=
  [cmdMprotect, cmdGetPages, cmdSetPages, cmdEnd].find? fun cmd => cmd.byte == b

@[simp] theorem MemcrCmd.ofByte?_byte (cmd : MemcrCmd) : ofByte? cmd.byte = some cmd := by
  cases cmd <;> rfl

/-- A command and the records behind it, as they pass through a socket. -/
def commandStream {α : Type} (cmd : MemcrCmd) (bytes : α → List Byte) (items : List α) :
    List Byte :=
  cmd.byte :: items.flatMap bytes

theorem commandStream_snoc {α : Type} (cmd : MemcrCmd) (bytes : α → List Byte) (items : List α)
    (item : α) :
    commandStream cmd bytes (items ++ [item]) = commandStream cmd bytes items ++ bytes item := by
  simp [commandStream]

/-- The length of a region as the `int` that `read` takes. -/
def readSize (vmr : VmRegion) : Nat := (toInt32 vmr.len.toNat).toNat

/-- `VM_REGION_TX` -/
def vmRegionTx : Nat := 0x01

def regionReqMem : Nat := 0

def regionReqPagemap : Nat := 1

/-- `struct vm_region_req`. The bytes of the union that no field covers are sent
as they are found on the stack. -/
inductive VmRegionReq where
  | mem (vmr : VmRegion) (tx : Bool) (slack : BitVec 56)
  | pagemap (seek len : BitVec 64) (slack : BitVec 64)
  deriving DecidableEq, Repr

/-- `sizeof(struct vm_region_req)` -/
def vmRegionReqSize : Nat := 28

theorem vmRegionReqSize_pos : 0 < vmRegionReqSize := Nat.succ_pos 27

namespace VmRegionReq

/-- The request as it goes through the socket. -/
def bytes : VmRegionReq → List Byte
  | mem vmr tx slack =>
      vmr.bytes ++ (toBytes 1 (if tx then vmRegionTx else 0) ++
        (toBytes 7 slack.toNat ++ toBytes 4 regionReqMem))
  | pagemap seek len slack =>
      toBytes 8 seek.toNat ++ (toBytes 8 len.toNat ++
        (toBytes 8 slack.toNat ++ toBytes 4 regionReqPagemap))

/-- What the parasite finds in the buffer it has read a request into. -/
def ofBytes (buf : List Byte) : VmRegionReq :=
  if ByteWords.ofBytes (buf.drop 24) = regionReqPagemap then
    pagemap (BitVec.ofNat 64 (ByteWords.ofBytes (buf.take 8)))
      (BitVec.ofNat 64 (ByteWords.ofBytes ((buf.drop 8).take 8)))
      (BitVec.ofNat 64 (ByteWords.ofBytes ((buf.drop 16).take 8)))
  else
    mem (VmRegion.ofBytes (buf.take 16))
      (ByteWords.ofBytes ((buf.drop 16).take 1) &&& vmRegionTx != 0)
      (BitVec.ofNat 56 (ByteWords.ofBytes ((buf.drop 17).take 7)))

/-- How many bytes the request is about. -/
def len : VmRegionReq → Nat
  | mem vmr _ _ => vmr.len.toNat
  | pagemap _ len _ => len.toNat

/-- The parasite sends a reply to the request and memcr reads one. -/
def answered : VmRegionReq → Bool
  | mem _ tx _ => tx
  | pagemap _ _ _ => true

/-- How many bytes the parasite sends back. -/
def replyLength (req : VmRegionReq) : Nat := if req.answered then req.len else 0

@[simp] theorem bytes_length (req : VmRegionReq) : req.bytes.length = vmRegionReqSize := by
  cases req <;> simp [bytes, vmRegionReqSize, vmRegionSize]

theorem field_append {front field rest : List Byte} {m n : Nat} (hfront : front.length = m)
    (hfield : field.length = n) : ((front ++ (field ++ rest)).drop m).take n = field := by
  rw [List.drop_left' hfront, List.take_left' hfield]

theorem vmr_ofBytes (vmr : VmRegion) (tx : Bool) (slack : BitVec 56) :
    VmRegion.ofBytes (mem vmr tx slack).bytes = vmr := by
  have haddr : (mem vmr tx slack).bytes.take 8 = vmr.bytes.take 8 :=
    List.take_append_of_le_length (by rw [VmRegion.bytes_length]; decide)
  have hlen : ((mem vmr tx slack).bytes.drop 8).take 8 = (vmr.bytes.drop 8).take 8 := by
    rw [bytes, List.drop_append_of_le_length (by rw [VmRegion.bytes_length]; decide),
      List.take_append_of_le_length (by rw [List.length_drop, VmRegion.bytes_length]; decide)]
  rw [VmRegion.ofBytes, haddr, hlen]
  exact VmRegion.ofBytes_bytes vmr

theorem ofBytes_bytes (req : VmRegionReq) : ofBytes req.bytes = req := by
  cases req with
  | mem vmr tx slack =>
      have htype : ByteWords.ofBytes ((mem vmr tx slack).bytes.drop 24) = regionReqMem := by
        rw [bytes, ← List.append_assoc, ← List.append_assoc, List.drop_left' (by simp; rfl)]
        rfl
      have hvmr : (mem vmr tx slack).bytes.take 16 = vmr.bytes :=
        List.take_left' (VmRegion.bytes_length vmr)
      have hflags : ((mem vmr tx slack).bytes.drop 16).take 1 =
          toBytes 1 (if tx then vmRegionTx else 0) :=
        field_append (VmRegion.bytes_length vmr) (toBytes_length _ _)
      have hslack : ((mem vmr tx slack).bytes.drop 17).take 7 = toBytes 7 slack.toNat := by
        rw [bytes, ← List.append_assoc]
        exact field_append (by simp; rfl) (toBytes_length _ _)
      have hslackFits : slack.toNat < 256 ^ 7 := slack.isLt
      rw [ofBytes, htype, if_neg (by decide), hvmr, VmRegion.ofBytes_bytes, hflags, hslack,
        ofBytes_toBytes hslackFits, BitVec.ofNat_toNat, BitVec.setWidth_eq]
      cases tx <;> rfl
  | pagemap seek len slack =>
      have htype : ByteWords.ofBytes ((pagemap seek len slack).bytes.drop 24) =
          regionReqPagemap := by
        rw [bytes, ← List.append_assoc, ← List.append_assoc, List.drop_left' (by simp)]
        rfl
      have hseek : (pagemap seek len slack).bytes.take 8 = toBytes 8 seek.toNat :=
        List.take_left' (toBytes_length _ _)
      have hlen : ((pagemap seek len slack).bytes.drop 8).take 8 = toBytes 8 len.toNat :=
        field_append (toBytes_length _ _) (toBytes_length _ _)
      have hslack : ((pagemap seek len slack).bytes.drop 16).take 8 =
          toBytes 8 slack.toNat := by
        rw [bytes, ← List.append_assoc]
        exact field_append (by simp) (toBytes_length _ _)
      rw [ofBytes, htype, if_pos rfl, hseek, hlen, hslack]
      simp only [ofBytes_toBytes_bitVec]

theorem bytes_injective : Function.Injective bytes :=
  Function.LeftInverse.injective ofBytes_bytes

theorem bytes_selfDelimiting : FrameStreams.SelfDelimiting bytes where
  nonempty req h := by
    have hlength := bytes_length req
    rw [h] at hlength
    exact absurd hlength (by decide)
  split req req' rest rest' h := by
    obtain ⟨hreq, hrest⟩ := List.append_inj h (by simp)
    exact ⟨bytes_injective hreq, hrest⟩

end VmRegionReq

/-- `struct vm_mprotect` -/
structure VmMprotect where
  addr : BitVec 64
  len : BitVec 64
  prot : BitVec 64
  deriving DecidableEq, Repr

/-- `sizeof(struct vm_mprotect)` -/
def vmMprotectSize : Nat := 24

namespace VmMprotect

def bytes (req : VmMprotect) : List Byte :=
  toBytes 8 req.addr.toNat ++ (toBytes 8 req.len.toNat ++ toBytes 8 req.prot.toNat)

def ofBytes (buf : List Byte) : VmMprotect where
  addr := BitVec.ofNat 64 (ByteWords.ofBytes (buf.take 8))
  len := BitVec.ofNat 64 (ByteWords.ofBytes ((buf.drop 8).take 8))
  prot := BitVec.ofNat 64 (ByteWords.ofBytes ((buf.drop 16).take 8))

@[simp] theorem bytes_length (req : VmMprotect) : req.bytes.length = vmMprotectSize := by
  simp [bytes, vmMprotectSize]

theorem ofBytes_bytes (req : VmMprotect) : ofBytes req.bytes = req := by
  have haddr : req.bytes.take 8 = toBytes 8 req.addr.toNat :=
    List.take_left' (toBytes_length _ _)
  have hlen : (req.bytes.drop 8).take 8 = toBytes 8 req.len.toNat :=
    VmRegionReq.field_append (toBytes_length _ _) (toBytes_length _ _)
  have hprot : (req.bytes.drop 16).take 8 = toBytes 8 req.prot.toNat := by
    rw [bytes, ← List.append_assoc, List.drop_left' (by simp),
      List.take_of_length_le (by simp)]
  rw [ofBytes, haddr, hlen, hprot]
  simp only [ofBytes_toBytes_bitVec]

end VmMprotect

end Memcr.RegionRequests

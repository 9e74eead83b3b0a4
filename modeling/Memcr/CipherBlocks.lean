import Memcr.BlockStreams
import Memcr.ByteWords

namespace Memcr.CipherBlocks

open Memcr.BlockStreams
open Memcr.ByteWords

/-- Number of bytes in a block. -/
def blockSize : Nat := 16

/-- A block cipher with its key. -/
structure BlockCipher where
  encrypt : List Byte → List Byte
  decrypt : List Byte → List Byte
  encrypt_length : ∀ {block}, block.length = blockSize → (encrypt block).length = blockSize
  decrypt_length : ∀ {block}, block.length = blockSize → (decrypt block).length = blockSize
  decrypt_encrypt : ∀ {block}, block.length = blockSize → decrypt (encrypt block) = block

def xorBytes (a b : List Byte) : List Byte := List.zipWith (· ^^^ ·) a b

/-- One block of CBC, with the encrypted block before it as the state. -/
def encryptBlock (c : BlockCipher) (before block : List Byte) : List Byte × List Byte :=
  let encrypted := c.encrypt (xorBytes block before)
  (encrypted, encrypted)

/-- A block of CBC decryption; the block itself is the state for the next one. -/
def decryptBlock (c : BlockCipher) (before block : List Byte) : List Byte × List Byte :=
  (xorBytes (c.decrypt block) before, block)

/-- The last block filled up with bytes that give their number; there is always
at least one. -/
def pad (message : List Byte) : List Byte :=
  let n := blockSize - message.length % blockSize
  message ++ List.replicate n (UInt8.ofNat n)

/-- The padding of PKCS#7 taken off, unless it is malformed. -/
def unpad (block : List Byte) : Option (List Byte) :=
  let n := (block.getLastD 0).toNat
  if 1 ≤ n ∧ n ≤ blockSize ∧ block.drop (blockSize - n) = List.replicate n (UInt8.ofNat n) then
    some (block.take (blockSize - n))
  else none

/-- The blocks that encryption processes of `k` bytes. -/
def encryptReady (k : Nat) : Nat := k / blockSize

/-- The blocks that decryption processes of `k` bytes: a block at the very end is
held back. -/
def decryptReady (k : Nat) : Nat := (k - 1) / blockSize

/-- `EVP_CIPHER_CTX` -/
abbrev Context := BlockStream (List Byte) Byte

def init (iv : List Byte) : Context := ⟨iv, []⟩

/-- `EVP_EncryptUpdate`: every complete block is processed. -/
def encryptUpdate (c : BlockCipher) (ctx : Context) (input : List Byte) : List Byte × Context :=
  ctx.feed blockSize (encryptBlock c) encryptReady input

/-- `EVP_EncryptFinal_ex` -/
def encryptFinal (c : BlockCipher) (ctx : Context) : List Byte :=
  (encryptBlock c ctx.state (pad ctx.pending)).1

/-- `EVP_DecryptUpdate`: the last complete block is held back, since it may be the padding. -/
def decryptUpdate (c : BlockCipher) (ctx : Context) (input : List Byte) : List Byte × Context :=
  ctx.feed blockSize (decryptBlock c) decryptReady input

/-- Only a complete last block has a padding. -/
def decryptFinal (c : BlockCipher) (ctx : Context) : Option (List Byte) :=
  if ctx.pending.length = blockSize then unpad (decryptBlock c ctx.state ctx.pending).1 else none

/-- A whole message encrypted. -/
def encryptMessage (c : BlockCipher) (iv message : List Byte) : List Byte :=
  (runBlocks blockSize (encryptBlock c) (message.length / blockSize + 1) iv (pad message)).1

theorem encryptReady_rule : Rule blockSize encryptReady where
  le k := by
    simp only [encryptReady, blockSize]
    omega
  add k j := by
    simp only [encryptReady, blockSize]
    omega

theorem decryptReady_rule : Rule blockSize decryptReady where
  le k := by
    simp only [decryptReady, blockSize]
    omega
  add k j := by
    simp only [decryptReady, blockSize]
    omega

theorem pad_length (message : List Byte) :
    (pad message).length = (message.length / blockSize + 1) * blockSize := by
  simp only [pad, blockSize, List.length_append, List.length_replicate]
  omega

theorem unpad_pad {message : List Byte} (h : message.length < blockSize) :
    unpad (pad message) = some message := by
  have hmod : message.length % blockSize = message.length := Nat.mod_eq_of_lt h
  have hpos : 0 < blockSize - message.length := by omega
  have hbyte : (UInt8.ofNat (blockSize - message.length)).toNat = blockSize - message.length := by
    rw [UInt8.toNat_ofNat']
    exact Nat.mod_eq_of_lt (by simp only [blockSize]; omega)
  have hlast : (pad message).getLastD 0 = UInt8.ofNat (blockSize - message.length) := by
    obtain ⟨k, hk⟩ : ∃ k, blockSize - message.length = k + 1 := ⟨_, (Nat.succ_pred hpos.ne').symm⟩
    simp only [pad, hmod, hk, List.replicate_succ', ← List.append_assoc,
      List.getLastD_concat]
  have hkeep : blockSize - (blockSize - message.length) = message.length := by omega
  simp only [unpad, hlast, hbyte, hkeep]
  have hdrop : (pad message).drop message.length =
      List.replicate (blockSize - message.length) (UInt8.ofNat (blockSize - message.length)) := by
    simp only [pad, hmod]
    exact List.drop_left
  have htake : (pad message).take message.length = message := List.take_left
  rw [if_pos ⟨hpos, by omega, hdrop⟩, htake]

theorem xorBytes_length {a b : List Byte} (h : a.length = b.length) :
    (xorBytes a b).length = b.length := by
  simp [xorBytes, h]

theorem xorBytes_cancel {a b : List Byte} (h : a.length = b.length) :
    xorBytes (xorBytes a b) b = a := by
  induction a generalizing b with
  | nil => rfl
  | cons x a ih =>
      rcases b with _ | ⟨y, b⟩
      · cases h
      · have hbyte : x ^^^ y ^^^ y = x := by
          rw [UInt8.xor_assoc, UInt8.xor_self, UInt8.xor_zero]
        have hrest := ih (Nat.succ.inj h)
        simp only [xorBytes] at hrest
        simp only [xorBytes, List.zipWith_cons_cons, hbyte, hrest]

section Chaining

variable {c : BlockCipher} {before block iv message : List Byte}

theorem encryptBlock_length (hblock : block.length = blockSize)
    (hbefore : before.length = blockSize) :
    (encryptBlock c before block).1.length = blockSize :=
  c.encrypt_length (by rw [xorBytes_length (hblock.trans hbefore.symm), hbefore])

theorem decryptBlock_length (hblock : block.length = blockSize)
    (hbefore : before.length = blockSize) :
    (decryptBlock c before block).1.length = blockSize := by
  simp only [decryptBlock]
  rw [xorBytes_length ((c.decrypt_length hblock).trans hbefore.symm), hbefore]

theorem decryptBlock_encryptBlock (hblock : block.length = blockSize)
    (hbefore : before.length = blockSize) :
    decryptBlock c before (encryptBlock c before block).1 =
      (block, (encryptBlock c before block).2) := by
  have hlength : (xorBytes block before).length = blockSize := by
    rw [xorBytes_length (hblock.trans hbefore.symm), hbefore]
  simp only [decryptBlock, encryptBlock, c.decrypt_encrypt hlength,
    xorBytes_cancel (hblock.trans hbefore.symm)]

theorem encryptBlocks_length {n : Nat} {data : List Byte} (hdata : n * blockSize ≤ data.length)
    (hbefore : before.length = blockSize) :
    (runBlocks blockSize (encryptBlock c) n before data).1.length = n * blockSize ∧
      (runBlocks blockSize (encryptBlock c) n before data).2.length = blockSize :=
  runBlocks_length (P := fun before => before.length = blockSize)
    (fun hbefore hblock => ⟨encryptBlock_length hblock hbefore, encryptBlock_length hblock hbefore⟩)
    hdata hbefore

theorem decryptBlocks_length {n : Nat} {data : List Byte} (hdata : n * blockSize ≤ data.length)
    (hbefore : before.length = blockSize) :
    (runBlocks blockSize (decryptBlock c) n before data).1.length = n * blockSize ∧
      (runBlocks blockSize (decryptBlock c) n before data).2.length = blockSize :=
  runBlocks_length (P := fun before => before.length = blockSize)
    (fun hbefore hblock => ⟨decryptBlock_length hblock hbefore, hblock⟩) hdata hbefore

theorem decryptBlocks_encryptBlocks {n : Nat} {data : List Byte}
    (hdata : data.length = n * blockSize) (hbefore : before.length = blockSize) :
    runBlocks blockSize (decryptBlock c) n before
        (runBlocks blockSize (encryptBlock c) n before data).1 =
      (data, (runBlocks blockSize (encryptBlock c) n before data).2) := by
  induction n generalizing before data with
  | zero =>
      rw [Nat.zero_mul, List.length_eq_zero_iff] at hdata
      rw [hdata]
      rfl
  | succ n ih =>
      rw [Nat.succ_mul] at hdata
      have htake : (data.take blockSize).length = blockSize := List.length_take_of_le (by omega)
      have hblock := encryptBlock_length (c := c) htake hbefore
      have hrest := @ih (encryptBlock c before (data.take blockSize)).2 (data.drop blockSize)
        (by rw [List.length_drop]; omega) hblock
      simp only [runBlocks, List.take_left' hblock, List.drop_left' hblock,
        decryptBlock_encryptBlock htake hbefore, hrest, List.take_append_drop]

/-- The part of a message in front of its last block, which is never complete. -/
def wholeBlocks (message : List Byte) : List Byte :=
  message.take (message.length / blockSize * blockSize)

def lastBlock (message : List Byte) : List Byte :=
  message.drop (message.length / blockSize * blockSize)

theorem wholeBlocks_length (message : List Byte) :
    (wholeBlocks message).length = message.length / blockSize * blockSize :=
  List.length_take_of_le (Nat.div_mul_le_self _ _)

theorem lastBlock_length (message : List Byte) :
    (lastBlock message).length = message.length % blockSize := by
  simp only [lastBlock, List.length_drop, blockSize]
  omega

theorem wholeBlocks_append_lastBlock (message : List Byte) :
    wholeBlocks message ++ lastBlock message = message :=
  List.take_append_drop _ _

theorem lastBlock_length_lt (message : List Byte) : (lastBlock message).length < blockSize := by
  rw [lastBlock_length]
  exact Nat.mod_lt _ (by decide)

theorem pad_eq (message : List Byte) :
    pad message = wholeBlocks message ++ pad (lastBlock message) := by
  have hmod : message.length % blockSize % blockSize = message.length % blockSize :=
    Nat.mod_mod _ _
  simp only [pad, lastBlock_length, hmod]
  rw [← List.append_assoc, wholeBlocks_append_lastBlock]

theorem pad_lastBlock_length (message : List Byte) :
    (pad (lastBlock message)).length = blockSize := by
  rw [pad_length, Nat.div_eq_of_lt (lastBlock_length_lt message)]
  rfl

/-- The blocks of a message in front of the padded one, encrypted, and the state
behind them. -/
def encryptWhole (c : BlockCipher) (iv message : List Byte) : List Byte × List Byte :=
  runBlocks blockSize (encryptBlock c) (message.length / blockSize) iv (wholeBlocks message)

theorem encryptWhole_length (hiv : iv.length = blockSize) :
    (encryptWhole c iv message).1.length = message.length / blockSize * blockSize ∧
      (encryptWhole c iv message).2.length = blockSize :=
  encryptBlocks_length (wholeBlocks_length message).ge hiv

theorem encryptMessage_eq (c : BlockCipher) (iv message : List Byte) :
    encryptMessage c iv message =
      (encryptWhole c iv message).1 ++
        (encryptBlock c (encryptWhole c iv message).2 (pad (lastBlock message))).1 := by
  have hlast := pad_lastBlock_length message
  rw [encryptMessage, runBlocks_add, pad_eq,
    runBlocks_append (wholeBlocks_length message).ge, List.drop_left' (wholeBlocks_length message)]
  simp only [runBlocks, List.append_nil, List.take_of_length_le hlast.le]
  rfl

theorem encryptMessage_length (hiv : iv.length = blockSize) :
    (encryptMessage c iv message).length = (message.length / blockSize + 1) * blockSize := by
  obtain ⟨hwhole, hstate⟩ := @encryptWhole_length c iv message hiv
  rw [encryptMessage_eq, List.length_append, hwhole,
    encryptBlock_length (pad_lastBlock_length message) hstate, Nat.succ_mul]

theorem encryptFinal_eq {ctx : Context}
    (h : Fed blockSize (encryptBlock c) encryptReady iv message ctx) :
    released blockSize (encryptBlock c) encryptReady iv message ++ encryptFinal c ctx =
      encryptMessage c iv message := by
  have hwhole : runBlocks blockSize (encryptBlock c) (encryptReady message.length) iv message =
      encryptWhole c iv message := by
    have happend := @runBlocks_append _ _ _ (encryptBlock c) _ _ (wholeBlocks_length message).ge iv
      (lastBlock message)
    rwa [wholeBlocks_append_lastBlock] at happend
  rw [encryptMessage_eq, released, hwhole, encryptFinal, h.state, h.pending, hwhole]
  rfl

theorem decryptBlocks_encryptMessage (hiv : iv.length = blockSize) :
    runBlocks blockSize (decryptBlock c) (decryptReady (encryptMessage c iv message).length) iv
        (encryptMessage c iv message) =
      (wholeBlocks message, (encryptWhole c iv message).2) := by
  have hready : decryptReady (encryptMessage c iv message).length = message.length / blockSize := by
    rw [encryptMessage_length hiv]
    simp only [decryptReady, blockSize]
    omega
  rw [hready, encryptMessage_eq, runBlocks_append (encryptWhole_length hiv).1.ge]
  exact decryptBlocks_encryptBlocks (wholeBlocks_length message) hiv

theorem released_encryptMessage (hiv : iv.length = blockSize) :
    released blockSize (decryptBlock c) decryptReady iv (encryptMessage c iv message) =
      wholeBlocks message := by
  rw [released, decryptBlocks_encryptMessage hiv]

theorem decryptFinal_encryptMessage (hiv : iv.length = blockSize) {ctx : Context}
    (h : Fed blockSize (decryptBlock c) decryptReady iv (encryptMessage c iv message) ctx) :
    decryptFinal c ctx = some (lastBlock message) := by
  obtain ⟨hwhole, hstate⟩ := @encryptWhole_length c iv message hiv
  have hpending : ctx.pending =
      (encryptBlock c (encryptWhole c iv message).2 (pad (lastBlock message))).1 := by
    have hready : decryptReady (encryptMessage c iv message).length * blockSize =
        message.length / blockSize * blockSize := by
      rw [encryptMessage_length hiv]
      simp only [decryptReady, blockSize]
      omega
    rw [h.pending, hready, encryptMessage_eq, List.drop_left' hwhole]
  have hblock := pad_lastBlock_length message
  rw [decryptFinal, h.state, decryptBlocks_encryptMessage hiv, hpending,
    if_pos (encryptBlock_length hblock hstate), decryptBlock_encryptBlock hblock hstate]
  exact unpad_pad (lastBlock_length_lt message)

end Chaining

end Memcr.CipherBlocks

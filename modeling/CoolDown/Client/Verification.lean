import CoolDown.Library.Slice
import CoolDown.Library.Tiling
import CoolDown.Public.ErrorCode

/-!
# Checksums

`Verification` computes every checksum of the client with one SHA1 engine shared by
all threads under a mutex. `sha1` stands for the digest, written in hexadecimal, of
a byte string; nothing is assumed of it. The engine is the bytes fed to it since it
was last reset, and is passed from call to call.

`getFileChecksumList` is the loop over the mapped file: a checksum for each piece of
`chunk_size` bytes while more than that is left, and one for the rest. What it
appends are the checksums of the pieces of `Library.cut`
(`getFileChecksumList_eq`), whatever the engine held before.
-/

namespace CoolDown

open Library

/-- A regular file on the disk: whether it can be read, and its bytes. Its size is a
`Poco::Int64`. -/
structure RegularFile where
  canRead : Bool
  content : Bytes
  length_lt : content.length < 2 ^ 63

/-- `File::getSize`. -/
def RegularFile.getSize (f : RegularFile) : Int64 := Int64.ofNat f.content.length

theorem RegularFile.toInt_getSize (f : RegularFile) : f.getSize.toInt = f.content.length :=
  Int64.toInt_ofNat_of_lt f.length_lt

/-- `SharedMemory sm(file, AM_READ)`: opening a file that cannot be read throws, and
so does mapping an empty one. -/
def RegularFile.sharedMemory (f : RegularFile) : Except Exception Bytes :=
  if f.canRead ∧ f.content ≠ [] then .ok f.content else .error .file

namespace Verification

/-- `engine_`: the bytes fed to it since it was last reset. -/
structure SHA1Engine where
  fed : Bytes
  deriving DecidableEq

/-- `engine_.reset()`. -/
def SHA1Engine.reset (_ : SHA1Engine) : SHA1Engine := ⟨[]⟩

/-- `engine_.update(begin, length)`. -/
def SHA1Engine.update (e : SHA1Engine) (bs : Bytes) : SHA1Engine := ⟨e.fed ++ bs⟩

variable (sha1 : Bytes → String)

/-- `DigestEngine::digestToHex(engine_.digest())`, which resets the engine. -/
def SHA1Engine.digest (e : SHA1Engine) : String × SHA1Engine := (sha1 e.fed, e.reset)

/-- `get_verification_code_without_lock(begin, end)`, for two pointers into `mem`. -/
def getVerificationCodeWithoutLock (mem : Bytes) (start stop : ℕ) (e : SHA1Engine) :
    Except Exception (String × SHA1Engine) :=
  if start ≤ stop then .ok ((e.reset.update (slice mem start (stop - start))).digest sha1) else .error .assertion

/-- `get_verification_code(content)`. -/
def getVerificationCode (content : Bytes) (e : SHA1Engine) : Except Exception (String × SHA1Engine) :=
  getVerificationCodeWithoutLock sha1 content 0 content.length e

/-- `get_file_verification_code`. The engine is not reset first. -/
def getFileVerificationCode (f : RegularFile) (e : SHA1Engine) : Except Exception (String × SHA1Engine) := do
  let sm ← f.sharedMemory
  return (e.update sm).digest sha1

/-- The loop of `get_file_checksum_list`, from the pointer `start` into the mapped file. -/
def checksumLoop (sm : Bytes) (chunkSize start : ℕ) (pList : List String) (e : SHA1Engine) :
    Except Exception (List String × SHA1Engine) :=
  if 0 < chunkSize ∧ start + chunkSize < sm.length then do
    let (code, e) ← getVerificationCodeWithoutLock sha1 sm start (start + chunkSize) e
    checksumLoop sm chunkSize (start + chunkSize) (pList ++ [code]) e
  else do
    let (code, e) ← getVerificationCodeWithoutLock sha1 sm start sm.length e
    return (pList ++ [code], e)
termination_by sm.length - start

/-- `get_file_checksum_list`. -/
def getFileChecksumList (f : RegularFile) (chunkSize : Int32) (pList : List String) (e : SHA1Engine) :
    Except Exception (List String × SHA1Engine) :=
  if 0 < chunkSize then do
    let sm ← f.sharedMemory
    checksumLoop sha1 sm chunkSize.toInt.toNat 0 pList e
  else .error .assertion

/-- The checksum of the bytes of `mem` in `[r.1, r.2)`. -/
def rangeChecksum (mem : Bytes) (r : ℕ × ℕ) : String := sha1 (slice mem r.1 (r.2 - r.1))

/-- The digest is that of the range alone, whatever was hashed before. -/
theorem getVerificationCodeWithoutLock_eq {mem : Bytes} {start stop : ℕ} (h : start ≤ stop) (e : SHA1Engine) :
    getVerificationCodeWithoutLock sha1 mem start stop e = .ok (rangeChecksum sha1 mem (start, stop), ⟨[]⟩) := by
  simp [getVerificationCodeWithoutLock, h, SHA1Engine.reset, SHA1Engine.update, SHA1Engine.digest, rangeChecksum]

theorem getVerificationCode_eq (content : Bytes) (e : SHA1Engine) :
    getVerificationCode sha1 content e = .ok (sha1 content, ⟨[]⟩) := by
  rw [getVerificationCode, getVerificationCodeWithoutLock_eq sha1 (Nat.zero_le _)]
  simp [rangeChecksum, slice]

/-- The pieces whose checksums `get_file_checksum_list` appends, as pairs of pointers. -/
def pieces (f : RegularFile) (chunkSize : Int32) : List (ℕ × ℕ) := cut chunkSize.toInt.toNat 0 f.content.length

/-- The loop appends the checksum of each piece, in order. -/
theorem checksumLoop_eq (sm : Bytes) (chunkSize start : ℕ) (pList : List String) (e : SHA1Engine)
    (h : start ≤ sm.length) :
    checksumLoop sha1 sm chunkSize start pList e =
      .ok (pList ++ (cut chunkSize start sm.length).map (rangeChecksum sha1 sm), ⟨[]⟩) := by
  induction hn : sm.length - start using Nat.strong_induction_on generalizing start pList e with
  | _ n ih =>
    rw [checksumLoop, cut]
    by_cases hlt : 0 < chunkSize ∧ start + chunkSize < sm.length
    · rw [if_pos hlt, if_pos hlt, getVerificationCodeWithoutLock_eq sha1 (by omega)]
      have := ih (sm.length - (start + chunkSize)) (by omega) (start + chunkSize)
        (pList ++ [rangeChecksum sha1 sm (start, start + chunkSize)]) ⟨[]⟩ (by omega) rfl
      rw [List.append_assoc] at this
      exact this
    · rw [if_neg hlt, if_neg hlt, getVerificationCodeWithoutLock_eq sha1 h]
      rfl

/-- **What `get_file_checksum_list` appends**: the checksums of the pieces. -/
theorem getFileChecksumList_eq {f : RegularFile} {chunkSize : Int32} (hs : 0 < chunkSize) (hr : f.canRead)
    (hc : f.content ≠ []) (pList : List String) (e : SHA1Engine) :
    getFileChecksumList sha1 f chunkSize pList e =
      .ok (pList ++ (pieces f chunkSize).map (rangeChecksum sha1 f.content), ⟨[]⟩) := by
  rw [getFileChecksumList, if_pos hs, RegularFile.sharedMemory, if_pos ⟨hr, hc⟩]
  exact checksumLoop_eq sha1 f.content _ 0 pList e (Nat.zero_le _)

end Verification

end CoolDown

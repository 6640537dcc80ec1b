import CoolDown.Client.Verification

/-!
# What is hashed: `Verification`

One engine serves all. `get_verification_code_without_lock` resets it before it is fed, `get_file_verification_code`
does not, and relies on everybody else leaving it empty. `get_file_checksum_list` cuts the file as long as strictly more
than a chunk is left, and has one more checksum for the rest.

## The model

A call has the mutex from its beginning to its end, so that the calls of all threads come one after another. What throws
(mapping the file, the assertions) throws before the engine is touched.

## What is proved

* `getFileChecksumList_chunks`: one checksum for each chunk, of just the bytes that are in it.
* `run_eq`: a call that finds the engine empty leaves it empty, and answers what its own input says.
* `runAll_eq`: so does every call, in any order.
-/

namespace CoolDown

open Library

namespace Verification

variable (sha1 : Bytes → String)

/-! ### The chunks of a file -/

/-- The bytes of chunk `k`. -/
def chunkBytes (content : Bytes) (chunkSize k : ℕ) : Bytes :=
  slice content (k * chunkSize) (min ((k + 1) * chunkSize) content.length - k * chunkSize)

/-- A checksum for each chunk, in order, of just the bytes in it. The chunks are as many as the size over `chunk_size`,
rounded up, none is empty, each begins where the one before ends, and each byte is in one of them. -/
structure ChunkChecksums (content : Bytes) (chunkSize : ℕ) (codes : List String) : Prop where
  count : codes.length = content.length ⌈/⌉ chunkSize
  digest : ∀ k < codes.length, codes[k]? = some (sha1 (chunkBytes content chunkSize k))
  pos : ∀ k < codes.length, k * chunkSize < min ((k + 1) * chunkSize) content.length
  adjacent : ∀ k, k + 1 < codes.length → min ((k + 1) * chunkSize) content.length = (k + 1) * chunkSize
  cover : ∀ i < content.length,
    ∃! k, k < codes.length ∧ k * chunkSize ≤ i ∧ i < min ((k + 1) * chunkSize) content.length

variable {sha1}

theorem pieces_eq_map_pieceAt {f : RegularFile} {chunkSize : Int32} (hs : 0 < chunkSize) (hc : f.content ≠ []) :
    pieces f chunkSize = (List.range (f.content.length ⌈/⌉ chunkSize.toInt.toNat)).map
      (pieceAt chunkSize.toInt.toNat f.content.length) := by
  have hpos : 0 < chunkSize.toInt := Int32.lt_iff_toInt_lt.mp hs
  exact cut_eq_map_pieceAt (by omega) (List.length_pos_iff.mpr hc)

/-- **The checksum list.** For a file that can be mapped, each of its chunks gets its checksum, behind those that were
in the list before and whatever the engine held. -/
theorem getFileChecksumList_chunks {f : RegularFile} {chunkSize : Int32} (hs : 0 < chunkSize) (hread : f.canRead)
    (hn : 1 ≤ f.content.length) (pList : List String) (e : SHA1Engine) :
    ∃ codes, getFileChecksumList sha1 f chunkSize pList e = .ok (pList ++ codes, ⟨[]⟩) ∧
      ChunkChecksums sha1 f.content chunkSize.toInt.toNat codes := by
  have hc : f.content ≠ [] := List.length_pos_iff.mp hn
  have hpos : 0 < chunkSize.toInt.toNat := by
    have := Int32.lt_iff_toInt_lt.mp hs
    rw [Int32.toInt_zero] at this
    omega
  have hlength : ((pieces f chunkSize).map (rangeChecksum sha1 f.content)).length =
      f.content.length ⌈/⌉ chunkSize.toInt.toNat := by
    rw [pieces_eq_map_pieceAt hs hc, List.length_map, List.length_map, List.length_range]
  refine ⟨_, getFileChecksumList_eq sha1 hs hread hc pList e, hlength, ?_, ?_, ?_, ?_⟩
  · intro k hk
    rw [hlength] at hk
    rw [pieces_eq_map_pieceAt hs hc, List.map_map, List.getElem?_map, List.getElem?_range hk]
    rfl
  · intro k hk
    exact pieceAt_pos hpos (hlength ▸ hk)
  · intro k hk
    exact pieceAt_succ hpos (hlength ▸ hk)
  · intro i hi
    rw [hlength]
    exact existsUnique_pieceAt hpos hi

/-- Five bytes in chunks of two. -/
theorem getFileChecksumList_chunks_five_bytes :
    ∃ codes, getFileChecksumList (fun bs => toString bs.length) ⟨true, [1, 2, 3, 4, 5], by decide⟩ 2 ["before"] ⟨[9]⟩ =
        .ok (["before"] ++ codes, ⟨[]⟩) ∧
      ChunkChecksums (fun bs => toString bs.length) [1, 2, 3, 4, 5] 2 codes :=
  getFileChecksumList_chunks (by decide) rfl (by decide) ["before"] ⟨[9]⟩

/-! ### All calls -/

variable (sha1)

/-- `veritify(begin, end, vc)`, for two pointers into `mem`. -/
def veritify (mem : Bytes) (start stop : ℕ) (vc : String) (e : SHA1Engine) : Except Exception (Bool × SHA1Engine) := do
  let (code, e) ← getVerificationCodeWithoutLock sha1 mem start stop e
  return (decide (vc = code), e)

/-- `veritify(source, vc)`. -/
def veritifySource (source : Bytes) (vc : String) (e : SHA1Engine) : Except Exception (Bool × SHA1Engine) :=
  veritify sha1 source 0 source.length vc e

/-- A call of one of the public functions. -/
inductive Call where
  /-- `get_file_verification_code(fullpath)`, where that is the file. -/
  | fileVerificationCode (f : RegularFile)
  /-- `get_file_checksum_list(file, chunk_size, pList)`. -/
  | fileChecksumList (f : RegularFile) (chunkSize : Int32) (pList : List String)
  /-- `get_verification_code(begin, end)`. -/
  | verificationCode (mem : Bytes) (start stop : ℕ)
  /-- `get_verification_code(content)`. -/
  | verificationCodeOf (content : Bytes)
  /-- `veritify(begin, end, vc)`. -/
  | veritify (mem : Bytes) (start stop : ℕ) (vc : String)
  /-- `veritify(source, vc)`. -/
  | veritifySource (source : Bytes) (vc : String)

/-- What a call comes to: a digest, the list of digests, or whether a digest is the one expected. -/
inductive Answer where
  | code (vc : String)
  | codes (pList : List String)
  | same (b : Bool)
  deriving DecidableEq

/-- The answer, and the engine that is left: where a call throws, it has not touched it. -/
def settle {α : Type} (e : SHA1Engine) (answer : α → Answer) :
    Except Exception (α × SHA1Engine) → Except Exception Answer × SHA1Engine
  | .error x => (.error x, e)
  | .ok (a, e') => (.ok (answer a), e')

/-- A call, from taking the mutex to giving it back. -/
def run (e : SHA1Engine) : Call → Except Exception Answer × SHA1Engine
  | .fileVerificationCode f => settle e .code (getFileVerificationCode sha1 f e)
  | .fileChecksumList f chunkSize pList => settle e .codes (getFileChecksumList sha1 f chunkSize pList e)
  | .verificationCode mem start stop => settle e .code (getVerificationCodeWithoutLock sha1 mem start stop e)
  | .verificationCodeOf content => settle e .code (getVerificationCode sha1 content e)
  | .veritify mem start stop vc => settle e .same (veritify sha1 mem start stop vc e)
  | .veritifySource source vc => settle e .same (veritifySource sha1 source vc e)

/-- The calls of all threads, in the order in which they get the mutex. -/
def runAll (e : SHA1Engine) : List Call → List (Except Exception Answer) × SHA1Engine
  | [] => ([], e)
  | c :: cs =>
    let (answer, e) := run sha1 e c
    let (answers, e) := runAll e cs
    (answer :: answers, e)

/-- What the input of a call says by itself: each digest is that of the bytes given, or of those of a chunk. -/
def answerOf : Call → Except Exception Answer
  | .fileVerificationCode f => f.sharedMemory.map fun sm => .code (sha1 sm)
  | .fileChecksumList f chunkSize pList =>
    if 0 < chunkSize then f.sharedMemory.map fun sm =>
      .codes (pList ++ (List.range (sm.length ⌈/⌉ chunkSize.toInt.toNat)).map fun k =>
        sha1 (chunkBytes sm chunkSize.toInt.toNat k))
    else .error .assertion
  | .verificationCode mem start stop =>
    if start ≤ stop then .ok (.code (sha1 (slice mem start (stop - start)))) else .error .assertion
  | .verificationCodeOf content => .ok (.code (sha1 content))
  | .veritify mem start stop vc =>
    if start ≤ stop then .ok (.same (decide (vc = sha1 (slice mem start (stop - start))))) else .error .assertion
  | .veritifySource source vc => .ok (.same (decide (vc = sha1 source)))

/-- What throws is the assertion, before the engine is reset. -/
theorem getVerificationCodeWithoutLock_eq_ite (mem : Bytes) (start stop : ℕ) (e : SHA1Engine) :
    getVerificationCodeWithoutLock sha1 mem start stop e =
      if start ≤ stop then .ok (sha1 (slice mem start (stop - start)), ⟨[]⟩) else .error .assertion := by
  split_ifs with h
  · exact getVerificationCodeWithoutLock_eq sha1 h e
  · exact if_neg h

/-- What throws is the assertion, or the mapping: the loop goes through. -/
theorem getFileChecksumList_eq_ite (f : RegularFile) (chunkSize : Int32) (pList : List String) (e : SHA1Engine) :
    getFileChecksumList sha1 f chunkSize pList e =
      if 0 < chunkSize then f.sharedMemory.map fun sm =>
        (pList ++ (List.range (sm.length ⌈/⌉ chunkSize.toInt.toNat)).map fun k =>
          sha1 (chunkBytes sm chunkSize.toInt.toNat k), ⟨[]⟩)
      else .error .assertion := by
  split_ifs with hs
  · by_cases hmapped : f.canRead ∧ f.content ≠ []
    · have hsm : f.sharedMemory = .ok f.content := if_pos hmapped
      rw [hsm, getFileChecksumList_eq sha1 hs hmapped.1 hmapped.2, pieces_eq_map_pieceAt hs hmapped.2, List.map_map]
      rfl
    · have hsm : f.sharedMemory = .error .file := if_neg hmapped
      rw [getFileChecksumList, if_pos hs, hsm]
      rfl
  · exact if_neg hs

/-- **One call**: with an empty engine it answers what its input says, and leaves the engine empty. -/
theorem run_eq (c : Call) : run sha1 ⟨[]⟩ c = (answerOf sha1 c, ⟨[]⟩) := by
  cases c with
  | fileVerificationCode f =>
    rw [run, answerOf, getFileVerificationCode]
    cases f.sharedMemory <;> rfl
  | fileChecksumList f chunkSize pList =>
    rw [run, answerOf, getFileChecksumList_eq_ite]
    split_ifs
    · cases f.sharedMemory <;> rfl
    · rfl
  | verificationCode mem start stop =>
    rw [run, answerOf, getVerificationCodeWithoutLock_eq_ite]
    split_ifs <;> rfl
  | verificationCodeOf content =>
    rw [run, answerOf, getVerificationCode_eq]
    rfl
  | veritify mem start stop vc =>
    rw [run, answerOf, veritify, getVerificationCodeWithoutLock_eq_ite]
    split_ifs <;> rfl
  | veritifySource source vc =>
    rw [run, answerOf, veritifySource, veritify, getVerificationCodeWithoutLock_eq_ite, if_pos (Nat.zero_le _)]
    simp only [slice, Nat.sub_zero, List.drop_zero, List.take_length]
    rfl

/-- **Digests are independent.** Whatever is called in whatever order, each digest is that of the bytes of its own call,
and the engine is empty at the end. -/
theorem runAll_eq (cs : List Call) : runAll sha1 ⟨[]⟩ cs = (cs.map (answerOf sha1), ⟨[]⟩) := by
  induction cs with
  | nil => rfl
  | cons c cs ih =>
    rw [runAll, run_eq, List.map_cons]
    simp only [ih]

end Verification

end CoolDown

import CoolDown.Client.JobComplete
import CoolDown.Client.Main
import CoolDown.Client.PublishedPaths

/-!
# From one disk to another

One client publishes a directory: `main` makes the torrent file. Another has got the torrent file, and
`main` adds a download job and starts it. What the second has in the end is what the first had, however
its peers behave, so far as digests tell files apart.

## The model

The published tree is that of `MakeTorrent`, the downloading client is the `CoolClient` of its `main`,
and its job takes any steps. A file of the first client is at the names that lead to it from the
root, and at the same names below `/tmp/` with the second.

Where a file is published under two names, the second one is a copy, and it is asked that none is made
in a directory. `SameDigests` is what is certain: the length, and the digests of the pieces. `Determined` says that
there are no other bytes with these digests, as one expects of SHA1; then the contents are the same.

## What is proved

* `makeTorrent_recordedAt`: what is recorded of the files, all of them and nothing else.
* `downloaded_as_published`: what has been downloaded is what was published.
-/

namespace CoolDown

open Library Verification CoolClient

variable {sha1 : Bytes → String} {chunkSize : Int32}

/-! ### What `MakeTorrent` records -/

/-- What is recorded of a file that the root reaches. -/
structure RecordedAt (sha1 : Bytes → String) (chunkSize : Int32) (path : Path) (r : List String × RegularFile)
    (file : Torrent.File) : Prop where
  recorded : Recorded sha1 chunkSize r.2 file
  checkSum : file.checkSum = sha1 r.2.content
  canRead : r.2.canRead
  ne_nil : r.2.content ≠ []
  pos : 0 < chunkSize
  path : JobInfo.localPath path.parent file = path.below r.1

/-- A file that is recorded can be mapped, and its digest is that of its bytes, as nothing is left in the engine. -/
theorem makeTorrentFile_whole {topPath : String} {f : FoundFile} {file : Torrent.File} {e' : SHA1Engine}
    (h : makeTorrentFile sha1 topPath chunkSize f ⟨[]⟩ = .ok (file, e')) :
    Recorded sha1 chunkSize f.file file ∧ file.checkSum = sha1 f.file.content ∧ f.file.canRead ∧ f.file.content ≠ [] ∧
      0 < chunkSize ∧ e' = ⟨[]⟩ := by
  have hmade := h
  unfold makeTorrentFile at h
  obtain ⟨⟨code, e₁⟩, hcode, h⟩ := except_bind_eq_ok.mp h
  obtain ⟨⟨checksums, e₂⟩, hchecksums, h⟩ := except_bind_eq_ok.mp h
  obtain ⟨rfl, rfl⟩ := Prod.mk.inj (Except.ok.inj h)
  obtain ⟨sm, hsm, hdigest⟩ := except_bind_eq_ok.mp hcode
  obtain ⟨hread, hne⟩ : f.file.canRead = true ∧ f.file.content ≠ [] := by
    unfold RegularFile.sharedMemory at hsm
    split_ifs at hsm with hcond
    exact hcond
  have hpos : 0 < chunkSize := by
    unfold getFileChecksumList at hchecksums
    split_ifs at hchecksums with hpos
    exact hpos
  obtain rfl : f.file.content = sm := by
    rw [RegularFile.sharedMemory, if_pos ⟨hread, hne⟩] at hsm
    exact Except.ok.inj hsm
  obtain ⟨rfl, rfl⟩ := Prod.mk.inj (Except.ok.inj hdigest)
  obtain ⟨file', e'', hfile', hrecorded⟩ := @makeTorrentFile_recorded sha1 _ hpos _ hread hne topPath ⟨[]⟩
  obtain ⟨rfl, -⟩ := Prod.mk.inj (Except.ok.inj (hmade.symm.trans hfile'))
  rw [getFileChecksumList_eq sha1 hpos hread hne] at hchecksums
  obtain ⟨-, rfl⟩ := Prod.mk.inj (Except.ok.inj hchecksums)
  exact ⟨hrecorded, rfl, hread, hne, hpos, rfl⟩

theorem makeTorrentFiles_whole {topPath : String} {found : List FoundFile} {files : List Torrent.File} {e' : SHA1Engine}
    (h : makeTorrentFiles sha1 topPath chunkSize found ⟨[]⟩ = .ok (files, e')) :
    List.Forall₂ (fun f file => Recorded sha1 chunkSize f.file file ∧ file.checkSum = sha1 f.file.content ∧
      f.file.canRead ∧ f.file.content ≠ [] ∧ 0 < chunkSize) found files := by
  induction found generalizing files e' with
  | nil =>
    obtain ⟨rfl, -⟩ := Prod.mk.inj (Except.ok.inj h)
    exact .nil
  | cons f found ih =>
    obtain ⟨⟨file, e₁⟩, hfile, h⟩ := except_bind_eq_ok.mp h
    obtain ⟨⟨files, e₂⟩, hfiles, h⟩ := except_bind_eq_ok.mp h
    obtain ⟨rfl, -⟩ := Prod.mk.inj (Except.ok.inj h)
    obtain ⟨hrecorded, hsum, hread, hne, hpos, rfl⟩ := makeTorrentFile_whole hfile
    exact .cons ⟨hrecorded, hsum, hread, hne, hpos⟩ (ih hfiles)

section Published

variable {made : MakeTorrentEnv} {path : Path} {node : Node} {type : Int32} {trackerAddress : String} {e' : SHA1Engine}
  {torrent : Torrent}

/-- **What `MakeTorrent` records**: the files that the root reaches, one for one. -/
theorem makeTorrent_recordedAt
    (h : makeTorrent sha1 made path (some node) chunkSize type trackerAddress ⟨[]⟩ = .ok ((.errorOk, some torrent), e')) :
    List.Forall₂ (RecordedAt sha1 chunkSize path) node.reachable torrent.file := by
  have hpaths := makeTorrent_ok h
  unfold makeTorrent at h
  obtain ⟨found, hfound, h⟩ := except_bind_eq_ok.mp h
  obtain ⟨⟨files, e₁⟩, hfiles, h⟩ := except_bind_eq_ok.mp h
  obtain ⟨⟨torrentId, e₂⟩, -, h⟩ := except_bind_eq_ok.mp h
  have hall := makeTorrentFiles_whole hfiles
  have hread : ∀ f ∈ found, f.file.canRead := by
    intro f hf
    obtain ⟨i, hi, rfl⟩ := List.getElem_of_mem hf
    exact (hall.get hi (hall.length_eq ▸ hi)).2.2.1
  obtain rfl : torrent.file = files := by
    cases hcreate : made.canCreate with
    | false =>
      rw [hcreate] at h
      cases h
    | true =>
      cases hwrite : made.canWrite with
      | false =>
        rw [hcreate, hwrite] at h
        cases h
      | true =>
        rw [hcreate, hwrite] at h
        cases h
        rfl
  rw [foundFiles_eq hfound hread, List.forall₂_map_left_iff] at hall
  refine List.forall₂_iff_get.mpr ⟨hall.length_eq, fun i hi hi' => ?_⟩
  obtain ⟨hrecorded, hsum, hread, hne, hpos⟩ := hall.get hi hi'
  exact ⟨hrecorded, hsum, hread, hne, hpos, (hpaths.get hi hi').2⟩

/-- Files of the same bytes have the same chunks. -/
theorem RecordedAt.chunk_eq {r r' : List String × RegularFile} {file file' : Torrent.File}
    (h : RecordedAt sha1 chunkSize path r file) (h' : RecordedAt sha1 chunkSize path r' file')
    (hcontent : r.2.content = r'.2.content) : file.chunk = file'.chunk := by
  rw [h.recorded.chunk_eq, h'.recorded.chunk_eq, RegularFile.getSize, RegularFile.getSize, pieces, pieces, hcontent]

/-! ### What digests say of a content -/

/-- The content has the length of the file, and its pieces the digests that they have in the file. -/
structure SameDigests (sha1 : Bytes → String) (chunkSize : Int32) (f : RegularFile) (content : Bytes) : Prop where
  length : content.length = f.content.length
  digests : ∀ r ∈ pieces f chunkSize, rangeChecksum sha1 content r = rangeChecksum sha1 f.content r

/-- The pieces of the file are the only bytes of their lengths that have their digests. -/
def Determined (sha1 : Bytes → String) (chunkSize : Int32) (f : RegularFile) : Prop :=
  ∀ r ∈ pieces f chunkSize, ∀ bs : Bytes, bs.length = r.2 - r.1 → sha1 bs = rangeChecksum sha1 f.content r →
    bs = slice f.content r.1 (r.2 - r.1)

theorem SameDigests.eq {f : RegularFile} {content : Bytes} (h : SameDigests sha1 chunkSize f content)
    (hdetermined : Determined sha1 chunkSize f) : content = f.content := by
  suffices content.drop 0 = f.content.drop 0 from this
  refine drop_eq_of_forall_cut (s := chunkSize.toInt.toNat) h.length fun r hr => ?_
  rw [h.length] at hr
  obtain ⟨-, hle, hstop⟩ := bounds_of_mem_cut (Nat.zero_le _) hr
  refine hdetermined r hr _ ?_ (h.digests r hr)
  rw [slice, List.length_take, List.length_drop, h.length]
  omega

/-- A content whose chunks match the torrent has the digests of the file that was recorded. -/
theorem RecordedAt.sameDigests {r : List String × RegularFile} {file : Torrent.File} {content : Bytes}
    (h : RecordedAt sha1 chunkSize path r file) (hsize : ¬chunkSize.toInt ∣ r.2.content.length)
    (hlength : (content.length : ℤ) = file.size.toInt) (hmatches : Job.Matches sha1 file content) :
    SameDigests sha1 chunkSize r.2 content := by
  have htiles := h.recorded.tiles h.pos h.canRead h.ne_nil hsize
  refine ⟨Int.natCast_inj.mp (hlength.trans htiles.total), fun piece hpiece => ?_⟩
  obtain ⟨c, hc, rfl⟩ := List.getElem_of_mem hpiece
  have hget := List.getElem?_eq_getElem hc
  have hsum := hmatches c (htiles.count ▸ hc)
  rwa [htiles.offset c _ hget, htiles.size c _ hget, htiles.checksum c _ hget, Int.toNat_natCast] at hsum

/-! ### From publication to download -/

variable {env : Surroundings} {pool : Except Exception Unit} {torrentPath : String} {s s' : CoolClient} {disk disk' : Disk}
  {handle : ℕ} {info : JobInfo} {m : LocalSockManager} {as : List Job.Action} {j : Job}

/-- The names lead to the same relative place on both sides. -/
theorem RecordedAt.rel_eq {r : List String × RegularFile} {file : Torrent.File} (h : RecordedAt sha1 chunkSize path r file)
    {rel : String} : path.parent ++ rel = path.below r.1 ↔ rel = file.relativePath ++ file.filename := by
  rw [← h.path, JobInfo.localPath, String.append_assoc]
  simp

/-- The torrent records a tree, in which no size is a multiple of the size of a chunk, and no two contents have one
digest. -/
structure Recording (sha1 : Bytes → String) (chunkSize : Int32) (path : Path) (node : Node) (torrent : Torrent) : Prop where
  wellFormed : node.WellFormed
  recorded : List.Forall₂ (RecordedAt sha1 chunkSize path) node.reachable torrent.file
  sizes : ∀ names f, node.Reaches names f → ¬chunkSize.toInt ∣ f.content.length
  distinct : ∀ names f names' f', node.Reaches names f → node.Reaches names' f' → sha1 f.content = sha1 f'.content →
    f.content = f'.content

namespace Recording

variable (h : Recording sha1 chunkSize path node torrent)
include h

/-- A file that is recorded is one that the root reaches, and each of these is recorded. -/
theorem exists_reaches {file : Torrent.File} (hfile : file ∈ torrent.file) :
    ∃ names f, node.Reaches names f ∧ RecordedAt sha1 chunkSize path (names, f) file := by
  obtain ⟨i, hi, rfl⟩ := List.getElem_of_mem hfile
  have hi' : i < node.reachable.length := h.recorded.length_eq ▸ hi
  exact ⟨_, _, (Node.mem_reachable_iff h.wellFormed).mp (List.getElem_mem hi'), h.recorded.get hi' hi⟩

theorem exists_recordedAt {names : List String} {f : RegularFile} (hreach : node.Reaches names f) :
    ∃ file ∈ torrent.file, RecordedAt sha1 chunkSize path (names, f) file := by
  obtain ⟨i, hi, hget⟩ := List.getElem_of_mem ((Node.mem_reachable_iff h.wellFormed).mpr hreach)
  have hi' : i < torrent.file.length := h.recorded.length_eq ▸ hi
  exact ⟨_, List.getElem_mem hi', hget ▸ h.recorded.get hi hi'⟩

theorem tiled (file : Torrent.File) (hfile : file ∈ torrent.file) : file.UniformlyTiled := by
  obtain ⟨names, f, hreach, hat⟩ := h.exists_reaches hfile
  exact hat.recorded.uniformlyTiled hat.pos hat.ne_nil (h.sizes names f hreach)

/-- Files of one digest have the same chunks. -/
theorem chunk_eq (file : Torrent.File) (hfile : file ∈ torrent.file) (file' : Torrent.File) (hfile' : file' ∈ torrent.file)
    (hsum : file.checkSum = file'.checkSum) : file.chunk = file'.chunk := by
  obtain ⟨names, f, hreach, hat⟩ := h.exists_reaches hfile
  obtain ⟨names', f', hreach', hat'⟩ := h.exists_reaches hfile'
  rw [hat.checkSum, hat'.checkSum] at hsum
  exact hat.chunk_eq hat' (h.distinct _ _ _ _ hreach hreach' hsum)

/-- Below any directory the files of the torrent have paths of their own. -/
theorem nodup_localPath (topPath : String) :
    ((JobInfo.neededFiles torrent (allFiles torrent)).map (JobInfo.localPath topPath)).Nodup := by
  rw [neededFiles_allFiles, List.nodup_iff_pairwise_ne, List.pairwise_map, List.pairwise_iff_getElem]
  intro i j hi hj hij heq
  have hi' : i < node.reachable.length := h.recorded.length_eq ▸ hi
  have hj' : j < node.reachable.length := h.recorded.length_eq ▸ hj
  -- the paths are the same below the published one too, and so are the names
  have hrel : torrent.file[i].relativePath ++ torrent.file[i].filename =
      torrent.file[j].relativePath ++ torrent.file[j].filename := by
    simp only [JobInfo.localPath, String.append_assoc] at heq
    simpa using heq
  have hlocal : JobInfo.localPath path.parent torrent.file[i] = JobInfo.localPath path.parent torrent.file[j] := by
    simp only [JobInfo.localPath, String.append_assoc, hrel]
  have hbelow : path.below node.reachable[i].1 = path.below node.reachable[j].1 :=
    (h.recorded.get hi' hi).path.symm.trans (hlocal.trans (h.recorded.get hj' hj).path)
  have hnames := path.below_inj (Node.isName_of_mem_reachable h.wellFormed (List.getElem_mem hi'))
    (Node.isName_of_mem_reachable h.wellFormed (List.getElem_mem hj')) hbelow
  have hpairs := List.pairwise_iff_getElem.mp
    (List.pairwise_map.mp (List.nodup_iff_pairwise_ne.mp (Node.nodup_reachable h.wellFormed)))
  exact hpairs i j hi' hj' hij hnames

/-- What is below the directory has the sizes of the torrent, if it has those of the tree. -/
theorem length_localPath {topPath : String} (hthere : ∀ names f rel content, node.Reaches names f →
      path.parent ++ rel = path.below names → disk.find? (topPath ++ rel) = some content → content.length = f.content.length)
    (file : Torrent.File) (hfile : file ∈ JobInfo.neededFiles torrent (allFiles torrent)) (content : Bytes)
    (hcontent : disk.find? (JobInfo.localPath topPath file) = some content) : (content.length : ℤ) = file.size.toInt := by
  rw [neededFiles_allFiles] at hfile
  obtain ⟨names, f, hreach, hat⟩ := h.exists_reaches hfile
  rw [JobInfo.localPath, String.append_assoc] at hcontent
  rw [hthere _ _ _ _ hreach (hat.rel_eq.mpr rfl) hcontent, hat.recorded.size_eq, RegularFile.toInt_getSize]

/-- What is as published below the directory matches the torrent. -/
theorem matches_localPath {topPath : String} (hthere : ∀ names f rel, node.Reaches names f →
      path.parent ++ rel = path.below names → disk.find? (topPath ++ rel) = some f.content)
    (file : Torrent.File) (hfile : file ∈ JobInfo.neededFiles torrent (allFiles torrent)) :
    ∃ content, disk.find? (JobInfo.localPath topPath file) = some content ∧ (content.length : ℤ) = file.size.toInt ∧
      Job.Matches sha1 file content := by
  rw [neededFiles_allFiles] at hfile
  obtain ⟨names, f, hreach, hat⟩ := h.exists_reaches hfile
  have htiles := hat.recorded.tiles hat.pos hat.canRead hat.ne_nil (h.sizes names f hreach)
  refine ⟨f.content, ?_, htiles.total.symm, fun c hc => ?_⟩
  · rw [JobInfo.localPath, String.append_assoc]
    exact hthere _ _ _ hreach (hat.rel_eq.mpr rfl)
  · have hget := List.getElem?_eq_getElem (htiles.count ▸ hc)
    rw [htiles.offset c _ hget, htiles.size c _ hget, htiles.checksum c _ hget, Int.toNat_natCast, rangeChecksum]

/-- **What a job for the torrent leaves.** -/
theorem downloaded {uploadTotal downloadTotal : UInt64} {topPath : String}
    (hj : Job.Whole sha1 ⟨torrent⟩
      (JobInfo.new torrent topPath (allFiles torrent) uploadTotal downloadTotal (fun _ => none) disk).1.localFileInfo j)
    (hadv : (JobInfo.new torrent topPath (allFiles torrent) uploadTotal downloadTotal (fun _ => none) disk).1.Advances j.jobInfo)
    (hended : j.pc = .ended) (hall : ∀ fileid ∈ j.jobInfo.fileidlist, ∀ pos, j.jobInfo.downloadInfo.bit fileid pos ≠ some false)
    (names : List String) (f : RegularFile) (hreach : node.Reaches names f) :
    ∃ rel content, path.parent ++ rel = path.below names ∧ j.disk.find? (topPath ++ rel) = some content ∧
      SameDigests sha1 chunkSize f content ∧ (Determined sha1 chunkSize f → content = f.content) := by
  obtain ⟨file, hmem, hat⟩ := h.exists_recordedAt hreach
  have hneeded : file ∈ JobInfo.neededFiles torrent (allFiles torrent) := by rwa [neededFiles_allFiles]
  obtain ⟨content, hcontent, hlength, hmatches⟩ := hj.matches h.chunk_eq hended hneeded
    fun c hc => Job.bit_of_advances h.chunk_eq hadv hall hneeded hc
  have hdigests := hat.sameDigests (h.sizes names f hreach) hlength hmatches
  rw [JobInfo.localPath, String.append_assoc] at hcontent
  exact ⟨_, content, hat.rel_eq.mpr rfl, hcontent, hdigests, hdigests.eq⟩

end Recording

/-- **What is downloaded is what was published.** `MakeTorrent` has made the torrent file of a directory, in which no
size is a multiple of the size of a chunk, and no two contents have one digest. With this torrent file, `main` of
another client has started a job; of the files it would make none is there with another size, and all can be made.
When the job's `run` has returned and no bit is clear, and no copy has been made in a directory, then whatever the peers
have sent, and however often the job has been stopped and started, each published file is in its place below `/tmp/`,
with its length and the digests of its pieces, and is the same if these determine it; and nothing else on the disk has
changed. -/
theorem downloaded_as_published (hnode : node.WellFormed)
    (hmake : makeTorrent sha1 made path (some node) chunkSize type trackerAddress ⟨[]⟩ = .ok ((.errorOk, some torrent), e'))
    (hsizes : ∀ names f, node.Reaches names f → ¬chunkSize.toInt ∣ f.content.length)
    (hdistinct : ∀ names f names' f', node.Reaches names f → node.Reaches names' f' → sha1 f.content = sha1 f'.content →
      f.content = f'.content)
    (hfile : disk.find? torrentPath = some (Torrent.message.encode torrent))
    (hmain : mainDownload .wire env pool torrentPath s disk = (.ok (.waits (some handle)), s', disk'))
    (hfault : ∀ p, env.fault p = none)
    (hthere : ∀ names f rel content, node.Reaches names f → path.parent ++ rel = path.below names →
      disk.find? ("/tmp/" ++ rel) = some content → content.length = f.content.length)
    (hinfo : s'.jobs.find? handle = some info)
    (hinto : Always (Job.step sha1) (fun j a => j.intoDirectory a = false) (.new info m disk') as)
    (hrun : exec (Job.step sha1) (.new info m disk') as = some j) (hended : j.pc = .ended)
    (hall : ∀ fileid ∈ j.jobInfo.fileidlist, ∀ pos, j.jobInfo.downloadInfo.bit fileid pos ≠ some false) :
    (∀ names f, node.Reaches names f → ∃ rel content, path.parent ++ rel = path.below names ∧
      j.disk.find? ("/tmp/" ++ rel) = some content ∧ SameDigests sha1 chunkSize f content ∧
        (Determined sha1 chunkSize f → content = f.content)) ∧
    ∀ p, (∀ names f rel, node.Reaches names f → path.parent ++ rel = path.below names → p ≠ "/tmp/" ++ rel) →
      j.disk.find? p = disk.find? p := by
  have h : Recording sha1 chunkSize path node torrent := ⟨hnode, makeTorrent_recordedAt hmake, hsizes, hdistinct⟩
  -- the job is a new one, resumed
  obtain ⟨uploadTotal, downloadTotal, fault⟩ := env
  obtain rfl : fault = fun _ => none := funext hfault
  obtain ⟨rfl, hjob⟩ := mainDownload_started (parseTorrent_encode hfile) hmain
  obtain rfl := Option.some.inj (hjob.symm.trans hinfo)
  have hrun' : exec (Job.step sha1) (Job.ofTorrent torrent "/tmp/" (allFiles torrent) uploadTotal downloadTotal
      (fun _ => none) m disk) (.env .resume :: as) = some j := exec_cons_eq_some.mpr ⟨_, rfl, hrun⟩
  have hinto' : Always (Job.step sha1) (fun j a => j.intoDirectory a = false)
      (Job.ofTorrent torrent "/tmp/" (allFiles torrent) uploadTotal downloadTotal (fun _ => none) m disk) (.env .resume :: as) :=
    ⟨rfl, fun _ hstep => Option.some.inj hstep ▸ hinto⟩
  have hadv := Job.run_advances hrun'
  constructor
  · intro names f hreach
    have hbegin := @Job.whole_ofTorrent sha1 _ _ _ uploadTotal downloadTotal m _ h.tiled h.chunk_eq (h.nodup_localPath "/tmp/")
      (h.length_localPath hthere)
    exact h.downloaded (exec_invariant_of_always Job.step_whole hinto' hrun' hbegin) hadv hended hall names f hreach
  · intro p hp
    refine (Job.run_tidy hrun' hinto').disk p fun fileid hmem => ?_
    rw [hadv.localFileInfo, JobInfo.paths_new] at hmem
    obtain ⟨file, hfile', rfl⟩ := List.mem_map.mp hmem
    have hmem' := List.mem_of_mem_filter hfile'
    rw [neededFiles_allFiles] at hmem'
    obtain ⟨names, f, hreach, hat⟩ := h.exists_reaches hmem'
    refine hp names f _ hreach (hat.rel_eq.mpr rfl) ?_
    rw [JobInfo.localPath, String.append_assoc]

end Published

/-! ### One file -/

/-- A file with the byte `7`. -/
def seedFile : RegularFile := ⟨true, [7], by decide⟩

/-- The torrent that is made of it. -/
def seedTorrent : Torrent where
  torrentId := "other"
  type := 1
  totalSize := 1
  createBy := "c"
  createTime := "now"
  trackerAddress := "127.0.0.1:9977"
  file := [{ checkSum := "sum", relativePath := "", filename := "a", size := 1, chunk := [⟨"sum", 1⟩] }]

/-- It is one chunk. -/
theorem pieces_seedFile : pieces seedFile ((1 : Int32) <<< 20) = [(0, 1)] := by
  rw [pieces, cut, if_neg (by decide)]
  rfl

theorem makeTorrent_seedFile : makeTorrent Job.oneChunkSha1 ⟨"c", "now", true, true⟩ ⟨"/srv/", "a"⟩ (some (.file seedFile))
    ((1 : Int32) <<< 20) 1 "127.0.0.1:9977" ⟨[]⟩ = .ok ((.errorOk, some seedTorrent), ⟨[]⟩) := by
  have hcode : getFileVerificationCode Job.oneChunkSha1 seedFile ⟨[]⟩ = .ok ("sum", ⟨[]⟩) := rfl
  have hcheck : getFileChecksumList Job.oneChunkSha1 seedFile ((1 : Int32) <<< 20) [] ⟨[]⟩ = .ok (["sum"], ⟨[]⟩) := by
    rw [getFileChecksumList_eq Job.oneChunkSha1 (by decide) rfl (by simp [seedFile]), pieces_seedFile]
    rfl
  simp only [makeTorrent, foundFiles, makeTorrentFiles, makeTorrentFile, bind, Except.bind, hcode, hcheck, pure, Except.pure,
    getVerificationCode_eq]
  rfl

theorem reaches_seedFile {names : List String} {f : RegularFile} : (Node.file seedFile).Reaches names f ↔ names = [] ∧ f = seedFile := by
  simp [Node.reaches_file_iff, seedFile]

theorem determined_seedFile : Determined Job.oneChunkSha1 ((1 : Int32) <<< 20) seedFile := by
  intro r hr bs hlength hsum
  rw [pieces_seedFile] at hr
  obtain rfl := List.mem_singleton.mp hr
  by_contra hne
  have : Job.oneChunkSha1 bs = "other" := by
    exact if_neg hne
  rw [this] at hsum
  exact absurd hsum (by decide)

/-- The disk of the client that downloads it has the torrent file. -/
def seedDisk : Disk := (∅ : Disk).insert "/t" (Torrent.message.encode seedTorrent)

/-- The job finds a peer, fetches the chunk and ends. -/
def seedRun : List Job.Action :=
  [.start, .run (.owners (some [⟨"p", "host", 1, 100, [true]⟩]))] ++ Job.oneChunkRun.tail.tail ++
    [.run .go, .run .go, .run .go, .run (.top 0), .run .go, .run .go]

/-- The file has been downloaded. -/
theorem downloaded_as_published_seed : ∃ j disk', exec (Job.step Job.oneChunkSha1)
    (.new (JobInfo.new seedTorrent "/tmp/" (allFiles seedTorrent) 0 0 (fun _ => none) seedDisk).1.resumed
      (LocalSockManager.new.connectClient "p" (some 0)).2 disk') seedRun = some j ∧ j.disk.find? "/tmp/a" = some [7] := by
  have hfile : seedDisk.find? "/t" = some (Torrent.message.encode seedTorrent) := SortedMap.find?_insert_self _ _ _
  obtain ⟨s', disk', hmain⟩ : ∃ s' disk', mainDownload .wire ⟨0, 0, fun _ => none⟩ (.ok ()) "/t" .new seedDisk =
      (.ok (.waits (some 0)), s', disk') := by
    rw [mainDownload, parseTorrent_encode hfile]
    exact ⟨_, _, rfl⟩
  obtain ⟨rfl, hinfo⟩ := mainDownload_started (parseTorrent_encode hfile) hmain
  obtain ⟨j, hrun, hended, hbits⟩ : ∃ j, exec (Job.step Job.oneChunkSha1)
      (.new (JobInfo.new seedTorrent "/tmp/" (allFiles seedTorrent) 0 0 (fun _ => none) seedDisk).1.resumed
        (LocalSockManager.new.connectClient "p" (some 0)).2
        (JobInfo.new seedTorrent "/tmp/" (allFiles seedTorrent) 0 0 (fun _ => none) seedDisk).2) seedRun = some j ∧
      j.pc = .ended ∧ ∀ fileid, j.jobInfo.downloadInfo.bitmapMap.find? fileid = if "sum" = fileid then some (some [true]) else none :=
    ⟨_, rfl, rfl, fun _ => rfl⟩
  have hall : ∀ fileid ∈ j.jobInfo.fileidlist, ∀ pos, j.jobInfo.downloadInfo.bit fileid pos ≠ some false :=
    fun fileid _ => DownloadInfo.bit_ne_false_of_one hbits fileid
  have hinto : Always (Job.step Job.oneChunkSha1) (fun j a => j.intoDirectory a = false)
      (.new (JobInfo.new seedTorrent "/tmp/" (allFiles seedTorrent) 0 0 (fun _ => none) seedDisk).1.resumed
        (LocalSockManager.new.connectClient "p" (some 0)).2
        (JobInfo.new seedTorrent "/tmp/" (allFiles seedTorrent) 0 0 (fun _ => none) seedDisk).2) seedRun := by decide +kernel
  have hboth := @downloaded_as_published Job.oneChunkSha1 _ _ ⟨"/srv/", "a"⟩ (.file seedFile) _ _ _ _ _ _ _ _ _ _ _ _ _ _ _ _
    trivial makeTorrent_seedFile ?_ ?_ hfile hmain (fun _ => rfl) ?_ hinfo hinto hrun hended hall
  · obtain ⟨rel, content, hrel, hcontent, -, heq⟩ := hboth.1 [] seedFile (reaches_seedFile.mpr ⟨rfl, rfl⟩)
    obtain rfl : rel = "a" := (String.append_right_inj "/srv/").mp hrel
    exact ⟨j, _, hrun, hcontent.trans (congrArg some (heq determined_seedFile))⟩
  · rintro names f hreach
    obtain ⟨rfl, rfl⟩ := reaches_seedFile.mp hreach
    decide
  · rintro names f names' f' hreach hreach' -
    obtain ⟨-, rfl⟩ := reaches_seedFile.mp hreach
    obtain ⟨-, rfl⟩ := reaches_seedFile.mp hreach'
    rfl
  · rintro names f rel content hreach hrel hcontent
    obtain ⟨rfl, rfl⟩ := reaches_seedFile.mp hreach
    obtain rfl : rel = "a" := (String.append_right_inj "/srv/").mp hrel
    have hnone : seedDisk.find? ("/tmp/" ++ "a") = none := rfl
    rw [hnone] at hcontent
    cases hcontent

end CoolDown

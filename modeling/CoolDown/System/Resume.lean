import CoolDown.System.Sessions

/-!
# Taking up a download again

A job that comes back from the history has the bits that it had, and is paused. When it is resumed, its
`run` fetches the chunks whose bits are clear, and takes the others to be on the disk.

## The model

The sessions are those of `Sessions`, and the same is asked of them. Moreover a job that is added has
files of its own, apart from those of the jobs that are kept, and nobody else writes to these. A job
that has come back is resumed, and runs as a new one does; it makes no copy in a directory either.

## What is proved

* `step_stored`: what is kept is on the disk, after any step.
* `run_resumed`: the files of a job that has come back, when it has all its chunks.
-/

namespace CoolDown

open Library JobHistory CoolClient

namespace Sessions

variable {sha1 : Bytes → String} {c : Codec}

/-! ### The files of a job that is kept -/

/-- The files are tiled by their chunks, those of one digest have the same chunks, and each has a path of its own. -/
structure Regular (torrent : Torrent) : Prop where
  tiled : ∀ file ∈ torrent.file, file.UniformlyTiled
  same : ∀ file ∈ torrent.file, ∀ file' ∈ torrent.file, file.checkSum = file'.checkSum → file.chunk = file'.chunk
  nodup : (torrent.file.map (JobInfo.localPath "/tmp/")).Nodup

/-- Where all files could be made, a fileid's file is the first of its paths. -/
theorem getFile_new (torrent : Torrent) (topPath : String) (needs : List FileIdentityInfo) (uploadTotal downloadTotal : UInt64)
    (disk : Disk) (fileid : String) :
    (JobInfo.new torrent topPath needs uploadTotal downloadTotal (fun _ => none) disk).1.localFileInfo.getFile fileid =
      ((JobInfo.new torrent topPath needs uploadTotal downloadTotal (fun _ => none) disk).1.localFileInfo.paths
        fileid).head? := by
  cases hfile : (JobInfo.new torrent topPath needs uploadTotal downloadTotal (fun _ => none) disk).1.localFileInfo.getFile
      fileid with
  | some path =>
    obtain ⟨paths, hpaths⟩ := LocalFileInfo.files_head _ _ _ hfile
    simp [LocalFileInfo.paths, hpaths]
  | none =>
    have hnil : JobInfo.neededFilesOf torrent needs fileid = [] := by
      by_contra hne
      have hsome := (@JobInfo.isSome_getFile_new torrent topPath needs uploadTotal downloadTotal disk fileid).mpr hne
      rw [hfile] at hsome
      cases hsome
    rw [JobInfo.paths_new, ← JobInfo.neededFilesOf, hnil]
    rfl

variable (sha1) in
/-- What the job has is on the disk. -/
structure OnDisk (info : JobInfo) (disk : Disk) : Prop where
  first : ∀ fileid, info.localFileInfo.getFile fileid = (info.localFileInfo.paths fileid).head?
  regular : Regular info.torrentInfo.torrent
  apart : ∀ file ∈ info.torrentInfo.torrent.file, JobInfo.localPath "/tmp/" file ≠ historyPath
  sized : Job.Sized info.torrentInfo info.localFileInfo disk
  bits : ∀ fileid pos, info.downloadInfo.bit fileid pos = some true →
    Job.BackedAt sha1 info.torrentInfo info.localFileInfo disk fileid pos

/-- The file of a fileid is one of the torrent's. -/
theorem Grown.exists_localPath {info : JobInfo} (h : Grown info) {fileid path : String}
    (hpath : info.localFileInfo.getFile fileid = some path) :
    ∃ file ∈ info.torrentInfo.torrent.file, JobInfo.localPath "/tmp/" file = path := by
  have hmem := LocalFileInfo.mem_paths_of_getFile hpath
  rw [h.paths] at hmem
  obtain ⟨file, hfile, heq⟩ := List.mem_map.mp hmem
  exact ⟨file, List.mem_of_mem_filter hfile, heq⟩

/-- It stays there while its files stay as they are. -/
theorem OnDisk.of_find? {info : JobInfo} {disk disk' : Disk} (hgrown : Grown info) (h : OnDisk sha1 info disk)
    (hdisk : ∀ file ∈ info.torrentInfo.torrent.file, ∀ content,
      disk.find? (JobInfo.localPath "/tmp/" file) = some content → disk'.find? (JobInfo.localPath "/tmp/" file) = some content) :
    OnDisk sha1 info disk' where
  first := h.first
  regular := h.regular
  apart := h.apart
  sized := by
    intro fileid file path hfile hpath
    obtain ⟨content, hcontent, hsize⟩ := h.sized fileid file path hfile hpath
    obtain ⟨file', hfile', rfl⟩ := hgrown.exists_localPath hpath
    exact ⟨content, hdisk file' hfile' content hcontent, hsize⟩
  bits := by
    intro fileid pos hbit
    obtain ⟨file, path, content, hfile, hpath, hcontent, hsum⟩ := h.bits fileid pos hbit
    obtain ⟨file', hfile', rfl⟩ := hgrown.exists_localPath hpath
    exact ⟨file, _, content, hfile, hpath, hdisk file' hfile' content hcontent, hsum⟩

/-- What a session leaves of its job, however it has run, if it has made no copy in a directory. -/
theorem onDisk_of_run {torrent : Torrent} {uploadTotal downloadTotal : UInt64} {m : LocalSockManager} {disk : Disk}
    {as : List Job.Action} {j : Job} (hregular : Regular torrent)
    (hapart : ∀ file ∈ torrent.file, JobInfo.localPath "/tmp/" file ≠ historyPath)
    (hsized : ∀ file ∈ torrent.file, ∀ content, disk.find? (JobInfo.localPath "/tmp/" file) = some content →
      (content.length : ℤ) = file.size.toInt)
    (hrun : exec (Job.step sha1) (Job.ofTorrent torrent "/tmp/" (allFiles torrent) uploadTotal downloadTotal (fun _ => none) m
      disk) as = some j)
    (hinto : Always (Job.step sha1) (fun j a => j.intoDirectory a = false) (Job.ofTorrent torrent "/tmp/" (allFiles torrent)
      uploadTotal downloadTotal (fun _ => none) m disk) as) : OnDisk sha1 j.jobInfo j.disk := by
  have hbegin := @Job.whole_ofTorrent sha1 torrent "/tmp/" (allFiles torrent) uploadTotal downloadTotal m disk hregular.tiled
    hregular.same (by rw [neededFiles_allFiles]; exact hregular.nodup) (by rw [neededFiles_allFiles]; exact hsized)
  have hwhole := exec_invariant_of_always Job.step_whole hinto hrun hbegin
  refine ⟨?_, ?_, ?_, ?_, hwhole.backing.bits⟩
  · rw [hwhole.localFileInfo]
    exact getFile_new _ _ _ _ _ _
  · rw [hwhole.torrentInfo]
    exact hregular
  · rw [hwhole.torrentInfo]
    exact hapart
  · rw [hwhole.torrentInfo, hwhole.localFileInfo]
    exact hwhole.sized

/-! ### Sessions -/

/-- The torrent of a job that is added: its files are not those of jobs that are kept, and what is at their paths has their
sizes. -/
structure Fresh (s : State) (torrent : Torrent) (disk : Disk) : Prop where
  regular : Regular torrent
  alone : ∀ k ∈ s.kept, ∀ file ∈ torrent.file, ∀ file' ∈ k.2.torrentInfo.torrent.file,
    JobInfo.localPath "/tmp/" file ≠ JobInfo.localPath "/tmp/" file'
  sized : ∀ file ∈ torrent.file, ∀ content, disk.find? (JobInfo.localPath "/tmp/" file) = some content →
    (content.length : ℤ) = file.size.toInt

variable (c) in
/-- All files can be made, and a job is added for a fresh torrent only. -/
structure Careful (s : State) (x : Session) : Prop where
  faultless : ∀ handle path, (x.env handle).fault path = none
  fresh : ∀ torrent, parseTorrent c s.disk x.torrentPath = .ok torrent → (∀ k ∈ s.kept, k.2.torrentId ≠ torrent.torrentId) →
    Fresh s torrent (reloadJobHistory c x.env historyPath .new s.disk).2.2

variable (sha1 c) in
/-- Sessions are like that, and nobody else touches the history, or the files of a job that is kept. -/
def Preserving (s : State) : Action → Prop
  | .session x => Quiet sha1 c s x ∧ Careful c s x
  | .write path _ => path ≠ historyPath ∧
    ∀ k ∈ s.kept, ∀ file ∈ k.2.torrentInfo.torrent.file, JobInfo.localPath "/tmp/" file ≠ path

theorem Preserving.undisturbed {s : State} {a : Action} (h : Preserving sha1 c s a) : Undisturbed sha1 c s a := by
  cases a with
  | session x => exact h.1
  | write path content => exact h.1

/-- What is kept after a session was kept before, or is the job that was run. -/
theorem mem_keep {s : State} {x : Session} {ran : Option (String × JobInfo)} {k : String × JobInfo} (h : k ∈ s.keep x ran) :
    k ∈ s.kept ∨ ran = some k := by
  unfold State.keep at h
  split_ifs at h
  · exact (List.mem_append.mp h).imp_right Option.mem_toList.mp
  · cases h
  · exact .inl h

/-- **Every step leaves what is kept on the disk.** -/
theorem step_stored (hc : c.Lossless) (hzeros : c.RejectsZeros) {s s' : State} {a : Action} (hs : Recorded c s)
    (hdisk : ∀ k ∈ s.kept, OnDisk sha1 k.2 s.disk) (ha : Preserving sha1 c s a) (h : step sha1 c s a = some s') :
    ∀ k ∈ s'.kept, OnDisk sha1 k.2 s'.disk := by
  cases a with
  | write path content =>
    intro k hk
    cases content with
    | none =>
      obtain rfl := Option.some.inj h
      refine (hdisk k hk).of_find? (hs.grown k hk) fun file hfile content hcontent => ?_
      rwa [SortedMap.find?_erase, if_neg (ha.2 k hk file hfile).symm]
    | some bs =>
      obtain rfl := Option.some.inj h
      refine (hdisk k hk).of_find? (hs.grown k hk) fun file hfile content hcontent => ?_
      rwa [SortedMap.find?_insert_of_ne _ (ha.2 k hk file hfile).symm]
  | session x =>
    obtain ⟨o, ho, rfl⟩ := Option.map_eq_some_iff.mp h
    obtain ⟨hquiet, hcareful⟩ := ha
    suffices (∀ k ∈ s.kept, OnDisk sha1 k.2 o.disk) ∧ ∀ k, o.ran = some k → OnDisk sha1 k.2 o.disk from
      fun k hk => (mem_keep hk).elim (this.1 k) (this.2 k)
    -- the history is not one of the files
    have hunit : ∀ {t : CoolClient} {disk : Disk} {info : JobInfo}, Grown info → OnDisk sha1 info disk →
        OnDisk sha1 info (uninitializeWith c x t disk) := fun hgrown hinfo => hinfo.of_find? hgrown fun file hfile content hcontent => by
      rwa [find?_uninitializeWith_of_ne (hinfo.apart file hfile).symm]
    cases hlogin : x.login with
    | false =>
      obtain rfl : o = ⟨uninitializeWith c x .new s.disk, none⟩ := by
        rw [session, if_pos hlogin] at ho
        exact (Option.some.inj ho).symm
      exact ⟨fun k hk => hunit (hs.grown k hk) (hdisk k hk), by rintro k ⟨⟩⟩
    | true =>
      obtain ⟨ret, t, disk, hreload, -, -, hhas⟩ := reload_kept hc hzeros hs hquiet.inPlace x.env
      obtain rfl : (reloadJobHistory c x.env historyPath .new s.disk).2.2 = disk := by rw [hreload]
      have hkept : ∀ k ∈ s.kept, OnDisk sha1 k.2 (reloadJobHistory c x.env historyPath .new s.disk).2.2 := fun k hk =>
        (hdisk k hk).of_find? (hs.grown k hk) fun _ _ _ hcontent => find?_reloadJobHistory x.env historyPath .new hcontent
      rcases session_cases hlogin hreload ho with rfl | ⟨torrent, j, hparse, hnew, hrun, rfl⟩
      · exact ⟨fun k hk => hunit (hs.grown k hk) (hkept k hk), by rintro k ⟨⟩⟩
      · have hinto := hquiet.copies ret t _ torrent hreload hparse hnew
        rw [sameTorrents_reloadJobHistory hzeros] at hparse
        have hfresh := hcareful.fresh torrent hparse fun k hk he => hnew ((hhas _).mpr ⟨k, hk, he⟩)
        constructor
        · intro k hk
          refine hunit (hs.grown k hk) ((hkept k hk).of_find? (hs.grown k hk) fun file hfile content hcontent => ?_)
          rwa [find?_of_run hrun hinto fun file' hfile' => hfresh.alone k hk file' hfile' file hfile]
        · rintro k ⟨⟩
          obtain ⟨hgrown, -⟩ := grown_of_run (hquiet.counts torrent hparse) hrun
          have hfault : (x.env t.jobIndex).fault = fun _ => none := funext (hcareful.faultless t.jobIndex)
          rw [Session.job, hfault] at hinto
          rw [hfault] at hrun
          exact hunit hgrown (onDisk_of_run hfresh.regular (hquiet.apart torrent hparse) hfresh.sized hrun hinto)

/-! ### A job that has come back -/

/-- The job is as the constructor has made it, but for what it says of the download, and all its files could be made. -/
def Made (info : JobInfo) : Prop :=
  ∃ (torrent : Torrent) (topPath : String) (needs : List FileIdentityInfo) (uploadTotal downloadTotal : UInt64) (disk : Disk)
    (downloadInfo : DownloadInfo), info =
      { (JobInfo.new torrent topPath needs uploadTotal downloadTotal (fun _ => none) disk).1 with downloadInfo }

/-- So are all jobs that come back. -/
theorem made_of_reload {env : ℕ → Surroundings} (hfault : ∀ handle path, (env handle).fault path = none) (filename : String)
    (disk : Disk) : ∀ handle info, (reloadJobHistory c env filename .new disk).2.1.jobs.find? handle = some info → Made info := by
  have hnone : ∀ handle, (env handle).fault = fun _ => none := fun handle => funext (hfault handle)
  refine reloadJobHistory_invariant (I := fun s _ => ∀ handle info, s.jobs.find? handle = some info → Made info)
    (fun _ _ _ _ _ h => h) ?_ filename (by rintro handle info ⟨⟩)
  intro s disk torrent topPath needs downloadInfo torrentPath h handle info hfind
  rw [addNewJob, SortedMap.find?_insert] at hfind
  split_ifs at hfind
  · rw [hnone] at hfind
    obtain rfl := Option.some.inj hfind
    exact ⟨torrent, topPath, needs, _, _, disk, downloadInfo, rfl⟩
  · exact h handle info hfind

/-- It is made of the files of its torrent, all of them, below `/tmp/`. -/
theorem Back.exists_made {k : String × JobInfo} {j : Option String × JobInfo} (h : Back k j) (hk : Grown k.2) (hmade : Made j.2) :
    ∃ needs uploadTotal downloadTotal disk, JobInfo.neededFiles k.2.torrentInfo.torrent needs = k.2.torrentInfo.torrent.file ∧
      j.2.localFileInfo = (JobInfo.new k.2.torrentInfo.torrent "/tmp/" needs uploadTotal downloadTotal (fun _ => none)
        disk).1.localFileInfo := by
  obtain ⟨torrent, topPath, needs, uploadTotal, downloadTotal, disk, d, hinfo⟩ := hmade
  have htorrent : k.2.torrentInfo = ⟨torrent⟩ := by
    rw [← h.torrentInfo, hinfo]
    exact JobInfo.torrentInfo_new ..
  have htop : topPath = "/tmp/" := by
    rw [← hk.topPath, ← h.topPath, hinfo]
    exact (JobInfo.topPath_new ..).symm
  have hlist : (JobInfo.neededFiles torrent needs).map Torrent.File.checkSum = torrent.file.map Torrent.File.checkSum := by
    have hids := h.fileidlist
    rw [hk.fileidlist, htorrent, hinfo] at hids
    exact (JobInfo.fileidlist_new ..).symm.trans hids
  refine ⟨needs, uploadTotal, downloadTotal, disk, ?_, ?_⟩
  · rw [htorrent]
    have hlength := congrArg List.length hlist
    rw [List.length_map, List.length_map] at hlength
    exact List.filter_sublist.eq_of_length hlength
  · rw [hinfo, htorrent, htop]

/-- The files that its chunks go to are those of the job that was kept. -/
theorem Back.getFile_eq {k : String × JobInfo} {j : Option String × JobInfo} (h : Back k j) (hmade : Made j.2) {disk : Disk}
    (hk : OnDisk sha1 k.2 disk) (fileid : String) : j.2.localFileInfo.getFile fileid = k.2.localFileInfo.getFile fileid := by
  rw [hk.first, ← h.paths]
  obtain ⟨torrent, topPath, needs, uploadTotal, downloadTotal, disk, d, hinfo⟩ := hmade
  rw [hinfo]
  exact getFile_new _ _ _ _ _ _ _

/-- **A job that is resumed is sound**: it is in the state of one that has just been made, and has got the chunks it has. -/
theorem Back.whole {k : String × JobInfo} {j : Option String × JobInfo} (h : Back k j) (hgrown : Grown k.2) (hmade : Made j.2)
    {disk : Disk} (hk : OnDisk sha1 k.2 disk) (m : LocalSockManager) :
    Job.Whole sha1 k.2.torrentInfo j.2.localFileInfo (.new j.2.resumed m disk) := by
  obtain ⟨needs, uploadTotal, downloadTotal, disk₀, hneeded, hlocal⟩ := h.exists_made hgrown hmade
  have hnodup : ((JobInfo.neededFiles k.2.torrentInfo.torrent needs).map (JobInfo.localPath "/tmp/")).Nodup := by
    rw [hneeded]
    exact hk.regular.nodup
  refine Job.whole_new ?_ ?_ h.torrentInfo rfl ?_ ?_
  · rw [hlocal]
    exact Job.laid_new hk.regular.tiled hnodup
  · rw [hlocal]
    exact Job.nodup_paths_new hnodup
  · intro fileid file path hfile hpath
    rw [h.getFile_eq hmade hk] at hpath
    exact hk.sized fileid file path hfile hpath
  · intro fileid pos hbit
    obtain ⟨file, path, content, hfile, hpath, hcontent, hsum⟩ := hk.bits fileid pos ((h.bit fileid pos).symm.trans hbit)
    rw [← h.getFile_eq hmade hk] at hpath
    exact ⟨file, path, content, hfile, hpath, hcontent, hsum⟩

/-- A job that is kept has a bit for each chunk. -/
theorem Grown.isSome_bit {info : JobInfo} (h : Grown info) (hregular : Regular info.torrentInfo.torrent) {file : Torrent.File}
    (hfile : file ∈ info.torrentInfo.torrent.file) {pos : ℕ} (hpos : pos < file.chunkCount) :
    (info.downloadInfo.bit file.checkSum pos).isSome := by
  obtain ⟨torrent, env, disk, -, hadv, hbits⟩ := h
  rw [hadv.torrentInfo, JobInfo.torrentInfo_new] at hregular hfile
  rw [hbits, JobInfo.bit_new hregular.same (by rwa [neededFiles_allFiles]) hpos]
  rfl

/-- What is left by a job that has come back and has been resumed, when it has all its chunks. -/
theorem Back.matches {k : String × JobInfo} {j : Option String × JobInfo} (h : Back k j) (hgrown : Grown k.2) (hmade : Made j.2)
    {disk : Disk} (hk : OnDisk sha1 k.2 disk) {m : LocalSockManager} {as : List Job.Action} {i : Job}
    (hrun : exec (Job.step sha1) (.new j.2.resumed m disk) as = some i)
    (hinto : Always (Job.step sha1) (fun j a => j.intoDirectory a = false) (.new j.2.resumed m disk) as)
    (hended : i.pc = .ended)
    (hall : ∀ fileid ∈ i.jobInfo.fileidlist, ∀ pos, i.jobInfo.downloadInfo.bit fileid pos ≠ some false) {file : Torrent.File}
    (hfile : file ∈ k.2.torrentInfo.torrent.file) :
    ∃ content, i.disk.find? (JobInfo.localPath "/tmp/" file) = some content ∧ (content.length : ℤ) = file.size.toInt ∧
      Job.Matches sha1 file content := by
  obtain ⟨needs, uploadTotal, downloadTotal, disk₀, hneeded, hlocal⟩ := h.exists_made hgrown hmade
  have hwhole := exec_invariant_of_always Job.step_whole hinto hrun (h.whole hgrown hmade hk m)
  have hadv : j.2.resumed.Advances i.jobInfo :=
    @exec_invariant _ _ _ (fun i : Job => j.2.resumed.Advances i.jobInfo)
      (fun hi hstep => hi.trans (Job.step_advances hstep)) _ _ _ hrun (.refl _)
  rw [hlocal] at hwhole
  refine hwhole.matches hk.regular.same hended (by rwa [hneeded]) fun pos hpos => ?_
  have hid : file.checkSum ∈ i.jobInfo.fileidlist := by
    rw [hadv.fileidlist]
    change file.checkSum ∈ j.2.fileidlist
    rw [h.fileidlist, hgrown.fileidlist]
    exact List.mem_map_of_mem hfile
  have hbefore : (j.2.resumed.downloadInfo.bit file.checkSum pos).isSome := by
    change (j.2.downloadInfo.bit file.checkSum pos).isSome
    rw [h.bit]
    exact hgrown.isSome_bit hk.regular hfile hpos
  obtain ⟨b, hbit⟩ := Option.isSome_iff_exists.mp (hadv.bit_isSome hbefore)
  cases b with
  | true => exact hbit
  | false => exact absurd hbit (hall _ hid pos)

/-! ### All sessions -/

/-- **Taking up a download again.** Let the sessions be as `run_kept` asks. Let jobs be added for torrents with files of their
own, of which none is there with another size, and let nobody else write to the files of a job that is kept. When the
history has been reloaded, any job of it may be resumed: whatever it does then but make a copy in a directory, and whatever
its peers send, when its `run` has returned and no bit is clear, each file of its torrent is in its place, with its size
and the digests of its chunks. -/
theorem run_resumed (hc : c.Lossless) (hzeros : c.RejectsZeros) {disk₀ : Disk} (hnone : disk₀.find? historyPath = none)
    {s : State} {as : List Action} (hrun : exec (step sha1 c) ⟨disk₀, []⟩ as = some s)
    (hpreserving : Always (step sha1 c) (Preserving sha1 c) ⟨disk₀, []⟩ as)
    (hplace : ∀ k ∈ s.kept, parseTorrent c s.disk k.1 = .ok k.2.torrentInfo.torrent) {env : ℕ → Surroundings}
    (hfault : ∀ handle path, (env handle).fault path = none) :
    ∃ ret t disk, reloadJobHistory c env historyPath .new s.disk = (.ok ret, t, disk) ∧ List.Forall₂ Back s.kept t.table ∧
      ∀ j ∈ t.table, ∀ m bs i, exec (Job.step sha1) (.new j.2.resumed m disk) bs = some i →
        Always (Job.step sha1) (fun j a => j.intoDirectory a = false) (.new j.2.resumed m disk) bs → i.pc = .ended →
        (∀ fileid ∈ i.jobInfo.fileidlist, ∀ pos, i.jobInfo.downloadInfo.bit fileid pos ≠ some false) →
        ∀ file ∈ j.2.torrentInfo.torrent.file, ∃ content, i.disk.find? (JobInfo.localPath "/tmp/" file) = some content ∧
          (content.length : ℤ) = file.size.toInt ∧ Job.Matches sha1 file content := by
  have hboth : Recorded c s ∧ ∀ k ∈ s.kept, OnDisk sha1 k.2 s.disk :=
    exec_invariant_of_always (I := fun s => Recorded c s ∧ ∀ k ∈ s.kept, OnDisk sha1 k.2 s.disk)
      (fun hs ha h => ⟨step_recorded hc hzeros hs.1 ha.undisturbed h, step_stored hc hzeros hs.1 hs.2 ha h⟩) hpreserving hrun
      ⟨⟨.inr ⟨rfl, hnone⟩, by rintro k ⟨⟩, .nil⟩, by rintro k ⟨⟩⟩
  obtain ⟨hs, hdisk⟩ := hboth
  obtain ⟨ret, t, disk, hreload, -, hback, -⟩ := reload_kept hc hzeros hs hplace env
  refine ⟨ret, t, disk, hreload, hback, fun j hj m bs i hexec hinto hended hall file hfile => ?_⟩
  obtain ⟨n, hn, rfl⟩ := List.getElem_of_mem hj
  have hn' : n < s.kept.length := hback.length_eq ▸ hn
  have hkj := hback.get hn' hn
  have hgrown := hs.grown _ (List.getElem_mem hn')
  have hmade : Made t.table[n].2 := by
    obtain ⟨e, he, heq⟩ := List.mem_map.mp hj
    have := @made_of_reload c env hfault historyPath s.disk e.1 e.2
    rw [hreload] at this
    rw [← heq]
    exact this (SortedMap.find?_eq_some.mpr he)
  have hkdisk : OnDisk sha1 s.kept[n].2 disk := (hdisk _ (List.getElem_mem hn')).of_find? hgrown fun _ _ _ hcontent => by
    have := @find?_reloadJobHistory c env historyPath .new _ _ _ hcontent
    rwa [hreload] at this
  have htorrent := hkj.torrentInfo
  exact hkj.matches hgrown hmade hkdisk hexec hinto hended hall (by rw [← htorrent]; exact hfile)

/-! ### A session for one file -/

/-- The steps of a job that has its only chunk. -/
def idleRun : List Job.Action :=
  [.start, .run (.owners none)] ++ List.replicate 5 (.run .go) ++ [.run (.top 0), .run .go, .run .go]

/-- The record of the file. -/
def seedRecord : FileInfo := ⟨"sum", "", "a", [1], 1⟩

theorem reloadBitmap_seedRecord (d : DownloadInfo) : reloadBitmap d seedRecord =
    .ok { d with
      bitmapMap := d.bitmapMap.insert "sum" (some [true])
      percentageMap := d.percentageMap.insert "sum" 1 } := by
  have hbits : recordBits seedRecord = [true] := by decide +kernel
  refine reloadBitmap_eq_ok_iff.mpr ⟨by decide, ?_⟩
  rw [hbits]
  rfl

/-- It is taken up again, without a peer. -/
theorem exists_seedResumed : ∃ (t : CoolClient) (disk : Disk) (info : JobInfo) (i : Job),
    reloadJobHistory checked seedSession.env historyPath .new seedState.disk = (.ok .errorOk, t, disk) ∧
    t.table = [(some "/t", info)] ∧ info.torrentInfo = ⟨seedTorrent⟩ ∧
    exec (Job.step Job.oneChunkSha1) (.new info.resumed .new disk) idleRun = some i ∧
    Always (Job.step Job.oneChunkSha1) (fun j a => j.intoDirectory a = false) (.new info.resumed .new disk) idleRun ∧
    i.pc = .ended ∧ ∀ fileid, i.jobInfo.downloadInfo.bitmapMap.find? fileid =
      if "sum" = fileid then some (some [true]) else none := by
  have hfile : seedState.disk.find? historyPath = some (checked.serialize (historyOf seedState.kept)) :=
    (run_recorded checked_lossless checked_rejectsZeros rfl run_seedSession
      ⟨quiet_seedSession, fun _ _ => trivial⟩).file.resolve_right (by rintro ⟨⟨⟩, -⟩)
  have hentry : jobHistory "/t" seedJob.jobInfo = ⟨"/t", "/tmp/", [seedRecord], 0, 0⟩ := by decide +kernel
  have hhistory : (historyOf seedState.kept).jobInfo = [⟨"/t", "/tmp/", [seedRecord], 0, 0⟩] := congrArg (fun h => [h]) hentry
  simp only [reloadJobHistory, hfile, checked_lossless (historyOf seedState.kept), hhistory, reloadJobs, parse_seedState,
    reloadOneJob, List.foldlM_cons, List.foldlM_nil, reloadBitmap_seedRecord, bind, Except.bind, pure, Except.pure]
  rw [if_neg (by decide)]
  refine ⟨_, _, _, _, rfl, rfl, rfl, rfl, ?_, rfl, fun _ => rfl⟩
  decide +kernel

theorem regular_seedTorrent : Regular seedTorrent where
  tiled := by
    intro file hfile
    obtain rfl := List.mem_singleton.mp hfile
    exact ⟨⟨0, 1, rfl, by decide, by decide⟩, rfl⟩
  same := by
    intro file hfile file' hfile' _
    obtain rfl := List.mem_singleton.mp hfile
    obtain rfl := List.mem_singleton.mp hfile'
    rfl
  nodup := List.nodup_singleton _

theorem careful_seedSession : Careful checked ⟨seedDisk, []⟩ seedSession where
  faultless := fun _ _ => rfl
  fresh := by
    intro torrent hparse _
    obtain rfl := Except.ok.inj (parse_seedDisk.symm.trans hparse)
    refine ⟨regular_seedTorrent, (by rintro k ⟨⟩), fun file hfile content hcontent => ?_⟩
    obtain rfl := List.mem_singleton.mp hfile
    cases hcontent

theorem run_resumed_seed : ∃ (t : CoolClient) (disk : Disk) (info : JobInfo) (i : Job) (content : Bytes),
    reloadJobHistory checked seedSession.env historyPath .new seedState.disk = (.ok .errorOk, t, disk) ∧
    t.table = [(some "/t", info)] ∧ exec (Job.step Job.oneChunkSha1) (.new info.resumed .new disk) idleRun = some i ∧
    i.disk.find? "/tmp/a" = some content ∧ content.length = 1 := by
  obtain ⟨t, disk, info, i, hreload, htable, htorrent, hrun, hinto, hended, hbits⟩ := exists_seedResumed
  obtain ⟨ret, t', disk', hreload', -, hfiles⟩ := run_resumed checked_lossless checked_rejectsZeros rfl run_seedSession
    ⟨⟨quiet_seedSession, careful_seedSession⟩, fun _ _ => trivial⟩ inPlace_seedState (fun _ _ => rfl : ∀ handle path,
      (seedSession.env handle).fault path = none)
  obtain ⟨-, rfl, rfl⟩ := Prod.mk.inj (hreload.symm.trans hreload') |>.imp_right Prod.mk.inj
  have hall : ∀ fileid ∈ i.jobInfo.fileidlist, ∀ pos, i.jobInfo.downloadInfo.bit fileid pos ≠ some false :=
    fun fileid _ => DownloadInfo.bit_ne_false_of_one hbits fileid
  obtain ⟨content, hcontent, hlength, -⟩ := hfiles (some "/t", info) (by rw [htable]; exact List.mem_singleton_self _) .new idleRun i
    hrun hinto hended hall _ (by rw [htorrent]; exact List.mem_singleton_self _)
  exact ⟨t, disk, info, i, content, hreload, htable, hrun, hcontent, Int.ofNat.inj hlength⟩

end Sessions

end CoolDown

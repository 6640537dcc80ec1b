import CoolDown.System.Publication
import CoolDown.System.Swarm

/-!
# A directory in a swarm

One client publishes a directory and shares it. Others have got the torrent file and download it, from the
first one, from each other and from anybody else that the tracker names. Whoever has a chunk in the end,
and wherever it has come from, has what was published, and this is what it sends to the next.

## The model

The clients are those of a `Swarm`, and each begins as `main` leaves it: `Publishes` with an upload job
for the directory, `Downloads` with a download job for the torrent file. No job makes a copy in a directory.

## What is proved

* `OwnerSearch.step_whole`: a job keeps what holds of it in the search for owners too.
* `Swarm.spreads`: who has published has all, what is sent is what was published, and so is what is there
  when a download is at its end.
-/

namespace CoolDown

open Library Verification CoolClient ClientConnectionHandler

variable {sha1 : Bytes → String}

/-! ### A job that searches for owners -/

namespace OwnerSearch

variable {t : TorrentInfo} {l : LocalFileInfo} {s s' : OwnerSearch} {a : Action}

theorem stage_returned (pc : Job.Pc) : (returned pc).stage = pc.stage := by
  cases pc with
  | findOwners fileids => cases fileids <;> rfl
  | _ => rfl

theorem returned_of_after {pc : Job.Pc} (h : pc.stage = .after) : returned pc = pc := by
  cases pc with
  | findOwners | findOwner => cases h
  | _ => rfl

/-- What holds of a job in every state, and that it is running while it searches. -/
structure Whole (sha1 : Bytes → String) (t : TorrentInfo) (l : LocalFileInfo) (s : OwnerSearch) : Prop where
  job : Job.Whole sha1 t l s.job
  searching : s.place ≠ .outside → s.job.isRunning = true

/-- A search is a part of `run`. -/
theorem Whole.isRunning (hs : Whole sha1 t l s) (ha : ∀ b, a ≠ .job b) (h : step sha1 s a = some s') :
    s.job.isRunning = true := by
  by_cases hplace : s.place = .outside
  · cases a with
    | job b => exact absurd rfl (ha b)
    | request =>
      simp only [step] at h
      split at h
      · rename_i fileid _ hwanted
        by_contra hstopped
        obtain hpc | hpc := hs.job.running (Bool.eq_false_iff.mpr hstopped) <;> simp [wanted, hpc] at hwanted
      · cases h
    | reply | connect | shakeHand => simp [step, hplace] at h
  · exact hs.searching hplace

/-- **Every step keeps that**, those of the search too, if it makes no copy in a directory. -/
theorem step_whole (hs : Whole sha1 t l s) (hinto : ∀ b, a = .job b → s.job.intoDirectory b = false)
    (h : step sha1 s a = some s') : Whole sha1 t l s' := by
  by_cases ha : ∃ b, a = .job b
  · obtain ⟨b, rfl⟩ := ha
    obtain ⟨j, hj, rfl, -⟩ := step_job h
    refine ⟨Job.step_whole hs.job (hinto b rfl) hj, fun hplace => ?_⟩
    have hrunning := hs.searching hplace
    cases b with
    | start =>
      obtain ⟨hstopped, -⟩ := Job.step_start hj
      rw [hrunning] at hstopped
      cases hstopped
    | run ev => simp [step, show s.place ≠ .outside from hplace] at h
    | task | onFailed | onFinished | env => exact (Job.isRunning_step (by simp) (by simp) hj).trans hrunning
  · have hsought := step_sought (not_exists.mp ha) h
    have hpc := pc_step_search (not_exists.mp ha) h
    have hadv := step_advances h
    have hrunning : s'.job.isRunning = true := hsought.isRunning.trans (hs.isRunning (not_exists.mp ha) h)
    have hbacking := step_backing hs.job.backing (fun b hb => absurd ⟨b, hb⟩ ha) h
    refine ⟨hs.job.congr hbacking (hadv.torrentInfo.trans hs.job.torrentInfo)
      (hadv.localFileInfo.trans hs.job.localFileInfo) hsought.disk hsought.tasks (by simp [hrunning]) ?_ ?_, fun _ => hrunning⟩
    · obtain hpc | hpc | hpc := hpc
      · exact .inl (congrArg Job.Pc.stage hpc)
      · exact .inl (by rw [hpc, stage_returned])
      · exact .inr hpc
    · intro hafter
      obtain hpc | hpc | hpc := hpc
      · exact hpc
      · rw [hpc, stage_returned] at hafter
        rw [hpc, returned_of_after hafter]
      · rw [hpc] at hafter
        cases hafter

/-- An answer keeps it. -/
theorem Answered.whole {info' : JobInfo} {reply : ClientProto.ShakeHand} (h : Answered s.job.jobInfo info' reply)
    (hs : Whole sha1 t l s) : Whole sha1 t l { s with job := { s.job with jobInfo := info' } } where
  job := hs.job.congr (h.backing hs.job.backing) (h.advances.torrentInfo.trans hs.job.torrentInfo)
    (h.advances.localFileInfo.trans hs.job.localFileInfo) rfl rfl hs.job.running (.inl rfl) fun _ => rfl
  searching := hs.searching

end OwnerSearch

/-! ### How the clients begin -/

section Members

variable {made : MakeTorrentEnv} {path : Path} {node : Node} {torrent : Torrent} {e' : SHA1Engine} {s : OwnerSearch}

/-- A client that has published the tree: `main` has made the torrent, and has resumed an upload job. -/
inductive Publishes (sha1 : Bytes → String) (made : MakeTorrentEnv) (path : Path) (node : Node) : OwnerSearch → Prop where
  | main {env : Surroundings} {publish : String → Option Exception} {torrentPath : String} {c c' : CoolClient} {disk disk' : Disk}
      {handle : ℕ} {info : JobInfo} {m : LocalSockManager}
      (hmain : mainPublish sha1 made env publish path (some node) torrentPath c disk ⟨[]⟩ = (.ok (.waits (some handle)), c', disk'))
      (hfault : ∀ p, env.fault p = none) (hinfo : c'.jobs.find? handle = some info)
      (hthere : ∀ names f, node.Reaches names f → path.below names ≠ torrentPath ∧ disk.find? (path.below names) = some f.content) :
      Publishes sha1 made path node (.start info m disk')

/-- A client that has got the torrent file: `main` has started a download job for it, and no file of another size is in
the way. -/
inductive Downloads (path : Path) (node : Node) (torrent : Torrent) : OwnerSearch → Prop where
  | main {env : Surroundings} {pool : Except Exception Unit} {torrentPath : String} {c c' : CoolClient} {disk disk' : Disk}
      {handle : ℕ} {info : JobInfo} {m : LocalSockManager}
      (hfile : disk.find? torrentPath = some (Torrent.message.encode torrent))
      (hmain : mainDownload .wire env pool torrentPath c disk = (.ok (.waits (some handle)), c', disk'))
      (hfault : ∀ p, env.fault p = none) (hinfo : c'.jobs.find? handle = some info)
      (hthere : ∀ names f rel content, node.Reaches names f → path.parent ++ rel = path.below names →
        disk.find? ("/tmp/" ++ rel) = some content → content.length = f.content.length) :
      Downloads path node torrent (.start info m disk')

/-- **Who has published has everything**, and joins. -/
theorem Publishes.joining (hs : Publishes sha1 made path node s) (h : Recording sha1 ((1 : Int32) <<< 20) path node torrent)
    (hmake : makeTorrent sha1 made path (some node) ((1 : Int32) <<< 20) 1 "127.0.0.1:9977" ⟨[]⟩ =
      .ok ((.errorOk, some torrent), e')) :
    Swarm.Joining sha1 ⟨torrent⟩ s ∧ (∀ fileid, (s.job.jobInfo.localFileInfo.paths fileid).Nodup) ∧
      ∀ names f, node.Reaches names f → ∀ c < (pieces f ((1 : Int32) <<< 20)).length,
      sha1 f.content ∈ s.job.jobInfo.fileidlist ∧ s.job.jobInfo.downloadInfo.bit (sha1 f.content) c = some true := by
  obtain @⟨env, publish, torrentPath, c, c', disk, disk', handle, info, m, hmain, hfault, hinfo, hthere⟩ := hs
  obtain ⟨uploadTotal, downloadTotal, fault⟩ := env
  obtain rfl : fault = fun _ => none := funext hfault
  obtain ⟨rfl, d, hset, hjob⟩ := mainPublish_shared hmake hmain
  obtain rfl := Option.some.inj (hjob.symm.trans hinfo)
  refine ⟨Swarm.joining_share h.tiled h.chunk_eq (h.nodup_localPath path.parent) (h.matches_localPath ?_) hset,
    Job.nodup_paths_new (h.nodup_localPath path.parent), ?_⟩
  · intro names f rel hreach hrel
    obtain ⟨hne, hcontent⟩ := hthere names f hreach
    rw [hrel, SortedMap.find?_insert_of_ne _ hne.symm, hcontent]
  · intro names f hreach c hc
    obtain ⟨file, hfile, hat⟩ := h.exists_recordedAt hreach
    have hneeded : file ∈ JobInfo.neededFiles torrent (allFiles torrent) := by rwa [neededFiles_allFiles]
    rw [← hat.checkSum]
    constructor
    · change file.checkSum ∈ (JobInfo.new torrent path.parent (allFiles torrent) uploadTotal downloadTotal (fun _ => none) _).1.fileidlist
      rw [JobInfo.fileidlist_new]
      exact List.mem_map_of_mem hneeded
    · change d.bit file.checkSum c = some true
      rw [Swarm.setAll_bit hset, JobInfo.bit_new h.chunk_eq hneeded (hat.recorded.chunkCount_eq.symm ▸ hc)]
      simp [List.mem_map_of_mem hfile]

/-- **Who downloads joins**, and what it has is whole. -/
theorem Downloads.joining (hs : Downloads path node torrent s) {chunkSize : Int32} (h : Recording sha1 chunkSize path node torrent) :
    Swarm.Joining sha1 ⟨torrent⟩ s ∧ ∃ uploadTotal downloadTotal disk,
      let r := JobInfo.new torrent "/tmp/" (allFiles torrent) uploadTotal downloadTotal (fun _ => none) disk
      OwnerSearch.Whole sha1 ⟨torrent⟩ r.1.localFileInfo s ∧ r.1.Advances s.job.jobInfo := by
  obtain @⟨env, pool, torrentPath, c, c', disk, disk', handle, info, m, hfile, hmain, hfault, hinfo, hthere⟩ := hs
  obtain ⟨uploadTotal, downloadTotal, fault⟩ := env
  obtain rfl : fault = fun _ => none := funext hfault
  obtain ⟨rfl, hjob⟩ := mainDownload_started (parseTorrent_encode hfile) hmain
  obtain rfl := Option.some.inj (hjob.symm.trans hinfo)
  have hnodup := h.nodup_localPath "/tmp/"
  have hlength := h.length_localPath hthere
  refine ⟨Swarm.joining_download h.tiled h.chunk_eq hnodup hlength, uploadTotal, downloadTotal, disk, ⟨?_, ?_⟩, ?_⟩
  · have hwhole := @Job.whole_ofTorrent sha1 _ _ _ uploadTotal downloadTotal m _ h.tiled h.chunk_eq hnodup hlength
    exact hwhole.congr (hwhole.backing.congr rfl rfl (fun _ _ => rfl) rfl rfl (.inl rfl)) hwhole.torrentInfo rfl rfl rfl
      hwhole.running (.inl rfl) fun _ => rfl
  · exact fun hplace => absurd rfl hplace
  · exact ⟨rfl, rfl, rfl, id, fun _ _ => .inl rfl⟩

end Members

/-! ### What spreads -/

namespace Swarm

variable {ι : Type} {who : String → Option ι} {s s' : Swarm ι} {a : Action ι} {chunkSize : Int32} {made : MakeTorrentEnv} {path : Path}
  {node : Node} {torrent : Torrent} {e' : SHA1Engine}

/-- A chunk that a client has is sent as it was published. -/
theorem Sound.sent (hs : s.Sound sha1 who ⟨torrent⟩) (h : Recording sha1 chunkSize path node torrent)
    (hcount : ∀ names f, node.Reaches names f → (pieces f chunkSize).length < 2 ^ 31) {q : ι} {names : List String}
    {f : RegularFile} {c : ℕ} {r : ℕ × ℕ} (hreach : node.Reaches names f) (hdetermined : Determined sha1 chunkSize f)
    (hr : (pieces f chunkSize)[c]? = some r) (hown : s.Owns q (sha1 f.content) c)
    (hthere : (s.client q).job.jobInfo.downloadInfo.isJobRemoved = false) {call : Call} {host : String}
    (hclient : call.client = (s.client q).coolClient) (hhost : call.peerHost = .ok host) (clientid : String) :
    ∃ up mapped, handleUploadRequest call (some (.uploadRequest ⟨clientid, sha1 f.content, Int64.ofNat c⟩)) ⟨none⟩ =
        (.ok (.errorOk, some up), ⟨some Retcode.errorOk.value⟩) ∧
      (s.client q).job.disk.find? up.file = some mapped ∧ up.Inside mapped ∧
        up.chunk mapped = slice f.content r.1 (r.2 - r.1) := by
  -- the first file of this digest has the same bytes
  obtain ⟨recorded, hrecorded, hat⟩ := h.exists_recordedAt hreach
  obtain ⟨file, hfile⟩ := TorrentInfo.exists_getOneFileOfSameFileid (t := ⟨torrent⟩) hrecorded
  obtain ⟨hmem, hid⟩ := TorrentInfo.getOneFileOfSameFileid_mem hfile
  obtain ⟨names', f', hreach', hat'⟩ := h.exists_reaches hmem
  have hcontent : f'.content = f.content :=
    h.distinct _ _ _ _ hreach' hreach (hat'.checkSum.symm.trans (hid.trans hat.checkSum))
  have hpieces : pieces f' chunkSize = pieces f chunkSize := by rw [pieces, pieces, hcontent]
  have htiles := hat'.recorded.tiles hat'.pos hat'.canRead hat'.ne_nil (h.sizes names' f' hreach')
  rw [hat.checkSum] at hfile
  have hcounts : ∀ file ∈ torrent.file, file.chunkCount < 2 ^ 31 := by
    intro file hmem
    obtain ⟨names, f, hreach, hat⟩ := h.exists_reaches hmem
    exact hat.recorded.chunkCount_eq ▸ hcount names f hreach
  obtain ⟨up, mapped, hhandle, hmapped, hin, hsize, hdigest⟩ :=
    hs.granted hcounts hown hfile hthere hclient hhost clientid
  refine ⟨up, mapped, hhandle, hmapped, hin, hdetermined r (List.mem_of_getElem? hr) _ ?_ ?_⟩
  · have hlength := UploadTask.length_chunk hin
    rw [htiles.size c r (hpieces ▸ hr)] at hsize
    omega
  · rw [hdigest, htiles.checksum c r (hpieces ▸ hr), hcontent]

variable [DecidableEq ι]

/-- The job of one client keeps what holds of it, if it makes no copy in a directory. -/
theorem step_whole {t : TorrentInfo} {l : LocalFileInfo} {i : ι} (hs : OwnerSearch.Whole sha1 t l (s.client i))
    (hinto : s.JobsMeet (fun j b => j.intoDirectory b = false) a) (h : step sha1 who s a = some s') :
    OwnerSearch.Whole sha1 t l (s'.client i) := by
  cases step_moved h i with
  | stays hu => rw [hu]; exact hs
  | goesOn b ha hhear hstep =>
    refine OwnerSearch.step_whole hs ?_ hstep
    rintro b' rfl
    rwa [ha] at hinto
  | answers info' reply hanswered hu => rw [hu]; exact hanswered.whole hs

theorem run_advances {as : List (Action ι)} (hrun : exec (step sha1 who) s as = some s') (i : ι) :
    (s.client i).job.jobInfo.Advances (s'.client i).job.jobInfo :=
  exec_invariant (I := fun u => (s.client i).job.jobInfo.Advances (u.client i).job.jobInfo)
    (fun hadv hstep => hadv.trans (step_advances hstep i)) hrun (.refl _)

/-- What holds in every state, where paths are distinct and no copy is made in a directory. -/
theorem run_sound {t : TorrentInfo} {as : List (Action ι)}
    (hdistinct : ∀ i fileid, ((s.client i).job.jobInfo.localFileInfo.paths fileid).Nodup)
    (hinto : Always (step sha1 who) (JobsMeet fun j b => j.intoDirectory b = false) s as)
    (hrun : exec (step sha1 who) s as = some s') (hs : s.Sound sha1 who t) : s'.Sound sha1 who t := by
  refine (exec_invariant_of_always (I := fun u => u.Sound sha1 who t ∧
    ∀ i fileid, ((u.client i).job.jobInfo.localFileInfo.paths fileid).Nodup) ?_ hinto hrun ⟨hs, hdistinct⟩).1
  rintro u a u' ⟨hu, hnodup⟩ hin hstep
  refine ⟨step_sound hu (hin.mono fun i b hb => ?_) hstep, fun i => (step_advances hstep i).localFileInfo ▸ hnodup i⟩
  exact Job.sparesFiles_of_not_intoDirectory (hu.backing i).laid (hnodup i) (hu.backing i).copies hb

/-- **A directory spreads as it was published.** It has been made into a torrent by `MakeTorrent`; no size in it is a
multiple of the size of a chunk, and no two contents have one digest. Of the clients of a swarm each has either published
it or begun to download it, and they have gone on and answered each other in any order, while others have told them
anything, and no copy has been made in a directory. Then who has published has every chunk. What a client sends of a
chunk that it has, wherever that has come from, is what was published, if the digests determine the file. And when a client's download is at its end with no bit clear,
it has every file. -/
theorem spreads (hnode : node.WellFormed)
    (hmake : makeTorrent sha1 made path (some node) ((1 : Int32) <<< 20) 1 "127.0.0.1:9977" ⟨[]⟩ =
      .ok ((.errorOk, some torrent), e'))
    (hsizes : ∀ names f, node.Reaches names f → ¬((1 : Int32) <<< 20).toInt ∣ f.content.length)
    (hdistinct : ∀ names f names' f', node.Reaches names f → node.Reaches names' f' → sha1 f.content = sha1 f'.content →
      f.content = f'.content)
    (hcount : ∀ names f, node.Reaches names f → (pieces f ((1 : Int32) <<< 20)).length < 2 ^ 31)
    {s₀ : Swarm ι} {as : List (Action ι)}
    (hmember : ∀ i, Publishes sha1 made path node (s₀.client i) ∨ Downloads path node torrent (s₀.client i))
    (hreplies : ∀ i, s₀.replies i = [])
    (hinto : Always (step sha1 who) (JobsMeet fun j b => j.intoDirectory b = false) s₀ as)
    (hrun : exec (step sha1 who) s₀ as = some s) :
    (∀ i names f c, Publishes sha1 made path node (s₀.client i) → node.Reaches names f →
      c < (pieces f ((1 : Int32) <<< 20)).length → s.Owns i (sha1 f.content) c) ∧
    (∀ q names f c r, node.Reaches names f → Determined sha1 ((1 : Int32) <<< 20) f →
      (pieces f ((1 : Int32) <<< 20))[c]? = some r → s.Owns q (sha1 f.content) c →
        (s.client q).job.jobInfo.downloadInfo.isJobRemoved = false → ∀ (call : Call) (host clientid : String),
          call.client = (s.client q).coolClient → call.peerHost = .ok host →
            ∃ up mapped, handleUploadRequest call (some (.uploadRequest ⟨clientid, sha1 f.content, Int64.ofNat c⟩)) ⟨none⟩ =
                (.ok (.errorOk, some up), ⟨some Retcode.errorOk.value⟩) ∧
              (s.client q).job.disk.find? up.file = some mapped ∧ up.Inside mapped ∧
                up.chunk mapped = slice f.content r.1 (r.2 - r.1)) ∧
    ∀ i names f, Downloads path node torrent (s₀.client i) → (s.client i).job.pc = .ended →
      (∀ fileid ∈ (s.client i).job.jobInfo.fileidlist, ∀ pos,
        (s.client i).job.jobInfo.downloadInfo.bit fileid pos ≠ some false) → node.Reaches names f →
      ∃ rel content, path.parent ++ rel = path.below names ∧ (s.client i).job.disk.find? ("/tmp/" ++ rel) = some content ∧
        SameDigests sha1 ((1 : Int32) <<< 20) f content ∧ (Determined sha1 ((1 : Int32) <<< 20) f → content = f.content) := by
  have h : Recording sha1 ((1 : Int32) <<< 20) path node torrent := ⟨hnode, makeTorrent_recordedAt hmake, hsizes, hdistinct⟩
  have hjoining : ∀ i, Joining sha1 ⟨torrent⟩ (s₀.client i) := by
    intro i
    obtain hpublishes | hdownloads := hmember i
    · exact (hpublishes.joining h hmake).1
    · exact (hdownloads.joining h).1
  have hdistinct : ∀ i fileid, ((s₀.client i).job.jobInfo.localFileInfo.paths fileid).Nodup := by
    intro i
    obtain hpublishes | hdownloads := hmember i
    · exact (hpublishes.joining h hmake).2.1
    · obtain ⟨-, _, _, _, hwhole, -⟩ := hdownloads.joining h
      exact hwhole.job.localFileInfo ▸ hwhole.job.distinct
  have hs : s.Sound sha1 who ⟨torrent⟩ := run_sound hdistinct hinto hrun (sound_of_joining hjoining hreplies)
  refine ⟨fun i names f c hpublishes hreach hc => ?_, ?_, ?_⟩
  · have hown : s₀.Owns i (sha1 f.content) c := (hpublishes.joining h hmake).2.2 names f hreach c hc
    exact hown.of_advances (run_advances hrun i)
  · intro q names f c r hreach hdetermined hr hown hthere call host clientid hclient hhost
    exact hs.sent h hcount hreach hdetermined hr hown hthere hclient hhost clientid
  · intro i names f hdownloads hended hall hreach
    obtain ⟨-, uploadTotal, downloadTotal, disk, hwhole, hadv⟩ := hdownloads.joining h
    have hjob := (exec_invariant_of_always step_whole hinto hrun hwhole).job
    exact h.downloaded hjob (hadv.trans (run_advances hrun i)) hended hall names f hreach

/-! ### Two clients -/

/-- The disk of the client that publishes the file, with the torrent file. -/
def seedSource : Disk := (∅ : Disk).insert "/srv/a" [7]

/-- Client `0` has published the file, and the others have begun to download it. -/
def seedSwarm : Swarm ℕ where
  client i :=
    if i = 0 then
      let (info, disk) := JobInfo.new seedTorrent "/srv/" (allFiles seedTorrent) 0 0 (fun _ => none)
        (seedSource.insert "/t" (Torrent.message.encode seedTorrent))
      .start { info with downloadInfo :=
        { info.downloadInfo with bitmapMap := info.downloadInfo.bitmapMap.insert "sum" (some [true]) } }.resumed .new disk
    else
      let (info, disk) := JobInfo.new seedTorrent "/tmp/" (allFiles seedTorrent) 0 0 (fun _ => none) seedDisk
      .start info.resumed (LocalSockManager.new.connectTracker "127.0.0.1:9977" (some 9)).2 disk
  replies _ := []

/-- Client `1` fetches the file from client `0`, and its job ends. -/
def seedSwarmRun : List (Action ℕ) :=
  fetchFromFirst seedSwarm "sum" ++ (Job.oneChunkRun.drop 12 ++
    [.run .go, .run .go, .run .go, .run (.top 0), .run .go, .run .go] : List Job.Action).map fun b => .client 1 (.job b)

theorem publishes_seedSwarm : Publishes Job.oneChunkSha1 ⟨"c", "now", true, true⟩ ⟨"/srv/", "a"⟩ (.file seedFile) (seedSwarm.client 0) := by
  have hmain : ∃ c' disk', mainPublish Job.oneChunkSha1 ⟨"c", "now", true, true⟩ ⟨0, 0, fun _ => none⟩ (fun _ => none)
      ⟨"/srv/", "a"⟩ (some (.file seedFile)) "/t" .new seedSource ⟨[]⟩ = (.ok (.waits (some 0)), c', disk') := by
    rw [mainPublish, makeTorrent_seedFile]
    dsimp only
    rw [parseTorrent_encode (SortedMap.find?_insert_self _ _ _)]
    exact ⟨_, _, rfl⟩
  obtain ⟨c', disk', hmain⟩ := hmain
  obtain ⟨rfl, d, hset, hinfo⟩ := mainPublish_shared makeTorrent_seedFile hmain
  obtain rfl := Except.ok.inj hset
  exact .main hmain (fun _ => rfl) hinfo fun names f hreach => by
    obtain ⟨rfl, rfl⟩ := reaches_seedFile.mp hreach
    exact ⟨by decide, rfl⟩

theorem downloads_seedSwarm {i : ℕ} (hi : i ≠ 0) : Downloads ⟨"/srv/", "a"⟩ (.file seedFile) seedTorrent (seedSwarm.client i) := by
  have hfile : seedDisk.find? "/t" = some (Torrent.message.encode seedTorrent) := SortedMap.find?_insert_self _ _ _
  obtain ⟨c', disk', hmain⟩ : ∃ c' disk', mainDownload .wire ⟨0, 0, fun _ => none⟩ (.ok ()) "/t" .new seedDisk =
      (.ok (.waits (some 0)), c', disk') := by
    rw [mainDownload, parseTorrent_encode hfile]
    exact ⟨_, _, rfl⟩
  obtain ⟨rfl, hinfo⟩ := mainDownload_started (parseTorrent_encode hfile) hmain
  simp only [seedSwarm, if_neg hi]
  refine .main hfile hmain (fun _ => rfl) hinfo fun names f rel content hreach hrel hcontent => ?_
  obtain ⟨rfl, rfl⟩ := reaches_seedFile.mp hreach
  obtain rfl : rel = "a" := (String.append_right_inj "/srv/").mp hrel
  have hnone : seedDisk.find? ("/tmp/" ++ "a") = none := rfl
  rw [hnone] at hcontent
  cases hcontent

/-- `run` has returned. -/
def isEnded : Job.Pc → Bool
  | .ended => true
  | _ => false

/-- The file has spread. -/
theorem spreads_seedSwarm : ∃ s, exec (step Job.oneChunkSha1 sharedNode) seedSwarm seedSwarmRun = some s ∧
    s.Owns 0 "sum" 0 ∧ (s.client 1).job.disk.find? "/tmp/a" = some [7] ∧
      ∃ up mapped, handleUploadRequest { Serving.calmCall with client := (s.client 1).coolClient }
          (some (.uploadRequest ⟨"d", "sum", 0⟩)) ⟨none⟩ = (.ok (.errorOk, some up), ⟨some Retcode.errorOk.value⟩) ∧
        (s.client 1).job.disk.find? up.file = some mapped ∧ up.chunk mapped = [7] := by
  have hrun : (exec (step Job.oneChunkSha1 sharedNode) seedSwarm seedSwarmRun).map (fun s =>
      (isEnded (s.client 1).job.pc, (s.client 1).job.jobInfo.fileidlist, (s.client 1).job.jobInfo.downloadInfo.isJobRemoved,
        (s.client 1).job.jobInfo.downloadInfo.bitmapMap.find? "sum")) = some (true, ["sum"], false, some (some [true])) := by
    decide +kernel
  obtain ⟨s, hexec, hend⟩ := Option.map_eq_some_iff.mp hrun
  simp only [Prod.mk.injEq] at hend
  obtain ⟨hended, hids, hthere, hbits⟩ := hend
  have hpc : (s.client 1).job.pc = .ended := by
    generalize (s.client 1).job.pc = pc at hended ⊢
    cases pc <;> first | rfl | cases hended
  have hall : ∀ fileid ∈ (s.client 1).job.jobInfo.fileidlist, ∀ pos,
      (s.client 1).job.jobInfo.downloadInfo.bit fileid pos ≠ some false := by
    intro fileid hmem pos
    rw [hids] at hmem
    obtain rfl := List.mem_singleton.mp hmem
    rw [DownloadInfo.bit, hbits]
    cases pos <;> simp
  have hown : s.Owns 1 "sum" 0 := ⟨by rw [hids]; exact List.mem_singleton_self _, by rw [DownloadInfo.bit, hbits]; rfl⟩
  have hinto : Always (step Job.oneChunkSha1 sharedNode) (JobsMeet fun j b => j.intoDirectory b = false) seedSwarm
      seedSwarmRun := by
    decide +kernel
  have hspread := @spreads Job.oneChunkSha1 ℕ sharedNode s ⟨"c", "now", true, true⟩ ⟨"/srv/", "a"⟩
    (.file seedFile) seedTorrent _ _ trivial makeTorrent_seedFile ?_ ?_ ?_ seedSwarm seedSwarmRun ?_ (fun _ => rfl) hinto
    hexec
  · obtain ⟨hpublisher, hsent, hdownloaded⟩ := hspread
    have hreach := reaches_seedFile.mpr ⟨rfl, rfl⟩
    obtain ⟨rel, content, hrel, hcontent, -, heq⟩ := hdownloaded 1 [] seedFile (downloads_seedSwarm (by decide)) hpc hall hreach
    obtain rfl : rel = "a" := (String.append_right_inj "/srv/").mp hrel
    obtain ⟨up, mapped, hup, hmapped, -, hchunk⟩ := hsent 1 [] seedFile 0 (0, 1) hreach determined_seedFile
      (by rw [pieces_seedFile]; rfl) hown hthere { Serving.calmCall with client := (s.client 1).coolClient } "peer" "d" rfl rfl
    exact ⟨s, hexec, hpublisher 0 [] seedFile 0 publishes_seedSwarm hreach (by rw [pieces_seedFile]; decide),
      hcontent.trans (congrArg some (heq determined_seedFile)), up, mapped, hup, hmapped, hchunk⟩
  · rintro names f hreach
    obtain ⟨rfl, rfl⟩ := reaches_seedFile.mp hreach
    decide
  · rintro names f names' f' hreach hreach' -
    obtain ⟨-, rfl⟩ := reaches_seedFile.mp hreach
    obtain ⟨-, rfl⟩ := reaches_seedFile.mp hreach'
    rfl
  · rintro names f hreach
    obtain ⟨rfl, rfl⟩ := reaches_seedFile.mp hreach
    simp [pieces_seedFile]
  · intro i
    by_cases hi : i = 0
    · subst hi
      exact .inl publishes_seedSwarm
    · exact .inr (downloads_seedSwarm hi)

end Swarm

end CoolDown

import CoolDown.Client.PercentageScale
import CoolDown.Client.ReportHandOff
import CoolDown.System.Jobs
import CoolDown.System.TrackerService

/-!
# What the tracker believes of a client

The threads of a client's jobs set bits, the collector takes percentages of the bitmaps, the reporter sends them to the
tracker, one at a time, and the tracker writes them to its table, where other clients find them. Each of these is behind
the one before.

## The model

A `Reporting` client is a `RunningClient` with the collector and the reporter of `ReportHandOff`, and a `Network` is any
number of them with their `TrackerService`; client `i` is on connection `i`, and its torrents name this tracker. A report
is a call to the tracker, and the other calls may be made at any time. While a report is on its way the reporter waits;
what the call returns is not asked, and it may not be made at all, if there is no connection.

## What is proved

* `RunningClient.step_grows`: whatever happens, a client has the bits that it had.
* `step_truthful`: what is on its way to the tracker, and what has got there, was right and still is, or less.
* `never_overstated`: so no more of a file is said to be at a client than is on its disk, if the client has not published it.
-/

namespace CoolDown

open Library

/-! ### Percentages of bitmaps -/

/-- More bits give no smaller percentage. -/
def MonotonePercentage (percentage : Bitmap → Int32) : Prop :=
  ∀ bits bits' : Bitmap, bits.length = bits'.length → (∀ pos : ℕ, bits[pos]? = some true → bits'[pos]? = some true) →
    percentage bits ≤ percentage bits'

/-- There are no fewer bits set in a bitmap that has more. -/
theorem count_true_le {bits bits' : Bitmap} (hlength : bits.length = bits'.length)
    (h : ∀ pos : ℕ, bits[pos]? = some true → bits'[pos]? = some true) : bits.count true ≤ bits'.count true := by
  induction bits generalizing bits' with
  | nil => exact Nat.zero_le _
  | cons b bits ih =>
    obtain ⟨b', bits', rfl⟩ := List.exists_cons_of_length_eq_add_one hlength.symm
    have hrest := ih (Nat.succ.inj hlength) fun pos hpos => h (pos + 1) hpos
    cases b with
    | true =>
      obtain rfl : b' = true := Option.some.inj (h 0 rfl)
      rw [List.count_cons_self, List.count_cons_self]
      exact Nat.succ_le_succ hrest
    | false =>
      rw [List.count_cons_of_ne (by simp)]
      exact hrest.trans List.count_le_count_cons

/-- The percentage as the collector takes it, but for rounding, is one of these. -/
theorem monotonePercentage_exactPercentage : MonotonePercentage exactPercentage := by
  intro bits bits' hlength h
  rw [Int32.le_iff_toInt_le, toInt_exactPercentage, toInt_exactPercentage, ← hlength]
  exact_mod_cast Nat.div_le_div_right (Nat.mul_le_mul_left 100 (count_true_le hlength h))

/-- The bits of the file make so much of it. -/
def DownloadInfo.Reaches (percentage : Bitmap → Int32) (d : DownloadInfo) (fileid : String) (p : Int32) : Prop :=
  ∃ bits : Bitmap, (∀ pos : ℕ, d.bit fileid pos = bits[pos]?) ∧ p ≤ percentage bits

/-- There are the same bits, and those that were set are. -/
def DownloadInfo.Grows (d d' : DownloadInfo) : Prop :=
  ∀ fileid pos, (d'.bit fileid pos).isSome = (d.bit fileid pos).isSome ∧
    (d.bit fileid pos = some true → d'.bit fileid pos = some true)

namespace DownloadInfo

variable {percentage : Bitmap → Int32} {d d' : DownloadInfo}

theorem Grows.of_bitmapMap (h : d'.bitmapMap = d.bitmapMap) : d.Grows d' := by
  intro fileid pos
  have hbit : d'.bit fileid pos = d.bit fileid pos := by rw [bit, bit, h]
  exact ⟨congrArg Option.isSome hbit, fun hset => hbit.trans hset⟩

/-- A step of a job. -/
theorem Grows.of_step {sha1 : Bytes → String} {j j' : Job} {a : Job.Action} (h : j.step sha1 a = some j') :
    j.jobInfo.downloadInfo.Grows j'.jobInfo.downloadInfo := by
  refine fun fileid pos => ⟨Job.step_isSome_bit h fileid pos, fun hset => ?_⟩
  rcases (Job.step_advances h).bit fileid pos with hsame | hset'
  · exact hsame.trans hset
  · exact hset'

/-- What is reached stays reached. -/
theorem Reaches.of_grows (hmono : MonotonePercentage percentage) {fileid : String} {p : Int32}
    (h : d.Reaches percentage fileid p) (hgrows : d.Grows d') : d'.Reaches percentage fileid p := by
  obtain ⟨bits, hbits, hp⟩ := h
  have hafter : ∀ pos, d'.bit fileid pos =
      ((List.range bits.length).map fun pos => (d'.bit fileid pos).getD false)[pos]? := by
    intro pos
    have hsome := (hgrows fileid pos).1
    rw [hbits] at hsome
    rw [List.getElem?_map]
    by_cases hlt : pos < bits.length
    · rw [List.getElem?_eq_getElem hlt, Option.isSome_some] at hsome
      obtain ⟨b, hb⟩ := Option.isSome_iff_exists.mp hsome
      rw [List.getElem?_range hlt, Option.map_some, hb, Option.getD_some]
    · rw [List.getElem?_eq_none (not_lt.mp hlt), Option.isSome_none, Option.isSome_eq_false_iff, Option.isNone_iff_eq_none] at hsome
      rw [hsome, List.getElem?_eq_none (by rw [List.length_range]; exact not_lt.mp hlt), Option.map_none]
  refine ⟨_, hafter, Int32.le_trans hp (hmono _ _ (by simp) fun pos hpos => ?_)⟩
  rw [← hafter]
  exact (hgrows fileid pos).2 ((hbits pos).trans hpos)

end DownloadInfo

/-! ### One client -/

namespace RunningClient

variable {sha1 : Bytes → String} {s s' : RunningClient}

/-- The jobs that there are stay, with their bits. -/
def Grows (s s' : RunningClient) : Prop :=
  ∀ handle p, s.part handle = some p →
    ∃ p', s'.part handle = some p' ∧ p.info.downloadInfo.Grows p'.info.downloadInfo

theorem Grows.refl (s : RunningClient) : s.Grows s := fun _ p hp => ⟨p, hp, .of_bitmapMap rfl⟩

theorem Grows.of_sameBitmaps (h : s.SameBitmaps s') : s.Grows s' := by
  intro handle p hp
  obtain ⟨p', hp'⟩ := h.2 handle p hp
  obtain ⟨q, d, hq, hd, rfl⟩ := h.1 handle p' hp'
  obtain rfl := Option.some.inj (hp.symm.trans hq)
  exact ⟨_, hp', .of_bitmapMap hd⟩

/-- A new job leaves the others. -/
theorem grows_addNewJob {m₀ : LocalSockManager × Disk} (hs : Orderly sha1 m₀ s) (info : JobInfo) (torrentPath torrentId : String)
    (disk : Disk) :
    s.Grows { s with client := (s.client.registerTorrent torrentId).addNewJob info torrentPath, disk := disk } := by
  intro handle p hp
  have hne : handle ≠ s.client.jobIndex := by
    rintro rfl
    rw [hs.part_jobIndex] at hp
    cases hp
  exact ⟨p, ((part_addNewJob torrentId (hs.new _ le_rfl)).2 handle hne).trans hp, .of_bitmapMap rfl⟩

/-- **A client keeps its jobs and their bits.** -/
theorem step_grows {m₀ : LocalSockManager × Disk} (hs : Orderly sha1 m₀ s) {a : Action} (h : s.step sha1 a = some s') :
    s.Grows s' := by
  cases a with
  | addNewDownloadJob env torrentPath torrent needs topPath =>
    obtain rfl := Option.some.inj h
    unfold CoolClient.addNewDownloadJob
    split_ifs
    · exact .refl s
    · exact grows_addNewJob hs _ _ _ _
  | addNewUploadJob env publish torrentPath topPath torrent =>
    obtain rfl := Option.some.inj h
    unfold CoolClient.addNewUploadJob
    split_ifs
    · exact .refl s
    · dsimp only
      split
      · exact fun handle p hp => ⟨p, hp, .of_bitmapMap rfl⟩
      · exact grows_addNewJob hs _ _ _ _
  | removeJob handle =>
    rw [step] at h
    split at h
    · obtain rfl := Option.some.inj h
      exact .refl s
    · next info hfind =>
      obtain rfl := Option.some.inj h
      exact .of_sameBitmaps (sameBitmaps_removeJob hfind)
  | job handle a =>
    obtain ⟨p, j', hp, hstep, rfl⟩ := step_job h
    intro handle' q hq
    by_cases heq : handle' = handle
    · subst heq
      obtain rfl := Option.some.inj (hp.symm.trans hq)
      exact ⟨_, part_store_self j', .of_step hstep⟩
    · exact ⟨q, (part_store_of_ne heq).trans hq, .of_bitmapMap rfl⟩
  | collect percentage =>
    obtain rfl := Option.some.inj h
    exact .of_sameBitmaps (sameBitmaps_collect percentage)

/-- Some job of the client has so much of the file. -/
def Reaches (percentage : Bitmap → Int32) (s : RunningClient) (fileid : String) (p : Int32) : Prop :=
  ∃ handle part, s.part handle = some part ∧ part.info.downloadInfo.Reaches percentage fileid p

theorem Reaches.of_grows {percentage : Bitmap → Int32} (hmono : MonotonePercentage percentage) {fileid : String} {p : Int32}
    (h : s.Reaches percentage fileid p) (hgrows : s.Grows s') : s'.Reaches percentage fileid p := by
  obtain ⟨handle, part, hpart, hreaches⟩ := h
  obtain ⟨part', hpart', hbits⟩ := hgrows handle part hpart
  exact ⟨handle, part', hpart', hreaches.of_grows hmono hbits⟩

/-- What a round of the collector reports is so. -/
theorem reaches_of_collectJobs {percentage : Bitmap → Int32} {infos : List ProgressInfo}
    (h : (Collector.collectJobs percentage s.listed.entries s.listed).1 = .ok infos) :
    ∀ info ∈ infos, s.Reaches percentage info.fileid info.percentage := by
  intro info hinfo
  obtain ⟨⟨handle, j⟩, he, bits, hbits, hp⟩ := Collector.mem_of_collectJobs h info hinfo
  have hfind := SortedMap.find?_eq_some.mpr he
  rw [listed, SortedMap.find?_map] at hfind
  obtain ⟨i, hi, rfl⟩ := Option.map_eq_some_iff.mp hfind
  refine ⟨handle, ⟨i, s.activity handle⟩, by rw [part, hi]; rfl, bits, fun pos => ?_, hp ▸ Int32.le_refl _⟩
  rw [DownloadInfo.bit, hbits]

end RunningClient

/-! ### On the way to the tracker -/

namespace ReportHandOff

variable {percentage : Bitmap → Int32} {s s' : ReportHandOff}

/-- The reports that have been made and not been sent. -/
def held (s : ReportHandOff) : List ProgressInfo :=
  s.progressToReport.getD [] ++ (s.desk.progressInfoToReport ++ s.reporter.hand)

/-- Where reports come from: they were there, or a round has made them. -/
theorem mem_held_of_step {a : Action} (h : step percentage s a = some s') {info : ProgressInfo} (hinfo : info ∈ s'.held) :
    info ∈ s.held ∨ a = .collect ∧
      ∃ infos, (Collector.collectJobs percentage s.desk.jobs.entries s.desk.jobs).1 = .ok infos ∧ info ∈ infos := by
  cases a with
  | collect =>
    rw [step] at h
    split_ifs at h
    split at h
    · obtain rfl := Option.some.inj h
      exact .inl hinfo
    · next infos jobs hround =>
      obtain rfl := Option.some.inj h
      rcases List.mem_append.mp hinfo with hinfo | hinfo
      · exact .inr ⟨rfl, infos, congrArg Prod.fst hround, hinfo⟩
      · exact .inl (List.mem_append_right _ hinfo)
  | handOff =>
    rw [step] at h
    split at h
    · cases h
    · next infos hinfos =>
      split_ifs at h
      · obtain rfl := Option.some.inj h
        exact .inl (List.mem_append_right _ hinfo)
      · obtain rfl := Option.some.inj h
        have hinfo : info ∈ infos ++ s.reporter.hand := hinfo
        rcases List.mem_append.mp hinfo with hinfo | hinfo
        · exact .inl (List.mem_append_left _ (by rw [hinfos]; exact hinfo))
        · exact .inl (List.mem_append_right _ (List.mem_append_right _ hinfo))
  | look =>
    rw [step] at h
    split_ifs at h with hloop <;> obtain rfl := Option.some.inj h
    all_goals exact .inl (by simpa [held, Reporter.hand, hloop] using hinfo)
  | wake =>
    rw [step] at h
    split_ifs at h with hwaiting
    obtain rfl := Option.some.inj h
    exact .inl (by simpa [held, Reporter.hand, hwaiting] using hinfo)
  | swap =>
    rw [step] at h
    split_ifs at h with hswapping
    obtain rfl := Option.some.inj h
    exact .inl (by simpa [held, Reporter.hand, hswapping] using hinfo)
  | send ret =>
    rw [step] at h
    split at h
    · next oneInfo rest hsending =>
      obtain rfl := Option.some.inj h
      refine .inl ?_
      simp only [held, hsending, Reporter.hand, List.mem_append, List.mem_cons] at hinfo ⊢
      cases ret with
      | ok ret => tauto
      | error e => simp only [List.not_mem_nil, or_false] at hinfo; tauto
    · cases h
  | again =>
    rw [step] at h
    split_ifs at h with hdone
    obtain rfl := Option.some.inj h
    exact .inl (by simpa [held, Reporter.hand, hdone] using hinfo)
  | rest jobs =>
    obtain rfl := Option.some.inj h
    exact .inl hinfo
  | exit =>
    obtain rfl := Option.some.inj h
    exact .inl hinfo

/-- A round leaves the jobs as the collector does. -/
theorem jobs_of_collect (h : step percentage s .collect = some s') :
    s'.desk.jobs = (Collector.collectJobs percentage s.desk.jobs.entries s.desk.jobs).2 := by
  rw [step] at h
  split_ifs at h
  split at h
  · next hround =>
    obtain rfl := Option.some.inj h
    rw [hround]
  · next hround =>
    obtain rfl := Option.some.inj h
    rw [hround]

end ReportHandOff

/-- A client with the collector and the reporter. -/
structure Reporting where
  running : RunningClient
  reports : ReportHandOff

namespace Reporting

/-- A round of the collector, on the jobs as they are. -/
def collect (percentage : Bitmap → Int32) (c : Reporting) : Option Reporting :=
  (exec (ReportHandOff.step percentage) c.reports [.rest c.running.listed, .collect]).map fun reports =>
    ⟨c.running.collected reports.desk.jobs, reports⟩

variable {percentage : Bitmap → Int32} {sha1 : Bytes → String} {c c' : Reporting}

/-- All reports that have not been sent are so. -/
def Truthful (percentage : Bitmap → Int32) (c : Reporting) : Prop :=
  ∀ info ∈ c.reports.held, c.running.Reaches percentage info.fileid info.percentage

/-- The round, as the client and the reports see it. -/
theorem collect_cases (h : c.collect percentage = some c') :
    c.running.step sha1 (.collect percentage) = some c'.running ∧
      ∀ info ∈ c'.reports.held, info ∈ c.reports.held ∨
        ∃ infos, (Collector.collectJobs percentage c.running.listed.entries c.running.listed).1 = .ok infos ∧ info ∈ infos := by
  obtain ⟨reports, hreports, rfl⟩ := Option.map_eq_some_iff.mp h
  obtain ⟨u, hu, hlast⟩ := exec_cons_eq_some.mp hreports
  obtain ⟨v, hv, hnil⟩ := exec_cons_eq_some.mp hlast
  obtain rfl := Option.some.inj hnil
  obtain rfl := Option.some.inj hu
  refine ⟨?_, fun info hinfo => ?_⟩
  · rw [ReportHandOff.jobs_of_collect hv]
    rfl
  · rcases ReportHandOff.mem_held_of_step hv hinfo with hinfo | ⟨-, hinfos⟩
    · exact .inl hinfo
    · exact .inr hinfos

end Reporting

/-! ### The network -/

/-- The clients and their tracker. -/
structure Network where
  service : TrackerService
  client : ℕ → Reporting

namespace Network

/-- What happens next. -/
inductive Action where
  /-- Something becomes of the jobs of a client. -/
  | jobs (i : ℕ) (a : RunningClient.Action)
  /-- The collector of a client goes a round. -/
  | collect (i : ℕ)
  /-- It hands off, or the reporter goes on. -/
  | report (i : ℕ) (a : ReportHandOff.Action)
  /-- The reporter calls `ReportProgress`. -/
  | reportProgress (i : ℕ)
  /-- Another call is made, or a call goes on. -/
  | tracker (a : TrackerService.Action)

/-- The reporter waits for its call to return. -/
def waits : ReportHandOff.Action → ServicePhase → Bool
  | .send _, .sent (.reportProgress ..) _ | .send _, .replied (.reportProgress ..) _ => true
  | _, _ => false

variable (sha1 : Bytes → String) (percentage : Bitmap → Int32) (who : ℕ → TrackerClient)

/-- Clients without jobs, which have not called the tracker. -/
def start (db : Tracker.Database) (m₀ : ℕ → LocalSockManager × Disk) : Network :=
  ⟨.start who db, fun i => ⟨.start (m₀ i).1 (m₀ i).2, .new⟩⟩

/-- One step: `none` where it is not possible. -/
def step (s : Network) : Action → Option Network
  | .jobs _ (.collect _) => none
  | .jobs i a =>
    ((s.client i).running.step sha1 a).map fun running =>
      { s with client := Function.update s.client i { s.client i with running } }
  | .collect i => ((s.client i).collect percentage).map fun c => { s with client := Function.update s.client i c }
  | .report _ .collect | .report _ (.rest _) => none
  | .report i a =>
    if waits a (s.service.phase i) then none
    else (ReportHandOff.step percentage (s.client i).reports a).map fun reports =>
      { s with client := Function.update s.client i { s.client i with reports } }
  | .reportProgress i =>
    match (s.client i).reports.reporter.hand with
    | [] => none
    | oneInfo :: _ =>
      (s.service.step who (.call i (.reportProgress oneInfo.fileid oneInfo.percentage))).map fun service => { s with service }
  | .tracker (.call _ (.reportProgress ..)) => none
  | .tracker a => (s.service.step who a).map fun service => { s with service }

/-- What is asked of a step: jobs are added as `Careful` says, the tracker and the connections work as `Calm` says, and the
client does not publish the file. -/
def Fair (fileid id : String) (s : Network) : Action → Prop
  | .jobs i a => RunningClient.Careful sha1 (s.client i).running a
  | .collect _ | .report _ _ => True
  | .reportProgress i => ∀ oneInfo rest, (s.client i).reports.reporter.hand = oneInfo :: rest →
    TrackerService.Calm who s.service (.call i (.reportProgress oneInfo.fileid oneInfo.percentage))
  | .tracker a => TrackerService.Calm who s.service a ∧
    ∀ i, (who i).clientid = id → a ≠ .call i (.publishResourceToTracker fileid)

variable {sha1 percentage who} {s s' : Network}

/-! ### What the steps do -/

/-- What a step does to the clients and to the tracker. -/
inductive Moved (sha1 : Bytes → String) (percentage : Bitmap → Int32) (who : ℕ → TrackerClient) (s : Network) :
    Action → Network → Prop where
  | jobs (i : ℕ) (a : RunningClient.Action) (running : RunningClient) (h : (s.client i).running.step sha1 a = some running) :
    Moved sha1 percentage who s (.jobs i a)
      { s with client := Function.update s.client i { s.client i with running := running } }
  | collect (i : ℕ) (c : Reporting) (h : (s.client i).collect percentage = some c) :
    Moved sha1 percentage who s (.collect i) { s with client := Function.update s.client i c }
  | report (i : ℕ) (a : ReportHandOff.Action) (ha : a ≠ .collect) (reports : ReportHandOff)
    (h : ReportHandOff.step percentage (s.client i).reports a = some reports) :
    Moved sha1 percentage who s (.report i a)
      { s with client := Function.update s.client i { s.client i with reports := reports } }
  | reportProgress (i : ℕ) (oneInfo : ProgressInfo) (rest : List ProgressInfo) (service : TrackerService)
    (hhand : (s.client i).reports.reporter.hand = oneInfo :: rest)
    (h : s.service.step who (.call i (.reportProgress oneInfo.fileid oneInfo.percentage)) = some service) :
    Moved sha1 percentage who s (.reportProgress i) { s with service := service }
  | tracker (a : TrackerService.Action) (ha : ∀ i fileid p, a ≠ .call i (.reportProgress fileid p)) (service : TrackerService)
    (h : s.service.step who a = some service) : Moved sha1 percentage who s (.tracker a) { s with service := service }

theorem step_moved {a : Action} (h : step sha1 percentage who s a = some s') : Moved sha1 percentage who s a s' := by
  unfold step at h
  split at h
  · cases h
  · next i a hne =>
    obtain ⟨running, hrunning, rfl⟩ := Option.map_eq_some_iff.mp h
    exact .jobs i a running hrunning
  · next i =>
    obtain ⟨c, hc, rfl⟩ := Option.map_eq_some_iff.mp h
    exact .collect i c hc
  · cases h
  · cases h
  · next i a hne hrest =>
    split_ifs at h
    obtain ⟨reports, hreports, rfl⟩ := Option.map_eq_some_iff.mp h
    exact .report i a (fun ha => hne (ha ▸ rfl)) reports hreports
  · next i =>
    split at h
    · cases h
    · next oneInfo rest hhand =>
      obtain ⟨service, hservice, rfl⟩ := Option.map_eq_some_iff.mp h
      exact .reportProgress i oneInfo rest service hhand hservice
  · cases h
  · next a hne =>
    obtain ⟨service, hservice, rfl⟩ := Option.map_eq_some_iff.mp h
    refine .tracker a ?_ service hservice
    rintro i fileid p rfl
    exact hne i fileid p rfl

/-! ### Nothing is overstated -/

variable (sha1 percentage who) in
/-- The jobs are in order, and what is on its way to the tracker, or has got there, is so. -/
structure Truthful (r : Registry) (m₀ : ℕ → LocalSockManager × Disk) (fileid id : String) (s : Network)
    (t : SharedObject TrackerService.Directory ℕ CallTo Served) : Prop where
  refines : TrackerService.Refines who s.service t
  orderly : ∀ i, RunningClient.Orderly sha1 (m₀ i) (s.client i).running
  held : ∀ i, (s.client i).Truthful percentage
  sent : ∀ i p pack, s.service.phase i = .sent (.reportProgress fileid p) pack →
    (s.client i).running.Reaches percentage fileid p
  unpublished : ∀ i pack, (who i).clientid = id → s.service.phase i ≠ .sent (.publishResourceToTracker fileid) pack
  owners : ∀ p, t.object.registry.owners fileid id = some p → r.owners fileid id = some p ∨
    ∃ i, (who i).clientid = id ∧ (s.client i).running.Reaches percentage fileid p

variable {r : Registry} {m₀ : ℕ → LocalSockManager × Disk} {fileid id : String}
  {t t' : SharedObject TrackerService.Directory ℕ CallTo Served}

/-- A client goes on. -/
theorem Truthful.client (hmono : MonotonePercentage percentage) (hs : Truthful sha1 percentage who r m₀ fileid id s t) {i : ℕ}
    {c : Reporting} (horderly : RunningClient.Orderly sha1 (m₀ i) c.running) (hheld : c.Truthful percentage)
    (hgrows : (s.client i).running.Grows c.running) :
    Truthful sha1 percentage who r m₀ fileid id { s with client := Function.update s.client i c } t := by
  have hreaches : ∀ j fileid p, (s.client j).running.Reaches percentage fileid p →
      (Function.update s.client i c j).running.Reaches percentage fileid p := by
    intro j fileid p h
    by_cases heq : j = i
    · subst heq
      rw [Function.update_self]
      exact h.of_grows hmono hgrows
    · rwa [Function.update_of_ne heq]
  refine ⟨hs.refines, fun j => ?_, fun j => ?_, fun j p pack hj => hreaches _ _ _ (hs.sent j p pack hj), hs.unpublished,
    fun p hp => ?_⟩
  · by_cases heq : j = i
    · subst heq
      simpa using horderly
    · simpa [heq] using hs.orderly j
  · by_cases heq : j = i
    · subst heq
      simpa using hheld
    · simpa [heq] using hs.held j
  · obtain hstart | ⟨j, hj, h⟩ := hs.owners p hp
    · exact .inl hstart
    · exact .inr ⟨j, hj, hreaches _ _ _ h⟩

/-- The tracker goes on, or is called. -/
theorem Truthful.service (hs : Truthful sha1 percentage who r m₀ fileid id s t) {a : TrackerService.Action}
    {service : TrackerService} (h : s.service.step who a = some service) (hcalm : TrackerService.Calm who s.service a)
    (hreport : ∀ i p, a = .call i (.reportProgress fileid p) → (s.client i).running.Reaches percentage fileid p)
    (hpublish : ∀ i, (who i).clientid = id → a ≠ .call i (.publishResourceToTracker fileid)) :
    ∃ t', Truthful sha1 percentage who r m₀ fileid id { s with service := service } t' := by
  obtain ⟨e, t', -, hstep, hrefines⟩ := hs.refines.step hcalm h
  refine ⟨t', hrefines, hs.orderly, hs.held, fun i p pack hi => ?_, fun i pack hid hi => ?_, fun p hp => ?_⟩
  · obtain hi | ha := TrackerService.sent_of_step h hi
    · exact hs.sent i p pack hi
    · exact hreport i p ha
  · obtain hi | ha := TrackerService.sent_of_step h hi
    · exact hs.unpublished i pack hid hi
    · exact hpublish i hid ha
  · obtain heq | ⟨i, call, served, hcalled, hid, heq⟩ := TrackerService.owners_of_step hstep fileid id
    · exact hs.owners p (heq ▸ hp)
    · obtain ⟨pack, hsent⟩ := hs.refines.sent_of_called hcalled
      rw [heq] at hp
      cases call with
      | reportProgress fileid' p' =>
        by_cases hfile : fileid' = fileid
        · subst hfile
          obtain rfl : p' = p := by simpa [TrackerService.has] using hp
          exact .inr ⟨i, hid, hs.sent i p' pack hsent⟩
        · exact hs.owners p (by simpa [TrackerService.has, hfile] using hp)
      | publishResourceToTracker fileid' =>
        have hfile : fileid' ≠ fileid := by
          rintro rfl
          exact hs.unpublished i pack hid hsent
        exact hs.owners p (by simpa [TrackerService.has, hfile] using hp)
      | loginTracker | logoutTracker | requestClients => exact hs.owners p hp

/-- **Every step keeps that.** -/
theorem step_truthful (hmono : MonotonePercentage percentage) (hs : Truthful sha1 percentage who r m₀ fileid id s t) {a : Action}
    (hfair : Fair sha1 who fileid id s a) (h : step sha1 percentage who s a = some s') :
    ∃ t', Truthful sha1 percentage who r m₀ fileid id s' t' := by
  cases step_moved h with
  | jobs i a running hrunning =>
    have hgrows := RunningClient.step_grows (hs.orderly i) hrunning
    refine ⟨t, hs.client hmono (RunningClient.step_orderly (hs.orderly i) hfair hrunning) ?_ hgrows⟩
    exact fun info hinfo => (hs.held i info hinfo).of_grows hmono hgrows
  | collect i c hc =>
    obtain ⟨hrunning, hinfos⟩ := @Reporting.collect_cases percentage sha1 _ _ hc
    have hgrows := RunningClient.step_grows (hs.orderly i) hrunning
    have hcareful : RunningClient.Careful sha1 (s.client i).running (.collect percentage) := trivial
    refine ⟨t, hs.client hmono (RunningClient.step_orderly (hs.orderly i) hcareful hrunning) (fun info hinfo => ?_) hgrows⟩
    obtain hinfo | ⟨infos, hround, hmem⟩ := hinfos info hinfo
    · exact (hs.held i info hinfo).of_grows hmono hgrows
    · exact (RunningClient.reaches_of_collectJobs hround info hmem).of_grows hmono hgrows
  | report i a ha reports hreports =>
    refine ⟨t, hs.client hmono (hs.orderly i) (fun info hinfo => ?_) (.refl _)⟩
    obtain hinfo | ⟨hcollect, -⟩ := ReportHandOff.mem_held_of_step hreports hinfo
    · exact hs.held i info hinfo
    · exact absurd hcollect ha
  | reportProgress i oneInfo rest service hhand hservice =>
    refine hs.service hservice (hfair oneInfo rest hhand) (fun j p ha => ?_) (fun j _ ha => ?_)
    · obtain ⟨rfl, hcall⟩ := TrackerService.Action.call.inj ha
      obtain ⟨rfl, rfl⟩ := CallTo.reportProgress.inj hcall
      refine hs.held i oneInfo (List.mem_append_right _ (List.mem_append_right _ ?_))
      rw [hhand]
      exact List.mem_cons_self
    · cases (TrackerService.Action.call.inj ha).2
  | tracker a ha service hservice =>
    exact hs.service hservice hfair.1 (fun i p hcall => absurd hcall (ha i fileid p)) hfair.2

/-- **The tracker does not overstate what a client has.** Any number of clients add jobs, run them in any order and remove
them, while their collectors and reporters go on and the tracker serves all their calls, in any order. Let percentages be
monotone, and let a client not publish a file. If the tracker says that it has so much of the file, either it said so from the
start, or a job of that client has bits for the file that make at least as much; and each of these that is set stands for a
chunk that is on the client's disk, with the recorded digest. -/
theorem never_overstated (hmono : MonotonePercentage percentage) {db : Tracker.Database} (hdb : Represents db r)
    {as : List Action} (hrun : exec (step sha1 percentage who) (start who db m₀) as = some s)
    (hfair : Always (step sha1 percentage who) (Fair sha1 who fileid id) (start who db m₀) as)
    {row : Tracker.FileOwnerInfoRow} (hrow : s.service.db.fileOwnerInfo.find? (Wire.utf8 fileid, Wire.utf8 id) = some row) :
    r.owners fileid id = some row.percentage ∨
      ∃ i handle j, ∃ bits : Bitmap, (who i).clientid = id ∧ (s.client i).running.job? handle = some j ∧
        (∀ pos : ℕ, j.jobInfo.downloadInfo.bit fileid pos = bits[pos]?) ∧ row.percentage ≤ percentage bits ∧
        ∀ pos : ℕ, bits[pos]? = some true → Job.BackedAt sha1 j.jobInfo.torrentInfo j.jobInfo.localFileInfo
          (s.client i).running.disk fileid pos := by
  obtain ⟨t, ht⟩ : ∃ t, Truthful sha1 percentage who r m₀ fileid id s t := by
    refine exec_invariant_of_always (I := fun s => ∃ t, Truthful sha1 percentage who r m₀ fileid id s t)
      (fun ⟨_, hs⟩ hfair h => step_truthful hmono hs hfair h) hfair hrun
      ⟨_, TrackerService.refines_start hdb, fun i => RunningClient.orderly_start _ _, ?_, ?_, ?_, fun p hp => .inl hp⟩
    · rintro i info ⟨⟩
    · rintro i p pack ⟨⟩
    · rintro i pack - ⟨⟩
  have howner := ht.refines.represents.owners fileid id
  rw [hrow, Option.map_some] at howner
  obtain hstart | ⟨i, hid, handle, part, hpart, bits, hbits, hp⟩ := ht.owners _ howner
  · exact .inl hstart
  · have hsound := (ht.orderly i).separate.holds hpart
    refine .inr ⟨i, handle, _, bits, hid, by rw [RunningClient.job?, hpart]; rfl, hbits, hp, fun pos hpos => ?_⟩
    exact hsound.whole.backing.bits fileid pos ((hbits pos).trans hpos)

/-! ### A report that arrives -/

/-- A client downloads the file of the small torrent, goes on running, and has half a minute pass, until it holds a report. -/
def downloadAndCollect : List Action :=
  .jobs 0 (.addNewDownloadJob ⟨0, 0, fun _ => none⟩ "/t" Job.oneChunkTorrent [⟨"", "a"⟩] "/d/") ::
    ((([.env .resume, .start, .run (.owners (some [⟨"p", "host", 1, 100, [true]⟩]))] ++ Job.oneChunkRun.tail.tail :
        List Job.Action).map fun a => .jobs 0 (.job 0 a)) ++
      (List.replicate 30 [.collect 0, .report 0 .handOff]).flatten ++ [.report 0 .look, .report 0 .swap])

/-- The tracker gets the report. -/
def hearReport : TrackerService.Action := .handle 0 ⟨.simple, []⟩ 0 TrackerService.atOnce

/-- Two clients, each with a connection to a peer. -/
def twoDownloaders : Network :=
  start TrackerService.twoClients ⟨∅, ∅⟩ fun _ => ((LocalSockManager.new.connectClient "p" (some 0)).2, ∅)

/-- A client goes on by itself, and its jobs make no copy in a directory. -/
def goesOn (s : Network) : Action → Bool
  | .jobs i a => (s.client i).running.goesOn a
  | .collect _ | .report _ _ => true
  | .reportProgress _ | .tracker _ => false

theorem fair_of_goesOn {a : Action} (h : s.goesOn a) : Fair sha1 who fileid id s a := by
  cases a with
  | jobs i a => exact RunningClient.careful_of_goesOn h
  | collect | report => trivial
  | reportProgress | tracker => cases h

theorem fair_downloadAndCollect : Always (step Job.oneChunkSha1 exactPercentage TrackerService.twoClients)
    (Fair Job.oneChunkSha1 TrackerService.twoClients "f" "a") twoDownloaders downloadAndCollect := by
  have hfile : ∀ file ∈ Job.oneChunkTorrent.file, file = Job.oneChunkTorrent.file[0] := fun file h => List.mem_singleton.mp h
  refine ⟨fun _ => ⟨⟨rfl, fun file h => ?_, fun file h file' h' _ => ?_, by decide, by rintro file - handle p ⟨⟩⟩,
    by rintro file - content ⟨⟩⟩, fun t ht => ?_⟩
  · rw [hfile file h]
    exact ⟨⟨0, 1, rfl, by decide, by decide⟩, rfl⟩
  · rw [hfile file h, hfile file' h']
  refine Always.mono (P := fun s a => s.goesOn a) fair_of_goesOn ?_
  obtain rfl := Option.some.inj ht
  decide +kernel

/-- The client holds a report, and can send it. -/
theorem held_downloadAndCollect :
    (exec (step Job.oneChunkSha1 exactPercentage TrackerService.twoClients) twoDownloaders downloadAndCollect).map
      (fun s => ((s.client 0).reports.reporter.hand,
        decide (TrackerService.Calm TrackerService.twoClients s.service (.call 0 (.reportProgress "f" 100))))) =
    some ([⟨"tracker", "f", 100⟩], true) := by
  decide +kernel

/-- The tracker can get it. -/
theorem calm_hearReport :
    (exec (step Job.oneChunkSha1 exactPercentage TrackerService.twoClients) twoDownloaders
      (downloadAndCollect ++ [.reportProgress 0])).map
      (fun s => decide (TrackerService.Calm TrackerService.twoClients s.service hearReport)) = some true := by
  decide +kernel

theorem fair_hearReport : Always (step Job.oneChunkSha1 exactPercentage TrackerService.twoClients)
    (Fair Job.oneChunkSha1 TrackerService.twoClients "f" "a") twoDownloaders
      (downloadAndCollect ++ [.reportProgress 0] ++ [.tracker hearReport]) := by
  have hsends : Always (step Job.oneChunkSha1 exactPercentage TrackerService.twoClients)
      (Fair Job.oneChunkSha1 TrackerService.twoClients "f" "a") twoDownloaders (downloadAndCollect ++ [.reportProgress 0]) := by
    refine fair_downloadAndCollect.append fun t ht => ⟨fun oneInfo rest hhand => ?_, fun u _ => trivial⟩
    have hheld := held_downloadAndCollect
    rw [ht, Option.map_some, Option.some.injEq, Prod.mk.injEq] at hheld
    obtain ⟨rfl, -⟩ := List.cons.inj (hheld.1.symm.trans hhand)
    exact of_decide_eq_true hheld.2
  refine hsends.append fun u hu => ⟨⟨?_, fun i _ hi => ?_⟩, fun v _ => trivial⟩
  · have hcalm := calm_hearReport
    rw [hu] at hcalm
    exact of_decide_eq_true (Option.some.inj hcalm)
  · cases hi

/-- The tracker says that the first client has all of the file, and so it is. -/
theorem never_overstated_twoDownloaders : ∃ s i handle j, ∃ bits : Bitmap,
    exec (step Job.oneChunkSha1 exactPercentage TrackerService.twoClients) twoDownloaders
      (downloadAndCollect ++ [.reportProgress 0] ++ [.tracker hearReport]) = some s ∧
    (TrackerService.twoClients i).clientid = "a" ∧ (s.client i).running.job? handle = some j ∧ 100 ≤ exactPercentage bits ∧
    ∀ pos : ℕ, bits[pos]? = some true → Job.BackedAt Job.oneChunkSha1 j.jobInfo.torrentInfo j.jobInfo.localFileInfo
      (s.client i).running.disk "f" pos := by
  have hrow : (exec (step Job.oneChunkSha1 exactPercentage TrackerService.twoClients) twoDownloaders
      (downloadAndCollect ++ [.reportProgress 0] ++ [.tracker hearReport])).map
      (fun s => (s.service.db.fileOwnerInfo.find? (Wire.utf8 "f", Wire.utf8 "a")).map Tracker.FileOwnerInfoRow.percentage) =
      some (some 100) := by
    decide +kernel
  obtain ⟨s, hrun, hrow⟩ := Option.map_eq_some_iff.mp hrow
  obtain ⟨row, hrow, hpercentage⟩ := Option.map_eq_some_iff.mp hrow
  obtain hstart | ⟨i, handle, j, bits, hid, hj, -, hp, hbacked⟩ :=
    never_overstated monotonePercentage_exactPercentage .empty hrun fair_hearReport hrow
  · cases hstart
  · exact ⟨s, i, handle, j, bits, hrun, hid, hj, hpercentage ▸ hp, hbacked⟩

end Network

end CoolDown

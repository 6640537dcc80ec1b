import CoolDown.Client.CoolClient
import CoolDown.Library.Run
import CoolDown.Library.Slice

/-!
# Handles, when jobs are added at the same time

`AddNewJob` takes its handle from `job_index_` before it has locked `mutex_`. Once it has, it
puts the job at `job_index_`, as it is then, counts it up, and puts the path of the torrent
at the handle. The two are the same number unless another call has counted in between. Then two
calls return one handle, a job is left that nobody has a handle of, and as it has no path
`SaveJobHistory` throws.

## The model

A call is at one of three places: it has been made, it has read `job_index_`, it has returned.
Reading is one step, what happens under the mutex is another, and the calls take their steps in
any order.

## What is proved

* `addNewJobBody_jobIndex`: a call that nobody gets in the way of is `addNewJob`.
* `step_inv`: what a step keeps if the counter is as the call has read it.
* `handles_iff`: after a run every call has a job and a path of its own if and only if all its
  steps are like that.
* `same_handle`: two calls that overlap.
-/

namespace CoolDown

open Library

/-- What `AddNewJob` does under the mutex, with the index it has read before. -/
def CoolClient.addNewJobBody (s : CoolClient) (thisJobIndex : ℕ) (info : JobInfo) (torrentPath : String) : CoolClient :=
  { s with
    jobs := s.jobs.insert s.jobIndex info
    jobIndex := s.jobIndex + 1
    torrentPathMap := s.torrentPathMap.insert thisJobIndex torrentPath }

/-- With the counter as it has been read. -/
theorem CoolClient.addNewJobBody_jobIndex (s : CoolClient) (info : JobInfo) (torrentPath : String) :
    s.addNewJobBody s.jobIndex info torrentPath = s.addNewJob info torrentPath := rfl

namespace JobHandles

/-- How far a call has got. -/
inductive Place where
  | called
  /-- It has read `job_index_`. -/
  | read (thisJobIndex : ℕ)
  | returned (handle : ℕ)
  deriving DecidableEq

/-- A call of `AddNewJob`. -/
structure AddCall where
  info : JobInfo
  torrentPath : String
  place : Place

/-- A step of one of the calls. -/
inductive Action where
  | call (info : JobInfo) (torrentPath : String)
  | readIndex (i : ℕ)
  | body (i : ℕ)

end JobHandles

open JobHandles in
/-- The client, and the calls of `AddNewJob`. -/
structure JobHandles where
  client : CoolClient
  calls : List AddCall

namespace JobHandles

/-- A client before any of the calls. -/
def start (client : CoolClient) : JobHandles := ⟨client, []⟩

/-- One step: `none` where the call is not at the place for it. -/
def step (s : JobHandles) : Action → Option JobHandles
  | .call info torrentPath => some { s with calls := s.calls ++ [⟨info, torrentPath, .called⟩] }
  | .readIndex i =>
    match s.calls[i]? with
    | some ⟨info, torrentPath, .called⟩ =>
      some { s with calls := s.calls.set i ⟨info, torrentPath, .read s.client.jobIndex⟩ }
    | _ => none
  | .body i =>
    match s.calls[i]? with
    | some ⟨info, torrentPath, .read thisJobIndex⟩ =>
      some ⟨s.client.addNewJobBody thisJobIndex info torrentPath, s.calls.set i ⟨info, torrentPath, .returned thisJobIndex⟩⟩
    | _ => none

/-- The call at place `i` has returned the handle. -/
def Returned (s : JobHandles) (i : ℕ) (handle : ℕ) : Prop := ∃ c, s.calls[i]? = some c ∧ c.place = .returned handle

/-- No two calls have returned the same handle. -/
def Distinct (s : JobHandles) : Prop := ∀ i j handle, s.Returned i handle → s.Returned j handle → i = j

/-- Each call that has returned has a handle, a job and a path of its own, and every job has a path. -/
structure Kept (s : JobHandles) : Prop where
  distinct : s.Distinct
  job : ∀ (i : ℕ) (c : AddCall) (handle : ℕ), s.calls[i]? = some c → c.place = .returned handle →
    s.client.jobs.find? handle = some c.info
  path : ∀ (i : ℕ) (c : AddCall) (handle : ℕ), s.calls[i]? = some c → c.place = .returned handle →
    s.client.torrentPathMap.find? handle = some c.torrentPath
  saved : ∀ handle ∈ s.client.jobs.keys, ∃ torrentPath, s.client.torrentPathMap.find? handle = some torrentPath

/-- The counter is still as the call has read it. -/
def Undisturbed (s : JobHandles) : Action → Prop
  | .body i => ∀ c thisJobIndex, s.calls[i]? = some c → c.place = .read thisJobIndex → thisJobIndex = s.client.jobIndex
  | _ => True

/-! ### What a step can do -/

theorem step_readIndex {s s' : JobHandles} {i : ℕ} (h : step s (.readIndex i) = some s') :
    ∃ c, s.calls[i]? = some c ∧ c.place = .called ∧
      s' = { s with calls := s.calls.set i { c with place := .read s.client.jobIndex } } := by
  rw [step] at h
  split at h
  · rename_i info torrentPath hi
    exact ⟨_, hi, rfl, (Option.some.inj h).symm⟩
  · cases h

theorem step_body {s s' : JobHandles} {i : ℕ} (h : step s (.body i) = some s') :
    ∃ c thisJobIndex, s.calls[i]? = some c ∧ c.place = .read thisJobIndex ∧
      s' = ⟨s.client.addNewJobBody thisJobIndex c.info c.torrentPath,
        s.calls.set i { c with place := .returned thisJobIndex }⟩ := by
  rw [step] at h
  split at h
  · rename_i info torrentPath thisJobIndex hi
    exact ⟨_, thisJobIndex, hi, rfl, (Option.some.inj h).symm⟩
  · cases h

/-- A call that has returned stays as it is. -/
theorem step_of_returned {s s' : JobHandles} {a : Action} (h : step s a = some s') {i : ℕ} {c : AddCall} {handle : ℕ}
    (hi : s.calls[i]? = some c) (hc : c.place = .returned handle) : s'.calls[i]? = some c := by
  cases a with
  | call info torrentPath =>
    obtain rfl := Option.some.inj h
    exact (List.getElem?_append_left (List.getElem?_eq_some_iff.mp hi).1).trans hi
  | readIndex j =>
    obtain ⟨c', hj, hc', rfl⟩ := step_readIndex h
    rw [getElem?_set_of_some hj, if_neg, hi]
    rintro rfl
    rw [Option.some.inj (hi.symm.trans hj), hc'] at hc
    cases hc
  | body j =>
    obtain ⟨c', thisJobIndex, hj, hc', rfl⟩ := step_body h
    rw [getElem?_set_of_some hj, if_neg, hi]
    rintro rfl
    rw [Option.some.inj (hi.symm.trans hj), hc'] at hc
    cases hc

/-- So a handle that has been returned twice stays so. -/
theorem not_distinct_step {s s' : JobHandles} {a : Action} (hs : ¬s.Distinct) (h : step s a = some s') :
    ¬s'.Distinct := by
  intro hd
  refine hs fun i j handle hi hj => hd i j handle ?_ ?_
  · obtain ⟨c, hi, hc⟩ := hi
    exact ⟨c, step_of_returned h hi hc, hc⟩
  · obtain ⟨c, hj, hc⟩ := hj
    exact ⟨c, step_of_returned h hj hc, hc⟩

/-! ### While nobody gets in the way -/

/-- What undisturbed steps keep: every index from `base` on that has been counted has been
returned by some call, and no call has read a larger one than the counter is at. -/
structure Inv (base : ℕ) (s : JobHandles) : Prop where
  kept : s.Kept
  lt : ∀ handle ∈ s.client.jobs.keys, handle < s.client.jobIndex
  base_le : base ≤ s.client.jobIndex
  reads : ∀ (i : ℕ) (c : AddCall) (k : ℕ), s.calls[i]? = some c → c.place = .read k → base ≤ k ∧ k ≤ s.client.jobIndex
  all : ∀ k, base ≤ k → k < s.client.jobIndex → ∃ i, s.Returned i k

theorem inv_start {client : CoolClient} (h : client.WellFormed) : Inv client.jobIndex (start client) where
  kept := {
    distinct := by rintro i j handle ⟨c, hi, -⟩; cases hi
    job := by rintro i c handle ⟨⟩
    path := by rintro i c handle ⟨⟩
    saved := h.path }
  lt := h.lt
  base_le := le_rfl
  reads := by rintro i c k ⟨⟩
  all := fun _ hle hlt => absurd (lt_of_le_of_lt hle hlt) (lt_irrefl _)

variable {base : ℕ} {s : JobHandles}

/-- A handle that has been returned has been counted. -/
theorem Inv.lt_of_returned (h : Inv base s) {i handle : ℕ} (hi : s.Returned i handle) : handle < s.client.jobIndex := by
  obtain ⟨c, hi, hc⟩ := hi
  exact h.lt handle (SortedMap.mem_keys.mpr ⟨c.info, h.kept.job i c handle hi hc⟩)

/-- A step that no call returns with, and that the client does not notice. -/
theorem Inv.of_returned_iff (h : Inv base s) {calls : List AddCall}
    (hreturned : ∀ (i : ℕ) (c : AddCall) (handle : ℕ), c.place = .returned handle →
      (calls[i]? = some c ↔ s.calls[i]? = some c))
    (hreads : ∀ (i : ℕ) (c : AddCall) (k : ℕ), calls[i]? = some c → c.place = .read k →
      base ≤ k ∧ k ≤ s.client.jobIndex) :
    Inv base { s with calls := calls } := by
  have hiff : ∀ i handle, Returned { s with calls := calls } i handle ↔ s.Returned i handle := by
    intro i handle
    constructor
    · rintro ⟨c, hi, hc⟩
      exact ⟨c, (hreturned i c handle hc).mp hi, hc⟩
    · rintro ⟨c, hi, hc⟩
      exact ⟨c, (hreturned i c handle hc).mpr hi, hc⟩
  refine ⟨⟨fun i j handle hi hj => ?_, fun i c handle hi hc => ?_, fun i c handle hi hc => ?_, h.kept.saved⟩, h.lt,
    h.base_le, hreads, fun k hle hlt => ?_⟩
  · exact h.kept.distinct i j handle ((hiff i handle).mp hi) ((hiff j handle).mp hj)
  · exact h.kept.job i c handle ((hreturned i c handle hc).mp hi) hc
  · exact h.kept.path i c handle ((hreturned i c handle hc).mp hi) hc
  · obtain ⟨i, hi⟩ := h.all k hle hlt
    exact ⟨i, (hiff i k).mpr hi⟩

/-- The body of a call, with the counter as it has read it. -/
theorem Inv.body (h : Inv base s) {i : ℕ} {c : AddCall} (hi : s.calls[i]? = some c)
    (hc : c.place = .read s.client.jobIndex) :
    Inv base ⟨s.client.addNewJobBody s.client.jobIndex c.info c.torrentPath,
      s.calls.set i { c with place := .returned s.client.jobIndex }⟩ := by
  have hcalls := getElem?_set_of_some hi { c with place := .returned s.client.jobIndex }
  -- what has been returned is what had been, and the new handle
  have hold : ∀ {j : ℕ} {c' : AddCall} {handle : ℕ}, j ≠ i → s.calls[j]? = some c' → c'.place = .returned handle →
      s.client.jobIndex ≠ handle :=
    fun _ hj hc' => (h.lt_of_returned ⟨_, hj, hc'⟩).ne'
  have hcases : ∀ {j : ℕ} {c' : AddCall},
      (s.calls.set i { c with place := .returned s.client.jobIndex })[j]? = some c' →
      j = i ∧ c' = { c with place := .returned s.client.jobIndex } ∨ j ≠ i ∧ s.calls[j]? = some c' := by
    intro j c' hj
    rw [hcalls] at hj
    split_ifs at hj with hij
    · exact .inl ⟨hij.symm, (Option.some.inj hj).symm⟩
    · exact .inr ⟨Ne.symm hij, hj⟩
  refine ⟨⟨?_, ?_, ?_, ?_⟩, ?_, Nat.le_succ_of_le h.base_le, ?_, ?_⟩
  · rintro j j' handle ⟨c', hj, hc'⟩ ⟨c'', hj', hc''⟩
    rcases hcases hj with ⟨he, rfl⟩ | ⟨hne, hold₁⟩ <;> rcases hcases hj' with ⟨he', rfl⟩ | ⟨hne', hold₂⟩
    · rw [he, he']
    · exact absurd (Place.returned.inj hc') (hold hne' hold₂ hc'')
    · exact absurd (Place.returned.inj hc'') (hold hne hold₁ hc')
    · exact h.kept.distinct j j' handle ⟨c', hold₁, hc'⟩ ⟨c'', hold₂, hc''⟩
  · intro j c' handle hj hc'
    simp only [CoolClient.addNewJobBody]
    rcases hcases hj with ⟨rfl, rfl⟩ | ⟨hne, hj⟩
    · rw [← Place.returned.inj hc', SortedMap.find?_insert_self]
    · rw [SortedMap.find?_insert_of_ne _ (hold hne hj hc')]
      exact h.kept.job j c' handle hj hc'
  · intro j c' handle hj hc'
    simp only [CoolClient.addNewJobBody]
    rcases hcases hj with ⟨rfl, rfl⟩ | ⟨hne, hj⟩
    · rw [← Place.returned.inj hc', SortedMap.find?_insert_self]
    · rw [SortedMap.find?_insert_of_ne _ (hold hne hj hc')]
      exact h.kept.path j c' handle hj hc'
  · intro handle hmem
    simp only [CoolClient.addNewJobBody, SortedMap.find?_insert]
    split_ifs with he
    · exact ⟨_, rfl⟩
    · obtain he' | hmem := SortedMap.mem_keys_insert.mp hmem
      · exact absurd he' he
      · exact h.kept.saved handle hmem
  · intro handle hmem
    obtain rfl | hmem := SortedMap.mem_keys_insert.mp hmem
    · exact Nat.lt_succ_self _
    · exact Nat.lt_succ_of_lt (h.lt handle hmem)
  · intro j c' k hj hc'
    rcases hcases hj with ⟨rfl, rfl⟩ | ⟨-, hj⟩
    · cases hc'
    · obtain ⟨hle, hle'⟩ := h.reads j c' k hj hc'
      exact ⟨hle, Nat.le_succ_of_le hle'⟩
  · intro k hle hlt
    obtain rfl | hlt := Nat.eq_or_lt_of_le (Nat.le_of_lt_succ hlt)
    · exact ⟨i, _, by rw [hcalls, if_pos rfl], rfl⟩
    · obtain ⟨j, c', hj, hc'⟩ := h.all k hle hlt
      refine ⟨j, c', ?_, hc'⟩
      rw [hcalls, if_neg, hj]
      rintro rfl
      rw [Option.some.inj (hi.symm.trans hj), hc'] at hc
      cases hc

/-- An undisturbed step. -/
theorem step_inv {s' : JobHandles} {a : Action} (h : Inv base s) (ha : Undisturbed s a) (hstep : step s a = some s') :
    Inv base s' := by
  cases a with
  | call info torrentPath =>
    obtain rfl := Option.some.inj hstep
    -- the new call, at the end, has neither read nor returned anything
    have hcases : ∀ {i : ℕ} {c : AddCall}, (s.calls ++ [⟨info, torrentPath, .called⟩])[i]? = some c →
        c.place ≠ .called →
        s.calls[i]? = some c := by
      intro i c hi hc
      rw [List.getElem?_append] at hi
      split_ifs at hi with hlt
      · exact hi
      · obtain rfl := List.mem_singleton.mp (List.mem_of_getElem? hi)
        exact absurd rfl hc
    refine h.of_returned_iff (fun i c handle hc => ⟨fun hi => hcases hi (by simp [hc]), fun hi => ?_⟩) fun i c k hi hc =>
      h.reads i c k (hcases hi (by simp [hc])) hc
    exact (List.getElem?_append_left (List.getElem?_eq_some_iff.mp hi).1).trans hi
  | readIndex i =>
    obtain ⟨c, hi, hc, rfl⟩ := step_readIndex hstep
    have hcalls := getElem?_set_of_some hi { c with place := .read s.client.jobIndex }
    refine h.of_returned_iff (fun j c' handle hc' => ?_) fun j c' k hj hc' => ?_
    · rw [hcalls]
      split_ifs with hij
      · subst hij
        constructor
        · rintro ⟨⟩
          cases hc'
        · intro hj
          rw [Option.some.inj (hi.symm.trans hj), hc'] at hc
          cases hc
      · rfl
    · rw [hcalls] at hj
      split_ifs at hj
      · cases hj
        obtain rfl := Place.read.inj hc'
        exact ⟨h.base_le, le_rfl⟩
      · exact h.reads j c' k hj hc'
  | body i =>
    obtain ⟨c, thisJobIndex, hi, hc, rfl⟩ := step_body hstep
    obtain rfl := ha c thisJobIndex hi hc
    exact h.body hi hc

/-- Once the counter has moved on, the handle is one that another call has returned. -/
theorem not_distinct_of_disturbed {s' : JobHandles} {a : Action} (h : Inv base s) (ha : ¬Undisturbed s a)
    (hstep : step s a = some s') : ¬s'.Distinct := by
  cases a with
  | call info torrentPath => exact absurd trivial ha
  | readIndex i => exact absurd trivial ha
  | body i =>
    obtain ⟨c, thisJobIndex, hi, hc, rfl⟩ := step_body hstep
    have hne : thisJobIndex ≠ s.client.jobIndex := by
      rintro rfl
      refine ha fun c' k hi' hc' => ?_
      rw [Option.some.inj (hi.symm.trans hi'), hc'] at hc
      exact Place.read.inj hc
    obtain ⟨hle, hle'⟩ := h.reads i c thisJobIndex hi hc
    obtain ⟨j, c', hj, hc'⟩ := h.all thisJobIndex hle (lt_of_le_of_ne hle' hne)
    intro hd
    have hij := hd i j thisJobIndex ⟨_, by rw [getElem?_set_of_some hi, if_pos rfl], rfl⟩
      ⟨c', step_of_returned hstep hj hc', hc'⟩
    rw [hij, hj] at hi
    rw [← Option.some.inj hi, hc'] at hc
    cases hc

/-- **Handles under concurrency.** After a run, the calls that have returned have handles of their
own, each with the job and the path of its call, and every job has a path, if and only if the
counter was, at the body of each call, as the call had read it. -/
theorem handles_iff {client : CoolClient} (hclient : client.WellFormed) {actions : List Action} {s : JobHandles}
    (hrun : exec step (start client) actions = some s) :
    Always step Undisturbed (start client) actions ↔ s.Kept := by
  constructor
  · intro hall
    exact (exec_invariant_of_always step_inv hall hrun (inv_start hclient)).kept
  · intro hkept
    exact (always_iff step_inv (fun h => h.kept.distinct) (fun h => not_distinct_of_disturbed h) not_distinct_step hrun
      (inv_start hclient)).mpr hkept.distinct

/-! ### Two calls -/

/-- The job of a torrent without files. -/
def emptyJob (torrentId : String) : JobInfo :=
  (JobInfo.new ⟨torrentId, 0, 0, "", "", "", []⟩ "" [] 0 0 (fun _ => none) ∅).1

/-- Two calls, one after the other. -/
def inTurn : List Action :=
  [.call (emptyJob "a") "a.torrent", .call (emptyJob "b") "b.torrent", .readIndex 0, .body 0, .readIndex 1, .body 1]

/-- Two calls, both of which read the counter before either has locked the mutex. -/
def overlapping : List Action :=
  [.call (emptyJob "a") "a.torrent", .call (emptyJob "b") "b.torrent", .readIndex 0, .readIndex 1, .body 0, .body 1]

/-- **One handle for two jobs.** The two calls return the same handle, and the history cannot be saved. -/
theorem same_handle :
    ∃ s, exec step (start .new) overlapping = some s ∧ s.Returned 0 0 ∧ s.Returned 1 0 ∧
      (CoolClient.saveJobs s.client.jobs.entries s.client).1 = .error .assertion ∧ ¬s.Kept := by
  have hrun : ∃ s, exec step (start .new) overlapping = some s ∧ s.Returned 0 0 ∧ s.Returned 1 0 ∧
      (CoolClient.saveJobs s.client.jobs.entries s.client).1 = .error .assertion :=
    ⟨_, rfl, ⟨_, rfl, rfl⟩, ⟨_, rfl, rfl⟩, rfl⟩
  obtain ⟨s, hrun, h₀, h₁, hsave⟩ := hrun
  exact ⟨s, hrun, h₀, h₁, hsave, fun hkept => absurd (hkept.distinct 0 1 0 h₀ h₁) (by decide)⟩

/-- One after the other they keep out of each other's way. -/
theorem handles_iff_inTurn :
    ∃ s, exec step (start .new) inTurn = some s ∧ (Always step Undisturbed (start .new) inTurn ↔ s.Kept) := by
  have hrun : ∃ s, exec step (start .new) inTurn = some s := ⟨_, rfl⟩
  obtain ⟨s, hrun⟩ := hrun
  exact ⟨s, hrun, handles_iff CoolClient.wellFormed_new hrun⟩

end JobHandles

end CoolDown

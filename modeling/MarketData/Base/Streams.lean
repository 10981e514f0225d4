import Mathlib.Data.Set.Basic
import Mathlib.Logic.Function.Basic

/-!
# Streams of work

Work that is submitted to streams and done some time later: in order within a stream, in any order
across streams. What a stream settles is the memory behind all the work that waits on it. Doing the
work does not change it, as long as the other streams leave the locations alone.
-/

namespace Streams

variable {κ σ ν : Type}

/-- A piece of work: it writes to one location what it computes from some others. -/
structure Work (κ ν : Type) where
  target : κ
  sources : List κ
  effect : List ν → ν

namespace Work

/-- The work names the location. -/
def Names (w : Work κ ν) (k : κ) : Prop := k = w.target ∨ k ∈ w.sources

/-- The work names nothing outside some locations. -/
def Within (R : Set κ) (w : Work κ ν) : Prop := ∀ k, w.Names k → k ∈ R

variable [DecidableEq κ]

/-- The memory behind a piece of work. -/
def perform (w : Work κ ν) (memory : κ → ν) : κ → ν :=
  Function.update memory w.target (w.effect (w.sources.map memory))

/-- The memory behind some pieces of work, in order. -/
def performAll (works : List (Work κ ν)) (memory : κ → ν) : κ → ν :=
  works.foldl (fun memory w ↦ w.perform memory) memory

variable {w : Work κ ν} {works works' : List (Work κ ν)} {memory memory' : κ → ν} {R : Set κ}
  {k : κ}

/-- Work leaves its effect on what its sources held in its target. -/
@[simp] theorem perform_target : w.perform memory w.target = w.effect (w.sources.map memory) :=
  Function.update_self ..

/-- Work changes its target only. -/
theorem perform_of_ne (h : k ≠ w.target) : w.perform memory k = memory k :=
  Function.update_of_ne h ..

/-- The first of several works is done first. -/
theorem performAll_cons :
    performAll (w :: works) memory = performAll works (w.perform memory) := rfl

/-- Two series of works are done one after the other. -/
theorem performAll_append :
    performAll (works ++ works') memory = performAll works' (performAll works memory) :=
  List.foldl_append

/-- Work leaves the locations that it does not target. -/
theorem performAll_of_ne (h : ∀ w ∈ works, k ≠ w.target) :
    performAll works memory k = memory k := by
  induction works generalizing memory with
  | nil => rfl
  | cons w works ih =>
    obtain ⟨hw, hworks⟩ := List.forall_mem_cons.mp h
    rw [performAll_cons, ih hworks, perform_of_ne hw]

/-- Work within some locations depends on no other. -/
theorem perform_congr (hw : w.Within R) (h : ∀ k ∈ R, memory k = memory' k) :
    ∀ k ∈ R, w.perform memory k = w.perform memory' k := by
  intro k hk
  by_cases hkw : k = w.target
  · subst hkw
    have hsources : w.sources.map memory = w.sources.map memory' :=
      List.map_congr_left fun k hk ↦ h k (hw k (.inr hk))
    rw [perform_target, perform_target, hsources]
  · rw [perform_of_ne hkw, perform_of_ne hkw, h k hk]

/-- Works inside a region see and change only what the region holds. -/
theorem performAll_congr (hworks : ∀ w ∈ works, w.Within R)
    (h : ∀ k ∈ R, memory k = memory' k) :
    ∀ k ∈ R, performAll works memory k = performAll works memory' k := by
  induction works generalizing memory memory' with
  | nil => exact h
  | cons w works ih =>
    obtain ⟨hw, hworks⟩ := List.forall_mem_cons.mp hworks
    exact ih hworks (perform_congr hw h)

end Work

/-! ### States -/

/-- A memory, and the work that waits on each stream. -/
structure State (κ σ ν : Type) where
  memory : κ → ν
  queue : σ → List (Work κ ν)

namespace State

variable {s t : State κ σ ν} {q q' : σ} {R : Set κ} {k : κ} {w : Work κ ν}
  {works : List (Work κ ν)}

/-- Some locations are the matter of one stream: its work names no others, and the work of the
other streams does not target them. -/
structure Isolated (s : State κ σ ν) (q : σ) (R : Set κ) : Prop where
  inside : ∀ w ∈ s.queue q, w.Within R
  outside : ∀ q' w, q' ≠ q → w ∈ s.queue q' → w.target ∉ R

section Submission

variable [DecidableEq σ]

/-- Work is submitted to a stream. -/
def submit (s : State κ σ ν) (q : σ) (works : List (Work κ ν)) : State κ σ ν :=
  { s with queue := Function.update s.queue q (s.queue q ++ works) }

/-- Submitted works wait behind those of their queue. -/
@[simp] theorem queue_submit_self : (s.submit q works).queue q = s.queue q ++ works :=
  Function.update_self ..

/-- Submitted works leave the other queues as they are. -/
theorem queue_submit_of_ne (h : q' ≠ q) : (s.submit q works).queue q' = s.queue q' :=
  Function.update_of_ne h ..

/-- What waits behind a submission has waited before or is submitted. -/
theorem mem_queue_submit (h : w ∈ (s.submit q works).queue q') :
    w ∈ s.queue q' ∨ q' = q ∧ w ∈ works := by
  by_cases hq : q' = q
  · subst hq
    rw [queue_submit_self, List.mem_append] at h
    exact h.imp_right fun hw ↦ ⟨rfl, hw⟩
  · rw [queue_submit_of_ne hq] at h
    exact .inl h

/-- Works inside the region keep the queue isolated. -/
theorem Isolated.submit (h : s.Isolated q R) (hworks : ∀ w ∈ works, w.Within R) :
    (s.submit q works).Isolated q R where
  inside w hw := (mem_queue_submit hw).elim (h.inside w) fun hw ↦ hworks w hw.2
  outside q' w hne hw :=
    (mem_queue_submit hw).elim (h.outside q' w hne) fun hw ↦ absurd hw.1 hne

end Submission

variable [DecidableEq κ]

/-- A location is written without a stream. -/
def write (s : State κ σ ν) (k : κ) (v : ν) : State κ σ ν :=
  { s with memory := Function.update s.memory k v }

/-- The memory behind all that waits on a stream. -/
def settled (s : State κ σ ν) (q : σ) : κ → ν := Work.performAll (s.queue q) s.memory

/-- A stream on which nothing waits settles the memory as it is. -/
theorem settled_of_nil (h : s.queue q = []) : s.settled q = s.memory := by
  rw [settled, h]
  rfl

/-- A location that no waiting work targets is settled as it is. -/
theorem settled_of_ne (h : ∀ w ∈ s.queue q, k ≠ w.target) : s.settled q k = s.memory k :=
  Work.performAll_of_ne h

variable [DecidableEq σ]

/-- What is submitted is done behind what waits. -/
theorem settled_submit : (s.submit q works).settled q = Work.performAll works (s.settled q) := by
  rw [settled, queue_submit_self, Work.performAll_append]
  rfl

/-- One piece of work that is submitted finds what the stream settles. -/
theorem settled_submit_target :
    (s.submit q [w]).settled q w.target = w.effect (w.sources.map (s.settled q)) := by
  rw [settled_submit]
  exact Work.perform_target

/-! ### Steps -/

/-- The first piece of work that waits on some stream is done. -/
inductive Step (s : State κ σ ν) : State κ σ ν → Prop where
  | done {q : σ} {w : Work κ ν} {works : List (Work κ ν)} (h : s.queue q = w :: works) :
      Step s ⟨w.perform s.memory, Function.update s.queue q works⟩

/-- What waits behind a step has waited before. -/
theorem Step.mem_queue (h : s.Step t) (hw : w ∈ t.queue q) : w ∈ s.queue q := by
  obtain ⟨hq⟩ := h
  rename_i q' w' works'
  by_cases hne : q = q'
  · subst hne
    rw [hq]
    exact List.mem_cons_of_mem _ (by simpa using hw)
  · simpa [hne] using hw

/-- A stream on which nothing waits stays so. -/
theorem Step.queue_nil (h : s.Step t) (hq : s.queue q = []) : t.queue q = [] := by
  refine List.eq_nil_iff_forall_not_mem.mpr fun w hw ↦ ?_
  have hmem := h.mem_queue hw
  rw [hq] at hmem
  cases hmem

/-- A step of any queue keeps the queue isolated. -/
theorem Isolated.step (h : s.Isolated q R) (hstep : s.Step t) : t.Isolated q R where
  inside w hw := h.inside w (hstep.mem_queue hw)
  outside q' w hne hw := h.outside q' w hne (hstep.mem_queue hw)

/-- Doing work changes nothing of what a stream settles in its own locations. -/
theorem Isolated.settled_step (h : s.Isolated q R) (hstep : s.Step t) (hk : k ∈ R) :
    t.settled q k = s.settled q k := by
  obtain ⟨hq⟩ := hstep
  rename_i q' w works
  change Work.performAll (Function.update s.queue q' works q) (w.perform s.memory) k =
    Work.performAll (s.queue q) s.memory k
  by_cases hne : q' = q
  · subst hne
    rw [hq, Function.update_self, Work.performAll_cons]
  · have hw : w.target ∉ R := h.outside q' w hne (by rw [hq]; exact List.mem_cons_self)
    rw [Function.update_of_ne (Ne.symm hne)]
    refine Work.performAll_congr h.inside (fun k hk ↦ ?_) k hk
    exact Work.perform_of_ne fun heq ↦ hw (heq ▸ hk)

end State

end Streams

import Wee.Base.Threadpool

/-! # Runs of a thread pool

The nodes posted so far, less the tasks cancelled, are the tasks dequeued and then the nodes in the
queue. The exit message is never taken out, so that no task behind it is dequeued and every task
before it is, once a worker has met it. `idle_threads` is the number of workers inside `cond_wait`,
woken or not; a signal that it asks for reaches a blocked worker if there is one, so that a queue
that is not empty always has a worker that is about to look at it, or none is blocked.

All of this rests on `threadpool_cancel` removing nothing but tasks that are queued. -/

namespace Wee

open Links WaitSet

variable {τ : Type}

/-! ### What has been posted, dequeued and cancelled -/

/-- The node that an action posts. -/
def PoolAct.posted : PoolAct τ → Option (PoolNode τ)
  | .submit t _ => some (.task t)
  | .release _ => some .exitMessage
  | _ => none

/-- The nodes posted, in order. -/
def posts (acts : List (PoolAct τ)) : List (PoolNode τ) := acts.filterMap PoolAct.posted

/-- The tasks submitted, in order. -/
def submits (acts : List (PoolAct τ)) : List τ :=
  acts.filterMap fun
    | .submit t _ => some t
    | _ => none

/-- The tasks dequeued, in order. -/
def dequeuedTasks (evs : List (PoolEvent τ)) : List τ :=
  evs.filterMap fun
    | .dequeued _ t => some t
    | _ => none

/-- The tasks for which `threadpool_cancel` has returned a value other than zero. -/
def cancelledTasks (evs : List (PoolEvent τ)) : List τ :=
  evs.filterMap fun
    | .cancelled t true => some t
    | _ => none

theorem posts_append (acts acts' : List (PoolAct τ)) :
    posts (acts ++ acts') = posts acts ++ posts acts' :=
  List.filterMap_append

/-- What an action adds. -/
theorem posts_snoc (acts : List (PoolAct τ)) (a : PoolAct τ) :
    posts (acts ++ [a]) = posts acts ++ a.posted.toList := by
  rw [posts_append]
  cases ha : a.posted <;> simp [posts, ha]

/-- An action that posts nothing. -/
theorem posts_snoc_of_none {acts : List (PoolAct τ)} {a : PoolAct τ} (ha : a.posted = none) :
    posts (acts ++ [a]) = posts acts := by
  rw [posts_snoc, ha]
  exact List.append_nil _

/-- What has been posted stays posted. -/
theorem mem_posts_snoc {acts : List (PoolAct τ)} {q : PoolNode τ} (hq : q ∈ posts acts)
    (a : PoolAct τ) : q ∈ posts (acts ++ [a]) := by
  rw [posts_snoc]
  exact List.mem_append_left _ hq

theorem dequeuedTasks_append (evs evs' : List (PoolEvent τ)) :
    dequeuedTasks (evs ++ evs') = dequeuedTasks evs ++ dequeuedTasks evs' :=
  List.filterMap_append

theorem cancelledTasks_append (evs evs' : List (PoolEvent τ)) :
    cancelledTasks (evs ++ evs') = cancelledTasks evs ++ cancelledTasks evs' :=
  List.filterMap_append

/-- An event that is no dequeuing. -/
theorem dequeuedTasks_snoc_of_nil {evs : List (PoolEvent τ)} {e : PoolEvent τ}
    (he : dequeuedTasks [e] = []) : dequeuedTasks (evs ++ [e]) = dequeuedTasks evs := by
  rw [dequeuedTasks_append, he, List.append_nil]

/-- An event that is no successful cancellation. -/
theorem cancelledTasks_snoc_of_nil {evs : List (PoolEvent τ)} {e : PoolEvent τ}
    (he : cancelledTasks [e] = []) : cancelledTasks (evs ++ [e]) = cancelledTasks evs := by
  rw [cancelledTasks_append, he, List.append_nil]

variable [DecidableEq τ]

/-! ### Sections of the pool -/

section Sections

variable {pool : Threadpool τ} {nodes : List (PoolNode τ)}

/-- Only the links of a pool have changed, and the queue holds `nodes`. -/
structure Relinked (pool pool' : Threadpool τ) (nodes : List (PoolNode τ)) : Prop where
  /-- The queue. -/
  circle : pool'.links.Circle .wq nodes
  /-- The counter. -/
  idle : pool'.idleThreads = pool.idleThreads
  /-- The number of workers. -/
  nthreads : pool'.nthreads = pool.nthreads
  /-- The tasks. -/
  work : pool'.work = pool.work

/-- `post` appends a node, and signals if a worker is idle. -/
theorem post_spec (h : pool.links.Circle .wq nodes) {q : PoolNode τ} (hq : q ∉ .wq :: nodes) :
    Returns (post pool q) fun r =>
      r.1 = decide (0 < pool.idleThreads) ∧ Relinked pool r.2 (nodes ++ [q]) := by
  unfold post
  exact (h.insertTail hq).bind fun L hL => returns_ok ⟨rfl, hL, rfl, rfl, rfl⟩

/-- A task that is queued is taken out. -/
theorem threadpoolCancel_queued (h : pool.links.Circle .wq nodes) {t : τ} (ht : .task t ∈ nodes)
    (hwork : pool.work t = true) :
    Returns (threadpoolCancel pool t) fun r =>
      r.1 = true ∧ ∃ a b, nodes = a ++ .task t :: b ∧ Relinked pool r.2 (a ++ b) := by
  have hempty : queueEmpty pool.links .wq = false := by
    rw [Bool.eq_false_iff]
    intro hnil
    rw [h.empty_iff.mp hnil] at ht
    exact List.not_mem_nil ht
  obtain ⟨a, b, rfl⟩ := List.append_of_mem ht
  have hcond : (!queueEmpty pool.links .wq && pool.work t) = true := by rw [hempty, hwork]; rfl
  rw [threadpoolCancel]
  simp only [hcond, if_true]
  exact h.remove.bind fun L hL => returns_ok ⟨rfl, a, b, rfl, hL, rfl, rfl, rfl⟩

/-- Nothing is taken out of an empty queue, nor is a task that has been run. -/
theorem threadpoolCancel_zero {t : τ}
    (h : queueEmpty pool.links .wq = true ∨ pool.work t = false) :
    threadpoolCancel pool t = .ok (false, pool) := by
  have hcond : (!queueEmpty pool.links .wq && pool.work t) = false := by
    rcases h with hempty | hwork
    · rw [hempty]
      rfl
    · rw [hwork, Bool.and_false]
  rw [threadpoolCancel]
  simp only [hcond, Bool.false_eq_true, if_false, exec_pure]

/-- A worker finds the queue empty. -/
theorem workerSection_nil (h : pool.links.Circle .wq []) :
    workerSection pool
      = .ok (.wait, { pool with idleThreads := pool.idleThreads + 1 }) := by
  rw [workerSection, if_pos (h.empty_iff.mpr rfl), exec_pure]

/-- A worker finds the exit message. -/
theorem workerSection_exit (h : pool.links.Circle .wq (.exitMessage :: nodes)) :
    workerSection pool = .ok (.stop, pool) := by
  have hempty : ¬ queueEmpty pool.links .wq = true := fun hnil =>
    List.cons_ne_nil _ _ (h.empty_iff.mp hnil)
  rw [workerSection, if_neg hempty, queueHead, h.next_anchor]
  rfl

/-- A worker dequeues a task. -/
theorem workerSection_task {t : τ} (h : pool.links.Circle .wq (.task t :: nodes)) :
    Returns (workerSection pool) fun r => r.1 = .run t ∧ Relinked pool r.2 nodes := by
  have hempty : ¬ queueEmpty pool.links .wq = true := fun hnil =>
    List.cons_ne_nil _ _ (h.empty_iff.mp hnil)
  have hout : PoolNode.task t ∉ .wq :: nodes := by
    have hnodup := (perm_middle_anchor .wq (.task t) [] nodes).nodup_iff.mp h.nodup
    exact (List.nodup_cons.mp hnodup).1
  have hremove : Returns (queueRemove pool.links (.task t)) fun L => L.Circle .wq nodes :=
    h.remove (a := [])
  rw [workerSection, if_neg hempty, queueHead, h.next_anchor]
  exact hremove.bind fun L hL => returns_ok ⟨rfl, hL.init_other hout, rfl, rfl, rfl⟩

end Sections

/-! ### The queue -/

/-- The nodes posted whose tasks have not been cancelled. -/
def kept (acts : List (PoolAct τ)) (evs : List (PoolEvent τ)) : List (PoolNode τ) :=
  (posts acts).filter fun q => decide (q ∉ (cancelledTasks evs).map PoolNode.task)

/-- **The queue between posting and dequeuing**: `nodes` are in the queue. -/
structure QueueInv (acts : List (PoolAct τ)) (evs : List (PoolEvent τ)) (pool : Threadpool τ)
    (exited : List Nat) (nodes : List (PoolNode τ)) : Prop where
  /-- The links. -/
  circle : pool.links.Circle .wq nodes
  /-- What has been posted and not been cancelled is dequeued or queued. -/
  order : kept acts evs = (dequeuedTasks evs).map .task ++ nodes
  /-- A task is cancelled once. -/
  nodup : (cancelledTasks evs).Nodup
  /-- It had been submitted. -/
  posted : ∀ t ∈ cancelledTasks evs, .task t ∈ posts acts
  /-- Its cancellation had been asked for. -/
  asked : ∀ t ∈ cancelledTasks evs, .cancel t ∈ acts
  /-- A worker has ended only behind the last task before the exit message. -/
  stopped : exited ≠ [] → nodes.head? = some .exitMessage

section QueueSteps

variable {acts : List (PoolAct τ)} {evs : List (PoolEvent τ)} {pool pool' : Threadpool τ}
  {exited : List Nat} {nodes : List (PoolNode τ)} {a : PoolAct τ} {q : PoolNode τ}

/-- What is queued has been posted and not been cancelled. -/
theorem QueueInv.mem_kept (h : QueueInv acts evs pool exited nodes) (hq : q ∈ nodes) :
    q ∈ kept acts evs := by
  rw [h.order]
  exact List.mem_append_right _ hq

/-- What is queued has been posted. -/
theorem QueueInv.mem_posts (h : QueueInv acts evs pool exited nodes) (hq : q ∈ nodes) :
    q ∈ posts acts :=
  List.mem_of_mem_filter (h.mem_kept hq)

/-- A task that is queued has not been cancelled. -/
theorem QueueInv.not_cancelled (h : QueueInv acts evs pool exited nodes) {t : τ}
    (ht : .task t ∈ nodes) : t ∉ cancelledTasks evs := by
  intro hmem
  have hkept := of_decide_eq_true (List.mem_filter.mp (h.mem_kept ht)).2
  exact hkept (List.mem_map_of_mem hmem)

/-- A step that does nothing to the queue. -/
theorem QueueInv.skip (h : QueueInv acts evs pool exited nodes) {e : PoolEvent τ}
    (ha : a.posted = none) (hlinks : pool'.links = pool.links) (hdeq : dequeuedTasks [e] = [])
    (hcan : cancelledTasks [e] = []) : QueueInv (acts ++ [a]) (evs ++ [e]) pool' exited nodes := by
  have hcan' : cancelledTasks (evs ++ [e]) = cancelledTasks evs := cancelledTasks_snoc_of_nil hcan
  refine { circle := hlinks ▸ h.circle, order := ?_, nodup := hcan' ▸ h.nodup,
           posted := ?_, asked := ?_, stopped := h.stopped }
  · rw [kept, posts_snoc_of_none ha, hcan', dequeuedTasks_snoc_of_nil hdeq]
    exact h.order
  · rw [posts_snoc_of_none ha, hcan']
    exact h.posted
  · intro t ht
    exact List.mem_append_left _ (h.asked t (hcan' ▸ ht))

/-- **A new node is appended.** -/
theorem QueueInv.post (h : QueueInv acts evs pool exited nodes) (ha : a.posted = some q)
    (hfresh : q ∉ posts acts) (hlinks : Relinked pool pool' (nodes ++ [q])) :
    QueueInv (acts ++ [a]) (evs ++ [.none]) pool' exited (nodes ++ [q]) := by
  have hposts : posts (acts ++ [a]) = posts acts ++ [q] := by
    rw [posts_snoc, ha]
    rfl
  have hcan : cancelledTasks (evs ++ [.none]) = cancelledTasks evs := cancelledTasks_snoc_of_nil rfl
  have hdeq : dequeuedTasks (evs ++ [.none]) = dequeuedTasks evs := dequeuedTasks_snoc_of_nil rfl
  have hnot : q ∉ (cancelledTasks evs).map PoolNode.task := by
    intro hmem
    obtain ⟨t, ht, rfl⟩ := List.mem_map.mp hmem
    exact hfresh (h.posted t ht)
  refine { circle := hlinks.circle, order := ?_, nodup := hcan ▸ h.nodup, posted := ?_, asked := ?_,
           stopped := fun hex => ?_ }
  · have horder := h.order
    rw [kept] at horder
    rw [kept, hposts, hcan, hdeq, List.filter_append, horder, List.append_assoc,
      List.filter_eq_self.mpr]
    intro q' hq'
    rw [List.mem_singleton.mp hq']
    exact decide_eq_true hnot
  · intro t ht
    exact mem_posts_snoc (h.posted t (hcan ▸ ht)) a
  · intro t ht
    exact List.mem_append_left _ (h.asked t (hcan ▸ ht))
  · rw [List.head?_append, h.stopped hex]
    rfl

/-- **The task at the head is dequeued.** -/
theorem QueueInv.dequeue {t : τ} (h : QueueInv acts evs pool exited (.task t :: nodes)) {w : Nat}
    (ha : a.posted = none) (hlinks : Relinked pool pool' nodes) :
    QueueInv (acts ++ [a]) (evs ++ [.dequeued w t]) pool' exited nodes := by
  have hposts : posts (acts ++ [a]) = posts acts := posts_snoc_of_none ha
  have hcan : cancelledTasks (evs ++ [.dequeued w t]) = cancelledTasks evs :=
    cancelledTasks_snoc_of_nil rfl
  have hdeq : dequeuedTasks (evs ++ [.dequeued w t]) = dequeuedTasks evs ++ [t] :=
    dequeuedTasks_append _ _
  refine { circle := hlinks.circle, order := ?_, nodup := hcan ▸ h.nodup, posted := ?_, asked := ?_,
           stopped := fun hex => ?_ }
  · have horder := h.order
    rw [kept] at horder
    rw [kept, hposts, hcan, hdeq, horder, List.map_append, List.append_assoc]
    rfl
  · rw [hposts, hcan]
    exact h.posted
  · intro u hu
    exact List.mem_append_left _ (h.asked u (hcan ▸ hu))
  · -- a worker that has ended has left the exit message at the head
    cases h.stopped hex

/-- A list of different elements without one of them. -/
theorem filter_ne_middle {α : Type} [DecidableEq α] {x : α} {l₁ l₂ : List α}
    (h : (l₁ ++ x :: l₂).Nodup) : (l₁ ++ x :: l₂).filter (fun y => decide (y ≠ x)) = l₁ ++ l₂ := by
  obtain ⟨-, hback, hdisj⟩ := List.nodup_append.mp h
  rw [List.filter_append, List.filter_cons_of_neg (by simp)]
  congr 1
  · refine List.filter_eq_self.mpr fun y hy => decide_eq_true ?_
    exact hdisj y hy x List.mem_cons_self
  · refine List.filter_eq_self.mpr fun y hy => decide_eq_true ?_
    rintro rfl
    exact (List.nodup_cons.mp hback).1 hy

/-- **A queued task is cancelled**, when the nodes posted are different ones. -/
theorem QueueInv.cancel {t : τ} {l₁ l₂ : List (PoolNode τ)}
    (h : QueueInv acts evs pool exited (l₁ ++ .task t :: l₂)) (hnodup : (posts acts).Nodup)
    (hlinks : Relinked pool pool' (l₁ ++ l₂)) :
    QueueInv (acts ++ [.cancel t]) (evs ++ [.cancelled t true]) pool' exited (l₁ ++ l₂) := by
  have hposts : posts (acts ++ [.cancel t]) = posts acts := posts_snoc_of_none rfl
  have hcan : cancelledTasks (evs ++ [.cancelled t true]) = cancelledTasks evs ++ [t] :=
    cancelledTasks_append _ _
  have hdeq : dequeuedTasks (evs ++ [.cancelled t true]) = dequeuedTasks evs :=
    dequeuedTasks_snoc_of_nil rfl
  have hmem : PoolNode.task t ∈ l₁ ++ .task t :: l₂ := List.mem_append_right l₁ List.mem_cons_self
  have hkept : kept (acts ++ [.cancel t]) (evs ++ [.cancelled t true])
      = (kept acts evs).filter fun q => decide (q ≠ .task t) := by
    rw [kept, kept, hposts, hcan, List.filter_filter]
    refine List.filter_congr fun q _ => ?_
    simp only [List.map_append, List.mem_append, List.map_cons, List.map_nil, List.mem_singleton,
      ← Bool.decide_and, decide_eq_decide, not_or, ne_eq]
    exact and_comm
  -- the node stands once among those dequeued and those queued
  have hdistinct : ((dequeuedTasks evs).map PoolNode.task ++ (l₁ ++ .task t :: l₂)).Nodup := by
    rw [← h.order]
    exact hnodup.sublist List.filter_sublist
  rw [← List.append_assoc] at hdistinct
  refine { circle := hlinks.circle, order := ?_, nodup := ?_, posted := ?_, asked := ?_,
           stopped := fun hex => ?_ }
  · rw [hkept, h.order, hdeq, ← List.append_assoc, filter_ne_middle hdistinct, List.append_assoc]
  · rw [hcan]
    refine List.nodup_append.mpr ⟨h.nodup, List.nodup_singleton t, fun u hu v hv heq => ?_⟩
    rw [List.mem_singleton.mp hv] at heq
    exact h.not_cancelled hmem (heq ▸ hu)
  · intro u hu
    rw [hposts]
    rw [hcan] at hu
    rcases List.mem_append.mp hu with hold | hnew
    · exact h.posted u hold
    · rw [List.mem_singleton.mp hnew]
      exact h.mem_posts hmem
  · intro u hu
    rw [hcan] at hu
    rcases List.mem_append.mp hu with hold | hnew
    · exact List.mem_append_left _ (h.asked u hold)
    · rw [List.mem_singleton.mp hnew]
      exact List.mem_append_right _ List.mem_cons_self
  · have hhead := h.stopped hex
    cases l₁ with
    | nil => cases hhead
    | cons q l₁ => exact hhead

end QueueSteps

/-! ### The workers -/

/-- All workers, wherever they are. -/
def PoolSys.workers (s : PoolSys τ) : List Nat :=
  s.ready ++ (s.waiting.members ++ (s.running.map Prod.fst ++ s.exited))

/-- A worker is about to look at the queue, or runs a task and will do so. -/
def PoolSys.Awake (s : PoolSys τ) : Prop :=
  s.ready ≠ [] ∨ s.waiting.notified ≠ [] ∨ s.waiting.spurious ≠ [] ∨ s.running ≠ []

/-- The queue is not empty, and all workers that have not ended, of whom there are some, are blocked
and have not been notified. -/
def PoolSys.Stuck (s : PoolSys τ) : Prop :=
  queueEmpty s.pool.links .wq = false ∧ (∃ w < s.pool.nthreads, w ∉ s.exited)
    ∧ ∀ w < s.pool.nthreads, w ∉ s.exited → w ∈ s.waiting.blocked

/-- **The workers and the counter.** -/
structure WorkerInv (s : PoolSys τ) (nodes : List (PoolNode τ)) : Prop where
  /-- Every worker is somewhere, and nowhere else. -/
  workers : s.workers.Perm (List.range s.pool.nthreads)
  /-- There is a worker, and not too many for the counter. -/
  bound : 0 < s.pool.nthreads ∧ s.pool.nthreads ≤ 128
  /-- `idle_threads` counts the workers inside `cond_wait`. -/
  idle : s.pool.idleThreads.toNat = s.waiting.size
  /-- A queue that is not empty has a worker, or none is blocked. -/
  awake : nodes ≠ [] → s.waiting.blocked ≠ [] → s.Awake

/-- The worker `w` has the lock; the others are as in `s`. -/
structure Held (s : PoolSys τ) (w : Nat) : Prop where
  /-- Every worker is somewhere, and nowhere else. -/
  workers : (w :: s.workers).Perm (List.range s.pool.nthreads)
  /-- There is a worker, and not too many for the counter. -/
  bound : 0 < s.pool.nthreads ∧ s.pool.nthreads ≤ 128
  /-- `idle_threads` counts the workers inside `cond_wait`. -/
  idle : s.pool.idleThreads.toNat = s.waiting.size

/-- **The tasks**, created with the functions that `work` tells. -/
structure TaskInv (work : τ → Bool) (acts : List (PoolAct τ)) (s : PoolSys τ) : Prop where
  /-- A task that runs has been submitted. -/
  running : ∀ p ∈ s.running, .task p.2 ∈ posts acts
  /-- A task that has not been submitted has its function. -/
  work : ∀ t, .task t ∉ posts acts → s.pool.work t = work t

/-- **The invariant of a run.** -/
structure PoolInv (work : τ → Bool) (acts : List (PoolAct τ)) (evs : List (PoolEvent τ))
    (s : PoolSys τ) (nodes : List (PoolNode τ)) : Prop where
  /-- The queue. -/
  queue : QueueInv acts evs s.pool s.exited nodes
  /-- The workers. -/
  worker : WorkerInv s nodes
  /-- The tasks. -/
  tasks : TaskInv work acts s

section WorkerSteps

variable {work : τ → Bool} {acts : List (PoolAct τ)} {evs : List (PoolEvent τ)} {s s' : PoolSys τ}
  {nodes nodes' : List (PoolNode τ)} {a : PoolAct τ} {w pick : Nat}

omit [DecidableEq τ] in
/-- The workers inside `cond_wait` are some of all. -/
theorem size_le_workers (s : PoolSys τ) : s.waiting.size ≤ s.workers.length := by
  rw [PoolSys.workers, List.length_append, List.length_append, length_members]
  omega

omit [DecidableEq τ] in
/-- A change of the links or inside `cond_wait` leaves the workers where they are. -/
theorem WorkerInv.rewait (h : WorkerInv s nodes) {pool : Threadpool τ} {waiting : WaitSet Nat}
    (hn : pool.nthreads = s.pool.nthreads) (hidle : pool.idleThreads = s.pool.idleThreads)
    (hperm : waiting.members.Perm s.waiting.members)
    (hawake : nodes' ≠ [] → waiting.blocked ≠ [] →
      PoolSys.Awake { s with pool := pool, waiting := waiting }) :
    WorkerInv { s with pool := pool, waiting := waiting } nodes' := by
  refine { workers := ?_, bound := hn ▸ h.bound, idle := ?_, awake := hawake }
  · show List.Perm _ (List.range pool.nthreads)
    rw [hn]
    exact ((hperm.append_right _).append_left _).trans h.workers
  · show pool.idleThreads.toNat = waiting.size
    rw [hidle, h.idle, ← length_members, ← length_members, hperm.length_eq]

omit [DecidableEq τ] in
/-- **A post wakes a worker if one is blocked.** -/
theorem WorkerInv.post (h : WorkerInv s nodes) {r : Bool × Threadpool τ}
    (hr : r.1 = decide (0 < s.pool.idleThreads)) (hlinks : Relinked s.pool r.2 nodes') :
    WorkerInv (postSection s pick r) nodes' := by
  unfold postSection
  by_cases hidle : 0 < s.pool.idleThreads
  · simp only [hr, decide_eq_true hidle, if_true]
    refine h.rewait hlinks.nthreads hlinks.idle (s.waiting.signal_members pick) fun _ hb => ?_
    exact .inr (.inl (signal_blocked hb))
  · simp only [hr, decide_eq_false hidle, Bool.false_eq_true, if_false]
    refine h.rewait hlinks.nthreads hlinks.idle (.refl _) fun _ hb => ?_
    -- nobody is inside `cond_wait`
    have hzero : s.pool.idleThreads.toNat ≤ 0 := not_lt.mp hidle
    rw [h.idle, size] at hzero
    have hpos := List.length_pos_iff.mpr hb
    omega

omit [DecidableEq τ] in
/-- A step that starts nothing but submitted tasks and finishes none. -/
theorem TaskInv.step (h : TaskInv work acts s)
    (hrunning : ∀ p ∈ s'.running, p ∈ s.running ∨ .task p.2 ∈ posts acts)
    (hwork : s'.pool.work = s.pool.work) : TaskInv work (acts ++ [a]) s' := by
  constructor
  · intro p hp
    rcases hrunning p hp with hold | hnew
    · exact mem_posts_snoc (h.running p hold) a
    · exact mem_posts_snoc hnew a
  · intro t ht
    rw [hwork]
    exact h.work t fun hmem => ht (mem_posts_snoc hmem a)

omit [DecidableEq τ] in
/-- The worker goes to sleep and counts itself. -/
theorem Held.wait (hw : Held s w) :
    WorkerInv { s with pool := { s.pool with idleThreads := s.pool.idleThreads + 1 },
                       waiting := s.waiting.wait w } [] := by
  have hperm := s.waiting.wait_members w
  refine { workers := ?_, bound := hw.bound, idle := ?_, awake := fun hne => absurd rfl hne }
  · refine List.Perm.trans ?_ hw.workers
    exact ((hperm.append_right _).append_left _).trans List.perm_middle
  · -- there are too few workers for the counter to wrap around
    have hsize := size_le_workers s
    have hlen := hw.workers.length_eq
    rw [List.length_cons, List.length_range] at hlen
    have hlen' := hperm.length_eq
    rw [List.length_cons, length_members, length_members] at hlen'
    have hbound := hw.bound
    have hone : (1 : UInt32).toNat = 1 := rfl
    show (s.pool.idleThreads + 1).toNat = (s.waiting.wait w).size
    rw [hlen', UInt32.toNat_add, hw.idle, hone]
    exact Nat.mod_eq_of_lt (by omega)

omit [DecidableEq τ] in
/-- The worker ends and passes the signal on. -/
theorem Held.stop (hw : Held s w) (pick : Nat) :
    WorkerInv { s with waiting := s.waiting.signal pick, exited := s.exited ++ [w] } nodes := by
  have hperm := s.waiting.signal_members pick
  refine { workers := ?_, bound := hw.bound, idle := ?_, awake := ?_ }
  · refine List.Perm.trans ?_ hw.workers
    refine ((hperm.append_right _).append_left _).trans ?_
    have hlast := List.perm_append_singleton w s.workers
    simp only [PoolSys.workers, List.append_assoc] at hlast
    exact hlast
  · show s.pool.idleThreads.toNat = (s.waiting.signal pick).size
    rw [hw.idle, ← length_members, ← length_members, hperm.length_eq]
  · intro _ hb
    exact .inr (.inl (signal_blocked hb))

omit [DecidableEq τ] in
/-- The worker runs a task. -/
theorem Held.run (hw : Held s w) {pool : Threadpool τ} (hlinks : Relinked s.pool pool nodes) (t : τ) :
    WorkerInv { s with pool := pool, running := s.running ++ [(w, t)] } nodes := by
  refine { workers := ?_, bound := hlinks.nthreads ▸ hw.bound, idle := ?_, awake := ?_ }
  · show List.Perm _ (List.range pool.nthreads)
    rw [hlinks.nthreads]
    refine List.Perm.trans ?_ hw.workers
    have hmiddle : (s.ready ++ (s.waiting.members ++ s.running.map Prod.fst) ++ w :: s.exited).Perm
        (w :: (s.ready ++ (s.waiting.members ++ s.running.map Prod.fst) ++ s.exited)) :=
      List.perm_middle
    simp only [PoolSys.workers, List.map_append, List.map_cons, List.map_nil, List.append_assoc,
      List.singleton_append] at hmiddle ⊢
    exact hmiddle
  · show pool.idleThreads.toNat = s.waiting.size
    rw [hlinks.idle, hw.idle]
  · intro _ _
    exact .inr (.inr (.inr (List.append_ne_nil_of_right_ne_nil _ (List.cons_ne_nil _ []))))

/-- A section of a worker, by what stands at the head of the queue. -/
theorem workSection_spec (hq : QueueInv acts evs s.pool s.exited nodes) (hw : Held s w)
    (ht : TaskInv work acts s) (ha : a.posted = none) :
    Returns (workSection s w pick) fun r =>
      ∃ nodes', PoolInv work (acts ++ [a]) (evs ++ [r.1]) r.2 nodes' := by
  cases nodes with
  | nil =>
    rw [workSection, workerSection_nil hq.circle, exec_ok_bind]
    exact returns_ok ⟨[], hq.skip ha rfl rfl rfl, hw.wait, ht.step (fun _ => .inl) rfl⟩
  | cons q l =>
    cases q with
    | wq => exact absurd List.mem_cons_self (List.nodup_cons.mp hq.circle.nodup).1
    | exitMessage =>
      rw [workSection, workerSection_exit hq.circle, exec_ok_bind]
      have hskip : QueueInv (acts ++ [a]) (evs ++ [.exited w]) s.pool s.exited
          (.exitMessage :: l) := hq.skip ha rfl rfl rfl
      exact returns_ok ⟨.exitMessage :: l, { hskip with stopped := fun _ => rfl }, hw.stop pick,
        ht.step (fun _ => .inl) rfl⟩
    | task t =>
      obtain ⟨⟨next, pool'⟩, hrun, hnext, hlinks⟩ := workerSection_task hq.circle
      obtain rfl : next = .run t := hnext
      rw [workSection, hrun, exec_ok_bind]
      have hposted : .task t ∈ posts acts := hq.mem_posts List.mem_cons_self
      refine returns_ok ⟨l, hq.dequeue ha hlinks, hw.run hlinks t, ht.step ?_ hlinks.work⟩
      intro p hp
      rcases List.mem_append.mp hp with hold | hnew
      · exact .inl hold
      · rw [List.mem_singleton.mp hnew]
        exact .inr hposted

/-- A step that leaves the links alone and moves the workers. -/
theorem PoolInv.move (h : PoolInv work acts evs s nodes) (ha : a.posted = none)
    (hlinks : s'.pool.links = s.pool.links) (hexited : s'.exited = s.exited)
    (hw : WorkerInv s' nodes) (ht : TaskInv work (acts ++ [a]) s') :
    PoolInv work (acts ++ [a]) (evs ++ [.none]) s' nodes :=
  ⟨hexited ▸ h.queue.skip ha hlinks rfl rfl, hw, ht⟩

/-- A schedule that asks for a worker that is not there. -/
theorem PoolInv.idleStep (h : PoolInv work acts evs s nodes) (ha : a.posted = none) :
    PoolInv work (acts ++ [a]) (evs ++ [.none]) s nodes :=
  h.move ha rfl rfl h.worker (h.tasks.step (fun _ => .inl) rfl)

/-- **`threadpool_cancel` is called at a time when it can tell**: the task is queued, or no task is,
or the task has been run. -/
def CancelSafe (s : PoolSys τ) : PoolAct τ → Prop
  | .cancel t => (∃ nodes, s.pool.links.Circle .wq nodes ∧ .task t ∈ nodes)
      ∨ queueEmpty s.pool.links .wq = true ∨ s.pool.work t = false
  | _ => True

/-- A node that has not been posted is appended. -/
theorem PoolInv.post (h : PoolInv work acts evs s nodes) {q : PoolNode τ} (ha : a.posted = some q)
    (hfresh : q ∉ posts acts) (hne : q ≠ .wq) (pick : Nat) :
    Returns (post s.pool q) fun r => ∃ nodes',
      PoolInv work (acts ++ [a]) (evs ++ [.none]) (postSection s pick r) nodes' := by
  have hout : q ∉ .wq :: nodes := by
    intro hmem
    rcases List.mem_cons.mp hmem with heq | hmem
    · exact hne heq
    · exact hfresh (h.queue.mem_posts hmem)
  refine (post_spec h.queue.circle hout).imp fun r ⟨hsig, hlinks⟩ => ?_
  exact ⟨_, h.queue.post ha hfresh hlinks, h.worker.post hsig hlinks,
    h.tasks.step (fun _ => .inl) hlinks.work⟩

/-- A cancel that can tell. -/
theorem PoolInv.cancel (h : PoolInv work acts evs s nodes) (hnodup : (posts acts).Nodup) {t : τ}
    (hcancel : CancelSafe s (.cancel t)) :
    Returns (threadpoolCancel s.pool t) fun r => ∃ nodes',
      PoolInv work (acts ++ [.cancel t]) (evs ++ [.cancelled t r.1]) { s with pool := r.2 } nodes' := by
  by_cases hzero : queueEmpty s.pool.links .wq = true ∨ s.pool.work t = false
  · rw [threadpoolCancel_zero hzero]
    exact returns_ok ⟨nodes, h.queue.skip rfl rfl rfl rfl, h.worker, h.tasks.step (fun _ => .inl) rfl⟩
  · obtain ⟨nodes₀, hcircle, hmem⟩ := hcancel.resolve_right hzero
    obtain rfl := hcircle.unique h.queue.circle
    have hwork : s.pool.work t = true := by
      rw [← Bool.not_eq_false]
      exact fun hfalse => hzero (.inr hfalse)
    obtain ⟨⟨ret, pool'⟩, hrun, hret, l₁, l₂, rfl, hlinks⟩ :=
      threadpoolCancel_queued h.queue.circle hmem hwork
    obtain rfl : ret = true := hret
    rw [hrun]
    refine returns_ok ⟨l₁ ++ l₂, h.queue.cancel hnodup hlinks, ?_,
      h.tasks.step (fun _ => .inl) hlinks.work⟩
    refine h.worker.rewait hlinks.nthreads hlinks.idle (.refl _) fun _ hb => ?_
    exact h.worker.awake (List.append_ne_nil_of_right_ne_nil _ (List.cons_ne_nil _ _)) hb

omit [DecidableEq τ] in
/-- A worker at the top of its loop gets the lock. -/
theorem WorkerInv.enter (h : WorkerInv s nodes) {i : Nat} (hw : s.ready[i]? = some w) :
    Held { s with ready := s.ready.eraseIdx i } w :=
  ⟨((perm_cons_eraseIdx hw).append_right _).symm.trans h.workers, h.bound, h.idle⟩

omit [DecidableEq τ] in
/-- A worker that has been woken gets the lock, and counts itself off. -/
theorem WorkerInv.woken (h : WorkerInv s nodes) {i : Nat} {k : Wake} {waiting : WaitSet Nat}
    (hw : s.waiting.resume i k = some (w, waiting)) :
    Held { s with pool := workerWoken s.pool, waiting := waiting } w := by
  have hperm := resume_members hw
  have hlen := hperm.length_eq
  rw [length_members, List.length_cons, length_members] at hlen
  refine ⟨List.Perm.trans ?_ h.workers, h.bound, ?_⟩
  · exact (((hperm.append_right _).append_left _).trans List.perm_middle).symm
  · show (s.pool.idleThreads - 1).toNat = waiting.size
    have hle : (1 : UInt32) ≤ s.pool.idleThreads := by
      rw [UInt32.le_iff_toNat_le, h.idle, hlen]
      exact Nat.le_add_left 1 _
    rw [UInt32.toNat_sub_of_le _ _ hle, h.idle, hlen]
    rfl

omit [DecidableEq τ] in
/-- A spurious wake-up. -/
theorem WorkerInv.spurious (h : WorkerInv s nodes) (i : Nat) :
    WorkerInv { s with waiting := s.waiting.wakeUp i } nodes := by
  refine h.rewait rfl rfl (s.waiting.wakeUp_members i) fun hne hb => ?_
  rcases s.waiting.wakeUp_cases i with heq | ⟨t, ht, heq⟩
  · rw [PoolSys.Awake, heq]
    rw [heq] at hb
    exact h.awake hne hb
  · refine .inr (.inr (.inl ?_))
    show (s.waiting.wakeUp i).spurious ≠ []
    rw [heq]
    exact List.append_ne_nil_of_right_ne_nil _ (List.cons_ne_nil t [])

/-- A worker is done with its task and goes back to the top of its loop. -/
theorem WorkerInv.done (h : WorkerInv s nodes) {i : Nat} {t : τ} (hw : s.running[i]? = some (w, t)) :
    WorkerInv { s with pool := workerDone s.pool t, running := s.running.eraseIdx i,
                       ready := s.ready ++ [w] } nodes := by
  refine { workers := ?_, bound := h.bound, idle := h.idle, awake := fun _ _ => ?_ }
  · refine List.Perm.trans ?_ h.workers
    have hout : (s.running.map Prod.fst).Perm (w :: (s.running.eraseIdx i).map Prod.fst) :=
      (perm_cons_eraseIdx hw).map Prod.fst
    have hin := (((hout.append_right s.exited).append_left s.waiting.members).trans
      List.perm_middle).append_left s.ready
    refine List.Perm.trans ?_ hin.symm
    simp only [PoolSys.workers, List.append_assoc, List.singleton_append]
    exact .refl _
  · exact .inl (List.append_ne_nil_of_right_ne_nil _ (List.cons_ne_nil w []))

/-- The function of a task that has been run is reset; the task had been submitted. -/
theorem TaskInv.done (h : TaskInv work acts s) {i : Nat} {t : τ} (hw : s.running[i]? = some (w, t)) :
    TaskInv work (acts ++ [a]) { s with pool := workerDone s.pool t, running := s.running.eraseIdx i,
                                        ready := s.ready ++ [w] } := by
  constructor
  · intro p hp
    exact mem_posts_snoc (h.running p (List.mem_of_mem_eraseIdx hp)) a
  · intro u hu
    have hold : .task u ∉ posts acts := fun hmem => hu (mem_posts_snoc hmem a)
    have hne : u ≠ t := by
      rintro rfl
      exact hold (h.running (w, u) (List.mem_of_getElem? hw))
    show Function.update s.pool.work t false u = work u
    rw [Function.update_of_ne hne]
    exact h.work u hold

/-- **Every step keeps the invariant**, when what it posts is new and a cancel can tell. -/
theorem poolStep_spec (h : PoolInv work acts evs s nodes) (a : PoolAct τ) (hnodup : (posts acts).Nodup)
    (hfresh : ∀ q, a.posted = some q → q ∉ posts acts)
    (hwork : ∀ t pick, a = .submit t pick → work t = true) (hcancel : CancelSafe s a) :
    Returns (poolStep s a) fun r =>
      ∃ nodes', PoolInv work (acts ++ [a]) (evs ++ [r.1]) r.2 nodes' := by
  cases a with
  | submit t pick =>
    have hassert : s.pool.work t = true := (h.tasks.work t (hfresh _ rfl)).trans (hwork t pick rfl)
    rw [poolStep, threadpoolSubmit, cassert_bind_of hassert]
    exact (h.post rfl (hfresh _ rfl) (fun heq => nomatch heq) pick).bind fun _ h' => returns_ok h'
  | release pick =>
    rw [poolStep, threadpoolRelease]
    exact (h.post rfl (hfresh _ rfl) (fun heq => nomatch heq) pick).bind fun _ h' => returns_ok h'
  | cancel t =>
    rw [poolStep]
    exact (h.cancel hnodup hcancel).bind fun _ h' => returns_ok h'
  | enter i pick =>
    rw [poolStep]
    cases hw : s.ready[i]? with
    | none => exact returns_ok ⟨nodes, h.idleStep rfl⟩
    | some w =>
      have hqueue : QueueInv acts evs s.pool s.exited nodes := h.queue
      exact workSection_spec (s := { s with ready := s.ready.eraseIdx i }) hqueue (h.worker.enter hw)
        ⟨h.tasks.running, h.tasks.work⟩ rfl
  | woken i k pick =>
    rw [poolStep]
    cases hw : s.waiting.resume i k with
    | none => exact returns_ok ⟨nodes, h.idleStep rfl⟩
    | some p =>
      obtain ⟨w, waiting⟩ := p
      have hqueue : QueueInv acts evs (workerWoken s.pool) s.exited nodes :=
        { circle := h.queue.circle, order := h.queue.order, nodup := h.queue.nodup,
          posted := h.queue.posted, asked := h.queue.asked, stopped := h.queue.stopped }
      exact workSection_spec (s := { s with pool := workerWoken s.pool, waiting := waiting }) hqueue
        (h.worker.woken hw) ⟨h.tasks.running, h.tasks.work⟩ rfl
  | done i =>
    rw [poolStep]
    cases hw : s.running[i]? with
    | none => exact returns_ok ⟨nodes, h.idleStep rfl⟩
    | some p => exact returns_ok ⟨nodes, h.move rfl rfl rfl (h.worker.done hw) (h.tasks.done hw)⟩
  | spurious i =>
    rw [poolStep]
    exact returns_ok ⟨nodes, h.move rfl rfl rfl (h.worker.spurious i)
      (h.tasks.step (fun _ => .inl) rfl)⟩

end WorkerSteps

/-! ### Runs -/

section Runs

variable {acts : List (PoolAct τ)} {evs : List (PoolEvent τ)} {s : PoolSys τ}
  {nodes : List (PoolNode τ)} {size : Int} {work : τ → Bool}

/-- A new pool. -/
theorem poolInv_start (size : Int) (work : τ → Bool) :
    PoolInv work [] [] (poolStart size work) [] := by
  have hsize : 0 < (threadpoolSize size).toNat ∧ (threadpoolSize size).toNat ≤ 128 := by
    have hbounds : 1 ≤ threadpoolSize size ∧ threadpoolSize size ≤ 128 := by
      simp only [threadpoolSize, maxThreadpoolSize]
      split_ifs <;> omega
    omega
  refine ⟨⟨queueInit_circle _ _, rfl, List.nodup_nil, ?_, ?_, fun hne => absurd rfl hne⟩, ?_,
    ⟨?_, fun _ _ => rfl⟩⟩
  · intro t ht
    cases ht
  · intro t ht
    cases ht
  rotate_left
  · intro p hp
    cases hp
  · refine { workers := ?_, bound := hsize, idle := rfl, awake := fun hne => absurd rfl hne }
    simp [PoolSys.workers, poolStart, WaitSet.members, WaitSet.empty, threadpoolCreate]

/-- **Every run returns and keeps the invariant**, when the nodes posted are different ones, the
tasks submitted have a function and the cancels can tell. -/
theorem poolRun_spec (honce : (posts acts).Nodup) (hwork : ∀ t ∈ submits acts, work t = true)
    (hadm : Admissible poolStep CancelSafe (poolStart size work) acts) :
    Returns (runOps poolStep (poolStart size work) acts) fun p =>
      ∃ nodes, PoolInv work acts p.1 p.2 nodes := by
  refine runOps_returns_calls (I := fun acts evs s => ∃ nodes, PoolInv work acts evs s nodes)
    (fun before a after evs s heq ⟨nodes, h⟩ hcancel => ?_) ⟨[], poolInv_start size work⟩ hadm
  have hsplit : (posts before ++ (a.posted.toList ++ posts after)).Nodup := by
    rw [← List.append_assoc, ← posts_snoc, ← posts_append, ← List.append_cons, ← heq]
    exact honce
  obtain ⟨hbefore, -, hdisj⟩ := List.nodup_append.mp hsplit
  have hfresh (q : PoolNode τ) (hq : a.posted = some q) : q ∉ posts before := by
    intro hmem
    refine hdisj q hmem q (List.mem_append_left _ ?_) rfl
    rw [hq]
    exact List.mem_cons_self
  refine poolStep_spec h a hbefore hfresh (fun t pick ha => hwork t ?_) hcancel
  refine List.mem_filterMap.mpr ⟨a, ?_, ?_⟩
  · rw [heq]
    exact List.mem_append_right _ List.mem_cons_self
  · rw [ha]

/-- The task of a node. -/
def PoolNode.task? : PoolNode τ → Option τ
  | .task t => some t
  | _ => none

omit [DecidableEq τ] in
/-- Tasks as nodes, and back. -/
theorem filterMap_task (ts : List τ) : (ts.map PoolNode.task).filterMap PoolNode.task? = ts := by
  rw [List.filterMap_map]
  exact List.filterMap_some

omit [DecidableEq τ] in
/-- The tasks posted are those submitted. -/
theorem posts_tasks (acts : List (PoolAct τ)) :
    (posts acts).filterMap PoolNode.task? = submits acts := by
  unfold posts submits
  rw [List.filterMap_filterMap]
  refine List.filterMap_congr fun a _ => ?_
  cases a <;> rfl

omit [DecidableEq τ] in
/-- A filter that looks at the tasks only. -/
theorem filterMap_filter_task {p : PoolNode τ → Bool} {p' : τ → Bool}
    (hp : ∀ t, p (.task t) = p' t) (l : List (PoolNode τ)) :
    (l.filter p).filterMap PoolNode.task? = (l.filterMap PoolNode.task?).filter p' := by
  induction l with
  | nil => rfl
  | cons q l ih =>
    cases q with
    | task t =>
      rw [List.filter_cons, hp]
      cases ht : p' t with
      | true => simp only [if_true, List.filterMap_cons, PoolNode.task?, ih, List.filter_cons, ht]
      | false =>
        simp only [Bool.false_eq_true, if_false, List.filterMap_cons, PoolNode.task?, ih,
          List.filter_cons, ht]
    | _ =>
      rw [List.filter_cons]
      split_ifs
      · rw [List.filterMap_cons, ih]
        rfl
      · rw [ih]
        rfl

/-- The tasks among the nodes that are kept. -/
theorem kept_tasks (acts : List (PoolAct τ)) (evs : List (PoolEvent τ)) :
    (kept acts evs).filterMap PoolNode.task?
      = (submits acts).filter fun t => decide (t ∉ cancelledTasks evs) := by
  rw [kept, ← posts_tasks]
  refine filterMap_filter_task (fun t => ?_) _
  rw [decide_eq_decide, not_iff_not]
  exact List.mem_map_of_injective fun t u heq => PoolNode.task.inj heq

/-- **The tasks submitted, less those cancelled, are dequeued or queued**, in this order. -/
theorem QueueInv.tasks {pool : Threadpool τ} {exited : List Nat}
    (h : QueueInv acts evs pool exited nodes) :
    dequeuedTasks evs ++ nodes.filterMap PoolNode.task?
      = (submits acts).filter fun t => decide (t ∉ cancelledTasks evs) := by
  rw [← kept_tasks, h.order, List.filterMap_append, filterMap_task]

/-- **When a worker has ended, the tasks submitted before the exit message have been dequeued.** -/
theorem QueueInv.drained {pool : Threadpool τ} {exited : List Nat}
    (h : QueueInv acts evs pool exited nodes) (honce : (posts acts).Nodup) (hexited : exited ≠ [])
    {before after : List (PoolAct τ)} {pick : Nat} (hacts : acts = before ++ .release pick :: after) :
    dequeuedTasks evs = (submits before).filter fun t => decide (t ∉ cancelledTasks evs) := by
  obtain ⟨l, rfl⟩ : ∃ l, nodes = .exitMessage :: l := List.head?_eq_some_iff.mp (h.stopped hexited)
  have hposts : posts acts = posts before ++ .exitMessage :: posts after := by
    rw [hacts, posts_append]
    rfl
  rw [hposts] at honce
  obtain ⟨-, hback, hdisj⟩ := List.nodup_append.mp honce
  have hleft : .exitMessage ∉ kept before evs := fun hmem =>
    hdisj _ (List.mem_of_mem_filter hmem) _ List.mem_cons_self rfl
  have hright : .exitMessage ∉ kept after evs := fun hmem =>
    (List.nodup_cons.mp hback).1 (List.mem_of_mem_filter hmem)
  -- the exit message stands once, behind the tasks dequeued
  have hkept : kept acts evs = kept before evs ++ .exitMessage :: kept after evs := by
    rw [kept, hposts, List.filter_append, List.filter_cons_of_pos (by simp), kept, kept]
  have horder := h.order
  rw [hkept, List.append_cons_inj_of_notMem hleft hright] at horder
  rw [← kept_tasks, horder.1, filterMap_task]

/-- **No wake-up is lost.** -/
theorem PoolInv.not_stuck (h : PoolInv work acts evs s nodes) : ¬ s.Stuck := by
  rintro ⟨hempty, ⟨w, hw, hexited⟩, hall⟩
  have hne : nodes ≠ [] := by
    intro hnil
    rw [h.queue.circle.empty_iff.mpr hnil] at hempty
    cases hempty
  have hblocked : s.waiting.blocked ≠ [] := List.ne_nil_of_mem (hall w hw hexited)
  have hnodup : s.workers.Nodup := h.worker.workers.nodup_iff.mpr List.nodup_range
  have hlt {v : Nat} (hv : v ∈ s.workers) : v < s.pool.nthreads :=
    List.mem_range.mp (h.worker.workers.mem_iff.mp hv)
  -- a worker that is awake is neither blocked nor has it ended
  have hawake {v : Nat} (hv : v ∈ s.ready ∨ v ∈ s.waiting.notified ∨ v ∈ s.waiting.spurious
      ∨ v ∈ s.running.map Prod.fst) : False := by
    simp only [PoolSys.workers, WaitSet.members, List.nodup_append, List.mem_append] at hnodup hlt
    have hmem : v ∈ s.ready ∨ ((v ∈ s.waiting.blocked ∨ v ∈ s.waiting.notified)
        ∨ v ∈ s.waiting.spurious) ∨ v ∈ s.running.map Prod.fst ∨ v ∈ s.exited := by tauto
    have hin : v ∈ s.waiting.blocked ∨ v ∈ s.exited := by
      by_cases hex : v ∈ s.exited
      · exact .inr hex
      · exact .inl (hall v (hlt hmem) hex)
    grind
  rcases h.worker.awake hne hblocked with hready | hnotified | hspurious | hrunning
  · obtain ⟨v, hv⟩ := List.exists_mem_of_ne_nil _ hready
    exact hawake (.inl hv)
  · obtain ⟨v, hv⟩ := List.exists_mem_of_ne_nil _ hnotified
    exact hawake (.inr (.inl hv))
  · obtain ⟨v, hv⟩ := List.exists_mem_of_ne_nil _ hspurious
    exact hawake (.inr (.inr (.inl hv)))
  · obtain ⟨v, hv⟩ := List.exists_mem_of_ne_nil _ hrunning
    exact hawake (.inr (.inr (.inr (List.mem_map_of_mem hv))))

end Runs

/-- Without a cancel every run is safe. -/
theorem cancelSafe_of_no_cancel {s : PoolSys τ} {acts : List (PoolAct τ)}
    (h : ∀ t, .cancel t ∉ acts) : Admissible poolStep CancelSafe s acts := by
  induction acts generalizing s with
  | nil => trivial
  | cons a acts ih =>
    refine ⟨?_, fun _ s' _ => ih fun t hmem => h t (List.mem_cons_of_mem a hmem)⟩
    cases a with
    | cancel t => exact absurd List.mem_cons_self (h t)
    | _ => trivial

/-- **A pool without cancels**: every run returns; tasks are dequeued in the order in which they
were submitted, each once; when all workers have ended, those submitted before the exit message have
all been dequeued; and never is the queue not empty while all workers that have not ended are
blocked. -/
theorem pool_runs_in_order (τ : Type) [DecidableEq τ] (size : Int) (work : τ → Bool)
    (acts : List (PoolAct τ)) (honce : (posts acts).Nodup) (hwork : ∀ t ∈ submits acts, work t = true)
    (hnone : ∀ t, .cancel t ∉ acts) :
    Returns (runOps poolStep (poolStart size work) acts) fun p =>
      dequeuedTasks p.1 <+: submits acts
      ∧ (∀ before pick after, acts = before ++ .release pick :: after →
        (∀ w < p.2.pool.nthreads, w ∈ p.2.exited) → dequeuedTasks p.1 = submits before)
      ∧ ¬ p.2.Stuck := by
  refine (poolRun_spec honce hwork (cancelSafe_of_no_cancel hnone)).imp fun ⟨evs, s⟩ ⟨nodes, h⟩ => ?_
  have hcan : cancelledTasks evs = [] :=
    List.eq_nil_iff_forall_not_mem.mpr fun t ht => hnone t (h.queue.asked t ht)
  have hall (ts : List τ) : ts.filter (fun t => decide (t ∉ cancelledTasks evs)) = ts := by
    rw [hcan]
    exact List.filter_eq_self.mpr fun t _ => decide_eq_true List.not_mem_nil
  refine ⟨?_, ?_, h.not_stuck⟩
  · rw [← hall (submits acts), ← h.queue.tasks]
    exact List.prefix_append _ _
  · intro before pick after hacts hexited
    rw [h.queue.drained honce (List.ne_nil_of_mem (hexited 0 h.worker.bound.1)) hacts, hall]

/-- Two workers: one goes to sleep, is signalled for the first task and comes too late for it,
sleeps again and gets the second; the exit message is posted, and a task behind it; both end. -/
def twoWorkers : List (PoolAct Nat) :=
  [.enter 0 0, .submit 7 0, .enter 0 0, .woken 0 .notified 0, .submit 8 0, .spurious 0, .release 0,
    .woken 0 .notified 0, .done 0, .done 0, .submit 9 0, .enter 0 0, .enter 0 0]

/-- That schedule. -/
theorem pool_runs_in_order_two :
    Returns (runOps poolStep (poolStart 2 fun _ => true) twoWorkers) fun p =>
      dequeuedTasks p.1 <+: submits twoWorkers
      ∧ (∀ before pick after, twoWorkers = before ++ .release pick :: after →
        (∀ w < p.2.pool.nthreads, w ∈ p.2.exited) → dequeuedTasks p.1 = submits before)
      ∧ ¬ p.2.Stuck :=
  pool_runs_in_order Nat 2 (fun _ => true) twoWorkers (by decide) (fun _ _ => rfl)
    (by simp [twoWorkers])

/-- **A cancel that can tell excludes execution**: every run returns; a task that has been cancelled
is never dequeued and is cancelled once; the other tasks submitted are dequeued or still queued, in
order; and the pool goes on as without cancels. -/
theorem pool_cancel_excludes (τ : Type) [DecidableEq τ] (size : Int) (work : τ → Bool)
    (acts : List (PoolAct τ)) (honce : (posts acts).Nodup) (hwork : ∀ t ∈ submits acts, work t = true)
    (hsafe : Admissible poolStep CancelSafe (poolStart size work) acts) :
    Returns (runOps poolStep (poolStart size work) acts) fun p =>
      (∀ t ∈ cancelledTasks p.1, t ∉ dequeuedTasks p.1) ∧ (cancelledTasks p.1).Nodup
      ∧ (∃ nodes, p.2.pool.links.Circle .wq nodes
        ∧ dequeuedTasks p.1 ++ nodes.filterMap PoolNode.task?
          = (submits acts).filter fun t => decide (t ∉ cancelledTasks p.1))
      ∧ (∀ before pick after, acts = before ++ .release pick :: after →
        (∀ w < p.2.pool.nthreads, w ∈ p.2.exited) →
        dequeuedTasks p.1 = (submits before).filter fun t => decide (t ∉ cancelledTasks p.1))
      ∧ ¬ p.2.Stuck := by
  refine (poolRun_spec honce hwork hsafe).imp fun ⟨evs, s⟩ ⟨nodes, h⟩ => ?_
  refine ⟨?_, h.queue.nodup, ⟨nodes, h.queue.circle, h.queue.tasks⟩, ?_, h.not_stuck⟩
  · intro t ht hdeq
    have hmem : t ∈ (submits acts).filter fun t => decide (t ∉ cancelledTasks evs) := by
      rw [← h.queue.tasks]
      exact List.mem_append_left _ hdeq
    exact of_decide_eq_true (List.mem_filter.mp hmem).2 ht
  · intro before pick after hacts hexited
    exact h.queue.drained honce (List.ne_nil_of_mem (hexited 0 h.worker.bound.1)) hacts

/-- Three tasks for one worker. The second is cancelled while it is queued, the first when it has
been run, the third while it runs and the queue is empty. -/
def timelyCancels : List (PoolAct Nat) :=
  [.submit 7 0, .submit 8 0, .submit 9 0, .cancel 8, .enter 0 0, .done 0, .cancel 7, .enter 0 0,
    .cancel 9]

/-- That schedule: only the cancel of the queued task succeeds. -/
theorem pool_cancel_excludes_one :
    Returns (runOps poolStep (poolStart 1 fun _ => true) timelyCancels)
      (fun p => cancelledTasks p.1 = [8])
    ∧ Returns (runOps poolStep (poolStart 1 fun _ => true) timelyCancels) fun p =>
      (∀ t ∈ cancelledTasks p.1, t ∉ dequeuedTasks p.1) ∧ (cancelledTasks p.1).Nodup
      ∧ (∃ nodes, p.2.pool.links.Circle .wq nodes
        ∧ dequeuedTasks p.1 ++ nodes.filterMap PoolNode.task?
          = (submits timelyCancels).filter fun t => decide (t ∉ cancelledTasks p.1))
      ∧ (∀ before pick after, timelyCancels = before ++ .release pick :: after →
        (∀ w < p.2.pool.nthreads, w ∈ p.2.exited) →
        dequeuedTasks p.1 = (submits before).filter fun t => decide (t ∉ cancelledTasks p.1))
      ∧ ¬ p.2.Stuck := by
  refine ⟨⟨_, rfl, by decide⟩, pool_cancel_excludes Nat 1 (fun _ => true) timelyCancels (by decide)
    (fun _ _ => rfl) ?_⟩
  -- the states on the way are computed, one action after the other
  refine ⟨trivial, fun _ _ h₁ => ?_⟩
  cases h₁
  refine ⟨trivial, fun _ _ h₂ => ?_⟩
  cases h₂
  refine ⟨trivial, fun _ _ h₃ => ?_⟩
  cases h₃
  refine ⟨.inl ⟨[.task 7, .task 8, .task 9], ⟨by decide, by decide⟩, by decide⟩, fun _ _ h₄ => ?_⟩
  cases h₄
  refine ⟨trivial, fun _ _ h₅ => ?_⟩
  cases h₅
  refine ⟨trivial, fun _ _ h₆ => ?_⟩
  cases h₆
  refine ⟨.inr (.inr rfl), fun _ _ h₇ => ?_⟩
  cases h₇
  refine ⟨trivial, fun _ _ h₈ => ?_⟩
  cases h₈
  exact ⟨.inr (.inl rfl), fun _ _ _ => trivial⟩

/-- A task that runs while another one is queued. -/
def lateCancel : List (PoolAct Nat) := [.submit 7 0, .submit 8 0, .enter 0 0, .cancel 7]

/-- `threadpool_cancel` returns a value other than zero for it. -/
theorem pool_cancels_running : ∃ evs s,
    runOps poolStep (poolStart 1 fun _ => true) lateCancel = .ok (evs, s) ∧ (posts lateCancel).Nodup
      ∧ 7 ∈ dequeuedTasks evs ∧ 7 ∈ cancelledTasks evs :=
  ⟨_, _, rfl, by decide, by decide, by decide⟩

end Wee
